import MailFilter.Proofs.Reading.Shapes
import MailFilter.Proofs.Script.Texts

/-!
# What marks do not tell

The shape of a command and its texts do not depend on its marks, so they are known from the command as
data without marks.
-/

namespace MailFilter

variable {α β : Type} {σ τ : Type}

def Head.unmarked [Leaf τ] (h : Head α τ) : Head Unit Value := h.map (fun _ => ()) Leaf.value

/-! ## Shapes -/

section Shapes

variable (f : α → β) (g : σ → τ)

theorem Argument.test?_map (a : Argument α σ) :
    (a.map f g).test? = a.test?.map (Argument.mapTest f g) := by
  cases a <;> rfl

mutual

theorem Test.items_mapTest : ∀ t : Test α σ,
    (Argument.mapTest f g t).items = t.items.map (Argument.map f g)
  | .mk name as ts m => by
      rw [Argument.mapTest, Test.items, Test.items, Test.itemsOf_mapAll ts, List.map_cons,
        Argument.map, Argument.mapTest]

theorem Test.itemsOf_mapAll : ∀ as : List (Argument α σ),
    Test.itemsOf (Argument.mapAll f g as) = (Test.itemsOf as).map (Argument.map f g)
  | [] => rfl
  | .test t :: as => by
      rw [Argument.mapAll, Argument.map, Test.itemsOf, Test.itemsOf, Test.items_mapTest t,
        Test.itemsOf_mapAll as, List.map_append]
  | .string .. :: as | .strings .. :: as | .number .. :: as | .tag .. :: as | .foreign .. :: as =>
      congrArg (_ :: ·) (Test.itemsOf_mapAll as)

end

theorem Test.whole_mapTest (t : Test α σ) : (Argument.mapTest f g t).Whole ↔ t.Whole := by
  unfold Test.Whole
  rw [Test.items_mapTest, List.forall_mem_map]
  refine forall₂_congr fun a _ => ?_
  rw [Argument.test?_map, Option.isSome_map]

theorem Head.tests_map (h : Head α σ) : (h.map f g).tests = h.tests.map (Argument.mapTest f g) := by
  simp only [Head.tests, Head.map, Argument.mapAll_eq_map, List.filterMap_map, List.map_filterMap]
  exact List.filterMap_congr fun a _ => a.test?_map f g

theorem Head.oneTest_map (h : Head α σ) : (h.map f g).OneTest ↔ h.OneTest := by
  constructor
  · rintro ⟨hone, hwhole⟩
    rw [Head.tests_map] at hone hwhole
    rw [List.length_map] at hone
    rw [List.forall_mem_map] at hwhole
    exact ⟨hone, fun t ht => (t.whole_mapTest f g).1 (hwhole t ht)⟩
  · rintro ⟨hone, hwhole⟩
    refine ⟨?_, ?_⟩
    · rwa [Head.tests_map, List.length_map]
    · rw [Head.tests_map, List.forall_mem_map]
      exact fun t ht => (t.whole_mapTest f g).2 (hwhole t ht)

end Shapes

/-! ## Heads -/

theorem Head.oneTest_unmarked [Leaf τ] (h : Head α τ) : h.unmarked.OneTest ↔ h.OneTest :=
  h.oneTest_map _ _

theorem Head.isBareRequire_unmarked [Leaf τ] (h : Head α τ) :
    h.unmarked.isBareRequire = h.isBareRequire := by
  have hempty : (Argument.mapAll (fun _ => ()) Leaf.value h.arguments).isEmpty =
      h.arguments.isEmpty := by
    rw [Argument.mapAll_eq_map, List.isEmpty_map]
  exact congrArg (_ && ·) hempty

theorem Head.exists_text {h : Head β Value} {k : Head α} (heq : h.unmarked = k.unmarked) :
    ∃ g : Head β, h = g.map id Value.text := by
  simp only [Head.unmarked, Head.map, Head.mk.injEq, and_true] at heq
  obtain ⟨hname, harguments, hcomments⟩ := heq
  obtain ⟨as, has, -⟩ := Argument.exists_textAll _ _ harguments
  have hid : h.comments.map (Comment.map (Leaf.value : Value → Value)) = h.comments := List.map_id _
  refine ⟨⟨k.name, as, k.comments, h.mark⟩, ?_⟩
  obtain ⟨name, arguments, comments, mark⟩ := h
  simp only [Head.map, Head.mk.injEq]
  exact ⟨hname, has, hid.symm.trans hcomments, rfl⟩

end MailFilter
