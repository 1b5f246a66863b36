import MailFilter.Proofs.Result
import MailFilter.Proofs.Script.Printable
import MailFilter.Script.Layout

/-!
# Trees of text as data

A tree of text is data like any other: it has its texts for leaves.  Its marks do not matter for whether
it can be written.
-/

namespace MailFilter

variable {α β : Type} {σ τ υ : Type}

/-! ## Maps -/

mutual

theorem Argument.map_map {γ : Type} (f : α → β) (f' : β → γ) (g : σ → τ) (g' : τ → υ) :
    ∀ a : Argument α σ, (a.map f g).map f' g' = a.map (f' ∘ f) (g' ∘ g)
  | .string .. | .number .. | .tag .. | .foreign .. => rfl
  | .strings .. => by simp only [Argument.map, List.map_map, Function.comp_apply]
  | .test t => congrArg Argument.test (Argument.mapTest_mapTest f f' g g' t)

theorem Argument.mapTest_mapTest {γ : Type} (f : α → β) (f' : β → γ) (g : σ → τ) (g' : τ → υ) :
    ∀ t : Test α σ, mapTest f' g' (mapTest f g t) = mapTest (f' ∘ f) (g' ∘ g) t
  | .mk name as ts m => by
      simp only [Argument.mapTest, Argument.mapAll_mapAll f f' g g' as,
        Argument.mapAll_mapAll f f' g g' ts, Function.comp_apply]

theorem Argument.mapAll_mapAll {γ : Type} (f : α → β) (f' : β → γ) (g : σ → τ) (g' : τ → υ) :
    ∀ as : List (Argument α σ), mapAll f' g' (mapAll f g as) = mapAll (f' ∘ f) (g' ∘ g) as
  | [] => rfl
  | a :: as => by
      rw [Argument.mapAll, Argument.mapAll, Argument.mapAll, Argument.map_map f f' g g' a,
        Argument.mapAll_mapAll f f' g g' as]

end

mutual

theorem Argument.map_id : ∀ a : Argument α τ, a.map id id = a
  | .string .. | .number .. | .tag .. | .foreign .. => rfl
  | .strings .. => by simp only [Argument.map, List.map_id, id_eq]
  | .test t => congrArg Argument.test (Argument.mapTest_id t)

theorem Argument.mapTest_id : ∀ t : Test α τ, mapTest id id t = t
  | .mk name as ts m => by
      simp only [Argument.mapTest, Argument.mapAll_id as, Argument.mapAll_id ts, id_eq]

theorem Argument.mapAll_id : ∀ as : List (Argument α τ), mapAll id id as = as
  | [] => rfl
  | a :: as => by rw [Argument.mapAll, Argument.map_id a, Argument.mapAll_id as]

end

theorem Argument.mapAll_eq_map (f : α → β) (g : σ → τ) (as : List (Argument α σ)) :
    mapAll f g as = as.map (Argument.map f g) := by
  induction as with
  | nil => rfl
  | cons a as ih => rw [Argument.mapAll, ih, List.map_cons]

section Commands

variable {γ : Type} (f : α → β) (f' : β → γ) (g : σ → τ) (g' : τ → υ)

theorem Comment.mapAll_mapAll (cs : List (Comment σ)) :
    (cs.map (·.map g)).map (·.map g') = cs.map (·.map (g' ∘ g)) := List.map_map

theorem Head.map_map (h : Head α σ) : (h.map f g).map f' g' = h.map (f' ∘ f) (g' ∘ g) := by
  simp only [Head.map, Argument.mapAll_mapAll, Comment.mapAll_mapAll, Function.comp_apply]

mutual

theorem Command.map_map : ∀ c : Command α σ, (c.map f g).map f' g' = c.map (f' ∘ f) (g' ∘ g)
  | .simple h => congrArg Command.simple (Head.map_map f f' g g' h)
  | .control h cs trailing _ => by
      simp only [Command.map, Head.map_map, Command.mapAll_mapAll cs, Comment.mapAll_mapAll]

theorem Command.mapAll_mapAll : ∀ cs : List (Command α σ),
    mapAll f' g' (mapAll f g cs) = mapAll (f' ∘ f) (g' ∘ g) cs
  | [] => rfl
  | c :: cs => by
      rw [Command.mapAll, Command.mapAll, Command.mapAll, Command.map_map c, Command.mapAll_mapAll cs]

end

end Commands

/-! ## Marks -/

section Marks

variable (f : α → β)

theorem Argument.isPlain_map (a : Argument α) : (a.map f id).IsPlain ↔ a.IsPlain := by
  cases a <;> exact Iff.rfl

mutual

theorem Test.printable_map : ∀ t : Test α, (Argument.mapTest f id t).Printable ↔ t.Printable
  | .mk name as ts m => by
      have hplain : (∀ a ∈ Argument.mapAll f id as, a.IsPlain) ↔ ∀ a ∈ as, a.IsPlain := by
        simp only [Argument.mapAll_eq_map, List.forall_mem_map, Argument.isPlain_map]
      simp only [Argument.mapTest, Test.Printable, hplain, Argument.printableTests_mapAll ts, id_eq]

theorem Argument.printableTests_mapAll :
    ∀ as : List (Argument α),
      Argument.PrintableTests (Argument.mapAll f id as) ↔ Argument.PrintableTests as
  | [] => Iff.rfl
  | .test t :: as => by
      rw [Argument.mapAll, Argument.map, Argument.PrintableTests, Argument.PrintableTests,
        Test.printable_map t, Argument.printableTests_mapAll as]
  | .string .. :: _ | .strings .. :: _ | .number .. :: _ | .tag .. :: _ | .foreign .. :: _ => Iff.rfl

end

theorem Argument.printableAll_mapAll (as : List (Argument α)) :
    Argument.PrintableAll (Argument.mapAll f id as) ↔ Argument.PrintableAll as := by
  induction as with
  | nil => exact Iff.rfl
  | cons a as ih =>
      cases a with
      | test t =>
          cases as with
          | nil => exact Test.printable_map f t
          | cons b bs => exact and_congr Iff.rfl ih
      | string | strings | number | tag | foreign => exact and_congr Iff.rfl ih

mutual

theorem Test.height_map (g : σ → τ) : ∀ t : Test α σ, (Argument.mapTest f g t).height = t.height
  | .mk name as ts m => by
      rw [Argument.mapTest, Test.height, Test.height, Test.heightOf_mapAll g ts]

theorem Test.heightOf_mapAll (g : σ → τ) :
    ∀ as : List (Argument α σ), heightOf (Argument.mapAll f g as) = heightOf as
  | [] => rfl
  | .test t :: as => by
      rw [Argument.mapAll, Argument.map, Test.heightOf, Test.heightOf, Test.height_map g t,
        Test.heightOf_mapAll g as]
  | .string .. :: as | .strings .. :: as | .number .. :: as | .tag .. :: as | .foreign .. :: as =>
      Test.heightOf_mapAll g as

end

end Marks

/-! ## Leaves -/

mutual

theorem Argument.exists_text : ∀ (a : Argument β Value) (x : Argument α),
    a.map (fun _ => ()) id = x.map (fun _ => ()) Value.text →
    ∃ y : Argument β, a = y.map id Value.text ∧ y.map (fun _ => ()) id = x.map (fun _ => ()) id
  | .string value form m, x, h => by
      cases x <;> simp [Argument.map] at h
      next v f _ => exact ⟨.string v f m, by simp [Argument.map, h], rfl⟩
  | .strings values m, x, h => by
      cases x <;> simp [Argument.map] at h
      next vs _ => exact ⟨.strings vs m, by simp [Argument.map, h], rfl⟩
  | .number value unit m, x, h => by
      cases x <;> simp [Argument.map] at h
      next v u _ => exact ⟨.number v u m, by simp [Argument.map, h], rfl⟩
  | .tag name m, x, h => by
      cases x <;> simp [Argument.map] at h
      next n _ => exact ⟨.tag n m, by simp [Argument.map, h], rfl⟩
  | .foreign shown, x, h => by
      cases x <;> simp [Argument.map] at h
      next s => exact ⟨.foreign s, by simp [Argument.map, h], rfl⟩
  | .test t, x, h => by
      cases x <;> simp [Argument.map] at h
      next u =>
        obtain ⟨y, ht, hy⟩ := Argument.exists_textTest t u h
        exact ⟨.test y, congrArg Argument.test ht, congrArg Argument.test hy⟩

theorem Argument.exists_textTest : ∀ (t : Test β Value) (x : Test α),
    mapTest (fun _ => ()) id t = mapTest (fun _ => ()) Value.text x →
    ∃ y : Test β, t = mapTest id Value.text y ∧ mapTest (fun _ => ()) id y = mapTest (fun _ => ()) id x
  | .mk name as ts m, .mk n bs us _, h => by
      simp only [Argument.mapTest, Test.mk.injEq, id_eq, and_true] at h
      obtain ⟨hname, has, hts⟩ := h
      obtain ⟨as', rfl, has'⟩ := Argument.exists_textAll as bs has
      obtain ⟨ts', rfl, hts'⟩ := Argument.exists_textAll ts us hts
      exact ⟨.mk n as' ts' m, by rw [hname]; rfl, by simp only [Argument.mapTest, has', hts', id_eq]⟩

theorem Argument.exists_textAll : ∀ (as : List (Argument β Value)) (xs : List (Argument α)),
    mapAll (fun _ => ()) id as = mapAll (fun _ => ()) Value.text xs →
    ∃ ys : List (Argument β), as = mapAll id Value.text ys ∧
      mapAll (fun _ => ()) id ys = mapAll (fun _ => ()) id xs
  | [], [], _ => ⟨[], rfl, rfl⟩
  | a :: as, x :: xs, h => by
      simp only [Argument.mapAll, List.cons.injEq] at h
      obtain ⟨y, rfl, hy⟩ := Argument.exists_text a x h.1
      obtain ⟨ys, rfl, hys⟩ := Argument.exists_textAll as xs h.2
      exact ⟨y :: ys, rfl, by rw [Argument.mapAll, Argument.mapAll, hy, hys]⟩

end

theorem Argument.mapAll_plain (as : List (Argument α)) :
    mapAll id Leaf.plain (mapAll id Value.text as) = as := by
  rw [Argument.mapAll_mapAll]
  exact Argument.mapAll_id as

theorem Comment.map_plain (cs : List Comment) :
    (cs.map (·.map Value.text)).map (·.map Leaf.plain) = cs := by
  rw [List.map_map]
  exact List.map_id cs

theorem Head.map_plain (h : Head α) : (h.map id Value.text).map id Leaf.plain = h := by
  simp only [Head.map, Argument.mapAll_plain, Comment.map_plain, id_eq]
  rfl

theorem Command.mapAll_eq_map (f : α → β) (g : σ → τ) (cs : List (Command α σ)) :
    mapAll f g cs = cs.map (Command.map f g) := by
  induction cs with
  | nil => rfl
  | cons c cs ih => rw [Command.mapAll, ih, List.map_cons]

/-! ## Checks before writing -/

namespace Layout

theorem fitWords_text (name : String) (as : List (Argument α)) :
    fitWords (.text name) (Argument.mapAll id Value.text as) = .ok () := by
  refine forM_eq_ok.2 ?_
  rw [Argument.mapAll_eq_map, List.forall_mem_map]
  intro a _
  cases a <;> rfl

theorem fitArgument_text {a : Argument α} (h : a.IsPlain) :
    fitArgument (a.map id Value.text) = .ok () := by
  cases a with
  | strings values m =>
      refine forM_eq_ok.2 (List.forall_mem_map.2 fun v _ => ?_)
      rfl
  | string | number | tag => rfl
  | test | foreign => exact h.elim

theorem fitArguments_text {as : List (Argument α)} (h : ∀ a ∈ as, a.IsPlain) :
    fitArguments (Argument.mapAll id Value.text as) = .ok () := by
  induction as with
  | nil => rfl
  | cons a as ih =>
      obtain ⟨ha, has⟩ := List.forall_mem_cons.1 h
      rw [Argument.mapAll, fitArguments, fitArgument_text ha]
      exact ih has

mutual

theorem fitTest_text : ∀ t : Test α, t.Printable → fitTest (Argument.mapTest id Value.text t) = .ok ()
  | .mk name as ts m, h => by
      rw [Argument.mapTest, fitTest, fitArguments_text h.2.1, fitWords_text]
      exact fitInner_text ts h.2.2

theorem fitInner_text : ∀ ts : List (Argument α), Argument.PrintableTests ts →
    fitInner (Argument.mapAll id Value.text ts) = .ok ()
  | [], _ => rfl
  | .test t :: ts, h => by
      rw [Argument.mapAll, Argument.map, fitInner, fitTest_text t h.1]
      exact fitInner_text ts h.2
  | .string .. :: _, h | .strings .. :: _, h | .number .. :: _, h | .tag .. :: _, h
  | .foreign .. :: _, h => h.elim

end

theorem fitArguments_printable {as : List (Argument α)} (h : Argument.PrintableAll as) :
    fitArguments (Argument.mapAll id Value.text as) = .ok () := by
  fun_induction Argument.PrintableAll as with
  | case1 => rfl
  | case2 t =>
      rw [Argument.mapAll, Argument.map, fitArguments, fitArgument, fitTest_text t h]
      rfl
  | case3 a as _ ih =>
      rw [Argument.mapAll, fitArguments, fitArgument_text h.1]
      exact ih h.2

variable {o : LayoutOptions} (ho : fitIndent o = .ok ())

include ho

theorem fitComments_text (cs : List Comment) : fitComments o (cs.map (·.map Value.text)) = .ok () := by
  unfold fitComments
  split
  · rw [ho]
    exact forM_eq_ok.2 (List.forall_mem_map.2 fun _ _ => rfl)
  · rfl

theorem fitHead_text {h : Head α} (hprint : h.Printable) : fitHead o (h.map id Value.text) = .ok () := by
  have hcomments := fitComments_text ho h.comments
  have harguments := fitArguments_printable hprint.arguments
  unfold fitHead Head.map
  simp only [ho, hcomments, harguments, fitWords_text]
  rfl

omit ho in
mutual

theorem fitCommand_text (ho : fitIndent o = .ok ()) :
    ∀ c : Command α, c.Printable → fitCommand o (c.map id Value.text) = .ok ()
  | .simple h, hprint => fitHead_text ho hprint.1
  | .control h cs trailing _, hprint => by
      rw [Command.map, fitCommand, fitHead_text ho hprint.1, fitComments_text ho]
      show (fitCommands o (Command.mapAll id Value.text cs) >>= fun _ => .ok ()) = .ok ()
      rw [fitCommands_text ho cs hprint.2.2]
      rfl

theorem fitCommands_text (ho : fitIndent o = .ok ()) : ∀ cs : List (Command α),
    Command.PrintableAll cs → fitCommands o (Command.mapAll id Value.text cs) = .ok ()
  | [], _ => rfl
  | c :: cs, hprint => by
      rw [Command.mapAll, fitCommands, fitCommand_text ho c hprint.1]
      exact fitCommands_text ho cs hprint.2

end

end Layout

end MailFilter
