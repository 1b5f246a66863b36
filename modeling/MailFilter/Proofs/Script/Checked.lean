import MailFilter.Proofs.Script.Signatures
import MailFilter.Proofs.Script.Unmarked

/-!
# Text can be checked

A command whose leaves are texts, with only tests among tests, can be checked, whatever is known of it.
-/

namespace MailFilter

variable {α β : Type} {σ τ : Type}

/-- What an argument says on its own is text. -/
def Argument.SaysText : Argument α Value → Prop
  | .string value _ _ | .tag value _ => value.fitText = .ok ()
  | _ => True

theorem Argument.saysText_map (a : Argument α) : (a.map id Value.text).SaysText := by
  cases a with
  | string | tag => exact rfl
  | _ => trivial

theorem Value.fitKey_of_text {v : Value} (h : v.fitText = .ok ()) : v.fitKey = .ok () := by
  cases v with
  | text => rfl
  | _ => cases h

theorem Use.fit_of_text {args : List (Argument α Value)} (s : Signature)
    (htext : ∀ a ∈ args, a.SaysText) : ∀ u ∈ ofArguments s args, u.fit = .ok () := by
  have hvalue : ∀ {rule : TagRule} {mark : α} {value : Argument α Value}, value.SaysText →
      (valued rule mark value).fit = .ok () := by
    intro rule mark value hsays
    cases value with
    | string =>
        unfold fit
        dsimp only
        split
        · exact hsays
        · rfl
    | _ => rfl
  fun_induction ofArguments s args with
  | case1 => simp
  | case2 name mark rest _ ih =>
      rw [List.forall_mem_cons] at htext ⊢
      exact ⟨Value.fitKey_of_text htext.1, ih htext.2⟩
  | case3 name mark rule _ rest _ ih =>
      rw [List.forall_mem_cons] at htext ⊢
      exact ⟨rfl, ih htext.2⟩
  | case4 => simp [fit]
  | case5 name mark rule _ type value rest _ _ ih =>
      rw [List.forall_mem_cons, List.forall_mem_cons] at htext
      rw [List.forall_mem_cons]
      exact ⟨hvalue htext.2.1, ih htext.2.2⟩
  | case6 name mark rule _ type value rest _ _ ih =>
      rw [List.forall_mem_cons] at htext ⊢
      exact ⟨rfl, ih htext.2⟩
  | case7 a rest _ ih =>
      rw [List.forall_mem_cons] at htext ⊢
      exact ⟨rfl, ih htext.2⟩

theorem Node.fit_text (r : Registry) {n : Node α Value} {name : String} (args : List (Argument α))
    (hname : n.name = .text name) (hargs : n.arguments = Argument.mapAll id Value.text args) :
    n.fit r = .ok () := by
  have htext : ∀ a ∈ n.arguments, a.SaysText := by
    rw [hargs, Argument.mapAll_eq_map, List.forall_mem_map]
    exact fun a _ => a.saysText_map
  unfold fit
  rw [hname]
  cases r.leafLookup? (Value.text name) with
  | none => rfl
  | some s => exact forM_eq_ok.2 (Use.fit_of_text s htext)

theorem Argument.stringValues_map (f : α → β) (g : σ → τ) (a : Argument α σ) :
    (a.map f g).stringValues = a.stringValues.map g := by
  cases a <;> rfl

theorem declaredNames_mapAll (f : α → β) (g : σ → τ) (as : List (Argument α σ)) :
    declaredNames (Argument.mapAll f g as) = (declaredNames as).map g := by
  rw [declaredNames, declaredNames, Argument.mapAll_eq_map, List.flatMap_map, List.map_flatMap]
  exact List.flatMap_congr fun a _ => a.stringValues_map f g

theorem forM_fitText (names : List String) : (names.map Value.text).forM Value.fitText = .ok () := by
  rw [forM_eq_ok, List.forall_mem_map]
  exact fun _ _ => rfl

theorem fitOffered_text (r : Registry) (names : List String) :
    fitOffered r (names.map Value.text) = .ok () := by
  unfold fitOffered
  split
  · exact forM_fitText names
  · rfl

theorem Test.fitItems_text (r : Registry) {t : Test α} (ht : t.Whole) :
    (Argument.mapTest id Value.text t).fitItems (fun u => (Node.ofTest u).fit r) = .ok () := by
  rw [fitItems, forM_eq_ok, Test.items_mapTest, List.forall_mem_map]
  intro a ha
  cases a with
  | test u =>
      obtain ⟨name, args, inner, mark⟩ := u
      exact Node.fit_text r args rfl rfl
  | _ => cases ht _ ha

/-- A command is one of text, with one test at most and only tests inside that. -/
def Head.IsText (h : Head α Value) : Prop := ∃ g : Head α, g.OneTest ∧ h = g.map id Value.text

theorem Head.IsText.fitName {h : Head α Value} (htext : h.IsText) : h.name.fitName = .ok () := by
  obtain ⟨g, -, rfl⟩ := htext
  rfl

theorem Head.IsText.names {h : Head α Value} (htext : h.IsText) :
    ∃ names : List String, declaredNames h.arguments = names.map Value.text := by
  obtain ⟨g, -, rfl⟩ := htext
  exact ⟨_, declaredNames_mapAll _ _ _⟩

theorem Head.IsText.fitOwn {h : Head α Value} (htext : h.IsText) (r : Registry) :
    h.fitOwn r = .ok () := by
  have hnames : fitOffered r (declaredNames h.arguments) = .ok () := by
    obtain ⟨names, hnames⟩ := htext.names
    rw [hnames]
    exact fitOffered_text r names
  obtain ⟨g, hone, rfl⟩ := htext
  have htests : (g.map id Value.text).tests.forM
      (Test.fitItems fun u => (Node.ofTest u).fit r) = .ok () := by
    rw [forM_eq_ok, Head.tests_map, List.forall_mem_map]
    exact fun t ht => Test.fitItems_text r (hone.whole t ht)
  have hnode : (Node.ofHead (g.map id Value.text)).fit r = .ok () :=
    Node.fit_text r g.arguments rfl rfl
  unfold Head.fitOwn
  rw [hnames, hnode]
  split <;> exact htests

end MailFilter
