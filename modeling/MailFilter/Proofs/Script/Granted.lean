import Mathlib.Data.List.Basic
import MailFilter.Proofs.Script.Nodes

/-!
# One capability more

A capability that is declared in addition takes away the problems that miss it, and no others.  What is
found out of place, and what does not fit a signature, does not depend on what is declared.
-/

namespace MailFilter

variable {α τ : Type}

/-- A problem is that a capability is not declared. -/
def Problem.misses (p : Problem α τ) (capability : String) : Bool :=
  p.complaint.kind == .missingCapability && p.complaint.capability? == some capability

def withoutMissing (capability : String) (ps : List (Problem α τ)) : List (Problem α τ) :=
  ps.filter fun p => !p.misses capability

section Lists

variable {capability : String} {ps : List (Problem α τ)}

@[simp] theorem withoutMissing_append (ps qs : List (Problem α τ)) : withoutMissing capability (ps ++ qs) =
    withoutMissing capability ps ++ withoutMissing capability qs :=
  List.filter_append ..

theorem withoutMissing_flatMap {γ : Type} (f : γ → List (Problem α τ)) (xs : List γ) :
    withoutMissing capability (xs.flatMap f) = xs.flatMap fun x => withoutMissing capability (f x) :=
  List.filter_flatMap ..

theorem mem_missingCapabilities {p : Problem α τ} (hp : p ∈ ps) (hmisses : p.misses capability = true) :
    capability ∈ missingCapabilities ps := by
  rw [Problem.misses, Bool.and_eq_true, beq_iff_eq (b := some capability)] at hmisses
  exact List.mem_filterMap.2 ⟨p, List.mem_filter.2 ⟨hp, hmisses.1⟩, hmisses.2⟩

theorem withoutMissing_eq_self (h : missingCapabilities ps = []) : withoutMissing capability ps = ps := by
  refine List.filter_eq_self.2 fun p hp => ?_
  rw [Bool.not_eq_true', Bool.eq_false_iff]
  intro hmisses
  have hmem := mem_missingCapabilities hp hmisses
  rw [h] at hmem
  cases hmem

end Lists

variable {declared declared' : List String} {capability : String}
  (hmore : ∀ c, c ∈ declared' ↔ c ∈ declared ∨ c = capability)

include hmore

/-! ## Nodes -/

theorem withoutMissing_gate {p : Problem α τ} {c : String} (hkind : p.complaint.kind = .missingCapability)
    (hc : p.complaint.capability? = some c) : (if declared'.contains c then [] else [p]) =
      withoutMissing capability (if declared.contains c then [] else [p]) := by
  have hmisses : p.misses capability = decide (c = capability) := by
    rw [Problem.misses, hkind, hc, beq_self_eq_true, Bool.true_and]
    exact Bool.eq_iff_iff.2 (by simp)
  have hcontains : declared'.contains c = (declared.contains c || decide (c = capability)) := by
    rw [Bool.eq_iff_iff, List.contains_iff_mem, Bool.or_eq_true, List.contains_iff_mem, hmore,
      decide_eq_true_iff]
  rw [hcontains, withoutMissing]
  by_cases hold : declared.contains c = true
  · rw [hold]
    rfl
  · rw [Bool.not_eq_true] at hold
    rw [hold, Bool.false_or, if_neg Bool.false_ne_true, List.filter_cons, hmisses]
    cases decide (c = capability) <;> rfl

variable [Leaf τ]

namespace Node

variable (n : Node α τ)

omit [Leaf τ] in
theorem tagProblems_more (rule : TagRule) (mark : α) : n.tagProblems declared' rule mark =
    withoutMissing capability (n.tagProblems declared rule mark) := by
  unfold tagProblems
  cases rule.need? with
  | none => rfl
  | some c => exact withoutMissing_gate hmore rfl rfl

theorem comparatorProblems_more (a : Argument α τ) : n.comparatorProblems declared' a =
    withoutMissing capability (n.comparatorProblems declared a) := by
  cases a with
  | string value form mark =>
      rw [comparatorProblems, comparatorProblems]
      cases (Leaf.text? value).bind comparatorCapability? with
      | none => rfl
      | some c => exact withoutMissing_gate hmore rfl rfl
  | _ => rfl

theorem useProblems_more (u : Use α τ) : n.useProblems declared' u =
    withoutMissing capability (n.useProblems declared u) := by
  cases u with
  | positional a => rfl
  | unknown tag mark => rfl
  | flag rule mark => exact n.tagProblems_more hmore rule mark
  | valued rule mark value =>
      rw [useProblems, useProblems, withoutMissing_append, n.tagProblems_more hmore]
      split
      · rw [n.comparatorProblems_more hmore]
      · rfl
  | lacking rule mark type =>
      rw [useProblems, useProblems, withoutMissing_append, n.tagProblems_more hmore]
      rfl

variable [Inhabited α]

theorem signatureProblems_more (s : Signature) : n.signatureProblems declared' s =
    withoutMissing capability (n.signatureProblems declared s) := by
  have huses : (Use.ofArguments s n.arguments).flatMap (n.useProblems declared') =
      withoutMissing capability ((Use.ofArguments s n.arguments).flatMap (n.useProblems declared)) := by
    rw [withoutMissing_flatMap]
    exact List.flatMap_congr fun u _ => n.useProblems_more hmore u
  unfold signatureProblems
  dsimp only
  simp only [huses, withoutMissing_append, withoutMissing_eq_self (n.missing_roleProblems s),
    withoutMissing_eq_self (n.missing_groupProblems _),
    withoutMissing_eq_self (n.missing_insideProblems s),
    withoutMissing_eq_self (n.missing_positionalProblems s _)]
  cases s.need? with
  | none => rfl
  | some c =>
      have hgate := withoutMissing_gate hmore (p := n.problem (.undeclared n.named c)) rfl rfl
      dsimp only
      rw [hgate]

theorem problems_more (r : Registry) :
    n.problems r declared' = withoutMissing capability (n.problems r declared) := by
  unfold problems
  cases r.leafLookup? n.name with
  | none => exact (withoutMissing_eq_self n.missing_unknownProblem).symm
  | some s => exact n.signatureProblems_more hmore s

end Node

/-! ## Commands -/

/-- What is wrong with a command wherever it stands is what was, without what missed the capability. -/
theorem Head.ownProblems_more [Inhabited α] (r : Registry) (h : Head α τ) : h.ownProblems r declared' =
    withoutMissing capability (h.ownProblems r declared) := by
  have hnames : missingCapabilities (if h.keyword? == some .require then
      unsupportedNames r ((declaredNames h.arguments).map Leaf.plain) h.mark h.name else []) = [] := by
    split
    · exact missing_unsupportedNames r _ _ _
    · rfl
  rw [ownProblems, ownProblems, withoutMissing_append, withoutMissing_eq_self hnames, problems_eq,
    problems_eq, withoutMissing_flatMap]
  exact congrArg (_ ++ ·) (List.flatMap_congr fun n _ => n.problems_more hmore r)

end MailFilter
