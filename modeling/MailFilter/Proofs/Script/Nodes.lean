import MailFilter.Script.Problem

/-!
# What is checked and what it needs

The problems of a script are those of its nodes, which are its commands and their tests.  A problem
with a capability that is not declared tells that a node needs it, so the capabilities of these
problems are what the nodes need, without what is declared.
-/

namespace MailFilter

variable {α τ : Type}

/-! ## Nodes -/

def Head.nodes (h : Head α τ) : List (Node α τ) :=
  .ofHead h :: (h.tests.flatMap Test.walk).map .ofTest

def Script.nodes (t : Script α τ) : List (Node α τ) := t.walk.flatMap fun c => c.head.nodes

theorem Head.problems_eq [Leaf τ] [Inhabited α] (r : Registry) (declared : List String) (h : Head α τ) :
    h.problems r declared = h.nodes.flatMap (·.problems r declared) := by
  rw [Head.problems, nodes, List.flatMap_cons, List.flatMap_map, List.flatMap_assoc]
  rfl

theorem Head.nodes_of_isEmpty {h : Head α τ} (hnil : h.arguments = []) : h.nodes = [.ofHead h] := by
  rw [nodes, tests, hnil]
  rfl

/-! ## Capabilities that are missing -/

/-- The capabilities that are used and not declared, as problems report them, in order. -/
def missingCapabilities (ps : List (Problem α τ)) : List String :=
  (ps.filter (·.complaint.kind == .missingCapability)).filterMap (·.complaint.capability?)

@[simp] theorem missingCapabilities_nil : missingCapabilities ([] : List (Problem α τ)) = [] := rfl

@[simp] theorem missingCapabilities_append (ps qs : List (Problem α τ)) :
    missingCapabilities (ps ++ qs) = missingCapabilities ps ++ missingCapabilities qs := by
  simp only [missingCapabilities, List.filter_append, List.filterMap_append]

theorem missingCapabilities_flatMap {γ : Type} (f : γ → List (Problem α τ)) (xs : List γ) :
    missingCapabilities (xs.flatMap f) = xs.flatMap fun x => missingCapabilities (f x) := by
  induction xs with
  | nil => rfl
  | cons x xs ih => rw [List.flatMap_cons, missingCapabilities_append, ih, List.flatMap_cons]

theorem missingCapabilities_of_other {ps : List (Problem α τ)}
    (h : ∀ p ∈ ps, p.complaint.kind ≠ .missingCapability) : missingCapabilities ps = [] := by
  have hnone : ps.filter (·.complaint.kind == .missingCapability) = [] := by
    rw [List.filter_eq_nil_iff]
    intro p hp
    rw [beq_iff_eq]
    exact h p hp
  rw [missingCapabilities, hnone]
  rfl

theorem missingCapabilities_gate (declared : List String) {p : Problem α τ} {c : String}
    (hkind : p.complaint.kind = .missingCapability) (hc : p.complaint.capability? = some c) :
    missingCapabilities (if declared.contains c then [] else [p]) =
      [c].filter (· ∉ declared) := by
  by_cases hdeclared : c ∈ declared
  · rw [if_pos (by simpa using hdeclared), List.filter_cons_of_neg (by simpa using hdeclared)]
    rfl
  · rw [if_neg (by simpa using hdeclared), List.filter_cons_of_pos (by simpa using hdeclared),
      missingCapabilities, List.filter_cons_of_pos (by simpa using hkind)]
    exact List.filterMap_cons_some hc

/-! ## Needs of nodes -/

variable [Leaf τ]

def Use.needs : Use α τ → List String
  | .positional _ | .unknown .. => []
  | .flag rule _ | .lacking rule _ _ => rule.need?.toList
  | .valued rule _ value =>
    rule.need?.toList ++ if rule.name == ":comparator" then comparatorUse [value] else []

def Node.needs (r : Registry) (n : Node α τ) : List String :=
  match r.leafLookup? n.name with
  | none => []
  | some s => s.need?.toList ++ (Use.ofArguments s n.arguments).flatMap Use.needs

namespace Node

variable (n : Node α τ) (declared : List String)

omit [Leaf τ] in
theorem missing_tagProblems (rule : TagRule) (mark : α) :
    missingCapabilities (n.tagProblems declared rule mark) =
      rule.need?.toList.filter (· ∉ declared) := by
  unfold tagProblems
  cases rule.need? with
  | none => rfl
  | some c => exact missingCapabilities_gate declared rfl rfl

theorem missing_comparatorProblems (a : Argument α τ) :
    missingCapabilities (n.comparatorProblems declared a) =
      (comparatorUse [a]).filter (· ∉ declared) := by
  cases a with
  | string value form mark =>
      rw [comparatorProblems, comparatorUse]
      cases (Leaf.text? value).bind comparatorCapability? with
      | none => rfl
      | some c => exact missingCapabilities_gate declared rfl rfl
  | _ => rfl

theorem missing_useProblems (u : Use α τ) :
    missingCapabilities (n.useProblems declared u) = u.needs.filter (· ∉ declared) := by
  cases u with
  | positional a => rfl
  | unknown tag mark => rfl
  | flag rule mark => exact n.missing_tagProblems declared rule mark
  | valued rule mark value =>
      rw [useProblems, missingCapabilities_append, missing_tagProblems, Use.needs, List.filter_append]
      split
      · rw [missing_comparatorProblems]
      · rfl
  | lacking rule mark type =>
      rw [useProblems, missingCapabilities_append, missing_tagProblems]
      exact List.append_nil _

theorem missing_innerProblems (s : Signature) : missingCapabilities (n.innerProblems s) = [] := by
  refine missingCapabilities_of_other fun p hp => ?_
  unfold innerProblems at hp
  dsimp only at hp
  split at hp
  · split at hp <;> simp at hp
    rw [hp]
    exact nofun
  · split at hp <;> split at hp <;> simp at hp <;> rw [hp]
    · unfold problem Complaint.kind
      dsimp only
      split <;> exact nofun
    · exact nofun

theorem missing_roleProblems (s : Signature) : missingCapabilities (if s.isTest == n.isTest then []
    else [n.problem (if s.isTest then .testAsCommand n.named else .commandAsTest n.named)]) = [] := by
  refine missingCapabilities_of_other fun p hp => ?_
  split at hp
  · cases hp
  · rw [List.mem_singleton.1 hp]
    unfold problem
    dsimp only
    split <;> exact nofun

theorem missing_groupProblems (groups : List (List String)) :
    missingCapabilities (groups.map fun group => n.problem (.tagGroup n.named group)) = [] := by
  refine missingCapabilities_of_other fun p hp => ?_
  obtain ⟨group, -, rfl⟩ := List.mem_map.1 hp
  exact nofun

theorem missing_insideProblems (s : Signature) :
    missingCapabilities (if n.isTest then n.innerProblems s else []) = [] := by
  split
  · exact n.missing_innerProblems s
  · rfl

theorem missing_unknownProblem : missingCapabilities
    [n.problem (if n.isTest then .unknownTest n.named else .unknownCommand n.named)] = [] := by
  refine missingCapabilities_of_other fun p hp => ?_
  rw [List.mem_singleton.1 hp, problem]
  split <;> exact nofun

variable [Inhabited α]

theorem missing_positionalProblems (s : Signature) (found : List (Argument α τ)) :
    missingCapabilities (n.positionalProblems s found) = [] := by
  refine missingCapabilities_of_other fun p hp => ?_
  unfold positionalProblems at hp
  dsimp only at hp
  split at hp
  · rw [List.mem_singleton.1 hp]
    exact nofun
  · split at hp
    · rw [List.mem_singleton.1 hp]
      exact nofun
    · obtain ⟨⟨a, type⟩, -, hp⟩ := List.mem_filterMap.1 hp
      split at hp <;> cases hp
      exact nofun

theorem missing_signatureProblems (s : Signature) :
    missingCapabilities (n.signatureProblems declared s) =
      (s.need?.toList ++ (Use.ofArguments s n.arguments).flatMap Use.needs).filter
        (· ∉ declared) := by
  have huses : missingCapabilities
      ((Use.ofArguments s n.arguments).flatMap (n.useProblems declared)) =
        ((Use.ofArguments s n.arguments).flatMap Use.needs).filter (· ∉ declared) := by
    simp only [missingCapabilities_flatMap, missing_useProblems, List.filter_flatMap]
  unfold signatureProblems
  dsimp only
  rw [missingCapabilities_append, missingCapabilities_append, missingCapabilities_append,
    missingCapabilities_append, missingCapabilities_append, missing_roleProblems, huses,
    missing_groupProblems, missing_insideProblems, missing_positionalProblems, List.filter_append,
    List.append_nil, List.append_nil, List.append_nil, List.nil_append]
  refine congrArg (· ++ _) ?_
  cases s.need? with
  | none => rfl
  | some c => exact missingCapabilities_gate declared rfl rfl

theorem missing_problems (r : Registry) :
    missingCapabilities (n.problems r declared) = (n.needs r).filter (· ∉ declared) := by
  unfold problems needs
  cases r.leafLookup? n.name with
  | none => exact n.missing_unknownProblem
  | some s => exact n.missing_signatureProblems declared s

end Node

/-! ## Needs of commands -/

def Head.needs (r : Registry) (h : Head α τ) : List String := h.nodes.flatMap (·.needs r)

def Script.needs (r : Registry) (t : Script α τ) : List String := t.nodes.flatMap (·.needs r)

theorem Script.needs_eq (r : Registry) (t : Script α τ) :
    t.needs r = t.walk.flatMap fun c => c.head.needs r :=
  List.flatMap_assoc

theorem Registry.mem_of_leafLookup? {r : Registry} {name : τ} {s : Signature}
    (h : r.leafLookup? name = some s) :
    s ∈ r.signatures ∧ (Leaf.text? name).bind Keyword.ofName? = some s.keyword := by
  unfold Registry.leafLookup? Registry.lookup? at h
  obtain ⟨text, htext, h⟩ := Option.bind_eq_some_iff.1 h
  obtain ⟨k, hk, h⟩ := Option.bind_eq_some_iff.1 h
  have hkeyword : s.keyword = k := by simpa using List.find?_some h
  refine ⟨List.mem_of_find?_eq_some h, ?_⟩
  rw [htext, hkeyword]
  exact hk

theorem Head.needs_of_isBareRequire {r : Registry} (hr : r.signatures ⊆ Signature.table)
    {h : Head α τ} (hbare : h.isBareRequire = true) : h.needs r = [] := by
  have hfree : ∀ s ∈ Signature.table, s.keyword = .require → s.need? = none := by decide
  rw [isBareRequire, Bool.and_eq_true, beq_iff_eq, List.isEmpty_iff] at hbare
  rw [needs, nodes_of_isEmpty hbare.2, List.flatMap_singleton, Node.needs, Node.ofHead, hbare.2]
  cases hlookup : r.leafLookup? h.name with
  | none => rfl
  | some s =>
      obtain ⟨hmem, hkeyword⟩ := Registry.mem_of_leafLookup? hlookup
      have hrequire : s.keyword = .require := Option.some.inj (hkeyword.symm.trans hbare.1)
      dsimp only
      rw [hfree s (hr hmem) hrequire, Use.ofArguments]
      rfl

section Problems

variable {r : Registry} (declared : List String)

theorem Place.missing_problems (p : Place) (h : Head α τ) :
    missingCapabilities (p.problems h) = [] := by
  refine missingCapabilities_of_other fun q hq => ?_
  unfold Place.problems at hq
  rcases List.mem_append.1 hq with hq | hq <;> split at hq <;> simp at hq <;> rw [hq] <;> exact nofun

omit [Leaf τ] in
theorem missing_unsupportedNames (r : Registry) (names : List String) (mark : α) (node : τ) :
    missingCapabilities (unsupportedNames r names mark node) = [] := by
  refine missingCapabilities_of_other fun q hq => ?_
  obtain ⟨name, -, rfl⟩ := List.mem_map.1 hq
  exact nofun

variable [Inhabited α]

theorem Head.missing_ownProblems (r : Registry) (h : Head α τ) :
    missingCapabilities (h.ownProblems r declared) = (h.needs r).filter (· ∉ declared) := by
  have hnames : missingCapabilities (if h.keyword? == some .require then
      unsupportedNames r ((declaredNames h.arguments).map Leaf.plain) h.mark h.name else []) = [] := by
    split
    · exact missing_unsupportedNames r _ _ _
    · rfl
  rw [ownProblems, missingCapabilities_append, hnames, List.nil_append, problems_eq,
    missingCapabilities_flatMap, needs, List.filter_flatMap]
  simp only [Node.missing_problems]

theorem Head.missing_problemsAt (hr : r.signatures ⊆ Signature.table) (p : Place) (h : Head α τ) :
    missingCapabilities (h.problemsAt r declared p) = (h.needs r).filter (· ∉ declared) := by
  rw [problemsAt, missingCapabilities_append, Place.missing_problems, List.nil_append]
  split
  · next hholds =>
      rw [Place.holdsCapabilities, Bool.and_eq_true] at hholds
      rw [needs_of_isBareRequire hr hholds.2]
      rfl
  · exact h.missing_ownProblems declared r

mutual

theorem Command.missing_problems (hr : r.signatures ⊆ Signature.table) :
    ∀ (p : Place) (c : Command α τ), missingCapabilities (c.problems r declared p) =
      (c.walk.flatMap fun d => d.head.needs r).filter (· ∉ declared)
  | p, .simple h => by
      rw [Command.problems, walk, List.flatMap_singleton]
      exact h.missing_problemsAt declared hr p
  | p, .control h cs _ _ => by
      rw [Command.problems, missingCapabilities_append, h.missing_problemsAt declared hr,
        missing_problemsFrom hr (.front false) cs, walk, List.flatMap_cons, List.filter_append]
      rfl

theorem Command.missing_problemsFrom (hr : r.signatures ⊆ Signature.table) :
    ∀ (p : Place) (cs : List (Command α τ)), missingCapabilities (problemsFrom r declared p cs) =
      ((walkAll cs).flatMap fun d => d.head.needs r).filter (· ∉ declared)
  | _, [] => rfl
  | p, c :: cs => by
      rw [problemsFrom, missingCapabilities_append, missing_problems hr p c,
        missing_problemsFrom hr (p.after c.head) cs, walkAll, List.flatMap_append, List.filter_append]

end

theorem Script.missing_problems (hr : r.signatures ⊆ Signature.table) (t : Script α τ) :
    missingCapabilities (t.problems r) = (t.needs r).filter (· ∉ t.declared) := by
  rw [problems, serverProblems, missingCapabilities_append, missing_unsupportedNames, List.nil_append,
    Command.missing_problemsFrom t.declared hr, needs_eq]
  rfl

end Problems

end MailFilter
