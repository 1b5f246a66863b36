import MailFilter.Script.Problem
import Mathlib.Data.List.Forall2

/-!
# Arguments that fit a signature

When a command or a test has no problems of its own, told of its arguments and not of how they are gone
through: every tag is accepted and has its value, and the other arguments have the types of the last
places that the signature has.
-/

namespace MailFilter

variable {α τ : Type} [Leaf τ]

/-! ## What it is to fit -/

/-- The rule that a signature has for an argument that is a tag. -/
def Argument.rule? (s : Signature) : Argument α τ → Option TagRule
  | .tag name _ => (Leaf.text? name).bind s.tag?
  | _ => none

/-- An argument is a tag that takes the one after it. -/
def Argument.takesValue (s : Signature) (a : Argument α τ) : Bool :=
  ((a.rule? s).bind (·.value)).isSome

/-- The arguments that are no tags and do not stand right after a tag that takes a value, given whether
one stands before them all. -/
def Signature.freeAfter (s : Signature) : Bool → List (Argument α τ) → List (Argument α τ)
  | _, [] => []
  | taken, a :: rest => (if a.isTag || taken then [] else [a]) ++ s.freeAfter (a.takesValue s) rest

/-- An argument is the value of a tag: it has the right type, and if it names a comparator, then one
whose capability is declared. -/
structure TagRule.Fits (rule : TagRule) (declared : List String) (type : ArgumentType)
    (value : Argument α τ) : Prop where
  tag : value.isTag = false
  type : value.hasType type = true
  comparator : rule.name = ":comparator" → ∀ c ∈ comparatorUse [value], c ∈ declared

/-- A tag is accepted before other arguments. -/
def Signature.Accepts (s : Signature) (declared : List String) (a : Argument α τ)
    (rest : List (Argument α τ)) : Prop :=
  ∃ rule, a.rule? s = some rule ∧ (∀ c ∈ rule.need?, c ∈ declared) ∧
    ∀ type ∈ rule.value, ∃ value ∈ rest.head?, rule.Fits declared type value

def Signature.AcceptsAll (s : Signature) (declared : List String) (args : List (Argument α τ)) : Prop :=
  ∀ a rest, (a :: rest) <:+ args → a.isTag = true → s.Accepts declared a rest

namespace Node

/-- What stands inside a test is what its signature asks for. -/
structure InnerFits (n : Node α τ) (s : Signature) : Prop where
  many : .tests ∈ s.positional → n.inner ≠ []
  one : .tests ∉ s.positional → .test ∈ s.positional → n.inner.length = 1
  none : .tests ∉ s.positional → .test ∉ s.positional → n.inner = []

/-- Arguments have the types that are expected.  Where fewer are given than there are places, it is the
first places that stay empty. -/
structure PlacesFit (n : Node α τ) (s : Signature) (found : List (Argument α τ)) : Prop where
  needed : n.needed s ≤ found.length
  room : found.length ≤ (n.expected s).length
  types : List.Forall₂ (fun a type => a.hasType type = true) found
    ((n.expected s).drop ((n.expected s).length - found.length))

/-- A command or a test obeys a signature. -/
structure Obeys (n : Node α τ) (declared : List String) (s : Signature) : Prop where
  role : s.isTest = n.isTest
  capability : ∀ c ∈ s.need?, c ∈ declared
  tags : s.AcceptsAll declared n.arguments
  groups : ∀ group ∈ s.tagGroups, ∃ a ∈ n.arguments, ∃ rule ∈ a.rule? s, rule.name ∈ group
  inner : n.isTest = true → n.InnerFits s
  places : n.PlacesFit s (s.freeAfter false n.arguments)

/-- A command or a test is known, and obeys what is known of it. -/
def Valid (r : Registry) (declared : List String) (n : Node α τ) : Prop :=
  ∃ s, r.leafLookup? n.name = some s ∧ n.Obeys declared s

end Node

/-! ## Tags -/

section Tags

variable {s : Signature} {declared : List String} {a : Argument α τ}
  {args rest : List (Argument α τ)}

theorem acceptsAll_nil : s.AcceptsAll declared ([] : List (Argument α τ)) :=
  fun _ _ h => absurd (List.suffix_nil.1 h) (List.cons_ne_nil _ _)

theorem acceptsAll_cons : s.AcceptsAll declared (a :: rest) ↔
    (a.isTag = true → s.Accepts declared a rest) ∧ s.AcceptsAll declared rest := by
  constructor
  · intro h
    exact ⟨h a rest (List.suffix_refl _),
      fun b rest' hrest => h b rest' (hrest.trans (List.suffix_cons _ _))⟩
  · rintro ⟨hfirst, hrest⟩ b rest' hsuffix
    rcases List.suffix_cons_iff.1 hsuffix with heq | hsuffix
    · cases heq
      exact hfirst
    · exact hrest b rest' hsuffix

theorem acceptsAll_of_not_tag (ha : a.isTag = false) :
    s.AcceptsAll declared (a :: rest) ↔ s.AcceptsAll declared rest := by
  rw [acceptsAll_cons, ha]
  simp

theorem acceptsAll_of_rule {name : τ} {mark : α} {rule : TagRule}
    (hrule : (Leaf.text? name).bind s.tag? = some rule) :
    s.AcceptsAll declared (.tag name mark :: rest) ↔
      ((∀ c ∈ rule.need?, c ∈ declared) ∧
        ∀ type ∈ rule.value, ∃ value ∈ rest.head?, rule.Fits declared type value) ∧
      s.AcceptsAll declared rest := by
  rw [acceptsAll_cons]
  refine and_congr_left fun _ => ⟨fun h => ?_, fun h _ => ⟨rule, hrule, h⟩⟩
  obtain ⟨rule', hrule', h⟩ := h rfl
  cases hrule.symm.trans hrule'
  exact h

omit [Leaf τ] in
theorem isTag_eq_false (h : ∀ (name : τ) (mark : α), a = .tag name mark → False) : a.isTag = false := by
  cases a with
  | tag name mark => exact (h name mark rfl).elim
  | _ => rfl

theorem rule?_of_not_tag (ha : a.isTag = false) : a.rule? s = none := by
  cases a with
  | tag => cases ha
  | _ => rfl

theorem freeAfter_of_not_tag (ha : a.isTag = false) (taken : Bool) : s.freeAfter taken (a :: rest) =
    (if taken then [] else [a]) ++ s.freeAfter false rest := by
  rw [Signature.freeAfter, ha, Argument.takesValue, rule?_of_not_tag ha]
  rfl

theorem freeAfter_tag (ha : a.isTag = true) (taken : Bool) : s.freeAfter taken (a :: rest) =
    s.freeAfter (a.takesValue s) rest := by
  rw [Signature.freeAfter, ha]
  rfl

theorem takesValue_tag {name : τ} {mark : α} {rule : TagRule}
    (hrule : (Leaf.text? name).bind s.tag? = some rule) :
    (Argument.tag name mark).takesValue s = rule.value.isSome := by
  rw [Argument.takesValue, Argument.rule?, hrule]
  rfl

namespace Node

variable (n : Node α τ)

omit [Leaf τ] in
theorem tagProblems_eq_nil {rule : TagRule} {mark : α} :
    n.tagProblems declared rule mark = [] ↔ ∀ c ∈ rule.need?, c ∈ declared := by
  unfold tagProblems
  cases rule.need? with
  | none => simp
  | some c => simp

theorem comparatorProblems_eq_nil :
    n.comparatorProblems declared a = [] ↔ ∀ c ∈ comparatorUse [a], c ∈ declared := by
  cases a with
  | string value form mark =>
      rw [comparatorProblems, comparatorUse]
      cases (Leaf.text? value).bind comparatorCapability? with
      | none => simp
      | some c => simp
  | _ => simp [comparatorProblems, comparatorUse]

theorem valued_eq_nil {rule : TagRule} {mark : α} {value : Argument α τ} {type : ArgumentType}
    (hfits : (!value.isTag && value.hasType type) = true) :
    n.useProblems declared (.valued rule mark value) = [] ↔
      (∀ c ∈ rule.need?, c ∈ declared) ∧ rule.Fits declared type value := by
  rw [Bool.and_eq_true, Bool.not_eq_true'] at hfits
  rw [useProblems, List.append_eq_nil_iff, tagProblems_eq_nil]
  refine and_congr_right fun _ => ?_
  by_cases hname : rule.name = ":comparator"
  · rw [if_pos (by simpa using hname), comparatorProblems_eq_nil]
    exact ⟨fun h => ⟨hfits.1, hfits.2, fun _ => h⟩, fun h => h.comparator hname⟩
  · rw [if_neg (by simpa using hname)]
    exact ⟨fun _ => ⟨hfits.1, hfits.2, fun h => absurd h hname⟩, fun _ => rfl⟩

theorem useProblems_eq_nil (args : List (Argument α τ)) :
    (Use.ofArguments s args).flatMap (n.useProblems declared) = [] ↔ s.AcceptsAll declared args := by
  fun_induction Use.ofArguments s args with
  | case1 => exact ⟨fun _ => acceptsAll_nil, fun _ => rfl⟩
  | case2 name mark rest hnone ih =>
      rw [acceptsAll_cons, List.flatMap_cons]
      refine ⟨fun h => (List.cons_ne_nil _ _ h).elim, ?_⟩
      rintro ⟨haccepts, -⟩
      obtain ⟨rule, hrule, -⟩ := haccepts rfl
      cases hnone.symm.trans hrule
  | case3 name mark rule hrule rest hvalue ih =>
      rw [acceptsAll_of_rule hrule, List.flatMap_cons, List.append_eq_nil_iff, ih, hvalue, useProblems,
        tagProblems_eq_nil]
      simp
  | case4 name mark rule hrule type hvalue =>
      rw [acceptsAll_of_rule hrule, hvalue]
      simp [useProblems]
  | case5 name mark rule hrule type value rest hvalue hfits ih =>
      have htag := hfits
      rw [Bool.and_eq_true, Bool.not_eq_true'] at htag
      rw [acceptsAll_of_rule hrule, acceptsAll_of_not_tag htag.1, List.flatMap_cons,
        List.append_eq_nil_iff, ih, hvalue, n.valued_eq_nil hfits]
      simp
  | case6 name mark rule hrule type value rest hvalue hfits ih =>
      rw [acceptsAll_of_rule hrule, hvalue, List.flatMap_cons]
      refine ⟨fun h => by simp [useProblems] at h, ?_⟩
      rintro ⟨⟨-, hvalues⟩, -⟩
      obtain ⟨value', hfirst, hfit⟩ := hvalues type rfl
      cases hfirst
      rw [hfit.tag, hfit.type] at hfits
      exact absurd rfl hfits
  | case7 a rest hnot ih =>
      rw [acceptsAll_of_not_tag (isTag_eq_false hnot), ← ih]
      rfl

end Node

theorem positional_eq_free (args : List (Argument α τ)) (h : s.AcceptsAll declared args) :
    (Use.ofArguments s args).filterMap Use.positional? = s.freeAfter false args := by
  fun_induction Use.ofArguments s args with
  | case1 => rfl
  | case2 name mark rest hnone ih =>
      obtain ⟨haccepts, hrest⟩ := acceptsAll_cons.1 h
      obtain ⟨rule, hrule, -⟩ := haccepts rfl
      cases hnone.symm.trans hrule
  | case3 name mark rule hrule rest hvalue ih =>
      rw [freeAfter_tag rfl, takesValue_tag hrule, hvalue]
      exact ih ((acceptsAll_of_rule hrule).1 h).2
  | case4 name mark rule hrule type hvalue => rfl
  | case5 name mark rule hrule type value rest hvalue hfits ih =>
      rw [Bool.and_eq_true, Bool.not_eq_true'] at hfits
      rw [freeAfter_tag rfl, takesValue_tag hrule, hvalue, freeAfter_of_not_tag hfits.1]
      exact ih ((acceptsAll_of_not_tag hfits.1).1 ((acceptsAll_of_rule hrule).1 h).2)
  | case6 name mark rule hrule type value rest hvalue hfits ih =>
      obtain ⟨⟨-, hvalues⟩, -⟩ := (acceptsAll_of_rule hrule).1 h
      obtain ⟨value', hfirst, hfit⟩ := hvalues type hvalue
      cases hfirst
      rw [hfit.tag, hfit.type] at hfits
      exact absurd rfl hfits
  | case7 a rest hnot ih =>
      have ha := isTag_eq_false hnot
      rw [freeAfter_of_not_tag ha, ← ih ((acceptsAll_of_not_tag ha).1 h)]
      rfl

theorem filterMap_rule?_tag {name : τ} {mark : α} {rule : TagRule}
    (hrule : (Leaf.text? name).bind s.tag? = some rule) :
    (Argument.tag name mark :: rest).filterMap (·.rule? s) = rule :: rest.filterMap (·.rule? s) :=
  List.filterMap_cons_some hrule

theorem filterMap_rule?_none (ha : a.rule? s = none) :
    (a :: rest).filterMap (·.rule? s) = rest.filterMap (·.rule? s) :=
  List.filterMap_cons_none ha

theorem filterMap_rule?_ofArguments (args : List (Argument α τ)) :
    (Use.ofArguments s args).filterMap Use.rule? = args.filterMap (·.rule? s) := by
  fun_induction Use.ofArguments s args with
  | case1 => rfl
  | case2 name mark rest hnone ih =>
      have hrule : (Argument.tag name mark).rule? s = none := hnone
      rw [filterMap_rule?_none hrule, ← ih]
      rfl
  | case3 name mark rule hrule rest hvalue ih =>
      rw [filterMap_rule?_tag hrule, ← ih]
      rfl
  | case4 name mark rule hrule type hvalue =>
      rw [filterMap_rule?_tag hrule]
      rfl
  | case5 name mark rule hrule type value rest hvalue hfits ih =>
      rw [Bool.and_eq_true, Bool.not_eq_true'] at hfits
      rw [filterMap_rule?_tag hrule, filterMap_rule?_none (rule?_of_not_tag hfits.1), ← ih]
      rfl
  | case6 name mark rule hrule type value rest hvalue hfits ih =>
      rw [filterMap_rule?_tag hrule, ← ih]
      rfl
  | case7 a rest hnot ih =>
      rw [filterMap_rule?_none (rule?_of_not_tag (isTag_eq_false hnot)), ← ih]
      rfl

end Tags

/-! ## Nodes -/

namespace Node

variable (n : Node α τ) {s : Signature} {declared : List String}

theorem innerProblems_eq_nil : n.innerProblems s = [] ↔ n.InnerFits s := by
  unfold innerProblems
  dsimp only
  by_cases hmany : .tests ∈ s.positional
  · rw [if_pos (by simpa using hmany)]
    refine ⟨fun h => ⟨fun _ hnil => ?_, fun h => absurd hmany h, fun h => absurd hmany h⟩, fun h => ?_⟩
    · simp [hnil] at h
    · simp [h.many hmany]
  rw [if_neg (by simpa using hmany)]
  by_cases hone : .test ∈ s.positional
  · rw [if_pos (by simpa using hone)]
    refine ⟨fun h => ⟨fun h => absurd h hmany, fun _ _ => ?_, fun _ h => absurd hone h⟩, fun h => ?_⟩
    · by_contra hlength
      simp [hlength] at h
    · simp [h.one hmany hone]
  · rw [if_neg (by simpa using hone)]
    refine ⟨fun h => ⟨fun h => absurd h hmany, fun _ h => absurd h hone, fun _ _ => ?_⟩, fun h => ?_⟩
    · by_contra hne
      simp [hne] at h
    · simp [h.none hmany hone]

theorem positionalProblems_eq_nil [Inhabited α] {found : List (Argument α τ)} :
    n.positionalProblems s found = [] ↔ n.PlacesFit s found := by
  unfold positionalProblems
  dsimp only
  by_cases hneeded : found.length < n.needed s
  · rw [if_pos hneeded]
    exact ⟨fun h => absurd h (List.cons_ne_nil _ _), fun h => absurd hneeded (Nat.not_lt.2 h.needed)⟩
  rw [if_neg hneeded]
  by_cases hroom : found.length ≤ (n.expected s).length
  · rw [List.drop_of_length_le hroom]
    dsimp only
    rw [List.filterMap_eq_nil_iff]
    have hlength : found.length =
        ((n.expected s).drop ((n.expected s).length - found.length)).length := by
      rw [List.length_drop]
      omega
    constructor
    · intro h
      refine ⟨Nat.not_lt.1 hneeded, hroom, List.forall₂_iff_zip.2 ⟨hlength, fun {a type} hmem => ?_⟩⟩
      by_contra hwrong
      have := h (a, type) hmem
      simp [hwrong] at this
    · rintro h ⟨a, type⟩ hmem
      exact if_pos ((List.forall₂_iff_zip.1 h.types).2 hmem)
  · have hextra : found.drop (n.expected s).length ≠ [] := by
      rw [ne_eq, List.drop_eq_nil_iff]
      exact hroom
    obtain ⟨a, rest, hdrop⟩ := List.exists_cons_of_ne_nil hextra
    rw [hdrop]
    exact ⟨fun h => absurd h (List.cons_ne_nil _ _), fun h => absurd h.room hroom⟩

theorem groups_eq_nil (tags : List TagRule) (groups : List (List String)) :
    (groups.filter fun group => !group.any (tags.map (·.name)).contains).map
      (fun group => n.problem (.tagGroup n.named group)) = [] ↔
        ∀ group ∈ groups, ∃ rule ∈ tags, rule.name ∈ group := by
  rw [List.map_eq_nil_iff, List.filter_eq_nil_iff]
  refine forall₂_congr fun group _ => ?_
  simp only [Bool.not_eq_true', Bool.not_eq_false, List.any_eq_true, List.contains_iff_mem,
    List.mem_map]
  constructor
  · rintro ⟨_, hmem, rule, hrule, rfl⟩
    exact ⟨rule, hrule, hmem⟩
  · rintro ⟨rule, hrule, hmem⟩
    exact ⟨rule.name, hmem, rule, hrule, rfl⟩

omit [Leaf τ] in
theorem role_eq_nil (p : Problem α τ) :
    (if s.isTest == n.isTest then [] else [p]) = [] ↔ s.isTest = n.isTest := by
  by_cases h : s.isTest = n.isTest
  · simp [h]
  · simp [h]

/-- A command or a test has no problems with its signature exactly where it obeys that. -/
theorem signatureProblems_eq_nil [Inhabited α] :
    n.signatureProblems declared s = [] ↔ n.Obeys declared s := by
  unfold signatureProblems
  dsimp only
  rw [List.append_eq_nil_iff, List.append_eq_nil_iff, List.append_eq_nil_iff,
    List.append_eq_nil_iff, List.append_eq_nil_iff, role_eq_nil, useProblems_eq_nil, groups_eq_nil,
    positionalProblems_eq_nil, filterMap_rule?_ofArguments]
  have hinner : (if n.isTest then n.innerProblems s else []) = [] ↔
      (n.isTest = true → n.InnerFits s) := by
    rw [← innerProblems_eq_nil]
    split
    · next htest => exact ⟨fun h _ => h, fun h => h htest⟩
    · next htest => exact ⟨fun _ h => absurd h htest, fun _ => rfl⟩
  have hgroups : (∀ group ∈ s.tagGroups, ∃ rule ∈ n.arguments.filterMap (·.rule? s), rule.name ∈ group) ↔
      ∀ group ∈ s.tagGroups, ∃ a ∈ n.arguments, ∃ rule ∈ a.rule? s, rule.name ∈ group := by
    refine forall₂_congr fun group _ => ?_
    simp only [List.mem_filterMap]
    exact ⟨fun ⟨rule, ⟨a, ha, hrule⟩, hmem⟩ => ⟨a, ha, rule, hrule, hmem⟩,
      fun ⟨a, ha, rule, hrule, hmem⟩ => ⟨rule, ⟨a, ha, hrule⟩, hmem⟩⟩
  constructor
  · rintro ⟨⟨⟨⟨⟨hrole, hcap⟩, htags⟩, hgroup⟩, hin⟩, hplaces⟩
    rw [positional_eq_free n.arguments htags] at hplaces
    refine ⟨hrole, fun c hc => ?_, htags, hgroups.1 hgroup, hinner.1 hin, hplaces⟩
    rw [Option.mem_def.1 hc] at hcap
    simpa using hcap
  · intro h
    refine ⟨⟨⟨⟨⟨h.role, ?_⟩, h.tags⟩, hgroups.2 h.groups⟩, hinner.2 h.inner⟩, ?_⟩
    · split
      · next c hc => simpa using h.capability c hc
      · rfl
    · rw [positional_eq_free n.arguments h.tags]
      exact h.places

theorem problems_eq_nil [Inhabited α] (r : Registry) :
    n.problems r declared = [] ↔ n.Valid r declared := by
  unfold problems Valid
  cases r.leafLookup? n.name with
  | none => exact ⟨fun h => absurd h (List.cons_ne_nil _ _), fun ⟨_, h, _⟩ => nomatch h⟩
  | some s =>
      dsimp only
      rw [signatureProblems_eq_nil]
      exact ⟨fun h => ⟨s, rfl, h⟩, fun ⟨_, hs, h⟩ => by cases hs; exact h⟩

end Node

end MailFilter
