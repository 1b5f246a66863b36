import MailFilter.Proofs.Script.Nodes
import MailFilter.Proofs.Script.Signatures

/-!
# Valid scripts

A script without problems, told of its blocks, its commands and its tests: every `require` leads the
script, every branch follows what it branches from, every command and test obeys its signature, and the
server offers what is declared.  The problems of a script are none exactly where it is valid.
-/

namespace MailFilter

variable {α τ : Type} [Leaf τ]

/-! ## What it is to be valid -/

/-- A command is one of two that only go on with another. -/
def Head.isBranch (h : Head α τ) : Bool :=
  h.keyword? == some .elsifCommand || h.keyword? == some .elseCommand

/-- A command may have such a branch after it. -/
def Head.opensBranch (h : Head α τ) : Bool :=
  h.keyword? == some .ifCommand || h.keyword? == some .elsifCommand

def Command.blocksOf (cs : List (Command α τ)) : List (List (Command α τ)) :=
  cs.filterMap fun c => c.block?.map Block.commands

/-- Every branch in a block stands right after a command that it may go on with. -/
def Command.BranchesFollow (cs : List (Command α τ)) : Prop :=
  ∀ before c rest, cs = before ++ c :: rest → c.head.isBranch = true →
    ∃ d ∈ before.getLast?, d.head.opensBranch = true

/-- Before every `require` in a block there are only others. -/
def Command.RequiresLead (cs : List (Command α τ)) : Prop :=
  ∀ before c rest, cs = before ++ c :: rest → c.head.keyword? = some .require →
    ∀ d ∈ before, d.head.keyword? = some .require

namespace Script

/-- The commands of a script but for the `require` that the capabilities belong to. -/
def others (t : Script α τ) : List (Command α τ) :=
  if t.requireHead?.isSome then t.walk.tail else t.walk

def innerBlocks (t : Script α τ) : List (List (Command α τ)) := Command.blocksOf t.walk

/-- A script that nothing is wrong with. -/
structure Valid (r : Registry) (t : Script α τ) : Prop where
  /-- Every `require` of the top level is one of those that lead the script. -/
  front : Command.RequiresLead t.commands
  /-- There is none in any other block. -/
  nested : ∀ cs ∈ t.innerBlocks, ∀ c ∈ cs, c.head.keyword? ≠ some .require
  branches : ∀ cs ∈ t.commands :: t.innerBlocks, Command.BranchesFollow cs
  /-- Commands and tests are known, and obey their signatures. -/
  nodes : ∀ c ∈ t.others, ∀ n ∈ c.head.nodes, n.Valid r t.declared
  /-- The server offers what the capabilities and every other `require` name. -/
  offered : ∀ name ∈ t.capabilities, r.isSupported (Leaf.plain name) = true
  required : ∀ c ∈ t.others, c.head.keyword? = some .require →
    ∀ name ∈ declaredNames c.head.arguments, r.isSupported (Leaf.plain name) = true

end Script

/-! ## Places -/

theorem forall_split_cons {γ : Type} {a : γ} {as : List γ} {P : List γ → γ → Prop} :
    (∀ before c rest, a :: as = before ++ c :: rest → P before c) ↔
      P [] a ∧ ∀ before c rest, as = before ++ c :: rest → P (a :: before) c := by
  constructor
  · intro h
    exact ⟨h [] a as rfl,
      fun before c rest heq => h (a :: before) c rest (by rw [heq, List.cons_append])⟩
  · rintro ⟨hfirst, hrest⟩ before c rest heq
    cases before with
    | nil =>
        cases heq
        exact hfirst
    | cons b before =>
        rw [List.cons_append, List.cons.injEq] at heq
        obtain ⟨rfl, heq⟩ := heq
        exact hrest before c rest heq

theorem forall_split_nil {γ : Type} {P : List γ → γ → Prop} :
    ∀ before c rest, [] = before ++ c :: rest → P before c :=
  fun _ _ _ h => absurd h.symm (List.append_ne_nil_of_right_ne_nil _ (List.cons_ne_nil _ _))

namespace Place

variable {p : Place}

/-- A branch may stand after a command of this keyword. -/
def Opens (k : Option Keyword) : Prop := k = some .ifCommand ∨ k = some .elsifCommand

/-- The keyword before an item of a block, which is that of the last one before it. -/
def keywordBefore (p : Place) (before : List (Command α τ)) : Option Keyword :=
  (before.getLast?.map (·.head.keyword?)).getD p.previous

/-- Commands that follow each other all stand where they may. -/
def Fits : Place → List (Command α τ) → Prop
  | _, [] => True
  | p, c :: cs => p.problems c.head = [] ∧ (p.after c.head).Fits cs

theorem problems_eq_nil {h : Head α τ} : p.problems h = [] ↔
    (h.keyword? = some .require → p.top = true ∧ p.other = false) ∧
    (h.isBranch = true → Opens p.previous) := by
  have hrequire : (if h.keyword? == some .require && (!p.top || p.other) then
      [(⟨.lateRequire, h.mark, h.name⟩ : Problem α τ)] else []) = [] ↔
        (h.keyword? = some .require → p.top = true ∧ p.other = false) := by
    by_cases hk : h.keyword? = some .require
    · simp [hk]
    · simp [hk]
  have hbranch : (if (h.keyword? == some .elsifCommand || h.keyword? == some .elseCommand) &&
      p.previous != some .ifCommand && p.previous != some .elsifCommand then
        [(⟨.looseBranch (Leaf.plain h.name), h.mark, h.name⟩ : Problem α τ)] else []) = [] ↔
        (h.isBranch = true → Opens p.previous) := by
    unfold Head.isBranch Opens
    by_cases hk : (h.keyword? == some .elsifCommand || h.keyword? == some .elseCommand) = true
    · rw [hk]
      by_cases hif : p.previous = some .ifCommand
      · simp [hif]
      · simp [hif]
    · rw [Bool.not_eq_true] at hk
      rw [hk]
      simp
  rw [problems, List.append_eq_nil_iff, hrequire, hbranch]

theorem keywordBefore_cons (c : Command α τ) (before : List (Command α τ)) :
    p.keywordBefore (c :: before) = (p.after c.head).keywordBefore before := by
  rw [keywordBefore, keywordBefore, List.getLast?_cons]
  cases before.getLast? <;> rfl

theorem other_after {h : Head α τ} :
    (p.after h).other = false ↔ h.keyword? = some .require ∧ p.other = false := by
  simp [after, and_comm]

/-- All commands stand where they may exactly where each `require` does, told by all before it, and each
branch, told by the one before it. -/
theorem fits_iff (cs : List (Command α τ)) : p.Fits cs ↔
    (∀ before c rest, cs = before ++ c :: rest → c.head.keyword? = some .require →
      p.top = true ∧ p.other = false ∧ ∀ d ∈ before, d.head.keyword? = some .require) ∧
    (∀ before c rest, cs = before ++ c :: rest → c.head.isBranch = true →
      Opens (p.keywordBefore before)) := by
  induction cs generalizing p with
  | nil => exact ⟨fun _ => ⟨forall_split_nil, forall_split_nil⟩, fun _ => trivial⟩
  | cons c cs ih =>
      have htop : (p.after c.head).top = p.top := rfl
      rw [Fits, problems_eq_nil, ih, forall_split_cons, forall_split_cons, htop]
      simp only [other_after, keywordBefore_cons, List.forall_mem_cons, List.not_mem_nil,
        false_implies, implies_true, and_true]
      constructor
      · rintro ⟨⟨hrequire, hbranch⟩, hrequires, hbranches⟩
        refine ⟨⟨hrequire, fun before d rest heq hd => ?_⟩, hbranch, hbranches⟩
        obtain ⟨h₁, ⟨h₂, h₃⟩, h₄⟩ := hrequires before d rest heq hd
        exact ⟨h₁, h₃, h₂, h₄⟩
      · rintro ⟨⟨hrequire, hrequires⟩, hbranch, hbranches⟩
        refine ⟨⟨hrequire, hbranch⟩, fun before d rest heq hd => ?_, hbranches⟩
        obtain ⟨h₁, h₂, h₃, h₄⟩ := hrequires before d rest heq hd
        exact ⟨h₁, ⟨h₃, h₂⟩, h₄⟩

theorem opens_front {top : Bool} {before : List (Command α τ)} :
    Opens ((front top).keywordBefore before) ↔ ∃ d ∈ before.getLast?, d.head.opensBranch = true := by
  unfold Opens keywordBefore front Head.opensBranch
  cases before.getLast? with
  | none => simp
  | some d => simp

theorem fits_top (cs : List (Command α τ)) : (front true).Fits cs ↔
    Command.RequiresLead cs ∧ Command.BranchesFollow cs := by
  simp only [fits_iff, opens_front, Command.RequiresLead, Command.BranchesFollow]
  simp [front]

theorem fits_inner (cs : List (Command α τ)) : (front false).Fits cs ↔
    (∀ c ∈ cs, c.head.keyword? ≠ some .require) ∧ Command.BranchesFollow cs := by
  simp only [fits_iff, opens_front, Command.BranchesFollow]
  refine and_congr_left fun _ => ?_
  constructor
  · intro h c hc hrequire
    obtain ⟨before, rest, heq⟩ := List.append_of_mem hc
    exact Bool.false_ne_true (h before c rest heq hrequire).1
  · intro h before c rest heq hrequire
    exact absurd hrequire (h c (by simp [heq]))

end Place

/-! ## Commands -/

section Commands

variable [Inhabited α] {r : Registry} {declared : List String}

omit [Leaf τ] [Inhabited α] in
theorem unsupportedNames_eq_nil {names : List String} {mark : α} {node : τ} :
    unsupportedNames r names mark node = [] ↔ ∀ name ∈ names, r.isSupported name = true := by
  simp [unsupportedNames]

theorem Head.ownProblems_eq_nil {h : Head α τ} : h.ownProblems r declared = [] ↔
    (h.keyword? = some .require →
      ∀ name ∈ declaredNames h.arguments, r.isSupported (Leaf.plain name) = true) ∧
    ∀ n ∈ h.nodes, n.Valid r declared := by
  rw [ownProblems, List.append_eq_nil_iff, problems_eq, List.flatMap_eq_nil_iff]
  simp only [Node.problems_eq_nil]
  refine and_congr_left fun _ => ?_
  by_cases hrequire : h.keyword? = some .require
  · rw [if_pos (by simpa using hrequire), unsupportedNames_eq_nil, List.forall_mem_map]
    exact ⟨fun h _ => h, fun h => h hrequire⟩
  · rw [if_neg (by simpa using hrequire)]
    exact ⟨fun _ h => absurd h hrequire, fun _ => rfl⟩

theorem Head.problemsAt_eq_nil {p : Place} {h : Head α τ} : h.problemsAt r declared p = [] ↔
    p.problems h = [] ∧ (p.holdsCapabilities h = false → h.ownProblems r declared = []) := by
  rw [problemsAt, List.append_eq_nil_iff]
  refine and_congr_right fun _ => ?_
  cases p.holdsCapabilities h with
  | true => simp
  | false => simp

omit [Leaf τ] [Inhabited α] in
theorem Command.walk_eq (c : Command α τ) : c.walk = c :: c.walk.tail := by
  cases c with
  | simple | control => rw [walk, List.tail_cons]

omit [Leaf τ] [Inhabited α] in
theorem Command.blocksOf_append (cs ds : List (Command α τ)) :
    blocksOf (cs ++ ds) = blocksOf cs ++ blocksOf ds :=
  List.filterMap_append

mutual

theorem Command.problems_eq_nil : ∀ (p : Place) (c : Command α τ), c.problems r declared p = [] ↔
    p.problems c.head = [] ∧
    (p.holdsCapabilities c.head = false → c.head.ownProblems r declared = []) ∧
    (∀ d ∈ c.walk.tail, d.head.ownProblems r declared = []) ∧
    ∀ cs ∈ blocksOf c.walk, (Place.front false).Fits cs
  | p, .simple h => by
      have hblocks : blocksOf [Command.simple h] = [] := rfl
      rw [Command.problems, Head.problemsAt_eq_nil, walk, List.tail_cons, hblocks]
      simp [head]
  | p, .control h cs trailing opening => by
      have hblocks : blocksOf (.control h cs trailing opening :: walkAll cs) =
          cs :: blocksOf (walkAll cs) := rfl
      rw [Command.problems, List.append_eq_nil_iff, Head.problemsAt_eq_nil, walk, List.tail_cons,
        hblocks, List.forall_mem_cons, problemsFrom_eq_nil (.front false) cs fun _ => rfl]
      constructor
      · rintro ⟨⟨hplace, hown⟩, hfits, hinside, hblocks⟩
        exact ⟨hplace, hown, hinside, hfits, hblocks⟩
      · rintro ⟨hplace, hown, hinside, hfits, hblocks⟩
        exact ⟨⟨hplace, hown⟩, hfits, hinside, hblocks⟩

theorem Command.problemsFrom_eq_nil : ∀ (p : Place) (cs : List (Command α τ)),
    (∀ h : Head α τ, p.holdsCapabilities h = false) → (problemsFrom r declared p cs = [] ↔
      p.Fits cs ∧ (∀ d ∈ walkAll cs, d.head.ownProblems r declared = []) ∧
      ∀ bs ∈ blocksOf (walkAll cs), (Place.front false).Fits bs)
  | p, [], _ => by
      rw [problemsFrom, walkAll]
      simp [Place.Fits, blocksOf]
  | p, c :: cs, hp => by
      have hafter : ∀ h : Head α τ, (p.after c.head).holdsCapabilities h = false := by
        intro h
        simp [Place.holdsCapabilities, Place.after]
      rw [problemsFrom, List.append_eq_nil_iff, problems_eq_nil p c,
        problemsFrom_eq_nil (p.after c.head) cs hafter, walkAll, blocksOf_append, List.forall_mem_append,
        List.forall_mem_append, c.walk_eq, List.tail_cons, List.forall_mem_cons, Place.Fits, hp]
      constructor
      · rintro ⟨⟨hplace, hown, hinside, hblocks⟩, hfits, hinsides, hblocksAll⟩
        exact ⟨⟨hplace, hfits⟩, ⟨⟨hown rfl, hinside⟩, hinsides⟩, hblocks, hblocksAll⟩
      · rintro ⟨⟨hplace, hfits⟩, ⟨⟨hown, hinside⟩, hinsides⟩, hblocks, hblocksAll⟩
        exact ⟨⟨hplace, fun _ => hown, hinside, hblocks⟩, hfits, hinsides, hblocksAll⟩

end

/-! ## Scripts -/

namespace Script

theorem commands_eq_nil (t : Script α τ) :
    Command.problemsFrom r declared (.front true) t.commands = [] ↔
      (Place.front true).Fits t.commands ∧
      (∀ c ∈ t.others, c.head.ownProblems r declared = []) ∧
      ∀ cs ∈ t.innerBlocks, (Place.front false).Fits cs := by
  unfold others innerBlocks walk requireHead?
  cases t.commands with
  | nil => simp [Command.problemsFrom, Command.walkAll, Command.blocksOf, Place.Fits]
  | cons c cs =>
      have hafter : ∀ h : Head α τ, ((Place.front true).after c.head).holdsCapabilities h = false := by
        intro h
        simp [Place.holdsCapabilities, Place.after]
      have hholds : (Place.front true).holdsCapabilities c.head = c.head.isBareRequire := rfl
      have hothers : (∀ d ∈ (if (((c :: cs).head?.map Command.head).filter Head.isBareRequire).isSome
          then (Command.walkAll (c :: cs)).tail else Command.walkAll (c :: cs)),
            d.head.ownProblems r declared = []) ↔
          (c.head.isBareRequire = false → c.head.ownProblems r declared = []) ∧
          (∀ d ∈ c.walk.tail, d.head.ownProblems r declared = []) ∧
          ∀ d ∈ Command.walkAll cs, d.head.ownProblems r declared = [] := by
        rw [Command.walkAll, c.walk_eq, List.cons_append, List.tail_cons, List.tail_cons,
          List.head?_cons, Option.map_some, Option.filter_some]
        cases c.head.isBareRequire with
        | true => simp [or_imp, forall_and]
        | false => simp [or_imp, forall_and]
      rw [hothers, Command.problemsFrom, List.append_eq_nil_iff, Command.problems_eq_nil,
        Command.problemsFrom_eq_nil _ _ hafter, Command.walkAll, Command.blocksOf_append,
        List.forall_mem_append, Place.Fits, hholds]
      constructor
      · rintro ⟨⟨hplace, hown, hinside, hblocks⟩, hfits, hinsides, hblocksAll⟩
        exact ⟨⟨hplace, hfits⟩, ⟨hown, hinside, hinsides⟩, hblocks, hblocksAll⟩
      · rintro ⟨⟨hplace, hfits⟩, ⟨hown, hinside, hinsides⟩, hblocks, hblocksAll⟩
        exact ⟨⟨hplace, hown, hinside, hblocks⟩, hfits, hinsides, hblocksAll⟩

/-- A script has no problems exactly where it is valid. -/
theorem problems_eq_nil_iff_valid (r : Registry) (t : Script α τ) : t.problems r = [] ↔ t.Valid r := by
  have hserver : t.serverProblems r = [] ↔
      ∀ name ∈ t.capabilities, r.isSupported (Leaf.plain name) = true := by
    rw [serverProblems, unsupportedNames_eq_nil, List.forall_mem_map]
  rw [problems, List.append_eq_nil_iff, hserver, commands_eq_nil, Place.fits_top]
  simp only [Place.fits_inner, Head.ownProblems_eq_nil]
  constructor
  · rintro ⟨hoffered, ⟨hfront, hbranches⟩, hown, hinner⟩
    exact ⟨hfront, fun cs hcs => (hinner cs hcs).1,
      List.forall_mem_cons.2 ⟨hbranches, fun cs hcs => (hinner cs hcs).2⟩,
      fun c hc => (hown c hc).2, hoffered, fun c hc => (hown c hc).1⟩
  · intro h
    obtain ⟨hbranches, hinner⟩ := List.forall_mem_cons.1 h.branches
    exact ⟨h.offered, ⟨h.front, hbranches⟩, fun c hc => ⟨h.required c hc, h.nodes c hc⟩,
      fun cs hcs => ⟨h.nested cs hcs, hinner cs hcs⟩⟩

end Script

end Commands

end MailFilter
