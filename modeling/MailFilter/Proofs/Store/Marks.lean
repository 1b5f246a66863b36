import MailFilter.Proofs.Store.Loading
import MailFilter.Proofs.Store.Sound

/-!
# Marks of new trees

A tree that is put into a store gets marks that nothing else has, so no test of it is shared: not inside
one command, nor between commands.
-/

namespace MailFilter.Store

open Relation

variable {s s' s'' : Store} {lost : List CommandId} {α τ : Type} [Located α] [Leaf τ]

/-! ## Numbers of tests -/

theorem testIds_append (as bs : List (Argument Mark Value)) :
    testIds (as ++ bs) = testIds as ++ testIds bs := by
  simp only [testIds, List.filterMap_append, List.flatMap_append]

theorem walk_itemsOf (as : List (Argument Mark Value)) :
    ((Test.itemsOf as).filterMap Argument.test?).map (·.mark.id) = testIds as := by
  induction as with
  | nil => rfl
  | cons a as ih =>
      cases a with
      | test t =>
          rw [Test.itemsOf, List.filterMap_append, List.map_append, ih]
          rfl
      | string | strings | number | tag | foreign => exact ih

theorem testIds_cons_test (name : Value) (arguments tests as : List (Argument Mark Value)) (m : Mark) :
    testIds (.test (.mk name arguments tests m) :: as) = m.id :: testIds tests ++ testIds as := by
  rw [← walk_itemsOf tests]
  rfl

/-! ## Ranges -/

/-- Numbers that are given out between two counts, each once. -/
structure Between (first next : Nat) (ids : List Nat) : Prop where
  le : first ≤ next
  nodup : ids.Nodup
  mem : ∀ i ∈ ids, first ≤ i ∧ i < next

theorem Between.nil {first next : Nat} (h : first ≤ next) : Between first next [] :=
  ⟨h, .nil, by simp⟩

theorem Between.cons {first next : Nat} {ids : List Nat} (h : Between (first + 1) next ids) :
    Between first next (first :: ids) := by
  have hle := h.le
  refine ⟨by omega, List.nodup_cons.2 ⟨fun hmem => ?_, h.nodup⟩, fun i hi => ?_⟩
  · have := h.mem first hmem
    omega
  · rcases List.mem_cons.1 hi with rfl | hi
    · omega
    · have := h.mem i hi
      omega

theorem Between.append {first middle next : Nat} {ids ids' : List Nat} (h : Between first middle ids)
    (h' : Between middle next ids') : Between first next (ids ++ ids') := by
  have hle := h.le
  have hle' := h'.le
  refine ⟨by omega, h.nodup.append h'.nodup fun i hi hi' => ?_, fun i hi => ?_⟩
  · have := h.mem i hi
    have := h'.mem i hi'
    omega
  · rcases List.mem_append.1 hi with hi | hi
    · have := h.mem i hi
      omega
    · have := h'.mem i hi
      omega

mutual

theorem between_label (next : Nat) :
    ∀ a : Argument α τ, Between next (a.label next).2 (testIds [(a.label next).1])
  | .string .. | .strings .. | .number .. | .tag .. => .nil (Nat.le_succ _)
  | .foreign _ => .nil (Nat.le_refl _)
  | .test t => between_labelTest next t

theorem between_labelTest (next : Nat) :
    ∀ t : Test α τ, Between next (Test.label next t).2 (testIds [.test (Test.label next t).1])
  | .mk name arguments tests m => by
      have harguments := between_labelAll (next + 1) arguments
      have htests := between_labelAll (Argument.labelAll (next + 1) arguments).2 tests
      rw [Test.label, testIds_cons_test, show testIds [] = [] from rfl, List.append_nil]
      exact ((Between.nil harguments.le).append htests).cons

theorem between_labelAll (next : Nat) : ∀ as : List (Argument α τ),
    Between next (Argument.labelAll next as).2 (testIds (Argument.labelAll next as).1)
  | [] => .nil (Nat.le_refl _)
  | a :: as => by
      rw [Argument.labelAll]
      exact (testIds_append [_] _) ▸ (between_label next a).append (between_labelAll _ as)

end

/-! ## New commands -/

/-- A store with more commands, the tests of which have new marks. -/
structure Grown (s s' : Store) : Prop where
  commands : s.commands.size ≤ s'.commands.size
  blocks : s.blocks.size ≤ s'.blocks.size
  marks : s.nextMark ≤ s'.nextMark
  old : ∀ c, c < s.commands.size → s'.command c = s.command c
  block : ∀ c b, s.commands.size ≤ c → (s'.command c).block = some b → s.blocks.size ≤ b
  tests : ∀ c, s.commands.size ≤ c → Between s.nextMark s'.nextMark (s'.testsOf c)
  apart : ∀ c d, s.commands.size ≤ c → s.commands.size ≤ d → c ≠ d →
    (s'.testsOf c).Disjoint (s'.testsOf d)

theorem testsOf_of_size_le {c : CommandId} (h : s.commands.size ≤ c) : s.testsOf c = [] := by
  rw [testsOf, command_of_size_le h]
  rfl

theorem Grown.refl (s : Store) : Grown s s := by
  refine ⟨Nat.le_refl _, Nat.le_refl _, Nat.le_refl _, fun _ _ => rfl, fun c b hc hb => ?_,
    fun c hc => ?_, fun c d hc _ _ => ?_⟩
  · exact absurd (lt_of_block hb) (Nat.not_lt.2 hc)
  · rw [testsOf_of_size_le hc]
    exact .nil (Nat.le_refl _)
  · rw [testsOf_of_size_le hc]
    exact List.disjoint_nil_left _

theorem Grown.trans (h : Grown s s') (h' : Grown s' s'') : Grown s s'' := by
  have hmarks := h.marks
  have hmarks' := h'.marks
  have hold : ∀ c, c < s'.commands.size → s''.testsOf c = s'.testsOf c := fun c hc => by
    rw [testsOf, h'.old c hc, testsOf]
  have hearly : ∀ c, s.commands.size ≤ c → c < s'.commands.size →
      Between s.nextMark s'.nextMark (s''.testsOf c) := fun c hc hlt => by
    rw [hold c hlt]
    exact h.tests c hc
  -- Marks of commands from the first growth come before those from the second one.
  have hacross : ∀ c d, s.commands.size ≤ c → c < s'.commands.size → s'.commands.size ≤ d →
      (s''.testsOf c).Disjoint (s''.testsOf d) := by
    intro c d hc hlt hd i hi hi'
    have := (hearly c hc hlt).mem i hi
    have := (h'.tests d hd).mem i hi'
    omega
  refine ⟨h.commands.trans h'.commands, h.blocks.trans h'.blocks, h.marks.trans h'.marks,
    fun c hc => ?_, fun c b hc hb => ?_, fun c hc => ?_, fun c d hc hd hcd => ?_⟩
  · rw [h'.old c (hc.trans_le h.commands), h.old c hc]
  · rcases Nat.lt_or_ge c s'.commands.size with hlt | hge
    · rw [h'.old c hlt] at hb
      exact h.block c b hc hb
    · exact h.blocks.trans (h'.block c b hge hb)
  · rcases Nat.lt_or_ge c s'.commands.size with hlt | hge
    · exact ⟨by omega, (hearly c hc hlt).nodup, fun i hi => by
        have := (hearly c hc hlt).mem i hi
        omega⟩
    · exact ⟨by omega, (h'.tests c hge).nodup, fun i hi => by
        have := (h'.tests c hge).mem i hi
        omega⟩
  · rcases Nat.lt_or_ge c s'.commands.size with hlt | hge
    · rcases Nat.lt_or_ge d s'.commands.size with hlt' | hge'
      · rw [hold c hlt, hold d hlt']
        exact h.apart c d hc hd hcd
      · exact hacross c d hc hlt hge'
    · rcases Nat.lt_or_ge d s'.commands.size with hlt' | hge'
      · exact (hacross d c hd hlt' hge).symm
      · exact h'.apart c d hge hge' hcd

theorem Grown.congr (h : Grown s s') (hcommands : s''.commands = s'.commands)
    (hmarks : s''.nextMark = s'.nextMark) (hblocks : s'.blocks.size ≤ s''.blocks.size) :
    Grown s s'' := by
  have hcommand : ∀ c, s''.command c = s'.command c := fun c => by rw [command, hcommands, command]
  have htests : ∀ c, s''.testsOf c = s'.testsOf c := fun c => by rw [testsOf, hcommand, testsOf]
  refine ⟨?_, h.blocks.trans hblocks, ?_, fun c hc => ?_, fun c b hc hb => ?_, fun c hc => ?_,
    fun c d hc hd hcd => ?_⟩
  · rw [hcommands]
    exact h.commands
  · rw [hmarks]
    exact h.marks
  · rw [hcommand]
    exact h.old c hc
  · rw [hcommand] at hb
    exact h.block c b hc hb
  · rw [hmarks, htests]
    exact h.tests c hc
  · rw [htests, htests]
    exact h.apart c d hc hd hcd

theorem grown_addCell (parent : Option BlockId) (head : Head α τ) {block : Option BlockId}
    (hblock : ∀ b, block = some b → s.blocks.size ≤ b) :
    Grown s (s.addCell parent head block).1 := by
  have hpush : (s.addCell parent head block).1.commands = s.commands.push ⟨_, block, parent⟩ := rfl
  have hids := between_labelAll s.nextMark head.arguments
  have htests : ∀ c, s.commands.size ≤ c → (s.addCell parent head block).1.testsOf c =
      if c = s.commands.size then testIds (Argument.labelAll s.nextMark head.arguments).1 else [] := by
    intro c hc
    rw [testsOf, command_push hpush]
    split
    · rfl
    · exact testsOf_of_size_le hc
  refine ⟨?_, Nat.le_refl _, hids.le.trans (Nat.le_succ _), fun c hc => ?_, fun c b hc hb => ?_,
    fun c hc => ?_, fun c d hc hd hcd => ?_⟩
  · rw [hpush, Array.size_push]
    exact Nat.le_succ _
  · rw [command_push hpush, if_neg (Nat.ne_of_lt hc)]
  · rw [command_push hpush] at hb
    split at hb
    · exact hblock b hb
    · exact absurd (lt_of_block hb) (Nat.not_lt.2 hc)
  · rw [htests c hc]
    split
    · exact ⟨hids.le.trans (Nat.le_succ _), hids.nodup, fun i hi =>
        ⟨(hids.mem i hi).1, (hids.mem i hi).2.trans (Nat.lt_succ_self _)⟩⟩
    · exact .nil (hids.le.trans (Nat.le_succ _))
  · rw [htests c hc, htests d hd]
    by_cases hnew : c = s.commands.size
    · rw [if_neg (c := d = _) fun hd => hcd (hnew.trans hd.symm)]
      exact List.disjoint_nil_right _
    · rw [if_neg hnew]
      exact List.disjoint_nil_left _

mutual

theorem grown_addCommand (t : Command α τ) (s : Store) (parent : Option BlockId) :
    Grown s (s.addCommand parent t).1 := by
  match t with
  | .simple head =>
      rw [addCommand]
      exact grown_addCell parent head nofun
  | .control head cs trailing opening =>
      have hcell : Grown s (s.addCell parent head (some s.blocks.size)).1 :=
        grown_addCell parent head fun b hb => (Option.some.inj hb).le
      have hopen : Grown s ((s.addCell parent head (some s.blocks.size)).1.pushBlock
          ⟨[], trailing.map (·.map Leaf.value), opening, some (.command s.commands.size)⟩).1 :=
        hcell.congr rfl rfl (by rw [pushBlock, Array.size_push]; exact Nat.le_succ _)
      rw [addCommand]
      exact (hopen.trans (grown_addCommands cs _ _)).congr rfl rfl Array.size_modify.ge

theorem grown_addCommands (ts : List (Command α τ)) (s : Store) (b : BlockId) :
    Grown s (s.addCommands b ts).1 := by
  match ts with
  | [] =>
      rw [addCommands]
      exact .refl s
  | t :: ts =>
      rw [addCommands]
      exact (grown_addCommand t s (some b)).trans (grown_addCommands ts _ b)

end

theorem Retains.inside (hsame : Retains s s') (h : s.Owned lost) {top : BlockId} {c : CommandId}
    (htop : top < s.blocks.size) (hc : s'.Inside top c) : s.Inside top c ∧ c < s.commands.size := by
  obtain ⟨d, hd, hcd⟩ := hc
  rw [hsame.list top htop] at hd
  induction hcd using ReflTransGen.head_induction_on with
  | refl => exact ⟨⟨d, hd, .refl⟩, h.command_lt hd⟩
  | @head c e hce _ ih =>
      obtain ⟨b, hblock, hc⟩ := hce
      rw [hsame.command e ih.2] at hblock
      rw [hsame.list b (h.block_lt hblock)] at hc
      exact ⟨ih.1.below (.single ⟨b, hblock, hc⟩), h.command_lt hc⟩

/-! ## New scripts -/

/-- A store with one more script, in cells of its own. -/
structure Appended (s s' : Store) (cell : ScriptCell) : Prop where
  grown : Grown s s'
  list : ∀ b, b < s.blocks.size → (s'.block b).commands = (s.block b).commands
  scripts : s'.scripts = s.scripts.push cell
  block : s.blocks.size ≤ cell.block
  fresh : ∀ c ∈ (s'.block cell.block).commands, s.commands.size ≤ c

theorem appended_addScript (h : s.Owned lost) (t : Script α τ) : Appended s (s.addScript t).1
    ⟨s.blocks.size, t.capabilities.map Leaf.value, Leaf.value t.filename, t.pos⟩ := by
  have hids := added_withTop h t
  have hopen : Grown s (s.withTop t) := (Grown.refl s).congr rfl rfl (lt_size_withTop t).le
  have hgrown := hopen.trans (grown_addCommands t.commands (s.withTop t) s.blocks.size)
  refine ⟨hgrown.congr rfl rfl Array.size_modify.ge, fun b hb => ?_, ?_, Nat.le_refl _, fun c hc => ?_⟩
  · rw [block_addScript h, if_neg (Nat.ne_of_lt hb), hids.ext.block b (hb.trans (lt_size_withTop t)),
      block_withTop, if_neg (Nat.ne_of_lt hb)]
  · exact congrArg (Array.push · _) hids.ext.scripts
  · rw [block_addScript h, if_pos rfl] at hc
    exact hids.fresh c hc

namespace Appended

variable {cell : ScriptCell} {k : ScriptId} {c : CommandId} (happ : Appended s s' cell)

include happ

theorem script_of_lt (hk : k < s.scripts.size) : s'.script k = s.script k := by
  rw [script, happ.scripts, Array.getD_eq_getD_getElem?, Array.getElem?_push,
    if_neg (Nat.ne_of_lt hk), script, Array.getD_eq_getD_getElem?]

theorem retains : Retains s s' := ⟨happ.grown.old, happ.list, fun _ => happ.script_of_lt⟩

theorem script_new : s'.script s.scripts.size = cell := by
  rw [script, happ.scripts, Array.getD_eq_getD_getElem?, Array.getElem?_push, if_pos rfl]
  rfl

theorem inside_new (h : s.Owned lost) (h' : s'.Owned lost) (hc : s'.Inside cell.block c) :
    s.commands.size ≤ c := by
  obtain ⟨d, hd, hcd⟩ := hc
  induction hcd using ReflTransGen.head_induction_on with
  | refl => exact happ.fresh d hd
  | @head c e hce _ ih =>
      obtain ⟨b, hblock, hc⟩ := hce
      have hb := happ.grown.block e b ih hblock
      by_contra hlt
      have hparent := h'.parent_of_mem hc
      rw [happ.grown.old c (Nat.lt_of_not_le hlt)] at hparent
      have hold := (h.listed c b).2 ⟨hparent, h'.not_lost_of_mem hc⟩
      exact absurd (lt_of_mem hold) (Nat.not_lt.2 hb)

end Appended

end MailFilter.Store
