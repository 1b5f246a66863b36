import Mathlib.Data.List.Pairwise
import MailFilter.Proofs.Result
import MailFilter.Proofs.Script.Names
import MailFilter.Proofs.Store.Sound
import MailFilter.Store.Audit

/-!
# What audits find

An audit of any store ends, since every block but the top one waits for a command of its own.  It gives
a number only for a sound script, and what it finds in another one is the case.
-/

namespace MailFilter.Store

open Relation

variable {s : Store} {k : ScriptId} {top b : BlockId} {c d : CommandId} {a a' : AuditState}

/-! ## Checks one after the other -/

/-- A check gives what it should, or an error that is right. -/
def Meets {γ : Type} (bad : EditError → Prop) (good : γ → Prop) : Except EditError γ → Prop
  | .ok x => good x
  | .error e => bad e

section Meets

variable {γ δ : Type} {bad : EditError → Prop} {good : γ → Prop} {good' : δ → Prop}

theorem Meets.mono {bad' : EditError → Prop} {good' : γ → Prop} {x : Except EditError γ}
    (hx : Meets bad good x) (hbad : ∀ e, bad e → bad' e) (hgood : ∀ y, good y → good' y) :
    Meets bad' good' x := by
  cases x with
  | error e => exact hbad e hx
  | ok y => exact hgood y hx

theorem Meets.bind {x : Except EditError γ} {f : γ → Except EditError δ} (hx : Meets bad good x)
    (hf : ∀ y, good y → Meets bad good' (f y)) : Meets bad good' (x >>= f) := by
  cases x with
  | error e => exact hx
  | ok y => exact hf y hx

theorem Meets.unless {condition : Prop} [Decidable condition] {reason : Refusal}
    {f : Unit → Except EditError δ} (hbad : condition → ∀ name, bad (.refused reason name))
    (hf : ¬ condition → Meets bad good' (f ())) :
    Meets bad good' (if condition then s.finding reason c >>= f else f ()) := by
  by_cases h : condition
  · rw [if_pos h]
    exact hbad h _
  · rw [if_neg h]
    exact hf h

theorem meets_fitting {fit : Fit} (hbad : fit ≠ .ok () → ∀ m, bad (.misfit m)) :
    Meets bad (fun _ => fit = .ok ()) (fitting fit) := by
  cases fit with
  | ok u => rfl
  | error m => exact hbad nofun m

end Meets

/-! ## Tests -/

def idsAmong (arguments : List (Argument Mark Value)) : List Nat :=
  (arguments.filterMap Argument.test?).map (·.mark.id)

theorem idsAmong_items (s : Store) (c : CommandId) :
    idsAmong ((s.command c).head.tests.flatMap Test.items) = s.testsOf c := by
  rw [idsAmong, List.filterMap_flatMap, List.map_flatMap]
  rfl

theorem meets_auditTests (met : List Nat) (arguments : List (Argument Mark Value)) :
    Meets (fun e => match e with
        | .misfit _ => ¬ ∀ x ∈ arguments, x.test?.isSome = true
        | .refused (.sharedTest _) _ => ¬ ((idsAmong arguments).reverse ++ met).Nodup
        | _ => False)
      (fun met' => (∀ x ∈ arguments, x.test?.isSome = true) ∧
        met' = (idsAmong arguments).reverse ++ met ∧ (met.Nodup → met'.Nodup))
      (s.auditTests c met arguments) := by
  induction arguments generalizing met with
  | nil => exact ⟨by simp, rfl, id⟩
  | cons x arguments ih =>
      cases x with
      | test t =>
          have hids : (idsAmong (.test t :: arguments)).reverse ++ met =
              (idsAmong arguments).reverse ++ t.mark.id :: met := by
            simp [idsAmong, Argument.test?]
          have htest : (Argument.test t).test?.isSome = true := rfl
          rw [auditTests]
          split
          · next hmet =>
              show ¬ _
              rw [hids]
              intro hnodup
              exact (List.nodup_cons.1 hnodup.of_append_right).1 (by simpa using hmet)
          · next hmet =>
              have hnew : met.Nodup → (t.mark.id :: met).Nodup := fun hnodup =>
                List.nodup_cons.2 ⟨by simpa using hmet, hnodup⟩
              refine (ih (t.mark.id :: met)).mono (fun e he => ?_) fun met' ⟨hall, hmet', hnodup⟩ => ?_
              · rw [hids]
                rw [List.forall_mem_cons, and_iff_right htest]
                exact he
              · rw [hids]
                exact ⟨List.forall_mem_cons.2 ⟨htest, hall⟩, hmet', hnodup ∘ hnew⟩
      | string | strings | number | tag | foreign =>
          intro hall
          have := hall _ List.mem_cons_self
          cases this

/-! ## Progress -/

/-- What has been gone over: of each block that has been looked at, the commands that are done. -/
structure Gone (s : Store) (k : ScriptId) (done : BlockId → List CommandId) (a : AuditState) :
    Prop where
  nodup : (a.blocks ++ a.waiting).Nodup
  once : a.commands.Nodup
  rooted : (s.script k).block ∈ a.blocks ++ a.waiting
  owned : ∀ b ∈ a.blocks ++ a.waiting,
    b = (s.script k).block ∨ ∃ c ∈ a.commands, (s.command c).block = some b
  inside : ∀ c ∈ a.commands, s.Inside (s.script k).block c
  listed : ∀ c, c ∈ a.commands ↔ ∃ b ∈ a.blocks, c ∈ done b
  lists : ∀ b ∈ a.blocks, (done b).Nodup
  parent : ∀ b ∈ a.blocks, ∀ c ∈ done b, (s.command c).parent = some b
  own : ∀ c ∈ a.commands, ∀ b, (s.command c).block = some b →
    (s.block b).owner = some (.command c) ∧ b ∈ a.blocks ++ a.waiting
  front : ∀ b ∈ a.blocks, ∀ i c, (done b)[i]? = some c →
    (s.command c).head.isBareRequire = true → b = (s.script k).block ∧ i = 0
  apart : a.tests.Nodup
  tests : a.tests.Perm (a.commands.flatMap s.testsOf)
  names : ∀ c ∈ a.commands, (s.command c).head.name.fitName = .ok ()
  items : ∀ c ∈ a.commands, ∀ x ∈ (s.command c).head.tests.flatMap Test.items, x.test?.isSome = true
  count : a.blocks.length + a.waiting.length ≤ a.commands.length + 1

/-- The commands of all blocks are done, but of one only some. -/
def upTo (s : Store) (b : BlockId) (first : List CommandId) (b' : BlockId) : List CommandId :=
  if b' = b then first else (s.block b').commands

abbrev GoneAll (s : Store) (k : ScriptId) (a : AuditState) : Prop :=
  s.Gone k (fun b => (s.block b).commands) a

theorem upTo_self (b : BlockId) (first : List CommandId) : s.upTo b first b = first := if_pos rfl

theorem upTo_ne {b' : BlockId} (h : b' ≠ b) (first : List CommandId) :
    s.upTo b first b' = (s.block b').commands := if_neg h

theorem upTo_all (b : BlockId) : s.upTo b (s.block b).commands = fun b' => (s.block b').commands := by
  funext b'
  by_cases h : b' = b
  · rw [h, upTo_self]
  · exact upTo_ne h _

theorem mem_upTo_concat {b' : BlockId} {first : List CommandId} :
    d ∈ s.upTo b (first ++ [c]) b' ↔ d ∈ s.upTo b first b' ∨ b' = b ∧ d = c := by
  by_cases h : b' = b
  · subst h
    simp [upTo_self]
  · simp [upTo_ne h, h]

theorem getElem?_upTo_concat {b' : BlockId} {first : List CommandId} {i : Nat}
    (h : (s.upTo b (first ++ [c]) b')[i]? = some d) :
    (s.upTo b first b')[i]? = some d ∨ b' = b ∧ d = c ∧ i = first.length := by
  by_cases hb : b' = b
  · subst hb
    rw [upTo_self] at h ⊢
    rcases Nat.lt_trichotomy i first.length with hlt | rfl | hgt
    · rw [List.getElem?_append_left hlt] at h
      exact .inl h
    · rw [List.getElem?_concat_length, Option.some.injEq] at h
      exact .inr ⟨rfl, h.symm, rfl⟩
    · rw [List.getElem?_eq_none (by simpa using Nat.succ_le_of_lt hgt)] at h
      cases h
  · rw [upTo_ne hb] at h ⊢
    exact .inl h

theorem goneAll_start (s : Store) (k : ScriptId) :
    s.GoneAll k ⟨[], [], [], [(s.script k).block]⟩ := by
  refine ⟨?_, .nil, ?_, ?_, ?_, ?_, ?_, ?_, ?_, ?_, .nil, .nil, ?_, ?_, ?_⟩ <;> simp

theorem Gone.pop {blocks waiting : List BlockId} {commands : List CommandId} {tests : List Nat}
    (h : s.GoneAll k ⟨blocks, commands, tests, b :: waiting⟩) :
    s.Gone k (s.upTo b []) ⟨b :: blocks, commands, tests, waiting⟩ := by
  have hnodup := List.nodup_middle.1 h.nodup
  have hmem : ∀ d, d ∈ b :: blocks ++ waiting ↔ d ∈ blocks ++ b :: waiting := by
    intro d
    simp only [List.cons_append, List.mem_cons, List.mem_append]
    tauto
  have hdone : ∀ d ∈ blocks, s.upTo b [] d = (s.block d).commands := by
    intro d hd
    refine upTo_ne (fun hdb => ?_) []
    exact (List.nodup_cons.1 hnodup).1 (List.mem_append_left _ (hdb ▸ hd))
  refine ⟨hnodup, h.once, (hmem _).2 h.rooted, fun d hd => h.owned d ((hmem d).1 hd), h.inside,
    fun c => ?_, ?_, ?_, fun c hc d hd => ?_, ?_, h.apart, h.tests, h.names, h.items, ?_⟩
  · rw [h.listed c]
    simp only [List.mem_cons, exists_eq_or_imp, upTo_self, List.not_mem_nil, false_or]
    exact exists_congr fun d => and_congr_right fun hd => by rw [hdone d hd]
  · refine List.forall_mem_cons.2 ⟨by rw [upTo_self]; exact .nil, fun d hd => ?_⟩
    rw [hdone d hd]
    exact h.lists d hd
  · refine List.forall_mem_cons.2 ⟨by simp [upTo_self], fun d hd => ?_⟩
    rw [hdone d hd]
    exact h.parent d hd
  · exact ⟨(h.own c hc d hd).1, (hmem d).2 (h.own c hc d hd).2⟩
  · refine List.forall_mem_cons.2 ⟨by simp [upTo_self], fun d hd => ?_⟩
    rw [hdone d hd]
    exact h.front d hd
  · have := h.count
    simp only [List.length_cons] at this ⊢
    omega

namespace Gone

variable {done : BlockId → List CommandId} {first rest : List CommandId}

theorem part (h : s.Gone k done a) (hb : b ∈ a.blocks ++ a.waiting) : s.Part (s.script k).block b := by
  rcases h.owned b hb with rfl | ⟨c, hc, hblock⟩
  · exact .inl rfl
  · exact (h.inside c hc).part hblock

/-- The next command of a block is looked at. -/
theorem next (h : s.Gone k (s.upTo b first) a) (htop : (s.block (s.script k).block).owner = some (.script k))
    (hb : b ∈ a.blocks) (hc : c ∈ (s.block b).commands) (hfresh : c ∉ a.commands)
    (hparent : (s.command c).parent = some b)
    (hname : (s.command c).head.name.fitName = .ok ())
    (hfront : (s.command c).head.isBareRequire = true → b = (s.script k).block ∧ first = [])
    (hitems : ∀ x ∈ (s.command c).head.tests.flatMap Test.items, x.test?.isSome = true)
    {tests : List Nat} (htests : tests = (s.testsOf c).reverse ++ a.tests) (hapart : tests.Nodup)
    (hown : ∀ b, (s.command c).block = some b → (s.block b).owner = some (.command c)) :
    s.Gone k (s.upTo b (first ++ [c])) { a with
      commands := c :: a.commands, tests, waiting := (s.command c).block.toList ++ a.waiting } := by
  have hmem : ∀ d, d ∈ a.blocks ++ ((s.command c).block.toList ++ a.waiting) ↔
      (s.command c).block = some d ∨ d ∈ a.blocks ++ a.waiting := by
    intro d
    simp only [List.mem_append, Option.mem_toList]
    tauto
  have hpart := h.part (List.mem_append_left _ hb)
  refine ⟨?_, List.nodup_cons.2 ⟨hfresh, h.once⟩, (hmem _).2 (.inr h.rooted), fun d hd => ?_,
    List.forall_mem_cons.2 ⟨hpart.inside hc, h.inside⟩, fun d => ?_, fun d hd => ?_,
    fun d hd e he => ?_, fun d hd e he => ?_, fun d hd i e he hbare => ?_, hapart, ?_,
    List.forall_mem_cons.2 ⟨hname, h.names⟩, List.forall_mem_cons.2 ⟨hitems, h.items⟩, ?_⟩
  · cases hblock : (s.command c).block with
    | none => exact h.nodup
    | some own =>
        -- A block that was met already has another owner than the new command.
        refine List.nodup_middle.2 (List.nodup_cons.2 ⟨fun hmet => ?_, h.nodup⟩)
        have howner := hown own hblock
        rcases h.owned own hmet with rfl | ⟨d, hd, hdown⟩
        · rw [htop] at howner
          cases howner
        · rw [(h.own d hd own hdown).1] at howner
          cases howner
          exact hfresh hd
  · rcases (hmem d).1 hd with hblock | hd
    · exact .inr ⟨c, List.mem_cons_self, hblock⟩
    · exact (h.owned d hd).imp_right fun ⟨e, he, hed⟩ => ⟨e, List.mem_cons_of_mem _ he, hed⟩
  · simp only [List.mem_cons, mem_upTo_concat, and_or_left, exists_or, h.listed d]
    rw [or_comm]
    refine or_congr_right ⟨?_, ?_⟩
    · rintro rfl
      exact ⟨b, hb, rfl, rfl⟩
    · rintro ⟨_, _, _, hdc⟩
      exact hdc
  · by_cases hdb : d = b
    · subst hdb
      have hnodup := h.lists d hd
      rw [upTo_self] at hnodup ⊢
      refine List.nodup_append.2 ⟨hnodup, List.nodup_singleton c, ?_⟩
      rintro e he c' hc' rfl
      rw [List.mem_singleton.1 hc'] at he
      exact hfresh ((h.listed c).2 ⟨d, hd, by rwa [upTo_self]⟩)
    · have hnodup := h.lists d hd
      rw [upTo_ne hdb] at hnodup ⊢
      exact hnodup
  · rcases mem_upTo_concat.1 he with he | ⟨rfl, rfl⟩
    · exact h.parent d hd e he
    · exact hparent
  · rcases List.mem_cons.1 hd with rfl | hd
    · exact ⟨hown e he, (hmem e).2 (.inl he)⟩
    · exact ⟨(h.own d hd e he).1, (hmem e).2 (.inr (h.own d hd e he).2)⟩
  · rcases getElem?_upTo_concat he with he | ⟨rfl, rfl, rfl⟩
    · exact h.front d hd i e he hbare
    · obtain ⟨htop, rfl⟩ := hfront hbare
      exact ⟨htop, rfl⟩
  · rw [htests, List.flatMap_cons]
    exact (List.reverse_perm _).append h.tests
  · have := h.count
    have : (s.command c).block.toList.length ≤ 1 := by cases (s.command c).block <;> simp
    simp only [List.length_append, List.length_cons]
    omega

theorem waiting_eq_nil (h : s.Gone k done a) (hblocks : a.blocks.length = s.commands.size + 1) :
    a.waiting = [] := by
  have hsub : a.commands ⊆ List.range s.commands.size := by
    intro c hc
    obtain ⟨b, hb, hcb⟩ := (h.listed c).1 hc
    exact List.mem_range.2 (lt_of_parent (h.parent b hb c hcb))
  have hlength := (List.subperm_of_subset h.once hsub).length_le
  have hcount := h.count
  rw [List.length_range] at hlength
  exact List.length_eq_zero_iff.1 (by omega)

end Gone

/-! ## Defects -/

section Defects

variable {first rest : List CommandId}

theorem Gone.not_listedOnce (h : s.Gone k (s.upTo b first) a) (hb : b ∈ a.blocks)
    (hsplit : (s.block b).commands = first ++ c :: rest) (hmet : c ∈ a.commands) :
    ¬ s.ListedOnce (s.script k).block := by
  intro honce
  have hpart := h.part (List.mem_append_left _ hb)
  obtain ⟨d, hd, hc⟩ := (h.listed c).1 hmet
  by_cases hdb : d = b
  · subst hdb
    have hnodup := honce.nodup d hpart
    rw [upTo_self] at hc
    rw [hsplit] at hnodup
    exact (List.nodup_middle.1 hnodup).notMem (List.mem_append_left _ hc)
  · rw [upTo_ne hdb] at hc
    refine hdb (honce.apart c d b (h.part (List.mem_append_left _ hd)) hpart hc ?_)
    rw [hsplit]
    exact List.mem_append_right _ List.mem_cons_self

theorem Gone.nodup_tests (h : s.Gone k (s.upTo b first) a) (hc : s.Inside (s.script k).block c)
    (hfresh : c ∉ a.commands) (hapart : s.TestsApart k) :
    ((s.testsOf c).reverse ++ a.tests).Nodup := by
  refine (List.nodup_reverse.2 (hapart.nodup c hc)).append h.apart ?_
  intro t ht hmet
  obtain ⟨d, hd, htd⟩ := List.mem_flatMap.1 (h.tests.mem_iff.1 hmet)
  have hcd : c ≠ d := by
    rintro rfl
    exact hfresh hd
  exact hapart.apart c d hc (h.inside d hd) hcd (List.mem_reverse.1 ht) htd

end Defects

/-! ## Going over a script -/

section Loops

variable {first rest : List CommandId}

theorem meets_auditCommand (htop : (s.block (s.script k).block).owner = some (.script k))
    (h : s.Gone k (s.upTo b first) a) (hb : b ∈ a.blocks)
    (hsplit : (s.block b).commands = first ++ c :: rest) :
    Meets (s.Defect k) (fun a' => s.Gone k (s.upTo b (first ++ [c])) a' ∧ a'.blocks = a.blocks)
      (s.auditCommand (s.script k).block b first.isEmpty a c) := by
  have hpart := h.part (List.mem_append_left _ hb)
  have hc : c ∈ (s.block b).commands := by
    rw [hsplit]
    exact List.mem_append_right _ List.mem_cons_self
  have hinside := hpart.inside hc
  have hplace : (s.block b).commands[first.length]? = some c := by simp [hsplit]
  unfold auditCommand
  dsimp only
  refine Meets.unless (fun hmet _ => ?_) fun hfresh => ?_
  · exact h.not_listedOnce hb hsplit (by simpa using hmet)
  refine Meets.unless (fun hstale _ => ⟨c, b, hpart, hc, by simpa using hstale⟩) fun hparent => ?_
  have hname : Meets (s.Defect k) (fun _ => (s.command c).head.name.fitName = .ok ())
      (fitting (s.command c).head.name.fitName) :=
    meets_fitting fun hfit m hfits => hfit (hfits.names c hinside)
  refine hname.bind fun _ hname => ?_
  refine Meets.unless (fun hlate _ => ?_) fun hfront => ?_
  · rw [Bool.and_eq_true, Bool.or_eq_true, bne_iff_ne, Bool.not_eq_true', List.isEmpty_eq_false_iff]
      at hlate
    refine ⟨c, b, first.length, hpart, hplace, hlate.1, fun ⟨hbt, hfirst⟩ => ?_⟩
    exact hlate.2.elim (· hbt) (· (List.length_eq_zero_iff.1 hfirst))
  have hfresh : c ∉ a.commands := by simpa using hfresh
  have htests : Meets (s.Defect k) _ _ :=
    (meets_auditTests (s := s) (c := c) a.tests ((s.command c).head.tests.flatMap Test.items)).mono
      (fun e he => ?_) fun _ => id
  · refine htests.bind fun tests ⟨hitems, htests, hapart⟩ => ?_
    rw [idsAmong_items] at htests
    have hnext := h.next htop hb hc hfresh (by simpa using hparent) hname (fun hbare => ?_) hitems htests
      (hapart h.apart)
    · cases hblock : (s.command c).block with
      | none => exact ⟨by simpa [hblock] using hnext, rfl⟩
      | some own =>
          refine Meets.unless (fun hstale _ => ⟨c, own, hinside, hblock, by simpa using hstale⟩)
            fun howner => ?_
          refine ⟨?_, rfl⟩
          simpa [hblock] using hnext (by simpa [hblock] using howner)
    · simpa [hbare] using hfront
  · split at he
    · exact fun hfits => he (hfits.tests c hinside)
    · rw [idsAmong_items] at he
      exact fun hapart => he (h.nodup_tests hinside hfresh hapart)
    · exact he.elim

theorem meets_auditCommands (htop : (s.block (s.script k).block).owner = some (.script k))
    (h : s.Gone k (s.upTo b first) a) (hb : b ∈ a.blocks)
    (hsplit : (s.block b).commands = first ++ rest) :
    Meets (s.Defect k) (fun a' => s.GoneAll k a' ∧ a'.blocks = a.blocks)
      (s.auditCommands (s.script k).block b first.isEmpty a rest) := by
  induction rest generalizing a first with
  | nil =>
      rw [List.append_nil] at hsplit
      rw [← hsplit, upTo_all] at h
      exact ⟨h, rfl⟩
  | cons c rest ih =>
      rw [auditCommands]
      refine (meets_auditCommand htop h hb hsplit).bind fun a' ⟨h', hblocks⟩ => ?_
      have hsplit' : (s.block b).commands = (first ++ [c]) ++ rest := by
        rw [hsplit, List.append_assoc]
        rfl
      have hrest := ih h' (hblocks ▸ hb) hsplit'
      have hnonempty : (first ++ [c]).isEmpty = false := by cases first <;> rfl
      rw [hblocks, hnonempty] at hrest
      exact hrest

theorem meets_auditBlocks (htop : (s.block (s.script k).block).owner = some (.script k))
    (fuel : Nat) (h : s.GoneAll k a) (hfuel : a.blocks.length + fuel = s.commands.size + 1) :
    Meets (s.Defect k) (fun a' => s.GoneAll k a' ∧ a'.waiting = [])
      (s.auditBlocks (s.script k).block fuel a) := by
  induction fuel generalizing a with
  | zero => exact ⟨h, h.waiting_eq_nil hfuel⟩
  | succ fuel ih =>
      obtain ⟨blocks, commands, tests, waiting⟩ := a
      cases waiting with
      | nil => exact ⟨h, rfl⟩
      | cons b waiting =>
          have hnew : blocks.contains b = false := by
            have := (List.nodup_cons.1 (List.nodup_middle.1 h.nodup)).1
            simpa using fun hb => this (List.mem_append_left _ hb)
          simp only [auditBlocks, hnew, Bool.false_eq_true, if_false]
          have hall : (s.block b).commands = [] ++ (s.block b).commands := rfl
          refine (meets_auditCommands htop h.pop List.mem_cons_self hall).bind
            fun a' ⟨h', hblocks⟩ => ih h' ?_
          rw [hblocks, List.length_cons]
          simp only at hfuel
          omega

end Loops

/-! ## All of a script -/

namespace Gone

variable (h : s.GoneAll k a) (hdone : a.waiting = [])

include hdone

theorem mem_blocks_of_done (hb : b ∈ a.blocks ++ a.waiting) : b ∈ a.blocks := by
  rwa [hdone, List.append_nil] at hb

include h

theorem mem_commands (hc : s.Inside (s.script k).block c) : c ∈ a.commands := by
  obtain ⟨d, hd, hcd⟩ := hc
  induction hcd using ReflTransGen.head_induction_on with
  | refl => exact (h.listed d).2 ⟨_, mem_blocks_of_done hdone h.rooted, hd⟩
  | head hce _ ih =>
      obtain ⟨b, hblock, hce⟩ := hce
      exact (h.listed _).2 ⟨b, mem_blocks_of_done hdone (h.own _ ih b hblock).2, hce⟩

theorem mem_blocks (hb : s.Part (s.script k).block b) : b ∈ a.blocks := by
  rcases hb with rfl | ⟨c, hc, hblock⟩
  · exact mem_blocks_of_done hdone h.rooted
  · exact mem_blocks_of_done hdone (h.own c (h.mem_commands hdone hc) b hblock).2

theorem listedOnce : s.ListedOnce (s.script k).block := by
  refine ⟨fun b hb => h.lists b (h.mem_blocks hdone hb), fun c b b' hb hb' hc hc' => ?_⟩
  have hparent := h.parent b (h.mem_blocks hdone hb) c hc
  rw [h.parent b' (h.mem_blocks hdone hb') c hc'] at hparent
  exact (Option.some.inj hparent).symm

theorem testsApart : s.TestsApart k := by
  have hnodup := List.nodup_flatMap.1 (h.tests.nodup_iff.1 h.apart)
  refine ⟨fun c hc => hnodup.1 c (h.mem_commands hdone hc), fun c d hc hd hcd => ?_⟩
  have : Std.Symm (Function.onFun List.Disjoint s.testsOf) := ⟨fun _ _ => List.Disjoint.symm⟩
  exact hnodup.2.forall (h.mem_commands hdone hc) (h.mem_commands hdone hd) hcd

theorem sound (htop : (s.block (s.script k).block).owner = some (.script k))
    (hdistinct : (((s.script k).capabilities.map Value.plain).map Text.lower).Nodup)
    (hheld : (s.script k).capabilities ≠ [] → (s.requireOf? k).isSome = true) : s.Sound k where
  top := htop
  listed := h.listedOnce hdone
  parent := fun c b hb => h.parent b (h.mem_blocks hdone hb) c
  own := fun c b hc hblock => (h.own c (h.mem_commands hdone hc) b hblock).1
  tests := h.testsApart hdone
  front := fun c b i hb => h.front b (h.mem_blocks hdone hb) i c
  distinct := hdistinct
  held := hheld

theorem fits (hcapabilities : ∀ v ∈ (s.script k).capabilities, v.fitText = .ok ()) : s.Fits k where
  names := fun c hc => h.names c (h.mem_commands hdone hc)
  tests := fun c hc => h.items c (h.mem_commands hdone hc)
  capabilities := hcapabilities

theorem perm_walkScript (hrooted : s.Rooted (s.script k).block) : a.commands.Perm (s.walkScript k) := by
  refine (List.perm_ext_iff_of_nodup h.once hrooted.nodup_walkScript).2 fun c => ?_
  rw [hrooted.mem_walkScript]
  exact ⟨h.inside c, h.mem_commands hdone⟩

end Gone

theorem hasTwice_eq_false {names : List String} :
    hasTwice names = false ↔ (names.map Text.lower).Nodup := by
  rw [← length_eraseDups_eq]
  exact bne_eq_false_iff_eq

/-- An audit counts the commands of a sound script, and finds a defect of any other. -/
theorem meets_audit (s : Store) (k : ScriptId) :
    Meets (s.Defect k) (fun n => s.Sound k ∧ s.Fits k ∧ n = (s.walkScript k).length) (s.audit k) := by
  unfold audit
  dsimp only
  split
  · next htop => exact (by simpa using htop : _ ≠ _)
  · next htop =>
      have htop : (s.block (s.script k).block).owner = some (.script k) := by simpa using htop
      refine (meets_auditBlocks htop _ (goneAll_start s k) (Nat.zero_add _)).bind
        fun a ⟨hgone, hdone⟩ => ?_
      have hcapabilities : Meets (s.Defect k) (fun _ => ∀ v ∈ (s.script k).capabilities, v.fitText = .ok ())
          (fitting ((s.script k).capabilities.forM Value.fitText)) :=
        (meets_fitting fun hfit m hfits => hfit (forM_eq_ok.2 hfits.capabilities)).mono
          (fun _ => id) fun _ => forM_eq_ok.1
      refine hcapabilities.bind fun _ hcapabilities => ?_
      split
      · next htwice =>
          intro hdistinct
          rw [hasTwice_eq_false.2 hdistinct] at htwice
          cases htwice
      · next hdistinct =>
          split
          · next halone =>
              show (s.script k).capabilities ≠ [] ∧ s.requireOf? k = none
              simpa using halone
          · next hheld =>
              have hheld : (s.script k).capabilities ≠ [] → (s.requireOf? k).isSome = true := by
                simpa [Option.isSome_iff_ne_none] using hheld
              have hsound := hgone.sound hdone htop
                (hasTwice_eq_false.1 (Bool.eq_false_iff.2 hdistinct)) hheld
              exact ⟨hsound, hgone.fits hdone hcapabilities,
                (hgone.perm_walkScript hdone hsound.rooted).length_eq⟩

/-! ## Ends -/

theorem auditBlocks_add (top : BlockId) (fuel more : Nat) (a : AuditState) :
    s.auditBlocks top (fuel + more) a = s.auditBlocks top fuel a >>= s.auditBlocks top more := by
  induction fuel generalizing a with
  | zero =>
      rw [Nat.zero_add]
      rfl
  | succ fuel ih =>
      obtain ⟨blocks, commands, tests, waiting⟩ := a
      rw [Nat.add_right_comm]
      cases waiting with
      | nil => cases more <;> rfl
      | cons b waiting =>
          cases hmet : blocks.contains b with
          | true =>
              simp only [auditBlocks, hmet, if_true]
              rfl
          | false => simp only [auditBlocks, hmet, Bool.false_eq_true, if_false, ih, bind_assoc]

theorem auditBlocks_of_waiting_nil (top : BlockId) (fuel : Nat) (hdone : a.waiting = []) :
    s.auditBlocks top fuel a = .ok a := by
  cases fuel with
  | zero => rfl
  | succ fuel => simp only [auditBlocks, hdone]

/-- What an audit finds is the case. -/
theorem defect_of_audit {k : ScriptId} {e : EditError} (h : s.audit k = .error e) : s.Defect k e := by
  have hmeets := meets_audit s k
  rwa [h] at hmeets

/-- A script that passes is sound, and its commands are counted. -/
theorem sound_of_audit {k : ScriptId} {n : Nat} (h : s.audit k = .ok n) :
    s.Sound k ∧ s.Fits k ∧ n = (s.walkScript k).length := by
  have hmeets := meets_audit s k
  rwa [h] at hmeets

/-- Audits are exact.  A script passes where it is sound, whatever the rest of the store is like, and
then its commands are counted; what is found in any other script is the case.  No block is met twice,
and the blocks are gone over to the end. -/
theorem audit_exact (s : Store) (k : ScriptId) :
    (∀ n, s.audit k = .ok n ↔ s.Sound k ∧ s.Fits k ∧ n = (s.walkScript k).length) ∧
    (∀ e, s.audit k = .error e → s.Defect k e) ∧
    (∀ block command, s.audit k ≠ .error (.refused (.blockTwice block) command)) ∧
    ((s.block (s.script k).block).owner = some (.script k) → ∀ more,
      s.auditBlocks (s.script k).block (s.commands.size + 1 + more) ⟨[], [], [], [(s.script k).block]⟩ =
        s.auditBlocks (s.script k).block (s.commands.size + 1) ⟨[], [], [], [(s.script k).block]⟩) := by
  have hmeets := meets_audit s k
  have hdefect : ∀ e, s.audit k = .error e → s.Defect k e := by
    intro e he
    rwa [he] at hmeets
  refine ⟨fun n => ⟨fun hok => ?_, fun ⟨hsound, hfits, hn⟩ => ?_⟩, hdefect,
    fun block command hblock => hdefect _ hblock, fun htop more => ?_⟩
  · rwa [hok] at hmeets
  · cases haudit : s.audit k with
    | ok n' =>
        rw [haudit] at hmeets
        rw [hn, hmeets.2.2]
    | error e => exact absurd hfits (hsound.misfit_of_defect (hdefect e haudit)).2
  · have hblocks := meets_auditBlocks htop _ (goneAll_start s k) (Nat.zero_add _)
    rw [auditBlocks_add]
    revert hblocks
    cases s.auditBlocks (s.script k).block (s.commands.size + 1) ⟨[], [], [], [(s.script k).block]⟩ with
    | error e => exact fun _ => rfl
    | ok a => exact fun hgone => auditBlocks_of_waiting_nil _ more hgone.2

/-- A script with a command that is in its own block. -/
def looped : Store where
  commands := #[⟨⟨.text "if", [], [], default⟩, some 1, some 0⟩]
  blocks := #[⟨[0], [], .nowhere, some (.script 0)⟩, ⟨[0], [], .nowhere, some (.command 0)⟩]
  scripts := #[⟨0, [], .null, .nowhere⟩]
  nextMark := 0

theorem audit_exact_looped : (looped.block (looped.script 0).block).owner = some (.script 0) ∧
    ¬ looped.ListedOnce 0 ∧ (∀ n, looped.audit 0 ≠ .ok n) ∧
    ∀ more, looped.auditBlocks 0 (2 + more) ⟨[], [], [], [0]⟩ = looped.auditBlocks 0 2 ⟨[], [], [], [0]⟩ := by
  have htop : (looped.block (looped.script 0).block).owner = some (.script 0) := by decide
  obtain ⟨hok, herror, -, hends⟩ := audit_exact looped 0
  have hfound : looped.audit 0 =
      .error (.refused (.commandTwice (looped.shown 0)) (some (.text "if"))) := rfl
  have hlisted : ¬ looped.ListedOnce 0 := herror _ hfound
  refine ⟨htop, hlisted, fun n hn => ?_, hends htop⟩
  exact hlisted ((hok n).1 hn).1.listed

end MailFilter.Store
