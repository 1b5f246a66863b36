import MailFilter.Proofs.Reading.Depth
import MailFilter.Proofs.Store.Backlinks
import MailFilter.Proofs.Store.Planting

/-!
# Runs within a limit

Where scripts are read and edited within a limit, they stay within it.  Nothing is refused for its depth
that would have stayed within it, whether it comes from another place, from a tree of its own, or in
other arguments.  The exception is a command that moves to a block which hangs on it by the names of
lost commands: the levels that are counted then are more than those it takes.
-/

namespace MailFilter.Store

open Relation

variable {s s' : Store} {lost : List CommandId} {k : ScriptId} {b : BlockId} {c : CommandId}
  {m : Nat} {limit : Value}

/-! ## The height of a script -/

/-- How many levels of blocks and tests a script takes. -/
def scriptHeight (s : Store) (k : ScriptId) : Nat :=
  ((s.block (s.script k).block).commands.map s.height).foldl max 0

theorem scriptHeight_le : s.scriptHeight k ≤ m ↔
    ∀ c ∈ (s.block (s.script k).block).commands, s.height c ≤ m := by
  rw [scriptHeight, foldl_max_le, List.forall_mem_map]
  exact and_iff_right (Nat.zero_le m)

theorem Rooted.scriptHeight_le (h : s.Rooted (s.script k).block) :
    s.scriptHeight k ≤ m ↔ s.Shallow k m := by
  rw [Store.scriptHeight_le]
  exact forall₂_congr fun c hc => (h.grounded ⟨c, hc, .refl⟩).height_le

/-! ## Edits and their limits -/

namespace Edit

/-- The command that an edit with a limit is about. -/
def subject? : Edit → Option CommandId
  | insert _ _ c _ | append _ c _ | replace c _ _ | move c _ _ _ => some c
  | remove _ | declare _ _ | requireAll _ _ | nameRule _ _ => none

def withLimit (limit : Value) : Edit → Edit
  | insert b index c _ => insert b index c limit
  | append b c _ => append b c limit
  | replace c arguments _ => replace c arguments limit
  | move c b index _ => move c b index limit
  | e => e

/-- The levels that are counted for the subject of an edit before anything is changed: its own, or those
of the arguments that it gets, and those around its place. -/
def counted (s : Store) (c : CommandId) : Edit → Nat
  | insert b _ _ _ | append b _ _ | move _ b _ _ => s.level b + s.height c
  | replace _ arguments _ => ((s.command c).parent.map s.level).getD 0 + Test.heightOf arguments
  | remove _ | declare _ _ | requireAll _ _ | nameRule _ _ => 0

/-- A move whose command is around the block that it goes to. -/
def Hangs (s : Store) : Edit → Prop
  | move c b _ _ => c ∈ s.around (s.commands.size + 1) [] b
  | _ => False

/-- The levels that the subject of an edit takes in a store with those around it: all its levels where
it has come to its place, and those of its arguments where it got them. -/
def levels (s : Store) (c : CommandId) (e : Edit) : Nat :=
  ((s.command c).parent.map s.level).getD 0 + match e with
    | replace _ arguments _ => Test.heightOf arguments
    | _ => s.height c

end Edit

def tooDeep (s : Store) (c : CommandId) (limit : Value) : EditError :=
  .tooDeep ⟨limit, (s.command c).head.mark.location.line, (s.command c).head.mark.location.column⟩

theorem checkDepth_int (levels : Nat) : s.checkDepth levels c (.int m) =
    if levels ≤ m then .ok () else .error (s.tooDeep c (.int m)) := by
  have hcompare : (Value.int m).compareInt? levels = some (some (compare (m : Int) levels)) := rfl
  split
  · next hle =>
      have hnot : compare (m : Int) levels ≠ .lt := by
        rw [Ne, Int.compare_eq_lt]
        omega
      unfold checkDepth
      rw [hcompare]
      split
      · next heq => cases heq
      · next heq => exact absurd (Option.some.inj (Option.some.inj heq)) hnot
      · rfl
  · next hlt =>
      rw [checkDepth, hcompare, Int.compare_eq_lt.2 (by omega)]
      rfl

theorem insert_withLimit {index limit' : Value} (hok : s.insert b index c limit = .ok s') :
    s.insert b index c limit' =
      (s.checkDepth (s.level b + s.height c) c limit' >>= fun _ => .ok s') := by
  unfold insert at hok ⊢
  obtain ⟨_, hparent, hok⟩ := ok_of_bind hok
  obtain ⟨_, houtside, hok⟩ := ok_of_bind hok
  obtain ⟨_, hdetached, hok⟩ := ok_of_bind hok
  obtain ⟨_, hindex, hok⟩ := ok_of_bind hok
  obtain ⟨_, hname, hok⟩ := ok_of_bind hok
  obtain ⟨_, hkeyword, hok⟩ := ok_of_bind hok
  obtain ⟨_, harguments, hok⟩ := ok_of_bind hok
  obtain ⟨_, hfront, hok⟩ := ok_of_bind hok
  obtain ⟨_, _, hok⟩ := ok_of_bind hok
  simp only [hparent, houtside, hdetached, hindex, hname, hkeyword, harguments, hfront]
  exact bind_congr fun _ => hok

theorem replace_withLimit {arguments : List (Argument Mark Value)} {limit' : Value}
    (hok : s.replace c arguments limit = .ok s') : s.replace c arguments limit' =
      (s.checkDepth (((s.command c).parent.map s.level).getD 0 + Test.heightOf arguments) c limit' >>=
        fun _ => .ok s') := by
  unfold replace at hok ⊢
  obtain ⟨_, hfront, hok⟩ := ok_of_bind hok
  obtain ⟨_, hrequire, hok⟩ := ok_of_bind hok
  obtain ⟨_, harguments, hok⟩ := ok_of_bind hok
  obtain ⟨_, hitems, hok⟩ := ok_of_bind hok
  obtain ⟨_, hunused, hok⟩ := ok_of_bind hok
  obtain ⟨_, hfit, hok⟩ := ok_of_bind hok
  obtain ⟨_, _, hok⟩ := ok_of_bind hok
  simp only [hfront, hrequire, harguments, hitems, hunused, hfit]
  exact bind_congr fun _ => hok

theorem checkMove_withLimit {source : BlockId} {index limit' : Value}
    (hok : s.checkMove c source b index limit = .ok ()) :
    s.checkMove c source b index limit' = s.checkDepth (s.level b + s.height c) c limit' := by
  obtain ⟨houtside, hfirst, hkeeps, hindex, hfront, hitems, -⟩ := checkMove_eq_ok.1 hok
  simp only [checkMove, refuseIf, houtside, hfirst, hkeeps, hindex, hfront, hitems,
    Bool.false_eq_true, if_false]
  rfl

theorem move_withLimit {index limit' : Value} (hok : s.move c b index limit = .ok s') :
    s.move c b index limit' =
      (s.leaving (s.checkDepth (s.level b + s.height c) c limit') >>= fun _ => .ok s') := by
  obtain ⟨source, i, hchecked, -⟩ := move_ok hok
  rw [move_of_parent hchecked.parent hchecked.listed] at hok ⊢
  obtain ⟨_, hcheck, hok⟩ := ok_of_bind hok
  rw [checkMove_withLimit (leaving_eq_ok.1 hcheck)]
  exact bind_congr fun _ => hok

/-- An edit that passes with one limit passes with another exactly if no more levels than that are
counted, and is refused for its depth otherwise. -/
theorem result_withLimit {e : Edit} (hsubject : e.subject? = some c)
    (hok : (e.withLimit limit).result s = .ok s') (m : Nat) : (e.withLimit (.int m)).result s =
      if e.counted s c ≤ m then .ok s' else .error ⟨s.tooDeep c (.int m), s⟩ := by
  have hdepth : ∀ levels, s.leaving (s.checkDepth levels c (.int m) >>= fun _ => Except.ok s') =
      if levels ≤ m then .ok s' else .error ⟨s.tooDeep c (.int m), s⟩ := fun levels => by
    rw [checkDepth_int]
    split <;> rfl
  cases e with
  | insert b index d limit' =>
      cases hsubject
      exact (congrArg s.leaving (insert_withLimit (leaving_eq_ok.1 hok))).trans (hdepth _)
  | append b d limit' =>
      cases hsubject
      exact (congrArg s.leaving (insert_withLimit (leaving_eq_ok.1 hok))).trans (hdepth _)
  | replace d arguments limit' =>
      cases hsubject
      exact (congrArg s.leaving (replace_withLimit (leaving_eq_ok.1 hok))).trans (hdepth _)
  | move d b index limit' =>
      cases hsubject
      refine (move_withLimit hok).trans ?_
      rw [checkDepth_int]
      show _ = if s.level b + s.height c ≤ m then _ else _
      split <;> rfl
  | remove | declare | requireAll | nameRule => cases hsubject

/-! ## Levels in the store that an edit gives -/

/-- Around the place that a command comes to there are no more levels than before, and as many if it
was not around it itself, or was in no block. -/
theorem Relocated.level_place (hmove : Relocated s s' c (some b))
    (hsize : s'.commands.size = s.commands.size) : s'.level b ≤ s.level b ∧
      (c ∉ s.around (s.commands.size + 1) [] b ∨ (s.command c).parent = none → s'.level b = s.level b) := by
  obtain ⟨hsuffix, hdetached⟩ :=
    @around_suffix s s' b c hmove.owner hmove.parent (s.commands.size + 1) [] b (.inl rfl)
  rw [level, level, hsize]
  refine ⟨hsuffix.length_le, fun hfree => congrArg List.length ?_⟩
  rcases hfree with hout | hnone
  · exact around_of_not_mem hmove.owner hmove.parent hout
  · exact hdetached hnone

theorem Relocated.levels_eq (hmove : Relocated s s' c (some b)) (hbelow : SameBelow s s' c) :
    ((s'.command c).parent.map s'.level).getD 0 + s'.height c = s'.level b + s.height c := by
  rw [hmove.parent, if_pos rfl, hbelow.height_eq]
  rfl

theorem sameBelow_insert (h : s.Owned lost) {index : Value} (hc : c < s.commands.size)
    (hok : s.insert b index c limit = .ok s') : SameBelow s s' c := by
  obtain ⟨i, hchecked, rfl⟩ := insert_ok hok
  have hlist : SameBelow s (s.list b i c) c :=
    sameBelow_list ((h.grounded hc).holdsBlock_eq_false.1 hchecked.outside)
  split
  · exact hlist.trans (sameBelow_modifyOwner _ _)
  · exact hlist

theorem levels_insert (h : s.Owned lost) {index : Value} (hb : b < s.blocks.size)
    (hc : c < s.commands.size) (hok : s.insert b index c limit = .ok s') :
    ((s'.command c).parent.map s'.level).getD 0 + s'.height c = s.level b + s.height c := by
  obtain ⟨hmove, -⟩ := relocated_insert h hb hc hok
  have hbelow := sameBelow_insert h hc hok
  obtain ⟨i, hchecked, -⟩ := insert_ok hok
  rw [hmove.levels_eq hbelow, (hmove.level_place hbelow.size).2 (.inr hchecked.unlisted)]

theorem levels_move (h : s.Owned lost) {index : Value} (hb : b < s.blocks.size)
    (hok : s.move c b index limit = .ok s') :
    ((s'.command c).parent.map s'.level).getD 0 + s'.height c ≤ s.level b + s.height c ∧
      (c ∉ s.around (s.commands.size + 1) [] b →
        ((s'.command c).parent.map s'.level).getD 0 + s'.height c = s.level b + s.height c) := by
  obtain ⟨source, i, hchecked, rfl⟩ := move_ok hok
  have hground := h.grounded (lt_of_parent hchecked.parent)
  have hmove := hchecked.relocated h hb
  have hbelow : SameBelow s ((s.unlist source c).list b i c) c :=
    sameBelow_move (hground.not_beneath hchecked.listed) (hground.holdsBlock_eq_false.1 hchecked.outside)
  obtain ⟨hle, heq⟩ := hmove.level_place hbelow.size
  rw [hmove.levels_eq hbelow]
  exact ⟨Nat.add_le_add_right hle _, fun hout => by rw [heq (.inl hout)]⟩

theorem levels_replace {arguments : List (Argument Mark Value)}
    (hok : s.replace c arguments limit = .ok s') :
    ((s'.command c).parent.map s'.level).getD 0 = ((s.command c).parent.map s.level).getD 0 := by
  obtain ⟨-, rfl⟩ := replace_ok hok
  have hsame := sameLinks_modifyHead (s := s) c fun head => { head with arguments }
  rw [hsame.parent]
  refine congrArg (Option.getD · 0) (Option.map_congr fun b _ => ?_)
  exact hsame.sameAbove.level_eq trivial Array.size_modify

/-- The subject of an edit takes no more levels than were counted for it, and all of them where its
place does not hang on it. -/
theorem levels_result (h : s.Owned lost) {e : Edit} (hsubject : e.subject? = some c)
    (hknown : e.known s) (hok : (e.withLimit limit).result s = .ok s') :
    e.levels s' c ≤ e.counted s c ∧ (¬ e.Hangs s → e.levels s' c = e.counted s c) := by
  have hsame : e.levels s' c = e.counted s c →
      e.levels s' c ≤ e.counted s c ∧ (¬ e.Hangs s → e.levels s' c = e.counted s c) :=
    fun heq => ⟨heq.le, fun _ => heq⟩
  cases e with
  | insert b index d limit' =>
      cases hsubject
      exact hsame (levels_insert h hknown.1 hknown.2 (leaving_eq_ok.1 hok))
  | append b d limit' =>
      cases hsubject
      exact hsame (levels_insert h hknown.1 hknown.2 (leaving_eq_ok.1 hok))
  | replace d arguments limit' =>
      cases hsubject
      exact hsame (congrArg (· + _) (levels_replace (leaving_eq_ok.1 hok)))
  | move d b index limit' =>
      cases hsubject
      exact levels_move h hknown.1 hok
  | remove | declare | requireAll | nameRule => cases hsubject

/-- Where every command is in the block that it names, no place hangs on the command that moves
there. -/
theorem not_hangs (h : s.Owned lost) (hback : s.Backed) (hone : s.OneOwner []) {e : Edit}
    (hok : (e.withLimit limit).result s = .ok s') : ¬ e.Hangs s := by
  cases e with
  | move c b index limit' =>
      intro hangs
      obtain ⟨source, i, hchecked, -⟩ := move_ok hok
      have hlisted : ∀ c b, (s.command c).parent = some b → c ∈ (s.block b).commands :=
        fun c b hparent => (hone.parent c b).1 ⟨hparent, List.not_mem_nil⟩
      rcases hback.beneath_of_mem_around hlisted hangs with hnil | ⟨d, hd, hblock⟩
      · exact List.not_mem_nil hnil
      · have hground := h.grounded (lt_of_parent hchecked.parent)
        exact hground.holdsBlock_eq_false.1 hchecked.outside ⟨d, hd, hblock⟩
  | _ => exact id

/-! ## Runs -/

/-- Scripts are read and edited within a limit.  Trees and arguments may come from anywhere. -/
inductive Action.IsWithin (m : Nat) : Action → Prop where
  | script {tokens : List Token} {filename : String} {r : Registry} {t : Script}
    (hread : Script.ofTokens tokens filename ⟨r, .int m⟩ = .ok t) : IsWithin m (.step (.script t))
  | command {α τ : Type} [Located α] [Leaf τ] (t : Command α τ) : IsWithin m (.step (.command t))
  | edit {e : Edit} (hlimit : ∀ l ∈ e.limit?, l = .int m) : IsWithin m (.step (.edit e))
  | assign (c : CommandId) (arguments : List (Argument Mark Value)) : IsWithin m (.assign c arguments)

def AllShallow (s : Store) (m : Nat) : Prop := ∀ k, k < s.scripts.size → s.Shallow k m

theorem shallow_assign (h : s.Owned lost) (hk : k < s.scripts.size)
    {arguments : List (Argument Mark Value)} (hout : s.inScripts c = false) (hshallow : s.Shallow k m) :
    (s.modifyCommand c fun cell => { cell with head := { cell.head with arguments } }).Shallow k m := by
  refine (sameLinks_modifyHead c fun head => { head with arguments }).shallow fun e he n d hd => ?_
  have hne : d ≠ c := by
    rintro rfl
    have hin : s.inScripts d = true :=
      List.any_eq_true.2 ⟨k, List.mem_range.2 hk,
        List.contains_iff_mem.2 (h.mem_walkScript.2 ⟨e, he, hd.reaches⟩)⟩
    rw [hout] at hin
    cases hin
  rw [ownHeight, command_modifyCommand_of_ne _ hne]
  exact hshallow e he n d hd

theorem allShallow_act (h : s.Owned lost) (hshallow : s.AllShallow m) {a : Action}
    (ha : a.IsWithin m) : (s.act a).AllShallow m := by
  intro k hk
  cases ha with
  | @script _ _ _ t hread =>
      have happ := appended_addScript h t
      have hsize : k < s.scripts.size + 1 := by
        have hk : k < (s.addScript t).1.scripts.size := hk
        rwa [happ.scripts, Array.size_push] at hk
      rcases Nat.lt_succ_iff_lt_or_eq.1 hsize with hold | rfl
      · exact happ.retains.shallow h hold (hshallow k hold)
      · exact fun c hc => (shallow_addScript h t c hc).mono (Reading.heightAll_of_ofTokens hread)
  | command t =>
      have hext := (added_command t none h.toJoined h.lt_of_lost).ext
      have hk : k < s.scripts.size := by
        have hk : k < (s.addCommand none t).1.scripts.size := hk
        rwa [hext.scripts] at hk
      exact hext.retains.shallow h hk (hshallow k hk)
  | @edit e hlimit =>
      have hleads := leads_after (s := s) e
      have hk : k < s.scripts.size := scripts_size_leads hleads ▸ hk
      exact shallow_leads h hk hleads hlimit (hshallow k hk)
  | assign c arguments =>
      rw [act] at hk ⊢
      split at hk
      · next hin =>
          rw [if_pos hin]
          exact hshallow k hk
      · next hout =>
          rw [if_neg hout]
          exact shallow_assign h hk (by simpa using hout) (hshallow k hk)

theorem perform_invariant (actions : List Action) {s : Store} {lost : List CommandId} (h : s.Owned lost)
    (hback : s.Backed) : (∃ lost, (actions.foldl act s).Owned lost) ∧ (actions.foldl act s).Backed ∧
      (s.AllShallow m → (∀ a ∈ actions, a.IsWithin m) → (actions.foldl act s).AllShallow m) := by
  induction actions generalizing s lost with
  | nil => exact ⟨⟨lost, h⟩, hback, fun hshallow _ => hshallow⟩
  | cons a actions ih =>
      obtain ⟨howned, hbacked, hrest⟩ := ih (owned_act h a) (backed_act h hback a)
      refine ⟨howned, hbacked, fun hshallow hwithin => ?_⟩
      obtain ⟨ha, hactions⟩ := List.forall_mem_cons.1 hwithin
      exact hrest (allShallow_act h hshallow ha) hactions

/-- After every run within a limit all scripts are within it.  Then an edit that passes its other checks
succeeds with the limit exactly if its subject takes no more levels than the limit in the store that it
gives, and is refused for its depth otherwise.  The exception is a command that moves to a block which
hangs on it: there the levels counted before decide, and they may be more.  No block hangs on a command
that moves there where nothing is lost. -/
theorem perform_within {actions : List Action} (hactions : ∀ a ∈ actions, a.IsWithin m) :
    (∀ k, k < (perform actions).scripts.size → (perform actions).scriptHeight k ≤ m) ∧
    ∀ (e : Edit) (c : CommandId) (limit : Value) (s' : Store), e.subject? = some c →
      e.known (perform actions) → (e.withLimit limit).result (perform actions) = .ok s' →
      (¬ e.Hangs (perform actions) → (e.withLimit (.int m)).result (perform actions) =
        if e.levels s' c ≤ m then .ok s' else
          .error ⟨(perform actions).tooDeep c (.int m), perform actions⟩) ∧
      (e.Hangs (perform actions) → e.levels s' c ≤ e.counted (perform actions) c ∧
        (e.withLimit (.int m)).result (perform actions) =
          if e.counted (perform actions) c ≤ m then .ok s' else
            .error ⟨(perform actions).tooDeep c (.int m), perform actions⟩) ∧
      ((perform actions).OneOwner [] → ¬ e.Hangs (perform actions)) := by
  obtain ⟨⟨lost, howned⟩, hbacked, hrest⟩ := perform_invariant (m := m) actions owned_empty backed_empty
  have hshallow := hrest (fun k hk => absurd hk (Nat.not_lt_zero k)) hactions
  refine ⟨fun k hk => ?_, fun e c limit s' hsubject hknown hok => ?_⟩
  · exact (howned.rooted _).scriptHeight_le.2 (hshallow k hk)
  · obtain ⟨hle, heq⟩ := levels_result howned hsubject hknown hok
    have hresult := result_withLimit hsubject hok m
    refine ⟨fun hplain => ?_, fun _ => ⟨hle, hresult⟩, fun hone => ?_⟩
    · rw [heq hplain]
      exact hresult
    · exact not_hangs howned hbacked hone hok

theorem Action.isWithin_ofText {source filename : String} {r : Registry} {t : Script}
    (hread : Script.ofText source filename ⟨r, .int m⟩ = .ok t) : IsWithin m (.step (.script t)) := by
  obtain ⟨tokens, -, hread⟩ := ok_of_bind hread
  exact .script hread

/-- A run that reads a script with one level, and builds a command with one. -/
def nesting : List Action :=
  let scripts := ["if true { keep; }"].filterMap fun text =>
    (Script.ofText text "f" ⟨.default, .int 1⟩).toOption.map fun t => Action.step (.script t)
  let built : Command := .control ⟨"if", [.test (.mk "true" [] [] .nowhere)], [], .nowhere⟩ [] [] .nowhere
  scripts ++ [.step (.command built)]

theorem isWithin_filterMap {texts : List String} {r : Registry} : ∀ a ∈ texts.filterMap (fun text =>
    (Script.ofText text "f" ⟨r, .int m⟩).toOption.map fun t => Action.step (.script t)), a.IsWithin m := by
  intro a ha
  obtain ⟨text, -, hread⟩ := List.mem_filterMap.1 ha
  obtain ⟨t, ht, rfl⟩ := Option.map_eq_some_iff.1 hread
  exact Action.isWithin_ofText (eq_ok_of_toOption ht)

theorem isWithin_nesting : ∀ a ∈ nesting, a.IsWithin 1 := by
  intro a ha
  rcases List.mem_append.1 ha with hread | hbuilt
  · exact isWithin_filterMap a hread
  · rw [List.mem_singleton.1 hbuilt]
    exact .command _

/-- The command comes into the script next to the other one, but not into its block. -/
theorem perform_within_nesting : (perform nesting).scriptHeight 0 ≤ 1 ∧
    (∃ s', (Edit.insert 0 (.int 1) 2 (.int 1)).result (perform nesting) = .ok s') ∧
    (Edit.insert 1 (.int 1) 2 (.int 1)).result (perform nesting) =
      .error ⟨(perform nesting).tooDeep 2 (.int 1), perform nesting⟩ := by
  obtain ⟨hheight, hedit⟩ := perform_within isWithin_nesting
  have hlevels : ∀ b ≤ 1,
      ((Edit.insert b (.int 1) 2 (.int 2)).result (perform nesting)).toOption.map
        ((Edit.insert b (.int 1) 2 (.int 2)).levels · 2) = some (b + 1) := by decide +kernel
  have hinsert : ∀ b ≤ 1, (Edit.insert b (.int 1) 2 (.int 2)).known (perform nesting) →
      ∃ s', (Edit.insert b (.int 1) 2 (.int 1)).result (perform nesting) =
        if b + 1 ≤ 1 then .ok s' else
          .error ⟨(perform nesting).tooDeep 2 (.int 1), perform nesting⟩ := by
    intro b hb hknown
    obtain ⟨s', hok, hs'⟩ := Option.map_eq_some_iff.1 (hlevels b hb)
    have hresult := (hedit _ 2 (.int 2) s' rfl hknown (eq_ok_of_toOption hok)).1 id
    rw [hs'] at hresult
    exact ⟨s', hresult⟩
  refine ⟨hheight 0 (by decide +kernel), ?_, ?_⟩
  · obtain ⟨s', hs'⟩ := hinsert 0 (by decide) (by decide +kernel)
    exact ⟨s', hs'⟩
  · obtain ⟨s', hs'⟩ := hinsert 1 (by decide) (by decide +kernel)
    exact hs'

/-- A run that takes the innermost of three blocks out of its place, to the place that the number 0.0
tells in the same block. -/
def hanging : List Action :=
  let scripts := ["if true { if true { if true { stop; } keep; } }"].filterMap fun text =>
    (Script.ofText text "f" ⟨.default, .int 3⟩).toOption.map fun t => Action.step (.script t)
  scripts ++ [.step (.edit (.move 2 2 (.float (.ofDecimal false 0 0)) (.int 3)))]

/-- The command that was around the lost one would take three levels in its block, and is refused
there with three. -/
theorem not_within_hanging : (∀ a ∈ hanging, a.IsWithin 3) ∧
    (Edit.move 1 3 (.int 0) (.int 4)).known (perform hanging) ∧
    ∃ s', (Edit.move 1 3 (.int 0) (.int 4)).result (perform hanging) = .ok s' ∧
      (Edit.move 1 3 (.int 0) (.int 4)).levels s' 1 ≤ 3 ∧
      (Edit.move 1 3 (.int 0) (.int 3)).result (perform hanging) =
        .error ⟨(perform hanging).tooDeep 1 (.int 3), perform hanging⟩ := by
  have hpasses : ((Edit.move 1 3 (.int 0) (.int 4)).result (perform hanging)).toOption.map
      ((Edit.move 1 3 (.int 0) (.int 4)).levels · 1) = some 3 := by decide +kernel
  have hcounted : (Edit.move 1 3 (.int 0) (.int 4)).counted (perform hanging) 1 = 4 := by decide +kernel
  obtain ⟨s', hok, hlevels⟩ := Option.map_eq_some_iff.1 hpasses
  have hok := eq_ok_of_toOption hok
  refine ⟨fun a ha => ?_, by decide +kernel, s', hok, hlevels.le, ?_⟩
  · rcases List.mem_append.1 ha with hread | hmove
    · exact isWithin_filterMap a hread
    · rw [List.mem_singleton.1 hmove]
      exact .edit fun l hl => (Option.mem_some_iff.1 hl).symm
  · have hresult := result_withLimit (e := .move 1 3 (.int 0) (.int 4)) (c := 1) rfl hok 3
    rw [hcounted] at hresult
    exact hresult

end MailFilter.Store
