import MailFilter.Proofs.Store.Levels
import MailFilter.Proofs.Store.Marks
import MailFilter.Proofs.Store.RequireFirst

/-!
# Tests that edits share

When an edit makes two commands of a script share a test.  What is inserted is compared with all tests
of the script, and so are arguments that replace others, but a command that moves is not: it may come
from elsewhere with a test that the script has already.  No operation looks for a test that stands twice
inside another one.
-/

namespace MailFilter.Store

open Relation

variable {s s' : Store} {lost : List CommandId} {k : ScriptId} {b : BlockId} {c d : CommandId}
  {place : Option BlockId}

/-! ## Tests of commands -/

theorem TestsApart.nodup_testIdsOf (h : s.TestsApart k) {ids : List CommandId}
    (hinside : ∀ c ∈ ids, s.Inside (s.script k).block c) (hnodup : ids.Nodup) :
    (s.testIdsOf ids).Nodup := by
  rw [testIdsOf, List.nodup_flatMap]
  refine ⟨fun c hc => h.nodup c (hinside c hc), hnodup.pairwise_of_forall_ne ?_⟩
  exact fun c hc d hd hcd => h.apart c d (hinside c hc) (hinside d hd) hcd

theorem testsApart_iff_nodup {ids : List CommandId}
    (hinside : ∀ c, s.Inside (s.script k).block c ↔ c ∈ ids) (hnodup : ids.Nodup) :
    s.TestsApart k ↔ (s.testIdsOf ids).Nodup := by
  refine ⟨fun h => h.nodup_testIdsOf (fun c => (hinside c).2) hnodup, fun hids => ?_⟩
  rw [testIdsOf, List.nodup_flatMap] at hids
  obtain ⟨hown, hpairs⟩ := hids
  have : Std.Symm (Function.onFun List.Disjoint s.testsOf) := ⟨fun _ _ => List.Disjoint.symm⟩
  refine ⟨fun c hc => hown c ((hinside c).1 hc), fun c d hc hd hcd => ?_⟩
  exact List.Pairwise.forall (R := Function.onFun List.Disjoint s.testsOf) hpairs ((hinside c).1 hc)
    ((hinside d).1 hd) hcd

theorem Owned.testsApart_iff (h : s.Owned lost) :
    s.TestsApart k ↔ (s.testIdsOf (s.walkScript k)).Nodup :=
  testsApart_iff_nodup (fun _ => h.mem_walkScript.symm) (h.nodup_walkScript k)

theorem TestsApart.mono {j : ScriptId} (h : s.TestsApart k)
    (hsub : ∀ c, s'.Inside (s'.script j).block c →
      s.Inside (s.script k).block c ∧ s'.testsOf c = s.testsOf c ∨ s'.testsOf c = []) :
    s'.TestsApart j := by
  refine ⟨fun c hc => ?_, fun c d hc hd hcd => ?_⟩
  · rcases hsub c hc with ⟨hold, hsame⟩ | hnone
    · rw [hsame]
      exact h.nodup c hold
    · rw [hnone]
      exact .nil
  · rcases hsub c hc with ⟨hc, hcsame⟩ | hnone
    · rcases hsub d hd with ⟨hd, hdsame⟩ | hnone
      · rw [hcsame, hdsame]
        exact h.apart c d hc hd hcd
      · rw [hnone]
        exact List.disjoint_nil_right _
    · rw [hnone]
      exact List.disjoint_nil_left _

theorem testsOf_congr (hhead : (s'.command c).head = (s.command c).head) :
    s'.testsOf c = s.testsOf c := by
  rw [testsOf, testsOf, hhead]

theorem testIdsOf_congr (hhead : ∀ d, (s'.command d).head = (s.command d).head)
    (ids : List CommandId) : s'.testIdsOf ids = s.testIdsOf ids := by
  simp only [testIdsOf, hhead]

/-! ## Commands that come -/

theorem Relocated.testsApart (hmove : Relocated s s' c place) (h : s.Owned lost)
    (hhead : ∀ d, (s'.command d).head = (s.command d).head)
    (hplace : ∀ b, place = some b → s.Holds k b → c ∈ s.walkScript k) (hapart : s.TestsApart k) :
    s'.TestsApart k := by
  refine hapart.mono fun d hd => .inl ⟨?_, testsOf_congr (hhead d)⟩
  rw [hmove.script] at hd
  rcases hmove.inside h hd with hold | ⟨hdc, b, hb, hholds⟩
  · exact h.mem_walkScript.1 hold
  · exact (h.mem_walkScript.1 (hplace b hb hholds)).below hdc

/-- A command that comes brings the tests of all that is below it. -/
theorem Relocated.testsApart_iff (hmove : Relocated s s' c (some b)) (h : s.Owned lost)
    (hk : k < s.scripts.size) (hc : c < s.commands.size)
    (hhead : ∀ d, (s'.command d).head = (s.command d).head)
    (hfree : ∀ e, (s.command e).block = some b → ¬ ReflTransGen s.Below e c) (hb : s.Holds k b)
    (hnew : c ∉ s.walkScript k) :
    s'.TestsApart k ↔ (s.testIdsOf (s.walkScript k ++ s.walk c)).Nodup := by
  have hapart : ∀ d, d ∈ s.walkScript k → ¬ ReflTransGen s.Below d c := fun d hd hdc =>
    hnew (h.mem_walkScript.2 (h.inside_above (h.top k hk) (h.mem_walkScript.1 hd) hdc))
  rw [← testIdsOf_congr hhead]
  refine testsApart_iff_nodup (fun d => ?_) ?_
  · rw [hmove.script, List.mem_append, h.mem_walk hc]
    constructor
    · intro hd
      exact (hmove.inside h hd).imp_right And.left
    · rintro (hd | hd)
      · exact hmove.inside_of_not_reaches (h.mem_walkScript.1 hd) (hapart d hd)
      · exact (hmove.inside_place h hb hfree).below (hmove.reaches hd)
  · refine (h.nodup_walkScript k).append (h.nodup_walk c) fun d hd hd' => ?_
    exact hapart d hd ((h.mem_walk hc).1 hd')

/-! ## Checks of tests -/

/-- A test that stands nowhere twice inside another one. -/
def Proper (t : Test Mark Value) : Prop := (t.walk.map (·.mark.id)).Nodup

instance : DecidablePred Proper := fun t => by unfold Proper; infer_instance

theorem testIds_eq (arguments : List (Argument Mark Value)) : testIds arguments =
    (arguments.filterMap Argument.test?).flatMap fun t => t.walk.map (·.mark.id) := rfl

theorem proper_of_nodup_testIds {arguments : List (Argument Mark Value)}
    (hnodup : (testIds arguments).Nodup) :
    ∀ t ∈ arguments.filterMap Argument.test?, Proper t :=
  (List.nodup_flatMap.1 hnodup).1

theorem nodup_of_checkTests {used used' : List Nat} {ts : List (Test Mark Value)}
    (hok : s.checkTests c used ts = .ok used') :
    used'.Perm (ts.flatMap (fun t => t.walk.map (·.mark.id)) ++ used) ∧
      ((∀ t ∈ ts, Proper t) → used.Nodup → used'.Nodup) := by
  induction ts generalizing used with
  | nil =>
      cases hok
      exact ⟨.refl _, fun _ hused => hused⟩
  | cons t ts ih =>
      obtain ⟨_, _, hok⟩ := ok_of_bind hok
      obtain ⟨_, hnew, hok⟩ := ok_of_bind hok
      have hnew := refuseIf_ok hnew
      obtain ⟨hperm, hnodup⟩ := ih hok
      constructor
      · refine hperm.trans ?_
        rw [List.flatMap_cons, ← List.append_assoc]
        exact List.perm_append_comm.append_right used
      · intro hproper hused
        rw [List.forall_mem_cons] at hproper
        refine hnodup hproper.2 (hproper.1.append hused fun i hi hmem => ?_)
        rw [List.any_eq_false] at hnew
        exact hnew i hi (List.contains_iff_mem.2 hmem)

theorem nodup_of_checkFresh {commands blocks used : List Nat} {ids : List CommandId} {u : Unit}
    (hok : s.checkFresh c commands blocks used ids = .ok u)
    (hproper : ∀ d ∈ ids, ∀ t ∈ (s.command d).head.tests, Proper t) (hused : used.Nodup) :
    (s.testIdsOf ids ++ used).Nodup := by
  induction ids generalizing used with
  | nil => exact hused
  | cons d ids ih =>
      obtain ⟨_, _, hok⟩ := ok_of_bind hok
      obtain ⟨_, _, hok⟩ := ok_of_bind hok
      obtain ⟨used', htests, hok⟩ := ok_of_bind hok
      obtain ⟨hperm, hnodup⟩ := nodup_of_checkTests htests
      rw [List.forall_mem_cons] at hproper
      have hall := ih hok hproper.2 (hnodup hproper.1 hused)
      rw [testIdsOf, List.flatMap_cons, testIds_eq]
      refine ((hperm.append_left _).nodup_iff.1 hall).perm ?_
      rw [← List.append_assoc]
      exact List.perm_append_comm.append_right used

theorem length_tests_of_checkArguments {seen : List Nat} {arguments : List (Argument Mark Value)}
    {u : Unit} (hok : s.checkArgumentsAfter c seen arguments = .ok u) :
    (arguments.filterMap Argument.test?).length ≤ 1 := by
  induction arguments generalizing seen with
  | nil => exact Nat.zero_le _
  | cons a arguments ih =>
      cases a with
      | test t =>
          obtain ⟨_, _, hok⟩ := ok_of_bind hok
          obtain ⟨_, hlast, hok⟩ := ok_of_bind hok
          have hlast := refuseIf_ok hlast
          cases arguments with
          | nil => exact Nat.le_refl _
          | cons => cases hlast
      | foreign => cases hok
      | string | strings | number | tag =>
          obtain ⟨_, _, hok⟩ := ok_of_bind hok
          obtain ⟨_, _, hok⟩ := ok_of_bind hok
          exact ih hok

theorem not_mem_of_checkUnused {used : List Nat} {t : Test Mark Value}
    {arguments : List (Argument Mark Value)} {u : Unit}
    (hok : s.checkUnused c used t arguments = .ok u) :
    ∀ v ∈ arguments.filterMap Argument.test?, v.mark.id ∉ used := by
  induction arguments with
  | nil => simp
  | cons a arguments ih =>
      cases a with
      | test v =>
          obtain ⟨_, hnew, hok⟩ := ok_of_bind hok
          have hnew := refuseIf_ok hnew
          exact List.forall_mem_cons.2 ⟨by simpa using hnew, ih hok⟩
      | string | strings | number | tag | foreign => cases hok

/-! ## Operations -/

theorem exists_holds (h : s.Owned lost) (hc : c ∈ s.walkScript k) :
    ∃ b, (s.command c).parent = some b ∧ s.Holds k b := by
  obtain ⟨b, hb, hcb⟩ := (h.mem_walkScript.1 hc).exists_part
  exact ⟨b, h.parent_of_mem hcb, (h.rooted _).holds_iff.2 hb⟩

theorem testsApart_insert (h : s.Owned lost) (hk : k < s.scripts.size) {index limit : Value}
    (hb : b < s.blocks.size) (hc : c < s.commands.size) (hok : s.insert b index c limit = .ok s')
    (hapart : s.TestsApart k) : s'.TestsApart k ↔
      ¬ (s.Holds k b ∧ ∃ d ∈ s.walk c, ∃ t ∈ (s.command d).head.tests, ¬ Proper t) := by
  obtain ⟨hmove, hhead⟩ := relocated_insert h hb hc hok
  obtain ⟨i, hchecked, -⟩ := insert_ok hok
  have hnew : c ∉ s.walkScript k := not_mem_walkScript h hchecked.unlisted
  by_cases hheld : s.Holds k b
  · rw [hmove.testsApart_iff h hk hc hhead (not_below_of_holdsBlock h hc hchecked.outside) hheld hnew]
    have hsplit : s.testIdsOf (s.walkScript k ++ s.walk c) =
        s.testIdsOf (s.walkScript k) ++ s.testIdsOf (s.walk c) := List.flatMap_append
    rw [hsplit]
    constructor
    · rintro hnodup ⟨-, d, hd, t, ht, himproper⟩
      have hown := (List.nodup_flatMap.1 hnodup.of_append_right).1 d hd
      exact himproper (proper_of_nodup_testIds hown t ht)
    · intro hproper
      have hdetached := hchecked.detached
      rw [checkDetached, h.scriptOf?_of_holds hk hheld] at hdetached
      obtain ⟨_, _, hfresh⟩ := ok_of_bind hdetached
      refine List.nodup_append_comm.1 (nodup_of_checkFresh hfresh (fun d hd t ht => ?_) ?_)
      · by_contra himproper
        exact hproper ⟨hheld, d, hd, t, ht, himproper⟩
      · exact h.testsApart_iff.1 hapart
  · refine iff_of_true (hmove.testsApart h hhead (fun b' hb' hholds => ?_) hapart) fun hshared => ?_
    · cases hb'
      exact absurd hholds hheld
    · exact hheld hshared.1

theorem testsApart_move (h : s.Owned lost) (hk : k < s.scripts.size) {index limit : Value}
    (hb : b < s.blocks.size) (hok : s.move c b index limit = .ok s') (hapart : s.TestsApart k) :
    s'.TestsApart k ↔ ¬ (s.Holds k b ∧ c ∉ s.walkScript k ∧
      ¬ (s.testIdsOf (s.walkScript k ++ s.walk c)).Nodup) := by
  obtain ⟨source, i, hchecked, rfl⟩ := move_ok hok
  have hc := lt_of_parent hchecked.parent
  have hmove := hchecked.relocated h hb
  have hhead : ∀ d, (((s.unlist source c).list b i c).command d).head = (s.command d).head :=
    head_move
  by_cases hheld : s.Holds k b
  · by_cases hmem : c ∈ s.walkScript k
    · exact iff_of_true (hmove.testsApart h hhead (fun _ _ _ => hmem) hapart) fun hshared =>
        hshared.2.1 hmem
    · rw [hmove.testsApart_iff h hk hc hhead (not_below_of_holdsBlock h hc hchecked.outside) hheld hmem]
      constructor
      · exact fun hnodup hshared => hshared.2.2 hnodup
      · intro hshared
        by_contra hnodup
        exact hshared ⟨hheld, hmem, hnodup⟩
  · refine iff_of_true (hmove.testsApart h hhead (fun b' hb' hholds => ?_) hapart) fun hshared => ?_
    · cases hb'
      exact absurd hholds hheld
    · exact hheld hshared.1

theorem SameLinks.testsApart (hsame : SameLinks s s') (h : s.Owned lost)
    (htests : ∀ d ∈ s.walkScript k, s'.testsOf d = s.testsOf d) (hapart : s.TestsApart k) :
    s'.TestsApart k := by
  refine hapart.mono fun d hd => .inl ?_
  have hold := (hsame.walkScript h (h.sameLinks hsame)).1 ((h.sameLinks hsame).mem_walkScript.2 hd)
  exact ⟨h.mem_walkScript.1 hold, htests d hold⟩

theorem testsApart_remove (h : s.Owned lost) (hok : s.remove c = .ok s') (hapart : s.TestsApart k) :
    s'.TestsApart k := by
  obtain ⟨b, -, hmem, rfl⟩ := remove_ok hok
  have hsame := sameLinks_forget (s := s) b c
  have hforgot := hsame.testsApart h (fun d _ => by rw [testsOf, command_forget, testsOf]) hapart
  have hmove := relocated_unlist (h.sameLinks hsame) (hsame.listed b ▸ hmem)
  refine hmove.testsApart (h.sameLinks hsame) (fun d => ?_) (fun b hb => by cases hb) hforgot
  exact head_modifyParent (s := (s.forget b c).unlist b c) c none d

theorem testsApart_unlist (h : s.Owned lost) (hmem : c ∈ (s.block b).commands)
    (hapart : s.TestsApart k) : (s.unlist b c).TestsApart k :=
  hapart.mono fun _ hd => .inl ⟨inside_unlist h hmem hd, rfl⟩

theorem others_eq (h : s.Owned lost) (hk : k < s.scripts.size) (hc : c ∈ s.walkScript k) :
    s.others c = (s.walkScript k).filter (· != c) := by
  obtain ⟨b, hparent, hb⟩ := exists_holds h hc
  rw [others, hparent, Option.bind_some, h.scriptOf?_of_holds hk hb]

theorem testsApart_replace (h : s.Owned lost) (hk : k < s.scripts.size) (hc : c < s.commands.size)
    {arguments : List (Argument Mark Value)} {limit : Value}
    (hok : s.replace c arguments limit = .ok s') (hapart : s.TestsApart k) : s'.TestsApart k ↔
      ¬ (c ∈ s.walkScript k ∧ ∃ t ∈ arguments.filterMap Argument.test?, ¬ Proper t) := by
  obtain ⟨hchecked, rfl⟩ := replace_ok hok
  have hsame := sameLinks_modifyHead (s := s) c fun head => { head with arguments }
  set s' := s.modifyCommand c fun cell => { cell with head := { cell.head with arguments } }
  have htests : ∀ d, s'.testsOf d = if d = c then testIds arguments else s.testsOf d := by
    intro d
    rw [testsOf, command_modifyCommand s c d _ hc]
    split <;> rfl
  have hinside : ∀ d, s'.Inside (s'.script k).block d ↔ d ∈ s.walkScript k := fun d => by
    rw [← hsame.walkScript h (h.sameLinks hsame), (h.sameLinks hsame).mem_walkScript]
  by_cases hmem : c ∈ s.walkScript k
  · have hothers := others_eq h hk hmem
    -- What has been looked for among the tests of the other commands is none of theirs.
    have hnew : ∀ d ∈ s.walkScript k, d ≠ c → (testIds arguments).Disjoint (s.testsOf d) := by
      intro d hd hne i hi hid
      obtain ⟨t, ht, hit⟩ := List.mem_flatMap.1 hi
      obtain ⟨v, hv, rfl⟩ := List.mem_map.1 hit
      refine not_mem_of_checkUnused (hchecked.unused t ht) v hv (List.mem_flatMap.2 ⟨d, ?_, hid⟩)
      rw [hothers]
      exact List.mem_filter.2 ⟨hd, by simpa using hne⟩
    constructor
    · rintro hapart' ⟨-, t, ht, himproper⟩
      have hown := hapart'.nodup c ((hinside c).2 hmem)
      rw [htests, if_pos rfl] at hown
      exact himproper (proper_of_nodup_testIds hown t ht)
    · intro hproper
      have hown : (testIds arguments).Nodup := by
        have hlength := length_tests_of_checkArguments hchecked.proper
        rw [testIds_eq]
        rcases Nat.le_one_iff_eq_zero_or_eq_one.1 hlength with hnone | hone
        · rw [List.length_eq_zero_iff.1 hnone]
          exact .nil
        · obtain ⟨t, harguments⟩ := List.length_eq_one_iff.1 hone
          rw [harguments, List.flatMap_singleton]
          by_contra himproper
          exact hproper ⟨hmem, t, by rw [harguments]; exact List.mem_singleton_self t, himproper⟩
      have hold := fun d hd => h.mem_walkScript.1 ((hinside d).1 hd)
      refine ⟨fun d hd => ?_, fun d e hd he hde => ?_⟩
      · rw [htests]
        split
        · exact hown
        · exact hapart.nodup d (hold d hd)
      · rw [htests, htests]
        by_cases hdc : d = c
        · rw [if_pos hdc, if_neg (hdc ▸ Ne.symm hde)]
          exact hnew e ((hinside e).1 he) (hdc ▸ Ne.symm hde)
        · rw [if_neg hdc]
          split
          · exact (hnew d ((hinside d).1 hd) hdc).symm
          · exact hapart.apart d e (hold d hd) (hold e he) hde
  · refine iff_of_true (hsame.testsApart h (fun d hd => ?_) hapart) fun hshared => hmem hshared.1
    rw [htests, if_neg]
    rintro rfl
    exact hmem hd

theorem testsApart_nameRule (h : s.Owned lost) {name : Option Value} (hc : c < s.commands.size)
    (hok : s.nameRule c name = .ok s') (hapart : s.TestsApart k) : s'.TestsApart k := by
  obtain ⟨comments, -, rfl⟩ := nameRule_ok hok
  refine (sameLinks_modifyHead c fun head => { head with comments }).testsApart h (fun d _ => ?_) hapart
  rw [testsOf, command_modifyCommand s c d _ hc]
  split <;> rfl

theorem testsApart_declare (h : s.Owned lost) {j : ScriptId} (hj : j < s.scripts.size) {name : String}
    {added : Bool} (hok : s.declare j name = .ok (added, s')) (hapart : s.TestsApart k) :
    s'.TestsApart k := by
  rcases declare_ok hok with rfl | ⟨-, rfl⟩
  · exact hapart
  have hrequire : (s.addRequire j).TestsApart k := by
    have hmove := relocated_addRequire h hj
    have hnone : ∀ d, ¬ s.Below d s.commands.size := fun d hd => by
      obtain ⟨b, hblock, -⟩ := hd
      exact Nat.lt_irrefl _ (lt_of_block hblock)
    refine hapart.mono fun d hd => ?_
    by_cases hnew : d = s.commands.size
    · refine .inr ?_
      rw [testsOf, command_addRequire, if_pos hnew]
      rfl
    · refine .inl ⟨?_, by rw [testsOf, command_addRequire, if_neg hnew, testsOf]⟩
      rw [hmove.script] at hd
      rcases hmove.inside h hd with hold | ⟨hbelow, -⟩
      · exact h.mem_walkScript.1 hold
      · obtain rfl | ⟨e, -, he⟩ := ReflTransGen.cases_tail hbelow
        · exact absurd rfl hnew
        · exact absurd he (hnone e)
  have hstep : (if (s.requireOf? j).isNone then s.addRequire j else s).TestsApart k ∧
      (if (s.requireOf? j).isNone then s.addRequire j else s).Owned lost := by
    split
    · exact ⟨hrequire, owned_addRequire h hj⟩
    · exact ⟨hapart, h⟩
  exact (sameLinks_modifyCapabilities j fun capabilities =>
    capabilities ++ [.text (Text.trimmed name)]).testsApart hstep.2 (fun _ _ => rfl) hstep.1

/-- An edit makes two commands of a script share a test: a command moves there with a test that the
script has, or with two that are the same, or a test comes that stands twice inside another one. -/
def Edit.shares (s : Store) (k : ScriptId) : Edit → Prop
  | insert b _ c _ | append b c _ =>
    s.Holds k b ∧ ∃ d ∈ s.walk c, ∃ t ∈ (s.command d).head.tests, ¬ Proper t
  | move c b _ _ =>
    s.Holds k b ∧ c ∉ s.walkScript k ∧ ¬ (s.testIdsOf (s.walkScript k ++ s.walk c)).Nodup
  | replace c arguments _ =>
    c ∈ s.walkScript k ∧ ∃ t ∈ arguments.filterMap Argument.test?, ¬ Proper t
  | remove _ | declare _ _ | requireAll _ _ | nameRule _ _ => False

instance (s : Store) (k : ScriptId) (b : BlockId) : Decidable (s.Holds k b) :=
  inferInstanceAs (Decidable (_ ∨ _))

instance (s : Store) (k : ScriptId) : DecidablePred (Edit.shares s k)
  | .insert .. | .append .. | .move .. | .replace .. => inferInstanceAs (Decidable (_ ∧ _))
  | .remove _ | .declare .. | .requireAll .. | .nameRule .. => inferInstanceAs (Decidable False)

theorem testsApart_declared (h : s.Owned lost) {j : ScriptId} (hj : j < s.scripts.size)
    (hall : Declared j s s') (hapart : s.TestsApart k) : s'.TestsApart k :=
  h.declared_keeps (P := (·.TestsApart k)) hj (fun h hj hok => testsApart_declare h hj hok) hall hapart

/-- An edit that succeeds keeps the tests of a script apart unless it makes them be shared. -/
theorem testsApart_result (h : s.Owned lost) (hk : k < s.scripts.size) {e : Edit} (hknown : e.known s)
    (hok : e.result s = .ok s') (hapart : s.TestsApart k) : s'.TestsApart k ↔ ¬ e.shares s k := by
  cases e with
  | insert b index c limit => exact testsApart_insert h hk hknown.1 hknown.2 (leaving_eq_ok.1 hok) hapart
  | append b c limit => exact testsApart_insert h hk hknown.1 hknown.2 (leaving_eq_ok.1 hok) hapart
  | move c b index limit => exact testsApart_move h hk hknown.1 hok hapart
  | replace c arguments limit => exact testsApart_replace h hk hknown (leaving_eq_ok.1 hok) hapart
  | remove c => exact iff_of_true (testsApart_remove h (leaving_eq_ok.1 hok) hapart) not_false
  | declare j name =>
      obtain ⟨added, hdeclare⟩ := ok_of_declare_result hok
      exact iff_of_true (testsApart_declare h hknown hdeclare hapart) not_false
  | requireAll r j =>
      exact iff_of_true (testsApart_declared h hknown (declared_of_result hok) hapart) not_false
  | nameRule c name =>
      exact iff_of_true (testsApart_nameRule h hknown (leaving_eq_ok.1 hok) hapart) not_false

theorem testsApart_leads (h : s.Owned lost) (hk : k < s.scripts.size) {e : Edit}
    (hleads : e.Leads s s') (hcareful : e.known s → (e.result s).isOk = true → ¬ e.shares s k)
    (hapart : s.TestsApart k) : s'.TestsApart k := by
  cases hleads with
  | same => exact hapart
  | ok hknown hok =>
      exact (testsApart_result h hk hknown hok hapart).2 (hcareful hknown (by rw [hok]; rfl))
  | stranded _ hmem _ => exact testsApart_unlist h hmem hapart
  | declared hj hall => exact testsApart_declared h hj hall hapart

end MailFilter.Store
