import MailFilter.Proofs.Store.Moves

/-!
# Moving as taking out and inserting

A command that is taken out of a sound script can be inserted where it could have moved, if its arguments
are such that any command may have them.  A move looks at no arguments.
-/

namespace MailFilter.Store

open Relation

variable {s s' : Store} {k : ScriptId} {source b : BlockId} {c : CommandId} {index limit : Value}
  {i n : Nat}

/-! ## Arguments that pass -/

/-- Arguments that a command may have: nothing else is among them, each is there once, and a test comes
at the end only. -/
structure ProperArguments (arguments : List (Argument Mark Value)) : Prop where
  known : ∀ a ∈ arguments, a.mark?.isSome = true
  once : ((arguments.filterMap Argument.mark?).map (·.id)).Nodup
  last : arguments.Pairwise fun a _ => a.test? = none

theorem properArguments_iff {arguments : List (Argument Mark Value)} : ProperArguments arguments ↔
    (∀ a ∈ arguments, a.mark?.isSome = true) ∧
      ((arguments.filterMap Argument.mark?).map (·.id)).Nodup ∧
      arguments.Pairwise fun a _ => a.test? = none :=
  ⟨fun h => ⟨h.known, h.once, h.last⟩, fun ⟨known, once, last⟩ => ⟨known, once, last⟩⟩

instance : DecidablePred ProperArguments := fun _ => decidable_of_iff _ properArguments_iff.symm

theorem checkArgumentsAfter_cons {seen : List Nat} {a : Argument Mark Value} {m : Mark}
    {arguments : List (Argument Mark Value)} (hm : a.mark? = some m) :
    s.checkArgumentsAfter c seen (a :: arguments) = .ok () ↔ m.id ∉ seen ∧
      (a.test?.isSome = true → arguments = []) ∧
      s.checkArgumentsAfter c (m.id :: seen) arguments = .ok () := by
  have hstep : s.checkArgumentsAfter c seen (a :: arguments) =
      (s.refuseIf ((a.mark?.toList.map (·.id)).any seen.contains) (.argumentTwice a.shown) c >>=
        fun _ => s.refuseIf (a.test?.isSome && !arguments.isEmpty) .testNotLast c >>=
          fun _ => s.checkArgumentsAfter c (a.mark?.toList.map (·.id) ++ seen) arguments) := by
    cases a with
    | foreign => cases hm
    | string | strings | number | tag | test => rfl
  rw [hstep, hm, check_bind_eq_ok, check_bind_eq_ok, refuseIf_eq_ok, refuseIf_eq_ok]
  simp

theorem checkArgumentsAfter_eq_ok {seen : List Nat} {arguments : List (Argument Mark Value)} :
    s.checkArgumentsAfter c seen arguments = .ok () ↔ ProperArguments arguments ∧
      ((arguments.filterMap Argument.mark?).map (·.id)).Disjoint seen := by
  induction arguments generalizing seen with
  | nil => exact iff_of_true rfl ⟨⟨by simp, .nil, .nil⟩, List.disjoint_nil_left _⟩
  | cons a arguments ih =>
      cases hm : a.mark? with
      | none =>
          refine iff_of_false (fun hok => ?_) fun ⟨hproper, _⟩ => ?_
          · cases a with
            | foreign => cases hok
            | string | strings | number | tag | test => cases hm
          · have hknown := hproper.known a List.mem_cons_self
            rw [hm] at hknown
            cases hknown
      | some m =>
          rw [checkArgumentsAfter_cons hm, ih, List.filterMap_cons_some hm, List.map_cons,
            List.disjoint_cons_left, List.disjoint_cons_right]
          constructor
          · rintro ⟨hnew, hlast, hproper, hnone, hrest⟩
            refine ⟨⟨List.forall_mem_cons.2 ⟨by rw [hm]; rfl, hproper.known⟩, ?_, ?_⟩, hnew, hrest⟩
            · rw [List.filterMap_cons_some hm, List.map_cons, List.nodup_cons]
              exact ⟨hnone, hproper.once⟩
            · refine List.pairwise_cons.2 ⟨fun d hd => ?_, hproper.last⟩
              cases htest : a.test? with
              | none => rfl
              | some t =>
                  rw [hlast (by rw [htest]; rfl)] at hd
                  cases hd
          · rintro ⟨⟨hknown, honce, hlast⟩, hnew, hrest⟩
            rw [List.filterMap_cons_some hm, List.map_cons, List.nodup_cons] at honce
            rw [List.pairwise_cons] at hlast
            refine ⟨hnew, fun htest => List.eq_nil_iff_forall_not_mem.2 fun d hd => ?_,
              ⟨(List.forall_mem_cons.1 hknown).2, honce.2, hlast.2⟩, honce.1, hrest⟩
            rw [hlast.1 d hd] at htest
            cases htest

theorem checkArguments_eq_ok {arguments : List (Argument Mark Value)} :
    s.checkArguments c arguments = .ok () ↔ ProperArguments arguments :=
  checkArgumentsAfter_eq_ok.trans (and_iff_left (List.disjoint_nil_right _))

/-! ## Commands that are fresh -/

theorem exists_checkTests {used : List Nat} {ts : List (Test Mark Value)}
    (hfit : ∀ t ∈ ts, t.fitHeight = .ok ())
    (hnodup : (ts.flatMap (fun t => t.walk.map (·.mark.id)) ++ used).Nodup) :
    ∃ used', s.checkTests c used ts = .ok used' := by
  induction ts generalizing used with
  | nil => exact ⟨used, rfl⟩
  | cons t ts ih =>
      rw [List.forall_mem_cons] at hfit
      rw [List.flatMap_cons, List.append_assoc] at hnodup
      have hnew : (t.walk.map (·.mark.id)).any used.contains = false := by
        refine List.any_eq_false.2 fun id hid hused => ?_
        exact (List.disjoint_of_nodup_append hnodup) hid
          (List.mem_append_right _ (List.contains_iff_mem.1 hused))
      obtain ⟨used', hok⟩ := ih hfit.2 ((List.perm_append_comm_assoc _ _ _).nodup_iff.1 hnodup)
      refine ⟨used', ?_⟩
      rw [checkTests, hfit.1]
      simp only [refuseIf, hnew, Bool.false_eq_true, if_false]
      exact hok

theorem checkFresh_eq_ok {commands blocks used : List Nat} {ids : List CommandId}
    (hfit : ∀ d ∈ ids, ∀ t ∈ (s.command d).head.tests, t.fitHeight = .ok ())
    (hcommands : ∀ d ∈ ids, d ∉ commands)
    (hblocks : ∀ d ∈ ids, ∀ b, (s.command d).block = some b → b ∉ blocks)
    (htests : (s.testIdsOf ids ++ used).Nodup) :
    s.checkFresh c commands blocks used ids = .ok () := by
  induction ids generalizing used with
  | nil => rfl
  | cons d ids ih =>
      rw [List.forall_mem_cons] at hfit hcommands hblocks
      rw [testIdsOf, List.flatMap_cons, List.append_assoc] at htests
      have hnumber : commands.contains d = false := by simpa using hcommands.1
      have hblock : (s.command d).block.any blocks.contains = false := by
        cases hown : (s.command d).block with
        | none => rfl
        | some b => simpa using hblocks.1 b hown
      have htests' := (List.perm_append_comm_assoc _ _ _).nodup_iff.1 htests
      obtain ⟨used', hused⟩ := exists_checkTests (s := s) (c := c) hfit.1
        (List.Nodup.of_append_right htests')
      have hperm := (nodup_of_checkTests hused).1
      have hrest := ih hfit.2 hcommands.2 hblocks.2 ((hperm.append_left _).nodup_iff.2 htests')
      simp only [checkFresh, refuseIf, hnumber, hblock, Bool.false_eq_true, if_false]
      show (s.checkTests c used (s.command d).head.tests >>= _) = _
      rw [hused]
      exact hrest

/-! ## Taking out -/

def without (s : Store) (source : BlockId) (c : CommandId) : Store :=
  (s.unlist source c).modifyCommand c ({ · with parent := none })

theorem checkDepth_congr (hhead : (s'.command c).head = (s.command c).head) (levels : Nat) :
    s'.checkDepth levels c limit = s.checkDepth levels c limit := by
  rw [checkDepth, checkDepth, hhead]

section Without

variable (h : s.Sound k) (hfits : s.Fits k) (hc : s.Inside (s.script k).block c)
  (hparent : (s.command c).parent = some source)

include h hc hparent

theorem Sound.shifted_without : Shifted s (s.without source c) k c none := by
  obtain ⟨hsource, hmem⟩ := h.of_parent hc hparent
  exact h.shifted_remove hsource hmem

theorem Sound.sameBelow_without : SameBelow s (s.without source c) c := by
  have hmem := (h.of_parent hc hparent).2
  have hunlist : SameBelow s (s.unlist source c) c :=
    sameBelow_modifyBlock _ ((h.rooted.grounded hc).not_beneath hmem)
  exact hunlist.trans (sameBelow_modifyParent (s := s.unlist source c) c none)

variable (hne : s.requireOf? k ≠ some c)

include hfits hne

theorem Sound.remove_eq : s.remove c = .ok (s.without source c) := by
  obtain ⟨hsource, hmem⟩ := h.of_parent hc hparent
  have hscript := h.scriptOf?_eq hsource
  have hforget : s.forget source c = s := by
    rw [forget, hscript]
    exact if_neg (by simpa using hne)
  refine remove_eq_ok.2 ⟨source, hparent, hmem, ?_, ?_⟩
  · rw [checkScriptFront, hscript]
    exact hfits.checkFront_eq_ok
  · rw [hforget, without]

theorem Sound.checkDetached_without (hb : s.Part (s.script k).block b) (hout : ¬ s.Beneath c b) :
    (s.without source c).checkDetached b c = .ok () := by
  have hshift := h.shifted_without hc hparent
  have hwalk : ∀ d ∈ s.walk c, ReflTransGen s.Below d c := fun d => (h.rooted.mem_walk hc).1
  have hitems : (s.without source c).checkItems ((s.without source c).walkScript k) = .ok () :=
    (hshift.fits hc hfits).checkItems_eq_ok fun d => (hshift.sound hc h hne).rooted.mem_walkScript.1
  rw [checkDetached, hshift.scriptOf?_eq h Array.size_modify hb hout]
  refine check_bind_eq_ok.2 ⟨hitems, ?_⟩
  rw [(h.sameBelow_without hc hparent).walk_eq]
  refine checkFresh_eq_ok (fun d hd => ?_) (fun d hd hleft => ?_) (fun d hd own hblock => ?_)
    (hshift.nodup_testIdsOf h hc hne)
  · rw [hshift.head]
    exact hfits.fitHeight (hc.below (hwalk d hd))
  · exact (hshift.of_mem_walkScript h hc hne hleft).2 (hwalk d hd)
  · rw [hshift.block] at hblock
    exact hshift.not_mem_blocks h hc hne (hwalk d hd) hblock

/-- After it has been taken out, a command of proper arguments can be inserted where it could go. -/
theorem Sound.insertChecked_without (hkeyword : (s.command c).head.keyword? ≠ some .require)
    (hb : s.Part (s.script k).block b) :
    (s.without source c).InsertChecked b index c limit i ↔
      s.CanGo k c source b index limit i ∧ ProperArguments (s.command c).head.arguments := by
  have hshift := h.shifted_without hc hparent
  have hbelow := h.sameBelow_without hc hparent
  have hground := h.rooted.grounded hc
  have hfront := (hshift.fits hc hfits).checkFront_eq_ok
  have houtside : (s.without source c).holdsBlock c b = false ↔ ¬ s.Beneath c b := by
    rw [hbelow.holdsBlock_eq hground, hground.holdsBlock_eq_false]
  have hslot (hout : ¬ s.Beneath c b) (hfirst : index.compareInt? 0 = some (some .eq) ↔ i = 0) :
      (s.without source c).checkRequireSlot b index c = .ok () ↔
        ((s.script k).block = b → ∀ r, s.requireOf? k = some r → r ≠ c → i ≠ 0) := by
    rw [checkRequireSlot_eq_ok_of_place (hshift.scriptOf?_eq h Array.size_modify hb hout) hfront hfirst,
      hshift.script, hshift.requireOf?_eq h hc hne]
  have hdepth (hout : ¬ s.Beneath c b) :
      (s.without source c).checkDepth ((s.without source c).level b + (s.without source c).height c) c
        limit = s.checkDepth (s.level b + s.height c) c limit := by
    rw [checkDepth_congr (hshift.head c), hbelow.height_eq,
      (hshift.sameAbove h).level_eq ⟨hb, hout⟩ hbelow.size]
  have hproper : (s.without source c).checkArguments c ((s.without source c).command c).head.arguments =
      .ok () ↔ ProperArguments (s.command c).head.arguments := by
    rw [checkArguments_eq_ok, hshift.head]
  constructor
  · intro hchecked
    have hout := houtside.1 hchecked.outside
    exact ⟨⟨hout, hchecked.place, hchecked.inside, hchecked.first,
      (hslot hout hchecked.first).1 hchecked.front, (hdepth hout).symm.trans hchecked.depth⟩,
      hproper.1 hchecked.proper⟩
  · rintro ⟨hgo, harguments⟩
    refine ⟨?_, houtside.2 hgo.outside, h.checkDetached_without hfits hc hparent hne hb hgo.outside,
      hproper.2 harguments, (hdepth hgo.outside).trans hgo.depth, ?_,
      (hslot hgo.outside hgo.first).2 hgo.front, hgo.place, hgo.inside, hgo.first⟩
    · rw [hshift.parent, if_pos rfl]
    · rwa [hshift.head, beq_eq_false_iff_ne]

end Without

theorem Sound.inserted_without (h : s.Sound k) (hc : s.Inside (s.script k).block c)
    (hparent : (s.command c).parent = some source) :
    (match ((s.without source c).command c).block with
      | some own => ((s.without source c).list b i c).modifyBlock own
          ({ · with owner := some (.command c) })
      | none => (s.without source c).list b i c) = (s.unlist source c).list b i c := by
  have hshift := h.shifted_without hc hparent
  have hlist : (s.without source c).list b i c = (s.unlist source c).list b i c :=
    list_modifyParent none
  rw [hlist, hshift.block]
  cases hblock : (s.command c).block with
  | none => rfl
  | some own =>
      refine modifyBlock_eq_self ?_
      have howner : (((s.unlist source c).list b i c).block own).owner = some (.command c) :=
        (owner_list b i own).trans ((owner_unlist source own).trans (h.own c own hc hblock))
      rw [← howner]

/-- A command of a script with no defect that is no `require` can be taken out.  Then it is inserted
exactly where it could have moved, if its arguments are proper, and the stores are the same. -/
theorem insert_remove_iff_move (haudit : s.audit k = .ok n) (hc : c ∈ s.walkScript k)
    (hkeyword : (s.command c).head.keyword? ≠ some .require) :
    ∃ removed, s.remove c = .ok removed ∧ ∀ b index limit s', s.Holds k b →
      (removed.insert b index c limit = .ok s' ↔
        s.move c b index limit = .ok s' ∧ ProperArguments (s.command c).head.arguments) := by
  obtain ⟨h, hfits, -⟩ := sound_of_audit haudit
  have hc := h.rooted.mem_walkScript.1 hc
  obtain ⟨source, hsource, hmem⟩ := hc.exists_part
  have hparent := h.parent c source hsource hmem
  have hne : s.requireOf? k ≠ some c := fun hreq => by
    have hbare := (requireOf?_eq_some.1 hreq).2
    rw [not_isBareRequire (beq_eq_false_iff_ne.2 hkeyword)] at hbare
    cases hbare
  refine ⟨_, h.remove_eq hfits hc hparent hne, fun b index limit s' hb => ?_⟩
  have hb := h.rooted.holds_iff.1 hb
  have hname : ((s.without source c).command c).head.name.fitName = .ok () := by
    rw [(h.shifted_without hc hparent).head]
    exact hfits.names c hc
  rw [insert_eq_ok, h.move_eq_ok hfits hc hparent hb]
  simp only [h.insertChecked_without hfits hc hparent hne hkeyword hb]
  constructor
  · rintro ⟨i, ⟨hgo, hproper⟩, -, rfl⟩
    exact ⟨⟨hne, i, hgo, h.inserted_without hc hparent⟩, hproper⟩
  · rintro ⟨⟨-, i, hgo, rfl⟩, hproper⟩
    exact ⟨i, ⟨hgo, hproper⟩, hname, (h.inserted_without hc hparent).symm⟩

/-- The second command is taken out and inserted before the first, where it could have moved. -/
theorem insert_remove_oneNested : ∃ removed s', oneNested.remove 1 = .ok removed ∧
    removed.insert 0 (.int 0) 1 (.int 1) = .ok s' ∧ oneNested.move 1 0 (.int 0) (.int 1) = .ok s' := by
  have haudit : oneNested.audit 0 = .ok 3 := eq_ok_of_toOption (by decide +kernel)
  obtain ⟨removed, hremove, hinsert⟩ :=
    insert_remove_iff_move haudit (c := 1) (by decide +kernel) (by decide +kernel)
  obtain ⟨s', hmove⟩ := exists_ok_of_isOk
    (show (oneNested.move 1 0 (.int 0) (.int 1)).isOk = true by decide +kernel)
  have htop : oneNested.Holds 0 0 := .inl (by decide +kernel)
  exact ⟨removed, s', hremove, (hinsert 0 _ _ s' htop).2 ⟨hmove, by decide +kernel⟩, hmove⟩

/-- A script of two commands, the first of which has the same argument twice. -/
def twiceNamed : Store :=
  oneNested.modifyCommand 0 fun cell =>
    let name := .string (.text "a") .quoted ⟨.nowhere, oneNested.nextMark⟩
    { cell with head := { cell.head with arguments := [name, name] } }

/-- Where an argument is there twice, a command moves that cannot be inserted after it has been taken
out. -/
theorem not_insert_remove_iff_move : ¬ ∀ (s : Store) (k : ScriptId) (n : Nat) (c : CommandId)
    (b : BlockId) (index limit : Value), s.audit k = .ok n →
      (∀ d ∈ s.walkScript k, (s.command d).head.arguments.Pairwise fun a _ => a.test? = none) →
      c ∈ s.walkScript k → (s.command c).head.keyword? ≠ some .require → s.Holds k b →
      ((∃ s', s.move c b index limit = .ok s') ↔
        ∃ removed s', s.remove c = .ok removed ∧ removed.insert b index c limit = .ok s') := by
  intro hall
  have haudit : twiceNamed.audit 0 = .ok 3 := eq_ok_of_toOption (by decide +kernel)
  have htop : twiceNamed.Holds 0 0 := .inl (by decide +kernel)
  have hmove := exists_ok_of_isOk
    (show (twiceNamed.move 0 0 (.int 1) (.int 1)).isOk = true by decide +kernel)
  obtain ⟨removed, s', hremove, hinsert⟩ := (hall twiceNamed 0 3 0 0 (.int 1) (.int 1) haudit
    (by decide +kernel) (by decide +kernel) (by decide +kernel) htop).1 hmove
  have hrefused : (twiceNamed.remove 0 >>= fun removed => removed.insert 0 (.int 1) 0 (.int 1)).isOk =
      false := by decide +kernel
  rw [hremove] at hrefused
  rw [show (Except.ok removed >>= fun removed => removed.insert 0 (.int 1) 0 (.int 1)) = .ok s' from
    hinsert] at hrefused
  cases hrefused

end MailFilter.Store
