import MailFilter.Proofs.Store.Sharing
import MailFilter.Proofs.Store.Trees

/-!
# Audits of scripts that were read

A script that was read and is put into a store has one owner for everything, tests of its own, and
capabilities under its `require`.  What an audit may still find is a `require` without arguments further
down, and names that are the same in lower case: reading drops repeated names only where they are the
same letter by letter.
-/

namespace MailFilter

/-- A script in which nothing is wrong with what it requires: no `require` without arguments comes after
the first command, and capabilities differ in lower case. -/
structure Script.Tidy (t : Script) : Prop where
  front : ∀ c ∈ t.walk.tail, c.head.isBareRequire = false
  distinct : (t.capabilities.map Text.lower).Nodup

namespace Store

variable {s : Store} {lost : List CommandId} {k : ScriptId}

/-! ## The front of a walk -/

theorem Owned.head?_walkScript (h : s.Owned lost) (k : ScriptId) :
    (s.walkScript k).head? = (s.block (s.script k).block).commands.head? := by
  rw [walkScript]
  cases hids : (s.block (s.script k).block).commands with
  | nil => rfl
  | cons c ids =>
      have hlt : c < s.commands.size := h.command_lt (hids ▸ List.mem_cons_self)
      obtain ⟨depth, hdepth⟩ := Nat.exists_eq_add_of_le' (Nat.zero_lt_of_lt hlt)
      rw [List.flatMap_cons, walk, hdepth, walkTo]
      rfl

theorem Owned.onlyFront_iff (h : s.Owned lost) : s.OnlyFront k ↔
    ∀ c ∈ (s.walkScript k).tail, (s.command c).head.isBareRequire = false := by
  have hnodup := h.nodup_walkScript k
  have hfirst := h.head?_walkScript k
  unfold OnlyFront
  rw [← hfirst]
  cases hwalk : s.walkScript k with
  | nil => simp
  | cons c cs =>
      rw [hwalk, List.nodup_cons] at hnodup
      rw [List.tail_cons, List.head?_cons]
      constructor
      · intro hfront d hd
        by_contra hbare
        cases hfront d (List.mem_cons_of_mem _ hd) (by simpa using hbare)
        exact hnodup.1 hd
      · intro hlater d hd hbare
        rcases List.mem_cons.1 hd with rfl | hd
        · rfl
        · rw [hlater d hd] at hbare
          cases hbare

/-! ## Scripts that were read -/

section Read

variable {t : Script}

theorem exists_unmarked (h : s.Owned lost) (t : Script) {c : CommandId}
    (hc : c ∈ (s.addScript t).1.walkScript s.scripts.size) :
    ∃ d ∈ t.walk, ((s.addScript t).1.command c).head.unmarked = d.head.unmarked := by
  have hmem := List.mem_map_of_mem (f := fun c => ((s.addScript t).1.command c).head.unmarked) hc
  rw [walkScript_addScript h t] at hmem
  obtain ⟨d, hd, heq⟩ := List.mem_map.1 hmem
  exact ⟨d, hd, heq.symm⟩

theorem onlyFront_addScript (h : s.Owned lost) (t : Script) :
    (s.addScript t).1.OnlyFront s.scripts.size ↔ ∀ c ∈ t.walk.tail, c.head.isBareRequire = false := by
  have hwalk := congrArg (fun heads => (heads.map Head.isBareRequire).tail) (walkScript_addScript h t)
  simp only [List.map_map, Function.comp_def, Head.isBareRequire_unmarked, ← List.map_tail] at hwalk
  rw [(owned_addScript h t).onlyFront_iff, ← List.forall_mem_map (P := fun b => b = false), hwalk,
    List.forall_mem_map]

theorem fits_addScript (h : s.Owned lost) (ht : t.Shaped) :
    (s.addScript t).1.Fits s.scripts.size := by
  have hinside : ∀ c, (s.addScript t).1.Inside ((s.addScript t).1.script s.scripts.size).block c →
      ∃ d ∈ t.walk, ((s.addScript t).1.command c).head.unmarked = d.head.unmarked := fun c hc =>
    exists_unmarked h t ((owned_addScript h t).mem_walkScript.2 hc)
  refine ⟨fun c hc => ?_, fun c hc => ?_, fun v hv => ?_⟩
  · obtain ⟨d, -, heq⟩ := hinside c hc
    obtain ⟨g, hg⟩ := Head.exists_text heq
    rw [hg]
    rfl
  · obtain ⟨d, hd, heq⟩ := hinside c hc
    have hone : ((s.addScript t).1.command c).head.OneTest := by
      rw [← Head.oneTest_unmarked, heq, Head.oneTest_unmarked]
      exact ht.heads d hd
    intro a ha
    obtain ⟨u, hu, ha⟩ := List.mem_flatMap.1 ha
    exact hone.whole u hu a ha
  · rw [(appended_addScript h t).script_new] at hv
    obtain ⟨name, -, rfl⟩ := List.mem_map.1 hv
    rfl

theorem capabilities_addScript (h : s.Owned lost) (t : Script) :
    ((s.addScript t).1.script s.scripts.size).capabilities = t.capabilities.map Value.text := by
  rw [(appended_addScript h t).script_new]
  rfl

theorem names_addScript (h : s.Owned lost) (t : Script) :
    (((s.addScript t).1.script s.scripts.size).capabilities.map Value.plain).map Text.lower =
      t.capabilities.map Text.lower := by
  rw [(appended_addScript h t).script_new, List.map_map, List.map_map]
  rfl

/-- What an audit finds in a script that was read. -/
theorem found_addScript (h : s.Owned lost) (ht : t.Shaped) {e : EditError}
    (haudit : (s.addScript t).1.audit s.scripts.size = .error e) :
    ∃ command, (e = .refused .lateRequire command ∧ ∃ c ∈ t.walk.tail, c.head.isBareRequire = true) ∨
      (e = .refused .capabilityTwice command ∧ ¬ (t.capabilities.map Text.lower).Nodup) := by
  have h' := owned_addScript h t
  have hk : s.scripts.size < (s.addScript t).1.scripts.size := by
    rw [(appended_addScript h t).scripts, Array.size_push]
    exact Nat.lt_succ_self _
  have hdefect := defect_of_audit haudit
  unfold Defect at hdefect
  split at hdefect
  · exact absurd (fits_addScript h ht) hdefect
  · exact absurd (h'.top _ hk) hdefect
  · exact absurd (h'.rooted _).listed hdefect
  · obtain ⟨c, b, -, hc, hparent⟩ := hdefect
    exact absurd (h'.parent_of_mem hc) hparent
  · obtain ⟨c, b, -, hblock, howner⟩ := hdefect
    exact absurd (h'.own c b hblock) howner
  · exact absurd ((appended_addScript h t).testsApart_new h h') hdefect
  · obtain ⟨c, b, i, hb, hi, hbare, hplace⟩ := hdefect
    refine ⟨_, .inl ⟨rfl, ?_⟩⟩
    by_contra hnone
    have hfront : (s.addScript t).1.OnlyFront s.scripts.size := by
      rw [onlyFront_addScript h t]
      intro d hd
      by_contra hlate
      exact hnone ⟨d, hd, by simpa using hlate⟩
    exact hplace (hfront.place h' hb hi hbare)
  · rw [names_addScript h t] at hdefect
    exact ⟨_, .inr ⟨rfl, hdefect⟩⟩
  · obtain ⟨hne, hnone⟩ := hdefect
    have hheld := isSome_requireOf?_addScript h t
    rw [hnone, ht.held] at hheld
    · cases hheld
    · rintro hnil
      refine hne ?_
      rw [(appended_addScript h t).script_new]
      exact congrArg (List.map Value.text) hnil
  · exact hdefect.elim

/-- A script that was read passes an audit, with the number of its commands, exactly where it is tidy.
Otherwise the audit finds what is not tidy, and nothing else. -/
theorem audit_ofText (steps : List Step) {source filename : String} {o : ReadOptions} {t : Script}
    (hread : Script.ofText source filename o = .ok t) {k : ScriptId}
    (hs : (run steps).addScript t = (s, k)) :
    (s.walkScript k).length = t.walk.length ∧
    (∀ n, s.audit k = .ok n ↔ t.Tidy ∧ n = t.walk.length) ∧
    ∀ e, s.audit k = .error e → ∃ command,
      (e = .refused .lateRequire command ∧ ∃ c ∈ t.walk.tail, c.head.isBareRequire = true) ∨
      (e = .refused .capabilityTwice command ∧ ¬ (t.capabilities.map Text.lower).Nodup) := by
  have h := owned_run steps
  have ht := Script.shaped_of_ofText hread
  obtain ⟨rfl, rfl⟩ : ((run steps).addScript t).1 = s ∧ (run steps).scripts.size = k := by
    rw [hs]
    exact ⟨rfl, congrArg Prod.snd hs⟩
  have hlength := congrArg List.length (walkScript_addScript h t)
  rw [List.length_map, List.length_map] at hlength
  refine ⟨hlength, fun n => ⟨fun haudit => ?_, fun ⟨htidy, hn⟩ => ?_⟩, fun e => found_addScript h ht⟩
  · obtain ⟨hsound, -, hn⟩ := sound_of_audit haudit
    refine ⟨⟨(onlyFront_addScript h t).1 hsound.requireFirst.front, ?_⟩, hn.trans hlength⟩
    rw [← names_addScript h t]
    exact hsound.distinct
  · cases haudit : ((run steps).addScript t).1.audit (run steps).scripts.size with
    | ok m => rw [(sound_of_audit haudit).2.2, hn, hlength]
    | error e =>
        obtain ⟨-, ⟨-, c, hc, hbare⟩ | ⟨-, hrepeat⟩⟩ := found_addScript h ht haudit
        · rw [htidy.front c hc] at hbare
          cases hbare
        · exact absurd htidy.distinct hrepeat

theorem audit_ofText_keep : ∃ t s k, Script.ofText "require \"a\"; keep;" "f" .default = .ok t ∧
    (run []).addScript t = (s, k) ∧ s.audit k = .ok 2 := by
  obtain ⟨t, ht⟩ := exists_ok_of_isOk
    (show (Script.ofText "require \"a\"; keep;" "f" .default).isOk = true by decide +kernel)
  refine ⟨t, _, _, ht, rfl, ?_⟩
  obtain ⟨-, hpasses, -⟩ := audit_ofText [] ht rfl
  have hfacts : ∀ u ∈ (Script.ofText "require \"a\"; keep;" "f" .default).toOption,
      (∀ c ∈ u.walk.tail, c.head.isBareRequire = false) ∧ (u.capabilities.map Text.lower).Nodup ∧
        2 = u.walk.length := by decide +kernel
  obtain ⟨hfront, hdistinct, hlength⟩ := hfacts t (by rw [ht]; rfl)
  exact (hpasses 2).2 ⟨⟨hfront, hdistinct⟩, hlength⟩

/-- Two names that differ in letter case only are both read, and then found to be the same. -/
theorem audit_repeated : ∃ t s k, Script.ofText "require [\"a\", \"A\"];" "f" .default = .ok t ∧
    (run []).addScript t = (s, k) ∧ ∀ n, s.audit k ≠ .ok n := by
  obtain ⟨t, ht⟩ := exists_ok_of_isOk
    (show (Script.ofText "require [\"a\", \"A\"];" "f" .default).isOk = true by decide +kernel)
  refine ⟨t, ((run []).addScript t).1, ((run []).addScript t).2, ht, rfl, fun n hn => ?_⟩
  have hfails : ∀ u ∈ (Script.ofText "require [\"a\", \"A\"];" "f" .default).toOption,
      (((run []).addScript u).1.audit ((run []).addScript u).2).isOk = false := by decide +kernel
  have hfailed := hfails t (by rw [ht]; rfl)
  rw [hn] at hfailed
  cases hfailed

end Read

end Store

end MailFilter
