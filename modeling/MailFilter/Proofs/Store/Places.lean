import MailFilter.Proofs.Store.Heights
import MailFilter.Proofs.Store.SharedTests
import MailFilter.Proofs.Store.Surroundings

/-!
# Places in sound scripts

What is inside a sound script after one of its commands has been taken out or has come to another place.
The rest of the store may be like anything, so all is told of what can be reached from the script.
-/

namespace MailFilter.Store

open Relation

variable {s s' : Store} {k : ScriptId} {top b source : BlockId} {c d : CommandId}
  {place : Option BlockId}

/-! ## Sound scripts -/

@[elab_as_elim]
theorem Inside.induction {P : CommandId → Prop} (htop : ∀ d ∈ (s.block top).commands, P d)
    (hunder : ∀ d e, s.Inside top e → P e → s.Below d e → P d) (hd : s.Inside top d) : P d := by
  obtain ⟨e, he, hde⟩ := hd
  induction hde using ReflTransGen.head_induction_on with
  | refl => exact htop e he
  | @head d f hdf hfe ih => exact hunder d f ⟨e, he, hfe⟩ ih hdf

namespace Sound

variable (h : s.Sound k)

include h

theorem audit_eq (hfits : s.Fits k) : s.audit k = .ok (s.walkScript k).length := by
  cases haudit : s.audit k with
  | ok n => rw [(sound_of_audit haudit).2.2]
  | error e => exact absurd hfits (h.misfit_of_defect (defect_of_audit haudit)).2

theorem of_owner (hb : s.Part (s.script k).block b)
    (howner : (s.block b).owner = some (.command c)) :
    s.Inside (s.script k).block c ∧ (s.command c).block = some b := by
  rcases hb with rfl | ⟨d, hd, hblock⟩
  · rw [h.top] at howner
    cases howner
  · cases (h.own d b hd hblock).symm.trans howner
    exact ⟨hd, hblock⟩

theorem of_parent (hc : s.Inside (s.script k).block c) (hparent : (s.command c).parent = some b) :
    s.Part (s.script k).block b ∧ c ∈ (s.block b).commands := by
  obtain ⟨b', hb', hmem⟩ := hc.exists_part
  cases (h.parent c b' hb' hmem).symm.trans hparent
  exact ⟨hb', hmem⟩

theorem upward : s.Upward (s.Part (s.script k).block) :=
  ⟨fun _ _ hb howner => (h.of_owner hb howner).2,
    fun _ _ _ hb howner => h.of_parent (h.of_owner hb howner).1⟩

theorem exists_deep (hc : s.Inside (s.script k).block c) :
    ∃ n p, (s.command c).parent = some p ∧ s.Level k n p ∧
      ∃ t ∈ (s.block (s.script k).block).commands, s.Deep t n c := by
  refine Inside.induction (fun d hd => ?_) (fun d e he ⟨n, p, hparent, hp, t, ht, hdeep⟩ hde => ?_) hc
  · exact ⟨0, _, h.parent d _ (.inl rfl) hd, .top, d, hd, .self⟩
  · obtain ⟨b, hblock, hd⟩ := hde
    exact ⟨n + 1, b, h.parent d b (he.part hblock) hd, .under (h.own e b he hblock) hparent hp, t, ht,
      .under hdeep ⟨b, hblock, hd⟩⟩

theorem exists_level (hb : s.Part (s.script k).block b) : ∃ n, s.Level k n b := by
  rcases hb with rfl | ⟨d, hd, hblock⟩
  · exact ⟨0, .top⟩
  · obtain ⟨n, p, hparent, hp, -⟩ := h.exists_deep hd
    exact ⟨n + 1, .under (h.own d b hd hblock) hparent hp⟩

theorem scriptOf?_eq (hb : s.Part (s.script k).block b) : s.scriptOf? b = some k := by
  obtain ⟨n, hn⟩ := h.exists_level hb
  exact hn.scriptAbove? h.top (hn.lt h.top)

theorem level_add_height_le {m : Nat} (hshallow : s.Shallow k m) (hc : s.Inside (s.script k).block c)
    (hparent : (s.command c).parent = some b) : s.level b + s.height c ≤ m := by
  obtain ⟨n, p, hparent', hp, t, ht, hdeep⟩ := h.exists_deep hc
  cases hparent.symm.trans hparent'
  rw [hp.level_eq h.top]
  have hfar : ∀ {i d}, s.Deep c i d → s.Deep t (i + n) d := by
    intro i d hd
    induction hd with
    | self => rwa [Nat.zero_add]
    | under _ hd ih =>
        rw [Nat.succ_add]
        exact .under ih hd
  have hown := hshallow t ht n c hdeep
  have hwithin : s.Within c (m - n) := by
    intro i d hd
    have := hshallow t ht (i + n) d (hfar hd)
    omega
  have := (h.rooted.grounded hc).height_le.2 hwithin
  omega

theorem requireOf?_of_isBareRequire (hd : s.Inside (s.script k).block d)
    (hbare : (s.command d).head.isBareRequire = true) : s.requireOf? k = some d :=
  requireOf?_eq_some.2 ⟨h.requireFirst.front d (h.rooted.mem_walkScript.2 hd) hbare, hbare⟩

omit h in
theorem inside_of_requireOf? (hd : s.requireOf? k = some d) : s.Inside (s.script k).block d :=
  ⟨d, List.mem_of_mem_head? (requireOf?_eq_some.1 hd).1, .refl⟩

end Sound

/-! ### Checks that pass there -/

theorem Fits.checkFront_eq_ok (hfits : s.Fits k) : s.checkFront k = .ok () := by
  unfold checkFront
  split
  · next c ids hids =>
      have hc : c ∈ (s.block (s.script k).block).commands := by rw [hids]; exact List.mem_cons_self
      rw [hfits.names c ⟨c, hc, .refl⟩]
      rfl
  · rfl

theorem Fits.fitHeight (hfits : s.Fits k) (hc : s.Inside (s.script k).block c) :
    ∀ t ∈ (s.command c).head.tests, t.fitHeight = .ok () := by
  intro t ht
  refine if_pos (List.all_eq_true.2 fun a ha => ?_)
  exact hfits.tests c hc a (List.mem_flatMap.2 ⟨t, ht, ha⟩)

theorem Fits.checkItems_eq_ok (hfits : s.Fits k) {ids : List CommandId}
    (hids : ∀ c ∈ ids, s.Inside (s.script k).block c) : s.checkItems ids = .ok () := by
  have hall : (ids.forM fun c => (s.command c).head.tests.forM Test.fitHeight) = .ok () :=
    forM_eq_ok.2 fun c hc => forM_eq_ok.2 (hfits.fitHeight (hids c hc))
  rw [checkItems, hall]
  rfl

/-! ## Commands that change their place -/

/-- A store in which one command of a script has another place, or none. -/
structure Shifted (s s' : Store) (k : ScriptId) (c : CommandId) (place : Option BlockId) : Prop where
  script : s'.script k = s.script k
  head : ∀ d, (s'.command d).head = (s.command d).head
  block : ∀ d, (s'.command d).block = (s.command d).block
  parent : ∀ d, (s'.command d).parent = if d = c then place else (s.command d).parent
  owner : ∀ b, (s'.block b).owner = (s.block b).owner
  nodup : ∀ b, s.Part (s.script k).block b → (s'.block b).commands.Nodup
  listed : ∀ b, s.Part (s.script k).block b → ∀ d, d ∈ (s'.block b).commands ↔
    if d = c then place = some b else d ∈ (s.block b).commands
  /-- Unless it is that command, the `require` stays at the front. -/
  front : ∀ d, d ≠ c → s.requireOf? k = some d →
    (s'.block (s.script k).block).commands.head? = some d

namespace Sound

variable (h : s.Sound k) (hsource : s.Part (s.script k).block source)
  (hc : c ∈ (s.block source).commands)

include h hsource hc

theorem mem_unlist (hb : s.Part (s.script k).block b) :
    d ∈ ((s.unlist source c).block b).commands ↔ d ≠ c ∧ d ∈ (s.block b).commands := by
  rw [block_unlist (lt_of_mem hc)]
  split
  · next hbs =>
      subst hbs
      exact (h.listed.nodup b hb).mem_erase_iff
  · next hbs =>
      refine ⟨fun hd => ⟨?_, hd⟩, And.right⟩
      rintro rfl
      exact hbs (h.listed.apart d b source hb hsource hd hc)

omit hsource in
theorem nodup_unlist (hb : s.Part (s.script k).block b) :
    ((s.unlist source c).block b).commands.Nodup := by
  rw [block_unlist (lt_of_mem hc)]
  split
  · exact (h.listed.nodup b hb).erase c
  · exact h.listed.nodup b hb

omit h hsource in
theorem head?_unlist (hd : d ≠ c) (hhead : (s.block top).commands.head? = some d) :
    ((s.unlist source c).block top).commands.head? = some d := by
  rw [block_unlist (lt_of_mem hc)]
  split
  · exact head?_erase hd hhead
  · exact hhead

theorem shifted_remove : Shifted s
    ((s.unlist source c).modifyCommand c ({ · with parent := none })) k c none := by
  have hlt := lt_of_parent (h.parent c source hsource hc)
  refine ⟨rfl, head_modifyParent c none, blockOf_modifyParent c none,
    parent_modifyParent (s := s.unlist source c) hlt none, owner_unlist source, fun b hb => ?_,
    fun b hb d => ?_, fun d hne hd => head?_unlist hc hne (requireOf?_eq_some.1 hd).1⟩
  · exact h.nodup_unlist hc hb
  · rw [block_modifyCommand, h.mem_unlist hsource hc hb]
    by_cases hdc : d = c <;> simp [hdc]

/-- A command that moves. -/
theorem shifted_move (hb : s.Part (s.script k).block b) {i : Nat} (hlt : b < s.blocks.size)
    (hi : i ≤ ((s.unlist source c).block b).commands.length)
    (hplace : ∀ r, s.requireOf? k = some r → r ≠ c → (s.script k).block = b → i ≠ 0) :
    Shifted s ((s.unlist source c).list b i c) k c (some b) := by
  have hc' := lt_of_parent (h.parent c source hsource hc)
  have hlist := block_list (s := s.unlist source c) (c := c) (i := i) (by rwa [size_blocks_unlist])
  have hnone : ∀ {b}, s.Part (s.script k).block b → c ∉ ((s.unlist source c).block b).commands :=
    fun hb hmem => ((h.mem_unlist hsource hc hb).1 hmem).1 rfl
  refine ⟨rfl, head_move, blockOf_modifyParent c (some b),
    parent_modifyParent (s := (s.unlist source c).modifyBlock b _) hc' (some b),
    fun d => (owner_list b i d).trans (owner_unlist source d), fun d hd => ?_, fun d hd e => ?_,
    fun d hne hd => ?_⟩
  · have hnodup := h.nodup_unlist hc hd
    rw [hlist]
    split
    · next hdb =>
        subst hdb
        exact (List.perm_insertIdx c _ hi).nodup_iff.2 (List.nodup_cons.2 ⟨hnone hd, hnodup⟩)
    · exact hnodup
  · have hmem := fun e => h.mem_unlist (d := e) hsource hc hd
    rw [hlist]
    by_cases hdb : d = b
    · subst hdb
      rw [if_pos rfl, mem_insertIdx hi, hmem]
      by_cases hec : e = c <;> simp [hec]
    · rw [if_neg hdb, hmem]
      by_cases hec : e = c <;> simp [hec, Ne.symm hdb]
  · exact head?_list (by rwa [size_blocks_unlist]) (hplace d hd hne)
      (head?_unlist hc hne (requireOf?_eq_some.1 hd).1)

end Sound

namespace Shifted

variable (hmove : Shifted s s' k c place) (h : s.Sound k) (hc : s.Inside (s.script k).block c)

include hmove

theorem below (hd : s.Below d e) (hne : d ≠ c) (he : s.Inside (s.script k).block e) :
    s'.Below d e := by
  obtain ⟨b, hblock, hmem⟩ := hd
  refine ⟨b, (hmove.block e).trans hblock, ?_⟩
  rwa [hmove.listed b (he.part hblock), if_neg hne]

include hc

theorem inside (hd : s'.Inside (s.script k).block d) : s.Inside (s.script k).block d := by
  have hlisted : ∀ b, s.Part (s.script k).block b → ∀ d ∈ (s'.block b).commands,
      s.Inside (s.script k).block d := by
    intro b hb d hd
    rw [hmove.listed b hb] at hd
    split at hd
    · next hdc => exact hdc ▸ hc
    · exact hb.inside hd
  refine Inside.induction (hlisted _ (.inl rfl)) (fun d e _ he hde => ?_) hd
  obtain ⟨b, hblock, hd⟩ := hde
  rw [hmove.block] at hblock
  exact hlisted b (he.part hblock) d hd

theorem part (hb : s'.Part (s.script k).block b) : s.Part (s.script k).block b := by
  refine hb.imp_right fun ⟨d, hd, hblock⟩ => ?_
  rw [hmove.block] at hblock
  exact ⟨d, hmove.inside hc hd, hblock⟩

omit hc in
theorem inside_of_not_below (hd : s.Inside (s.script k).block d)
    (hout : ¬ ReflTransGen s.Below d c) : s'.Inside (s.script k).block d := by
  revert hout
  refine Inside.induction (fun d hd hout => ?_) (fun d e he ih hde hout => ?_) hd
  · have hne : d ≠ c := fun hdc => hout (hdc ▸ .refl)
    exact ⟨d, (hmove.listed _ (.inl rfl) d).2 (by rwa [if_neg hne]), .refl⟩
  · have hne : d ≠ c := fun hdc => hout (hdc ▸ .refl)
    exact (ih fun hec => hout (.head hde hec)).below (.single (hmove.below hde hne he))

include h

omit hc in
theorem sameAbove : SameAbove s s' fun b => s.Part (s.script k).block b ∧ ¬ s.Beneath c b :=
  h.upward.sameAbove hmove.owner fun d hd => by rw [hmove.parent, if_neg hd]

omit hc in
theorem scriptOf?_eq (hsize : s'.blocks.size = s.blocks.size) (hb : s.Part (s.script k).block b)
    (hout : ¬ s.Beneath c b) : s'.scriptOf? b = some k :=
  ((hmove.sameAbove h).scriptOf?_eq ⟨hb, hout⟩ hsize).trans (h.scriptOf?_eq hb)

theorem not_below_of_inside (hplace : place = none) (hd : s'.Inside (s.script k).block d) :
    ¬ ReflTransGen s.Below d c := by
  subst hplace
  have hlisted : ∀ b, s.Part (s.script k).block b → ∀ d ∈ (s'.block b).commands,
      d ≠ c ∧ d ∈ (s.block b).commands := by
    intro b hb d hd
    rw [hmove.listed b hb] at hd
    split at hd
    · cases hd
    · next hne => exact ⟨hne, hd⟩
  refine Inside.induction (fun d hd hdc => ?_) (fun d e he ih hde hdc => ?_) hd
  · obtain ⟨hne, hd⟩ := hlisted _ (.inl rfl) d hd
    rcases ReflTransGen.cases_head hdc with rfl | ⟨f, hdf, hfc⟩
    · exact hne rfl
    · exact h.rooted.not_below_of_mem_top hd (hc.below hfc) hdf
  · -- The command above is the same as before, and it is not below the one that is gone.
    obtain ⟨b, hblock, hd⟩ := hde
    rw [hmove.block] at hblock
    have he := hmove.inside hc he
    obtain ⟨hne, hd⟩ := hlisted b (he.part hblock) d hd
    rcases ReflTransGen.cases_head hdc with rfl | ⟨f, hdf, hfc⟩
    · exact hne rfl
    · have hfe := h.rooted.above_unique (hc.below hfc) he hdf ⟨b, hblock, hd⟩
      exact ih (hfe ▸ hfc)

omit hc in
theorem requireOf?_eq (hc : s.Inside (s.script k).block c) (hne : s.requireOf? k ≠ some c) :
    s'.requireOf? k = s.requireOf? k := by
  cases hreq : s.requireOf? k with
  | some r =>
      have hrc : r ≠ c := fun hrc => hne (hrc ▸ hreq)
      refine requireOf?_eq_some.2 ⟨?_, ?_⟩
      · rw [hmove.script]
        exact hmove.front r hrc hreq
      · rw [hmove.head]
        exact (requireOf?_eq_some.1 hreq).2
  | none =>
      refine Option.eq_none_iff_forall_ne_some.2 fun r hr => ?_
      have hinside := Sound.inside_of_requireOf? hr
      rw [hmove.script] at hinside
      have hbare := (requireOf?_eq_some.1 hr).2
      rw [hmove.head] at hbare
      rw [h.requireOf?_of_isBareRequire (hmove.inside hc hinside) hbare] at hreq
      cases hreq

end Shifted

/-! ### Scripts that stay sound -/

namespace Shifted

variable (hmove : Shifted s s' k c place) (hc : s.Inside (s.script k).block c)

include hmove hc

theorem fits (hfits : s.Fits k) : s'.Fits k := by
  have hinside : ∀ d, s'.Inside (s'.script k).block d → s.Inside (s.script k).block d := fun d hd => by
    rw [hmove.script] at hd
    exact hmove.inside hc hd
  refine ⟨fun d hd => ?_, fun d hd => ?_, ?_⟩
  · rw [hmove.head]
    exact hfits.names d (hinside d hd)
  · rw [hmove.head]
    exact hfits.tests d (hinside d hd)
  · rw [hmove.script]
    exact hfits.capabilities

/-- A script stays sound where a command changes its place that is not its `require`. -/
theorem sound (h : s.Sound k) (hne : s.requireOf? k ≠ some c) : s'.Sound k := by
  have hinside : ∀ d, s'.Inside (s.script k).block d → s.Inside (s.script k).block d :=
    fun d => hmove.inside hc
  have hpart : ∀ b, s'.Part (s.script k).block b → s.Part (s.script k).block b := fun b => hmove.part hc
  have hrequire := hmove.requireOf?_eq h hc hne
  have htests : s'.TestsApart k := by
    refine h.tests.mono fun d hd => .inl ?_
    rw [hmove.script] at hd
    exact ⟨hinside d hd, testsOf_congr (hmove.head d)⟩
  refine ⟨?_, ⟨?_, ?_⟩, ?_, ?_, htests, ?_, ?_, ?_⟩
  all_goals rw [hmove.script]
  · rw [hmove.owner]
    exact h.top
  · exact fun b' hb' => hmove.nodup b' (hpart b' hb')
  · intro d b₁ b₂ hb₁ hb₂ hd₁ hd₂
    rw [hmove.listed b₁ (hpart b₁ hb₁)] at hd₁
    rw [hmove.listed b₂ (hpart b₂ hb₂)] at hd₂
    split at hd₁
    · next hdc =>
        rw [if_pos hdc] at hd₂
        exact Option.some.inj (hd₁.symm.trans hd₂)
    · next hdc =>
        rw [if_neg hdc] at hd₂
        exact h.listed.apart d b₁ b₂ (hpart b₁ hb₁) (hpart b₂ hb₂) hd₁ hd₂
  · intro d b' hb' hd
    rw [hmove.listed b' (hpart b' hb')] at hd
    rw [hmove.parent]
    split at hd
    · next hdc => rwa [if_pos hdc]
    · next hdc =>
        rw [if_neg hdc]
        exact h.parent d b' (hpart b' hb') hd
  · intro d b' hd hblock
    rw [hmove.block] at hblock
    rw [hmove.owner]
    exact h.own d b' (hinside d hd) hblock
  · intro d b' i hb' hi hbare
    rw [hmove.head] at hbare
    have hd := List.mem_of_getElem? hi
    have hreq := h.requireOf?_of_isBareRequire (hinside d (hb'.inside hd)) hbare
    have hdc : d ≠ c := fun hdc => hne (hdc ▸ hreq)
    have hhead := hmove.front d hdc hreq
    have hd' := (hmove.listed b' (hpart b' hb') d).1 hd
    rw [if_neg hdc] at hd'
    have htop := h.listed.apart d b' _ (hpart b' hb') (.inl rfl) hd'
      (List.mem_of_mem_head? (requireOf?_eq_some.1 hreq).1)
    subst htop
    rw [List.head?_eq_getElem?] at hhead
    exact ⟨rfl, (List.getElem?_inj (List.getElem?_eq_some_iff.1 hi).1
      (hmove.nodup _ (.inl rfl))).1 (hi.trans hhead.symm)⟩
  · exact h.distinct
  · rw [hrequire]
    exact h.held

end Shifted

/-! ## Scripts that a command has left -/

namespace Shifted

variable (hmove : Shifted s s' k c none) (h : s.Sound k) (hc : s.Inside (s.script k).block c)
  (hne : s.requireOf? k ≠ some c)

include hmove h hc hne

theorem of_mem_walkScript (hd : d ∈ s'.walkScript k) :
    s.Inside (s.script k).block d ∧ ¬ ReflTransGen s.Below d c := by
  have hd := (hmove.sound hc h hne).rooted.mem_walkScript.1 hd
  rw [hmove.script] at hd
  exact ⟨hmove.inside hc hd, hmove.not_below_of_inside h hc rfl hd⟩

theorem not_mem_blocks (hd : ReflTransGen s.Below d c) (hblock : (s.command d).block = some b) :
    b ∉ (s'.script k).block :: (s'.walkScript k).filterMap fun e => (s'.command e).block := by
  have hinside := hc.below hd
  rw [hmove.script, List.mem_cons, not_or, List.mem_filterMap]
  refine ⟨fun htop => h.rooted.above d hinside (htop ▸ hblock), fun ⟨e, he, heblock⟩ => ?_⟩
  rw [hmove.block] at heblock
  obtain ⟨heinside, hout⟩ := hmove.of_mem_walkScript h hc hne he
  exact hout (h.rooted.own d e b hinside heinside hblock heblock ▸ hd)

theorem nodup_testIdsOf :
    (s'.testIdsOf (s.walk c) ++ s'.testIdsOf (s'.walkScript k)).Nodup := by
  rw [testIdsOf_congr hmove.head, testIdsOf_congr hmove.head, testIdsOf, testIdsOf,
    ← List.flatMap_append]
  have hwalk : ∀ d ∈ s.walk c, ReflTransGen s.Below d c := fun d => (h.rooted.mem_walk hc).1
  refine h.tests.nodup_testIdsOf (fun d hd => ?_) ?_
  · rcases List.mem_append.1 hd with hd | hd
    · exact hc.below (hwalk d hd)
    · exact (hmove.of_mem_walkScript h hc hne hd).1
  · have hleft := (hmove.sound hc h hne).rooted.nodup_walkScript
    exact (h.rooted.nodup_walkTo hc _).append hleft fun d hd hd' =>
      (hmove.of_mem_walkScript h hc hne hd').2 (hwalk d hd)

end Shifted

/-! ## Moves inside a script -/

namespace Shifted

variable (hmove : Shifted s s' k c (some b)) (hc : s.Inside (s.script k).block c)
  (hb : s.Part (s.script k).block b) (hout : ¬ s.Beneath c b)

include hmove hc hb hout

omit hc in
theorem inside_place : s'.Inside (s.script k).block c := by
  have hmem : c ∈ (s'.block b).commands := (hmove.listed b hb c).2 (by rw [if_pos rfl])
  rcases hb with rfl | ⟨e, he, hblock⟩
  · exact ⟨c, hmem, .refl⟩
  · have he' := hmove.inside_of_not_below he fun hec => hout ⟨e, hec, hblock⟩
    exact he'.below (.single ⟨b, (hmove.block e).trans hblock, hmem⟩)

theorem inside_iff : s'.Inside (s.script k).block d ↔ s.Inside (s.script k).block d := by
  refine ⟨hmove.inside hc, fun hd => ?_⟩
  have hplace := hmove.inside_place hb hout
  refine Inside.induction (fun d hd => ?_) (fun d e he ih hde => ?_) hd
  · by_cases hdc : d = c
    · exact hdc ▸ hplace
    · exact ⟨d, (hmove.listed _ (.inl rfl) d).2 (by rwa [if_neg hdc]), .refl⟩
  · by_cases hdc : d = c
    · exact hdc ▸ hplace
    · exact ih.below (.single (hmove.below hde hdc he))

theorem part_iff {b' : BlockId} : s'.Part (s.script k).block b' ↔ s.Part (s.script k).block b' := by
  refine or_congr_right (exists_congr fun d => ?_)
  rw [hmove.inside_iff hc hb hout, hmove.block]

theorem length_walkScript (h : s.Sound k) (hne : s.requireOf? k ≠ some c) :
    (s'.walkScript k).length = (s.walkScript k).length := by
  have hsound := (hmove.sound hc h hne).rooted
  refine ((List.perm_ext_iff_of_nodup hsound.nodup_walkScript h.rooted.nodup_walkScript).2
    fun d => ?_).length_eq
  rw [hsound.mem_walkScript, h.rooted.mem_walkScript, hmove.script, hmove.inside_iff hc hb hout]

end Shifted

end MailFilter.Store
