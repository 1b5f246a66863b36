import MailFilter.Proofs.Store.Front
import MailFilter.Proofs.Store.Runs

/-!
# The `require` stays first

An operation that succeeds on a script whose `require` is first leaves it first, unless it brings a
`require` without arguments below another command, or takes the arguments of one that stands elsewhere.
-/

namespace MailFilter.Store

open Relation

variable {s s' : Store} {lost : List CommandId} {k : ScriptId} {b : BlockId} {c d : CommandId}

/-! ## The front of a script -/

theorem parent_of_requireOf? (h : s.Owned lost) (hc : s.requireOf? k = some c) :
    (s.command c).parent = some (s.script k).block :=
  h.parent_of_mem (List.mem_of_mem_head? (requireOf?_eq_some.1 hc).1)

theorem scriptOf?_of_owner (howner : (s.block b).owner = some (.script k)) :
    s.scriptOf? b = some k := by
  obtain ⟨n, hn⟩ := Nat.exists_eq_succ_of_ne_zero (Nat.ne_of_gt (Nat.zero_lt_of_lt (lt_of_owner howner)))
  rw [scriptOf?, hn, scriptAbove?, howner]

theorem scriptOf?_top (h : s.Owned lost) (hk : k < s.scripts.size) :
    s.scriptOf? (s.script k).block = some k :=
  scriptOf?_of_owner (h.top k hk)

theorem isRequireOf_eq_false (hb : s.scriptOf? b = some k) :
    s.isRequireOf b c = false ↔ s.requireOf? k ≠ some c := by
  rw [isRequireOf, hb, Option.any_some, beq_eq_false_iff_ne]

/-- In a script whose front can be looked at, a place is refused exactly if it is before the `require`. -/
theorem checkRequireSlot_eq_ok (hb : s.scriptOf? b = some k) (hfront : s.checkFront k = .ok ())
    {index : Value} : s.checkRequireSlot b index c = .ok () ↔ ((s.script k).block = b →
      ∀ r, s.requireOf? k = some r → r ≠ c → index.compareInt? 0 ≠ some (some .eq)) := by
  unfold checkRequireSlot
  rw [hb]
  dsimp only
  by_cases htop : (s.script k).block = b
  · rw [if_pos (by simpa using htop), hfront]
    cases s.requireOf? k with
    | none => exact iff_of_true rfl fun _ _ hr => absurd hr nofun
    | some r =>
        refine refuseIf_eq_ok.trans ?_
        simp only [Bool.and_eq_false_iff, bne_eq_false_iff_eq, beq_eq_false_iff_ne]
        constructor
        · rintro hslot - _ ⟨⟩ hrc
          exact hslot.resolve_left hrc
        · exact fun hslot => Classical.or_iff_not_imp_left.2 (hslot htop r rfl)
  · rw [if_neg (by simpa using htop)]
    exact iff_of_true rfl fun heq => absurd heq htop

theorem checkRequireSlot_eq_ok_of_place (hb : s.scriptOf? b = some k) (hfront : s.checkFront k = .ok ())
    {index : Value} {i : Nat} (hfirst : index.compareInt? 0 = some (some .eq) ↔ i = 0) :
    s.checkRequireSlot b index c = .ok () ↔
      ((s.script k).block = b → ∀ r, s.requireOf? k = some r → r ≠ c → i ≠ 0) := by
  rw [checkRequireSlot_eq_ok hb hfront]
  simp only [ne_eq, hfirst]

theorem not_first_of_checkRequireSlot (htop : s.scriptOf? (s.script k).block = some k)
    {index : Value} (hd : s.requireOf? k = some d) (hne : d ≠ c)
    (hcheck : s.checkRequireSlot (s.script k).block index c = .ok ()) :
    index.compareInt? 0 ≠ some (some .eq) := by
  have hfront : s.checkFront k = .ok () := by
    unfold checkRequireSlot at hcheck
    rw [htop] at hcheck
    simp only [beq_self_eq_true, if_true] at hcheck
    obtain ⟨_, hfront, -⟩ := ok_of_bind hcheck
    exact hfront
  exact (checkRequireSlot_eq_ok htop hfront).1 hcheck rfl d hd hne

theorem place_ne_zero (htop : s.scriptOf? (s.script k).block = some k) {index : Value} {i : Nat}
    (hd : s.requireOf? k = some d) (hne : d ≠ c) (hcheck : s.checkRequireSlot b index c = .ok ())
    (hfirst : index.compareInt? 0 = some (some .eq) ↔ i = 0) (hb : (s.script k).block = b) :
    i ≠ 0 := by
  subst hb
  intro hi
  exact not_first_of_checkRequireSlot htop hd hne hcheck (hfirst.2 hi)

theorem requireOf?_ne (h : s.Owned lost) (hk : k < s.scripts.size)
    (hkeep : (s.command c).parent.any (s.isRequireOf · c) = false) : s.requireOf? k ≠ some c := by
  intro hreq
  rw [parent_of_requireOf? h hreq, Option.any_some, isRequireOf_eq_false (scriptOf?_top h hk)] at hkeep
  exact hkeep hreq

theorem head?_insertIdx {ids : List CommandId} {i : Nat} (hi : i ≠ 0)
    (hhead : ids.head? = some d) : (ids.insertIdx i c).head? = some d := by
  obtain ⟨i, rfl⟩ := Nat.exists_eq_succ_of_ne_zero hi
  cases ids with
  | nil => cases hhead
  | cons e ids => exact hhead

theorem eq_zero_of_head?_insertIdx {ids : List CommandId} {i : Nat} (hi : i ≤ ids.length)
    (hc : c ∉ ids) (hhead : (ids.insertIdx i c).head? = some c) : i = 0 := by
  cases i with
  | zero => rfl
  | succ i =>
      cases ids with
      | nil => cases hi
      | cons e ids =>
          cases hhead
          exact absurd List.mem_cons_self hc

theorem head?_erase {ids : List CommandId} (hne : d ≠ c) (hhead : ids.head? = some d) :
    (ids.erase c).head? = some d := by
  cases ids with
  | nil => cases hhead
  | cons e ids =>
      cases hhead
      rw [List.erase_cons_tail (by simpa using hne)]
      rfl

theorem head?_unlist {top source : BlockId} (hsource : source < s.blocks.size) (hne : d ≠ c)
    (hhead : (s.block top).commands.head? = some d) :
    ((s.unlist source c).block top).commands.head? = some d := by
  rw [block_unlist hsource]
  split
  · exact head?_erase hne hhead
  · exact hhead

/-- A condition tells whether the `require` of a script is still the first. -/
structure Keeps (s' : Store) (k : ScriptId) (misplaced : Prop) : Prop where
  first : ¬ misplaced → s'.RequireFirst k
  front : misplaced → ¬ s'.OnlyFront k

theorem Keeps.of_onlyFront_iff {misplaced : Prop} (hfront : s'.OnlyFront k ↔ ¬ misplaced)
    (hfirst : s'.OnlyFront k → s'.RequireFirst k) : s'.Keeps k misplaced :=
  ⟨fun h => hfirst (hfront.2 h), fun h hfront' => hfront.1 hfront' h⟩

/-! ## Commands that come -/

theorem head_list {i : Nat} (d : CommandId) : ((s.list b i c).command d).head = (s.command d).head :=
  head_modifyParent c (some b) d

theorem head_move {source : BlockId} {i : Nat} (d : CommandId) :
    (((s.unlist source c).list b i c).command d).head = (s.command d).head :=
  head_list (s := s.unlist source c) d

theorem relocated_insert (h : s.Owned lost) {index limit : Value} (hb : b < s.blocks.size)
    (hc : c < s.commands.size) (hok : s.insert b index c limit = .ok s') :
    Relocated s s' c (some b) ∧ ∀ d, (s'.command d).head = (s.command d).head := by
  obtain ⟨i, hchecked, rfl⟩ := insert_ok hok
  have hmove := hchecked.relocated h hb hc
  cases hblock : (s.command c).block with
  | none => exact ⟨hmove, head_list⟩
  | some own =>
      have howner : ((s.list b i c).block own).owner = some (.command c) := by
        rw [hmove.owner, h.own c own hblock]
      exact ⟨hmove.sameLinks (sameLinks_modifyOwner howner) rfl, head_list⟩

theorem head?_list {top : BlockId} {i : Nat} (hb : b < s.blocks.size) (hplace : top = b → i ≠ 0)
    (hhead : (s.block top).commands.head? = some d) :
    ((s.list b i c).block top).commands.head? = some d := by
  rw [block_list hb]
  split
  · next htop => exact head?_insertIdx (hplace htop) hhead
  · exact hhead

theorem not_mem_walkScript (h : s.Owned lost) (hc : (s.command c).parent = none) :
    c ∉ s.walkScript k := by
  intro hmem
  obtain ⟨b, hb⟩ := exists_mem_of_inside (h.mem_walkScript.1 hmem)
  have := h.parent_of_mem hb
  rw [hc] at this
  cases this

theorem InsertChecked.rearranged (h : s.Owned lost) (hk : k < s.scripts.size) {index limit : Value}
    {i : Nat} (hchecked : s.InsertChecked b index c limit i) (hb : b < s.blocks.size)
    (hc : c < s.commands.size) : Rearranged s (s.list b i c) k c (some b) := by
  refine ⟨hchecked.relocated h hb hc, fun b' hb' e he => ?_, fun d _ => head_list d,
    fun d hne hd => ?_, .inr fun hreq => ?_⟩
  · cases hb'
    exact not_below_of_holdsBlock h hc hchecked.outside e he
  · exact head?_list hb (place_ne_zero (scriptOf?_top h hk) hd hne hchecked.front hchecked.first)
      (requireOf?_eq_some.1 hd).1
  · have := parent_of_requireOf? h hreq
    rw [hchecked.unlisted] at this
    cases this

theorem not_isBareRequire {head : Head Mark Value}
    (hkeyword : (head.keyword? == some .require) = false) : head.isBareRequire = false := by
  rw [Head.isBareRequire, hkeyword, Bool.false_and]

/-- No `require` without arguments may come with a command that is inserted. -/
theorem keeps_insert (h : s.Owned lost) (hk : k < s.scripts.size) {index limit : Value}
    (hb : b < s.blocks.size) (hc : c < s.commands.size) (hok : s.insert b index c limit = .ok s')
    (hfirst : s.RequireFirst k) :
    s'.Keeps k (s.Holds k b ∧ ∃ d ∈ s.walk c, (s.command d).head.isBareRequire = true) := by
  obtain ⟨i, hchecked, rfl⟩ := insert_ok hok
  have hmove := hchecked.rearranged h hk hb hc
  have howned := hchecked.owned h hb hc
  have hlist : (s.list b i c).Keeps k (s.Holds k b ∧
      ∃ d ∈ s.walk c, (s.command d).head.isBareRequire = true) := by
    refine .of_onlyFront_iff ?_ (hmove.requireFirst hfirst)
    rw [hmove.onlyFront_iff h hk hc hfirst.front fun _ => not_mem_walkScript h hchecked.unlisted]
    simp only [head_list]
    refine not_congr (and_congr_right fun _ => exists_congr fun d => and_congr_right fun _ =>
      and_iff_left_of_imp fun hbare hdc => ?_)
    rw [hdc, not_isBareRequire hchecked.keyword] at hbare
    cases hbare
  cases hblock : (s.command c).block with
  | none => exact hlist
  | some own =>
      have hsame := sameLinks_modifyOwner (s := s.list b i c)
        (by rw [hmove.owner, h.own c own hblock])
      refine ⟨fun hplace => ?_, fun hplace hfront => hlist.front hplace ?_⟩
      · exact hsame.requireFirst howned (fun _ => rfl) (.inr rfl) (hlist.first hplace)
      · exact hsame.symm.onlyFront (howned.sameLinks hsame) (fun _ => rfl) hfront

theorem MoveChecked.requireOf?_ne (h : s.Owned lost) (hk : k < s.scripts.size) {source : BlockId}
    {index limit : Value} {i : Nat} (hchecked : s.MoveChecked c source b index limit i) :
    s.requireOf? k ≠ some c := by
  refine Store.requireOf?_ne h hk ?_
  rw [hchecked.parent]
  exact hchecked.keeps

theorem MoveChecked.rearranged (h : s.Owned lost) (hk : k < s.scripts.size) {source : BlockId}
    {index limit : Value} {i : Nat} (hchecked : s.MoveChecked c source b index limit i)
    (hb : b < s.blocks.size) : Rearranged s ((s.unlist source c).list b i c) k c (some b) := by
  have hc := lt_of_parent hchecked.parent
  have hsource := lt_of_mem hchecked.listed
  have hrequire := hchecked.requireOf?_ne h hk
  refine ⟨hchecked.relocated h hb, fun b' hb' e he => ?_, fun d _ => head_move d,
    fun d hne hd => ?_, .inr hrequire⟩
  · cases hb'
    exact not_below_of_holdsBlock h hc hchecked.outside e he
  · have hhead := head?_unlist hsource hne (requireOf?_eq_some.1 hd).1
    exact head?_list (by rwa [size_blocks_unlist])
      (place_ne_zero (scriptOf?_top h hk) hd hne hchecked.front hchecked.first) hhead

/-- A `require` without arguments that moves must become the first of the script, and none may come
with another command. -/
theorem keeps_move (h : s.Owned lost) (hk : k < s.scripts.size) {index limit : Value}
    (hb : b < s.blocks.size) (hok : s.move c b index limit = .ok s') (hfirst : s.RequireFirst k) :
    s'.Keeps k (s.Holds k b ∧ ∃ d ∈ s.walk c, (s.command d).head.isBareRequire = true ∧
      ¬ (d = c ∧ b = (s.script k).block ∧ slot index = .ok 0)) := by
  obtain ⟨source, i, hchecked, rfl⟩ := move_ok hok
  have hc := lt_of_parent hchecked.parent
  have hmove := hchecked.rearranged h hk hb
  have hapart : (((s.unlist source c).list b i c).command c).head.isBareRequire = true →
      c ∉ s.walkScript k := by
    intro hbare hmem
    rw [head_move] at hbare
    exact hchecked.requireOf?_ne h hk (requireOf?_eq_some.2 ⟨hfirst.front c hmem hbare, hbare⟩)
  refine .of_onlyFront_iff ?_ (hmove.requireFirst hfirst)
  rw [hmove.onlyFront_iff h hk hc hfirst.front hapart]
  have hplace : (((s.unlist source c).list b i c).block (s.script k).block).commands.head? = some c ↔
      b = (s.script k).block ∧ slot index = .ok 0 := by
    have hi := hchecked.le_length
    have hblock := block_list (s := s.unlist source c) (c := c) (i := i)
      (by rwa [size_blocks_unlist])
    constructor
    · intro hhead
      have htop := (hmove.listed c _).1 (List.mem_of_mem_head? hhead)
      rw [if_pos rfl] at htop
      cases htop
      rw [hblock, if_pos rfl] at hhead
      have hzero := eq_zero_of_head?_insertIdx hi
        (fun hmem => ((mem_unlist h hchecked.listed c _).1 hmem).1 rfl) hhead
      exact ⟨rfl, hzero ▸ hchecked.place⟩
    · rintro ⟨rfl, hzero⟩
      have := hchecked.place.symm.trans hzero
      cases this
      rw [hblock, if_pos rfl]
      rfl
  simp only [head_move, ne_eq, hplace, not_and]

/-! ## Commands that go -/

theorem command_forget (d : CommandId) : (s.forget b c).command d = s.command d := by
  unfold forget
  split
  · split <;> rfl
  · rfl

theorem requireOf?_forget : (s.forget b c).requireOf? k = s.requireOf? k := by
  have hsame := sameLinks_forget (s := s) b c
  simp only [requireOf?, hsame.top, hsame.listed, command_forget]

theorem script_modifyScript {j : ScriptId} (hj : j < s.scripts.size) (f : ScriptCell → ScriptCell)
    (i : ScriptId) : (s.modifyScript i f).script j = if j = i then f (s.script j) else s.script j := by
  simp only [script, modifyScript, Array.getD_eq_getD_getElem?, Array.getElem?_modify]
  by_cases hij : i = j
  · subst hij
    simp [hj]
  · simp [hij, Ne.symm hij]

theorem capabilities_forget (h : s.Owned lost) (hk : k < s.scripts.size)
    (hparent : (s.command c).parent = some b) :
    ((s.forget b c).script k).capabilities = if s.requireOf? k = some c then [] else
      (s.script k).capabilities := by
  split
  · next hreq =>
      have htop := parent_of_requireOf? h hreq
      rw [hparent] at htop
      cases htop
      simp only [forget, scriptOf?_top h hk, hreq, beq_self_eq_true, if_true]
      rw [script_modifyScript hk, if_pos rfl]
  · next hreq =>
      unfold forget
      split
      · next j _ =>
          split
          · next hj =>
              have hkj : k ≠ j := by
                rintro rfl
                exact hreq (by simpa using hj)
              rw [script_modifyScript hk, if_neg hkj]
          · rfl
      · rfl

theorem rearranged_remove (h : s.Owned lost) (hk : k < s.scripts.size)
    (hparent : (s.command c).parent = some b) (hmem : c ∈ (s.block b).commands) :
    Rearranged (s.forget b c)
      (((s.forget b c).unlist b c).modifyCommand c ({ · with parent := none })) k c none := by
  have hsame := sameLinks_forget (s := s) b c
  have hparent' := (hsame.parent c).trans hparent
  rw [← hsame.listed] at hmem
  refine ⟨relocated_unlist (h.sameLinks hsame) hmem, nofun, fun d hne => ?_, fun d hne hd => ?_, ?_⟩
  · have := command_modifyCommand ((s.forget b c).unlist b c) c d ({ · with parent := none })
    rw [this (lt_of_parent hparent'), if_neg hne]
    rfl
  · exact head?_unlist (lt_of_mem hmem) hne (requireOf?_eq_some.1 hd).1
  · rw [capabilities_forget h hk hparent]
    by_cases hreq : s.requireOf? k = some c
    · exact .inl (if_pos hreq)
    · rw [requireOf?_forget]
      exact .inr hreq

theorem requireFirst_remove (h : s.Owned lost) (hk : k < s.scripts.size) (hok : s.remove c = .ok s')
    (hfirst : s.RequireFirst k) : s'.RequireFirst k := by
  obtain ⟨b, hparent, hmem, rfl⟩ := remove_ok hok
  have hsame := sameLinks_forget (s := s) b c
  have hforgot := h.sameLinks hsame
  have hfirst' : (s.forget b c).RequireFirst k := by
    refine hsame.requireFirst h (fun d => by rw [command_forget]) ?_ hfirst
    rw [capabilities_forget h hk hparent]
    split
    · exact .inl rfl
    · exact .inr rfl
  have hmove := rearranged_remove h hk hparent hmem
  refine hmove.requireFirst hfirst' ((hmove.onlyFront hforgot hfirst'.front nofun).2 fun b' hb' => ?_)
  cases hb'

/-! ## Commands that stay -/

theorem requireOf?_replace (h : s.Owned lost) (hk : k < s.scripts.size) (hc : c < s.commands.size)
    {arguments : List (Argument Mark Value)}
    (hkeep : (s.command c).parent.any (s.isRequireOf · c) = false) (hd : s.requireOf? k = some d) :
    (s.modifyCommand c fun cell => { cell with head := { cell.head with arguments } }).requireOf? k =
      some d := by
  have hdc : d ≠ c := by
    rintro rfl
    exact requireOf?_ne h hk hkeep hd
  obtain ⟨hhead, hd'⟩ := requireOf?_eq_some.1 hd
  refine requireOf?_eq_some.2 ⟨hhead, ?_⟩
  rw [command_modifyCommand _ _ _ _ hc, if_neg hdc]
  exact hd'

/-- A command that loses its arguments must not be a `require`, unless it is the first command. -/
theorem keeps_replace (h : s.Owned lost) (hk : k < s.scripts.size) (hc : c < s.commands.size)
    {arguments : List (Argument Mark Value)} {limit : Value}
    (hok : s.replace c arguments limit = .ok s') (hfirst : s.RequireFirst k) :
    s'.Keeps k (c ∈ s.walkScript k ∧ (s.command c).head.keyword? = some .require ∧
      arguments = [] ∧ (s.block (s.script k).block).commands.head? ≠ some c) := by
  obtain ⟨⟨hkeep, -, -, -⟩, rfl⟩ := replace_ok hok
  have hsame := sameLinks_modifyHead (s := s) c fun head => { head with arguments }
  set s' := s.modifyCommand c fun cell => { cell with head := { cell.head with arguments } }
  have hcommand : ∀ d, s'.command d = if d = c then
      { s.command d with head := { (s.command d).head with arguments } } else s.command d :=
    fun d => command_modifyCommand s c d _ hc
  have hbare : (s'.command c).head.isBareRequire = true ↔
      (s.command c).head.keyword? = some .require ∧ arguments = [] := by
    rw [hcommand, if_pos rfl, Head.isBareRequire, Bool.and_eq_true, beq_iff_eq, List.isEmpty_iff]
    rfl
  have hwalk : ∀ d, d ∈ s'.walkScript k ↔ d ∈ s.walkScript k :=
    fun d => hsame.walkScript h (h.sameLinks hsame)
  constructor
  case front =>
    rintro ⟨hmem, hkeyword, hnone, hne⟩ hfront
    exact hne (hfront c ((hwalk c).2 hmem) (hbare.2 ⟨hkeyword, hnone⟩))
  case first =>
    intro hplace
    refine ⟨fun d hd hd' => ?_, hfirst.distinct, hfirst.held.imp_right fun hsome => ?_⟩
    · by_cases hdc : d = c
      · subst hdc
        by_contra hne
        exact hplace ⟨(hwalk d).1 hd, (hbare.1 hd').1, (hbare.1 hd').2, hne⟩
      · rw [hcommand, if_neg hdc] at hd'
        exact hfirst.front d ((hwalk d).1 hd) hd'
    · obtain ⟨d, hd⟩ := Option.isSome_iff_exists.1 hsome
      rw [requireOf?_replace h hk hc hkeep hd]
      rfl

theorem requireFirst_nameRule (h : s.Owned lost) {name : Option Value}
    (hc : c < s.commands.size) (hok : s.nameRule c name = .ok s') (hfirst : s.RequireFirst k) :
    s'.RequireFirst k := by
  obtain ⟨comments, -, rfl⟩ := nameRule_ok hok
  refine (sameLinks_modifyHead c fun head => { head with comments }).requireFirst h (fun d => ?_)
    (.inr rfl) hfirst
  rw [command_modifyCommand _ _ _ _ hc]
  split <;> rfl

/-! ## Capabilities -/

theorem not_mem_of_holdsName {name : String} {capabilities : List Value}
    (hholds : holdsName name capabilities = .ok false) :
    Text.lower name ∉ (capabilities.map Value.plain).map Text.lower := by
  induction capabilities with
  | nil => simp
  | cons v vs ih =>
      obtain ⟨_, _, hholds⟩ := ok_of_bind hholds
      split at hholds
      · cases hholds
      · next hne =>
          rw [List.map_cons, List.map_cons, List.mem_cons, not_or]
          exact ⟨fun heq => hne (by simpa using heq.symm), ih hholds⟩

theorem hasTwice_append {name : String} {names : List String}
    (hnew : Text.lower name ∉ names.map Text.lower) :
    hasTwice (names ++ [name]) = hasTwice names := by
  have hremove : [Text.lower name].removeAll (names.map Text.lower) = [Text.lower name] := by
    rw [List.removeAll, List.filter_eq_self]
    intro other hother
    rw [List.mem_singleton.1 hother]
    simpa using hnew
  have hlower : (names ++ [name]).map Text.lower = names.map Text.lower ++ [Text.lower name] := by
    rw [List.map_append, List.map_cons, List.map_nil]
  simp only [hasTwice, hlower, List.eraseDups_append, hremove, List.length_append]
  simp [List.eraseDups_cons]

theorem top_injective (h : s.Owned lost) {j : ScriptId} (hj : j < s.scripts.size)
    (hk : k < s.scripts.size) (hsame : (s.script k).block = (s.script j).block) : k = j := by
  have howner := h.top k hk
  rw [hsame, h.top j hj] at howner
  cases howner
  rfl

theorem Rearranged.ofAddRequire (h : s.Owned lost) {j : ScriptId} (hj : j < s.scripts.size)
    (hk : k < s.scripts.size) (hnone : s.requireOf? j = none) :
    Rearranged s (s.addRequire j) k s.commands.size (some (s.script j).block) := by
  have hfresh := command_of_size_le (Nat.le_refl s.commands.size)
  refine ⟨relocated_addRequire h hj, fun b hb e he => ?_, fun d hne => ?_, fun d _ hd => ?_,
    .inr fun hreq => ?_⟩
  · cases hb
    exact absurd he (h.block_ne (h.top j hj) e)
  · rw [command_addRequire, if_neg hne]
  · rw [block_addRequire h hj]
    split
    · next htop =>
        rw [top_injective h hj hk htop, hnone] at hd
        cases hd
    · exact (requireOf?_eq_some.1 hd).1
  · have := parent_of_requireOf? h hreq
    rw [hfresh] at this
    cases this

theorem requireFirst_addRequire (h : s.Owned lost) {j : ScriptId} (hj : j < s.scripts.size)
    (hk : k < s.scripts.size) (hnone : s.requireOf? j = none) (hfirst : s.RequireFirst k) :
    (s.addRequire j).RequireFirst k := by
  have hmove := Rearranged.ofAddRequire h hj hk hnone
  have hfresh : s.commands.size ∉ s.walkScript k :=
    not_mem_walkScript h (by rw [command_of_size_le (Nat.le_refl _)]; rfl)
  refine hmove.requireFirst hfirst ((hmove.onlyFront h hfirst.front fun _ _ _ => hfresh).2 ?_)
  rintro b hb hholds d hd -
  cases hb
  have hjk : (s.script k).block = (s.script j).block := by
    rcases hholds with htop | ⟨e, -, he⟩
    · exact htop.symm
    · exact absurd he (h.block_ne (h.top j hj) e)
  have hdc : d = s.commands.size := by
    rcases ReflTransGen.cases_tail hd with hdc | ⟨e, -, b, hb, -⟩
    · exact hdc.symm
    · rw [command_of_size_le (Nat.le_refl _)] at hb
      cases hb
  rw [hdc, block_addRequire h hj, if_pos hjk]
  rfl

def requireHead (s : Store) : Head Mark Value := ⟨.text "require", [], [], ⟨.nowhere, s.nextMark⟩⟩

theorem isBareRequire_requireHead (s : Store) : s.requireHead.isBareRequire = true := by
  have hkeyword : Keyword.ofName? "require" = some .require := by decide +kernel
  show (Keyword.ofName? "require" == some .require && true) = true
  rw [hkeyword]
  rfl

theorem requireOf?_addRequire (h : s.Owned lost) {j : ScriptId} (hj : j < s.scripts.size) :
    (s.addRequire j).requireOf? j = some s.commands.size := by
  refine requireOf?_eq_some.2 ⟨?_, ?_⟩
  · rw [show (s.addRequire j).script j = s.script j from rfl, block_addRequire h hj, if_pos rfl]
    rfl
  · rw [command_addRequire, if_pos rfl]
    exact isBareRequire_requireHead s

/-- A capability is declared once, and its script has a `require`. -/
theorem requireFirst_declare (h : s.Owned lost) {j : ScriptId} (hj : j < s.scripts.size)
    (hk : k < s.scripts.size) {name : String} {added : Bool}
    (hok : s.declare j name = .ok (added, s')) (hfirst : s.RequireFirst k) : s'.RequireFirst k := by
  rcases declare_ok hok with rfl | ⟨hholds, rfl⟩
  · exact hfirst
  have hnew := hasTwice_append (not_mem_of_holdsName hholds)
  have hopen : ∃ opened, (if (s.requireOf? j).isNone then s.addRequire j else s) = opened ∧
      opened.Owned lost ∧ opened.RequireFirst k ∧ (opened.requireOf? j).isSome = true ∧
      opened.scripts = s.scripts := by
    split
    · next hnone =>
        refine ⟨_, rfl, owned_addRequire h hj,
          requireFirst_addRequire h hj hk (by simpa using hnone) hfirst, ?_, rfl⟩
        rw [requireOf?_addRequire h hj]
        rfl
    · next hsome =>
        refine ⟨_, rfl, h, hfirst, ?_, rfl⟩
        simpa [Option.isSome_iff_ne_none] using hsome
  obtain ⟨opened, heq, hopened, hfirst, hsome, hscripts⟩ := hopen
  rw [heq]
  have hscript : opened.script k = s.script k := by rw [script, script, hscripts]
  have hcapabilities := script_modifyScript (hscripts ▸ hk) (fun cell =>
    { cell with capabilities := cell.capabilities ++ [.text (Text.trimmed name)] }) j
  have hsame := sameLinks_modifyCapabilities (s := opened) j fun capabilities =>
    capabilities ++ [.text (Text.trimmed name)]
  by_cases hkj : k = j
  · subst hkj
    rw [if_pos rfl, hscript] at hcapabilities
    refine ⟨hsame.onlyFront hopened (fun _ => rfl) hfirst.front, ?_, .inr ?_⟩
    · rw [hcapabilities, List.map_append]
      exact hnew.trans (hscript ▸ hfirst.distinct)
    · rw [hsame.requireOf? fun _ => rfl]
      exact hsome
  · rw [if_neg hkj] at hcapabilities
    exact hsame.requireFirst hopened (fun _ => rfl)
      (.inr (congrArg ScriptCell.capabilities hcapabilities)) hfirst

theorem requireFirst_declared (h : s.Owned lost) {j : ScriptId} (hj : j < s.scripts.size)
    (hk : k < s.scripts.size) (hall : Declared j s s') (hfirst : s.RequireFirst k) :
    s'.RequireFirst k := by
  have hkeeps := h.declared_keeps (P := fun s => k < s.scripts.size ∧ s.RequireFirst k) hj
    (fun h hj hok ⟨hk, hfirst⟩ =>
      ⟨(scripts_size_declare hok).symm ▸ hk, requireFirst_declare h hj hk hok hfirst⟩) hall
  exact (hkeeps ⟨hk, hfirst⟩).2

/-! ## Edits -/

/-- An edit puts a `require` without arguments elsewhere than at the front of a script: it is below a
command that comes, it comes itself to another place, or it loses its arguments where it stands. -/
def Edit.misplaces (s : Store) (k : ScriptId) : Edit → Prop
  | insert b _ c _ | append b c _ =>
    s.Holds k b ∧ ∃ d ∈ s.walk c, (s.command d).head.isBareRequire = true
  | move c b index _ =>
    s.Holds k b ∧ ∃ d ∈ s.walk c, (s.command d).head.isBareRequire = true ∧
      ¬ (d = c ∧ b = (s.script k).block ∧ slot index = .ok 0)
  | replace c arguments _ =>
    c ∈ s.walkScript k ∧ (s.command c).head.keyword? = some .require ∧ arguments = [] ∧
      (s.block (s.script k).block).commands.head? ≠ some c
  | remove _ | declare _ _ | requireAll _ _ | nameRule _ _ => False

/-- An edit that succeeds leaves the `require` first unless it misplaces one. -/
theorem keeps_result (h : s.Owned lost) (hk : k < s.scripts.size) {e : Edit} (hknown : e.known s)
    (hok : e.result s = .ok s') (hfirst : s.RequireFirst k) : s'.Keeps k (e.misplaces s k) := by
  have hkeeps : s'.RequireFirst k → s'.Keeps k False := fun hfirst' => ⟨fun _ => hfirst', nofun⟩
  cases e with
  | insert b index c limit => exact keeps_insert h hk hknown.1 hknown.2 (leaving_eq_ok.1 hok) hfirst
  | append b c limit => exact keeps_insert h hk hknown.1 hknown.2 (leaving_eq_ok.1 hok) hfirst
  | move c b index limit => exact keeps_move h hk hknown.1 hok hfirst
  | replace c arguments limit => exact keeps_replace h hk hknown (leaving_eq_ok.1 hok) hfirst
  | remove c => exact hkeeps (requireFirst_remove h hk (leaving_eq_ok.1 hok) hfirst)
  | declare j name =>
      obtain ⟨added, hdeclare⟩ := ok_of_declare_result hok
      exact hkeeps (requireFirst_declare h hknown hk hdeclare hfirst)
  | requireAll r j => exact hkeeps (requireFirst_declared h hknown hk (declared_of_result hok) hfirst)
  | nameRule c name => exact hkeeps (requireFirst_nameRule h hknown (leaving_eq_ok.1 hok) hfirst)

end MailFilter.Store
