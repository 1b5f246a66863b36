import MailFilter.Proofs.Store.Levels
import MailFilter.Proofs.Store.RequireFirst

/-!
# How deep commands nest

The levels of blocks and tests that a script takes.  A command that comes to a place takes its own levels
on top of those around the place, and nothing else of the script gets deeper.
-/

namespace MailFilter.Store

open Relation

variable {s s' : Store} {lost : List CommandId} {k : ScriptId} {b top : BlockId}
  {c d e : CommandId} {n m limit : Nat}
  {place : Option BlockId}

/-! ## Heights of commands -/

/-- A command is so many levels below another one. -/
inductive Deep (s : Store) (c : CommandId) : Nat → CommandId → Prop where
  | self : Deep s c 0 c
  | under {n : Nat} {d e : CommandId} (he : Deep s c n e) (hd : s.Below d e) : Deep s c (n + 1) d

def ownHeight (s : Store) (c : CommandId) : Nat :=
  max (Test.heightOf (s.command c).head.arguments) (if (s.command c).block.isSome then 1 else 0)

theorem Deep.reaches (hd : s.Deep c n d) : ReflTransGen s.Below d c := by
  induction hd with
  | self => exact .refl
  | under _ hd ih => exact .head hd ih

theorem Deep.above (hc : s.Below c e) (hd : s.Deep c n d) : s.Deep e (n + 1) d := by
  induction hd with
  | self => exact .under .self hc
  | under _ hd ih => exact .under ih hd

theorem Deep.cases_succ (hd : s.Deep c (n + 1) d) : ∃ e, s.Below e c ∧ s.Deep e n d := by
  obtain ⟨e, hec, hde⟩ : ∃ e, s.Deep c n e ∧ s.Below d e := by
    cases hd with
    | under he hd => exact ⟨_, he, hd⟩
  induction hec generalizing d with
  | self => exact ⟨d, hde, .self⟩
  | under hf hef ih =>
      obtain ⟨g, hg, hdeep⟩ := ih (.under hf hef) hef
      exact ⟨g, hg, .under hdeep hde⟩

theorem foldl_max_le {ns : List Nat} {a : Nat} :
    ns.foldl max a ≤ n ↔ a ≤ n ∧ ∀ i ∈ ns, i ≤ n := by
  induction ns generalizing a with
  | nil => simp
  | cons i ns ih =>
      rw [List.foldl_cons, ih, Nat.max_le, List.forall_mem_cons, and_assoc]

theorem heightTo_succ_le {depth : Nat} : s.heightTo (depth + 1) c ≤ limit ↔
    s.ownHeight c ≤ limit ∧ ∀ d, s.Below d c → 1 + s.heightTo depth d ≤ limit := by
  simp only [heightTo, ownHeight, Below]
  cases hblock : (s.command c).block with
  | none => simp
  | some b =>
      have hlist : 1 + ((s.block b).commands.map (s.heightTo depth)).foldl max 0 ≤ limit ↔
          1 ≤ limit ∧ ∀ d ∈ (s.block b).commands, 1 + s.heightTo depth d ≤ limit := by
        cases limit with
        | zero => exact iff_of_false (by omega) (by omega)
        | succ limit =>
            rw [Nat.add_comm, Nat.succ_le_succ_iff, foldl_max_le, List.forall_mem_map]
            refine and_congr (by omega) (forall₂_congr fun d _ => ?_)
            omega
      simp only [Nat.max_le, hlist, Option.isSome_some, if_true, and_assoc, Option.some.injEq]
      simp

theorem Deep.le_heightTo {depth : Nat} (hd : s.Deep c n d) (hdepth : n < depth) :
    n + s.ownHeight d ≤ s.heightTo depth c := by
  induction n generalizing c depth with
  | zero =>
      obtain ⟨depth, rfl⟩ := Nat.exists_eq_succ_of_ne_zero (Nat.ne_of_gt hdepth)
      cases hd with
      | self =>
          rw [Nat.zero_add]
          exact (heightTo_succ_le.1 (Nat.le_refl _)).1
  | succ n ih =>
      obtain ⟨depth, rfl⟩ := Nat.exists_eq_succ_of_ne_zero (Nat.ne_of_gt (Nat.zero_lt_of_lt hdepth))
      obtain ⟨e, he, hde⟩ := hd.cases_succ
      have hstep := (heightTo_succ_le.1 (Nat.le_refl (s.heightTo (depth + 1) c))).2 e he
      have := ih hde (Nat.lt_of_succ_lt_succ hdepth)
      simp only [Nat.succ_eq_add_one] at *
      omega

/-- Nothing below a command takes more levels than a number, those between them included. -/
def Within (s : Store) (c : CommandId) (limit : Nat) : Prop :=
  ∀ n d, s.Deep c n d → n + s.ownHeight d ≤ limit

theorem Within.mono (h : s.Within c n) (hle : n ≤ limit) : s.Within c limit :=
  fun m d hd => (h m d hd).trans hle

theorem Within.congr (h : s.Within c limit) (hsame : ∀ e, ReflTransGen s.Below e c →
    s'.command e = s.command e ∧
      ∀ b, (s.command e).block = some b → (s'.block b).commands = (s.block b).commands) :
    s'.Within c limit := by
  have hold : ∀ {n d}, s'.Deep c n d → s.Deep c n d := by
    intro n d hd
    induction hd with
    | self => exact .self
    | under _ hd ih =>
        obtain ⟨b, hblock, hdb⟩ := hd
        obtain ⟨hcommand, hlist⟩ := hsame _ ih.reaches
        rw [hcommand] at hblock
        rw [hlist b hblock] at hdb
        exact .under ih ⟨b, hblock, hdb⟩
  intro n d hd
  have := h n d (hold hd)
  rwa [ownHeight, (hsame d (hold hd).reaches).1]

theorem Grounded.card_of_deep (h : s.Grounded c) (hd : s.Deep c n d) : n ≤ (s.descendants c).card := by
  induction n generalizing c with
  | zero => exact Nat.zero_le _
  | succ n ih =>
      obtain ⟨e, he, hde⟩ := hd.cases_succ
      have := ih (h.below he) hde
      have := Finset.card_lt_card (h.descendants_ssubset he)
      omega

theorem Grounded.le_height (h : s.Grounded c) (hd : s.Deep c n d) :
    n + s.ownHeight d ≤ s.height c :=
  hd.le_heightTo ((h.card_of_deep hd).trans_lt h.card_descendants_lt)

theorem Within.heightTo_le (hwithin : s.Within c limit) (depth : Nat) :
    s.heightTo depth c ≤ limit := by
  induction depth generalizing c limit with
  | zero => exact Nat.zero_le _
  | succ depth ih =>
      refine heightTo_succ_le.2 ⟨by simpa using hwithin 0 c .self, fun d hd => ?_⟩
      -- One level is left for the block that the commands below are in.
      have hone := hwithin 1 d (.under .self hd)
      have hbelow : s.Within d (limit - 1) := by
        intro n e he
        have := hwithin (n + 1) e (he.above hd)
        omega
      have := ih hbelow
      omega

theorem Grounded.height_le (h : s.Grounded c) : s.height c ≤ limit ↔ s.Within c limit :=
  ⟨fun hle _ _ hd => (h.le_height hd).trans hle, fun hwithin => hwithin.heightTo_le _⟩

/-! ## Depths of scripts -/

/-- No command of a script takes more levels than a number, those around it included. -/
def Shallow (s : Store) (k : ScriptId) (limit : Nat) : Prop :=
  ∀ c ∈ (s.block (s.script k).block).commands, s.Within c limit

theorem Deep.level (h : s.Owned lost) (hc : c ∈ (s.block (s.script k).block).commands)
    (hd : s.Deep c n d) : ∃ b, (s.command d).parent = some b ∧ s.Level k n b := by
  induction hd with
  | self => exact ⟨_, h.parent_of_mem hc, .top⟩
  | under he hd ih =>
      obtain ⟨p, hparent, hp⟩ := ih
      obtain ⟨b, hblock, hdb⟩ := hd
      exact ⟨b, h.parent_of_mem hdb, .under (h.own _ b hblock) hparent hp⟩

/-- What is in a script after a command has another place was as deep before, or came with the
command and is deeper than its new place. -/
theorem Relocated.deep (hmove : Relocated s s' c place) (h : s.Owned lost)
    (hfree : ∀ b, place = some b → ∀ e, (s.command e).block = some b → ¬ ReflTransGen s.Below e c)
    (he : e ∈ (s'.block (s.script k).block).commands) (hd : s'.Deep e n d) :
    (∃ e ∈ (s.block (s.script k).block).commands, s.Deep e n d) ∨
      ∃ b m l, place = some b ∧ s.Level k l b ∧ s.Deep c m d ∧ n = l + m := by
  induction hd with
  | self =>
      rw [hmove.listed] at he
      split at he
      · next hec => exact .inr ⟨_, 0, 0, he, .top, hec ▸ .self, rfl⟩
      · exact .inl ⟨e, he, .self⟩
  | @under n d f hf hd ih =>
      obtain ⟨b, hblock, hdb⟩ := hd
      rw [hmove.block] at hblock
      rw [hmove.listed] at hdb
      rcases ih with ⟨g, hg, hgf⟩ | ⟨b', m, l, hplace, hlevel, hcf, rfl⟩
      · split at hdb
        · next hdc =>
            obtain ⟨p, hparent, hp⟩ := hgf.level h hg
            exact .inr ⟨b, 0, n + 1, hdb, .under (h.own f b hblock) hparent hp, hdc ▸ .self, rfl⟩
        · exact .inl ⟨g, hg, .under hgf ⟨b, hblock, hdb⟩⟩
      · split at hdb
        · exact absurd hcf.reaches (hfree b hdb f hblock)
        · exact .inr ⟨b', m + 1, l, hplace, hlevel, .under hcf ⟨b, hblock, hdb⟩, rfl⟩

theorem Relocated.shallow (hmove : Relocated s s' c place) (h : s.Owned lost)
    (hfree : ∀ b, place = some b → ∀ e, (s.command e).block = some b → ¬ ReflTransGen s.Below e c)
    (hown : ∀ d, s'.ownHeight d = s.ownHeight d)
    (hplace : ∀ b l, place = some b → s.Level k l b → ∀ m d, s.Deep c m d →
      l + m + s.ownHeight d ≤ limit) (hshallow : s.Shallow k limit) : s'.Shallow k limit := by
  intro e he n d hd
  rw [hmove.script] at he
  rw [hown]
  rcases hmove.deep h hfree he hd with ⟨f, hf, hfd⟩ | ⟨b, m, l, hb, hlevel, hcd, rfl⟩
  · exact hshallow f hf n d hfd
  · exact hplace b l hb hlevel m d hcd

theorem SameLinks.deep (hsame : SameLinks s s') (hd : s'.Deep c n d) : s.Deep c n d := by
  induction hd with
  | self => exact .self
  | under _ hd ih => exact .under ih (hsame.below_eq ▸ hd)

theorem SameLinks.shallow (hsame : SameLinks s s')
    (hown : ∀ c ∈ (s.block (s.script k).block).commands, ∀ n d, s.Deep c n d →
      n + s'.ownHeight d ≤ limit) : s'.Shallow k limit := by
  intro c hc n d hd
  rw [hsame.top, hsame.listed] at hc
  exact hown c hc n d (hsame.deep hd)

theorem ownHeight_congr (hblock : (s'.command c).block = (s.command c).block)
    (hhead : (s'.command c).head = (s.command c).head) : s'.ownHeight c = s.ownHeight c := by
  rw [ownHeight, ownHeight, hblock, hhead]

/-! ## Operations -/

theorem le_of_checkDepth {levels : Nat} {u : Unit}
    (hok : s.checkDepth levels c (.int limit) = .ok u) : levels ≤ limit := by
  unfold checkDepth at hok
  by_contra hlt
  have hcompare : (Value.int limit).compareInt? levels = some (some .lt) := by
    show some (some (compare (limit : Int) levels)) = _
    rw [Int.compare_eq_lt.2 (by omega)]
  rw [hcompare] at hok
  cases hok

theorem Relocated.shallow_of_checkDepth (hmove : Relocated s s' c (some b)) (h : s.Owned lost)
    (hk : k < s.scripts.size) (hc : c < s.commands.size)
    (houtside : s.holdsBlock c b = false)
    (hhead : ∀ d, (s'.command d).head = (s.command d).head)
    (hdepth : s.checkDepth (s.level b + s.height c) c (.int limit) = .ok ())
    (hshallow : s.Shallow k limit) : s'.Shallow k limit := by
  refine hmove.shallow h (fun b' hb' e he => ?_) (fun d => ownHeight_congr (hmove.block d) (hhead d))
    (fun b' l hb' hlevel m d hd => ?_) hshallow
  · cases hb'
    exact not_below_of_holdsBlock h hc houtside e he
  · cases hb'
    have hle := le_of_checkDepth hdepth
    rw [hlevel.level_eq (h.top k hk)] at hle
    have := (h.grounded hc).le_height hd
    omega

theorem shallow_insert (h : s.Owned lost) (hk : k < s.scripts.size) {index : Value}
    (hb : b < s.blocks.size) (hc : c < s.commands.size) (hok : s.insert b index c (.int limit) = .ok s')
    (hshallow : s.Shallow k limit) : s'.Shallow k limit := by
  obtain ⟨hmove, hhead⟩ := relocated_insert h hb hc hok
  obtain ⟨i, hchecked, -⟩ := insert_ok hok
  exact hmove.shallow_of_checkDepth h hk hc hchecked.outside hhead hchecked.depth hshallow

theorem shallow_remove (h : s.Owned lost) (hok : s.remove c = .ok s') (hshallow : s.Shallow k limit) :
    s'.Shallow k limit := by
  obtain ⟨b, -, hmem, rfl⟩ := remove_ok hok
  have hsame := sameLinks_forget (s := s) b c
  have hforgot : (s.forget b c).Shallow k limit := by
    refine hsame.shallow fun e he n d hd => ?_
    rw [ownHeight_congr (hsame.block d) (congrArg CommandCell.head (command_forget d))]
    exact hshallow e he n d hd
  have hmove := relocated_unlist (h.sameLinks hsame) (hsame.listed b ▸ hmem)
  refine hmove.shallow (h.sameLinks hsame) nofun (fun d => ownHeight_congr (hmove.block d) ?_) nofun
    hforgot
  exact head_modifyParent (s := (s.forget b c).unlist b c) c none d

theorem shallow_unlist (h : s.Owned lost) (hmem : c ∈ (s.block b).commands)
    (hshallow : s.Shallow k limit) : (s.unlist b c).Shallow k limit := by
  have hold : ∀ {e n d}, (s.unlist b c).Deep e n d → s.Deep e n d := by
    intro e n d hd
    induction hd with
    | self => exact .self
    | under _ hd ih => exact .under ih (below_unlist h hmem hd)
  exact fun e he n d hd => hshallow e ((mem_unlist h hmem e _).1 he).2 n d (hold hd)

theorem shallow_replace (h : s.Owned lost) (hk : k < s.scripts.size) (hc : c < s.commands.size)
    {arguments : List (Argument Mark Value)} (hok : s.replace c arguments (.int limit) = .ok s')
    (hshallow : s.Shallow k limit) : s'.Shallow k limit := by
  obtain ⟨hchecked, rfl⟩ := replace_ok hok
  have hcommand := fun d => command_modifyCommand s c d
    (fun cell => { cell with head := { cell.head with arguments } }) hc
  refine (sameLinks_modifyHead (s := s) c fun head => { head with arguments }).shallow
    fun e he n d hd => ?_
  have hold := hshallow e he n d hd
  rw [ownHeight, hcommand]
  split
  · next hdc =>
      subst hdc
      obtain ⟨b, hparent, hlevel⟩ := hd.level h he
      have hdepth := hchecked.depth
      rw [hparent, Option.map_some, Option.getD_some, hlevel.level_eq (h.top k hk)] at hdepth
      have := le_of_checkDepth hdepth
      simp only [ownHeight] at hold
      simp only
      omega
  · exact hold

theorem shallow_nameRule (hc : c < s.commands.size) {name : Option Value}
    (hok : s.nameRule c name = .ok s') (hshallow : s.Shallow k limit) : s'.Shallow k limit := by
  obtain ⟨comments, -, rfl⟩ := nameRule_ok hok
  refine (sameLinks_modifyHead c fun head => { head with comments }).shallow fun e he n d hd => ?_
  rw [ownHeight, command_modifyCommand s c d _ hc]
  have := hshallow e he n d hd
  split
  · exact this
  · exact this

theorem shallow_addRequire (h : s.Owned lost) {j : ScriptId} (hj : j < s.scripts.size)
    (hshallow : s.Shallow k limit) : (s.addRequire j).Shallow k limit := by
  have hnew := command_of_size_le (Nat.le_refl s.commands.size)
  have hnone : ∀ d, ¬ s.Below d s.commands.size := by
    rintro d ⟨b, hblock, -⟩
    exact Nat.lt_irrefl _ (lt_of_block hblock)
  refine (relocated_addRequire h hj).shallow h (fun b hb e he => ?_) (fun d => ?_)
    (fun b l hb hlevel m d hd => ?_) hshallow
  · cases hb
    exact absurd he (h.block_ne (h.top j hj) e)
  · by_cases hd : d = s.commands.size
    · subst hd
      rw [ownHeight, ownHeight, command_addRequire, if_pos rfl, hnew]
      rfl
    · rw [ownHeight, ownHeight, command_addRequire, if_neg hd]
  · cases hb
    cases m with
    | succ m =>
        obtain ⟨e, he, -⟩ := hd.cases_succ
        exact absurd he (hnone e)
    | zero =>
        cases hd
        have hown : s.ownHeight s.commands.size = 0 := by
          rw [ownHeight, hnew]
          rfl
        rw [hlevel.eq_zero (h.top j hj), hown]
        exact Nat.zero_le _

theorem shallow_declare (h : s.Owned lost) {j : ScriptId} (hj : j < s.scripts.size) {name : String}
    {added : Bool} (hok : s.declare j name = .ok (added, s'))
    (hshallow : s.Shallow k limit) : s'.Shallow k limit := by
  rcases declare_ok hok with rfl | ⟨-, rfl⟩
  · exact hshallow
  · have hrequire : (if (s.requireOf? j).isNone then s.addRequire j else s).Shallow k limit := by
      split
      · exact shallow_addRequire h hj hshallow
      · exact hshallow
    generalize (if (s.requireOf? j).isNone then s.addRequire j else s) = opened at hrequire ⊢
    have hsame := sameLinks_modifyCapabilities (s := opened) j fun capabilities =>
      capabilities ++ [.text (Text.trimmed name)]
    refine hsame.shallow fun e he n d hd => ?_
    exact (congrArg (n + ·) (ownHeight_congr rfl rfl)).trans_le (hrequire e he n d hd)

theorem shallow_declared (h : s.Owned lost) {j : ScriptId} (hj : j < s.scripts.size)
    (hall : Declared j s s') (hshallow : s.Shallow k limit) : s'.Shallow k limit :=
  h.declared_keeps (P := (·.Shallow k limit)) hj (fun h hj hok => shallow_declare h hj hok) hall
    hshallow

/-- An edit within a limit leaves a script within it. -/
theorem shallow_result (h : s.Owned lost) (hk : k < s.scripts.size) {e : Edit} (hknown : e.known s)
    (hlimit : ∀ l ∈ e.limit?, l = .int limit) (hok : e.result s = .ok s')
    (hshallow : s.Shallow k limit) : s'.Shallow k limit := by
  cases e with
  | insert b index c limit' =>
      obtain rfl := hlimit limit' rfl
      exact shallow_insert h hk hknown.1 hknown.2 (leaving_eq_ok.1 hok) hshallow
  | append b c limit' =>
      obtain rfl := hlimit limit' rfl
      exact shallow_insert h hk hknown.1 hknown.2 (leaving_eq_ok.1 hok) hshallow
  | remove c => exact shallow_remove h (leaving_eq_ok.1 hok) hshallow
  | replace c arguments limit' =>
      obtain rfl := hlimit limit' rfl
      exact shallow_replace h hk hknown (leaving_eq_ok.1 hok) hshallow
  | move c b index limit' =>
      obtain rfl := hlimit limit' rfl
      obtain ⟨source, i, hchecked, rfl⟩ := move_ok hok
      have hc := lt_of_parent hchecked.parent
      exact (hchecked.relocated h hknown.1).shallow_of_checkDepth h hk hc hchecked.outside
        head_move hchecked.depth hshallow
  | declare j name =>
      obtain ⟨added, hdeclare⟩ := ok_of_declare_result hok
      exact shallow_declare h hknown hdeclare hshallow
  | requireAll r j => exact shallow_declared h hknown (declared_of_result hok) hshallow
  | nameRule c name => exact shallow_nameRule hknown (leaving_eq_ok.1 hok) hshallow

theorem shallow_leads (h : s.Owned lost) (hk : k < s.scripts.size) {e : Edit} (hleads : e.Leads s s')
    (hlimit : ∀ l ∈ e.limit?, l = .int limit) (hshallow : s.Shallow k limit) : s'.Shallow k limit := by
  cases hleads with
  | same => exact hshallow
  | ok hknown hok => exact shallow_result h hk hknown hlimit hok hshallow
  | stranded _ hmem _ => exact shallow_unlist h hmem hshallow
  | declared hj hall => exact shallow_declared h hj hall hshallow

end MailFilter.Store
