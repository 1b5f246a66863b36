import MailFilter.Proofs.Result
import MailFilter.Store.Edit

/-!
# What operations do

One lemma for each operation says what has been checked where it succeeds, and which store it gives.
-/

namespace MailFilter.Store

variable {s s' : Store}

/-! ## Checks -/

theorem fit_of_fitting {fit : Fit} (hok : fitting fit = .ok ()) : fit = .ok () := by
  cases fit with
  | error e => cases hok
  | ok u => rfl

theorem refuseIf_eq_ok {condition : Bool} {reason : Refusal} {c : CommandId} {u : Unit} :
    s.refuseIf condition reason c = .ok u ↔ condition = false := by
  cases condition with
  | true => exact iff_of_false nofun nofun
  | false => exact iff_of_true rfl rfl

theorem refuseIf_ok {condition : Bool} {reason : Refusal} {c : CommandId} {u : Unit}
    (h : s.refuseIf condition reason c = .ok u) : condition = false :=
  refuseIf_eq_ok.1 h

@[simp] theorem leaving_eq_ok {α : Type} {x : Except EditError α} {a : α} :
    s.leaving x = .ok a ↔ x = .ok a := by
  cases x with
  | error e => exact iff_of_false nofun nofun
  | ok b => exact ⟨fun h => congrArg _ (Except.ok.inj h), fun h => congrArg _ (Except.ok.inj h)⟩

theorem leaving_eq_error {α : Type} {x : Except EditError α} {f : Failure} :
    s.leaving x = .error f ↔ x = .error f.error ∧ f.store = s := by
  refine mapError_eq_error.trans ⟨?_, fun ⟨hx, hs⟩ => ⟨_, hx, by rw [← hs]⟩⟩
  rintro ⟨e, he, rfl⟩
  exact ⟨he, rfl⟩

theorem compareInt?_of_slot {index : Value} {i : Nat} (hslot : slot index = .ok i) :
    ∃ n : Int, i = n.toNat ∧ ∀ m : Int, index.compareInt? m = some (some (compare n m)) := by
  unfold slot at hslot
  split at hslot
  · next n =>
      cases hslot
      exact ⟨n, rfl, fun _ => rfl⟩
  · next b =>
      cases hslot
      refine ⟨if b then 1 else 0, ?_, fun _ => rfl⟩
      cases b <;> rfl
  · cases hslot

theorem checkIndex_eq_ok {index : Value} {size i : Nat} {c : CommandId} {u : Unit}
    (hslot : slot index = .ok i) : s.checkIndex index size c = .ok u ↔
      i ≤ size ∧ (index.compareInt? 0 = some (some .eq) ↔ i = 0) := by
  obtain ⟨n, rfl, hcompare⟩ := compareInt?_of_slot hslot
  unfold checkIndex
  rw [hcompare, hcompare]
  refine refuseIf_eq_ok.trans ?_
  simp only [Bool.not_eq_false', Bool.and_eq_true, Bool.or_eq_true, beq_iff_eq, Option.some.injEq,
    Int.compare_eq_gt, Int.compare_eq_lt, Int.compare_eq_eq]
  omega

theorem slot_inside {index : Value} {size i : Nat} {c : CommandId} {u : Unit}
    (hcheck : s.checkIndex index size c = .ok u) (hslot : slot index = .ok i) :
    i ≤ size ∧ (index.compareInt? 0 = some (some .eq) ↔ i = 0) :=
  (checkIndex_eq_ok hslot).1 hcheck

theorem isListed_iff {c : CommandId} :
    s.isListed c = true ↔ ∃ b, (s.command c).parent = some b ∧ c ∈ (s.block b).commands := by
  unfold isListed
  cases (s.command c).parent with
  | none => exact iff_of_false nofun nofun
  | some b => simp

theorem parent_of_isListed {c : CommandId} (h : s.isListed c = true) :
    ∃ b, (s.command c).parent = some b ∧ c ∈ (s.block b).commands :=
  isListed_iff.1 h

/-! ## Operations -/

/-- What has been checked before a command is inserted at a place. -/
structure InsertChecked (s : Store) (b : BlockId) (index : Value) (c : CommandId) (limit : Value)
    (i : Nat) : Prop where
  unlisted : (s.command c).parent = none
  outside : s.holdsBlock c b = false
  detached : s.checkDetached b c = .ok ()
  proper : s.checkArguments c (s.command c).head.arguments = .ok ()
  depth : s.checkDepth (s.level b + s.height c) c limit = .ok ()
  keyword : ((s.command c).head.keyword? == some .require) = false
  front : s.checkRequireSlot b index c = .ok ()
  place : slot index = .ok i
  inside : i ≤ (s.block b).commands.length
  first : index.compareInt? 0 = some (some .eq) ↔ i = 0

/-- An insertion succeeds exactly if all checks pass, and a block that comes is owned by its command. -/
theorem insert_eq_ok {b : BlockId} {index : Value} {c : CommandId} {limit : Value} :
    s.insert b index c limit = .ok s' ↔ ∃ i, s.InsertChecked b index c limit i ∧
      (s.command c).head.name.fitName = .ok () ∧ s' = match (s.command c).block with
        | some own => (s.list b i c).modifyBlock own ({ · with owner := some (.command c) })
        | none => s.list b i c := by
  unfold insert
  constructor
  · intro hok
    obtain ⟨_, hparent, hok⟩ := ok_of_bind hok
    obtain ⟨_, houtside, hok⟩ := ok_of_bind hok
    obtain ⟨_, hdetached, hok⟩ := ok_of_bind hok
    obtain ⟨_, hindex, hok⟩ := ok_of_bind hok
    obtain ⟨_, hname, hok⟩ := ok_of_bind hok
    obtain ⟨_, hkeyword, hok⟩ := ok_of_bind hok
    obtain ⟨_, harguments, hok⟩ := ok_of_bind hok
    obtain ⟨_, hfront, hok⟩ := ok_of_bind hok
    obtain ⟨_, hdepth, hok⟩ := ok_of_bind hok
    obtain ⟨i, hslot, hok⟩ := ok_of_bind hok
    refine ⟨i, ⟨by simpa using refuseIf_ok hparent, refuseIf_ok houtside, hdetached, harguments, hdepth,
      refuseIf_ok hkeyword, hfront, hslot, (slot_inside hindex hslot).1,
      (slot_inside hindex hslot).2⟩, fit_of_fitting hname, ?_⟩
    cases hblock : (s.command c).block with
    | none =>
        rw [hblock] at hok
        exact (Except.ok.inj hok).symm
    | some own =>
        rw [hblock] at hok
        exact (Except.ok.inj hok).symm
  · rintro ⟨i, hchecked, hname, rfl⟩
    have hunlisted : (s.command c).parent.isSome = false := by rw [hchecked.unlisted]; rfl
    have hindex : s.checkIndex index (s.block b).commands.length c = .ok () :=
      (checkIndex_eq_ok hchecked.place).2 ⟨hchecked.inside, hchecked.first⟩
    simp only [refuseIf, hunlisted, hchecked.outside, hchecked.detached, hindex, hname,
      hchecked.keyword, hchecked.proper, hchecked.front, hchecked.depth, hchecked.place,
      Bool.false_eq_true, if_false]
    cases (s.command c).block <;> rfl

theorem insert_ok {b : BlockId} {index : Value} {c : CommandId} {limit : Value}
    (hok : s.insert b index c limit = .ok s') :
    ∃ i, s.InsertChecked b index c limit i ∧ s' = match (s.command c).block with
      | some own => (s.list b i c).modifyBlock own ({ · with owner := some (.command c) })
      | none => s.list b i c := by
  obtain ⟨i, hchecked, -, hs'⟩ := insert_eq_ok.1 hok
  exact ⟨i, hchecked, hs'⟩

/-- The store without the capabilities that go with the command they belong to. -/
def forget (s : Store) (b : BlockId) (c : CommandId) : Store :=
  match s.scriptOf? b with
  | some k => if s.requireOf? k == some c then s.modifyScript k ({ · with capabilities := [] }) else s
  | none => s

theorem remove_eq_ok {c : CommandId} : s.remove c = .ok s' ↔
    ∃ b, (s.command c).parent = some b ∧ c ∈ (s.block b).commands ∧ s.checkScriptFront b = .ok () ∧
      s' = ((s.forget b c).unlist b c).modifyCommand c ({ · with parent := none }) := by
  unfold remove
  constructor
  · intro hok
    obtain ⟨_, hlisted, hok⟩ := ok_of_bind hok
    obtain ⟨b, hparent, hmem⟩ := parent_of_isListed (by simpa using refuseIf_ok hlisted)
    rw [hparent] at hok
    obtain ⟨_, hfront, hok⟩ := ok_of_bind hok
    exact ⟨b, hparent, hmem, hfront, (Except.ok.inj hok).symm⟩
  · rintro ⟨b, hparent, hmem, hfront, rfl⟩
    have hlisted := isListed_iff.2 ⟨b, hparent, hmem⟩
    simp only [refuseIf, hlisted, hparent, hfront, Bool.not_true, Bool.false_eq_true, if_false]
    rfl

theorem remove_ok {c : CommandId} (hok : s.remove c = .ok s') :
    ∃ b, (s.command c).parent = some b ∧ c ∈ (s.block b).commands ∧
      s' = ((s.forget b c).unlist b c).modifyCommand c ({ · with parent := none }) := by
  obtain ⟨b, hparent, hmem, -, hs'⟩ := remove_eq_ok.1 hok
  exact ⟨b, hparent, hmem, hs'⟩

/-- The commands whose tests a command may not have among its arguments. -/
def others (s : Store) (c : CommandId) : List CommandId :=
  match (s.command c).parent.bind s.scriptOf? with
  | some k => (s.walkScript k).filter (· != c)
  | none => []

/-- What has been checked before a command gets other arguments. -/
structure ReplaceChecked (s : Store) (c : CommandId) (arguments : List (Argument Mark Value))
    (limit : Value) : Prop where
  keeps : (s.command c).parent.any (s.isRequireOf · c) = false
  proper : s.checkArguments c arguments = .ok ()
  unused : ∀ t ∈ arguments.filterMap Argument.test?,
    s.checkUnused c (s.testIdsOf (s.others c)) t t.items = .ok ()
  depth : s.checkDepth (((s.command c).parent.map s.level).getD 0 + Test.heightOf arguments) c limit =
    .ok ()

theorem replace_ok {c : CommandId} {arguments : List (Argument Mark Value)} {limit : Value}
    (hok : s.replace c arguments limit = .ok s') :
    s.ReplaceChecked c arguments limit ∧
      s' = s.modifyCommand c fun cell => { cell with head := { cell.head with arguments } } := by
  unfold replace at hok
  obtain ⟨_, _, hok⟩ := ok_of_bind hok
  obtain ⟨_, hrequire, hok⟩ := ok_of_bind hok
  obtain ⟨_, harguments, hok⟩ := ok_of_bind hok
  obtain ⟨_, _, hok⟩ := ok_of_bind hok
  obtain ⟨_, hunused, hok⟩ := ok_of_bind hok
  obtain ⟨_, _, hok⟩ := ok_of_bind hok
  obtain ⟨_, hdepth, hok⟩ := ok_of_bind hok
  exact ⟨⟨refuseIf_ok hrequire, harguments, forM_eq_ok.1 hunused, hdepth⟩, (Except.ok.inj hok).symm⟩

/-- What has been checked before a command moves from a block to a place. -/
structure MoveChecked (s : Store) (c : CommandId) (source b : BlockId) (index limit : Value)
    (i : Nat) : Prop where
  parent : (s.command c).parent = some source
  listed : c ∈ (s.block source).commands
  outside : s.holdsBlock c b = false
  keeps : s.isRequireOf source c = false
  front : s.checkRequireSlot b index c = .ok ()
  depth : s.checkDepth (s.level b + s.height c) c limit = .ok ()
  place : slot index = .ok i
  inside : i ≤ (s.block b).commands.length - if b == source then 1 else 0
  first : index.compareInt? 0 = some (some .eq) ↔ i = 0

theorem checkMove_eq_ok {c : CommandId} {source b : BlockId} {index limit : Value} :
    s.checkMove c source b index limit = .ok () ↔ s.holdsBlock c b = false ∧
      s.checkScriptFront source = .ok () ∧ s.isRequireOf source c = false ∧
      s.checkIndex index ((s.block b).commands.length - if b == source then 1 else 0) c = .ok () ∧
      s.checkRequireSlot b index c = .ok () ∧ s.checkItems (s.walk c) = .ok () ∧
      s.checkDepth (s.level b + s.height c) c limit = .ok () := by
  simp only [checkMove, check_bind_eq_ok, refuseIf_eq_ok]

theorem move_of_parent {c : CommandId} {source b : BlockId} {index limit : Value}
    (hparent : (s.command c).parent = some source) (hmem : c ∈ (s.block source).commands) :
    s.move c b index limit = (s.leaving (s.checkMove c source b index limit) >>= fun _ =>
      (s.unlist source c).leaving (slot index) >>= fun i => .ok ((s.unlist source c).list b i c)) := by
  have hlisted := isListed_iff.2 ⟨source, hparent, hmem⟩
  unfold move
  rw [hlisted, hparent]
  rfl

/-- A move succeeds exactly if all checks pass. -/
theorem move_eq_ok {c : CommandId} {b : BlockId} {index limit : Value} :
    s.move c b index limit = .ok s' ↔ ∃ source i, s.MoveChecked c source b index limit i ∧
      s.checkScriptFront source = .ok () ∧ s.checkItems (s.walk c) = .ok () ∧
      s' = (s.unlist source c).list b i c := by
  constructor
  · intro hok
    obtain ⟨source, hparent, hmem⟩ : ∃ source, (s.command c).parent = some source ∧
        c ∈ (s.block source).commands := by
      obtain ⟨_, hlisted, -⟩ := ok_of_bind hok
      exact parent_of_isListed (by simpa using refuseIf_ok (leaving_eq_ok.1 hlisted))
    rw [move_of_parent hparent hmem] at hok
    obtain ⟨_, hchecked, hok⟩ := ok_of_bind hok
    obtain ⟨i, hslot, hok⟩ := ok_of_bind hok
    obtain ⟨houtside, hfirst, hkeeps, hindex, hfront, hitems, hdepth⟩ :=
      checkMove_eq_ok.1 (leaving_eq_ok.1 hchecked)
    have hslot := leaving_eq_ok.1 hslot
    exact ⟨source, i, ⟨hparent, hmem, houtside, hkeeps, hfront, hdepth, hslot,
      (slot_inside hindex hslot).1, (slot_inside hindex hslot).2⟩, hfirst, hitems,
      (Except.ok.inj hok).symm⟩
  · rintro ⟨source, i, hchecked, hfirst, hitems, rfl⟩
    have hindex : s.checkIndex index ((s.block b).commands.length - if b == source then 1 else 0) c =
        .ok () := (checkIndex_eq_ok hchecked.place).2 ⟨hchecked.inside, hchecked.first⟩
    rw [move_of_parent hchecked.parent hchecked.listed, checkMove_eq_ok.2 ⟨hchecked.outside, hfirst,
      hchecked.keeps, hindex, hchecked.front, hitems, hchecked.depth⟩, hchecked.place]
    rfl

theorem move_ok {c : CommandId} {b : BlockId} {index limit : Value}
    (hok : s.move c b index limit = .ok s') :
    ∃ source i, s.MoveChecked c source b index limit i ∧ s' = (s.unlist source c).list b i c := by
  obtain ⟨source, i, hchecked, -, -, hs'⟩ := move_eq_ok.1 hok
  exact ⟨source, i, hchecked, hs'⟩

/-- A move passes its checks, but its index is a floating point number, so the command is in no block at
the end. -/
def Strands (s : Store) (c : CommandId) (b : BlockId) (index limit : Value) : Prop :=
  ∃ source ∈ (s.command c).parent, c ∈ (s.block source).commands ∧
    (s.checkMove c source b index limit).isOk = true ∧ (slot index).isOk = false

instance (s : Store) (c : CommandId) (b : BlockId) (index limit : Value) :
    Decidable (s.Strands c b index limit) := by
  unfold Strands
  infer_instance

/-- A move that fails leaves the store as it is, unless it strands its command. -/
theorem store_of_move {c : CommandId} {b : BlockId} {index limit : Value} {f : Failure}
    (hfail : s.move c b index limit = .error f) : f.store = s ∧ ¬ s.Strands c b index limit ∨
      s.Strands c b index limit ∧ ∃ source, (s.command c).parent = some source ∧
        c ∈ (s.block source).commands ∧ s.isRequireOf source c = false ∧
        f.store = s.unlist source c := by
  cases hlisted : s.isListed c with
  | false =>
      have hno : ∀ source, (s.command c).parent = some source → c ∉ (s.block source).commands := by
        intro source hparent hmem
        rw [isListed_iff.2 ⟨source, hparent, hmem⟩] at hlisted
        cases hlisted
      unfold move at hfail
      rw [hlisted] at hfail
      cases hfail
      exact .inl ⟨rfl, fun ⟨source, hparent, hmem, _⟩ => hno source hparent hmem⟩
  | true =>
      obtain ⟨source, hparent, hmem⟩ := parent_of_isListed hlisted
      rw [move_of_parent hparent hmem] at hfail
      cases hchecked : s.checkMove c source b index limit with
      | error e =>
          rw [hchecked] at hfail
          cases hfail
          refine .inl ⟨rfl, fun ⟨source', hparent', _, hok, _⟩ => ?_⟩
          cases hparent.symm.trans hparent'
          rw [hchecked] at hok
          cases hok
      | ok u =>
          obtain ⟨-, -, hkeeps, -⟩ := checkMove_eq_ok.1 hchecked
          rw [hchecked] at hfail
          cases hslot : slot index with
          | ok i =>
              rw [hslot] at hfail
              cases hfail
          | error e =>
              rw [hslot] at hfail
              cases hfail
              exact .inr ⟨⟨source, hparent, hmem, by rw [hchecked]; rfl, by rw [hslot]; rfl⟩, source,
                hparent, hmem, hkeeps, rfl⟩

section Declare

variable {k : ScriptId} {name : String} {added : Bool}

def tops (s : Store) (k : ScriptId) : List (Head Mark Value) :=
  (s.block (s.script k).block).commands.map fun c => (s.command c).head

/-- Capabilities can be declared: the first command of the script is not a `require` that has arguments
of its own. -/
def Open (s : Store) (k : ScriptId) : Prop :=
  ∀ h ∈ (s.tops k).head?, h.name.fitName = .ok () ∧
    (h.keyword? = some .require → h.isBareRequire = true)

/-- The script with one more capability. -/
def declaring (s : Store) (k : ScriptId) (name : String) : Store :=
  (if (s.requireOf? k).isNone then s.addRequire k else s).modifyScript k fun cell =>
    { cell with capabilities := cell.capabilities ++ [.text name] }

theorem open_of_declare (hok : s.declare k name = .ok (added, s')) :
    (Text.trimmed name).isEmpty = false ∧ s.Open k := by
  unfold declare checkFront requireOf? at hok
  dsimp only at hok
  split at hok
  · cases hok
  next hname =>
  obtain ⟨_, hfront, hok⟩ := ok_of_bind hok
  refine ⟨by simpa using hname, fun head hhead => ?_⟩
  rw [tops, List.head?_map] at hhead
  obtain ⟨c, hc, rfl⟩ := Option.map_eq_some_iff.1 hhead
  obtain ⟨ids, hids⟩ := List.head?_eq_some_iff.1 hc
  rw [hids] at hfront hok
  obtain ⟨_, hrefuse, -⟩ := ok_of_bind hok
  have hrefuse := refuseIf_ok hrefuse
  rw [List.head?_cons, Option.filter_some] at hrefuse
  refine ⟨fit_of_fitting hfront, fun hrequire => ?_⟩
  cases hbare : (s.command c).head.isBareRequire with
  | true => rfl
  | false => simp [hbare, hrequire] at hrefuse

/-- Where a script is open, a name that it declares in any letter case changes nothing, and another one
is declared. -/
theorem declare_of_open (hname : (Text.trimmed name).isEmpty = false) (hopen : s.Open k) :
    s.declare k name = (fitting? (holdsName (Text.trimmed name) (s.script k).capabilities) >>=
      fun held => .ok (if held then (false, s) else (true, s.declaring k (Text.trimmed name)))) := by
  have hrest : (do
      let held ← fitting? (holdsName (Text.trimmed name) (s.script k).capabilities)
      if held then pure (false, s) else pure (true, s.declaring k (Text.trimmed name))) =
      (fitting? (holdsName (Text.trimmed name) (s.script k).capabilities) >>=
        fun held => (.ok (if held then (false, s) else (true, s.declaring k (Text.trimmed name))) :
          Except EditError _)) := by
    refine bind_congr fun held => ?_
    cases held <;> rfl
  have hfirst : ∀ c ∈ (s.block (s.script k).block).commands.head?,
      (s.command c).head.name.fitName = .ok () ∧
        ((s.requireOf? k).isNone && (s.command c).head.keyword? == some .require) = false := by
    intro c hc
    have hhead : (s.command c).head ∈ (s.tops k).head? := by
      rw [tops, List.head?_map, hc]
      rfl
    obtain ⟨hfit, hbare⟩ := hopen _ hhead
    refine ⟨hfit, ?_⟩
    rw [requireOf?, hc, Option.filter_some]
    by_cases hrequire : (s.command c).head.keyword? = some .require
    · simp [hbare hrequire]
    · simp [hrequire]
  rw [← hrest]
  unfold declare checkFront
  dsimp only
  rw [hname]
  cases hids : (s.block (s.script k).block).commands with
  | nil => rfl
  | cons c ids =>
      rw [hids] at hfirst
      obtain ⟨hfit, hrefuse⟩ := hfirst c rfl
      show (fitting (s.command c).head.name.fitName >>= fun _ => s.refuseIf
        ((s.requireOf? k).isNone && (s.command c).head.keyword? == some .require) .otherRequire c >>=
          _) = _
      rw [hfit, hrefuse]
      rfl

theorem declare_eq_ok : s.declare k name = .ok (added, s') ↔
    (Text.trimmed name).isEmpty = false ∧ s.Open k ∧
      holdsName (Text.trimmed name) (s.script k).capabilities = .ok (!added) ∧
      s' = if added then s.declaring k (Text.trimmed name) else s := by
  constructor
  · intro hok
    obtain ⟨hname, hopen⟩ := open_of_declare hok
    refine ⟨hname, hopen, ?_⟩
    rw [declare_of_open hname hopen] at hok
    obtain ⟨held, hheld, hok⟩ := ok_of_bind hok
    cases hholds : holdsName (Text.trimmed name) (s.script k).capabilities with
    | error e =>
        rw [hholds] at hheld
        cases hheld
    | ok _ =>
        rw [hholds] at hheld
        cases hheld
        cases held <;> cases hok <;> exact ⟨rfl, rfl⟩
  · rintro ⟨hname, hopen, hholds, rfl⟩
    rw [declare_of_open hname hopen, hholds]
    cases added <;> rfl

theorem declare_ok (hok : s.declare k name = .ok (added, s')) :
    s' = s ∨ holdsName (Text.trimmed name) (s.script k).capabilities = .ok false ∧
      s' = (if (s.requireOf? k).isNone then s.addRequire k else s).modifyScript k fun cell =>
        { cell with capabilities := cell.capabilities ++ [.text (Text.trimmed name)] } := by
  obtain ⟨-, -, hholds, rfl⟩ := declare_eq_ok.1 hok
  cases added with
  | false => exact .inl rfl
  | true => exact .inr ⟨hholds, rfl⟩

end Declare

/-- Some names have been declared in a script, one after the other. -/
inductive Declared (k : ScriptId) : Store → Store → Prop where
  | nil {s : Store} : Declared k s s
  | cons {s s₁ s' : Store} {name : String} {added : Bool} (hfirst : s.declare k name = .ok (added, s₁))
      (hrest : Declared k s₁ s') : Declared k s s'

theorem Declared.keeps {k : ScriptId} {P : Store → Prop} (hall : Declared k s s')
    (hstep : ∀ {s s' : Store} {name : String} {added : Bool}, s.declare k name = .ok (added, s') →
      P s → P s') (hs : P s) : P s' := by
  induction hall with
  | nil => exact hs
  | cons hfirst _ ih => exact ih (hstep hfirst hs)

theorem declared_of_declareAll {k : ScriptId} {names added : List String}
    (hok : s.declareAll k names = .ok (added, s')) : Declared k s s' := by
  induction names generalizing s added with
  | nil =>
      cases hok
      exact .nil
  | cons name names ih =>
      obtain ⟨⟨_, s₁⟩, hdeclare, hok⟩ := ok_of_bind hok
      obtain ⟨⟨_, s₂⟩, hrest, hok⟩ := ok_of_bind hok
      cases hok
      exact .cons (leaving_eq_ok.1 hdeclare) (ih hrest)

theorem declared_of_declareAll_error {k : ScriptId} {names : List String} {f : Failure}
    (hfail : s.declareAll k names = .error f) : Declared k s f.store := by
  induction names generalizing s with
  | nil => cases hfail
  | cons name names ih =>
      rw [declareAll] at hfail
      cases hdeclare : s.declare k name with
      | error e =>
          rw [hdeclare] at hfail
          cases hfail
          exact .nil
      | ok result =>
          obtain ⟨added, s₁⟩ := result
          rw [hdeclare] at hfail
          exact .cons hdeclare (ih (bind_ok_eq_error.1 hfail))

theorem declared_of_requireAll {r : Registry} {k : ScriptId} {added : List String}
    (hok : s.requireAll r k = .ok (added, s')) : Declared k s s' := by
  obtain ⟨_, _, hok⟩ := ok_of_bind hok
  exact declared_of_declareAll hok

theorem declared_of_requireAll_error {r : Registry} {k : ScriptId} {f : Failure}
    (hfail : s.requireAll r k = .error f) : Declared k s f.store := by
  unfold requireAll at hfail
  cases huses : s.checkUses r k with
  | error e =>
      rw [huses] at hfail
      cases hfail
      exact .nil
  | ok u =>
      rw [huses] at hfail
      exact declared_of_declareAll_error hfail

theorem nameRule_ok {c : CommandId} {name : Option Value} (hok : s.nameRule c name = .ok s') :
    ∃ comments : List (Comment Value),
      comments = ((s.command c).head.comments.filter fun m => m.ruleName?.isNone) ++
        (name.map ruleComment).toList ∧
      s' = s.modifyCommand c fun cell => { cell with head := { cell.head with comments } } := by
  unfold nameRule at hok
  cases name with
  | none =>
      obtain ⟨_, _, hok⟩ := ok_of_bind hok
      exact ⟨_, rfl, (Except.ok.inj hok).symm⟩
  | some v =>
      obtain ⟨_, _, hok⟩ := ok_of_bind hok
      obtain ⟨_, _, hok⟩ := ok_of_bind hok
      obtain ⟨_, _, hok⟩ := ok_of_bind hok
      exact ⟨_, rfl, (Except.ok.inj hok).symm⟩

end MailFilter.Store
