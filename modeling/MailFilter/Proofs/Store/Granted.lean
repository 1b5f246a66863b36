import MailFilter.Proofs.Script.Granted
import MailFilter.Proofs.Store.Declaring
import MailFilter.Proofs.Store.Requiring

/-!
# What a declaration takes away

A script that declares a capability in addition has the problems that it had, without those that miss
the capability.  A `require` that comes to the front for it is no problem itself, and the commands
after it are in no other place than before.
-/

namespace MailFilter

theorem Place.problems_after_require {α β τ : Type} [Leaf τ] {h : Head α τ}
    (hrequire : h.keyword? = some .require) (top : Bool) (g : Head β τ) :
    ((front top).after h).problems g = (front top).problems g := by
  simp only [problems, after, front, hrequire]
  rfl

theorem Place.after_after_require {α β τ : Type} [Leaf τ] {h : Head α τ}
    (hrequire : h.keyword? = some .require) (top : Bool) (g : Head β τ) :
    ((front top).after h).after g = (front top).after g := by
  simp only [after, front, hrequire]
  rfl

theorem unsupportedNames_append {α τ : Type} (r : Registry) (names news : List String) (mark : α)
    (node : τ) : unsupportedNames r (names ++ news) mark node =
      unsupportedNames r names mark node ++ unsupportedNames r news mark node := by
  rw [unsupportedNames, List.filter_append, List.map_append]
  rfl

theorem unsupportedNames_singleton {α τ : Type} (r : Registry) (name : String) (mark : α) (node : τ) :
    unsupportedNames r [name] mark node =
      if r.server.any fun offered => !offered.contains (Text.lower name) then
        [⟨.unsupported name, mark, node⟩] else [] := by
  rw [unsupportedNames, List.filter_cons, Registry.isSupported]
  cases r.server with
  | none => rfl
  | some offered =>
      dsimp only [Option.any_some]
      split <;> rfl

namespace Store

variable {s s' : Store} {lost : List CommandId} {k : ScriptId} {r : Registry}
  {declared declared' : List String}
  {require require' : Option CommandId}

/-! ## Problems one command after the other -/

theorem problemsTo_depth {n m : Nat} {p : Place} {ids : List CommandId}
    (hids : ∀ c ∈ ids, s.Grounded c ∧ (s.descendants c).card < n ∧ (s.descendants c).card < m) :
    s.problemsTo r declared require n p ids = s.problemsTo r declared require m p ids := by
  induction n generalizing m p ids with
  | zero =>
      cases ids with
      | nil => rw [problemsTo_nil, problemsTo_nil]
      | cons c ids => exact absurd (hids c List.mem_cons_self).2.1 (Nat.not_lt_zero _)
  | succ n ih =>
      induction ids generalizing p with
      | nil => rw [problemsTo_nil, problemsTo_nil]
      | cons c ids ih' =>
          obtain ⟨⟨hc, hn, hm⟩, hids⟩ := List.forall_mem_cons.1 hids
          obtain ⟨m, rfl⟩ := Nat.exists_eq_add_of_le' (Nat.zero_lt_of_lt hm)
          rw [problemsTo_cons, problemsTo_cons, ih' hids, ih fun d hd => ?_]
          have hbelow := mem_children.1 hd
          have := Finset.card_lt_card (hc.descendants_ssubset hbelow)
          exact ⟨hc.below hbelow, by omega, by omega⟩

theorem Owned.problemsTo_eq {n m : Nat} {p : Place} {ids : List CommandId} (h : s.Owned lost)
    (hids : ∀ c ∈ ids, c < s.commands.size) (hn : s.commands.size ≤ n) (hm : s.commands.size ≤ m) :
    s.problemsTo r declared require n p ids = s.problemsTo r declared require m p ids :=
  problemsTo_depth fun c hc =>
    have hcard := (h.grounded (hids c hc)).card_descendants_lt
    ⟨h.grounded (hids c hc), hcard.trans_le hn, hcard.trans_le hm⟩

theorem problemsTo_place {p q : Place} (hhere : ∀ h : Head Mark Value, p.problems h = q.problems h)
    (hafter : ∀ h : Head Mark Value, p.after h = q.after h) (depth : Nat) (ids : List CommandId) :
    s.problemsTo r declared require depth p ids = s.problemsTo r declared require depth q ids := by
  match depth, ids with
  | 0, _ => rfl
  | _ + 1, [] => rfl
  | depth + 1, c :: ids => rw [problemsTo_cons, problemsTo_cons, hhere, hafter]

theorem problemsTo_require {c : CommandId} (hkeyword : (s.command c).head.keyword? = some .require)
    (hchildren : s.children c = []) (depth : Nat) (ids : List CommandId) :
    s.problemsTo r declared (some c) (depth + 1) (.front true) (c :: ids) =
      s.problemsTo r declared (some c) (depth + 1) (.front true) ids := by
  have hfront : (Place.front true).problems (s.command c).head = [] := by
    simp only [Place.problems, Place.front, hkeyword]
    rfl
  rw [problemsTo_cons, hchildren, hfront, problemsTo_nil, beq_self_eq_true, if_pos rfl,
    problemsTo_place (Place.problems_after_require hkeyword true)
      (Place.after_after_require hkeyword true)]
  rfl

/-- With one capability more declared, the commands that have stayed have the problems that they had,
without those that miss the capability. -/
theorem problemsTo_more {name : String} (hmore : ∀ c, c ∈ declared' ↔ c ∈ declared ∨ c = name)
    (h : s.Owned lost) (hchildren : ∀ c, s'.children c = s.children c)
    (hhead : ∀ c, c < s.commands.size → (s'.command c).head = (s.command c).head)
    (hrequire : ∀ c, c < s.commands.size → (require' == some c) = (require == some c))
    (depth : Nat) (p : Place) {ids : List CommandId} (hids : ∀ c ∈ ids, c < s.commands.size) :
    s'.problemsTo r declared' require' depth p ids =
      withoutMissing name (s.problemsTo r declared require depth p ids) := by
  have hown : ∀ c, c < s.commands.size →
      (if require' == some c then [] else (s'.command c).head.ownProblems r declared') =
        withoutMissing name
          (if require == some c then [] else (s.command c).head.ownProblems r declared) := by
    intro c hc
    rw [hrequire c hc, hhead c hc]
    split
    · rfl
    · exact Head.ownProblems_more hmore r _
  induction depth generalizing p ids with
  | zero => rfl
  | succ depth ih =>
      induction ids generalizing p with
      | nil => rfl
      | cons c ids ih' =>
          obtain ⟨hc, hids⟩ := List.forall_mem_cons.1 hids
          have hbelow : ∀ d ∈ s.children c, d < s.commands.size := by
            intro d hd
            obtain ⟨b, -, hdb⟩ := mem_children.1 hd
            exact h.command_lt hdb
          rw [problemsTo_cons, problemsTo_cons, hown c hc, hhead c hc, hchildren, ih _ hbelow,
            ih' _ hids]
          simp only [withoutMissing_append, withoutMissing_eq_self (Place.missing_problems _ _)]

/-! ## Declarations -/

section Declaring

variable (h : s.Owned lost) (hk : k < s.scripts.size) (name : String)

include h hk

theorem children_declaring (c : CommandId) : (s.declaring k name).children c = s.children c := by
  unfold declaring
  split
  · exact children_addRequire h hk c
  · rfl

omit h hk in
theorem command_declaring {c : CommandId} (hc : c < s.commands.size) :
    (s.declaring k name).command c = s.command c := by
  unfold declaring
  split
  · exact (command_addRequire k c).trans (if_neg hc.ne)
  · rfl

theorem requireOf?_declaring :
    (s.declaring k name).requireOf? k = some ((s.requireOf? k).getD s.commands.size) := by
  have hsame := sameLinks_modifyCapabilities
    (s := if (s.requireOf? k).isNone then s.addRequire k else s) k (· ++ [.text name])
  rw [declaring, hsame.requireOf? fun _ => rfl]
  cases hrequire : s.requireOf? k with
  | none => exact requireOf?_addRequire h hk
  | some c => exact hrequire

variable {name}

theorem problemsTo_stayed (hmore : ∀ c, c ∈ declared' ↔ c ∈ declared ∨ c = Text.lower name) (depth : Nat)
    (p : Place) : (s.declaring k name).problemsTo r declared' ((s.declaring k name).requireOf? k) depth p
        (s.block (s.script k).block).commands =
      withoutMissing (Text.lower name) (s.problemsTo r declared (s.requireOf? k) depth p
        (s.block (s.script k).block).commands) := by
  refine problemsTo_more hmore h (children_declaring h hk name)
    (fun c hc => by rw [command_declaring name hc]) (fun c hc => ?_) depth p fun c hc => h.command_lt hc
  rw [requireOf?_declaring h hk]
  cases s.requireOf? k with
  | none => simpa using hc.ne'
  | some d => rfl

/-- The problems of the commands of a script that declares one capability more. -/
theorem problemsTo_declaring (hmore : ∀ c, c ∈ declared' ↔ c ∈ declared ∨ c = Text.lower name) :
    (s.declaring k name).problemsTo r declared' ((s.declaring k name).requireOf? k)
        ((s.declaring k name).commands.size + 1) (.front true)
        ((s.declaring k name).block ((s.declaring k name).script k).block).commands =
      withoutMissing (Text.lower name) (s.problemsTo r declared (s.requireOf? k) (s.commands.size + 1)
        (.front true) (s.block (s.script k).block).commands) := by
  have hstay := problemsTo_stayed (r := r) h hk hmore
  have hids := fun c (hc : c ∈ (s.block (s.script k).block).commands) => h.command_lt hc
  have hnew := requireOf?_declaring h hk name
  rw [congrArg ScriptCell.block (script_declaring hk name)]
  cases hrequire : s.requireOf? k with
  | some d =>
      have hkept : s.declaring k name = s.modifyScript k fun cell =>
          { cell with capabilities := cell.capabilities ++ [.text name] } := by
        rw [declaring, hrequire]
        rfl
      have hlist : (s.declaring k name).block = s.block := by rw [hkept]; rfl
      have hsize : (s.declaring k name).commands.size = s.commands.size := by rw [hkept]; rfl
      rw [hlist, hsize, hstay, hrequire]
  | none =>
      have hadded : s.declaring k name = (s.addRequire k).modifyScript k fun cell =>
          { cell with capabilities := cell.capabilities ++ [.text name] } := by
        rw [declaring, hrequire]
        rfl
      have hlist : ((s.declaring k name).block (s.script k).block).commands =
          s.commands.size :: (s.block (s.script k).block).commands := by
        rw [hadded]
        exact (congrArg BlockCell.commands (block_addRequire h hk _)).trans (by rw [if_pos rfl])
      have hcell : (s.declaring k name).command s.commands.size =
          ⟨s.requireHead, none, some (s.script k).block⟩ := by
        rw [hadded]
        exact (command_addRequire k _).trans (if_pos rfl)
      have hchildren : (s.declaring k name).children s.commands.size = [] := by
        rw [children, hcell]
      have hkeyword : ((s.declaring k name).command s.commands.size).head.keyword? = some .require := by
        have hbare := isBareRequire_requireHead s
        rw [Head.isBareRequire, Bool.and_eq_true] at hbare
        rw [hcell]
        exact beq_iff_eq.1 hbare.1
      have hsize : s.commands.size ≤ (s.declaring k name).commands.size := by
        rw [hadded]
        exact (Nat.le_succ _).trans (Array.size_push _).ge
      rw [hrequire, Option.getD_none] at hnew
      rw [hnew, hrequire] at hstay
      rw [hlist, hnew, problemsTo_require hkeyword hchildren, hstay,
        h.problemsTo_eq hids (Nat.le_succ_of_le hsize) (Nat.le_succ _)]

end Declaring

/-! ## Problems with what a server does not offer -/

theorem requireHead?_scriptTree (s : Store) (k : ScriptId) :
    (s.scriptTree k).requireHead? = (s.requireOf? k).map fun c => (s.command c).head := by
  rw [Script.requireHead?, ← List.head?_map, heads_scriptTree, tops, List.head?_map, requireOf?]
  cases (s.block (s.script k).block).commands.head? with
  | none => rfl
  | some c =>
      rw [Option.map_some, Option.filter_some, Option.filter_some]
      split <;> rfl

theorem serverProblems_declaring (h : s.Owned lost) (hk : k < s.scripts.size) {name : String}
    (hheld : (s.script k).capabilities = [] ∨ (s.requireOf? k).isSome = true) {c : CommandId}
    (hc : (s.declaring k name).requireOf? k = some c) :
    ((s.declaring k name).scriptTree k).serverProblems r = (s.scriptTree k).serverProblems r ++
      unsupportedNames r [name] ((s.declaring k name).command c).head.mark (.text "require") := by
  have hcapabilities : ((s.declaring k name).scriptTree k).capabilities =
      (s.scriptTree k).capabilities ++ [.text name] :=
    congrArg ScriptCell.capabilities (script_declaring hk name)
  rw [Script.serverProblems, Script.serverProblems, hcapabilities, requireHead?_scriptTree,
    requireHead?_scriptTree, hc, List.map_append, unsupportedNames_append]
  refine congrArg₂ (· ++ ·) ?_ rfl
  rcases hheld with hnone | hsome
  · rw [show (s.scriptTree k).capabilities = [] from hnone]
    rfl
  · obtain ⟨d, hd⟩ := Option.isSome_iff_exists.1 hsome
    rw [requireOf?_declaring h hk, hd, Option.getD_some, Option.some.injEq] at hc
    subst hc
    have hlt : d < s.commands.size :=
      h.command_lt (List.mem_of_mem_head? (requireOf?_eq_some.1 hd).1)
    rw [hd, Option.map_some, Option.map_some, command_declaring name hlt]
    rfl

/-- The problems of a script that declares one capability more. -/
theorem problems_declaring (h : s.Owned lost) (hk : k < s.scripts.size) {name : String}
    (hheld : (s.script k).capabilities = [] ∨ (s.requireOf? k).isSome = true)
    {before after : List (Problem Mark Value)} (hbefore : s.problems r k = .ok before)
    (hafter : (s.declaring k name).problems r k = .ok after) :
    ∃ rest c, withoutMissing (Text.lower name) before = (s.scriptTree k).serverProblems r ++ rest ∧
      (s.declaring k name).requireOf? k = some c ∧
      after = (s.scriptTree k).serverProblems r ++
        unsupportedNames r [name] ((s.declaring k name).command c).head.mark (.text "require") ++ rest := by
  have hrequire := requireOf?_declaring h hk name
  have hserver := serverProblems_declaring (r := r) h hk hheld hrequire
  have hcommands := problemsTo_declaring (r := r) h hk fun _ => mem_declared_declaring h hk name
  refine ⟨withoutMissing (Text.lower name) (s.problemsTo r (s.scriptTree k).declared (s.requireOf? k)
    (s.commands.size + 1) (.front true) (s.block (s.script k).block).commands), _, ?_, hrequire, ?_⟩
  · have hoffered : missingCapabilities ((s.scriptTree k).serverProblems r) = [] :=
      missing_unsupportedNames r _ _ _
    rw [problems_ok hbefore, withoutMissing_append, withoutMissing_eq_self hoffered]
  · rw [problems_ok hafter, hserver, hcommands]

/-! ## Scripts that were read -/

theorem held_addScript (h : s.Owned lost) {t : Script} (ht : t.Shaped) :
    ((s.addScript t).1.script s.scripts.size).capabilities = [] ∨
      ((s.addScript t).1.requireOf? s.scripts.size).isSome = true := by
  rw [capabilities_addScript h t, isSome_requireOf?_addScript h t, List.map_eq_nil_iff]
  exact or_iff_not_imp_left.2 ht.held

/-- A script that was read and declares a name that is new has the problems that it had, without those
that miss the capability.  One is new where the server does not offer the capability: it comes right
after those about the names that were declared before. -/
theorem problems_declare (steps : List Step) {source filename : String} {o : ReadOptions} {t : Script}
    (hread : Script.ofText source filename o = .ok t) (r : Registry)
    (hs : (run steps).addScript t = (s, k)) {name : String} (hok : s.declare k name = .ok (true, s')) :
    ∃ before rest c, s.problems r k = .ok before ∧
      withoutMissing (Text.lower (Text.trimmed name)) before = (s.scriptTree k).serverProblems r ++ rest ∧
      s'.requireOf? k = some c ∧
      s'.problems r k = .ok ((s.scriptTree k).serverProblems r ++
        (if r.server.any fun offered => !offered.contains (Text.lower (Text.trimmed name)) then
          [⟨.unsupported (Text.trimmed name), (s'.command c).head.mark, .text "require"⟩] else []) ++
        rest) := by
  have h := owned_run steps
  obtain ⟨rfl, rfl⟩ : ((run steps).addScript t).1 = s ∧ (run steps).scripts.size = k := by
    rw [hs]
    exact ⟨rfl, congrArg Prod.snd hs⟩
  have hk : (run steps).scripts.size < ((run steps).addScript t).1.scripts.size := by
    rw [(appended_addScript h t).scripts, Array.size_push]
    exact Nat.lt_succ_self _
  have howned := owned_addScript h t
  have hshaped := Script.shaped_of_ofText hread
  have htext := textual_addScript h hshaped
  obtain ⟨before, hbefore⟩ := htext.exists_problems howned r
  obtain ⟨after, hafter⟩ := ((enriched_declare howned hk hok).1.textual htext).exists_problems
    (owned_declare howned hk hok) r
  obtain ⟨-, -, -, heq⟩ := declare_eq_ok.1 hok
  rw [if_pos rfl] at heq
  rw [heq] at hafter ⊢
  obtain ⟨rest, c, hrest, hrequire, hall⟩ :=
    problems_declaring howned hk (held_addScript h hshaped) hbefore hafter
  refine ⟨before, rest, c, hbefore, hrest, hrequire, ?_⟩
  rw [hafter, hall, unsupportedNames_singleton]

/-- A registry for a server that takes copies and nothing else. -/
def copying : Registry := .make Signature.table (some ["copy"])

/-- A command in a block that needs what is not declared, before an `else` that follows nothing. -/
def undeclared : String := "if true \x7b fileinto :copy \"a\"; \x7d keep; else \x7b stop; \x7d"

theorem problems_declare_undeclared : ∃ t s k s' after,
    Script.ofText undeclared "f" .default = .ok t ∧ (run []).addScript t = (s, k) ∧
      s.declare k " FileInto " = .ok (true, s') ∧ s'.problems copying k = .ok after ∧
      after.map (·.complaint) =
        [.unsupported "FileInto", .undeclaredTag ":copy" "copy", .looseBranch "else"] := by
  obtain ⟨t, ht⟩ := exists_ok_of_isOk
    (show (Script.ofText undeclared "f" .default).isOk = true by decide +kernel)
  have hfacts : ∀ u ∈ (Script.ofText undeclared "f" .default).toOption,
      (∃ v ∈ (((run []).addScript u).1.declare ((run []).addScript u).2 " FileInto ").toOption,
        v.1 = true) ∧
      (((run []).addScript u).1.scriptTree ((run []).addScript u).2).serverProblems copying = [] ∧
      ∀ ps ∈ (((run []).addScript u).1.problems copying ((run []).addScript u).2).toOption,
        (withoutMissing "fileinto" ps).map (·.complaint) =
          [.undeclaredTag ":copy" "copy", .looseBranch "else"] := by decide +kernel
  obtain ⟨⟨⟨_, s'⟩, hok, rfl⟩, hserver, hproblems⟩ := hfacts t (by rw [ht]; rfl)
  have hok := eq_ok_of_toOption hok
  obtain ⟨before, rest, c, hbefore, hrest, -, hafter⟩ :=
    problems_declare [] ht copying (s := ((run []).addScript t).1) (k := ((run []).addScript t).2) rfl hok
  have hname : Text.lower (Text.trimmed " FileInto ") = "fileinto" := by decide +kernel
  refine ⟨t, _, _, s', _, ht, rfl, hok, hafter, ?_⟩
  have hkept := hproblems before (by rw [hbefore]; rfl)
  rw [hname, hserver, List.nil_append] at hrest
  have htrimmed : Text.trimmed " FileInto " = "FileInto" := by decide +kernel
  have hlacks : (copying.server.any fun offered => !offered.contains "fileinto") = true := by
    decide +kernel
  rw [hserver, List.nil_append, hname, if_pos hlacks, htrimmed, List.map_append, ← hrest, hkept]
  rfl

end Store

end MailFilter
