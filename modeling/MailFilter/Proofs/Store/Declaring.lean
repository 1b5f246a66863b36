import MailFilter.Proofs.Store.Capabilities
import MailFilter.Proofs.Store.Lint

/-!
# Declaring capabilities

Declarations leave the commands of a script as they are, but for a `require` that may come to its front.
What is declared afterwards is what was declared before, and the names without blanks around them in
lower case.  To declare the same names again changes nothing.
-/

namespace MailFilter

theorem Head.uses_of_isBareRequire {α τ : Type} [Leaf τ] {r : Registry}
    (hr : r.signatures ⊆ Signature.table) {h : Head α τ} (hbare : h.isBareRequire = true) :
    h.uses r = [] := by
  have hneeds := h.needs_of_isBareRequire hr hbare
  rw [isBareRequire, Bool.and_eq_true, List.isEmpty_iff] at hbare
  rw [needs, nodes_of_isEmpty hbare.2, List.flatMap_singleton, Node.needs, Node.ofHead,
    hbare.2] at hneeds
  rw [uses, test?, nodeUses, hbare.2]
  cases hlookup : r.leafLookup? h.name with
  | none => rfl
  | some s =>
      rw [hlookup] at hneeds
      dsimp only
      rw [(List.append_eq_nil_iff.1 hneeds).1]
      rfl

theorem leadingRequires_append {α τ : Type} [Leaf τ] {added hs : List (Head α τ)}
    (hadded : ∀ h ∈ added, h.isBareRequire = true) :
    ((leadingRequires (added ++ hs)).flatMap fun h => declaredNames h.arguments) =
      (leadingRequires hs).flatMap fun h => declaredNames h.arguments := by
  induction added with
  | nil => rfl
  | cons head added ih =>
      rw [List.forall_mem_cons, Head.isBareRequire, Bool.and_eq_true, List.isEmpty_iff] at hadded
      obtain ⟨⟨hrequire, hnil⟩, hadded⟩ := hadded
      have hleads : leadingRequires (head :: (added ++ hs)) = head :: leadingRequires (added ++ hs) :=
        List.takeWhile_cons_of_pos hrequire
      rw [List.cons_append, hleads, List.flatMap_cons, hnil]
      exact ih hadded

namespace Store

variable {s s' : Store} {lost : List CommandId} {k : ScriptId} {name : String} {added : Bool}

/-! ## Names -/

theorem holdsName_append (name : String) (vs ws : List Value) :
    holdsName name (vs ++ ws) =
      (holdsName name vs >>= fun held => if held then .ok true else holdsName name ws) := by
  induction vs with
  | nil => rfl
  | cons v vs ih =>
      rw [List.cons_append, holdsName, holdsName, ih]
      cases v.fitText with
      | error e => rfl
      | ok u =>
          by_cases hsame : (Text.lower v.plain == Text.lower name) = true
          · simp only [hsame]
            rfl
          · simp only [hsame]
            rfl

theorem holdsName_append_held {vs : List Value} (hholds : holdsName name vs = .ok true)
    (ws : List Value) : holdsName name (vs ++ ws) = .ok true := by
  rw [holdsName_append, hholds]
  rfl

theorem holdsName_concat {vs : List Value} (hholds : holdsName name vs = .ok false) :
    holdsName name (vs ++ [.text name]) = .ok true := by
  have hself : holdsName name [.text name] = .ok true := by
    rw [holdsName, Value.fitText, Value.plain]
    show (if Text.lower name == Text.lower name then .ok true else holdsName name []) = _
    rw [beq_self_eq_true, if_pos rfl]
  rw [holdsName_append, hholds, ← hself]
  rfl

theorem mem_of_holdsName {vs : List Value} (hholds : holdsName name vs = .ok true) :
    Text.lower name ∈ vs.map fun v => Text.lower v.plain := by
  induction vs with
  | nil => cases hholds
  | cons v vs ih =>
      rw [holdsName] at hholds
      obtain ⟨_, -, hholds⟩ := ok_of_bind hholds
      rw [List.map_cons, List.mem_cons]
      split at hholds
      · next hsame => exact .inl (by simpa using Eq.symm (beq_iff_eq.1 hsame))
      · exact .inr (ih hholds)

/-! ## What a declaration leaves -/

theorem walkTo_congr (hchildren : ∀ c, s'.children c = s.children c) (n : Nat) (c : CommandId) :
    s'.walkTo n c = s.walkTo n c := by
  induction n generalizing c with
  | zero => rfl
  | succ n ih =>
      rw [walkTo, walkTo, hchildren]
      exact congrArg (c :: ·) (List.flatMap_congr fun d _ => ih d)

section Same

variable (hsame : SameLinks s s')

include hsame

theorem SameLinks.walkScript_eq (hsize : s'.commands.size = s.commands.size) :
    s'.walkScript k = s.walkScript k := by
  have hchildren : ∀ c, s'.children c = s.children c := fun c => by
    simp only [children, hsame.block, hsame.listed]
  rw [Store.walkScript, Store.walkScript, hsame.top, hsame.listed]
  refine List.flatMap_congr fun c _ => ?_
  rw [walk, walk, hsize, walkTo_congr hchildren]

variable (hhead : ∀ c, (s'.command c).head = (s.command c).head)

include hhead

theorem SameLinks.tops_eq : s'.tops k = s.tops k := by
  rw [tops, tops, hsame.top, hsame.listed]
  exact List.map_congr_left fun c _ => hhead c

theorem SameLinks.heads_eq (hsize : s'.commands.size = s.commands.size) : s'.heads k = s.heads k := by
  rw [heads, heads, hsame.walkScript_eq hsize]
  exact List.map_congr_left fun c _ => hhead c

end Same

theorem children_addRequire (h : s.Owned lost) (hk : k < s.scripts.size) (c : CommandId) :
    (s.addRequire k).children c = s.children c := by
  simp only [children, (relocated_addRequire h hk).block]
  split
  · next b hb =>
      rw [block_addRequire h hk, if_neg]
      rintro rfl
      exact h.block_ne (h.top k hk) c hb
  · rfl

theorem walkScript_addRequire (h : s.Owned lost) (hk : k < s.scripts.size) :
    (s.addRequire k).walkScript k = s.commands.size :: s.walkScript k := by
  have hsize : (s.addRequire k).commands.size = s.commands.size + 1 := Array.size_push _
  have hlist : ((s.addRequire k).block ((s.addRequire k).script k).block).commands =
      s.commands.size :: (s.block (s.script k).block).commands := by
    rw [show (s.addRequire k).script k = s.script k from rfl, block_addRequire h hk, if_pos rfl]
  have hnew : (s.addRequire k).children s.commands.size = [] := by
    rw [children, command_addRequire, if_pos rfl]
  have hothers : (s.block (s.script k).block).commands.flatMap (s.addRequire k).walk =
      s.walkScript k := by
    rw [← h.flatMap_walkTo k (Nat.le_succ _)]
    refine List.flatMap_congr fun c _ => ?_
    rw [walk, hsize, walkTo_congr (children_addRequire h hk)]
  rw [walkScript, hlist, List.flatMap_cons, hothers, walk, hsize, walkTo, hnew]
  rfl

theorem isText_requireHead (s : Store) : s.requireHead.IsText :=
  ⟨⟨"require", [], [], ⟨.nowhere, s.nextMark⟩⟩, .of_nil rfl, rfl⟩

theorem heads_addRequire (h : s.Owned lost) (hk : k < s.scripts.size) :
    (s.addRequire k).heads k = s.requireHead :: s.heads k := by
  rw [heads, walkScript_addRequire h hk, List.map_cons, command_addRequire, if_pos rfl]
  refine congrArg (_ :: ·) (List.map_congr_left fun c hc => ?_)
  rw [command_addRequire, if_neg]
  rintro rfl
  obtain ⟨b, hb⟩ := exists_mem_of_inside (h.mem_walkScript.1 hc)
  exact Nat.lt_irrefl _ (h.command_lt hb)

theorem tops_addRequire (h : s.Owned lost) (hk : k < s.scripts.size) :
    (s.addRequire k).tops k = s.requireHead :: s.tops k := by
  rw [tops, show (s.addRequire k).script k = s.script k from rfl, block_addRequire h hk, if_pos rfl,
    List.map_cons, command_addRequire, if_pos rfl]
  refine congrArg (_ :: ·) (List.map_congr_left fun c hc => ?_)
  rw [command_addRequire, if_neg]
  rintro rfl
  exact Nat.lt_irrefl _ (h.command_lt hc)

section Declaring

variable (h : s.Owned lost) (hk : k < s.scripts.size) (name : String)

include h hk

theorem heads_declaring : ∃ added : List (Head Mark Value),
    (∀ head ∈ added, head.IsText ∧ head.isBareRequire = true) ∧
      (s.declaring k name).heads k = added ++ s.heads k ∧
      (s.declaring k name).tops k = added ++ s.tops k := by
  have hsame := sameLinks_modifyCapabilities
    (s := if (s.requireOf? k).isNone then s.addRequire k else s) k (· ++ [.text name])
  rw [declaring, hsame.heads_eq (fun _ => rfl) rfl, hsame.tops_eq fun _ => rfl]
  split
  · refine ⟨[s.requireHead], ?_, heads_addRequire h hk, tops_addRequire h hk⟩
    rw [List.forall_mem_singleton]
    exact ⟨isText_requireHead s, isBareRequire_requireHead s⟩
  · exact ⟨[], by simp, rfl, rfl⟩

omit h in
theorem script_declaring : (s.declaring k name).script k =
    { s.script k with capabilities := (s.script k).capabilities ++ [.text name] } := by
  have hscripts : (if (s.requireOf? k).isNone then s.addRequire k else s).scripts = s.scripts := by
    split <;> rfl
  rw [declaring, script_modifyScript (hscripts ▸ hk), if_pos rfl, script_congr hscripts]

theorem open_declaring (hopen : s.Open k) : (s.declaring k name).Open k := by
  obtain ⟨added, hadded, -, htops⟩ := heads_declaring h hk name
  intro head hhead
  rw [htops] at hhead
  cases added with
  | nil => exact hopen head hhead
  | cons first rest =>
      obtain ⟨htext, hbare⟩ := hadded first List.mem_cons_self
      cases hhead
      exact ⟨htext.fitName, fun _ => hbare⟩

theorem mem_declared_declaring {c : String} :
    c ∈ ((s.declaring k name).scriptTree k).declared ↔
      c ∈ (s.scriptTree k).declared ∨ c = Text.lower name := by
  obtain ⟨added, hadded, -, htops⟩ := heads_declaring h hk name
  rw [declared_scriptTree, declared_scriptTree, script_declaring hk, htops,
    leadingRequires_append fun head hhead => (hadded head hhead).2]
  simp only [List.map_append, List.mem_append, List.map_cons, List.map_nil, List.mem_singleton]
  rw [or_right_comm]
  rfl

end Declaring

/-! ## Declarations in a row -/

def Provides (s : Store) (k : ScriptId) (name : String) : Prop := s.declare k name = .ok (false, s)

/-- A script as it was, but for names that it declares and a `require` that may have come to its front
with them. -/
structure Enriched (s s' : Store) (k : ScriptId) (names : List String) : Prop where
  heads : ∃ added : List (Head Mark Value),
    (∀ h ∈ added, h.IsText ∧ h.isBareRequire = true) ∧ s'.heads k = added ++ s.heads k
  texts : ∃ news : List String,
    (s'.script k).capabilities = (s.script k).capabilities ++ news.map Value.text
  declared : ∀ c, c ∈ (s'.scriptTree k).declared ↔
    c ∈ (s.scriptTree k).declared ∨ ∃ name ∈ names, c = Text.lower (Text.trimmed name)
  provides : ∀ name, s.Provides k name → s'.Provides k name

theorem Enriched.refl (s : Store) (k : ScriptId) : Enriched s s k [] :=
  ⟨⟨[], by simp, rfl⟩, ⟨[], by simp⟩, by simp, fun _ hu => hu⟩

theorem Enriched.trans {s'' : Store} {names names' : List String} (h : Enriched s s' k names)
    (h' : Enriched s' s'' k names') : Enriched s s'' k (names ++ names') := by
  obtain ⟨added, hadded, hheads⟩ := h.heads
  obtain ⟨added', hadded', hheads'⟩ := h'.heads
  obtain ⟨news, hnews⟩ := h.texts
  obtain ⟨news', hnews'⟩ := h'.texts
  refine ⟨⟨added' ++ added, ?_, ?_⟩, ⟨news ++ news', ?_⟩, fun c => ?_, fun name hname => ?_⟩
  · rw [List.forall_mem_append]
    exact ⟨hadded', hadded⟩
  · rw [hheads', hheads, List.append_assoc]
  · rw [hnews', hnews, List.map_append, List.append_assoc]
  · rw [h'.declared, h.declared, or_assoc]
    simp only [List.mem_append, or_and_right, exists_or]
  · exact h'.provides name (h.provides name hname)

/-- What one declaration leaves. -/
theorem enriched_declare (h : s.Owned lost) (hk : k < s.scripts.size)
    (hok : s.declare k name = .ok (added, s')) : Enriched s s' k [name] ∧ s'.Provides k name := by
  obtain ⟨hname, hopen, hholds, rfl⟩ := declare_eq_ok.1 hok
  cases added with
  | false =>
      refine ⟨⟨⟨[], by simp, rfl⟩, ⟨[], by simp⟩, fun c => ?_, fun _ hu => hu⟩, hok⟩
      have hdeclared : Text.lower (Text.trimmed name) ∈ (s.scriptTree k).declared := by
        rw [declared_scriptTree, List.map_append, List.mem_append]
        exact .inl (mem_of_holdsName hholds)
      refine ⟨.inl, ?_⟩
      rintro (hc | ⟨_, hmem, rfl⟩)
      · exact hc
      · rw [List.mem_singleton.1 hmem]
        exact hdeclared
  | true =>
      have hcapabilities := congrArg ScriptCell.capabilities (script_declaring hk (Text.trimmed name))
      have hopen' := open_declaring h hk (Text.trimmed name) hopen
      obtain ⟨added, hadded, hheads, -⟩ := heads_declaring h hk (Text.trimmed name)
      refine ⟨⟨⟨added, hadded, hheads⟩, ⟨[Text.trimmed name], hcapabilities⟩, fun c => ?_,
        fun u hu => ?_⟩, declare_eq_ok.2 ⟨hname, hopen', ?_, rfl⟩⟩
      · simp only [List.mem_singleton, exists_eq_left]
        exact mem_declared_declaring h hk _
      · obtain ⟨hu, -, hheld, -⟩ := declare_eq_ok.1 hu
        refine declare_eq_ok.2 ⟨hu, hopen', ?_, rfl⟩
        show holdsName _ ((s.declaring k (Text.trimmed name)).script k).capabilities = _
        rw [hcapabilities]
        exact holdsName_append_held hheld _
      · show holdsName _ ((s.declaring k (Text.trimmed name)).script k).capabilities = _
        rw [hcapabilities]
        exact holdsName_concat hholds

theorem enriched_declareAll (h : s.Owned lost) (hk : k < s.scripts.size) {names news : List String}
    (hok : s.declareAll k names = .ok (news, s')) :
    Enriched s s' k names ∧ ∀ name ∈ names, s'.Provides k name := by
  induction names generalizing s news with
  | nil =>
      cases hok
      exact ⟨.refl _ k, by simp⟩
  | cons name names ih =>
      obtain ⟨⟨_, s₁⟩, hdeclare, hok⟩ := ok_of_bind hok
      obtain ⟨⟨_, s₂⟩, hrest, hok⟩ := ok_of_bind hok
      cases hok
      have hdeclare := leaving_eq_ok.1 hdeclare
      obtain ⟨hfirst, hprovides⟩ := enriched_declare h hk hdeclare
      obtain ⟨hrich, hall⟩ :=
        ih (owned_declare h hk hdeclare) ((scripts_size_declare hdeclare).symm ▸ hk) hrest
      exact ⟨hfirst.trans hrich, List.forall_mem_cons.2 ⟨hrich.provides name hprovides, hall⟩⟩

theorem declareAll_of_provides {names : List String} (hall : ∀ name ∈ names, s.Provides k name) :
    s.declareAll k names = .ok ([], s) := by
  induction names with
  | nil => rfl
  | cons name names ih =>
      rw [List.forall_mem_cons] at hall
      rw [declareAll, hall.1]
      show (s.declareAll k names >>= _) = _
      rw [ih hall.2]
      rfl

end Store

end MailFilter
