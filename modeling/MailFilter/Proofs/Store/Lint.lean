import MailFilter.Proofs.Script.Checked
import MailFilter.Proofs.Script.Nodes
import MailFilter.Proofs.Store.Written

/-!
# What is missing in edited scripts

The problems of a script in a store are told where its commands and capabilities are texts.  What is
missing among them is what the commands need, without what the script declares.
-/

namespace MailFilter.Store

variable {s : Store} {lost : List CommandId} {k : ScriptId} {c : CommandId} {r : Registry}

/-! ## Walks -/

theorem Grounded.walkTo_eq {n m : Nat} (h : s.Grounded c) (hn : (s.descendants c).card < n)
    (hm : (s.descendants c).card < m) : s.walkTo n c = s.walkTo m c := by
  induction n generalizing c m with
  | zero => exact absurd hn (Nat.not_lt_zero _)
  | succ n ih =>
      obtain ⟨m, rfl⟩ := Nat.exists_eq_add_of_le' (Nat.zero_lt_of_lt hm)
      rw [walkTo, walkTo]
      refine congrArg (c :: ·) (List.flatMap_congr fun d hd => ?_)
      have hbelow := mem_children.1 hd
      have := Finset.card_lt_card (h.descendants_ssubset hbelow)
      exact ih (h.below hbelow) (by omega) (by omega)

theorem Owned.walkTo_eq_walk {n : Nat} (h : s.Owned lost) (hc : c < s.commands.size)
    (hn : s.commands.size ≤ n) : s.walkTo n c = s.walk c :=
  have hcard := (h.grounded hc).card_descendants_lt
  (h.grounded hc).walkTo_eq (hcard.trans_le hn) hcard

theorem Owned.flatMap_walkTo {n : Nat} (h : s.Owned lost) (k : ScriptId) (hn : s.commands.size ≤ n) :
    (s.block (s.script k).block).commands.flatMap (s.walkTo n) = s.walkScript k :=
  List.flatMap_congr fun _ hc => h.walkTo_eq_walk (h.command_lt hc) hn

def heads (s : Store) (k : ScriptId) : List (Head Mark Value) :=
  (s.walkScript k).map fun c => (s.command c).head

theorem Owned.tops_subset (h : s.Owned lost) (k : ScriptId) : s.tops k ⊆ s.heads k := by
  intro head hhead
  obtain ⟨c, hc, rfl⟩ := List.mem_map.1 hhead
  exact List.mem_map_of_mem (h.mem_walkScript.2 ⟨c, hc, .refl⟩)

theorem heads_scriptTree (s : Store) (k : ScriptId) :
    (s.scriptTree k).commands.map Command.head = s.tops k := by
  rw [Script.commands, scriptTree, List.map_map]
  exact List.map_congr_left fun c _ => head_treeTo _ c

theorem declared_scriptTree (s : Store) (k : ScriptId) : (s.scriptTree k).declared =
    ((s.script k).capabilities ++
      (leadingRequires (s.tops k)).flatMap fun h => declaredNames h.arguments).map
        fun name => Text.lower (Leaf.plain name) := by
  rw [Script.declared, heads_scriptTree]
  rfl

/-! ## Problems one command after the other -/

theorem problemsTo_nil (s : Store) (r : Registry) (declared : List String) (require : Option CommandId)
    (depth : Nat) (p : Place) : s.problemsTo r declared require depth p [] = [] := by
  cases depth <;> rfl

theorem problemsTo_cons (s : Store) (r : Registry) (declared : List String)
    (require : Option CommandId) (depth : Nat) (p : Place) (c : CommandId) (ids : List CommandId) :
    s.problemsTo r declared require (depth + 1) p (c :: ids) =
      (p.problems (s.command c).head ++
        if require == some c then [] else (s.command c).head.ownProblems r declared) ++
      s.problemsTo r declared require depth (.front false) (s.children c) ++
      s.problemsTo r declared require (depth + 1) (p.after (s.command c).head) ids := by
  let step := fun (met : Place × List (Problem Mark Value)) c =>
    (met.1.after (s.command c).head, met.2 ++
      (met.1.problems (s.command c).head ++
        if require == some c then [] else (s.command c).head.ownProblems r declared) ++
      s.problemsTo r declared require depth (.front false) (s.children c))
  -- Problems are collected, so those that were found before stand in front.
  have hfound : ∀ (ids : List CommandId) (p : Place) (found : List (Problem Mark Value)),
      (ids.foldl step (p, found)).2 = found ++ (ids.foldl step (p, [])).2 := by
    intro ids
    induction ids with
    | nil => exact fun p found => (List.append_nil found).symm
    | cons c ids ih =>
        intro p found
        rw [List.foldl_cons, List.foldl_cons, ih, ih _ (step (p, []) c).2]
        simp only [step, List.append_assoc, List.nil_append]
  exact hfound ids _ _

/-! ## Missing capabilities -/

/-- However deep problems are looked for, what is missing are needs that are not declared. -/
theorem missing_problemsTo (hr : r.signatures ⊆ Signature.table) (declared : List String)
    {require : Option CommandId} (hbare : ∀ c ∈ require, (s.command c).head.isBareRequire = true)
    (depth : Nat) (p : Place) (ids : List CommandId) :
    missingCapabilities (s.problemsTo r declared require depth p ids) =
      ((ids.flatMap (s.walkTo depth)).flatMap fun c => (s.command c).head.needs r).filter
        (· ∉ declared) := by
  have hown : ∀ c, missingCapabilities (if require == some c then [] else
      (s.command c).head.ownProblems r declared) =
        ((s.command c).head.needs r).filter (· ∉ declared) := by
    intro c
    split
    · next heq =>
        rw [Head.needs_of_isBareRequire hr (hbare c (by simpa using heq))]
        rfl
    · exact Head.missing_ownProblems declared r _
  induction depth generalizing p ids with
  | zero => simp [problemsTo, walkTo]
  | succ depth ih =>
      induction ids generalizing p with
      | nil => rfl
      | cons c ids ih' =>
          rw [problemsTo_cons, missingCapabilities_append, missingCapabilities_append,
            missingCapabilities_append, Place.missing_problems, hown, ih, ih', List.flatMap_cons,
            List.flatMap_append, walkTo, List.flatMap_cons, List.filter_append, List.filter_append]
          simp only [List.append_assoc, List.nil_append]

theorem problems_ok {ps : List (Problem Mark Value)} (hok : s.problems r k = .ok ps) :
    ps = (s.scriptTree k).serverProblems r ++ s.problemsTo r (s.scriptTree k).declared (s.requireOf? k)
      (s.commands.size + 1) (.front true) (s.block (s.script k).block).commands := by
  unfold problems at hok
  obtain ⟨_, -, hok⟩ := ok_of_bind hok
  obtain ⟨_, -, hok⟩ := ok_of_bind hok
  exact (Except.ok.inj hok).symm

theorem missing_problems (h : s.Owned lost) (hr : r.signatures ⊆ Signature.table)
    {ps : List (Problem Mark Value)} (hok : s.problems r k = .ok ps) :
    missingCapabilities ps =
      ((s.heads k).flatMap fun h => h.needs r).filter (· ∉ (s.scriptTree k).declared) := by
  cases problems_ok hok
  have hbare : ∀ c ∈ s.requireOf? k, (s.command c).head.isBareRequire = true :=
    fun c hc => (Option.filter_eq_some_iff.1 hc).2
  rw [missingCapabilities_append, Script.serverProblems, missing_unsupportedNames, List.nil_append,
    missing_problemsTo hr _ hbare, h.flatMap_walkTo k (Nat.le_succ _), heads, List.flatMap_map]

/-! ## Scripts of text -/

/-- The commands and capabilities of a script are texts. -/
structure Textual (s : Store) (k : ScriptId) : Prop where
  heads : ∀ h ∈ s.heads k, h.IsText
  capabilities : ∃ names : List String, (s.script k).capabilities = names.map Value.text

theorem fitTo_text (r : Registry) (require : Option CommandId) {depth : Nat}
    (htext : ∀ d ∈ s.walkTo depth c, (s.command d).head.IsText) :
    s.fitTo r require depth c = .ok () := by
  induction depth generalizing c with
  | zero => rfl
  | succ depth ih =>
      rw [walkTo, List.forall_mem_cons] at htext
      have hchildren : (s.children c).forM (s.fitTo r require depth) = .ok () :=
        forM_eq_ok.2 fun d hd => ih fun e he => htext.2 e (List.mem_flatMap.2 ⟨d, hd, he⟩)
      rw [fitTo, htext.1.fitName, htext.1.fitOwn r, hchildren, ite_self]
      rfl

theorem fitDeclared_text {names : List String} {hs : List (Head Mark Value)}
    (htext : ∀ h ∈ hs, h.IsText) : fitDeclared (names.map Value.text) hs = .ok () := by
  have hleading : (leadingRequires hs).forM
      (fun h => (declaredNames h.arguments).forM Value.fitText) = .ok () := by
    refine forM_eq_ok.2 fun h hh => ?_
    obtain ⟨names, hnames⟩ := (htext h ((List.takeWhile_sublist _).subset hh)).names
    rw [hnames]
    exact forM_fitText names
  have hnext : ∀ h ∈ (hs.drop (leadingRequires hs).length).head?, h.name.fitName = .ok () :=
    fun h hh => (htext h (List.mem_of_mem_drop (List.mem_of_mem_head? hh))).fitName
  unfold fitDeclared
  dsimp only
  rw [forM_fitText, hleading]
  cases hdrop : hs.drop (leadingRequires hs).length with
  | nil => rfl
  | cons h _ =>
      rw [hdrop] at hnext
      exact hnext h rfl

theorem Textual.exists_problems (htext : s.Textual k) (h : s.Owned lost) (r : Registry) :
    ∃ ps, s.problems r k = .ok ps := by
  obtain ⟨names, hnames⟩ := htext.capabilities
  have hdeclared : fitDeclared (s.scriptTree k).capabilities
      ((s.scriptTree k).commands.map Command.head) = .ok () := by
    rw [heads_scriptTree]
    show fitDeclared (s.script k).capabilities _ = _
    rw [hnames]
    exact fitDeclared_text fun head hhead => htext.heads head (h.tops_subset k hhead)
  have hfits : (s.block (s.script k).block).commands.forM
      (s.fitTo r (s.requireOf? k) (s.commands.size + 1)) = .ok () := by
    refine forM_eq_ok.2 fun c hc => fitTo_text r _ fun d hd => ?_
    rw [h.walkTo_eq_walk (h.command_lt hc) (Nat.le_succ _)] at hd
    exact htext.heads _ (List.mem_map_of_mem (List.mem_flatMap.2 ⟨c, hc, hd⟩))
  unfold problems
  dsimp only
  rw [hdeclared]
  show ∃ ps, ((s.block (s.script k).block).commands.forM
    (s.fitTo r (s.requireOf? k) (s.commands.size + 1)) >>= _) = .ok ps
  rw [hfits]
  exact ⟨_, rfl⟩

end MailFilter.Store
