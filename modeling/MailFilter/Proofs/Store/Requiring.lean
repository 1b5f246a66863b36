import MailFilter.Proofs.Script.Gating
import MailFilter.Proofs.Store.Arrivals
import MailFilter.Proofs.Store.Declaring
import MailFilter.Proofs.Text.Trimming

/-!
# Requiring what a script uses

Once a script declares all that it uses, nothing is missing but names with blanks around them: a name is
declared without these, and then needed with them still.  To declare all of it again changes nothing.
-/

namespace MailFilter

/-! ## What is used -/

section Uses

variable {α τ : Type} [Leaf τ] {r : Registry} {c : String}

theorem isLowered_of_mem_comparatorUse {args : List (Argument α τ)} (hc : c ∈ comparatorUse args) :
    Text.IsLowered c := by
  obtain ⟨name, rfl⟩ := comparator_of_mem_comparatorUse hc
  exact (Text.isLowered_of_isSmall (by decide +kernel)).append (Text.isLowered_lower name)

theorem isLowered_of_mem_tagUses {s : Signature}
    (hs : ∀ rule ∈ s.tags, ∀ c ∈ rule.need?, Text.IsLowered c) {args : List (Argument α τ)}
    (hc : c ∈ tagUses s args) : Text.IsLowered c := by
  induction args with
  | nil => cases hc
  | cons a rest ih =>
      cases a with
      | tag name mark =>
          rw [tagUses, List.mem_append, List.mem_append] at hc
          rcases hc with (hc | hc) | hc
          · obtain ⟨rule, hrule, hc⟩ := Option.bind_eq_some_iff.1 (Option.mem_toList.1 hc)
            obtain ⟨text, -, hrule⟩ := Option.bind_eq_some_iff.1 hrule
            exact hs rule (List.mem_of_find?_eq_some hrule) c hc
          · split at hc
            · exact isLowered_of_mem_comparatorUse hc
            · cases hc
          · exact ih hc
      | _ => exact ih hc

theorem isLowered_of_mem_nodeUses (hr : r.signatures ⊆ Signature.table) {name : τ}
    {args : List (Argument α τ)} (hc : c ∈ nodeUses r name args) : Text.IsLowered c := by
  have htable : ∀ s ∈ Signature.table, (∀ c ∈ s.need?, Text.isSmall c = true) ∧
      ∀ rule ∈ s.tags, ∀ c ∈ rule.need?, Text.isSmall c = true := by decide +kernel
  unfold nodeUses at hc
  cases hlookup : r.leafLookup? name with
  | none =>
      rw [hlookup] at hc
      cases hc
  | some s =>
      rw [hlookup] at hc
      obtain ⟨hown, htags⟩ := htable s (hr (Registry.mem_of_leafLookup? hlookup).1)
      rcases List.mem_append.1 hc with hc | hc
      · exact Text.isLowered_of_isSmall (hown c (Option.mem_toList.1 hc))
      · exact isLowered_of_mem_tagUses
          (fun rule hrule c hc => Text.isLowered_of_isSmall (htags rule hrule c hc)) hc

theorem Head.isLowered_of_mem_uses (hr : r.signatures ⊆ Signature.table) {h : Head α τ}
    (hc : c ∈ h.uses r) : Text.IsLowered c := by
  rcases List.mem_append.1 hc with hc | hc
  · exact isLowered_of_mem_nodeUses hr hc
  · obtain ⟨t, -, hc⟩ := List.mem_flatMap.1 hc
    exact isLowered_of_mem_nodeUses hr hc

theorem Head.needs_subset_uses (hr : r.signatures ⊆ Signature.table) {h : Head α τ}
    (hone : h.OneTest) : h.needs r ⊆ h.uses r := by
  intro c hc
  obtain ⟨n, hn, hc⟩ := List.mem_flatMap.1 hc
  rw [h.uses_eq r hone.one]
  exact List.mem_flatMap.2 ⟨n, hn, (n.strewn_uses hr).sublist.subset hc⟩

theorem Head.IsText.oneTest {h : Head α Value} (htext : h.IsText) : h.OneTest := by
  obtain ⟨g, hone, rfl⟩ := htext
  exact (g.oneTest_map _ _).2 hone

theorem Head.fitUses_of_isBareRequire {h : Head α Value} (htext : h.IsText)
    (hbare : h.isBareRequire = true) : h.fitUses r = .ok () := by
  rw [isBareRequire, Bool.and_eq_true, List.isEmpty_iff] at hbare
  rw [fitUses, fitNodeUses, htext.fitName, test?, hbare.2]
  show ((if (r.leafLookup? h.name).isSome then fitTagUses [] else .ok ()) >>= fun _ => .ok ()) = _
  split <;> rfl

end Uses

namespace Store

variable {s s' : Store} {lost : List CommandId} {k : ScriptId} {r : Registry} {added : List String}

/-! ## Requiring -/

theorem uses_eq (s : Store) (r : Registry) (k : ScriptId) :
    s.uses r k = ((s.heads k).flatMap fun h => h.uses r).eraseDups := by
  rw [uses, heads, List.flatMap_map]

theorem checkUses_eq_ok : s.checkUses r k = .ok () ↔ ∀ h ∈ s.heads k, h.fitUses r = .ok () := by
  rw [heads, List.forall_mem_map, ← forM_eq_ok]
  refine ⟨fit_of_fitting, fun hfit => ?_⟩
  rw [checkUses, hfit]
  rfl

namespace Enriched

variable {names : List String} (hrich : Enriched s s' k names)

include hrich

theorem textual (htext : s.Textual k) : s'.Textual k := by
  obtain ⟨added, hadded, hheads⟩ := hrich.heads
  obtain ⟨news, hnews⟩ := hrich.texts
  obtain ⟨names, hnames⟩ := htext.capabilities
  refine ⟨?_, ⟨names ++ news, ?_⟩⟩
  · rw [hheads, List.forall_mem_append]
    exact ⟨fun h hh => (hadded h hh).1, htext.heads⟩
  · rw [hnews, hnames, List.map_append]

theorem flatMap_heads {f : Head Mark Value → List String}
    (hf : ∀ h : Head Mark Value, h.isBareRequire = true → f h = []) :
    (s'.heads k).flatMap f = (s.heads k).flatMap f := by
  obtain ⟨added, hadded, hheads⟩ := hrich.heads
  have hnone : added.flatMap f = [] := List.flatMap_eq_nil_iff.2 fun h hh => hf h (hadded h hh).2
  rw [hheads, List.flatMap_append, hnone, List.nil_append]

theorem uses_eq (hr : r.signatures ⊆ Signature.table) : s'.uses r k = s.uses r k := by
  rw [Store.uses_eq, Store.uses_eq, hrich.flatMap_heads fun h => h.uses_of_isBareRequire hr]

theorem checkUses (hok : s.checkUses r k = .ok ()) : s'.checkUses r k = .ok () := by
  obtain ⟨added, hadded, hheads⟩ := hrich.heads
  rw [checkUses_eq_ok] at hok ⊢
  rw [hheads, List.forall_mem_append]
  exact ⟨fun h hh => Head.fitUses_of_isBareRequire (hadded h hh).1 (hadded h hh).2, hok⟩

end Enriched

variable (h : s.Owned lost) (hk : k < s.scripts.size) (hr : r.signatures ⊆ Signature.table)
  (hok : s.requireAll r k = .ok (added, s'))

include h hk hok

theorem enriched_requireAll : Enriched s s' k (s.uses r k) ∧ s.checkUses r k = .ok () ∧
    ∀ name ∈ s.uses r k, s'.Provides k name := by
  obtain ⟨_, hfit, hall⟩ := ok_of_bind hok
  obtain ⟨hrich, hprovides⟩ := enriched_declareAll h hk hall
  exact ⟨hrich, leaving_eq_ok.1 hfit, hprovides⟩

include hr

theorem requireAll_again : s'.requireAll r k = .ok ([], s') := by
  obtain ⟨hrich, hfit, hprovides⟩ := enriched_requireAll h hk hok
  rw [requireAll, hrich.checkUses hfit, hrich.uses_eq hr]
  exact declareAll_of_provides hprovides

/-- Of what is missing in a script of texts, what has blanks around it stays missing. -/
theorem missing_requireAll (htext : s.Textual k) {before after : List (Problem Mark Value)}
    (hbefore : s.problems r k = .ok before) (hafter : s'.problems r k = .ok after) :
    missingCapabilities after =
      (missingCapabilities before).filter fun c => Text.trimmed c ≠ c := by
  obtain ⟨hrich, -, -⟩ := enriched_requireAll h hk hok
  have hneeds := hrich.flatMap_heads fun head hbare => head.needs_of_isBareRequire hr hbare
  have hlowered : ∀ c ∈ s.uses r k, Text.IsLowered c := by
    intro c hc
    rw [uses_eq, List.mem_eraseDups] at hc
    obtain ⟨head, -, hc⟩ := List.mem_flatMap.1 hc
    exact head.isLowered_of_mem_uses hr hc
  have hused : ∀ c ∈ (s.heads k).flatMap fun head => head.needs r, c ∈ s.uses r k := by
    intro c hc
    obtain ⟨head, hhead, hc⟩ := List.mem_flatMap.1 hc
    rw [uses_eq, List.mem_eraseDups]
    exact List.mem_flatMap.2
      ⟨head, hhead, head.needs_subset_uses hr (htext.heads head hhead).oneTest hc⟩
  -- A name that is used gets declared as it is used where it has no blanks around it, and only there.
  have hdeclared : ∀ c ∈ s.uses r k,
      (∃ u ∈ s.uses r k, c = Text.lower (Text.trimmed u)) ↔ Text.trimmed c = c := by
    intro c hc
    constructor
    · rintro ⟨u, hu, rfl⟩
      rw [(hlowered u hu).trimmed.lower_eq, Text.trimmed_trimmed]
    · intro htrimmed
      exact ⟨c, hc, by rw [htrimmed, (hlowered c hc).lower_eq]⟩
  have howned := owned_declared h hk (declared_of_requireAll hok)
  rw [missing_problems howned hr hafter, missing_problems h hr hbefore, hneeds,
    List.filter_filter]
  refine List.filter_congr fun c hc => ?_
  have hiff := hrich.declared c
  rw [hdeclared c (hused c hc)] at hiff
  rw [← Bool.decide_and, decide_eq_decide, hiff, not_or, and_comm]

omit h hk hr hok

/-! ## Scripts that were read -/

theorem textual_addScript (h : s.Owned lost) {t : Script} (ht : t.Shaped) :
    (s.addScript t).1.Textual s.scripts.size := by
  refine ⟨?_, ⟨t.capabilities, capabilities_addScript h t⟩⟩
  rw [heads, List.forall_mem_map]
  intro c hc
  obtain ⟨d, hd, heq⟩ := exists_unmarked h t hc
  obtain ⟨g, hg⟩ := Head.exists_text heq
  refine ⟨g, ?_, hg⟩
  rw [← g.oneTest_map id Value.text, ← hg, ← Head.oneTest_unmarked, heq, Head.oneTest_unmarked]
  exact ht.heads d hd

/-- Once a script that was read declares all that it uses, what is still missing are the names that were
missing before and have blanks around them, and to declare all of it again adds nothing. -/
theorem requireAll_settles (steps : List Step) {source filename : String} {o : ReadOptions} {t : Script}
    (hread : Script.ofText source filename o = .ok t) (hr : r.signatures ⊆ Signature.table)
    (hs : (run steps).addScript t = (s, k)) (hok : s.requireAll r k = .ok (added, s')) :
    (∃ before after, s.problems r k = .ok before ∧ s'.problems r k = .ok after ∧
      missingCapabilities after =
        (missingCapabilities before).filter fun c => Text.trimmed c ≠ c) ∧
    s'.requireAll r k = .ok ([], s') := by
  have h := owned_run steps
  obtain ⟨rfl, rfl⟩ : ((run steps).addScript t).1 = s ∧ (run steps).scripts.size = k := by
    rw [hs]
    exact ⟨rfl, congrArg Prod.snd hs⟩
  have hk : (run steps).scripts.size < ((run steps).addScript t).1.scripts.size := by
    rw [(appended_addScript h t).scripts, Array.size_push]
    exact Nat.lt_succ_self _
  have howned := owned_addScript h t
  have htext := textual_addScript h (Script.shaped_of_ofText hread)
  have hrich := (enriched_requireAll howned hk hok).1
  obtain ⟨before, hbefore⟩ := htext.exists_problems howned r
  obtain ⟨after, hafter⟩ :=
    (hrich.textual htext).exists_problems (owned_declared howned hk (declared_of_requireAll hok)) r
  exact ⟨⟨before, after, hbefore, hafter, missing_requireAll howned hk hr hok htext hbefore hafter⟩,
    requireAll_again howned hk hr hok⟩

theorem requireAll_settles_fileinto : ∃ t s k added s' after,
    Script.ofText "fileinto \"a\";" "f" .default = .ok t ∧ (run []).addScript t = (s, k) ∧
      s.requireAll .default k = .ok (added, s') ∧ s'.problems .default k = .ok after ∧
      missingCapabilities after = [] ∧ s'.requireAll .default k = .ok ([], s') := by
  obtain ⟨t, ht⟩ := exists_ok_of_isOk
    (show (Script.ofText "fileinto \"a\";" "f" .default).isOk = true by decide +kernel)
  have hfacts : ∀ u ∈ (Script.ofText "fileinto \"a\";" "f" .default).toOption,
      (((run []).addScript u).1.requireAll .default ((run []).addScript u).2).isOk = true ∧
      ∀ ps ∈ (((run []).addScript u).1.problems .default ((run []).addScript u).2).toOption,
        missingCapabilities ps = ["fileinto"] := by decide +kernel
  obtain ⟨hrequires, hmissing⟩ := hfacts t (by rw [ht]; rfl)
  obtain ⟨⟨added, s'⟩, hok⟩ := exists_ok_of_isOk hrequires
  obtain ⟨⟨before, after, hbefore, hafter, heq⟩, hagain⟩ :=
    requireAll_settles [] ht (List.Subset.refl _) (s := ((run []).addScript t).1)
      (k := ((run []).addScript t).2) rfl hok
  refine ⟨t, ((run []).addScript t).1, ((run []).addScript t).2, added, s', after, ht, rfl, hok, hafter,
    ?_, hagain⟩
  rw [heq, hmissing before (by rw [hbefore]; rfl)]
  decide +kernel

/-- A script with a comparator whose name ends in a blank. -/
def blankComparator : String := "if header :comparator \"x \" \"a\" \"b\" { keep; }"

/-- The name of a comparator may end in a blank, and is not declared then as it is needed. -/
theorem requireAll_blank : ∃ t s k added s' after,
    Script.ofText blankComparator "f" .default = .ok t ∧ (run []).addScript t = (s, k) ∧
      s.requireAll .default k = .ok (added, s') ∧
      s'.problems .default k = .ok after ∧ missingCapabilities after ≠ [] := by
  obtain ⟨t, ht⟩ := exists_ok_of_isOk
    (show (Script.ofText blankComparator "f" .default).isOk = true by decide +kernel)
  have hfacts : ∀ u ∈ (Script.ofText blankComparator "f" .default).toOption,
      (((run []).addScript u).1.requireAll .default ((run []).addScript u).2).isOk = true ∧
      ∀ v ∈ (((run []).addScript u).1.requireAll .default ((run []).addScript u).2).toOption,
        (v.2.problems .default ((run []).addScript u).2).isOk = true ∧
        ∀ ps ∈ (v.2.problems .default ((run []).addScript u).2).toOption,
          missingCapabilities ps ≠ [] := by decide +kernel
  obtain ⟨hrequires, hmissing⟩ := hfacts t (by rw [ht]; rfl)
  obtain ⟨⟨added, s'⟩, hok⟩ := exists_ok_of_isOk hrequires
  obtain ⟨hproblems, hmissing⟩ := hmissing (added, s') (by rw [hok]; rfl)
  obtain ⟨after, hafter⟩ := exists_ok_of_isOk hproblems
  exact ⟨t, ((run []).addScript t).1, ((run []).addScript t).2, added, s', after, ht, rfl, hok, hafter,
    hmissing after (by rw [hafter]; rfl)⟩

end Store

end MailFilter
