import MailFilter.Proofs.Reading.Shapes
import MailFilter.Proofs.Script.Names
import MailFilter.Proofs.Script.Nodes
import MailFilter.Proofs.Script.Signatures

/-!
# Two ways to tell what a script needs

What a script uses is collected from all tags and from what follows a `:comparator`, and what it lacks
is found where its arguments are checked.  Both go over the same nodes in the same order.  They differ
where a `:comparator` stands that its command or test does not accept: it counts as a use, but there
nothing is checked.
-/

namespace MailFilter

/-! ## Strewn lists -/

section Strewn

/-- A list of names is another one with some of a third strewn in. -/
structure Strewn (xs ys zs : List String) : Prop where
  sublist : xs.Sublist ys
  filter : ∀ p : String → Bool, (∀ z ∈ zs, p z = false) → ys.filter p = xs.filter p

variable {xs ys zs us vs ws : List String}

theorem Strewn.refl (xs zs : List String) : Strewn xs xs zs := ⟨.refl xs, fun _ _ => rfl⟩

theorem Strewn.all (xs : List String) : Strewn [] xs xs := by
  refine ⟨List.nil_sublist xs, fun p hp => ?_⟩
  rw [List.filter_nil, List.filter_eq_nil_iff]
  intro x hx
  rw [hp x hx]
  exact Bool.false_ne_true

theorem Strewn.append (h : Strewn xs ys zs) (h' : Strewn us vs ws) :
    Strewn (xs ++ us) (ys ++ vs) (zs ++ ws) := by
  refine ⟨h.sublist.append h'.sublist, fun p hp => ?_⟩
  rw [List.forall_mem_append] at hp
  rw [List.filter_append, List.filter_append, h.filter p hp.1, h'.filter p hp.2]

theorem Strewn.prepend (us : List String) (h : Strewn xs ys zs) : Strewn (us ++ xs) (us ++ ys) zs :=
  (Strewn.refl us []).append h

theorem Strewn.flatMap {γ : Type} {f g k : γ → List String} (ns : List γ)
    (h : ∀ n ∈ ns, Strewn (f n) (g n) (k n)) :
    Strewn (ns.flatMap f) (ns.flatMap g) (ns.flatMap k) := by
  induction ns with
  | nil => exact .refl [] []
  | cons n ns ih =>
      rw [List.forall_mem_cons] at h
      rw [List.flatMap_cons, List.flatMap_cons, List.flatMap_cons]
      exact h.1.append (ih h.2)

theorem Strewn.mem (h : Strewn xs ys zs) {y : String} (hy : y ∈ ys) : y ∈ xs ∨ y ∈ zs := by
  by_cases hz : y ∈ zs
  · exact .inr hz
  · have hkept : y ∈ ys.filter (· ∉ zs) := List.mem_filter.2 ⟨hy, by simpa using hz⟩
    rw [h.filter _ (fun z hz => by simpa using hz)] at hkept
    exact .inl (List.mem_filter.1 hkept).1

end Strewn

theorem eraseDups_filter (p : String → Bool) (names : List String) :
    (names.filter p).eraseDups = names.eraseDups.filter p := by
  cases names with
  | nil => rfl
  | cons name names =>
      have hswap : (names.filter p).filter (fun other => !other == name) =
          (names.filter fun other => !other == name).filter p := by
        rw [List.filter_filter, List.filter_filter]
        exact List.filter_congr fun _ _ => Bool.and_comm _ _
      have ih := eraseDups_filter p (names.filter fun other => !other == name)
      by_cases hname : p name = true
      · rw [List.filter_cons_of_pos hname, List.eraseDups_cons, List.eraseDups_cons,
          List.filter_cons_of_pos hname, hswap, ih]
      · -- The name is dropped, so it may stay among the others.
        have hothers : (names.filter fun other => !other == name).filter p = names.filter p := by
          rw [List.filter_filter]
          refine List.filter_congr fun other _ => ?_
          by_cases heq : other = name
          · subst heq
            simp [hname]
          · simp [heq]
        rw [List.filter_cons_of_neg hname, List.eraseDups_cons, List.filter_cons_of_neg hname,
          ← ih, hothers]
termination_by names.length
decreasing_by exact Nat.lt_succ_of_le (List.length_filter_le _ _)

/-! ## Nodes -/

variable {α τ : Type} [Leaf τ]

/-- What is named right after a `:comparator` that a signature does not accept. -/
def tagStrays (s : Signature) : List (Argument α τ) → List String
  | [] => []
  | .tag name _ :: rest =>
    (if Leaf.text? name == some ":comparator" && (s.tag? ":comparator").isNone then comparatorUse rest
      else []) ++ tagStrays s rest
  | _ :: rest => tagStrays s rest

namespace Node

def uses (r : Registry) (n : Node α τ) : List String := nodeUses r n.name n.arguments

/-- What a node only seems to need. -/
def strays (r : Registry) (n : Node α τ) : List String :=
  match r.leafLookup? n.name with
  | none => []
  | some s => tagStrays s n.arguments

/-- Every `:comparator` of a node that is known is accepted there. -/
def AcceptsComparators (r : Registry) (n : Node α τ) : Prop :=
  ∀ s, r.leafLookup? n.name = some s → ∀ name mark, .tag name mark ∈ n.arguments →
    Leaf.text? name = some ":comparator" → (s.tag? ":comparator").isSome = true

end Node

theorem comparator_of_mem_comparatorUse {args : List (Argument α τ)} {c : String}
    (hc : c ∈ comparatorUse args) : ∃ name, c = "comparator-" ++ Text.lower name := by
  unfold comparatorUse at hc
  split at hc
  · rw [Option.mem_toList] at hc
    obtain ⟨text, -, hc⟩ := Option.bind_eq_some_iff.1 hc
    unfold comparatorCapability? at hc
    dsimp only at hc
    split at hc
    · cases hc
    · exact ⟨text, (Option.some.inj hc).symm⟩
  · exact absurd hc List.not_mem_nil

theorem comparator_of_mem_tagStrays {s : Signature} {args : List (Argument α τ)} {c : String}
    (hc : c ∈ tagStrays s args) : ∃ name, c = "comparator-" ++ Text.lower name := by
  fun_induction tagStrays s args with
  | case1 => cases hc
  | case2 name mark rest ih =>
      rcases List.mem_append.1 hc with hc | hc
      · split at hc
        · exact comparator_of_mem_comparatorUse hc
        · cases hc
      · exact ih hc
  | case3 _ rest _ ih => exact ih hc

theorem tagStrays_eq_nil {s : Signature} {args : List (Argument α τ)}
    (h : ∀ name mark, .tag name mark ∈ args → Leaf.text? name = some ":comparator" →
      (s.tag? ":comparator").isSome = true) : tagStrays s args = [] := by
  fun_induction tagStrays s args with
  | case1 => rfl
  | case2 name mark rest ih =>
      rw [ih fun name mark hmem => h name mark (List.mem_cons_of_mem _ hmem), List.append_nil, if_neg]
      rw [Bool.and_eq_true, beq_iff_eq, Option.isNone_iff_eq_none, not_and]
      intro hname hnone
      have haccepted := h name mark List.mem_cons_self hname
      rw [hnone] at haccepted
      cases haccepted
  | case3 a rest _ ih => exact ih fun name mark hmem => h name mark (List.mem_cons_of_mem _ hmem)

theorem comparator_takes_string {r : Registry} (hr : r.signatures ⊆ Signature.table) {name : τ}
    {s : Signature} (hlookup : r.leafLookup? name = some s) :
    ∀ rule ∈ s.tag? ":comparator", rule.value = some .string := by
  have htable : ∀ s ∈ Signature.table, ∀ rule ∈ s.tag? ":comparator", rule.value = some .string := by
    decide
  exact htable s (hr (Registry.mem_of_leafLookup? hlookup).1)

theorem Signature.name_of_tag? {s : Signature} {name : String} {rule : TagRule}
    (h : s.tag? name = some rule) : rule.name = name := by
  simpa using List.find?_some h

section Tags

variable {s : Signature} {name : τ} {mark : α} {rule : TagRule} {rest : List (Argument α τ)}

theorem tagUses_accepted (hrule : (Leaf.text? name).bind s.tag? = some rule) :
    tagUses s (.tag name mark :: rest) =
      (rule.need?.toList ++ if rule.name == ":comparator" then comparatorUse rest else []) ++
        tagUses s rest := by
  obtain ⟨text, htext, htag⟩ := Option.bind_eq_some_iff.1 hrule
  rw [tagUses, hrule, htext, Signature.name_of_tag? htag]
  rfl

theorem tagStrays_accepted (hrule : (Leaf.text? name).bind s.tag? = some rule) :
    tagStrays s (.tag name mark :: rest) = tagStrays s rest := by
  obtain ⟨text, htext, htag⟩ := Option.bind_eq_some_iff.1 hrule
  rw [tagStrays, htext, if_neg, List.nil_append]
  rw [Bool.and_eq_true, beq_iff_eq, Option.isNone_iff_eq_none, not_and]
  intro hname
  rw [← Option.some.inj hname, htag]
  exact nofun

theorem comparatorUse_cons (a : Argument α τ) (rest : List (Argument α τ)) :
    comparatorUse (a :: rest) = comparatorUse [a] := by
  cases a <;> rfl

theorem tagUses_of_not_tag {a : Argument α τ} (ha : a.isTag = false) (s : Signature)
    (rest : List (Argument α τ)) :
    tagUses s (a :: rest) = tagUses s rest ∧ tagStrays s (a :: rest) = tagStrays s rest := by
  cases a with
  | tag => cases ha
  | _ => exact ⟨rfl, rfl⟩

theorem comparatorUse_of_unfit {a : Argument α τ} (ha : ¬ (!a.isTag && a.hasType .string) = true) :
    comparatorUse (a :: rest) = [] := by
  cases a with
  | string => exact absurd rfl ha
  | _ => rfl

/-- Tags use what they need, with strays strewn in. -/
theorem strewn_tagUses (hs : ∀ rule ∈ s.tag? ":comparator", rule.value = some .string)
    (args : List (Argument α τ)) :
    Strewn ((Use.ofArguments s args).flatMap Use.needs) (tagUses s args) (tagStrays s args) := by
  have hstring : ∀ {name : τ} {rule : TagRule}, (Leaf.text? name).bind s.tag? = some rule →
      rule.name = ":comparator" → rule.value = some .string := by
    intro name rule hrule hname
    obtain ⟨text, -, htag⟩ := Option.bind_eq_some_iff.1 hrule
    rw [← Signature.name_of_tag? htag, hname] at htag
    exact hs rule htag
  fun_induction Use.ofArguments s args with
  | case1 => exact .refl [] []
  | case2 name mark rest hnone ih =>
      rw [tagUses, tagStrays, List.flatMap_cons, hnone]
      refine Strewn.append ?_ ih
      by_cases hname : Leaf.text? name = some ":comparator"
      · rw [hname, Option.bind_some] at hnone
        rw [hname, hnone]
        exact Strewn.all _
      · rw [if_neg (by simpa using hname), if_neg (by simp [hname])]
        exact .refl [] []
  | case3 name mark rule hrule rest hvalue ih =>
      have hname : ¬ (rule.name == ":comparator") = true := by
        rw [beq_iff_eq]
        intro hname
        rw [hstring hrule hname] at hvalue
        cases hvalue
      rw [tagUses_accepted hrule, tagStrays_accepted hrule, List.flatMap_cons, if_neg hname,
        List.append_nil]
      exact ih.prepend _
  | case4 name mark rule hrule type hvalue =>
      have hnothing : comparatorUse ([] : List (Argument α τ)) = [] := rfl
      rw [tagUses_accepted hrule, tagStrays_accepted hrule, hnothing, ite_self, List.append_nil,
        tagUses, List.append_nil, List.flatMap_singleton]
      exact .refl _ _
  | case5 name mark rule hrule type value rest hvalue hfits ih =>
      rw [Bool.and_eq_true, Bool.not_eq_true'] at hfits
      obtain ⟨huses, hstrays⟩ := tagUses_of_not_tag hfits.1 s rest
      rw [tagUses_accepted hrule, tagStrays_accepted hrule, List.flatMap_cons, comparatorUse_cons,
        huses, hstrays]
      exact ih.prepend _
  | case6 name mark rule hrule type value rest hvalue hfits ih =>
      have hnothing :
          (if rule.name == ":comparator" then comparatorUse (value :: rest) else []) = [] := by
        split
        · next hname =>
            rw [beq_iff_eq] at hname
            rw [hstring hrule hname] at hvalue
            cases hvalue
            exact comparatorUse_of_unfit hfits
        · rfl
      rw [tagUses_accepted hrule, tagStrays_accepted hrule, List.flatMap_cons, hnothing,
        List.append_nil]
      exact ih.prepend _
  | case7 a rest hnot ih =>
      obtain ⟨huses, hstrays⟩ := tagUses_of_not_tag (isTag_eq_false hnot) s rest
      rw [huses, hstrays]
      exact ih

end Tags

theorem Node.strewn_uses {r : Registry} (hr : r.signatures ⊆ Signature.table) (n : Node α τ) :
    Strewn (n.needs r) (n.uses r) (n.strays r) := by
  unfold needs uses nodeUses strays
  cases hlookup : r.leafLookup? n.name with
  | none => exact .refl [] []
  | some s =>
      exact (strewn_tagUses (comparator_takes_string hr hlookup) n.arguments).prepend _

/-! ## Scripts -/

theorem Head.uses_eq (r : Registry) {h : Head α τ} (hone : h.tests.length ≤ 1) :
    h.uses r = h.nodes.flatMap (·.uses r) := by
  have hfirst : h.test? = h.tests.head? := List.head?_filterMap.symm
  rw [uses, nodes, List.flatMap_cons, List.flatMap_map, hfirst]
  refine congrArg (_ ++ ·) ?_
  cases htests : h.tests with
  | nil => rfl
  | cons t ts =>
      rw [htests, List.length_cons] at hone
      have hts : ts = [] := List.eq_nil_of_length_eq_zero (by omega)
      rw [hts, List.flatMap_singleton]
      rfl

namespace Script

variable {t : Script α τ} {r : Registry}

/-- What a script only seems to need. -/
def strays (r : Registry) (t : Script α τ) : List String := t.nodes.flatMap (·.strays r)

/-- What a script uses, with repeats, is what it needs with strays strewn in. -/
theorem strewn_uses (ht : ∀ c ∈ t.walk, c.head.OneTest) (hr : r.signatures ⊆ Signature.table) :
    Strewn (t.needs r) (t.walk.flatMap fun c => c.head.uses r) (t.strays r) := by
  have huses : (t.walk.flatMap fun c => c.head.uses r) = t.nodes.flatMap (·.uses r) := by
    rw [nodes, List.flatMap_assoc]
    exact List.flatMap_congr fun c hc => c.head.uses_eq r (ht c hc).one
  rw [huses]
  exact Strewn.flatMap t.nodes fun n _ => n.strewn_uses hr

theorem comparator_of_mem_strays {c : String} (hc : c ∈ t.strays r) :
    ∃ name, c = "comparator-" ++ Text.lower name := by
  obtain ⟨n, -, hc⟩ := List.mem_flatMap.1 hc
  unfold Node.strays at hc
  split at hc
  · cases hc
  · exact comparator_of_mem_tagStrays hc

theorem strays_eq_nil (h : ∀ n ∈ t.nodes, n.AcceptsComparators r) : t.strays r = [] := by
  refine List.flatMap_eq_nil_iff.2 fun n hn => ?_
  unfold Node.strays
  split
  · rfl
  · next s hlookup => exact tagStrays_eq_nil (h n hn s hlookup)

/-- What a script lacks: the capabilities that its problems report as missing, each once. -/
def lacks [Inhabited α] (r : Registry) (t : Script α τ) : List String :=
  (missingCapabilities (t.problems r)).eraseDups

/-- How what a script lacks agrees with what it uses. -/
structure Gated [Inhabited α] (r : Registry) (t : Script α τ) : Prop where
  nodup : (t.lacks r).Nodup
  used : ∀ c ∈ t.lacks r, c ∈ t.uses r
  undeclared : ∀ c ∈ t.lacks r, c ∉ t.declared
  /-- With repeats, the missing capabilities are some of the used ones in the same order. -/
  sublist : (missingCapabilities (t.problems r)).Sublist (t.walk.flatMap fun c => c.head.uses r)
  /-- Without strays, what is missing is what is used and not declared, in the same order. -/
  order : (t.lacks r).filter (· ∉ t.strays r) =
    ((t.uses r).filter (· ∉ t.declared)).filter (· ∉ t.strays r)
  /-- What is used, but neither declared nor missing, is a stray and names a comparator. -/
  rest : ∀ c ∈ t.uses r, c ∉ t.declared → c ∉ t.lacks r →
    c ∈ t.strays r ∧ ∃ name, c = "comparator-" ++ Text.lower name
  /-- Where every `:comparator` is accepted, nothing is used and passed over. -/
  agree : (∀ n ∈ t.nodes, n.AcceptsComparators r) → t.lacks r = (t.uses r).filter (· ∉ t.declared)

theorem gated_of_strewn [Inhabited α] (hr : r.signatures ⊆ Signature.table)
    (h : Strewn (t.needs r) (t.walk.flatMap fun c => c.head.uses r) (t.strays r)) : t.Gated r := by
  have hmissing := missing_problems hr t
  have hlacks : t.lacks r = (t.needs r).eraseDups.filter (· ∉ t.declared) := by
    rw [lacks, hmissing, eraseDups_filter]
  have hmem : ∀ c, c ∈ t.lacks r ↔ c ∈ t.needs r ∧ c ∉ t.declared := by
    intro c
    rw [hlacks, List.mem_filter, List.mem_eraseDups, decide_eq_true_iff]
  have horder : (t.lacks r).filter (· ∉ t.strays r) =
      ((t.uses r).filter (· ∉ t.declared)).filter (· ∉ t.strays r) := by
    have hkept := h.filter (· ∉ t.strays r) (by simp)
    calc (t.lacks r).filter (· ∉ t.strays r)
        = ((t.needs r).filter (· ∉ t.strays r)).eraseDups.filter (· ∉ t.declared) := by
          rw [hlacks, List.filter_comm, eraseDups_filter]
      _ = (((t.walk.flatMap fun c => c.head.uses r).filter (· ∉ t.strays r)).eraseDups).filter
            (· ∉ t.declared) := by rw [hkept]
      _ = ((t.uses r).filter (· ∉ t.declared)).filter (· ∉ t.strays r) := by
          rw [eraseDups_filter, List.filter_comm]
          rfl
  refine ⟨nodup_eraseDups _, fun c hc => ?_, fun c hc => ((hmem c).1 hc).2, ?_, horder,
    fun c hc hdeclared hlacking => ?_, fun haccepts => ?_⟩
  · exact List.mem_eraseDups.2 (h.sublist.subset ((hmem c).1 hc).1)
  · rw [hmissing]
    exact List.filter_sublist.trans h.sublist
  · have hstray : c ∈ t.strays r := by
      rcases h.mem (List.mem_eraseDups.1 hc) with hneed | hstray
      · exact absurd ((hmem c).2 ⟨hneed, hdeclared⟩) hlacking
      · exact hstray
    exact ⟨hstray, comparator_of_mem_strays hstray⟩
  · rw [strays_eq_nil haccepts] at horder
    simpa using horder

/-- What a script that was read lacks agrees with what it uses, but for strays. -/
theorem gated_of_ofText {source filename : String} {o : ReadOptions} {t : Script}
    (h : Script.ofText source filename o = .ok t) (hr : r.signatures ⊆ Signature.table) :
    t.Gated r :=
  gated_of_strewn hr (strewn_uses (shaped_of_ofText h).heads hr)

/-- A script with a `:comparator` that its command does not accept, and one that its test does. -/
def strayFirst : String :=
  "keep :comparator \"x\"; fileinto \"a\"; if header :comparator \"x\" \"a\" \"b\" { stop; }"

theorem gated_of_ofText_strayFirst :
    ∃ t, Script.ofText strayFirst "f" .default = .ok t ∧ t.Gated .default := by
  obtain ⟨t, ht⟩ := exists_ok_of_isOk
    (show (Script.ofText strayFirst "f" .default).isOk = true by decide +kernel)
  exact ⟨t, ht, gated_of_ofText ht (List.Subset.refl _)⟩

/-- A stray may come before what is missing, and be missing itself later on. -/
theorem lacks_not_sublist : ∃ t, Script.ofText strayFirst "f" .default = .ok t ∧
    ¬ (t.lacks .default).Sublist (t.uses .default) := by
  obtain ⟨t, ht⟩ := exists_ok_of_isOk
    (show (Script.ofText strayFirst "f" .default).isOk = true by decide +kernel)
  refine ⟨t, ht, ?_⟩
  have hnot : ∀ u ∈ (Script.ofText strayFirst "f" .default).toOption,
      ¬ (u.lacks .default).Sublist (u.uses .default) := by decide +kernel
  exact hnot t (by rw [ht]; rfl)

end Script

end MailFilter
