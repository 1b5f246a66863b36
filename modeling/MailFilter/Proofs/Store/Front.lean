import MailFilter.Proofs.Store.Audit
import MailFilter.Proofs.Store.Operations

/-!
# Commands that change their place

What is inside a script after one command has another place, and when the `require` of the script is
still the first.
-/

namespace MailFilter.Store

open Relation

variable {s s' : Store} {lost : List CommandId} {k : ScriptId} {top b : BlockId}
  {c d e : CommandId} {place : Option BlockId}

/-- A block is a part of a script. -/
def Holds (s : Store) (k : ScriptId) (b : BlockId) : Prop :=
  b = (s.script k).block ∨ ∃ c ∈ s.walkScript k, (s.command c).block = some b

theorem Rooted.holds_iff (h : s.Rooted (s.script k).block) :
    s.Holds k b ↔ s.Part (s.script k).block b :=
  or_congr_right (exists_congr fun _ => and_congr_left fun _ => h.mem_walkScript)

/-! ## What is inside -/

theorem Relocated.below (hmove : Relocated s s' c place) (hd : s.Below d e)
    (hne : d ≠ c) : s'.Below d e := by
  obtain ⟨own, hblock, hd⟩ := hd
  exact ⟨own, (hmove.block _).trans hblock, (hmove.listed d own).2 (by rwa [if_neg hne])⟩

theorem Relocated.reaches (hmove : Relocated s s' c place) (hd : ReflTransGen s.Below d c) :
    ReflTransGen s'.Below d c := by
  induction hd using ReflTransGen.head_induction_on with
  | refl => exact .refl
  | @head d e hde _ ih =>
      by_cases hdc : d = c
      · rw [hdc]
      · exact .head (hmove.below hde hdc) ih

theorem Relocated.inside_of_not_reaches (hmove : Relocated s s' c place) (hd : s.Inside top d)
    (hfree : ¬ ReflTransGen s.Below d c) : s'.Inside top d := by
  obtain ⟨e, he, hde⟩ := hd
  induction hde using ReflTransGen.head_induction_on with
  | refl =>
      have hne : e ≠ c := fun h => hfree (h ▸ .refl)
      exact ⟨e, (hmove.listed e top).2 (by rwa [if_neg hne]), .refl⟩
  | @head d f hdf _ ih =>
      have hne : d ≠ c := fun h => hfree (h ▸ .refl)
      obtain ⟨e', he', hf⟩ := ih fun hfc => hfree (.head hdf hfc)
      exact ⟨e', he', .head (hmove.below hdf hne) hf⟩

theorem Relocated.inside (hmove : Relocated s s' c place) (h : s.Owned lost)
    (hd : s'.Inside (s.script k).block d) :
    d ∈ s.walkScript k ∨ ReflTransGen s.Below d c ∧ ∃ b, place = some b ∧ s.Holds k b := by
  obtain ⟨e, he, hde⟩ := hd
  induction hde using ReflTransGen.head_induction_on with
  | refl =>
      rw [hmove.listed] at he
      split at he
      · next hec => exact .inr ⟨hec ▸ .refl, _, he, .inl rfl⟩
      · exact .inl (h.mem_walkScript.2 ⟨e, he, .refl⟩)
  | @head d f hdf _ ih =>
      obtain ⟨own, hblock, hd⟩ := hdf
      rw [hmove.block] at hblock
      rw [hmove.listed] at hd
      split at hd
      · next hdc =>
          refine .inr ⟨hdc ▸ .refl, ?_⟩
          rcases ih with hf | ⟨-, hplace⟩
          · exact ⟨own, hd, .inr ⟨f, hf, hblock⟩⟩
          · exact hplace
      · have hdf : s.Below d f := ⟨own, hblock, hd⟩
        rcases ih with hf | ⟨hfc, hplace⟩
        · obtain ⟨e', he', hfe⟩ := h.mem_walkScript.1 hf
          exact .inl (h.mem_walkScript.2 ⟨e', he', .head hdf hfe⟩)
        · exact .inr ⟨.head hdf hfc, hplace⟩

theorem Relocated.inside_place (hmove : Relocated s s' c (some b)) (h : s.Owned lost)
    (hb : s.Holds k b) (hfree : ∀ e, (s.command e).block = some b → ¬ ReflTransGen s.Below e c) :
    s'.Inside (s.script k).block c := by
  have hc : c ∈ (s'.block b).commands := (hmove.listed c b).2 (by rw [if_pos rfl])
  rcases hb with rfl | ⟨e, he, hblock⟩
  · exact ⟨c, hc, .refl⟩
  · obtain ⟨f, hf, hef⟩ := hmove.inside_of_not_reaches (h.mem_walkScript.1 he) (hfree e hblock)
    exact ⟨f, hf, .head ⟨b, (hmove.block e).trans hblock, hc⟩ hef⟩

theorem exists_mem_of_inside (hc : s.Inside top c) : ∃ b, c ∈ (s.block b).commands := by
  obtain ⟨d, hd, hcd⟩ := hc
  rcases ReflTransGen.cases_head hcd with rfl | ⟨e, ⟨b, -, hce⟩, -⟩
  · exact ⟨top, hd⟩
  · exact ⟨b, hce⟩

/-- One command has another place, and the `require` of a script stays as it was. -/
structure Rearranged (s s' : Store) (k : ScriptId) (c : CommandId) (place : Option BlockId) : Prop
    extends Relocated s s' c place where
  free : ∀ b, place = some b → ∀ e, (s.command e).block = some b → ¬ ReflTransGen s.Below e c
  head : ∀ d, d ≠ c → (s'.command d).head = (s.command d).head
  keep : ∀ d, d ≠ c → s.requireOf? k = some d →
    (s'.block (s.script k).block).commands.head? = some d
  held : (s.script k).capabilities = [] ∨ s.requireOf? k ≠ some c

theorem Rearranged.joined (hmove : Rearranged s s' k c place) (h : s.Owned lost) :
    s'.Joined (lost.filter (· ≠ c)) :=
  h.toJoined.relocate hmove.toRelocated hmove.free

theorem requireOf?_eq_some : s.requireOf? k = some c ↔
    (s.block (s.script k).block).commands.head? = some c ∧
      (s.command c).head.isBareRequire = true := by
  rw [requireOf?, Option.filter_eq_some_iff]

theorem Rearranged.onlyFront (hmove : Rearranged s s' k c place) (h : s.Owned lost)
    (hfront : s.OnlyFront k)
    (hapart : ∀ b, place = some b → (s'.command c).head.isBareRequire = true → c ∉ s.walkScript k) :
    s'.OnlyFront k ↔ ∀ b, place = some b → s.Holds k b → ∀ d, ReflTransGen s.Below d c →
      (s'.command d).head.isBareRequire = true →
      (s'.block (s.script k).block).commands.head? = some d := by
  have hscript := hmove.script k
  constructor
  · rintro hfront' b rfl hb d hd hbare
    obtain ⟨e, he, hce⟩ := hmove.inside_place h hb (hmove.free b rfl)
    rw [← hscript]
    refine hfront' d ((hmove.joined h).mem_walkScript.2 ?_) hbare
    rw [hscript]
    exact ⟨e, he, (hmove.reaches hd).trans hce⟩
  · intro hcome d hd hbare
    rw [(hmove.joined h).mem_walkScript, hscript] at hd
    rw [hscript]
    rcases hmove.inside h hd with hold | ⟨hdc, b, hplace, hb⟩
    · by_cases hne : d = c
      · -- The command itself was inside the script before, so it is no `require` that comes.
        subst hne
        obtain ⟨b, hb⟩ := exists_mem_of_inside hd
        have hplace := (hmove.listed d b).1 hb
        rw [if_pos rfl] at hplace
        exact absurd hold (hapart b hplace hbare)
      · rw [hmove.head d hne] at hbare
        exact hmove.keep d hne (requireOf?_eq_some.2 ⟨hfront d hold hbare, hbare⟩)
    · exact hcome b hplace hb d hdc hbare

theorem Rearranged.requireOf? (hmove : Rearranged s s' k c place) (hne : d ≠ c)
    (hd : s.requireOf? k = some d) : s'.requireOf? k = some d := by
  refine requireOf?_eq_some.2 ⟨?_, ?_⟩
  · rw [hmove.script]
    exact hmove.keep d hne hd
  · rw [hmove.head d hne]
    exact (requireOf?_eq_some.1 hd).2

theorem Rearranged.keeps_held (hmove : Rearranged s s' k c place)
    (hheld : (s.script k).capabilities = [] ∨ (s.requireOf? k).isSome = true) :
    (s'.script k).capabilities = [] ∨ (s'.requireOf? k).isSome = true := by
  rw [hmove.script]
  rcases hheld with hnone | hsome
  · exact .inl hnone
  · obtain ⟨d, hd⟩ := Option.isSome_iff_exists.1 hsome
    refine hmove.held.imp_right fun hne => ?_
    have hdc : d ≠ c := by
      rintro rfl
      exact hne hd
    rw [hmove.requireOf? hdc hd]
    rfl

theorem Rearranged.requireFirst (hmove : Rearranged s s' k c place) (hfirst : s.RequireFirst k)
    (hfront : s'.OnlyFront k) : s'.RequireFirst k :=
  ⟨hfront, by rw [hmove.script]; exact hfirst.distinct, hmove.keeps_held hfirst.held⟩

theorem head?_ne_of_below (h' : s'.Joined lost) (hk : k < s'.scripts.size) (hd : TransGen s'.Below d c) :
    (s'.block (s'.script k).block).commands.head? ≠ some d := by
  intro hhead
  obtain ⟨e, ⟨b, hblock, hmem⟩, -⟩ := TransGen.head'_iff.1 hd
  have htop := h'.block_unique hmem (List.mem_of_mem_head? hhead)
  exact h'.block_ne (h'.top k hk) e (htop ▸ hblock)

/-- The `require` is still the first unless a command brings one below it, or is one itself and does
not become the first. -/
theorem Rearranged.onlyFront_iff (hmove : Rearranged s s' k c (some b)) (h : s.Owned lost)
    (hk : k < s.scripts.size) (hc : c < s.commands.size) (hfront : s.OnlyFront k)
    (hapart : (s'.command c).head.isBareRequire = true → c ∉ s.walkScript k) :
    s'.OnlyFront k ↔ ¬ (s.Holds k b ∧ ∃ d ∈ s.walk c, (s'.command d).head.isBareRequire = true ∧
      (d = c → (s'.block (s.script k).block).commands.head? ≠ some c)) := by
  have hscript := hmove.script k
  rw [hmove.onlyFront h hfront fun _ _ => hapart]
  constructor
  · rintro hcome ⟨hb, d, hd, hbare, hne⟩
    rw [h.mem_walk hc] at hd
    have hhead := hcome b rfl hb d hd hbare
    rcases reflTransGen_iff_eq_or_transGen.1 (hmove.reaches hd) with rfl | hbelow
    · exact hne rfl hhead
    · refine head?_ne_of_below (k := k) (hmove.joined h) (hmove.scripts ▸ hk) hbelow ?_
      rw [hscript]
      exact hhead
  · rintro hnone b' hb' hb d hd hbare
    cases hb'
    by_contra hhead
    exact hnone ⟨hb, d, (h.mem_walk hc).2 hd, hbare, fun hdc => hdc ▸ hhead⟩

/-! ## Commands that stay -/

theorem SameLinks.below_eq (hsame : SameLinks s s') : s'.Below = s.Below := by
  funext x y
  simp only [Below, hsame.block, hsame.listed]

theorem SameLinks.walkScript (hsame : SameLinks s s') (h : s.Owned lost) (h' : s'.Owned lost) :
    d ∈ s'.walkScript k ↔ d ∈ s.walkScript k := by
  rw [h.mem_walkScript, h'.mem_walkScript, Inside, Inside, hsame.below_eq, hsame.top, hsame.listed]

theorem SameLinks.requireOf? (hsame : SameLinks s s')
    (hbare : ∀ d, (s'.command d).head.isBareRequire = (s.command d).head.isBareRequire) :
    s'.requireOf? k = s.requireOf? k := by
  simp only [Store.requireOf?, hsame.top, hsame.listed, hbare]

theorem SameLinks.onlyFront (hsame : SameLinks s s') (h : s.Owned lost)
    (hbare : ∀ d, (s'.command d).head.isBareRequire = (s.command d).head.isBareRequire)
    (hfront : s.OnlyFront k) : s'.OnlyFront k := by
  intro d hd hd'
  rw [hsame.top, hsame.listed]
  rw [hbare] at hd'
  exact hfront d ((hsame.walkScript h (h.sameLinks hsame)).1 hd) hd'

theorem SameLinks.requireFirst (hsame : SameLinks s s') (h : s.Owned lost)
    (hbare : ∀ d, (s'.command d).head.isBareRequire = (s.command d).head.isBareRequire)
    (hcapabilities : (s'.script k).capabilities = [] ∨
      (s'.script k).capabilities = (s.script k).capabilities)
    (hfirst : s.RequireFirst k) : s'.RequireFirst k := by
  refine ⟨hsame.onlyFront h hbare hfirst.front, ?_, ?_⟩
  · rcases hcapabilities with hnone | hsame
    · rw [hnone]
      rfl
    · rw [hsame]
      exact hfirst.distinct
  · rcases hcapabilities with hnone | heq
    · exact .inl hnone
    · rw [heq, hsame.requireOf? hbare]
      exact hfirst.held

end MailFilter.Store
