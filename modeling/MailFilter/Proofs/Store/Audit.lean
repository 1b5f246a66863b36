import MailFilter.Proofs.Store.Findings

/-!
# Audits where everything has one owner

There an audit finds nothing but tests that are shared, values that do not fit, and capabilities apart
from a leading `require`.
-/

namespace MailFilter.Store

variable {s : Store} {lost : List CommandId} {k : ScriptId}

/-- What can be wrong where everything has one owner: the `require` of the script, if it is. -/
inductive Found (wrong : Prop) : EditError → Prop where
  | misfit (m : Misfit) : Found wrong (.misfit m)
  | shared (test : String) (command : Option Value) : Found wrong (.refused (.sharedTest test) command)
  | front (hwrong : wrong) {reason : Refusal} (hreason : reason.invariant = .requireFirst)
      (command : Option Value) : Found wrong (.refused reason command)

theorem Found.mono {wrong wrong' : Prop} {e : EditError} (h : wrong → wrong') (he : Found wrong e) :
    Found wrong' e := by
  cases he with
  | misfit m => exact .misfit m
  | shared test command => exact .shared test command
  | front hwrong hreason command => exact .front (h hwrong) hreason command

/-- A check gives what it should, or finds something. -/
def Finds {γ : Type} (wrong : Prop) (good : γ → Prop) : Except EditError γ → Prop
  | .ok x => good x
  | .error e => Found wrong e

theorem Finds.mono {γ : Type} {wrong wrong' : Prop} {good : γ → Prop} {x : Except EditError γ}
    (h : wrong → wrong') (hx : Finds wrong good x) : Finds wrong' good x := by
  cases x with
  | error e => exact Found.mono h hx
  | ok y => exact hx

/-- No `require` without arguments is elsewhere than at the front of a script. -/
def OnlyFront (s : Store) (k : ScriptId) : Prop :=
  ∀ c ∈ s.walkScript k, (s.command c).head.isBareRequire = true →
    (s.block (s.script k).block).commands.head? = some c

/-- The `require` of a script leads it, and the capabilities belong to it. -/
structure RequireFirst (s : Store) (k : ScriptId) : Prop where
  /-- The `require` is first. -/
  front : s.OnlyFront k
  /-- No capability is declared twice. -/
  distinct : hasTwice ((s.script k).capabilities.map Value.plain) = false
  /-- Capabilities have a `require` that they belong to. -/
  held : (s.script k).capabilities = [] ∨ (s.requireOf? k).isSome = true

theorem Sound.requireFirst (h : s.Sound k) : s.RequireFirst k := by
  refine ⟨fun c hc hbare => ?_, hasTwice_eq_false.2 h.distinct, ?_⟩
  · obtain ⟨b, hb, hcb⟩ := (h.rooted.mem_walkScript.1 hc).exists_part
    obtain ⟨i, hi⟩ := List.mem_iff_getElem?.1 hcb
    obtain ⟨rfl, rfl⟩ := h.front c b i hb hi hbare
    rw [List.head?_eq_getElem?, hi]
  · exact Classical.or_iff_not_imp_left.2 h.held

theorem OnlyFront.place (hfront : s.OnlyFront k) (h : s.Owned lost) {c : CommandId} {b : BlockId} {i : Nat}
    (hb : s.Part (s.script k).block b) (hi : (s.block b).commands[i]? = some c)
    (hbare : (s.command c).head.isBareRequire = true) : b = (s.script k).block ∧ i = 0 := by
  have hc := List.mem_of_getElem? hi
  have hhead := hfront c (h.mem_walkScript.2 (hb.inside hc)) hbare
  have hbtop := h.block_unique hc (List.mem_of_mem_head? hhead)
  subst hbtop
  rw [List.head?_eq_getElem?] at hhead
  have hlt := (List.getElem?_eq_some_iff.1 hi).1
  exact ⟨rfl, (List.getElem?_inj hlt (h.nodup _)).1 (hi.trans hhead.symm)⟩

/-- A defect where everything has one owner is one of the few that are left. -/
theorem Owned.found_of_defect (h : s.Owned lost) (hk : k < s.scripts.size) {e : EditError}
    (hdefect : s.Defect k e) : Found (¬ s.RequireFirst k) e := by
  unfold Defect at hdefect
  split at hdefect
  · exact .misfit _
  · exact absurd (h.top k hk) hdefect
  · exact absurd (h.rooted _).listed hdefect
  · obtain ⟨c, b, -, hc, hparent⟩ := hdefect
    exact absurd (h.parent_of_mem hc) hparent
  · obtain ⟨c, b, -, hblock, howner⟩ := hdefect
    exact absurd (h.own c b hblock) howner
  · exact .shared _ _
  · obtain ⟨c, b, i, hb, hi, hbare, hplace⟩ := hdefect
    exact .front (fun hfirst => hplace (hfirst.front.place h hb hi hbare)) rfl _
  · refine .front (fun hfirst => hdefect ?_) rfl _
    exact hasTwice_eq_false.1 hfirst.distinct
  · obtain ⟨hne, hnone⟩ := hdefect
    refine .front (fun hfirst => ?_) rfl _
    have hheld := hfirst.held.resolve_left hne
    rw [hnone] at hheld
    cases hheld
  · exact hdefect.elim

theorem finds_audit (h : s.Owned lost) {k : ScriptId} (hk : k < s.scripts.size) :
    Finds (¬ s.RequireFirst k) (fun _ => s.RequireFirst k) (s.audit k) := by
  have hmeets := meets_audit s k
  cases haudit : s.audit k with
  | ok n =>
      rw [haudit] at hmeets
      exact hmeets.1.requireFirst
  | error e =>
      rw [haudit] at hmeets
      exact h.found_of_defect hk hmeets

end MailFilter.Store
