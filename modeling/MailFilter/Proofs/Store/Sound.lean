import MailFilter.Proofs.Store.Rooted
import MailFilter.Store.Audit
import MailFilter.Store.Edit

/-!
# Sound scripts

When a script is sound, whatever else is in the store: what can be reached from it is a tree, the links
back agree, no test is shared, and the capabilities belong to the `require` at its front.
-/

namespace MailFilter.Store

variable {s : Store} {k : ScriptId} {c d : CommandId}

def testsOf (s : Store) (c : CommandId) : List Nat := testIds (s.command c).head.arguments

/-- No test is met twice among the commands of a script. -/
structure TestsApart (s : Store) (k : ScriptId) : Prop where
  nodup : ∀ c, s.Inside (s.script k).block c → (s.testsOf c).Nodup
  apart : ∀ c d, s.Inside (s.script k).block c → s.Inside (s.script k).block d → c ≠ d →
    (s.testsOf c).Disjoint (s.testsOf d)

/-- A script without anything that an audit blames. -/
structure Sound (s : Store) (k : ScriptId) : Prop where
  /-- The top block belongs to the script. -/
  top : (s.block (s.script k).block).owner = some (.script k)
  /-- Every command is listed once. -/
  listed : s.ListedOnce (s.script k).block
  /-- A command names the block that lists it. -/
  parent : ∀ c b, s.Part (s.script k).block b → c ∈ (s.block b).commands →
    (s.command c).parent = some b
  /-- The block of a command belongs to it. -/
  own : ∀ c b, s.Inside (s.script k).block c → (s.command c).block = some b →
    (s.block b).owner = some (.command c)
  /-- No test is shared. -/
  tests : s.TestsApart k
  /-- A `require` without arguments stands at the first place of the top block only. -/
  front : ∀ c b i, s.Part (s.script k).block b → (s.block b).commands[i]? = some c →
    (s.command c).head.isBareRequire = true → b = (s.script k).block ∧ i = 0
  /-- Capabilities differ in lower case. -/
  distinct : (((s.script k).capabilities.map Value.plain).map Text.lower).Nodup
  /-- Capabilities have a `require` that they belong to. -/
  held : (s.script k).capabilities ≠ [] → (s.requireOf? k).isSome = true

/-- The values of a script are such that an audit can look at them, and only tests are inside tests. -/
structure Fits (s : Store) (k : ScriptId) : Prop where
  names : ∀ c, s.Inside (s.script k).block c → (s.command c).head.name.fitName = .ok ()
  tests : ∀ c, s.Inside (s.script k).block c →
    ∀ a ∈ (s.command c).head.tests.flatMap Test.items, a.test?.isSome = true
  capabilities : ∀ v ∈ (s.script k).capabilities, v.fitText = .ok ()

/-- What is wrong with a script where an audit gives a finding. -/
def Defect (s : Store) (k : ScriptId) : EditError → Prop
  | .misfit _ => ¬ s.Fits k
  | .refused .topBlock _ => (s.block (s.script k).block).owner ≠ some (.script k)
  | .refused (.commandTwice _) _ => ¬ s.ListedOnce (s.script k).block
  | .refused (.staleParent _) _ => ∃ c b, s.Part (s.script k).block b ∧
      c ∈ (s.block b).commands ∧ (s.command c).parent ≠ some b
  | .refused (.staleBlock _) _ => ∃ c b, s.Inside (s.script k).block c ∧
      (s.command c).block = some b ∧ (s.block b).owner ≠ some (.command c)
  | .refused (.sharedTest _) _ => ¬ s.TestsApart k
  | .refused .lateRequire _ => ∃ c b i, s.Part (s.script k).block b ∧
      (s.block b).commands[i]? = some c ∧ (s.command c).head.isBareRequire = true ∧
      ¬ (b = (s.script k).block ∧ i = 0)
  | .refused .capabilityTwice _ => ¬ (((s.script k).capabilities.map Value.plain).map Text.lower).Nodup
  | .refused .capabilitiesAlone _ => (s.script k).capabilities ≠ [] ∧ s.requireOf? k = none
  | _ => False

theorem Sound.misfit_of_defect (h : s.Sound k) {e : EditError} (hdefect : s.Defect k e) :
    (∃ m, e = .misfit m) ∧ ¬ s.Fits k := by
  unfold Defect at hdefect
  split at hdefect
  · exact ⟨⟨_, rfl⟩, hdefect⟩
  · exact absurd h.top hdefect
  · exact absurd h.listed hdefect
  · obtain ⟨c, b, hb, hc, hparent⟩ := hdefect
    exact absurd (h.parent c b hb hc) hparent
  · obtain ⟨c, b, hc, hblock, howner⟩ := hdefect
    exact absurd (h.own c b hc hblock) howner
  · exact absurd h.tests hdefect
  · obtain ⟨c, b, i, hb, hc, hbare, hplace⟩ := hdefect
    exact absurd (h.front c b i hb hc hbare) hplace
  · exact absurd h.distinct hdefect
  · obtain ⟨hne, hnone⟩ := hdefect
    have := h.held hne
    rw [hnone] at this
    cases this
  · exact hdefect.elim

theorem Sound.rooted (h : s.Sound k) : s.Rooted (s.script k).block := by
  refine ⟨fun c hc => ?_, h.listed, fun c d b hc hd hcb hdb => ?_, fun c hc hblock => ?_⟩
  · obtain ⟨b, hb, hcb⟩ := hc.exists_part
    exact lt_of_parent (h.parent c b hb hcb)
  · have howner := (h.own c b hc hcb).symm.trans (h.own d b hd hdb)
    cases howner
    rfl
  · have howner := (h.own c _ hc hblock).symm.trans h.top
    cases howner

end MailFilter.Store
