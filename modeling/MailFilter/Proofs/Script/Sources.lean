import MailFilter.Proofs.Reading.Invariant
import MailFilter.Proofs.Script.Texts

/-!
# What scripts are made of

Commands of a script that was read, and what stands among their arguments or inside the tests there.
All of it can be written, wherever it is put.
-/

namespace MailFilter

variable {α β τ : Type}

/-! ## Arguments -/

/-- An argument that can be written: a plain one or a test. -/
def Argument.Writable : Argument α → Prop
  | .test t => t.Printable
  | a => a.IsPlain

theorem Argument.Writable.of_isPlain {a : Argument α} (h : a.IsPlain) : a.Writable := by
  cases a with
  | test t => exact h.elim
  | string | strings | number | tag | foreign => exact h

theorem Argument.writable_map (f : α → β) (a : Argument α) : (a.map f id).Writable ↔ a.Writable := by
  cases a with
  | test t => exact Test.printable_map f t
  | string | strings | number | tag | foreign => exact Iff.rfl

theorem Argument.writable_of_printableAll {as : List (Argument α)} (h : Argument.PrintableAll as) :
    ∀ a ∈ as, a.Writable := by
  obtain ⟨plain, hplain, hcases⟩ := Argument.printableAll_cases h
  have hwritable := fun a ha => Argument.Writable.of_isPlain (hplain a ha)
  rcases hcases with rfl | ⟨t, rfl, ht⟩
  · exact hwritable
  · rw [List.forall_mem_append, List.forall_mem_singleton]
    exact ⟨hwritable, ht⟩

mutual

theorem Test.Printable.items : ∀ t : Test α, t.Printable →
    ∀ a ∈ t.items, ∃ u, a = .test u ∧ u.Printable
  | .mk name arguments tests m, h => by
      rw [Test.items, List.forall_mem_cons]
      exact ⟨⟨_, rfl, h⟩, Argument.PrintableTests.items tests h.2.2⟩

theorem Argument.PrintableTests.items : ∀ as : List (Argument α), Argument.PrintableTests as →
    ∀ a ∈ Test.itemsOf as, ∃ u, a = .test u ∧ u.Printable
  | [], _ => fun _ ha => absurd ha List.not_mem_nil
  | .test t :: as, h => by
      rw [Test.itemsOf, List.forall_mem_append]
      exact ⟨Test.Printable.items t h.1, Argument.PrintableTests.items as h.2⟩
  | .string .. :: _, h | .strings .. :: _, h | .number .. :: _, h | .tag .. :: _, h
  | .foreign .. :: _, h => h.elim

end

/-- An argument of a command, of a test in it, or a test inside another one. -/
def Head.Holds (h : Head α τ) (a : Argument α τ) : Prop :=
  a ∈ h.arguments ∨ ∃ t ∈ h.tests, a ∈ t.items ∨ ∃ u ∈ t.walk, a ∈ u.arguments

theorem Head.Printable.writable {h : Head α} (hprint : h.Printable) {a : Argument α} (ha : h.Holds a) :
    a.Writable := by
  have hall := Argument.writable_of_printableAll hprint.arguments
  rcases ha with ha | ⟨t, ht, hinside⟩
  · exact hall a ha
  · obtain ⟨b, hb, htest⟩ := List.mem_filterMap.1 ht
    have hprint : t.Printable := by
      cases b <;> cases htest
      exact hall _ hb
    have hitems := Test.Printable.items t hprint
    rcases hinside with ha | ⟨u, hu, ha⟩
    · obtain ⟨u, rfl, hu⟩ := hitems a ha
      exact hu
    · obtain ⟨c, hc, htest⟩ := List.mem_filterMap.1 hu
      obtain ⟨v, rfl, hv⟩ := hitems c hc
      cases htest
      obtain ⟨name, arguments, tests, m⟩ := u
      exact .of_isPlain (hv.2.1 a ha)

/-! ## Commands -/

mutual

theorem Command.Printable.walk : ∀ c : Command α, c.Printable → ∀ d ∈ c.walk, d.Printable
  | .simple head, h => by
      rw [Command.walk, List.forall_mem_singleton]
      exact h
  | .control head cs trailing opening, h => by
      rw [Command.walk, List.forall_mem_cons]
      exact ⟨h, Command.PrintableAll.walk cs h.2.2⟩

theorem Command.PrintableAll.walk : ∀ cs : List (Command α), Command.PrintableAll cs →
    ∀ d ∈ Command.walkAll cs, d.Printable
  | [], _ => fun _ hd => absurd hd List.not_mem_nil
  | c :: cs, h => by
      rw [Command.walkAll, List.forall_mem_append]
      exact ⟨Command.Printable.walk c h.1, Command.PrintableAll.walk cs h.2⟩

end

def Command.IsRead (c : Command) : Prop :=
  ∃ source filename t, Script.ofText source filename .default = .ok t ∧ c ∈ t.walk

theorem Command.IsRead.printable {c : Command} (h : c.IsRead) : c.Printable := by
  obtain ⟨source, filename, t, hread, hc⟩ := h
  exact Command.PrintableAll.walk t.commands (Reading.printable_of_ofText hread).1.commands c hc

theorem Command.Printable.head {c : Command α} (h : c.Printable) : c.head.Printable := by
  cases c with
  | simple | control => exact h.1

end MailFilter
