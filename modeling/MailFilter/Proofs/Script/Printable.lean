import MailFilter.Proofs.Lexeme.Spelling
import MailFilter.Registry
import MailFilter.Script.Tree

/-!
# Printable scripts

The trees whose canonical text can be read back: names and tags are words, numbers are short enough
to be written, tests stand where tests may stand, and blocks belong to the commands that have one.
-/

namespace MailFilter

/-- A name as scripts write it, in lower case if it is a keyword. -/
def IsName (name : String) : Prop :=
  Lexeme.IsAtom name.toList ∧ ((Keyword.ofName? name).isSome = true → Text.lower name = name)

theorem IsName.normalName {name : String} (h : IsName name) : Keyword.normalName name = name := by
  rw [Keyword.normalName]
  split
  · next hkeyword => exact h.2 (by rw [hkeyword]; rfl)
  · rfl

def IsTag (name : String) : Prop :=
  Lexeme.IsWord name.toList ∧ name.toList.head? = some ':' ∧ Text.lower name = name

def IsShort (value : Int) : Prop := 0 ≤ value ∧ (toString value).length ≤ Text.maxDigits

/-- An argument that is no test and can be written. -/
def Argument.IsPlain : Argument α → Prop
  | .string .. | .strings .. => True
  | .number value _ _ => IsShort value
  | .tag name _ => IsTag name
  | .test _ | .foreign _ => False

mutual

/-- A test that can be written: its arguments are no tests, and what stands inside it are tests. -/
def Test.Printable : Test α → Prop
  | .mk name arguments tests _ =>
    IsName name ∧ (∀ a ∈ arguments, a.IsPlain) ∧ Argument.PrintableTests tests

def Argument.PrintableTests : List (Argument α) → Prop
  | [] => True
  | .test t :: as => t.Printable ∧ Argument.PrintableTests as
  | _ :: _ => False

end

/-- The arguments of a command: a test stands last if there is one. -/
def Argument.PrintableAll : List (Argument α) → Prop
  | [] => True
  | [.test t] => t.Printable
  | a :: as => a.IsPlain ∧ Argument.PrintableAll as

/-- A command without its block that can be written. -/
structure Head.Printable (h : Head α) : Prop where
  name : IsName h.name
  arguments : Argument.PrintableAll h.arguments

mutual

/-- A command that can be written: one that must have a block has one, and one that must not have
a block has none. -/
def Command.Printable : Command α → Prop
  | .simple head => head.Printable ∧ Registry.default.isControl? head.name ≠ some true
  | .control head commands _ _ =>
    head.Printable ∧ Registry.default.isControl? head.name ≠ some false ∧
      Command.PrintableAll commands

def Command.PrintableAll : List (Command α) → Prop
  | [] => True
  | c :: cs => c.Printable ∧ Command.PrintableAll cs

end

/-- Whether arguments are one string or one list of strings. -/
def Argument.isDeclaration : List (Argument α) → Bool
  | [.string ..] | [.strings ..] => true
  | _ => false

/-- A script that can be written: what its first command declares stands in the script and not in
that command, every capability once. -/
structure Script.Printable (s : Script α) : Prop where
  commands : Command.PrintableAll s.commands
  front : ∀ c ∈ s.commands.head?, c.head.keyword? = some .require →
    Argument.isDeclaration c.head.arguments = false
  nodup : s.capabilities.Nodup
  declared : s.capabilities ≠ [] → s.requireHead?.isSome = true

theorem Command.printableAll_iff {cs : List (Command α)} :
    Command.PrintableAll cs ↔ ∀ c ∈ cs, c.Printable := by
  induction cs with
  | nil => simp [Command.PrintableAll]
  | cons c cs ih => rw [Command.PrintableAll, ih, List.forall_mem_cons]

theorem Argument.printableTests_iff {as : List (Argument α)} :
    Argument.PrintableTests as ↔ ∀ a ∈ as, ∃ t, a = .test t ∧ t.Printable := by
  induction as with
  | nil => simp [Argument.PrintableTests]
  | cons a as ih =>
      rw [List.forall_mem_cons, ← ih]
      cases a <;> simp [Argument.PrintableTests]

theorem Argument.printableAll_append {as bs : List (Argument α)} (has : ∀ a ∈ as, a.IsPlain)
    (hbs : Argument.PrintableAll bs) : Argument.PrintableAll (as ++ bs) := by
  induction as with
  | nil => exact hbs
  | cons a as ih =>
      obtain ⟨ha, hrest⟩ := List.forall_mem_cons.1 has
      cases a with
      | test t => exact ha.elim
      | _ => exact ⟨ha, ih hrest⟩

theorem Argument.printableAll_of_plain {as : List (Argument α)} (h : ∀ a ∈ as, a.IsPlain) :
    Argument.PrintableAll as := by
  have hnone : Argument.PrintableAll ([] : List (Argument α)) := trivial
  have := Argument.printableAll_append h hnone
  rwa [List.append_nil] at this

theorem Argument.printableAll_cases {as : List (Argument α)} (h : Argument.PrintableAll as) :
    ∃ plain : List (Argument α), (∀ a ∈ plain, a.IsPlain) ∧
      (as = plain ∨ ∃ t, as = plain ++ [.test t] ∧ t.Printable) := by
  fun_induction Argument.PrintableAll as with
  | case1 => exact ⟨[], by simp, .inl rfl⟩
  | case2 t => exact ⟨[], by simp, .inr ⟨t, rfl, h⟩⟩
  | case3 a as _ ih =>
      obtain ⟨plain, hplain, hcases⟩ := ih h.2
      refine ⟨a :: plain, List.forall_mem_cons.2 ⟨h.1, hplain⟩, ?_⟩
      rcases hcases with rfl | ⟨t, rfl, ht⟩
      · exact .inl rfl
      · exact .inr ⟨t, rfl, ht⟩

end MailFilter
