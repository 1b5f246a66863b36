import MailFilter.Proofs.Layout.Chunk
import MailFilter.Proofs.Script.Number
import MailFilter.Proofs.Text.Trimming

/-!
# The tokens of a layout

Which tokens the canonical text of a tree has, read off the tree, and that the text has them where
the tree is printable and the indentation is blank.  Line endings, line lengths and the choice of
one line or several do not show in the tokens.
-/

namespace MailFilter.Layout

open Lexeme

variable {α : Type}

/-! ## Tokens -/

/-- The tokens of what stands inside a test of a name, given those of each test there. -/
def innerItems (name : String) : List (List Item) → List Item
  | [] => []
  | [items] =>
    if Keyword.ofName? name == some .notTest then items else .openParen :: items ++ [.closeParen]
  | tests => .openParen :: [.comma].intercalate tests ++ [.closeParen]

mutual

def argumentItems (threshold : Option Nat) : Argument α → List Item
  | .string value _ _ => [Literal.item threshold value]
  | .strings values _ => [.strings values]
  | .number value unit _ => [.number (toString value ++ unit.text)]
  | .tag name _ => [.tag name]
  | .test t => testItems threshold t
  | .foreign _ => []

def testItems (threshold : Option Nat) : Test α → List Item
  | .mk name as ts _ =>
    .identifier name :: (argumentsItems threshold as).flatten ++
      innerItems name (argumentsItems threshold ts)

def argumentsItems (threshold : Option Nat) : List (Argument α) → List (List Item)
  | [] => []
  | a :: as => argumentItems threshold a :: argumentsItems threshold as

end

theorem argumentsItems_append (threshold : Option Nat) (as bs : List (Argument α)) :
    argumentsItems threshold (as ++ bs) =
      argumentsItems threshold as ++ argumentsItems threshold bs := by
  induction as with
  | nil => rfl
  | cons a as ih => rw [List.cons_append, argumentsItems, argumentsItems, ih, List.cons_append]

/-- The lines of texts without the blanks at their ends. -/
def commentLines (texts : List String) : List String :=
  texts.flatMap fun text => (Text.lines text.toList).map fun line =>
    String.ofList (Text.trimRight line)

/-- The texts of the comments that are written for comments: one for each line, if any. -/
def commentTexts (o : LayoutOptions) (texts : List String) : List String :=
  if o.comments then commentLines texts else []

def commentItems (o : LayoutOptions) (cs : List Comment) : List Item :=
  (commentTexts o (cs.map (·.text))).map .comment

def headItems (threshold : Option Nat) (h : Head α) : List Item :=
  .identifier h.name :: (argumentsItems threshold h.arguments).flatten

mutual

def commandItems (o : LayoutOptions) : Command α → List Item
  | .simple h => commentItems o h.comments ++ headItems o.threshold h ++ [.semicolon]
  | .control h cs trailing _ =>
    commentItems o h.comments ++ headItems o.threshold h ++ [.openBrace] ++ commandsItems o cs ++
      commentItems o trailing ++ [.closeBrace]

def commandsItems (o : LayoutOptions) : List (Command α) → List Item
  | [] => []
  | c :: cs => commandItems o c ++ commandsItems o cs

end

/-- The tokens of the command that the capabilities of a script belong to. -/
def requireItems (o : LayoutOptions) (capabilities : List String) (c : Command α) : List Item :=
  commentItems o c.head.comments ++ [.identifier "require", .strings capabilities, .semicolon]

def scriptItems (o : LayoutOptions) (s : Script α) : List Item :=
  (match s.commands with
    | [] => []
    | c :: cs =>
      (if c.head.isBareRequire then requireItems o s.capabilities c else commandItems o c) ++
        commandsItems o cs) ++
    commentItems o s.block.trailing

theorem innerItems_many (name : String) (is js : List Item) (lists : List (List Item)) :
    innerItems name (is :: js :: lists) =
      .openParen :: [.comma].intercalate (is :: js :: lists) ++ [.closeParen] := rfl

/-! ## Equations by the number of tests inside

They hold by computation; those that Lean derives from the definitions are slow to find. -/

section

variable (o : LayoutOptions) (level : Nat) (name : String) (as : List (Argument α)) (mark : α)

theorem test_nil : test o level (.mk name as [] mark) = join (name.toList :: arguments o level as) :=
  rfl

theorem test_single (t : Argument α) :
    test o level (.mk name as [t] mark) =
      let head := join (name.toList :: arguments o level as)
      if Keyword.ofName? name == some .notTest then join [head, argument o level t]
      else head ++ gap head ++ '(' :: argument o (level + 1) t ++ [')'] := rfl

theorem test_many (t u : Argument α) (ts : List (Argument α)) :
    test o level (.mk name as (t :: u :: ts) mark) =
      let head := join (name.toList :: arguments o level as)
      let inner := arguments o (level + 1) (t :: u :: ts)
      if o.splitTests then
        let lines := inner.map (indentation o (level + 1) ++ ·)
        head ++ gap head ++ ['(', '\n'] ++ [',', '\n'].intercalate lines ++
          '\n' :: indentation o level ++ [')']
      else head ++ gap head ++ '(' :: Literal.commaJoin inner ++ [')'] := rfl

end

/-! ## What a layout spells -/

def BlankIndent (o : LayoutOptions) : Prop :=
  ∃ indent : String, o.indent = .text indent ∧ ∀ c ∈ indent.toList, Text.isBlank c = true

theorem forall_indentation {o : LayoutOptions} {indent : String} (hindent : o.indent = .text indent)
    {P : Char → Prop} (h : ∀ c ∈ indent.toList, P c) (level : Nat) : ∀ c ∈ indentation o level, P c := by
  intro c hc
  rw [indentation, hindent, Value.times?, Option.map_some, Option.getD_some, Value.plain,
    String.toList_join] at hc
  obtain ⟨cs, hcs, hc⟩ := List.mem_flatten.1 hc
  obtain ⟨text, htext, rfl⟩ := List.mem_map.1 hcs
  rw [List.eq_of_mem_replicate htext] at hc
  exact h c hc

theorem isBlank_of_mem_indentation {o : LayoutOptions} (ho : BlankIndent o) (level : Nat) :
    ∀ c ∈ indentation o level, Text.isBlank c = true := by
  obtain ⟨indent, hindent, hblank⟩ := ho
  exact forall_indentation hindent hblank level

theorem not_of_getLast?_dropTrailing {p : Char → Bool} {cs : List Char} {c : Char}
    (h : (Text.dropTrailing p cs).getLast? = some c) : p c = false := by
  induction cs with
  | nil => cases h
  | cons d cs ih =>
      rw [Text.dropTrailing_cons] at h
      split at h
      · cases h
      · next hkeep =>
          cases hrest : Text.dropTrailing p cs with
          | nil =>
              rw [hrest] at h hkeep
              cases h
              simpa using hkeep
          | cons e rest =>
              rw [hrest] at h ih
              rw [List.getLast?_cons_cons] at h
              exact ih h

theorem write_ne_nil (threshold : Option Nat) (value : String) : Literal.write threshold value ≠ [] := by
  by_cases hform : Literal.isMultiline threshold value = true
  · rw [(Literal.write_of_multiline hform).2, multiline_eq]
    simp
  · rw [Bool.not_eq_true] at hform
    rw [Literal.write_of_not_multiline hform]
    simp

section

variable {e : LineEnding}

theorem Chunk.name {name : String} (h : IsName name) : Chunk e name.toList [.identifier name] := by
  obtain ⟨⟨hword, hne, hcolon, hnumber, hkey⟩, -⟩ := h
  have := Chunk.word (e := e) hword hne hkey
  rwa [wordItem, if_neg (by simpa using hcolon), hnumber, if_neg (by simp), String.ofList_toList]
    at this

theorem Chunk.tag {name : String} (h : IsTag name) : Chunk e name.toList [.tag name] := by
  obtain ⟨hword, hcolon, -⟩ := h
  have hne : name.toList ≠ [] := by
    rintro heq
    rw [heq] at hcolon
    cases hcolon
  have hkey : isTextKey name.toList = false := by
    cases hcons : name.toList with
    | nil => exact absurd hcons hne
    | cons c cs =>
        rw [hcons, List.head?_cons, Option.some.injEq] at hcolon
        subst hcolon
        simp [isTextKey, show ':'.toLower = ':' by decide]
  have := Chunk.word (e := e) hword hne hkey
  rwa [wordItem, if_pos (by simpa using hcolon), String.ofList_toList] at this

theorem Chunk.number {value : Int} (h : IsShort value) (unit : NumberUnit) :
    Chunk e (toString value ++ unit.text).toList [.number (toString value ++ unit.text)] := by
  obtain ⟨hword, hkey, hitem⟩ := Reading.isWord_number h.1 unit
  have hne : (toString value ++ unit.text).toList ≠ [] := by
    rw [Reading.toList_number h.1]
    simp
  exact hitem ▸ Chunk.word (e := e) hword hne hkey

theorem Chunk.plain {o : LayoutOptions} {a : Argument α} (h : a.IsPlain) (level : Nat) :
    Chunk e (argument o level a) (argumentItems o.threshold a) := by
  cases a with
  | string value form mark =>
      exact (Closed.literal o.threshold value).chunk (write_ne_nil o.threshold value)
  | strings values mark =>
      exact (Closed.list o.threshold values).chunk (by simp [Literal.writeList])
  | number value unit mark => exact Chunk.number h unit
  | tag name mark => exact Chunk.tag h
  | test t => exact h.elim
  | foreign shown => exact h.elim

theorem Chunks.plain {o : LayoutOptions} {as : List (Argument α)} (h : ∀ a ∈ as, a.IsPlain)
    (level : Nat) : Chunks e (arguments o level as) (argumentsItems o.threshold as) := by
  induction as with
  | nil => exact .nil
  | cons a as ih =>
      obtain ⟨ha, has⟩ := List.forall_mem_cons.1 h
      exact .cons (Chunk.plain ha level) (ih has)

theorem Chunk.parens {a inner : List Char} {is js : List Item} (ha : Chunk e a is)
    (hinner : Chunk e inner js) :
    Chunk e (a ++ gap a ++ '(' :: inner ++ [')']) (is ++ (.openParen :: js ++ [.closeParen])) := by
  have hopen := Chunk.after_closed (Closed.sign (e := e) (c := '(') rfl) hinner
  have hclosed := hopen.append_closed (.inr (by decide)) (Closed.sign (c := ')') rfl)
  have := (ha.gap_closed hclosed).chunk (by simp)
  simpa using this

theorem Chunk.parens_lines {a inner indent : List Char} {is js : List Item} (ha : Chunk e a is)
    (hindent : ∀ c ∈ indent, Text.isBlank c = true) (hinner : Chunk e inner js) :
    Chunk e (a ++ gap a ++ ['(', '\n'] ++ inner ++ '\n' :: indent ++ [')'])
      (is ++ (.openParen :: js ++ [.closeParen])) := by
  have hbreak : Closed e ['\n'] [] := Closed.blank rfl
  have hopen := Chunk.after_closed ((Closed.sign (c := '(') rfl).append hbreak) hinner
  have hclose := (hbreak.append (Closed.blanks hindent)).append (Closed.sign (c := ')') rfl)
  have hclosed := hopen.append_closed (.inl (by decide)) hclose
  have := (ha.gap_closed hclosed).chunk (by simp)
  simpa using this

mutual

theorem Chunk.test {o : LayoutOptions} (ho : BlankIndent o) : ∀ (t : Test α), t.Printable →
    ∀ level, Chunk e (test o level t) (testItems o.threshold t)
  | .mk name as ts mark, h, level => by
      obtain ⟨hname, has, hts⟩ := h
      have hhead := (Chunk.name (e := e) hname).join (Chunks.plain (o := o) has level)
      match ts with
      | [] =>
          rw [test_nil, testItems, argumentsItems, innerItems, List.append_nil]
          exact hhead
      | [t] =>
          cases Chunks.tests ho [t] hts level with
          | cons ht _ =>
          cases Chunks.tests ho [t] hts (level + 1) with
          | cons ht' _ =>
          rw [test_single, testItems, argumentsItems, argumentsItems, innerItems]
          dsimp only
          split
          · have := hhead.join (.cons ht .nil)
            simpa using this
          · simpa using hhead.parens ht'
      | t :: u :: ts =>
          cases Chunks.tests ho (t :: u :: ts) hts (level + 1) with
          | cons ht hts =>
          rw [test_many, testItems, argumentsItems, argumentsItems, innerItems_many]
          dsimp only
          split
          · exact hhead.parens_lines (isBlank_of_mem_indentation ho level)
              (ht.lines (isBlank_of_mem_indentation ho (level + 1)) hts)
          · exact hhead.parens (ht.commaJoin hts)

theorem Chunks.tests {o : LayoutOptions} (ho : BlankIndent o) : ∀ (as : List (Argument α)),
    Argument.PrintableTests as →
    ∀ level, Chunks e (arguments o level as) (argumentsItems o.threshold as)
  | [], _, _ => .nil
  | .test t :: as, h, level => .cons (Chunk.test ho t h.1 level) (Chunks.tests ho as h.2 level)

end

/-! ## Commands -/

theorem Chunk.head {o : LayoutOptions} (ho : BlankIndent o) {h : Head α} (hprint : h.Printable)
    (level : Nat) : Chunk e (head o level h) (headItems o.threshold h) := by
  refine (Chunk.name (e := e) hprint.name).join ?_
  obtain ⟨plain, hplain, heq | ⟨t, heq, ht⟩⟩ := Argument.printableAll_cases hprint.arguments
  · rw [heq]
    exact Chunks.plain hplain level
  · rw [heq]
    have htest := Chunk.test (e := e) ho t ht level
    clear heq
    induction plain with
    | nil => exact .cons htest .nil
    | cons a plain ih =>
        obtain ⟨ha, hplain⟩ := List.forall_mem_cons.1 hplain
        exact .cons (Chunk.plain ha level) (ih hplain)

theorem Closed.comments {o : LayoutOptions} (ho : BlankIndent o) (level : Nat) (cs : List Comment) :
    Closed e (comments o level cs) (commentItems o cs) := by
  rw [Layout.comments, commentItems, commentTexts]
  split
  · have hitems : (commentLines (cs.map (·.text))).map Item.comment =
        cs.flatMap fun c => (Text.lines c.text.toList).flatMap fun line =>
          [.comment (String.ofList (Text.trimRight line))] := by
      simp only [commentLines, List.flatMap_map, List.map_flatMap, List.map_map,
        ← List.map_eq_flatMap]
      rfl
    rw [hitems]
    refine Closed.flatMap fun c _ => ?_
    rw [Text.unlines, List.flatMap_map]
    refine Closed.flatMap fun line hline => ?_
    have hbreak : '\n' ∉ Text.trimRight line :=
      fun hmem => Text.not_mem_of_mem_lines hline (Text.dropTrailing_subset Text.isBlank line hmem)
    have hreturn : ∀ c ∈ (Text.trimRight line).getLast?, c ≠ '\r' := by
      rintro _ hlast rfl
      exact absurd (not_of_getLast?_dropTrailing hlast) (by decide)
    have := (Closed.blanks (e := e) (isBlank_of_mem_indentation ho level)).append
      (Closed.comment hbreak hreturn)
    simpa using this
  · exact Closed.nil

mutual

theorem Closed.command {o : LayoutOptions} (ho : BlankIndent o) : ∀ (c : Command α), c.Printable →
    ∀ level, Closed e (command o level c) (commandItems o c)
  | .simple h, hprint, level => by
      have hend : Closed e [';', '\n'] [.semicolon] :=
        (Closed.sign rfl).append (Closed.blank rfl)
      have hline := (Chunk.head (e := e) ho hprint.1 level).append_closed (.inr (by decide)) hend
      have := (Closed.comments ho level h.comments).append
        ((Closed.blanks (isBlank_of_mem_indentation ho level)).append hline)
      rw [Layout.command, commandItems]
      simpa using this
  | .control h cs trailing opening, hprint, level => by
      have hbreak : Closed e ['\n'] [] := Closed.blank rfl
      have hindent := Closed.blanks (e := e) (isBlank_of_mem_indentation ho level)
      have hopen : Closed e ['\x7b', '\n'] [.openBrace] := (Closed.sign rfl).append hbreak
      have hclose : Closed e ['\x7d', '\n'] [.closeBrace] := (Closed.sign rfl).append hbreak
      have hline := (Chunk.head (e := e) ho hprint.1 level).gap_closed hopen
      have hinner := (Closed.commands ho cs hprint.2.2 (level + 1)).append
        (Closed.comments ho (level + 1) trailing)
      have := (Closed.comments ho level h.comments).append
        ((hindent.append hline).append (hinner.append (hindent.append hclose)))
      rw [Layout.command, commandItems]
      simpa using this

theorem Closed.commands {o : LayoutOptions} (ho : BlankIndent o) : ∀ (cs : List (Command α)),
    Command.PrintableAll cs → ∀ level, Closed e (commands o level cs) (commandsItems o cs)
  | [], _, _ => Closed.nil
  | c :: cs, h, level => by
      rw [Layout.commands, commandsItems]
      exact (Closed.command ho c h.1 level).append (Closed.commands ho cs h.2 level)

end

theorem isAtom_require : IsName "require" := by
  exact ⟨by decide +kernel, fun _ => by decide +kernel⟩

theorem Closed.require {o : LayoutOptions} (ho : BlankIndent o) (capabilities : List String)
    (others : Bool) (c : Command α) :
    Closed e (require o capabilities others c) (requireItems o capabilities c) := by
  have hblank : Closed e (if o.blankLine && others then ['\n'] else []) [] := by
    split
    · exact Closed.blank rfl
    · exact Closed.nil
  have hend : Closed e [';', '\n'] [.semicolon] :=
    (Closed.sign rfl).append (Closed.blank rfl)
  have hlist := (Closed.blank (e := e) (c := ' ') rfl).append
    (Closed.list o.threshold capabilities)
  have hline := (Chunk.name (e := e) isAtom_require).append_closed (.inl (by decide)) hlist
  have := (Closed.comments ho 0 c.head.comments).append (hline.append (hend.append hblank))
  have hname : "require ".toList = "require".toList ++ [' '] := by decide
  rw [Layout.require, requireItems, hname]
  simpa using this

theorem flatMap_lineup (o : LayoutOptions) (f : Command α → List Char) (cs : List (Command α)) :
    ((cs.map (false, ·)).flatMap fun (holds, c) => if holds then f c else command o 0 c) =
      commands o 0 cs := by
  induction cs with
  | nil => rfl
  | cons c cs ih =>
      rw [List.map_cons, List.flatMap_cons, ih]
      rfl

theorem script_of_cons (o : LayoutOptions) {s : Script α} {c : Command α} {cs : List (Command α)}
    (h : s.commands = c :: cs) :
    script o s =
      (if c.head.isBareRequire then require o s.capabilities (decide (0 < cs.length)) c
        else command o 0 c) ++ commands o 0 cs ++ comments o 0 s.block.trailing := by
  rw [script, top, Script.lineup, h]
  dsimp only
  rw [List.flatMap_cons, flatMap_lineup o (require o s.capabilities _) cs]
  simp

theorem script_of_nil (o : LayoutOptions) {s : Script α} (h : s.commands = []) :
    script o s = comments o 0 s.block.trailing := by
  rw [script, top, Script.lineup, h]
  rfl

/-- The canonical text of a printable script has the tokens of the script. -/
theorem spells_script {o : LayoutOptions} (ho : BlankIndent o) {s : Script α}
    (h : Command.PrintableAll s.commands) : Spells (s.text o).toList (scriptItems o s) := by
  have hclosed : Closed o.ending (script o s) (scriptItems o s) := by
    have htrailing := Closed.comments (e := o.ending) ho 0 s.block.trailing
    rw [scriptItems]
    cases hcs : s.commands with
    | nil =>
        rw [script_of_nil o hcs]
        exact htrailing
    | cons c cs =>
        rw [hcs] at h
        rw [script_of_cons o hcs]
        refine Closed.append ?_ htrailing
        dsimp only
        split
        · exact (Closed.require ho s.capabilities _ c).append (Closed.commands ho cs h.2 0)
        · exact (Closed.command ho c h.1 0).append (Closed.commands ho cs h.2 0)
  have := hclosed [] [] spells_nil
  rw [List.append_nil, List.append_nil] at this
  rwa [Script.text, String.toList_ofList]

end

end MailFilter.Layout
