import MailFilter.Text.Blank
import MailFilter.Token

/-!
# Lexemes

A script splits into lexemes: blanks, comments, words, signs and literals, whose texts one after the
other are the script. A text that does not split breaks off at a fault. `split_text` says that
nothing is lost; where lexemes stand is left to `Tokens`.
-/

namespace MailFilter

/-- A piece of a script and what it is; blanks are nothing. -/
structure Lexeme where
  text : List Char
  item : Option Item
  deriving DecidableEq, Repr

namespace Lexeme

/-- Why a text does not split into lexemes. -/
inductive Fault where
  | unclosedComment
  | unclosedString
  | unclosedMultiline
  | unclosedList
  /-- Something stands between `text:` and the end of its line. -/
  | noLineBreak
  /-- A closing bracket with no list open. -/
  | strayBracket
  /-- A list item that is not a string. -/
  | noString
  /-- Something between the items of a list that is no comma. -/
  | noComma (found : Char)
  /-- A character that opens no lexeme. -/
  | noWord (found : Char)
  deriving DecidableEq, Repr

def Fault.message : Fault → String
  | unclosedComment => "Unterminated bracket comment"
  | unclosedString => "Unterminated quoted string"
  | unclosedMultiline => "Unterminated multiline string"
  | unclosedList => "Unterminated string list"
  | noLineBreak => "Expected line break after text:"
  | strayBracket => "Unexpected ']' outside of a string list"
  | noString => "Expected string in string list"
  | noComma found =>
    "Unexpected character " ++ Text.quoted (String.singleton found) ++ " in string list"
  | noWord found => "Unexpected character " ++ Text.quoted (String.singleton found)

/-- What was read from the front of a text, its own text, and what follows. -/
structure Taken (α : Type) where
  value : α
  text : List Char
  rest : List Char

def Taken.map (f : α → β) (t : Taken α) : Taken β := ⟨f t.value, t.text, t.rest⟩

def Taken.after (text : List Char) (t : Taken α) : Taken α := { t with text := text ++ t.text }

/-- Why reading stopped, after which text, and how much of it leads to the place to report: none if
that is where the lexeme opens. -/
structure Broken where
  fault : Fault
  lead : Option (List Char)
  text : List Char
  deriving Repr

def Broken.after (text : List Char) (b : Broken) : Broken :=
  { b with lead := b.lead.map (text ++ ·), text := text ++ b.text }

/-- The same inside a larger lexeme, so that the place to report is no longer its opening. -/
def Broken.inside (b : Broken) : Broken := { b with lead := some (b.lead.getD []) }

@[simp] theorem Taken.text_map (f : α → β) (t : Taken α) : (t.map f).text = t.text := rfl

@[simp] theorem Taken.rest_map (f : α → β) (t : Taken α) : (t.map f).rest = t.rest := rfl

@[simp] theorem Taken.text_after (text : List Char) (t : Taken α) :
    (t.after text).text = text ++ t.text := rfl

@[simp] theorem Taken.rest_after (text : List Char) (t : Taken α) :
    (t.after text).rest = t.rest := rfl

/-! ## Comments -/

def lineRest (cs : List Char) : Taken (List Char) :=
  ⟨cs.takeWhile (· != '\n'), cs.takeWhile (· != '\n'), cs.dropWhile (· != '\n')⟩

/-- The rest of a bracket comment after its opening. A line break of two characters reads as one. -/
def bracketTail : List Char → Option (Taken (List Char))
  | [] => none
  | '*' :: '/' :: cs => some ⟨[], ['*', '/'], cs⟩
  | '\r' :: '\n' :: cs =>
    (bracketTail cs).map fun t => ⟨'\n' :: t.value, '\r' :: '\n' :: t.text, t.rest⟩
  | c :: cs => (bracketTail cs).map fun t => ⟨c :: t.value, c :: t.text, t.rest⟩

@[simp] theorem lineRest_append (cs : List Char) :
    (lineRest cs).text ++ (lineRest cs).rest = cs := List.takeWhile_append_dropWhile

theorem bracketTail_append {cs : List Char} {t : Taken (List Char)} (h : bracketTail cs = some t) :
    t.text ++ t.rest = cs := by
  fun_induction bracketTail cs generalizing t with
  | case1 => cases h
  | case2 => cases h; rfl
  | case3 cs ih =>
    obtain ⟨u, hu, rfl⟩ := Option.map_eq_some_iff.1 h
    simp [ih hu]
  | case4 c cs _ _ ih =>
    obtain ⟨u, hu, rfl⟩ := Option.map_eq_some_iff.1 h
    simp [ih hu]

/-- A comment after its `#`: the line, without carriage returns at its end. -/
def hashComment (cs : List Char) : Taken String :=
  ((lineRest cs).map fun line => String.ofList (Text.dropTrailing (· == '\r') line)).after ['#']

def bracketComment (cs : List Char) : Except Broken (Taken String) :=
  match bracketTail cs with
  | some t => .ok ((t.map String.ofList).after ['/', '*'])
  | none => .error ⟨.unclosedComment, none, '/' :: '*' :: cs⟩

theorem hashComment_append (cs : List Char) :
    (hashComment cs).text ++ (hashComment cs).rest = '#' :: cs := by
  simp [hashComment]

theorem bracketComment_append {cs : List Char} {t : Taken String} (h : bracketComment cs = .ok t) :
    t.text ++ t.rest = '/' :: '*' :: cs := by
  unfold bracketComment at h
  split at h
  · next u hu =>
    cases h
    simp [bracketTail_append hu]
  · cases h

/-! ## Strings -/

/-- The rest of a quoted string after its opening. A backslash stands for the character after it,
and a line break of two characters reads as one. -/
def quotedTail : List Char → Option (Taken (List Char))
  | [] => none
  | '"' :: cs => some ⟨[], ['"'], cs⟩
  | '\\' :: c :: cs => (quotedTail cs).map fun t => ⟨c :: t.value, '\\' :: c :: t.text, t.rest⟩
  | ['\\'] => none
  | '\r' :: '\n' :: cs =>
    (quotedTail cs).map fun t => ⟨'\n' :: t.value, '\r' :: '\n' :: t.text, t.rest⟩
  | c :: cs => (quotedTail cs).map fun t => ⟨c :: t.value, c :: t.text, t.rest⟩

def quotedString (cs : List Char) : Except Broken (Taken String) :=
  match quotedTail cs with
  | some t => .ok ((t.map String.ofList).after ['"'])
  | none => .error ⟨.unclosedString, none, '"' :: cs⟩

theorem quotedTail_append {cs : List Char} {t : Taken (List Char)} (h : quotedTail cs = some t) :
    t.text ++ t.rest = cs := by
  fun_induction quotedTail cs generalizing t with
  | case1 => cases h
  | case2 => cases h; rfl
  | case3 c cs ih =>
    obtain ⟨u, hu, rfl⟩ := Option.map_eq_some_iff.1 h
    simp [ih hu]
  | case4 => cases h
  | case5 cs ih =>
    obtain ⟨u, hu, rfl⟩ := Option.map_eq_some_iff.1 h
    simp [ih hu]
  | case6 c cs _ _ _ _ ih =>
    obtain ⟨u, hu, rfl⟩ := Option.map_eq_some_iff.1 h
    simp [ih hu]

theorem quotedString_append {cs : List Char} {t : Taken String} (h : quotedString cs = .ok t) :
    t.text ++ t.rest = '"' :: cs := by
  unfold quotedString at h
  split at h
  · next u hu =>
    cases h
    simp [quotedTail_append hu]
  · cases h

/-- Whether a word opens a multi-line string. Only ASCII letters lower to those of `text:`. -/
def isTextKey (word : List Char) : Bool := word.map Char.toLower == ['t', 'e', 'x', 't', ':']

def chomp (line : List Char) : List Char :=
  if line.getLast? == some '\r' then line.dropLast else line

/-- A line of a multi-line string as its value has it: of two dots in front one is dropped. -/
def unstuff : List Char → List Char
  | '.' :: '.' :: cs => '.' :: cs
  | cs => cs

/-- The lines of a multi-line string, up to a line that is a single dot. -/
def multilineLines (cs : List Char) : Option (Taken (List (List Char))) :=
  let line := cs.takeWhile (· != '\n')
  match _h : cs.dropWhile (· != '\n') with
  | [] => if chomp line == ['.'] then some ⟨[], line, []⟩ else none
  | c :: rest =>
    if chomp line == ['.'] then some ⟨[], line ++ [c], rest⟩
    else (multilineLines rest).map fun t =>
      ⟨unstuff (chomp line) :: t.value, line ++ c :: t.text, t.rest⟩
termination_by cs.length
decreasing_by
  have := (List.dropWhile_suffix (· != '\n') (l := cs)).length_le
  rw [_h] at this
  exact Nat.lt_of_succ_le this

theorem multilineLines_append {cs : List Char} {t : Taken (List (List Char))}
    (h : multilineLines cs = some t) : t.text ++ t.rest = cs := by
  fun_induction multilineLines cs generalizing t with
  | case1 cs line hd =>
    rw [← List.takeWhile_append_dropWhile (p := (· != '\n')) (l := cs), hd]
    cases h
    rfl
  | case2 => cases h
  | case3 cs line c rest hd =>
    rw [← List.takeWhile_append_dropWhile (p := (· != '\n')) (l := cs), hd]
    cases h
    simp [line]
  | case4 cs line c rest hd _ =>
    rename_i ih
    obtain ⟨u, hu, rfl⟩ := Option.map_eq_some_iff.1 h
    rw [← List.takeWhile_append_dropWhile (p := (· != '\n')) (l := cs), hd]
    simp [line, ih hu]

def spaces (cs : List Char) : List Char × List Char :=
  let isSpace (c : Char) : Bool := c == ' ' || c == '\t'
  (cs.takeWhile isSpace, cs.dropWhile isSpace)

def lineComment (cs : List Char) : List Char × List Char :=
  if cs.head? == some '#' then (cs.takeWhile (· != '\n'), cs.dropWhile (· != '\n')) else ([], cs)

/-- The end of the line that opens a multi-line string: spaces and tabs, then perhaps a comment. What
stands before anything else is the fault. -/
def multilineHeader (cs : List Char) : Except (List Char) (Taken Unit) :=
  let (space, rest) := spaces cs
  let (comment, rest) := lineComment rest
  match rest with
  | '\n' :: rest => .ok ⟨(), space ++ comment ++ ['\n'], rest⟩
  | '\r' :: '\n' :: rest => .ok ⟨(), space ++ comment ++ ['\r', '\n'], rest⟩
  | _ => .error (space ++ comment)

theorem spaces_append (cs : List Char) : (spaces cs).1 ++ (spaces cs).2 = cs := by
  simp [spaces]

theorem lineComment_append (cs : List Char) : (lineComment cs).1 ++ (lineComment cs).2 = cs := by
  unfold lineComment
  split
  · simp
  · rfl

theorem multilineHeader_append {cs : List Char} {t : Taken Unit} (h : multilineHeader cs = .ok t) :
    t.text ++ t.rest = cs := by
  have hs := spaces_append cs
  have hc := lineComment_append (spaces cs).2
  simp only [multilineHeader] at h
  split at h
  · next hr =>
    cases h
    rw [hr] at hc
    simp [hs, hc]
  · next hr =>
    cases h
    rw [hr] at hc
    simp [hs, hc]
  · cases h

/-- A multi-line string after its keyword, which is given as it was written. -/
def multilineString (key cs : List Char) : Except Broken (Taken String) :=
  match multilineHeader cs with
  | .error header => .error ⟨.noLineBreak, none, key ++ header⟩
  | .ok header =>
    match multilineLines header.rest with
    | some t => .ok ((t.map fun lines => String.ofList (['\n'].intercalate lines)).after
        (key ++ header.text))
    | none => .error ⟨.unclosedMultiline, none, key ++ cs⟩

theorem multilineString_append {key cs : List Char} {t : Taken String}
    (h : multilineString key cs = .ok t) : t.text ++ t.rest = key ++ cs := by
  unfold multilineString at h
  split at h
  · cases h
  · next header hh =>
    split at h
    · next u hu =>
      cases h
      simp [multilineLines_append hu, multilineHeader_append hh]
    · cases h

/-! ## Lists of strings -/

/-- Blanks and comments, as far as they reach, and what follows. A comment that does not close stays
with what follows. -/
def filler (cs : List Char) : List Char × List Char :=
  match cs with
  | [] => ([], [])
  | c :: cs =>
    if Text.isBlank c then
      let (text, rest) := filler cs
      (c :: text, rest)
    else if c == '#' then
      let (text, rest) := filler (lineRest cs).rest
      (c :: (lineRest cs).text ++ text, rest)
    else if c == '/' && cs.head? == some '*' then
      match _h : bracketTail cs.tail with
      | some t =>
        let (text, rest) := filler t.rest
        ('/' :: '*' :: t.text ++ text, rest)
      | none => ([], c :: cs)
    else ([], c :: cs)
termination_by cs.length
decreasing_by
  · exact Nat.lt_succ_self _
  · have := congrArg List.length (lineRest_append cs)
    simp only [List.length_append] at this
    simp only [List.length_cons]
    omega
  · have := congrArg List.length (bracketTail_append _h)
    simp only [List.length_append, List.length_tail] at this
    simp only [List.length_cons]
    omega

theorem filler_append (cs : List Char) : (filler cs).1 ++ (filler cs).2 = cs := by
  fun_induction filler cs with
  | case1 => rfl
  | case2 c cs _ text rest hf ih => simp_all
  | case3 c cs _ _ text rest hf ih =>
    rw [hf] at ih
    simp [ih]
  | case4 c cs _ _ hc t ht text rest hf ih =>
    rw [hf] at ih
    have := bracketTail_append ht
    cases cs <;> simp_all
  | case5 => rfl
  | case6 => rfl

/-- A text that opens a multi-line string inside a list: its keyword as written, and what follows,
which must be nothing, a blank or a comment. -/
def textKey? (cs : List Char) : Option (List Char × List Char) :=
  let key := cs.take 5
  let rest := cs.drop 5
  if isTextKey key && rest.head?.all fun c => Text.isBlank c || c == '#' then some (key, rest)
  else none

theorem textKey?_append {cs key rest : List Char} (h : textKey? cs = some (key, rest)) :
    key ++ rest = cs ∧ key.length = 5 := by
  simp only [textKey?] at h
  split at h
  · next hk =>
    cases h
    refine ⟨List.take_append_drop 5 cs, ?_⟩
    simp only [Bool.and_eq_true, isTextKey, beq_iff_eq] at hk
    simpa using congrArg List.length hk.1
  · cases h

/-- How far a list has been read. -/
inductive ListState where
  | opened
  | afterItem
  | afterComma
  deriving DecidableEq, Repr

/-- An item of a list. What opens no string is a fault where it stands. -/
def listItem (cs : List Char) : Except Broken (Taken String) :=
  match cs with
  | '"' :: cs => (quotedString cs).mapError Broken.inside
  | cs =>
    match textKey? cs with
    | some (key, rest) => (multilineString key rest).mapError Broken.inside
    | none => .error ⟨.noString, some [], []⟩

theorem listItem_append {cs : List Char} {t : Taken String} (h : listItem cs = .ok t) :
    t.text ++ t.rest = cs := by
  unfold listItem at h
  split at h
  · next cs =>
    cases hq : quotedString cs <;> rw [hq] at h <;> cases h
    exact quotedString_append hq
  · split at h
    · next key rest hk =>
      cases hm : multilineString key rest <;> rw [hm] at h <;> cases h
      rw [multilineString_append hm, (textKey?_append hk).1]
    · cases h

theorem listItem_rest_lt {cs : List Char} {t : Taken String} (h : listItem cs = .ok t) :
    t.rest.length < cs.length := by
  have hl := congrArg List.length (listItem_append h)
  rw [List.length_append] at hl
  suffices 0 < t.text.length by omega
  unfold listItem at h
  split at h
  · next cs =>
    cases hq : quotedString cs <;> rw [hq] at h <;> cases h
    unfold quotedString at hq
    split at hq <;> cases hq
    simp
  · split at h
    · next key rest hk =>
      cases hm : multilineString key rest <;> rw [hm] at h <;> cases h
      unfold multilineString at hm
      split at hm
      · cases hm
      · split at hm <;> cases hm
        have hlen := (textKey?_append hk).2
        simp only [Taken.text_after, List.length_append]
        omega
    · cases h

/-- The rest of a list. A closing bracket may not follow a comma. -/
def listTail (state : ListState) (cs : List Char) : Except Broken (Taken (List String)) :=
  let space := (filler cs).1
  match _hr : (filler cs).2 with
  | [] => .error ⟨.unclosedList, none, cs⟩
  | c :: rest =>
    if c == '/' && rest.head? == some '*' then .error ⟨.unclosedComment, some space, cs⟩
    else if c == ']' && state != .afterComma then .ok ⟨[], space ++ [c], rest⟩
    else if state == .afterItem then
      if c == ',' then
        match listTail .afterComma rest with
        | .ok t => .ok (t.after (space ++ [c]))
        | .error b => .error (b.after (space ++ [c]))
      else .error ⟨.noComma c, some space, space⟩
    else
      match _hi : listItem (c :: rest) with
      | .error b => .error (b.after space)
      | .ok item =>
        match listTail .afterItem item.rest with
        | .ok t => .ok ((t.map (item.value :: ·)).after (space ++ item.text))
        | .error b => .error (b.after (space ++ item.text))
termination_by cs.length
decreasing_by
  · have := congrArg List.length (filler_append cs)
    rw [_hr] at this
    simp only [List.length_append, List.length_cons] at this
    omega
  · have := congrArg List.length (filler_append cs)
    have hlt := listItem_rest_lt _hi
    rw [_hr] at this
    simp only [List.length_append, List.length_cons] at this hlt
    omega

theorem listTail_append {state : ListState} {cs : List Char} {t : Taken (List String)}
    (h : listTail state cs = .ok t) : t.text ++ t.rest = cs := by
  have hf := filler_append cs
  fun_induction listTail state cs generalizing t <;> cases h
  case case3 state cs space c rest hr _ _ =>
    rw [hr] at hf
    simpa [space] using hf
  case case4 state cs space c rest hr _ _ _ _ u hu ih =>
    rw [hr] at hf
    simpa [space, ih hu (filler_append _)] using hf
  case case8 state cs space c rest hr _ _ _ item hi u hu ih =>
    rw [hr] at hf
    have := listItem_append hi
    rw [← this] at hf
    simpa [space, ih hu (filler_append _)] using hf

def stringList (cs : List Char) : Except Broken (Taken (List String)) :=
  match listTail .opened cs with
  | .ok t => .ok (t.after ['['])
  | .error b => .error (b.after ['['])

/-! ## Words -/

def isDelimiter (c : Char) : Bool :=
  [';', '\x7b', '\x7d', '(', ')', '[', ']', ',', '"', '#'].contains c

/-- A word as far as it reaches, and what follows: a blank, a delimiter, a bracket comment. -/
def wordTail : List Char → List Char × List Char
  | [] => ([], [])
  | c :: cs =>
    if Text.isBlank c || isDelimiter c || (c == '/' && cs.head? == some '*') then ([], c :: cs)
    else (c :: (wordTail cs).1, (wordTail cs).2)

theorem wordTail_append (cs : List Char) : (wordTail cs).1 ++ (wordTail cs).2 = cs := by
  fun_induction wordTail cs <;> simp_all

def isUnit (c : Char) : Bool := ['K', 'M', 'G', 'k', 'm', 'g'].contains c

/-- Whether a word is a number: ASCII digits with at most one unit after them. -/
def isNumber (word : List Char) : Bool :=
  let digits := if word.getLast?.any isUnit then word.dropLast else word
  !digits.isEmpty && digits.all Char.isDigit

/-- What a word is that opens no multi-line string. -/
def wordItem (word : List Char) : Item :=
  if word.head? == some ':' then .tag (String.ofList word)
  else if isNumber word then .number (String.ofList word)
  else .identifier (String.ofList word)

/-! ## All lexemes -/

def sign? : Char → Option Item
  | ';' => some .semicolon
  | '\x7b' => some .openBrace
  | '\x7d' => some .closeBrace
  | '(' => some .openParen
  | ')' => some .closeParen
  | ',' => some .comma
  | _ => none

def wordLexeme (word rest : List Char) : Except Broken (Taken (Option Item)) :=
  if isTextKey word then (multilineString word rest).map (·.map (some <| .multiline ·))
  else .ok ⟨some (wordItem word), word, rest⟩

/-- The lexeme of a word and what follows it. A character that no word starts with opens nothing. -/
def wordAt (c : Char) : List Char × List Char → Except Broken (Taken (Option Item))
  | ([], _) => .error ⟨.noWord c, none, []⟩
  | (word, rest) => wordLexeme word rest

/-- The lexeme at the front of a text, given its first character. -/
def next (c : Char) (cs : List Char) : Except Broken (Taken (Option Item)) :=
  if Text.isBlank c then
    .ok ⟨none, c :: cs.takeWhile Text.isBlank, cs.dropWhile Text.isBlank⟩
  else if c == '#' then .ok ((hashComment cs).map (some <| .comment ·))
  else if c == '/' && cs.head? == some '*' then
    (bracketComment cs.tail).map (·.map (some <| .comment ·))
  else if c == '"' then (quotedString cs).map (·.map (some <| .quoted ·))
  else if c == '[' then (stringList cs).map (·.map (some <| .strings ·))
  else if c == ']' then .error ⟨.strayBracket, none, []⟩
  else match sign? c with
    | some item => .ok ⟨some item, [c], cs⟩
    | none => wordAt c (wordTail (c :: cs))

theorem map_ok {ε α β : Type} {f : α → β} {x : Except ε α} {y : β} (h : x.map f = .ok y) :
    ∃ z, x = .ok z ∧ y = f z := by
  cases x with
  | ok z => cases h; exact ⟨z, rfl, rfl⟩
  | error e => cases h

theorem stringList_append {cs : List Char} {t : Taken (List String)} (h : stringList cs = .ok t) :
    t.text ++ t.rest = '[' :: cs := by
  unfold stringList at h
  split at h
  · next u hu =>
    cases h
    simp [listTail_append hu]
  · cases h

theorem wordAt_of_ne_nil {c : Char} {word rest : List Char} (hne : word ≠ []) :
    wordAt c (word, rest) = wordLexeme word rest := by
  cases word with
  | nil => exact absurd rfl hne
  | cons d word => rfl

theorem wordAt_ok {c : Char} {w : List Char × List Char} {t : Taken (Option Item)}
    (h : wordAt c w = .ok t) : w.1 ≠ [] ∧ wordLexeme w.1 w.2 = .ok t := by
  unfold wordAt at h
  split at h
  · cases h
  · next hne => exact ⟨hne, h⟩

/-- What is read at the front of a text, one case for each kind of lexeme. -/
inductive IsNext : Char → List Char → Taken (Option Item) → Prop
  | blank {c : Char} (hc : Text.isBlank c = true) (cs : List Char) :
    IsNext c cs ⟨none, c :: cs.takeWhile Text.isBlank, cs.dropWhile Text.isBlank⟩
  | lineComment {cs text rest : List Char} {value : String}
    (h : hashComment cs = ⟨value, text, rest⟩) : IsNext '#' cs ⟨some (.comment value), text, rest⟩
  | bracketComment {cs text rest : List Char} {value : String}
    (h : bracketComment cs = .ok ⟨value, text, rest⟩) :
    IsNext '/' ('*' :: cs) ⟨some (.comment value), text, rest⟩
  | quoted {cs text rest : List Char} {value : String}
    (h : quotedString cs = .ok ⟨value, text, rest⟩) : IsNext '"' cs ⟨some (.quoted value), text, rest⟩
  | strings {cs text rest : List Char} {values : List String}
    (h : stringList cs = .ok ⟨values, text, rest⟩) : IsNext '[' cs ⟨some (.strings values), text, rest⟩
  | sign {c : Char} {item : Item} (h : sign? c = some item) (cs : List Char) :
    IsNext c cs ⟨some item, [c], cs⟩
  | multiline {c : Char} {cs word after text rest : List Char} {value : String}
    (hword : wordTail (c :: cs) = (c :: word, after)) (hkey : isTextKey (c :: word) = true)
    (h : multilineString (c :: word) after = .ok ⟨value, text, rest⟩) :
    IsNext c cs ⟨some (.multiline value), text, rest⟩
  | word {c : Char} {cs word rest : List Char} (hword : wordTail (c :: cs) = (c :: word, rest))
    (hkey : isTextKey (c :: word) = false) : IsNext c cs ⟨some (wordItem (c :: word)), c :: word, rest⟩

theorem isNext_of_word {c : Char} {cs : List Char} {t : Taken (Option Item)}
    (h : wordAt c (wordTail (c :: cs)) = .ok t) : IsNext c cs t := by
  obtain ⟨hne, h⟩ := wordAt_ok h
  obtain ⟨word, hword⟩ : ∃ word, wordTail (c :: cs) = (c :: word, (wordTail (c :: cs)).2) := by
    unfold wordTail at hne ⊢
    split at hne
    · exact absurd rfl hne
    · next hgo =>
        rw [if_neg hgo]
        exact ⟨_, rfl⟩
  rw [hword] at h
  unfold wordLexeme at h
  split at h
  · next hkey =>
      obtain ⟨u, hu, rfl⟩ := map_ok h
      exact .multiline hword hkey hu
  · next hkey =>
      cases h
      exact .word hword (by simpa using hkey)

/-- Nothing else is read. -/
theorem isNext_of_next {c : Char} {cs : List Char} {t : Taken (Option Item)} (h : next c cs = .ok t) :
    IsNext c cs t := by
  unfold next at h
  split at h
  · next hblank =>
      cases h
      exact .blank hblank cs
  split at h
  · next hhash =>
      cases h
      obtain rfl : c = '#' := by simpa using hhash
      exact .lineComment rfl
  split at h
  · next hopen =>
      obtain ⟨u, hu, rfl⟩ := map_ok h
      obtain ⟨rfl, hstar⟩ : c = '/' ∧ cs.head? = some '*' := by simpa using hopen
      obtain ⟨cs, rfl⟩ := List.head?_eq_some_iff.mp hstar
      exact .bracketComment hu
  split at h
  · next hquote =>
      obtain ⟨u, hu, rfl⟩ := map_ok h
      obtain rfl : c = '"' := by simpa using hquote
      exact .quoted hu
  split at h
  · next hlist =>
      obtain ⟨u, hu, rfl⟩ := map_ok h
      obtain rfl : c = '[' := by simpa using hlist
      exact .strings hu
  split at h
  · cases h
  split at h
  · next hsign =>
      cases h
      exact .sign hsign cs
  · exact isNext_of_word h

theorem next_append {c : Char} {cs : List Char} {t : Taken (Option Item)} (h : next c cs = .ok t) :
    t.text ++ t.rest = c :: cs := by
  cases isNext_of_next h with
  | blank => simp
  | lineComment hu =>
      have happend := hashComment_append cs
      rwa [hu] at happend
  | bracketComment hu => exact bracketComment_append hu
  | quoted hu => exact quotedString_append hu
  | strings hu => exact stringList_append hu
  | sign => rfl
  | multiline hword _ hu =>
      have hsplit := wordTail_append (c :: cs)
      rw [hword] at hsplit
      exact (multilineString_append hu).trans hsplit
  | word hword =>
      have hsplit := wordTail_append (c :: cs)
      rwa [hword] at hsplit

theorem next_text_ne_nil {c : Char} {cs : List Char} {t : Taken (Option Item)}
    (h : next c cs = .ok t) : t.text ≠ [] := by
  cases isNext_of_next h with
  | blank | sign | word => exact List.cons_ne_nil _ _
  | lineComment hu =>
      cases hu
      exact List.cons_ne_nil _ _
  | bracketComment hu =>
      unfold bracketComment at hu
      split at hu <;> cases hu
      simp
  | quoted hu =>
      unfold quotedString at hu
      split at hu <;> cases hu
      simp
  | strings hu =>
      unfold stringList at hu
      split at hu <;> cases hu
      simp
  | multiline hword hkey hu =>
      unfold multilineString at hu
      split at hu
      · cases hu
      · split at hu <;> cases hu
        simp

theorem next_rest_lt {c : Char} {cs : List Char} {t : Taken (Option Item)}
    (h : next c cs = .ok t) : t.rest.length < (c :: cs).length := by
  have hl := congrArg List.length (next_append h)
  have := List.length_pos_iff.2 (next_text_ne_nil h)
  rw [List.length_append] at hl
  omega

/-- The lexemes of a text, and why it breaks off, if it does. -/
structure Pieces where
  lexemes : List Lexeme
  broken : Option Broken
  deriving Repr

def split (cs : List Char) : Pieces :=
  match cs with
  | [] => ⟨[], none⟩
  | c :: cs =>
    match _h : next c cs with
    | .error b => ⟨[], some b⟩
    | .ok t =>
      let pieces := split t.rest
      ⟨⟨t.text, t.value⟩ :: pieces.lexemes, pieces.broken⟩
termination_by cs.length
decreasing_by exact next_rest_lt _h

theorem split_text {cs : List Char} (h : (split cs).broken = none) :
    (split cs).lexemes.flatMap (·.text) = cs := by
  fun_induction split cs with
  | case1 => rfl
  | case2 => cases h
  | case3 c cs t ht pieces ih =>
    rw [List.flatMap_cons, ih h, next_append ht]

end Lexeme

end MailFilter
