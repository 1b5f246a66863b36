import MailFilter.Error

/-!
# The tokens of a script

Lexemes with their places, without the blanks, and the end of the input after them. A text that
breaks off has the tokens before that place. `Tokens.ofText` reads a text in a charset, which
matters for offsets only.
-/

namespace MailFilter

/-- The tokens of a text, and what stopped the reading, if anything did. -/
structure Tokens where
  tokens : List Token
  failure : Option ReadError

namespace Tokens

/-- The tokens of lexemes that stand one after the other from a place on. -/
def place (width : Char → Nat) (p : Pos) : List Lexeme → List Token
  | [] => []
  | l :: ls =>
    let rest := place width (p.after width l.text) ls
    match l.item with
    | some item => ⟨item, p⟩ :: rest
    | none => rest

def placeAfter (width : Char → Nat) (p : Pos) (ls : List Lexeme) : Pos :=
  ls.foldl (fun p l => p.after width l.text) p

/-- The tokens of a text whose characters have the given widths in bytes. -/
def ofChars (width : Char → Nat) (cs : List Char) : Tokens :=
  let pieces := Lexeme.split cs
  let tokens := place width .start pieces.lexemes
  let last := placeAfter width .start pieces.lexemes
  match pieces.broken with
  | none => ⟨tokens ++ [⟨.endOfInput, last⟩], none⟩
  | some b => ⟨tokens, some (.at (.lexeme b.fault) (last.after width (b.lead.getD [])))⟩

def isPlain (cs : List Char) : Bool := cs.all (·.toNat < 0x80)

/-- The tokens of a text in a charset that nobody knows: those before the first character whose
width cannot be told. -/
def ofUnknown (charset : String) (cs : List Char) : Tokens :=
  let pieces := Lexeme.split cs
  let plain := pieces.lexemes.takeWhile (isPlain ·.text)
  if plain.length < pieces.lexemes.length || pieces.broken.any (!isPlain ·.text) then
    ⟨place (fun _ => 1) .start plain, some (.charset charset)⟩
  else ofChars (fun _ => 1) cs

def ofText (source : String) (charset : String := "utf-8") : Tokens :=
  match Text.Charset.ofName? charset with
  | some c => ofChars c.width source.toList
  | none => ofUnknown charset source.toList

def withoutComments (ts : Tokens) : Tokens :=
  { ts with tokens := ts.tokens.filter (!·.item.isComment) }

def complete (ts : Tokens) : Except ReadError (List Token) :=
  match ts.failure with
  | none => .ok ts.tokens
  | some e => .error e

end Tokens

end MailFilter
