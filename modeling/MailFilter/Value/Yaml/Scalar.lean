import MailFilter.Value.Basic

/-!
# Plain scalars

What a scalar without quotes stands for: nothing, a truth value, an integer in one of five notations,
a floating point number, or its own text. Underscores may stand among the digits of numbers. Some
scalars have the form of an integer and yet stand for none.
-/

namespace MailFilter.Value.Yaml

/-- The words for nothing, true and false. -/
def words : List (Value × List String) :=
  [(.null, ["", "~", "null", "Null", "NULL"]),
   (.bool true, ["yes", "Yes", "YES", "true", "True", "TRUE", "on", "On", "ON"]),
   (.bool false, ["no", "No", "NO", "false", "False", "FALSE", "off", "Off", "OFF"]),
   (.float .undefined, [".nan", ".NaN", ".NAN"]),
   (.float (.infinite false), [".inf", ".Inf", ".INF", "+.inf", "+.Inf", "+.INF"]),
   (.float (.infinite true), ["-.inf", "-.Inf", "-.INF"])]

/-- The value of a digit in some base up to sixteen. -/
def digitIn? (base : Nat) (c : Char) : Option Nat :=
  (Text.hexValue? c).filter (· < base)

/-- Whether a text has digits of a base and underscores only, and how it starts if that matters. -/
def areDigits (base : Nat) (cs : List Char) : Bool :=
  cs.all fun c => c == '_' || (digitIn? base c).isSome

/-- The number that digits of a base write; underscores are left out. -/
def numberIn (base : Nat) (cs : List Char) : Nat :=
  (cs.filterMap (digitIn? base)).foldl (fun n d => base * n + d) 0

def hasDigit (base : Nat) (cs : List Char) : Bool := cs.any fun c => (digitIn? base c).isSome

def signed (cs : List Char) : Bool × List Char :=
  match cs with
  | '-' :: rest => (true, rest)
  | '+' :: rest => (false, rest)
  | rest => (false, rest)

def colonParts (cs : List Char) : List (List Char) :=
  cs.foldr
    (fun c parts =>
      if c == ':' then [] :: parts
      else match parts with
        | [] => [[c]]
        | p :: ps => (c :: p) :: ps)
    [[]]

def areSixtieths (parts : List (List Char)) : Bool :=
  parts.all fun p => match p with
    | [a] => a.isDigit
    | [a, b] => '0' ≤ a && a ≤ '5' && b.isDigit
    | _ => false

/-- The natural number that a text without a sign writes: in binary, octal, decimal or hexadecimal
digits, or in base sixty with colons. -/
def natural? (cs : List Char) : Option Nat :=
  match cs with
  | ['0'] => some 0
  | '0' :: 'b' :: digits =>
    if areDigits 2 digits && hasDigit 2 digits then some (numberIn 2 digits) else none
  | '0' :: 'x' :: digits =>
    if areDigits 16 digits && hasDigit 16 digits then some (numberIn 16 digits) else none
  | '0' :: digits => if areDigits 8 digits then some (numberIn 8 digits) else none
  | c :: _ =>
    if !c.isDigit then none
    else if areDigits 10 cs then some (numberIn 10 cs)
    else match colonParts cs with
      | whole :: parts =>
        if areDigits 10 whole && !parts.isEmpty && areSixtieths parts then
          some (parts.foldl (fun n p => 60 * n + numberIn 10 p) (numberIn 10 whole))
        else none
      | [] => none
  | [] => none

def exponent? (cs : List Char) : Option Int :=
  match cs with
  | [] => some 0
  | e :: sign :: digits =>
    if (e == 'e' || e == 'E') && (sign == '-' || sign == '+') && !digits.isEmpty &&
        digits.all Char.isDigit then
      let n : Int := numberIn 10 digits
      some (if sign == '-' then -n else n)
    else none
  | _ => none

/-- The floating point number that a text writes in decimal: digits, a point, digits and perhaps an
exponent. Without digits before the point there is no plus or minus. -/
def decimal? (cs : List Char) : Option Binary64 :=
  let (negative, body) := signed cs
  let isPart (c : Char) : Bool := c.isDigit || c == '_'
  let whole := body.takeWhile isPart
  match body.drop whole.length with
  | '.' :: rest =>
    let fraction := rest.takeWhile isPart
    let opens := match whole with
      | [] => body.length == cs.length && (fraction.head?.any Char.isDigit)
      | c :: _ => c.isDigit
    if opens then
      (exponent? (rest.drop fraction.length)).map fun power =>
        let places := (fraction.filter Char.isDigit).length
        Binary64.ofDecimal negative (numberIn 10 (whole ++ fraction)) (power - places)
    else none
  | _ => none

/-- The floating point number that a text writes in base sixty, with colons and a point. Its parts
are added from the last on. -/
def sixtieths? (cs : List Char) : Option Binary64 :=
  let (negative, body) := signed cs
  let isWhole (c : Char) : Bool := c != '.'
  match body.dropWhile isWhole, colonParts (body.takeWhile isWhole) with
  | '.' :: fraction, whole :: parts =>
    let opens := whole.head?.any Char.isDigit && areDigits 10 whole
    if opens && !parts.isEmpty && areSixtieths parts && areDigits 10 fraction then
      let places := (fraction.filter Char.isDigit).length
      let last := Binary64.ofDecimal false (numberIn 10 (parts.getLastD [] ++ fraction)) (-places)
      let (sum, _) := (whole :: parts).dropLast.foldr
        (fun part (sum, unit) =>
          (sum.plus ((Binary64.ofDecimal false (numberIn 10 part) 0).times unit), 60 * unit))
        (last, 60)
      some (if negative then sum.negated else sum)
    else none
  | _, _ => none

/-- Why a plain scalar that has the form of an integer stands for none. -/
inductive ScalarFault where
  /-- A part in decimal has too many digits. -/
  | decimal (fault : Text.IntegerFault)
  /-- Underscores stand where digits of a base should. -/
  | noDigits (base : Nat)

def ScalarFault.message : ScalarFault → String
  | decimal fault => fault.message
  | noDigits base => "invalid literal for int() with base " ++ toString base ++ ": ''"

/-- What is wrong with the digits of an integer without a sign. -/
def naturalFault? (cs : List Char) : Option ScalarFault :=
  let blankIn (base : Nat) (digits : List Char) : Option ScalarFault :=
    if !digits.isEmpty && digits.all (· == '_') then some (.noDigits base) else none
  match cs with
  | '0' :: 'b' :: digits => blankIn 2 digits
  | '0' :: 'x' :: digits => blankIn 16 digits
  | '0' :: _ => none
  | cs =>
    if (natural? cs).isNone then none
    else (colonParts cs).findSome? fun part =>
      match Text.natOfDigits (part.filterMap (digitIn? 10)) with
      | .ok _ => none
      | .error fault => some (.decimal fault)

def scalarFault? (s : String) : Option ScalarFault := naturalFault? (signed s.toList).2

def resolve (s : String) : Value :=
  match words.find? fun (_, texts) => texts.contains s with
  | some (v, _) => v
  | none =>
    match (decimal? s.toList).or (sixtieths? s.toList) with
    | some x => .float x
    | none =>
      let (negative, body) := signed s.toList
      match natural? body with
      | some n => .int (if negative then -(n : Int) else n)
      | none => .text s

end MailFilter.Value.Yaml
