import MailFilter.Signature
import MailFilter.Text.Blank

/-!
# Registries

What is known about commands and tests, and which capabilities a server offers. Names are in any
letter case throughout.
-/

namespace MailFilter

/-- The capability that a comparator needs: none for the two that are always there. -/
def comparatorCapability? (comparator : String) : Option String :=
  let name := Text.lower comparator
  if name == "i;octet" || name == "i;ascii-casemap" then none else some ("comparator-" ++ name)

/-- The capabilities that some servers offer beyond those that unlock a command. -/
def extraCapabilities : List String :=
  ["comparator-i;ascii-numeric", "spamtestplus", "vacation-seconds", "subaddress", "copy", "regex",
   "relational", "index", "special-use"]

/-- What a capability unlocks. -/
structure Extension where
  name : String
  commands : List Keyword
  tags : List (Keyword × String)

/-- Signatures, and the capabilities that a server offers, if it tells. -/
structure Registry where
  signatures : List Signature
  server : Option (List String)

namespace Registry

/-- Names in lower case without blanks around them, each once, without empty ones. -/
def normalNames (names : List String) : List String :=
  names.foldl
    (fun found name =>
      let name := Text.lower (Text.trimmed name)
      if name.isEmpty || found.contains name then found else found ++ [name])
    []

/-- The registry of some signatures, or of all if there are none, and of what a server offers. -/
def make (signatures : List Signature) (server : Option (List String)) : Registry :=
  ⟨if signatures.isEmpty then Signature.table else signatures, server.map normalNames⟩

def default : Registry := make Signature.table none

def signature? (r : Registry) (k : Keyword) : Option Signature :=
  r.signatures.find? (·.keyword == k)

def lookup? (r : Registry) (name : String) : Option Signature :=
  (Keyword.ofName? name).bind r.signature?

/-- Whether a command has a block. Nothing is known about other names. -/
def isControl? (r : Registry) (name : String) : Option Bool :=
  match r.lookup? name with
  | some s => if s.isTest then none else some s.hasBlock
  | none => none

def unlockedBy (r : Registry) (capability : String) : Extension :=
  let name := Text.lower capability
  { name
    commands := (r.signatures.filter (·.need? == some name)).map (·.keyword)
    tags := r.signatures.flatMap fun s =>
      (s.tags.filter (·.need? == some name)).map fun t => (s.keyword, t.name) }

/-- The capabilities that unlock something, and the extra ones, each once. -/
def extensions (r : Registry) : List String :=
  (extraCapabilities ++ r.signatures.flatMap fun s =>
    s.need?.toList ++ s.tags.filterMap (·.need?)).eraseDups

/-- Whether a capability is known. Every comparator is. -/
def isKnown (r : Registry) (capability : String) : Bool :=
  let name := Text.lower capability
  r.extensions.contains name || "comparator-".toList.isPrefixOf name.toList

def isSupported (r : Registry) (capability : String) : Bool :=
  match r.server with
  | none => true
  | some names => names.contains (Text.lower capability)

def shown (r : Registry) : String :=
  let server := match r.server with
    | none => "all"
    | some names => toString names.length
  "CapabilityRegistry(" ++ toString r.signatures.length ++ " commands, server=" ++ server ++ ")"

end Registry

end MailFilter
