import MailFilter.Text.Charset
import MailFilter.Text.Quoted

/-!
# Files

Paths, what stands under them, and a folder as the files in it. A folder has the folders that lead
to its files and no others. Main statement: a file that was written is found again, and a file
under another name is left alone.
-/

namespace MailFilter

/-- A path: the slashes that it starts with, and the names between slashes. -/
structure Path where
  root : String
  names : List String
  deriving DecidableEq, Repr

namespace Path

/-- The path that a text writes. Empty names and names of one dot say nothing; two slashes at the
front differ from one, more do not. -/
def ofText (text : String) : Path :=
  let slashes := (text.toList.takeWhile (· == '/')).length
  let root := if slashes == 0 then "" else if slashes == 2 then "//" else "/"
  let names := text.toList.foldr
    (fun c names =>
      if c == '/' then [] :: names
      else match names with
        | [] => [[c]]
        | name :: names => (c :: name) :: names)
    [[]]
  ⟨root, (names.map String.ofList).filter fun name => !name.isEmpty && name != "."⟩

def text (p : Path) : String :=
  if p.root.isEmpty && p.names.isEmpty then "." else p.root ++ "/".intercalate p.names

end Path

/-- What stands under a path. -/
inductive Entry where
  | missing
  | directory
  /-- The path goes on after a file. -/
  | belowFile
  | file (bytes : Text.Bytes)
  deriving DecidableEq, Repr

abbrev View := Path → Entry

/-- Why there is no file under a path. -/
inductive FileError where
  | missing (path : Path)
  | directory (path : Path)
  | belowFile (path : Path)

def FileError.message : FileError → String
  | missing path => "[Errno 2] No such file or directory: " ++ Text.quoted path.text
  | directory path => "[Errno 21] Is a directory: " ++ Text.quoted path.text
  | belowFile path => "[Errno 20] Not a directory: " ++ Text.quoted path.text

def View.read (view : View) (path : Path) : Except FileError Text.Bytes :=
  match view path with
  | .missing => .error (.missing path)
  | .directory => .error (.directory path)
  | .belowFile => .error (.belowFile path)
  | .file bytes => .ok bytes

/-- The files in a folder, each by the names that lead to it. -/
structure Folder where
  files : List (List String × Text.Bytes)

namespace Folder

def fileNamed? (names : List String) (files : List (List String × Text.Bytes)) :
    Option Text.Bytes :=
  (files.find? (·.1 == names)).map (·.2)

def entry (f : Folder) (names : List String) : Entry :=
  match fileNamed? names f.files with
  | some bytes => .file bytes
  | none =>
    if names.isEmpty || f.files.any (fun file => names.isPrefixOf file.1) then .directory
    else .missing

/-- Follows names from a place on; two dots lead back. What is outside of the folder is missing. -/
def follow (f : Folder) (place : List String) : List String → Entry
  | [] => f.entry place
  | name :: rest =>
    if name == ".." then
      if place.isEmpty then .missing else f.follow place.dropLast rest
    else match f.entry (place ++ [name]) with
      | .directory => f.follow (place ++ [name]) rest
      | .file bytes => if rest.isEmpty then .file bytes else .belowFile
      | e => e

def look (f : Folder) : View := fun path =>
  if path.root.isEmpty then f.follow [] path.names else .missing

def place (path : Path) : List String :=
  path.names.foldl (fun names name => if name == ".." then names.dropLast else names ++ [name]) []

/-- Files with one more; one of the same name is replaced. -/
def putFile (names : List String) (bytes : Text.Bytes) :
    List (List String × Text.Bytes) → List (List String × Text.Bytes)
  | [] => [(names, bytes)]
  | file :: files =>
    if file.1 == names then (names, bytes) :: files else file :: putFile names bytes files

def write (f : Folder) (path : Path) (bytes : Text.Bytes) : Folder :=
  ⟨putFile (place path) bytes f.files⟩

theorem fileNamed?_putFile (names : List String) (bytes : Text.Bytes)
    (files : List (List String × Text.Bytes)) :
    fileNamed? names (putFile names bytes files) = some bytes := by
  induction files with
  | nil => simp [putFile, fileNamed?]
  | cons file files ih =>
    rw [putFile]
    split
    · simp [fileNamed?]
    · next h =>
      simp only [fileNamed?, List.find?_cons, h]
      exact ih

theorem fileNamed?_putFile_of_ne {names others : List String} (h : others ≠ names)
    (bytes : Text.Bytes) (files : List (List String × Text.Bytes)) :
    fileNamed? others (putFile names bytes files) = fileNamed? others files := by
  have hne : (names == others) = false := by simpa using h.symm
  induction files with
  | nil => simp [putFile, fileNamed?, hne]
  | cons file files ih =>
    rw [putFile]
    split
    · next hf =>
      rw [beq_iff_eq] at hf
      simp [fileNamed?, hf, hne]
    · simp only [fileNamed?, List.find?_cons] at ih ⊢
      split
      · rfl
      · exact ih

end Folder

end MailFilter
