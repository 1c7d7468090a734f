import BorrowLang.Text.Quoted

/-! # Directories

The files that a command line can name, as a tree of texts seen from the directory it runs in.  A
path is shown without its empty and `.` parts; two slashes at its front are kept, more count as
one. -/
set_option autoImplicit false
namespace BorrowLang.CommandLine

/-- The parts of a path, without the empty ones and `.`. -/
def pathParts (path : List Char) : List (List Char) :=
  (path.splitOn '/').filter fun part => part ≠ [] && part ≠ ['.']

/-- The slashes that a path starts with, as shown. -/
def pathRoot (path : List Char) : List Char :=
  match path with
  | '/' :: '/' :: '/' :: _ => ['/']
  | '/' :: '/' :: _ => ['/', '/']
  | '/' :: _ => ['/']
  | _ => []

def pathText (path : String) : String :=
  let shown := pathRoot path.toList ++ ['/'].intercalate (pathParts path.toList)
  if shown.isEmpty then "." else String.ofList shown

/-- Why a path cannot be read. -/
inductive Unreadable
  | missing
  | isDirectory
  | notDirectory
  /-- Anything else that a system may say. -/
  | other (text : String)
deriving Repr, DecidableEq

def Unreadable.text : Unreadable → String
  | missing => "No such file or directory"
  | isDirectory => "Is a directory"
  | notDirectory => "Not a directory"
  | other text => text

/-- The files below a directory by the parts of their paths, and the directories that were made. -/
structure Directory where
  files : List (List (List Char) × String) := []
  folders : List (List (List Char)) := []
deriving Repr, DecidableEq, Inhabited

namespace Directory

/-- A directory with one more entry; a name that ends in a slash makes a directory. -/
def add (d : Directory) (entry : String × String) : Directory :=
  let parts := pathParts entry.1.toList
  if entry.1.toList.getLast? = some '/' then { d with folders := parts :: d.folders }
  else { d with files := (parts, entry.2) :: d.files }

def ofEntries (entries : List (String × String)) : Directory :=
  entries.foldl add {}

def file? (d : Directory) (parts : List (List Char)) : Option String :=
  d.files.lookup parts

/-- Is this a directory?  The top one always is, and so is everything above an entry. -/
def isFolder (d : Directory) (parts : List (List Char)) : Bool :=
  parts.isEmpty || d.folders.any (parts.isPrefixOf ·)
    || d.files.any fun (name, _) => parts.isPrefixOf name && parts ≠ name

/-- Where a path leads. -/
inductive Spot
  /-- Below the directory. -/
  | below (parts : List (List Char))
  /-- Above it, where nothing is known. -/
  | above
deriving Repr, DecidableEq

/-- Where the parts of a path lead from a spot, each step of which must start in a directory. -/
def walk (d : Directory) : Spot → List (List Char) → Except Unreadable Spot
  | spot, [] => .ok spot
  | .above, part :: rest =>
      if part = ['.', '.'] then d.walk .above rest else .error .missing
  | .below parts, part :: rest =>
      if (d.file? parts).isSome then .error .notDirectory
      else if !d.isFolder parts then .error .missing
      else if part = ['.', '.'] then
        d.walk (if parts.isEmpty then .above else .below parts.dropLast) rest
      else d.walk (.below (parts ++ [part])) rest

def read (d : Directory) (path : String) : Except Unreadable String :=
  let start : Spot := if (pathRoot path.toList).isEmpty then .below [] else .above
  match d.walk start (pathParts path.toList) with
  | .error refusal => .error refusal
  | .ok .above => .error .isDirectory
  | .ok (.below parts) =>
      match d.file? parts with
      | some text => .ok text
      | none => .error (if d.isFolder parts then .isDirectory else .missing)

end Directory

end BorrowLang.CommandLine
