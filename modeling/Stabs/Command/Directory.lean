/-!
# Directories

A command sees the files of its working directory. A path is walked name by name from there. Of
the directories above nothing is known but that they exist.
-/
namespace Stabs

/-- Why a file cannot be read or written. -/
inductive FileError where
  | absent
  | notDirectory
  | isDirectory
  | nameTooLong
  | nulInName
  | other (message : String)
deriving DecidableEq, Repr

def FileError.message : FileError → String
  | absent => "No such file or directory (os error 2)"
  | notDirectory => "Not a directory (os error 20)"
  | isDirectory => "Is a directory (os error 21)"
  | nameTooLong => "File name too long (os error 36)"
  | nulInName => "file name contained an unexpected NUL byte"
  | other message => message

/-- A path as the names between its slashes. -/
structure Path where
  fromRoot : Bool
  names : List String
  endsInSlash : Bool
deriving DecidableEq, Repr

namespace Path

/-- The names between slashes; `name` holds the start of the first one in reverse. -/
def namesOf (name : List Char) : List Char → List String
  | [] => if name.isEmpty then [] else [.ofList name.reverse]
  | '/' :: rest => if name.isEmpty then namesOf [] rest else .ofList name.reverse :: namesOf [] rest
  | c :: rest => namesOf (c :: name) rest

/-- How many bytes a path may have. -/
def byteLimit : Nat := 4095

/-- How many bytes a name may have. -/
def nameLimit : Nat := 255

def parse (text : String) : Except FileError Path :=
  let cs := text.toList
  if cs.contains '\x00' then .error .nulInName
  else if cs.isEmpty then .error .absent
  else if byteLimit < text.utf8ByteSize then .error .nameTooLong
  else .ok {
    fromRoot := cs.head? = some '/', names := namesOf [] cs, endsInSlash := cs.getLast? = some '/' }

end Path

structure Directory where
  files : List (String × String)
deriving Repr

namespace Directory

/-- Where a walk can lead: to the directory itself, above it, or to one of its files. -/
inductive Place where
  | here
  | above
  | file (text : String)
deriving DecidableEq, Repr

/-- Goes on to a name from a place. -/
def step (directory : Directory) : Place → String → Except FileError Place
  | .file _, _ => .error .notDirectory
  | place, "." => .ok place
  | _, ".." => .ok .above
  | place, name =>
    if Path.nameLimit < name.utf8ByteSize then .error .nameTooLong
    else match place, directory.files.lookup name with
      | .here, some text => .ok (.file text)
      | _, _ => .error .absent

def walk (directory : Directory) (fromRoot : Bool) (names : List String) : Except FileError Place :=
  names.foldlM directory.step (if fromRoot then .above else .here)

def read (directory : Directory) (path : String) : Except FileError String := do
  let path ← Path.parse path
  match ← directory.walk path.fromRoot path.names with
  | .file text => if path.endsInSlash then throw .notDirectory else return text
  | _ => throw .isDirectory

/-- Puts a file under a name, in the place of the old one if there is one. -/
def put (directory : Directory) (name text : String) : Directory :=
  ⟨(name, text) :: directory.files.filter fun (other, _) => other ≠ name⟩

/-- Writes a file. One that lies above the directory is out of sight. -/
def write (directory : Directory) (path text : String) : Except FileError Directory := do
  let path ← Path.parse path
  match path.names.getLast? with
  | none => throw .isDirectory
  | some name =>
    let place ← directory.walk path.fromRoot path.names.dropLast
    if place matches .file _ then throw .notDirectory
    if path.endsInSlash || name = "." || name = ".." then throw .isDirectory
    if Path.nameLimit < name.utf8ByteSize then throw .nameTooLong
    return if place = .here then directory.put name text else directory

/-- The files that are new or whose text has changed. -/
def changes (before after : Directory) : List (String × String) :=
  after.files.filter fun (name, text) => before.files.lookup name ≠ some text

end Directory

end Stabs
