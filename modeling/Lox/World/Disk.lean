import Lox.Text.Utf8

/-!
Files and directories as a program sees them, found by path from the working directory.
-/

namespace Lox

/-- Why a file cannot be read as text. -/
inductive ReadFault where
  | notFound
  | isDirectory
  | notDirectory
  | notText
  | nulInPath
deriving DecidableEq

def ReadFault.message : ReadFault → String
  | notFound => "No such file or directory (os error 2)"
  | isDirectory => "Is a directory (os error 21)"
  | notDirectory => "Not a directory (os error 20)"
  | notText => "stream did not contain valid UTF-8"
  | nulInPath => "file name contained an unexpected NUL byte"

/-- A path as it was written. -/
abbrev Path := String

namespace Path

/-- The parts between slashes, empty ones included. -/
def split (path : Path) : List String := path.splitOn "/"

def isAbsolute (path : Path) : Bool := path.toList.head? == some '/'

/-- One step of a path, with the root and a leading dot kept apart from names. -/
inductive Component where
  | root
  | current
  | parent
  | name (text : String)
deriving DecidableEq

def component? (part : String) : Option Component :=
  if part = "" ∨ part = "." then none
  else if part = ".." then some .parent
  else some (.name part)

/-- Empty parts and dots do not count, except for a dot at the very beginning. -/
def components (path : Path) : List Component :=
  let steps := path.split.filterMap component?
  if path.isAbsolute then .root :: steps
  else if path.split.head? = some "." then .current :: steps
  else steps

/-- Whether two paths have the same components. -/
def same (a b : Path) : Bool := a.components = b.components

end Path

/-- The bytes of a file, or a directory. -/
inductive Entry where
  | file (bytes : List UInt8)
  | directory

/-- A place is named by the steps that lead to it: from the working directory, from above it, or
from the root. -/
abbrev Place := List String

namespace Place

/-- The working directory, those above it and the root are always there. -/
def isGiven (place : Place) : Bool := place = ["/"] ∨ place.all (· = "..")

def start (path : Path) : Place := if path.isAbsolute then ["/"] else []

def follow (place : Place) (part : String) : Place :=
  if part = "" ∨ part = "." then place
  else if part = ".." then
    if place = ["/"] then place
    else if place.isGiven then place ++ [".."]
    else place.dropLast
  else place ++ [part]

/-- The place that a path leads to if all steps can be taken. -/
def ofPath (path : Path) : Place := path.split.foldl follow (start path)

end Place

/-- Files and directories by place. -/
structure Disk where
  entries : List (Place × Entry) := []

namespace Disk

def entry? (d : Disk) (place : Place) : Option Entry :=
  if place.isGiven then some .directory else d.entries.lookup place

/-- A step along a path, which has to start from a directory and to lead to something. -/
def step (d : Disk) (place : Place) (part : String) : Except ReadFault Place :=
  match d.entry? place with
  | some (.file _) => .error .notDirectory
  | _ =>
    if (d.entry? (place.follow part)).isSome then .ok (place.follow part)
    else .error .notFound

def walk (d : Disk) : Place → List String → Except ReadFault Place
  | place, [] => .ok place
  | place, part :: rest => do d.walk (← d.step place part) rest

/-- The place that a path leads to; the empty path leads nowhere. -/
def locate (d : Disk) (path : Path) : Except ReadFault Place :=
  if path.toList.contains '\x00' then .error .nulInPath
  else if path = "" then .error .notFound
  else d.walk (.start path) path.split

/-- The bytes at a place. -/
def content (d : Disk) (place : Place) : Except ReadFault (List UInt8) :=
  match d.entry? place with
  | some (.file bytes) => .ok bytes
  | _ => .error .isDirectory

def readBytes (d : Disk) (path : Path) : Except ReadFault (List UInt8) := do
  d.content (← d.locate path)

def readText (d : Disk) (path : Path) : Except ReadFault String := do
  match Text.Utf8.decode? (← d.readBytes path) with
  | some text => return text
  | none => throw .notText

def erase (place : Place) (d : Disk) : Disk :=
  ⟨d.entries.filter fun e => e.1 ≠ place⟩

/-- Puts an entry in place of the one that was there. -/
def put (place : Place) (e : Entry) (d : Disk) : Disk :=
  ⟨(place, e) :: (d.erase place).entries⟩

/-- Makes a directory unless something is there. -/
def ensure (d : Disk) (place : Place) : Disk :=
  if (d.entry? place).isSome then d else d.put place .directory

/-- Makes every directory from which a step of a path is taken, those that the path leaves again
included. -/
def ensureAlong (d : Disk) : Place → List String → Disk
  | _, [] => d
  | place, part :: rest => (d.ensure place).ensureAlong (place.follow part) rest

/-- Puts an entry at a path; the directories on the way to it are made if need be. -/
def insert (path : Path) (e : Entry) (d : Disk) : Disk :=
  (d.ensureAlong (.start path) path.split).put (.ofPath path) e

/-- Removes the file that a path leads to, if there is one. -/
def remove (path : Path) (d : Disk) : Disk :=
  match d.locate path with
  | .ok place => match d.entry? place with
    | some (.file _) => d.erase place
    | _ => d
  | .error _ => d

end Disk

end Lox
