/-
A disk: the files that the reader may open, and the directory in which it stands. A path is followed from stretch to
stretch, so that, unlike in the normal form of a path, everything before a step up has to be there; a step up from the
root of all files stays at the root. The directories are those on the way to a file or to where the reader stands.
-/
import TypedScript.Table
import TypedScript.Linking.Path
import TypedScript.Linking.LoadError

namespace TypedScript

/-- a place on a disk: the names that lead to it from the root of all files, the last one first -/
abbrev Location := List String

structure Disk where
  /-- the text of each file -/
  files : Table Location String
  /-- where a path starts that does not start at the root -/
  here : Location
deriving Inhabited

namespace Disk

/-- no files, and a reader that stands at the root -/
def empty : Disk := ⟨.empty, []⟩

/-- the longest name there can be, in bytes -/
def maxName : Nat := 255

/-- one more than the bytes of the longest path that can be asked for -/
def maxPath : Nat := 4096

def isDirectory (d : Disk) (place : Location) : Bool :=
  place.isSuffixOf d.here || d.files.keys.any fun file => place ≠ file && place.isSuffixOf file

/-- there is a file or a directory at a place -/
def holds (d : Disk) (place : Location) : Bool := d.isDirectory place || (d.files.find? place).isSome

/-- where one stretch of a path leads from a place -/
def enter (d : Disk) (place : Location) (stretch : String) : Except LoadError Location :=
  if !d.isDirectory place then .error .notDirectory
  else if stretch = "" || stretch = "." then .ok place
  else if stretch = ".." then .ok place.tail
  else if maxName < stretch.utf8ByteSize then .error .tooLong
  else if d.holds (stretch :: place) then .ok (stretch :: place)
  else .error .missing

/-- where the stretches of a path lead from a place -/
def follow (d : Disk) : Location → List String → Except LoadError Location
  | place, [] => .ok place
  | place, stretch :: path => do d.follow (← d.enter place stretch) path

/-- the text of the file that a path leads to -/
def read (d : Disk) (path : String) : Except LoadError String :=
  if '\x00' ∈ path.toList then .error .nullCharacter
  else if path = "" then .error .missing
  else if maxPath ≤ path.utf8ByteSize then .error .tooLong
  else do
    let start := if path.toList.head? = some '/' then [] else d.here
    let place ← d.follow start ((Path.stretches path.toList).map String.ofList)
    match d.files.find? place with
    | some source => return source
    | none => throw .isDirectory

end Disk

end TypedScript
