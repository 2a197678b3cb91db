/-
Where the source texts of modules come from: a store in memory, where a text has a path and is found under every
spelling of it, or the files of a disk. `Loader.load_insert` says what a store answers after one more text was put in.
-/
import TypedScript.Linking.Disk

namespace TypedScript

/-- The two kinds are enough for any place that texts may come from. Building a graph asks for no path again that it was
given a text for, since every text has its path in normal form as its key (`Graph.grow`). So where no load fails, a
build gets from a store in memory that holds the texts it was given what it got from wherever they came. -/
inductive Loader
  /-- source texts by the normal form of their path -/
  | memory (files : Table Path String)
  | disk (disk : Disk)
deriving Inhabited

namespace Loader

/-- no more paths in normal form than these have a text. On a disk, a normal path leads to a given file in one way for
each number of steps up it starts with, from the root or from where the reader stands, and every step up takes three
bytes of the path. -/
def capacity : Loader → Nat
  | memory files => files.size
  | disk d => d.files.size * Disk.maxPath

/-- put a text into a store; a text of the same path is replaced -/
def insert (files : Table Path String) (path source : String) : Table Path String :=
  files.insert (Path.ofString path).normalize source

/-- the text at a path -/
def load (l : Loader) (path : String) : Except LoadError String :=
  match l with
  | memory files =>
    match files.find? (Path.ofString path).normalize with
    | some source => .ok source
    | none => .error (.notStored path)
  | disk d => d.read path

theorem load_insert (files : Table Path String) (path source path' : String) :
    (memory (insert files path source)).load path' =
      if (Path.ofString path).normalize = (Path.ofString path').normalize then .ok source
      else (memory files).load path' := by
  simp only [load, insert, Table.find?_insert]
  by_cases h : (Path.ofString path).normalize = (Path.ofString path').normalize <;> simp [h]

end Loader

end TypedScript
