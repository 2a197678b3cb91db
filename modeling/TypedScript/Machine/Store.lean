/-
Frames: where a running program keeps the values of its variables. A frame is made for each run of a module's body and
each call of a function; its parent is the frame the function was made in, so that a variable is looked for in its own
frame and then outwards. A function keeps its frame when the call that made it is over, so frames are never removed. A
`Forest` is a store together with an operand stack for each of its frames.

- `Store.parent?_lt`: following parents ends.
- `Operands.popN_append`: what was pushed last comes back in the order in which it was pushed.
-/
import TypedScript.Fault
import TypedScript.Table
import TypedScript.Machine.Value

namespace TypedScript

/-- a stack of operands, the top first -/
abbrev Operands (φ : Type := Template) := List (Value φ)

variable {φ : Type}

namespace Operands

def pop : Operands φ → Except RuntimeFault (Value φ × Operands φ)
  | [] => .error .stackUnderflow
  | v :: stack => .ok (v, stack)

/-- the uppermost `count` values, in the order in which they were pushed -/
def popN (stack : Operands φ) (count : Nat) : Except RuntimeFault (List (Value φ) × Operands φ) :=
  if stack.length < count then .error .stackUnderflow else .ok ((stack.take count).reverse, stack.drop count)

theorem popN_append (values : List (Value φ)) (stack : Operands φ) :
    popN (values.reverse ++ stack) values.length = .ok (values, stack) := by
  have h : ¬ (values.reverse ++ stack).length < values.length := by simp
  have ht : (values.reverse ++ stack).take values.length = values.reverse := by
    rw [← List.length_reverse, List.take_left']
    rfl
  have hd : (values.reverse ++ stack).drop values.length = stack := by
    rw [← List.length_reverse, List.drop_left']
    rfl
  rw [popN, if_neg h, ht, hd, List.reverse_reverse]

end Operands

structure Frame (φ : Type := Template) where
  /-- the cells made in this frame by their numbers; an empty one was not stored to yet -/
  cells : Table Nat (Option (Value φ))
  parent : Option FrameId
  /-- the function whose call this is -/
  running : Option (Closure φ)
deriving Inhabited

/-- all frames in the order in which they were made, and the identity of the next function -/
structure Store (φ : Type := Template) where
  frames : Array (Frame φ)
  nextIdentity : Nat
deriving Inhabited

namespace Store

def empty : Store φ := ⟨#[], 0⟩

def get? (s : Store φ) (frame : FrameId) : Option (Frame φ) := s.frames[frame]?

def add (s : Store φ) (frame : Frame φ) : FrameId × Store φ :=
  (s.frames.size, { s with frames := s.frames.push frame })

/-- a frame for a module's body -/
def newRoot (s : Store φ) : FrameId × Store φ := s.add ⟨.empty, none, none⟩

/-- a frame for a call of a function, inside the frame the function was made in -/
def newCall (s : Store φ) (c : Closure φ) : FrameId × Store φ := s.add ⟨.empty, some c.frame, some c⟩

/-- a new function over a frame -/
def newClosure (s : Store φ) (template : φ) (frame : FrameId) : Closure φ × Store φ :=
  (⟨s.nextIdentity, template, frame⟩, { s with nextIdentity := s.nextIdentity + 1 })

/-- the frame around a frame; it was made earlier -/
def parent? (s : Store φ) (frame : FrameId) : Option FrameId :=
  match s.get? frame with
  | some ⟨_, some parent, _⟩ => if parent < frame then some parent else none
  | _ => none

theorem parent?_lt {s : Store φ} {frame parent : FrameId} (h : s.parent? frame = some parent) : parent < frame := by
  unfold parent? at h
  split at h
  · split at h
    · cases h; assumption
    · cases h
  · cases h

/-- the function whose call a frame is -/
def running? (s : Store φ) (frame : FrameId) : Option (Closure φ) := (s.get? frame).bind Frame.running

/-- what a frame itself has of a cell -/
def slot? (s : Store φ) (frame : FrameId) (cell : Nat) : Option (Option (Value φ)) :=
  (s.get? frame).bind fun f => f.cells.find? cell

/-- the nearest frame with the cell, from a frame outwards -/
def holder? (s : Store φ) (frame : FrameId) (cell : Nat) : Option FrameId :=
  if (s.slot? frame cell).isSome then some frame
  else
    match h : s.parent? frame with
    | some parent =>
      have := parent?_lt h
      s.holder? parent cell
    | none => none
termination_by frame

/-- give a cell of a frame a content -/
def put (s : Store φ) (frame : FrameId) (cell : Nat) (content : Option (Value φ)) : Store φ :=
  { s with frames := s.frames.modify frame fun f => { f with cells := f.cells.insert cell content } }

/-- make an empty cell in a frame -/
def reserve (s : Store φ) (frame : FrameId) (cell : Cell) : Store φ := s.put frame cell.id none

/-- give the nearest cell in reach a value -/
def store (s : Store φ) (frame : FrameId) (cell : Cell) (value : Value φ) : Except RuntimeFault (Store φ) :=
  match s.holder? frame cell.id with
  | some holder => .ok (s.put holder cell.id (some value))
  | none => .error (.missingCell cell.id cell.name)

/-- the value of the nearest cell in reach -/
def load (s : Store φ) (frame : FrameId) (cell : Cell) : Except RuntimeFault (Value φ) :=
  match (s.holder? frame cell.id).bind fun holder => s.slot? holder cell.id with
  | some (some value) => .ok value
  | some none => .error (.uninitialisedCell cell.id cell.name)
  | none => .error (.missingCell cell.id cell.name)

end Store

/-- a store, and an operand stack for each of its frames -/
structure Forest where
  store : Store
  operands : Array Operands
deriving Inhabited

namespace Forest

def empty : Forest := ⟨.empty, #[]⟩

/-- a frame just made in a store, with an empty stack -/
def withFrame (f : Forest) (made : FrameId × Store) : FrameId × Forest := (made.1, ⟨made.2, f.operands.push []⟩)

def newRoot (f : Forest) : FrameId × Forest := f.withFrame f.store.newRoot

/-- a frame for a call of a new function over a frame -/
def newCall (f : Forest) (frame : FrameId) (template : Template) : FrameId × Forest :=
  let (c, store) := f.store.newClosure template frame
  f.withFrame (store.newCall c)

def stack (f : Forest) (frame : FrameId) : Operands := (f.operands[frame]?).getD []

def setStack (f : Forest) (frame : FrameId) (stack : Operands) : Forest :=
  { f with operands := f.operands.modify frame fun _ => stack }

def push (f : Forest) (frame : FrameId) (v : Value) : Forest := f.setStack frame (v :: f.stack frame)

def pop (f : Forest) (frame : FrameId) : Except RuntimeFault (Value × Forest) := do
  let (v, stack) ← (f.stack frame).pop
  return (v, f.setStack frame stack)

def popN (f : Forest) (frame : FrameId) (count : Nat) : Except RuntimeFault (List Value × Forest) := do
  let (vs, stack) ← (f.stack frame).popN count
  return (vs, f.setStack frame stack)

def reserve (f : Forest) (frame : FrameId) (cell : Cell) : Forest := { f with store := f.store.reserve frame cell }

def assign (f : Forest) (frame : FrameId) (cell : Cell) (v : Value) : Except RuntimeFault Forest := do
  return { f with store := ← f.store.store frame cell v }

def load (f : Forest) (frame : FrameId) (cell : Cell) : Except RuntimeFault Value := f.store.load frame cell

end Forest

end TypedScript
