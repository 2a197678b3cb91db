/-
Types. `Ty.equals` compares two types with `Any` standing for every type but `Void`; the type of an expression that
failed to check, `error`, equals nothing, itself included.

- `Ty.equals_comm`: the order of the two types does not matter.
- `Ty.toNote?_ofNote`: an annotation can be read off the type it stands for.
-/
import TypedScript.Tree

namespace TypedScript

inductive Ty
  /-- the type of what already failed to check -/
  | error
  | any
  | void
  | ident (name : String)
  | list (element : Ty)
  | optional (child : Ty)
  | tuple (items : List Ty)
  | function (params : List Ty) (result : Ty)
deriving Inhabited

/-- what a function takes and gives -/
structure Signature where
  params : List Ty
  result : Ty
deriving Inhabited

namespace Ty

def int : Ty := ident "Int"

def str : Ty := ident "Str"

def bool : Ty := ident "Bool"

def isError : Ty → Bool
  | error => true
  | _ => false

def isVoid : Ty → Bool
  | void => true
  | _ => false

mutual

/-- the same type, up to what `Any` stands for -/
def equals : Ty → Ty → Bool
  | error, _ => false
  | any, error => false
  | any, void => false
  | any, _ => true
  | void, void => true
  | void, _ => false
  | ident _, any => true
  | ident l, ident r => l = r
  | ident _, _ => false
  | list _, any => true
  | list l, list r => equals l r
  | list _, _ => false
  | optional _, any => true
  | optional l, optional r => equals l r
  | optional _, _ => false
  | tuple _, any => true
  | tuple l, tuple r => allEqual l r
  | tuple _, _ => false
  | function _ _, any => true
  | function l a, function r b => allEqual l r && equals a b
  | function _ _, _ => false

/-- as many types on both sides, equal in pairs -/
def allEqual : List Ty → List Ty → Bool
  | [], [] => true
  | l :: ls, r :: rs => equals l r && allEqual ls rs
  | _, _ => false

end

mutual

/-- the type that an annotation stands for -/
def ofNote : Note → Ty
  | .any => any
  | .void => void
  | .ident name => ident name
  | .list element => list (ofNote element)
  | .optional child => optional (ofNote child)
  | .tuple items => tuple (ofNotes items)
  | .function params result => function (ofNotes params) (ofNote result)

def ofNotes : List Note → List Ty
  | [] => []
  | note :: notes => ofNote note :: ofNotes notes

end

mutual

/-- the annotation that stands for a type; the error type has none -/
def toNote? : Ty → Option Note
  | error => none
  | any => some .any
  | void => some .void
  | ident name => some (.ident name)
  | list element => (toNote? element).map .list
  | optional child => (toNote? child).map .optional
  | tuple items => (toNotes? items).map .tuple
  | function params result =>
    match toNotes? params, toNote? result with
    | some ps, some r => some (.function ps r)
    | _, _ => none

def toNotes? : List Ty → Option (List Note)
  | [] => some []
  | ty :: tys =>
    match toNote? ty, toNotes? tys with
    | some note, some notes => some (note :: notes)
    | _, _ => none

end

mutual

theorem toNote?_ofNote (note : Note) : toNote? (ofNote note) = some note := by
  cases note <;> simp [ofNote, toNote?, toNote?_ofNote, toNotes?_ofNotes]
termination_by structural note

theorem toNotes?_ofNotes (notes : List Note) : toNotes? (ofNotes notes) = some notes := by
  cases notes <;> simp [ofNotes, toNotes?, toNote?_ofNote, toNotes?_ofNotes]
termination_by structural notes

end

mutual

/-- a type in the notation of the language -/
def render : Ty → String
  | error => "ERROR"
  | any => "Any"
  | void => "Void"
  | ident name => name
  | list element => "[" ++ render element ++ "]"
  | optional child => render child ++ "?"
  | tuple items => "(" ++ renderItems items ++ ")"
  | function params result => "(" ++ renderItems params ++ ") => " ++ render result

/-- types separated by spaces -/
def renderItems : List Ty → String
  | [] => ""
  | [item] => render item
  | item :: items => render item ++ " " ++ renderItems items

end

mutual

theorem equals_comm (l r : Ty) : equals l r = equals r l := by
  cases l <;> cases r <;> simp only [equals, eq_comm]
  · rw [equals_comm]
  · rw [equals_comm]
  · rw [allEqual_comm]
  · rw [allEqual_comm, equals_comm]
termination_by structural l

theorem allEqual_comm (ls rs : List Ty) : allEqual ls rs = allEqual rs ls := by
  cases ls <;> cases rs <;> simp only [allEqual]
  rw [equals_comm, allEqual_comm]
termination_by structural ls

end

end Ty

namespace Signature

def ty (s : Signature) : Ty := .function s.params s.result

def equals (l r : Signature) : Bool := Ty.allEqual l.params r.params && l.result.equals r.result

def render (s : Signature) : String := s.ty.render

end Signature

end TypedScript
