/-
Values and stores made from one kind of functions, turned into those made from another. What a running program does with
values depends on functions only as far as two of them are the same: equality, operators and subscripts commute with
putting others in their place (`Value.remake`). In particular it does not depend on what functions are made from, and
neither do the uses of a store (`Value.map`, `Store.map`).
-/
import TypedScript.Machine.Operation
import TypedScript.Machine.Store

namespace TypedScript

variable {φ ψ : Type}

/-! ## Tables -/

namespace Table

variable {κ α β : Type} [DecidableEq κ]

/-- the table with each value changed -/
def map (f : α → β) (t : Table κ α) : Table κ β := ⟨t.entries.map fun e => (e.1, f e.2)⟩

omit [DecidableEq κ] in
@[simp] theorem map_empty (f : α → β) : (empty : Table κ α).map f = empty := rfl

@[simp] theorem find?_map (f : α → β) (t : Table κ α) (key : κ) : (t.map f).find? key = (t.find? key).map f := by
  unfold find? map
  rw [List.find?_map, Option.map_map, Option.map_map]
  rfl

theorem insertEntry_map (f : α → β) (key : κ) (value : α) (entries : List (κ × α)) :
    insertEntry key (f value) (entries.map fun e => (e.1, f e.2)) =
      (insertEntry key value entries).map fun e => (e.1, f e.2) := by
  induction entries with
  | nil => rfl
  | cons e entries ih =>
    simp only [List.map_cons, insertEntry]
    split
    · rfl
    · rw [ih, List.map_cons]

@[simp] theorem map_insert (f : α → β) (t : Table κ α) (key : κ) (value : α) :
    (t.insert key value).map f = (t.map f).insert key (f value) := by
  unfold map insert
  rw [insertEntry_map]

theorem map_ofList (f : α → β) (entries : List (κ × α)) :
    (ofList entries).map f = ofList (entries.map fun e => (e.1, f e.2)) := by
  unfold ofList
  rw [List.foldl_map]
  generalize hs : (empty : Table κ α) = start
  rw [show (empty : Table κ β) = start.map f by rw [← hs]; rfl]
  clear hs
  induction entries generalizing start with
  | nil => rfl
  | cons e entries ih => rw [List.foldl_cons, List.foldl_cons, ih, map_insert]

/-- a value that is replaced at once leaves no trace -/
theorem insert_insert (t : Table κ α) (key : κ) (value value' : α) :
    (t.insert key value).insert key value' = t.insert key value' := by
  obtain ⟨entries⟩ := t
  unfold insert
  congr 1
  induction entries with
  | nil => simp [insertEntry]
  | cons e entries ih =>
    by_cases h : e.1 = key
    · simp [insertEntry, h]
    · simp [insertEntry, h, ih]

end Table

/-! ## Values -/

namespace Value

mutual

/-- a value with other functions in place of its own -/
def remake (g : Closure φ → Closure ψ) : Value φ → Value ψ
  | none => none
  | int value => int value
  | str value => str value
  | bool value => bool value
  | list items => list (remakeItems g items)
  | builtin b => builtin b
  | closure c => closure (g c)

def remakeItems (g : Closure φ → Closure ψ) : List (Value φ) → List (Value ψ)
  | [] => []
  | v :: vs => remake g v :: remakeItems g vs

end

variable (g : Closure φ → Closure ψ)

@[simp] theorem remakeItems_eq (vs : List (Value φ)) : remakeItems g vs = vs.map (remake g) := by
  induction vs with
  | nil => rfl
  | cons v vs ih => rw [remakeItems, ih, List.map_cons]

theorem asInt_remake (v : Value φ) : (v.remake g).asInt = v.asInt := by cases v <;> rfl

theorem asBool_remake (v : Value φ) : (v.remake g).asBool = v.asBool := by cases v <;> rfl

mutual

/-- values are equal as before, if two functions are the same just where they were -/
theorem eqv_remake (hg : ∀ c d, (g c).identity = (g d).identity ↔ c.identity = d.identity) (v w : Value φ) :
    (v.remake g).eqv (w.remake g) = v.eqv w := by
  cases v with
  | list items =>
    cases w with
    | list items' => exact eqvItems_remake hg items items'
    | _ => rfl
  | closure c =>
    cases w with
    | closure d => exact decide_eq_decide.2 (hg c d)
    | _ => rfl
  | _ => cases w <;> rfl
termination_by structural v

theorem eqvItems_remake (hg : ∀ c d, (g c).identity = (g d).identity ↔ c.identity = d.identity)
    (vs ws : List (Value φ)) : eqvItems (remakeItems g vs) (remakeItems g ws) = eqvItems vs ws := by
  cases vs with
  | nil => cases ws <;> rfl
  | cons v vs =>
    cases ws with
    | nil => rfl
    | cons w ws => rw [remakeItems, remakeItems, eqvItems, eqvItems, eqv_remake hg v w, eqvItems_remake hg vs ws]
termination_by structural vs

end

theorem itemAt_remake (items : List (Value φ)) (index : Int64) :
    itemAt (items.map (remake g)) index = (itemAt items index).remake g := by
  unfold itemAt
  split
  · rfl
  · rw [List.getElem?_map]
    cases items[index.toInt.toNat]? <;> rfl

theorem subscript_remake (target index : Value φ) :
    (target.remake g).subscript (index.remake g) = (target.subscript index).map (remake g) := by
  unfold subscript
  rw [asInt_remake]
  cases index.asInt with
  | error fault => rfl
  | ok i =>
    cases target with
    | list items =>
      change Except.ok (itemAt (remakeItems g items) i) = Except.ok ((itemAt items i).remake g)
      rw [remakeItems_eq, itemAt_remake]
    | str text =>
      change Except.ok (itemAt (text.toList.map fun c => str (String.singleton c)) i) =
        Except.ok ((itemAt (text.toList.map fun c => str (String.singleton c)) i).remake g)
      rw [← itemAt_remake, List.map_map]
      rfl
    | _ => rfl

end Value

namespace BinaryOp

variable {g : Closure φ → Closure ψ}

theorem onInts_remake (op : BinaryOp) (l r : Int64) :
    (op.onInts l r : Except RuntimeFault (Value ψ)) = (op.onInts l r).map (Value.remake g) := by
  cases op with
  | divide =>
    by_cases h : r = 0
    · simp [onInts, h, Except.map]
    · simp [onInts, h, Except.map, Value.remake]
  | modulo =>
    by_cases h : r = 0
    · simp [onInts, h, Except.map]
    · simp [onInts, h, Except.map, Value.remake]
  | _ => rfl

/-- the two operands as whole numbers -/
def ints (op : BinaryOp) (l r : Value φ) : Except RuntimeFault (Value φ) := do
  let a ← l.asInt
  let b ← r.asInt
  op.onInts a b

theorem ints_remake (op : BinaryOp) (l r : Value φ) :
    op.ints (l.remake g) (r.remake g) = (op.ints l r).map (Value.remake g) := by
  unfold ints
  rw [Value.asInt_remake, Value.asInt_remake]
  cases l.asInt with
  | error fault => rfl
  | ok a =>
    cases r.asInt with
    | error fault => rfl
    | ok b => exact onInts_remake op a b

theorem apply_remake (hg : ∀ c d, (g c).identity = (g d).identity ↔ c.identity = d.identity) (op : BinaryOp)
    (l r : Value φ) : op.apply (l.remake g) (r.remake g) = (op.apply l r).map (Value.remake g) := by
  cases op with
  | equals =>
    change Except.ok (Value.bool ((l.remake g).eqv (r.remake g))) = Except.ok (Value.bool (l.eqv r))
    rw [Value.eqv_remake g hg]
  | notEquals =>
    change Except.ok (Value.bool (!(l.remake g).eqv (r.remake g))) = Except.ok (Value.bool (!l.eqv r))
    rw [Value.eqv_remake g hg]
  | and =>
    unfold apply
    simp only [Value.asBool_remake]
    cases l.asBool <;> cases r.asBool <;> rfl
  | or =>
    unfold apply
    simp only [Value.asBool_remake]
    cases l.asBool <;> cases r.asBool <;> rfl
  | add =>
    cases l with
    | str text =>
      cases r with
      | str text' => rfl
      | _ => rfl
    | _ => exact ints_remake add _ r
  | _ => exact ints_remake _ l r

end BinaryOp

/-- a function made from something else -/
def Closure.map (f : φ → ψ) (c : Closure φ) : Closure ψ := ⟨c.identity, f c.template, c.frame⟩

namespace Value

mutual

/-- a value with its functions made from something else -/
def map (f : φ → ψ) : Value φ → Value ψ
  | none => none
  | int value => int value
  | str value => str value
  | bool value => bool value
  | list items => list (mapItems f items)
  | builtin b => builtin b
  | closure c => closure (c.map f)

def mapItems (f : φ → ψ) : List (Value φ) → List (Value ψ)
  | [] => []
  | v :: vs => map f v :: mapItems f vs

end

variable (f : φ → ψ)

@[simp] theorem mapItems_eq (vs : List (Value φ)) : mapItems f vs = vs.map (map f) := by
  induction vs with
  | nil => rfl
  | cons v vs ih => rw [mapItems, ih, List.map_cons]

mutual

theorem map_eq_remake (v : Value φ) : v.map f = v.remake (Closure.map f) := by
  cases v with
  | list items => exact congrArg list (mapItems_eq_remake items)
  | _ => rfl
termination_by structural v

theorem mapItems_eq_remake (vs : List (Value φ)) : mapItems f vs = remakeItems (Closure.map f) vs := by
  cases vs with
  | nil => rfl
  | cons v vs => rw [mapItems, remakeItems, map_eq_remake v, mapItems_eq_remake vs]
termination_by structural vs

end

/-- so what is known of other functions in general holds of those that are made from something else -/
theorem map_eq : map f = remake (Closure.map f) := funext (map_eq_remake f)

@[simp] theorem asBool_map (v : Value φ) : (v.map f).asBool = v.asBool := by cases v <;> rfl

theorem subscript_map (target index : Value φ) :
    (target.map f).subscript (index.map f) = (target.subscript index).map (map f) := by
  rw [map_eq, subscript_remake]

end Value

theorem BinaryOp.apply_map (f : φ → ψ) (op : BinaryOp) (l r : Value φ) :
    op.apply (l.map f) (r.map f) = (op.apply l r).map (Value.map f) := by
  rw [Value.map_eq, @apply_remake _ _ (Closure.map f) fun _ _ => Iff.rfl]

/-! ## Stores -/

/-- where a cell is found, one frame at a time -/
theorem Store.holder?_eq (s : Store φ) (frame : FrameId) (cell : Nat) :
    s.holder? frame cell =
      if (s.slot? frame cell).isSome then some frame
      else (s.parent? frame).bind fun parent => s.holder? parent cell := by
  rw [holder?]
  split
  · rfl
  · split
    · next parent h => simp [h]
    · next h => simp [h]

def Frame.map (f : φ → ψ) (frame : Frame φ) : Frame ψ :=
  ⟨frame.cells.map (Option.map (Value.map f)), frame.parent, frame.running.map (Closure.map f)⟩

namespace Store

variable (f : φ → ψ) (s : Store φ) (frame : FrameId) (cell : Nat)

/-- a store with its functions made from something else -/
def map : Store ψ := ⟨s.frames.map (Frame.map f), s.nextIdentity⟩

@[simp] theorem map_empty : (empty : Store φ).map f = empty := by simp [map, empty]

theorem get?_map : (s.map f).get? frame = (s.get? frame).map (Frame.map f) := by
  unfold get? map
  rw [Array.getElem?_map]

theorem slot?_map : (s.map f).slot? frame cell = (s.slot? frame cell).map (Option.map (Value.map f)) := by
  unfold slot?
  rw [get?_map]
  cases s.get? frame with
  | none => rfl
  | some fr => exact Table.find?_map _ _ _

theorem parent?_map : (s.map f).parent? frame = s.parent? frame := by
  unfold parent?
  rw [get?_map]
  cases s.get? frame with
  | none => rfl
  | some fr =>
    obtain ⟨cells, parent, running⟩ := fr
    cases parent <;> rfl

theorem running?_map : (s.map f).running? frame = (s.running? frame).map (Closure.map f) := by
  unfold running?
  rw [get?_map]
  cases s.get? frame <;> rfl

theorem holder?_map : (s.map f).holder? frame cell = s.holder? frame cell := by
  induction frame using Nat.strongRecOn with
  | ind frame ih =>
    rw [holder?_eq, holder?_eq, slot?_map, Option.isSome_map, parent?_map]
    split
    · rfl
    · cases hparent : s.parent? frame with
      | none => rfl
      | some parent => exact ih parent (parent?_lt hparent)

theorem load_map (cell : Cell) : (s.map f).load frame cell = (s.load frame cell).map (Value.map f) := by
  unfold load
  rw [holder?_map]
  cases s.holder? frame cell.id with
  | none => rfl
  | some holder =>
    rw [Option.bind_some, Option.bind_some, slot?_map]
    cases s.slot? holder cell.id with
    | none => rfl
    | some content => cases content <;> rfl

theorem put_map (content : Option (Value φ)) :
    (s.put frame cell content).map f = (s.map f).put frame cell (content.map (Value.map f)) := by
  unfold put map
  congr 1
  refine Array.ext_getElem? fun i => ?_
  rw [Array.getElem?_map, Array.getElem?_modify, Array.getElem?_modify, Array.getElem?_map]
  split
  · cases s.frames[i]? with
    | none => rfl
    | some fr =>
      simp only [Option.map_some, Frame.map, Table.map_insert]
  · rfl

theorem add_map (fr : Frame φ) : ((s.add fr).1, (s.add fr).2.map f) = (s.map f).add (fr.map f) := by
  unfold add map
  simp

theorem newCall_map (c : Closure φ) :
    (s.map f).newCall (c.map f) = ((s.newCall c).1, (s.newCall c).2.map f) :=
  (add_map f s ⟨.empty, some c.frame, some c⟩).symm

theorem newRoot_map : (s.map f).newRoot = (s.newRoot.1, s.newRoot.2.map f) := (add_map f s ⟨.empty, none, none⟩).symm

end Store

end TypedScript
