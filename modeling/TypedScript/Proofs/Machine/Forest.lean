/-
Forests of frames. Whatever is done with frames, in whatever order and whether it fails or not, each frame is a store of
its own inside the frame that it was made in (`Forest.Kept`). A cell is looked for in the nearest frame, from a frame
outwards, that has one of its number, so that writing it changes what is read from every frame from which that frame is
the nearest, and from no other.

- `Forest.Nearest`: a frame in reach has a cell, and no frame on the way has it.
- `Forest.Kept.step`, `Forest.Kept.run`: what operations preserve.
- `Forest.load_of_changes`: what is read after a cell has changed.
- `Forest.Tree`: what may be relied on in a forest.
- `Forest.tree_of_run`: so it is after any operations on frames there are.
-/
import Mathlib.Data.List.Induction
import TypedScript.Proofs.Machine.Chains

namespace TypedScript.Forest

/-! ## Operations -/

/-- an operation that makes a frame, or is about a frame there is -/
inductive Operation
  | newRoot
  | newCall (frame : FrameId) (template : Template)
  /-- a frame for one more call of a function -/
  | call (c : Closure)
  | push (frame : FrameId) (v : Value)
  | pop (frame : FrameId)
  | popN (frame : FrameId) (count : Nat)
  | reserve (frame : FrameId) (cell : Cell)
  | store (frame : FrameId) (cell : Cell) (v : Value)
  | load (frame : FrameId) (cell : Cell)

/-- the frame that an operation is about, if it is about one -/
def Operation.frame? : Operation → Option FrameId
  | newRoot => none
  | newCall frame _ => some frame
  | call c => some c.frame
  | push frame _ => some frame
  | pop frame => some frame
  | popN frame _ => some frame
  | reserve frame _ => some frame
  | store frame _ _ => some frame
  | load frame _ => some frame

/-- a frame for one more call of a function -/
def call (f : Forest) (c : Closure) : FrameId × Forest := f.withFrame (f.store.newCall c)

/-- the values that an operation gives, and the forest behind it -/
def perform (f : Forest) : Operation → Except RuntimeFault (List Value × Forest)
  | .newRoot => .ok ([], f.newRoot.2)
  | .newCall frame template => .ok ([], (f.newCall frame template).2)
  | .call c => .ok ([], (f.call c).2)
  | .push frame v => .ok ([], f.push frame v)
  | .pop frame => (f.pop frame).map fun r => ([r.1], r.2)
  | .popN frame count => f.popN frame count
  | .reserve frame cell => .ok ([], f.reserve frame cell)
  | .store frame cell v => (f.assign frame cell v).map fun f => ([], f)
  | .load frame cell => (f.load frame cell).map fun v => ([v], f)

/-- the forest behind an operation; one that fails leaves it as it was -/
def step (f : Forest) (operation : Operation) : Forest :=
  match f.perform operation with
  | .ok (_, f) => f
  | .error _ => f

def run (f : Forest) (operations : List Operation) : Forest := operations.foldl step f

/-- how many frames there are -/
def size (f : Forest) : Nat := f.store.frames.size

/-- the frame that a frame was made in -/
def outer? (f : Forest) (frame : FrameId) : Option FrameId := (f.store.get? frame).bind Frame.parent

/-- the operation is about a frame there is -/
def Allows (f : Forest) (operation : Operation) : Prop := ∀ frame ∈ operation.frame?, frame < f.size

/-- each of some operations is about a frame there is when its turn comes -/
def AllowsAll (f : Forest) : List Operation → Prop
  | [] => True
  | operation :: operations => f.Allows operation ∧ (f.step operation).AllowsAll operations

instance (f : Forest) (operation : Operation) : Decidable (f.Allows operation) :=
  inferInstanceAs (Decidable (∀ frame ∈ operation.frame?, frame < f.size))

instance decideAllowsAll : (f : Forest) → (operations : List Operation) → Decidable (f.AllowsAll operations)
  | _, [] => .isTrue trivial
  | f, operation :: operations =>
    have := decideAllowsAll (f.step operation) operations
    inferInstanceAs (Decidable (_ ∧ _))

/-! ## Effects of operations -/

/-- all frames are as they were, but for one cell of one of them -/
structure Changes (f f' : Forest) (frame : FrameId) (id : Nat) (content : Option Value) : Prop where
  size : f'.size = f.size
  outer : ∀ i, f'.outer? i = f.outer? i
  running : ∀ i, f'.store.running? i = f.store.running? i
  slots : ∀ i j, f'.store.slot? i j = if i = frame ∧ id = j then some content else f.store.slot? i j
  stack_eq : ∀ i, f'.stack i = f.stack i

/-- all frames are as they were, but for the operands of one of them -/
structure Stacks (f f' : Forest) (frame : FrameId) (operands : Operands) : Prop where
  store : f'.store = f.store
  stack_eq : ∀ i, f'.stack i = if i = frame then operands else f.stack i

/-- there is one more frame, without cells and operands, and all others are as they were -/
structure Adds (f f' : Forest) (outer : Option FrameId) : Prop where
  size : f'.size = f.size + 1
  outer : ∀ i, f'.outer? i = if i = f.size then outer else f.outer? i
  slots : ∀ i j, f'.store.slot? i j = if i = f.size then none else f.store.slot? i j
  stack_eq : ∀ i, f'.stack i = if i = f.size then [] else f.stack i

/-- the frame is in reach of the first one and has a cell of the number, and no frame on the way has one -/
def Nearest (f : Forest) (frame : FrameId) (id : Nat) (holder : FrameId) : Prop :=
  ∃ inner outer, f.store.chain frame = inner ++ holder :: outer ∧ (f.store.slot? holder id).isSome = true ∧
    ∀ i ∈ inner, f.store.slot? i id = none

variable {f f' : Forest} {frame holder i : FrameId} {id : Nat} {content : Option Value} {outer : Option FrameId}
  {operands : Operands} {cell : Cell} {v : Value}

theorem nearest_iff : f.Nearest frame id holder ↔ f.store.holder? frame id = some holder := by
  rw [Store.holder?_eq_find?, List.find?_eq_some_iff_append]
  unfold Nearest
  constructor
  · rintro ⟨inner, outer, hchain, hslot, hinner⟩
    exact ⟨hslot, inner, outer, hchain, fun i hi => by simp [hinner i hi]⟩
  · rintro ⟨hslot, inner, outer, hchain, hinner⟩
    exact ⟨inner, outer, hchain, hslot, fun i hi => by simpa using hinner i hi⟩

/-- there is a nearest frame with a cell exactly where some frame in reach has the cell -/
theorem exists_nearest_iff :
    (∃ holder, f.Nearest frame id holder) ↔ ∃ i ∈ f.store.chain frame, (f.store.slot? i id).isSome = true := by
  simp only [nearest_iff, Store.holder?_eq_find?, ← Option.isSome_iff_exists, List.find?_isSome]

theorem not_exists_nearest_iff :
    f.store.holder? frame id = none ↔ ∀ i ∈ f.store.chain frame, f.store.slot? i id = none := by
  simp [Store.holder?_eq_find?]

/-! ## What operations preserve -/

/-- what every operation preserves -/
structure Kept (f : Forest) : Prop where
  /-- every frame has its operands -/
  size_operands : f.operands.size = f.size
  /-- a frame is made in one that was made before -/
  outer_lt : ∀ i j, f.outer? i = some j → j < i

theorem kept_empty : Kept empty := ⟨rfl, fun _ _ h => (nomatch h)⟩

theorem parent?_eq (h : ∀ i j, f.outer? i = some j → j < i) (i : FrameId) : f.store.parent? i = f.outer? i := by
  have hlt := h i
  unfold outer? at hlt ⊢
  unfold Store.parent?
  cases hget : f.store.get? i with
  | none => rfl
  | some frame =>
    obtain ⟨cells, parent, running⟩ := frame
    cases parent with
    | none => rfl
    | some parent =>
      rw [hget] at hlt
      exact if_pos (hlt parent rfl)

/-! ### Frames -/

/-- a frame made in a store that has as many frames as the forest -/
theorem adds_withFrame (h : f.Kept) {store : Store} (hstore : store.frames = f.store.frames) {fr : Frame}
    (hcells : fr.cells = .empty) : f.Adds (f.withFrame (store.add fr)).2 fr.parent := by
  have hget (i : FrameId) : (store.add fr).2.get? i = if i = f.size then some fr else f.store.get? i := by
    rw [Store.get?_addFrame, hstore]
    unfold Store.get?
    rw [hstore]
    rfl
  refine ⟨?_, fun i => ?_, fun i j => ?_, fun i => ?_⟩
  · change (store.add fr).2.frames.size = f.size + 1
    rw [Store.size_addFrame, hstore]
    rfl
  · change ((store.add fr).2.get? i).bind Frame.parent = _
    rw [hget]
    split <;> rfl
  · change ((store.add fr).2.get? i).bind (fun fr => fr.cells.find? j) = _
    rw [hget]
    split
    · rw [Option.bind_some, hcells]
      rfl
    · rfl
  · change ((f.operands.push [])[i]?).getD [] = _
    rw [Array.getElem?_push, h.size_operands]
    split <;> rfl

theorem adds_newRoot (h : f.Kept) : f.Adds f.newRoot.2 none := adds_withFrame h rfl rfl

theorem adds_newCall (h : f.Kept) (frame : FrameId) (template : Template) :
    f.Adds (f.newCall frame template).2 (some frame) := by
  have hstore : (f.store.newClosure template frame).2.frames = f.store.frames := rfl
  have hcells : (⟨.empty, some frame, some (f.store.newClosure template frame).1⟩ : Frame).cells = .empty := rfl
  exact adds_withFrame h hstore hcells

theorem adds_call (h : f.Kept) (c : Closure) : f.Adds (f.call c).2 (some c.frame) := adds_withFrame h rfl rfl

theorem Adds.kept (h : f.Adds f' outer) (hf : f.Kept) (hoperands : f'.operands.size = f.operands.size + 1)
    (houter : ∀ j ∈ outer, j < f.size) : f'.Kept := by
  refine ⟨by rw [hoperands, hf.size_operands, h.size], fun i j hij => ?_⟩
  rw [h.outer] at hij
  split at hij
  · next hi => rw [hi]; exact houter j hij
  · exact hf.outer_lt i j hij

/-! ### Operands -/

theorem stacks_setStack (h : f.Kept) (hframe : frame < f.size) (operands : Operands) :
    f.Stacks (f.setStack frame operands) frame operands := by
  refine ⟨rfl, fun i => ?_⟩
  unfold stack setStack
  rw [Array.getElem?_modify]
  by_cases hi : i = frame
  · rw [if_pos hi.symm, if_pos hi, hi, Array.getElem?_eq_getElem (h.size_operands ▸ hframe)]
    rfl
  · rw [if_neg (Ne.symm hi), if_neg hi]

theorem kept_setStack (h : f.Kept) (frame : FrameId) (operands : Operands) : (f.setStack frame operands).Kept :=
  ⟨(Array.size_modify ..).trans h.size_operands, h.outer_lt⟩

/-- values are taken off a stack that ends in them, in the order in which they were pushed -/
theorem popN_eq_ok_iff {count : Nat} {vs : List Value} : f.popN frame count = .ok (vs, f') ↔
    vs.length = count ∧ ∃ rest, f.stack frame = vs.reverse ++ rest ∧ f' = f.setStack frame rest := by
  unfold popN Operands.popN
  constructor
  · intro h
    split at h
    · cases h
    · next hlength =>
      cases h
      refine ⟨by simp; omega, (f.stack frame).drop count, ?_, rfl⟩
      rw [List.reverse_reverse, List.take_append_drop]
  · rintro ⟨rfl, rest, hstack, rfl⟩
    have hpop := Operands.popN_append vs rest
    unfold Operands.popN at hpop
    rw [hstack, hpop]
    rfl

theorem popN_eq_error_iff {count : Nat} {fault : RuntimeFault} :
    f.popN frame count = .error fault ↔ (f.stack frame).length < count ∧ fault = .stackUnderflow := by
  unfold popN Operands.popN
  split
  · next hlength => exact ⟨fun h => by cases h; exact ⟨hlength, rfl⟩, fun h => by rw [h.2]; rfl⟩
  · next hlength => exact ⟨fun h => (nomatch h), fun h => absurd h.1 hlength⟩

theorem pop_eq_ok_iff : f.pop frame = .ok (v, f') ↔ ∃ rest, f.stack frame = v :: rest ∧ f' = f.setStack frame rest := by
  unfold pop
  cases hstack : f.stack frame with
  | nil => exact ⟨fun h => (nomatch h), fun ⟨_, h, _⟩ => (nomatch h)⟩
  | cons top rest =>
    constructor
    · intro h
      cases h
      exact ⟨rest, rfl, rfl⟩
    · rintro ⟨_, h, rfl⟩
      cases h
      rfl

theorem pop_eq_error_iff {fault : RuntimeFault} :
    f.pop frame = .error fault ↔ f.stack frame = [] ∧ fault = .stackUnderflow := by
  unfold pop
  cases hstack : f.stack frame with
  | nil => exact ⟨fun h => by cases h; exact ⟨rfl, rfl⟩, fun h => by rw [h.2]; rfl⟩
  | cons top rest => exact ⟨fun h => (nomatch h), fun h => (nomatch h.1)⟩

/-! ### Cells -/

/-- one cell of one frame is given a content -/
def put (f : Forest) (frame : FrameId) (id : Nat) (content : Option Value) : Forest :=
  { f with store := f.store.put frame id content }

theorem changes_put (hframe : frame < f.size) (id : Nat) (content : Option Value) :
    f.Changes (f.put frame id content) frame id content := by
  refine ⟨Store.size_put .., fun i => ?_, fun i => Store.running?_put ..,
    fun i j => Store.slot?_put_eq hframe .., fun _ => rfl⟩
  unfold outer? put
  rw [Store.get?_put]
  split
  · cases f.store.get? i <;> rfl
  · rfl

theorem kept_put (h : f.Kept) (hframe : frame < f.size) (id : Nat) (content : Option Value) :
    (f.put frame id content).Kept := by
  have hchanges := changes_put hframe id content
  refine ⟨h.size_operands.trans hchanges.size.symm, fun i j hij => ?_⟩
  rw [hchanges.outer] at hij
  exact h.outer_lt i j hij

/-- what is in reach of a frame stays as it is while frames stay in the frames that they were made in -/
theorem Changes.chain (h : f.Changes f' frame id content) (hf : f.Kept) (i : FrameId) :
    f'.store.chain i = f.store.chain i := by
  have hlt (i j : FrameId) (hij : f'.outer? i = some j) : j < i := hf.outer_lt i j (h.outer i ▸ hij)
  refine Store.chain_congr fun i _ => ?_
  rw [parent?_eq hlt, parent?_eq hf.outer_lt, h.outer]

/-- writing a cell that is there, no frame gets a cell or loses one -/
theorem Changes.nearest_iff (h : f.Changes f' holder id content) (hf : f.Kept)
    (hslot : (f.store.slot? holder id).isSome = true) {j : Nat} : f'.Nearest frame j i ↔ f.Nearest frame j i := by
  have hsome (k : FrameId) : (f'.store.slot? k j).isSome = (f.store.slot? k j).isSome := by
    rw [h.slots]
    split
    · next heq => rw [heq.1, ← heq.2, hslot, Option.isSome_some]
    · rfl
  rw [Forest.nearest_iff, Forest.nearest_iff, Store.holder?_eq_find?, Store.holder?_eq_find?, h.chain hf]
  simp only [hsome]

/-! ## Reading and writing -/

/-- what a cell has in the nearest frame with it -/
theorem exists_nearest_slot_iff {content : Option Value} :
    (∃ holder, f.Nearest frame cell.id holder ∧ f.store.slot? holder cell.id = some content) ↔
      ((f.store.holder? frame cell.id).bind fun holder => f.store.slot? holder cell.id) = some content := by
  simp only [nearest_iff, Option.bind_eq_some_iff]

theorem load_eq_ok_iff :
    f.load frame cell = .ok v ↔ ∃ holder, f.Nearest frame cell.id holder ∧
    f.store.slot? holder cell.id = some (some v) := by
  rw [exists_nearest_slot_iff]
  unfold load Store.load
  cases (f.store.holder? frame cell.id).bind fun holder => f.store.slot? holder cell.id with
  | none => simp
  | some content => cases content <;> simp

theorem load_uninitialised_iff : f.load frame cell = .error (.uninitialisedCell cell.id cell.name) ↔
    ∃ holder, f.Nearest frame cell.id holder ∧ f.store.slot? holder cell.id = some none := by
  rw [exists_nearest_slot_iff]
  unfold load Store.load
  cases (f.store.holder? frame cell.id).bind fun holder => f.store.slot? holder cell.id with
  | none => simp
  | some content => cases content <;> simp

theorem load_missing_iff : f.load frame cell = .error (.missingCell cell.id cell.name) ↔
    ∀ i ∈ f.store.chain frame, f.store.slot? i cell.id = none := by
  rw [← not_exists_nearest_iff]
  unfold load Store.load
  cases hholder : f.store.holder? frame cell.id with
  | none => simp
  | some holder =>
    -- the nearest frame has the cell, so that it is not missing
    obtain ⟨content, hslot⟩ := Option.isSome_iff_exists.1 (Store.holder?_some hholder).2
    rw [Option.bind_some, hslot]
    cases content <;> simp

theorem assign_eq_ok_iff : f.assign frame cell v = .ok f' ↔
    ∃ holder, f.Nearest frame cell.id holder ∧ f' = f.put holder cell.id (some v) := by
  simp only [nearest_iff]
  unfold assign Store.store
  cases hholder : f.store.holder? frame cell.id with
  | none => exact ⟨fun h => (nomatch h), fun ⟨_, h, _⟩ => (nomatch h)⟩
  | some holder =>
    constructor
    · intro h
      cases h
      exact ⟨holder, rfl, rfl⟩
    · rintro ⟨_, h, rfl⟩
      cases h
      rfl

theorem assign_eq_error_iff {fault : RuntimeFault} : f.assign frame cell v = .error fault ↔
    (∀ i ∈ f.store.chain frame, f.store.slot? i cell.id = none) ∧ fault = .missingCell cell.id cell.name := by
  rw [← not_exists_nearest_iff]
  unfold assign Store.store
  cases hholder : f.store.holder? frame cell.id with
  | none => exact ⟨fun h => by cases h; exact ⟨rfl, rfl⟩, fun h => by rw [h.2]; rfl⟩
  | some holder => exact ⟨fun h => (nomatch h), fun h => (nomatch h.1)⟩

/-- a cell that was written is read from where its frame is the nearest with it, and all else is read as before -/
theorem load_of_changes (h : f.Changes f' holder id (some v)) (hf : f.Kept)
    (hslot : (f.store.slot? holder id).isSome = true) (frame : FrameId) (cell : Cell) :
    (cell.id = id ∧ f.Nearest frame id holder → f'.load frame cell = .ok v) ∧
      (¬ (cell.id = id ∧ f.Nearest frame id holder) → f'.load frame cell = f.load frame cell) := by
  constructor
  · rintro ⟨rfl, hnearest⟩
    refine load_eq_ok_iff.2 ⟨holder, (h.nearest_iff hf hslot).2 hnearest, ?_⟩
    rw [h.slots, if_pos ⟨rfl, rfl⟩]
  · intro hother
    have hholder : f'.store.holder? frame cell.id = f.store.holder? frame cell.id :=
      Option.ext fun i => nearest_iff.symm.trans ((h.nearest_iff hf hslot).trans nearest_iff)
    unfold load Store.load
    rw [hholder]
    cases hfound : f.store.holder? frame cell.id with
    | none => rfl
    | some found =>
      have hne : ¬ (found = holder ∧ id = cell.id) := by
        rintro ⟨rfl, rfl⟩
        exact hother ⟨rfl, nearest_iff.2 hfound⟩
      rw [Option.bind_some, Option.bind_some, h.slots, if_neg hne]

/-! ## Any operations -/

theorem exists_of_map {α β : Type} {x : Except RuntimeFault α} {g : α → β} {r : β} (h : x.map g = .ok r) :
    ∃ a, x = .ok a ∧ r = g a := by
  cases x with
  | error fault => cases h
  | ok a =>
    cases h
    exact ⟨a, rfl, rfl⟩

theorem Kept.perform (h : f.Kept) {operation : Operation} (hallowed : f.Allows operation) {vs : List Value}
    (hperform : f.perform operation = .ok (vs, f')) : f'.Kept := by
  cases operation with
  | newRoot =>
    cases hperform
    exact (adds_newRoot h).kept h (Array.size_push _) fun j hj => (nomatch hj)
  | newCall frame template =>
    cases hperform
    exact (adds_newCall h frame template).kept h (Array.size_push _) hallowed
  | call c =>
    cases hperform
    exact (adds_call h c).kept h (Array.size_push _) hallowed
  | push frame v =>
    cases hperform
    exact kept_setStack h frame _
  | pop frame =>
    obtain ⟨r, hpop, hr⟩ := exists_of_map hperform
    obtain ⟨rest, _, hrest⟩ := pop_eq_ok_iff.1 hpop
    cases hr
    exact hrest ▸ kept_setStack h frame rest
  | popN frame count =>
    obtain ⟨_, rest, _, rfl⟩ := popN_eq_ok_iff.1 hperform
    exact kept_setStack h frame rest
  | reserve frame cell =>
    cases hperform
    exact kept_put h (hallowed frame rfl) cell.id none
  | store frame cell v =>
    obtain ⟨g, hassign, hg⟩ := exists_of_map hperform
    obtain ⟨holder, hnearest, rfl⟩ := assign_eq_ok_iff.1 hassign
    cases hg
    have hholder := (Store.holder?_some (nearest_iff.1 hnearest)).1
    exact kept_put h (Nat.lt_of_le_of_lt hholder (hallowed frame rfl)) cell.id (some v)
  | load frame cell =>
    obtain ⟨_, _, hv⟩ := exists_of_map hperform
    cases hv
    exact h

theorem Kept.step (h : f.Kept) {operation : Operation} (hallowed : f.Allows operation) : (f.step operation).Kept := by
  unfold Forest.step
  split
  · next hperform => exact h.perform hallowed hperform
  · exact h

theorem Kept.run (h : f.Kept) {operations : List Operation} (hallowed : f.AllowsAll operations) :
    (f.run operations).Kept := by
  induction operations generalizing f with
  | nil => exact h
  | cons operation operations ih => exact ih (h.step hallowed.1) hallowed.2

/-- the frames of a forest are stores, each inside the one that it was made in -/
structure Tree (f : Forest) : Prop where
  outer_lt : ∀ i j, f.outer? i = some j → j < i
  /-- in reach of a frame are the frame itself and what is in reach of the one it was made in -/
  chain : ∀ i, f.store.chain i = i :: ((f.outer? i).map f.store.chain).getD []
  newRoot : f.newRoot.1 = f.size ∧ f.Adds f.newRoot.2 none
  newCall : ∀ frame template, (f.newCall frame template).1 = f.size ∧ f.Adds (f.newCall frame template).2 (some frame)
  call : ∀ c, (f.call c).1 = f.size ∧ f.Adds (f.call c).2 (some c.frame)
  push : ∀ frame < f.size, ∀ v, f.Stacks (f.push frame v) frame (v :: f.stack frame)
  pop : ∀ frame < f.size, ∀ v f', f.pop frame = .ok (v, f') →
    ∃ rest, f.stack frame = v :: rest ∧ f.Stacks f' frame rest
  pop_fails : ∀ frame fault, f.pop frame = .error fault ↔ f.stack frame = [] ∧ fault = .stackUnderflow
  /-- the values come in the order in which they were pushed -/
  popN : ∀ frame < f.size, ∀ count vs f', f.popN frame count = .ok (vs, f') →
    vs.length = count ∧ ∃ rest, f.stack frame = vs.reverse ++ rest ∧ f.Stacks f' frame rest
  popN_fails : ∀ frame count fault,
    f.popN frame count = .error fault ↔ (f.stack frame).length < count ∧ fault = .stackUnderflow
  /-- what was pushed last is taken off, and all else is as it was before -/
  popN_pushed : ∀ frame < f.size, ∀ vs : List Value,
    (vs.foldl (fun f v => f.push frame v) f).popN frame vs.length = .ok (vs, f)
  reserve : ∀ frame < f.size, ∀ cell, f.Changes (f.reserve frame cell) frame cell.id none
  store_iff : ∀ frame cell v, (∃ f', f.assign frame cell v = .ok f') ↔
    ∃ i ∈ f.store.chain frame, (f.store.slot? i cell.id).isSome = true
  store_fails : ∀ frame cell v fault, f.assign frame cell v = .error fault ↔
    (∀ i ∈ f.store.chain frame, f.store.slot? i cell.id = none) ∧ fault = .missingCell cell.id cell.name
  /-- the nearest cell changes and no other one, and so does what is read where it is the nearest -/
  store : ∀ frame < f.size, ∀ cell v f', f.assign frame cell v = .ok f' →
    ∃ holder, f.Nearest frame cell.id holder ∧ f.Changes f' holder cell.id (some v) ∧
      ∀ frame' cell',
        (cell'.id = cell.id ∧ f.Nearest frame' cell.id holder → f'.load frame' cell' = .ok v) ∧
        (¬ (cell'.id = cell.id ∧ f.Nearest frame' cell.id holder) → f'.load frame' cell' = f.load frame' cell')
  load : ∀ frame cell v, f.load frame cell = .ok v ↔
    ∃ holder, f.Nearest frame cell.id holder ∧ f.store.slot? holder cell.id = some (some v)
  load_missing : ∀ frame cell, f.load frame cell = .error (.missingCell cell.id cell.name) ↔
    ∀ i ∈ f.store.chain frame, f.store.slot? i cell.id = none
  load_uninitialised : ∀ frame cell, f.load frame cell = .error (.uninitialisedCell cell.id cell.name) ↔
    ∃ holder, f.Nearest frame cell.id holder ∧ f.store.slot? holder cell.id = some none
  load_leaves : ∀ frame cell, f.step (.load frame cell) = f
  failed : ∀ operation fault, f.perform operation = .error fault → f.step operation = f

theorem Kept.chain_eq (h : f.Kept) (i : FrameId) :
    f.store.chain i = i :: ((f.outer? i).map f.store.chain).getD [] := by
  have hparent := parent?_eq h.outer_lt i
  cases houter : f.outer? i with
  | none => exact Store.chain_of_top (hparent.trans houter)
  | some outer => exact Store.chain_of_parent? (hparent.trans houter)

theorem setStack_setStack (f : Forest) (frame : FrameId) (operands operands' : Operands) :
    (f.setStack frame operands).setStack frame operands' = f.setStack frame operands' := by
  unfold setStack
  congr 1
  refine Array.ext_getElem? fun i => ?_
  rw [Array.getElem?_modify, Array.getElem?_modify, Array.getElem?_modify]
  split
  · cases f.operands[i]? <;> rfl
  · rfl

theorem setStack_stack (h : f.Kept) (hframe : frame < f.size) : f.setStack frame (f.stack frame) = f := by
  have hoperands : f.operands.modify frame (fun _ => f.stack frame) = f.operands := by
    refine Array.ext_getElem? fun i => ?_
    rw [Array.getElem?_modify]
    split
    · next hi =>
      rw [← hi, Array.getElem?_eq_getElem (h.size_operands ▸ hframe), Option.map_some]
      unfold stack
      rw [Array.getElem?_eq_getElem (h.size_operands ▸ hframe), Option.getD_some]
    · rfl
  unfold setStack
  rw [hoperands]

/-- pushing values one after the other puts them on the stack, the last one on top -/
theorem foldl_push (h : f.Kept) (hframe : frame < f.size) (vs : List Value) :
    vs.foldl (fun f v => f.push frame v) f = f.setStack frame (vs.reverse ++ f.stack frame) := by
  induction vs using List.reverseRecOn with
  | nil => exact (setStack_stack h hframe).symm
  | append_singleton vs v ih =>
    rw [List.foldl_append, List.foldl_cons, List.foldl_nil, ih, push, setStack_setStack,
      (stacks_setStack h hframe _).stack_eq, if_pos rfl, List.reverse_append]
    rfl

theorem popN_foldl_push (h : f.Kept) (hframe : frame < f.size) (vs : List Value) :
    (vs.foldl (fun f v => f.push frame v) f).popN frame vs.length = .ok (vs, f) := by
  rw [foldl_push h hframe]
  refine popN_eq_ok_iff.2 ⟨rfl, f.stack frame, ?_, ?_⟩
  · rw [(stacks_setStack h hframe _).stack_eq, if_pos rfl]
  · rw [setStack_setStack, setStack_stack h hframe]

theorem Kept.store (h : f.Kept) (hframe : frame < f.size) (hassign : f.assign frame cell v = .ok f') :
    ∃ holder, f.Nearest frame cell.id holder ∧ f.Changes f' holder cell.id (some v) ∧
      ∀ frame' cell',
        (cell'.id = cell.id ∧ f.Nearest frame' cell.id holder → f'.load frame' cell' = .ok v) ∧
        (¬ (cell'.id = cell.id ∧ f.Nearest frame' cell.id holder) → f'.load frame' cell' = f.load frame' cell') := by
  obtain ⟨holder, hnearest, rfl⟩ := assign_eq_ok_iff.1 hassign
  obtain ⟨hle, hslot⟩ := Store.holder?_some (nearest_iff.1 hnearest)
  have hchanges := changes_put (Nat.lt_of_le_of_lt hle hframe) cell.id (some v)
  exact ⟨holder, hnearest, hchanges, load_of_changes hchanges h hslot⟩

theorem Kept.tree (h : f.Kept) : f.Tree where
  outer_lt := h.outer_lt
  chain := h.chain_eq
  newRoot := ⟨rfl, adds_newRoot h⟩
  newCall frame template := ⟨rfl, adds_newCall h frame template⟩
  call c := ⟨rfl, adds_call h c⟩
  push frame hframe v := stacks_setStack h hframe _
  pop frame hframe v f' hpop := by
    obtain ⟨rest, hstack, rfl⟩ := pop_eq_ok_iff.1 hpop
    exact ⟨rest, hstack, stacks_setStack h hframe rest⟩
  pop_fails _ _ := pop_eq_error_iff
  popN frame hframe count vs f' hpop := by
    obtain ⟨hlength, rest, hstack, rfl⟩ := popN_eq_ok_iff.1 hpop
    exact ⟨hlength, rest, hstack, stacks_setStack h hframe rest⟩
  popN_fails _ _ _ := popN_eq_error_iff
  popN_pushed _ hframe vs := popN_foldl_push h hframe vs
  reserve frame hframe cell := changes_put hframe cell.id none
  store_iff frame cell v := by
    rw [← exists_nearest_iff]
    simp only [assign_eq_ok_iff]
    exact ⟨fun ⟨_, holder, hnearest, _⟩ => ⟨holder, hnearest⟩, fun ⟨holder, hnearest⟩ => ⟨_, holder, hnearest, rfl⟩⟩
  store_fails _ _ _ _ := assign_eq_error_iff
  store _ hframe _ _ _ hassign := h.store hframe hassign
  load _ _ _ := load_eq_ok_iff
  load_missing _ _ := load_missing_iff
  load_uninitialised _ _ := load_uninitialised_iff
  load_leaves frame cell := by
    rw [Forest.step, Forest.perform]
    cases f.load frame cell <;> rfl
  failed operation fault hfails := by rw [Forest.step, hfails]

/-- After any operations on frames there are, the frames are stores, each inside the one that it was made in. -/
theorem tree_of_run {operations : List Operation} (h : empty.AllowsAll operations) : (empty.run operations).Tree :=
  (kept_empty.run h).tree

/-- a cell of a module's frame, written from one call inside it and hidden in another, with operations that fail: one on
a cell that is nowhere, and one that takes more operands than there are -/
def shadowing : List Operation :=
  [.newRoot, .reserve 0 ⟨7, "x"⟩, .newCall 0 ⟨0, [], []⟩, .newCall 0 ⟨1, [], []⟩, .reserve 1 ⟨7, "x"⟩,
    .store 1 ⟨7, "x"⟩ (.int 1), .store 2 ⟨7, "x"⟩ (.int 2), .store 2 ⟨8, "y"⟩ (.int 3), .push 1 (.int 4), .popN 1 2]

theorem tree_of_run_shadowing : empty.AllowsAll shadowing ∧ (empty.run shadowing).Tree ∧
    [0, 1, 2].map (fun frame => ((empty.run shadowing).load frame ⟨7, "x"⟩).toOption.bind Value.int?) =
      [some 2, some 1, some 2] ∧
    ((empty.run shadowing).stack 1).length = 1 := by
  have hallowed : empty.AllowsAll shadowing := by decide +kernel
  exact ⟨hallowed, tree_of_run hallowed, by decide +kernel, by decide +kernel⟩

end TypedScript.Forest
