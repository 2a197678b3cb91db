/-
What holds throughout an evaluation. A discipline says which functions can be called in a store and which values the
variable of a cell may have, where what is so once stays so as the store grows. A state keeps to it (`Invariant`) if all
functions around can be called and all variables have such values. A part of an evaluation then ends in a state that
keeps to it as well, or with one of some faults (`Ends`).

- `ends_assign`: a variable in reach gets a value.
- `ends_ask`: the host answers with functions that it was given.
- `Invariant.newFrame`: a frame is added.
-/
import TypedScript.Proofs.Direct.Hosts
import TypedScript.Proofs.Machine.Grows

namespace TypedScript

namespace Direct

/-- which functions can be called in a store, and which values the variable of a cell may have -/
structure Discipline where
  valid : Store Bound.Function → Closure Bound.Function → Prop
  good : Store Bound.Function → Nat → Val → Prop
  valid_grows : ∀ {s s' : Store Bound.Function} {c : Closure Bound.Function}, valid s c → s.Grows s' → valid s' c
  good_grows : ∀ {s s' : Store Bound.Function} {id : Nat} {v : Val}, good s id v → s.Grows s' → good s' id v

variable {σ α β : Type} {D : Discipline} {holds : σ → List (Closure Bound.Function)} {ok : σ → Prop}
  {allowed : RuntimeFault → Prop} {host : Host σ} {s s' s'' : State σ} {frame : FrameId}

/-! ## States -/

/-- variables have values that they may have, all functions can be called, and what the host remembers is as the host
keeps it -/
structure Invariant (D : Discipline) (holds : σ → List (Closure Bound.Function)) (ok : σ → Prop) (s : State σ) :
    Prop where
  slots : ∀ frame id v, s.store.slot? frame id = some (some v) → D.good s.store id v
  running : ∀ frame c, s.store.running? frame = some c → D.valid s.store c
  memory : ∀ c ∈ holds s.memory, D.valid s.store c
  kept : ok s.memory
  modules : ∀ module name v, export? s module name = some v → ∀ c ∈ v.closures, D.valid s.store c

theorem invariant_empty {memory : σ} (hholds : holds memory = []) (hok : ok memory) :
    Invariant D holds ok ⟨.empty, .empty, memory⟩ := by
  refine ⟨fun frame id v hv => ?_, fun frame c hc => ?_, fun c hc => ?_, hok, fun module name v hv => ?_⟩
  · exact absurd (Store.lt_of_slot? hv) (Nat.not_lt_zero _)
  · cases hc
  · rw [hholds] at hc
    cases hc
  · cases hv

/-- a later state of an evaluation during which no module ends -/
structure Keeps (D : Discipline) (holds : σ → List (Closure Bound.Function)) (ok : σ → Prop) (s s' : State σ) :
    Prop where
  invariant : Invariant D holds ok s'
  grows : s.store.Grows s'.store
  modules : s'.modules = s.modules

theorem Keeps.refl (h : Invariant D holds ok s) : Keeps D holds ok s s := ⟨h, .refl _, rfl⟩

theorem Keeps.trans (h : Keeps D holds ok s s') (h' : Keeps D holds ok s' s'') : Keeps D holds ok s s'' :=
  ⟨h'.invariant, h.grows.trans h'.grows, h'.modules.trans h.modules⟩

/-- a new store, in which everything was there before or is as it has to be -/
theorem Invariant.withStore (h : Invariant D holds ok s) {store : Store Bound.Function} (hgrows : s.store.Grows store)
    (hslots : ∀ frame id v, store.slot? frame id = some (some v) →
      s.store.slot? frame id = some (some v) ∨ D.good store id v)
    (hrunning : ∀ frame c, store.running? frame = some c → s.store.running? frame = some c ∨ D.valid store c) :
    Keeps D holds ok s { s with store } := by
  refine ⟨⟨fun frame id v hv => ?_, fun frame c hc => ?_, fun c hc => D.valid_grows (h.memory c hc) hgrows, h.kept,
    fun module name v hv c hc => D.valid_grows (h.modules module name v hv c hc) hgrows⟩, hgrows, rfl⟩
  · exact (hslots frame id v hv).elim (fun hold => D.good_grows (h.slots frame id v hold) hgrows) fun hnew => hnew
  · exact (hrunning frame c hc).elim (fun hold => D.valid_grows (h.running frame c hold) hgrows) id

/-- a new frame is added to a store, with values in it that its variables may have -/
theorem Invariant.newFrame (hinv : Invariant D holds ok s) {fr : Frame Bound.Function}
    {slots : List (Cell × Option Val)} (hcells : fr.cells = .empty)
    (hrunning : ∀ c, fr.running = some c → D.valid s.store c)
    (hslots : ∀ cell v, (cell, some v) ∈ slots → D.good s.store cell.id v) :
    Keeps D holds ok s { s with store := (s.store.add fr).2.fill (s.store.add fr).1 slots } := by
  have hgrows := Store.grows_newFrame s.store fr slots
  refine hinv.withStore hgrows (fun i j v hv => ?_) fun i c hc => ?_
  · rcases Store.slot?_newFrame hcells hv with ⟨_, cell, hmem, rfl⟩ | hold
    · exact Or.inr (D.good_grows (hslots cell v hmem) hgrows)
    · exact Or.inl hold
  · rw [Store.running?_fill] at hc
    unfold Store.running? at hc ⊢
    rw [Store.get?_addFrame] at hc
    split at hc
    · exact Or.inr (D.valid_grows (hrunning c hc) hgrows)
    · exact Or.inl hc

theorem Invariant.newClosure (hinv : Invariant D holds ok s) (f : Bound.Function) (frame : FrameId) :
    Keeps D holds ok s { s with store := (s.store.newClosure f frame).2 } :=
  hinv.withStore (.of_get? (Nat.le_refl _) fun _ _ => rfl) (fun _ _ _ h => Or.inl h) fun _ _ h => Or.inl h

theorem Invariant.register (hinv : Invariant D holds ok s) (module : String) {exports : Exports}
    (hvalid : ∀ name v, exports.find? name = some v → ∀ c ∈ v.closures, D.valid s.store c) :
    Invariant D holds ok { s with modules := s.modules.insert module exports } := by
  refine ⟨hinv.slots, hinv.running, hinv.memory, hinv.kept, fun other name v hv => ?_⟩
  unfold export? at hv
  rw [Table.find?_insert] at hv
  split at hv
  · exact hvalid name v hv
  · exact hinv.modules other name v hv

theorem mem_slots {f : Bound.Function} {arguments : List Val} {cell : Cell} {content : Option Val}
    (h : (cell, content) ∈ slots f arguments) :
    (∃ v, content = some v ∧ (cell, v) ∈ f.params.zip arguments) ∨ (content = none ∧ cell ∈ f.locals) := by
  unfold slots at h
  rcases List.mem_append.1 h with h | h
  · obtain ⟨p, hp, heq⟩ := List.mem_map.1 h
    cases heq
    exact Or.inl ⟨p.2, rfl, hp⟩
  · obtain ⟨c, hc, heq⟩ := List.mem_map.1 h
    cases heq
    exact Or.inr ⟨rfl, hc⟩

/-! ## Parts of an evaluation -/

/-- a part of an evaluation ends as `k` says or with a fault that is allowed -/
def Ends (allowed : RuntimeFault → Prop) (x : Eval σ α) (s : State σ) (k : α → State σ → Prop) : Prop :=
  match x s with
  | .ok a s' => k a s'
  | .error fault _ => allowed fault

theorem ends_bind {x : Eval σ α} {f : α → Eval σ β} {k : β → State σ → Prop} :
    Ends allowed (x >>= f) s k ↔ Ends allowed x s fun a s' => Ends allowed (f a) s' k := by
  unfold Ends
  rw [bind_apply]
  cases x s <;> rfl

theorem ends_get {f : State σ → Eval σ β} {k : β → State σ → Prop} (h : Ends allowed (f s) s k) :
    Ends allowed (get >>= f) s k :=
  ends_bind.2 h

theorem Ends.imp {x : Eval σ α} {k k' : α → State σ → Prop} (h : Ends allowed x s k)
    (himp : ∀ a s', k a s' → k' a s') : Ends allowed x s k' := by
  unfold Ends at h ⊢
  cases hx : x s with
  | ok a s' => rw [hx] at h; exact himp a s' h
  | error fault s' => rw [hx] at h; exact h

/-- what a part ends with is what running it gives -/
theorem Ends.ran {x : Eval σ α} {k : α → State σ → Prop} (h : Ends allowed x s k) :
    Ends allowed x s fun a s' => x s = .ok a s' ∧ k a s' := by
  unfold Ends at h ⊢
  cases hx : x s with
  | ok a s' => rw [hx] at h; exact ⟨rfl, h⟩
  | error fault s' => rw [hx] at h; exact h

theorem ends_pure {a : α} {k : α → State σ → Prop} (h : k a s) : Ends allowed (pure a) s k := h

/-- a variable in reach gets a value that it may have -/
theorem ends_assign (hinv : Invariant D holds ok s) {cell : Cell} {holder : FrameId} {v : Val}
    (hholder : s.store.holder? frame cell.id = some holder)
    (hgood : D.good s.store cell.id v) :
    Ends allowed (assign frame cell v) s fun _ s' =>
      Keeps D holds ok s s' ∧ s'.store.slot? holder cell.id = some (some v) := by
  obtain ⟨_, hslot⟩ := Store.holder?_some hholder
  obtain ⟨content, hcontent⟩ := Option.isSome_iff_exists.1 hslot
  have hframe := Store.lt_of_slot? hcontent
  have hgrows := Store.Grows.put hslot v
  have hstore : s.store.store frame cell v = .ok (s.store.put holder cell.id (some v)) := by
    unfold Store.store
    rw [hholder]
  unfold assign
  refine ends_get ?_
  rw [hstore]
  refine ⟨hinv.withStore hgrows (fun i j w hw => ?_) fun i c hc => ?_, Store.slot?_put_self hframe _ _⟩
  · rw [Store.slot?_put_eq hframe] at hw
    split at hw
    · next heq =>
      obtain rfl : v = w := Option.some.inj (Option.some.inj hw)
      exact Or.inr (heq.2 ▸ D.good_grows hgood hgrows)
    · exact Or.inl hw
  · rw [Store.running?_put] at hc
    exact Or.inl hc

/-- the functions in an answer of the host can be called where those in the arguments can -/
theorem ends_ask (hhost : host.Conserves holds) (hinv : Invariant D holds ok s) {b : Builtin} {arguments : List Val}
    (harguments : ∀ c ∈ Value.closuresOf arguments, D.valid s.store c)
    (hkept : ok (host.respond b.id arguments s.memory).2) (hrefused : ∀ message, allowed (.host b.name message)) :
    Ends allowed (ask host b arguments) s fun v s' =>
      Keeps D holds ok s s' ∧ (host.respond b.id arguments s.memory).1 = .ok v ∧
        ∀ c ∈ v.closures, D.valid s'.store c := by
  have hvalid : ∀ c, c ∈ Value.closuresOf arguments ∨ c ∈ holds s.memory → D.valid s.store c := by
    rintro c (hc | hc)
    · exact harguments c hc
    · exact hinv.memory c hc
  unfold Ends
  rw [ask_apply]
  cases hanswer : (host.respond b.id arguments s.memory).1 with
  | error message => exact hrefused message
  | ok v =>
    refine ⟨⟨⟨hinv.slots, hinv.running, fun c hc => ?_, hkept, hinv.modules⟩, .refl _, rfl⟩, rfl, fun c hc => ?_⟩
    · exact hvalid c (hhost.memory _ _ _ c hc)
    · exact hvalid c (hhost.answer b.id arguments s.memory v hanswer c hc)

end Direct

end TypedScript
