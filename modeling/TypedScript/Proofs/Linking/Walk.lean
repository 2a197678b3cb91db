/-
The walk over the modules of a program, apart from any graph. It goes breadth first: the imports of the root come first,
in the order in which they are written, and the imports of each text that is met wait behind those that wait already.
One whose key is known is passed over, and so is one that names a module of the host's; every other import meets a text.
Where a text cannot be had the walk goes on, as though nothing were imported there.

- `Walks`: the walk, with the texts that it meets.
- `Walks.unique`, `Walks.nodup`: there is one walk, and it meets no text twice.
- `exists_walks`: the walk ends, however the modules import each other, since only texts that are there have imports.
-/
import TypedScript.Proofs.Linking.Capacity
import TypedScript.Proofs.Linking.Edges

namespace TypedScript

/-- an import, as far as the walk goes by it -/
structure Use where
  /-- the name of a module of the host's, or the path of a text seen from the importing module -/
  key : String
  /-- the import names a module of the host's -/
  native : Bool

namespace Module

/-- what the import of a path in a module is for the walk -/
def use (natives : List NativeModule) (m : Module) (path : String) : Use :=
  ⟨m.importKey natives path, (natives.find? fun n => n.name = path).isSome⟩

/-- the imports of a module in their order -/
def uses (natives : List NativeModule) (m : Module) : List Use := m.imports.map (m.use natives)

end Module

namespace Loader

/-- the text at a path can be had, and it has a tree -/
def Reads (l : Loader) (path : String) : Prop := ∃ source body, l.load path = .ok source ∧ parse source = .ok body

/-- why there is no module at a path: no text can be had there, or it has no tree -/
def Refuses (l : Loader) (path : String) (e : GraphError) : Prop :=
  (∃ reason, l.load path = .error reason ∧ e = .unreadable path reason.message) ∨
    ∃ source flaw, l.load path = .ok source ∧ parse source = .error flaw ∧ e = .unparsable path flaw

variable {l : Loader} {path : String}

theorem Refuses.not_reads {e : GraphError} (h : l.Refuses path e) : ¬ l.Reads path := by
  rintro ⟨source, body, hload, hparse⟩
  rcases h with ⟨reason, hrefused, _⟩ | ⟨text, flaw, hread, hflaw, _⟩
  · rw [hload] at hrefused
    cases hrefused
  · obtain rfl : source = text := Except.ok.inj (hload.symm.trans hread)
    rw [hparse] at hflaw
    cases hflaw

/-- a module is loaded just if its text reads -/
theorem loadModule_ok {m : Module} (h : Graph.loadModule l path = .ok m) : l.Reads path := by
  unfold Graph.loadModule at h
  cases hload : l.load path with
  | error reason =>
    rw [hload] at h
    cases h
  | ok source =>
    rw [hload] at h
    cases hparse : parse source with
    | error flaw =>
      simp only [hparse] at h
      cases h
    | ok body => exact ⟨source, body, hload, hparse⟩

theorem loadModule_error {e : GraphError} (h : Graph.loadModule l path = .error e) : l.Refuses path e := by
  unfold Graph.loadModule at h
  cases hload : l.load path with
  | error reason =>
    rw [hload] at h
    exact Or.inl ⟨reason, hload, (Except.error.inj h).symm⟩
  | ok source =>
    rw [hload] at h
    cases hparse : parse source with
    | error flaw =>
      simp only [hparse] at h
      exact Or.inr ⟨source, flaw, hload, hparse, (Except.error.inj h).symm⟩
    | ok body =>
      simp only [hparse] at h
      cases h

end Loader

/-! ## The walk -/

/-- the imports of the text at a path -/
def usesAt (loader : Loader) (natives : List NativeModule) (path : String) : List Use :=
  match Graph.loadModule loader path with
  | .ok m => m.uses natives
  | .error _ => []

/-- the walk over the imports that wait, where some keys are known, and the paths of the texts that it meets -/
inductive Walks (loader : Loader) (natives : List NativeModule) : List Use → List String → List String → Prop
  | done {known : List String} : Walks loader natives [] known []
  | known {use : Use} {waiting : List Use} {known met : List String} (old : use.key ∈ known)
      (rest : Walks loader natives waiting known met) : Walks loader natives (use :: waiting) known met
  | native {use : Use} {waiting : List Use} {known met : List String} (new : use.key ∉ known) (host : use.native = true)
      (rest : Walks loader natives waiting (use.key :: known) met) : Walks loader natives (use :: waiting) known met
  | text {use : Use} {waiting : List Use} {known met : List String} (new : use.key ∉ known) (own : use.native = false)
      (rest : Walks loader natives (waiting ++ usesAt loader natives use.key) (use.key :: known) met) :
      Walks loader natives (use :: waiting) known (use.key :: met)

variable {loader : Loader} {natives : List NativeModule} {waiting : List Use} {known met met' : List String}

/-- the imports and the texts determine the walk -/
theorem Walks.unique (h : Walks loader natives waiting known met) (h' : Walks loader natives waiting known met') :
    met = met' := by
  induction h generalizing met' with
  | done =>
    cases h'
    rfl
  | known old _ ih =>
    cases h' with
    | known _ rest => exact ih rest
    | native new _ _ => exact absurd old new
    | text new _ _ => exact absurd old new
  | native new host _ ih =>
    cases h' with
    | known old _ => exact absurd old new
    | native _ _ rest => exact ih rest
    | text _ own _ =>
      rw [host] at own
      cases own
  | text new own _ ih =>
    cases h' with
    | known old _ => exact absurd old new
    | native _ host _ =>
      rw [host] at own
      cases own
    | text _ _ rest => rw [ih rest]

/-- the walk meets no text twice, and none whose key was known -/
theorem Walks.nodup (h : Walks loader natives waiting known met) : met.Nodup ∧ ∀ path ∈ met, path ∉ known := by
  induction h with
  | done => exact ⟨.nil, fun _ hmem => nomatch hmem⟩
  | known _ _ ih => exact ih
  | native _ _ _ ih =>
    obtain ⟨hnodup, hnew⟩ := ih
    exact ⟨hnodup, fun path hpath hknown => hnew path hpath (List.mem_cons_of_mem _ hknown)⟩
  | text new _ _ ih =>
    obtain ⟨hnodup, hnew⟩ := ih
    refine ⟨List.nodup_cons.2 ⟨fun hmem => hnew _ hmem List.mem_cons_self, hnodup⟩, ?_⟩
    intro path hpath hknown
    rcases List.mem_cons.1 hpath with rfl | hpath
    · exact new hknown
    · exact hnew path hpath (List.mem_cons_of_mem _ hknown)

/-- every import of a module is one of the walk's -/
theorem usesAt_of_module (path : String) :
    ∀ use ∈ usesAt loader natives path, ∃ m path, use = Module.use natives m path := by
  intro use huse
  unfold usesAt at huse
  split at huse
  · next m _ =>
    obtain ⟨path, _, rfl⟩ := List.mem_map.1 huse
    exact ⟨m, path, rfl⟩
  · cases huse

/-- a text that is met under the key of an import, and can be had, is one of the loader's -/
theorem has_of_use {m loaded : Module} {path : String} (hown : (m.use natives path).native = false)
    (hload : Graph.loadModule loader (m.use natives path).key = .ok loaded) : loader.Has (m.use natives path).key := by
  have hnone : (natives.find? fun n => n.name = path) = none := by
    cases hfind : natives.find? fun n => n.name = path with
    | none => rfl
    | some native => simp [Module.use, hfind] at hown
  obtain ⟨source, _, hsource, _⟩ := Loader.loadModule_ok hload
  refine ⟨⟨m.path.getD "", path, ?_⟩, source, hsource⟩
  rw [Module.use, Module.importKey, hnone]
  rfl

/-- The walk ends: every text that is met and can be had takes up room of the loader's, and only such a text makes more
imports wait. -/
theorem exists_walks (hwaiting : ∀ use ∈ waiting, ∃ m path, use = Module.use natives m path) {loaded : List String}
    (hnodup : loaded.Nodup) (hloaded : ∀ path ∈ loaded, path ∈ known ∧ loader.Has path) :
    ∃ met, Walks loader natives waiting known met := by
  induction hroom : loader.capacity - loaded.length using Nat.strongRecOn generalizing waiting known loaded with
  | ind room ih =>
    induction waiting generalizing known with
    | nil => exact ⟨[], .done⟩
    | cons use waiting ihWaiting =>
      obtain ⟨huse, hbehind⟩ := List.forall_mem_cons.1 hwaiting
      have hmore : ∀ path ∈ loaded, path ∈ use.key :: known ∧ loader.Has path := fun path hpath =>
        ⟨List.mem_cons_of_mem _ (hloaded path hpath).1, (hloaded path hpath).2⟩
      by_cases hold : use.key ∈ known
      · obtain ⟨met, hmet⟩ := ihWaiting hbehind hloaded
        exact ⟨met, .known hold hmet⟩
      cases hnative : use.native with
      | true =>
        obtain ⟨met, hmet⟩ := ihWaiting hbehind hmore
        exact ⟨met, .native hold hnative hmet⟩
      | false =>
        suffices hrest : ∃ met, Walks loader natives (waiting ++ usesAt loader natives use.key)
            (use.key :: known) met by
          obtain ⟨met, hmet⟩ := hrest
          exact ⟨use.key :: met, .text hold hnative hmet⟩
        cases hload : Graph.loadModule loader use.key with
        | error e =>
          have hnone : usesAt loader natives use.key = [] := by rw [usesAt, hload]
          rw [hnone, List.append_nil]
          exact ihWaiting hbehind hmore
        | ok m =>
          obtain ⟨importer, path, rfl⟩ := huse
          have hhas := has_of_use hnative hload
          have hnew : (importer.use natives path).key ∉ loaded := fun hmem => hold (hloaded _ hmem).1
          have hnodup' := List.nodup_cons.2 ⟨hnew, hnodup⟩
          have hroom' := Loader.length_le_capacity hnodup'
            (List.forall_mem_cons.2 ⟨hhas, fun path hpath => (hloaded path hpath).2⟩)
          rw [List.length_cons] at hroom'
          refine ih (loader.capacity - (loaded.length + 1)) (by omega) ?_ hnodup' ?_ rfl
          · intro use huse
            exact (List.mem_append.1 huse).elim (hbehind use) (usesAt_of_module _ use)
          · exact List.forall_mem_cons.2 ⟨⟨List.mem_cons_self, hhas⟩, hmore⟩

end TypedScript
