/-
How many texts a loader has. A text is under a key that is the text of a normal path. In memory two keys are two normal
forms, each with its own text. On a disk a normal path goes up and then down by names, so that the file it leads to,
where it starts and how far it goes up tell it from any other path.

- `Loader.length_le_capacity`: no more keys than `Loader.capacity` have a text.
-/
import Mathlib.Data.List.ProdSigma
import Mathlib.Data.List.Nodup
import Mathlib.Data.List.Perm.Subperm
import Mathlib.Tactic.Choose
import TypedScript.Linking.Loader
import TypedScript.Proofs.Linking.Spelling

namespace TypedScript

/-- different items of a list are related to different items of another -/
theorem length_le_of_related {α β : Type} [Nonempty β] {xs : List α} {ys : List β} {R : α → β → Prop}
    (hnodup : xs.Nodup) (hex : ∀ x ∈ xs, ∃ y ∈ ys, R x y) (hunique : ∀ x x' y, R x y → R x' y → x = x') :
    xs.length ≤ ys.length := by
  choose! f hmem hrelated using hex
  have himage : (xs.map f).Nodup :=
    hnodup.map_on fun x hx x' hx' heq => hunique x x' (f x) (hrelated x hx) (heq ▸ hrelated x' hx')
  rw [← List.length_map f]
  refine (himage.subperm fun y hy => ?_).length_le
  obtain ⟨x, hx, rfl⟩ := List.mem_map.1 hy
  exact hmem x hx

theorem Table.mem_keys_of_find? {κ α : Type} [DecidableEq κ] {t : Table κ α} {key : κ} {value : α}
    (h : t.find? key = some value) : key ∈ t.keys := by
  obtain ⟨e, he, rfl⟩ := Option.map_eq_some_iff.1 h
  have hkey : e.1 = key := by simpa using List.find?_some he
  exact hkey ▸ List.mem_map_of_mem (List.mem_of_find?_eq_some he)

namespace Disk

variable {d : Disk} {place final : Location} {rest : List String}

theorem follow_cons {stretch : String} (h : d.follow place (stretch :: rest) = .ok final) :
    ∃ next, d.enter place stretch = .ok next ∧ d.follow next rest = .ok final := by
  unfold follow at h
  cases hnext : d.enter place stretch with
  | error e => rw [hnext] at h; cases h
  | ok next => rw [hnext] at h; exact ⟨next, rfl, h⟩

theorem follow_empty (h : d.follow place ("" :: rest) = .ok final) : d.follow place rest = .ok final := by
  obtain ⟨next, hnext, hrest⟩ := follow_cons h
  unfold enter at hnext
  split at hnext
  · cases hnext
  · cases hnext
    exact hrest

theorem follow_ups {ups : Nat} (h : d.follow place (List.replicate ups ".." ++ rest) = .ok final) :
    d.follow (place.drop ups) rest = .ok final := by
  induction ups generalizing place with
  | zero => exact h
  | succ ups ih =>
    rw [List.replicate_succ, List.cons_append] at h
    obtain ⟨next, hnext, hrest⟩ := follow_cons h
    unfold enter at hnext
    split at hnext
    · cases hnext
    · cases hnext
      have hlater := ih hrest
      rwa [List.drop_tail] at hlater

/-- names lead down, each to a place below -/
theorem follow_names {names : List String} (hnames : ∀ name ∈ names, (Step.name name).Spelt)
    (h : d.follow place names = .ok final) : final = names.reverse ++ place := by
  induction names generalizing place with
  | nil => cases h; rfl
  | cons name names ih =>
    obtain ⟨next, hnext, hrest⟩ := follow_cons h
    obtain ⟨hempty, hstay, hup, _⟩ := hnames name List.mem_cons_self
    have hplace : next = name :: place := by
      unfold enter at hnext
      rw [if_neg (c := (name = "" || name = ".") = true) (by simp [hempty, hstay]), if_neg hup] at hnext
      split at hnext
      · cases hnext
      split at hnext
      · cases hnext
      split at hnext
      · exact (Except.ok.inj hnext).symm
      · cases hnext
    rw [ih (fun other hother => hnames other (List.mem_cons_of_mem _ hother)) hrest, hplace]
    simp

/-- where a path starts -/
def start (d : Disk) (rooted : Bool) : Location := if rooted then [] else d.here

/-- a path goes up some steps and down some names to a file -/
def Leads (d : Disk) (key : String) (goal : Location × Bool × Nat) : Prop :=
  ∃ names : List String, key = (Path.mk goal.2.1 (List.replicate goal.2.2 .up ++ names.map .name)).render ∧
    goal.1 = names.reverse ++ (d.start goal.2.1).drop goal.2.2

theorem leads_unique {key key' : String} {goal : Location × Bool × Nat} (h : d.Leads key goal)
    (h' : d.Leads key' goal) :
    key = key' := by
  obtain ⟨names, rfl, hplace⟩ := h
  obtain ⟨names', rfl, hplace'⟩ := h'
  have hnames : names = names' := List.reverse_injective (List.append_cancel_right (hplace.symm.trans hplace'))
  rw [hnames]

/-- every step up takes three bytes -/
theorem ups_le_size (ups : Nat) (names : List String) :
    3 * ups ≤ ("/".intercalate (List.replicate ups ".." ++ names)).utf8ByteSize + 1 := by
  induction ups with
  | zero => omega
  | succ ups ih =>
    rw [List.replicate_succ, List.cons_append]
    cases hrest : List.replicate ups ".." ++ names with
    | nil =>
      obtain rfl : ups = 0 := by simpa using (List.append_eq_nil_iff.1 hrest).1
      decide
    | cons next rest =>
      rw [hrest] at ih
      rw [String.intercalate_cons_cons, String.utf8ByteSize_append, String.utf8ByteSize_append]
      have hup : "..".utf8ByteSize = 2 := by decide
      have hslash : "/".utf8ByteSize = 1 := by decide
      omega

/-- following the text of a path is following the names of its steps -/
theorem follow_steps {p : Path} (hspelt : p.Spelt)
    (h : d.follow (d.start p.rooted) ((Path.stretches p.render.toList).map String.ofList) = .ok place) :
    d.follow (d.start p.rooted) (p.steps.map Step.render) = .ok place := by
  rw [Path.stretches_render hspelt, List.map_append] at h
  have htexts : (if p.steps = [] then [[]] else p.steps.map fun step => step.render.toList).map String.ofList =
      if p.steps = [] then [""] else p.steps.map Step.render := by
    split
    · rfl
    · rw [List.map_map]
      exact List.map_congr_left fun step _ => String.ofList_toList
  rw [htexts] at h
  have hstretches :
      d.follow (d.start p.rooted) (if p.steps = [] then [""] else p.steps.map Step.render) = .ok place := by
    cases hrooted : p.rooted with
    | false => simpa [hrooted] using h
    | true =>
      rw [hrooted] at h
      exact follow_empty h
  split at hstretches
  · next hnil =>
    rw [hnil]
    exact follow_empty hstretches
  · exact hstretches

/-- a path that can be asked for has so many steps up at most -/
theorem ups_lt {p : Path} {ups : Nat} {names : List String}
    (hrender : p.steps.map Step.render = List.replicate ups ".." ++ names) (hsize : p.render.utf8ByteSize < maxPath) :
    ups < 1366 := by
  have hups := ups_le_size ups names
  have hall : ("/".intercalate (List.replicate ups ".." ++ names)).utf8ByteSize ≤ p.render.utf8ByteSize := by
    rw [Path.render, String.utf8ByteSize_append, hrender]
    omega
  unfold maxPath at hsize
  omega

/-- a path in normal form with a text leads to a file -/
theorem leads_of_read {p : Path} {source : String} (hspelt : p.Spelt) (hnormal : p.Normal)
    (h : d.read p.render = .ok source) :
    ∃ place ∈ d.files.keys, ∃ ups < 1366, d.Leads p.render (place, p.rooted, ups) := by
  obtain ⟨ups, names, hsteps⟩ := hnormal.steps_eq
  have hnames : ∀ name ∈ names, (Step.name name).Spelt := fun name hname =>
    hspelt _ (hsteps ▸ List.mem_append_right _ (List.mem_map_of_mem hname))
  have hrender : p.steps.map Step.render = List.replicate ups ".." ++ names := by
    rw [hsteps, List.map_append, List.map_replicate, List.map_map]
    exact congrArg _ ((List.map_congr_left fun _ _ => rfl).trans (List.map_id names))
  unfold read at h
  split at h
  · cases h
  split at h
  · cases h
  split at h
  · cases h
  next hsize =>
  have hstart : (if p.render.toList.head? = some '/' then [] else d.here) = d.start p.rooted := by
    simp only [Path.rooted_render hspelt, start]
  dsimp only at h
  rw [hstart] at h
  cases hplace : d.follow (d.start p.rooted) ((Path.stretches p.render.toList).map String.ofList) with
  | error e => rw [hplace] at h; cases h
  | ok place =>
    rw [hplace] at h
    have hfile : place ∈ d.files.keys := by
      cases hfind : d.files.find? place with
      | none => simp only [bind, Except.bind, hfind] at h; cases h
      | some text => exact Table.mem_keys_of_find? hfind
    have hfollow := follow_steps hspelt hplace
    rw [hrender] at hfollow
    exact ⟨place, hfile, ups, ups_lt hrender (Nat.lt_of_not_le hsize), names, by rw [← hsteps],
      follow_names hnames (follow_ups hfollow)⟩

end Disk

namespace Loader

/-- there is a text under a key that is the text of what a path in a module leads to -/
structure Has (l : Loader) (key : String) : Prop where
  resolved : ∃ importer path, key = (Path.resolve (.ofString importer) (.ofString path)).render
  text : ∃ source, l.load key = .ok source

/-- no more keys than a loader's capacity have a text -/
theorem length_le_capacity {l : Loader} {keys : List String} (hnodup : keys.Nodup) (h : ∀ key ∈ keys, l.Has key) :
    keys.length ≤ l.capacity := by
  cases l with
  | memory files =>
    change keys.length ≤ files.entries.length
    rw [← List.length_map Prod.fst]
    refine length_le_of_related (R := fun key p => p.render = key) hnodup (fun key hkey => ?_) fun key key' p hp hp' =>
      hp.symm.trans hp'
    obtain ⟨⟨importer, path, rfl⟩, source, hsource⟩ := h key hkey
    unfold load at hsource
    dsimp only at hsource
    rw [Path.normalize_resolved] at hsource
    split at hsource
    · next text hfind => exact ⟨_, Table.mem_keys_of_find? hfind, rfl⟩
    · cases hsource
  | disk d =>
    have hcount : keys.length ≤ (d.files.keys ×ˢ ([true, false] ×ˢ List.range 1366)).length := by
      refine length_le_of_related (R := d.Leads) hnodup (fun key hkey => ?_) fun key key' goal => Disk.leads_unique
      obtain ⟨⟨importer, path, rfl⟩, source, hsource⟩ := h key hkey
      obtain ⟨place, hplace, ups, hups, hleads⟩ :=
        Disk.leads_of_read (Path.spelt_resolve importer path) (Path.normal_normalize _) hsource
      refine ⟨_, ?_, hleads⟩
      simp [List.mem_product, hplace, hups]
    refine Nat.le_trans hcount ?_
    change _ ≤ d.files.entries.length * 4096
    simp only [List.length_product, List.length_range, List.length_cons, List.length_nil, Table.keys, List.length_map]
    omega

end Loader

end TypedScript
