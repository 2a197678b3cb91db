/-
Tables: keys with a value each, in the order in which the keys were first inserted. Inserting under a key that is
present replaces its value in place.

- `Table.find?_insert`: the inserted key has the new value and every other key keeps what it had.
-/
namespace TypedScript

structure Table (κ α : Type) where
  entries : List (κ × α)
deriving Inhabited

namespace Table

variable {κ α β : Type} [DecidableEq κ]

def empty : Table κ α := ⟨[]⟩

/-- the value under a key -/
def find? (t : Table κ α) (key : κ) : Option α := (t.entries.find? fun e => e.1 = key).map Prod.snd

/-- the entries with a key's value replaced, or with a new entry behind them -/
def insertEntry (key : κ) (value : α) : List (κ × α) → List (κ × α)
  | [] => [(key, value)]
  | e :: entries => if e.1 = key then (key, value) :: entries else e :: insertEntry key value entries

def insert (t : Table κ α) (key : κ) (value : α) : Table κ α := ⟨insertEntry key value t.entries⟩

/-- all entries of a list, a later one over an earlier one with its key -/
def ofList (entries : List (κ × α)) : Table κ α := entries.foldl (fun t e => t.insert e.1 e.2) empty

def keys (t : Table κ α) : List κ := t.entries.map Prod.fst

def size (t : Table κ α) : Nat := t.entries.length

@[simp] theorem find?_empty (key : κ) : (empty : Table κ α).find? key = none := rfl

theorem find?_insert (t : Table κ α) (key key' : κ) (value : α) :
    (t.insert key value).find? key' = if key = key' then some value else t.find? key' := by
  obtain ⟨entries⟩ := t
  simp only [find?, insert]
  induction entries with
  | nil => by_cases h : key = key' <;> simp [insertEntry, h]
  | cons e entries ih => grind [insertEntry]

theorem mem_of_find?_foldl {entries : List (κ × α)} {t : Table κ α} {key : κ} {value : α}
    (h : (entries.foldl (fun t e => t.insert e.1 e.2) t).find? key = some value) :
    (key, value) ∈ entries ∨ t.find? key = some value := by
  induction entries generalizing t with
  | nil => exact Or.inr h
  | cons e entries ih =>
    rcases ih h with h | h
    · exact Or.inl (List.mem_cons_of_mem _ h)
    · rw [find?_insert] at h
      split at h
      · next hkey => cases h; cases hkey; exact Or.inl List.mem_cons_self
      · exact Or.inr h

theorem mem_of_find?_ofList {entries : List (κ × α)} {key : κ} {value : α}
    (h : (ofList entries).find? key = some value) : (key, value) ∈ entries :=
  (mem_of_find?_foldl h).resolve_right fun h => nomatch h

theorem exists_find?_foldl {entries : List (κ × α)} {t : Table κ α} {key : κ}
    (h : (∃ value, t.find? key = some value) ∨ key ∈ entries.map Prod.fst) :
    ∃ value, (entries.foldl (fun t e => t.insert e.1 e.2) t).find? key = some value := by
  induction entries generalizing t with
  | nil => exact h.resolve_right List.not_mem_nil
  | cons e entries ih =>
    refine ih ?_
    rw [find?_insert]
    rcases h with h | h
    · split
      · exact Or.inl ⟨e.2, rfl⟩
      · exact Or.inl h
    · rcases List.mem_cons.1 h with rfl | h
      · exact Or.inl ⟨e.2, if_pos rfl⟩
      · exact Or.inr h

theorem exists_find?_ofList {entries : List (κ × α)} {key : κ} (h : key ∈ entries.map Prod.fst) :
    ∃ value, (ofList entries).find? key = some value := exists_find?_foldl (Or.inr h)

end Table

end TypedScript
