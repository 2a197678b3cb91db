/-
Paths of modules. A path is a list of steps, from the root of all files or from wherever the reader stands. Its normal
form has no step that stays in place and goes up only where there is nothing to come back from, so that two spellings
of one place that fold to the same steps have the same normal form; no file is looked at.

- `Path.normalize_normal`: normal forms are their own normal form.
- `Path.normal_normalize`: the normal form is normal: steps up, then names.
- `Path.Normal.steps_eq`: the steps of a path in normal form.
-/
namespace TypedScript

inductive Step
  /-- stay in place -/
  | stay
  | up
  | name (text : String)
deriving DecidableEq, Inhabited

namespace Step

def isName : Step → Bool
  | name _ => true
  | _ => false

def render : Step → String
  | stay => "."
  | up => ".."
  | name text => text

/-- the step that a stretch between two slashes stands for -/
def ofString (text : String) : Step :=
  if text = "." then stay else if text = ".." then up else name text

end Step

structure Path where
  /-- from the root of all files -/
  rooted : Bool
  steps : List Step
deriving DecidableEq, Inhabited

namespace Path

/-- the stretches between slashes -/
def stretches : List Char → List (List Char)
  | [] => [[]]
  | c :: text =>
    if c = '/' then [] :: stretches text
    else
      match stretches text with
      | [] => [[c]]
      | first :: rest => (c :: first) :: rest

/-- the steps of a path's text; empty stretches are none, and a step that stays in place counts only in front -/
def ofString (text : String) : Path :=
  let rooted := text.toList.head? = some '/'
  let steps := ((stretches text.toList).filter (· ≠ [])).map fun s => Step.ofString (String.ofList s)
  match steps with
  | [] => ⟨rooted, []⟩
  | first :: rest =>
    let rest := rest.filter (· ≠ .stay)
    ⟨rooted, if rooted && first = .stay then rest else first :: rest⟩

def render (p : Path) : String :=
  (if p.rooted then "/" else "") ++ "/".intercalate (p.steps.map Step.render)

/-- the path one step shorter, or the empty path where there is no step -/
def parent (p : Path) : Path :=
  match p.steps with
  | [] => ⟨false, []⟩
  | _ :: _ => ⟨p.rooted, p.steps.dropLast⟩

/-- one path after the other; a path from the root starts anew -/
def join (p q : Path) : Path := if q.rooted then q else ⟨p.rooted, p.steps ++ q.steps⟩

/-- one more step on a normal path, whose last step comes first -/
def fold (back : List Step) : Step → List Step
  | .stay => back
  | .name text => .name text :: back
  | .up =>
    match back with
    | .name _ :: rest => rest
    | _ => .up :: back

def normalize (p : Path) : Path := ⟨p.rooted, (p.steps.foldl fold []).reverse⟩

/-- what a path written in a module of the path `importer` leads to -/
def resolve (importer path : Path) : Path := (importer.parent.join path).normalize

/-- steps up, then names, the last step first -/
inductive Folded : List Step → Prop
  | ups (n : Nat) : Folded (List.replicate n .up)
  | name (text : String) {back : List Step} (h : Folded back) : Folded (.name text :: back)

/-- in normal form: steps up, then names -/
def Normal (p : Path) : Prop := Folded p.steps.reverse

theorem Folded.fold {back : List Step} (h : Folded back) (step : Step) : Folded (fold back step) := by
  cases step with
  | stay => exact h
  | name text => exact .name text h
  | up =>
    cases h with
    | ups n => cases n with
      | zero => exact .ups 1
      | succ n => exact .ups (n + 2)
    | name text h => exact h

theorem Folded.foldl {back : List Step} (h : Folded back) (steps : List Step) :
    Folded (steps.foldl Path.fold back) := by
  induction steps generalizing back with
  | nil => exact h
  | cons step steps ih => exact ih (h.fold step)

theorem normal_normalize (p : Path) : p.normalize.Normal := by
  simp only [Normal, normalize, List.reverse_reverse]
  exact Folded.foldl (.ups 0) _

theorem foldl_reverse_of_folded {back : List Step} (h : Folded back) : back.reverse.foldl fold [] = back := by
  induction h with
  | ups n =>
    induction n with
    | zero => rfl
    | succ n ih =>
      simp only [List.reverse_replicate] at ih
      rw [List.reverse_replicate, List.replicate_succ', List.foldl_append, ih, ← List.replicate_succ']
      cases n <;> rfl
  | name text _ ih => simp [ih, fold]

theorem normalize_normal {p : Path} (h : p.Normal) : p.normalize = p := by
  have := foldl_reverse_of_folded h
  rw [List.reverse_reverse] at this
  simp [normalize, this]

theorem Folded.reverse_eq {back : List Step} (h : Folded back) :
    ∃ (ups : Nat) (names : List String), back.reverse = List.replicate ups .up ++ names.map .name := by
  induction h with
  | ups n => exact ⟨n, [], by rw [List.reverse_replicate, List.map_nil, List.append_nil]⟩
  | name text _ ih =>
    obtain ⟨ups, names, hback⟩ := ih
    refine ⟨ups, names ++ [text], ?_⟩
    rw [List.reverse_cons, hback, List.append_assoc, List.map_append, List.map_singleton]

theorem Normal.steps_eq {p : Path} (h : p.Normal) :
    ∃ (ups : Nat) (names : List String), p.steps = List.replicate ups .up ++ names.map .name := by
  have hsteps := Folded.reverse_eq h
  rwa [List.reverse_reverse] at hsteps

end Path

end TypedScript
