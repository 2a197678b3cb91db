/-
Spellings of a place. Steps that stay in place and names that are left again by a step up can be put into a path and
taken out of it anywhere: two paths are alike if the steps of one come from those of the other in this way. The normal
form of a path picks one spelling of all that are alike, so that a store in memory finds a text under every one of them
and a module has the same key, however it is imported. A name is never left through the root: a step up from there
stays, as a step up from where the reader stands does.

- `Path.Alike`: the paths are spellings of one place.
- `Path.normalize_eq_iff`: alike paths, and no others, have one normal form.
- `Path.normalize_join`: of two paths one after the other, the first may be brought into normal form before.
- `Loader.answers_load`: a store gives the text that was put in last under a spelling of the path.
- `Path.spellings_collapse`: what the normal form is, and what that says of stores and of modules' keys.
-/
import Mathlib.Data.List.Induction
import Mathlib.Logic.Relation
import TypedScript.Linking.Loader
import TypedScript.Proofs.Linking.Edges
import TypedScript.Proofs.Linking.Spelling

namespace TypedScript

namespace Path

variable {p q : Path} {steps steps' back : List Step}

/-! ## Alike paths -/

/-- the second steps are the first without a step that stays, or without a name and the step up behind it -/
inductive Shortens : List Step → List Step → Prop
  | stay (before after : List Step) : Shortens (before ++ .stay :: after) (before ++ after)
  | back (before : List Step) (text : String) (after : List Step) :
      Shortens (before ++ .name text :: .up :: after) (before ++ after)

/-- the paths start at the same place, and the steps of one come from those of the other by taking out and putting in -/
def Alike (p q : Path) : Prop := p.rooted = q.rooted ∧ Relation.EqvGen Shortens p.steps q.steps

theorem Shortens.foldl (h : Shortens steps steps') (back : List Step) :
    steps.foldl fold back = steps'.foldl fold back := by
  cases h with
  | stay before after => rw [List.foldl_append, List.foldl_append, List.foldl_cons, fold]
  | back before text after => rw [List.foldl_append, List.foldl_append, List.foldl_cons, List.foldl_cons, fold, fold]

theorem foldl_of_eqvGen (h : Relation.EqvGen Shortens steps steps') (back : List Step) :
    steps.foldl fold back = steps'.foldl fold back := by
  induction h with
  | rel _ _ h => exact h.foldl back
  | refl _ => rfl
  | symm _ _ _ ih => exact ih.symm
  | trans _ _ _ _ _ ih ih' => exact ih.trans ih'

/-- one step more on a path is spelt as folding spells it -/
theorem eqvGen_fold (back : List Step) (step : Step) (steps : List Step) :
    Relation.EqvGen Shortens (back.reverse ++ step :: steps) ((fold back step).reverse ++ steps) := by
  have hsame (other : Step) :
      Relation.EqvGen Shortens (back.reverse ++ other :: steps) ((other :: back).reverse ++ steps) := by
    rw [List.reverse_cons, List.append_assoc, List.singleton_append]
    exact .refl _
  cases step with
  | stay => exact .rel _ _ (.stay back.reverse steps)
  | name text => exact hsame (.name text)
  | up =>
    cases back with
    | nil => exact hsame .up
    | cons last rest =>
      cases last with
      | stay | up => exact hsame .up
      | name text =>
        rw [fold, List.reverse_cons, List.append_assoc, List.singleton_append]
        exact .rel _ _ (.back rest.reverse text steps)

theorem eqvGen_foldl (steps back : List Step) :
    Relation.EqvGen Shortens (back.reverse ++ steps) (steps.foldl fold back).reverse := by
  induction steps generalizing back with
  | nil =>
    rw [List.append_nil]
    exact .refl _
  | cons step steps ih => exact .trans _ _ _ (eqvGen_fold back step steps) (ih (fold back step))

/-- a path is alike its normal form -/
theorem alike_normalize (p : Path) : p.Alike p.normalize := ⟨rfl, eqvGen_foldl p.steps []⟩

theorem Alike.symm (h : p.Alike q) : q.Alike p := ⟨h.1.symm, .symm _ _ h.2⟩

theorem Alike.trans {r : Path} (h : p.Alike q) (h' : q.Alike r) : p.Alike r := ⟨h.1.trans h'.1, .trans _ _ _ h.2 h'.2⟩

theorem Alike.normalize_eq (h : p.Alike q) : p.normalize = q.normalize := by
  unfold normalize
  rw [h.1, foldl_of_eqvGen h.2 []]

theorem normalize_eq_iff : p.normalize = q.normalize ↔ p.Alike q := by
  refine ⟨fun h => ?_, Alike.normalize_eq⟩
  have hp := p.alike_normalize
  rw [h] at hp
  exact hp.trans q.alike_normalize.symm

/-! ## Normal forms -/

theorem normalize_join (p q : Path) : (p.join q).normalize = (p.normalize.join q).normalize := by
  unfold join
  split
  · rfl
  · have hfold : (p.steps ++ q.steps).foldl fold [] = (p.normalize.steps ++ q.steps).foldl fold [] := by
      rw [List.foldl_append, List.foldl_append, foldl_of_eqvGen p.alike_normalize.2 []]
    exact congrArg (fun back => Path.mk p.rooted back.reverse) hfold

/-- two paths in modules have one key if and only if they are spellings of one place -/
theorem render_resolve_eq_iff (importer path importer' path' : String) :
    (resolve (ofString importer) (ofString path)).render = (resolve (ofString importer') (ofString path')).render ↔
      ((ofString importer).parent.join (ofString path)).Alike ((ofString importer').parent.join (ofString path')) := by
  rw [← normalize_eq_iff]
  refine ⟨fun h => ?_, fun h => congrArg render h⟩
  have hread := congrArg ofString h
  rwa [ofString_render (spelt_resolve importer path), ofString_render (spelt_resolve importer' path')] at hread

end Path

/-! ## Stores in memory -/

namespace Loader

open TypedScript.Path

/-- put texts into an empty store, one after the other -/
def insertAll (inserts : List (String × String)) : Table Path String :=
  inserts.foldl (fun files e => insert files e.1 e.2) .empty

/-- what was put in last under a path of the same normal form, or that there is nothing -/
inductive Answers (inserts : List (String × String)) (path : String) : Except LoadError String → Prop
  | last {before after : List (String × String)} {path' source : String}
      (hsplit : inserts = before ++ (path', source) :: after)
      (hpath : (ofString path').normalize = (ofString path).normalize)
      (hlast : ∀ e ∈ after, (ofString e.1).normalize ≠ (ofString path).normalize) : Answers inserts path (.ok source)
  | none (hnone : ∀ e ∈ inserts, (ofString e.1).normalize ≠ (ofString path).normalize) :
      Answers inserts path (.error (.notStored path))

variable {inserts : List (String × String)} {path : String}

/-- one more text, under a path of another normal form -/
theorem Answers.other {answer : Except LoadError String} (h : Answers inserts path answer) {e : String × String}
    (he : (ofString e.1).normalize ≠ (ofString path).normalize) : Answers (inserts ++ [e]) path answer := by
  cases h with
  | @last before after path' source hsplit hpath hlast =>
    have hsplit' : inserts ++ [e] = before ++ (path', source) :: (after ++ [e]) := by
      rw [hsplit, List.append_assoc, List.cons_append]
    refine .last hsplit' hpath fun x hx => ?_
    rcases List.mem_append.1 hx with hx | hx
    · exact hlast x hx
    · rw [List.mem_singleton.1 hx]
      exact he
  | none hnone =>
    refine .none fun x hx => ?_
    rcases List.mem_append.1 hx with hx | hx
    · exact hnone x hx
    · rw [List.mem_singleton.1 hx]
      exact he

theorem answers_load (inserts : List (String × String)) (path : String) :
    Answers inserts path ((memory (insertAll inserts)).load path) := by
  induction inserts using List.reverseRecOn with
  | nil => exact .none fun e he => absurd he List.not_mem_nil
  | append_singleton inserts e ih =>
    rw [insertAll, List.foldl_append, List.foldl_cons, List.foldl_nil, load_insert]
    split
    · next hpath => exact .last rfl hpath fun x hx => absurd hx List.not_mem_nil
    · next hpath => exact ih.other hpath

end Loader

/-- The normal form of a path is steps up and then names behind an optional root, has itself as its normal form, and is
the same for all paths that are alike and for no others; where a path follows, it may stand for the path before it. A
store therefore gives what was put in last under any spelling of the path, and what a path in a module leads to is in
normal form, so that the key of the module there is the same for all spellings of it and for no others. -/
theorem Path.spellings_collapse :
    (∀ p : Path, (∃ (ups : Nat) (names : List String),
      p.normalize = ⟨p.rooted, List.replicate ups .up ++ names.map .name⟩) ∧ p.normalize.normalize = p.normalize) ∧
    (∀ text : String, (ofString text).normalize.Spelt) ∧
    (∀ p q : Path, (p.join q).normalize = (p.normalize.join q).normalize) ∧
    (∀ p q : Path, p.normalize = q.normalize ↔ p.Alike q) ∧
    (∀ inserts path, Loader.Answers inserts path ((Loader.memory (Loader.insertAll inserts)).load path)) ∧
    (∀ importer path : Path, (resolve importer path).Normal) ∧
    ∀ (m m' : Module) (path path' : String), m.resolve path = m'.resolve path' ↔
      ((ofString (m.path.getD "")).parent.join (ofString path)).Alike
        ((ofString (m'.path.getD "")).parent.join (ofString path')) := by
  refine ⟨fun p => ⟨?_, normalize_normal (normal_normalize p)⟩, fun text => ?_, normalize_join,
    fun p q => normalize_eq_iff,
    Loader.answers_load, fun importer path => normal_normalize _, fun m m' path path' => ?_⟩
  · obtain ⟨ups, names, hsteps⟩ := (normal_normalize p).steps_eq
    exact ⟨ups, names, congrArg (Path.mk p.rooted) hsteps⟩
  · exact spelt_normalize fun step hstep => spelt_of_mem_ofString hstep
  · exact render_resolve_eq_iff _ path _ path'

/-- a file and its directory's other name: the root is not left by a step up -/
example : (Path.ofString "./a/../lib//b/.").normalize = (Path.ofString "lib/b").normalize ∧
    (Path.ofString "/../a").normalize = ⟨true, [.up, .name "a"]⟩ := by
  decide

end TypedScript
