/-
The texts of paths. A text is split between slashes, and a path is written with a slash between its steps; what no step
of a path can be told from its text, so that a path in normal form is read back from its own text.

- `Path.stretches_intercalate`: splitting undoes putting slashes between.
- `Path.ofString_render`: a path without steps that stay is the path of its text.
- `Path.normalize_resolved`: what a path in a module leads to has its own text's path as its normal form.
-/
import TypedScript.Linking.Path

namespace TypedScript

/-- a step up, or a name that a stretch between slashes can be -/
def Step.Spelt : Step → Prop
  | .stay => False
  | .up => True
  | .name text => text ≠ "" ∧ text ≠ "." ∧ text ≠ ".." ∧ '/' ∉ text.toList

namespace Step

theorem ofString_render {step : Step} (h : step.Spelt) : ofString step.render = step := by
  cases step with
  | stay => exact h.elim
  | up => rfl
  | name text => rw [ofString, render, if_neg h.2.1, if_neg h.2.2.1]

theorem Spelt.render_ne {step : Step} (h : step.Spelt) : step.render.toList ≠ [] := by
  cases step with
  | stay => exact h.elim
  | up => decide
  | name text => exact fun hnil => h.1 (String.toList_eq_nil_iff.1 hnil)

theorem Spelt.slash_notMem {step : Step} (h : step.Spelt) : '/' ∉ step.render.toList := by
  cases step with
  | stay => exact h.elim
  | up => decide
  | name text => exact h.2.2.2

theorem Spelt.ne_stay {step : Step} (h : step.Spelt) : step ≠ .stay := by
  rintro rfl
  exact h

/-- a stretch between slashes stands for a step up or a name, or for staying in place -/
theorem spelt_ofString {text : String} (hne : text ≠ "") (hslash : '/' ∉ text.toList) :
    ofString text = .stay ∨ (ofString text).Spelt := by
  unfold ofString
  split
  · exact .inl rfl
  split
  · exact .inr trivial
  next hstay hup => exact .inr ⟨hne, hstay, hup, hslash⟩

end Step

namespace Path

/-! ## Splitting -/

theorem stretches_of_notMem {text : List Char} (h : '/' ∉ text) : stretches text = [text] := by
  induction text with
  | nil => rfl
  | cons c text ih =>
    rw [List.mem_cons, not_or] at h
    rw [stretches, if_neg (Ne.symm h.1), ih h.2]

theorem stretches_append {text : List Char} (h : '/' ∉ text) (rest : List Char) :
    stretches (text ++ '/' :: rest) = text :: stretches rest := by
  induction text with
  | nil => rw [List.nil_append, stretches, if_pos rfl]
  | cons c text ih =>
    rw [List.mem_cons, not_or] at h
    rw [List.cons_append, stretches, if_neg (Ne.symm h.1), ih h.2]

theorem slash_notMem_of_stretches {text stretch : List Char} (h : stretch ∈ stretches text) : '/' ∉ stretch := by
  induction text generalizing stretch with
  | nil => rw [List.mem_singleton.1 h]; exact List.not_mem_nil
  | cons c text ih =>
    rw [stretches] at h
    split at h
    · rcases List.mem_cons.1 h with rfl | h
      · exact List.not_mem_nil
      · exact ih h
    next hslash =>
    split at h
    · rw [List.mem_singleton.1 h, List.mem_singleton]
      exact Ne.symm hslash
    next first rest heq =>
      rcases List.mem_cons.1 h with rfl | h
      · rw [List.mem_cons, not_or]
        exact ⟨Ne.symm hslash, ih (heq ▸ List.mem_cons_self)⟩
      · exact ih (heq ▸ List.mem_cons_of_mem _ h)

theorem stretches_intercalate {texts : List (List Char)} (hne : texts ≠ []) (h : ∀ text ∈ texts, '/' ∉ text) :
    stretches (['/'].intercalate texts) = texts := by
  induction texts with
  | nil => exact absurd rfl hne
  | cons text texts ih =>
    have hfirst := h text List.mem_cons_self
    cases texts with
    | nil =>
      rw [List.intercalate_singleton]
      exact stretches_of_notMem hfirst
    | cons next texts =>
      rw [List.intercalate_cons_cons, List.append_assoc, List.singleton_append, stretches_append hfirst,
        ih (List.cons_ne_nil _ _) fun t ht => h t (List.mem_cons_of_mem _ ht)]

/-! ## Reading back -/

variable {p : Path}

/-- every step is spelt -/
def Spelt (p : Path) : Prop := ∀ step ∈ p.steps, step.Spelt

/-- the stretches of a path's text: those of its steps, and one in front of the first slash -/
theorem stretches_render (h : p.Spelt) : stretches p.render.toList =
    (if p.rooted then [[]] else []) ++ if p.steps = [] then [[]] else p.steps.map fun step => step.render.toList := by
  have hsteps : stretches ("/".intercalate (p.steps.map Step.render)).toList =
      if p.steps = [] then [[]] else p.steps.map fun step => step.render.toList := by
    rw [String.toList_intercalate, List.map_map]
    split
    · next hnil => rw [hnil]; rfl
    · next hne =>
      refine stretches_intercalate (fun hnil => hne (List.map_eq_nil_iff.1 hnil)) fun text htext => ?_
      obtain ⟨step, hstep, rfl⟩ := List.mem_map.1 htext
      exact (h step hstep).slash_notMem
  unfold render
  cases p.rooted with
  | false => simpa using hsteps
  | true =>
    rw [String.toList_append]
    exact (stretches_append List.not_mem_nil _).trans (congrArg _ hsteps)

theorem rooted_render (h : p.Spelt) : (p.render.toList.head? = some '/') ↔ p.rooted = true := by
  unfold render
  cases p.rooted with
  | true => simp
  | false =>
    simp only [Bool.false_eq_true, if_false, String.toList_append, iff_false]
    obtain ⟨rooted, steps⟩ := p
    cases steps with
    | nil => simp
    | cons first rest =>
      have hfirst := h first List.mem_cons_self
      obtain ⟨c, text, htext⟩ := List.exists_cons_of_ne_nil hfirst.render_ne
      have hc : c ≠ '/' := fun hc => hfirst.slash_notMem (by rw [htext, hc]; exact List.mem_cons_self)
      cases rest <;> simp [String.toList_intercalate, htext, hc]

theorem ofString_render (h : p.Spelt) : ofString p.render = p := by
  have hmap : ((stretches p.render.toList).filter (· ≠ [])).map
      (fun s => Step.ofString (String.ofList s)) = p.steps := by
    have hwritten : (p.steps.map fun step => step.render.toList).filter (· ≠ []) =
        p.steps.map fun step => step.render.toList := by
      refine List.filter_eq_self.2 fun text htext => ?_
      obtain ⟨step, hstep, rfl⟩ := List.mem_map.1 htext
      exact decide_eq_true (h step hstep).render_ne
    have hread : (p.steps.map fun step => step.render.toList).map
        (fun s => Step.ofString (String.ofList s)) = p.steps := by
      rw [List.map_map]
      refine (List.map_congr_left fun step hstep => ?_).trans (List.map_id _)
      rw [Function.comp_apply, String.ofList_toList]
      exact Step.ofString_render (h step hstep)
    rw [stretches_render h]
    by_cases hnil : p.steps = []
    · cases p.rooted <;> simp [hnil]
    · rw [if_neg hnil, List.filter_append, hwritten]
      cases p.rooted <;> simpa using hread
  unfold ofString
  dsimp only
  rw [hmap]
  have hrooted : decide (p.render.toList.head? = some '/') = p.rooted := by
    rw [Bool.eq_iff_iff, decide_eq_true_eq]
    exact rooted_render h
  obtain ⟨rooted, steps⟩ := p
  cases steps with
  | nil => exact congrArg (Path.mk · _) hrooted
  | cons first rest =>
    have hrest : rest.filter (· ≠ .stay) = rest :=
      List.filter_eq_self.2 fun step hstep => decide_eq_true (h step (List.mem_cons_of_mem _ hstep)).ne_stay
    simp only [hrooted, hrest, (h first List.mem_cons_self).ne_stay, decide_false, Bool.and_false, Bool.false_eq_true,
      if_false]

/-! ## What paths lead to -/

theorem spelt_of_mem_ofString {text : String} {step : Step} (h : step ∈ (ofString text).steps) :
    step = .stay ∨ step.Spelt := by
  have hall : ∀ step ∈ ((stretches text.toList).filter (· ≠ [])).map (fun s => Step.ofString (String.ofList s)),
      step = .stay ∨ step.Spelt := by
    intro step hstep
    obtain ⟨stretch, hstretch, rfl⟩ := List.mem_map.1 hstep
    obtain ⟨hmem, hne⟩ := List.mem_filter.1 hstretch
    refine Step.spelt_ofString (fun hempty => ?_) ?_
    · exact of_decide_eq_true hne (String.ofList_eq_empty_iff.1 hempty)
    · rw [String.toList_ofList]
      exact slash_notMem_of_stretches hmem
  unfold ofString at h
  dsimp only at h
  generalize ((stretches text.toList).filter (· ≠ [])).map (fun s => Step.ofString (String.ofList s)) = steps at h hall
  cases steps with
  | nil => cases h
  | cons first rest =>
    dsimp only at h
    split at h
    · exact hall step (List.mem_cons_of_mem _ (List.mem_filter.1 h).1)
    · rcases List.mem_cons.1 h with rfl | h
      · exact hall step List.mem_cons_self
      · exact hall step (List.mem_cons_of_mem _ (List.mem_filter.1 h).1)

theorem spelt_fold {back : List Step} (hback : ∀ step ∈ back, step.Spelt) {step : Step}
    (hstep : step = .stay ∨ step.Spelt) : ∀ other ∈ fold back step, other.Spelt := by
  cases step with
  | stay => exact hback
  | name text => exact List.forall_mem_cons.2 ⟨hstep.resolve_left (by simp), hback⟩
  | up =>
    have hup : ∀ other ∈ Step.up :: back, other.Spelt := List.forall_mem_cons.2 ⟨trivial, hback⟩
    cases back with
    | nil => exact hup
    | cons last back =>
      cases last with
      | name text => exact fun other hother => hback other (List.mem_cons_of_mem _ hother)
      | stay | up => exact hup

/-- a normal form has no steps but those of the path -/
theorem spelt_normalize (h : ∀ step ∈ p.steps, step = .stay ∨ step.Spelt) : p.normalize.Spelt := by
  have hfold (back steps : List Step) (hback : ∀ step ∈ back, step.Spelt)
      (hsteps : ∀ step ∈ steps, step = .stay ∨ step.Spelt) : ∀ step ∈ steps.foldl fold back, step.Spelt := by
    induction steps generalizing back with
    | nil => exact hback
    | cons step steps ih =>
      obtain ⟨hfirst, hrest⟩ := List.forall_mem_cons.1 hsteps
      exact ih _ (spelt_fold hback hfirst) hrest
  have hnone : ∀ step ∈ ([] : List Step), step.Spelt := fun _ hmem => absurd hmem List.not_mem_nil
  exact fun step hstep => hfold [] p.steps hnone h step (List.mem_reverse.1 hstep)

theorem spelt_resolve (importer path : String) : (resolve (ofString importer) (ofString path)).Spelt := by
  refine spelt_normalize fun step hstep => ?_
  unfold join at hstep
  split at hstep
  · exact spelt_of_mem_ofString hstep
  · rcases List.mem_append.1 hstep with hstep | hstep
    · unfold parent at hstep
      split at hstep
      · cases hstep
      · exact spelt_of_mem_ofString (List.dropLast_subset _ hstep)
    · exact spelt_of_mem_ofString hstep

/-- what a path in a module leads to is read back from its text, in normal form as it is -/
theorem normalize_resolved (importer path : String) :
    (ofString (resolve (ofString importer) (ofString path)).render).normalize =
      resolve (ofString importer) (ofString path) := by
  rw [ofString_render (spelt_resolve importer path)]
  exact normalize_normal (normal_normalize _)

end Path

end TypedScript
