import Mathlib.Data.List.Infix

/-!
# Runs of a labelled transition relation

A system is given by a relation `step s l s'`: in state `s` it can do `l` and is then in `s'`. A run
performs a list of labels, the oldest first. The lemmas below are the ones that the invariants of a
system are assembled from: the run rule for invariants, and the cutting of a run at one of its
labels.
-/

namespace Transition

variable {S L : Type*}

/-- `Run step s tr s'`: performing the labels `tr` in order leads from `s` to `s'`. -/
inductive Run (step : S → L → S → Prop) (s : S) : List L → S → Prop where
  /-- The empty run. -/
  | refl : Run step s [] s
  /-- One more step at the end of a run. -/
  | tail {tr : List L} {l : L} {s' s'' : S} (h : Run step s tr s') (hl : step s' l s'') :
      Run step s (tr ++ [l]) s''

variable {step : S → L → S → Prop}

theorem Run.single {s s' : S} {l : L} (h : step s l s') : Run step s [l] s' :=
  Run.tail Run.refl h

/-- A run can go on where another one ends. -/
theorem Run.append {s s' s'' : S} {tr tr' : List L} (h : Run step s tr s')
    (h' : Run step s' tr' s'') : Run step s (tr ++ tr') s'' := by
  induction h' with
  | refl =>
    rw [List.append_nil]
    exact h
  | tail _ hl ih =>
    rw [← List.append_assoc]
    exact ih.tail hl

/-- A run of a relation is one of every larger relation. -/
theorem Run.mono {step' : S → L → S → Prop} {s s' : S} {tr : List L} (h : Run step s tr s')
    (hle : ∀ s1 l s2, step s1 l s2 → step' s1 l s2) : Run step' s tr s' := by
  induction h with
  | refl => exact Run.refl
  | tail _ hl ih => exact ih.tail (hle _ _ _ hl)

theorem Run.tail_inv {s s'' : S} {tr : List L} {l : L} (h : Run step s (tr ++ [l]) s'') :
    ∃ s', Run step s tr s' ∧ step s' l s'' := by
  generalize htr : tr ++ [l] = tr' at h
  cases h with
  | refl => simp at htr
  | tail h hl =>
    obtain ⟨rfl, hll⟩ := List.append_inj' htr rfl
    cases hll
    exact ⟨_, h, hl⟩

/-- A run can be cut after any prefix of its labels. -/
theorem Run.split {s : S} {tr tr' : List L} : ∀ {s'' : S}, Run step s (tr ++ tr') s'' →
    ∃ s', Run step s tr s' ∧ Run step s' tr' s'' := by
  induction tr' using List.reverseRecOn with
  | nil => intro s'' h; exact ⟨s'', by rw [List.append_nil] at h; exact h, Run.refl⟩
  | append_singleton tr' l ih =>
    intro s'' h
    rw [← List.append_assoc] at h
    obtain ⟨s1, h1, hl⟩ := h.tail_inv
    obtain ⟨s', hs', h'⟩ := ih h1
    exact ⟨s', hs', h'.tail hl⟩

/-- A run can be cut at any of its labels. -/
theorem Run.split_at {s s'' : S} {tr tr' : List L} {l : L}
    (h : Run step s (tr ++ l :: tr') s'') :
    ∃ s1 s2, Run step s tr s1 ∧ step s1 l s2 ∧ Run step s2 tr' s'' := by
  rw [← List.singleton_append, ← List.append_assoc] at h
  obtain ⟨s2, h2, h'⟩ := h.split
  obtain ⟨s1, h1, hl⟩ := h2.tail_inv
  exact ⟨s1, s2, h1, hl, h'⟩

/-- The run rule: what holds of the first state and is preserved by every step holds of the last
state. -/
theorem Run.invariant {I : S → Prop} {s s' : S} {tr : List L} (h : Run step s tr s') (h0 : I s)
    (hstep : ∀ s1 l s2, I s1 → step s1 l s2 → I s2) : I s' := by
  induction h with
  | refl => exact h0
  | tail _ hl ih => exact hstep _ _ _ ih hl

/-- The run rule for a relation between the labels performed so far and the state reached. -/
theorem Run.history {R : List L → S → Prop} {s s' : S} {tr : List L} (h : Run step s tr s')
    (h0 : R [] s)
    (hstep : ∀ tr s1 l s2, R tr s1 → step s1 l s2 → R (tr ++ [l]) s2) : R tr s' := by
  induction h with
  | refl => exact h0
  | tail _ hl ih => exact hstep _ _ _ _ ih hl

/-! ## Since -/

/-- A label with `start` has been performed, and none with `stop` after it. -/
def Since (start stop : L → Prop) (tr : List L) : Prop :=
  ∃ pre l post, tr = pre ++ l :: post ∧ start l ∧ ∀ l' ∈ post, ¬ stop l'

variable {start stop : L → Prop} {tr : List L} {l : L}

theorem not_since_nil : ¬ Since start stop [] := by
  rintro ⟨pre, l, post, htr, -⟩
  exact List.append_ne_nil_of_right_ne_nil pre (List.cons_ne_nil l post) htr.symm

/-- What the last label means for the property. -/
theorem since_snoc : Since start stop (tr ++ [l]) ↔ start l ∨ ¬ stop l ∧ Since start stop tr := by
  constructor
  · rintro ⟨pre, first, post, htr, hfirst, hpost⟩
    rcases List.eq_nil_or_concat post with rfl | ⟨post, last, rfl⟩
    · obtain ⟨-, hl⟩ := List.append_inj' htr rfl
      cases hl
      exact Or.inl hfirst
    · rw [List.concat_eq_append] at *
      have hconcat : tr ++ [l] = (pre ++ first :: post) ++ [last] := by
        rw [htr, List.append_assoc]
        rfl
      obtain ⟨hpre, hl⟩ := List.append_inj' hconcat rfl
      cases hl
      refine Or.inr ⟨hpost l (List.mem_append_right _ List.mem_cons_self), pre, first, post, hpre,
        hfirst, fun l' hl' => hpost l' (List.mem_append_left _ hl')⟩
  · rintro (hl | ⟨hl, pre, first, post, rfl, hfirst, hpost⟩)
    · exact ⟨tr, l, [], rfl, hl, fun l' hl' => absurd hl' List.not_mem_nil⟩
    · refine ⟨pre, first, post ++ [l], by simp, hfirst, fun l' hl' => ?_⟩
      rcases List.mem_append.mp hl' with hl' | hl'
      · exact hpost l' hl'
      · rw [List.mem_singleton.mp hl']
        exact hl

/-- What is before a label with `start` does not matter. -/
theorem since_append_cons (hl : start l) (before : List L) :
    Since start stop (before ++ l :: tr) ↔ Since start stop (l :: tr) := by
  induction tr using List.reverseRecOn with
  | nil =>
    have hnil : l :: ([] : List L) = [] ++ [l] := rfl
    rw [hnil, since_snoc, ← List.append_assoc, since_snoc]
    exact ⟨fun _ => Or.inl hl, fun _ => Or.inl hl⟩
  | append_singleton tr last ih =>
    rw [← List.cons_append, ← List.append_assoc, since_snoc, since_snoc, ih]

end Transition
