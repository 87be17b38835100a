import Mathlib

namespace Wasrisc.Runs

variable {σ τ ι : Type*}

/-- `P` holds in every state reached while performing `l` from `s`, the first and last included. -/
def Throughout (step : σ → ι → Option σ) (P : σ → Prop) (s : σ) (l : List ι) : Prop :=
  ∀ l₁ t, l₁ <+: l → l₁.foldlM step s = some t → P t

/-- `C` holds of every operation of `l` in the state that `l`, started in `s`, performs it in. -/
def StepsMeet (step : σ → ι → Option σ) (C : σ → ι → Prop) (s : σ) (l : List ι) : Prop :=
  ∀ l₁ a t, l₁ ++ [a] <+: l → l₁.foldlM step s = some t → C t a

theorem foldlM_cons_some {step : σ → ι → Option σ} {s t : σ} {a : ι} {l : List ι} :
    (a :: l).foldlM step s = some t ↔ ∃ u, step s a = some u ∧ l.foldlM step u = some t := by
  simp [List.foldlM_cons, Option.bind_eq_some_iff]

theorem foldlM_append_some {step : σ → ι → Option σ} {s t : σ} {l l' : List ι} :
    (l ++ l').foldlM step s = some t ↔
      ∃ u, l.foldlM step s = some u ∧ l'.foldlM step u = some t := by
  simp [List.foldlM_append, Option.bind_eq_some_iff]

theorem throughout_nil {step : σ → ι → Option σ} {P : σ → Prop} {s : σ} :
    Throughout step P s [] ↔ P s := by
  constructor
  · intro h; exact h [] s (List.prefix_refl _) rfl
  · intro hs l₁ t hl ht
    obtain rfl := List.prefix_nil.mp hl
    obtain rfl : s = t := by simpa using ht
    exact hs

theorem throughout_cons {step : σ → ι → Option σ} {P : σ → Prop} {s : σ} {a : ι} {l : List ι} :
    Throughout step P s (a :: l) ↔ P s ∧ ∀ u, step s a = some u → Throughout step P u l := by
  constructor
  · intro h
    refine ⟨h [] s (List.nil_prefix) rfl, fun u hu l₁ t hl ht => ?_⟩
    exact h (a :: l₁) t (List.cons_prefix_cons.mpr ⟨rfl, hl⟩) (foldlM_cons_some.mpr ⟨u, hu, ht⟩)
  · rintro ⟨hs, h⟩ l₁ t hl ht
    cases l₁ with
    | nil =>
      obtain rfl : s = t := by simpa using ht
      exact hs
    | cons b l₁ =>
      obtain ⟨rfl, htail⟩ := List.cons_prefix_cons.mp hl
      obtain ⟨u, hu, ht⟩ := foldlM_cons_some.mp ht
      exact h u hu l₁ t htail ht

theorem stepsMeet_nil {step : σ → ι → Option σ} {C : σ → ι → Prop} {s : σ} :
    StepsMeet step C s [] := by
  intro l₁ a t hl
  simp at hl

theorem stepsMeet_cons {step : σ → ι → Option σ} {C : σ → ι → Prop} {s : σ} {a : ι} {l : List ι} :
    StepsMeet step C s (a :: l) ↔ C s a ∧ ∀ u, step s a = some u → StepsMeet step C u l := by
  constructor
  · intro h
    refine ⟨h [] a s (by simp) rfl, fun u hu l₁ b t hl ht => ?_⟩
    exact h (a :: l₁) b t (List.cons_prefix_cons.mpr ⟨rfl, hl⟩) (foldlM_cons_some.mpr ⟨u, hu, ht⟩)
  · rintro ⟨hs, h⟩ l₁ b t hl ht
    cases l₁ with
    | nil =>
      obtain ⟨rfl, -⟩ := List.cons_prefix_cons.mp hl
      obtain rfl : s = t := by simpa using ht
      exact hs
    | cons c l₁ =>
      obtain ⟨rfl, htail⟩ := List.cons_prefix_cons.mp hl
      obtain ⟨u, hu, ht⟩ := foldlM_cons_some.mp ht
      exact h u hu l₁ b t htail ht

theorem stepsMeet_congr {step : σ → ι → Option σ} {C C' : σ → ι → Prop}
    (h : ∀ s a, C s a ↔ C' s a) {s : σ} {l : List ι} :
    StepsMeet step C s l ↔ StepsMeet step C' s l := by
  unfold StepsMeet
  simp only [h]

theorem run_invariant {step : σ → ι → Option σ} {P : σ → Prop}
    (hstep : ∀ s a t, P s → step s a = some t → P t) {s t : σ} {l : List ι}
    (hs : P s) (h : l.foldlM step s = some t) : P t := by
  induction l generalizing s with
  | nil =>
    obtain rfl : s = t := by simpa using h
    exact hs
  | cons a l ih =>
    obtain ⟨u, hu, ht⟩ := foldlM_cons_some.mp h
    exact ih (hstep s a u hs hu) ht

theorem StepsMeet.invariant {step : σ → ι → Option σ} {P : σ → Prop} {C : σ → ι → Prop}
    (hstep : ∀ s a t, P s → C s a → step s a = some t → P t) {s t : σ} {l l' : List ι}
    (hmeet : StepsMeet step C s l) (hl : l' <+: l) (hs : P s) (h : l'.foldlM step s = some t) :
    P t := by
  induction l' generalizing s l with
  | nil =>
    obtain rfl : s = t := by simpa using h
    exact hs
  | cons a l' ih =>
    obtain ⟨u, hu, ht⟩ := foldlM_cons_some.mp h
    cases l with
    | nil => exact absurd hl (by simp)
    | cons b l =>
      obtain ⟨rfl, htail⟩ := List.cons_prefix_cons.mp hl
      obtain ⟨hc, hrest⟩ := stepsMeet_cons.mp hmeet
      exact ih (hrest u hu) htail (hstep s a u hs hc hu) ht

theorem run_throughout {step : σ → ι → Option σ} {P : σ → Prop}
    (hstep : ∀ s a t, P s → step s a = some t → P t) {s : σ} (hs : P s) (l : List ι) :
    Throughout step P s l :=
  fun _ _ _ ht => run_invariant hstep hs ht

theorem foldlM_total (f : σ → ι → σ) (s : σ) (l : List ι) :
    l.foldlM (fun s a => some (f s a)) s = some (l.foldl f s) := List.foldlM_pure

theorem Throughout.stepsMeet {step : σ → ι → Option σ} {P : σ → Prop} {C : σ → ι → Prop} {s : σ}
    {l : List ι} (h : Throughout step P s l)
    (hC : ∀ s a, P s → (∀ u, step s a = some u → P u) → C s a) : StepsMeet step C s l := by
  intro l₁ a t hl ht
  apply hC t a
  · exact h l₁ t ((List.prefix_append l₁ [a]).trans hl) ht
  · intro u hu
    refine h (l₁ ++ [a]) u hl (foldlM_append_some.mpr ⟨t, ht, ?_⟩)
    exact foldlM_cons_some.mpr ⟨u, hu, rfl⟩

/-- When `C` decides, on states satisfying `I` and `P`, whether a step keeps `P`, the runs that
stay in `P` are those whose steps all meet `C`. -/
theorem throughout_iff_stepsMeet {step : σ → ι → Option σ} {I P : σ → Prop} {C : σ → ι → Prop}
    (hI : ∀ s a t, I s → P s → step s a = some t → I t)
    (hC : ∀ s a t, I s → P s → step s a = some t → (P t ↔ C s a)) {s t : σ} {l : List ι}
    (hs : I s) (hp : P s) (h : l.foldlM step s = some t) :
    Throughout step P s l ↔ StepsMeet step C s l := by
  induction l generalizing s with
  | nil => simp only [throughout_nil, hp, stepsMeet_nil]
  | cons a l ih =>
    obtain ⟨u, hu, ht⟩ := foldlM_cons_some.mp h
    rw [throughout_cons, stepsMeet_cons]
    have hiff := hC s a u hs hp hu
    constructor
    · rintro ⟨-, hl⟩
      have hpu : P u := (hl u hu) [] u List.nil_prefix rfl
      refine ⟨hiff.mp hpu, fun v hv => ?_⟩
      obtain rfl : u = v := Option.some.inj (hu.symm.trans hv)
      exact (ih (hI s a u hs hp hu) hpu ht).mp (hl u hu)
    · rintro ⟨hc, hl⟩
      refine ⟨hp, fun v hv => ?_⟩
      obtain rfl : u = v := Option.some.inj (hu.symm.trans hv)
      exact (ih (hI s a u hs hp hu) (hiff.mpr hc) ht).mpr (hl u hu)

inductive Trace (step : τ → ι → τ → Prop) : τ → List ι → τ → Prop
  | nil (u : τ) : Trace step u [] u
  | cons {u v w : τ} {a : ι} {l : List ι} (head : step u a v) (tail : Trace step v l w) :
      Trace step u (a :: l) w

theorem run_simulated {step : σ → ι → Option σ} {abstractStep : τ → ι → τ → Prop}
    {R : σ → τ → Prop}
    (hstep : ∀ s u a t, R s u → step s a = some t → ∃ v, abstractStep u a v ∧ R t v)
    {s t : σ} {u : τ} {l : List ι} (hs : R s u) (h : l.foldlM step s = some t) :
    ∃ v, Trace abstractStep u l v ∧ R t v := by
  induction l generalizing s u with
  | nil =>
    obtain rfl : s = t := by simpa using h
    exact ⟨u, .nil u, hs⟩
  | cons a l ih =>
    obtain ⟨s', hs', ht⟩ := foldlM_cons_some.mp h
    obtain ⟨u', hu', hr⟩ := hstep s u a s' hs hs'
    obtain ⟨v, hv, hrv⟩ := ih hr ht
    exact ⟨v, .cons hu' hv, hrv⟩

end Wasrisc.Runs
