import Mathlib.Tactic

namespace Wasrisc.FairRounds

variable {σ ι : Type*}

/-- Progress under weak fairness: no event raises the rank, the helpful event of a state lowers it,
and an event that does not lower the rank leaves the helpful event as it is. -/
structure Ranked (step : σ → ι → σ) (I : σ → Prop) (rank : σ → ℕ) (helpful : σ → ι) : Prop where
  invariant : ∀ s a, I s → I (step s a)
  le : ∀ s a, I s → rank (step s a) ≤ rank s
  lt : ∀ s, I s → 0 < rank s → rank (step s (helpful s)) < rank s
  waits : ∀ s a, I s → 0 < rank s → rank (step s a) = rank s → helpful (step s a) = helpful s

namespace Ranked

variable {step : σ → ι → σ} {I : σ → Prop} {rank : σ → ℕ} {helpful : σ → ι}

theorem run_invariant (R : Ranked step I rank helpful) {s : σ} (hs : I s) (l : List ι) :
    I (l.foldl step s) := by
  induction l generalizing s with
  | nil => exact hs
  | cons a l ih => exact ih (R.invariant s a hs)

theorem run_le (R : Ranked step I rank helpful) {s : σ} (hs : I s) (l : List ι) :
    rank (l.foldl step s) ≤ rank s := by
  induction l generalizing s with
  | nil => exact le_refl _
  | cons a l ih => exact (ih (R.invariant s a hs)).trans (R.le s a hs)

theorem run_lt (R : Ranked step I rank helpful) {s : σ} {l : List ι} (hs : I s) (hrank : 0 < rank s)
    (hl : helpful s ∈ l) : rank (l.foldl step s) < rank s := by
  induction l generalizing s with
  | nil => exact absurd hl (by simp)
  | cons a l ih =>
    have hle := R.le s a hs
    have hrest := R.run_le (R.invariant s a hs) l
    rw [List.foldl_cons]
    rcases Nat.lt_or_eq_of_le hle with hlt | heq
    · omega
    · -- nothing has helped yet, and the same event still would
      have hwaits := R.waits s a hs hrank heq
      rcases List.mem_cons.mp hl with rfl | hmem
      · have hlt := R.lt s hs hrank
        omega
      · rw [← heq]
        exact ih (R.invariant s a hs) (by omega) (hwaits ▸ hmem)

theorem rounds (R : Ranked step I rank helpful) {s : σ} {ls : List (List ι)} (hs : I s)
    (hls : ∀ l ∈ ls, ∀ t, I t → 0 < rank t → helpful t ∈ l) (hn : rank s ≤ ls.length) :
    rank (ls.flatten.foldl step s) = 0 := by
  induction ls generalizing s with
  | nil => exact Nat.le_zero.mp hn
  | cons l ls ih =>
    rw [List.flatten_cons, List.foldl_append]
    apply ih (R.run_invariant hs l) (fun l' hl' => hls l' (List.mem_cons_of_mem l hl'))
    rw [List.length_cons] at hn
    rcases Nat.eq_zero_or_pos (rank s) with hzero | hpos
    · have hle := R.run_le hs l
      omega
    · have hlt := R.run_lt hs hpos (hls l List.mem_cons_self s hs hpos)
      omega

end Ranked

end Wasrisc.FairRounds
