import Mathlib

namespace Wasrisc.NearestEven

def roundNat (p n : ℕ) : ℕ :=
  let ulp := 2 ^ (Nat.log2 n + 1 - p)
  let q := n / ulp
  let r := n % ulp
  if ulp < 2 * r ∨ (2 * r = ulp ∧ q % 2 = 1) then (q + 1) * ulp else q * ulp

def roundInt (p : ℕ) (n : ℤ) : ℤ := n.sign * roundNat p n.natAbs

def ulp (p n : ℕ) : ℕ := 2 ^ (Nat.log2 n + 1 - p)

def Representable (p n : ℕ) : Prop := ulp p n ∣ n

variable {p n : ℕ}

theorem ulp_pos (p n : ℕ) : 0 < ulp p n := Nat.two_pow_pos _

theorem ulp_le {k : ℕ} (hn : n < 2 ^ k) (hk : p ≤ k) (hp : 0 < p) : ulp p n ≤ 2 ^ (k - p) := by
  apply Nat.pow_le_pow_right (by decide)
  by_cases hzero : n = 0
  · subst hzero
    rw [Nat.log2_zero]
    omega
  · have hlog := (Nat.log2_lt hzero).mpr hn
    omega

theorem roundNat_eq (p n : ℕ) : roundNat p n =
    if ulp p n < 2 * (n % ulp p n) ∨ (2 * (n % ulp p n) = ulp p n ∧ n / ulp p n % 2 = 1) then
      (n / ulp p n + 1) * ulp p n
    else n / ulp p n * ulp p n := rfl

theorem roundNat_cases (p n : ℕ) :
    (roundNat p n = n / ulp p n * ulp p n ∧ 2 * (n % ulp p n) ≤ ulp p n) ∨
      (roundNat p n = (n / ulp p n + 1) * ulp p n ∧ ulp p n ≤ 2 * (n % ulp p n)) := by
  rw [roundNat_eq]
  split_ifs with hup
  · right
    exact ⟨rfl, by omega⟩
  · left
    exact ⟨rfl, by omega⟩

theorem roundNat_error (p n : ℕ) :
    2 * roundNat p n ≤ 2 * n + ulp p n ∧ 2 * n ≤ 2 * roundNat p n + ulp p n := by
  have hsplit := Nat.div_add_mod' n (ulp p n)
  have hmod := Nat.mod_lt n (ulp_pos p n)
  rcases roundNat_cases p n with ⟨hround, hrest⟩ | ⟨hround, hrest⟩
  · rw [hround]
    omega
  · rw [hround, add_mul, one_mul]
    omega

theorem roundNat_of_representable (h : Representable p n) : roundNat p n = n := by
  have hrest : n % ulp p n = 0 := Nat.mod_eq_zero_of_dvd h
  have hpos := ulp_pos p n
  rcases roundNat_cases p n with ⟨hround, -⟩ | ⟨-, hhalf⟩
  · rw [hround]
    exact Nat.div_mul_cancel h
  · omega

theorem quotient_lt (p n : ℕ) : n / ulp p n < 2 ^ p := by
  rw [Nat.div_lt_iff_lt_mul (ulp_pos p n)]
  unfold ulp
  rw [← pow_add]
  apply Nat.lt_log2_self.trans_le
  apply Nat.pow_le_pow_right (by decide)
  omega

theorem representable_mul_two_pow (hp : 0 < p) {k e : ℕ} (hk : k ≤ 2 ^ p) :
    Representable p (k * 2 ^ e) := by
  unfold Representable ulp
  by_cases hzero : k = 0
  · simp [hzero]
  rcases Nat.lt_or_eq_of_le hk with hlt | rfl
  · apply Dvd.dvd.mul_left
    apply Nat.pow_dvd_pow
    have hlog : (k * 2 ^ e).log2 < p + e := by
      rw [Nat.log2_lt (by positivity), pow_add]
      exact Nat.mul_lt_mul_of_pos_right hlt (by positivity)
    omega
  · rw [← pow_add, Nat.log2_two_pow]
    apply Nat.pow_dvd_pow
    omega

theorem representable_of_le (hp : 0 < p) (hn : n ≤ 2 ^ p) : Representable p n := by
  simpa using representable_mul_two_pow hp hn (e := 0)

theorem representable_roundNat (hp : 0 < p) (n : ℕ) : Representable p (roundNat p n) := by
  have hquotient := quotient_lt p n
  rcases roundNat_cases p n with ⟨hround, -⟩ | ⟨hround, -⟩
  · rw [hround]
    exact representable_mul_two_pow hp hquotient.le
  · rw [hround]
    exact representable_mul_two_pow hp hquotient

theorem roundInt_natCast (hn : 0 < n) : roundInt p n = roundNat p n := by
  unfold roundInt
  rw [Int.sign_natCast_of_ne_zero (by omega), Int.natAbs_natCast, one_mul]

end Wasrisc.NearestEven
