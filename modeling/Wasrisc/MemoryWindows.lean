import Wasrisc.HostMemory

namespace Wasrisc.MemoryWindows

open AddressedMemory HostMemory LittleEndian

section Overwrite

variable {w : ℕ} {β : Type*}

/-- The memory `m` after the bytes at the offsets `lo`, …, `hi - 1` from `b` became those of `f`. -/
def overwrite (m : BitVec w → β) (b : BitVec w) (lo hi : ℕ) (f : ℕ → β) : BitVec w → β :=
  fun a => if lo ≤ (a - b).toNat ∧ (a - b).toNat < hi then f (a - b).toNat else m a

variable {m : BitVec w → β} {b : BitVec w} {lo hi : ℕ} {f : ℕ → β}

theorem overwrite_empty (h : hi ≤ lo) : overwrite m b lo hi f = m := by
  funext a
  exact if_neg (by omega)

theorem overwrite_of_lt {a : BitVec w} (h : (a - b).toNat < lo) : overwrite m b lo hi f a = m a :=
  if_neg (by omega)

theorem overwrite_of_le {a : BitVec w} (h : hi ≤ (a - b).toNat) : overwrite m b lo hi f a = m a :=
  if_neg (by omega)

theorem overwrite_const (v : β) (n : ℕ) : overwrite m b 0 n (fun _ => v) = fill m b n v := by
  funext a
  simp [overwrite, fill]

theorem update_eq_write (m : BitVec w → β) (a : BitVec w) (v : β) :
    Function.update m a v = write m a [v] := by
  funext c
  by_cases h : c = a
  · subst h
    simp [write]
  · have hne : (c - a).toNat ≠ 0 := by
      intro h0
      apply h
      have hsub : c - a = 0 := BitVec.eq_of_toNat_eq (by simpa using h0)
      exact BitVec.sub_eq_iff_eq_add.mp hsub |>.trans (BitVec.zero_add a)
    rw [Function.update_of_ne h, write, List.getElem?_eq_none, Option.getD_none]
    rw [List.length_singleton]
    omega

theorem sub_add_toNat {a : BitVec w} {k : ℕ} (hk : k ≤ (a - b).toNat) :
    (a - (b + BitVec.ofNat w k)).toNat = (a - b).toNat - k := by
  have ha := (a - b).isLt
  rw [← BitVec.sub_sub, BitVec.toNat_sub_of_le, BitVec.toNat_ofNat, Nat.mod_eq_of_lt (by omega)]
  rw [BitVec.le_def, BitVec.toNat_ofNat, Nat.mod_eq_of_lt (by omega)]
  exact hk

theorem sub_add_toNat_of_lt {a : BitVec w} {k : ℕ} (hk : (a - b).toNat < k) (hkw : k < 2 ^ w) :
    (a - (b + BitVec.ofNat w k)).toNat = 2 ^ w + (a - b).toNat - k := by
  rw [← BitVec.sub_sub, BitVec.toNat_sub, BitVec.toNat_ofNat, Nat.mod_eq_of_lt hkw,
    Nat.mod_eq_of_lt (by omega)]
  omega

theorem write_append {vs us : List β} {n : ℕ} (hn : vs.length = n) (hw : n + us.length ≤ 2 ^ w) :
    write (write m b vs) (b + BitVec.ofNat w n) us = write m b (vs ++ us) := by
  subst hn
  cases us with
  | nil =>
    funext a
    simp [write]
  | cons u us =>
    funext a
    rw [List.length_cons] at hw
    rcases Nat.lt_or_ge (a - b).toNat vs.length with h | h
    · have hoff := sub_add_toNat_of_lt h (by omega)
      rw [write, List.getElem?_eq_none (by rw [List.length_cons]; omega), Option.getD_none, write, write,
        List.getElem?_append_left h]
    · rw [write, sub_add_toNat h, write, write, List.getElem?_append_right h,
        List.getElem?_eq_none h, Option.getD_none]

theorem write_overwrite_up {vs : List β} {l : ℕ} (hl : vs.length = l) (hlo : lo ≤ hi)
    (hw : hi + l ≤ 2 ^ w) (hvs : ∀ i (h : i < vs.length), vs[i] = f (hi + i)) :
    write (overwrite m b lo hi f) (b + BitVec.ofNat w hi) vs = overwrite m b lo (hi + l) f := by
  subst hl
  cases vs with
  | nil =>
    funext a
    simp [write]
  | cons v vs =>
    funext a
    have ha := (a - b).isLt
    rw [List.length_cons] at hw
    rcases Nat.lt_or_ge (a - b).toNat hi with h | h
    · have hoff := sub_add_toNat_of_lt h (by omega)
      rw [write, List.getElem?_eq_none (by rw [List.length_cons]; omega), Option.getD_none]
      unfold overwrite
      exact if_congr (by omega) rfl rfl
    · rw [write, sub_add_toNat h]
      by_cases hin : (a - b).toNat - hi < (v :: vs).length
      · rw [List.getElem?_eq_getElem hin, Option.getD_some, hvs _ hin, overwrite, if_pos (by omega)]
        congr 1
        omega
      · rw [List.getElem?_eq_none (by omega), Option.getD_none, overwrite_of_le h,
          overwrite_of_le (by omega)]

theorem write_overwrite_down {vs : List β} {l : ℕ} (hl : vs.length = l) (hpos : 0 < l)
    (hlo : lo + l ≤ hi) (hw : hi ≤ 2 ^ w) (hvs : ∀ i (h : i < vs.length), vs[i] = f (lo + i)) :
    write (overwrite m b (lo + l) hi f) (b + BitVec.ofNat w lo) vs = overwrite m b lo hi f := by
  subst hl
  funext a
  have ha := (a - b).isLt
  rcases Nat.lt_or_ge (a - b).toNat lo with h | h
  · have hoff := sub_add_toNat_of_lt h (by omega)
    rw [write, List.getElem?_eq_none (by omega), Option.getD_none, overwrite_of_lt (by omega),
      overwrite_of_lt h]
  · rw [write, sub_add_toNat h]
    by_cases hin : (a - b).toNat - lo < vs.length
    · rw [List.getElem?_eq_getElem hin, Option.getD_some, hvs _ hin, overwrite, if_pos (by omega)]
      congr 1
      omega
    · rw [List.getElem?_eq_none (by omega), Option.getD_none]
      unfold overwrite
      exact if_congr (by omega) rfl rfl

theorem read_overwrite {a : BitVec w} {n : ℕ}
    (h : ∀ i < n, (a + BitVec.ofNat w i - b).toNat < lo ∨ hi ≤ (a + BitVec.ofNat w i - b).toNat) :
    read (overwrite m b lo hi f) a n = read m a n := by
  apply List.map_congr_left
  intro i hi'
  rcases h i (List.mem_range.mp hi') with hlt | hle
  · exact overwrite_of_lt hlt
  · exact overwrite_of_le hle

end Overwrite

end Wasrisc.MemoryWindows
