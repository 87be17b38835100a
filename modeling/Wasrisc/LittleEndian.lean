import Mathlib

namespace Wasrisc.LittleEndian

def toBytes : ℕ → ℕ → List (BitVec 8)
  | 0, _ => []
  | k + 1, n => BitVec.ofNat 8 n :: toBytes k (n / 256)

def ofBytes : List (BitVec 8) → ℕ
  | [] => 0
  | b :: bs => b.toNat + 256 * ofBytes bs

@[simp] theorem length_toBytes (k n : ℕ) : (toBytes k n).length = k := by
  induction k generalizing n with
  | zero => rfl
  | succ k ih => rw [toBytes, List.length_cons, ih]

theorem ofBytes_toBytes (k n : ℕ) : ofBytes (toBytes k n) = n % 256 ^ k := by
  induction k generalizing n with
  | zero => simp [toBytes, ofBytes, Nat.mod_one]
  | succ k ih =>
    rw [toBytes, ofBytes, ih, BitVec.toNat_ofNat, pow_succ' 256 k, Nat.mod_mul]

theorem ofBytes_lt (bs : List (BitVec 8)) : ofBytes bs < 256 ^ bs.length := by
  induction bs with
  | nil => simp [ofBytes]
  | cons b bs ih =>
    have hb : b.toNat < 256 := b.isLt
    rw [ofBytes, List.length_cons, pow_succ]
    omega

theorem ofBytes_append (bs cs : List (BitVec 8)) :
    ofBytes (bs ++ cs) = ofBytes bs + 256 ^ bs.length * ofBytes cs := by
  induction bs with
  | nil => simp [ofBytes]
  | cons b bs ih =>
    rw [List.cons_append, ofBytes, ih, ofBytes, List.length_cons, pow_succ]
    ring

theorem toBytes_ofBytes (bs : List (BitVec 8)) : toBytes bs.length (ofBytes bs) = bs := by
  induction bs with
  | nil => rfl
  | cons b bs ih =>
    have hb : b.toNat < 256 := b.isLt
    rw [List.length_cons, ofBytes, toBytes, show (b.toNat + 256 * ofBytes bs) / 256 = ofBytes bs by omega,
      ih]
    congr 1
    apply BitVec.eq_of_toNat_eq
    rw [BitVec.toNat_ofNat]
    omega

end Wasrisc.LittleEndian
