import Mathlib

namespace Wasrisc.AddressedMemory

variable {w : ℕ} {β : Type*}

/-- The `n` addresses from `b` on, wrapping around at the end of the address space. -/
def span (b : BitVec w) (n : ℕ) : Set (BitVec w) := {a | (a - b).toNat < n}

instance (b : BitVec w) (n : ℕ) (a : BitVec w) : Decidable (a ∈ span b n) :=
  inferInstanceAs (Decidable ((a - b).toNat < n))

def write (m : BitVec w → β) (b : BitVec w) (vs : List β) : BitVec w → β :=
  fun a => (vs[(a - b).toNat]?).getD (m a)

def fill (m : BitVec w → β) (b : BitVec w) (n : ℕ) (v : β) : BitVec w → β :=
  fun a => if (a - b).toNat < n then v else m a

def read (m : BitVec w → β) (b : BitVec w) (n : ℕ) : List β :=
  (List.range n).map fun i => m (b + BitVec.ofNat w i)

theorem mem_span {b a : BitVec w} {n : ℕ} : a ∈ span b n ↔ (a - b).toNat < n := Iff.rfl

theorem add_mem_span {b : BitVec w} {i n : ℕ} (hi : i < n) : b + BitVec.ofNat w i ∈ span b n := by
  rw [mem_span, show b + BitVec.ofNat w i - b = BitVec.ofNat w i by
    rw [BitVec.add_comm, BitVec.add_sub_cancel], BitVec.toNat_ofNat]
  exact (Nat.mod_le _ _).trans_lt hi

theorem mem_span_iff_of_le {b a : BitVec w} {n : ℕ} (hb : b.toNat + n ≤ 2 ^ w) :
    a ∈ span b n ↔ b.toNat ≤ a.toNat ∧ a.toNat < b.toNat + n := by
  have ha := a.isLt
  have hbl := b.isLt
  rw [mem_span, BitVec.toNat_sub]
  rcases Nat.lt_or_ge a.toNat b.toNat with h | h
  · rw [Nat.mod_eq_of_lt (by omega)]; omega
  · rw [show 2 ^ w - b.toNat + a.toNat = (a.toNat - b.toNat) + 2 ^ w by omega, Nat.add_mod_right,
      Nat.mod_eq_of_lt (by omega)]
    omega

theorem offset_of_mem_span {b a : BitVec w} {n : ℕ} (h : a ∈ span b n) :
    ∃ i < n, a = b + BitVec.ofNat w i := by
  refine ⟨(a - b).toNat, h, ?_⟩
  rw [BitVec.ofNat_toNat, BitVec.setWidth_eq, BitVec.add_comm, BitVec.sub_add_cancel]

theorem offset_toNat {b : BitVec w} {i : ℕ} (hi : i < 2 ^ w) :
    (b + BitVec.ofNat w i - b).toNat = i := by
  rw [BitVec.add_comm, BitVec.add_sub_cancel, BitVec.toNat_ofNat, Nat.mod_eq_of_lt hi]

theorem add_toNat {b : BitVec w} {i : ℕ} (hi : b.toNat + i < 2 ^ w) :
    (b + BitVec.ofNat w i).toNat = b.toNat + i := by
  rw [BitVec.toNat_add, BitVec.toNat_ofNat, Nat.add_mod_mod, Nat.mod_eq_of_lt hi]

theorem write_of_notMem {m : BitVec w → β} {b a : BitVec w} {vs : List β}
    (h : a ∉ span b vs.length) : write m b vs a = m a := by
  rw [write, List.getElem?_eq_none (Nat.le_of_not_lt h), Option.getD_none]

theorem write_offset {m : BitVec w → β} {b : BitVec w} {vs : List β} {i : ℕ}
    (hi : i < vs.length) (hw : i < 2 ^ w) : write m b vs (b + BitVec.ofNat w i) = vs[i] := by
  rw [write, offset_toNat hw, List.getElem?_eq_getElem hi, Option.getD_some]

theorem fill_of_mem {m : BitVec w → β} {b a : BitVec w} {n : ℕ} {v : β} (h : a ∈ span b n) :
    fill m b n v a = v := if_pos h

theorem fill_of_notMem {m : BitVec w → β} {b a : BitVec w} {n : ℕ} {v : β} (h : a ∉ span b n) :
    fill m b n v a = m a := if_neg h

theorem fill_eq_self_iff {m : BitVec w → β} {b : BitVec w} {n : ℕ} {v : β} :
    fill m b n v = m ↔ ∀ a ∈ span b n, m a = v := by
  constructor
  · intro h a ha
    rw [← h, fill_of_mem ha]
  · intro h
    funext a
    by_cases ha : a ∈ span b n
    · rw [fill_of_mem ha, h a ha]
    · rw [fill_of_notMem ha]

theorem read_congr {m m' : BitVec w → β} {b : BitVec w} {n : ℕ}
    (h : Set.EqOn m m' (span b n)) : read m b n = read m' b n := by
  apply List.map_congr_left
  intro i hi
  exact h (add_mem_span (List.mem_range.mp hi))

theorem length_read (m : BitVec w → β) (b : BitVec w) (n : ℕ) : (read m b n).length = n := by
  simp [read]

theorem read_add (m : BitVec w → β) (b : BitVec w) (n k : ℕ) :
    read m b (n + k) = read m b n ++ read m (b + BitVec.ofNat w n) k := by
  simp only [read, List.range_add, List.map_append, List.map_map]
  congr 1
  apply List.map_congr_left
  intro i _
  simp only [Function.comp_apply, BitVec.ofNat_add, BitVec.add_assoc]

theorem flatMap_read (m : BitVec w → β) (b : BitVec w) (k n : ℕ) :
    ((List.range n).flatMap fun i => read m (b + BitVec.ofNat w (k * i)) k) = read m b (k * n) := by
  induction n with
  | zero => rfl
  | succ n ih =>
    rw [List.range_succ, List.flatMap_append, ih, Nat.mul_succ, read_add]
    simp

theorem take_read {m : BitVec w → β} {b : BitVec w} {n k : ℕ} (h : n ≤ k) :
    (read m b k).take n = read m b n := by
  rw [show k = n + (k - n) by omega, read_add]
  apply List.take_left'
  exact length_read m b n

theorem read_write_same {m : BitVec w → β} {b : BitVec w} {vs : List β} {n : ℕ}
    (hn : n = vs.length) (hw : vs.length ≤ 2 ^ w) : read (write m b vs) b n = vs := by
  subst hn
  apply List.ext_getElem (length_read _ _ _)
  intro i hi hi'
  simp only [read, List.getElem_map, List.getElem_range]
  exact write_offset hi' (by omega)

theorem span_disjoint_of_le {b c : BitVec w} {n k : ℕ} (hb : b.toNat + n ≤ 2 ^ w)
    (hc : c.toNat + k ≤ 2 ^ w) (h : b.toNat + n ≤ c.toNat ∨ c.toNat + k ≤ b.toNat) :
    Disjoint (span b n) (span c k) := by
  rw [Set.disjoint_left]
  intro a ha hac
  rw [mem_span_iff_of_le hb] at ha
  rw [mem_span_iff_of_le hc] at hac
  omega

end Wasrisc.AddressedMemory
