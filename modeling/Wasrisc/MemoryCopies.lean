import Wasrisc.WordBytes

namespace Wasrisc.MemoryCopies

open AddressedMemory HostMemory LittleEndian MemoryWindows WordBytes

/-- The memory `m` with the bytes `lo`, …, `hi - 1` of the range at `dst` those of the range at
`src`, as `m` has them. -/
def moved (m : Ram) (dst src : U64) (lo hi : ℕ) : Ram :=
  overwrite m dst lo hi fun i => m (src + BitVec.ofNat 64 i)

variable {m : Ram} {dst src : U64} {n k j : ℕ}

theorem moved_empty : moved m dst src k k = m := overwrite_empty le_rfl

theorem moved_eq_write : moved m dst src 0 n = write m dst (read m src n) := by
  funext a
  have hlen := length_read m src n
  by_cases h : (a - dst).toNat < n
  · rw [moved, overwrite, if_pos ⟨Nat.zero_le _, h⟩, write, List.getElem?_eq_getElem (by omega),
      Option.getD_some, getElem_read]
  · rw [moved, overwrite_of_le (by omega), write, List.getElem?_eq_none (by omega), Option.getD_none]

section Forward

def ForwardSafe (dst src : U64) (n : ℕ) : Prop := (src - dst).toNat + n ≤ 2 ^ 64

theorem ForwardSafe.offset (h : ForwardSafe dst src n) {i : ℕ} (hi : i < n) :
    i ≤ (src + BitVec.ofNat 64 i - dst).toNat := by
  unfold ForwardSafe at h
  have hoff : src + BitVec.ofNat 64 i - dst = (src - dst) + BitVec.ofNat 64 i := by ring
  rw [hoff, add_toNat (by omega)]
  omega

theorem read_moved_up (h : ForwardSafe dst src n) {l : ℕ} (hj : k ≤ j) (hl : j + l ≤ n) :
    read (moved m dst src 0 k) (src + BitVec.ofNat 64 j) l =
      read m (src + BitVec.ofNat 64 j) l := by
  apply read_overwrite
  intro i hi
  have hoff := h.offset (show j + i < n by omega)
  rw [BitVec.add_assoc, ← BitVec.ofNat_add]
  omega

theorem load64_moved_up (h : ForwardSafe dst src n) (hj : k ≤ j) (hl : j + 8 ≤ n) :
    load64 (moved m dst src 0 k) (src + BitVec.ofNat 64 j) = load64 m (src + BitVec.ofNat 64 j) := by
  rw [load64, load64, read_moved_up h hj hl]

theorem moved_up_apply (h : ForwardSafe dst src n) (hk : k < n) :
    moved m dst src 0 k (src + BitVec.ofNat 64 k) = m (src + BitVec.ofNat 64 k) :=
  overwrite_of_le (h.offset hk)

theorem write_moved_up (hk : k < 2 ^ 64) :
    write (moved m dst src 0 k) (dst + BitVec.ofNat 64 k) [m (src + BitVec.ofNat 64 k)] =
      moved m dst src 0 (k + 1) := by
  apply write_overwrite_up List.length_singleton (Nat.zero_le k) (by omega)
  intro i hi
  rw [List.length_singleton] at hi
  obtain rfl : i = 0 := by omega
  rfl

theorem store64_moved_up (hk : k + 8 ≤ 2 ^ 64) :
    store64 (moved m dst src 0 k) (dst + BitVec.ofNat 64 k) (load64 m (src + BitVec.ofNat 64 k)) =
      moved m dst src 0 (k + 8) := by
  rw [store64_load64]
  apply write_overwrite_up (length_read _ _ _) (Nat.zero_le k) hk
  intro i hi
  rw [getElem_read, BitVec.add_assoc, ← BitVec.ofNat_add]

end Forward

section Backward

def BackwardSafe (dst src : U64) (n : ℕ) : Prop := (dst - src).toNat + n ≤ 2 ^ 64

theorem BackwardSafe.offset (h : BackwardSafe dst src n) {i : ℕ} (hi : i < n) :
    (src + BitVec.ofNat 64 i - dst).toNat ≤ i ∨ n ≤ (src + BitVec.ofNat 64 i - dst).toNat := by
  unfold BackwardSafe at h
  have hlt := (dst - src).isLt
  have hoff : src + BitVec.ofNat 64 i - dst = BitVec.ofNat 64 i - (dst - src) := by ring
  rw [hoff, BitVec.toNat_sub, BitVec.toNat_ofNat, Nat.mod_eq_of_lt (a := i) (by omega)]
  omega

theorem read_moved_down (h : BackwardSafe dst src n) {l : ℕ} (hj : j + l ≤ k) (hk : k ≤ n) :
    read (moved m dst src k n) (src + BitVec.ofNat 64 j) l =
      read m (src + BitVec.ofNat 64 j) l := by
  apply read_overwrite
  intro i hi
  have hoff := h.offset (show j + i < n by omega)
  rw [BitVec.add_assoc, ← BitVec.ofNat_add]
  omega

theorem load64_moved_down (h : BackwardSafe dst src n) (hj : j + 8 ≤ k) (hk : k ≤ n) :
    load64 (moved m dst src k n) (src + BitVec.ofNat 64 j) = load64 m (src + BitVec.ofNat 64 j) := by
  rw [load64, load64, read_moved_down h hj hk]

theorem moved_down_apply (h : BackwardSafe dst src n) (hk : k < n) :
    moved m dst src (k + 1) n (src + BitVec.ofNat 64 k) = m (src + BitVec.ofNat 64 k) := by
  rcases h.offset hk with hle | hge
  · exact overwrite_of_lt (by omega)
  · exact overwrite_of_le hge

theorem write_moved_down (hk : k < n) (hn : n ≤ 2 ^ 64) :
    write (moved m dst src (k + 1) n) (dst + BitVec.ofNat 64 k) [m (src + BitVec.ofNat 64 k)] =
      moved m dst src k n := by
  apply write_overwrite_down List.length_singleton Nat.one_pos (by omega) hn
  intro i hi
  rw [List.length_singleton] at hi
  obtain rfl : i = 0 := by omega
  rfl

theorem write_moved_down_read {l : ℕ} (hl : 0 < l) (hk : k + l ≤ n) (hn : n ≤ 2 ^ 64) :
    write (moved m dst src (k + l) n) (dst + BitVec.ofNat 64 k) (read m (src + BitVec.ofNat 64 k) l) =
      moved m dst src k n := by
  apply write_overwrite_down (length_read _ _ _) hl hk hn
  intro i hi
  rw [getElem_read, BitVec.add_assoc, ← BitVec.ofNat_add]

theorem store64_moved_down (hk : k + 8 ≤ n) (hn : n ≤ 2 ^ 64) :
    store64 (moved m dst src (k + 8) n) (dst + BitVec.ofNat 64 k)
      (load64 m (src + BitVec.ofNat 64 k)) = moved m dst src k n := by
  rw [store64_load64, write_moved_down_read (by omega) hk hn]

end Backward

end Wasrisc.MemoryCopies
