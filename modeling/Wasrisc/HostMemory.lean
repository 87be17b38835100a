import Wasrisc.AddressedMemory
import Wasrisc.LittleEndian

namespace Wasrisc.HostMemory

open AddressedMemory LittleEndian

abbrev U8 := BitVec 8
abbrev U32 := BitVec 32
abbrev U64 := BitVec 64
abbrev SizeT := BitVec 64

abbrev CInt := BitVec 32

abbrev Ram := U64 → U8

def load32 (ram : Ram) (a : U64) : U32 := BitVec.ofNat 32 (ofBytes (read ram a 4))

def load64 (ram : Ram) (a : U64) : U64 := BitVec.ofNat 64 (ofBytes (read ram a 8))

def store32 (ram : Ram) (a : U64) (v : U32) : Ram := write ram a (toBytes 4 v.toNat)

def store64 (ram : Ram) (a : U64) (v : U64) : Ram := write ram a (toBytes 8 v.toNat)

theorem mul_eq_ofNat (a b : U64) : a * b = BitVec.ofNat 64 (a.toNat * b.toNat) := by
  rw [BitVec.ofNat_mul, BitVec.ofNat_toNat, BitVec.ofNat_toNat, BitVec.setWidth_eq,
    BitVec.setWidth_eq]

theorem setWidth_ofNat {i : ℕ} (hi : i < 2 ^ 32) :
    (BitVec.ofNat 32 i).setWidth 64 = BitVec.ofNat 64 i := by
  apply BitVec.eq_of_toNat_eq
  rw [BitVec.toNat_setWidth, BitVec.toNat_ofNat, BitVec.toNat_ofNat]
  omega

theorem signExtend_ofNat {i : ℕ} (hi : i < 2 ^ 31) :
    (BitVec.ofNat 32 i).signExtend 64 = BitVec.ofNat 64 i := by
  have hmsb : (BitVec.ofNat 32 i).msb = false := by
    rw [BitVec.msb_eq_decide, BitVec.toNat_ofNat]
    simp only [decide_eq_false_iff_not]
    omega
  rw [BitVec.signExtend_eq_setWidth_of_msb_false hmsb, setWidth_ofNat (by omega)]

theorem toInt_ofNat {i : ℕ} (hi : i < 2 ^ 31) : (BitVec.ofNat 32 i).toInt = i := by
  rw [BitVec.toInt_eq_toNat_of_lt, BitVec.toNat_ofNat, Nat.mod_eq_of_lt (by omega)]
  rw [BitVec.toNat_ofNat]
  omega

theorem load32_store32_same (ram : Ram) (a : U64) (v : U32) : load32 (store32 ram a v) a = v := by
  rw [load32, store32, read_write_same (by simp) (by simp), ofBytes_toBytes]
  have hv := v.isLt
  apply BitVec.eq_of_toNat_eq
  rw [BitVec.toNat_ofNat]
  omega

theorem toBytes_load32 (ram : Ram) (a : U64) : toBytes 4 (load32 ram a).toNat = read ram a 4 := by
  have hlength := length_read ram a 4
  have hlt := ofBytes_lt (read ram a 4)
  have hbytes := toBytes_ofBytes (read ram a 4)
  rw [hlength] at hlt hbytes
  rw [load32, BitVec.toNat_ofNat, Nat.mod_eq_of_lt (by omega), hbytes]

theorem load64_store64_same (ram : Ram) (a : U64) (v : U64) : load64 (store64 ram a v) a = v := by
  rw [load64, store64, read_write_same (by simp) (by simp), ofBytes_toBytes]
  have hv := v.isLt
  apply BitVec.eq_of_toNat_eq
  rw [BitVec.toNat_ofNat]
  omega

theorem load32_congr {ram ram' : Ram} {a : U64} (h : Set.EqOn ram ram' (span a 4)) :
    load32 ram a = load32 ram' a := by
  rw [load32, load32, read_congr h]

theorem store32_of_notMem {ram : Ram} {a b : U64} {v : U32} (h : b ∉ span a 4) :
    store32 ram a v b = ram b :=
  write_of_notMem (by simpa using h)

theorem store64_of_notMem {ram : Ram} {a b : U64} {v : U64} (h : b ∉ span a 8) :
    store64 ram a v b = ram b :=
  write_of_notMem (by simpa using h)

theorem load32_store32_of_disjoint {ram : Ram} {a b : U64} {v : U32}
    (h : Disjoint (span b 4) (span a 4)) : load32 (store32 ram b v) a = load32 ram a :=
  load32_congr fun _ hc => store32_of_notMem (Set.disjoint_right.mp h hc)

theorem store32_offset {ram ram' : Ram} {a : U64} {v : U32} {i : ℕ} (hi : i < 4) :
    store32 ram a v (a + BitVec.ofNat 64 i) = store32 ram' a v (a + BitVec.ofNat 64 i) := by
  rw [store32, store32, write_offset (by simpa using hi) (by omega),
    write_offset (by simpa using hi) (by omega)]

theorem store64_offset {ram ram' : Ram} {a : U64} {v : U64} {i : ℕ} (hi : i < 8) :
    store64 ram a v (a + BitVec.ofNat 64 i) = store64 ram' a v (a + BitVec.ofNat 64 i) := by
  rw [store64, store64, write_offset (by simpa using hi) (by omega),
    write_offset (by simpa using hi) (by omega)]

end Wasrisc.HostMemory
