import Wasrisc.HostMemory

namespace Wasrisc.Zkvm

open AddressedMemory HostMemory

def outputAddr : U32 := 0xa0010000
def ramStart : U32 := 0xa0020000
def ramSize : U32 := 0x1FFE0000

structure Symbols where
  outputCount : U64
  in_ram : ramStart.toNat ≤ outputCount.toNat ∧
    outputCount.toNat + 4 ≤ ramStart.toNat + ramSize.toNat

def firstWord : Symbols := ⟨0xa0020000, by decide⟩

/-- `stores` are the addresses of the words written through the pointers of `printk`. -/
structure Machine where
  ram : Ram
  stores : List U64

namespace Machine

def store (m : Machine) (a : U64) (v : U32) : Machine := ⟨store32 m.ram a v, a :: m.stores⟩

def outputCount (S : Symbols) (m : Machine) : CInt := load32 m.ram S.outputCount

def setOutputCount (S : Symbols) (m : Machine) (n : CInt) : Machine :=
  { m with ram := store32 m.ram S.outputCount n }

end Machine

def ptrCount : U64 := outputAddr.setWidth 64

def ptrVal (outputCount : CInt) : U64 := (outputAddr + 4 + 4 * (outputCount - 1)).setWidth 64

def printk (S : Symbols) (val : U32) (m : Machine) : Machine :=
  let m := m.setOutputCount S (m.outputCount S + 1)
  let m := m.store ptrCount (m.outputCount S)
  m.store (ptrVal (m.outputCount S)) val

def testmodulePrintk (S : Symbols) (m : Machine) (val : U32) : Machine := printk S val m

def capacity : ℕ := 16383

def wordAddress (i : ℕ) : U64 := BitVec.ofNat 64 (0xa0010004 + 4 * i)

theorem wordAddress_toNat {i : ℕ} (hi : i ≤ capacity) :
    (wordAddress i).toNat = 0xa0010004 + 4 * i := by
  have hcapacity : capacity = 16383 := rfl
  rw [wordAddress, BitVec.toNat_ofNat]
  omega

theorem ptrVal_eq {i : ℕ} (hi : i ≤ capacity) : ptrVal (BitVec.ofNat 32 (i + 1)) = wordAddress i := by
  have hcapacity : capacity = 16383 := rfl
  apply BitVec.eq_of_toNat_eq
  rw [wordAddress_toNat hi, ptrVal, BitVec.toNat_setWidth, BitVec.toNat_add, BitVec.toNat_mul,
    BitVec.toNat_sub, BitVec.toNat_ofNat, show (outputAddr + 4).toNat = 0xa0010004 from rfl,
    show (4 : U32).toNat = 4 from rfl, show (1 : CInt).toNat = 1 from rfl]
  omega

theorem ptrCount_disjoint (S : Symbols) : Disjoint (span ptrCount 4) (span S.outputCount 4) := by
  have hram : 0xa0020000 ≤ S.outputCount.toNat := S.in_ram.1
  have hend : S.outputCount.toNat + 4 ≤ 0xa0020000 + 0x1FFE0000 := S.in_ram.2
  have hcount : ptrCount.toNat = 0xa0010000 := rfl
  exact span_disjoint_of_le (by omega) (by omega) (.inl (by omega))

theorem wordAddress_disjoint (S : Symbols) {i : ℕ} (hi : i < capacity) :
    Disjoint (span (wordAddress i) 4) (span S.outputCount 4) := by
  have hram : 0xa0020000 ≤ S.outputCount.toNat := S.in_ram.1
  have hend : S.outputCount.toNat + 4 ≤ 0xa0020000 + 0x1FFE0000 := S.in_ram.2
  have hcapacity : capacity = 16383 := rfl
  have hword := wordAddress_toNat hi.le
  exact span_disjoint_of_le (by omega) (by omega) (.inl (by omega))

theorem ptrCount_disjoint_wordAddress {i : ℕ} (hi : i < capacity) :
    Disjoint (span (wordAddress i) 4) (span ptrCount 4) := by
  have hcapacity : capacity = 16383 := rfl
  have hword := wordAddress_toNat hi.le
  have hcount : ptrCount.toNat = 0xa0010000 := rfl
  exact span_disjoint_of_le (by omega) (by omega) (.inr (by omega))

theorem wordAddress_disjoint_of_ne {i j : ℕ} (hi : i < capacity) (hj : j < capacity) (h : i ≠ j) :
    Disjoint (span (wordAddress i) 4) (span (wordAddress j) 4) := by
  have hcapacity : capacity = 16383 := rfl
  have hwi := wordAddress_toNat hi.le
  have hwj := wordAddress_toNat hj.le
  exact span_disjoint_of_le (by omega) (by omega) (by omega)

def printed (S : Symbols) (ram : Ram) (k : ℕ) (val : U32) : Ram :=
  store32 (store32 (store32 ram S.outputCount (BitVec.ofNat 32 (k + 1))) ptrCount
    (BitVec.ofNat 32 (k + 1))) (wordAddress k) val

theorem printk_eq (S : Symbols) {m : Machine} {k : ℕ} (hcount : m.outputCount S = BitVec.ofNat 32 k)
    (hk : k ≤ capacity) (val : U32) :
    printk S val m = ⟨printed S m.ram k val, wordAddress k :: ptrCount :: m.stores⟩ := by
  have hsucc : load32 m.ram S.outputCount + 1 = BitVec.ofNat 32 (k + 1) := by
    rw [show load32 m.ram S.outputCount = BitVec.ofNat 32 k from hcount]
    exact (BitVec.ofNat_add k 1).symm
  have hkept : load32 (store32 (store32 m.ram S.outputCount (BitVec.ofNat 32 (k + 1))) ptrCount
      (BitVec.ofNat 32 (k + 1))) S.outputCount = BitVec.ofNat 32 (k + 1) := by
    rw [load32_store32_of_disjoint (ptrCount_disjoint S), load32_store32_same]
  simp only [printk, hsucc, Machine.setOutputCount, Machine.store, Machine.outputCount,
    load32_store32_same, hkept, ptrVal_eq hk, printed]

theorem outputCount_printk (S : Symbols) {m : Machine} {k : ℕ}
    (hcount : m.outputCount S = BitVec.ofNat 32 k) (hk : k < capacity) (val : U32) :
    (printk S val m).outputCount S = BitVec.ofNat 32 (k + 1) := by
  rw [printk_eq S hcount hk.le, Machine.outputCount, printed,
    load32_store32_of_disjoint (wordAddress_disjoint S hk),
    load32_store32_of_disjoint (ptrCount_disjoint S), load32_store32_same]

end Wasrisc.Zkvm
