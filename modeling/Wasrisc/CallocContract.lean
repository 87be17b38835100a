import Wasrisc.HeapBlocks

namespace Wasrisc.CallocContract

open HostMemory Memlib HeapBlocks

/-- `NULL`, or room in the heap for the whole product, aligned when the element size is. -/
def CallocMeets (W : W2c2Base) (m : Machine) (nmemb size : SizeT) : Prop :=
  let p := (calloc W nmemb size m).1
  p = 0 ∨ ((8 ∣ size.toNat → 8 ∣ p.toNat) ∧ (Block.mk p (nmemb.toNat * size.toNat)).InHeap)

def ReallocMeets (W : W2c2Base) (m : Machine) (ptr : U64) (size : SizeT) : Prop :=
  let p := (realloc W ptr size m).1
  p = 0 ∨ (p = ptr ∧ (Block.mk p size.toNat).InHeap)

def CallocFits (W : W2c2Base) (nmemb size : SizeT) : Prop :=
  match allocType W size with
  | .wasmMemoryStructAlloc => nmemb.toNat * size.toNat ≤ heapSize.toNat
  | .wasmMemoryDataAlloc => LimitExact W nmemb.toNat
  | .wasmFunctionTableAlloc => ¬ 8 ∣ size.toNat ∧
    -- the second case is the one product for which the subtraction yields `NULL`
    (nmemb.toNat * size.toNat < heapSize.toNat ∨ nmemb.toNat * size.toNat % 2 ^ 64 = 0xBFFFFFFF)

theorem allocType_eq_struct {W : W2c2Base} {size : SizeT}
    (h : allocType W size = .wasmMemoryStructAlloc) : size = BitVec.ofNat 64 W.sizeofWasmMemory := by
  unfold allocType at h
  split_ifs at h with hstruct
  exact hstruct

theorem allocType_eq_data {W : W2c2Base} {size : SizeT}
    (h : allocType W size = .wasmMemoryDataAlloc) : size = 1 := by
  unfold allocType at h
  split_ifs at h with hstruct hone
  exact hone

theorem allocType_eq_table {W : W2c2Base} {size : SizeT}
    (h : allocType W size = .wasmFunctionTableAlloc) :
    size ≠ 1 ∧ size ≠ BitVec.ofNat 64 W.sizeofWasmMemory := by
  unfold allocType at h
  split_ifs at h with hstruct hone
  exact ⟨hone, hstruct⟩

theorem limitExact_of_refused {W : W2c2Base} {size : SizeT} (h : ¬ memoryDataSizeOk W size = true) :
    LimitExact W size.toNat := by
  have hpage := W.within_page
  have hsize := size.isLt
  rw [memoryDataSizeOk_iff] at h
  rw [limitExact_iff]
  omega

theorem struct_meets_iff (W : W2c2Base) (m : Machine) (nmemb : SizeT) :
    CallocMeets W m nmemb (BitVec.ofNat 64 W.sizeofWasmMemory) ↔
      nmemb.toNat * (BitVec.ofNat 64 W.sizeofWasmMemory).toNat ≤ heapSize.toNat := by
  have hne : heapStart.setWidth 64 ≠ (0 : U64) := by decide
  unfold CallocMeets
  simp only [calloc_struct, inHeap_iff, hne, heapStart_toNat, heapSize_toNat, false_or, le_refl,
    true_and]
  omega

theorem dataBlock_ne_zero (W : W2c2Base) (size : ℕ) : (dataBlock W size).base ≠ 0 := by
  intro hzero
  have hbase := dataBlock_base W size
  rw [hzero, show (0 : U64).toNat = 0 from rfl] at hbase
  omega

theorem data_meets_iff (W : W2c2Base) (m : Machine) (nmemb : SizeT) :
    CallocMeets W m nmemb 1 ↔ LimitExact W nmemb.toNat := by
  have hone : (1 : SizeT).toNat = 1 := rfl
  unfold CallocMeets
  simp only [calloc_data, hone, mul_one, show ¬ 8 ∣ 1 by decide, false_implies, true_and]
  by_cases hok : memoryDataSizeOk W nmemb = true
  · rw [if_pos hok, ← dataBlock_inHeap_iff ((memoryDataSizeOk_iff W nmemb).mp hok)]
    exact or_iff_right (dataBlock_ne_zero W nmemb.toNat)
  · rw [if_neg hok]
    exact ⟨fun _ => limitExact_of_refused hok, fun _ => .inl rfl⟩

theorem realloc_meets_iff (W : W2c2Base) (m : Machine) (bytes : ℕ) (size : SizeT) :
    ReallocMeets W m (dataBlock W bytes).base size ↔ LimitExact W size.toNat := by
  unfold ReallocMeets
  simp only [realloc_ptr]
  by_cases hok : memoryDataSizeOk W size = true
  · rw [if_pos hok, ← dataBlock_inHeap_iff ((memoryDataSizeOk_iff W size).mp hok)]
    simp only [true_and]
    exact or_iff_right (dataBlock_ne_zero W bytes)
  · rw [if_neg hok]
    exact ⟨fun _ => limitExact_of_refused hok, fun _ => .inl rfl⟩

theorem tableBlock_toNat (size : ℕ) :
    (tableBlock size).base.toNat = (2 ^ 64 + 0xBFFFFFFF - size % 2 ^ 64) % 2 ^ 64 := by
  have hend := heapEnd_toNat
  unfold tableBlock
  rw [BitVec.toNat_sub, BitVec.toNat_sub, hend, BitVec.toNat_ofNat, show (1 : U64).toNat = 1 from rfl]
  omega

theorem tableBlock_eq_zero_iff (size : ℕ) :
    (tableBlock size).base = 0 ↔ size % 2 ^ 64 = 0xBFFFFFFF := by
  have hbase := tableBlock_toNat size
  rw [← BitVec.toNat_inj, hbase, show (0 : U64).toNat = 0 from rfl]
  omega

theorem tableBlock_not_aligned {size : ℕ} (h : 8 ∣ size) : ¬ 8 ∣ (tableBlock size).base.toNat := by
  rw [tableBlock_toNat]
  omega

theorem calloc_tableBlock {W : W2c2Base} {n e : SizeT}
    (h : allocType W e = .wasmFunctionTableAlloc) (m : Machine) :
    (calloc W n e m).1 = (tableBlock (n.toNat * e.toNat)).base := by
  obtain ⟨hone, hstruct⟩ := allocType_eq_table h
  rw [calloc_table W n e m hone hstruct, mul_eq_ofNat]
  rfl

theorem table_meets_iff {W : W2c2Base} {n e : SizeT} (h : allocType W e = .wasmFunctionTableAlloc)
    (m : Machine) : CallocMeets W m n e ↔ ¬ 8 ∣ e.toNat ∧
      (n.toNat * e.toNat < heapSize.toNat ∨ n.toNat * e.toNat % 2 ^ 64 = 0xBFFFFFFF) := by
  unfold CallocMeets
  simp only [calloc_tableBlock h]
  rw [show Block.mk (tableBlock (n.toNat * e.toNat)).base (n.toNat * e.toNat) =
    tableBlock (n.toNat * e.toNat) from rfl, tableBlock_inHeap_iff, tableBlock_eq_zero_iff]
  constructor
  · rintro (hzero | ⟨haligned, hroom⟩)
    · refine ⟨fun hdvd => ?_, .inr hzero⟩
      have hproduct := Dvd.dvd.mul_left hdvd n.toNat
      omega
    · refine ⟨fun hdvd => ?_, .inl hroom⟩
      exact tableBlock_not_aligned (Dvd.dvd.mul_left hdvd n.toNat) (haligned hdvd)
  · rintro ⟨hdvd, hroom | hzero⟩
    · exact .inr ⟨fun h => absurd h hdvd, hroom⟩
    · exact .inl hzero

theorem calloc_meets_iff (W : W2c2Base) (m : Machine) (nmemb size : SizeT) :
    CallocMeets W m nmemb size ↔ CallocFits W nmemb size := by
  unfold CallocFits
  cases hroute : allocType W size with
  | wasmMemoryStructAlloc =>
    obtain rfl := allocType_eq_struct hroute
    apply struct_meets_iff
  | wasmMemoryDataAlloc =>
    obtain rfl := allocType_eq_data hroute
    apply data_meets_iff
  | wasmFunctionTableAlloc => exact table_meets_iff hroute m

theorem alloc_contract_iff (W : W2c2Base) (m : Machine) (nmemb size : SizeT) (bytes : ℕ)
    (newSize : SizeT) :
    (CallocMeets W m nmemb size ↔ CallocFits W nmemb size) ∧
      (ReallocMeets W m (dataBlock W bytes).base newSize ↔ LimitExact W newSize.toNat) := by
  constructor
  · apply calloc_meets_iff
  · apply realloc_meets_iff

theorem calloc_misaligns :
    ¬ ∀ (W : W2c2Base) (m : Machine) (nmemb size : SizeT), CallocMeets W m nmemb size := by
  intro hmeets
  have hvalue : (calloc smallBase 100 8 blankMachine).1 = 0xBFFFFCDF := by decide
  rcases hmeets smallBase blankMachine 100 8 with hnull | ⟨haligned, -⟩
  · rw [hvalue] at hnull
    exact absurd hnull (by decide)
  · rw [hvalue] at haligned
    exact absurd (haligned (by decide)) (by decide)

end Wasrisc.CallocContract
