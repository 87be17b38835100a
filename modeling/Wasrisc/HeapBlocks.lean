import Wasrisc.Memlib
import Wasrisc.Runs

namespace Wasrisc.HeapBlocks

open HostMemory Memlib Runs

structure Block where
  base : U64
  size : ℕ
  deriving DecidableEq

def Block.extent (b : Block) : Set ℕ := Set.Ico b.base.toNat (b.base.toNat + b.size)

def Block.InHeap (b : Block) : Prop :=
  heapStart.toNat ≤ b.base.toNat ∧ b.base.toNat + b.size ≤ heapStart.toNat + heapSize.toNat

structure Runtime where
  machine : Machine
  struct : Option Block
  table : Option Block
  data : Option Block

def boot (m : Machine) : Runtime := ⟨m, none, none, none⟩

inductive AllocCall where
  | callocStruct
  | callocTable (n e : SizeT)
  | callocData (bytes : SizeT)
  | reallocData (size : SizeT)
  deriving DecidableEq

/-- The next allocation call of the runtime. It is refused when it breaks the runtime's usage (a
second block of a kind, a table entry size that memlib.c takes for another kind, a `realloc` that
does not grow the linear memory) and when it returns `NULL`. -/
def allocStep (W : W2c2Base) (s : Runtime) : AllocCall → Option Runtime
  | .callocStruct =>
    let r := calloc W 1 (BitVec.ofNat 64 W.sizeofWasmMemory) s.machine
    if s.struct.isSome ∨ r.1 = 0 then none
    else some { s with machine := r.2, struct := some ⟨r.1, W.sizeofWasmMemory⟩ }
  | .callocTable n e =>
    let r := calloc W n e s.machine
    if s.table.isSome ∨ e = 1 ∨ e = BitVec.ofNat 64 W.sizeofWasmMemory ∨ r.1 = 0 then none
    else some { s with machine := r.2, table := some ⟨r.1, n.toNat * e.toNat⟩ }
  | .callocData bytes =>
    let r := calloc W bytes 1 s.machine
    if s.data.isSome ∨ r.1 = 0 then none
    else some { s with machine := r.2, data := some ⟨r.1, bytes.toNat⟩ }
  | .reallocData size =>
    match s.data with
    | none => none
    | some d =>
      let r := realloc W d.base size s.machine
      if size.toNat ≤ d.size ∨ r.1 = 0 then none
      else some { s with machine := r.2, data := some ⟨r.1, size.toNat⟩ }

structure Separated (s : Runtime) : Prop where
  struct_inHeap : ∀ b ∈ s.struct, b.InHeap
  table_inHeap : ∀ b ∈ s.table, b.InHeap
  data_inHeap : ∀ b ∈ s.data, b.InHeap
  struct_table : ∀ b ∈ s.struct, ∀ t ∈ s.table, Disjoint b.extent t.extent
  struct_data : ∀ b ∈ s.struct, ∀ d ∈ s.data, Disjoint b.extent d.extent
  table_data : ∀ t ∈ s.table, ∀ d ∈ s.data, Disjoint t.extent d.extent

def LimitExact (W : W2c2Base) (size : ℕ) : Prop :=
  heapStart.toNat + W.sizeofWasmMemory + wasmFunctionTableBufSize.toNat + size < 2 ^ 64

/-- The sizes requested so far and by `c` add up to at most the heap, with one byte lost below the
heap's end to the table, and the limit check of the linear memory is exact. -/
def Fits (W : W2c2Base) (s : Runtime) : AllocCall → Prop
  | .callocStruct => ∀ t ∈ s.table, W.sizeofWasmMemory + t.size + 1 ≤ heapSize.toNat
  | .callocTable n e =>
    n.toNat * e.toNat + 1 ≤ heapSize.toNat ∧
      (s.struct.isSome → W.sizeofWasmMemory + n.toNat * e.toNat + 1 ≤ heapSize.toNat) ∧
      ∀ d ∈ s.data, d.size ≠ 0 →
        W.sizeofWasmMemory + d.size + n.toNat * e.toNat + 1 ≤ heapSize.toNat
  | .callocData size | .reallocData size =>
    LimitExact W size.toNat ∧ ∀ t ∈ s.table, size.toNat ≠ 0 →
      W.sizeofWasmMemory + size.toNat + t.size + 1 ≤ heapSize.toNat

def structBlock (W : W2c2Base) : Block := ⟨heapStart.setWidth 64, W.sizeofWasmMemory⟩

def tableBlock (size : ℕ) : Block :=
  ⟨(heapStart + heapSize).setWidth 64 - BitVec.ofNat 64 size - 1, size⟩

def dataBlock (W : W2c2Base) (size : ℕ) : Block :=
  ⟨(heapStart + wasmMemoryStructBufSize W).setWidth 64, size⟩

structure Placed (W : W2c2Base) (s : Runtime) : Prop where
  struct : ∀ b ∈ s.struct, b = structBlock W
  table : ∀ t ∈ s.table, t = tableBlock t.size
  data : ∀ d ∈ s.data, d = dataBlock W d.size ∧
    (0xa1120000 + W.sizeofWasmMemory + d.size) % 2 ^ 64 ≤ 0xC0000000

theorem placed_boot (W : W2c2Base) (m : Machine) : Placed W (boot m) where
  struct b hb := by simp [boot] at hb
  table t ht := by simp [boot] at ht
  data d hd := by simp [boot] at hd

theorem separated_boot (m : Machine) : Separated (boot m) where
  struct_inHeap b hb := by simp [boot] at hb
  table_inHeap t ht := by simp [boot] at ht
  data_inHeap d hd := by simp [boot] at hd
  struct_table b hb := by simp [boot] at hb
  struct_data b hb := by simp [boot] at hb
  table_data t ht := by simp [boot] at ht

theorem allocStep_struct {W : W2c2Base} {s t : Runtime} (h : allocStep W s .callocStruct = some t) :
    s.struct = none ∧ ∃ m, m.ram = s.machine.ram ∧
      t = { s with machine := m, struct := some (structBlock W) } := by
  simp only [allocStep, calloc_struct] at h
  split_ifs at h with hc
  rw [not_or, Option.not_isSome_iff_eq_none] at hc
  exact ⟨hc.1, _, calloc_ram W _ _ _, (Option.some.inj h).symm⟩

theorem allocStep_table {W : W2c2Base} {s t : Runtime} {n e : SizeT}
    (h : allocStep W s (.callocTable n e) = some t) : s.table = none ∧
      ∃ m, m.ram = s.machine.ram ∧
        t = { s with machine := m, table := some (tableBlock (n.toNat * e.toNat)) } := by
  simp only [allocStep] at h
  split_ifs at h with hc
  simp only [not_or, Option.not_isSome_iff_eq_none] at hc
  obtain ⟨ht, he, hs, -⟩ := hc
  rw [calloc_table W n e _ he hs, mul_eq_ofNat] at h
  exact ⟨ht, _, calloc_ram W _ _ _, (Option.some.inj h).symm⟩

theorem allocStep_data {W : W2c2Base} {s t : Runtime} {bytes : SizeT}
    (h : allocStep W s (.callocData bytes) = some t) : s.data = none ∧
      memoryDataSizeOk W bytes = true ∧ ∃ m, m.ram = s.machine.ram ∧
        t = { s with machine := m, data := some (dataBlock W bytes.toNat) } := by
  simp only [allocStep, calloc_data] at h
  split_ifs at h with hok hc
  · simp only [not_or, Option.not_isSome_iff_eq_none] at hc
    exact ⟨hc.1, hok, _, calloc_ram W _ _ _, (Option.some.inj h).symm⟩
  · simp_all

theorem allocStep_realloc {W : W2c2Base} {s t : Runtime} {size : SizeT}
    (h : allocStep W s (.reallocData size) = some t) : ∃ d, s.data = some d ∧
      d.size < size.toNat ∧ memoryDataSizeOk W size = true ∧ ∃ m, m.ram = s.machine.ram ∧
        t = { s with machine := m, data := some ⟨d.base, size.toNat⟩ } := by
  rcases hd : s.data with _ | d
  · simp [allocStep, hd] at h
  · simp only [allocStep, hd, realloc_ptr] at h
    split_ifs at h with hok hc
    · rw [not_or, Nat.not_le] at hc
      exact ⟨d, rfl, hc.1, hok, _, realloc_ram W _ _ _, (Option.some.inj h).symm⟩
    · simp_all

theorem placed_step {W : W2c2Base} {s t : Runtime} {c : AllocCall} (hp : Placed W s)
    (h : allocStep W s c = some t) : Placed W t := by
  cases c with
  | callocStruct =>
    obtain ⟨-, m, -, rfl⟩ := allocStep_struct h
    exact { hp with struct := fun b hb => (Option.mem_some_iff.mp hb).symm }
  | callocTable n e =>
    obtain ⟨-, m, -, rfl⟩ := allocStep_table h
    refine { hp with table := fun t ht => ?_ }
    obtain rfl := Option.mem_some_iff.mp ht
    rfl
  | callocData bytes =>
    obtain ⟨-, hok, m, -, rfl⟩ := allocStep_data h
    refine { hp with data := fun d hd => ?_ }
    obtain rfl := Option.mem_some_iff.mp hd
    exact ⟨rfl, (memoryDataSizeOk_iff W bytes).mp hok⟩
  | reallocData size =>
    obtain ⟨d, hd, -, hok, m, -, rfl⟩ := allocStep_realloc h
    refine { hp with data := fun d' hd' => ?_ }
    obtain rfl := Option.mem_some_iff.mp hd'
    have hbase : d.base = (dataBlock W d.size).base := congrArg Block.base (hp.data d hd).1
    exact ⟨congrArg (Block.mk · size.toNat) hbase, (memoryDataSizeOk_iff W size).mp hok⟩

theorem alloc_run_ram {W : W2c2Base} {s t : Runtime} {calls : List AllocCall}
    (h : calls.foldlM (allocStep W) s = some t) : t.machine.ram = s.machine.ram := by
  refine run_invariant (P := fun u => u.machine.ram = s.machine.ram) (fun u c v hu hv => ?_) rfl h
  cases c with
  | callocStruct =>
    obtain ⟨-, m, hm, rfl⟩ := allocStep_struct hv
    exact hm.trans hu
  | callocTable n e =>
    obtain ⟨-, m, hm, rfl⟩ := allocStep_table hv
    exact hm.trans hu
  | callocData bytes =>
    obtain ⟨-, -, m, hm, rfl⟩ := allocStep_data hv
    exact hm.trans hu
  | reallocData size =>
    obtain ⟨-, -, -, -, m, hm, rfl⟩ := allocStep_realloc hv
    exact hm.trans hu

theorem inHeap_iff (b : Block) :
    b.InHeap ↔ 0xa1020000 ≤ b.base.toNat ∧ b.base.toNat + b.size ≤ 0xC0000000 := by
  have hs : heapStart.toNat = 0xa1020000 := by decide
  rw [Block.InHeap, hs, heapSize_toNat]

theorem disjoint_extent_iff (b c : Block) : Disjoint b.extent c.extent ↔
    b.size = 0 ∨ c.size = 0 ∨ b.base.toNat + b.size ≤ c.base.toNat ∨
      c.base.toNat + c.size ≤ b.base.toNat := by
  rw [Block.extent, Block.extent, Set.Ico_disjoint_Ico]
  omega

theorem structBlock_size (W : W2c2Base) : (structBlock W).size = W.sizeofWasmMemory := rfl

theorem tableBlock_size (size : ℕ) : (tableBlock size).size = size := rfl

theorem dataBlock_size (W : W2c2Base) (size : ℕ) : (dataBlock W size).size = size := rfl

theorem structBlock_base (W : W2c2Base) : (structBlock W).base.toNat = 0xa1020000 := heapStart_toNat

theorem dataBlock_base (W : W2c2Base) (size : ℕ) :
    (dataBlock W size).base.toNat = 0xa1020000 + W.sizeofWasmMemory := dataBase_toNat W

theorem tableBlock_base {size : ℕ} (h : size < 0xC0000000) :
    (tableBlock size).base.toNat = 0xBFFFFFFF - size := by
  have he := heapEnd_toNat
  rw [tableBlock, BitVec.toNat_sub, BitVec.toNat_sub, he, BitVec.toNat_ofNat,
    show (1 : U64).toNat = 1 from rfl]
  omega

theorem structBlock_inHeap (W : W2c2Base) : (structBlock W).InHeap := by
  have hw := W.within_page
  rw [inHeap_iff, structBlock_base, structBlock_size]
  omega

theorem tableBlock_inHeap_iff (size : ℕ) :
    (tableBlock size).InHeap ↔ size + 1 ≤ heapSize.toNat := by
  rw [inHeap_iff, heapSize_toNat, tableBlock_size]
  rcases Nat.lt_or_ge size 0xC0000000 with h | h
  · rw [tableBlock_base h]
    omega
  · omega

theorem limitExact_iff (W : W2c2Base) (size : ℕ) :
    LimitExact W size ↔ 0xa1120000 + W.sizeofWasmMemory + size < 2 ^ 64 := by
  have hs : heapStart.toNat = 0xa1020000 := by decide
  have ht : wasmFunctionTableBufSize.toNat = 0x100000 := by decide
  rw [LimitExact, hs, ht]
  omega

theorem dataBlock_inHeap_iff {W : W2c2Base} {size : ℕ}
    (hok : (0xa1120000 + W.sizeofWasmMemory + size) % 2 ^ 64 ≤ 0xC0000000) :
    (dataBlock W size).InHeap ↔ LimitExact W size := by
  have hw := W.within_page
  rw [inHeap_iff, dataBlock_base, dataBlock_size, limitExact_iff]
  omega

theorem struct_table_disjoint_iff {W : W2c2Base} {size : ℕ} (h : size + 1 ≤ heapSize.toNat) :
    Disjoint (structBlock W).extent (tableBlock size).extent ↔
      W.sizeofWasmMemory + size + 1 ≤ heapSize.toNat := by
  have hw := W.holds_pointer
  have hp := W.within_page
  rw [heapSize_toNat] at h ⊢
  rw [disjoint_extent_iff, structBlock_base, tableBlock_base (by omega), structBlock_size,
    tableBlock_size]
  omega

theorem struct_data_disjoint (W : W2c2Base) (size : ℕ) :
    Disjoint (structBlock W).extent (dataBlock W size).extent := by
  rw [disjoint_extent_iff, structBlock_base, dataBlock_base, structBlock_size]
  omega

theorem table_data_disjoint_iff {W : W2c2Base} {t d : ℕ} (ht : t + 1 ≤ heapSize.toNat)
    (hd : 0xa1120000 + W.sizeofWasmMemory + d ≤ 0xC0000000) :
    Disjoint (tableBlock t).extent (dataBlock W d).extent ↔
      (d ≠ 0 → W.sizeofWasmMemory + d + t + 1 ≤ heapSize.toNat) := by
  rw [heapSize_toNat] at ht ⊢
  rw [disjoint_extent_iff, tableBlock_base (by omega), dataBlock_base, tableBlock_size,
    dataBlock_size]
  omega

theorem table_fits {W : W2c2Base} {s : Runtime} (hp : Placed W s) (hs : Separated s) {t : Block}
    (ht : t ∈ s.table) : t.size + 1 ≤ heapSize.toNat :=
  (tableBlock_inHeap_iff t.size).mp (hp.table t ht ▸ hs.table_inHeap t ht)

theorem data_fits {W : W2c2Base} {s : Runtime} (hp : Placed W s) (hs : Separated s) {d : Block}
    (hd : d ∈ s.data) : 0xa1120000 + W.sizeofWasmMemory + d.size ≤ 0xC0000000 := by
  obtain ⟨heq, hok⟩ := hp.data d hd
  have hin := (limitExact_iff W d.size).mp ((dataBlock_inHeap_iff hok).mp (heq ▸ hs.data_inHeap d hd))
  omega

theorem separated_struct_iff {W : W2c2Base} {s : Runtime} (hp : Placed W s) (hs : Separated s)
    (m : Machine) : Separated { s with machine := m, struct := some (structBlock W) } ↔
      Fits W s .callocStruct := by
  have hiff : ∀ t ∈ s.table, Disjoint (structBlock W).extent t.extent ↔
      W.sizeofWasmMemory + t.size + 1 ≤ heapSize.toNat := fun t ht => by
    have hsize := table_fits hp hs ht
    obtain ⟨size, rfl⟩ : ∃ size, t = tableBlock size := ⟨_, hp.table t ht⟩
    exact struct_table_disjoint_iff hsize
  constructor
  · intro h t ht
    exact (hiff t ht).mp (h.struct_table _ rfl t ht)
  · intro h
    refine { hs with struct_inHeap := ?_, struct_table := ?_, struct_data := ?_ }
    · intro b hb
      obtain rfl := Option.mem_some_iff.mp hb
      exact structBlock_inHeap W
    · intro b hb t ht
      obtain rfl := Option.mem_some_iff.mp hb
      exact (hiff t ht).mpr (h t ht)
    · intro b hb d hd
      obtain rfl := Option.mem_some_iff.mp hb
      rw [(hp.data d hd).1]
      exact struct_data_disjoint W d.size

theorem separated_table_iff {W : W2c2Base} {s : Runtime} (hp : Placed W s) (hs : Separated s)
    (m : Machine) (n e : SizeT) :
    Separated { s with machine := m, table := some (tableBlock (n.toNat * e.toNat)) } ↔
      Fits W s (.callocTable n e) := by
  have hdata : ∀ d ∈ s.data, n.toNat * e.toNat + 1 ≤ heapSize.toNat →
      (Disjoint (tableBlock (n.toNat * e.toNat)).extent d.extent ↔ (d.size ≠ 0 →
        W.sizeofWasmMemory + d.size + n.toNat * e.toNat + 1 ≤ heapSize.toNat)) := fun d hd ht => by
    have hsize := data_fits hp hs hd
    rw [(hp.data d hd).1]
    exact table_data_disjoint_iff ht hsize
  constructor
  · intro h
    have hin := (tableBlock_inHeap_iff _).mp (h.table_inHeap _ rfl)
    refine ⟨hin, fun hb => ?_, fun d hd => (hdata d hd hin).mp (h.table_data _ rfl d hd)⟩
    obtain ⟨b, hb⟩ := Option.isSome_iff_exists.mp hb
    have hdisj := h.struct_table b hb _ rfl
    rw [hp.struct b hb] at hdisj
    exact (struct_table_disjoint_iff hin).mp hdisj
  · rintro ⟨hin, hstruct, hd⟩
    refine { hs with table_inHeap := ?_, struct_table := ?_, table_data := ?_ }
    · intro t ht
      obtain rfl := Option.mem_some_iff.mp ht
      exact (tableBlock_inHeap_iff _).mpr hin
    · intro b hb t ht
      obtain rfl := Option.mem_some_iff.mp ht
      rw [hp.struct b hb]
      exact (struct_table_disjoint_iff hin).mpr (hstruct (Option.isSome_of_mem hb))
    · intro t ht d hd'
      obtain rfl := Option.mem_some_iff.mp ht
      exact (hdata d hd' hin).mpr (hd d hd')

theorem separated_data_iff {W : W2c2Base} {s : Runtime} (hp : Placed W s) (hs : Separated s)
    (m : Machine) {size : SizeT} (hok : memoryDataSizeOk W size = true) :
    Separated { s with machine := m, data := some (dataBlock W size.toNat) } ↔
      LimitExact W size.toNat ∧ ∀ t ∈ s.table, size.toNat ≠ 0 →
        W.sizeofWasmMemory + size.toNat + t.size + 1 ≤ heapSize.toNat := by
  have hcheck := (memoryDataSizeOk_iff W size).mp hok
  have htable : ∀ t ∈ s.table, LimitExact W size.toNat →
      (Disjoint t.extent (dataBlock W size.toNat).extent ↔ (size.toNat ≠ 0 →
        W.sizeofWasmMemory + size.toNat + t.size + 1 ≤ heapSize.toNat)) := fun t ht hlimit => by
    have hsize := table_fits hp hs ht
    rw [limitExact_iff] at hlimit
    obtain ⟨size, rfl⟩ : ∃ size, t = tableBlock size := ⟨_, hp.table t ht⟩
    exact table_data_disjoint_iff hsize (by omega)
  constructor
  · intro h
    have hlimit := (dataBlock_inHeap_iff hcheck).mp (h.data_inHeap _ rfl)
    exact ⟨hlimit, fun t ht => (htable t ht hlimit).mp (h.table_data t ht _ rfl)⟩
  · rintro ⟨hlimit, ht⟩
    refine { hs with data_inHeap := ?_, struct_data := ?_, table_data := ?_ }
    · intro d hd
      obtain rfl := Option.mem_some_iff.mp hd
      exact (dataBlock_inHeap_iff hcheck).mpr hlimit
    · intro b hb d hd
      obtain rfl := Option.mem_some_iff.mp hd
      rw [hp.struct b hb]
      exact struct_data_disjoint W _
    · intro t ht' d hd
      obtain rfl := Option.mem_some_iff.mp hd
      exact (htable t ht' hlimit).mpr (ht t ht')

theorem separated_step_iff {W : W2c2Base} {s t : Runtime} {c : AllocCall} (hp : Placed W s)
    (hs : Separated s) (h : allocStep W s c = some t) : Separated t ↔ Fits W s c := by
  cases c with
  | callocStruct =>
    obtain ⟨-, m, -, rfl⟩ := allocStep_struct h
    exact separated_struct_iff hp hs m
  | callocTable n e =>
    obtain ⟨-, m, -, rfl⟩ := allocStep_table h
    exact separated_table_iff hp hs m n e
  | callocData bytes =>
    obtain ⟨-, hok, m, -, rfl⟩ := allocStep_data h
    exact separated_data_iff hp hs m hok
  | reallocData size =>
    obtain ⟨d, hd, -, hok, m, -, rfl⟩ := allocStep_realloc h
    have hbase : d.base = (dataBlock W d.size).base := congrArg Block.base (hp.data d hd).1
    rw [hbase]
    exact separated_data_iff hp hs m hok

theorem blocks_separated_iff (W : W2c2Base) (m : Machine) (calls : List AllocCall)
    (h : (calls.foldlM (allocStep W) (boot m)).isSome) :
    Throughout (allocStep W) Separated (boot m) calls ↔
      StepsMeet (allocStep W) (Fits W) (boot m) calls := by
  obtain ⟨t, ht⟩ := Option.isSome_iff_exists.mp h
  exact throughout_iff_stepsMeet (I := Placed W) (fun _ _ _ hp _ hstep => placed_step hp hstep)
    (fun _ _ _ hp hs hstep => separated_step_iff hp hs hstep) (placed_boot W m) (separated_boot m) ht

def smallBase : W2c2Base := ⟨24, by decide, by decide⟩

def blankMachine : Machine := ⟨fun _ => 0, []⟩

theorem blocks_separated_page_by_page :
    Throughout (allocStep smallBase) Separated (boot blankMachine)
      [.callocData 0x10000, .callocStruct, .callocTable 100 8, .reallocData 0x20000] := by
  refine (blocks_separated_iff smallBase blankMachine _ (by decide)).mpr ?_
  refine stepsMeet_cons.mpr ⟨⟨(limitExact_iff _ _).mpr (by decide), ?_⟩, fun u hu => ?_⟩
  · intro t ht; simp [boot] at ht
  obtain ⟨-, -, m₁, -, rfl⟩ := allocStep_data hu
  refine stepsMeet_cons.mpr ⟨?_, fun u hu => ?_⟩
  · intro t ht; simp [boot] at ht
  obtain ⟨-, m₂, -, rfl⟩ := allocStep_struct hu
  refine stepsMeet_cons.mpr ⟨⟨by decide, fun _ => by decide, ?_⟩, fun u hu => ?_⟩
  · intro d hd hsize
    obtain rfl := Option.mem_some_iff.mp hd
    decide
  obtain ⟨-, m₃, -, rfl⟩ := allocStep_table hu
  refine stepsMeet_cons.mpr ⟨⟨(limitExact_iff _ _).mpr (by decide), ?_⟩, fun _ _ => stepsMeet_nil⟩
  intro t ht hsize
  obtain rfl := Option.mem_some_iff.mp ht
  decide

theorem blocks_overlap :
    ¬ ∀ (W : W2c2Base) (m : Machine) (calls : List AllocCall),
      (calls.foldlM (allocStep W) (boot m)).isSome →
        Throughout (allocStep W) Separated (boot m) calls := by
  intro h
  have hrun : ∃ m, [.callocStruct, .callocTable 0x40000 8, .callocData 0x1EED0000].foldlM
      (allocStep smallBase) (boot blankMachine) = some ⟨m, some (structBlock smallBase),
        some (tableBlock 0x200000), some (dataBlock smallBase 0x1EED0000)⟩ := ⟨_, rfl⟩
  obtain ⟨m, hm⟩ := hrun
  have hs := h smallBase blankMachine _ (Option.isSome_of_mem hm) _ _ (List.prefix_refl _) hm
  have hdisj := (disjoint_extent_iff _ _).mp (hs.table_data _ rfl _ rfl)
  rw [tableBlock_base (by decide), dataBlock_base, tableBlock_size, dataBlock_size] at hdisj
  simp [smallBase] at hdisj

end Wasrisc.HeapBlocks
