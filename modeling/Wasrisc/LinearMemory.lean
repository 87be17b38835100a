import Wasrisc.HeapBlocks
import Wasrisc.MemsetShortcut

namespace Wasrisc.LinearMemory

open AddressedMemory HostMemory Memlib Runs HeapBlocks MemsetShortcut

inductive GuestEvent where
  | store (addr : ℕ) (vs : List U8)
  | storeStruct (off : ℕ) (vs : List U8)
  | storeTable (off : ℕ) (vs : List U8)
  | grow (newSize : SizeT)

/-- A linear memory as WebAssembly describes it: bytes that have not been stored to are zero, also
those that only a later `memory.grow` will reach. -/
structure Linear where
  size : ℕ
  bytes : ℕ → U8
  fresh : ∀ i, size ≤ i → bytes i = 0

def storedBy : GuestEvent → ℕ → Option U8
  | .store addr vs, i => if addr ≤ i then vs[i - addr]? else none
  | .storeStruct _ _, _ | .storeTable _ _, _ | .grow _, _ => none

def lastStored (events : List GuestEvent) (i : ℕ) : U8 :=
  events.foldl (fun v e => (storedBy e i).getD v) 0

theorem storedBy_store {addr i : ℕ} {vs : List U8} (h : i < addr ∨ addr + vs.length ≤ i) :
    storedBy (.store addr vs) i = none := by
  rw [storedBy]
  split
  · exact List.getElem?_eq_none (by omega)
  · rfl

def Linear.store (L : Linear) (addr : ℕ) (vs : List U8) (h : addr + vs.length ≤ L.size) :
    Linear where
  size := L.size
  bytes i := (storedBy (.store addr vs) i).getD (L.bytes i)
  fresh i hi := by rw [storedBy_store (.inr (h.trans hi)), Option.getD_none, L.fresh i hi]

def Linear.grow (L : Linear) (newSize : ℕ) (h : L.size ≤ newSize) : Linear :=
  ⟨newSize, L.bytes, fun i hi => L.fresh i (h.trans hi)⟩

inductive Linear.Step : Linear → GuestEvent → Linear → Prop
  | store (L : Linear) (addr : ℕ) (vs : List U8) (h : addr + vs.length ≤ L.size) :
      Step L (.store addr vs) (L.store addr vs h)
  | storeStruct (L : Linear) (off : ℕ) (vs : List U8) : Step L (.storeStruct off vs) L
  | storeTable (L : Linear) (off : ℕ) (vs : List U8) : Step L (.storeTable off vs) L
  | grown (L : Linear) (newSize : SizeT) (h : L.size ≤ newSize.toNat) :
      Step L (.grow newSize) (L.grow newSize.toNat h)
  | notGrown (L : Linear) (newSize : SizeT) : Step L (.grow newSize) L

theorem step_bytes {L L' : Linear} {e : GuestEvent} (h : Linear.Step L e L') (i : ℕ) :
    L'.bytes i = (storedBy e i).getD (L.bytes i) := by
  cases h <;> rfl

theorem trace_bytes {L L' : Linear} {events : List GuestEvent}
    (h : Trace Linear.Step L events L') (i : ℕ) :
    L'.bytes i = events.foldl (fun v e => (storedBy e i).getD v) (L.bytes i) := by
  induction h with
  | nil => rfl
  | cons head tail ih => rw [ih, List.foldl_cons, step_bytes head i]

def wasmMemoryLimit : ℕ := 65536 * 65536

def poke (s : Runtime) (a : U64) (vs : List U8) : Runtime :=
  { s with machine := { s.machine with ram := write s.machine.ram a vs } }

def storeIn (s : Runtime) (b : Option Block) (off : ℕ) (vs : List U8) : Option Runtime :=
  b.bind fun b =>
    if off + vs.length ≤ b.size then some (poke s (b.base + BitVec.ofNat 64 off) vs) else none

def memoryGrow (W : W2c2Base) (M : Memops) (s : Runtime) (d : Block) (newSize : SizeT) :
    Bool × Runtime :=
  let r := realloc W d.base newSize s.machine
  if r.1 = 0 then (false, { s with machine := r.2 })
  else
    let oldSize := BitVec.ofNat 64 d.size
    let ram := (memset M (r.1 + oldSize) 0 (newSize - oldSize) r.2.ram).2
    (true, { s with machine := { r.2 with ram := ram }, data := some ⟨r.1, newSize.toNat⟩ })

def guestStep (W : W2c2Base) (M : Memops) (s : Runtime) : GuestEvent → Option Runtime
  | .store addr vs => storeIn s s.data addr vs
  | .storeStruct off vs => storeIn s s.struct off vs
  | .storeTable off vs => storeIn s s.table off vs
  | .grow newSize => s.data.bind fun d =>
      if d.size ≤ newSize.toNat ∧ newSize.toNat ≤ wasmMemoryLimit then
        some (memoryGrow W M s d newSize).2
      else none

/-- The runtime holds `L` in its linear memory, and the RAM from the linear memory's end up to the
limit of its growth is as blank as `L` is there. -/
structure Holds (W : W2c2Base) (s : Runtime) (L : Linear) : Prop where
  struct : s.struct = some (structBlock W)
  table : ∃ t, s.table = some (tableBlock t) ∧ t < 0x100000
  data : s.data = some (dataBlock W L.size)
  limit : 0xa1120000 + W.sizeofWasmMemory + L.size ≤ 0xC0000000
  bytes : ∀ i, 0xa1120000 + W.sizeofWasmMemory + i < 0xC0000000 →
    s.machine.ram ((dataBlock W L.size).base + BitVec.ofNat 64 i) = L.bytes i

theorem window_toNat {W : W2c2Base} {size i : ℕ}
    (hi : 0xa1120000 + W.sizeofWasmMemory + i < 0xC0000000) :
    ((dataBlock W size).base + BitVec.ofNat 64 i).toNat = 0xa1020000 + W.sizeofWasmMemory + i := by
  rw [add_toNat (by rw [dataBlock_base]; omega), dataBlock_base]

theorem holds_of_ram_eq {W : W2c2Base} {s t : Runtime} {L : Linear} (h : Holds W s L)
    (hstruct : t.struct = s.struct) (htable : t.table = s.table) (hdata : t.data = s.data)
    (hram : ∀ i, 0xa1120000 + W.sizeofWasmMemory + i < 0xC0000000 →
      t.machine.ram ((dataBlock W L.size).base + BitVec.ofNat 64 i) =
        s.machine.ram ((dataBlock W L.size).base + BitVec.ofNat 64 i)) : Holds W t L where
  struct := hstruct.trans h.struct
  table := htable ▸ h.table
  data := hdata.trans h.data
  limit := h.limit
  bytes i hi := (hram i hi).trans (h.bytes i hi)

theorem storeIn_some {s t : Runtime} {b : Block} {off : ℕ} {vs : List U8}
    (h : storeIn s (some b) off vs = some t) : off + vs.length ≤ b.size ∧
      t = poke s (b.base + BitVec.ofNat 64 off) vs := by
  simp only [storeIn, Option.bind_some] at h
  split_ifs at h with hin
  exact ⟨hin, (Option.some.inj h).symm⟩

theorem poke_outside {W : W2c2Base} {s : Runtime} {L : Linear} (h : Holds W s L) {a : U64}
    {vs : List U8} (ha : a.toNat + vs.length ≤ 0xC0000000)
    (hout : a.toNat + vs.length ≤ 0xa1020000 + W.sizeofWasmMemory ∨ 0xBFF00000 ≤ a.toNat) :
    Holds W (poke s a vs) L := by
  refine holds_of_ram_eq (t := poke s a vs) h rfl rfl rfl fun i hi => write_of_notMem ?_
  rw [mem_span_iff_of_le (by omega), window_toNat hi]
  omega

theorem store_holds {W : W2c2Base} {s : Runtime} {L : Linear} (h : Holds W s L) {addr : ℕ}
    {vs : List U8} (hin : addr + vs.length ≤ L.size) :
    Holds W (poke s ((dataBlock W L.size).base + BitVec.ofNat 64 addr) vs)
      (L.store addr vs hin) where
  struct := h.struct
  table := h.table
  data := h.data
  limit := h.limit
  bytes i hi := by
    have hl := h.limit
    have hbase := dataBlock_base W L.size
    have haddr : ((dataBlock W L.size).base + BitVec.ofNat 64 addr).toNat =
        0xa1020000 + W.sizeofWasmMemory + addr := by rw [add_toNat (by omega), hbase]
    change write s.machine.ram _ vs ((dataBlock W L.size).base + BitVec.ofNat 64 i) =
      (storedBy (.store addr vs) i).getD (L.bytes i)
    by_cases hlo : addr ≤ i ∧ i < addr + vs.length
    · obtain ⟨j, rfl⟩ : ∃ j, i = addr + j := ⟨i - addr, by omega⟩
      have hj : j < vs.length := by omega
      rw [BitVec.ofNat_add, ← BitVec.add_assoc, write_offset hj (by omega)]
      simp [storedBy, hj]
    · rw [storedBy_store (by omega), Option.getD_none, ← h.bytes i hi]
      apply write_of_notMem
      rw [mem_span_iff_of_le (by omega), window_toNat hi, haddr]
      omega

theorem blank_window {W : W2c2Base} {s : Runtime} {L : Linear} (h : Holds W s L) {newSize : SizeT}
    (hsize : L.size ≤ newSize.toNat)
    (hlimit : 0xa1120000 + W.sizeofWasmMemory + newSize.toNat ≤ 0xC0000000) :
    ∀ i < (newSize - BitVec.ofNat 64 L.size).toNat,
      s.machine.ram ((dataBlock W L.size).base + BitVec.ofNat 64 L.size + BitVec.ofNat 64 i) = 0 := by
  intro i hi
  rw [BitVec.toNat_sub, BitVec.toNat_ofNat] at hi
  have hi' : i < newSize.toNat - L.size := by omega
  rw [BitVec.add_assoc, ← BitVec.ofNat_add, h.bytes _ (by omega), L.fresh _ (by omega)]

theorem memoryGrow_refused {W : W2c2Base} {M : Memops} {s : Runtime} {d : Block} {newSize : SizeT}
    (hok : memoryDataSizeOk W newSize = false) : (memoryGrow W M s d newSize).1 = false ∧
      ∃ m, m.ram = s.machine.ram ∧ (memoryGrow W M s d newSize).2 = { s with machine := m } := by
  have hp : (realloc W d.base newSize s.machine).1 = 0 := by simp [realloc_ptr, hok]
  rw [memoryGrow, if_pos hp]
  exact ⟨rfl, _, realloc_ram W _ _ _, rfl⟩

theorem memoryGrow_granted {W : W2c2Base} {M : Memops} {s : Runtime} {L : Linear}
    (h : Holds W s L) {newSize : SizeT} (hsize : L.size ≤ newSize.toNat)
    (hlimit : newSize.toNat ≤ wasmMemoryLimit) (hok : memoryDataSizeOk W newSize = true) :
    0xa1120000 + W.sizeofWasmMemory + newSize.toNat ≤ 0xC0000000 ∧
      (memoryGrow W M s (dataBlock W L.size) newSize).1 = true ∧
      ∃ m, m.ram = s.machine.ram ∧ (memoryGrow W M s (dataBlock W L.size) newSize).2 =
        { s with machine := m, data := some (dataBlock W newSize.toNat) } := by
  have hw := W.within_page
  have hexact : 0xa1120000 + W.sizeofWasmMemory + newSize.toNat ≤ 0xC0000000 := by
    have := (memoryDataSizeOk_iff W newSize).mp hok
    rw [wasmMemoryLimit] at hlimit
    omega
  have hbase : (dataBlock W L.size).base ≠ 0 := by
    intro h0
    have hbase := dataBlock_base W L.size
    rw [h0, show (0 : U64).toNat = 0 from rfl] at hbase
    omega
  have hp : (realloc W (dataBlock W L.size).base newSize s.machine).1 =
      (dataBlock W L.size).base := by rw [realloc_ptr, if_pos hok]
  have hram := realloc_ram W (dataBlock W L.size).base newSize s.machine
  rw [memoryGrow, if_neg (by rwa [hp])]
  simp only [hp, hram, dataBlock_size]
  rw [memset_zeroed M (blank_window h hsize hexact)]
  exact ⟨hexact, trivial, ⟨s.machine.ram,
    (realloc W (dataBlock W L.size).base newSize s.machine).2.uart⟩, rfl, rfl⟩

theorem guestStep_simulated {W : W2c2Base} {M : Memops} (s : Runtime) (L : Linear) (e : GuestEvent)
    (t : Runtime) (h : Holds W s L) (hstep : guestStep W M s e = some t) :
    ∃ L', Linear.Step L e L' ∧ Holds W t L' := by
  have hw := W.within_page
  cases e with
  | store addr vs =>
    rw [guestStep, h.data] at hstep
    obtain ⟨hin, rfl⟩ := storeIn_some hstep
    exact ⟨_, .store L addr vs hin, store_holds h hin⟩
  | storeStruct off vs =>
    rw [guestStep, h.struct] at hstep
    obtain ⟨hin, rfl⟩ := storeIn_some hstep
    have hbase := structBlock_base W
    rw [structBlock_size] at hin
    have ha : ((structBlock W).base + BitVec.ofNat 64 off).toNat = 0xa1020000 + off := by
      rw [add_toNat (by omega), hbase]
    exact ⟨L, .storeStruct L off vs, poke_outside h (by omega) (.inl (by omega))⟩
  | storeTable off vs =>
    obtain ⟨size, htable, hsize⟩ := h.table
    rw [guestStep, htable] at hstep
    obtain ⟨hin, rfl⟩ := storeIn_some hstep
    have hbase : (tableBlock size).base.toNat = 0xBFFFFFFF - size := tableBlock_base (by omega)
    rw [tableBlock_size] at hin
    have ha : ((tableBlock size).base + BitVec.ofNat 64 off).toNat = 0xBFFFFFFF - size + off := by
      rw [add_toNat (by omega), hbase]
    exact ⟨L, .storeTable L off vs, poke_outside h (by omega) (.inr (by omega))⟩
  | grow newSize =>
    rw [guestStep, h.data, Option.bind_some] at hstep
    split_ifs at hstep with hsize
    rw [dataBlock_size] at hsize
    obtain rfl := Option.some.inj hstep
    cases hok : memoryDataSizeOk W newSize with
    | false =>
      obtain ⟨-, m, hm, heq⟩ := memoryGrow_refused (M := M) (s := s) (d := dataBlock W L.size) hok
      rw [heq]
      exact ⟨L, .notGrown L newSize, holds_of_ram_eq h rfl rfl rfl fun i _ => congrFun hm _⟩
    | true =>
      obtain ⟨hlimit, -, m, hm, heq⟩ := memoryGrow_granted (M := M) h hsize.1 hsize.2 hok
      rw [heq]
      refine ⟨_, .grown L newSize hsize.1, h.struct, h.table, rfl, hlimit, fun i hi => ?_⟩
      exact (congrFun hm _).trans (h.bytes i hi)

theorem allocated_holds {W : W2c2Base} {m : Machine} {calls : List AllocCall} {s : Runtime}
    {t d : Block} (hzero : ∀ a : U64, heapStart.toNat ≤ a.toNat →
      a.toNat < heapStart.toNat + heapSize.toNat → m.ram a = 0)
    (hrun : calls.foldlM (allocStep W) (boot m) = some s) (hstruct : s.struct.isSome)
    (htable : s.table = some t) (htsize : t.size < wasmFunctionTableBufSize.toNat)
    (hdata : s.data = some d) (hdsize : d.size ≤ wasmMemoryLimit) :
    Holds W s ⟨d.size, fun _ => 0, fun _ _ => rfl⟩ := by
  have hw := W.within_page
  have hp : Placed W s := run_invariant (fun _ _ _ => placed_step) (placed_boot W m) hrun
  obtain ⟨b, hb⟩ := Option.isSome_iff_exists.mp hstruct
  obtain ⟨hd, hok⟩ := hp.data d hdata
  have hlimit : 0xa1120000 + W.sizeofWasmMemory + d.size ≤ 0xC0000000 := by
    rw [wasmMemoryLimit] at hdsize
    omega
  refine ⟨(hp.struct b hb) ▸ hb, ⟨t.size, (hp.table t htable) ▸ htable, htsize⟩, hd ▸ hdata,
    hlimit, fun i hi => ?_⟩
  have hs : heapStart.toNat = 0xa1020000 := by decide
  rw [alloc_run_ram hrun]
  apply hzero <;> rw [window_toNat hi, hs]
  · omega
  · rw [heapSize_toNat]; omega

theorem guest_run_holds {W : W2c2Base} {M : Memops} {s t : Runtime} {L : Linear}
    {events : List GuestEvent} (hs : Holds W s L)
    (hrun : events.foldlM (guestStep W M) s = some t) :
    ∃ L', Holds W t L' ∧
      ∀ i, L'.bytes i = events.foldl (fun v e => (storedBy e i).getD v) (L.bytes i) := by
  obtain ⟨L', htrace, ht⟩ := run_simulated (guestStep_simulated (W := W) (M := M)) hs hrun
  exact ⟨L', ht, trace_bytes htrace⟩

def GrowsFaithfully (s : Runtime) (d : Block) (newSize : SizeT) (r : Bool × Runtime) : Prop :=
  (r.1 = true → r.2.data = some ⟨d.base, newSize.toNat⟩ ∧
    (∀ i < d.size, r.2.machine.ram (d.base + BitVec.ofNat 64 i) =
      s.machine.ram (d.base + BitVec.ofNat 64 i)) ∧
    ∀ i, d.size ≤ i → i < newSize.toNat → r.2.machine.ram (d.base + BitVec.ofNat 64 i) = 0) ∧
  (r.1 = false → r.2.data = some d ∧ r.2.machine.ram = s.machine.ram)

theorem holds_growsFaithfully {W : W2c2Base} {M : Memops} {s : Runtime} {L : Linear}
    (h : Holds W s L) {newSize : SizeT} (hsize : L.size ≤ newSize.toNat)
    (hlimit : newSize.toNat ≤ wasmMemoryLimit) :
    GrowsFaithfully s (dataBlock W L.size) newSize
      (memoryGrow W M s (dataBlock W L.size) newSize) := by
  cases hok : memoryDataSizeOk W newSize with
  | false =>
    obtain ⟨hr, m, hm, heq⟩ := memoryGrow_refused (M := M) (s := s) (d := dataBlock W L.size) hok
    rw [GrowsFaithfully, hr, heq]
    exact ⟨fun hf => Bool.noConfusion hf, fun _ => ⟨h.data, hm⟩⟩
  | true =>
    obtain ⟨hexact, hr, m, hm, heq⟩ := memoryGrow_granted (M := M) h hsize hlimit hok
    rw [GrowsFaithfully, hr, heq]
    refine ⟨fun _ => ⟨rfl, fun i _ => congrFun hm _, fun i hi hi' => ?_⟩,
      fun hf => Bool.noConfusion hf⟩
    have hblank := L.fresh i hi
    exact (congrFun hm _).trans ((h.bytes i (by omega)).trans hblank)

theorem linear_memory_faithful (W : W2c2Base) (M : Memops) (m : Machine) (calls : List AllocCall)
    (s₀ s : Runtime) (t d : Block) (events : List GuestEvent)
    (hzero : ∀ a : U64, heapStart.toNat ≤ a.toNat →
      a.toNat < heapStart.toNat + heapSize.toNat → m.ram a = 0)
    (halloc : calls.foldlM (allocStep W) (boot m) = some s₀) (hstruct : s₀.struct.isSome)
    (htable : s₀.table = some t) (htsize : t.size < wasmFunctionTableBufSize.toNat)
    (hdata : s₀.data = some d) (hdsize : d.size ≤ wasmMemoryLimit)
    (hrun : events.foldlM (guestStep W M) s₀ = some s) :
    ∃ d', s.data = some d' ∧ d'.base = d.base ∧
      (∀ i < d'.size, s.machine.ram (d'.base + BitVec.ofNat 64 i) = lastStored events i) ∧
      ∀ newSize : SizeT, d'.size ≤ newSize.toNat → newSize.toNat ≤ wasmMemoryLimit →
        GrowsFaithfully s d' newSize (memoryGrow W M s d' newSize) := by
  have h₀ := allocated_holds hzero halloc hstruct htable htsize hdata hdsize
  obtain ⟨L, h, hbytes⟩ := guest_run_holds h₀ hrun
  have hbase : (dataBlock W d.size).base = d.base :=
    congrArg Block.base (Option.some.inj (h₀.data.symm.trans hdata))
  refine ⟨dataBlock W L.size, h.data, hbase, fun i hi => ?_,
    fun newSize hsize hlimit => holds_growsFaithfully h hsize hlimit⟩
  have hl := h.limit
  rw [dataBlock_size] at hi
  rw [h.bytes i (by omega), hbytes i]
  rfl

theorem linear_memory_two_pages : ∃ s₀ s d',
    [.callocStruct, .callocTable 16 8, .callocData 0x10000].foldlM (allocStep smallBase)
      (boot blankMachine) = some s₀ ∧
    [.store 0xfffe [1, 2], .grow 0x20000, .storeTable 8 [9], .store 0x10000 [3]].foldlM
      (guestStep smallBase headerMemops) s₀ = some s ∧ s.data = some d' ∧
    s.machine.ram (d'.base + 0xffff) = 2 := by
  have halloc : ∃ m, [.callocStruct, .callocTable 16 8, .callocData 0x10000].foldlM
      (allocStep smallBase) (boot blankMachine) = some ⟨m, some (structBlock smallBase),
        some (tableBlock 128), some (dataBlock smallBase 0x10000)⟩ := ⟨_, rfl⟩
  obtain ⟨m, hm⟩ := halloc
  have hrun : ∃ m', [.store 0xfffe [1, 2], .grow 0x20000, .storeTable 8 [9],
      .store 0x10000 [3]].foldlM (guestStep smallBase headerMemops) ⟨m, some (structBlock smallBase),
        some (tableBlock 128), some (dataBlock smallBase 0x10000)⟩ = some ⟨m',
          some (structBlock smallBase), some (tableBlock 128),
          some (dataBlock smallBase 0x20000)⟩ := ⟨_, rfl⟩
  obtain ⟨m', hm'⟩ := hrun
  obtain ⟨d', hd, -, hbytes, -⟩ := linear_memory_faithful smallBase headerMemops blankMachine _ _ _ _ _
    _ (fun _ _ _ => rfl) hm rfl rfl (by decide) rfl (by decide) hm'
  obtain rfl := Option.some.inj hd
  refine ⟨_, _, _, hm, hm', rfl, (hbytes 0xffff (by decide)).trans (by decide)⟩

end Wasrisc.LinearMemory
