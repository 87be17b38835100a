import Wasrisc.WasiSnapshotPreview1

namespace Wasrisc.WasiResults

open AddressedMemory HostMemory WasiSnapshotPreview1

inductive Call where
  | clockTimeGet (clockID : U32) (precision : U64) (resultPointer : U32)
  | fdWrite (wasiFD ciovecsPointer ciovecsCount resultPointer : U32)
  | argsSizesGet (l0 l1 : U32)
  | environSizesGet (l0 l1 : U32)
  | fdFdstatGet (wasiFD resultPointer : U32)
  | pathFilestatGet (l0 l1 l2 l3 l4 : U32)
  | fdSeek (l0 : U32) (l1 : U64) (l2 l3 : U32)
  | pollOneoff (inPointer outPointer subscriptionCount eventCount : U32)
  | randomGet (l0 l1 : U32)

def Call.run (libc : Libc) (memory : WasmMemory) : Call → Host → U32 × Host
  | clockTimeGet clockID precision resultPointer =>
    WasiSnapshotPreview1.clockTimeGet memory clockID precision resultPointer
  | fdWrite wasiFD ciovecsPointer ciovecsCount resultPointer =>
    WasiSnapshotPreview1.fdWrite libc memory wasiFD ciovecsPointer ciovecsCount resultPointer
  | argsSizesGet l0 l1 => WasiSnapshotPreview1.argsSizesGet libc l0 l1
  | environSizesGet l0 l1 => WasiSnapshotPreview1.environSizesGet libc l0 l1
  | fdFdstatGet wasiFD resultPointer => WasiSnapshotPreview1.fdFdstatGet libc wasiFD resultPointer
  | pathFilestatGet l0 l1 l2 l3 l4 => WasiSnapshotPreview1.pathFilestatGet libc l0 l1 l2 l3 l4
  | fdSeek l0 l1 l2 l3 => WasiSnapshotPreview1.fdSeek libc l0 l1 l2 l3
  | pollOneoff inPointer outPointer subscriptionCount eventCount =>
    WasiSnapshotPreview1.pollOneoff inPointer outPointer subscriptionCount eventCount
  | randomGet l0 l1 => WasiSnapshotPreview1.randomGet libc l0 l1

structure Region where
  start : U64
  length : ℕ

def Region.addresses (memory : WasmMemory) (r : Region) : Set U64 :=
  span (memory.data + r.start) r.length

def region (pointer : U32) (length : ℕ) : Region := ⟨pointer.setWidth 64, length⟩

/-- Where WASI has a call leave its results: the pointed-to integers, an `fdstat` of 24 bytes, a
`filestat` of 64, an `event` of 32 for each subscription, the buffer of `random_get`. -/
def Call.results : Call → List Region
  | clockTimeGet _ _ resultPointer => [region resultPointer 8]
  | fdWrite _ _ _ resultPointer => [region resultPointer 4]
  | argsSizesGet l0 l1 => [region l0 4, region l1 4]
  | environSizesGet l0 l1 => [region l0 4, region l1 4]
  | fdFdstatGet _ resultPointer => [region resultPointer 24]
  | pathFilestatGet _ _ _ _ l4 => [region l4 64]
  | fdSeek _ _ _ l3 => [region l3 8]
  | pollOneoff _ outPointer subscriptionCount eventCount =>
    [region outPointer (32 * subscriptionCount.toNat), region eventCount 4]
  | randomGet l0 l1 => [region l0 l1.toNat]

def Call.inputs (memory : WasmMemory) (ram : Ram) : Call → List Region
  | fdWrite _ ciovecsPointer ciovecsCount _ =>
    (List.range ciovecsCount.toNat).flatMap fun i =>
      [⟨ciovecAddress ciovecsPointer i, 8⟩,
        region (bufferPointer memory ram ciovecsPointer i)
          (bufferLength memory ram ciovecsPointer i).toNat]
  | pathFilestatGet _ _ l2 l3 _ => [region l2 l3.toNat]
  | pollOneoff inPointer _ subscriptionCount _ => [region inPointer (48 * subscriptionCount.toNat)]
  | _ => []

structure Call.Valid (memory : WasmMemory) (ram : Ram) (call : Call) : Prop where
  inBounds : ∀ r ∈ call.results, r.start.toNat + r.length ≤ memory.size
  nonempty : ∃ r ∈ call.results, 0 < r.length
  separate : ∀ r ∈ call.results, ∀ r' ∈ call.inputs memory ram,
    Disjoint (r.addresses memory) (r'.addresses memory)

def Call.resultAddresses (memory : WasmMemory) (call : Call) : Set U64 :=
  {a | ∃ r ∈ call.results, a ∈ r.addresses memory}

structure SameButResults (memory : WasmMemory) (call : Call) (h h' : Host) : Prop where
  ram : ∀ a ∉ call.resultAddresses memory, h.ram a = h'.ram a
  console : h.console = h'.console
  ticks : h.ticks = h'.ticks

def ResultsWritten (libc : Libc) (memory : WasmMemory) (call : Call) (h : Host) : Prop :=
  ∀ h', SameButResults memory call h h' → (call.run libc memory h).1 = wasiErrnoSuccess →
    Set.EqOn (call.run libc memory h).2.ram (call.run libc memory h').2.ram
      (call.resultAddresses memory)

def Call.Stores : Call → Prop
  | clockTimeGet .. | fdWrite .. => True
  | _ => False

theorem run_stub (libc : Libc) (memory : WasmMemory) {call : Call} (hcall : ¬ call.Stores)
    (h : Host) :
    (call.run libc memory h).1 = wasiErrnoSuccess ∧ (call.run libc memory h).2.ram = h.ram := by
  cases call with
  | clockTimeGet => exact absurd trivial hcall
  | fdWrite => exact absurd trivial hcall
  | _ => exact ⟨rfl, rfl⟩

theorem stub_stale (libc : Libc) {memory : WasmMemory} {call : Call} (hcall : ¬ call.Stores)
    {h : Host} (hvalid : call.Valid memory h.ram) : ¬ ResultsWritten libc memory call h := by
  intro hwritten
  obtain ⟨r, hr, hlength⟩ := hvalid.nonempty
  have hb : memory.data + r.start + BitVec.ofNat 64 0 ∈ call.resultAddresses memory :=
    ⟨r, hr, add_mem_span hlength⟩
  let b := memory.data + r.start + BitVec.ofNat 64 0
  let h' : Host := { h with ram := fun a => if a = b then h.ram b + 1 else h.ram a }
  have hsame : SameButResults memory call h h' := by
    refine ⟨fun a ha => ?_, rfl, rfl⟩
    have hne : a ≠ b := by rintro rfl; exact ha hb
    exact (if_neg hne).symm
  have hrun := run_stub libc memory hcall
  have heq := hwritten h' hsame (hrun h).1 hb
  rw [(hrun h).2, (hrun h').2] at heq
  have hb' : h'.ram b = h.ram b + 1 := if_pos rfl
  have hne : ∀ v : U8, v ≠ v + 1 := by decide
  exact hne _ (heq.trans hb')

theorem totalLength_same {memory : WasmMemory}
    {wasiFD ciovecsPointer ciovecsCount resultPointer : U32} {h h' : Host}
    (hvalid : (Call.fdWrite wasiFD ciovecsPointer ciovecsCount resultPointer).Valid memory h.ram)
    (hsame : SameButResults memory (.fdWrite wasiFD ciovecsPointer ciovecsCount resultPointer) h h') :
    totalLength memory h.ram ciovecsPointer (List.range ciovecsCount.toNat) =
      totalLength memory h'.ram ciovecsPointer (List.range ciovecsCount.toNat) := by
  apply totalLength_congr
  intro i hi a ha
  apply hsame.ram
  rintro ⟨r, hr, har⟩
  have hentry : (⟨ciovecAddress ciovecsPointer i, 8⟩ : Region) ∈
      (Call.fdWrite wasiFD ciovecsPointer ciovecsCount resultPointer).inputs memory h.ram :=
    List.mem_flatMap.mpr ⟨i, List.mem_range.mpr hi, List.mem_cons_self⟩
  exact Set.disjoint_left.mp (hvalid.separate r hr _ hentry) har ha

theorem mem_resultAddresses_of_singleton {memory : WasmMemory} {call : Call} {r : Region} {a : U64}
    (hcall : call.results = [r]) (ha : a ∈ call.resultAddresses memory) :
    ∃ i < r.length, a = memory.data + r.start + BitVec.ofNat 64 i := by
  obtain ⟨s, hs, has⟩ := ha
  rw [hcall, List.mem_singleton] at hs
  rw [hs] at has
  exact offset_of_mem_span has

theorem clockTimeGet_written (libc : Libc) (memory : WasmMemory) (clockID : U32) (precision : U64)
    (resultPointer : U32) (h : Host) :
    ResultsWritten libc memory (.clockTimeGet clockID precision resultPointer) h := by
  intro h' hsame _ a ha
  obtain ⟨i, hi, rfl⟩ := mem_resultAddresses_of_singleton rfl ha
  change store64 h.ram _ (timeOffset + h.ticks) _ = store64 h'.ram _ (timeOffset + h'.ticks) _
  rw [hsame.ticks]
  exact store64_offset hi

theorem fdWrite_written (libc : Libc) {memory : WasmMemory}
    {wasiFD ciovecsPointer ciovecsCount resultPointer : U32} {h : Host}
    (hvalid : (Call.fdWrite wasiFD ciovecsPointer ciovecsCount resultPointer).Valid memory h.ram) :
    ResultsWritten libc memory (.fdWrite wasiFD ciovecsPointer ciovecsCount resultPointer) h := by
  intro h' hsame hsuccess a ha
  simp only [Call.run] at hsuccess ⊢
  by_cases hcount : 10 < ciovecsCount.toNat
  · rw [fdWrite_refused libc memory _ _ _ _ h hcount] at hsuccess
    exact absurd (show wasiErrnoNomem = wasiErrnoSuccess from hsuccess) (by decide)
  · obtain ⟨i, hi, rfl⟩ := mem_resultAddresses_of_singleton rfl ha
    have hle := Nat.le_of_not_lt hcount
    rw [fdWrite_eq libc memory _ _ _ _ h hle, fdWrite_eq libc memory _ _ _ _ h' hle,
      totalLength_same hvalid hsame]
    exact store32_offset hi

theorem resultsWritten_iff_stores (libc : Libc) (memory : WasmMemory) (call : Call) (h : Host)
    (hvalid : call.Valid memory h.ram) : ResultsWritten libc memory call h ↔ call.Stores := by
  constructor
  · intro hwritten
    by_contra hcall
    exact stub_stale libc hcall hvalid hwritten
  · intro hcall
    cases call with
    | clockTimeGet clockID precision resultPointer =>
      exact clockTimeGet_written libc memory clockID precision resultPointer h
    | fdWrite => exact fdWrite_written libc hvalid
    | _ => exact absurd hcall not_false

def blankHost : Host := ⟨fun _ => 0, [], 1⟩

theorem argsSizesGet_valid : (Call.argsSizesGet 0 4).Valid onePage blankHost.ram where
  inBounds := by decide
  nonempty := by decide
  separate _ _ _ h := absurd h List.not_mem_nil

theorem clockTimeGet_valid : (Call.clockTimeGet 0 0 8).Valid onePage blankHost.ram where
  inBounds := by decide
  nonempty := by decide
  separate _ _ _ h := absurd h List.not_mem_nil

theorem resultsWritten_iff_stores_blank :
    ResultsWritten bareMetal onePage (.clockTimeGet 0 0 8) blankHost ∧
      ¬ ResultsWritten bareMetal onePage (.argsSizesGet 0 4) blankHost :=
  ⟨(resultsWritten_iff_stores bareMetal onePage _ blankHost clockTimeGet_valid).mpr trivial,
    mt (resultsWritten_iff_stores bareMetal onePage _ blankHost argsSizesGet_valid).mp not_false⟩

theorem argsSizesGet_leaves_stale_argc :
    ¬ ∀ (libc : Libc) (memory : WasmMemory) (call : Call) (h : Host),
      call.Valid memory h.ram → ResultsWritten libc memory call h := by
  intro hwritten
  have hstub : ¬ (Call.argsSizesGet 0 4).Stores := not_false
  exact stub_stale bareMetal hstub argsSizesGet_valid
    (hwritten bareMetal onePage _ blankHost argsSizesGet_valid)

end Wasrisc.WasiResults
