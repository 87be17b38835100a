import Wasrisc.Runs
import Wasrisc.WasiDisclosure
import Wasrisc.WasiImports

namespace Wasrisc.GuestIsolation

open AddressedMemory HostMemory WasiSnapshotPreview1 WasiImports Runs
open WasiDisclosure (CiovecsInside Outcome delivery refusal)

/-- Two hosts that a guest cannot tell apart, wherever each keeps the linear memory and whatever
else it holds. -/
structure Alike (memory memory' : WasmMemory) (h h' : Host) : Prop where
  linear : ∀ i < memory.size,
    h.ram (memory.data + BitVec.ofNat 64 i) = h'.ram (memory'.data + BitVec.ofNat 64 i)
  console : h.console = h'.console
  ticks : h.ticks = h'.ticks

/-- The bytes that the step has the host read or store for the guest are in the linear memory. -/
def InBounds (memory : WasmMemory) (h : Host) : GuestStep → Prop
  | .store address bytes => address.toNat + bytes.length ≤ memory.size
  | .call (.fdWrite _ ciovecsPointer ciovecsCount resultPointer) =>
    ciovecsCount.toNat ≤ 10 → CiovecsInside memory h.ram ciovecsPointer ciovecsCount ∧
      resultPointer.toNat + 4 ≤ memory.size
  | .call (.clockTimeGet _ _ resultPointer) => resultPointer.toNat + 8 ≤ memory.size
  | .call _ => True

def guestRun (libc : Libc) (memory : WasmMemory) : List GuestStep → Host → List U32 × Host
  | [], h => ([], h)
  | .store address bytes :: steps, h => guestRun libc memory steps (guestStore memory address bytes h)
  | .call c :: steps, h =>
    let r := c.run libc memory h
    let rs := guestRun libc memory steps r.2
    (r.1 :: rs.1, rs.2)

section

variable {memory memory' : WasmMemory} {h h' : Host}

theorem Alike.byte (halike : Alike memory memory' h h') {a : U64} (ha : a.toNat < memory.size) :
    h.ram (memory.data + a) = h'.ram (memory'.data + a) := by
  have hbyte := halike.linear a.toNat ha
  rwa [BitVec.ofNat_toNat, BitVec.setWidth_eq] at hbyte

theorem Alike.offset (halike : Alike memory memory' h h') {a : U64} {n i : ℕ}
    (ha : a.toNat + n ≤ memory.size) (hi : i < n) :
    h.ram (memory.data + a + BitVec.ofNat 64 i) = h'.ram (memory'.data + a + BitVec.ofNat 64 i) := by
  have hs := memory.size_le
  rw [BitVec.add_assoc, BitVec.add_assoc]
  apply halike.byte
  rw [add_toNat (by omega)]
  omega

theorem Alike.load32 (halike : Alike memory memory' h h') {a : U64} (ha : a.toNat + 4 ≤ memory.size) :
    i32Load memory a h.ram = i32Load memory' a h'.ram := by
  unfold i32Load HostMemory.load32 AddressedMemory.read
  congr 2
  apply List.map_congr_left
  intro i hi
  exact halike.offset ha (List.mem_range.mp hi)

section

variable {ciovecsPointer : U32} {i : ℕ}

theorem Alike.bufferPointer (halike : Alike memory memory' h h') (hi : i < 10)
    (hentry : ciovecsPointer.toNat + 8 * i + 8 ≤ memory.size) :
    bufferPointer memory h.ram ciovecsPointer i = bufferPointer memory' h'.ram ciovecsPointer i := by
  apply halike.load32
  rw [WasiDisclosure.ciovecAddress_toNat _ hi.le]
  omega

theorem Alike.bufferLength (halike : Alike memory memory' h h') (hi : i < 10)
    (hentry : ciovecsPointer.toNat + 8 * i + 8 ≤ memory.size) :
    bufferLength memory h.ram ciovecsPointer i = bufferLength memory' h'.ram ciovecsPointer i := by
  have hs := memory.size_le
  have haddr := WasiDisclosure.ciovecAddress_toNat ciovecsPointer hi.le
  have hnext : (ciovecAddress ciovecsPointer i + 4).toNat = ciovecsPointer.toNat + 8 * i + 4 := by
    rw [BitVec.toNat_add, haddr, show (4 : U64).toNat = 4 from rfl]
    omega
  apply halike.load32
  omega

theorem putLoop_alike {ram ram' : Ram} {b b' len : U64}
    (hbytes : ∀ j < len.toNat, ram (b + BitVec.ofNat 64 j) = ram' (b' + BitVec.ofNat 64 j))
    (left : ℕ) (i : CInt) : putLoop ram ⟨b, len⟩ left i = putLoop ram' ⟨b', len⟩ left i := by
  induction left generalizing i with
  | zero => rfl
  | succ left ih =>
    rw [putLoop, putLoop]
    split
    · rename_i hi
      have hbyte := hbytes (i.signExtend 64).toNat hi
      rw [BitVec.ofNat_toNat, BitVec.setWidth_eq] at hbyte
      rw [hbyte, ih]
    · rfl

theorem Alike.entryOutput (halike : Alike memory memory' h h') (hi : i < 10)
    (hentry : ciovecsPointer.toNat + 8 * i + 8 ≤ memory.size) (libc : Libc) (wasiFD : U32)
    (hbuffer : WasiSnapshotPreview1.bufferLength memory h.ram ciovecsPointer i = 0 ∨
      (WasiSnapshotPreview1.bufferPointer memory h.ram ciovecsPointer i).toNat +
        (WasiSnapshotPreview1.bufferLength memory h.ram ciovecsPointer i).toNat ≤ memory.size) :
    entryOutput libc memory h.ram wasiFD ciovecsPointer i =
      entryOutput libc memory' h'.ram wasiFD ciovecsPointer i := by
  unfold WasiSnapshotPreview1.entryOutput entryIovec
  rw [← halike.bufferPointer hi hentry, ← halike.bufferLength hi hentry]
  refine congrArg (_ ++ ·) (putLoop_alike (fun j hj => ?_) _ 0)
  rw [BitVec.toNat_setWidth] at hj
  have hwidth := (WasiSnapshotPreview1.bufferLength memory h.ram ciovecsPointer i).isLt
  have hpointer := (WasiSnapshotPreview1.bufferPointer memory h.ram ciovecsPointer i).isLt
  rcases hbuffer with hzero | hinside
  · rw [hzero] at hj
    simp at hj
  · apply halike.offset (n := j + 1) _ (Nat.lt_succ_self j)
    rw [BitVec.toNat_setWidth]
    omega

end

theorem Alike.delivery (halike : Alike memory memory' h h') {ciovecsPointer ciovecsCount : U32}
    (hcount : ciovecsCount.toNat ≤ 10)
    (hinside : CiovecsInside memory h.ram ciovecsPointer ciovecsCount) (libc : Libc) (wasiFD : U32) :
    delivery libc memory h.ram wasiFD ciovecsPointer ciovecsCount =
      delivery libc memory' h'.ram wasiFD ciovecsPointer ciovecsCount := by
  have htotal : totalLength memory h.ram ciovecsPointer (List.range ciovecsCount.toNat) =
      totalLength memory' h'.ram ciovecsPointer (List.range ciovecsCount.toNat) := by
    refine congrArg List.sum (List.map_congr_left fun i hi => ?_)
    have hlt := List.mem_range.mp hi
    rw [halike.bufferLength (by omega) (hinside i hlt).1]
  have houtput : (List.range ciovecsCount.toNat).flatMap
        (WasiSnapshotPreview1.entryOutput libc memory h.ram wasiFD ciovecsPointer) =
      (List.range ciovecsCount.toNat).flatMap
        (WasiSnapshotPreview1.entryOutput libc memory' h'.ram wasiFD ciovecsPointer) := by
    refine List.flatMap_congr fun i hi => ?_
    have hlt := List.mem_range.mp hi
    exact halike.entryOutput (by omega) (hinside i hlt).1 libc wasiFD (hinside i hlt).2
  rw [WasiDisclosure.delivery, WasiDisclosure.delivery, htotal, houtput]

theorem Alike.write (halike : Alike memory memory' h h') (p : U64) (vs : List U8) {i : ℕ}
    (hi : i < memory.size) :
    AddressedMemory.write h.ram (memory.data + p) vs (memory.data + BitVec.ofNat 64 i) =
      AddressedMemory.write h'.ram (memory'.data + p) vs (memory'.data + BitVec.ofNat 64 i) := by
  have hoffset (b : U64) : b + BitVec.ofNat 64 i - (b + p) = BitVec.ofNat 64 i - p :=
    add_sub_add_left_eq_sub _ _ _
  unfold AddressedMemory.write
  rw [hoffset, hoffset, halike.linear i hi]

theorem Alike.applyTo (halike : Alike memory memory' h h') (o : Outcome) (resultPointer : U32) :
    Alike memory memory' (o.applyTo memory resultPointer h).2 (o.applyTo memory' resultPointer h').2 := by
  refine ⟨fun i hi => ?_, congrArg (· ++ o.emitted) halike.console, halike.ticks⟩
  simp only [Outcome.applyTo]
  cases o.stored with
  | none => exact halike.linear i hi
  | some v => exact halike.write _ _ hi

theorem Alike.stub (halike : Alike memory memory' h h') (libc : Libc) (fmt : String)
    (args : List U64) (errno : U32) :
    (stub libc fmt args errno h).1 = (stub libc fmt args errno h').1 ∧
      Alike memory memory' (stub libc fmt args errno h).2 (stub libc fmt args errno h').2 :=
  ⟨rfl, halike.linear, congrArg (· ++ libc.printf fmt args) halike.console, halike.ticks⟩

theorem Alike.fdWrite (halike : Alike memory memory' h h') (libc : Libc)
    {wasiFD ciovecsPointer ciovecsCount resultPointer : U32}
    (hinside : ciovecsCount.toNat ≤ 10 → CiovecsInside memory h.ram ciovecsPointer ciovecsCount) :
    let r := fdWrite libc memory wasiFD ciovecsPointer ciovecsCount resultPointer h
    let r' := fdWrite libc memory' wasiFD ciovecsPointer ciovecsCount resultPointer h'
    r.1 = r'.1 ∧ Alike memory memory' r.2 r'.2 := by
  by_cases hcount : 10 < ciovecsCount.toNat
  · rw [WasiDisclosure.fdWrite_refusal libc memory _ _ _ _ h hcount,
      WasiDisclosure.fdWrite_refusal libc memory' _ _ _ _ h' hcount]
    exact ⟨rfl, halike.applyTo _ resultPointer⟩
  · have hle := Nat.le_of_not_lt hcount
    rw [WasiDisclosure.fdWrite_delivery libc memory _ _ _ _ h hle,
      WasiDisclosure.fdWrite_delivery libc memory' _ _ _ _ h' hle,
      ← halike.delivery hle (hinside hle) libc wasiFD]
    exact ⟨rfl, halike.applyTo _ resultPointer⟩

theorem Alike.clockTimeGet (halike : Alike memory memory' h h') (clockID : U32) (precision : U64)
    (resultPointer : U32) :
    let r := clockTimeGet memory clockID precision resultPointer h
    let r' := clockTimeGet memory' clockID precision resultPointer h'
    r.1 = r'.1 ∧ Alike memory memory' r.2 r'.2 := by
  refine ⟨rfl, fun i hi => ?_, halike.console, congrArg advance halike.ticks⟩
  change store64 h.ram _ (timeOffset + h.ticks) _ = store64 h'.ram _ (timeOffset + h'.ticks) _
  rw [halike.ticks]
  exact halike.write _ _ hi

theorem Alike.call (halike : Alike memory memory' h h') (libc : Libc) (c : WasiCall)
    (hbounds : InBounds memory h (.call c)) :
    (c.run libc memory h).1 = (c.run libc memory' h').1 ∧
      Alike memory memory' (c.run libc memory h).2 (c.run libc memory' h').2 := by
  cases c with
  | fdWrite wasiFD ciovecsPointer ciovecsCount resultPointer =>
    exact halike.fdWrite libc fun hle => (hbounds hle).1
  | clockTimeGet clockID precision resultPointer =>
    exact halike.clockTimeGet clockID precision resultPointer
  | pollOneoff => exact ⟨rfl, halike⟩
  | _ => exact halike.stub libc _ _ _

theorem Alike.store (halike : Alike memory memory' h h') (address : U32) (bytes : List U8) :
    Alike memory memory' (guestStore memory address bytes h) (guestStore memory' address bytes h') :=
  ⟨fun _ hi => halike.write _ _ hi, halike.console, halike.ticks⟩

end

section

variable {memory : WasmMemory} {a : U64}

theorem write_outside {p : U64} {vs : List U8} (hp : p.toNat + vs.length ≤ memory.size)
    (ha : a ∉ span memory.data memory.size) (ram : Ram) :
    AddressedMemory.write ram (memory.data + p) vs a = ram a := by
  apply write_of_notMem
  intro hmem
  obtain ⟨i, hi, rfl⟩ := offset_of_mem_span hmem
  exact ha (WasiDisclosure.offset_mem_linear hp hi)

theorem fdWrite_outside (libc : Libc) {wasiFD ciovecsPointer ciovecsCount resultPointer : U32}
    {h : Host} (hresult : ciovecsCount.toNat ≤ 10 → resultPointer.toNat + 4 ≤ memory.size)
    (ha : a ∉ span memory.data memory.size) :
    (fdWrite libc memory wasiFD ciovecsPointer ciovecsCount resultPointer h).2.ram a = h.ram a := by
  by_cases hcount : 10 < ciovecsCount.toNat
  · rw [fdWrite_refused libc memory _ _ _ _ h hcount]
  · have hle := Nat.le_of_not_lt hcount
    have hwidth := resultPointer.isLt
    rw [fdWrite_eq libc memory _ _ _ _ h hle]
    apply write_outside _ ha
    rw [BitVec.toNat_setWidth, LittleEndian.length_toBytes]
    have hin := hresult hle
    omega

theorem call_outside (libc : Libc) {c : WasiCall} {h : Host} (hbounds : InBounds memory h (.call c))
    (ha : a ∉ span memory.data memory.size) : (c.run libc memory h).2.ram a = h.ram a := by
  cases c with
  | fdWrite wasiFD ciovecsPointer ciovecsCount resultPointer =>
    exact fdWrite_outside libc (fun hle => (hbounds hle).2) ha
  | clockTimeGet clockID precision resultPointer =>
    have hwidth := resultPointer.isLt
    have hin : resultPointer.toNat + 8 ≤ memory.size := hbounds
    apply write_outside _ ha
    rw [BitVec.toNat_setWidth, LittleEndian.length_toBytes]
    omega
  | _ => rfl

theorem store_outside {address : U32} {bytes : List U8}
    (hin : address.toNat + bytes.length ≤ memory.size) (ha : a ∉ span memory.data memory.size)
    (h : Host) : (guestStore memory address bytes h).ram a = h.ram a := by
  have hwidth := address.isLt
  apply write_outside _ ha
  rw [BitVec.toNat_setWidth]
  omega

end

def hostStep (libc : Libc) (memory : WasmMemory) (h : Host) (step : GuestStep) : Option Host :=
  some (step.run libc memory h)

/-- A run whose steps keep to the linear memory returns the same to the guest, writes the same to
the console and leaves the same linear memory, whatever the rest of the host's memory holds and
wherever the linear memory lies in it, and changes nothing of that rest. -/
theorem guest_isolated (libc : Libc) (memory memory' : WasmMemory) (steps : List GuestStep)
    (h h' : Host) (halike : Alike memory memory' h h')
    (hbounds : StepsMeet (hostStep libc memory) (InBounds memory) h steps) :
    (guestRun libc memory steps h).1 = (guestRun libc memory' steps h').1 ∧
      Alike memory memory' (guestRun libc memory steps h).2 (guestRun libc memory' steps h').2 ∧
      ∀ a ∉ span memory.data memory.size, (guestRun libc memory steps h).2.ram a = h.ram a := by
  induction steps generalizing h h' with
  | nil => exact ⟨rfl, halike, fun _ _ => rfl⟩
  | cons s steps ih =>
    obtain ⟨hfirst, hrest⟩ := stepsMeet_cons.mp hbounds
    have hnext := hrest (s.run libc memory h) rfl
    cases s with
    | store address bytes =>
      obtain ⟨hsame, hend, hkept⟩ := ih _ _ (halike.store address bytes) hnext
      exact ⟨hsame, hend, fun a ha => (hkept a ha).trans (store_outside hfirst ha h)⟩
    | call c =>
      obtain ⟨hreturned, hcall⟩ := halike.call libc c hfirst
      obtain ⟨hsame, hend, hkept⟩ := ih _ _ hcall hnext
      refine ⟨?_, hend, fun a ha => (hkept a ha).trans (call_outside libc hfirst ha)⟩
      exact congrArg₂ List.cons hreturned hsame

def otherPage : WasmMemory := ⟨0x80400000, 131072, by decide, by decide⟩

def lowRam (secret : U8) : Host := ⟨fun a => if a.toNat < 0x80000000 then secret else 0, [], 1⟩

theorem lowRam_alike (secret secret' : U8) :
    Alike onePage otherPage (lowRam secret) (lowRam secret') := by
  refine ⟨fun i hi => ?_, rfl, rfl⟩
  have hi' : i < 65536 := hi
  have hdata : onePage.data.toNat = 0xa1040000 := rfl
  have hdata' : otherPage.data.toNat = 0x80400000 := rfl
  have hhigh : ¬ (onePage.data + BitVec.ofNat 64 i).toNat < 0x80000000 := by
    rw [add_toNat (by omega)]
    omega
  have hhigh' : ¬ (otherPage.data + BitVec.ofNat 64 i).toNat < 0x80000000 := by
    rw [add_toNat (by omega)]
    omega
  simp only [lowRam, if_neg hhigh, if_neg hhigh']

def helloSteps : List GuestStep :=
  [.store 0 [16, 0, 0, 0, 2], .store 16 [0x68, 0x69], .call (.fdWrite 1 0 1 8),
    .call (.clockTimeGet 0 0 24)]

theorem helloSteps_inBounds :
    StepsMeet (hostStep bareMetal onePage) (InBounds onePage) (lowRam 0x41) helloSteps := by
  refine stepsMeet_cons.mpr ⟨(by decide : (0 : U32).toNat + 5 ≤ 65536), ?_⟩
  rintro _ ⟨⟩
  refine stepsMeet_cons.mpr ⟨(by decide : (16 : U32).toNat + 2 ≤ 65536), ?_⟩
  rintro _ ⟨⟩
  refine stepsMeet_cons.mpr ⟨fun _ => ⟨by decide, by decide⟩, ?_⟩
  rintro _ ⟨⟩
  refine stepsMeet_cons.mpr ⟨(by decide : (24 : U32).toNat + 8 ≤ 65536), ?_⟩
  rintro _ ⟨⟩
  exact stepsMeet_nil

theorem guest_isolated_hello :
    (guestRun bareMetal onePage helloSteps (lowRam 0x41)).1 =
        (guestRun bareMetal otherPage helloSteps (lowRam 0x42)).1 ∧
      Alike onePage otherPage (guestRun bareMetal onePage helloSteps (lowRam 0x41)).2
        (guestRun bareMetal otherPage helloSteps (lowRam 0x42)).2 ∧
      ∀ a ∉ span onePage.data onePage.size,
        (guestRun bareMetal onePage helloSteps (lowRam 0x41)).2.ram a = (lowRam 0x41).ram a :=
  guest_isolated bareMetal onePage otherPage helloSteps _ _ (lowRam_alike 0x41 0x42)
    helloSteps_inBounds

end Wasrisc.GuestIsolation
