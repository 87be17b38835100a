import Wasrisc.WasiSnapshotPreview1

namespace Wasrisc.WasiDisclosure

open AddressedMemory HostMemory WasiSnapshotPreview1

structure Outcome where
  errno : U32
  emitted : List U8
  stored : Option U32

def Outcome.applyTo (o : Outcome) (memory : WasmMemory) (resultPointer : U32) (h : Host) :
    U32 × Host :=
  (o.errno, { h with
    ram := o.stored.elim h.ram fun v => i32Store memory (resultPointer.setWidth 64) v h.ram
    console := h.console ++ o.emitted })

def refusal (libc : Libc) (wasiFD : U32) : Outcome where
  errno := wasiErrnoNomem
  emitted := descriptorLog libc wasiFD "wasi_snapshot_preview1__fd_write(wasiFD=%d)\n" wasiFD ++
    libc.printf "fd_write: unexpected iovecs\n" []
  stored := none

def delivery (libc : Libc) (memory : WasmMemory) (ram : Ram)
    (wasiFD ciovecsPointer ciovecsCount : U32) : Outcome where
  errno := wasiErrnoSuccess
  emitted := descriptorLog libc wasiFD "wasi_snapshot_preview1__fd_write(wasiFD=%d)\n" wasiFD ++
    (List.range ciovecsCount.toNat).flatMap (entryOutput libc memory ram wasiFD ciovecsPointer)
  stored := some
    ((totalLength memory ram ciovecsPointer (List.range ciovecsCount.toNat)).setWidth 32)

def LinearAgree (memory : WasmMemory) (ram ram' : Ram) : Prop :=
  Set.EqOn ram ram' (span memory.data memory.size)

def CiovecsInside (memory : WasmMemory) (ram : Ram) (ciovecsPointer ciovecsCount : U32) : Prop :=
  ∀ i < ciovecsCount.toNat, ciovecsPointer.toNat + 8 * i + 8 ≤ memory.size ∧
    (bufferLength memory ram ciovecsPointer i = 0 ∨
      (bufferPointer memory ram ciovecsPointer i).toNat +
        (bufferLength memory ram ciovecsPointer i).toNat ≤ memory.size)

instance (memory : WasmMemory) (ram : Ram) (ciovecsPointer ciovecsCount : U32) :
    Decidable (CiovecsInside memory ram ciovecsPointer ciovecsCount) :=
  inferInstanceAs (Decidable (∀ i < ciovecsCount.toNat, _))

theorem ciovecAddress_toNat (ciovecsPointer : U32) {i : ℕ} (hi : i ≤ 10) :
    (ciovecAddress ciovecsPointer i).toNat = ciovecsPointer.toNat + 8 * i := by
  have hp := ciovecsPointer.isLt
  rw [ciovecAddress, BitVec.toNat_add, BitVec.toNat_mul, BitVec.toNat_setWidth, BitVec.toNat_ofNat,
    show ciovecSize.toNat = 8 from rfl]
  omega

theorem offset_mem_linear {memory : WasmMemory} {a : U64} {n i : ℕ} (ha : a.toNat + n ≤ memory.size)
    (hi : i < n) : memory.data + a + BitVec.ofNat 64 i ∈ span memory.data memory.size := by
  have hs := memory.size_le
  rw [mem_span, BitVec.add_assoc, BitVec.add_comm, BitVec.add_sub_cancel, add_toNat (by omega)]
  omega

theorem entry_subset_linear {memory : WasmMemory} {ciovecsPointer : U32} {i : ℕ} (hi : i < 10)
    (hentry : ciovecsPointer.toNat + 8 * i + 8 ≤ memory.size) :
    span (memory.data + ciovecAddress ciovecsPointer i) 8 ⊆ span memory.data memory.size := by
  have ha := ciovecAddress_toNat ciovecsPointer hi.le
  intro b hb
  obtain ⟨j, hj, rfl⟩ := offset_of_mem_span hb
  exact offset_mem_linear (by omega) hj

theorem putLoop_congr {ram ram' : Ram} {v : Iovec}
    (h : ∀ j < v.iovLen.toNat, ram (v.iovBase + BitVec.ofNat 64 j) =
      ram' (v.iovBase + BitVec.ofNat 64 j)) (left : ℕ) (i : CInt) :
    putLoop ram v left i = putLoop ram' v left i := by
  induction left generalizing i with
  | zero => rfl
  | succ left ih =>
    rw [putLoop, putLoop]
    split
    · rename_i hi
      have hbyte := h (i.signExtend 64).toNat hi
      rw [BitVec.ofNat_toNat, BitVec.setWidth_eq] at hbyte
      rw [hbyte, ih]
    · rfl

theorem entryOutput_agree {memory : WasmMemory} {ram ram' : Ram}
    (hagree : LinearAgree memory ram ram') {ciovecsPointer : U32} {i : ℕ} (hi : i < 10)
    (hentry : ciovecsPointer.toNat + 8 * i + 8 ≤ memory.size) (libc : Libc) (wasiFD : U32)
    (hbuffer : bufferLength memory ram ciovecsPointer i = 0 ∨
      (bufferPointer memory ram ciovecsPointer i).toNat +
        (bufferLength memory ram ciovecsPointer i).toNat ≤ memory.size) :
    entryOutput libc memory ram wasiFD ciovecsPointer i =
      entryOutput libc memory ram' wasiFD ciovecsPointer i := by
  have hagreeEntry := hagree.mono (entry_subset_linear hi hentry)
  have hpointer := bufferPointer_congr hagreeEntry
  have hlength := bufferLength_congr hagreeEntry
  have hiovec : entryIovec memory ram ciovecsPointer i = entryIovec memory ram' ciovecsPointer i := by
    rw [entryIovec, entryIovec, hpointer, hlength]
  rw [entryOutput, entryOutput, ← hlength, ← hiovec, putLoop_congr]
  intro j hj
  rw [entryIovec, BitVec.toNat_setWidth] at hj
  have hwidth := (bufferLength memory ram ciovecsPointer i).isLt
  apply hagree
  rcases hbuffer with hzero | hinside
  · rw [hzero] at hj
    simp at hj
  · apply offset_mem_linear (n := (bufferLength memory ram ciovecsPointer i).toNat)
    · rw [BitVec.toNat_setWidth]
      omega
    · omega

theorem delivery_agree {memory : WasmMemory} {ram ram' : Ram} (hagree : LinearAgree memory ram ram')
    {ciovecsPointer ciovecsCount : U32} (hcount : ciovecsCount.toNat ≤ 10)
    (hinside : CiovecsInside memory ram ciovecsPointer ciovecsCount) (libc : Libc) (wasiFD : U32) :
    delivery libc memory ram wasiFD ciovecsPointer ciovecsCount =
      delivery libc memory ram' wasiFD ciovecsPointer ciovecsCount := by
  have htotal : totalLength memory ram ciovecsPointer (List.range ciovecsCount.toNat) =
      totalLength memory ram' ciovecsPointer (List.range ciovecsCount.toNat) :=
    totalLength_congr fun i hi => hagree.mono (entry_subset_linear (by omega) (hinside i hi).1)
  have houtput : (List.range ciovecsCount.toNat).flatMap
        (entryOutput libc memory ram wasiFD ciovecsPointer) =
      (List.range ciovecsCount.toNat).flatMap
        (entryOutput libc memory ram' wasiFD ciovecsPointer) := by
    refine List.flatMap_congr fun i hi => ?_
    have hi := List.mem_range.mp hi
    exact entryOutput_agree hagree (by omega) (hinside i hi).1 libc wasiFD (hinside i hi).2
  rw [delivery, delivery, htotal, houtput]

theorem fdWrite_refusal (libc : Libc) (memory : WasmMemory)
    (wasiFD ciovecsPointer ciovecsCount resultPointer : U32) (h : Host)
    (hcount : 10 < ciovecsCount.toNat) :
    fdWrite libc memory wasiFD ciovecsPointer ciovecsCount resultPointer h =
      (refusal libc wasiFD).applyTo memory resultPointer h := by
  rw [fdWrite_refused libc memory _ _ _ _ h hcount, Outcome.applyTo, refusal, List.append_assoc]
  rfl

theorem fdWrite_delivery (libc : Libc) (memory : WasmMemory)
    (wasiFD ciovecsPointer ciovecsCount resultPointer : U32) (h : Host)
    (hcount : ciovecsCount.toNat ≤ 10) :
    fdWrite libc memory wasiFD ciovecsPointer ciovecsCount resultPointer h =
      (delivery libc memory h.ram wasiFD ciovecsPointer ciovecsCount).applyTo memory
        resultPointer h := by
  rw [fdWrite_eq libc memory _ _ _ _ h hcount, Outcome.applyTo, delivery, List.append_assoc]
  rfl

theorem fdWrite_discloses_nothing (libc : Libc) (memory : WasmMemory)
    (wasiFD ciovecsPointer ciovecsCount resultPointer : U32) (h h' : Host)
    (hagree : LinearAgree memory h.ram h'.ram) :
    ∃ o o' : Outcome,
      fdWrite libc memory wasiFD ciovecsPointer ciovecsCount resultPointer h =
        o.applyTo memory resultPointer h ∧
      fdWrite libc memory wasiFD ciovecsPointer ciovecsCount resultPointer h' =
        o'.applyTo memory resultPointer h' ∧
      (10 < ciovecsCount.toNat → o = refusal libc wasiFD ∧ o' = refusal libc wasiFD) ∧
      (ciovecsCount.toNat ≤ 10 → o.errno = wasiErrnoSuccess ∧ o'.errno = wasiErrnoSuccess) ∧
      (CiovecsInside memory h.ram ciovecsPointer ciovecsCount → o = o') := by
  by_cases hcount : 10 < ciovecsCount.toNat
  · exact ⟨refusal libc wasiFD, refusal libc wasiFD,
      fdWrite_refusal libc memory _ _ _ _ h hcount, fdWrite_refusal libc memory _ _ _ _ h' hcount,
      fun _ => ⟨rfl, rfl⟩, fun hle => absurd hcount (Nat.not_lt.mpr hle), fun _ => rfl⟩
  · have hle := Nat.le_of_not_lt hcount
    exact ⟨_, _, fdWrite_delivery libc memory _ _ _ _ h hle,
      fdWrite_delivery libc memory _ _ _ _ h' hle, fun hlt => absurd hlt hcount,
      fun _ => ⟨rfl, rfl⟩, fun hinside => delivery_agree hagree hle hinside libc wasiFD⟩

def greetingRam (secret : U8) : Ram := fun a =>
  if a = 0xa1040000 then 16 else if a = 0xa1040004 then 2 else
    if a = 0xa1040010 then 0x68 else if a = 0xa1040011 then 0x69 else
      if a = 0xa1050000 then secret else 0

def greetingHost (secret : U8) : Host := ⟨greetingRam secret, [], 1⟩

theorem greetingRam_agree (secret secret' : U8) :
    LinearAgree onePage (greetingRam secret) (greetingRam secret') := by
  intro a ha
  have hne : a ≠ 0xa1050000 := by
    rintro rfl
    exact absurd ha (by decide)
  simp only [greetingRam, if_neg hne]

theorem fdWrite_discloses_nothing_greeting :
    (greetingHost 0x41).ram 0xa1050000 ≠ (greetingHost 0x42).ram 0xa1050000 ∧
    ∃ o o' : Outcome,
      fdWrite bareMetal onePage 1 0 1 8 (greetingHost 0x41) =
        o.applyTo onePage 8 (greetingHost 0x41) ∧
      fdWrite bareMetal onePage 1 0 1 8 (greetingHost 0x42) =
        o'.applyTo onePage 8 (greetingHost 0x42) ∧
      o = o' ∧ o.emitted = [0x68, 0x69] := by
  refine ⟨by decide, ?_⟩
  obtain ⟨o, o', ho, ho', -, -, heq⟩ := fdWrite_discloses_nothing bareMetal onePage 1 0 1 8
    (greetingHost 0x41) (greetingHost 0x42) (greetingRam_agree 0x41 0x42)
  have hinside : CiovecsInside onePage (greetingHost 0x41).ram 0 1 := by decide
  have hconsole : (fdWrite bareMetal onePage 1 0 1 8 (greetingHost 0x41)).2.console =
      [0x68, 0x69] := by decide
  rw [ho] at hconsole
  exact ⟨o, o', ho, ho', heq hinside, hconsole⟩

def peekRam (secret : U8) : Ram := fun a =>
  if a = 0xa1040002 ∨ a = 0xa1040004 then 1 else if a = 0xa1050000 then secret else 0

def peekHost (secret : U8) : Host := ⟨peekRam secret, [], 1⟩

theorem peekRam_agree (secret secret' : U8) :
    LinearAgree onePage (peekRam secret) (peekRam secret') := by
  intro a ha
  have hne : a ≠ 0xa1050000 := by
    rintro rfl
    exact absurd ha (by decide)
  simp only [peekRam, if_neg hne]

theorem fdWrite_discloses_byte :
    LinearAgree onePage (peekHost 0x41).ram (peekHost 0x42).ram ∧
      ¬ CiovecsInside onePage (peekHost 0x41).ram 0 1 ∧
      (fdWrite bareMetal onePage 1 0 1 8 (peekHost 0x41)).1 = wasiErrnoSuccess ∧
      (fdWrite bareMetal onePage 1 0 1 8 (peekHost 0x41)).2.console = [0x41] ∧
      (fdWrite bareMetal onePage 1 0 1 8 (peekHost 0x42)).2.console = [0x42] :=
  ⟨peekRam_agree 0x41 0x42, by decide, by decide, by decide, by decide⟩

end Wasrisc.WasiDisclosure
