import Wasrisc.Memlib
import Wasrisc.WasiDisclosure

namespace Wasrisc.ConsoleWrites

open AddressedMemory HostMemory WasiSnapshotPreview1
open WasiDisclosure (CiovecsInside)

/-- The values that `i` takes in the loop over the bytes of one buffer, with the one at which the
loop ends. -/
def putIndices (v : Iovec) : ℕ → CInt → List CInt
  | 0, i => [i]
  | left + 1, i =>
    if i.signExtend 64 < v.iovLen then i :: putIndices v left (i + 1) else [i]

def buffer (memory : WasmMemory) (ram : Ram) (ciovecsPointer : U32) (i : ℕ) : List U8 :=
  read ram (memory.data + (bufferPointer memory ram ciovecsPointer i).setWidth 64)
    (bufferLength memory ram ciovecsPointer i).toNat

def buffers (memory : WasmMemory) (ram : Ram) (ciovecsPointer ciovecsCount : U32) : List U8 :=
  (List.range ciovecsCount.toNat).flatMap (buffer memory ram ciovecsPointer)

/-- No index wraps around: as numbers, the values are 0, 1, 2 and so on. -/
structure IndicesInRange (memory : WasmMemory) (ram : Ram) (ciovecsPointer ciovecsCount : U32) :
    Prop where
  ciovecs : (ciovecIndices ciovecsCount iovecsSize.toNat 0).map BitVec.toNat =
    List.range (ciovecsCount.toNat + 1)
  bytes : ∀ i < ciovecsCount.toNat,
    let v := entryIovec memory ram ciovecsPointer i
    (putIndices v v.iovLen.toNat 0).map BitVec.toInt =
      (List.range (v.iovLen.toNat + 1)).map Int.ofNat

structure Delivered (memory : WasmMemory) (ciovecsPointer ciovecsCount resultPointer : U32)
    (h : Host) (r : U32 × Host) : Prop where
  errno : r.1 = wasiErrnoSuccess
  console : r.2.console = h.console ++ buffers memory h.ram ciovecsPointer ciovecsCount
  stored : load32 r.2.ram (memory.data + resultPointer.setWidth 64) =
    BitVec.ofNat 32 (buffers memory h.ram ciovecsPointer ciovecsCount).length
  frame : ∀ a ∉ span (memory.data + resultPointer.setWidth 64) 4, r.2.ram a = h.ram a
  indices : IndicesInRange memory h.ram ciovecsPointer ciovecsCount

structure TooMany (libc : Libc) (h : Host) (r : U32 × Host) : Prop where
  errno : r.1 = wasiErrnoNomem
  console : r.2.console = h.console ++ libc.printf "fd_write: unexpected iovecs\n" []
  ram : r.2.ram = h.ram

section

variable {memory : WasmMemory} {ram : Ram} {ciovecsPointer ciovecsCount : U32}

theorem putIndex_lt {v : Iovec} (hv : v.iovLen.toNat < 2 ^ 31) {i : ℕ}
    (hi : i < v.iovLen.toNat) : (BitVec.ofNat 32 i).signExtend 64 < v.iovLen := by
  rw [signExtend_ofNat (by omega), BitVec.lt_def, BitVec.toNat_ofNat]
  omega

theorem putIndices_ne_nil (v : Iovec) (left : ℕ) (i : CInt) : putIndices v left i ≠ [] := by
  cases left with
  | zero => exact List.cons_ne_nil _ _
  | succ left =>
    rw [putIndices]
    split <;> exact List.cons_ne_nil _ _

theorem putLoop_indices (v : Iovec) (left : ℕ) (i : CInt) : putLoop ram v left i =
    (putIndices v left i).dropLast.map fun j => ram (v.iovBase + j.signExtend 64) := by
  induction left generalizing i with
  | zero => rfl
  | succ left ih =>
    rw [putLoop, putIndices]
    by_cases hlt : i.signExtend 64 < v.iovLen
    · rw [if_pos hlt, if_pos hlt, List.dropLast_cons_of_ne_nil (putIndices_ne_nil _ _ _),
        List.map_cons, ih]
    · rw [if_neg hlt, if_neg hlt]
      rfl

theorem putIndices_eq {v : Iovec} (hv : v.iovLen.toNat < 2 ^ 31) (left i : ℕ)
    (hi : i + left = v.iovLen.toNat) : putIndices v left (BitVec.ofNat 32 i) =
      (List.range' i (left + 1)).map (BitVec.ofNat 32) := by
  induction left generalizing i with
  | zero => rfl
  | succ left ih =>
    have hsucc : BitVec.ofNat 32 i + 1 = BitVec.ofNat 32 (i + 1) := (BitVec.ofNat_add _ _).symm
    rw [putIndices, if_pos (putIndex_lt hv (by omega)), hsucc, ih (i + 1) (by omega),
      List.range'_succ (n := left + 1), List.map_cons]

theorem putIndices_whole {v : Iovec} (hv : v.iovLen.toNat < 2 ^ 31) :
    putIndices v v.iovLen.toNat 0 = (List.range (v.iovLen.toNat + 1)).map (BitVec.ofNat 32) := by
  rw [List.range_eq_range']
  exact putIndices_eq hv v.iovLen.toNat 0 (by omega)

theorem putLoop_read {v : Iovec} (hv : v.iovLen.toNat < 2 ^ 31) :
    putLoop ram v v.iovLen.toNat 0 = AddressedMemory.read ram v.iovBase v.iovLen.toNat := by
  unfold AddressedMemory.read
  rw [putLoop_indices, putIndices_whole hv, List.range_succ, List.map_append, List.map_singleton,
    List.dropLast_concat, List.map_map]
  apply List.map_congr_left
  intro i hi
  rw [List.mem_range] at hi
  rw [Function.comp_apply, signExtend_ofNat (by omega)]

theorem ciovecIndices_range (hcount : ciovecsCount.toNat ≤ 10) :
    (ciovecIndices ciovecsCount iovecsSize.toNat 0).map BitVec.toNat =
      List.range (ciovecsCount.toNat + 1) := by
  have heq : ciovecIndices ciovecsCount iovecsSize.toNat 0 = _ :=
    ciovecIndices_eq hcount 10 0 (by omega) (Nat.zero_le _)
  rw [heq, Nat.sub_zero, ← List.range_eq_range', List.map_map]
  refine (List.map_congr_left fun i hi => ?_).trans (List.map_id _)
  rw [List.mem_range] at hi
  rw [Function.comp_apply, BitVec.toNat_ofNat, id_eq]
  omega

theorem putIndices_range {v : Iovec} (hv : v.iovLen.toNat < 2 ^ 31) :
    (putIndices v v.iovLen.toNat 0).map BitVec.toInt =
      (List.range (v.iovLen.toNat + 1)).map Int.ofNat := by
  rw [putIndices_whole hv, List.map_map]
  apply List.map_congr_left
  intro i hi
  rw [List.mem_range] at hi
  exact toInt_ofNat (by omega)

theorem entryIovec_length (i : ℕ) : (entryIovec memory ram ciovecsPointer i).iovLen.toNat =
    (bufferLength memory ram ciovecsPointer i).toNat := by
  have hlength := (bufferLength memory ram ciovecsPointer i).isLt
  unfold entryIovec
  rw [BitVec.toNat_setWidth]
  omega

theorem bufferLength_lt (hsize : memory.size ≤ Memlib.heapSize.toNat)
    (hinside : CiovecsInside memory ram ciovecsPointer ciovecsCount) {i : ℕ}
    (hi : i < ciovecsCount.toNat) : (bufferLength memory ram ciovecsPointer i).toNat < 2 ^ 31 := by
  rw [Memlib.heapSize_toNat] at hsize
  rcases (hinside i hi).2 with hzero | hend
  · rw [hzero]
    decide
  · omega

theorem descriptorLog_std {wasiFD : U32} (hfd : wasiFD = 1 ∨ wasiFD = 2) (libc : Libc)
    (fmt : String) (v : U32) : descriptorLog libc wasiFD fmt v = [] := by
  unfold descriptorLog
  apply if_neg
  rintro ⟨hout, herr⟩
  exact hfd.elim hout herr

theorem entryOutput_eq (libc : Libc) {wasiFD : U32} (hfd : wasiFD = 1 ∨ wasiFD = 2) {i : ℕ}
    (hi : (bufferLength memory ram ciovecsPointer i).toNat < 2 ^ 31) :
    entryOutput libc memory ram wasiFD ciovecsPointer i = buffer memory ram ciovecsPointer i := by
  have hlength : (entryIovec memory ram ciovecsPointer i).iovLen.toNat = _ := entryIovec_length i
  unfold entryOutput
  rw [descriptorLog_std hfd, List.nil_append, putLoop_read (by omega), hlength]
  rfl

theorem outputs_eq (libc : Libc) {wasiFD : U32} (hfd : wasiFD = 1 ∨ wasiFD = 2)
    (hsize : memory.size ≤ Memlib.heapSize.toNat)
    (hinside : CiovecsInside memory ram ciovecsPointer ciovecsCount) :
    (List.range ciovecsCount.toNat).flatMap (entryOutput libc memory ram wasiFD ciovecsPointer) =
      buffers memory ram ciovecsPointer ciovecsCount := by
  apply List.flatMap_congr
  intro i hi
  apply entryOutput_eq libc hfd
  exact bufferLength_lt hsize hinside (List.mem_range.mp hi)

theorem totalLength_setWidth (memory : WasmMemory) (ram : Ram) (ciovecsPointer : U32)
    (is : List ℕ) : (totalLength memory ram ciovecsPointer is).setWidth 32 =
      BitVec.ofNat 32 (is.flatMap (buffer memory ram ciovecsPointer)).length := by
  induction is with
  | nil => rfl
  | cons i is ih =>
    have hhead : ((bufferLength memory ram ciovecsPointer i).setWidth 64).setWidth 32 =
        BitVec.ofNat 32 (buffer memory ram ciovecsPointer i).length := by
      unfold buffer
      rw [length_read, BitVec.setWidth_setWidth_of_le _ (by omega), BitVec.setWidth_eq,
        BitVec.ofNat_toNat, BitVec.setWidth_eq]
    unfold totalLength at ih ⊢
    rw [List.map_cons, List.sum_cons, BitVec.setWidth_add _ _ (by omega), ih, hhead,
      List.flatMap_cons, List.length_append, BitVec.ofNat_add]

theorem indices_inRange (hcount : ciovecsCount.toNat ≤ 10)
    (hsize : memory.size ≤ Memlib.heapSize.toNat)
    (hinside : CiovecsInside memory ram ciovecsPointer ciovecsCount) :
    IndicesInRange memory ram ciovecsPointer ciovecsCount := by
  constructor
  · exact ciovecIndices_range hcount
  · intro i hi
    apply putIndices_range
    rw [entryIovec_length]
    exact bufferLength_lt hsize hinside hi

end

theorem fdWrite_delivers (libc : Libc) (memory : WasmMemory)
    (hsize : memory.size ≤ Memlib.heapSize.toNat) (wasiFD : U32) (hfd : wasiFD = 1 ∨ wasiFD = 2)
    (ciovecsPointer ciovecsCount resultPointer : U32) (h : Host) :
    (ciovecsCount.toNat ≤ 10 → CiovecsInside memory h.ram ciovecsPointer ciovecsCount →
      Delivered memory ciovecsPointer ciovecsCount resultPointer h
        (fdWrite libc memory wasiFD ciovecsPointer ciovecsCount resultPointer h)) ∧
    (10 < ciovecsCount.toNat →
      TooMany libc h (fdWrite libc memory wasiFD ciovecsPointer ciovecsCount resultPointer h)) := by
  constructor
  · intro hcount hinside
    rw [fdWrite_eq libc memory _ _ _ _ h hcount, descriptorLog_std hfd, List.append_nil,
      outputs_eq libc hfd hsize hinside, totalLength_setWidth]
    constructor
    · rfl
    · rfl
    · exact load32_store32_same _ _ _
    · intro a ha
      exact store32_of_notMem ha
    · exact indices_inRange hcount hsize hinside
  · intro hcount
    rw [fdWrite_refused libc memory _ _ _ _ h hcount, descriptorLog_std hfd, List.append_nil]
    exact ⟨rfl, rfl, rfl⟩

def overlapRam : Ram := fun a =>
  if a = 0xa1040000 then 16 else if a = 0xa1040004 then 1 else if a = 0xa104000c then 16
  else if a = 0xa1040010 then 0x68 else 0

def overlapHost : Host := ⟨overlapRam, [], 1⟩

theorem fdWrite_delivers_overlap :
    Delivered onePage 0 2 0 overlapHost (fdWrite bareMetal onePage 1 0 2 0 overlapHost) ∧
      TooMany bareMetal overlapHost (fdWrite bareMetal onePage 1 0 11 0 overlapHost) := by
  have hsize : onePage.size ≤ Memlib.heapSize.toNat := by decide
  constructor
  · exact (fdWrite_delivers bareMetal onePage hsize 1 (.inl rfl) 0 2 0 overlapHost).1 (by decide)
      (by decide)
  · exact (fdWrite_delivers bareMetal onePage hsize 1 (.inl rfl) 0 11 0 overlapHost).2 (by decide)

end Wasrisc.ConsoleWrites
