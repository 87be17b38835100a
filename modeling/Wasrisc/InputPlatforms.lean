import Wasrisc.Amd64
import Wasrisc.ZkvmInput

namespace Wasrisc.InputPlatforms

open AddressedMemory HostMemory
open Amd64 (Outcomes Process readInputData)

/-- The C library reports that the file opens, holds `bytes` and is read in full; of an empty file
`fread` counts no object. -/
structure LoadsFile (o : Outcomes) (bytes : List U8) : Prop where
  fopen : o.fopen = true
  ftell : o.ftell = BitVec.ofNat 64 bytes.length
  calloc : o.calloc ≠ 0
  fread : o.fread = if bytes = [] then 0 else 1
  delivered : o.delivered = bytes

structure HoldsInput (ram : Ram) (bytes : List U8) : Prop where
  length : load32 ram ((ZkvmInput.inputAddr + 4 * 2).setWidth 64) = BitVec.ofNat 32 bytes.length
  data : AddressedMemory.read ram ((ZkvmInput.inputAddr + 4 * 4).setWidth 64) bytes.length = bytes

structure SameInput (p : Process) (ram : Ram) (bytes : List U8) : Prop where
  amd64Length : (Amd64.testmoduleInputDataLen p).toNat = bytes.length
  zkvmLength : (ZkvmInput.testmoduleInputDataLen ram).toNat = bytes.length
  agree : ∀ k < bytes.length, Amd64.testmoduleInputData p (BitVec.ofNat 32 k) =
    ZkvmInput.testmoduleInputData ram (BitVec.ofNat 32 k)
  number : ∀ k (hk : k < bytes.length),
    (ZkvmInput.testmoduleInputData ram (BitVec.ofNat 32 k)).toNat = bytes[k].toNat

theorem signExtend_eq_setWidth_iff (b : U8) : b.signExtend 32 = b.setWidth 32 ↔ b < 0x80 := by
  revert b
  decide

variable {o : Outcomes} {ram : Ram} {bytes : List U8}

theorem loaded_length (hloads : LoadsFile o bytes) (p : Process) (hlength : bytes.length < 2 ^ 32) :
    (Amd64.testmoduleInputDataLen (readInputData o p).process).toNat = bytes.length := by
  rw [Amd64.readInputData_allocated p hloads.fopen hloads.calloc]
  change (o.ftell.setWidth 32).toNat = bytes.length
  rw [hloads.ftell, BitVec.toNat_setWidth, BitVec.toNat_ofNat]
  omega

theorem loaded_byte (hloads : LoadsFile o bytes) (p : Process) (hlength : bytes.length < 2 ^ 32)
    {k : ℕ} (hk : k < bytes.length) :
    Amd64.testmoduleInputData (readInputData o p).process (BitVec.ofNat 32 k) =
      bytes[k].signExtend 32 := by
  rw [Amd64.readInputData_allocated p hloads.fopen hloads.calloc]
  change (AddressedMemory.write _ o.calloc o.delivered
    (o.calloc + (BitVec.ofNat 32 k).setWidth 64)).signExtend 32 = _
  rw [hloads.delivered, setWidth_ofNat (by omega), write_offset hk (by omega)]

theorem placed_byte (hholds : HoldsInput ram bytes) (hlength : bytes.length < 2 ^ 28 - 16) {k : ℕ}
    (hk : k < bytes.length) :
    ZkvmInput.testmoduleInputData ram (BitVec.ofNat 32 k) = bytes[k].setWidth 32 := by
  have hbyte := List.getElem_of_eq hholds.data (by rw [length_read]; exact hk)
  simp only [AddressedMemory.read, List.getElem_map, List.getElem_range] at hbyte
  rw [ZkvmInput.inputData_eq ram (by omega), ← hbyte]
  rfl

theorem placed_length (hholds : HoldsInput ram bytes) (hlength : bytes.length < 2 ^ 32) :
    (ZkvmInput.testmoduleInputDataLen ram).toNat = bytes.length := by
  unfold ZkvmInput.testmoduleInputDataLen
  rw [hholds.length, BitVec.toNat_ofNat, Nat.mod_eq_of_lt hlength]

theorem same_input_iff (bytes : List U8) (hlength : bytes.length < 2 ^ 28 - 16) (o : Outcomes)
    (hloads : LoadsFile o bytes) (p : Process) (ram : Ram) (hholds : HoldsInput ram bytes) :
    SameInput (readInputData o p).process ram bytes ↔ ∀ b ∈ bytes, b < 0x80 := by
  have hwide : bytes.length < 2 ^ 32 := by omega
  constructor
  · intro h b hb
    obtain ⟨k, hk, rfl⟩ := List.getElem_of_mem hb
    have hagree := h.agree k hk
    rw [loaded_byte hloads p hwide hk, placed_byte hholds hlength hk] at hagree
    exact (signExtend_eq_setWidth_iff _).mp hagree
  · intro h
    constructor
    · exact loaded_length hloads p hwide
    · exact placed_length hholds hwide
    · intro k hk
      rw [loaded_byte hloads p hwide hk, placed_byte hholds hlength hk]
      exact (signExtend_eq_setWidth_iff _).mpr (h _ (List.getElem_mem hk))
    · intro k hk
      have hbyte := bytes[k].isLt
      rw [placed_byte hholds hlength hk, BitVec.toNat_setWidth]
      omega

def fileOutcomes (bytes : List U8) : Outcomes :=
  ⟨true, 0, BitVec.ofNat 64 bytes.length, 0x5000, if bytes = [] then 0 else 1, bytes⟩

theorem fileOutcomes_load (bytes : List U8) : LoadsFile (fileOutcomes bytes) bytes :=
  ⟨rfl, rfl, (by decide : (0x5000 : U64) ≠ 0), rfl, rfl⟩

def placedRam (bytes : List U8) : Ram :=
  AddressedMemory.write (store32 (fun _ => 0) 0x90000008 (BitVec.ofNat 32 bytes.length)) 0x90000010 bytes

def idleProcess : Process := ⟨fun _ => 0, fun _ => none, 0, 0⟩

theorem same_input_ascii :
    SameInput (readInputData (fileOutcomes [0x68, 0x69]) idleProcess).process
      (placedRam [0x68, 0x69]) [0x68, 0x69] :=
  (same_input_iff [0x68, 0x69] (by decide) _ (fileOutcomes_load _) idleProcess _
    ⟨by decide, by decide⟩).mpr (by decide)

theorem binary_input_differs :
    ¬ ∀ (bytes : List U8) (o : Outcomes) (p : Process) (ram : Ram), 0 < bytes.length →
      bytes.length < 2 ^ 28 - 16 → LoadsFile o bytes → HoldsInput ram bytes →
        SameInput (readInputData o p).process ram bytes := by
  intro hsame
  have hbyte := hsame [0xff] (fileOutcomes [0xff]) idleProcess (placedRam [0xff]) (by decide)
    (by decide) (fileOutcomes_load _) ⟨by decide, by decide⟩
  have hagree := hbyte.agree 0 (by decide)
  have hdiffer : (0xffffffff : U32) ≠ 0xff := by decide
  apply hdiffer
  exact hagree

end Wasrisc.InputPlatforms
