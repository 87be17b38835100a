import Wasrisc.InputPlatforms

namespace Wasrisc.GuestInput

open AddressedMemory HostMemory InputPlatforms
open Amd64 (Outcomes Process readInputData)

structure Imports where
  inputDataLen : U32
  inputData : U32 → U32

def zkvm (ram : Ram) : Imports :=
  ⟨ZkvmInput.testmoduleInputDataLen ram, ZkvmInput.testmoduleInputData ram⟩

def amd64 (p : Process) : Imports := ⟨Amd64.testmoduleInputDataLen p, Amd64.testmoduleInputData p⟩

namespace Go

def dataLoop (I : Imports) (n : U32) : ℕ → U32 → List U8 → List U8
  | 0, _, data => data
  | left + 1, i, data =>
    if i < n then dataLoop I n left (i + 1) (data.set i.toNat ((I.inputData i).setWidth 8))
    else data

def getInputData (I : Imports) : List U8 :=
  let n := I.inputDataLen
  dataLoop I n n.toNat 0 (List.replicate n.toNat 0)

end Go

namespace CSharp

inductive Exception where
  | overflow
  | outOfMemory
  deriving DecidableEq

def maxArrayLength : ℕ := 0x7fffffc7

def resultLoop (I : Imports) (n : CInt) : ℕ → CInt → List U8 → List U8
  | 0, _, result => result
  | left + 1, i, result =>
    if i.slt n then
      resultLoop I n left (i + 1) (result.set i.toInt.toNat ((I.inputData i).setWidth 8))
    else result

def inputDataBytes (I : Imports) : Except Exception (List U8) :=
  let n : CInt := I.inputDataLen
  if n.toInt < 0 then .error .overflow
  else if maxArrayLength < n.toNat then .error .outOfMemory
  else .ok (resultLoop I n n.toNat 0 (List.replicate n.toNat 0))

end CSharp

def Imports.bytes (I : Imports) : List U8 :=
  (List.range I.inputDataLen.toNat).map fun k => (I.inputData (BitVec.ofNat 32 k)).setWidth 8

theorem take_set_succ {α : Type*} {l : List α} {i : ℕ} (x : α) (hi : i < l.length) :
    (l.set i x).take (i + 1) = l.take i ++ [x] := by
  rw [List.take_add_one, List.take_set_of_le (le_refl i), List.getElem?_set_self hi]
  rfl

theorem dataLoop_eq (I : Imports) {n : U32} (left i : ℕ) (hi : i + left = n.toNat) (data : List U8)
    (hdata : data.length = n.toNat) :
    Go.dataLoop I n left (BitVec.ofNat 32 i) data = data.take i ++
      (List.range' i left).map fun k => (I.inputData (BitVec.ofNat 32 k)).setWidth 8 := by
  have hn := n.isLt
  induction left generalizing i data with
  | zero => simp [Go.dataLoop, show data.length ≤ i by omega]
  | succ left ih =>
    have hnat : (BitVec.ofNat 32 i).toNat = i := by
      rw [BitVec.toNat_ofNat]
      omega
    have hlt : BitVec.ofNat 32 i < n := by
      rw [BitVec.lt_def, hnat]
      omega
    have hsucc : BitVec.ofNat 32 i + 1 = BitVec.ofNat 32 (i + 1) := (BitVec.ofNat_add _ _).symm
    rw [Go.dataLoop, if_pos hlt, hsucc, ih (i + 1) (by omega) _ (by rw [List.length_set, hdata]),
      hnat, take_set_succ _ (by omega), List.range'_succ, List.map_cons, List.append_assoc]
    rfl

theorem resultLoop_eq (I : Imports) {n : CInt} (hn : 0 ≤ n.toInt) (left i : ℕ)
    (hi : i + left = n.toNat) (result : List U8) (hresult : result.length = n.toNat) :
    CSharp.resultLoop I n left (BitVec.ofNat 32 i) result = result.take i ++
      (List.range' i left).map fun k => (I.inputData (BitVec.ofNat 32 k)).setWidth 8 := by
  have hlt31 : n.toNat < 2 ^ 31 := by
    rw [BitVec.toInt_eq_toNat_cond] at hn
    split_ifs at hn <;> omega
  have hint : n.toInt = n.toNat := BitVec.toInt_eq_toNat_of_lt (by omega)
  induction left generalizing i result with
  | zero => simp [CSharp.resultLoop, show result.length ≤ i by omega]
  | succ left ih =>
    have hlt : (BitVec.ofNat 32 i).slt n := by
      rw [BitVec.slt_iff_toInt_lt, toInt_ofNat (by omega), hint]
      omega
    have hsucc : BitVec.ofNat 32 i + 1 = BitVec.ofNat 32 (i + 1) := (BitVec.ofNat_add _ _).symm
    rw [CSharp.resultLoop, if_pos hlt, hsucc,
      ih (i + 1) (by omega) _ (by rw [List.length_set, hresult]), toInt_ofNat (by omega),
      Int.toNat_natCast, take_set_succ _ (by omega), List.range'_succ, List.map_cons,
      List.append_assoc]
    rfl

theorem getInputData_eq (I : Imports) : Go.getInputData I = I.bytes := by
  have h : Go.dataLoop I I.inputDataLen I.inputDataLen.toNat 0 _ = _ :=
    dataLoop_eq I I.inputDataLen.toNat 0 (Nat.zero_add _) (List.replicate I.inputDataLen.toNat 0)
      List.length_replicate
  rw [Go.getInputData, h, List.take_zero, List.nil_append, Imports.bytes, List.range_eq_range']

theorem inputDataBytes_eq (I : Imports) : CSharp.inputDataBytes I =
    if 2 ^ 31 ≤ I.inputDataLen.toNat then .error .overflow
    else if CSharp.maxArrayLength < I.inputDataLen.toNat then .error .outOfMemory
    else .ok I.bytes := by
  have hneg : I.inputDataLen.toInt < 0 ↔ 2 ^ 31 ≤ I.inputDataLen.toNat := by
    rw [BitVec.toInt_eq_toNat_cond]
    split_ifs <;> omega
  unfold CSharp.inputDataBytes
  simp only [hneg]
  by_cases hlong : 2 ^ 31 ≤ I.inputDataLen.toNat
  · rw [if_pos hlong, if_pos hlong]
  · rw [if_neg hlong, if_neg hlong]
    have h : CSharp.resultLoop I I.inputDataLen I.inputDataLen.toNat 0 _ = _ :=
      resultLoop_eq I (by omega) I.inputDataLen.toNat 0 (Nat.zero_add _)
        (List.replicate I.inputDataLen.toNat 0) List.length_replicate
    rw [h, List.take_zero, List.nil_append, Imports.bytes, List.range_eq_range']

variable {o : Outcomes} {ram : Ram} {bytes : List U8}

theorem setWidth_signExtend (b : U8) : (b.signExtend 32).setWidth 8 = b := by
  revert b
  decide

theorem amd64_bytes (hloads : LoadsFile o bytes) (p : Process) (hlength : bytes.length < 2 ^ 32) :
    (amd64 (readInputData o p).process).bytes = bytes := by
  have hlen : (amd64 (readInputData o p).process).inputDataLen.toNat = bytes.length :=
    loaded_length hloads p hlength
  apply List.ext_getElem
  · simp [Imports.bytes, hlen]
  · intro k hk hk'
    have hbyte := loaded_byte hloads p hlength hk'
    simp only [Imports.bytes, List.getElem_map, List.getElem_range]
    exact (congrArg (BitVec.setWidth 8) hbyte).trans (setWidth_signExtend _)

theorem zkvm_bytes (hholds : HoldsInput ram bytes) (hlength : bytes.length < 2 ^ 28 - 16) :
    (zkvm ram).bytes = bytes := by
  have hlen : (zkvm ram).inputDataLen.toNat = bytes.length := placed_length hholds (by omega)
  apply List.ext_getElem
  · simp [Imports.bytes, hlen]
  · intro k hk hk'
    have hbyte := placed_byte hholds hlength hk'
    simp only [Imports.bytes, List.getElem_map, List.getElem_range]
    exact (congrArg (BitVec.setWidth 8) hbyte).trans (by simp)

/-- What amd64 loads from a file and what zkvm finds in its memory reach the guests byte for byte,
although the functions between them do not agree on bytes from 0x80 on. -/
theorem guests_get_input (bytes : List U8) (hlength : bytes.length < 2 ^ 28 - 16) (o : Outcomes)
    (hloads : LoadsFile o bytes) (p : Process) (ram : Ram) (hholds : HoldsInput ram bytes) :
    Go.getInputData (amd64 (readInputData o p).process) = bytes ∧
      CSharp.inputDataBytes (zkvm ram) = .ok bytes := by
  constructor
  · rw [getInputData_eq, amd64_bytes hloads p (by omega)]
  · have hlen : (zkvm ram).inputDataLen.toNat = bytes.length := placed_length hholds (by omega)
    rw [inputDataBytes_eq, hlen, if_neg (by omega), if_neg (by unfold CSharp.maxArrayLength; omega),
      zkvm_bytes hholds hlength]

theorem guests_get_input_binary :
    Go.getInputData (amd64 (readInputData (fileOutcomes [0xff, 0x41]) idleProcess).process) =
        [0xff, 0x41] ∧
      CSharp.inputDataBytes (zkvm (placedRam [0xff, 0x41])) = .ok [0xff, 0x41] :=
  guests_get_input [0xff, 0x41] (by decide) _ (fileOutcomes_load _) idleProcess _
    ⟨by decide, by decide⟩

end Wasrisc.GuestInput
