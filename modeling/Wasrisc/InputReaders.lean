import Wasrisc.ZkvmInput

namespace Wasrisc.InputReaders

open AddressedMemory HostMemory LittleEndian ZkvmInput

def wordBytes (ram : Ram) : List U8 :=
  (List.range (lenInputBuf ram).toNat).flatMap fun i =>
    toBytes 4 (readValue ram (BitVec.ofNat 32 i)).toNat

structure SameInput (ram : Ram) (n : ℕ) : Prop where
  length : (testmoduleInputDataLen ram).toNat = n
  words : (wordBytes ram).take n = AddressedMemory.read ram 0x90000010 n
  bytes : ∀ k < n, (testmoduleInputData ram (BitVec.ofNat 32 k)).toNat =
    (ram (BitVec.ofNat 64 (0x90000010 + k))).toNat
  agree : ((wordBytes ram).take n).map BitVec.toNat =
    (List.range n).map fun k => (testmoduleInputData ram (BitVec.ofNat 32 k)).toNat
  covers : ∀ m, n ≤ 4 * m ↔ (lenInputBuf ram).toNat ≤ m
  wordAddress : ∀ i < (lenInputBuf ram).toNat,
    (inputAddr + 4 * (BitVec.ofNat 32 i + 4)).toNat = inputAddr.toNat + 4 * (i + 4) ∧
      readValue ram (BitVec.ofNat 32 i) = load32 ram (BitVec.ofNat 64 (inputAddr.toNat + 4 * (i + 4)))
  byteAddress : ∀ k < n,
    (inputAddr + 4 * 4 + BitVec.ofNat 32 k).toNat = inputAddr.toNat + 4 * 4 + k ∧
      testmoduleInputData ram (BitVec.ofNat 32 k) =
        (ram (BitVec.ofNat 64 (inputAddr.toNat + 4 * 4 + k))).setWidth 32

theorem inputDataLen_eq {ram : Ram} {n : ℕ} (hlen : AddressedMemory.read ram 0x90000008 4 = toBytes 4 n)
    (hn : n < 2 ^ 32) : (testmoduleInputDataLen ram).toNat = n := by
  have haddr : (inputAddr + 4 * 2).setWidth 64 = (0x90000008 : U64) := rfl
  rw [testmoduleInputDataLen, haddr, load32, hlen, ofBytes_toBytes, BitVec.toNat_ofNat]
  omega

theorem readValue_eq (ram : Ram) {i : ℕ} (hi : 0x90000010 + 4 * i < 2 ^ 32) :
    readValue ram (BitVec.ofNat 32 i) = load32 ram (BitVec.ofNat 64 (0x90000010 + 4 * i)) := by
  apply congrArg (load32 ram)
  apply BitVec.eq_of_toNat_eq
  rw [BitVec.toNat_setWidth, wordAddress_toNat hi, BitVec.toNat_ofNat]

theorem wordBytes_eq {ram : Ram} {m : ℕ} (hm : (lenInputBuf ram).toNat = m)
    (hend : 0x90000010 + 4 * m ≤ 2 ^ 32) : wordBytes ram = AddressedMemory.read ram dataAddr (4 * m) := by
  unfold wordBytes
  rw [hm, ← flatMap_read]
  apply List.flatMap_congr
  intro i hi
  have hlt := List.mem_range.mp hi
  exact readValue_bytes ram (by omega)

theorem inputData_at (ram : Ram) {k : ℕ} (hk : 0x90000010 + k < 2 ^ 32) :
    testmoduleInputData ram (BitVec.ofNat 32 k) =
      (ram (BitVec.ofNat 64 (0x90000010 + k))).setWidth 32 := by
  have haddr : dataAddr + BitVec.ofNat 64 k = BitVec.ofNat 64 (0x90000010 + k) :=
    (BitVec.ofNat_add 0x90000010 k).symm
  rw [inputData_eq ram hk, haddr]

theorem inputData_toNat (ram : Ram) {k : ℕ} (hk : 0x90000010 + k < 2 ^ 32) :
    (testmoduleInputData ram (BitVec.ofNat 32 k)).toNat =
      (ram (BitVec.ofNat 64 (0x90000010 + k))).toNat := by
  have hbyte := (ram (BitVec.ofNat 64 (0x90000010 + k))).isLt
  rw [inputData_at ram hk, BitVec.toNat_setWidth]
  omega

theorem inputData_bytes (ram : Ram) {n : ℕ} (hend : 0x90000010 + n ≤ 2 ^ 32) :
    ((List.range n).map fun k => (testmoduleInputData ram (BitVec.ofNat 32 k)).toNat) =
      (AddressedMemory.read ram dataAddr n).map BitVec.toNat := by
  unfold AddressedMemory.read
  rw [List.map_map]
  apply List.map_congr_left
  intro k hk
  have hlt := List.mem_range.mp hk
  rw [inputData_toNat ram (by omega), Function.comp_apply, dataAddr, BitVec.ofNat_add]
  rfl

theorem readers_agree (ram : Ram) (n : ℕ)
    (hlen : AddressedMemory.read ram 0x90000008 4 = toBytes 4 n)
    (hend : 0x90000010 + n ≤ 0xa0000000) : SameInput ram n := by
  have haddr : inputAddr.toNat = 0x90000000 := rfl
  have hn := inputDataLen_eq hlen (by omega)
  have hwords := lenInputBuf_toNat ram
  rw [hn] at hwords
  have htake : (wordBytes ram).take n = AddressedMemory.read ram dataAddr n := by
    rw [wordBytes_eq rfl (by omega), take_read (by omega)]
  constructor
  · exact hn
  · exact htake
  · intro k hk
    exact inputData_toNat ram (by omega)
  · rw [htake, inputData_bytes ram (by omega)]
  · intro m
    omega
  · intro i hi
    have hsum : inputAddr.toNat + 4 * (i + 4) = 0x90000010 + 4 * i := by omega
    rw [hsum]
    exact ⟨wordAddress_toNat (by omega), readValue_eq ram (by omega)⟩
  · intro k hk
    have hsum : inputAddr.toNat + 4 * 4 + k = 0x90000010 + k := by omega
    rw [hsum]
    exact ⟨byteAddress_toNat (by omega), inputData_at ram (by omega)⟩

def raggedRam : Ram := fun a =>
  if a = 0x90000008 then 5 else if a = 0x90000011 then 7 else if a = 0x90000014 then 0xff else 0

theorem readers_agree_ragged : SameInput raggedRam 5 ∧
    (wordBytes raggedRam).take 5 = [0, 7, 0, 0, 0xff] ∧
    (List.range 5).map (fun k => (testmoduleInputData raggedRam (BitVec.ofNat 32 k)).toNat) =
      [0, 7, 0, 0, 255] :=
  ⟨readers_agree raggedRam 5 (by decide) (by decide), by decide, by decide⟩

end Wasrisc.InputReaders
