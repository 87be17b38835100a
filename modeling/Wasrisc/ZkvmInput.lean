import Wasrisc.HostMemory

namespace Wasrisc.ZkvmInput

open AddressedMemory HostMemory

def inputAddr : U32 := 0x90000000

def lenInputBuf (ram : Ram) : U32 :=
  let val := load32 ram ((inputAddr + 4 * 2).setWidth 64)
  let len := val / 4
  if val % 4 ≠ 0 then len + 1 else len

def readValue (ram : Ram) (i : U32) : U32 :=
  load32 ram ((inputAddr + 4 * (i + 4)).setWidth 64)

def testmoduleInputDataLen (ram : Ram) : U32 := load32 ram ((inputAddr + 4 * 2).setWidth 64)

def testmoduleInputData (ram : Ram) (index : U32) : U32 :=
  -- `char` is unsigned on RISC-V
  (ram ((inputAddr + 4 * 4 + index).setWidth 64)).setWidth 32

def dataAddr : U64 := 0x90000010

theorem lenInputBuf_toNat (ram : Ram) :
    (lenInputBuf ram).toNat = ((testmoduleInputDataLen ram).toNat + 3) / 4 := by
  have hlen := (testmoduleInputDataLen ram).isLt
  have hfour : (4 : U32).toNat = 4 := rfl
  change (if testmoduleInputDataLen ram % 4 ≠ 0 then testmoduleInputDataLen ram / 4 + 1
    else testmoduleInputDataLen ram / 4).toNat = _
  have hrest : testmoduleInputDataLen ram % 4 = 0 ↔ (testmoduleInputDataLen ram).toNat % 4 = 0 := by
    rw [← BitVec.toNat_inj, BitVec.toNat_umod, hfour]
    rfl
  split_ifs with h
  · rw [BitVec.toNat_add, BitVec.toNat_udiv, hfour, show (1 : U32).toNat = 1 from rfl]
    have hdvd := mt hrest.mpr h
    omega
  · rw [BitVec.toNat_udiv, hfour]
    have hdvd := hrest.mp (not_not.mp h)
    omega

theorem wordAddress_toNat {i : ℕ} (hi : 0x90000010 + 4 * i < 2 ^ 32) :
    (inputAddr + 4 * (BitVec.ofNat 32 i + 4)).toNat = 0x90000010 + 4 * i := by
  have haddr : inputAddr.toNat = 0x90000000 := rfl
  rw [BitVec.toNat_add, BitVec.toNat_mul, BitVec.toNat_add, BitVec.toNat_ofNat, haddr,
    show (4 : U32).toNat = 4 from rfl]
  omega

theorem byteAddress_toNat {k : ℕ} (hk : 0x90000010 + k < 2 ^ 32) :
    (inputAddr + 4 * 4 + BitVec.ofNat 32 k).toNat = 0x90000010 + k := by
  have haddr : (inputAddr + 4 * 4).toNat = 0x90000010 := by decide
  rw [BitVec.toNat_add, haddr, BitVec.toNat_ofNat]
  omega

theorem dataAddr_add {k : ℕ} (hk : 0x90000010 + k < 2 ^ 32) :
    (dataAddr + BitVec.ofNat 64 k).toNat = 0x90000010 + k :=
  add_toNat (show 0x90000010 + k < 2 ^ 64 by omega)

theorem readValue_bytes (ram : Ram) {i : ℕ} (hi : 0x90000010 + 4 * i < 2 ^ 32) :
    LittleEndian.toBytes 4 (readValue ram (BitVec.ofNat 32 i)).toNat =
      read ram (dataAddr + BitVec.ofNat 64 (4 * i)) 4 := by
  have haddr : (inputAddr + 4 * (BitVec.ofNat 32 i + 4)).setWidth 64 =
      dataAddr + BitVec.ofNat 64 (4 * i) := by
    apply BitVec.eq_of_toNat_eq
    rw [BitVec.toNat_setWidth, wordAddress_toNat hi, dataAddr_add hi]
    omega
  unfold readValue
  rw [toBytes_load32, haddr]

theorem inputData_eq (ram : Ram) {k : ℕ} (hk : 0x90000010 + k < 2 ^ 32) :
    testmoduleInputData ram (BitVec.ofNat 32 k) =
      (ram (dataAddr + BitVec.ofNat 64 k)).setWidth 32 := by
  have haddr : (inputAddr + 4 * 4 + BitVec.ofNat 32 k).setWidth 64 =
      dataAddr + BitVec.ofNat 64 k := by
    apply BitVec.eq_of_toNat_eq
    rw [BitVec.toNat_setWidth, byteAddress_toNat hk, dataAddr_add hk]
    omega
  unfold testmoduleInputData
  rw [haddr]

end Wasrisc.ZkvmInput
