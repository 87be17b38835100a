import Wasrisc.BareMetalConsole
import Wasrisc.HexText

namespace Wasrisc.RiscvQemu

open HostMemory BareMetalConsole HexText

def hex : CString := literal "0123456789abcdef"

def printkLoop : ℕ → U32 → CString → CString
  | 0, _, buf => buf
  | i + 1, val, buf =>
    printkLoop i (val >>> 4) (Function.update buf (i + 2) (hex (val &&& 0xF).toNat))

/-- What `testmodule__printk` sends to the UART, given what the stack held where `buf` is. -/
def testmodulePrintk (stack : CString) (val : U32) : List U8 :=
  let buf := Function.update (Function.update stack 0 0x30) 1 0x78
  let buf := printkLoop 8 val buf
  let buf := Function.update (Function.update buf 10 0x0a) 11 0
  puts buf

def numeral (val : U32) : List U8 := 0x30 :: 0x78 :: digits 8 val.toNat

def line (val : U32) : List U8 := numeral val ++ [0x0a]

theorem hex_eq {d : ℕ} (h : d < 16) : hex d = digit d := by
  have hall : ∀ d < 16, hex d = digit d := by decide
  exact hall d h

theorem low_digit (val : U32) : hex (val &&& 0xF).toNat = digit (val.toNat % 16) := by
  have hlow : (val &&& 0xF).toNat = val.toNat % 16 := by
    rw [BitVec.toNat_and]
    exact Nat.and_two_pow_sub_one_eq_mod val.toNat 4
  rw [hlow, hex_eq (Nat.mod_lt _ (by decide))]

theorem printkLoop_of_le {n j : ℕ} (val : U32) (buf : CString) (h : n + 2 ≤ j) :
    printkLoop n val buf j = buf j := by
  induction n generalizing val buf with
  | zero => rfl
  | succ n ih =>
    rw [printkLoop, ih _ _ (by omega), Function.update_of_ne (by omega)]

theorem printkLoop_digits (n : ℕ) (val : U32) (buf : CString) :
    (List.range' 2 n).map (printkLoop n val buf) = digits n val.toNat := by
  induction n generalizing val buf with
  | zero => rfl
  | succ n ih =>
    have hshift : (val >>> 4).toNat = val.toNat / 16 := by
      rw [BitVec.toNat_ushiftRight]
      exact Nat.shiftRight_eq_div_pow _ _
    rw [List.range'_concat, List.map_append, printkLoop, ih, hshift, digits, List.map_singleton,
      Nat.one_mul, printkLoop_of_le _ _ (by omega), Nat.add_comm 2 n, Function.update_self,
      low_digit]

theorem line_ne_zero {val : U32} {c : U8} (h : c ∈ line val) : c ≠ 0 := by
  rintro rfl
  rw [line, numeral, List.mem_append, List.mem_cons, List.mem_cons, List.mem_singleton] at h
  rcases h with (h | h | h) | h
  · exact absurd h (by decide)
  · exact absurd h (by decide)
  · exact value_of_mem_digits h (by decide)
  · exact absurd h (by decide)

theorem testmodulePrintk_eq (stack : CString) (val : U32) :
    testmodulePrintk stack val = line val := by
  let buf₀ := Function.update (Function.update stack 0 0x30) 1 0x78
  let buf := Function.update (Function.update (printkLoop 8 val buf₀) 10 0x0a) 11 0
  have hdigits : (List.range' 2 8).map buf = digits 8 val.toNat := by
    rw [← printkLoop_digits 8 val buf₀]
    apply List.map_congr_left
    intro j hj
    have hlt := (List.mem_range'_1.mp hj).2
    simp only [buf]
    rw [Function.update_of_ne (by omega), Function.update_of_ne (by omega)]
  have hline : (List.range 11).map buf = line val := by
    rw [show List.range 11 = 0 :: 1 :: List.range' 2 8 ++ [10] from rfl, List.map_append,
      List.map_cons, List.map_cons, hdigits]
    rfl
  have hlength : strlen buf = 11 := by
    apply strlen_eq rfl _ (by decide)
    intro j hj
    refine line_ne_zero (?_ : buf j ∈ line val)
    rw [← hline]
    exact List.mem_map_of_mem (List.mem_range.mpr hj)
  change puts buf = line val
  rw [puts_eq, hlength, hline]

end Wasrisc.RiscvQemu
