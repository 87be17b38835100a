import Wasrisc.HostMemory

namespace Wasrisc.BareMetalConsole

open HostMemory

abbrev CString := ℕ → U8

def literal (s : String) : CString := fun i => (s.toUTF8.data[i]?).elim 0 UInt8.toBitVec

def strlenMax : ℕ := 100

def strlenLoop (s : CString) : ℕ → ℕ → ℕ
  | 0, _ => strlenMax
  | left + 1, i => if s i = 0 then i else strlenLoop s left (i + 1)

def strlen (s : CString) : ℕ := strlenLoop s strlenMax 0

def putsLoop (s : CString) : ℕ → ℕ → List U8
  | 0, _ => []
  | left + 1, i => if i < strlen s then s i :: putsLoop s left (i + 1) else []

def puts (s : CString) : List U8 := putsLoop s strlenMax 0

def printf (fmt : CString) : List U8 :=
  -- the format itself, whatever the other arguments
  putsLoop fmt strlenMax 0

theorem strlenLoop_le (s : CString) (left i : ℕ) (h : i + left ≤ strlenMax) :
    strlenLoop s left i ≤ strlenMax := by
  induction left generalizing i with
  | zero => exact le_refl _
  | succ left ih =>
    rw [strlenLoop]
    split
    · omega
    · exact ih (i + 1) (by omega)

theorem strlen_le (s : CString) : strlen s ≤ strlenMax := strlenLoop_le s strlenMax 0 (by omega)

theorem strlenLoop_eq {s : CString} {n : ℕ} (hn : s n = 0) (hs : ∀ j < n, s j ≠ 0)
    (left i : ℕ) (hi : i ≤ n) (hl : n < i + left) : strlenLoop s left i = n := by
  induction left generalizing i with
  | zero => omega
  | succ left ih =>
    rw [strlenLoop]
    rcases Nat.lt_or_eq_of_le hi with h | rfl
    · rw [if_neg (hs i h)]
      exact ih (i + 1) h (by omega)
    · exact if_pos hn

theorem strlen_eq {s : CString} {n : ℕ} (hn : s n = 0) (hs : ∀ j < n, s j ≠ 0)
    (hl : n < strlenMax) : strlen s = n :=
  strlenLoop_eq hn hs strlenMax 0 (Nat.zero_le n) (by omega)

theorem putsLoop_eq (s : CString) (left i : ℕ) (hi : i ≤ strlen s) (hl : strlen s ≤ i + left) :
    putsLoop s left i = (List.range' i (strlen s - i)).map s := by
  induction left generalizing i with
  | zero => simp [putsLoop, show strlen s - i = 0 by omega]
  | succ left ih =>
    rw [putsLoop]
    split
    · rename_i h
      rw [ih (i + 1) h (by omega), show strlen s - i = (strlen s - (i + 1)) + 1 by omega,
        List.range'_succ, List.map_cons]
    · simp [show strlen s - i = 0 by omega]

theorem puts_eq (s : CString) : puts s = (List.range (strlen s)).map s := by
  rw [puts, putsLoop_eq s strlenMax 0 (Nat.zero_le _) (by have := strlen_le s; omega),
    List.range_eq_range', Nat.sub_zero]

end Wasrisc.BareMetalConsole
