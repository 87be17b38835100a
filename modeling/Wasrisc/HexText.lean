import Mathlib

namespace Wasrisc.HexText

abbrev Byte := BitVec 8

def digit (d : ℕ) : Byte := if d < 10 then BitVec.ofNat 8 (48 + d) else BitVec.ofNat 8 (87 + d)

def value (c : Byte) : Option ℕ :=
  if 48 ≤ c.toNat ∧ c.toNat ≤ 57 then some (c.toNat - 48)
  else if 97 ≤ c.toNat ∧ c.toNat ≤ 102 then some (c.toNat - 87)
  else none

def digits : ℕ → ℕ → List Byte
  | 0, _ => []
  | k + 1, n => digits k (n / 16) ++ [digit (n % 16)]

def number (cs : List Byte) : Option ℕ :=
  cs.foldlM (fun n c => (value c).map (16 * n + ·)) 0

theorem value_digit {d : ℕ} (h : d < 16) : value (digit d) = some d := by
  have hall : ∀ d < 16, value (digit d) = some d := by decide
  exact hall d h

theorem length_digits (k n : ℕ) : (digits k n).length = k := by
  induction k generalizing n with
  | zero => rfl
  | succ k ih => rw [digits, List.length_append, ih, List.length_singleton]

theorem value_of_mem_digits {k n : ℕ} {c : Byte} (h : c ∈ digits k n) : value c ≠ none := by
  induction k generalizing n with
  | zero => exact absurd h List.not_mem_nil
  | succ k ih =>
    rw [digits, List.mem_append, List.mem_singleton] at h
    rcases h with h | rfl
    · exact ih h
    · rw [value_digit (Nat.mod_lt n (by decide))]
      exact Option.some_ne_none _

theorem number_digits (k n : ℕ) : number (digits k n) = some (n % 16 ^ k) := by
  induction k generalizing n with
  | zero => rw [Nat.pow_zero, Nat.mod_one]; rfl
  | succ k ih =>
    have hprefix := ih (n / 16)
    rw [number] at hprefix
    rw [number, digits, List.foldlM_append, hprefix]
    simp only [Option.bind_eq_bind, Option.bind_some, List.foldlM_cons, List.foldlM_nil,
      value_digit (Nat.mod_lt n (show 0 < 16 by decide)), Option.map_some]
    rw [Nat.pow_succ', Nat.mod_mul, Nat.add_comm]
    rfl

def terminatedLines (newline : Byte) (text : List Byte) : Option (List (List Byte)) :=
  let lines := text.splitOn newline
  if lines.getLast? = some [] then some lines.dropLast else none

theorem splitOn_terminated {newline : Byte} {lines : List (List Byte)}
    (h : ∀ line ∈ lines, newline ∉ line) :
    (lines.flatMap (· ++ [newline])).splitOn newline = lines ++ [[]] := by
  induction lines with
  | nil => rfl
  | cons line lines ih =>
    rw [List.flatMap_cons, List.append_assoc, List.singleton_append,
      List.splitOn_append_cons_self_of_not_mem (h line List.mem_cons_self),
      ih fun l hl => h l (List.mem_cons_of_mem _ hl), List.cons_append]

theorem terminatedLines_flatMap {newline : Byte} {lines : List (List Byte)}
    (h : ∀ line ∈ lines, newline ∉ line) :
    terminatedLines newline (lines.flatMap (· ++ [newline])) = some lines := by
  rw [terminatedLines, splitOn_terminated h]
  simp only [List.getLast?_concat, if_true, List.dropLast_concat]

end Wasrisc.HexText
