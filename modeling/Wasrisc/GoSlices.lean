import Mathlib

namespace Wasrisc.GoSlices

abbrev Byte := BitVec 8
abbrev GoInt := BitVec 64

inductive Panic where
  | indexOutOfRange
  | sliceBoundsOutOfRange
  | makesliceLenOutOfRange
  | reflectValueError
  | panicked (text : String)
  deriving DecidableEq

def byteAt (data : List Byte) (index : GoInt) : Except Panic Byte :=
  if 0 ≤ index.toInt then data[index.toNat]?.elim (.error .indexOutOfRange) .ok
  else .error .indexOutOfRange

def bytesAt (data : List Byte) : ℕ → GoInt → Except Panic (List Byte)
  | 0, _ => .ok []
  | k + 1, index =>
    (byteAt data index).bind fun b => (bytesAt data k (index + 1)).map (b :: ·)

def slice (data : List Byte) (low high : GoInt) : Except Panic (List Byte) :=
  -- the bound of `high` is the capacity of `data`, here its length
  if 0 ≤ low.toInt ∧ low.toInt ≤ high.toInt ∧ high.toInt ≤ data.length then
    .ok ((data.drop low.toNat).take (high.toNat - low.toNat))
  else .error .sliceBoundsOutOfRange

def makeBytes (maxAlloc : ℕ) (n : GoInt) : Except Panic (List Byte) :=
  if 0 ≤ n.toInt ∧ n.toInt ≤ maxAlloc then .ok (List.replicate n.toNat 0)
  else .error .makesliceLenOutOfRange

def copy (dst src : List Byte) : List Byte := src.take dst.length ++ dst.drop src.length

theorem toInt_of_lt {n : GoInt} (h : n.toNat < 2 ^ 63) : n.toInt = n.toNat := by
  rw [BitVec.toInt_eq_toNat_cond, if_pos (by omega)]

theorem toInt_neg_of_le {n : GoInt} (h : 2 ^ 63 ≤ n.toNat) : n.toInt < 0 := by
  have hn := n.isLt
  rw [BitVec.toInt_eq_toNat_cond, if_neg (by omega)]
  omega

theorem byteAt_ok {data : List Byte} {index : GoInt} (hd : data.length ≤ 2 ^ 63)
    (h : index.toNat < data.length) : byteAt data index = .ok data[index.toNat] := by
  have hsign := toInt_of_lt (n := index) (by omega)
  rw [byteAt, if_pos (by omega), List.getElem?_eq_getElem h, Option.elim_some]

theorem byteAt_panics {data : List Byte} {index : GoInt} (h : data.length ≤ index.toNat) :
    byteAt data index = .error .indexOutOfRange := by
  rw [byteAt, List.getElem?_eq_none h]
  split
  · rfl
  · rfl

theorem bytesAt_ok {data : List Byte} (hd : data.length ≤ 2 ^ 63) (k : ℕ) (index : GoInt)
    (h : index.toNat + k ≤ data.length) :
    bytesAt data k index = .ok ((data.drop index.toNat).take k) := by
  induction k generalizing index with
  | zero => rw [bytesAt, List.take_zero]
  | succ k ih =>
    have hsucc : (index + 1).toNat = index.toNat + 1 := by
      rw [BitVec.toNat_add, show (1 : GoInt).toNat = 1 from rfl]
      omega
    rw [bytesAt, byteAt_ok hd (by omega), ih (index + 1) (by omega), hsucc,
      List.drop_eq_getElem_cons (show index.toNat < data.length by omega), List.take_succ_cons]
    rfl

theorem bytesAt_panics {data : List Byte} (hd : data.length ≤ 2 ^ 63) (k : ℕ) (index : GoInt)
    (hi : index.toNat ≤ data.length) (h : data.length < index.toNat + k) :
    bytesAt data k index = .error .indexOutOfRange := by
  induction k generalizing index with
  | zero => omega
  | succ k ih =>
    rw [bytesAt]
    rcases Nat.lt_or_eq_of_le hi with hlt | heq
    · have hsucc : (index + 1).toNat = index.toNat + 1 := by
        rw [BitVec.toNat_add, show (1 : GoInt).toNat = 1 from rfl]
        omega
      rw [byteAt_ok hd hlt, ih (index + 1) (by omega) (by omega)]
      rfl
    · rw [byteAt_panics (by omega)]
      rfl

theorem slice_ok {data : List Byte} {low high : GoInt} (hd : data.length < 2 ^ 63)
    (hle : low.toNat ≤ high.toNat) (hhigh : high.toNat ≤ data.length) :
    slice data low high = .ok ((data.drop low.toNat).take (high.toNat - low.toNat)) := by
  have hl := toInt_of_lt (n := low) (by omega)
  have hh := toInt_of_lt (n := high) (by omega)
  rw [slice, if_pos (by omega)]

theorem slice_panics {data : List Byte} {low high : GoInt} (hl : low.toNat < 2 ^ 63)
    (h : high.toNat < low.toNat ∨ data.length < high.toNat) :
    slice data low high = .error .sliceBoundsOutOfRange := by
  have hlow := toInt_of_lt hl
  rw [slice, if_neg]
  rcases Nat.lt_or_ge high.toNat (2 ^ 63) with hlt | hge
  · have hhigh := toInt_of_lt hlt
    omega
  · have hhigh := toInt_neg_of_le hge
    omega

theorem copy_all {dst src : List Byte} (h : dst.length = src.length) : copy dst src = src := by
  rw [copy, h, List.take_length, ← h, List.drop_length, List.append_nil]

end Wasrisc.GoSlices
