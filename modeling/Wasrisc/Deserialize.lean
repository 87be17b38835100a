import Wasrisc.GoSlices
import Wasrisc.LittleEndian

namespace Wasrisc.Deserialize

open GoSlices LittleEndian

/-- How a struct declares a field: by an exported name, or by another one, which `reflect` keeps
from being set unless the field is an embedded struct. -/
inductive Access where
  | exported | embedded | unexported
  deriving DecidableEq

abbrev TypeName := String

/-- The types that `DeserializeData` may be asked for, by the kinds it tells apart. A pointer has the
name of its element type, which may hold such pointers itself. -/
inductive GoType where
  | bool | int8 | uint8 | int16 | uint16 | int32 | uint32 | int64 | uint64
  | slice (elem : GoType)
  | array (length : ℕ) (elem : GoType)
  | string
  | ptr (elem : TypeName)
  | struct (fields : List (Access × GoType))
  | other (kind : String)

inductive GoValue where
  | bool (b : Bool)
  | int (n : ℤ)
  | uint (n : ℕ)
  | bytes (bs : List Byte)
  | array (vs : List GoValue)
  | string (bs : List Byte)
  | nilPtr
  | struct (vs : List GoValue)

/-- The read-only flags of a `reflect.Value`. -/
inductive FlagRO where
  | none | embedRO | stickyRO
  deriving DecidableEq

def FlagRO.index : FlagRO → FlagRO
  | .none => .none
  | _ => .stickyRO

def FlagRO.field : FlagRO → Access → FlagRO
  | .stickyRO, _ => .stickyRO
  | _, .exported => .none
  | _, .embedded => .embedRO
  | _, .unexported => .stickyRO

def assign (ro : FlagRO) (method : String) (v : GoValue) (next : GoInt) :
    Except Panic (GoValue × GoInt) :=
  if ro = .none then .ok (v, next)
  else .error (.panicked
    ("reflect: reflect.Value." ++ method ++ " using value obtained using unexported field"))

def uintAt (data : List Byte) (k : ℕ) (index : GoInt) : Except Panic ℕ :=
  (bytesAt data k index).map ofBytes

def deserializeUint (data : List Byte) (k : ℕ) (ro : FlagRO) (index : GoInt) :
    Except Panic (GoValue × GoInt) :=
  (uintAt data k index).bind fun a => assign ro "SetUint" (.uint a) (index + BitVec.ofNat 64 k)

def deserializeInt (data : List Byte) (k : ℕ) (ro : FlagRO) (index : GoInt) :
    Except Panic (GoValue × GoInt) :=
  (uintAt data k index).bind fun a =>
    assign ro "SetInt" (.int (BitVec.ofNat (8 * k) a).toInt) (index + BitVec.ofNat 64 k)

def deserializeBytes (data : List Byte) (ro : FlagRO) (index : GoInt) :
    Except Panic (GoValue × GoInt) :=
  (uintAt data 8 index).bind fun length =>
    let index := index + 8
    (slice data index (index + BitVec.ofNat 64 length)).bind fun bytes =>
      assign ro "SetBytes" (.bytes bytes) (index + BitVec.ofNat 64 length)

def deserializeString (maxAlloc : ℕ) (data : List Byte) (ro : FlagRO) (index : GoInt) :
    Except Panic (GoValue × GoInt) :=
  (uintAt data 8 index).bind fun l =>
    let index := index + 8
    let length := BitVec.ofNat 64 l
    (makeBytes maxAlloc length).bind fun str =>
      (slice data index (index + length)).bind fun bytes =>
        assign ro "SetString" (.string (copy str bytes)) (index + length)

def deserializeElements (deserialize : GoInt → Except Panic (GoValue × GoInt)) :
    ℕ → GoInt → Except Panic (List GoValue × GoInt)
  | 0, index => .ok ([], index)
  | n + 1, index =>
    (deserialize index).bind fun r =>
      (deserializeElements deserialize n r.2).map fun rs => (r.1 :: rs.1, rs.2)

mutual

def deserializeData (maxAlloc : ℕ) (data : List Byte) :
    GoType → FlagRO → GoInt → Except Panic (GoValue × GoInt)
  | .bool, ro, index =>
    (byteAt data index).bind fun b => assign ro "SetBool" (.bool (b == 1)) (index + 1)
  | .int8, ro, index => deserializeInt data 1 ro index
  | .uint8, ro, index => deserializeUint data 1 ro index
  | .int16, ro, index => deserializeInt data 2 ro index
  | .uint16, ro, index => deserializeUint data 2 ro index
  | .int32, ro, index => deserializeInt data 4 ro index
  | .uint32, ro, index => deserializeUint data 4 ro index
  | .int64, ro, index => deserializeInt data 8 ro index
  | .uint64, ro, index => deserializeUint data 8 ro index
  | .slice .uint8, ro, index => deserializeBytes data ro index
  -- `v.Elem()`, asked for the text of the error, panics on a slice
  | .slice _, _, index => (uintAt data 8 index).bind fun _ => .error .reflectValueError
  | .array n elem, ro, index =>
    (deserializeElements (fun i => deserializeData maxAlloc data elem ro.index i) n index).map
      fun r => (.array r.1, r.2)
  | .string, ro, index => deserializeString maxAlloc data ro index
  -- the value is the zero value of its type, so the pointer is nil and has no element to fill
  | .ptr _, ro, index =>
    (byteAt data index).bind fun tag =>
      if tag = 0 then assign ro "SetZero" .nilPtr (index + 1)
      else .error (.panicked "unsupport type: invalid")
  | .struct fields, ro, index =>
    (deserializeFields maxAlloc data fields ro index).map fun r => (.struct r.1, r.2)
  | .other kind, _, _ => .error (.panicked ("unsupport type: " ++ kind))

def deserializeFields (maxAlloc : ℕ) (data : List Byte) :
    List (Access × GoType) → FlagRO → GoInt → Except Panic (List GoValue × GoInt)
  | [], _, index => .ok ([], index)
  | (access, t) :: fields, ro, index =>
    (deserializeData maxAlloc data t (ro.field access) index).bind fun r =>
      (deserializeFields maxAlloc data fields ro r.2).map fun rs => (r.1 :: rs.1, rs.2)

end

def deserialize (maxAlloc : ℕ) (data : List Byte) (t : GoType) : Except Panic GoValue :=
  (deserializeData maxAlloc data t .none 0).bind fun r =>
    if r.2 = BitVec.ofNat 64 data.length then .ok r.1 else .error (.panicked "deserialize failed")

def encodeBytes (p : List Byte) : List Byte := toBytes 8 p.length ++ p

theorem uintAt_ok {data : List Byte} (hd : data.length ≤ 2 ^ 63) {k : ℕ} {index : GoInt}
    (h : index.toNat + k ≤ data.length) :
    uintAt data k index = .ok (ofBytes ((data.drop index.toNat).take k)) := by
  rw [uintAt, bytesAt_ok hd k index h]
  rfl

theorem uintAt_panics {data : List Byte} (hd : data.length ≤ 2 ^ 63) {k : ℕ} {index : GoInt}
    (hi : index.toNat ≤ data.length) (h : data.length < index.toNat + k) :
    uintAt data k index = .error .indexOutOfRange := by
  rw [uintAt, bytesAt_panics hd k index hi h]
  rfl

theorem length_encodeBytes (p : List Byte) : (encodeBytes p).length = 8 + p.length := by
  rw [encodeBytes, List.length_append, length_toBytes]

theorem ofBytes_take_encodeBytes {p : List Byte} (hp : p.length < 2 ^ 63) :
    ofBytes ((encodeBytes p).take 8) = p.length := by
  rw [encodeBytes, List.take_left' (length_toBytes 8 _), ofBytes_toBytes, Nat.mod_eq_of_lt]
  omega

theorem encodeBytes_drop {data : List Byte} (h8 : 8 ≤ data.length)
    (hl : 8 + ofBytes (data.take 8) = data.length) : encodeBytes (data.drop 8) = data := by
  have htake : (data.take 8).length = 8 := by rw [List.length_take, Nat.min_eq_left h8]
  have hlength : (data.drop 8).length = ofBytes (data.take 8) := by
    rw [List.length_drop]
    omega
  have hprefix := toBytes_ofBytes (data.take 8)
  rw [htake] at hprefix
  rw [encodeBytes, hlength, hprefix, List.take_append_drop]

theorem high_toNat (l : ℕ) (hl : l < 2 ^ 64) :
    ((0 : GoInt) + 8 + BitVec.ofNat 64 l).toNat = (8 + l) % 2 ^ 64 := by
  rw [BitVec.toNat_add, BitVec.toNat_ofNat, Nat.mod_eq_of_lt hl]
  rfl

theorem deserializeBytes_eq {data : List Byte} (hd : data.length < 2 ^ 63) (h8 : 8 ≤ data.length) :
    deserializeBytes data .none 0 =
      if 8 + ofBytes (data.take 8) ≤ data.length then
        .ok (.bytes ((data.drop 8).take (ofBytes (data.take 8))),
          BitVec.ofNat 64 (8 + ofBytes (data.take 8)))
      else .error .sliceBoundsOutOfRange := by
  have hl : ofBytes (data.take 8) < 2 ^ 64 := by
    have hlt := ofBytes_lt (data.take 8)
    rwa [List.length_take, Nat.min_eq_left h8] at hlt
  have huint : uintAt data 8 0 = .ok (ofBytes (data.take 8)) :=
    uintAt_ok hd.le (show 0 + 8 ≤ data.length by omega)
  have hhigh := high_toNat _ hl
  have hlow : ((0 : GoInt) + 8).toNat = 8 := rfl
  rw [deserializeBytes, huint]
  change (slice data (0 + 8) (0 + 8 + BitVec.ofNat 64 (ofBytes (data.take 8)))).bind _ = _
  split
  · rename_i hle
    have hend : (0 : GoInt) + 8 + BitVec.ofNat 64 (ofBytes (data.take 8)) =
        BitVec.ofNat 64 (8 + ofBytes (data.take 8)) := (BitVec.ofNat_add 8 _).symm
    rw [slice_ok hd (by omega) (by omega), hhigh, hlow, Nat.mod_eq_of_lt (by omega),
      Nat.add_sub_cancel_left, hend]
    rfl
  · rename_i hlt
    rw [slice_panics (by omega) (by omega)]
    rfl

theorem deserialize_bytes_ok (maxAlloc : ℕ) {p : List Byte} (hp : 8 + p.length < 2 ^ 63) :
    deserialize maxAlloc (encodeBytes p) (.slice .uint8) = .ok (.bytes p) := by
  have hlength := length_encodeBytes p
  have htake := ofBytes_take_encodeBytes (p := p) (by omega)
  have hdrop : (encodeBytes p).drop 8 = p := by
    rw [encodeBytes, List.drop_left' (length_toBytes 8 _)]
  rw [deserialize, deserializeData, deserializeBytes_eq (by omega) (by omega), htake, hdrop,
    if_pos (by omega), List.take_length, hlength]
  exact if_pos rfl

theorem deserialize_bytes_panics (maxAlloc : ℕ) {data : List Byte} (hd : data.length < 2 ^ 63)
    (h : ∀ p, data ≠ encodeBytes p) :
    ∃ e, deserialize maxAlloc data (.slice .uint8) = .error e := by
  rw [deserialize, deserializeData]
  rcases Nat.lt_or_ge data.length 8 with h8 | h8
  · rw [deserializeBytes, uintAt_panics hd.le (Nat.zero_le _) (show data.length < 0 + 8 by omega)]
    exact ⟨_, rfl⟩
  · rw [deserializeBytes_eq hd h8]
    split
    · rename_i hle
      refine ⟨_, if_neg fun heq => ?_⟩
      have hlength := congrArg BitVec.toNat heq
      simp only [BitVec.toNat_ofNat] at hlength
      exact h _ (encodeBytes_drop h8 (by omega)).symm
    · exact ⟨_, rfl⟩

end Wasrisc.Deserialize
