import Wasrisc.Deserialize

namespace Wasrisc.Serialize

open GoSlices LittleEndian Deserialize

/-- A value with its kind, as `reflect` has it; what a slice, an array or a pointer is of is part of
the value. -/
inductive GoData where
  | bool (b : Bool)
  | int8 (n : BitVec 8)
  | uint8 (n : BitVec 8)
  | int16 (n : BitVec 16)
  | uint16 (n : BitVec 16)
  | int32 (n : BitVec 32)
  | uint32 (n : BitVec 32)
  | int64 (n : BitVec 64)
  | uint64 (n : BitVec 64)
  | nilSlice (elem : GoType)
  | slice (elem : GoType) (vs : List GoData)
  | array (elem : GoType) (vs : List GoData)
  | string (bs : List Byte)
  | nilPtr (elem : TypeName)
  | ptr (elem : TypeName) (v : GoData)
  | struct (fields : List (Access × GoData))
  | other (kind : String)

inductive Failure where
  | returned (err : String)
  | panicked (p : Panic)
  deriving DecidableEq

def GoData.uint : GoData → Except Failure ℕ
  | .uint8 n => .ok n.toNat
  | .uint16 n => .ok n.toNat
  | .uint32 n => .ok n.toNat
  | .uint64 n => .ok n.toNat
  -- `Value.Uint` panics on every other kind
  | _ => .error (.panicked .reflectValueError)

def arrayBytes : List GoData → Except Failure (List Byte)
  | [] => .ok []
  | v :: vs => v.uint.bind fun n => (arrayBytes vs).map (BitVec.ofNat 8 n :: ·)

mutual

def serializeData : GoData → Except Failure (List Byte)
  | .bool b => .ok [if b then 1 else 0]
  | .int8 n => .ok [n]
  | .uint8 n => .ok [n]
  | .int16 n => .ok (toBytes 2 n.toNat)
  | .uint16 n => .ok (toBytes 2 n.toNat)
  | .int32 n => .ok (toBytes 4 n.toNat)
  | .uint32 n => .ok (toBytes 4 n.toNat)
  | .int64 n => .ok (toBytes 8 n.toNat)
  | .uint64 n => .ok (toBytes 8 n.toNat)
  -- a nil slice has the length 0
  | .nilSlice .uint8 => .ok (toBytes 8 0)
  | .nilSlice _ => .error (.panicked .reflectValueError)
  | .slice .uint8 vs => (serializeEach vs).map (toBytes 8 vs.length ++ ·)
  -- `v.Elem()`, asked for the text of the error, panics on a slice and on an array
  | .slice _ _ => .error (.panicked .reflectValueError)
  | .array .uint8 vs => arrayBytes vs
  | .array _ _ => .error (.panicked .reflectValueError)
  | .string bs => .ok (toBytes 8 bs.length ++ bs)
  | .nilPtr _ => .ok [0]
  | .ptr _ v => (serializeData v).map (1 :: ·)
  -- the flags of `reflect` keep no field from being read
  | .struct fields => serializeFields fields
  | .other kind => .error (.returned ("unsupport type: " ++ kind))

def serializeEach : List GoData → Except Failure (List Byte)
  | [] => .ok []
  | v :: vs => (serializeData v).bind fun d => (serializeEach vs).map (d ++ ·)

def serializeFields : List (Access × GoData) → Except Failure (List Byte)
  | [] => .ok []
  | (_, v) :: fields => (serializeData v).bind fun d => (serializeFields fields).map (d ++ ·)

end

def mustSerializeData (v : GoData) : Except Panic (List Byte) :=
  match serializeData v with
  | .ok serializedData => .ok serializedData
  | .error (.returned err) => .error (.panicked err)
  | .error (.panicked p) => .error p

mutual

def GoData.typeOf : GoData → GoType
  | .bool _ => .bool
  | .int8 _ => .int8
  | .uint8 _ => .uint8
  | .int16 _ => .int16
  | .uint16 _ => .uint16
  | .int32 _ => .int32
  | .uint32 _ => .uint32
  | .int64 _ => .int64
  | .uint64 _ => .uint64
  | .nilSlice elem => .slice elem
  | .slice elem _ => .slice elem
  | .array elem vs => .array vs.length elem
  | .string _ => .string
  | .nilPtr elem => .ptr elem
  | .ptr elem _ => .ptr elem
  | .struct fields => .struct (typesOf fields)
  | .other kind => .other kind

def typesOf : List (Access × GoData) → List (Access × GoType)
  | [] => []
  | (access, v) :: fields => (access, v.typeOf) :: typesOf fields

end

mutual

/-- The elements are of the element type, which `D` has for the name that a pointer gives, and the
lengths are Go `int`s. -/
def GoData.WellFormed (D : TypeName → GoType) : GoData → Prop
  | .slice elem vs => vs.length < 2 ^ 63 ∧ (∀ v ∈ vs, v.typeOf = elem) ∧ AllWellFormed D vs
  | .array elem vs => (∀ v ∈ vs, v.typeOf = elem) ∧ AllWellFormed D vs
  | .string bs => bs.length < 2 ^ 63
  | .ptr elem v => v.typeOf = D elem ∧ v.WellFormed D
  | .struct fields => FieldsWellFormed D fields
  | _ => True

def AllWellFormed (D : TypeName → GoType) : List GoData → Prop
  | [] => True
  | v :: vs => v.WellFormed D ∧ AllWellFormed D vs

def FieldsWellFormed (D : TypeName → GoType) : List (Access × GoData) → Prop
  | [] => True
  | (_, v) :: fields => v.WellFormed D ∧ FieldsWellFormed D fields

end

def GoData.byte : GoData → Byte
  | .uint8 n => n
  | _ => 0

def assigned? (ro : FlagRO) (v : GoValue) : Option GoValue := if ro = .none then some v else none

mutual

/-- The value that `DeserializeData` is to find: it makes up no pointer, sets nothing that is
read-only, and has an empty slice for a nil one. -/
def GoData.value? : GoData → FlagRO → Option GoValue
  | .bool b, ro => assigned? ro (.bool b)
  | .int8 n, ro => assigned? ro (.int n.toInt)
  | .uint8 n, ro => assigned? ro (.uint n.toNat)
  | .int16 n, ro => assigned? ro (.int n.toInt)
  | .uint16 n, ro => assigned? ro (.uint n.toNat)
  | .int32 n, ro => assigned? ro (.int n.toInt)
  | .uint32 n, ro => assigned? ro (.uint n.toNat)
  | .int64 n, ro => assigned? ro (.int n.toInt)
  | .uint64 n, ro => assigned? ro (.uint n.toNat)
  | .nilSlice _, ro => assigned? ro (.bytes [])
  | .slice _ vs, ro => assigned? ro (.bytes (vs.map GoData.byte))
  | .array _ vs, ro => (values? vs ro.index).map .array
  | .string bs, ro => assigned? ro (.string bs)
  | .nilPtr _, ro => assigned? ro .nilPtr
  | .ptr _ _, _ => none
  | .struct fields, ro => (fieldValues? fields ro).map .struct
  | .other _, _ => none

def values? : List GoData → FlagRO → Option (List GoValue)
  | [], _ => some []
  | v :: vs, ro => (v.value? ro).bind fun r => (values? vs ro).map (r :: ·)

def fieldValues? : List (Access × GoData) → FlagRO → Option (List GoValue)
  | [], _ => some []
  | (access, v) :: fields, ro =>
    (v.value? (ro.field access)).bind fun r => (fieldValues? fields ro).map (r :: ·)

end

mutual

/-- The value with an empty slice for each nil one, which is all that its bytes tell of it. -/
def GoData.emptied : GoData → GoData
  | .nilSlice elem => .slice elem []
  | .slice elem vs => .slice elem (allEmptied vs)
  | .array elem vs => .array elem (allEmptied vs)
  | .ptr elem v => .ptr elem v.emptied
  | .struct fields => .struct (fieldsEmptied fields)
  | v => v

def allEmptied : List GoData → List GoData
  | [] => []
  | v :: vs => v.emptied :: allEmptied vs

def fieldsEmptied : List (Access × GoData) → List (Access × GoData)
  | [] => []
  | (access, v) :: fields => (access, v.emptied) :: fieldsEmptied fields

end

theorem eq_uint8_of_typeOf {v : GoData} (h : v.typeOf = .uint8) : ∃ n, v = .uint8 n := by
  cases v <;> simp only [GoData.typeOf, reduceCtorEq] at h
  exact ⟨_, rfl⟩

theorem exists_bytes {vs : List GoData} (h : ∀ v ∈ vs, v.typeOf = .uint8) :
    ∃ bs : List Byte, vs = bs.map .uint8 := by
  induction vs with
  | nil => exact ⟨[], rfl⟩
  | cons v vs ih =>
    obtain ⟨n, rfl⟩ := eq_uint8_of_typeOf (h v List.mem_cons_self)
    obtain ⟨bs, rfl⟩ := ih fun w hw => h w (List.mem_cons_of_mem _ hw)
    exact ⟨n :: bs, rfl⟩

theorem serializeEach_bytes (bs : List Byte) : serializeEach (bs.map .uint8) = .ok bs := by
  induction bs with
  | nil => rfl
  | cons b bs ih =>
    rw [List.map_cons, serializeEach, serializeData, ih]
    rfl

theorem arrayBytes_bytes (bs : List Byte) : arrayBytes (bs.map .uint8) = .ok bs := by
  induction bs with
  | nil => rfl
  | cons b bs ih =>
    rw [List.map_cons, arrayBytes, GoData.uint, ih]
    simp [Except.bind, Except.map]

theorem allEmptied_bytes (bs : List Byte) : allEmptied (bs.map .uint8) = bs.map .uint8 := by
  induction bs with
  | nil => rfl
  | cons b bs ih =>
    rw [List.map_cons, allEmptied, ih]
    rfl

theorem map_byte (bs : List Byte) : (bs.map GoData.uint8).map GoData.byte = bs := by
  rw [List.map_map]
  exact List.map_id bs

theorem allWellFormed_iff {D : TypeName → GoType} {vs : List GoData} :
    AllWellFormed D vs ↔ ∀ v ∈ vs, v.WellFormed D := by
  induction vs with
  | nil => simp [AllWellFormed]
  | cons v vs ih => simp [AllWellFormed, ih]

end Wasrisc.Serialize
