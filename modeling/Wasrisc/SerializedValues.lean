import Wasrisc.DataReads

namespace Wasrisc.SerializedValues

open GoSlices LittleEndian Deserialize Serialize DataReads

variable {maxAlloc : ℕ} {data : List Byte}
variable {D : TypeName → GoType}

/-- Of a nil slice the bytes are those of an empty one. -/
theorem serialize_slice {v : GoData} {elem : GoType} {bs : List Byte} (htype : v.typeOf = .slice elem)
    (hser : serializeData v = .ok bs) (hwf : v.WellFormed D) : ∃ p : List Byte,
      elem = .uint8 ∧ v.emptied = .slice .uint8 (p.map .uint8) ∧
        (∀ ro, v.value? ro = assigned? ro (.bytes p)) ∧ bs = encodeBytes p ∧ p.length < 2 ^ 63 := by
  cases v <;> simp only [GoData.typeOf, reduceCtorEq, GoType.slice.injEq] at htype
  case nilSlice e =>
    subst htype
    cases e <;> simp only [serializeData, reduceCtorEq, Except.ok.injEq] at hser
    exact ⟨[], rfl, rfl, fun _ => rfl, hser.symm, by decide⟩
  case slice e vs =>
    subst htype
    cases e <;> simp only [serializeData, reduceCtorEq] at hser
    obtain ⟨hlen, htypes, -⟩ := hwf
    obtain ⟨p, rfl⟩ := exists_bytes htypes
    rw [serializeEach_bytes, Except.map, Except.ok.injEq] at hser
    rw [List.length_map] at hser hlen
    refine ⟨p, rfl, ?_, fun ro => ?_, hser.symm, hlen⟩
    · rw [GoData.emptied, allEmptied_bytes]
    · rw [GoData.value?, map_byte]

theorem serialize_array {elem : GoType} {vs : List GoData} {bs : List Byte}
    (hser : serializeData (.array elem vs) = .ok bs) (hwf : (GoData.array elem vs).WellFormed D) :
    elem = .uint8 ∧ vs = bs.map .uint8 := by
  cases elem <;> simp only [serializeData, reduceCtorEq] at hser
  obtain ⟨p, rfl⟩ := exists_bytes hwf.1
  rw [arrayBytes_bytes, Except.ok.injEq] at hser
  subst hser
  exact ⟨rfl, rfl⟩

section RoundTrip

theorem read_slice {v : GoData} {elem : GoType} {bs : List Byte} {i : ℕ} (hd : data.length < 2 ^ 63)
    (htype : v.typeOf = .slice elem) (hser : serializeData v = .ok bs) (hwf : v.WellFormed D)
    (hat : HoldsAt data i bs) (ro : FlagRO) :
    (deserializeData maxAlloc data v.typeOf ro (BitVec.ofNat 64 i)).toOption =
      (v.value? ro).map (·, BitVec.ofNat 64 (i + bs.length)) := by
  obtain ⟨p, rfl, -, hvalue, rfl, -⟩ := serialize_slice htype hser hwf
  rw [htype, deserializeData, read_bytes hd hat, toOption_assign, hvalue]

mutual

theorem read_value (v : GoData) (ro : FlagRO) {bs : List Byte} {i : ℕ} (hd : data.length < 2 ^ 63)
    (hmax : data.length ≤ maxAlloc) (hser : serializeData v = .ok bs) (hwf : v.WellFormed D)
    (hat : HoldsAt data i bs) :
    (deserializeData maxAlloc data v.typeOf ro (BitVec.ofNat 64 i)).toOption =
      (v.value? ro).map (·, BitVec.ofNat 64 (i + bs.length)) := by
  cases v with
  | bool b =>
    obtain rfl : [if b then 1 else 0] = bs := by simpa [serializeData] using hser
    have hb : ((if b then 1 else 0 : Byte) == 1) = b := by cases b <;> rfl
    rw [GoData.typeOf, deserializeData, byteAt_holds hd hat, Except.bind, hb, toOption_assign,
      List.length_singleton, BitVec.ofNat_add]
    rfl
  | int8 n =>
    obtain rfl : [n] = bs := by simpa [serializeData] using hser
    rw [← toBytes_one] at hat
    rw [GoData.typeOf, deserializeData, read_int hd hat, toOption_assign]
    rfl
  | uint8 n =>
    obtain rfl : [n] = bs := by simpa [serializeData] using hser
    rw [GoData.typeOf, read_uint8 hd hat, toOption_assign]
    rfl
  | int16 n | int32 n | int64 n =>
    rw [serializeData, Except.ok.injEq] at hser
    subst hser
    rw [GoData.typeOf, deserializeData, read_int hd hat, toOption_assign, length_toBytes]
    rfl
  | uint16 n | uint32 n | uint64 n =>
    rw [serializeData, Except.ok.injEq] at hser
    subst hser
    rw [GoData.typeOf, deserializeData, read_uint hd hat n.isLt, toOption_assign, length_toBytes]
    rfl
  | nilSlice elem => exact read_slice hd rfl hser hwf hat ro
  | slice elem vs => exact read_slice hd rfl hser hwf hat ro
  | array elem vs =>
    obtain ⟨rfl, rfl⟩ := serialize_array hser hwf
    rw [GoData.typeOf, List.length_map, deserializeData, toOption_map, read_array hd hat,
      GoData.value?, Option.map_map, Option.map_map]
    rfl
  | string p =>
    rw [serializeData, Except.ok.injEq] at hser
    subst hser
    rw [GoData.typeOf, deserializeData, read_string hd hat hmax, toOption_assign]
    rfl
  | nilPtr elem =>
    obtain rfl : [0] = bs := by simpa [serializeData] using hser
    rw [GoData.typeOf, deserializeData, byteAt_holds hd hat, Except.bind, if_pos rfl,
      toOption_assign, List.length_singleton, BitVec.ofNat_add]
    rfl
  | ptr elem v =>
    obtain ⟨p, -, rfl⟩ := map_eq_ok.mp hser
    rw [GoData.typeOf, deserializeData, byteAt_holds hd (holdsAt_cons.mp hat).1]
    rfl
  | struct fields =>
    rw [GoData.typeOf, deserializeData, toOption_map, read_fields fields ro hd hmax hser hwf hat,
      GoData.value?, Option.map_map, Option.map_map]
    rfl
  | other kind => simp [serializeData] at hser

theorem read_fields (fields : List (Access × GoData)) (ro : FlagRO) {bs : List Byte} {i : ℕ}
    (hd : data.length < 2 ^ 63) (hmax : data.length ≤ maxAlloc)
    (hser : serializeFields fields = .ok bs) (hwf : FieldsWellFormed D fields)
    (hat : HoldsAt data i bs) :
    (deserializeFields maxAlloc data (typesOf fields) ro (BitVec.ofNat 64 i)).toOption =
      (fieldValues? fields ro).map (·, BitVec.ofNat 64 (i + bs.length)) := by
  cases fields with
  | nil =>
    obtain rfl : [] = bs := by simpa [serializeFields] using hser
    rfl
  | cons field fields =>
    obtain ⟨access, v⟩ := field
    obtain ⟨p, hp, hrest⟩ := bind_eq_ok.mp hser
    obtain ⟨q, hq, rfl⟩ := map_eq_ok.mp hrest
    obtain ⟨hatp, hatq⟩ := holdsAt_append.mp hat
    rw [typesOf, deserializeFields, toOption_bind,
      read_value v (ro.field access) hd hmax hp hwf.1 hatp, fieldValues?]
    cases v.value? (ro.field access) with
    | none => rfl
    | some r =>
      simp only [Option.map_some, Option.bind_some, toOption_map,
        read_fields fields ro hd hmax hq hwf.2 hatq, Option.map_map, List.length_append,
        Nat.add_assoc]
      rfl

end

end RoundTrip

section Unique

variable {rest rest' : List Byte}

theorem number_unique {k n m : ℕ} (hn : n < 256 ^ k) (hm : m < 256 ^ k)
    (h : toBytes k n ++ rest = toBytes k m ++ rest') : n = m ∧ rest = rest' := by
  obtain ⟨heq, hrest⟩ := List.append_inj h (by simp)
  refine ⟨?_, hrest⟩
  rw [← Nat.mod_eq_of_lt hn, ← Nat.mod_eq_of_lt hm, ← ofBytes_toBytes, ← ofBytes_toBytes, heq]

theorem bitVec_unique {k : ℕ} {n m : BitVec (8 * k)}
    (h : toBytes k n.toNat ++ rest = toBytes k m.toNat ++ rest') : n = m ∧ rest = rest' := by
  have hpow : 256 ^ k = 2 ^ (8 * k) := (Nat.pow_mul 2 8 k).symm
  obtain ⟨heq, hrest⟩ := number_unique (hpow ▸ n.isLt) (hpow ▸ m.isLt) h
  exact ⟨BitVec.eq_of_toNat_eq heq, hrest⟩

theorem encodeBytes_unique {p q : List Byte} (hp : p.length < 2 ^ 63) (hq : q.length < 2 ^ 63)
    (h : encodeBytes p ++ rest = encodeBytes q ++ rest') : p = q ∧ rest = rest' := by
  rw [encodeBytes, encodeBytes, List.append_assoc, List.append_assoc] at h
  obtain ⟨hlen, heq⟩ := number_unique (by omega) (by omega) h
  exact List.append_inj heq hlen

theorem slice_unique {v w : GoData} {elem : GoType} {bs cs : List Byte} (hvtype : v.typeOf = .slice elem)
    (hwtype : w.typeOf = .slice elem) (hv : v.WellFormed D) (hw : w.WellFormed D)
    (hbs : serializeData v = .ok bs) (hcs : serializeData w = .ok cs)
    (h : bs ++ rest = cs ++ rest') : v.emptied = w.emptied ∧ rest = rest' := by
  obtain ⟨p, -, hvp, -, rfl, hp⟩ := serialize_slice hvtype hbs hv
  obtain ⟨q, -, hwq, -, rfl, hq⟩ := serialize_slice hwtype hcs hw
  obtain ⟨rfl, hrest⟩ := encodeBytes_unique hp hq h
  exact ⟨hvp.trans hwq.symm, hrest⟩

mutual

theorem value_unique (v w : GoData) {bs cs rest rest' : List Byte} (htype : v.typeOf = w.typeOf)
    (hv : v.WellFormed D) (hw : w.WellFormed D) (hbs : serializeData v = .ok bs)
    (hcs : serializeData w = .ok cs) (h : bs ++ rest = cs ++ rest') :
    v.emptied = w.emptied ∧ rest = rest' := by
  cases v with
  | bool b =>
    cases w <;> simp only [GoData.typeOf, reduceCtorEq] at htype
    rename_i b'
    obtain rfl : [if b then 1 else 0] = bs := by simpa [serializeData] using hbs
    obtain rfl : [if b' then 1 else 0] = cs := by simpa [serializeData] using hcs
    cases b <;> cases b' <;> simp_all
  | int8 n | uint8 n =>
    cases w <;> simp only [GoData.typeOf, reduceCtorEq] at htype
    rw [serializeData, Except.ok.injEq, ← toBytes_one] at hbs hcs
    subst hbs hcs
    obtain ⟨rfl, hrest⟩ := bitVec_unique h
    exact ⟨rfl, hrest⟩
  | int16 n | uint16 n | int32 n | uint32 n | int64 n | uint64 n =>
    cases w <;> simp only [GoData.typeOf, reduceCtorEq] at htype
    rw [serializeData, Except.ok.injEq] at hbs hcs
    subst hbs hcs
    obtain ⟨rfl, hrest⟩ := bitVec_unique h
    exact ⟨rfl, hrest⟩
  | nilSlice elem => exact slice_unique rfl htype.symm hv hw hbs hcs h
  | slice elem vs => exact slice_unique rfl htype.symm hv hw hbs hcs h
  | array elem vs =>
    cases w <;> simp only [GoData.typeOf, reduceCtorEq] at htype
    obtain ⟨rfl, rfl⟩ := serialize_array hbs hv
    obtain ⟨rfl, rfl⟩ := serialize_array hcs hw
    rw [List.length_map, List.length_map, GoType.array.injEq] at htype
    obtain ⟨rfl, hrest⟩ := List.append_inj h htype.1
    exact ⟨rfl, hrest⟩
  | string p =>
    cases w <;> simp only [GoData.typeOf, reduceCtorEq] at htype
    rw [serializeData, Except.ok.injEq] at hbs hcs
    subst hbs hcs
    obtain ⟨rfl, hrest⟩ := encodeBytes_unique hv hw h
    exact ⟨rfl, hrest⟩
  | nilPtr elem =>
    cases w <;> simp only [GoData.typeOf, reduceCtorEq, GoType.ptr.injEq] at htype
    · obtain rfl : [0] = bs := by simpa [serializeData] using hbs
      obtain rfl : [0] = cs := by simpa [serializeData] using hcs
      subst htype
      exact ⟨rfl, List.append_cancel_left h⟩
    · obtain rfl : [0] = bs := by simpa [serializeData] using hbs
      obtain ⟨q, -, rfl⟩ := map_eq_ok.mp hcs
      simp at h
  | ptr elem v =>
    obtain ⟨p, hp, rfl⟩ := map_eq_ok.mp hbs
    cases w <;> simp only [GoData.typeOf, reduceCtorEq, GoType.ptr.injEq] at htype
    · obtain rfl : [0] = cs := by simpa [serializeData] using hcs
      simp at h
    · obtain ⟨q, hq, rfl⟩ := map_eq_ok.mp hcs
      subst htype
      obtain ⟨hemptied, hrest⟩ :=
        value_unique v _ (hv.1.trans hw.1.symm) hv.2 hw.2 hp hq (List.cons.inj h).2
      exact ⟨congrArg (GoData.ptr elem) hemptied, hrest⟩
  | struct fields =>
    cases w <;> simp only [GoData.typeOf, reduceCtorEq, GoType.struct.injEq] at htype
    obtain ⟨hemptied, hrest⟩ := fields_unique fields _ htype hv hw hbs hcs h
    exact ⟨congrArg GoData.struct hemptied, hrest⟩
  | other kind => simp [serializeData] at hbs

theorem fields_unique (vs ws : List (Access × GoData)) {bs cs rest rest' : List Byte}
    (htype : typesOf vs = typesOf ws) (hv : FieldsWellFormed D vs) (hw : FieldsWellFormed D ws)
    (hbs : serializeFields vs = .ok bs) (hcs : serializeFields ws = .ok cs)
    (h : bs ++ rest = cs ++ rest') : fieldsEmptied vs = fieldsEmptied ws ∧ rest = rest' := by
  cases vs with
  | nil =>
    cases ws with
    | nil =>
      rw [serializeFields, Except.ok.injEq] at hbs hcs
      subst hbs hcs
      exact ⟨rfl, h⟩
    | cons w ws => simp [typesOf] at htype
  | cons v vs =>
    cases ws with
    | nil => simp [typesOf] at htype
    | cons w ws =>
      obtain ⟨access, v⟩ := v
      obtain ⟨access', w⟩ := w
      rw [typesOf, typesOf, List.cons.injEq, Prod.mk.injEq] at htype
      obtain ⟨⟨rfl, hhead⟩, htail⟩ := htype
      obtain ⟨p, hp, hmap⟩ := bind_eq_ok.mp hbs
      obtain ⟨p', hp', rfl⟩ := map_eq_ok.mp hmap
      obtain ⟨q, hq, hmap'⟩ := bind_eq_ok.mp hcs
      obtain ⟨q', hq', rfl⟩ := map_eq_ok.mp hmap'
      rw [List.append_assoc, List.append_assoc] at h
      obtain ⟨hfirst, hnext⟩ := value_unique v w hhead hv.1 hw.1 hp hq h
      obtain ⟨hothers, hrest⟩ := fields_unique vs ws htail hv.2 hw.2 hp' hq' hnext
      refine ⟨?_, hrest⟩
      rw [fieldsEmptied, fieldsEmptied, hfirst, hothers]

end

theorem uint_emptied (v : GoData) : v.emptied.uint = v.uint := by
  cases v <;> rfl

theorem arrayBytes_emptied (vs : List GoData) : arrayBytes (allEmptied vs) = arrayBytes vs := by
  induction vs with
  | nil => rfl
  | cons v vs ih => rw [allEmptied, arrayBytes, arrayBytes, uint_emptied, ih]

theorem length_allEmptied (vs : List GoData) : (allEmptied vs).length = vs.length := by
  induction vs with
  | nil => rfl
  | cons v vs ih => rw [allEmptied, List.length_cons, List.length_cons, ih]

mutual

theorem serializeData_emptied (v : GoData) : serializeData v.emptied = serializeData v := by
  cases v with
  | nilSlice elem => cases elem <;> rfl
  | slice elem vs =>
    rw [GoData.emptied]
    cases elem <;> simp only [serializeData]
    rw [serializeEach_emptied vs, length_allEmptied]
  | array elem vs =>
    rw [GoData.emptied]
    cases elem <;> simp only [serializeData]
    exact arrayBytes_emptied vs
  | ptr elem v => rw [GoData.emptied, serializeData, serializeData, serializeData_emptied v]
  | struct fields =>
    rw [GoData.emptied, serializeData, serializeData, serializeFields_emptied fields]
  | _ => rfl

theorem serializeEach_emptied (vs : List GoData) :
    serializeEach (allEmptied vs) = serializeEach vs := by
  cases vs with
  | nil => rfl
  | cons v vs =>
    rw [allEmptied, serializeEach, serializeEach, serializeData_emptied v, serializeEach_emptied vs]

theorem serializeFields_emptied (fields : List (Access × GoData)) :
    serializeFields (fieldsEmptied fields) = serializeFields fields := by
  cases fields with
  | nil => rfl
  | cons field fields =>
    obtain ⟨access, v⟩ := field
    rw [fieldsEmptied, serializeFields, serializeFields, serializeData_emptied v,
      serializeFields_emptied fields]

end

end Unique

mutual

/-- The types of which every accepted encoding is the one that the serializer writes: it has no form
for the arrays of other elements, and a `bool` is read from any byte. -/
def Exact : GoType → Bool
  | .bool => false
  | .array _ .uint8 => true
  | .array _ _ => false
  | .struct fields => fieldsExact fields
  | _ => true

def fieldsExact : List (Access × GoType) → Bool
  | [] => true
  | (_, t) :: fields => Exact t && fieldsExact fields

end

structure Accepted (D : TypeName → GoType) (data : List Byte) (ro : FlagRO) (index : GoInt)
    (t : GoType) (v : GoValue) (next : GoInt) (d : GoData) (bs : List Byte) : Prop where
  type : d.typeOf = t
  wellFormed : d.WellFormed D
  value : d.value? ro = some v
  bytes : serializeData d = .ok bs
  holds : HoldsAt data index.toNat bs
  next : next = BitVec.ofNat 64 (index.toNat + bs.length)

theorem types_bytes (p : List Byte) : ∀ v ∈ p.map GoData.uint8, v.typeOf = .uint8 := by
  simp [GoData.typeOf]

theorem allWellFormed_bytes (p : List Byte) : AllWellFormed D (p.map .uint8) := by
  simp [allWellFormed_iff, GoData.WellFormed]

theorem wellFormed_bytes {p : List Byte} (hp : p.length < 2 ^ 63) :
    (GoData.slice .uint8 (p.map .uint8)).WellFormed D := by
  refine ⟨?_, types_bytes p, allWellFormed_bytes p⟩
  rwa [List.length_map]

theorem assigned_none (v : GoValue) : assigned? .none v = some v := rfl

mutual

theorem value_accepted (D : TypeName → GoType) (t : GoType) {ro : FlagRO} {index next : GoInt}
    {v : GoValue} (hd : data.length < 2 ^ 63) (ht : Exact t = true) (hi : index.toNat ≤ data.length)
    (h : deserializeData maxAlloc data t ro index = .ok (v, next)) :
    ∃ d bs, Accepted D data ro index t v next d bs := by
  cases t with
  | bool => simp [Exact] at ht
  | int8 =>
    obtain ⟨rfl, n, rfl, hat, rfl⟩ := int_accepts hd hi h
    exact ⟨.int8 n, _, rfl, trivial, rfl, congrArg _ (toBytes_one n).symm, hat, by rw [length_toBytes]⟩
  | uint8 =>
    obtain ⟨rfl, n, rfl, hat, rfl⟩ := uint_accepts hd hi h
    exact ⟨.uint8 n, _, rfl, trivial, rfl, congrArg _ (toBytes_one n).symm, hat, by rw [length_toBytes]⟩
  | int16 =>
    obtain ⟨rfl, n, rfl, hat, rfl⟩ := int_accepts hd hi h
    exact ⟨.int16 n, _, rfl, trivial, rfl, rfl, hat, by rw [length_toBytes]⟩
  | uint16 =>
    obtain ⟨rfl, n, rfl, hat, rfl⟩ := uint_accepts hd hi h
    exact ⟨.uint16 n, _, rfl, trivial, rfl, rfl, hat, by rw [length_toBytes]⟩
  | int32 =>
    obtain ⟨rfl, n, rfl, hat, rfl⟩ := int_accepts hd hi h
    exact ⟨.int32 n, _, rfl, trivial, rfl, rfl, hat, by rw [length_toBytes]⟩
  | uint32 =>
    obtain ⟨rfl, n, rfl, hat, rfl⟩ := uint_accepts hd hi h
    exact ⟨.uint32 n, _, rfl, trivial, rfl, rfl, hat, by rw [length_toBytes]⟩
  | int64 =>
    obtain ⟨rfl, n, rfl, hat, rfl⟩ := int_accepts hd hi h
    exact ⟨.int64 n, _, rfl, trivial, rfl, rfl, hat, by rw [length_toBytes]⟩
  | uint64 =>
    obtain ⟨rfl, n, rfl, hat, rfl⟩ := uint_accepts hd hi h
    exact ⟨.uint64 n, _, rfl, trivial, rfl, rfl, hat, by rw [length_toBytes]⟩
  | slice elem =>
    cases elem with
    | uint8 =>
      obtain ⟨l, hl, hslice⟩ := bind_eq_ok.mp h
      obtain ⟨p, hp, hassign⟩ := bind_eq_ok.mp hslice
      obtain ⟨rfl, rfl, rfl⟩ := assign_eq_ok hassign
      obtain ⟨hat, rfl⟩ := encodeBytes_accepts hd hi hl hp
      refine ⟨.slice .uint8 (p.map .uint8), _, rfl, ?_, ?_, ?_, hat, next_encodeBytes p⟩
      · exact wellFormed_bytes (by have := hat.le; rw [length_encodeBytes] at this; omega)
      · rw [GoData.value?, map_byte, assigned_none]
      · rw [serializeData, serializeEach_bytes, List.length_map]
        rfl
    | _ =>
      obtain ⟨l, -, herror⟩ := bind_eq_ok.mp h
      cases herror
  | array n elem =>
    cases elem with
    | uint8 =>
      obtain ⟨⟨vs, last⟩, hvs, heq⟩ := map_eq_ok.mp h
      obtain ⟨rfl, rfl⟩ := Prod.mk.inj heq
      obtain ⟨p, rfl, hp, hat, rfl⟩ := array_accepts hd hi hvs
      refine ⟨.array .uint8 (p.map .uint8), p, ?_, ⟨types_bytes p, allWellFormed_bytes p⟩, ?_, ?_,
        hat, rfl⟩
      · rw [GoData.typeOf, List.length_map]
      · rw [GoData.value?, hp]
        rfl
      · rw [serializeData, arrayBytes_bytes]
    | _ => simp [Exact] at ht
  | string =>
    obtain ⟨l, hl, hmake⟩ := bind_eq_ok.mp h
    obtain ⟨str, hstr, hslice⟩ := bind_eq_ok.mp hmake
    obtain ⟨p, hp, hassign⟩ := bind_eq_ok.mp hslice
    obtain ⟨rfl, rfl, rfl⟩ := assign_eq_ok hassign
    obtain ⟨hat, rfl⟩ := encodeBytes_accepts hd hi hl hp
    have hle := hat.le
    rw [length_encodeBytes] at hle
    refine ⟨.string p, _, rfl, ?_, ?_, rfl, hat, next_encodeBytes p⟩
    · rw [GoData.WellFormed]
      omega
    · rw [GoData.value?, copy_all, assigned_none]
      rw [length_makeBytes hstr, BitVec.toNat_ofNat, Nat.mod_eq_of_lt (by omega)]
  | ptr elem =>
    obtain ⟨tag, htag, hcases⟩ := bind_eq_ok.mp h
    split at hcases
    · rename_i hzero
      rw [hzero] at htag
      obtain ⟨rfl, rfl, rfl⟩ := assign_eq_ok hcases
      exact ⟨.nilPtr elem, [0], rfl, trivial, rfl, rfl, byteAt_accepts hd htag, next_eq (k := 1) rfl⟩
    · cases hcases
  | struct fields =>
    obtain ⟨⟨vs, last⟩, hvs, heq⟩ := map_eq_ok.mp h
    obtain ⟨rfl, rfl⟩ := Prod.mk.inj heq
    obtain ⟨ds, bs, rfl, hwf, hvalue, hbs, hat, hnext⟩ := fields_accepted D fields hd ht hi hvs
    refine ⟨.struct ds, bs, rfl, hwf, ?_, hbs, hat, hnext⟩
    rw [GoData.value?, hvalue]
    rfl
  | other kind => simp [deserializeData] at h

theorem fields_accepted (D : TypeName → GoType) (fields : List (Access × GoType)) {ro : FlagRO}
    {index next : GoInt} {vs : List GoValue} (hd : data.length < 2 ^ 63)
    (ht : fieldsExact fields = true) (hi : index.toNat ≤ data.length)
    (h : deserializeFields maxAlloc data fields ro index = .ok (vs, next)) :
    ∃ ds bs, typesOf ds = fields ∧ FieldsWellFormed D ds ∧ fieldValues? ds ro = some vs ∧
      serializeFields ds = .ok bs ∧ HoldsAt data index.toNat bs ∧
      next = BitVec.ofNat 64 (index.toNat + bs.length) := by
  cases fields with
  | nil =>
    rw [deserializeFields, Except.ok.injEq] at h
    obtain ⟨rfl, rfl⟩ := Prod.mk.inj h
    refine ⟨[], [], rfl, trivial, rfl, rfl, holdsAt_take (k := 0) hi, ?_⟩
    rw [List.length_nil, ← next_eq rfl, BitVec.add_zero]
  | cons field fields =>
    obtain ⟨access, t⟩ := field
    rw [fieldsExact, Bool.and_eq_true] at ht
    obtain ⟨⟨v, mid⟩, hv, hrest⟩ := bind_eq_ok.mp h
    obtain ⟨⟨us, last⟩, hus, heq⟩ := map_eq_ok.mp hrest
    obtain ⟨rfl, rfl⟩ := Prod.mk.inj heq
    simp only at hus
    obtain ⟨d, bs, hd'⟩ := value_accepted D t hd ht.1 hi hv
    have hle := hd'.holds.le
    have hmid : mid.toNat = index.toNat + bs.length := by
      rw [hd'.next, BitVec.toNat_ofNat, Nat.mod_eq_of_lt (by omega)]
    obtain ⟨ds, cs, rfl, hwf, hvalue, hcs, hat, hnext⟩ :=
      fields_accepted D fields hd ht.2 (by omega) hus
    rw [hmid] at hat hnext
    refine ⟨(access, d) :: ds, bs ++ cs, ?_, ⟨hd'.wellFormed, hwf⟩, ?_, ?_,
      holdsAt_append.mpr ⟨hd'.holds, hat⟩, ?_⟩
    · rw [typesOf, hd'.type]
    · rw [fieldValues?, hd'.value, hvalue]
      rfl
    · rw [serializeFields, hd'.bytes, hcs]
      rfl
    · rw [hnext, List.length_append, Nat.add_assoc]

end

end Wasrisc.SerializedValues
