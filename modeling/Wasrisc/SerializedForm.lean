import Wasrisc.SerializedValues
import Wasrisc.WitnessReader

namespace Wasrisc.SerializedForm

open GoSlices LittleEndian Deserialize Serialize DataReads SerializedValues WitnessReader

variable {maxAlloc : ℕ} {D : TypeName → GoType}

theorem deserialize_serialized {v : GoData} {bs : List Byte} (hser : serializeData v = .ok bs)
    (hwf : v.WellFormed D) (hd : bs.length < 2 ^ 63) (hmax : bs.length ≤ maxAlloc) :
    (deserialize maxAlloc bs v.typeOf).toOption = v.value? .none := by
  have hread := read_value v .none hd hmax hser hwf (holdsAt_self bs)
  rw [Nat.zero_add] at hread
  have hstart : (0 : GoInt) = BitVec.ofNat 64 0 := rfl
  rw [deserialize, toOption_bind, hstart, hread]
  cases v.value? .none with
  | none => rfl
  | some r => simp [Except.toOption]

theorem mustSerializeData_eq_ok {v : GoData} {bs : List Byte} :
    mustSerializeData v = .ok bs ↔ serializeData v = .ok bs := by
  unfold mustSerializeData
  split <;> simp_all

/-- What is serialized is read back, an empty slice for a nil one, but for a value with a pointer
that is not nil or with something to set in an unexported field, on which the reader panics. -/
theorem deserialize_roundTrip (D : TypeName → GoType) (maxAlloc : ℕ) (v : GoData) (bs : List Byte)
    (hwf : v.WellFormed D) (hser : mustSerializeData v = .ok bs) (hd : bs.length < 2 ^ 63)
    (hmax : bs.length ≤ maxAlloc) :
    (∀ r, v.value? .none = some r → deserialize maxAlloc bs v.typeOf = .ok r) ∧
      (v.value? .none = none → ∃ e, deserialize maxAlloc bs v.typeOf = .error e) := by
  have hread := deserialize_serialized (mustSerializeData_eq_ok.mp hser) hwf hd hmax
  constructor
  · intro r hr
    exact ok_of_toOption (hread.trans hr)
  · intro hnone
    exact error_of_toOption (hread.trans hnone)

def node (n : BitVec 16) (next : GoData) : GoData := .struct [(.exported, .uint16 n), (.exported, next)]

def sampleTypes : TypeName → GoType := fun _ => .struct [(.exported, .uint16), (.exported, .ptr "node")]

def listData : GoData := node 1 (.ptr "node" (node 2 (.nilPtr "node")))

def hiddenData : GoData := .struct [(.exported, .uint8 1), (.unexported, .uint8 7)]

def sampleOf (s : GoData) : GoData :=
  .struct [(.exported, .uint16 0x1234), (.exported, .string [0x68, 0x69]), (.exported, s),
    (.exported, .array .uint8 [.uint8 1, .uint8 2, .uint8 3]),
    (.embedded, .struct [(.exported, .int64 (-2))]), (.exported, .nilPtr "node")]

def sampleData : GoData := sampleOf (.nilSlice .uint8)

def sampleBytes : List Byte :=
  [0x34, 0x12] ++ encodeBytes [0x68, 0x69] ++ encodeBytes [] ++ [1, 2, 3] ++ toBytes 8 (2 ^ 64 - 2) ++ [0]

def sampleValue : GoValue :=
  .struct [.uint 0x1234, .string [0x68, 0x69], .bytes [], .array [.uint 1, .uint 2, .uint 3],
    .struct [.int (-2)], .nilPtr]

theorem listData_wellFormed : listData.WellFormed sampleTypes := by
  simp [listData, node, sampleTypes, GoData.WellFormed, FieldsWellFormed, GoData.typeOf, typesOf]

theorem sampleData_wellFormed : sampleData.WellFormed sampleTypes := by
  simp [sampleData, sampleOf, GoData.WellFormed, FieldsWellFormed, AllWellFormed, GoData.typeOf]

theorem sampleEmpty_wellFormed : (sampleOf (.slice .uint8 [])).WellFormed sampleTypes := by
  simp [sampleOf, GoData.WellFormed, FieldsWellFormed, AllWellFormed, GoData.typeOf]

theorem deserialize_roundTrip_sample :
    deserialize 4096 sampleBytes sampleData.typeOf = .ok sampleValue ∧
      (∃ e, deserialize 4096 [1, 0, 1, 2, 0, 0] listData.typeOf = .error e) ∧
      ∃ e, deserialize 4096 [1, 7] hiddenData.typeOf = .error e := by
  refine ⟨?_, ?_, ?_⟩
  · exact (deserialize_roundTrip sampleTypes 4096 sampleData sampleBytes sampleData_wellFormed rfl
      (by decide) (by decide)).1 sampleValue rfl
  · exact (deserialize_roundTrip sampleTypes 4096 listData [1, 0, 1, 2, 0, 0] listData_wellFormed rfl
      (by decide) (by decide)).2 rfl
  · exact (deserialize_roundTrip sampleTypes 4096 hiddenData [1, 7] ⟨trivial, trivial, trivial⟩ rfl
      (by decide) (by decide)).2 rfl

/-- Of two values of a type, each with more behind it, the bytes are the same just when the values
are, a nil slice being an empty one, and the rest is. -/
theorem serializeData_unique (D : TypeName → GoType) (v w : GoData) (bs cs rest rest' : List Byte)
    (hv : v.WellFormed D) (hw : w.WellFormed D) (htype : v.typeOf = w.typeOf)
    (hbs : serializeData v = .ok bs) (hcs : serializeData w = .ok cs) :
    bs ++ rest = cs ++ rest' ↔ v.emptied = w.emptied ∧ rest = rest' := by
  constructor
  · intro h
    exact value_unique v w htype hv hw hbs hcs h
  · rintro ⟨hemptied, rfl⟩
    have hsame : serializeData v = serializeData w := by
      rw [← serializeData_emptied v, hemptied, serializeData_emptied w]
    rw [hbs, hcs, Except.ok.injEq] at hsame
    rw [hsame]

theorem serializeData_unique_sample :
    sampleData ≠ sampleOf (.slice .uint8 []) ∧
      sampleData.emptied = (sampleOf (.slice .uint8 [])).emptied ∧
      encodeBytes [7] ++ [] ≠ encodeBytes [] ++ [7] := by
  refine ⟨by simp [sampleData, sampleOf], ?_, ?_⟩
  · exact ((serializeData_unique sampleTypes sampleData (sampleOf (.slice .uint8 [])) sampleBytes
      sampleBytes [5] [5] sampleData_wellFormed sampleEmpty_wellFormed rfl rfl rfl).mp rfl).1
  · intro h
    have heq := ((serializeData_unique sampleTypes (.slice .uint8 [.uint8 7]) (.nilSlice .uint8)
      (encodeBytes [7]) (encodeBytes []) [] [7] (wellFormed_bytes (p := [7]) (by decide)) trivial
      rfl rfl rfl).mp h).2
    cases heq

/-- Of a type without `bool`, and without arrays of anything but bytes, exactly the encodings are
accepted. -/
theorem deserialize_ok_iff (D : TypeName → GoType) (maxAlloc : ℕ) (data : List Byte) (t : GoType)
    (r : GoValue) (ht : Exact t = true) (hd : data.length < 2 ^ 63) (hmax : data.length ≤ maxAlloc) :
    deserialize maxAlloc data t = .ok r ↔
      ∃ v : GoData, v.typeOf = t ∧ v.WellFormed D ∧ v.value? .none = some r ∧
        serializeData v = .ok data := by
  constructor
  · intro h
    obtain ⟨⟨r', next⟩, hread, hend⟩ := bind_eq_ok.mp h
    split at hend
    · rename_i hnext
      rw [Except.ok.injEq] at hend
      subst hend
      obtain ⟨v, bs, hv⟩ := value_accepted D t hd ht (Nat.zero_le _) hread
      have hle := hv.holds.le
      have hwhole : bs.length = data.length := by
        have hlen := congrArg BitVec.toNat (hv.next.symm.trans hnext)
        rw [BitVec.toNat_ofNat, BitVec.toNat_ofNat] at hlen
        have hzero : (0 : GoInt).toNat = 0 := rfl
        omega
      obtain ⟨before, after, hdata, hbefore⟩ := hv.holds
      have hall : data = bs := by
        have hparts := congrArg List.length hdata
        simp only [List.length_append] at hparts
        have hnone : before = [] ∧ after = [] := by
          constructor <;> apply List.eq_nil_of_length_eq_zero <;> omega
        simpa [hnone] using hdata
      exact ⟨v, hv.type, hv.wellFormed, hv.value, hall ▸ hv.bytes⟩
    · cases hend
  · rintro ⟨v, rfl, hwf, hr, hser⟩
    exact ok_of_toOption ((deserialize_serialized hser hwf hd hmax).trans hr)

theorem deserialize_ok_iff_sample :
    deserialize 4096 sampleBytes sampleData.typeOf = .ok sampleValue ∧
      ∀ r, ¬ ∃ v : GoData, v.typeOf = sampleData.typeOf ∧ v.WellFormed sampleTypes ∧
        v.value? .none = some r ∧ serializeData v = .ok (sampleBytes.take 9) := by
  constructor
  · apply (deserialize_ok_iff sampleTypes 4096 sampleBytes sampleData.typeOf sampleValue rfl
      (by decide) (by decide)).mpr
    exact ⟨sampleData, rfl, sampleData_wellFormed, rfl, rfl⟩
  · intro r h
    have hok := (deserialize_ok_iff sampleTypes 4096 (sampleBytes.take 9) sampleData.typeOf r rfl
      (by decide) (by decide)).mpr h
    have hpanic : deserialize 4096 (sampleBytes.take 9) sampleData.typeOf =
        .error .indexOutOfRange := rfl
    rw [hpanic] at hok
    cases hok

structure Sent (D : TypeName → GoType) where
  data : GoData
  bytes : List Byte
  wellFormed : data.WellFormed D
  serialized : serializeData data = .ok bytes

/-- The length of the data, and the data. -/
def Sent.frame (m : Sent D) : List Byte := encodeBytes m.bytes

theorem read_sent {E : Embedded} {o : GoInt} {m : Sent D} {rest : List Byte}
    (h : E.witnessBytes.drop o.toNat = m.frame ++ rest) :
    read E m.data.typeOf o =
      (deserialize E.maxAlloc m.bytes m.data.typeOf, o + BitVec.ofNat 64 m.frame.length) ∧
    (deserialize E.maxAlloc m.bytes m.data.typeOf).toOption = m.data.value? .none := by
  have hsize := size_lt E
  have hlength := congrArg List.length h
  rw [List.length_drop, List.length_append, Sent.frame, length_encodeBytes] at hlength
  have hnext := add_eight_toNat E (o := o) (by omega)
  have hfirst : (E.witnessBytes.drop o.toNat).take 8 = toBytes 8 m.bytes.length := by
    rw [h, Sent.frame, encodeBytes, List.append_assoc, List.take_left' (length_toBytes 8 _)]
  have hcount : (BitVec.ofNat 64 m.bytes.length).toNat = m.bytes.length := by
    rw [BitVec.toNat_ofNat, Nat.mod_eq_of_lt (by omega)]
  have hdata : (E.witnessBytes.drop (o + 8).toNat).take m.bytes.length = m.bytes := by
    rw [hnext, ← List.drop_drop, h, Sent.frame, encodeBytes, List.append_assoc,
      List.drop_left' (length_toBytes 8 _), List.take_left]
  have hallocatable := E.allocatable
  constructor
  · rw [read_eq E _ (by omega), hfirst, ofBytes_toBytes, Nat.mod_eq_of_lt (by omega),
      unsafeRead_ok E (by omega), hcount, hdata]
    simp only
    rw [BitVec.add_assoc, Sent.frame, length_encodeBytes, BitVec.ofNat_add 8]
    rfl
  · exact deserialize_serialized m.serialized m.wellFormed (by omega) (by omega)

theorem reads_sent {E : Embedded} (ms : List (Sent D)) {o : GoInt} {rest : List Byte}
    (h : E.witnessBytes.drop o.toNat = ms.flatMap Sent.frame ++ rest) :
    (reads E (ms.map fun m => m.data.typeOf) o).1.map Except.toOption =
        ms.map (fun m => m.data.value? .none) ∧
      (reads E (ms.map fun m => m.data.typeOf) o).2 =
        o + BitVec.ofNat 64 (ms.flatMap Sent.frame).length := by
  induction ms generalizing o with
  | nil =>
    rw [List.flatMap_nil, List.length_nil]
    exact ⟨rfl, (BitVec.add_zero o).symm⟩
  | cons m ms ih =>
    rw [List.flatMap_cons, List.append_assoc] at h
    have hsize := size_lt E
    have hlength := congrArg List.length h
    rw [List.length_drop, List.length_append] at hlength
    have hnext : (o + BitVec.ofNat 64 m.frame.length).toNat = o.toNat + m.frame.length := by
      have hframe : m.frame.length = 8 + m.bytes.length := length_encodeBytes m.bytes
      rw [BitVec.toNat_add, BitVec.toNat_ofNat]
      omega
    have hrest : E.witnessBytes.drop (o + BitVec.ofNat 64 m.frame.length).toNat =
        ms.flatMap Sent.frame ++ rest := by
      rw [hnext, ← List.drop_drop, h, List.drop_left]
    obtain ⟨hread, hvalue⟩ := read_sent h
    obtain ⟨hvalues, hoffset⟩ := ih hrest
    rw [List.map_cons, reads, hread]
    simp only
    constructor
    · rw [List.map_cons, List.map_cons, hvalue, hvalues]
    · rw [hoffset, List.flatMap_cons, List.length_append, BitVec.ofNat_add, ← BitVec.add_assoc]

/-- A witness file of any serialized values, one frame after the other: each `Read` gives the value
of its frame or panics on it, and leaves the next one to be read. -/
theorem witness_roundTrip (D : TypeName → GoType) (E : Embedded) (ms : List (Sent D))
    (rest : List Byte) (h : E.witnessBytes = ms.flatMap Sent.frame ++ rest) :
    (reads E (ms.map fun m => m.data.typeOf) 0).1.map Except.toOption =
        ms.map (fun m => m.data.value? .none) ∧
      (reads E (ms.map fun m => m.data.typeOf) 0).2 =
        BitVec.ofNat 64 (ms.flatMap Sent.frame).length := by
  obtain ⟨hvalues, hoffset⟩ := reads_sent (o := 0) ms h
  exact ⟨hvalues, hoffset.trans (BitVec.zero_add _)⟩

def sampleSent : Sent sampleTypes := ⟨sampleData, sampleBytes, sampleData_wellFormed, rfl⟩

def listSent : Sent sampleTypes := ⟨listData, [1, 0, 1, 2, 0, 0], listData_wellFormed, rfl⟩

def threeSent : Embedded :=
  ⟨[sampleSent, listSent, sampleSent].flatMap Sent.frame ++ [5], 8192, by decide, by decide⟩

theorem witness_roundTrip_three :
    (reads threeSent [sampleData.typeOf, listData.typeOf, sampleData.typeOf] 0).1.map
        Except.toOption = [some sampleValue, none, some sampleValue] ∧
      (reads threeSent [sampleData.typeOf, listData.typeOf, sampleData.typeOf] 0).2 = 94 :=
  witness_roundTrip sampleTypes threeSent [sampleSent, listSent, sampleSent] [5] rfl

end Wasrisc.SerializedForm
