import Wasrisc.Serialize

namespace Wasrisc.DataReads

open GoSlices LittleEndian Deserialize Serialize

variable {maxAlloc : ℕ} {data : List Byte}

def HoldsAt (data : List Byte) (i : ℕ) (bs : List Byte) : Prop :=
  ∃ before after, data = before ++ bs ++ after ∧ before.length = i

theorem HoldsAt.le {i : ℕ} {bs : List Byte} (h : HoldsAt data i bs) : i + bs.length ≤ data.length := by
  obtain ⟨before, after, rfl, rfl⟩ := h
  simp

theorem HoldsAt.drop_take {i : ℕ} {bs : List Byte} (h : HoldsAt data i bs) :
    (data.drop i).take bs.length = bs := by
  obtain ⟨before, after, rfl, rfl⟩ := h
  rw [List.append_assoc, List.drop_left, List.take_left]

theorem holdsAt_append {i : ℕ} {bs cs : List Byte} : HoldsAt data i (bs ++ cs) ↔
    HoldsAt data i bs ∧ HoldsAt data (i + bs.length) cs := by
  constructor
  · rintro ⟨before, after, rfl, rfl⟩
    exact ⟨⟨before, cs ++ after, by simp, rfl⟩, ⟨before ++ bs, after, by simp, by simp⟩⟩
  · rintro ⟨⟨before, after, rfl, rfl⟩, ⟨before', after', h, hlen⟩⟩
    refine ⟨before, after', ?_, rfl⟩
    have heq : (before ++ bs) ++ after = before' ++ (cs ++ after') := by simpa using h
    obtain ⟨-, rfl⟩ := List.append_inj heq (by simpa using hlen.symm)
    simp

theorem holdsAt_cons {i : ℕ} {b : Byte} {bs : List Byte} : HoldsAt data i (b :: bs) ↔
    HoldsAt data i [b] ∧ HoldsAt data (i + 1) bs := by
  rw [← List.singleton_append, holdsAt_append, List.length_singleton]

theorem holdsAt_take {i k : ℕ} (h : i + k ≤ data.length) : HoldsAt data i ((data.drop i).take k) := by
  refine ⟨data.take i, data.drop (i + k), ?_, ?_⟩
  · rw [List.append_assoc, ← List.drop_drop, List.take_append_drop, List.take_append_drop]
  · rw [List.length_take]
    omega

theorem holdsAt_self (data : List Byte) : HoldsAt data 0 data := ⟨[], [], by simp, rfl⟩

theorem toBytes_one (n : Byte) : toBytes 1 n.toNat = [n] := by simp [toBytes]

section Results

variable {α β ε : Type}

theorem map_eq_ok {x : Except ε α} {f : α → β} {b : β} :
    x.map f = .ok b ↔ ∃ a, x = .ok a ∧ f a = b := by
  cases x <;> simp [Except.map]

theorem bind_eq_ok {x : Except ε α} {f : α → Except ε β} {b : β} :
    x.bind f = .ok b ↔ ∃ a, x = .ok a ∧ f a = .ok b := by
  cases x <;> simp [Except.bind]

theorem toOption_map (x : Except ε α) (f : α → β) : (x.map f).toOption = x.toOption.map f := by
  cases x <;> rfl

theorem ok_of_toOption {x : Except ε α} {a : α} (h : x.toOption = some a) : x = .ok a := by
  cases x with
  | ok b => exact congrArg _ (Option.some.inj h)
  | error e => cases h

theorem error_of_toOption {x : Except ε α} (h : x.toOption = none) : ∃ e, x = .error e := by
  cases x with
  | ok b => cases h
  | error e => exact ⟨e, rfl⟩

theorem toOption_bind (x : Except ε α) (f : α → Except ε β) :
    (x.bind f).toOption = x.toOption.bind fun a => (f a).toOption := by
  cases x <;> rfl

end Results

theorem toOption_assign (ro : FlagRO) (method : String) (v : GoValue) (next : GoInt) :
    (assign ro method v next).toOption = (assigned? ro v).map (·, next) := by
  rw [assign, assigned?]
  by_cases h : ro = .none
  · rw [if_pos h, if_pos h]
    rfl
  · rw [if_neg h, if_neg h]
    rfl

theorem assign_eq_ok {ro : FlagRO} {method : String} {v r : GoValue} {next last : GoInt}
    (h : assign ro method v next = .ok (r, last)) : ro = .none ∧ v = r ∧ next = last := by
  rw [assign] at h
  by_cases hro : ro = .none
  · rw [if_pos hro, Except.ok.injEq] at h
    obtain ⟨rfl, rfl⟩ := Prod.mk.inj h
    exact ⟨hro, rfl, rfl⟩
  · rw [if_neg hro] at h
    cases h

section Read

variable (hd : data.length < 2 ^ 63)

include hd

theorem HoldsAt.index_toNat {i : ℕ} {bs : List Byte} (h : HoldsAt data i bs) :
    (BitVec.ofNat 64 i).toNat = i := by
  have hle := h.le
  rw [BitVec.toNat_ofNat, Nat.mod_eq_of_lt (by omega)]

theorem uintAt_holds {i k : ℕ} {bs : List Byte} (h : HoldsAt data i bs) (hk : bs.length = k) :
    uintAt data k (BitVec.ofNat 64 i) = .ok (ofBytes bs) := by
  have hle := h.le
  have hi := h.index_toNat hd
  subst hk
  rw [uintAt_ok hd.le (by omega), hi, h.drop_take]

theorem uintAt_number {i k n : ℕ} (h : HoldsAt data i (toBytes k n)) (hn : n < 256 ^ k) :
    uintAt data k (BitVec.ofNat 64 i) = .ok n := by
  rw [uintAt_holds hd h (length_toBytes k n), ofBytes_toBytes, Nat.mod_eq_of_lt hn]

theorem byteAt_holds {i : ℕ} {b : Byte} (h : HoldsAt data i [b]) :
    byteAt data (BitVec.ofNat 64 i) = .ok b := by
  have hle := h.le
  have hi := h.index_toNat hd
  have htake := h.drop_take
  rw [List.length_singleton] at hle
  rw [List.length_singleton, List.drop_eq_getElem_cons (by omega), List.take_succ_cons, List.take_zero] at htake
  rw [byteAt_ok hd.le (by omega)]
  simp only [hi]
  exact congrArg _ (List.cons.inj htake).1

theorem slice_holds {i : ℕ} {bs : List Byte} (h : HoldsAt data i bs) :
    slice data (BitVec.ofNat 64 i) (BitVec.ofNat 64 i + BitVec.ofNat 64 bs.length) = .ok bs := by
  have hle := h.le
  have hi := h.index_toNat hd
  have hsum : (BitVec.ofNat 64 i + BitVec.ofNat 64 bs.length).toNat = i + bs.length := by
    rw [← BitVec.ofNat_add, BitVec.toNat_ofNat, Nat.mod_eq_of_lt (by omega)]
  rw [slice_ok hd (by omega) (by omega), hi, hsum, Nat.add_sub_cancel_left, h.drop_take]

theorem read_uint {i k n : ℕ} (h : HoldsAt data i (toBytes k n)) (hn : n < 256 ^ k) (ro : FlagRO) :
    deserializeUint data k ro (BitVec.ofNat 64 i) =
      assign ro "SetUint" (.uint n) (BitVec.ofNat 64 (i + k)) := by
  rw [deserializeUint, uintAt_number hd h hn, BitVec.ofNat_add]
  rfl

theorem read_int {i k : ℕ} {n : BitVec (8 * k)} (h : HoldsAt data i (toBytes k n.toNat))
    (ro : FlagRO) : deserializeInt data k ro (BitVec.ofNat 64 i) =
      assign ro "SetInt" (.int n.toInt) (BitVec.ofNat 64 (i + k)) := by
  have hn : n.toNat < 256 ^ k := by
    have hlt := n.isLt
    rwa [Nat.pow_mul] at hlt
  rw [deserializeInt, uintAt_number hd h hn, BitVec.ofNat_add]
  simp [Except.bind]

theorem read_bytes {i : ℕ} {p : List Byte} (h : HoldsAt data i (encodeBytes p)) (ro : FlagRO) :
    deserializeBytes data ro (BitVec.ofNat 64 i) =
      assign ro "SetBytes" (.bytes p) (BitVec.ofNat 64 (i + (encodeBytes p).length)) := by
  have hle := h.le
  rw [length_encodeBytes] at hle
  obtain ⟨hlen, hp⟩ := holdsAt_append.mp h
  rw [length_toBytes] at hp
  have h8 : BitVec.ofNat 64 i + 8 = BitVec.ofNat 64 (i + 8) := (BitVec.ofNat_add i 8).symm
  rw [deserializeBytes, uintAt_number hd hlen (by omega), Except.bind]
  simp only
  rw [h8, slice_holds hd hp, Except.bind, ← BitVec.ofNat_add, length_encodeBytes, Nat.add_assoc]

theorem read_string {i : ℕ} {p : List Byte} (h : HoldsAt data i (encodeBytes p))
    (hmax : data.length ≤ maxAlloc) (ro : FlagRO) :
    deserializeString maxAlloc data ro (BitVec.ofNat 64 i) =
      assign ro "SetString" (.string p) (BitVec.ofNat 64 (i + (encodeBytes p).length)) := by
  have hle := h.le
  rw [length_encodeBytes] at hle
  obtain ⟨hlen, hp⟩ := holdsAt_append.mp h
  rw [length_toBytes] at hp
  have h8 : BitVec.ofNat 64 i + 8 = BitVec.ofNat 64 (i + 8) := (BitVec.ofNat_add i 8).symm
  have hlength : (BitVec.ofNat 64 p.length).toNat = p.length := by
    rw [BitVec.toNat_ofNat, Nat.mod_eq_of_lt (by omega)]
  have hmake : makeBytes maxAlloc (BitVec.ofNat 64 p.length) = .ok (List.replicate p.length 0) := by
    have hint := toInt_of_lt (n := BitVec.ofNat 64 p.length) (by omega)
    rw [makeBytes, if_pos (by omega), hlength]
  rw [deserializeString, uintAt_number hd hlen (by omega), Except.bind]
  simp only
  rw [h8, hmake, Except.bind, slice_holds hd hp, Except.bind, copy_all (List.length_replicate ..),
    ← BitVec.ofNat_add, length_encodeBytes, Nat.add_assoc]

theorem read_uint8 {i : ℕ} {b : Byte} (h : HoldsAt data i [b]) (ro : FlagRO) :
    deserializeData maxAlloc data .uint8 ro (BitVec.ofNat 64 i) =
      assign ro "SetUint" (.uint b.toNat) (BitVec.ofNat 64 (i + 1)) := by
  rw [← toBytes_one] at h
  rw [deserializeData]
  exact read_uint hd h b.isLt ro

theorem read_array {i : ℕ} {p : List Byte} (h : HoldsAt data i p) (ro : FlagRO) :
    (deserializeElements (deserializeData maxAlloc data .uint8 ro) p.length
        (BitVec.ofNat 64 i)).toOption =
      (values? (p.map .uint8) ro).map (·, BitVec.ofNat 64 (i + p.length)) := by
  induction p generalizing i with
  | nil => rfl
  | cons b p ih =>
    obtain ⟨hb, hp⟩ := holdsAt_cons.mp h
    rw [List.length_cons, deserializeElements, read_uint8 hd hb, toOption_bind, toOption_assign,
      List.map_cons, values?, GoData.value?]
    cases assigned? ro (.uint b.toNat) with
    | none => rfl
    | some r =>
      simp only [Option.map_some, Option.bind_some, toOption_map, ih hp, Option.map_map,
        Nat.add_assoc, Nat.add_comm 1]
      rfl

end Read

theorem next_eq {i k : ℕ} {index : GoInt} (h : index.toNat = i) :
    index + BitVec.ofNat 64 k = BitVec.ofNat 64 (i + k) := by
  rw [← h, BitVec.ofNat_add, BitVec.ofNat_toNat, BitVec.setWidth_eq]

section Accepted

variable (hd : data.length < 2 ^ 63)

include hd

theorem uintAt_accepts {k a : ℕ} {index : GoInt} (hi : index.toNat ≤ data.length)
    (h : uintAt data k index = .ok a) : HoldsAt data index.toNat (toBytes k a) ∧ a < 256 ^ k := by
  rcases Nat.lt_or_ge data.length (index.toNat + k) with hlt | hle
  · rw [uintAt_panics hd.le hi hlt] at h
    cases h
  · rw [uintAt_ok hd.le hle, Except.ok.injEq] at h
    have hk : ((data.drop index.toNat).take k).length = k := by
      rw [List.length_take, List.length_drop]
      omega
    have hround := toBytes_ofBytes ((data.drop index.toNat).take k)
    have hlt := ofBytes_lt ((data.drop index.toNat).take k)
    rw [hk, h] at hround hlt
    rw [hround]
    exact ⟨holdsAt_take hle, hlt⟩

theorem byteAt_accepts {b : Byte} {index : GoInt} (h : byteAt data index = .ok b) :
    HoldsAt data index.toNat [b] := by
  rcases Nat.lt_or_ge index.toNat data.length with hlt | hle
  · rw [byteAt_ok hd.le hlt, Except.ok.injEq] at h
    have htake : HoldsAt data index.toNat ((data.drop index.toNat).take 1) := holdsAt_take (by omega)
    rwa [List.drop_eq_getElem_cons hlt, List.take_succ_cons, List.take_zero, h] at htake
  · rw [byteAt_panics hle] at h
    cases h

theorem encodeBytes_accepts {l : ℕ} {bytes : List Byte} {index : GoInt}
    (hi : index.toNat ≤ data.length) (hl : uintAt data 8 index = .ok l)
    (h : slice data (index + 8) (index + 8 + BitVec.ofNat 64 l) = .ok bytes) :
    HoldsAt data index.toNat (encodeBytes bytes) ∧ bytes.length = l := by
  obtain ⟨hat, hlt⟩ := uintAt_accepts hd hi hl
  have hle := hat.le
  rw [length_toBytes] at hle
  have hlow : (index + 8).toNat = index.toNat + 8 := by
    rw [BitVec.toNat_add, show (8 : GoInt).toNat = 8 from rfl]
    omega
  have hhigh := BitVec.toNat_add (index + 8) (BitVec.ofNat 64 l)
  rw [BitVec.toNat_ofNat, hlow, Nat.mod_eq_of_lt (show l < 2 ^ 64 by omega)] at hhigh
  have hbounds : ¬ ((index + 8 + BitVec.ofNat 64 l).toNat < (index + 8).toNat ∨
      data.length < (index + 8 + BitVec.ofNat 64 l).toNat) := by
    intro hout
    rw [slice_panics (by omega) hout] at h
    cases h
  have hsum : (index + 8 + BitVec.ofNat 64 l).toNat = index.toNat + 8 + l := by omega
  rw [slice_ok hd (by omega) (by omega), hsum, hlow, Nat.add_sub_cancel_left, Except.ok.injEq] at h
  have hlen : bytes.length = l := by
    rw [← h, List.length_take, List.length_drop]
    omega
  refine ⟨holdsAt_append.mpr ⟨?_, ?_⟩, hlen⟩
  · rw [hlen]
    exact hat
  · rw [length_toBytes, ← h]
    exact holdsAt_take (by omega)

theorem uint_accepts {k : ℕ} {ro : FlagRO} {index next : GoInt} {v : GoValue}
    (hi : index.toNat ≤ data.length) (h : deserializeUint data k ro index = .ok (v, next)) :
    ro = .none ∧ ∃ n : BitVec (8 * k), v = .uint n.toNat ∧
      HoldsAt data index.toNat (toBytes k n.toNat) ∧ next = BitVec.ofNat 64 (index.toNat + k) := by
  obtain ⟨a, ha, hassign⟩ := bind_eq_ok.mp h
  obtain ⟨hro, rfl, rfl⟩ := assign_eq_ok hassign
  obtain ⟨hat, hlt⟩ := uintAt_accepts hd hi ha
  have hn : (BitVec.ofNat (8 * k) a).toNat = a := by
    rw [BitVec.toNat_ofNat, Nat.pow_mul, Nat.mod_eq_of_lt hlt]
  refine ⟨hro, BitVec.ofNat (8 * k) a, ?_, ?_, next_eq rfl⟩
  · rw [hn]
  · rw [hn]
    exact hat

theorem int_accepts {k : ℕ} {ro : FlagRO} {index next : GoInt} {v : GoValue}
    (hi : index.toNat ≤ data.length) (h : deserializeInt data k ro index = .ok (v, next)) :
    ro = .none ∧ ∃ n : BitVec (8 * k), v = .int n.toInt ∧
      HoldsAt data index.toNat (toBytes k n.toNat) ∧ next = BitVec.ofNat 64 (index.toNat + k) := by
  obtain ⟨a, ha, hassign⟩ := bind_eq_ok.mp h
  obtain ⟨hro, rfl, rfl⟩ := assign_eq_ok hassign
  obtain ⟨hat, hlt⟩ := uintAt_accepts hd hi ha
  refine ⟨hro, BitVec.ofNat (8 * k) a, rfl, ?_, next_eq rfl⟩
  rw [BitVec.toNat_ofNat, Nat.pow_mul, Nat.mod_eq_of_lt hlt]
  exact hat

theorem array_accepts {n : ℕ} {ro : FlagRO} {index next : GoInt} {vs : List GoValue}
    (hi : index.toNat ≤ data.length)
    (h : deserializeElements (deserializeData maxAlloc data .uint8 ro) n index = .ok (vs, next)) :
    ∃ p : List Byte, p.length = n ∧ values? (p.map .uint8) ro = some vs ∧
      HoldsAt data index.toNat p ∧ next = BitVec.ofNat 64 (index.toNat + p.length) := by
  induction n generalizing index vs with
  | zero =>
    rw [deserializeElements, Except.ok.injEq] at h
    obtain ⟨rfl, rfl⟩ := Prod.mk.inj h
    refine ⟨[], rfl, rfl, holdsAt_take (k := 0) hi, ?_⟩
    rw [List.length_nil, ← next_eq rfl, BitVec.add_zero]
  | succ n ih =>
    obtain ⟨⟨v, mid⟩, hread, hrest⟩ := bind_eq_ok.mp h
    rw [deserializeData] at hread
    obtain ⟨hro, b, rfl, hb, rfl⟩ := uint_accepts hd hi hread
    rw [toBytes_one] at hb
    have hle := hb.le
    rw [List.length_singleton] at hle
    have hmid : (BitVec.ofNat 64 (index.toNat + 1)).toNat = index.toNat + 1 := by
      rw [BitVec.toNat_ofNat, Nat.mod_eq_of_lt (by omega)]
    obtain ⟨⟨us, last⟩, hus, heq⟩ := map_eq_ok.mp hrest
    obtain ⟨rfl, rfl⟩ := Prod.mk.inj heq
    simp only at hus
    obtain ⟨p, rfl, hp, hat, rfl⟩ := ih (by omega) hus
    rw [hmid] at hat
    refine ⟨b :: p, rfl, ?_, holdsAt_cons.mpr ⟨hb, hat⟩, ?_⟩
    · rw [List.map_cons, values?, hp, GoData.value?, assigned?, if_pos hro]
      rfl
    · rw [hmid, List.length_cons, Nat.add_assoc, Nat.add_comm 1]

end Accepted

theorem next_encodeBytes {index : GoInt} (p : List Byte) : index + 8 + BitVec.ofNat 64 p.length =
    BitVec.ofNat 64 (index.toNat + (encodeBytes p).length) := by
  rw [length_encodeBytes, ← next_eq rfl, BitVec.ofNat_add 8, ← BitVec.add_assoc]
  rfl

theorem length_makeBytes {n : GoInt} {str : List Byte} (h : makeBytes maxAlloc n = .ok str) :
    str.length = n.toNat := by
  unfold makeBytes at h
  split at h
  · rw [← Except.ok.inj h, List.length_replicate]
  · cases h

end Wasrisc.DataReads
