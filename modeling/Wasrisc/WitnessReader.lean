import Wasrisc.Deserialize
import Wasrisc.Runs

namespace Wasrisc.WitnessReader

open GoSlices LittleEndian Deserialize Runs

/-- The embedded file, and the most that `make` allocates: no less than the file, which is in memory,
and no more than a length can say. -/
structure Embedded where
  witnessBytes : List Byte
  maxAlloc : ℕ
  allocatable : witnessBytes.length ≤ maxAlloc
  maxAlloc_lt : maxAlloc < 2 ^ 63

def Embedded.size (E : Embedded) : GoInt := BitVec.ofNat 64 E.witnessBytes.length

def failedToRead (n remaining : GoInt) : String :=
  "failed to read " ++ toString n.toInt ++ " bytes from embedded file: only " ++
    toString remaining.toInt ++ " bytes remaining"

def unsafeReadFromEmbedded (E : Embedded) (n witnessOffset : GoInt) :
    Except Panic (List Byte) × GoInt :=
  -- a panic leaves `witnessOffset` as it is
  if E.size.toInt < (witnessOffset + n).toInt then
    (.error (.panicked (failedToRead n (E.size - witnessOffset))), witnessOffset)
  else
    match makeBytes E.maxAlloc n with
    | .error e => (.error e, witnessOffset)
    | .ok buf =>
      match slice E.witnessBytes witnessOffset (witnessOffset + n) with
      | .error e => (.error e, witnessOffset)
      | .ok src => (.ok (copy buf src), witnessOffset + n)

def lengthLoop (lengthBytes : List Byte) : ℕ → ℕ → BitVec 64 → Except Panic (BitVec 64)
  | 0, _, length => .ok length
  | left + 1, i, length =>
    (byteAt lengthBytes (BitVec.ofNat 64 i)).bind fun b =>
      lengthLoop lengthBytes left (i + 1) (length ||| b.setWidth 64 <<< (i * 8))

def read (E : Embedded) (t : GoType) (witnessOffset : GoInt) : Except Panic GoValue × GoInt :=
  match unsafeReadFromEmbedded E 8 witnessOffset with
  | (.error e, witnessOffset) => (.error e, witnessOffset)
  | (.ok lengthBytes, witnessOffset) =>
    match lengthLoop lengthBytes 8 0 0 with
    | .error e => (.error e, witnessOffset)
    | .ok length =>
      match unsafeReadFromEmbedded E length witnessOffset with
      | (.error e, witnessOffset) => (.error e, witnessOffset)
      | (.ok data, witnessOffset) => (deserialize E.maxAlloc data t, witnessOffset)

def readStep (E : Embedded) (witnessOffset : GoInt) (t : GoType) : Option GoInt :=
  some (read E t witnessOffset).2

def reads (E : Embedded) : List GoType → GoInt → List (Except Panic GoValue) × GoInt
  | [], witnessOffset => ([], witnessOffset)
  | t :: ts, witnessOffset =>
    let r := read E t witnessOffset
    (r.1 :: (reads E ts r.2).1, (reads E ts r.2).2)

def InBounds (E : Embedded) (witnessOffset : GoInt) : Prop :=
  0 ≤ witnessOffset.toInt ∧ witnessOffset.toInt ≤ E.witnessBytes.length

def frame (p : List Byte) : List Byte := toBytes 8 (8 + p.length) ++ encodeBytes p

structure ReadsFrames (E : Embedded) (o : GoInt) : Prop where
  returns : ∀ p, (read E (.slice .uint8) o).1 = .ok (.bytes p) ↔
    frame p <+: E.witnessBytes.drop o.toNat
  advances : ∀ p, frame p <+: E.witnessBytes.drop o.toNat →
    (read E (.slice .uint8) o).2.toNat = o.toNat + 16 + p.length
  panics : (∀ p, ¬ frame p <+: E.witnessBytes.drop o.toNat) →
    ∃ e, (read E (.slice .uint8) o).1 = .error e

theorem size_lt (E : Embedded) : E.witnessBytes.length < 2 ^ 63 :=
  E.allocatable.trans_lt E.maxAlloc_lt

theorem inBounds_iff {E : Embedded} {o : GoInt} :
    InBounds E o ↔ o.toNat ≤ E.witnessBytes.length := by
  have hsize := size_lt E
  rw [InBounds]
  rcases Nat.lt_or_ge o.toNat (2 ^ 63) with h | h
  · rw [toInt_of_lt h]
    omega
  · have hneg := toInt_neg_of_le h
    omega

theorem size_toInt (E : Embedded) : E.size.toInt = E.witnessBytes.length := by
  have hsize := size_lt E
  have hnat : E.size.toNat = E.witnessBytes.length := by
    rw [Embedded.size, BitVec.toNat_ofNat, Nat.mod_eq_of_lt (by omega)]
  rw [toInt_of_lt (by omega), hnat]

theorem unsafeRead_ok (E : Embedded) {n o : GoInt}
    (h : o.toNat + n.toNat ≤ E.witnessBytes.length) :
    unsafeReadFromEmbedded E n o =
      (.ok ((E.witnessBytes.drop o.toNat).take n.toNat), o + n) := by
  have hsize := size_lt E
  have hmax := E.allocatable
  have hsum : (o + n).toNat = o.toNat + n.toNat := by
    rw [BitVec.toNat_add, Nat.mod_eq_of_lt (by omega)]
  have hguard : ¬ E.size.toInt < (o + n).toInt := by
    rw [size_toInt, toInt_of_lt (by omega)]
    omega
  have hmake : makeBytes E.maxAlloc n = .ok (List.replicate n.toNat 0) := by
    have hn := toInt_of_lt (n := n) (by omega)
    rw [makeBytes, if_pos (by omega)]
  have hslice : slice E.witnessBytes o (o + n) =
      .ok ((E.witnessBytes.drop o.toNat).take n.toNat) := by
    rw [slice_ok hsize (by omega) (by omega), hsum, Nat.add_sub_cancel_left]
  rw [unsafeReadFromEmbedded, if_neg hguard, hmake, hslice]
  simp only
  rw [copy_all]
  rw [List.length_replicate, List.length_take, List.length_drop]
  omega

theorem unsafeRead_panics (E : Embedded) {n o : GoInt} (ho : o.toNat ≤ E.witnessBytes.length)
    (h : E.witnessBytes.length < o.toNat + n.toNat) :
    ∃ e, unsafeReadFromEmbedded E n o = (.error e, o) := by
  have hsize := size_lt E
  rw [unsafeReadFromEmbedded]
  split
  · exact ⟨_, rfl⟩
  · rename_i hguard
    rw [size_toInt] at hguard
    have hslice : slice E.witnessBytes o (o + n) = .error .sliceBoundsOutOfRange := by
      apply slice_panics (by omega)
      have hn := n.isLt
      have hsum := BitVec.toNat_add o n
      rcases Nat.lt_or_ge (o + n).toNat (2 ^ 63) with hlt | hge
      · have hint := toInt_of_lt hlt
        omega
      · omega
    cases hmake : makeBytes E.maxAlloc n with
    | error e => exact ⟨e, rfl⟩
    | ok buf =>
      rw [hslice]
      exact ⟨_, rfl⟩

theorem or_shift_toNat {acc : BitVec 64} {b : Byte} {i : ℕ} (hi : i < 8)
    (hacc : acc.toNat < 256 ^ i) :
    (acc ||| b.setWidth 64 <<< (i * 8)).toNat = acc.toNat + 256 ^ i * b.toNat := by
  have hpow : (256 : ℕ) ^ i = 2 ^ (i * 8) := by rw [Nat.mul_comm, Nat.pow_mul]
  have hb : b.toNat < 2 ^ 8 := b.isLt
  have hshift : b.toNat * 2 ^ (i * 8) < 2 ^ 64 := calc
    b.toNat * 2 ^ (i * 8) < 2 ^ 8 * 2 ^ (i * 8) := Nat.mul_lt_mul_of_pos_right hb (Nat.two_pow_pos _)
    _ = 2 ^ (8 + i * 8) := (Nat.pow_add _ _ _).symm
    _ ≤ 2 ^ 64 := Nat.pow_le_pow_right (by decide) (by omega)
  rw [BitVec.toNat_or, BitVec.toNat_shiftLeft, BitVec.toNat_setWidth,
    Nat.mod_eq_of_lt (show b.toNat < 2 ^ 64 by omega), Nat.shiftLeft_eq, Nat.mod_eq_of_lt hshift,
    hpow, Nat.or_comm, Nat.mul_comm, ← Nat.two_pow_add_eq_or_of_lt (hpow ▸ hacc), Nat.add_comm]

theorem lengthLoop_ok {bs : List Byte} (h8 : bs.length ≤ 8) (left i : ℕ) (acc : BitVec 64)
    (hi : i + left = bs.length) (hacc : acc.toNat = ofBytes (bs.take i)) :
    lengthLoop bs left i acc = .ok (BitVec.ofNat 64 (ofBytes bs)) := by
  induction left generalizing i acc with
  | zero =>
    rw [show i = bs.length by omega, List.take_length] at hacc
    rw [lengthLoop, ← hacc, BitVec.ofNat_toNat, BitVec.setWidth_eq]
  | succ left ih =>
    have hindex : (BitVec.ofNat 64 i).toNat = i := by
      rw [BitVec.toNat_ofNat, Nat.mod_eq_of_lt (by omega)]
    have hbyte : byteAt bs (BitVec.ofNat 64 i) = .ok bs[i] := by
      rw [byteAt_ok (by omega) (by omega)]
      simp only [hindex]
    have hlt := ofBytes_lt (bs.take i)
    rw [← hacc, List.length_take, Nat.min_eq_left (by omega)] at hlt
    rw [lengthLoop, hbyte]
    refine ih (i + 1) _ (by omega) ?_
    rw [or_shift_toNat (by omega) hlt, hacc, List.take_add_one,
      List.getElem?_eq_getElem (by omega), ofBytes_append, List.length_take,
      Nat.min_eq_left (by omega), Option.toList_some, ofBytes, ofBytes, Nat.mul_zero, Nat.add_zero]

theorem read_eq (E : Embedded) (t : GoType) {o : GoInt}
    (h : o.toNat + 8 ≤ E.witnessBytes.length) :
    read E t o =
      match unsafeReadFromEmbedded E
        (BitVec.ofNat 64 (ofBytes ((E.witnessBytes.drop o.toNat).take 8))) (o + 8) with
      | (.error e, o) => (.error e, o)
      | (.ok data, o) => (deserialize E.maxAlloc data t, o) := by
  have hfirst : unsafeReadFromEmbedded E 8 o =
      (.ok ((E.witnessBytes.drop o.toNat).take 8), o + 8) := unsafeRead_ok E h
  have hlength : ((E.witnessBytes.drop o.toNat).take 8).length = 8 := by
    rw [List.length_take, List.length_drop]
    omega
  rw [read, hfirst]
  simp only
  rw [lengthLoop_ok (by omega) 8 0 0 (by omega) rfl]

theorem read_short (E : Embedded) (t : GoType) {o : GoInt} (ho : o.toNat ≤ E.witnessBytes.length)
    (h : E.witnessBytes.length < o.toNat + 8) : ∃ e, read E t o = (.error e, o) := by
  obtain ⟨e, he⟩ := unsafeRead_panics E (n := 8) ho h
  exact ⟨e, by rw [read, he]⟩

theorem add_eight_toNat (E : Embedded) {o : GoInt} (h : o.toNat + 8 ≤ E.witnessBytes.length) :
    (o + 8).toNat = o.toNat + 8 := by
  have hsize := size_lt E
  rw [BitVec.toNat_add, show (8 : GoInt).toNat = 8 from rfl, Nat.mod_eq_of_lt (by omega)]

theorem read_cases (E : Embedded) (t : GoType) {o : GoInt} (ho : o.toNat ≤ E.witnessBytes.length) :
    (∃ e, read E t o = (.error e, o)) ∨
      (o.toNat + 8 ≤ E.witnessBytes.length ∧ ∃ e, read E t o = (.error e, o + 8)) ∨
      ∃ lengthBytes data, lengthBytes.length = 8 ∧ data.length = ofBytes lengthBytes ∧
        lengthBytes ++ data <+: E.witnessBytes.drop o.toNat ∧
        read E t o = (deserialize E.maxAlloc data t, o + 8 + BitVec.ofNat 64 data.length) := by
  have hsize := size_lt E
  rcases Nat.lt_or_ge E.witnessBytes.length (o.toNat + 8) with hshort | hlong
  · exact .inl (read_short E t ho hshort)
  have hnext := add_eight_toNat E hlong
  obtain ⟨lengthBytes, hdef⟩ : ∃ bs, (E.witnessBytes.drop o.toNat).take 8 = bs := ⟨_, rfl⟩
  have hlength : lengthBytes.length = 8 := by
    rw [← hdef, List.length_take, List.length_drop]
    omega
  have hlt := ofBytes_lt lengthBytes
  rw [hlength] at hlt
  have hcount : (BitVec.ofNat 64 (ofBytes lengthBytes)).toNat = ofBytes lengthBytes := by
    rw [BitVec.toNat_ofNat, Nat.mod_eq_of_lt (by omega)]
  rw [read_eq E t hlong, hdef]
  rcases Nat.lt_or_ge E.witnessBytes.length ((o + 8).toNat + ofBytes lengthBytes) with hn | hn
  · obtain ⟨e, he⟩ := unsafeRead_panics E (n := BitVec.ofNat 64 (ofBytes lengthBytes)) (o := o + 8)
      (by omega) (by omega)
    exact .inr (.inl ⟨hlong, e, by rw [he]⟩)
  · have hdata : ((E.witnessBytes.drop (o.toNat + 8)).take (ofBytes lengthBytes)).length =
        ofBytes lengthBytes := by
      rw [List.length_take, List.length_drop]
      omega
    refine .inr (.inr ⟨lengthBytes, _, hlength, hdata, ?_, ?_⟩)
    · rw [← List.take_append_drop 8 (E.witnessBytes.drop o.toNat), hdef, List.drop_drop]
      exact (List.prefix_append_right_inj _).mpr (List.take_prefix _ _)
    · rw [unsafeRead_ok E (by omega), hcount, hnext, hdata]

theorem read_inBounds {E : Embedded} {o : GoInt} (ho : InBounds E o) (t : GoType) :
    InBounds E (read E t o).2 := by
  rw [inBounds_iff] at ho ⊢
  have hsize := size_lt E
  rcases read_cases E t ho with ⟨e, he⟩ | ⟨hlong, e, he⟩ | ⟨bs, data, hbs, -, hprefix, he⟩
  · rw [he]
    exact ho
  · rw [he]
    exact (add_eight_toNat E hlong).trans_le hlong
  · have hle := hprefix.length_le
    rw [List.length_append, List.length_drop] at hle
    have hnext := add_eight_toNat E (o := o) (by omega)
    rw [he, BitVec.toNat_add, BitVec.toNat_ofNat]
    omega

theorem length_frame (p : List Byte) : (frame p).length = 16 + p.length := by
  rw [frame, List.length_append, length_toBytes, length_encodeBytes]
  omega

theorem read_frame {E : Embedded} {o : GoInt} {p rest : List Byte}
    (h : E.witnessBytes.drop o.toNat = frame p ++ rest) :
    read E (.slice .uint8) o = (.ok (.bytes p), o + BitVec.ofNat 64 (16 + p.length)) := by
  have hsize := size_lt E
  have hlength := congrArg List.length h
  rw [List.length_drop, List.length_append, length_frame] at hlength
  have hnext := add_eight_toNat E (o := o) (by omega)
  have hfirst : (E.witnessBytes.drop o.toNat).take 8 = toBytes 8 (8 + p.length) := by
    rw [h, frame, List.append_assoc, List.take_left' (length_toBytes 8 _)]
  have hcount : (BitVec.ofNat 64 (8 + p.length)).toNat = 8 + p.length := by
    rw [BitVec.toNat_ofNat, Nat.mod_eq_of_lt (by omega)]
  have hdata : (E.witnessBytes.drop (o + 8).toNat).take (8 + p.length) = encodeBytes p := by
    rw [hnext, ← List.drop_drop, h, frame, List.append_assoc, List.drop_left' (length_toBytes 8 _),
      List.take_left' (length_encodeBytes p)]
  rw [read_eq E _ (by omega), hfirst, ofBytes_toBytes, Nat.mod_eq_of_lt (by omega),
    unsafeRead_ok E (by omega), hcount, hdata]
  simp only
  rw [deserialize_bytes_ok _ (by omega), BitVec.add_assoc, show 16 + p.length = 8 + (8 + p.length) by
    omega, BitVec.ofNat_add 8 (8 + p.length)]
  rfl

theorem read_panics {E : Embedded} {o : GoInt} (ho : InBounds E o)
    (h : ∀ p, ¬ frame p <+: E.witnessBytes.drop o.toNat) :
    ∃ e, (read E (.slice .uint8) o).1 = .error e := by
  rw [inBounds_iff] at ho
  have hsize := size_lt E
  rcases read_cases E (.slice .uint8) ho with
    ⟨e, he⟩ | ⟨-, e, he⟩ | ⟨bs, data, hbs, hdata, hprefix, he⟩
  · exact ⟨e, by rw [he]⟩
  · exact ⟨e, by rw [he]⟩
  · rw [he]
    have hle := hprefix.length_le
    rw [List.length_append, List.length_drop] at hle
    apply deserialize_bytes_panics E.maxAlloc (by omega)
    intro p hp
    have hround := toBytes_ofBytes bs
    rw [hbs, ← hdata, hp, length_encodeBytes] at hround
    apply h p
    rw [frame, hround, ← hp]
    exact hprefix

theorem next_toNat {E : Embedded} {o : GoInt} {p rest : List Byte}
    (h : E.witnessBytes.drop o.toNat = frame p ++ rest) :
    (o + BitVec.ofNat 64 (16 + p.length)).toNat = o.toNat + 16 + p.length := by
  have hsize := size_lt E
  have hlength := congrArg List.length h
  rw [List.length_drop, List.length_append, length_frame] at hlength
  rw [BitVec.toNat_add, BitVec.toNat_ofNat]
  omega

theorem readsFrames {E : Embedded} {o : GoInt} (ho : InBounds E o) : ReadsFrames E o := by
  constructor
  · intro p
    constructor
    · intro hp
      by_contra hframe
      by_cases hother : ∃ q, frame q <+: E.witnessBytes.drop o.toNat
      · obtain ⟨q, rest, hq⟩ := hother
        rw [read_frame hq.symm] at hp
        simp only [Except.ok.injEq, GoValue.bytes.injEq] at hp
        exact hframe ⟨rest, hp ▸ hq⟩
      · obtain ⟨e, he⟩ := read_panics ho (not_exists.mp hother)
        rw [he] at hp
        exact absurd hp (by simp)
    · rintro ⟨rest, hp⟩
      rw [read_frame hp.symm]
  · rintro p ⟨rest, hp⟩
    rw [read_frame hp.symm]
    exact next_toNat hp.symm
  · exact read_panics ho

theorem reads_frames {E : Embedded} (ps : List (List Byte)) {rest : List Byte} {o : GoInt}
    (h : E.witnessBytes.drop o.toNat = ps.flatMap frame ++ rest) :
    reads E (List.replicate ps.length (.slice .uint8)) o =
      (ps.map fun p => .ok (.bytes p), o + BitVec.ofNat 64 (ps.flatMap frame).length) := by
  induction ps generalizing o with
  | nil =>
    rw [List.flatMap_nil, List.length_nil, List.length_nil]
    exact congrArg ([], ·) (BitVec.add_zero o).symm
  | cons p ps ih =>
    rw [List.flatMap_cons, List.append_assoc] at h
    have hnext := next_toNat h
    have hrest : E.witnessBytes.drop (o + BitVec.ofNat 64 (16 + p.length)).toNat =
        ps.flatMap frame ++ rest := by
      rw [hnext, Nat.add_assoc, ← List.drop_drop, h, ← length_frame, List.drop_left]
    rw [List.length_cons, List.replicate_succ, reads, read_frame h]
    simp only
    rw [ih hrest, List.map_cons, List.flatMap_cons, List.length_append, length_frame,
      BitVec.ofNat_add (16 + p.length), ← BitVec.add_assoc]

theorem read_bytes_exact (E : Embedded) :
    (∀ ts, Throughout (readStep E) (InBounds E) 0 ts) ∧
      (∀ (ts : List GoType) (o : GoInt), ts.foldlM (readStep E) 0 = some o → ReadsFrames E o) ∧
      ∀ (ps : List (List Byte)) (rest : List Byte), E.witnessBytes = ps.flatMap frame ++ rest →
        reads E (List.replicate ps.length (.slice .uint8)) 0 =
          (ps.map fun p => .ok (.bytes p), BitVec.ofNat 64 (ps.flatMap frame).length) := by
  have hstart : InBounds E 0 := inBounds_iff.mpr (Nat.zero_le _)
  have hstep : ∀ o t o', InBounds E o → readStep E o t = some o' → InBounds E o' := by
    intro o t o' ho hread
    obtain rfl := Option.some.inj hread
    exact read_inBounds ho t
  refine ⟨run_throughout hstep hstart, fun ts o ho => readsFrames (run_invariant hstep hstart ho),
    fun ps rest h => ?_⟩
  exact (reads_frames (o := 0) ps h).trans (congrArg (_, ·) (BitVec.zero_add _))

def twoPayloads : Embedded := ⟨frame [7, 9] ++ frame [], 4096, by decide, by decide⟩

theorem read_bytes_two_payloads :
    reads twoPayloads [.slice .uint8, .slice .uint8] 0 =
      ([.ok (.bytes [7, 9]), .ok (.bytes [])], 34) :=
  (read_bytes_exact twoPayloads).2.2 [[7, 9], []] [] rfl

end Wasrisc.WitnessReader
