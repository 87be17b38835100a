import Wasrisc.MemoryWindows

namespace Wasrisc.WordBytes

open AddressedMemory HostMemory LittleEndian MemoryWindows

theorem and_add_and_not {w : ℕ} (x m : BitVec w) : (x &&& m) + (x &&& ~~~m) = x := by
  have hdisjoint : (x &&& m) &&& (x &&& ~~~m) = 0#w := by
    apply BitVec.eq_of_getLsbD_eq
    intro i hi
    simp only [BitVec.getLsbD_and, BitVec.getLsbD_not, BitVec.getLsbD_zero]
    cases x.getLsbD i <;> cases m.getLsbD i <;> simp
  rw [BitVec.add_eq_or_of_and_eq_zero _ _ hdisjoint]
  apply BitVec.eq_of_getLsbD_eq
  intro i hi
  simp only [BitVec.getLsbD_or, BitVec.getLsbD_and, BitVec.getLsbD_not, hi, decide_true,
    Bool.true_and]
  cases x.getLsbD i <;> cases m.getLsbD i <;> rfl

theorem and_not_eq_sub {w : ℕ} (x m : BitVec w) : x &&& ~~~m = x - (x &&& m) :=
  eq_sub_of_add_eq' (and_add_and_not x m)

theorem toNat_and_mask (x : U64) {k : ℕ} (hk : k ≤ 64) :
    (x &&& BitVec.ofNat 64 (2 ^ k - 1)).toNat = x.toNat % 2 ^ k := by
  have hpow : 2 ^ k ≤ 2 ^ 64 := Nat.pow_le_pow_right (by omega) hk
  have hpos := Nat.two_pow_pos k
  rw [BitVec.toNat_and, BitVec.toNat_ofNat, Nat.mod_eq_of_lt (by omega),
    Nat.and_two_pow_sub_one_eq_mod]

theorem toNat_and_not_mask (x : U64) {k : ℕ} (hk : k ≤ 64) :
    (x &&& ~~~BitVec.ofNat 64 (2 ^ k - 1)).toNat = x.toNat - x.toNat % 2 ^ k := by
  have hmod := Nat.mod_le x.toNat (2 ^ k)
  rw [and_not_eq_sub, BitVec.toNat_sub_of_le, toNat_and_mask x hk]
  rw [BitVec.le_def, toNat_and_mask x hk]
  exact hmod

theorem shiftLeft_ofNat (n k : ℕ) : BitVec.ofNat 64 n <<< k = BitVec.ofNat 64 (2 ^ k * n) := by
  apply BitVec.eq_of_toNat_eq
  rw [BitVec.toNat_shiftLeft, BitVec.toNat_ofNat, BitVec.toNat_ofNat, Nat.shiftLeft_eq,
    Nat.mod_mul_mod, Nat.mul_comm]

theorem ofBytes_or {bs cs : List U8} {k : ℕ} (hk : bs.length = k) :
    BitVec.ofNat 64 (ofBytes bs) ||| BitVec.ofNat 64 (ofBytes cs) <<< (8 * k) =
      BitVec.ofNat 64 (ofBytes (bs ++ cs)) := by
  subst hk
  have hlt : ofBytes bs < 2 ^ (8 * bs.length) := by
    rw [Nat.pow_mul]
    exact ofBytes_lt bs
  rw [shiftLeft_ofNat, BitVec.or_comm, ← BitVec.ofNat_or, ← Nat.two_pow_add_eq_or_of_lt hlt,
    ofBytes_append, Nat.pow_mul, Nat.add_comm]

theorem ofBytes_ushiftRight {bs cs : List U8} {k : ℕ} (hk : bs.length = k)
    (h : bs.length + cs.length ≤ 8) :
    BitVec.ofNat 64 (ofBytes (bs ++ cs)) >>> (8 * k) = BitVec.ofNat 64 (ofBytes cs) := by
  subst hk
  have hdiv : ofBytes (bs ++ cs) / 256 ^ bs.length = ofBytes cs := by
    rw [ofBytes_append, Nat.add_mul_div_left _ _ (by positivity), Nat.div_eq_of_lt (ofBytes_lt bs),
      Nat.zero_add]
  have hall : ofBytes (bs ++ cs) < 2 ^ 64 := by
    apply (ofBytes_lt (bs ++ cs)).trans_le
    rw [List.length_append]
    exact Nat.pow_le_pow_right (by omega) h
  have hle : ofBytes cs ≤ ofBytes (bs ++ cs) := hdiv ▸ Nat.div_le_self _ _
  apply BitVec.eq_of_toNat_eq
  rw [BitVec.toNat_ushiftRight, BitVec.toNat_ofNat, BitVec.toNat_ofNat, Nat.mod_eq_of_lt hall,
    Nat.shiftRight_eq_div_pow, Nat.pow_mul, hdiv, Nat.mod_eq_of_lt (hle.trans_lt hall)]

theorem read_split (ram : Ram) (a : U64) {k : ℕ} (hk : k ≤ 8) :
    read ram a 8 = read ram a k ++ read ram (a + BitVec.ofNat 64 k) (8 - k) := by
  rw [← read_add, Nat.add_sub_cancel' hk]

theorem load64_ushiftRight (ram : Ram) (a : U64) {k : ℕ} (hk : k ≤ 8) :
    load64 ram a >>> (8 * k) =
      BitVec.ofNat 64 (ofBytes (read ram (a + BitVec.ofNat 64 k) (8 - k))) := by
  rw [load64, read_split ram a hk]
  apply ofBytes_ushiftRight (length_read ram a k)
  rw [length_read, length_read]
  omega

theorem load64_shiftLeft (ram : Ram) (a : U64) {k : ℕ} (hk : k ≤ 8) :
    load64 ram a <<< (8 * (8 - k)) =
      BitVec.ofNat 64 (ofBytes (read ram a k)) <<< (8 * (8 - k)) := by
  have hlen := length_read ram a k
  have hpow : 2 ^ (8 * (8 - k)) * 256 ^ k = 2 ^ 64 := by
    rw [show 256 = 2 ^ 8 from rfl, ← Nat.pow_mul, ← Nat.pow_add]
    congr 1
    omega
  rw [load64, read_split ram a hk, ofBytes_append, hlen, shiftLeft_ofNat, shiftLeft_ofNat,
    Nat.mul_add, ← Nat.mul_assoc, hpow]
  apply BitVec.eq_of_toNat_eq
  rw [BitVec.toNat_ofNat, BitVec.toNat_ofNat, Nat.add_mul_mod_self_left]

theorem load64_combine {ram : Ram} {a lower upper : U64} {k : ℕ} (hk : k ≤ 8)
    (hlower : lower = BitVec.ofNat 64 (ofBytes (read ram a (8 - k))))
    (hupper : upper = BitVec.ofNat 64 (ofBytes (read ram (a + BitVec.ofNat 64 (8 - k)) k)) <<<
      (8 * (8 - k))) : lower ||| upper = load64 ram a := by
  rw [hlower, hupper, ofBytes_or (length_read _ _ _), ← read_add, Nat.sub_add_cancel hk, load64]

theorem splat_step {v : U8} {k : ℕ} :
    BitVec.ofNat 64 (ofBytes (List.replicate k v)) |||
        BitVec.ofNat 64 (ofBytes (List.replicate k v)) <<< (8 * k) =
      BitVec.ofNat 64 (ofBytes (List.replicate (k + k) v)) := by
  rw [ofBytes_or (List.length_replicate ..), List.replicate_append_replicate]

theorem toBytes_ofBytes_word {bs : List U8} (h : bs.length = 8) :
    toBytes 8 (BitVec.ofNat 64 (ofBytes bs)).toNat = bs := by
  have hlt := ofBytes_lt bs
  have hbytes := toBytes_ofBytes bs
  rw [h] at hlt hbytes
  rw [BitVec.toNat_ofNat, Nat.mod_eq_of_lt (by omega), hbytes]

theorem store64_load64 (ram ram' : Ram) (a b : U64) :
    store64 ram a (load64 ram' b) = write ram a (read ram' b 8) := by
  rw [store64, load64, toBytes_ofBytes_word (length_read _ _ _)]

theorem store64_splat (ram : Ram) (a : U64) (v : U8) :
    store64 ram a (BitVec.ofNat 64 (ofBytes (List.replicate 8 v))) =
      write ram a (List.replicate 8 v) := by
  rw [store64, toBytes_ofBytes_word (List.length_replicate ..)]

theorem getElem_read (ram : Ram) (a : U64) {n i : ℕ} (h : i < (read ram a n).length) :
    (read ram a n)[i] = ram (a + BitVec.ofNat 64 i) := by
  simp only [AddressedMemory.read, List.getElem_map, List.getElem_range]

theorem signExtend_imm {k : ℕ} (hk : k < 2048) :
    (BitVec.ofNat 12 k).signExtend 64 = BitVec.ofNat 64 k := by
  have hmsb : (BitVec.ofNat 12 k).msb = false := by
    rw [BitVec.msb_eq_decide, BitVec.toNat_ofNat]
    simp only [decide_eq_false_iff_not]
    omega
  apply BitVec.eq_of_toNat_eq
  rw [BitVec.signExtend_eq_setWidth_of_msb_false hmsb, BitVec.toNat_setWidth, BitVec.toNat_ofNat,
    BitVec.toNat_ofNat]
  omega

theorem offset_zero (a : U64) : a + BitVec.ofNat 64 0 = a := by simp

theorem offset_lt_offset {a : U64} {i j : ℕ} (hi : a.toNat + i < 2 ^ 64)
    (hj : a.toNat + j < 2 ^ 64) : a + BitVec.ofNat 64 i < a + BitVec.ofNat 64 j ↔ i < j := by
  rw [BitVec.lt_def, add_toNat hi, add_toNat hj]
  omega

abbrev splat (v : U8) : U64 := BitVec.ofNat 64 (ofBytes (List.replicate 8 v))

theorem offset_eq_offset {a : U64} {i j : ℕ} (hi : i < 2 ^ 64) (hj : j < 2 ^ 64) :
    a + BitVec.ofNat 64 i = a + BitVec.ofNat 64 j ↔ i = j := by
  constructor
  · intro h
    have := congrArg BitVec.toNat (add_left_cancel h)
    rwa [BitVec.toNat_ofNat, BitVec.toNat_ofNat, Nat.mod_eq_of_lt hi, Nat.mod_eq_of_lt hj] at this
  · rintro rfl
    rfl

theorem ofNat_and_mask (n : ℕ) {k : ℕ} (hk : k ≤ 64) :
    BitVec.ofNat 64 n &&& BitVec.ofNat 64 (2 ^ k - 1) = BitVec.ofNat 64 (n % 2 ^ k) := by
  have hpow : 2 ^ k ∣ 2 ^ 64 := Nat.pow_dvd_pow 2 hk
  apply BitVec.eq_of_toNat_eq
  have hlt : n % 2 ^ k < 2 ^ 64 :=
    (Nat.mod_lt n (by positivity)).trans_le (Nat.le_of_dvd (by positivity) hpow)
  rw [toNat_and_mask _ hk, BitVec.toNat_ofNat, BitVec.toNat_ofNat, Nat.mod_mod_of_dvd n hpow,
    Nat.mod_eq_of_lt hlt]

theorem and_mask (x : U64) {k : ℕ} (hk : k ≤ 64) :
    x &&& BitVec.ofNat 64 (2 ^ k - 1) = BitVec.ofNat 64 (x.toNat % 2 ^ k) := by
  rw [← ofNat_and_mask _ hk, BitVec.ofNat_toNat, BitVec.setWidth_eq]

theorem ofNat_and_seven (n : ℕ) : BitVec.ofNat 64 n &&& 7 = BitVec.ofNat 64 (n % 8) :=
  ofNat_and_mask n (k := 3) (by omega)

theorem offset_and_not_mask {a : U64} {h n k : ℕ} (hk : k ≤ 64) (hw : a.toNat + (h + n) < 2 ^ 64)
    (halign : (a.toNat + h) % 2 ^ k = 0) : (a + BitVec.ofNat 64 (h + n)) &&&
      ~~~BitVec.ofNat 64 (2 ^ k - 1) = a + BitVec.ofNat 64 (h + 2 ^ k * (n / 2 ^ k)) := by
  have hn := Nat.div_add_mod n (2 ^ k)
  have hmod : (a.toNat + (h + n)) % 2 ^ k = n % 2 ^ k := by
    rw [← Nat.add_assoc, Nat.add_mod, halign, Nat.zero_add, Nat.mod_mod]
  apply BitVec.eq_of_toNat_eq
  rw [toNat_and_not_mask _ hk, add_toNat hw, hmod, add_toNat (by omega)]
  omega

theorem splat_setWidth (v : U8) : (splat v).setWidth 8 = v := by
  have hv := v.isLt
  apply BitVec.eq_of_toNat_eq
  rw [splat, BitVec.toNat_setWidth, BitVec.toNat_ofNat, List.replicate_succ, ofBytes]
  omega

theorem splat_one (v : U8) : v.setWidth 64 = BitVec.ofNat 64 (ofBytes (List.replicate 1 v)) := by
  have hv := v.isLt
  apply BitVec.eq_of_toNat_eq
  rw [BitVec.toNat_setWidth, BitVec.toNat_ofNat, List.replicate_one, ofBytes, ofBytes]
  omega

theorem ofNat_eq_zero_iff {n : ℕ} (hn : n < 2 ^ 64) : BitVec.ofNat 64 n = 0 ↔ n = 0 := by
  constructor
  · intro h
    have := congrArg BitVec.toNat h
    rwa [BitVec.toNat_ofNat, Nat.mod_eq_of_lt hn] at this
  · rintro rfl
    rfl

theorem offset_succ (a : U64) (k l : ℕ) :
    a + BitVec.ofNat 64 k + BitVec.ofNat 64 l = a + BitVec.ofNat 64 (k + l) := by
  rw [BitVec.add_assoc, ← BitVec.ofNat_add]

theorem offset_aligned {a : U64} {k : ℕ} (h : (a.toNat + k) % 8 = 0) :
    (a + BitVec.ofNat 64 k).toNat % 8 = 0 := by
  rw [BitVec.toNat_add, BitVec.toNat_ofNat]
  omega

theorem aligned_offset {a src : U64} {d j k : ℕ} (h : a + BitVec.ofNat 64 d = src + BitVec.ofNat 64 k)
    (hj : d ≤ j) : a + BitVec.ofNat 64 j = src + BitVec.ofNat 64 (k + j - d) := by
  have hsplit : BitVec.ofNat 64 (k + j - d) + BitVec.ofNat 64 d =
      BitVec.ofNat 64 k + BitVec.ofNat 64 j := by
    rw [← BitVec.ofNat_add, ← BitVec.ofNat_add, Nat.sub_add_cancel (by omega)]
  linear_combination h - hsplit

theorem aligned_of_offset {a src : U64} {d k : ℕ} (h : a + BitVec.ofNat 64 d = src + BitVec.ofNat 64 k)
    (hd : (src.toNat + k) % 8 = d) : a.toNat % 8 = 0 := by
  have htoNat := congrArg BitVec.toNat h
  rw [BitVec.toNat_add, BitVec.toNat_add, BitVec.toNat_ofNat, BitVec.toNat_ofNat] at htoNat
  omega

end Wasrisc.WordBytes
