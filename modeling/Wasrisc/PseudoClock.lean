import Wasrisc.Runs
import Wasrisc.WasiSnapshotPreview1

namespace Wasrisc.PseudoClock

open AddressedMemory HostMemory NearestEven Runs WasiSnapshotPreview1

structure ClockCall where
  clockID : U32
  precision : U64
  resultPointer : U32

def ClockCall.run (memory : WasmMemory) (h : Host) (c : ClockCall) : Host :=
  (clockTimeGet memory c.clockID c.precision c.resultPointer h).2

def clockStep (memory : WasmMemory) (h : Host) (c : ClockCall) : Option Host :=
  some (c.run memory h)

def reading (memory : WasmMemory) (h : Host) (c : ClockCall) : U64 :=
  load64 (c.run memory h).ram (memory.data + c.resultPointer.setWidth 64)

def BelowLimit (h : Host) : Prop := timeOffset.toNat + h.ticks.toInt < 2 ^ 63

structure Consecutive (memory : WasmMemory) (h : Host) (c d : ClockCall) : Prop where
  later : reading memory h c < reading memory (c.run memory h) d
  near : |((reading memory (c.run memory h) d).toNat : ℤ) - (reading memory h c).toNat - 10 ^ 8| ≤
    512
  exact : (c.run memory h).ticks.toInt ≤ 2 ^ 53 →
    (reading memory (c.run memory h) d).toNat = (reading memory h c).toNat + 10 ^ 8

/-- The counter is positive, has at most 53 bits, and up to 2^53 no step has been rounded. -/
structure Ticking (t : ℕ) : Prop where
  pos : 0 < t
  representable : Representable 53 t
  exact : t ≤ 2 ^ 53 → t % 10 ^ 8 = 1

def ClockInv (h : Host) : Prop := ∃ t < 2 ^ 63, Ticking t ∧ h.ticks = BitVec.ofNat 64 t

def nextTicks (t : ℕ) : ℕ := roundNat 53 (t + 10 ^ 8)

theorem nextTicks_near {t : ℕ} (ht : t + 10 ^ 8 < 2 ^ 63) :
    t + 10 ^ 8 ≤ nextTicks t + 512 ∧ nextTicks t ≤ t + 10 ^ 8 + 512 := by
  have herror := roundNat_error 53 (t + 10 ^ 8)
  have hulp : ulp 53 (t + 10 ^ 8) ≤ 2 ^ 10 := ulp_le (p := 53) ht (by decide) (by decide)
  unfold nextTicks
  omega

theorem nextTicks_exact {t : ℕ} (h : Ticking t) (ht : t + 10 ^ 8 < 2 ^ 63)
    (hnext : nextTicks t ≤ 2 ^ 53) : nextTicks t = t + 10 ^ 8 := by
  apply roundNat_of_representable
  apply representable_of_le (by decide)
  have hnear := nextTicks_near ht
  have herror := roundNat_error 53 (t + 10 ^ 8)
  have hulp : ulp 53 (t + 10 ^ 8) ≤ 2 ^ (54 - 53) :=
    ulp_le (k := 54) (by omega) (by decide) (by decide)
  have hmod := h.exact (by omega)
  unfold nextTicks at hnext
  -- rounding could reach 2^53 from 2^53 + 1 alone, which is not one more than a multiple of 10^8
  omega

theorem ticking_next {t : ℕ} (h : Ticking t) (ht : t + 10 ^ 8 < 2 ^ 63) :
    Ticking (nextTicks t) := by
  have hnear := nextTicks_near ht
  refine ⟨by omega, representable_roundNat (by decide) _, fun hle => ?_⟩
  have hexact := nextTicks_exact h ht hle
  have hmod := h.exact (by omega)
  omega

theorem toInt_ticks {t : ℕ} (ht : t < 2 ^ 63) : (BitVec.ofNat 64 t).toInt = t := by
  rw [BitVec.toInt_eq_toNat_of_lt, BitVec.toNat_ofNat, Nat.mod_eq_of_lt (by omega)]
  rw [BitVec.toNat_ofNat]
  omega

theorem advance_eq {t : ℕ} (h : Ticking t) (ht : t < 2 ^ 63) :
    advance (BitVec.ofNat 64 t) = BitVec.ofNat 64 (nextTicks t) := by
  have hsum : (t : ℤ) + pseudoclockIncrements = ((t + 10 ^ 8 : ℕ) : ℤ) := by
    unfold pseudoclockIncrements
    omega
  unfold advance
  rw [toInt_ticks ht, roundInt_natCast h.pos, roundNat_of_representable h.representable, hsum,
    roundInt_natCast (by omega), BitVec.ofInt_natCast]
  rfl

theorem reading_eq (memory : WasmMemory) (h : Host) (c : ClockCall) :
    reading memory h c = timeOffset + h.ticks := load64_store64_same _ _ _

theorem ticks_run (memory : WasmMemory) (h : Host) (c : ClockCall) :
    (c.run memory h).ticks = advance h.ticks := rfl

theorem limit_iff {t : ℕ} {h : Host} (ht : t < 2 ^ 63) (hticks : h.ticks = BitVec.ofNat 64 t) :
    BelowLimit h ↔ 1758880055000000000 + t < 2 ^ 63 := by
  have hoffset : timeOffset.toNat = 1758880055000000000 := rfl
  unfold BelowLimit
  rw [hticks, toInt_ticks ht, hoffset]
  omega

theorem reading_toNat {t : ℕ} (memory : WasmMemory) {h : Host} (c : ClockCall) (ht : t < 2 ^ 63)
    (hticks : h.ticks = BitVec.ofNat 64 t) (hlimit : BelowLimit h) :
    (reading memory h c).toNat = 1758880055000000000 + t := by
  have hoffset : timeOffset.toNat = 1758880055000000000 := rfl
  have hbound := (limit_iff ht hticks).mp hlimit
  rw [reading_eq, hticks, BitVec.toNat_add, hoffset, BitVec.toNat_ofNat]
  omega

theorem clockInv_initial {h : Host} (hstart : h.ticks = 1) : ClockInv h := by
  refine ⟨1, by decide, ⟨by decide, representable_of_le (by decide) (by decide), ?_⟩, hstart⟩
  intro _
  decide

theorem clockInv_run {memory : WasmMemory} {h : Host} {c : ClockCall} (hinv : ClockInv h)
    (hlimit : BelowLimit h) : ClockInv (c.run memory h) := by
  obtain ⟨t, ht, hticking, hticks⟩ := hinv
  have hbound := (limit_iff ht hticks).mp hlimit
  have hnear := nextTicks_near (t := t) (by omega)
  refine ⟨nextTicks t, by omega, ticking_next hticking (by omega), ?_⟩
  rw [ticks_run, hticks, advance_eq hticking ht]

theorem consecutive_of_inv {memory : WasmMemory} {h : Host} {c : ClockCall} (d : ClockCall)
    (hinv : ClockInv h) (hlimit : BelowLimit h) (hlimit' : BelowLimit (c.run memory h)) :
    Consecutive memory h c d := by
  obtain ⟨t, ht, hticking, hticks⟩ := hinv
  have hbound := (limit_iff ht hticks).mp hlimit
  have hnear := nextTicks_near (t := t) (by omega)
  have hnext : nextTicks t < 2 ^ 63 := by omega
  have hticks' : (c.run memory h).ticks = BitVec.ofNat 64 (nextTicks t) := by
    rw [ticks_run, hticks, advance_eq hticking ht]
  have hfirst := reading_toNat memory c ht hticks hlimit
  have hsecond := reading_toNat memory d hnext hticks' hlimit'
  constructor
  · rw [BitVec.lt_def, hfirst, hsecond]
    omega
  · rw [hfirst, hsecond, abs_le]
    omega
  · intro hle
    rw [hticks', toInt_ticks hnext] at hle
    have hexact := nextTicks_exact hticking (by omega) (by omega)
    rw [hfirst, hsecond]
    omega

theorem ram_run (memory : WasmMemory) (h : Host) (c : ClockCall) {a : U64}
    (ha : a ∉ span (memory.data + c.resultPointer.setWidth 64) 8) :
    (c.run memory h).ram a = h.ram a := store64_of_notMem ha

theorem clock_advances (memory : WasmMemory) (h : Host) (hstart : h.ticks = 1)
    (calls : List ClockCall)
    (hlimit : StepsMeet (clockStep memory) (fun h _ => BelowLimit h) h calls) :
    (∀ pre c d u, pre ++ [c, d] <+: calls → pre.foldlM (clockStep memory) h = some u →
      Consecutive memory u c d) ∧
    ∀ pre c u, pre ++ [c] <+: calls → pre.foldlM (clockStep memory) h = some u →
      ∀ a ∉ span (memory.data + c.resultPointer.setWidth 64) 8,
        (c.run memory u).ram a = u.ram a := by
  constructor
  · intro pre c d u hprefix hpre
    have hsplit : pre ++ [c, d] = (pre ++ [c]) ++ [d] := by simp
    have hfirst : pre ++ [c] <+: calls :=
      (List.prefix_append (pre ++ [c]) [d]).trans (hsplit ▸ hprefix)
    have hinv : ClockInv u := by
      apply hlimit.invariant (P := ClockInv) _ ((List.prefix_append pre [c]).trans hfirst)
        (clockInv_initial hstart) hpre
      intro s a t hs hbelow hstep
      obtain rfl := Option.some.inj hstep
      exact clockInv_run hs hbelow
    apply consecutive_of_inv d hinv (hlimit pre c u hfirst hpre)
    apply hlimit (pre ++ [c]) d _ (hsplit ▸ hprefix)
    exact foldlM_append_some.mpr ⟨u, hpre, rfl⟩
  · intro pre c u _ _ a ha
    exact ram_run memory u c ha

def freshClock : Host := ⟨fun _ => 0, [], 1⟩

theorem clock_advances_twice : Consecutive onePage freshClock ⟨0, 0, 8⟩ ⟨1, 1000, 12⟩ := by
  apply (clock_advances onePage freshClock rfl [⟨0, 0, 8⟩, ⟨1, 1000, 12⟩] _).1 [] _ _ _
    (List.prefix_refl _) rfl
  refine stepsMeet_cons.mpr ⟨by unfold BelowLimit; decide, fun u hu => ?_⟩
  obtain rfl := Option.some.inj hu
  exact stepsMeet_cons.mpr ⟨by unfold BelowLimit; decide, fun _ _ => stepsMeet_nil⟩

end Wasrisc.PseudoClock
