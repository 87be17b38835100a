import Wasrisc.Memlib

namespace Wasrisc.MemsetShortcut

open AddressedMemory HostMemory Memlib

def Sets (ram : Ram) (b : U64) (c : CInt) (len : SizeT) (r : U64 × Ram) : Prop :=
  r.1 = b ∧ (∀ i < len.toNat, r.2 (b + BitVec.ofNat 64 i) = c.setWidth 8) ∧
    ∀ a, (∀ i < len.toNat, a ≠ b + BitVec.ofNat 64 i) → r.2 a = ram a

theorem Memops.sets (M : Memops) (ram : Ram) (b : U64) (c : CInt) (len : SizeT) :
    Sets ram b c len (M.memset b c len ram) := by
  rw [M.memset_fills]
  refine ⟨rfl, fun i hi => fill_of_mem (add_mem_span hi), fun a ha => fill_of_notMem fun h => ?_⟩
  obtain ⟨i, hi, rfl⟩ := offset_of_mem_span h
  exact ha i hi rfl

theorem memset_short (M : Memops) (ram : Ram) (b : U64) (c : CInt) (len : SizeT)
    (h : len ≤ wasmFunctionTableBufSize.signExtend 64 ∨ c ≠ 0) :
    memset M b c len ram = M.memset b c len ram := by
  rw [memset, if_neg]
  rintro ⟨hl, hc⟩
  rcases h with h | h
  · exact absurd hl (BitVec.not_lt.mpr h)
  · exact h hc

theorem memset_skips (M : Memops) (ram : Ram) (b : U64) (len : SizeT)
    (h : wasmFunctionTableBufSize.signExtend 64 < len) : memset M b 0 len ram = (b, ram) :=
  if_pos ⟨h, rfl⟩

theorem skipped_eq_iff (M : Memops) (ram : Ram) (b : U64) (len : SizeT) :
    (b, ram) = M.memset b 0 len ram ↔ ∀ i < len.toNat, ram (b + BitVec.ofNat 64 i) = 0 := by
  rw [M.memset_fills, Prod.mk.injEq, eq_comm (a := ram), fill_eq_self_iff]
  constructor
  · rintro ⟨-, h⟩ i hi
    exact h _ (add_mem_span hi)
  · intro h
    refine ⟨rfl, fun a ha => ?_⟩
    obtain ⟨i, hi, rfl⟩ := offset_of_mem_span ha
    exact h i hi

theorem memset_zeroed (M : Memops) {ram : Ram} {b : U64} {len : SizeT}
    (h : ∀ i < len.toNat, ram (b + BitVec.ofNat 64 i) = 0) : memset M b 0 len ram = (b, ram) := by
  by_cases hshort : len ≤ wasmFunctionTableBufSize.signExtend 64
  · rw [memset_short M ram b 0 len (.inl hshort), ← (skipped_eq_iff M ram b len).mpr h]
  · exact memset_skips M ram b len (BitVec.not_le.mp hshort)

theorem memset_agrees_iff (M : Memops) (ram : Ram) (b : U64) (c : CInt) (len : SizeT) :
    (memset M b c len ram = M.memset b c len ram ∧ Sets ram b c len (memset M b c len ram)) ↔
      len.toNat ≤ 0x100000 ∨ c ≠ 0 ∨ ∀ i < len.toNat, ram (b + BitVec.ofNat 64 i) = 0 := by
  have hthreshold : (wasmFunctionTableBufSize.signExtend 64).toNat = 0x100000 := by decide
  have hsets : memset M b c len ram = M.memset b c len ram →
      Sets ram b c len (memset M b c len ram) := fun h => h ▸ Memops.sets M ram b c len
  rw [and_iff_left_of_imp hsets]
  by_cases hshort : len ≤ wasmFunctionTableBufSize.signExtend 64
  · have hl : len.toNat ≤ 0x100000 := by rwa [BitVec.le_def, hthreshold] at hshort
    simp only [memset_short M ram b c len (.inl hshort), hl, true_or]
  · have hlong : wasmFunctionTableBufSize.signExtend 64 < len := BitVec.not_le.mp hshort
    have hl : ¬ len.toNat ≤ 0x100000 := by rwa [BitVec.le_def, hthreshold] at hshort
    by_cases hc : c = 0
    · subst hc
      rw [memset_skips M ram b len hlong, skipped_eq_iff]
      simp only [hl, ne_eq, not_true_eq_false, false_or]
    · simp only [memset_short M ram b c len (.inr hc), hc, ne_eq, not_false_eq_true, true_or,
        or_true]

def headerMemops : Memops where
  memset dst ch sz ram := (dst, fill ram dst sz.toNat (ch.setWidth 8))
  memset_fills _ _ _ _ := rfl

theorem memset_keeps_stale_bytes :
    ¬ ∀ (M : Memops) (ram : Ram) (b : U64) (c : CInt) (len : SizeT),
      memset M b c len ram = M.memset b c len ram ∧ Sets ram b c len (memset M b c len ram) := by
  intro h
  have hstale := (h headerMemops (fun _ => 0xff) 0xa1020018 0 0x100001).1
  have hbyte := congrFun (congrArg Prod.snd hstale) 0xa1020018
  revert hbyte
  decide

end Wasrisc.MemsetShortcut
