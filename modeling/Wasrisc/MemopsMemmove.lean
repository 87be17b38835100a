import Wasrisc.MemopsMemcpy

namespace Wasrisc.MemopsMemmove

open AddressedMemory HostMemory LittleEndian MemoryWindows WordBytes MemoryCopies Rv64 Assembler
open MemopsText Instr Memmove MemopsMemcpy

variable {c : Code} {b : U64} {ext : Sym → U64} {m : Ram} {dst src : U64} {n : ℕ}

structure CopiedDown (m : Ram) (dst src : U64) (n k : ℕ) (s : State) : Prop where
  atDst : s.get .a0 = dst + BitVec.ofNat 64 k
  atSrc : s.get .a1 = src + BitVec.ofNat 64 k
  copied : s.mem = moved m dst src k n

theorem CopiedDown.goto {k : ℕ} {s : State} (h : CopiedDown m dst src n k s) (a : U64) :
    CopiedDown m dst src n k (s.goto a) := ⟨h.atDst, h.atSrc, h.copied⟩

theorem offset_pred (a : U64) (k l : ℕ) :
    a + BitVec.ofNat 64 (k + l) - BitVec.ofNat 64 l = a + BitVec.ofNat 64 k := by
  rw [← offset_succ, BitVec.add_sub_cancel]

theorem run_copyByte (s : State) : ∃ t, run s copyByte = some t ∧
    t.get .a0 = s.get .a0 - 1 ∧ t.get .a1 = s.get .a1 - 1 ∧
    t.mem = write s.mem (s.get .a0 - 1) [s.mem (s.get .a1 - 1)] := by
  have hminus (x : U64) : x + 18446744073709551615#64 = x - 1#64 := by
    rw [sub_eq_add_neg]
    rfl
  refine ⟨_, rfl, ?_, ?_, ?_⟩
  · simp [Op.eval, hminus, Imm.value]
  · simp [Op.eval, hminus, Imm.value]
  · simp [Op.eval, hminus, Imm.value, update_eq_write, BitVec.setWidth_setWidth_of_le]

theorem copyBytes {s : State} {e : Reg} {k l p : ℕ} (hc : Located c b (code b ext memmove))
    (hbody : ((code b ext memmove).drop p).take 4 = copyByte) (he : e ∉ [Reg.a1, .a0, .a4])
    (hbranch : (code b ext memmove)[p + 4]? = some (bgtu .a0 e (slot b p)))
    (hpc : s.pc = slot b p) (hsafe : BackwardSafe dst src n) (hw : dst.toNat + n < 2 ^ 64)
    (hl : 0 < l) (hn : k + l ≤ n) (hend : s.get e = dst + BitVec.ofNat 64 k)
    (hs : CopiedDown m dst src n (k + l) s) :
    Leads c [.a1, .a0, .a4] s fun t => t.pc = slot b (p + 5) ∧ CopiedDown m dst src n k t := by
  have hstart : CopiedDown m dst src n (k + (l - 0)) s := hs
  have hloop := Leads.doWhile (R := [.a1, .a0, .a4]) (I := fun j => CopiedDown m dst src n (k + (l - j))) hc p
    copyByte hbody rfl hbranch hpc hl hstart fun j t hj hframe ht => ?_
  · rw [Nat.sub_self] at hloop
    exact hloop
  · obtain ⟨u, hrun, hu0, hu1, hmu⟩ := run_copyByte t
    obtain ⟨q, hq⟩ : ∃ q, l - j = q + 1 := ⟨l - j - 1, by omega⟩
    have hnext : l - (j + 1) = q := by omega
    rw [hq, ← Nat.add_assoc] at ht
    have hdst : t.get .a0 - 1 = dst + BitVec.ofNat 64 (k + q) := by
      rw [ht.atDst, ← offset_pred dst (k + q) 1]
      rfl
    have hsrc : t.get .a1 - 1 = src + BitVec.ofNat 64 (k + q) := by
      rw [ht.atSrc, ← offset_pred src (k + q) 1]
      rfl
    refine ⟨u, hrun, ?_, fun a => ?_⟩
    · rw [hu0, hdst, run_frame (R := [.a1, .a0, .a4]) rfl hrun he, hframe e he, hend, Cond.eval,
        decide_eq_decide, offset_lt_offset (by omega) (by omega)]
      omega
    · rw [hnext]
      refine ⟨hu0.trans hdst, hu1.trans hsrc, ?_⟩
      rw [mem_goto, hmu, hdst, hsrc, ht.copied, moved_down_apply hsafe (by omega),
        write_moved_down (by omega) (by omega)]

theorem run_copyWord {s : State} {k : ℕ} (hsafe : BackwardSafe dst src n) (hn : n ≤ 2 ^ 64)
    (hk : k + 8 ≤ n) (hdst : (dst.toNat + k) % 8 = 0) (hsrc : (src.toNat + k) % 8 = 0)
    (hs : CopiedDown m dst src n (k + 8) s) :
    ∃ t, run s copyWord = some t ∧ CopiedDown m dst src n k t := by
  have hminus (x : U64) (a : U64) (h : x = a + BitVec.ofNat 64 (k + 8)) :
      x + (-8 : BitVec 12).signExtend 64 = a + BitVec.ofNat 64 k := by
    rw [h, ← offset_pred a k 8, sub_eq_add_neg]
    rfl
  have h0 (a : U64) : a + (0 : BitVec 12).signExtend 64 = a := by simp
  have ha0 := hminus _ dst hs.atDst
  have ha1 := hminus _ src hs.atSrc
  refine ⟨_, run_cons.mpr ⟨_, rfl, run_cons.mpr ⟨_, rfl, run_cons.mpr ⟨_,
    effect_ld ((h0 _).trans ha1) (offset_aligned hsrc), run_cons.mpr ⟨_,
    effect_sd ((h0 _).trans ha0) (offset_aligned hdst), rfl⟩⟩⟩⟩, ha0, ha1, ?_⟩
  show store64 s.mem _ (load64 s.mem _) = _
  rw [hs.copied, load64_moved_down hsafe le_rfl hk, store64_moved_down hk hn]

theorem store64_four (ram ram' : Ram) (a p : U64) :
    store64 (store64 (store64 (store64 ram a (load64 ram' p)) (a + BitVec.ofNat 64 (8 * 1))
      (load64 ram' (p + BitVec.ofNat 64 (8 * 1)))) (a + BitVec.ofNat 64 (8 * 2))
      (load64 ram' (p + BitVec.ofNat 64 (8 * 2)))) (a + BitVec.ofNat 64 (8 * 3))
      (load64 ram' (p + BitVec.ofNat 64 (8 * 3))) = write ram a (read ram' p 32) := by
  have hlen (q : U64) (l : ℕ) := length_read ram' q l
  rw [store64_load64, store64_load64, store64_load64, store64_load64,
    write_append (n := 8 * 1) (hlen _ _) (by simp [hlen]), ← read_add,
    write_append (n := 8 * 2) (hlen _ _) (by simp [hlen]), ← read_add,
    write_append (n := 8 * 3) (hlen _ _) (by simp [hlen]), ← read_add]

theorem run_copyFour {s : State} {k g : ℕ} (hsafe : BackwardSafe dst src n) (hn : n ≤ 2 ^ 64)
    (hg : g < 4) (hk : k + 32 * (g + 1) ≤ n) (halign : (dst.toNat + k) % 8 = 0)
    (halign' : (src.toNat + k) % 8 = 0) (hdst : s.get .a0 = dst + BitVec.ofNat 64 k)
    (hsrc : s.get .a1 = src + BitVec.ofNat 64 k) (hm : s.mem = moved m dst src (k + 32 * (g + 1)) n) :
    ∃ t, run s (copyFour g) = some t ∧ t.mem = moved m dst src (k + 32 * g) n := by
  have himm (a p : U64) (hp : p = a + BitVec.ofNat 64 k) (i : ℕ) (hi : i < 4) :
      p + (BitVec.ofNat 12 (8 * (4 * g + i))).signExtend 64 =
        a + BitVec.ofNat 64 (k + 32 * g) + BitVec.ofNat 64 (8 * i) := by
    rw [signExtend_imm (by omega), hp, offset_succ, offset_succ,
      show k + 8 * (4 * g + i) = k + 32 * g + 8 * i by omega]
  have hload (i : ℕ) (hi : i < 4) := himm src _ hsrc i hi
  have hstore (i : ℕ) (hi : i < 4) := himm dst _ hdst i hi
  have haligned (a : U64) (ha : (a.toNat + k) % 8 = 0) (i : ℕ) :
      (a + BitVec.ofNat 64 (k + 32 * g) + BitVec.ofNat 64 (8 * i)).toNat % 8 = 0 := by
    rw [offset_succ]
    exact offset_aligned (by omega)
  have hword (i : ℕ) (hi : i < 4) :
      load64 s.mem (src + BitVec.ofNat 64 (k + 32 * g) + BitVec.ofNat 64 (8 * i)) =
        load64 m (src + BitVec.ofNat 64 (k + 32 * g) + BitVec.ofNat 64 (8 * i)) := by
    rw [hm, offset_succ, load64_moved_down hsafe (by omega) (by omega)]
  refine ⟨_, run_cons.mpr ⟨_, effect_ld (hload 0 (by omega)) (haligned src halign' 0),
    run_cons.mpr ⟨_, effect_ld (hload 1 (by omega)) (haligned src halign' 1),
    run_cons.mpr ⟨_, effect_ld (hload 2 (by omega)) (haligned src halign' 2),
    run_cons.mpr ⟨_, effect_ld (hload 3 (by omega)) (haligned src halign' 3),
    run_cons.mpr ⟨_, effect_sd (hstore 0 (by omega)) (haligned dst halign 0),
    run_cons.mpr ⟨_, effect_sd (hstore 1 (by omega)) (haligned dst halign 1),
    run_cons.mpr ⟨_, effect_sd (hstore 2 (by omega)) (haligned dst halign 2),
    run_cons.mpr ⟨_, effect_sd (hstore 3 (by omega)) (haligned dst halign 3),
    rfl⟩⟩⟩⟩⟩⟩⟩⟩, ?_⟩
  show store64 (store64 (store64 (store64 s.mem _ (load64 s.mem _)) _ (load64 s.mem _)) _
    (load64 s.mem _)) _ (load64 s.mem _) = _
  rw [hword 0 (by omega), hword 1 (by omega), hword 2 (by omega), hword 3 (by omega), hm]
  rw [Nat.mul_zero, offset_zero, offset_zero]
  exact (store64_four _ _ _ _).trans (write_moved_down_read (l := 32) (by omega) hk hn)

theorem run_copyFours {s : State} {k g : ℕ} (hsafe : BackwardSafe dst src n) (hn : n ≤ 2 ^ 64)
    (hg : g ≤ 4) (hk : k + 32 * g ≤ n) (halign : (dst.toNat + k) % 8 = 0)
    (halign' : (src.toNat + k) % 8 = 0) (hdst : s.get .a0 = dst + BitVec.ofNat 64 k)
    (hsrc : s.get .a1 = src + BitVec.ofNat 64 k) (hm : s.mem = moved m dst src (k + 32 * g) n) :
    ∃ t, run s ((List.range g).reverse.flatMap copyFour) = some t ∧
      (∀ r ∉ [Reg.a4, .a5, .s0, .s1], t.get r = s.get r) ∧ t.mem = moved m dst src k n := by
  induction g generalizing s with
  | zero => exact ⟨s, rfl, fun _ _ => rfl, hm⟩
  | succ g ih =>
    obtain ⟨t, hrun, hmt⟩ := run_copyFour hsafe hn (by omega) hk halign halign' hdst hsrc hm
    have hframe {r : Reg} (hr : r ∉ [Reg.a4, .a5, .s0, .s1]) : t.get r = s.get r :=
      run_frame rfl hrun hr
    obtain ⟨u, hrun', hframe', hmu⟩ := ih (by omega) (by omega) ((hframe (by decide)).trans hdst)
      ((hframe (by decide)).trans hsrc) hmt
    refine ⟨u, ?_, fun r hr => (hframe' r hr).trans (hframe hr), hmu⟩
    rw [List.range_succ, List.reverse_concat, List.flatMap_cons]
    exact run_append.mpr ⟨t, hrun, hrun'⟩

theorem run_copySixteen {s : State} {k : ℕ} (hsafe : BackwardSafe dst src n) (hn : n ≤ 2 ^ 64)
    (hk : k + 128 ≤ n) (halign : (dst.toNat + k) % 8 = 0) (halign' : (src.toNat + k) % 8 = 0)
    (ha3 : s.get .a3 = 128) (hs : CopiedDown m dst src n (k + 128) s) :
    ∃ t, run s copySixteen = some t ∧ CopiedDown m dst src n k t := by
  obtain ⟨u, hrun, hu0, hu1, hmu⟩ : ∃ u, run s [sub .a1 .a1 .a3, sub .a0 .a0 .a3] = some u ∧
      u.get .a0 = dst + BitVec.ofNat 64 k ∧ u.get .a1 = src + BitVec.ofNat 64 k ∧ u.mem = s.mem := by
    refine ⟨_, rfl, ?_, ?_, rfl⟩
    · show s.get .a0 - s.get .a3 = _
      rw [hs.atDst, ha3, ← offset_pred dst k 128]
      rfl
    · show s.get .a1 - s.get .a3 = _
      rw [hs.atSrc, ha3, ← offset_pred src k 128]
      rfl
  obtain ⟨t, hrun', hframe, hmt⟩ := run_copyFours (g := 4) hsafe hn le_rfl hk halign halign' hu0 hu1
    (hmu.trans hs.copied)
  exact ⟨t, run_append.mpr ⟨u, hrun, hrun'⟩, (hframe .a0 (by decide)).trans hu0,
    (hframe .a1 (by decide)).trans hu1, hmt⟩

/-- The state at the top of the loop for a source that ends `d` bytes past an aligned address: of the
sixteen bytes before the `k`-th the last `d` are in `a5`. -/
structure Shifting (m : Ram) (dst src : U64) (n d k : ℕ) (s : State) : Prop where
  atDst : s.get .a0 = dst + BitVec.ofNat 64 k
  atSrc : s.get .a1 + BitVec.ofNat 64 16 + BitVec.ofNat 64 d = src + BitVec.ofNat 64 k
  copied : s.mem = moved m dst src k n
  upper : 16 ≤ k → s.get .a5 <<< (8 * (8 - d)) =
    BitVec.ofNat 64 (ofBytes (read m (src + BitVec.ofNat 64 (k - d)) d)) <<< (8 * (8 - d))

theorem run_copyShifted {s : State} {d k : ℕ} (hsafe : BackwardSafe dst src n) (hn : n ≤ 2 ^ 64)
    (hd : d < 8) (hd0 : 0 < d) (hk : k + 16 ≤ n) (halign : (dst.toNat + k) % 8 = 0)
    (hsrc : (src.toNat + k) % 8 = d) (ha6 : s.get .a6 = BitVec.ofNat 64 (8 * d))
    (ha7 : s.get .a7 = 0 - BitVec.ofNat 64 (8 * d)) (hs : Shifting m dst src n d (k + 16) s) :
    ∃ t, run s copyShifted = some t ∧ Shifting m dst src n d k t := by
  have hbase : s.get .a1 + BitVec.ofNat 64 d = src + BitVec.ofNat 64 k := by
    have h := hs.atSrc
    rw [← offset_succ src k 16] at h
    linear_combination h
  have halign' := aligned_of_offset hbase hsrc
  have h8 : s.get .a1 + BitVec.ofNat 64 8 = src + BitVec.ofNat 64 (k + 8 - d) :=
    aligned_offset hbase (by omega)
  have hmiddle : load64 s.mem (src + BitVec.ofNat 64 (k + 8 - d)) =
      load64 m (src + BitVec.ofNat 64 (k + 8 - d)) := by
    rw [hs.copied, load64_moved_down hsafe (by omega) hk]
  have hword : Op.or.eval (Op.sll.eval (s.get .a5) (s.get .a7))
      (Op.srl.eval (load64 s.mem (src + BitVec.ofNat 64 (k + 8 - d))) (s.get .a6)) =
      load64 m (src + BitVec.ofNat 64 (k + 8)) := by
    have hlower : src + BitVec.ofNat 64 (k + 8 - d) + BitVec.ofNat 64 d =
        src + BitVec.ofNat 64 (k + 8) := by
      rw [offset_succ, Nat.sub_add_cancel (by omega)]
    have hupper : src + BitVec.ofNat 64 (k + 16 - d) =
        src + BitVec.ofNat 64 (k + 8) + BitVec.ofNat 64 (8 - d) := by
      rw [offset_succ]
      congr 2
      omega
    rw [ha6, ha7, srl_eval _ hd, sll_eval _ hd hd0, Op.eval, BitVec.or_comm]
    apply load64_combine (k := d) (by omega)
    · rw [hmiddle, load64_ushiftRight _ _ (by omega), hlower]
    · rw [hs.upper (by omega), hupper]
  have hword' : Op.or.eval
      (Op.sll.eval (load64 s.mem (src + BitVec.ofNat 64 (k + 8 - d))) (s.get .a7))
      (Op.srl.eval (load64 s.mem (s.get .a1)) (s.get .a6)) = load64 m (src + BitVec.ofNat 64 k) := by
    have hupper : src + BitVec.ofNat 64 (k + 8 - d) =
        src + BitVec.ofNat 64 k + BitVec.ofNat 64 (8 - d) := by
      rw [offset_succ, Nat.add_sub_assoc (by omega)]
    rw [ha6, ha7, srl_eval _ hd, sll_eval _ hd hd0, Op.eval, BitVec.or_comm]
    apply load64_combine (k := d) (by omega)
    · rw [load64_ushiftRight _ _ (by omega), hbase, hs.copied, read_moved_down hsafe (by omega) hk]
    · rw [hmiddle, load64_shiftLeft _ _ (by omega), hupper]
  have hmem : store64 (store64 s.mem (dst + BitVec.ofNat 64 (k + 8)) (Op.or.eval
      (Op.sll.eval (s.get .a5) (s.get .a7))
      (Op.srl.eval (load64 s.mem (src + BitVec.ofNat 64 (k + 8 - d))) (s.get .a6))))
      (dst + BitVec.ofNat 64 k) (Op.or.eval
      (Op.sll.eval (load64 s.mem (src + BitVec.ofNat 64 (k + 8 - d))) (s.get .a7))
      (Op.srl.eval (load64 s.mem (s.get .a1)) (s.get .a6))) = moved m dst src k n := by
    rw [hword, hword', hs.copied, store64_moved_down (k := k + 8) hk hn,
      store64_moved_down (by omega) hn]
  have hminus (x a : U64) (h : x = a + BitVec.ofNat 64 (k + 16)) :
      x + (-16 : BitVec 12).signExtend 64 = a + BitVec.ofNat 64 k := by
    rw [h, ← offset_pred a k 16, sub_eq_add_neg]
    rfl
  have ha0 := hminus _ dst hs.atDst
  have h0 (a : U64) : a + (0 : BitVec 12).signExtend 64 = a := by simp
  refine ⟨_, run_cons.mpr ⟨_, effect_ld (a := src + BitVec.ofNat 64 (k + 8 - d)) h8 ?_,
    run_cons.mpr ⟨_, rfl, run_cons.mpr ⟨_, effect_ld (a := s.get .a1) (h0 _) halign',
    run_cons.mpr ⟨_, rfl, run_cons.mpr ⟨_, rfl, run_cons.mpr ⟨_, rfl, run_cons.mpr ⟨_, rfl,
    run_cons.mpr ⟨_, effect_sd (a := dst + BitVec.ofNat 64 (k + 8)) ?_ (offset_aligned (by omega)),
    run_cons.mpr ⟨_, rfl, run_cons.mpr ⟨_, rfl, run_cons.mpr ⟨_, rfl,
    run_cons.mpr ⟨_, effect_sd (a := dst + BitVec.ofNat 64 k) ((h0 _).trans ha0)
      (offset_aligned halign), rfl⟩⟩⟩⟩⟩⟩⟩⟩⟩⟩⟩⟩, ha0, ?_, hmem, ?_⟩
  · rw [← h8]
    exact offset_aligned (by omega)
  · show s.get .a0 + (-16 : BitVec 12).signExtend 64 + (8 : BitVec 12).signExtend 64 = _
    rw [ha0, ← offset_succ dst k 8]
    rfl
  · show s.get .a1 + (-16 : BitVec 12).signExtend 64 + BitVec.ofNat 64 16 + BitVec.ofNat 64 d = _
    have h16 : (-16 : BitVec 12).signExtend 64 + BitVec.ofNat 64 16 = 0 := rfl
    linear_combination hbase + h16
  · intro hnext
    show load64 s.mem (s.get .a1) <<< (8 * (8 - d)) = _
    have hat : s.get .a1 = src + BitVec.ofNat 64 (k - d) := by
      have hsplit : BitVec.ofNat 64 (k - d) + BitVec.ofNat 64 d = (BitVec.ofNat 64 k : U64) := by
        rw [← BitVec.ofNat_add, Nat.sub_add_cancel (by omega)]
      linear_combination hbase - hsplit
    rw [load64_shiftLeft _ _ (by omega), hat, hs.copied, read_moved_down hsafe (by omega) hk]

structure Saved (ra v0 v1 : U64) (s : State) : Prop where
  ra : s.get .ra = ra
  t0 : s.get .t0 = v0
  t1 : s.get .t1 = v1

theorem Saved.keep {ra v0 v1 : U64} {s t : State} (h : Saved ra v0 v1 s)
    (hkeep : ∀ r ∈ [Reg.ra, .t0, .t1], t.get r = s.get r) : Saved ra v0 v1 t := by
  refine ⟨(hkeep .ra ?_).trans h.ra, (hkeep .t0 ?_).trans h.t0, (hkeep .t1 ?_).trans h.t1⟩ <;> decide

theorem Saved.goto {ra v0 v1 : U64} {s : State} (h : Saved ra v0 v1 s) (a : U64) :
    Saved ra v0 v1 (s.goto a) := h.keep fun _ _ => rfl

variable {ra v0 v1 : U64}

theorem finishBytes {s : State} {k : ℕ} (hc : Located c b (code b ext memmove))
    (hpc : s.pc = slot b 73) (hsafe : BackwardSafe dst src n) (hw : dst.toNat + n < 2 ^ 64)
    (hk : k ≤ n) (hleft : s.get .a2 = BitVec.ofNat 64 k) (hs : CopiedDown m dst src n k s)
    (hra : s.get .ra = ra) (hra4 : ra.toNat % 4 = 0) :
    Leads c [.a0, .a1, .a3, .a4] s fun t =>
      t.pc = ra ∧ t.get .a0 = dst ∧ t.mem = moved m dst src 0 n := by
  have hreturn {t : State} (hpct : t.pc = slot b 80) (hrat : t.get .ra = ra)
      (ht : CopiedDown m dst src n 0 t) : Leads c [.a0, .a1, .a3, .a4] t fun u =>
        u.pc = ra ∧ u.get .a0 = dst ∧ u.mem = moved m dst src 0 n := by
    refine Leads.jr (r := .ra) hc 80 hpct rfl (hrat ▸ hra4) (Leads.done ⟨hrat, ?_, ht.copied⟩)
    exact ht.atDst.trans (offset_zero dst)
  apply Leads.branch (a := slot b 80) hc 73 hpc rfl
  · intro htaken
    rw [get_zero, hleft, Cond.eval, decide_eq_true_eq, ofNat_eq_zero_iff (by omega)] at htaken
    subst htaken
    exact hreturn rfl hra (hs.goto _)
  · intro hnot
    rw [get_zero, hleft, Cond.eval, decide_eq_false_iff_not, ofNat_eq_zero_iff (by omega)] at hnot
    obtain ⟨u, hrun, hend, hu⟩ : ∃ u, run (s.goto (slot b 74)) [sub .a3 .a0 .a2] = some u ∧
        u.get .a3 = dst + BitVec.ofNat 64 0 ∧ CopiedDown m dst src n (0 + k) u := by
      rw [Nat.zero_add]
      refine ⟨_, rfl, ?_, hs.atDst, hs.atSrc, hs.copied⟩
      show s.get .a0 - s.get .a2 = _
      rw [hleft, hs.atDst, ← offset_pred dst 0 k, Nat.zero_add]
    have hframe {r : Reg} (hr : r ∉ [Reg.a3]) : u.get r = s.get r := run_frame rfl hrun hr
    apply Leads.block hc 74 rfl [sub .a3 .a0 .a2] rfl rfl hrun
    refine Leads.trans (copyBytes (l := k) (p := 75) (e := .a3) hc rfl (by decide) rfl rfl hsafe hw
      (by omega) (by omega) hend (hu.goto _)) (by decide) ?_
    rintro t hframet ⟨hpct, ht⟩
    exact hreturn hpct ((hframet .ra (by decide)).trans ((hframe (by decide)).trans hra)) ht

theorem finish {s : State} {k : ℕ} (hc : Located c b (code b ext memmove)) (hpc : s.pc = slot b 71)
    (hsafe : BackwardSafe dst src n) (hw : dst.toNat + n < 2 ^ 64) (hk : k ≤ n)
    (hleft : s.get .a2 = BitVec.ofNat 64 k) (hs : CopiedDown m dst src n k s)
    (hsaved : Saved ra v0 v1 s) (hra4 : ra.toNat % 4 = 0) :
    Leads c [.a0, .a1, .a3, .a4, .s0, .s1] s (Done ra dst v0 v1 (moved m dst src 0 n)) := by
  obtain ⟨u, hrun, hu0, hu1, hmu⟩ : ∃ u, run s restore = some u ∧ u.get .s0 = s.get .t0 ∧
      u.get .s1 = s.get .t1 ∧ u.mem = s.mem := by
    refine ⟨_, rfl, ?_, ?_, rfl⟩ <;> simp [Op.eval, Imm.value]
  have hframe {r : Reg} (hr : r ∉ [Reg.s0, .s1]) : u.get r = s.get r := run_frame rfl hrun hr
  apply Leads.block hc 71 hpc restore rfl rfl hrun
  refine Leads.trans (finishBytes hc rfl hsafe hw hk ((hframe (by decide)).trans hleft)
    ⟨(hframe (by decide)).trans hs.atDst, (hframe (by decide)).trans hs.atSrc, hmu.trans hs.copied⟩
    ((hframe (by decide)).trans hsaved.ra) hra4) (by decide) ?_
  rintro t hframet ⟨hpct, ha0, hmt⟩
  exact Leads.done ⟨hpct, ha0, (hframet .s0 (by decide)).trans (hu0.trans hsaved.t0),
    (hframet .s1 (by decide)).trans (hu1.trans hsaved.t1), hmt⟩

theorem last_eq {x y : U64} {j k : ℕ} (hj : j ≤ 64) (hx : x = dst + BitVec.ofNat 64 k)
    (hy : y = BitVec.ofNat 64 k) : y &&& BitVec.ofNat 64 (2 ^ j - 1) = BitVec.ofNat 64 (k % 2 ^ j) ∧
      x - y + (y &&& BitVec.ofNat 64 (2 ^ j - 1)) = dst + BitVec.ofNat 64 (k % 2 ^ j) := by
  subst hx hy
  rw [ofNat_and_mask k hj]
  exact ⟨rfl, by ring⟩

theorem copyWords {s : State} {k : ℕ} (hc : Located c b (code b ext memmove)) (hpc : s.pc = slot b 62)
    (hsafe : BackwardSafe dst src n) (hw : dst.toNat + n < 2 ^ 64) (hk : k ≤ n)
    (halign : (dst.toNat + k) % 8 = 0) (halign' : (src.toNat + k) % 8 = 0)
    (hleft : s.get .a2 = BitVec.ofNat 64 k) (hs : CopiedDown m dst src n k s)
    (hsaved : Saved ra v0 v1 s) (hra4 : ra.toNat % 4 = 0) :
    Leads c [.a0, .a1, .a2, .a3, .a4, .s0, .s1] s (Done ra dst v0 v1 (moved m dst src 0 n)) := by
  obtain ⟨h7, hlast⟩ := last_eq (j := 3) (by omega) hs.atDst hleft
  obtain ⟨u, hrun, hu2, hu3, hmu⟩ : ∃ u, run s lastOfWords = some u ∧
      u.get .a2 = BitVec.ofNat 64 (k % 8) ∧ u.get .a3 = dst + BitVec.ofNat 64 (k % 8) ∧
      u.mem = s.mem := ⟨_, rfl, h7, hlast, rfl⟩
  have hframe {r : Reg} (hr : r ∉ [Reg.a2, .a3]) : u.get r = s.get r := run_frame rfl hrun hr
  have hu : CopiedDown m dst src n (k % 8 + 8 * (k / 8)) u := by
    rw [Nat.mod_add_div]
    exact ⟨(hframe (by decide)).trans hs.atDst, (hframe (by decide)).trans hs.atSrc,
      hmu.trans hs.copied⟩
  have hsavedu : Saved ra v0 v1 u := hsaved.keep fun r hr => hframe (by revert r; decide)
  apply Leads.block hc 62 hpc lastOfWords rfl rfl hrun
  apply Leads.branch (a := slot b 71) hc 65 rfl rfl
  · intro htaken
    rw [get_goto, get_goto, hu3, hu.atDst, Cond.eval, decide_eq_true_eq,
      offset_eq_offset (by omega) (by omega)] at htaken
    rw [htaken] at hu
    exact Leads.widen (finish hc rfl hsafe hw (by omega) hu2 ((hu.goto _).goto _)
      ((hsavedu.goto _).goto _) hra4) (by decide)
  · intro hnot
    rw [get_goto, get_goto, hu3, hu.atDst, Cond.eval, decide_eq_false_iff_not,
      offset_eq_offset (by omega) (by omega)] at hnot
    have hsome : 0 < k / 8 := by omega
    have hloop : Leads c [.a0, .a1, .a4] ((u.goto (slot b 65)).goto (slot b 66)) fun t =>
        t.pc = slot b 71 ∧ CopiedDown m dst src n (k % 8) t := by
      have hround := Leads.doWhile (R := [.a0, .a1, .a4])
        (I := fun i => CopiedDown m dst src n (k % 8 + 8 * (k / 8 - i))) hc 66 copyWord rfl rfl rfl rfl
        hsome ((hu.goto (slot b 65)).goto (slot b 66)) fun i t hi hframet ht => ?_
      · rw [Nat.sub_self] at hround
        exact hround
      · obtain ⟨q, hq⟩ : ∃ q, k / 8 - i = q + 1 := ⟨k / 8 - i - 1, by omega⟩
        rw [hq, Nat.mul_succ, ← Nat.add_assoc] at ht
        obtain ⟨x, hrunx, hx⟩ := run_copyWord hsafe (by omega) (by omega) (by omega) (by omega) ht
        rw [show k / 8 - (i + 1) = q by omega]
        refine ⟨x, hrunx, ?_, fun a => hx.goto a⟩
        have hlastx : x.get .a3 = dst + BitVec.ofNat 64 (k % 8) := by
          rw [run_frame (R := [.a0, .a1, .a4]) rfl hrunx (by decide), hframet .a3 (by decide), get_goto,
            get_goto, hu3]
        rw [hx.atDst, hlastx, Cond.eval, decide_eq_decide, offset_lt_offset (by omega) (by omega)]
        omega
    refine hloop.trans (by decide) ?_
    rintro t hframet ⟨hpct, ht⟩
    refine Leads.widen (finish hc hpct hsafe hw (by omega) ?_ ht ?_ hra4) (by decide)
    · rw [hframet .a2 (by decide), get_goto, get_goto, hu2]
    · apply hsavedu.keep
      intro r hr
      rw [hframet r (by revert r; decide), get_goto, get_goto]

theorem copyAligned {s : State} {k : ℕ} (hc : Located c b (code b ext memmove))
    (hpc : s.pc = slot b 22) (hsafe : BackwardSafe dst src n) (hw : dst.toNat + n < 2 ^ 64) (hk : k ≤ n)
    (halign : (dst.toNat + k) % 8 = 0) (halign' : (src.toNat + k) % 8 = 0)
    (hleft : s.get .a2 = BitVec.ofNat 64 k) (hs : CopiedDown m dst src n k s)
    (hsaved : Saved ra v0 v1 s) (hra4 : ra.toNat % 4 = 0) :
    Leads c [.a0, .a1, .a2, .a3, .a4, .a5, .a7, .s0, .s1] s
      (Done ra dst v0 v1 (moved m dst src 0 n)) := by
  obtain ⟨u, hrun, hu3, hmu⟩ : ∃ u, run s [li .a3 128] = some u ∧ u.get .a3 = 128 ∧
      u.mem = s.mem := by
    refine ⟨_, rfl, ?_, rfl⟩
    simp [Op.eval, Imm.value]
  have hframe {r : Reg} (hr : r ∉ [Reg.a3]) : u.get r = s.get r := run_frame rfl hrun hr
  have hu : CopiedDown m dst src n k u :=
    ⟨(hframe (by decide)).trans hs.atDst, (hframe (by decide)).trans hs.atSrc, hmu.trans hs.copied⟩
  have hsavedu : Saved ra v0 v1 u := hsaved.keep fun r hr => hframe (by revert r; decide)
  have hleftu : u.get .a2 = BitVec.ofNat 64 k := (hframe (by decide)).trans hleft
  apply Leads.block hc 22 hpc [li .a3 128] rfl rfl hrun
  apply Leads.branch (a := slot b 62) hc 23 rfl rfl
  · intro htaken
    exact Leads.widen (copyWords hc rfl hsafe hw hk halign halign' hleftu ((hu.goto _).goto _)
      ((hsavedu.goto _).goto _) hra4) (by decide)
  · intro hnot
    have hsome : 0 < k / 128 := by
      rw [get_goto, get_goto, hleftu, hu3, Cond.eval, decide_eq_false_iff_not, BitVec.lt_def,
        BitVec.toNat_ofNat, show (128 : U64).toNat = 128 from rfl] at hnot
      omega
    obtain ⟨h127, hlast⟩ := last_eq (j := 7) (by omega) hu.atDst hleftu
    obtain ⟨w, hrun', hw2, hw7, hmw⟩ : ∃ w, run (u.goto (slot b 24)) lastOfMainLoop = some w ∧
        w.get .a2 = BitVec.ofNat 64 (k % 128) ∧ w.get .a7 = dst + BitVec.ofNat 64 (k % 128) ∧
        w.mem = u.mem := ⟨_, rfl, h127, hlast, rfl⟩
    have hframe' {r : Reg} (hr : r ∉ [Reg.a2, .a7]) : w.get r = u.get r := run_frame rfl hrun' hr
    have hwords : CopiedDown m dst src n (k % 128 + 128 * (k / 128)) w := by
      rw [Nat.mod_add_div]
      exact ⟨(hframe' (by decide)).trans hu.atDst, (hframe' (by decide)).trans hu.atSrc,
        hmw.trans hu.copied⟩
    have hloop : Leads c [.a0, .a1, .a4, .a5, .s0, .s1] (w.goto (slot b 27)) fun t =>
        t.pc = slot b 62 ∧ CopiedDown m dst src n (k % 128) t := by
      have hround := Leads.doWhile (R := [.a0, .a1, .a4, .a5, .s0, .s1])
        (I := fun i => CopiedDown m dst src n (k % 128 + 128 * (k / 128 - i))) hc 27 copySixteen rfl rfl
        rfl rfl hsome (hwords.goto (slot b 27)) fun i t hi hframet ht => ?_
      · rw [Nat.sub_self] at hround
        exact hround
      · obtain ⟨q, hq⟩ : ∃ q, k / 128 - i = q + 1 := ⟨k / 128 - i - 1, by omega⟩
        have ha3 : t.get .a3 = 128 := by
          rw [hframet .a3 (by decide), get_goto, hframe' (by decide), hu3]
        rw [hq, Nat.mul_succ, ← Nat.add_assoc] at ht
        obtain ⟨x, hrunx, hx⟩ := run_copySixteen hsafe (by omega) (by omega) (by omega) (by omega) ha3 ht
        rw [show k / 128 - (i + 1) = q by omega]
        refine ⟨x, hrunx, ?_, fun a => hx.goto a⟩
        have hlastx : x.get .a7 = dst + BitVec.ofNat 64 (k % 128) := by
          rw [run_frame (R := [.a0, .a1, .a4, .a5, .s0, .s1]) rfl hrunx (by decide),
            hframet .a7 (by decide), get_goto, hw7]
        rw [hx.atDst, hlastx, Cond.eval, decide_eq_decide, offset_lt_offset (by omega) (by omega)]
        omega
    apply Leads.block hc 24 rfl lastOfMainLoop rfl rfl hrun'
    refine hloop.trans (by decide) ?_
    rintro t hframet ⟨hpct, ht⟩
    refine Leads.widen (copyWords hc hpct hsafe hw (by omega) (by omega) (by omega) ?_ ht ?_ hra4)
      (by decide)
    · rw [hframet .a2 (by decide), get_goto, hw2]
    · apply hsavedu.keep
      intro r hr
      rw [hframet r (by revert r; decide), get_goto, hframe' (by revert r; decide)]

theorem run_preload {s : State} {d k : ℕ} (hsafe : BackwardSafe dst src n) (hn : n ≤ 2 ^ 64)
    (hk : k ≤ n) (hd : (src.toNat + k) % 8 = d) (ht2 : s.get .t2 = BitVec.ofNat 64 d)
    (hleft : s.get .a2 = BitVec.ofNat 64 k) (hs : CopiedDown m dst src n k s) :
    ∃ t, run s (preload ++ [nop]) = some t ∧ Shifting m dst src n d k t ∧
      t.get .a2 = BitVec.ofNat 64 (k % 16) ∧ t.get .a3 = dst + BitVec.ofNat 64 (k % 16) ∧
      t.get .a6 = BitVec.ofNat 64 (8 * d) ∧ t.get .a7 = 0 - BitVec.ofNat 64 (8 * d) := by
  obtain ⟨h15, hlast⟩ := last_eq (j := 4) (by omega) hs.atDst hleft
  have hmis : s.get .a1 &&& 7 = BitVec.ofNat 64 d := by
    have hmask := and_mask (s.get .a1) (k := 3) (by omega)
    rw [hs.atSrc, BitVec.toNat_add, BitVec.toNat_ofNat,
      show (src.toNat + k % 2 ^ 64) % 2 ^ 64 % 2 ^ 3 = d by omega, ← hs.atSrc] at hmask
    exact hmask
  have hbase : (s.get .a1 &&& ~~~7) + BitVec.ofNat 64 d = src + BitVec.ofNat 64 k := by
    rw [← hs.atSrc, ← hmis, BitVec.add_comm, and_add_and_not]
  have haligned := aligned_of_offset hbase hd
  have hslli : Op.sll.eval (s.get .t2) ((3 : BitVec 12).signExtend 64) = BitVec.ofNat 64 (8 * d) := by
    rw [ht2]
    exact shiftLeft_ofNat d 3
  have h0 (a : U64) : a + (0 : BitVec 12).signExtend 64 = a := by simp
  refine ⟨_, run_append.mpr ⟨_, run_cons.mpr ⟨_, rfl, run_cons.mpr ⟨_, rfl, run_cons.mpr ⟨_, rfl,
    run_cons.mpr ⟨_, rfl, run_cons.mpr ⟨_, rfl,
    run_cons.mpr ⟨_, effect_ld (a := s.get .a1 &&& ~~~7) (h0 _) haligned, rfl⟩⟩⟩⟩⟩⟩, rfl⟩,
    ⟨hs.atDst, ?_, hs.copied, ?_⟩, h15, hlast, hslli, congrArg (0 - ·) hslli⟩
  · show (s.get .a1 &&& ~~~7) + (-16 : BitVec 12).signExtend 64 + BitVec.ofNat 64 16 +
      BitVec.ofNat 64 d = _
    have h16 : (-16 : BitVec 12).signExtend 64 + BitVec.ofNat 64 16 = 0 := rfl
    linear_combination hbase + h16
  · intro hlong
    show load64 s.mem (s.get .a1 &&& ~~~7) <<< (8 * (8 - d)) = _
    have hat : s.get .a1 &&& ~~~7 = src + BitVec.ofNat 64 (k - d) := by
      have hsplit : BitVec.ofNat 64 (k - d) + BitVec.ofNat 64 d = (BitVec.ofNat 64 k : U64) := by
        rw [← BitVec.ofNat_add, Nat.sub_add_cancel (by omega)]
      linear_combination hbase - hsplit
    rw [load64_shiftLeft _ _ (by omega), hat, hs.copied, read_moved_down hsafe (by omega) hk]

theorem copyUnaligned {s : State} {d k : ℕ} (hc : Located c b (code b ext memmove))
    (hpc : s.pc = slot b 81) (hsafe : BackwardSafe dst src n) (hw : dst.toNat + n < 2 ^ 64)
    (hk : k ≤ n) (hlong : 16 ≤ k) (halign : (dst.toNat + k) % 8 = 0) (hd : (src.toNat + k) % 8 = d)
    (hd0 : 0 < d) (ht2 : s.get .t2 = BitVec.ofNat 64 d) (hleft : s.get .a2 = BitVec.ofNat 64 k)
    (hs : CopiedDown m dst src n k s) (hsaved : Saved ra v0 v1 s) (hra4 : ra.toNat % 4 = 0) :
    Leads c [.a0, .a1, .a2, .a3, .a4, .a5, .a6, .a7, .s0, .s1] s
      (Done ra dst v0 v1 (moved m dst src 0 n)) := by
  obtain ⟨u, hrun, hu, hu2, hu3, hu6, hu7⟩ := run_preload hsafe (by omega) hk hd ht2 hleft hs
  have hframe {r : Reg} (hr : r ∉ [Reg.a1, .a2, .a3, .a5, .a6, .a7]) : u.get r = s.get r :=
    run_frame rfl hrun hr
  have hstart : Shifting m dst src n d (k % 16 + 16 * (k / 16)) (u.goto (slot b 90)) := by
    rw [Nat.mod_add_div]
    exact ⟨hu.atDst, hu.atSrc, hu.copied, hu.upper⟩
  apply Leads.block hc 81 hpc (preload ++ [nop]) rfl rfl hrun
  have hloop : Leads c [.a0, .a1, .a4, .a5, .s0, .s1] (u.goto (slot b 90)) fun t =>
      t.pc = slot b 103 ∧ Shifting m dst src n d (k % 16) t := by
    have hround := Leads.doWhile (R := [.a0, .a1, .a4, .a5, .s0, .s1])
      (I := fun i => Shifting m dst src n d (k % 16 + 16 * (k / 16 - i))) hc 90 copyShifted rfl rfl
      rfl rfl (show 0 < k / 16 by omega) hstart fun i t hi hframet ht => ?_
    · rw [Nat.sub_self] at hround
      exact hround
    · obtain ⟨q, hq⟩ : ∃ q, k / 16 - i = q + 1 := ⟨k / 16 - i - 1, by omega⟩
      rw [hq, Nat.mul_succ, ← Nat.add_assoc] at ht
      obtain ⟨x, hrunx, hx⟩ := run_copyShifted hsafe (by omega) (by omega) hd0 (by omega) (by omega)
        (by omega) ((hframet .a6 (by decide)).trans hu6) ((hframet .a7 (by decide)).trans hu7) ht
      rw [show k / 16 - (i + 1) = q by omega]
      refine ⟨x, hrunx, ?_, fun a => ⟨hx.atDst, hx.atSrc, hx.copied, hx.upper⟩⟩
      have hlastx : x.get .a3 = dst + BitVec.ofNat 64 (k % 16) := by
        rw [run_frame (R := [.a0, .a1, .a4, .a5, .s0, .s1]) rfl hrunx (by decide),
          hframet .a3 (by decide), get_goto, hu3]
      rw [hx.atDst, hlastx, Cond.eval, decide_eq_decide, offset_lt_offset (by omega) (by omega)]
      omega
  refine hloop.trans (by decide) ?_
  rintro t hframet ⟨hpct, ht⟩
  have ht2t : t.get .t2 = BitVec.ofNat 64 d := by
    rw [hframet .t2 (by decide), get_goto, hframe (by decide), ht2]
  obtain ⟨w, hrun', hw', hframew⟩ : ∃ w, run t [addi .a1 .a1 16, add .a1 .a1 .t2] = some w ∧
      CopiedDown m dst src n (k % 16) w ∧ ∀ r ∉ [Reg.a1], w.get r = t.get r := by
    refine ⟨_, rfl, ⟨ht.atDst, ?_, ht.copied⟩, fun r hr =>
      run_frame (l := [addi .a1 .a1 16, add .a1 .a1 .t2]) rfl rfl hr⟩
    show t.get .a1 + (16 : BitVec 12).signExtend 64 + t.get .t2 = _
    rw [ht2t, ← ht.atSrc]
    rfl
  apply Leads.block hc 103 hpct [addi .a1 .a1 16, add .a1 .a1 .t2] rfl rfl hrun'
  refine Leads.jump (a := slot b 71) hc 105 rfl rfl ?_
  refine Leads.widen (finish (k := k % 16) hc rfl hsafe hw (by omega) ?_ ((hw'.goto _).goto _) ?_ hra4)
    (by decide)
  · rw [get_goto, get_goto, hframew .a2 (by decide), hframet .a2 (by decide), get_goto, hu2]
  · apply hsaved.keep
    intro r hr
    rw [get_goto, get_goto, hframew r (by revert r; decide), hframet r (by revert r; decide),
      get_goto, hframe (by revert r; decide)]

theorem copyFromAligned {s : State} {k : ℕ} (hc : Located c b (code b ext memmove))
    (hpc : s.pc = slot b 18) (hsafe : BackwardSafe dst src n) (hw : dst.toNat + n < 2 ^ 64)
    (hk : k ≤ n) (hlong : 16 ≤ k) (halign : (dst.toNat + k) % 8 = 0)
    (hleft : s.get .a2 = BitVec.ofNat 64 k) (hs : CopiedDown m dst src n k s) (hra : s.get .ra = ra)
    (hra4 : ra.toNat % 4 = 0) :
    Leads c clobbered s (Done ra dst (s.get .s0) (s.get .s1) (moved m dst src 0 n)) := by
  obtain ⟨u, hrun, hu2, hut0, hut1, hmu⟩ : ∃ u, run s save = some u ∧
      u.get .t2 = BitVec.ofNat 64 ((src.toNat + k) % 8) ∧ u.get .t0 = s.get .s0 ∧
      u.get .t1 = s.get .s1 ∧ u.mem = s.mem := by
    have hmask := and_mask (s.get .a1) (k := 3) (by omega)
    rw [hs.atSrc, BitVec.toNat_add, BitVec.toNat_ofNat,
      show (src.toNat + k % 2 ^ 64) % 2 ^ 64 % 2 ^ 3 = (src.toNat + k) % 8 by omega,
      ← hs.atSrc] at hmask
    refine ⟨_, rfl, hmask, ?_, ?_, rfl⟩ <;> simp [Op.eval, Imm.value]
  have hframe {r : Reg} (hr : r ∉ [Reg.t2, .t0, .t1]) : u.get r = s.get r := run_frame rfl hrun hr
  have hu : CopiedDown m dst src n k u :=
    ⟨(hframe (by decide)).trans hs.atDst, (hframe (by decide)).trans hs.atSrc, hmu.trans hs.copied⟩
  have hsaved : Saved ra (s.get .s0) (s.get .s1) u := ⟨(hframe (by decide)).trans hra, hut0, hut1⟩
  have hleftu : u.get .a2 = BitVec.ofNat 64 k := (hframe (by decide)).trans hleft
  apply Leads.block hc 18 hpc save rfl rfl hrun
  apply Leads.branch (a := slot b 81) hc 21 rfl rfl
  · intro htaken
    rw [get_zero, get_goto, hu2, Cond.eval, decide_eq_true_eq, ne_eq,
      ofNat_eq_zero_iff (by omega)] at htaken
    exact Leads.widen (copyUnaligned hc rfl hsafe hw hk hlong halign rfl (by omega) hu2 hleftu
      ((hu.goto _).goto _) ((hsaved.goto _).goto _) hra4) (by decide)
  · intro hnot
    rw [get_zero, get_goto, hu2, Cond.eval, decide_eq_false_iff_not, not_not,
      ofNat_eq_zero_iff (by omega)] at hnot
    exact Leads.widen (copyAligned hc rfl hsafe hw hk halign hnot hleftu ((hu.goto _).goto _)
      ((hsaved.goto _).goto _) hra4) (by decide)

theorem xor_and_self (x y : U64) : (x &&& y) ^^^ x = x &&& ~~~y := by
  apply BitVec.eq_of_getLsbD_eq
  intro i hi
  simp only [BitVec.getLsbD_xor, BitVec.getLsbD_and, BitVec.getLsbD_not, hi, decide_true,
    Bool.true_and]
  cases x.getLsbD i <;> cases y.getLsbD i <;> rfl

theorem copyLong {s : State} (hc : Located c b (code b ext memmove)) (hpc : s.pc = slot b 9)
    (hsafe : BackwardSafe dst src n) (hw : dst.toNat + n < 2 ^ 64) (hn : 24 ≤ n)
    (hleft : s.get .a2 = BitVec.ofNat 64 n) (hs : CopiedDown m dst src n n s) (hra : s.get .ra = ra)
    (hra4 : ra.toNat % 4 = 0) :
    Leads c clobbered s (Done ra dst (s.get .s0) (s.get .s1) (moved m dst src 0 n)) := by
  have hmask := and_mask (s.get .a0) (k := 3) (by omega)
  rw [hs.atDst, add_toNat hw, ← hs.atDst] at hmask
  obtain ⟨u, hrun, hu3, hu3', hmu⟩ : ∃ u, run s [andi .a3 .a0 7] = some u ∧
      u.get .a3 = BitVec.ofNat 64 ((dst.toNat + n) % 8) ∧ u.get .a3 = s.get .a0 &&& 7 ∧
      u.mem = s.mem := ⟨_, rfl, hmask, rfl, rfl⟩
  have hframe {r : Reg} (hr : r ∉ [Reg.a3]) : u.get r = s.get r := run_frame rfl hrun hr
  have hu : CopiedDown m dst src n n u :=
    ⟨(hframe (by decide)).trans hs.atDst, (hframe (by decide)).trans hs.atSrc, hmu.trans hs.copied⟩
  apply Leads.block hc 9 hpc [andi .a3 .a0 7] rfl rfl hrun
  apply Leads.branch (a := slot b 18) hc 10 rfl rfl
  · intro htaken
    rw [get_zero, get_goto, hu3, Cond.eval, decide_eq_true_eq, ofNat_eq_zero_iff (by omega)] at htaken
    have hrest := copyFromAligned (s := (u.goto (slot b 10)).goto (slot b 18)) hc rfl hsafe
      hw le_rfl (by omega) htaken ((hframe (by decide)).trans hleft) ((hu.goto _).goto _)
      ((hframe (by decide)).trans hra) hra4
    rw [get_goto, get_goto, get_goto, get_goto, hframe (by decide), hframe (by decide)] at hrest
    exact hrest
  · intro hnot
    rw [get_zero, get_goto, hu3, Cond.eval, decide_eq_false_iff_not,
      ofNat_eq_zero_iff (by omega)] at hnot
    obtain ⟨w, hrun', hw2, hw3, hmw⟩ : ∃ w, run ((u.goto (slot b 10)).goto (slot b 11)) headroom =
        some w ∧ w.get .a2 = BitVec.ofNat 64 (n - (dst.toNat + n) % 8) ∧
        w.get .a3 = dst + BitVec.ofNat 64 (n - (dst.toNat + n) % 8) ∧ w.mem = u.mem := by
      have hsplit : BitVec.ofNat 64 (n - (dst.toNat + n) % 8) + BitVec.ofNat 64 ((dst.toNat + n) % 8) =
          (BitVec.ofNat 64 n : U64) := by
        rw [← BitVec.ofNat_add, Nat.sub_add_cancel (by omega)]
      refine ⟨_, rfl, ?_, ?_, rfl⟩
      · show u.get .a2 - u.get .a3 = _
        rw [hframe (by decide), hleft, hu3]
        linear_combination -hsplit
      · show u.get .a3 ^^^ u.get .a0 = _
        rw [hframe (r := .a0) (by decide), hu3', xor_and_self, and_not_eq_sub, ← hu3', hu3, hs.atDst]
        linear_combination -hsplit
    have hframe' {r : Reg} (hr : r ∉ [Reg.a2, .a3]) : w.get r = s.get r :=
      (run_frame rfl hrun' hr).trans (hframe fun h => hr ((by decide : [Reg.a3] ⊆ [.a2, .a3]) h))
    have hstart : CopiedDown m dst src n (n - (dst.toNat + n) % 8 + (dst.toNat + n) % 8) w := by
      rw [Nat.sub_add_cancel (by omega)]
      exact ⟨(hframe' (by decide)).trans hs.atDst, (hframe' (by decide)).trans hs.atSrc,
        (hmw.trans hmu).trans hs.copied⟩
    apply Leads.block hc 11 rfl headroom rfl rfl hrun'
    refine Leads.trans (copyBytes (p := 13) (e := .a3) hc rfl (by decide) rfl rfl hsafe hw (by omega)
      (by omega) hw3 (hstart.goto _)) (by decide) ?_
    rintro t hframet ⟨hpct, ht⟩
    have hkeep {r : Reg} (hr : r ∉ [Reg.a0, .a1, .a2, .a3, .a4]) : t.get r = s.get r := by
      rw [hframet r fun h => hr ((by decide : [Reg.a1, .a0, .a4] ⊆ [.a0, .a1, .a2, .a3, .a4]) h),
        get_goto, hframe' fun h => hr ((by decide : [Reg.a2, .a3] ⊆ [.a0, .a1, .a2, .a3, .a4]) h)]
    have hrest := copyFromAligned hc hpct hsafe hw (by omega) (by omega) (by omega)
      (by rw [hframet .a2 (by decide), get_goto, hw2]) ht ((hkeep (by decide)).trans hra) hra4
    rw [hkeep (r := .s0) (by decide), hkeep (r := .s1) (by decide)] at hrest
    exact hrest

theorem copyReverse {s : State} (hc : Located c b (code b ext memmove)) (hpc : s.pc = slot b 5)
    (hra : (s.get .ra).toNat % 4 = 0) (hw : (s.get .a0).toNat + (s.get .a2).toNat < 2 ^ 64)
    (hsafe : BackwardSafe (s.get .a0) (s.get .a1) (s.get .a2).toNat) :
    Leads c clobbered s (Done (s.get .ra) (s.get .a0) (s.get .s0) (s.get .s1)
      (moved s.mem (s.get .a0) (s.get .a1) 0 (s.get .a2).toNat)) := by
  have hn : s.get .a2 = BitVec.ofNat 64 (s.get .a2).toNat := by simp
  obtain ⟨u, hrun, hu4, hu, hmu⟩ : ∃ u, run s fromEnd = some u ∧ u.get .a4 = 24 ∧
      CopiedDown s.mem (s.get .a0) (s.get .a1) (s.get .a2).toNat (s.get .a2).toNat u ∧
      u.mem = s.mem := by
    refine ⟨_, rfl, ?_, ⟨?_, ?_, moved_empty.symm⟩, rfl⟩
    · simp [Op.eval, Imm.value]
    · rw [← hn]
      rfl
    · rw [← hn]
      rfl
  have hframe {r : Reg} (hr : r ∉ [Reg.a0, .a1, .a4]) : u.get r = s.get r := run_frame rfl hrun hr
  apply Leads.block hc 5 hpc fromEnd rfl rfl hrun
  apply Leads.branch (a := slot b 73) hc 8 rfl rfl
  · intro htaken
    refine Leads.trans (finishBytes hc rfl hsafe hw le_rfl ((hframe (by decide)).trans hn)
      ((hu.goto _).goto _) (hframe (by decide)) hra) (by decide) ?_
    rintro t hframet ⟨hpct, ha0, hmt⟩
    exact Leads.done ⟨hpct, ha0, (hframet .s0 (by decide)).trans (hframe (by decide)),
      (hframet .s1 (by decide)).trans (hframe (by decide)), hmt⟩
  · intro hnot
    have hlong : 24 ≤ (s.get .a2).toNat := by
      rw [get_goto, get_goto, hu4, hframe (by decide), Cond.eval, decide_eq_false_iff_not,
        BitVec.lt_def, show (24 : U64).toNat = 24 from rfl] at hnot
      omega
    have hrest := copyLong (s := (u.goto (slot b 8)).goto (slot b 9)) hc rfl hsafe hw hlong
      ((hframe (by decide)).trans hn) ((hu.goto _).goto _) (hframe (by decide)) hra
    rw [get_goto, get_goto, get_goto, get_goto, hframe (by decide), hframe (by decide)] at hrest
    exact hrest

theorem memmove_moves {ext' : Sym → U64} {s : State} (hc : Located c b (code b ext memmove))
    (hcopy : Located c (ext ._memcpy) (code (ext ._memcpy) ext' memcpy))
    (hcopy4 : (ext ._memcpy).toNat % 4 = 0) (hpc : s.pc = b) (hra : (s.get .ra).toNat % 4 = 0)
    (hw : (s.get .a0).toNat + (s.get .a2).toNat < 2 ^ 64)
    (hw' : (s.get .a1).toNat + (s.get .a2).toNat ≤ 2 ^ 64) :
    Leads c clobbered s (Done (s.get .ra) (s.get .a0) (s.get .s0) (s.get .s1)
      (moved s.mem (s.get .a0) (s.get .a1) 0 (s.get .a2).toNat)) := by
  have hdst := (s.get .a0).isLt
  have hsrc := (s.get .a1).isLt
  obtain ⟨u, hrun, hmu⟩ : ∃ u, run s entry = some u ∧ u.mem = s.mem := ⟨_, rfl, rfl⟩
  have hframe {r : Reg} (hr : r ∉ [Reg.a5]) : u.get r = s.get r := run_frame rfl hrun hr
  rw [← slot_zero b] at hpc
  apply Leads.block hc 0 hpc entry rfl rfl hrun
  apply Leads.branch (a := slot b 5) hc 2 rfl rfl
  · intro htaken
    rw [get_goto, get_goto, hframe (by decide), hframe (by decide), Cond.eval, decide_eq_true_eq,
      BitVec.lt_def] at htaken
    have hsafe : BackwardSafe (s.get .a0) (s.get .a1) (s.get .a2).toNat := by
      rw [BackwardSafe, BitVec.toNat_sub_of_le (BitVec.le_def.mpr htaken.le)]
      omega
    have hrest := copyReverse (s := (u.goto (slot b 2)).goto (slot b 5)) hc rfl
    simp only [get_goto, mem_goto, hframe (r := .ra) (by decide), hframe (r := .a0) (by decide),
      hframe (r := .a1) (by decide), hframe (r := .a2) (by decide), hframe (r := .s0) (by decide),
      hframe (r := .s1) (by decide), hmu] at hrest
    exact hrest hra hw hsafe
  · intro hnot
    rw [get_goto, get_goto, hframe (by decide), hframe (by decide), Cond.eval,
      decide_eq_false_iff_not, BitVec.lt_def, not_lt] at hnot
    have hsafe : ForwardSafe (s.get .a0) (s.get .a1) (s.get .a2).toNat := by
      rw [ForwardSafe, BitVec.toNat_sub_of_le (BitVec.le_def.mpr hnot)]
      omega
    refine Leads.auipc (a := ext ._memcpy) hc 3 rfl rfl (by decide) ?_
    refine Leads.jalr (a := ext ._memcpy) hc 4 rfl rfl ?_ hcopy4 ?_
    · exact slot_add_pcrel b (ext ._memcpy) 3
    · have hkeep {r : Reg} (hr : r ∉ [Reg.t1, .a5]) : ((u.goto (slot b 3)).set .t1
          (slot b 3 + pcrelHi (ext ._memcpy - slot b 3))).get r = s.get r := by
        rw [get_set_of_mem (R := [.t1, .a5]) (.inr (by decide)) hr, get_goto,
          hframe fun h => hr ((by decide : [Reg.a5] ⊆ [.t1, .a5]) h)]
      have hrest := memcpy_copies (s := (((u.goto (slot b 3)).set .t1
        (slot b 3 + pcrelHi (ext ._memcpy - slot b 3))).goto (slot b 4)).goto (ext ._memcpy)) hcopy rfl
      simp only [get_goto, mem_goto, mem_set, hkeep (r := .ra) (by decide), hkeep (r := .a0) (by decide),
        hkeep (r := .a1) (by decide), hkeep (r := .a2) (by decide), hkeep (r := .s0) (by decide),
        hkeep (r := .s1) (by decide), hmu] at hrest
      exact hrest hra hw hsafe

end Wasrisc.MemopsMemmove
