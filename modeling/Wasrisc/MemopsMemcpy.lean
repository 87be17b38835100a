import Wasrisc.MemopsText
import Wasrisc.MemoryCopies

namespace Wasrisc.MemopsMemcpy

open AddressedMemory HostMemory LittleEndian MemoryWindows WordBytes MemoryCopies Rv64 Assembler
open MemopsText Instr Memcpy

variable {c : Code} {b : U64} {ext : Sym → U64} {m : Ram} {dst src : U64} {n : ℕ}

structure Copied (m : Ram) (dst src : U64) (k : ℕ) (s : State) : Prop where
  atDst : s.get .a0 = dst + BitVec.ofNat 64 k
  atSrc : s.get .a1 = src + BitVec.ofNat 64 k
  copied : s.mem = moved m dst src 0 k

theorem Copied.goto {k : ℕ} {s : State} (h : Copied m dst src k s) (a : U64) :
    Copied m dst src k (s.goto a) := ⟨h.atDst, h.atSrc, h.copied⟩

theorem run_copyHeadByte (s : State) : ∃ t, run s copyHeadByte = some t ∧
    t.get .a0 = s.get .a0 + 1 ∧ t.get .a1 = s.get .a1 + 1 ∧
    t.mem = write s.mem (s.get .a0) [s.mem (s.get .a1)] := by
  refine ⟨_, rfl, ?_, ?_, ?_⟩
  · simp [Op.eval, Imm.value]
  · simp [Op.eval, Imm.value]
  · simp [update_eq_write, BitVec.setWidth_setWidth_of_le]

theorem run_copyByte (s : State) : ∃ t, run s copyByte = some t ∧
    t.get .a0 = s.get .a0 + 1 ∧ t.get .a1 = s.get .a1 + 1 ∧
    t.mem = write s.mem (s.get .a0) [s.mem (s.get .a1)] := by
  refine ⟨_, rfl, ?_, ?_, ?_⟩
  · simp [Op.eval, Imm.value]
  · simp [Op.eval, Imm.value]
  · simp [update_eq_write, BitVec.setWidth_setWidth_of_le]

theorem copyBytes {s : State} {R : List Reg} {body : List (Instr U64)} {e : Reg} {i l k : ℕ}
    (hc : Located c b (code b ext memcpy))
    (hbyte : ∀ t, ∃ u, run t body = some u ∧ u.get .a0 = t.get .a0 + 1 ∧
      u.get .a1 = t.get .a1 + 1 ∧ u.mem = write t.mem (t.get .a0) [t.mem (t.get .a1)])
    (hbody : ((code b ext memcpy).drop k).take body.length = body)
    (hstraight : body.all (·.straight R) = true) (he : e ∉ R)
    (hbranch : (code b ext memcpy)[k + body.length]? = some (bltu .a0 e (slot b k)))
    (hpc : s.pc = slot b k) (hsafe : ForwardSafe dst src n) (hw : dst.toNat + n < 2 ^ 64)
    (hl : 0 < l) (hn : i + l ≤ n) (hend : s.get e = dst + BitVec.ofNat 64 (i + l))
    (hs : Copied m dst src i s) :
    Leads c R s fun t => t.pc = slot b (k + body.length + 1) ∧ Copied m dst src (i + l) t := by
  apply Leads.doWhile (I := fun j => Copied m dst src (i + j)) hc k body hbody hstraight hbranch hpc
    hl hs
  intro j t hj hframe ht
  obtain ⟨u, hrun, hu0, hu1, hmu⟩ := hbyte t
  have hdst : u.get .a0 = dst + BitVec.ofNat 64 (i + (j + 1)) := by
    rw [hu0, ht.atDst, ← Nat.add_assoc, ← offset_succ dst (i + j) 1]
    rfl
  have hsrc : u.get .a1 = src + BitVec.ofNat 64 (i + (j + 1)) := by
    rw [hu1, ht.atSrc, ← Nat.add_assoc, ← offset_succ src (i + j) 1]
    rfl
  refine ⟨u, hrun, ?_, fun a => ⟨hdst, hsrc, ?_⟩⟩
  · rw [hdst, run_frame hstraight hrun he, hframe e he, hend, Cond.eval, decide_eq_decide,
      offset_lt_offset (by omega) (by omega)]
    omega
  · rw [mem_goto, hmu, ht.atDst, ht.atSrc, ht.copied, moved_up_apply hsafe (by omega),
      write_moved_up (k := i + j) (by omega), Nat.add_assoc]

theorem run_copyWord {s : State} {k : ℕ} (hsafe : ForwardSafe dst src n) (hn : k + 8 ≤ n)
    (hn' : n ≤ 2 ^ 64) (hdst : (dst.toNat + k) % 8 = 0) (hsrc : (src.toNat + k) % 8 = 0)
    (hs : Copied m dst src k s) : ∃ t, run s copyWord = some t ∧ Copied m dst src (k + 8) t := by
  have h0 (a : U64) : a + (0 : BitVec 12).signExtend 64 = a := by simp
  refine ⟨_, run_cons.mpr ⟨_, effect_ld ((h0 _).trans hs.atSrc) (offset_aligned hsrc),
    run_cons.mpr ⟨_, rfl, run_cons.mpr ⟨_, effect_sd ((h0 _).trans hs.atDst) (offset_aligned hdst),
    rfl⟩⟩⟩, ?_, ?_, ?_⟩
  · show s.get .a0 + 8 = _
    rw [hs.atDst, ← offset_succ dst k 8]
    rfl
  · show s.get .a1 + 8 = _
    rw [hs.atSrc, ← offset_succ src k 8]
    rfl
  · show store64 s.mem _ (load64 s.mem _) = _
    rw [hs.copied, load64_moved_up hsafe le_rfl hn, store64_moved_up (hn.trans hn')]

theorem run_copyFour {s : State} {k g : ℕ} (hsafe : ForwardSafe dst src n) (hn' : n ≤ 2 ^ 64)
    (hg : g < 4) (hn : k + 32 * (g + 1) ≤ n) (halign : (dst.toNat + k) % 8 = 0)
    (halign' : (src.toNat + k) % 8 = 0) (hdst : s.get .a0 = dst + BitVec.ofNat 64 k)
    (hsrc : s.get .a1 = src + BitVec.ofNat 64 k) (hm : s.mem = moved m dst src 0 (k + 32 * g)) :
    ∃ t, run s (copyFour g) = some t ∧ t.mem = moved m dst src 0 (k + 32 * (g + 1)) := by
  have himm (a p : U64) (hp : p = a + BitVec.ofNat 64 k) (i : ℕ) (hi : i < 4) :
      p + (BitVec.ofNat 12 (8 * (4 * g + i))).signExtend 64 =
        a + BitVec.ofNat 64 (k + 32 * g + 8 * i) := by
    rw [signExtend_imm (by omega), hp, offset_succ, show k + 8 * (4 * g + i) = k + 32 * g + 8 * i by omega]
  have hload (i : ℕ) (hi : i < 4) := himm src _ hsrc i hi
  have hstore (i : ℕ) (hi : i < 4) := himm dst _ hdst i hi
  have hword (i : ℕ) (hi : i < 4) :
      load64 (moved m dst src 0 (k + 32 * g)) (src + BitVec.ofNat 64 (k + 32 * g + 8 * i)) =
        load64 m (src + BitVec.ofNat 64 (k + 32 * g + 8 * i)) :=
    load64_moved_up hsafe (by omega) (by omega)
  have hcopy (i : ℕ) (hi : i < 4) :
      store64 (moved m dst src 0 (k + 32 * g + 8 * i)) (dst + BitVec.ofNat 64 (k + 32 * g + 8 * i))
        (load64 m (src + BitVec.ofNat 64 (k + 32 * g + 8 * i))) =
        moved m dst src 0 (k + 32 * g + 8 * (i + 1)) := store64_moved_up (by omega)
  refine ⟨_, run_cons.mpr ⟨_, effect_ld (hload 0 (by omega)) (offset_aligned (by omega)),
    run_cons.mpr ⟨_, effect_ld (hload 1 (by omega)) (offset_aligned (by omega)),
    run_cons.mpr ⟨_, effect_ld (hload 2 (by omega)) (offset_aligned (by omega)),
    run_cons.mpr ⟨_, effect_ld (hload 3 (by omega)) (offset_aligned (by omega)),
    run_cons.mpr ⟨_, effect_sd (hstore 0 (by omega)) (offset_aligned (by omega)),
    run_cons.mpr ⟨_, effect_sd (hstore 1 (by omega)) (offset_aligned (by omega)),
    run_cons.mpr ⟨_, effect_sd (hstore 2 (by omega)) (offset_aligned (by omega)),
    run_cons.mpr ⟨_, effect_sd (hstore 3 (by omega)) (offset_aligned (by omega)),
    rfl⟩⟩⟩⟩⟩⟩⟩⟩, ?_⟩
  show store64 (store64 (store64 (store64 s.mem _ (load64 s.mem _)) _ (load64 s.mem _)) _
    (load64 s.mem _)) _ (load64 s.mem _) = _
  rw [hm, hword 0 (by omega), hword 1 (by omega), hword 2 (by omega), hword 3 (by omega)]
  have h0 := hcopy 0 (by omega)
  rw [Nat.mul_zero, Nat.add_zero] at h0 ⊢
  rw [h0, hcopy 1 (by omega), hcopy 2 (by omega), hcopy 3 (by omega)]
  congr 1

theorem run_copyFours {s : State} {k g : ℕ} (hsafe : ForwardSafe dst src n) (hn' : n ≤ 2 ^ 64)
    (hg : g ≤ 4) (hn : k + 32 * g ≤ n) (halign : (dst.toNat + k) % 8 = 0)
    (halign' : (src.toNat + k) % 8 = 0) (hs : Copied m dst src k s) :
    ∃ t, run s ((List.range g).flatMap copyFour) = some t ∧
      (∀ r ∉ [Reg.a4, .a5, .s0, .s1], t.get r = s.get r) ∧ t.mem = moved m dst src 0 (k + 32 * g) := by
  induction g with
  | zero => exact ⟨s, rfl, fun _ _ => rfl, hs.copied⟩
  | succ g ih =>
    obtain ⟨t, hrun, hframe, hm⟩ := ih (by omega) (by omega)
    obtain ⟨u, hrun', hm'⟩ := run_copyFour hsafe hn' (by omega) (by omega) halign halign'
      ((hframe .a0 (by decide)).trans hs.atDst) ((hframe .a1 (by decide)).trans hs.atSrc) hm
    refine ⟨u, ?_, fun r hr => (run_frame rfl hrun' hr).trans (hframe r hr), hm'⟩
    rw [List.range_succ, List.flatMap_append, List.flatMap_singleton]
    exact run_append.mpr ⟨t, hrun, hrun'⟩

theorem run_copySixteen {s : State} {k : ℕ} (hsafe : ForwardSafe dst src n) (hn' : n ≤ 2 ^ 64)
    (hn : k + 128 ≤ n) (halign : (dst.toNat + k) % 8 = 0) (halign' : (src.toNat + k) % 8 = 0)
    (ha7 : s.get .a7 = 128) (hs : Copied m dst src k s) :
    ∃ t, run s copySixteen = some t ∧ Copied m dst src (k + 128) t := by
  obtain ⟨t, hrun, hframe, hm⟩ := run_copyFours (g := 4) hsafe hn' le_rfl hn halign halign' hs
  refine ⟨_, run_append.mpr ⟨t, hrun, rfl⟩, ?_, ?_, hm⟩
  · show t.get .a0 + t.get .a7 = _
    rw [hframe .a0 (by decide), hframe .a7 (by decide), hs.atDst, ha7, ← offset_succ dst k 128]
    rfl
  · show t.get .a1 + t.get .a7 = _
    rw [hframe .a1 (by decide), hframe .a7 (by decide), hs.atSrc, ha7, ← offset_succ src k 128]
    rfl

/-- The state at the top of the loop for a source `d` bytes past an aligned address: of the next
sixteen bytes the first `8 - d` are in `a5`, the following eight in `a4`. -/
structure Shifting (m : Ram) (dst src : U64) (n d k : ℕ) (s : State) : Prop where
  atDst : s.get .a0 = dst + BitVec.ofNat 64 k
  atSrc : s.get .a1 + BitVec.ofNat 64 d = src + BitVec.ofNat 64 k
  copied : s.mem = moved m dst src 0 k
  lower : k + 16 ≤ n → s.get .a5 >>> (8 * d) =
    BitVec.ofNat 64 (ofBytes (read m (src + BitVec.ofNat 64 k) (8 - d)))
  middle : k + 16 ≤ n → s.get .a4 = load64 m (src + BitVec.ofNat 64 (k + 8 - d))

theorem run_copyShifted {s : State} {d k : ℕ} (hsafe : ForwardSafe dst src n) (hn' : n ≤ 2 ^ 64)
    (hd : d < 8) (hd0 : 0 < d) (hn : k + 16 ≤ n) (halign : (dst.toNat + k) % 8 = 0)
    (halign' : (s.get .a1).toNat % 8 = 0) (ha6 : s.get .a6 = BitVec.ofNat 64 (8 * d))
    (ha7 : s.get .a7 = 0 - BitVec.ofNat 64 (8 * d)) (hs : Shifting m dst src n d k s) :
    ∃ t, run s copyShifted = some t ∧ Shifting m dst src n d (k + 16) t := by
  have h8 : s.get .a1 + BitVec.ofNat 64 8 = src + BitVec.ofNat 64 (k + 8 - d) :=
    aligned_offset hs.atSrc (by omega)
  have h16 : s.get .a1 + BitVec.ofNat 64 16 = src + BitVec.ofNat 64 (k + 16 - d) :=
    aligned_offset hs.atSrc (by omega)
  have h24 : s.get .a1 + 16 + 8 = src + BitVec.ofNat 64 (k + 24 - d) := by
    rw [← aligned_offset hs.atSrc (show d ≤ 24 by omega), BitVec.add_assoc]
    rfl
  have hword : Op.or.eval (Op.sll.eval (s.get .a4) (s.get .a7)) (Op.srl.eval (s.get .a5) (s.get .a6)) =
      load64 m (src + BitVec.ofNat 64 k) := by
    have hupper : src + BitVec.ofNat 64 (k + 8 - d) = src + BitVec.ofNat 64 k + BitVec.ofNat 64 (8 - d) := by
      rw [offset_succ, Nat.add_sub_assoc (by omega)]
    rw [ha6, ha7, srl_eval _ hd, sll_eval _ hd hd0, Op.eval, BitVec.or_comm]
    apply load64_combine (k := d) (by omega) (hs.lower hn)
    rw [hs.middle hn, load64_shiftLeft _ _ (by omega), hupper]
  have hword' : Op.or.eval (Op.srl.eval (s.get .a4) (s.get .a6))
      (Op.sll.eval (load64 s.mem (src + BitVec.ofNat 64 (k + 16 - d))) (s.get .a7)) =
      load64 m (src + BitVec.ofNat 64 (k + 8)) := by
    have hlower : src + BitVec.ofNat 64 (k + 8 - d) + BitVec.ofNat 64 d =
        src + BitVec.ofNat 64 (k + 8) := by
      rw [offset_succ, Nat.sub_add_cancel (by omega)]
    have hupper : src + BitVec.ofNat 64 (k + 16 - d) =
        src + BitVec.ofNat 64 (k + 8) + BitVec.ofNat 64 (8 - d) := by
      rw [offset_succ]
      congr 2
      omega
    rw [ha6, ha7, srl_eval _ hd, sll_eval _ hd hd0, Op.eval]
    apply load64_combine (k := d) (by omega)
    · rw [hs.middle hn, load64_ushiftRight _ _ (by omega), hlower]
    · rw [load64_shiftLeft _ _ (by omega), hs.copied, read_moved_up hsafe (by omega) (by omega), hupper]
  have hfirst : store64 s.mem (dst + BitVec.ofNat 64 k) (Op.or.eval
      (Op.sll.eval (s.get .a4) (s.get .a7)) (Op.srl.eval (s.get .a5) (s.get .a6))) =
      moved m dst src 0 (k + 8) := by
    rw [hword, hs.copied, store64_moved_up (by omega)]
  have hsecond : store64 (moved m dst src 0 (k + 8)) (dst + BitVec.ofNat 64 (k + 8)) (Op.or.eval
      (Op.srl.eval (s.get .a4) (s.get .a6))
      (Op.sll.eval (load64 s.mem (src + BitVec.ofNat 64 (k + 16 - d))) (s.get .a7))) =
      moved m dst src 0 (k + 16) := by
    rw [hword', store64_moved_up (by omega)]
  have hmem := congrArg (fun ram => store64 ram (dst + BitVec.ofNat 64 (k + 8)) (Op.or.eval
    (Op.srl.eval (s.get .a4) (s.get .a6))
    (Op.sll.eval (load64 s.mem (src + BitVec.ofNat 64 (k + 16 - d))) (s.get .a7)))) hfirst
  refine ⟨_, run_cons.mpr ⟨_, rfl, run_cons.mpr ⟨_, effect_ld (a := src + BitVec.ofNat 64 (k + 16 - d)) h16 ?_,
    run_cons.mpr ⟨_, rfl, run_cons.mpr ⟨_, rfl, run_cons.mpr ⟨_, rfl,
    run_cons.mpr ⟨_, effect_sd (a := dst + BitVec.ofNat 64 k) ?_ ?_,
    run_cons.mpr ⟨_, rfl, run_cons.mpr ⟨_, rfl, run_cons.mpr ⟨_, rfl,
    run_cons.mpr ⟨_, effect_sd (a := dst + BitVec.ofNat 64 (k + 8)) ?_ ?_,
    run_cons.mpr ⟨_, rfl, run_cons.mpr ⟨_, effect_ld (a := src + BitVec.ofNat 64 (k + 24 - d)) h24 ?_,
    rfl⟩⟩⟩⟩⟩⟩⟩⟩⟩⟩⟩⟩, ?_, ?_, hmem.trans hsecond, ?_, ?_⟩
  · rw [← h16]
    exact offset_aligned (by omega)
  · show s.get .a0 + (0 : BitVec 12).signExtend 64 = _
    rw [hs.atDst]
    simp
  · exact offset_aligned halign
  · show s.get .a0 + 8 = _
    rw [hs.atDst, ← offset_succ dst k 8]
    rfl
  · exact offset_aligned (by omega)
  · rw [← aligned_offset hs.atSrc (show d ≤ 24 by omega)]
    exact offset_aligned (by omega)
  · show s.get .a0 + 16 = _
    rw [hs.atDst, ← offset_succ dst k 16]
    rfl
  · show s.get .a1 + 16 + BitVec.ofNat 64 d = _
    rw [← offset_succ src k 16, ← hs.atSrc, BitVec.add_assoc, BitVec.add_comm 16, ← BitVec.add_assoc]
    rfl
  · intro hnext
    show load64 s.mem (src + BitVec.ofNat 64 (k + 16 - d)) >>> (8 * d) = _
    rw [load64_ushiftRight _ _ (by omega), offset_succ, Nat.sub_add_cancel (by omega), hs.copied,
      read_moved_up hsafe (by omega) (by omega)]
  · intro hnext
    refine Eq.trans (congrArg (load64 · (src + BitVec.ofNat 64 (k + 24 - d)))
      (hmem.trans hsecond)) ?_
    rw [load64_moved_up hsafe (by omega) (by omega)]

/-- What the routine keeps in registers for its end: the return address, the initial `dst` and the
values of `s0` and `s1`. -/
structure Saved (ra ret v0 v1 : U64) (s : State) : Prop where
  ra : s.get .ra = ra
  t2 : s.get .t2 = ret
  t0 : s.get .t0 = v0
  t1 : s.get .t1 = v1

theorem Saved.keep {ra ret v0 v1 : U64} {s t : State} (h : Saved ra ret v0 v1 s)
    (hkeep : ∀ r ∈ [Reg.ra, .t2, .t0, .t1], t.get r = s.get r) : Saved ra ret v0 v1 t := by
  refine ⟨(hkeep .ra ?_).trans h.ra, (hkeep .t2 ?_).trans h.t2, (hkeep .t0 ?_).trans h.t0,
    (hkeep .t1 ?_).trans h.t1⟩ <;> decide

theorem Saved.goto {ra ret v0 v1 : U64} {s : State} (h : Saved ra ret v0 v1 s) (a : U64) :
    Saved ra ret v0 v1 (s.goto a) := h.keep fun _ _ => rfl

structure Done (ra ret v0 v1 : U64) (ram : Ram) (s : State) : Prop where
  pc : s.pc = ra
  a0 : s.get .a0 = ret
  s0 : s.get .s0 = v0
  s1 : s.get .s1 = v1
  mem : s.mem = ram

variable {ra ret v0 v1 : U64}

theorem finishBytes {s : State} {k : ℕ} (hc : Located c b (code b ext memcpy))
    (hpc : s.pc = slot b 70) (hsafe : ForwardSafe dst src n) (hw : dst.toNat + n < 2 ^ 64)
    (hk : k ≤ n) (hleft : s.get .a2 = BitVec.ofNat 64 (n - k)) (hs : Copied m dst src k s)
    (hra : s.get .ra = ra) (hra4 : ra.toNat % 4 = 0) (ht2 : s.get .t2 = ret) :
    Leads c [.a0, .a1, .a2, .a4] s fun t =>
      t.pc = ra ∧ t.get .a0 = ret ∧ t.mem = moved m dst src 0 n := by
  have hreturn {t : State} (hpct : t.pc = slot b 77) (hrat : t.get .ra = ra) (ht2t : t.get .t2 = ret)
      (hmt : t.mem = moved m dst src 0 n) : Leads c [.a0, .a1, .a2, .a4] t fun u =>
        u.pc = ra ∧ u.get .a0 = ret ∧ u.mem = moved m dst src 0 n := by
    apply Leads.block hc 77 hpct [mv .a0 .t2] rfl rfl rfl
    refine Leads.jr (r := .ra) hc 78 rfl rfl (by simpa [hrat] using hra4) (Leads.done ⟨?_, ?_, hmt⟩)
    · simpa using hrat
    · simpa [Op.eval, Imm.value] using ht2t
  apply Leads.branch (a := slot b 77) hc 70 hpc rfl
  · intro htaken
    rw [get_zero, hleft, Cond.eval, decide_eq_true_eq, ofNat_eq_zero_iff (by omega)] at htaken
    obtain rfl : k = n := by omega
    exact hreturn rfl hra ht2 hs.copied
  · intro hnot
    rw [get_zero, hleft, Cond.eval, decide_eq_false_iff_not, ofNat_eq_zero_iff (by omega)] at hnot
    obtain ⟨u, hrun, hend, hu⟩ : ∃ u, run (s.goto (slot b 71)) [add .a2 .a2 .a0] = some u ∧
        u.get .a2 = dst + BitVec.ofNat 64 (k + (n - k)) ∧ Copied m dst src k u := by
      refine ⟨_, rfl, ?_, hs.atDst, hs.atSrc, hs.copied⟩
      show s.get .a2 + s.get .a0 = _
      rw [hleft, hs.atDst, BitVec.add_comm, offset_succ]
    have hframe {r : Reg} (hr : r ∉ [Reg.a2]) : u.get r = s.get r := run_frame rfl hrun hr
    apply Leads.block hc 71 rfl [add .a2 .a2 .a0] rfl rfl hrun
    refine Leads.trans (copyBytes (R := [.a4, .a1, .a0]) (k := 72) (e := .a2) hc run_copyByte rfl rfl
      (by decide) rfl rfl hsafe hw (by omega) (by omega) hend (hu.goto _)) (by decide) ?_
    rintro t hframet ⟨hpct, ht⟩
    rw [Nat.add_sub_cancel' hk] at ht
    exact hreturn hpct ((hframet .ra (by decide)).trans ((hframe (by decide)).trans hra))
      ((hframet .t2 (by decide)).trans ((hframe (by decide)).trans ht2)) ht.copied

theorem finish {s : State} {k : ℕ} (hc : Located c b (code b ext memcpy)) (hpc : s.pc = slot b 68)
    (hsafe : ForwardSafe dst src n) (hw : dst.toNat + n < 2 ^ 64) (hk : k ≤ n)
    (hleft : s.get .a2 = BitVec.ofNat 64 (n - k)) (hs : Copied m dst src k s)
    (hsaved : Saved ra ret v0 v1 s) (hra4 : ra.toNat % 4 = 0) :
    Leads c [.a0, .a1, .a2, .a4, .s0, .s1] s (Done ra ret v0 v1 (moved m dst src 0 n)) := by
  obtain ⟨u, hrun, hu0, hu1, hmu⟩ : ∃ u, run s restore = some u ∧ u.get .s0 = s.get .t0 ∧
      u.get .s1 = s.get .t1 ∧ u.mem = s.mem := by
    refine ⟨_, rfl, ?_, ?_, rfl⟩ <;> simp [Op.eval, Imm.value]
  have hframe {r : Reg} (hr : r ∉ [Reg.s0, .s1]) : u.get r = s.get r := run_frame rfl hrun hr
  apply Leads.block hc 68 hpc restore rfl rfl hrun
  refine Leads.trans (finishBytes hc rfl hsafe hw hk
    ((hframe (by decide)).trans hleft) ⟨(hframe (by decide)).trans hs.atDst,
      (hframe (by decide)).trans hs.atSrc, hmu.trans hs.copied⟩
    ((hframe (by decide)).trans hsaved.ra) hra4 ((hframe (by decide)).trans hsaved.t2)) (by decide) ?_
  rintro t hframet ⟨hpct, ha0, hmt⟩
  exact Leads.done ⟨hpct, ha0, (hframet .s0 (by decide)).trans (hu0.trans hsaved.t0),
    (hframet .s1 (by decide)).trans (hu1.trans hsaved.t1), hmt⟩

theorem run_lastOfWords {s : State} {k l : ℕ} (hw : dst.toNat + (k + l) < 2 ^ 64)
    (halign : (dst.toNat + k) % 8 = 0) (ha3 : s.get .a3 = dst + BitVec.ofNat 64 k)
    (ha2 : s.get .a2 = BitVec.ofNat 64 l) : ∃ t, run s lastOfWords = some t ∧
      t.get .a3 = dst + BitVec.ofNat 64 (k + 8 * (l / 8)) ∧ t.mem = s.mem := by
  refine ⟨_, rfl, ?_, rfl⟩
  have hround := offset_and_not_mask (a := dst) (k := 3) (by omega) hw halign
  show (s.get .a3 + s.get .a2) &&& ~~~7 = _
  rw [ha3, ha2, offset_succ]
  exact hround

theorem copyWords {s : State} {k : ℕ} (hc : Located c b (code b ext memcpy)) (hpc : s.pc = slot b 59)
    (hsafe : ForwardSafe dst src n) (hw : dst.toNat + n < 2 ^ 64) (hk : k ≤ n)
    (halign : (dst.toNat + k) % 8 = 0) (halign' : (src.toNat + k) % 8 = 0)
    (hleft : s.get .a2 = BitVec.ofNat 64 (n - k)) (ha3 : s.get .a3 = s.get .a0)
    (hs : Copied m dst src k s) (hsaved : Saved ra ret v0 v1 s) (hra4 : ra.toNat % 4 = 0) :
    Leads c [.a0, .a1, .a2, .a3, .a4, .s0, .s1] s (Done ra ret v0 v1 (moved m dst src 0 n)) := by
  obtain ⟨u, hrun, hu3, hmu⟩ := run_lastOfWords (by omega) halign (ha3.trans hs.atDst) hleft
  have hframe {r : Reg} (hr : r ∉ [Reg.a3]) : u.get r = s.get r := run_frame rfl hrun hr
  have hu : Copied m dst src k u :=
    ⟨(hframe (by decide)).trans hs.atDst, (hframe (by decide)).trans hs.atSrc, hmu.trans hs.copied⟩
  have hsavedu : Saved ra ret v0 v1 u :=
    hsaved.keep fun r hr => hframe (by revert r; decide)
  have hleftu : u.get .a2 = BitVec.ofNat 64 (n - k) := (hframe (by decide)).trans hleft
  apply Leads.block hc 59 hpc lastOfWords rfl rfl hrun
  apply Leads.branch (a := slot b 68) hc 61 rfl rfl
  · intro htaken
    exact Leads.widen (finish hc rfl hsafe hw hk hleftu ((hu.goto _).goto _)
      ((hsavedu.goto _).goto _) hra4) (by decide)
  · intro hnot
    have hsome : 0 < (n - k) / 8 := by
      apply Nat.pos_of_ne_zero
      intro hzero
      rw [get_goto, get_goto, hu3, hu.atDst, hzero, Cond.eval, decide_eq_false_iff_not] at hnot
      exact hnot rfl
    obtain ⟨w, hrun', hw2, hmw⟩ : ∃ w, run (u.goto (slot b 62)) [andi .a2 .a2 7] = some w ∧
        w.get .a2 = BitVec.ofNat 64 ((n - k) % 8) ∧ w.mem = u.mem := by
      refine ⟨_, rfl, ?_, rfl⟩
      show u.get .a2 &&& 7 = _
      rw [hleftu, ofNat_and_seven]
    have hframe' {r : Reg} (hr : r ∉ [Reg.a2]) : w.get r = u.get r := run_frame rfl hrun' hr
    apply Leads.block hc 62 rfl [andi .a2 .a2 7] rfl rfl hrun'
    have hwords : Copied m dst src k w := ⟨(hframe' (by decide)).trans hu.atDst,
      (hframe' (by decide)).trans hu.atSrc, hmw.trans hu.copied⟩
    have hloop : Leads c [.a4, .a1, .a0] (w.goto (slot b 63)) fun t =>
        t.pc = slot b 68 ∧ Copied m dst src (k + 8 * ((n - k) / 8)) t := by
      refine Leads.doWhile (I := fun i => Copied m dst src (k + 8 * i)) hc 63 copyWord rfl rfl rfl rfl
        hsome (hwords.goto _) ?_
      intro i t hi hframet ht
      obtain ⟨x, hrunx, hx⟩ := run_copyWord hsafe (by omega) (by omega) (by omega) (by omega) ht
      refine ⟨x, hrunx, ?_, fun a => hx.goto a⟩
      have hlast : x.get .a3 = dst + BitVec.ofNat 64 (k + 8 * ((n - k) / 8)) := by
        rw [run_frame (R := [.a4, .a1, .a0]) rfl hrunx (by decide), hframet .a3 (by decide), get_goto,
          hframe' (by decide), hu3]
      rw [hx.atDst, hlast, Cond.eval, decide_eq_decide, offset_lt_offset (by omega) (by omega)]
      omega
    refine hloop.trans (by decide) ?_
    rintro t hframet ⟨hpct, ht⟩
    have hrest : n - (k + 8 * ((n - k) / 8)) = (n - k) % 8 := by omega
    refine Leads.widen (finish hc hpct hsafe hw (by omega) ?_ ht ?_ hra4) (by decide)
    · rw [hframet .a2 (by decide), get_goto, hw2, hrest]
    · apply hsavedu.keep
      intro r hr
      rw [hframet r (by revert r; decide), get_goto, hframe' (by revert r; decide)]

theorem copyAligned {s : State} {k : ℕ} (hc : Located c b (code b ext memcpy)) (hpc : s.pc = slot b 18)
    (hsafe : ForwardSafe dst src n) (hw : dst.toNat + n < 2 ^ 64) (hk : k ≤ n)
    (halign : (dst.toNat + k) % 8 = 0) (halign' : (src.toNat + k) % 8 = 0)
    (hleft : s.get .a2 = BitVec.ofNat 64 (n - k)) (ha3 : s.get .a3 = s.get .a0)
    (hs : Copied m dst src k s) (hsaved : Saved ra ret v0 v1 s) (hra4 : ra.toNat % 4 = 0) :
    Leads c [.a0, .a1, .a2, .a3, .a4, .a5, .a7, .s0, .s1] s
      (Done ra ret v0 v1 (moved m dst src 0 n)) := by
  obtain ⟨u, hrun, hu7, hmu⟩ : ∃ u, run s [li .a7 128] = some u ∧ u.get .a7 = 128 ∧
      u.mem = s.mem := by
    refine ⟨_, rfl, ?_, rfl⟩
    simp [Op.eval, Imm.value]
  have hframe {r : Reg} (hr : r ∉ [Reg.a7]) : u.get r = s.get r := run_frame rfl hrun hr
  have hu : Copied m dst src k u :=
    ⟨(hframe (by decide)).trans hs.atDst, (hframe (by decide)).trans hs.atSrc, hmu.trans hs.copied⟩
  have hsavedu : Saved ra ret v0 v1 u := hsaved.keep fun r hr => hframe (by revert r; decide)
  have hleftu : u.get .a2 = BitVec.ofNat 64 (n - k) := (hframe (by decide)).trans hleft
  have ha3u : u.get .a3 = u.get .a0 := by rw [hframe (by decide), hframe (by decide), ha3]
  apply Leads.block hc 18 hpc [li .a7 128] rfl rfl hrun
  apply Leads.branch (a := slot b 59) hc 19 rfl rfl
  · intro htaken
    exact Leads.widen (copyWords hc rfl hsafe hw hk halign halign' hleftu ha3u ((hu.goto _).goto _)
      ((hsavedu.goto _).goto _) hra4) (by decide)
  · intro hnot
    have hsome : 0 < (n - k) / 128 := by
      rw [get_goto, get_goto, hleftu, hu7, Cond.eval, decide_eq_false_iff_not, BitVec.lt_def,
        BitVec.toNat_ofNat, show (128 : U64).toNat = 128 from rfl] at hnot
      omega
    obtain ⟨w, hrun', hw2, hw3, hmw⟩ : ∃ w, run (u.goto (slot b 20)) (lastOfMainLoop ++ [nop]) = some w ∧
        w.get .a2 = BitVec.ofNat 64 ((n - k) % 128) ∧
        w.get .a3 = dst + BitVec.ofNat 64 (k + 128 * ((n - k) / 128)) ∧ w.mem = u.mem := by
      have hmask : BitVec.ofNat 64 (n - k) &&& 127 = BitVec.ofNat 64 ((n - k) % 128) :=
        ofNat_and_mask (n - k) (k := 7) (by omega)
      refine ⟨_, rfl, ?_, ?_, rfl⟩
      · show u.get .a2 &&& 127 = _
        rw [hleftu, hmask]
      · have hsplit : BitVec.ofNat 64 (k + 128 * ((n - k) / 128)) + BitVec.ofNat 64 ((n - k) % 128) =
            BitVec.ofNat 64 k + BitVec.ofNat 64 (n - k) := by
          rw [← BitVec.ofNat_add, ← BitVec.ofNat_add]
          congr 1
          omega
        show u.get .a3 + u.get .a2 - (u.get .a2 &&& 127) = _
        rw [ha3u, hu.atDst, hleftu, hmask]
        linear_combination -hsplit
    have hframe' {r : Reg} (hr : r ∉ [Reg.a2, .a3]) : w.get r = u.get r := run_frame rfl hrun' hr
    have hwords : Copied m dst src k w := ⟨(hframe' (by decide)).trans hu.atDst,
      (hframe' (by decide)).trans hu.atSrc, hmw.trans hu.copied⟩
    have hloop : Leads c [.a4, .a5, .s0, .s1, .a0, .a1] (w.goto (slot b 24)) fun t =>
        t.pc = slot b 59 ∧ Copied m dst src (k + 128 * ((n - k) / 128)) t := by
      refine Leads.doWhile (I := fun i => Copied m dst src (k + 128 * i)) hc 24 copySixteen rfl rfl rfl
        rfl hsome (hwords.goto _) ?_
      intro i t hi hframet ht
      have ha7 : t.get .a7 = 128 := by
        rw [hframet .a7 (by decide), get_goto, hframe' (by decide), hu7]
      obtain ⟨x, hrunx, hx⟩ := run_copySixteen hsafe (by omega) (by omega) (by omega) (by omega) ha7 ht
      refine ⟨x, hrunx, ?_, fun a => hx.goto a⟩
      have hlast : x.get .a3 = dst + BitVec.ofNat 64 (k + 128 * ((n - k) / 128)) := by
        rw [run_frame (R := [.a4, .a5, .s0, .s1, .a0, .a1]) rfl hrunx (by decide),
          hframet .a3 (by decide), get_goto, hw3]
      rw [hx.atDst, hlast, Cond.eval, decide_eq_decide, offset_lt_offset (by omega) (by omega)]
      omega
    apply Leads.block hc 20 rfl (lastOfMainLoop ++ [nop]) rfl rfl hrun'
    refine hloop.trans (by decide) ?_
    rintro t hframet ⟨hpct, ht⟩
    refine Leads.widen (copyWords hc hpct hsafe hw (by omega) (by omega) (by omega) ?_ ?_ ht ?_ hra4)
      (by decide)
    · rw [hframet .a2 (by decide), get_goto, hw2]
      congr 1
      omega
    · rw [hframet .a3 (by decide), get_goto, hw3, ht.atDst]
    · apply hsavedu.keep
      intro r hr
      rw [hframet r (by revert r; decide), get_goto, hframe' (by revert r; decide)]

theorem run_preload {s : State} {d k : ℕ} (hsafe : ForwardSafe dst src n) (hw : dst.toNat + n < 2 ^ 64)
    (hn : k + 16 ≤ n) (hd : (src.toNat + k) % 8 = d) (ht3 : s.get .t3 = BitVec.ofNat 64 d)
    (hleft : s.get .a2 = BitVec.ofNat 64 (n - k)) (hs : Copied m dst src k s) :
    ∃ t, run s (preload ++ [.ld .a4 8 .a1]) = some t ∧ Shifting m dst src n d k t ∧
      t.get .a2 = BitVec.ofNat 64 ((n - k) % 16) ∧
      t.get .a3 = dst + BitVec.ofNat 64 (k + 16 * ((n - k) / 16)) ∧
      t.get .a6 = BitVec.ofNat 64 (8 * d) ∧ t.get .a7 = 0 - BitVec.ofNat 64 (8 * d) := by
  have hmis : s.get .a1 &&& 7 = BitVec.ofNat 64 d := by
    have hmask := and_mask (s.get .a1) (k := 3) (by omega)
    rw [hs.atSrc, BitVec.toNat_add, BitVec.toNat_ofNat,
      show (src.toNat + k % 2 ^ 64) % 2 ^ 64 % 2 ^ 3 = d by omega, ← hs.atSrc] at hmask
    exact hmask
  have hbase : (s.get .a1 &&& ~~~7) + BitVec.ofNat 64 d = src + BitVec.ofNat 64 k := by
    rw [← hs.atSrc, ← hmis, BitVec.add_comm, and_add_and_not]
  have hbase8 := aligned_offset hbase (show d ≤ 8 by omega)
  have haligned := aligned_of_offset hbase hd
  have hslli : Op.sll.eval (s.get .t3) ((3 : BitVec 12).signExtend 64) = BitVec.ofNat 64 (8 * d) := by
    rw [ht3]
    exact shiftLeft_ofNat d 3
  have h15 : BitVec.ofNat 64 (n - k) &&& 15 = BitVec.ofNat 64 ((n - k) % 16) :=
    ofNat_and_mask (n - k) (k := 4) (by omega)
  have h16 : BitVec.ofNat 64 (n - k) &&& ~~~15 = BitVec.ofNat 64 (16 * ((n - k) / 16)) := by
    rw [and_not_eq_sub, h15, sub_eq_iff_eq_add, ← BitVec.ofNat_add, Nat.div_add_mod]
  have h0 (a : U64) : a + (0 : BitVec 12).signExtend 64 = a := by simp
  refine ⟨_, run_append.mpr ⟨_, run_cons.mpr ⟨_, rfl, run_cons.mpr ⟨_, rfl, run_cons.mpr ⟨_, rfl,
    run_cons.mpr ⟨_, rfl, run_cons.mpr ⟨_, effect_ld (a := s.get .a1 &&& ~~~7) (h0 _) haligned,
    rfl⟩⟩⟩⟩⟩, run_cons.mpr ⟨_, effect_ld (a := src + BitVec.ofNat 64 (k + 8 - d)) hbase8 ?_, rfl⟩⟩,
    ⟨hs.atDst, hbase, hs.copied, ?_, ?_⟩, ?_, ?_, hslli, ?_⟩
  · rw [← hbase8]
    exact offset_aligned (by omega)
  · intro _
    show load64 s.mem (s.get .a1 &&& ~~~7) >>> (8 * d) = _
    rw [load64_ushiftRight _ _ (by omega), hbase, hs.copied, read_moved_up hsafe le_rfl (by omega)]
  · intro _
    show load64 s.mem _ = _
    rw [hs.copied, load64_moved_up hsafe (by omega) (by omega)]
  · show s.get .a2 &&& 15 = _
    rw [hleft, h15]
  · show (s.get .a2 &&& ~~~15) + s.get .a0 = _
    rw [hleft, h16, hs.atDst, BitVec.add_comm, offset_succ]
  · exact congrArg (0 - ·) hslli

theorem copyUnaligned {s : State} {d k : ℕ} (hc : Located c b (code b ext memcpy))
    (hpc : s.pc = slot b 79) (hsafe : ForwardSafe dst src n) (hw : dst.toNat + n < 2 ^ 64)
    (hk : k + 16 ≤ n) (halign : (dst.toNat + k) % 8 = 0) (hd : (src.toNat + k) % 8 = d) (hd0 : 0 < d)
    (ht3 : s.get .t3 = BitVec.ofNat 64 d) (hleft : s.get .a2 = BitVec.ofNat 64 (n - k))
    (hs : Copied m dst src k s) (hsaved : Saved ra ret v0 v1 s) (hra4 : ra.toNat % 4 = 0) :
    Leads c [.a0, .a1, .a2, .a3, .a4, .a5, .a6, .a7, .s0, .s1] s
      (Done ra ret v0 v1 (moved m dst src 0 n)) := by
  obtain ⟨u, hrun, hu, hu2, hu3, hu6, hu7⟩ := run_preload hsafe hw hk hd ht3 hleft hs
  have hframe {r : Reg} (hr : r ∉ [Reg.a1, .a2, .a3, .a4, .a5, .a6, .a7]) : u.get r = s.get r :=
    run_frame rfl hrun hr
  apply Leads.block hc 79 hpc (preload ++ [.ld .a4 8 .a1]) rfl rfl hrun
  have hloop : Leads c [.s1, .a5, .s0, .a1, .a0, .a4] (u.goto (slot b 87)) fun t =>
      t.pc = slot b 100 ∧ Shifting m dst src n d (k + 16 * ((n - k) / 16)) t := by
    refine Leads.doWhile (I := fun i => Shifting m dst src n d (k + 16 * i)) hc 87 copyShifted rfl rfl
      rfl rfl (show 0 < (n - k) / 16 by omega) ⟨hu.atDst, hu.atSrc, hu.copied, hu.lower, hu.middle⟩ ?_
    intro i t hi hframet ht
    obtain ⟨x, hrunx, hx⟩ := run_copyShifted hsafe (by omega) (by omega) hd0 (by omega) (by omega)
      (aligned_of_offset ht.atSrc (by omega)) ((hframet .a6 (by decide)).trans hu6)
      ((hframet .a7 (by decide)).trans hu7) ht
    refine ⟨x, hrunx, ?_, fun a => ⟨hx.atDst, hx.atSrc, hx.copied, hx.lower, hx.middle⟩⟩
    have hlast : x.get .a3 = dst + BitVec.ofNat 64 (k + 16 * ((n - k) / 16)) := by
      rw [run_frame (R := [.s1, .a5, .s0, .a1, .a0, .a4]) rfl hrunx (by decide),
        hframet .a3 (by decide), get_goto, hu3]
    rw [hx.atDst, hlast, Cond.eval, decide_eq_decide, offset_lt_offset (by omega) (by omega)]
    omega
  refine hloop.trans (by decide) ?_
  rintro t hframet ⟨hpct, ht⟩
  have ht3t : t.get .t3 = BitVec.ofNat 64 d := by
    rw [hframet .t3 (by decide), get_goto, hframe (by decide), ht3]
  obtain ⟨w, hrun', hw', hframew⟩ : ∃ w, run t [add .a1 .a1 .t3] = some w ∧
      Copied m dst src (k + 16 * ((n - k) / 16)) w ∧ ∀ r ∉ [Reg.a1], w.get r = t.get r := by
    refine ⟨_, rfl, ⟨ht.atDst, ?_, ht.copied⟩, fun r hr => get_set_of_mem (.inr (by decide)) hr⟩
    show t.get .a1 + t.get .t3 = _
    rw [ht3t, ht.atSrc]
  apply Leads.block hc 100 hpct [add .a1 .a1 .t3] rfl rfl hrun'
  refine Leads.jump (a := slot b 68) hc 101 rfl rfl ?_
  refine Leads.widen (finish (k := k + 16 * ((n - k) / 16)) hc rfl hsafe hw (by omega) ?_
    ((hw'.goto _).goto _) ?_ hra4) (by decide)
  · rw [get_goto, get_goto, hframew .a2 (by decide), hframet .a2 (by decide), get_goto, hu2]
    congr 1
    omega
  · apply hsaved.keep
    intro r hr
    rw [get_goto, get_goto, hframew r (by revert r; decide), hframet r (by revert r; decide),
      get_goto, hframe (by revert r; decide)]

theorem copyFromAligned {s : State} {k : ℕ} (hc : Located c b (code b ext memcpy))
    (hpc : s.pc = slot b 13) (hsafe : ForwardSafe dst src n) (hw : dst.toNat + n < 2 ^ 64)
    (hk : k + 16 ≤ n) (halign : (dst.toNat + k) % 8 = 0) (hleft : s.get .a2 = BitVec.ofNat 64 (n - k))
    (hs : Copied m dst src k s) (hra : s.get .ra = ra) (ht2 : s.get .t2 = ret)
    (hra4 : ra.toNat % 4 = 0) :
    Leads c [.a0, .a1, .a2, .a3, .a4, .a5, .a6, .a7, .t0, .t1, .t3, .s0, .s1] s
      (Done ra ret (s.get .s0) (s.get .s1) (moved m dst src 0 n)) := by
  obtain ⟨u, hrun, hu3, hut0, hut1, hua3, hmu⟩ : ∃ u, run s save = some u ∧
      u.get .t3 = BitVec.ofNat 64 ((src.toNat + k) % 8) ∧ u.get .t0 = s.get .s0 ∧
      u.get .t1 = s.get .s1 ∧ u.get .a3 = s.get .a0 ∧ u.mem = s.mem := by
    have hmask := and_mask (s.get .a1) (k := 3) (by omega)
    rw [hs.atSrc, BitVec.toNat_add, BitVec.toNat_ofNat,
      show (src.toNat + k % 2 ^ 64) % 2 ^ 64 % 2 ^ 3 = (src.toNat + k) % 8 by omega,
      ← hs.atSrc] at hmask
    refine ⟨_, rfl, hmask, ?_, ?_, ?_, rfl⟩ <;> simp [Op.eval, Imm.value]
  have hframe {r : Reg} (hr : r ∉ [Reg.t3, .t0, .t1, .a3]) : u.get r = s.get r :=
    run_frame rfl hrun hr
  have hu : Copied m dst src k u :=
    ⟨(hframe (by decide)).trans hs.atDst, (hframe (by decide)).trans hs.atSrc, hmu.trans hs.copied⟩
  have hsaved : Saved ra ret (s.get .s0) (s.get .s1) u :=
    ⟨(hframe (by decide)).trans hra, (hframe (by decide)).trans ht2, hut0, hut1⟩
  have hleftu : u.get .a2 = BitVec.ofNat 64 (n - k) := (hframe (by decide)).trans hleft
  apply Leads.block hc 13 hpc save rfl rfl hrun
  apply Leads.branch (a := slot b 79) hc 17 rfl rfl
  · intro htaken
    rw [get_zero, get_goto, hu3, Cond.eval, decide_eq_true_eq, ne_eq,
      ofNat_eq_zero_iff (by omega)] at htaken
    exact Leads.widen (copyUnaligned hc rfl hsafe hw hk halign rfl (by omega) hu3 hleftu
      ((hu.goto _).goto _) ((hsaved.goto _).goto _) hra4) (by decide)
  · intro hnot
    rw [get_zero, get_goto, hu3, Cond.eval, decide_eq_false_iff_not, not_not,
      ofNat_eq_zero_iff (by omega)] at hnot
    have ha3 : u.get .a3 = u.get .a0 := by rw [hua3, hframe (by decide)]
    exact Leads.widen (copyAligned hc rfl hsafe hw (by omega) halign hnot hleftu ha3
      ((hu.goto _).goto _) ((hsaved.goto _).goto _) hra4) (by decide)

def clobbered : List Reg :=
  [.a0, .a1, .a2, .a3, .a4, .a5, .a6, .a7, .t0, .t1, .t2, .t3, .s0, .s1]

theorem run_headroom {s : State} {a : U64} {k l : ℕ} (hk : k ≤ 8) (hl : 8 - k ≤ l)
    (ha0 : s.get .a0 = a) (ha3 : s.get .a3 = BitVec.ofNat 64 k) (ha2 : s.get .a2 = BitVec.ofNat 64 l) :
    ∃ t, run s headroom = some t ∧ t.get .a3 = a + BitVec.ofNat 64 (8 - k) ∧
      t.get .a2 = BitVec.ofNat 64 (l - (8 - k)) ∧ t.mem = s.mem := by
  have hminus : BitVec.signExtend 64 (-8 : BitVec 12) = -8 := rfl
  have h8 : BitVec.ofNat 64 (8 - k) + BitVec.ofNat 64 k = (8 : U64) := by
    rw [← BitVec.ofNat_add, Nat.sub_add_cancel hk]
    rfl
  have hleft : BitVec.ofNat 64 (l - (8 - k)) + BitVec.ofNat 64 (8 - k) = BitVec.ofNat 64 l := by
    rw [← BitVec.ofNat_add, Nat.sub_add_cancel hl]
  refine ⟨_, rfl, ?_, ?_, rfl⟩
  · show s.get .a0 - (s.get .a3 + BitVec.signExtend 64 (-8)) = _
    rw [ha0, ha3, hminus]
    linear_combination -h8
  · show s.get .a2 + (s.get .a3 + BitVec.signExtend 64 (-8)) = _
    rw [ha2, ha3, hminus]
    linear_combination h8 - hleft

theorem copyLong {s : State} (hc : Located c b (code b ext memcpy)) (hpc : s.pc = slot b 3)
    (hsafe : ForwardSafe dst src n) (hw : dst.toNat + n < 2 ^ 64) (hn : 24 ≤ n)
    (hleft : s.get .a2 = BitVec.ofNat 64 n) (hs : Copied m dst src 0 s) (hra : s.get .ra = ra)
    (ht2 : s.get .t2 = ret) (hra4 : ra.toNat % 4 = 0) :
    Leads c clobbered s (Done ra ret (s.get .s0) (s.get .s1) (moved m dst src 0 n)) := by
  have hdst : s.get .a0 = dst := hs.atDst.trans (offset_zero dst)
  obtain ⟨u, hrun, hu3, hmu⟩ : ∃ u, run s [andi .a3 .a0 7] = some u ∧
      u.get .a3 = BitVec.ofNat 64 (dst.toNat % 8) ∧ u.mem = s.mem := by
    refine ⟨_, rfl, ?_, rfl⟩
    rw [← hdst]
    exact and_mask (s.get .a0) (k := 3) (by omega)
  have hframe {r : Reg} (hr : r ∉ [Reg.a3]) : u.get r = s.get r := run_frame rfl hrun hr
  have hu : Copied m dst src 0 u :=
    ⟨(hframe (by decide)).trans hs.atDst, (hframe (by decide)).trans hs.atSrc, hmu.trans hs.copied⟩
  apply Leads.block hc 3 hpc [andi .a3 .a0 7] rfl rfl hrun
  apply Leads.branch (a := slot b 13) hc 4 rfl rfl
  · intro htaken
    rw [get_zero, get_goto, hu3, Cond.eval, decide_eq_true_eq, ofNat_eq_zero_iff (by omega)] at htaken
    have hrest := copyFromAligned (s := (u.goto (slot b 4)).goto (slot b 13)) (k := 0) hc rfl hsafe hw (by omega) (by omega) ((hframe (by decide)).trans hleft)
      ((hu.goto _).goto _) ((hframe (by decide)).trans hra) ((hframe (by decide)).trans ht2) hra4
    rw [get_goto, get_goto, get_goto, get_goto, hframe (by decide), hframe (by decide)] at hrest
    exact hrest.widen (by decide)
  · intro hnot
    obtain ⟨w, hrun', hw3, hw2, hmw⟩ := run_headroom (s := (u.goto (slot b 4)).goto (slot b 5))
      (k := dst.toNat % 8) (l := n) (by omega) (by omega) ((hframe (by decide)).trans hdst) hu3
      ((hframe (by decide)).trans hleft)
    have hframe' {r : Reg} (hr : r ∉ [Reg.a2, .a3]) : w.get r = s.get r :=
      (run_frame rfl hrun' hr).trans (hframe (r := r) (by revert hr; simp_all))
    have hstart : Copied m dst src 0 w := ⟨(hframe' (by decide)).trans hs.atDst,
      (hframe' (by decide)).trans hs.atSrc, (hmw.trans hmu).trans hs.copied⟩
    apply Leads.block hc 5 rfl headroom rfl rfl hrun'
    refine Leads.trans (copyBytes (R := [.a5, .a1, .a0]) (l := 8 - dst.toNat % 8) (k := 8) (e := .a3) hc
      run_copyHeadByte rfl rfl (by decide) rfl rfl hsafe hw (by omega) (by omega)
      (by rw [get_goto, hw3, Nat.zero_add]) (hstart.goto _)) (by decide) ?_
    rintro t hframet ⟨hpct, ht⟩
    have hkeep {r : Reg} (hr : r ∉ [Reg.a0, .a1, .a2, .a3, .a5]) : t.get r = s.get r := by
      rw [hframet r fun h => hr ((by decide : [Reg.a5, .a1, .a0] ⊆ [.a0, .a1, .a2, .a3, .a5]) h),
        get_goto, hframe' fun h => hr ((by decide : [Reg.a2, .a3] ⊆ [.a0, .a1, .a2, .a3, .a5]) h)]
    have hrest := copyFromAligned (k := 0 + (8 - dst.toNat % 8)) hc hpct hsafe hw
      (by omega) (by omega) (by rw [hframet .a2 (by decide), get_goto, hw2, Nat.zero_add]) ht
      ((hkeep (by decide)).trans hra) ((hkeep (by decide)).trans ht2) hra4
    rw [hkeep (r := .s0) (by decide), hkeep (r := .s1) (by decide)] at hrest
    exact hrest.widen (by decide)

theorem memcpy_copies {s : State} (hc : Located c b (code b ext memcpy)) (hpc : s.pc = b)
    (hra : (s.get .ra).toNat % 4 = 0) (hw : (s.get .a0).toNat + (s.get .a2).toNat < 2 ^ 64)
    (hsafe : ForwardSafe (s.get .a0) (s.get .a1) (s.get .a2).toNat) :
    Leads c clobbered s (Done (s.get .ra) (s.get .a0) (s.get .s0) (s.get .s1)
      (moved s.mem (s.get .a0) (s.get .a1) 0 (s.get .a2).toNat)) := by
  obtain ⟨u, hrun, hu4, hut2, hmu⟩ : ∃ u, run s entry = some u ∧ u.get .a4 = 24 ∧
      u.get .t2 = s.get .a0 ∧ u.mem = s.mem := by
    refine ⟨_, rfl, ?_, ?_, rfl⟩ <;> simp [Op.eval, Imm.value]
  have hframe {r : Reg} (hr : r ∉ [Reg.a4, .t2]) : u.get r = s.get r := run_frame rfl hrun hr
  have hn : u.get .a2 = BitVec.ofNat 64 (s.get .a2).toNat := by
    rw [hframe (by decide)]
    simp
  have hu : Copied s.mem (s.get .a0) (s.get .a1) 0 u := by
    refine ⟨?_, ?_, hmu.trans moved_empty.symm⟩
    · rw [hframe (by decide), offset_zero]
    · rw [hframe (by decide), offset_zero]
  rw [← slot_zero b] at hpc
  apply Leads.block hc 0 hpc entry rfl rfl hrun
  apply Leads.branch (a := slot b 70) hc 2 rfl rfl
  · intro htaken
    refine Leads.trans (finishBytes (k := 0) hc rfl hsafe hw (Nat.zero_le _) hn ((hu.goto _).goto _)
      (hframe (by decide)) hra hut2) (by decide) ?_
    rintro t hframet ⟨hpct, ha0, hmt⟩
    exact Leads.done ⟨hpct, ha0, (hframet .s0 (by decide)).trans (hframe (by decide)),
      (hframet .s1 (by decide)).trans (hframe (by decide)), hmt⟩
  · intro hnot
    have hlong : 24 ≤ (s.get .a2).toNat := by
      rw [get_goto, get_goto, hu4, hframe (by decide), Cond.eval, decide_eq_false_iff_not,
        BitVec.lt_def, show (24 : U64).toNat = 24 from rfl] at hnot
      omega
    have hrest := copyLong (s := (u.goto (slot b 2)).goto (slot b 3)) hc rfl hsafe hw
      hlong hn ((hu.goto _).goto _) (hframe (by decide)) hut2 hra
    rw [get_goto, get_goto, get_goto, get_goto, hframe (by decide), hframe (by decide)] at hrest
    exact hrest

end Wasrisc.MemopsMemcpy
