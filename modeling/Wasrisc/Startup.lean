import Wasrisc.StartupText
import Wasrisc.LinkerLayout

namespace Wasrisc.Startup

open AddressedMemory HostMemory LinkerLayout MemoryWindows WordBytes Rv64 Assembler StartupText Instr

variable {c : Code} {b : U64} {ext : Sym → U64} {l : List (Instr U64)}

theorem getElem?_of_slice {blk : List (Instr U64)} {k i n : ℕ} (h : (l.drop k).take n = blk)
    (hi : i < n) : l[k + i]? = blk[i]? := by
  rw [← List.getElem?_drop, ← List.getElem?_take_of_lt hi, h]

theorem slice_of_slice {blk : List (Instr U64)} {k j m n : ℕ} (h : (l.drop k).take n = blk)
    (hm : j + m ≤ n) : (l.drop (k + j)).take m = (blk.drop j).take m := by
  rw [← h, List.drop_take, List.take_take, List.drop_drop, Nat.min_eq_left (by omega)]

structure Wiped (m : Ram) (lo hi : U64) (w i : ℕ) (s : State) : Prop where
  pointer : s.get .t0 = lo + BitVec.ofNat 64 (w * i)
  limit : s.get .t1 = hi
  wiped : s.mem = overwrite m lo 0 (w * i) fun _ => 0

theorem Wiped.geu {m : Ram} {lo hi : U64} {w i n : ℕ} {t : State} (ht : Wiped m lo hi w i t)
    (hw : lo.toNat + w * n < 2 ^ 64) (hin : i ≤ n) (hround : lo.toNat + w * i < hi.toNat ↔ i < n) :
    Cond.geu.eval (t.get .t0) (t.get .t1) = decide (i = n) := by
  have hmul := Nat.mul_le_mul_left w hin
  rw [Cond.eval, ht.pointer, ht.limit, decide_eq_decide, BitVec.le_def, add_toNat (by omega)]
  omega

theorem run_wipe {store : Instr U64} {m : Ram} {lo hi : U64} {w i : ℕ} {t : State} (hw12 : w < 2048)
    (ht : Wiped m lo hi w i t)
    (hstore : effect t store = some (t.store (overwrite m lo 0 (w * (i + 1)) fun _ => 0))) :
    ∃ u, run t (wipe store (BitVec.ofNat 12 w)) = some u ∧ ∀ a, Wiped m lo hi w (i + 1) (u.goto a) := by
  refine ⟨_, run_cons.mpr ⟨_, hstore, rfl⟩, fun a => ⟨?_, ?_, ?_⟩⟩
  · simp [Op.eval, Imm.value, signExtend_imm hw12, ht.pointer, offset_succ, Nat.mul_succ]
  · simp [ht.limit]
  · simp

theorem clearBss_clears (lo hi : U64) {store : Instr U64} {w n k : ℕ} {s : State}
    (hc : Located c b l)
    (hslice : (l.drop k).take 8 =
      [.auipc .t0 lo, .opImm .add .t0 .t0 (.pcrelLo (slot b k) lo), .auipc .t1 hi,
        .opImm .add .t1 .t1 (.pcrelLo (slot b (k + 2)) hi), bgeu .t0 .t1 (slot b (k + 8))] ++
        wipe store (BitVec.ofNat 12 w) ++ [j (slot b (k + 4))])
    (hpc : s.pc = slot b k) (hstraight : store.straight [.t0, .t1] = true) (hw12 : w < 2048)
    (hw : lo.toNat + w * n < 2 ^ 64) (hround : ∀ i ≤ n, lo.toNat + w * i < hi.toNat ↔ i < n)
    (hstore : ∀ i t, i < n → Wiped s.mem lo hi w i t →
      effect t store = some (t.store (overwrite s.mem lo 0 (w * (i + 1)) fun _ => 0))) :
    Leads c [.t0, .t1] s fun t => t.pc = slot b (k + 8) ∧ t.mem = fill s.mem lo (w * n) 0 := by
  have hwipe : (wipe store (BitVec.ofNat 12 w)).all (·.straight [.t0, .t1]) = true := by
    rw [wipe, List.all_cons, hstraight]
    rfl
  have hat {i : ℕ} (hi : i < 8) := getElem?_of_slice hslice hi
  apply Leads.la hc k hpc (hat (i := 0) (by decide)) (hat (i := 1) (by decide)) (by decide) (by decide)
  apply Leads.la hc (k + 2) rfl (hat (i := 2) (by decide)) (hat (i := 3) (by decide)) (by decide)
    (by decide)
  have hloop : Leads c [.t0, .t1] (((s.set .t0 lo).goto (slot b (k + 2))).set .t1 hi |>.goto (slot b (k + 4)))
      fun t => t.pc = slot b (k + 4) ∧ Wiped s.mem lo hi w n t := by
    apply Leads.loop (I := fun i t => t.pc = slot b (k + 4) ∧ Wiped s.mem lo hi w i t)
    · rintro i t hi - ⟨hpct, ht⟩
      have hgeu := ht.geu hw hi.le (hround i hi.le)
      apply Leads.branch hc (k + 4) hpct (hat (i := 4) (by decide))
      · intro htaken
        rw [htaken, eq_comm, decide_eq_true_eq] at hgeu
        omega
      · intro hnot
        obtain ⟨u, hrun, hu⟩ := run_wipe hw12 ht (hstore i t hi ht)
        refine Leads.block hc (k + 5) rfl _ ?_ ?_ (run_goto (R := [.t0, .t1]) ?_ hrun _) ?_
        · exact (slice_of_slice hslice (by decide : 5 + 2 ≤ 8)).trans rfl
        · exact hwipe
        · exact hwipe
        · refine Leads.jump hc (k + 7) rfl (hat (i := 7) (by decide)) (Leads.done ⟨rfl, hu _⟩)
    · refine ⟨rfl, ?_, ?_, ?_⟩
      · simp
      · simp
      · simp [overwrite_empty]
  refine hloop.trans (List.Subset.refl _) ?_
  rintro t - ⟨hpct, ht⟩
  apply Leads.branch hc (k + 4) hpct (hat (i := 4) (by decide))
  · intro htaken
    apply Leads.done
    exact ⟨rfl, ht.wiped.trans (overwrite_const 0 (w * n))⟩
  · intro hnot
    rw [ht.geu hw le_rfl (hround n le_rfl)] at hnot
    simp at hnot

theorem wipe_byte {m : Ram} {lo hi : U64} {i : ℕ} {t : State} (ht : Wiped m lo hi 1 i t)
    (hw : lo.toNat + (i + 1) < 2 ^ 64) :
    effect t (.sb .zero 0 .t0) = some (t.store (overwrite m lo 0 (1 * (i + 1)) fun _ => 0)) := by
  have hzero : BitVec.signExtend 64 (0 : BitVec 12) = BitVec.ofNat 64 0 := rfl
  rw [effect, ht.pointer, ht.wiped, update_eq_write, hzero, offset_zero,
    write_overwrite_up (l := 1) rfl (by omega) (by omega)]
  · rfl
  · intro j hj
    simp

theorem wipe_word {m : Ram} {lo hi : U64} {i : ℕ} {t : State} (ht : Wiped m lo hi 8 i t)
    (halign : lo.toNat % 8 = 0) (hw : lo.toNat + 8 * (i + 1) < 2 ^ 64) :
    effect t (.sd .zero 0 .t0) = some (t.store (overwrite m lo 0 (8 * (i + 1)) fun _ => 0)) := by
  have hzero : BitVec.signExtend 64 (0 : BitVec 12) = BitVec.ofNat 64 0 := rfl
  have hword : (0 : U64) = splat 0 := rfl
  rw [effect_sd (a := lo + BitVec.ofNat 64 (8 * i)), get_zero, hword, store64_splat, ht.wiped,
    write_overwrite_up (l := 8) rfl (by omega) (by omega)]
  · rfl
  · intro j hj
    exact List.getElem_replicate _
  · rw [ht.pointer, hzero, offset_zero]
  · rw [add_toNat (by omega)]
    omega

/-- The bytes from `lo` to `hi` are zero in `m'`, and those outside `lo`, …, `limit - 1` are as in `m`. -/
structure Cleared (m m' : Ram) (lo hi limit : ℕ) : Prop where
  zero : ∀ a : U64, lo ≤ a.toNat → a.toNat < hi → m' a = 0
  kept : ∀ a : U64, a.toNat < lo ∨ limit ≤ a.toNat → m' a = m a

theorem cleared_fill {m : Ram} {lo : U64} {n hi limit : ℕ} (hw : lo.toNat + n ≤ 2 ^ 64)
    (hhi : hi ≤ lo.toNat + n) (hlimit : lo.toNat + n ≤ limit) :
    Cleared m (fill m lo n 0) lo.toNat hi limit := by
  constructor
  · intro a hlo hlt
    apply fill_of_mem
    rw [mem_span_iff_of_le hw]
    omega
  · intro a ha
    apply fill_of_notMem
    rw [mem_span_iff_of_le hw]
    omega

structure Entered (main ra : U64) (m : Ram) (s : State) : Prop where
  pc : s.pc = main
  ra : s.get .ra = ra
  mem : s.mem = m

theorem callMain (main : U64) {k : ℕ} {s : State} (hc : Located c b l)
    (hcall : (l.drop k).take 2 = [.auipc .ra main, .jalr .ra .ra (.pcrelLo (slot b k) main)])
    (hmain : main.toNat % 4 = 0) (hpc : s.pc = slot b k) :
    Leads c [.ra] s (Entered main (slot b (k + 2)) s.mem) := by
  apply Leads.call hc k hpc (getElem?_of_slice (i := 0) hcall (by decide))
    (getElem?_of_slice (i := 1) hcall (by decide)) (by decide) hmain
  apply Leads.done
  refine ⟨rfl, ?_, ?_⟩ <;> simp

theorem clearBytes_enters (lo hi main : U64) {k : ℕ} {s : State} (hc : Located c b l)
    (hslice : (l.drop k).take 8 =
      [.auipc .t0 lo, .opImm .add .t0 .t0 (.pcrelLo (slot b k) lo), .auipc .t1 hi,
        .opImm .add .t1 .t1 (.pcrelLo (slot b (k + 2)) hi), bgeu .t0 .t1 (slot b (k + 8))] ++
        wipe (.sb .zero 0 .t0) 1 ++ [j (slot b (k + 4))])
    (hcall : (l.drop (k + 8)).take 2 =
      [.auipc .ra main, .jalr .ra .ra (.pcrelLo (slot b (k + 8)) main)])
    (hmain : main.toNat % 4 = 0) (hpc : s.pc = slot b k) (hle : lo.toNat ≤ hi.toNat) :
    Leads c [.t0, .t1, .ra] s
      (Entered main (slot b (k + 10)) (fill s.mem lo (hi.toNat - lo.toNat) 0)) := by
  have hhi := hi.isLt
  refine Leads.trans (clearBss_clears lo hi (w := 1) (n := hi.toNat - lo.toNat) hc hslice hpc rfl (by decide)
    (by omega) (fun i hi => by omega) fun i t hi ht => wipe_byte ht (by omega)) (by decide) ?_
  rintro t - ⟨hpct, hmt⟩
  rw [Nat.one_mul] at hmt
  rw [← hmt]
  exact (callMain main hc hcall hmain hpct).widen (by decide)

theorem zkvm_enters {s : State} (hc : Located c b (code b ext zkvm)) (hpc : s.pc = b)
    (hmain : (ext .main).toNat % 4 = 0) (hle : (ext ._bss_start).toNat ≤ (ext ._bss_end).toNat) :
    Leads c [.sp, .t0, .t1, .ra] s fun t => t.get .sp = ext ._init_stack_top ∧
      Entered (ext .main) (slot b 12)
        (fill s.mem (ext ._bss_start) ((ext ._bss_end).toNat - (ext ._bss_start).toNat) 0) t := by
  rw [← slot_zero b] at hpc
  apply Leads.la (a := ext ._init_stack_top) hc 0 hpc rfl rfl (by decide) (by decide)
  refine Leads.trans (clearBytes_enters (ext ._bss_start) (ext ._bss_end) (ext .main) (k := 2) hc rfl
    rfl hmain rfl hle) (by decide) ?_
  intro t hframe ht
  rw [mem_goto, mem_set] at ht
  apply Leads.done
  refine ⟨?_, ht⟩
  rw [hframe .sp (by decide)]
  simp

theorem riscvWamrQemu_enters {s : State} (hc : Located c b (code b ext riscvWamrQemu))
    (hpc : s.pc = b) (hmain : (ext .main).toNat % 4 = 0)
    (hle : (ext ._bss_start).toNat ≤ (ext ._bss_end).toNat) :
    Leads c [.sp, .t0, .t1, .ra] s fun t => t.get .sp = ext ._stack_top ∧
      Entered (ext .main) (slot b 12)
        (fill s.mem (ext ._bss_start) ((ext ._bss_end).toNat - (ext ._bss_start).toNat) 0) t := by
  rw [← slot_zero b] at hpc
  apply Leads.la (a := ext ._stack_top) hc 0 hpc rfl rfl (by decide) (by decide)
  refine Leads.trans (clearBytes_enters (ext ._bss_start) (ext ._bss_end) (ext .main) (k := 2) hc rfl
    rfl hmain rfl hle) (by decide) ?_
  intro t hframe ht
  rw [mem_goto, mem_set] at ht
  apply Leads.done
  refine ⟨?_, ht⟩
  rw [hframe .sp (by decide)]
  simp

theorem riscvQemu_enters {s : State} {n : ℕ} (hc : Located c b (code b ext riscvQemu))
    (hpc : s.pc = b) (hmain : (ext .main).toNat % 4 = 0) (halign : (ext ._bss_start).toNat % 8 = 0)
    (hle : (ext ._bss_start).toNat ≤ (ext ._bss_end).toNat)
    (hn : n = ((ext ._bss_end).toNat - (ext ._bss_start).toNat + 7) / 8)
    (hw : (ext ._bss_start).toNat + 8 * n < 2 ^ 64) :
    Leads c [.sp, .gp, .t0, .t1, .ra] s fun t => t.get .sp = ext ._stack_top ∧
      t.get .gp = ext .__global_pointer ∧ Entered (ext .main) (slot b 14) (fill s.mem (ext ._bss_start) (8 * n) 0) t := by
  rw [← slot_zero b] at hpc
  apply Leads.la (a := ext ._stack_top) hc 0 hpc rfl rfl (by decide) (by decide)
  apply Leads.la (a := ext .__global_pointer) hc 2 rfl rfl rfl (by decide) (by decide)
  refine Leads.trans (clearBss_clears (ext ._bss_start) (ext ._bss_end) (w := 8) (n := n) (k := 4)
    hc rfl rfl rfl (by decide) hw (fun i hi => by omega) ?_) (by decide) ?_
  · intro i t hi ht
    exact wipe_word ht halign (by omega)
  · rintro t hframe ⟨hpct, hmt⟩
    refine Leads.trans (callMain (ext .main) (k := 12) hc rfl hmain hpct) (by decide) ?_
    intro u hframeu hu
    rw [hmt, mem_goto, mem_set, mem_goto, mem_set] at hu
    apply Leads.done
    refine ⟨?_, ?_, hu⟩
    · rw [hframeu .sp (by decide), hframe .sp (by decide)]
      simp
    · rw [hframeu .gp (by decide), hframe .gp (by decide)]
      simp

structure AsksShutdown (c : Code) (s : State) : Prop where
  call : c s.pc = some .ecall
  extension : s.get .a7 = 0x53525354
  function : s.get .a6 = 0
  resetType : s.get .a0 = 0
  resetReason : s.get .a1 = 0

theorem systemReset_asks {k : ℕ} {s : State} (hc : Located c b l)
    (hslice : (l.drop k).take 6 = systemReset ++ [.ecall]) (hpc : s.pc = slot b k) :
    Leads c [.a0, .a1, .a6, .a7] s fun t => AsksShutdown c t ∧ t.mem = s.mem := by
  obtain ⟨t, hrun, h7, h6, h0, h1, hm⟩ : ∃ t, run s systemReset = some t ∧ t.get .a7 = 0x53525354 ∧
      t.get .a6 = 0 ∧ t.get .a0 = 0 ∧ t.get .a1 = 0 ∧ t.mem = s.mem := by
    refine ⟨_, rfl, ?_, ?_, ?_, ?_, ?_⟩
    · simp [Op.eval, Imm.value]
    · simp [Op.eval, Imm.value]
    · simp [Op.eval, Imm.value]
    · simp [Op.eval, Imm.value]
    · simp
  apply Leads.block hc k hpc systemReset (slice_of_slice (j := 0) hslice (by decide)) rfl hrun
  apply Leads.done
  refine ⟨⟨?_, h7, h6, h0, h1⟩, hm⟩
  have hecall := getElem?_of_slice (i := 5) hslice (by decide)
  obtain ⟨hk, hi⟩ := List.getElem?_eq_some_iff.mp hecall
  exact (hc (k + 5) hk).trans (congrArg some hi)

def bssArea (image : VirtImage) : Extent :=
  image.bss.extent (nextFree virtOrigin [image.text, image.rodata, image.data])

structure ZkvmFirmware (c : Code) where
  image : ZkvmImage
  accepted : image.Accepted
  base : U64
  ext : Sym → U64
  bss_start : ext ._bss_start = BitVec.ofNat 64 image.bssArea.start
  bss_end : ext ._bss_end = BitVec.ofNat 64 image.bssArea.finish
  stack_top : ext ._init_stack_top = BitVec.ofNat 64 image.initStackTop
  main_aligned : (ext .main).toNat % 4 = 0
  located : Located c base (code base ext StartupText.zkvm)

structure VirtFirmware (script : VirtScript) (text : List (Line Sym)) (c : Code) where
  image : VirtImage
  accepted : image.Accepted script
  base : U64
  ext : Sym → U64
  bss_start : ext ._bss_start = BitVec.ofNat 64 (bssArea image).start
  bss_end : ext ._bss_end = BitVec.ofNat 64 image.bssEnd
  stack_top : ext ._stack_top = BitVec.ofNat 64 (image.stackTop script)
  global_pointer : ext .__global_pointer = BitVec.ofNat 64 image.globalPointer
  main_aligned : (ext .main).toNat % 4 = 0
  located : Located c base (code base ext text)

theorem dvd_alignUp (dot align : ℕ) : align ∣ alignUp dot align := Dvd.intro_left _ rfl

theorem bssArea_start_le (image : VirtImage) : (bssArea image).start ≤ image.bssEnd := Nat.le_add_right _ _

section Virt

variable {script : VirtScript} {text : List (Line Sym)} (F : VirtFirmware script text c)
  (hscript : script.ramLength ≤ 2048 * 2 ^ 20 ∧ script.heapLength ≤ 1024 * 2 ^ 20)

include hscript

theorem VirtFirmware.bssEnd_le : F.image.bssEnd ≤ 0x100200000 := by
  have haccepted : F.image.bssEnd ≤ virtOrigin + script.ramLength := F.accepted
  unfold virtOrigin at haccepted
  omega

theorem VirtFirmware.bss_start_toNat : (F.ext ._bss_start).toNat = (bssArea F.image).start := by
  have hle := bssArea_start_le F.image
  have hend := F.bssEnd_le hscript
  rw [F.bss_start, BitVec.toNat_ofNat, Nat.mod_eq_of_lt (by omega)]

theorem VirtFirmware.bss_end_toNat : (F.ext ._bss_end).toNat = F.image.bssEnd := by
  have hend := F.bssEnd_le hscript
  rw [F.bss_end, BitVec.toNat_ofNat, Nat.mod_eq_of_lt (by omega)]

theorem VirtFirmware.stack_top_toNat : (F.ext ._stack_top).toNat = F.image.stackTop script := by
  have hend := F.bssEnd_le hscript
  have hheap := F.image.heapStart_lt
  rw [F.stack_top, BitVec.toNat_ofNat, Nat.mod_eq_of_lt]
  rw [VirtImage.stackTop, VirtImage.heapEnd, virtStackLength]
  omega

theorem VirtFirmware.global_pointer_toNat :
    (F.ext .__global_pointer).toNat = F.image.globalPointer := by
  have hend := F.bssEnd_le hscript
  have htext := F.image.textArea_le_bssEnd
  have halign : alignUp F.image.textArea.finish 8 < F.image.textArea.finish + 8 :=
    alignUp_lt (by decide)
  rw [F.global_pointer, BitVec.toNat_ofNat, Nat.mod_eq_of_lt]
  rw [VirtImage.globalPointer]
  omega

end Virt

theorem zkvm_stays {u v : State} (hc : Located c b (code b ext zkvm)) (hpc : u.pc = slot b 12)
    (h : Reaches c u v) : v = u := by
  apply reaches_of_fixed _ h
  rw [Leads.fetch (i := .jal .zero (slot b 12)) hc 12 hpc rfl, exec, set_zero, ← hpc]
  rfl

theorem located_single {b : U64} {l : List (Instr U64)} (h : b.toNat + 4 * l.length ≤ 2 ^ 64) :
    Located (image [(b, l)]) b l :=
  located_image (List.pairwise_singleton _ (b, l)) (by simpa using h) List.mem_cons_self

def smallZkvmImage : ZkvmImage := ⟨wordSection 0x800, wordSection 0x2000⟩

def smallZkvmExt : Sym → U64
  | ._init_stack_top => BitVec.ofNat 64 smallZkvmImage.initStackTop
  | ._bss_start => BitVec.ofNat 64 smallZkvmImage.bssArea.start
  | ._bss_end => BitVec.ofNat 64 smallZkvmImage.bssArea.finish
  | .main => 0x80001000
  | _ => 0

def smallZkvmCode : Code := image [(0x80000000, code 0x80000000 smallZkvmExt StartupText.zkvm)]

def smallZkvm : ZkvmFirmware smallZkvmCode where
  image := smallZkvmImage
  accepted := (by decide : smallZkvmImage.bssArea.finish ≤ zkvmOrigin + zkvmLength)
  base := 0x80000000
  ext := smallZkvmExt
  bss_start := rfl
  bss_end := rfl
  stack_top := rfl
  main_aligned := by decide
  located := located_single (by decide)

def smallVirtExt (script : VirtScript) : Sym → U64
  | ._stack_top => BitVec.ofNat 64 (smallImage.stackTop script)
  | ._bss_start => BitVec.ofNat 64 (bssArea smallImage).start
  | ._bss_end => BitVec.ofNat 64 smallImage.bssEnd
  | .__global_pointer => BitVec.ofNat 64 smallImage.globalPointer
  | .main => 0x80201000
  | _ => 0

def smallVirtCode (script : VirtScript) (text : List (Line Sym)) : Code :=
  image [(0x80200000, code 0x80200000 (smallVirtExt script) text)]

def smallVirt (script : VirtScript) (text : List (Line Sym)) (haccepted : smallImage.Accepted script)
    (hlength : (code 0x80200000 (smallVirtExt script) text).length ≤ 0x100) :
    VirtFirmware script text (smallVirtCode script text) where
  image := smallImage
  accepted := haccepted
  base := 0x80200000
  ext := smallVirtExt script
  bss_start := rfl
  bss_end := rfl
  stack_top := rfl
  global_pointer := rfl
  main_aligned := by simp [smallVirtExt]
  located := located_single (by
    have hbase : (0x80200000 : U64).toNat = 0x80200000 := rfl
    omega)

def smallRiscvQemuCode : Code := smallVirtCode LinkerLayout.riscvQemu StartupText.riscvQemu

def smallRiscvQemu : VirtFirmware LinkerLayout.riscvQemu StartupText.riscvQemu smallRiscvQemuCode :=
  smallVirt LinkerLayout.riscvQemu StartupText.riscvQemu
    (by decide : smallImage.bssEnd ≤ virtOrigin + LinkerLayout.riscvQemu.ramLength) (by decide)

def smallRiscvWamrQemuCode : Code :=
  smallVirtCode LinkerLayout.riscvWamrQemu StartupText.riscvWamrQemu

def smallRiscvWamrQemu :
    VirtFirmware LinkerLayout.riscvWamrQemu StartupText.riscvWamrQemu smallRiscvWamrQemuCode :=
  smallVirt LinkerLayout.riscvWamrQemu StartupText.riscvWamrQemu
    (by decide : smallImage.bssEnd ≤ virtOrigin + LinkerLayout.riscvWamrQemu.ramLength) (by decide)

def reset (pc : U64) : State := ⟨pc, fun _ => 0xdead, fun _ => 0xff⟩

/-- startup.S of the zkvm platform: `main` is entered on the linked stack with `.bss` cleared and
nothing else of the memory changed, and where it returns, the machine stays there. -/
theorem zkvm_boots (F : ZkvmFirmware c) {s : State} (hpc : s.pc = F.base) :
    ∃ t, Reaches c s t ∧ t.pc = F.ext .main ∧ (t.get .sp).toNat = F.image.initStackTop ∧
      (t.get .sp).toNat % 8 = 0 ∧
      Cleared s.mem t.mem F.image.bssArea.start F.image.bssArea.finish F.image.bssArea.finish ∧
      ∀ u, Reaches c t u → u.pc = t.get .ra → ∀ v, Reaches c u v → v = u := by
  have haccepted : F.image.bssArea.finish ≤ 0xC0000000 := F.accepted
  have hle : F.image.bssArea.start ≤ F.image.bssArea.finish := Nat.le_add_right _ _
  have hlo : (F.ext ._bss_start).toNat = F.image.bssArea.start := by
    rw [F.bss_start, BitVec.toNat_ofNat, Nat.mod_eq_of_lt (by omega)]
  have hhi : (F.ext ._bss_end).toNat = F.image.bssArea.finish := by
    rw [F.bss_end, BitVec.toNat_ofNat, Nat.mod_eq_of_lt (by omega)]
  have hstack : F.image.initStackTop < F.image.bssArea.finish + 8 + 0x100000 :=
    Nat.add_lt_add_right (alignUp_lt (by decide)) _
  have halign : F.image.initStackTop % 8 = 0 := by
    have hdvd := dvd_alignUp F.image.bssArea.finish 8
    rw [ZkvmImage.initStackTop]
    omega
  obtain ⟨t, hrun, -, hsp, ht⟩ := zkvm_enters F.located hpc F.main_aligned (by omega)
  have hspn : (t.get .sp).toNat = F.image.initStackTop := by
    rw [hsp, F.stack_top, BitVec.toNat_ofNat, Nat.mod_eq_of_lt (by omega)]
  refine ⟨t, hrun, ht.pc, hspn, by omega, ?_, ?_⟩
  · rw [ht.mem, ← hlo, ← hhi]
    apply cleared_fill <;> omega
  · intro u _ hu v hv
    exact zkvm_stays F.located (hu.trans ht.ra) hv

theorem zkvm_boots_small : ∃ t, Reaches smallZkvmCode (reset 0x80000000) t ∧
    t.pc = smallZkvm.ext .main ∧ (t.get .sp).toNat = smallZkvm.image.initStackTop ∧
    (t.get .sp).toNat % 8 = 0 ∧
    Cleared (reset 0x80000000).mem t.mem smallZkvm.image.bssArea.start smallZkvm.image.bssArea.finish
      smallZkvm.image.bssArea.finish ∧
    ∀ u, Reaches smallZkvmCode t u → u.pc = t.get .ra → ∀ v, Reaches smallZkvmCode u v → v = u :=
  zkvm_boots smallZkvm rfl

/-- startup.S of the riscv-qemu platform: it stores doublewords, but what it clears beyond `.bss` is
less than one of them and lies below the heap. Whatever `main` does and returns, the machine then
asks for a shutdown. -/
theorem riscvQemu_boots (F : VirtFirmware LinkerLayout.riscvQemu StartupText.riscvQemu c)
    (hbss : 8 ∣ (bssArea F.image).start) {s : State} (hpc : s.pc = F.base) :
    ∃ t, Reaches c s t ∧ t.pc = F.ext .main ∧
      (t.get .sp).toNat = F.image.stackTop LinkerLayout.riscvQemu ∧ (t.get .sp).toNat % 16 = 0 ∧
      (t.get .gp).toNat = F.image.globalPointer ∧
      (∃ n, (bssArea F.image).start + 8 * n < F.image.bssEnd + 8 ∧
        F.image.bssEnd ≤ (bssArea F.image).start + 8 * n ∧
        (bssArea F.image).start + 8 * n ≤ F.image.heapStart ∧
        Cleared s.mem t.mem (bssArea F.image).start ((bssArea F.image).start + 8 * n)
          ((bssArea F.image).start + 8 * n)) ∧
      ∀ u, Reaches c t u → u.pc = t.get .ra →
        ∃ v, Reaches c s v ∧ AsksShutdown c v ∧ v.mem = u.mem := by
  have hscript : LinkerLayout.riscvQemu.ramLength ≤ 2048 * 2 ^ 20 ∧
      LinkerLayout.riscvQemu.heapLength ≤ 1024 * 2 ^ 20 := by decide
  have hend := F.bssEnd_le hscript
  have hle := bssArea_start_le F.image
  have hlo := F.bss_start_toNat hscript
  have hhi := F.bss_end_toNat hscript
  have hheap := F.image.bssEnd_le_heapStart
  have hheap8 : 0x1000 ∣ F.image.heapStart := dvd_alignUp _ _
  obtain ⟨n, hn⟩ : ∃ n, n = (F.image.bssEnd - (bssArea F.image).start + 7) / 8 := ⟨_, rfl⟩
  obtain ⟨t, hrun, -, hsp, hgp, ht⟩ := riscvQemu_enters (n := n) F.located hpc F.main_aligned
    (by omega) (by omega) (by omega) (by omega)
  have hspn := (congrArg BitVec.toNat hsp).trans (F.stack_top_toNat hscript)
  have hgpn := (congrArg BitVec.toNat hgp).trans (F.global_pointer_toNat hscript)
  refine ⟨t, hrun, ht.pc, hspn, ?_, hgpn, ⟨n, by omega, by omega, by omega, ?_⟩, ?_⟩
  · have hlength : LinkerLayout.riscvQemu.heapLength = 1024 * 2 ^ 20 := rfl
    rw [hspn, VirtImage.stackTop, VirtImage.heapEnd, virtStackLength, hlength]
    omega
  · rw [ht.mem, ← hlo]
    apply cleared_fill <;> omega
  · intro u hu hret
    obtain ⟨v, hv, -, hask, hm⟩ := systemReset_asks (k := 14) F.located rfl (hret.trans ht.ra)
    exact ⟨v, hrun.trans (hu.trans hv), hask, hm⟩

theorem riscvQemu_boots_small : ∃ t, Reaches smallRiscvQemuCode (reset 0x80200000) t ∧
    t.pc = smallRiscvQemu.ext .main ∧
    (t.get .sp).toNat = smallRiscvQemu.image.stackTop LinkerLayout.riscvQemu ∧
    (t.get .sp).toNat % 16 = 0 ∧ (t.get .gp).toNat = smallRiscvQemu.image.globalPointer ∧
    (∃ n, (bssArea smallRiscvQemu.image).start + 8 * n < smallRiscvQemu.image.bssEnd + 8 ∧
      smallRiscvQemu.image.bssEnd ≤ (bssArea smallRiscvQemu.image).start + 8 * n ∧
      (bssArea smallRiscvQemu.image).start + 8 * n ≤ smallRiscvQemu.image.heapStart ∧
      Cleared (reset 0x80200000).mem t.mem (bssArea smallRiscvQemu.image).start
        ((bssArea smallRiscvQemu.image).start + 8 * n)
        ((bssArea smallRiscvQemu.image).start + 8 * n)) ∧
    ∀ u, Reaches smallRiscvQemuCode t u → u.pc = t.get .ra →
      ∃ v, Reaches smallRiscvQemuCode (reset 0x80200000) v ∧ AsksShutdown smallRiscvQemuCode v ∧
        v.mem = u.mem :=
  riscvQemu_boots smallRiscvQemu (by decide) rfl

theorem riscvWamrQemu_boots (F : VirtFirmware LinkerLayout.riscvWamrQemu StartupText.riscvWamrQemu c)
    {s : State} (hpc : s.pc = F.base) :
    ∃ t, Reaches c s t ∧ t.pc = F.ext .main ∧
      (t.get .sp).toNat = F.image.stackTop LinkerLayout.riscvWamrQemu ∧ (t.get .sp).toNat % 16 = 0 ∧
      Cleared s.mem t.mem (bssArea F.image).start F.image.bssEnd F.image.bssEnd ∧
      ∀ u, Reaches c t u → u.pc = t.get .ra →
        ∃ v, Reaches c s v ∧ AsksShutdown c v ∧ v.mem = u.mem := by
  have hscript : LinkerLayout.riscvWamrQemu.ramLength ≤ 2048 * 2 ^ 20 ∧
      LinkerLayout.riscvWamrQemu.heapLength ≤ 1024 * 2 ^ 20 := by decide
  have hend := F.bssEnd_le hscript
  have hle := bssArea_start_le F.image
  have hlo := F.bss_start_toNat hscript
  have hhi := F.bss_end_toNat hscript
  have hheap8 : 0x1000 ∣ F.image.heapStart := dvd_alignUp _ _
  obtain ⟨t, hrun, -, hsp, ht⟩ := riscvWamrQemu_enters F.located hpc F.main_aligned (by omega)
  have hspn := (congrArg BitVec.toNat hsp).trans (F.stack_top_toNat hscript)
  refine ⟨t, hrun, ht.pc, hspn, ?_, ?_, ?_⟩
  · have hlength : LinkerLayout.riscvWamrQemu.heapLength = 512 * 2 ^ 20 := rfl
    rw [hspn, VirtImage.stackTop, VirtImage.heapEnd, virtStackLength, hlength]
    omega
  · rw [ht.mem, ← hlo, ← hhi]
    apply cleared_fill <;> omega
  · intro u hu hret
    obtain ⟨v, hv, -, hask, hm⟩ := systemReset_asks (k := 12) F.located rfl (hret.trans ht.ra)
    exact ⟨v, hrun.trans (hu.trans hv), hask, hm⟩

theorem riscvWamrQemu_boots_small : ∃ t, Reaches smallRiscvWamrQemuCode (reset 0x80200000) t ∧
    t.pc = smallRiscvWamrQemu.ext .main ∧
    (t.get .sp).toNat = smallRiscvWamrQemu.image.stackTop LinkerLayout.riscvWamrQemu ∧
    (t.get .sp).toNat % 16 = 0 ∧
    Cleared (reset 0x80200000).mem t.mem (bssArea smallRiscvWamrQemu.image).start
      smallRiscvWamrQemu.image.bssEnd smallRiscvWamrQemu.image.bssEnd ∧
    ∀ u, Reaches smallRiscvWamrQemuCode t u → u.pc = t.get .ra →
      ∃ v, Reaches smallRiscvWamrQemuCode (reset 0x80200000) v ∧
        AsksShutdown smallRiscvWamrQemuCode v ∧ v.mem = u.mem :=
  riscvWamrQemu_boots smallRiscvWamrQemu rfl

end Wasrisc.Startup
