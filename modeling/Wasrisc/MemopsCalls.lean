import Wasrisc.MemopsMemset
import Wasrisc.MemopsMemmove
import Wasrisc.MemsetShortcut

namespace Wasrisc.MemopsCalls

open AddressedMemory HostMemory MemoryCopies Rv64 Assembler MemopsText Memlib

structure Linked (c : Code) where
  ext : Sym → U64
  memset_code : Located c (ext ._memset) (code (ext ._memset) ext memset)
  memcpy_code : Located c (ext ._memcpy) (code (ext ._memcpy) ext memcpy)
  memmove_code : Located c (ext ._memmove) (code (ext ._memmove) ext memmove)
  memset_aligned : (ext ._memset).toNat % 4 = 0
  -- `.align 3` in the text makes this the alignment of the section
  memcpy_aligned : (ext ._memcpy).toNat % 8 = 0

inductive Call where
  | memset (dst : U64) (ch : CInt) (sz : SizeT)
  | memcpy (dst src : U64) (n : SizeT)
  | memmove (dst src : U64) (n : SizeT)

/-- What the C library asks of the arguments: the ranges do not wrap around, and `memcpy` does not
overwrite the source before it is read. -/
def Call.Valid : Call → Prop
  | .memset dst _ sz => dst.toNat + sz.toNat < 2 ^ 64
  | .memcpy dst src n => dst.toNat + n.toNat < 2 ^ 64 ∧ ForwardSafe dst src n.toNat
  | .memmove dst src n => dst.toNat + n.toNat < 2 ^ 64 ∧ src.toNat + n.toNat ≤ 2 ^ 64

def Call.dst : Call → U64
  | .memset dst _ _ | .memcpy dst _ _ | .memmove dst _ _ => dst

def Call.apply : Call → Ram → Ram
  | .memset dst ch sz, ram => fill ram dst sz.toNat (ch.setWidth 8)
  | .memcpy dst src n, ram | .memmove dst src n, ram => write ram dst (read ram src n.toNat)

def calleeSaved : List Reg :=
  [.sp, .gp, .tp, .s0, .s1, .s2, .s3, .s4, .s5, .s6, .s7, .s8, .s9, .s10, .s11]

def arguments (s : State) (x y z ra : U64) : State :=
  (((s.set .a0 x).set .a1 y).set .a2 z).set .ra ra

def Call.enter {c : Code} (L : Linked c) (s : State) (ra : U64) : Call → State
  | .memset dst ch sz => (arguments s dst (ch.signExtend 64) sz ra).goto (L.ext ._memset)
  | .memcpy dst src n => (arguments s dst src n ra).goto (L.ext ._memcpy)
  | .memmove dst src n => (arguments s dst src n ra).goto (L.ext ._memmove)

variable {c : Code} (L : Linked c)

/-- A program that calls the routines one after the other, each time from where the last one
returned, and keeps the rest of the machine as it is. -/
inductive Session : State → List (Call × U64) → State → Prop where
  | done (s : State) : Session s [] s
  | call {s t u : State} {k : Call} {ra : U64} {ks : List (Call × U64)}
      (hrun : Reaches c (k.enter L s ra) t) (hret : t.pc = ra) (ha0 : t.get .a0 = k.dst)
      (hrest : Session t ks u) : Session s ((k, ra) :: ks) u

@[simp] theorem mem_arguments (s : State) (x y z ra : U64) : (arguments s x y z ra).mem = s.mem := by
  simp [arguments]

theorem get_arguments (s : State) (x y z ra : U64) :
    (arguments s x y z ra).get .a0 = x ∧ (arguments s x y z ra).get .a1 = y ∧
      (arguments s x y z ra).get .a2 = z ∧ (arguments s x y z ra).get .ra = ra := by
  simp [arguments]

theorem get_arguments_saved (s : State) (x y z ra : U64) {r : Reg} (hr : r ∈ calleeSaved) :
    (arguments s x y z ra).get r = s.get r := by
  have hne : r ≠ .a0 ∧ r ≠ .a1 ∧ r ≠ .a2 ∧ r ≠ .ra := by
    refine ⟨?_, ?_, ?_, ?_⟩ <;> rintro rfl <;> revert hr <;> decide
  simp [arguments, hne]

theorem lowByte_signExtend (ch : CInt) : (ch.signExtend 64).setWidth 8 = ch.setWidth 8 := by
  ext i hi
  simp only [BitVec.getElem_setWidth, BitVec.getLsbD_signExtend]
  simp [show i < 64 by omega, show i < 32 by omega]

theorem forwardSafe_of_disjoint {dst src : U64} {n : ℕ} (hn : n ≤ 2 ^ 64)
    (h : Disjoint (span dst n) (span src n)) : ForwardSafe dst src n := by
  unfold ForwardSafe
  by_contra hover
  have hlt := (src - dst).isLt
  -- the first byte of the destination is in the source range
  have hoff : (dst - src).toNat < n := by
    rw [show dst - src = -(src - dst) by ring, BitVec.toNat_neg]
    omega
  have hself : (dst - dst).toNat < n := by
    rw [BitVec.sub_self]
    exact (Nat.zero_le _).trans_lt hoff
  exact Set.disjoint_left.mp h (mem_span.mpr hself) (mem_span.mpr hoff)

theorem mem_calleeSaved {r : Reg} (hr : r ∈ calleeSaved) (h0 : r ≠ .s0) (h1 : r ≠ .s1) :
    r ∉ MemopsMemcpy.clobbered := by
  revert r
  decide

theorem notMem_memset_clobbered {r : Reg} (hr : r ∈ calleeSaved) : r ∉ MemopsMemset.clobbered := by
  revert r
  decide

structure Returned (s : State) (k : Call) (ra : U64) (t : State) : Prop where
  pc : t.pc = ra
  a0 : t.get .a0 = k.dst
  saved : ∀ r ∈ calleeSaved, t.get r = s.get r
  mem : t.mem = k.apply s.mem

theorem returned_of_done {s t : State} {k : Call} {x y z ra e : U64}
    (hkeep : ∀ r ∉ MemopsMemcpy.clobbered, t.get r = ((arguments s x y z ra).goto e).get r)
    (hx : x = k.dst) (hk : k.apply s.mem = moved s.mem x y 0 z.toNat)
    (h : MemopsMemcpy.Done ra x (s.get .s0) (s.get .s1) (moved s.mem x y 0 z.toNat) t) :
    Returned s k ra t := by
  refine ⟨h.pc, h.a0.trans hx, ?_, h.mem.trans hk.symm⟩
  intro r hr
  by_cases h0 : r = .s0
  · rw [h0, h.s0]
  by_cases h1 : r = .s1
  · rw [h1, h.s1]
  rw [hkeep r (mem_calleeSaved hr h0 h1), get_goto, get_arguments_saved s x y z ra hr]

theorem call_returns {s : State} {k : Call} {ra : U64} (hk : k.Valid) (hra : ra.toNat % 4 = 0) :
    ∃ t, Reaches c (k.enter L s ra) t ∧ Returned s k ra t := by
  cases k with
  | memset dst ch sz =>
    obtain ⟨h0, h1, h2, hra'⟩ := get_arguments s dst (ch.signExtend 64) sz ra
    obtain ⟨t, hrun, hkeep, hpc, hmem⟩ := MemopsMemset.memset_sets
      (s := (Call.memset dst ch sz).enter L s ra) L.memset_code L.memset_aligned rfl
      (by rw [Call.enter, get_goto, hra']; exact hra)
      (by rw [Call.enter, get_goto, get_goto, h0, h2]; exact hk)
    rw [Call.enter, get_goto] at hpc
    rw [Call.enter, get_goto, get_goto, get_goto, h0, h1, h2, mem_goto, mem_arguments,
      lowByte_signExtend] at hmem
    refine ⟨t, hrun, hpc.trans hra', ?_, ?_, hmem⟩
    · rw [hkeep .a0 (by decide), Call.enter, get_goto, h0, Call.dst]
    · intro r hr
      rw [hkeep r (notMem_memset_clobbered hr), Call.enter, get_goto, get_arguments_saved _ _ _ _ _ hr]
  | memcpy dst src n =>
    obtain ⟨h0, h1, h2, hra'⟩ := get_arguments s dst src n ra
    obtain ⟨t, hrun, hkeep, hdone⟩ := MemopsMemcpy.memcpy_copies
      (s := (Call.memcpy dst src n).enter L s ra) L.memcpy_code rfl
      (by rw [Call.enter, get_goto, hra']; exact hra)
      (by rw [Call.enter, get_goto, get_goto, h0, h2]; exact hk.1)
      (by rw [Call.enter, get_goto, get_goto, get_goto, h0, h1, h2]; exact hk.2)
    simp only [Call.enter, get_goto, mem_goto, mem_arguments, h0, h1, h2, hra',
      get_arguments_saved s dst src n ra (r := .s0) (by decide),
      get_arguments_saved s dst src n ra (r := .s1) (by decide)] at hdone
    exact ⟨t, hrun, returned_of_done hkeep rfl moved_eq_write.symm hdone⟩
  | memmove dst src n =>
    obtain ⟨h0, h1, h2, hra'⟩ := get_arguments s dst src n ra
    obtain ⟨t, hrun, hkeep, hdone⟩ := MemopsMemmove.memmove_moves
      (s := (Call.memmove dst src n).enter L s ra) L.memmove_code L.memcpy_code
      (by have := L.memcpy_aligned; omega) rfl
      (by rw [Call.enter, get_goto, hra']; exact hra)
      (by rw [Call.enter, get_goto, get_goto, h0, h2]; exact hk.1)
      (by rw [Call.enter, get_goto, get_goto, h1, h2]; exact hk.2)
    simp only [Call.enter, get_goto, mem_goto, mem_arguments, h0, h1, h2, hra',
      get_arguments_saved s dst src n ra (r := .s0) (by decide),
      get_arguments_saved s dst src n ra (r := .s1) (by decide)] at hdone
    exact ⟨t, hrun, returned_of_done hkeep rfl moved_eq_write.symm hdone⟩

def firmwareExt : Sym → U64
  | ._memset => 0x80000000
  | ._memcpy => 0x80001000
  | ._memmove => 0x80002000
  | _ => 0

def firmwareParts : List (U64 × List (Instr U64)) :=
  [(0x80000000, code 0x80000000 firmwareExt memset), (0x80001000, code 0x80001000 firmwareExt memcpy),
    (0x80002000, code 0x80002000 firmwareExt memmove)]

def firmware : Code := image firmwareParts

theorem length_memset (b : U64) (ext : Sym → U64) : (code b ext memset).length = 70 := rfl

theorem length_memcpy (b : U64) (ext : Sym → U64) : (code b ext memcpy).length = 102 := by rfl

theorem length_memmove (b : U64) (ext : Sym → U64) : (code b ext memmove).length = 106 := by rfl

theorem firmware_located {p : U64 × List (Instr U64)} (hp : p ∈ firmwareParts) :
    Located firmware p.1 p.2 := by
  apply located_image _ _ hp
  · simp [firmwareParts, length_memset, length_memcpy]
  · simp [firmwareParts, length_memset, length_memcpy, length_memmove]

def firmwareLinked : Linked firmware where
  ext := firmwareExt
  memset_code := firmware_located List.mem_cons_self
  memcpy_code := firmware_located (.tail _ List.mem_cons_self)
  memmove_code := firmware_located (.tail _ (.tail _ List.mem_cons_self))
  memset_aligned := by decide
  memcpy_aligned := by decide

def firmwareStart : State := ⟨0x80003000, fun _ => 0, fun a => a.setWidth 8⟩

theorem firmware_after {a : U64} (ha : 0x800021a8 ≤ a.toNat) : firmware a = none := by
  apply image_eq_none
  simp only [firmwareParts, List.forall_mem_cons, length_memset, length_memcpy, length_memmove]
  simp
  omega

theorem memset_refines (M : Memops) (s : State) (dst : U64) (ch : CInt) (sz : SizeT) (ra : U64)
    (hw : dst.toNat + sz.toNat < 2 ^ 64) (hra : ra.toNat % 4 = 0) :
    ∃ t, Reaches c ((Call.memset dst ch sz).enter L s ra) t ∧ t.pc = ra ∧
      (t.get .a0, t.mem) = M.memset dst ch sz s.mem ∧ ∀ r ∈ calleeSaved, t.get r = s.get r := by
  obtain ⟨t, hrun, ht⟩ := call_returns L (s := s) (k := .memset dst ch sz) hw hra
  refine ⟨t, hrun, ht.pc, ?_, ht.saved⟩
  rw [M.memset_fills, ht.a0, ht.mem]
  rfl

theorem memset_refines_unaligned : ∃ t,
    Reaches firmware ((Call.memset 0xa1020003 0x1ff 300).enter firmwareLinked firmwareStart 0x80003004) t ∧
      t.pc = 0x80003004 ∧
      (t.get .a0, t.mem) = MemsetShortcut.headerMemops.memset 0xa1020003 0x1ff 300 firmwareStart.mem ∧
      ∀ r ∈ calleeSaved, t.get r = firmwareStart.get r :=
  memset_refines firmwareLinked MemsetShortcut.headerMemops firmwareStart 0xa1020003 0x1ff 300
    0x80003004 (by decide) (by decide)

theorem memcpy_refines (s : State) (dst src : U64) (n : SizeT) (ra : U64)
    (hw : dst.toNat + n.toNat < 2 ^ 64) (hdisj : Disjoint (span dst n.toNat) (span src n.toNat))
    (hra : ra.toNat % 4 = 0) :
    ∃ t, Reaches c ((Call.memcpy dst src n).enter L s ra) t ∧ t.pc = ra ∧ t.get .a0 = dst ∧
      t.mem = write s.mem dst (read s.mem src n.toNat) ∧ ∀ r ∈ calleeSaved, t.get r = s.get r := by
  obtain ⟨t, hrun, ht⟩ := call_returns L (s := s) (k := .memcpy dst src n)
    ⟨hw, forwardSafe_of_disjoint n.isLt.le hdisj⟩ hra
  exact ⟨t, hrun, ht.pc, ht.a0, ht.mem, ht.saved⟩

theorem memcpy_refines_unaligned : ∃ t,
    Reaches firmware ((Call.memcpy 0xa1020001 0xa1030006 1000).enter firmwareLinked firmwareStart 0x80003004) t ∧
      t.pc = 0x80003004 ∧ t.get .a0 = 0xa1020001 ∧
      t.mem = write firmwareStart.mem 0xa1020001 (read firmwareStart.mem 0xa1030006 1000) ∧
      ∀ r ∈ calleeSaved, t.get r = firmwareStart.get r :=
  memcpy_refines firmwareLinked firmwareStart 0xa1020001 0xa1030006 1000 0x80003004 (by decide)
    (span_disjoint_of_le (by decide) (by decide) (.inl (by decide))) (by decide)

theorem memmove_refines (s : State) (dst src : U64) (n : SizeT) (ra : U64)
    (hw : dst.toNat + n.toNat < 2 ^ 64) (hw' : src.toNat + n.toNat ≤ 2 ^ 64) (hra : ra.toNat % 4 = 0) :
    ∃ t, Reaches c ((Call.memmove dst src n).enter L s ra) t ∧ t.pc = ra ∧ t.get .a0 = dst ∧
      t.mem = write s.mem dst (read s.mem src n.toNat) ∧ ∀ r ∈ calleeSaved, t.get r = s.get r := by
  obtain ⟨t, hrun, ht⟩ := call_returns L (s := s) (k := .memmove dst src n) ⟨hw, hw'⟩ hra
  exact ⟨t, hrun, ht.pc, ht.a0, ht.mem, ht.saved⟩

theorem memmove_refines_overlap : ∃ t,
    Reaches firmware ((Call.memmove 0xa1020005 0xa1020000 1000).enter firmwareLinked firmwareStart 0x80003004) t ∧
      t.pc = 0x80003004 ∧ t.get .a0 = 0xa1020005 ∧
      t.mem = write firmwareStart.mem 0xa1020005 (read firmwareStart.mem 0xa1020000 1000) ∧
      ∀ r ∈ calleeSaved, t.get r = firmwareStart.get r :=
  memmove_refines firmwareLinked firmwareStart 0xa1020005 0xa1020000 1000 0x80003004 (by decide)
    (by decide) (by decide)

theorem session_refines (s : State) (ks : List (Call × U64)) (hvalid : ∀ k ∈ ks, k.1.Valid)
    (hra : ∀ k ∈ ks, k.2.toNat % 4 = 0 ∧ c k.2 = none) :
    (∃ u, Session L s ks u) ∧ ∀ u, Session L s ks u →
      u.mem = ks.foldl (fun ram k => k.1.apply ram) s.mem ∧ ∀ r ∈ calleeSaved, u.get r = s.get r := by
  induction ks generalizing s with
  | nil =>
    refine ⟨⟨s, .done s⟩, ?_⟩
    rintro u (_ | _)
    exact ⟨rfl, fun r hr => rfl⟩
  | cons k ks ih =>
    have hks := List.forall_mem_cons.mp hvalid
    have hras := List.forall_mem_cons.mp hra
    obtain ⟨t, hrun, ht⟩ := call_returns L (s := s) hks.1 hras.1.1
    obtain ⟨⟨u, hu⟩, hall⟩ := ih t hks.2 hras.2
    refine ⟨⟨u, .call hrun ht.pc ht.a0 hu⟩, ?_⟩
    rintro u' (_ | @⟨_, t', _, _, ra, _, hrun', hret, ha0, hrest⟩)
    have hstop {x : State} (hx : x.pc = ra) : step c x = none := by
      rw [step, hx, hras.1.2, Option.bind_none]
    obtain rfl : t' = t := reaches_unique hrun' hrun (hstop hret) (hstop ht.pc)
    obtain ⟨hmem, hsaved⟩ := hall u' hrest
    refine ⟨?_, fun r hr => (hsaved r hr).trans (ht.saved r hr)⟩
    rw [hmem, ht.mem, List.foldl_cons]

theorem session_refines_three :
    let ks := [(Call.memset 0xa1020003 0xff 40, (0x80003004 : U64)),
      (.memcpy 0xa1020011 0xa1020003 9, 0x80003008), (.memmove 0xa1020000 0xa1020001 50, 0x8000300c)]
    (∃ u, Session firmwareLinked firmwareStart ks u) ∧
      ∀ u, Session firmwareLinked firmwareStart ks u →
        u.mem = ks.foldl (fun ram k => k.1.apply ram) firmwareStart.mem ∧
          ∀ r ∈ calleeSaved, u.get r = firmwareStart.get r := by
  apply session_refines
  · simp [Call.Valid, ForwardSafe]
  · simp [firmware_after]

end Wasrisc.MemopsCalls
