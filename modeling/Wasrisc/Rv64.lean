import Wasrisc.WordBytes

namespace Wasrisc.Rv64

open AddressedMemory HostMemory WordBytes

inductive Reg where
  | zero | ra | sp | gp | tp | t0 | t1 | t2 | s0 | s1
  | a0 | a1 | a2 | a3 | a4 | a5 | a6 | a7
  | s2 | s3 | s4 | s5 | s6 | s7 | s8 | s9 | s10 | s11 | t3 | t4 | t5 | t6
  deriving DecidableEq

inductive Op where
  | add | addw | sub | sll | srl | xor | or | and
  deriving DecidableEq

def Op.eval : Op → U64 → U64 → U64
  | .add, x, y => x + y
  | .addw, x, y => ((x + y).setWidth 32).signExtend 64
  | .sub, x, y => x - y
  | .sll, x, y => x <<< (y.toNat % 64)
  | .srl, x, y => x >>> (y.toNat % 64)
  | .xor, x, y => x ^^^ y
  | .or, x, y => x ||| y
  | .and, x, y => x &&& y

inductive Cond where
  | eq | ne | ltu | geu
  deriving DecidableEq

def Cond.eval : Cond → U64 → U64 → Bool
  | .eq, x, y => x = y
  | .ne, x, y => x ≠ y
  | .ltu, x, y => x < y
  | .geu, x, y => y ≤ x

/-- A 12-bit immediate: a number, or the low part of the distance from `anchor` to `target`. -/
inductive Imm (L : Type) where
  | num (n : BitVec 12)
  | pcrelLo (anchor target : L)

inductive Instr (L : Type) where
  | op (f : Op) (rd rs rs' : Reg)
  | opImm (f : Op) (rd rs : Reg) (imm : Imm L)
  | lbu (rd : Reg) (imm : BitVec 12) (rs : Reg)
  | ld (rd : Reg) (imm : BitVec 12) (rs : Reg)
  | sb (rs' : Reg) (imm : BitVec 12) (rs : Reg)
  | sd (rs' : Reg) (imm : BitVec 12) (rs : Reg)
  | branch (f : Cond) (rs rs' : Reg) (target : L)
  | jal (rd : Reg) (target : L)
  | jalr (rd rs : Reg) (imm : Imm L)
  | auipc (rd : Reg) (target : L)
  | lui (rd : Reg) (imm : BitVec 20)
  | ecall

namespace Instr

variable {L : Type}

def addi (rd rs : Reg) (n : BitVec 12) : Instr L := .opImm .add rd rs (.num n)
def andi (rd rs : Reg) (n : BitVec 12) : Instr L := .opImm .and rd rs (.num n)
def slli (rd rs : Reg) (n : BitVec 12) : Instr L := .opImm .sll rd rs (.num n)
def srli (rd rs : Reg) (n : BitVec 12) : Instr L := .opImm .srl rd rs (.num n)
def add (rd rs rs' : Reg) : Instr L := .op .add rd rs rs'
def sub (rd rs rs' : Reg) : Instr L := .op .sub rd rs rs'
def sll (rd rs rs' : Reg) : Instr L := .op .sll rd rs rs'
def srl (rd rs rs' : Reg) : Instr L := .op .srl rd rs rs'
def xor (rd rs rs' : Reg) : Instr L := .op .xor rd rs rs'
def or (rd rs rs' : Reg) : Instr L := .op .or rd rs rs'
def beq (rs rs' : Reg) (target : L) : Instr L := .branch .eq rs rs' target
def bne (rs rs' : Reg) (target : L) : Instr L := .branch .ne rs rs' target
def bltu (rs rs' : Reg) (target : L) : Instr L := .branch .ltu rs rs' target
def bgeu (rs rs' : Reg) (target : L) : Instr L := .branch .geu rs rs' target

def nop : Instr L := addi .zero .zero 0
def mv (rd rs : Reg) : Instr L := addi rd rs 0
def li (rd : Reg) (n : BitVec 12) : Instr L := addi rd .zero n
def beqz (rs : Reg) (target : L) : Instr L := beq rs .zero target
def bnez (rs : Reg) (target : L) : Instr L := bne rs .zero target
def bgtu (rs rs' : Reg) (target : L) : Instr L := bltu rs' rs target
def j (target : L) : Instr L := .jal .zero target
def jr (rs : Reg) : Instr L := .jalr .zero rs (.num 0)
def ret : Instr L := jr .ra

end Instr

structure State where
  pc : U64
  regs : Reg → U64
  mem : Ram

namespace State

def get (s : State) (r : Reg) : U64 := if r = .zero then 0 else s.regs r

def set (s : State) (r : Reg) (v : U64) : State :=
  if r = .zero then s else { s with regs := Function.update s.regs r v }

def next (s : State) : State := { s with pc := s.pc + 4 }

def goto (s : State) (target : U64) : State := { s with pc := target }

def store (s : State) (ram : Ram) : State := { s with mem := ram }

end State

def pcrelHi (d : U64) : U64 := (d + 0x800) >>> 12 <<< 12

def pcrelLo (d : U64) : BitVec 12 := d.setWidth 12

def Imm.value : Imm U64 → U64
  | .num n => n.signExtend 64
  | .pcrelLo anchor target => (Rv64.pcrelLo (target - anchor)).signExtend 64

/-- A misaligned access of a doubleword traps. -/
def ifAligned (a : U64) (t : State) : Option State := if a.toNat % 8 = 0 then some t else none

def effect (s : State) : Instr U64 → Option State
  | .op f rd rs rs' => some (s.set rd (f.eval (s.get rs) (s.get rs')))
  | .opImm f rd rs imm => some (s.set rd (f.eval (s.get rs) imm.value))
  | .lbu rd imm rs => some (s.set rd ((s.mem (s.get rs + imm.signExtend 64)).setWidth 64))
  | .sb rs' imm rs =>
    some (s.store (Function.update s.mem (s.get rs + imm.signExtend 64) ((s.get rs').setWidth 8)))
  | .ld rd imm rs =>
    let a := s.get rs + imm.signExtend 64
    ifAligned a (s.set rd (load64 s.mem a))
  | .sd rs' imm rs =>
    let a := s.get rs + imm.signExtend 64
    ifAligned a (s.store (store64 s.mem a (s.get rs')))
  | .auipc rd target => some (s.set rd (s.pc + pcrelHi (target - s.pc)))
  | .lui rd imm => some (s.set rd ((imm ++ (0 : BitVec 12)).signExtend 64))
  -- an `ecall` leaves the machine for the environment
  | .branch .. | .jal .. | .jalr .. | .ecall => none

def exec (s : State) : Instr U64 → Option State
  | .branch f rs rs' target =>
    some (if f.eval (s.get rs) (s.get rs') then s.goto target else s.next)
  | .jal rd target => some ((s.set rd (s.pc + 4)).goto target)
  | .jalr rd rs imm =>
    let target := (s.get rs + imm.value) &&& ~~~1
    -- without the compressed extension a target that is not a multiple of four traps
    if target.toNat % 4 = 0 then some ((s.set rd (s.pc + 4)).goto target) else none
  | i => (effect s i).map State.next

abbrev Code := U64 → Option (Instr U64)

def step (c : Code) (s : State) : Option State := (c s.pc).bind (exec s)

def Reaches (c : Code) : State → State → Prop :=
  Relation.ReflTransGen fun s s' => step c s = some s'

def slot (b : U64) (k : ℕ) : U64 := b + BitVec.ofNat 64 (4 * k)

def Located (c : Code) (b : U64) (l : List (Instr U64)) : Prop :=
  ∀ (k : ℕ) (hk : k < l.length), c (slot b k) = some l[k]

def instrsAt (b : U64) (l : List (Instr U64)) : Code := fun a =>
  if (a - b).toNat % 4 = 0 then l[(a - b).toNat / 4]? else none

def image (parts : List (U64 × List (Instr U64))) : Code := fun a =>
  parts.findSome? fun p => instrsAt p.1 p.2 a

def run (s : State) (l : List (Instr U64)) : Option State := l.foldlM effect s

def Instr.dest {L : Type} : Instr L → List Reg
  | .op _ rd _ _ | .opImm _ rd _ _ | .lbu rd _ _ | .ld rd _ _ | .jal rd _ | .jalr rd _ _
  | .auipc rd _ | .lui rd _ => [rd]
  | .sb .. | .sd .. | .branch .. | .ecall => []

/-- The instruction goes on to the next one, does not look at the program counter and writes to
registers of `R` only. -/
def Instr.straight {L : Type} (R : List Reg) : Instr L → Bool
  | .branch .. | .jal .. | .jalr .. | .auipc .. | .ecall => false
  | i => i.dest.all fun r => r = .zero || R.contains r

/-- From `s` the machine comes to a state that satisfies `Q`, without a change to a register outside
`R`. -/
def Leads (c : Code) (R : List Reg) (s : State) (Q : State → Prop) : Prop :=
  ∃ s', Reaches c s s' ∧ (∀ r ∉ R, s'.get r = s.get r) ∧ Q s'

@[simp] theorem get_zero (s : State) : s.get .zero = 0 := rfl

@[simp] theorem get_set (s : State) (r q : Reg) (v : U64) :
    (s.set r v).get q = if q = r ∧ q ≠ .zero then v else s.get q := by
  unfold State.get State.set
  by_cases hr : r = .zero <;> by_cases hq : q = .zero <;> simp [hr, hq, Function.update_apply]

theorem get_set_of_mem {s : State} {R : List Reg} {r q : Reg} {v : U64} (hr : r = .zero ∨ r ∈ R)
    (hq : q ∉ R) : (s.set r v).get q = s.get q := by
  rw [get_set, if_neg]
  rintro ⟨rfl, hz⟩
  exact hr.elim hz hq

@[simp] theorem get_next (s : State) (r : Reg) : s.next.get r = s.get r := rfl

@[simp] theorem get_goto (s : State) (a : U64) (r : Reg) : (s.goto a).get r = s.get r := rfl

@[simp] theorem get_store (s : State) (m : Ram) (r : Reg) : (s.store m).get r = s.get r := rfl

@[simp] theorem mem_set (s : State) (r : Reg) (v : U64) : (s.set r v).mem = s.mem := by
  unfold State.set
  split <;> rfl

@[simp] theorem mem_next (s : State) : s.next.mem = s.mem := rfl

@[simp] theorem mem_goto (s : State) (a : U64) : (s.goto a).mem = s.mem := rfl

@[simp] theorem mem_store (s : State) (m : Ram) : (s.store m).mem = m := rfl

@[simp] theorem pc_set (s : State) (r : Reg) (v : U64) : (s.set r v).pc = s.pc := by
  unfold State.set
  split <;> rfl

theorem set_goto (s : State) (r : Reg) (v a : U64) : (s.goto a).set r v = (s.set r v).goto a := by
  unfold State.set
  split <;> rfl

theorem set_set (s : State) (r : Reg) (v v' : U64) : (s.set r v).set r v' = s.set r v' := by
  unfold State.set
  split <;> simp

theorem set_zero (s : State) (v : U64) : s.set .zero v = s := rfl

@[simp] theorem pc_next (s : State) : s.next.pc = s.pc + 4 := rfl

@[simp] theorem pc_goto (s : State) (a : U64) : (s.goto a).pc = a := rfl

@[simp] theorem pc_store (s : State) (m : Ram) : (s.store m).pc = s.pc := rfl

theorem slot_zero (b : U64) : slot b 0 = b := by simp [slot]

theorem slot_succ (b : U64) (k : ℕ) : slot b k + 4 = slot b (k + 1) := by
  rw [slot, slot, BitVec.add_assoc, Nat.mul_succ, BitVec.ofNat_add]
  rfl

theorem slot_slot (b : U64) (k n : ℕ) : slot (slot b k) n = slot b (k + n) := by
  rw [slot, slot, slot, BitVec.add_assoc, Nat.mul_add, BitVec.ofNat_add]

theorem slot_sub {b : U64} {k r : ℕ} (hr : r ≤ k) : slot b k - BitVec.ofNat 64 (4 * r) = slot b (k - r) := by
  rw [← Nat.sub_add_cancel hr, ← slot_slot]
  simp [slot]

theorem slot_aligned {b : U64} {k : ℕ} (hb : b.toNat % 4 = 0) : (slot b k).toNat % 4 = 0 := by
  rw [slot, BitVec.toNat_add, BitVec.toNat_ofNat]
  omega

theorem pcrelHi_add_pcrelLo (d : U64) : pcrelHi d + (pcrelLo d).signExtend 64 = d := by
  apply BitVec.eq_of_toNat_eq
  have hd := d.isLt
  have hhi : (pcrelHi d).toNat = (d.toNat + 0x800) % 2 ^ 64 / 4096 * 4096 := by
    rw [pcrelHi, BitVec.toNat_shiftLeft, BitVec.toNat_ushiftRight, BitVec.toNat_add,
      Nat.shiftLeft_eq, Nat.shiftRight_eq_div_pow, show (0x800 : U64).toNat = 0x800 from rfl]
    omega
  have hlo : (pcrelLo d).toNat = d.toNat % 4096 := by rw [pcrelLo, BitVec.toNat_setWidth]
  rw [BitVec.toNat_add, hhi, BitVec.toNat_signExtend, BitVec.toNat_setWidth, hlo,
    BitVec.msb_eq_decide, hlo]
  by_cases h : d.toNat % 4096 < 2048
  · rw [if_neg (by simp; omega)]; omega
  · rw [if_pos (by simp; omega)]; omega

theorem slot_add_pcrel (b a : U64) (k : ℕ) :
    slot b k + pcrelHi (a - slot b k) + (pcrelLo (a - slot b k)).signExtend 64 = a := by
  have hd := pcrelHi_add_pcrelLo (a - slot b k)
  linear_combination hd

theorem exec_of_straight {s : State} {i : Instr U64} {R : List Reg} (hi : i.straight R = true) :
    exec s i = (effect s i).map State.next := by
  cases i with
  | branch | jal | jalr | auipc | ecall => simp [Instr.straight] at hi
  | op | opImm | lbu | ld | sb | sd | lui => rfl

theorem ifAligned_eq_some {a : U64} {t u : State} :
    ifAligned a t = some u ↔ a.toNat % 8 = 0 ∧ t = u := by
  simp [ifAligned]

theorem ifAligned_map (a b : U64) (t : State) :
    (ifAligned a t).map (·.goto b) = ifAligned a (t.goto b) := by
  unfold ifAligned
  split <;> rfl

theorem effect_pc {s t : State} {i : Instr U64} (h : effect s i = some t) : t.pc = s.pc := by
  cases i <;> simp only [effect, ifAligned_eq_some, Option.some.injEq, reduceCtorEq] at h
  case ld | sd =>
    obtain ⟨-, rfl⟩ := h
    simp
  all_goals
    subst h
    simp

theorem effect_goto {s : State} {i : Instr U64} {R : List Reg} (hi : i.straight R = true) (a : U64) :
    effect (s.goto a) i = (effect s i).map (·.goto a) := by
  cases i with
  | ld | sd =>
    simp only [effect, ifAligned_map, ← set_goto]
    rfl
  | lui => simp only [effect, Option.map_some, ← set_goto]
  | op | opImm | lbu | sb =>
    simp only [effect, Option.map_some, ← set_goto]
    rfl
  | branch | jal | jalr | auipc | ecall => simp [Instr.straight] at hi

theorem effect_frame {s t : State} {i : Instr U64} {R : List Reg} (hi : i.straight R = true)
    (h : effect s i = some t) {r : Reg} (hr : r ∉ R) : t.get r = s.get r := by
  cases i <;> simp only [Instr.straight, Instr.dest, List.all_cons, List.all_nil, Bool.and_true,
    Bool.or_eq_true, decide_eq_true_eq, List.contains_iff_mem, Bool.false_eq_true] at hi
  all_goals
    simp only [effect, ifAligned_eq_some, Option.some.injEq] at h
  case sb => subst h; rfl
  case sd => obtain ⟨-, rfl⟩ := h; rfl
  case ld rd imm rs =>
    obtain ⟨-, rfl⟩ := h
    exact get_set_of_mem hi hr
  all_goals
    subst h
    exact get_set_of_mem hi hr

theorem effect_ld {s : State} {rd rs : Reg} {imm : BitVec 12} {a : U64}
    (ha : s.get rs + imm.signExtend 64 = a) (halign : a.toNat % 8 = 0) :
    effect s (.ld rd imm rs) = some (s.set rd (load64 s.mem a)) := by
  subst ha
  exact if_pos halign

theorem effect_sd {s : State} {rs' rs : Reg} {imm : BitVec 12} {a : U64}
    (ha : s.get rs + imm.signExtend 64 = a) (halign : a.toNat % 8 = 0) :
    effect s (.sd rs' imm rs) = some (s.store (store64 s.mem a (s.get rs'))) := by
  subst ha
  exact if_pos halign

theorem srl_eval (x : U64) {d : ℕ} (hd : d < 8) :
    Op.srl.eval x (BitVec.ofNat 64 (8 * d)) = x >>> (8 * d) := by
  rw [Op.eval, BitVec.toNat_ofNat, Nat.mod_mod_of_dvd _ (by norm_num), Nat.mod_eq_of_lt (by omega)]

theorem sll_eval (x : U64) {d : ℕ} (hd : d < 8) (hd0 : 0 < d) :
    Op.sll.eval x (0 - BitVec.ofNat 64 (8 * d)) = x <<< (8 * (8 - d)) := by
  have hmod : (0 - BitVec.ofNat 64 (8 * d)).toNat % 64 = 8 * (8 - d) := by
    rw [BitVec.toNat_sub, BitVec.toNat_ofNat, show (0 : U64).toNat = 0 from rfl]
    omega
  rw [Op.eval, hmod]

theorem run_cons {s t : State} {i : Instr U64} {l : List (Instr U64)} :
    run s (i :: l) = some t ↔ ∃ u, effect s i = some u ∧ run u l = some t := by
  simp [run, List.foldlM_cons, Option.bind_eq_some_iff]

theorem run_append {s t : State} {l l' : List (Instr U64)} :
    run s (l ++ l') = some t ↔ ∃ u, run s l = some u ∧ run u l' = some t := by
  simp [run, List.foldlM_append, Option.bind_eq_some_iff]

theorem run_frame {s t : State} {l : List (Instr U64)} {R : List Reg}
    (hl : l.all (·.straight R) = true) (h : run s l = some t) {r : Reg} (hr : r ∉ R) :
    t.get r = s.get r := by
  induction l generalizing s with
  | nil =>
    obtain rfl : s = t := by simpa [run] using h
    rfl
  | cons i l ih =>
    obtain ⟨u, hu, ht⟩ := run_cons.mp h
    rw [List.all_cons, Bool.and_eq_true] at hl
    rw [ih hl.2 ht, effect_frame hl.1 hu hr]

theorem run_goto {s t : State} {l : List (Instr U64)} {R : List Reg}
    (hl : l.all (·.straight R) = true) (h : run s l = some t) (a : U64) :
    run (s.goto a) l = some (t.goto a) := by
  induction l generalizing s with
  | nil =>
    obtain rfl : s = t := by simpa [run] using h
    rfl
  | cons i l ih =>
    obtain ⟨u, hu, ht⟩ := run_cons.mp h
    rw [List.all_cons, Bool.and_eq_true] at hl
    refine run_cons.mpr ⟨u.goto a, ?_, ih hl.2 ht⟩
    rw [effect_goto hl.1, hu, Option.map_some]

theorem Located.drop {c : Code} {b : U64} {l : List (Instr U64)} (h : Located c b l) (k : ℕ) :
    Located c (slot b k) (l.drop k) := by
  intro j hj
  rw [List.length_drop] at hj
  rw [slot_slot, List.getElem_drop]
  exact h (k + j) (by omega)

theorem Located.initial {c : Code} {b : U64} {l l' : List (Instr U64)} (h : Located c b l)
    (hl : l' <+: l) : Located c b l' := by
  intro j hj
  rw [h j (hj.trans_le hl.length_le), hl.getElem hj]

theorem instrsAt_slot {b : U64} {l : List (Instr U64)} {k : ℕ} (hk : k < l.length)
    (hw : 4 * k < 2 ^ 64) : instrsAt b l (slot b k) = some l[k] := by
  rw [instrsAt, slot, offset_toNat hw, if_pos (by omega), Nat.mul_div_cancel_left k (by omega),
    List.getElem?_eq_getElem hk]

theorem instrsAt_eq_none {b a : U64} {l : List (Instr U64)} (ha : b.toNat + 4 * l.length ≤ a.toNat) :
    instrsAt b l a = none := by
  rw [instrsAt, BitVec.toNat_sub_of_le (by rw [BitVec.le_def]; omega),
    List.getElem?_eq_none (by omega), ite_self]

theorem image_eq_none {parts : List (U64 × List (Instr U64))} {a : U64}
    (ha : ∀ p ∈ parts, p.1.toNat + 4 * p.2.length ≤ a.toNat) : image parts a = none := by
  rw [image, List.findSome?_eq_none_iff]
  exact fun p hp => instrsAt_eq_none (ha p hp)

theorem located_image {parts : List (U64 × List (Instr U64))}
    (hdisj : parts.Pairwise fun p q => p.1.toNat + 4 * p.2.length ≤ q.1.toNat)
    (hend : ∀ p ∈ parts, p.1.toNat + 4 * p.2.length ≤ 2 ^ 64) {p : U64 × List (Instr U64)}
    (hp : p ∈ parts) : Located (image parts) p.1 p.2 := by
  intro k hk
  induction parts with
  | nil => cases hp
  | cons q parts ih =>
    rw [List.pairwise_cons] at hdisj
    have hpend := hend p hp
    rw [image, List.findSome?_cons]
    rcases List.mem_cons.mp hp with rfl | htail
    · rw [instrsAt_slot hk (by omega)]
    · have hslot : (slot p.1 k).toNat = p.1.toNat + 4 * k := add_toNat (by omega)
      have hq := hdisj.1 p htail
      rw [instrsAt_eq_none (by omega)]
      exact ih hdisj.2 (fun r hr => hend r (List.mem_cons_of_mem q hr)) htail

theorem reaches_run {c : Code} {b : U64} {l : List (Instr U64)} {R : List Reg} {s t : State}
    (hc : Located c b l) (hl : l.all (·.straight R) = true) (hpc : s.pc = b)
    (h : run s l = some t) : Reaches c s (t.goto (slot b l.length)) := by
  induction l generalizing b s t with
  | nil =>
    obtain rfl : s = t := by simpa [run] using h
    rw [List.length_nil, slot_zero, ← hpc]
    exact .refl
  | cons i l ih =>
    obtain ⟨u, hu, ht⟩ := run_cons.mp h
    rw [List.all_cons, Bool.and_eq_true] at hl
    have hfetch : c s.pc = some i := by
      have := hc 0 (by simp)
      rwa [slot_zero, ← hpc] at this
    have hstep : step c s = some (u.goto (slot b 1)) := by
      rw [step, hfetch, Option.bind_some, exec_of_straight hl.1, hu, Option.map_some, State.next,
        effect_pc hu, hpc]
      rfl
    have hrest := ih (hc.drop 1) hl.2 (pc_goto u _) (run_goto hl.2 ht (slot b 1))
    rw [slot_slot, Nat.add_comm] at hrest
    exact .head hstep hrest

theorem reaches_unique {c : Code} {s t u : State} (ht : Reaches c s t) (hu : Reaches c s u)
    (htstop : step c t = none) (hustop : step c u = none) : t = u := by
  have hunique : Relator.RightUnique fun s s' => step c s = some s' := by
    intro a x y hx hy
    exact Option.some.inj (hx.symm.trans hy)
  have hstuck {x y : State} (hstop : step c x = none) (h : Reaches c x y) : x = y := by
    rcases Relation.ReflTransGen.cases_head h with heq | ⟨z, hz, -⟩
    · exact heq
    · rw [hstop] at hz
      cases hz
  rcases Relation.ReflTransGen.total_of_right_unique hunique ht hu with h | h
  · exact hstuck htstop h
  · exact (hstuck hustop h).symm

theorem reaches_of_fixed {c : Code} {s t : State} (hs : step c s = some s) (h : Reaches c s t) : t = s := by
  induction h with
  | refl => rfl
  | tail _ hstep ih =>
    subst ih
    exact Option.some.inj (hstep.symm.trans hs)

namespace Leads

variable {c : Code} {R : List Reg} {s t : State} {Q Q' : State → Prop}

theorem done (h : Q s) : Leads c R s Q := ⟨s, .refl, fun _ _ => rfl, h⟩

theorem mono (h : Leads c R s Q) (hQ : ∀ t, Q t → Q' t) : Leads c R s Q' := by
  obtain ⟨t, hs, hr, ht⟩ := h
  exact ⟨t, hs, hr, hQ t ht⟩

theorem widen {R' : List Reg} (h : Leads c R s Q) (hR : R ⊆ R') : Leads c R' s Q := by
  obtain ⟨t, hs, hr, ht⟩ := h
  exact ⟨t, hs, fun r hr' => hr r fun hmem => hr' (hR hmem), ht⟩

theorem trans {R' : List Reg} (h : Leads c R s Q) (hR : R ⊆ R')
    (h' : ∀ t, (∀ r ∉ R, t.get r = s.get r) → Q t → Leads c R' t Q') : Leads c R' s Q' := by
  obtain ⟨t, hs, hr, ht⟩ := h
  obtain ⟨u, ht', hr', hu⟩ := h' t hr ht
  exact ⟨u, hs.trans ht', fun r hmem => (hr' r hmem).trans (hr r fun h => hmem (hR h)), hu⟩

theorem of_reaches (hs : Reaches c s t) (hr : ∀ r ∉ R, t.get r = s.get r) (h : Leads c R t Q) :
    Leads c R s Q := by
  obtain ⟨u, ht, hr', hu⟩ := h
  exact ⟨u, hs.trans ht, fun r hmem => (hr' r hmem).trans (hr r hmem), hu⟩

theorem of_step (hs : step c s = some t) (hr : ∀ r ∉ R, t.get r = s.get r) (h : Leads c R t Q) :
    Leads c R s Q := of_reaches (.single hs) hr h

theorem loop {I : ℕ → State → Prop} {n : ℕ}
    (hI : ∀ i t, i < n → (∀ r ∉ R, t.get r = s.get r) → I i t → Leads c R t (I (i + 1)))
    (h0 : I 0 s) : Leads c R s (I n) := by
  induction n with
  | zero => exact done h0
  | succ n ih =>
    apply (ih fun i t hi => hI i t (by omega)).trans (List.Subset.refl R)
    intro t hr ht
    exact hI n t (by omega) hr ht

variable {b : U64} {l : List (Instr U64)}

theorem block (hc : Located c b l) (k : ℕ) (hpc : s.pc = slot b k) (blk : List (Instr U64))
    (hblk : (l.drop k).take blk.length = blk) (hstraight : blk.all (·.straight R) = true)
    (hrun : run s blk = some t)
    (h : Leads c R (t.goto (slot b (k + blk.length))) Q) : Leads c R s Q := by
  apply of_reaches _ _ h
  · rw [← slot_slot]
    exact reaches_run ((hc.drop k).initial (List.prefix_iff_eq_take.mpr hblk.symm)) hstraight hpc hrun
  · intro r hr
    rw [get_goto, run_frame hstraight hrun hr]

theorem fetch {i : Instr U64} (hc : Located c b l) (k : ℕ) (hpc : s.pc = slot b k)
    (hi : l[k]? = some i) : step c s = exec s i := by
  obtain ⟨hk, rfl⟩ := List.getElem?_eq_some_iff.mp hi
  rw [step, hpc, hc k hk, Option.bind_some]

theorem branch {f : Cond} {rs rs' : Reg} {a : U64} (hc : Located c b l) (k : ℕ)
    (hpc : s.pc = slot b k) (hi : l[k]? = some (.branch f rs rs' a))
    (htaken : f.eval (s.get rs) (s.get rs') = true → Leads c R (s.goto a) Q)
    (hnot : f.eval (s.get rs) (s.get rs') = false → Leads c R (s.goto (slot b (k + 1))) Q) :
    Leads c R s Q := by
  have hstep := fetch hc k hpc hi
  rw [exec] at hstep
  cases hf : f.eval (s.get rs) (s.get rs') with
  | true =>
    rw [hf, if_pos rfl] at hstep
    exact of_step hstep (fun _ _ => rfl) (htaken hf)
  | false =>
    rw [hf, if_neg Bool.false_ne_true, State.next, hpc, slot_succ] at hstep
    exact of_step hstep (fun _ _ => rfl) (hnot hf)

/-- The rule of a loop that ends in a branch back to its first instruction: the body keeps the
invariant `I`, and the branch is taken but for the last of `n` rounds. -/
theorem doWhile {I : ℕ → State → Prop} {n : ℕ} {f : Cond} {rs rs' : Reg} (hc : Located c b l) (k : ℕ)
    (body : List (Instr U64)) (hbody : (l.drop k).take body.length = body)
    (hstraight : body.all (·.straight R) = true)
    (hbranch : l[k + body.length]? = some (.branch f rs rs' (slot b k))) (hpc : s.pc = slot b k)
    (hn : 0 < n) (h0 : I 0 s)
    (hround : ∀ i t, i < n → (∀ r ∉ R, t.get r = s.get r) → I i t → ∃ u, run t body = some u ∧
      f.eval (u.get rs) (u.get rs') = decide (i + 1 < n) ∧ ∀ a, I (i + 1) (u.goto a)) :
    Leads c R s fun t => t.pc = slot b (k + body.length + 1) ∧ I n t := by
  have hloop : Leads c R s fun t =>
      t.pc = slot b (if n < n then k else k + body.length + 1) ∧ I n t := by
    apply loop (I := fun i t => t.pc = slot b (if i < n then k else k + body.length + 1) ∧ I i t)
    · rintro i t hi hframe ⟨hpct, ht⟩
      rw [if_pos hi] at hpct
      obtain ⟨u, hrun, hf, hu⟩ := hround i t hi hframe ht
      apply block hc k hpct body hbody hstraight hrun
      apply branch hc (k + body.length) rfl hbranch
      · intro htaken
        rw [get_goto, get_goto, hf, decide_eq_true_eq] at htaken
        apply done
        rw [if_pos htaken]
        exact ⟨rfl, hu _⟩
      · intro hnot
        rw [get_goto, get_goto, hf, decide_eq_false_iff_not] at hnot
        apply done
        rw [if_neg hnot]
        exact ⟨rfl, hu _⟩
    · rw [if_pos hn]
      exact ⟨hpc, h0⟩
  rwa [if_neg (lt_irrefl n)] at hloop

theorem auipc {rd : Reg} {a : U64} (hc : Located c b l) (k : ℕ) (hpc : s.pc = slot b k)
    (hi : l[k]? = some (.auipc rd a)) (hrd : rd ∈ R)
    (h : Leads c R ((s.set rd (slot b k + pcrelHi (a - slot b k))).goto (slot b (k + 1))) Q) :
    Leads c R s Q := by
  apply of_step _ _ h
  · rw [fetch hc k hpc hi, exec, effect, Option.map_some, State.next, pc_set, hpc, slot_succ]
    · rfl
    all_goals simp
  · intro r hr
    rw [get_goto, get_set_of_mem (.inr hrd) hr]

theorem la {rd : Reg} {a : U64} (hc : Located c b l) (k : ℕ) (hpc : s.pc = slot b k)
    (hi : l[k]? = some (.auipc rd a))
    (hi' : l[k + 1]? = some (.opImm .add rd rd (.pcrelLo (slot b k) a))) (hrd : rd ∈ R)
    (hne : rd ≠ .zero) (h : Leads c R ((s.set rd a).goto (slot b (k + 2))) Q) : Leads c R s Q := by
  apply auipc hc k hpc hi hrd
  apply of_step (t := (s.set rd a).goto (slot b (k + 2))) _ _ h
  · rw [fetch hc (k + 1) (pc_goto _ _) hi', exec, effect, Option.map_some, State.next, get_goto,
      get_set, if_pos ⟨rfl, hne⟩, Imm.value, Op.eval, slot_add_pcrel, set_goto, set_set, pc_goto,
      slot_succ]
    · rfl
    all_goals simp
  · intro r hr
    rw [get_goto, get_goto, get_set_of_mem (.inr hrd) hr, get_set_of_mem (.inr hrd) hr]

theorem jump {a : U64} (hc : Located c b l) (k : ℕ) (hpc : s.pc = slot b k)
    (hi : l[k]? = some (.jal .zero a))
    (h : Leads c R (s.goto a) Q) : Leads c R s Q := by
  have hstep := fetch hc k hpc hi
  rw [exec, set_zero] at hstep
  exact of_step hstep (fun _ _ => rfl) h

theorem jalrLink {rd r : Reg} {imm : Imm U64} {a : U64} (hc : Located c b l) (k : ℕ)
    (hpc : s.pc = slot b k) (hi : l[k]? = some (.jalr rd r imm)) (ha : s.get r + imm.value = a)
    (haligned : a.toNat % 4 = 0) (hrd : rd = .zero ∨ rd ∈ R)
    (h : Leads c R ((s.set rd (slot b (k + 1))).goto a) Q) : Leads c R s Q := by
  have htarget : a &&& ~~~1 = a := by
    have hmask := toNat_and_not_mask a (show 1 ≤ 64 by omega)
    apply BitVec.eq_of_toNat_eq
    apply hmask.trans
    omega
  apply of_step _ _ h
  · rw [fetch hc k hpc hi, exec, ha, htarget, if_pos haligned, hpc, slot_succ]
  · intro q hq
    rw [get_goto, get_set_of_mem hrd hq]

theorem jalr {r : Reg} {imm : Imm U64} {a : U64} (hc : Located c b l) (k : ℕ) (hpc : s.pc = slot b k)
    (hi : l[k]? = some (.jalr .zero r imm)) (ha : s.get r + imm.value = a) (haligned : a.toNat % 4 = 0)
    (h : Leads c R (s.goto a) Q) : Leads c R s Q := jalrLink hc k hpc hi ha haligned (.inl rfl) h

theorem call {a : U64} (hc : Located c b l) (k : ℕ) (hpc : s.pc = slot b k)
    (hi : l[k]? = some (.auipc .ra a))
    (hi' : l[k + 1]? = some (.jalr .ra .ra (.pcrelLo (slot b k) a))) (hra : .ra ∈ R)
    (haligned : a.toNat % 4 = 0) (h : Leads c R ((s.set .ra (slot b (k + 2))).goto a) Q) :
    Leads c R s Q := by
  apply auipc hc k hpc hi hra
  apply jalrLink (a := a) hc (k + 1) rfl hi' _ haligned (.inr hra)
  · rw [set_goto, set_set]
    exact h
  · rw [get_goto, get_set, if_pos ⟨rfl, Reg.noConfusion⟩, Imm.value, slot_add_pcrel]

theorem jr {r : Reg} (hc : Located c b l) (k : ℕ) (hpc : s.pc = slot b k)
    (hi : l[k]? = some (.jr r)) (haligned : (s.get r).toNat % 4 = 0)
    (h : Leads c R (s.goto (s.get r)) Q) : Leads c R s Q :=
  jalr hc k hpc hi (by simp [Imm.value]) haligned h

end Leads

end Wasrisc.Rv64
