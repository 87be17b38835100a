import Wasrisc.ProgramBreak

namespace Wasrisc.SbrkBlocks

open HostMemory LinkerLayout ProgramBreak Runs

def Exceeds (image : VirtImage) (b : Break) (incr : CInt) : Prop :=
  image.stackTop riscvWamrQemu < (b.heapEnd + incr.signExtend 64).toNat

instance (image : VirtImage) (b : Break) (incr : CInt) : Decidable (Exceeds image b incr) :=
  inferInstanceAs (Decidable (_ < _))

structure CallLaw (image : VirtImage) (b : Break) (incr : CInt) : Prop where
  fails_iff : (sbrk image incr b).1 = -1 ↔ Exceeds image b incr
  failure : Exceeds image b incr → sbrk image incr b = (-1, { b with errno := enomem })
  returned : ¬ Exceeds image b incr → (sbrk image incr b).1 = b.heapEnd
  moved : ¬ Exceeds image b incr →
    ((sbrk image incr b).2.heapEnd.toNat : ℤ) = b.heapEnd.toNat + incr.toInt

def granted (image : VirtImage) : Break → List CInt → List CInt
  | _, [] => []
  | b, incr :: incrs =>
    let r := sbrk image incr b
    if r.1 = -1 then granted image r.2 incrs else incr :: granted image r.2 incrs

def blocks (image : VirtImage) : Break → List CInt → List Extent
  | _, [] => []
  | b, incr :: incrs =>
    let r := sbrk image incr b
    if r.1 = -1 then blocks image r.2 incrs else block r.1 incr :: blocks image r.2 incrs

/-- In a stretch without negative increments the blocks follow one another from the break before
it to the break after it. -/
structure BlocksInOrder (image : VirtImage) (b c : Break) (stretch : List CInt) : Prop where
  contiguous : Tiles b.heapEnd.toNat c.heapEnd.toNat (blocks image b stretch)
  ascending : (blocks image b stretch).Pairwise fun e f => e.finish ≤ f.start
  disjoint : (blocks image b stretch).Pairwise fun e f => Disjoint e.addresses f.addresses

def BelowStack (image : VirtImage) (b : Break) : Prop :=
  b.heapEnd.toNat ≤ image.stackTop riscvWamrQemu

structure Lawful (image : VirtImage) (incrs : List CInt) : Prop where
  calls : StepsMeet (breakStep image) (CallLaw image) (initialBreak image) incrs
  position : ∀ pre b, pre <+: incrs →
    pre.foldlM (breakStep image) (initialBreak image) = some b →
      (b.heapEnd.toNat : ℤ) = image.heapStart +
        ((granted image (initialBreak image) pre).map BitVec.toInt).sum ∧ BelowStack image b
  stretches : ∀ pre stretch b c, pre ++ stretch <+: incrs →
    pre.foldlM (breakStep image) (initialBreak image) = some b →
      stretch.foldlM (breakStep image) b = some c → (∀ incr ∈ stretch, 0 ≤ incr.toInt) →
        BlocksInOrder image b c stretch

theorem moved_toNat {p : U64} {incr : CInt} (hp : p.toNat < 2 ^ 32)
    (hq : (p + incr.signExtend 64).toNat < 2 ^ 32) :
    ((p + incr.signExtend 64).toNat : ℤ) = p.toNat + incr.toInt := by
  have hsign : (incr.signExtend 64).toInt = incr.toInt := BitVec.toInt_signExtend_of_le (by omega)
  have hlow := BitVec.le_toInt incr
  have hhigh := BitVec.toInt_lt (x := incr)
  rw [BitVec.toInt_eq_toNat_cond] at hsign
  rw [BitVec.toNat_add] at hq ⊢
  split_ifs at hsign <;> omega

variable {image : VirtImage}

theorem sbrk_exceeding (h : image.Accepted riscvWamrQemu) {b : Break} {incr : CInt}
    (hexceeds : Exceeds image b incr) : sbrk image incr b = (-1, { b with errno := enomem }) :=
  sbrk_refused h hexceeds

theorem sbrk_granted (h : image.Accepted riscvWamrQemu) {b : Break} {incr : CInt}
    (hexceeds : ¬ Exceeds image b incr) :
    sbrk image incr b = (b.heapEnd, { b with heapEnd := b.heapEnd + incr.signExtend 64 }) :=
  sbrk_moves h (Nat.le_of_not_lt hexceeds)

theorem belowStack_ne (h : image.Accepted riscvWamrQemu) {b : Break} (hb : BelowStack image b) :
    b.heapEnd ≠ -1 := by
  have htop := stackTop_lt h
  have hall : (-1 : U64).toNat = 2 ^ 64 - 1 := rfl
  unfold BelowStack at hb
  intro heq
  rw [heq, hall] at hb
  omega

theorem fails_iff (h : image.Accepted riscvWamrQemu) {b : Break} (hb : BelowStack image b)
    (incr : CInt) : (sbrk image incr b).1 = -1 ↔ Exceeds image b incr := by
  constructor
  · intro hfailed
    by_contra hexceeds
    rw [sbrk_granted h hexceeds] at hfailed
    exact belowStack_ne h hb hfailed
  · intro hexceeds
    rw [sbrk_exceeding h hexceeds]

theorem sbrk_moved (h : image.Accepted riscvWamrQemu) {b : Break} (hb : BelowStack image b)
    {incr : CInt} (hexceeds : ¬ Exceeds image b incr) :
    ((sbrk image incr b).2.heapEnd.toNat : ℤ) = b.heapEnd.toNat + incr.toInt := by
  have htop := stackTop_lt h
  have hle := Nat.le_of_not_lt hexceeds
  unfold BelowStack at hb
  rw [sbrk_granted h hexceeds]
  exact moved_toNat (by omega) (by omega)

theorem callLaw (h : image.Accepted riscvWamrQemu) {b : Break} (hb : BelowStack image b)
    (incr : CInt) : CallLaw image b incr where
  fails_iff := fails_iff h hb incr
  failure := sbrk_exceeding h
  returned hexceeds := by rw [sbrk_granted h hexceeds]
  moved := sbrk_moved h hb

theorem belowStack_step (h : image.Accepted riscvWamrQemu) {b c : Break} {incr : CInt}
    (hb : BelowStack image b) (hstep : breakStep image b incr = some c) : BelowStack image c := by
  obtain rfl := Option.some.inj hstep
  by_cases hexceeds : Exceeds image b incr
  · rw [sbrk_exceeding h hexceeds]
    exact hb
  · rw [sbrk_granted h hexceeds]
    exact Nat.le_of_not_lt hexceeds

theorem initialBreak_toNat (h : image.Accepted riscvWamrQemu) :
    (initialBreak image).heapEnd.toNat = image.heapStart := by
  have htop := stackTop_lt h
  have hheap : image.heapStart ≤ image.heapEnd riscvWamrQemu := Nat.le_add_right _ _
  have hstack : image.heapEnd riscvWamrQemu ≤ image.stackTop riscvWamrQemu := Nat.le_add_right _ _
  unfold initialBreak
  rw [BitVec.toNat_ofNat, Nat.mod_eq_of_lt (by omega)]

theorem initialBreak_belowStack (h : image.Accepted riscvWamrQemu) :
    BelowStack image (initialBreak image) := by
  unfold BelowStack
  rw [initialBreak_toNat h]
  exact (Nat.le_add_right _ _).trans (Nat.le_add_right _ _)

theorem break_eq_sum (h : image.Accepted riscvWamrQemu) {b c : Break} {incrs : List CInt}
    (hb : BelowStack image b) (hrun : incrs.foldlM (breakStep image) b = some c) :
    (c.heapEnd.toNat : ℤ) = b.heapEnd.toNat + ((granted image b incrs).map BitVec.toInt).sum := by
  induction incrs generalizing b with
  | nil =>
    obtain rfl : b = c := by simpa using hrun
    simp [granted]
  | cons incr incrs ih =>
    obtain ⟨u, hu, htail⟩ := foldlM_cons_some.mp hrun
    have hbelow := belowStack_step h hb hu
    have hsum := ih hbelow htail
    obtain rfl := Option.some.inj hu
    unfold granted
    by_cases hexceeds : Exceeds image b incr
    · rw [sbrk_exceeding h hexceeds] at hsum ⊢
      simpa using hsum
    · have hmoved := sbrk_moved h hb hexceeds
      have hne := mt (fails_iff h hb incr).mp hexceeds
      simp only [if_neg hne, List.map_cons, List.sum_cons]
      rw [hsum, hmoved]
      ring

theorem blocks_tile (h : image.Accepted riscvWamrQemu) {b c : Break} {incrs : List CInt}
    (hpos : ∀ incr ∈ incrs, 0 ≤ incr.toInt) (hb : BelowStack image b)
    (hrun : incrs.foldlM (breakStep image) b = some c) :
    Tiles b.heapEnd.toNat c.heapEnd.toNat (blocks image b incrs) := by
  induction incrs generalizing b with
  | nil =>
    obtain rfl : b = c := by simpa using hrun
    rfl
  | cons incr incrs ih =>
    obtain ⟨u, hu, htail⟩ := foldlM_cons_some.mp hrun
    have htiles := ih (fun i hi => hpos i (List.mem_cons_of_mem _ hi)) (belowStack_step h hb hu)
      htail
    obtain rfl := Option.some.inj hu
    unfold blocks
    by_cases hexceeds : Exceeds image b incr
    · rw [sbrk_exceeding h hexceeds] at htiles ⊢
      simpa using htiles
    · have hmoved := sbrk_moved h hb hexceeds
      have hne := mt (fails_iff h hb incr).mp hexceeds
      have hincr := hpos incr List.mem_cons_self
      have hfinish : (block b.heapEnd incr).finish = (sbrk image incr b).2.heapEnd.toNat := by
        unfold block
        simp only
        omega
      simp only [if_neg hne]
      rw [show (sbrk image incr b).1 = b.heapEnd by rw [sbrk_granted h hexceeds]]
      refine ⟨rfl, Nat.le_add_right _ _, ?_⟩
      rw [hfinish]
      exact htiles

theorem run_belowStack (h : image.Accepted riscvWamrQemu) {incrs : List CInt} {b : Break}
    (hrun : incrs.foldlM (breakStep image) (initialBreak image) = some b) : BelowStack image b :=
  run_invariant (fun _ _ _ => belowStack_step h) (initialBreak_belowStack h) hrun

theorem sbrk_lawful (image : VirtImage) (h : image.Accepted riscvWamrQemu) (incrs : List CInt) :
    Lawful image incrs := by
  constructor
  · have hbelow : Throughout (breakStep image) (BelowStack image) (initialBreak image) incrs :=
      run_throughout (fun _ _ _ => belowStack_step h) (initialBreak_belowStack h) incrs
    exact hbelow.stepsMeet fun b incr hb _ => callLaw h hb incr
  · intro pre b _ hrun
    have hsum := break_eq_sum h (initialBreak_belowStack h) hrun
    rw [initialBreak_toNat h] at hsum
    exact ⟨hsum, run_belowStack h hrun⟩
  · intro pre stretch b c _ hpre hstretch hpos
    have htiles := blocks_tile h hpos (run_belowStack h hpre) hstretch
    exact ⟨htiles, htiles.ascending, htiles.disjoint⟩

theorem sbrk_lawful_mixed : Lawful smallImage [0x1000, 0x7fffffff, -0x800, 0, 0x800] :=
  sbrk_lawful smallImage smallImage_accepted _

end Wasrisc.SbrkBlocks
