import Wasrisc.HostMemory
import Wasrisc.LinkerLayout
import Wasrisc.Runs

namespace Wasrisc.ProgramBreak

open HostMemory LinkerLayout Runs

structure Break where
  heapEnd : U64
  errno : CInt

def enomem : CInt := 12

def initialBreak (image : VirtImage) : Break := ⟨BitVec.ofNat 64 image.heapStart, 0⟩

def sbrk (image : VirtImage) (incr : CInt) (b : Break) : U64 × Break :=
  let prevHeapEnd := b.heapEnd
  let stackLimit : U64 := BitVec.ofNat 64 (image.stackTop riscvWamrQemu)
  if stackLimit < b.heapEnd + incr.signExtend 64 then
    (-1, { b with errno := enomem })
  else
    (prevHeapEnd, { b with heapEnd := b.heapEnd + incr.signExtend 64 })

def breakStep (image : VirtImage) (b : Break) (incr : CInt) : Option Break :=
  some (sbrk image incr b).2

def Within (image : VirtImage) (b : Break) : Prop :=
  image.heapStart ≤ b.heapEnd.toNat ∧ b.heapEnd.toNat ≤ image.heapEnd riscvWamrQemu

def block (p : U64) (incr : CInt) : Extent := ⟨p.toNat, p.toNat + incr.toInt.toNat⟩

def BlockWithin (image : VirtImage) (b : Break) (incr : CInt) : Prop :=
  (sbrk image incr b).1 ≠ -1 →
    (block (sbrk image incr b).1 incr).addresses ⊆ (image.heapArea riscvWamrQemu).addresses

/-- The requested break lies in the heap area, or beyond the stack, where `_sbrk` refuses it. -/
def Harmless (image : VirtImage) (b : Break) (incr : CInt) : Prop :=
  image.stackTop riscvWamrQemu < (b.heapEnd + incr.signExtend 64).toNat ∨
    (image.heapStart ≤ (b.heapEnd + incr.signExtend 64).toNat ∧
      (b.heapEnd + incr.signExtend 64).toNat ≤ image.heapEnd riscvWamrQemu)

theorem stackTop_lt {image : VirtImage} (h : image.Accepted riscvWamrQemu) :
    image.stackTop riscvWamrQemu < 2 ^ 32 := by
  have hstart := image.heapStart_lt
  have haccepted : image.bssEnd ≤ 0x80200000 + 1024 * 2 ^ 20 := h
  change image.heapStart + 512 * 2 ^ 20 + 128 * 2 ^ 20 < 2 ^ 32
  omega

theorem refused_iff {image : VirtImage} (h : image.Accepted riscvWamrQemu) (top : U64) :
    BitVec.ofNat 64 (image.stackTop riscvWamrQemu) < top ↔
      image.stackTop riscvWamrQemu < top.toNat := by
  have hlt := stackTop_lt h
  rw [BitVec.lt_def, BitVec.toNat_ofNat, Nat.mod_eq_of_lt (by omega)]

theorem sbrk_refused {image : VirtImage} (h : image.Accepted riscvWamrQemu) {b : Break}
    {incr : CInt}
    (htop : image.stackTop riscvWamrQemu < (b.heapEnd + incr.signExtend 64).toNat) :
    sbrk image incr b = (-1, { b with errno := enomem }) :=
  if_pos ((refused_iff h _).mpr htop)

theorem sbrk_moves {image : VirtImage} (h : image.Accepted riscvWamrQemu) {b : Break} {incr : CInt}
    (htop : (b.heapEnd + incr.signExtend 64).toNat ≤ image.stackTop riscvWamrQemu) :
    sbrk image incr b = (b.heapEnd, { b with heapEnd := b.heapEnd + incr.signExtend 64 }) :=
  if_neg (mt (refused_iff h _).mp (Nat.not_lt.mpr htop))

theorem within_sbrk_iff {image : VirtImage} (h : image.Accepted riscvWamrQemu) {b : Break}
    (hb : Within image b) (incr : CInt) :
    Within image (sbrk image incr b).2 ↔ Harmless image b incr := by
  rcases Nat.lt_or_ge (image.stackTop riscvWamrQemu) (b.heapEnd + incr.signExtend 64).toNat
    with htop | htop
  · rw [sbrk_refused h htop]
    exact ⟨fun _ => .inl htop, fun _ => hb⟩
  · rw [sbrk_moves h htop]
    exact ⟨.inr, fun hharmless => hharmless.resolve_left (Nat.not_lt.mpr htop)⟩

theorem grown_toNat {p : U64} {incr : CInt} (hp : p.toNat < 2 ^ 32) (hincr : 0 < incr.toInt) :
    (p + incr.signExtend 64).toNat = p.toNat + incr.toInt.toNat := by
  have hmsb : incr.msb = false := by
    rw [BitVec.msb_eq_toInt]
    exact decide_eq_false (by omega)
  have hlt := incr.isLt
  rw [BitVec.signExtend_eq_setWidth_of_msb_false hmsb, BitVec.toNat_add, BitVec.toNat_setWidth,
    BitVec.toInt_eq_toNat_of_msb hmsb, Int.toNat_natCast]
  omega

theorem blockWithin {image : VirtImage} (h : image.Accepted riscvWamrQemu) {b : Break}
    {incr : CInt} (hb : Within image b) (hstep : Within image (sbrk image incr b).2) :
    BlockWithin image b incr := by
  intro hsuccess a ha
  rcases Nat.lt_or_ge (image.stackTop riscvWamrQemu) (b.heapEnd + incr.signExtend 64).toNat
    with htop | htop
  · rw [sbrk_refused h htop] at hsuccess
    exact absurd rfl hsuccess
  · have hlimit := stackTop_lt h
    have hheap : image.heapEnd riscvWamrQemu ≤ image.stackTop riscvWamrQemu := Nat.le_add_right _ _
    rw [sbrk_moves h htop] at ha hstep
    simp only [block, Extent.addresses, Set.mem_Ico] at ha
    have hgrown : (b.heapEnd + incr.signExtend 64).toNat = b.heapEnd.toNat + incr.toInt.toNat :=
      grown_toNat (by have := hb.2; omega) (by omega)
    have htop' : (b.heapEnd + incr.signExtend 64).toNat ≤ image.heapEnd riscvWamrQemu := hstep.2
    exact ⟨hb.1.trans ha.1, by simp only [VirtImage.heapArea]; omega⟩

theorem initialBreak_within {image : VirtImage} (h : image.Accepted riscvWamrQemu) :
    Within image (initialBreak image) := by
  have hlimit := stackTop_lt h
  have hheap : image.heapStart ≤ image.heapEnd riscvWamrQemu := Nat.le_add_right _ _
  have hstack : image.heapEnd riscvWamrQemu ≤ image.stackTop riscvWamrQemu := Nat.le_add_right _ _
  have hstart : (initialBreak image).heapEnd.toNat = image.heapStart := by
    rw [initialBreak, BitVec.toNat_ofNat, Nat.mod_eq_of_lt (by omega)]
  rw [Within, hstart]
  exact ⟨le_refl _, hheap⟩

theorem break_within_iff (image : VirtImage) (h : image.Accepted riscvWamrQemu)
    (incrs : List CInt) :
    (Throughout (breakStep image) (Within image) (initialBreak image) incrs ∧
      StepsMeet (breakStep image) (BlockWithin image) (initialBreak image) incrs) ↔
      StepsMeet (breakStep image) (Harmless image) (initialBreak image) incrs := by
  have hiff : Throughout (breakStep image) (Within image) (initialBreak image) incrs ↔
      StepsMeet (breakStep image) (Harmless image) (initialBreak image) incrs := by
    refine throughout_iff_stepsMeet (I := fun _ => True) (fun _ _ _ _ _ _ => trivial) ?_ trivial
      (initialBreak_within h) (foldlM_total _ _ _)
    intro b incr c _ hb hc
    obtain rfl := Option.some.inj hc
    exact within_sbrk_iff h hb incr
  have hblocks (hthroughout : Throughout (breakStep image) (Within image) (initialBreak image)
      incrs) : StepsMeet (breakStep image) (BlockWithin image) (initialBreak image) incrs :=
    hthroughout.stepsMeet fun _ _ hb hstep => blockWithin h hb (hstep _ rfl)
  rw [and_iff_left_of_imp hblocks, hiff]

theorem smallImage_accepted : smallImage.Accepted riscvWamrQemu :=
  show smallImage.bssEnd ≤ virtOrigin + riscvWamrQemu.ramLength by decide

theorem break_within_grow_and_release :
    Throughout (breakStep smallImage) (Within smallImage) (initialBreak smallImage)
        [0x1000, -0x1000] ∧
      StepsMeet (breakStep smallImage) (BlockWithin smallImage) (initialBreak smallImage)
        [0x1000, -0x1000] := by
  refine (break_within_iff smallImage smallImage_accepted _).mpr ?_
  refine stepsMeet_cons.mpr ⟨.inr (by decide), fun b hb => ?_⟩
  obtain rfl := Option.some.inj hb
  exact stepsMeet_cons.mpr ⟨.inr (by decide), fun _ _ => stepsMeet_nil⟩

theorem break_enters_stack :
    ¬ ∀ (image : VirtImage), image.Accepted riscvWamrQemu → ∀ incrs : List CInt,
      Throughout (breakStep image) (Within image) (initialBreak image) incrs := by
  intro h
  have hrun := h smallImage smallImage_accepted [0x20000010]
  have hbreak := throughout_nil.mp ((throughout_cons.mp hrun).2 _ rfl)
  have htop : (sbrk smallImage 0x20000010 (initialBreak smallImage)).2.heapEnd.toNat ≤
    smallImage.heapEnd riscvWamrQemu := hbreak.2
  revert htop
  decide

end Wasrisc.ProgramBreak
