import Wasrisc.LinkerLayout
import Wasrisc.Memlib

namespace Wasrisc.HeapPlacement

open LinkerLayout Memlib

def heap : Extent := ⟨heapStart.toNat, (heapStart + heapSize).toNat⟩

def zkvmRam : Extent := ⟨zkvmOrigin, zkvmOrigin + zkvmLength⟩

structure FreeOnZkvm (image : ZkvmImage) : Prop where
  inside : heap.addresses ⊆ zkvmRam.addresses
  data : Disjoint image.dataArea.addresses heap.addresses
  bss : Disjoint image.bssArea.addresses heap.addresses
  stack : Disjoint image.stackArea.addresses heap.addresses

/-- The stack ends below the heap, or an empty `.bss` has been aligned to the very end of `ram`. -/
def RoomOnZkvm (image : ZkvmImage) : Prop :=
  image.initStackTop ≤ heap.start ∨
    (image.bssArea.finish = heap.finish ∧ image.bss.size = 0 ∧
      (image.data.size = 0 ∨ image.dataArea.finish ≤ heap.start))

structure FreeOnRiscvQemu (image : VirtImage) : Prop where
  inside : heap.addresses ⊆ (image.heapArea riscvQemu).addresses
  sections : ∀ e ∈ image.extents, Disjoint e.addresses heap.addresses
  stack : Disjoint (image.stackArea riscvQemu).addresses heap.addresses

theorem freeOnZkvm_iff {image : ZkvmImage} (h : image.Accepted) :
    FreeOnZkvm image ↔ RoomOnZkvm image := by
  have haccepted : image.bssArea.finish ≤ 0xc0000000 := h
  have hstart : heap.start = 0xa1020000 := rfl
  have hfinish : heap.finish = 0xc0000000 := rfl
  have hdata : image.dataArea.finish = image.dataArea.start + image.data.size := rfl
  have hbss : image.bssArea.finish = image.bssArea.start + image.bss.size := rfl
  have hstack : image.stackArea = ⟨image.bssArea.finish, image.initStackTop⟩ := rfl
  have hbetween := image.dataArea_le_bssArea
  have htop := image.bssArea_lt_initStackTop
  constructor
  · rintro ⟨-, hd, hb, hs⟩
    rw [Extent.disjoint_iff] at hd hb hs
    rw [hstack] at hs
    simp only at hs
    rw [RoomOnZkvm]
    omega
  · intro hroom
    rw [RoomOnZkvm] at hroom
    refine ⟨(Extent.subset_iff (by decide)).mpr (by decide), ?_, ?_, ?_⟩
    · rw [Extent.disjoint_iff]
      omega
    · rw [Extent.disjoint_iff]
      omega
    · rw [Extent.disjoint_iff, hstack]
      simp only
      omega

theorem freeOnRiscvQemu_iff (image : VirtImage) :
    FreeOnRiscvQemu image ↔ image.heapStart ≤ heap.start := by
  have hstart : heap.start = 0xa1020000 := rfl
  have hfinish : heap.finish = 0xc0000000 := rfl
  have horigin : 0x80200000 ≤ image.bssEnd := image.virtOrigin_le_bssEnd
  have hbss := image.bssEnd_le_heapStart
  have hend : image.heapEnd riscvQemu = image.heapStart + 0x40000000 := rfl
  have hinside : heap.addresses ⊆ (image.heapArea riscvQemu).addresses ↔
      image.heapStart ≤ heap.start ∧ heap.finish ≤ image.heapEnd riscvQemu :=
    Extent.subset_iff (by decide)
  constructor
  · intro hfree
    exact (hinside.mp hfree.inside).1
  · intro hle
    refine ⟨hinside.mpr ⟨hle, by omega⟩, fun e he => ?_, ?_⟩
    · have hwithin : e.finish ≤ image.bssEnd := (place_within he).2
      rw [Extent.disjoint_iff]
      omega
    · rw [Extent.disjoint_iff, VirtImage.stackArea]
      simp only
      omega

theorem heap_free_iff (zkvm : ZkvmImage) (hzkvm : zkvm.Accepted) (virt : VirtImage) :
    (FreeOnZkvm zkvm ↔ RoomOnZkvm zkvm) ∧
      (FreeOnRiscvQemu virt ↔ virt.heapStart ≤ heap.start) :=
  ⟨freeOnZkvm_iff hzkvm, freeOnRiscvQemu_iff virt⟩

def zkvmImage (bssSize : ℕ) : ZkvmImage := ⟨wordSection 0x800, wordSection bssSize⟩

def riscvQemuImage (bssSize : ℕ) : VirtImage := { smallImage with bss := wordSection bssSize }

theorem zkvmImage_accepted {n : ℕ} (h : (zkvmImage n).bssArea.finish ≤ 0xc0000000) :
    (zkvmImage n).Accepted := h

theorem heap_free_small :
    FreeOnZkvm (zkvmImage 0x2000) ∧ FreeOnRiscvQemu (riscvQemuImage 0x2000) := by
  have hiff := heap_free_iff (zkvmImage 0x2000) (zkvmImage_accepted (by decide))
    (riscvQemuImage 0x2000)
  exact ⟨hiff.1.mpr (.inl (by decide)), hiff.2.mpr (by decide)⟩

theorem heap_overlaps_large_bss :
    (¬ ∀ image : ZkvmImage, image.Accepted → FreeOnZkvm image) ∧
      ¬ ∀ image : VirtImage, image.endMarker riscvQemu ≤ virtOrigin + riscvQemu.ramLength →
        FreeOnRiscvQemu image := by
  constructor
  · intro h
    have haccepted := zkvmImage_accepted (n := 0x1000000) (by decide)
    have hroom := (freeOnZkvm_iff haccepted).mp (h _ haccepted)
    revert hroom
    unfold RoomOnZkvm
    decide
  · intro h
    have hroom := (freeOnRiscvQemu_iff (riscvQemuImage 0x21000000)).mp (h _ (by decide))
    revert hroom
    decide

end Wasrisc.HeapPlacement
