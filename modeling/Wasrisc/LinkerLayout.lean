import Mathlib

namespace Wasrisc.LinkerLayout

structure Extent where
  start : ℕ
  finish : ℕ

def Extent.addresses (e : Extent) : Set ℕ := Set.Ico e.start e.finish

structure OutputSection where
  size : ℕ
  align : ℕ
  align_pos : 0 < align

def alignUp (dot align : ℕ) : ℕ := (dot + align - 1) / align * align

/-- A section goes to the next free address of its region; an `ALIGN` between sections moves only
the location counter, not that address. -/
def OutputSection.extent (s : OutputSection) (current : ℕ) : Extent :=
  ⟨alignUp current s.align, alignUp current s.align + s.size⟩

def place : ℕ → List OutputSection → List Extent
  | _, [] => []
  | current, s :: ss => s.extent current :: place (s.extent current).finish ss

def nextFree : ℕ → List OutputSection → ℕ
  | current, [] => current
  | current, s :: ss => nextFree (s.extent current).finish ss

theorem le_alignUp {dot align : ℕ} (h : 0 < align) : dot ≤ alignUp dot align := by
  have hd := Nat.div_add_mod (dot + align - 1) align
  have hm := Nat.mod_lt (dot + align - 1) h
  rw [alignUp, Nat.mul_comm]
  omega

theorem alignUp_lt {dot align : ℕ} (h : 0 < align) : alignUp dot align < dot + align := by
  have hd := Nat.div_mul_le_self (dot + align - 1) align
  rw [alignUp]
  omega

theorem le_nextFree (current : ℕ) (ss : List OutputSection) : current ≤ nextFree current ss := by
  induction ss generalizing current with
  | nil => exact le_refl _
  | cons s ss ih =>
    exact (le_alignUp s.align_pos).trans ((Nat.le_add_right _ _).trans (ih _))

theorem place_within {current : ℕ} {ss : List OutputSection} {e : Extent}
    (h : e ∈ place current ss) : current ≤ e.start ∧ e.finish ≤ nextFree current ss := by
  induction ss generalizing current with
  | nil => exact absurd h List.not_mem_nil
  | cons s ss ih =>
    have hstart : current ≤ (s.extent current).start := le_alignUp s.align_pos
    have hfinish : (s.extent current).start ≤ (s.extent current).finish := Nat.le_add_right _ _
    rw [place, List.mem_cons] at h
    rcases h with rfl | h
    · exact ⟨hstart, le_nextFree _ _⟩
    · have hwithin := ih h
      exact ⟨by omega, hwithin.2⟩

theorem Extent.disjoint_iff {e f : Extent} : Disjoint e.addresses f.addresses ↔
    e.finish ≤ f.start ∨ f.finish ≤ e.start ∨ e.finish ≤ e.start ∨ f.finish ≤ f.start := by
  rw [addresses, addresses, Set.Ico_disjoint_Ico]
  omega

theorem Extent.subset_iff {e f : Extent} (he : e.start < e.finish) :
    e.addresses ⊆ f.addresses ↔ f.start ≤ e.start ∧ e.finish ≤ f.finish :=
  Set.Ico_subset_Ico_iff he

/-- The extents fill the range from `start` to `finish` in order, each beginning where the one
before it ends. -/
def Tiles : ℕ → ℕ → List Extent → Prop
  | start, finish, [] => start = finish
  | start, finish, e :: es => e.start = start ∧ e.start ≤ e.finish ∧ Tiles e.finish finish es

theorem Tiles.start_le {start finish : ℕ} {es : List Extent} (h : Tiles start finish es) :
    ∀ e ∈ es, start ≤ e.start := by
  induction es generalizing start with
  | nil => simp
  | cons e es ih =>
    obtain ⟨rfl, hle, htail⟩ := h
    intro f hf
    rcases List.mem_cons.mp hf with rfl | hf
    · exact le_refl _
    · exact hle.trans (ih htail f hf)

theorem Tiles.ascending {start finish : ℕ} {es : List Extent} (h : Tiles start finish es) :
    es.Pairwise fun e f => e.finish ≤ f.start := by
  induction es generalizing start with
  | nil => exact List.Pairwise.nil
  | cons e es ih =>
    obtain ⟨-, -, htail⟩ := h
    exact List.Pairwise.cons htail.start_le (ih htail)

theorem Tiles.disjoint {start finish : ℕ} {es : List Extent} (h : Tiles start finish es) :
    es.Pairwise fun e f => Disjoint e.addresses f.addresses := by
  apply h.ascending.imp
  intro e f hle
  rw [Extent.disjoint_iff]
  exact .inl hle

structure VirtScript where
  ramLength : ℕ
  heapLength : ℕ

def riscvQemu : VirtScript := ⟨2048 * 2 ^ 20, 1024 * 2 ^ 20⟩

def riscvWamrQemu : VirtScript := ⟨1024 * 2 ^ 20, 512 * 2 ^ 20⟩

def virtOrigin : ℕ := 0x80200000

def virtStackLength : ℕ := 128 * 2 ^ 20

structure VirtImage where
  text : OutputSection
  rodata : OutputSection
  data : OutputSection
  bss : OutputSection

namespace VirtImage

def sections (image : VirtImage) : List OutputSection :=
  [image.text, image.rodata, image.data, image.bss]

def extents (image : VirtImage) : List Extent := place virtOrigin image.sections

def textArea (image : VirtImage) : Extent := image.text.extent virtOrigin

/-- `PROVIDE(__global_pointer$ = . + 0x800)`, after the `ALIGN(8)` that follows `.text`. -/
def globalPointer (image : VirtImage) : ℕ := alignUp image.textArea.finish 8 + 0x800

def bssEnd (image : VirtImage) : ℕ := nextFree virtOrigin image.sections

def heapStart (image : VirtImage) : ℕ := alignUp image.bssEnd 0x1000

def heapEnd (script : VirtScript) (image : VirtImage) : ℕ := image.heapStart + script.heapLength

def stackTop (script : VirtScript) (image : VirtImage) : ℕ :=
  image.heapEnd script + virtStackLength

def endMarker (script : VirtScript) (image : VirtImage) : ℕ := image.stackTop script

def Accepted (script : VirtScript) (image : VirtImage) : Prop :=
  -- the linker checks the sections against the region, but not what moves `.` after them
  image.bssEnd ≤ virtOrigin + script.ramLength

def heapArea (script : VirtScript) (image : VirtImage) : Extent :=
  ⟨image.heapStart, image.heapEnd script⟩

def stackArea (script : VirtScript) (image : VirtImage) : Extent :=
  ⟨image.heapEnd script, image.stackTop script⟩

theorem virtOrigin_le_bssEnd (image : VirtImage) : virtOrigin ≤ image.bssEnd := le_nextFree _ _

theorem textArea_le_bssEnd (image : VirtImage) : image.textArea.finish ≤ image.bssEnd :=
  le_nextFree image.textArea.finish [image.rodata, image.data, image.bss]

theorem bssEnd_le_heapStart (image : VirtImage) : image.bssEnd ≤ image.heapStart :=
  le_alignUp (by decide)

theorem heapStart_lt (image : VirtImage) : image.heapStart < image.bssEnd + 0x1000 :=
  alignUp_lt (by decide)

end VirtImage

def wordSection (size : ℕ) : OutputSection := ⟨size, 8, by decide⟩

def smallImage : VirtImage :=
  ⟨wordSection 0x4000, wordSection 0x1000, wordSection 0x800, wordSection 0x2000⟩

def zkvmOrigin : ℕ := 0xa0020000

def zkvmLength : ℕ := 0x1FFE0000

structure ZkvmImage where
  data : OutputSection
  bss : OutputSection

namespace ZkvmImage

def dataArea (image : ZkvmImage) : Extent := image.data.extent zkvmOrigin

def bssArea (image : ZkvmImage) : Extent := image.bss.extent image.dataArea.finish

def initStackTop (image : ZkvmImage) : ℕ := alignUp image.bssArea.finish 8 + 0x100000

def Accepted (image : ZkvmImage) : Prop := image.bssArea.finish ≤ zkvmOrigin + zkvmLength

def stackArea (image : ZkvmImage) : Extent := ⟨image.bssArea.finish, image.initStackTop⟩

theorem dataArea_le_bssArea (image : ZkvmImage) : image.dataArea.finish ≤ image.bssArea.start :=
  le_alignUp image.bss.align_pos

theorem bssArea_lt_initStackTop (image : ZkvmImage) : image.bssArea.finish < image.initStackTop := by
  have h : image.bssArea.finish ≤ alignUp image.bssArea.finish 8 := le_alignUp (by decide)
  rw [initStackTop]
  omega

end ZkvmImage

end Wasrisc.LinkerLayout
