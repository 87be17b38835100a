import Wasrisc.BareMetalConsole

namespace Wasrisc.Memlib

open AddressedMemory HostMemory BareMetalConsole

/-- What memlib.c takes from `w2c2_base.h`: the size of `wasmMemory`, a small struct with the data
pointer among its fields. -/
structure W2c2Base where
  sizeofWasmMemory : ℕ
  holds_pointer : 8 ≤ sizeofWasmMemory
  within_page : sizeofWasmMemory ≤ 4096

def ramStart : U32 := 0xa0020000
def ramSize : U32 := 0x1FFE0000
def heapOffset : U32 := 0x01000000
def heapStart : U32 := ramStart + heapOffset
def heapSize : U32 := ramSize - heapOffset

def wasmMemoryStructBufSize (W : W2c2Base) : CInt := BitVec.ofNat 32 W.sizeofWasmMemory
def wasmFunctionTableBufSize : CInt := 0x100000

def memoryDataSizeOk (W : W2c2Base) (size : SizeT) : Bool :=
  -- the sum is an `unsigned int` up to the addition of the `size_t`
  (heapStart + wasmMemoryStructBufSize W + wasmFunctionTableBufSize).setWidth 64 + size ≤
    (heapStart + heapSize).setWidth 64

inductive AllocT where
  | wasmMemoryStructAlloc
  | wasmFunctionTableAlloc
  | wasmMemoryDataAlloc
  deriving DecidableEq

structure Machine where
  ram : Ram
  uart : List U8

def Machine.puts (m : Machine) (s : String) : Machine :=
  { m with uart := m.uart ++ BareMetalConsole.puts (literal s) }

@[simp] theorem Machine.puts_ram (m : Machine) (s : String) : (m.puts s).ram = m.ram := rfl

def malloc (W : W2c2Base) (size : SizeT) (allocType : AllocT) (m : Machine) : U64 × Machine :=
  match allocType with
  | .wasmMemoryStructAlloc =>
    (heapStart.setWidth 64, m.puts "malloc: allocate wasm memory struct\n")
  | .wasmFunctionTableAlloc =>
    ((heapStart + heapSize).setWidth 64 - size - 1, m.puts "malloc: table allocate\n")
  | .wasmMemoryDataAlloc =>
    let m := m.puts "malloc: allocate memory->data\n"
    if !memoryDataSizeOk W size then (0, m.puts "malloc: not enough space available\n")
    else ((heapStart + wasmMemoryStructBufSize W).setWidth 64, m)

def allocType (W : W2c2Base) (size : SizeT) : AllocT :=
  if size = BitVec.ofNat 64 W.sizeofWasmMemory then .wasmMemoryStructAlloc
  else if size = 1 then .wasmMemoryDataAlloc
  else .wasmFunctionTableAlloc

def calloc (W : W2c2Base) (nmemb size : SizeT) (m : Machine) : U64 × Machine :=
  -- `SKIP_ALLOC_ZEROING` is defined, so the block is handed out as it is
  malloc W (nmemb * size) (allocType W size) (m.puts "calloc()\n")

def realloc (W : W2c2Base) (ptr : U64) (size : SizeT) (m : Machine) : U64 × Machine :=
  if !memoryDataSizeOk W size then (0, m.puts "realloc: not enough space available\n")
  else (ptr, m)

/-- `_memset` of memops.S with the contract of its header comment: it fills the first `sz` bytes
at `dst` with the low byte of `ch` and returns `dst`. -/
structure Memops where
  memset : U64 → CInt → SizeT → Ram → U64 × Ram
  memset_fills : ∀ dst ch sz ram,
    memset dst ch sz ram = (dst, fill ram dst sz.toNat (ch.setWidth 8))

def memset (M : Memops) (b : U64) (c : CInt) (len : SizeT) (ram : Ram) : U64 × Ram :=
  if wasmFunctionTableBufSize.signExtend 64 < len ∧ c = 0 then (b, ram) else M.memset b c len ram

theorem heapStart_toNat : (heapStart.setWidth 64).toNat = 0xa1020000 := by decide

theorem heapEnd_toNat : ((heapStart + heapSize).setWidth 64).toNat = 0xC0000000 := by decide

theorem heapSize_toNat : heapSize.toNat = 0x1EFE0000 := by decide

theorem dataBase_toNat (W : W2c2Base) :
    ((heapStart + wasmMemoryStructBufSize W).setWidth 64).toNat =
      0xa1020000 + W.sizeofWasmMemory := by
  have hw := W.within_page
  have hs : heapStart.toNat = 0xa1020000 := by decide
  rw [BitVec.toNat_setWidth, BitVec.toNat_add, hs, wasmMemoryStructBufSize, BitVec.toNat_ofNat]
  omega

theorem dataLimit_toNat (W : W2c2Base) :
    ((heapStart + wasmMemoryStructBufSize W + wasmFunctionTableBufSize).setWidth 64).toNat =
      0xa1120000 + W.sizeofWasmMemory := by
  have hw := W.within_page
  have hs : heapStart.toNat = 0xa1020000 := by decide
  have ht : wasmFunctionTableBufSize.toNat = 0x100000 := by decide
  rw [BitVec.toNat_setWidth, BitVec.toNat_add, BitVec.toNat_add, hs, ht, wasmMemoryStructBufSize,
    BitVec.toNat_ofNat]
  omega

theorem memoryDataSizeOk_iff (W : W2c2Base) (size : SizeT) : memoryDataSizeOk W size = true ↔
    (0xa1120000 + W.sizeofWasmMemory + size.toNat) % 2 ^ 64 ≤ 0xC0000000 := by
  rw [memoryDataSizeOk, decide_eq_true_eq, BitVec.le_def, BitVec.toNat_add, dataLimit_toNat,
    heapEnd_toNat]

theorem malloc_ram (W : W2c2Base) (size : SizeT) (t : AllocT) (m : Machine) :
    (malloc W size t m).2.ram = m.ram := by
  cases t with
  | wasmMemoryStructAlloc => rfl
  | wasmFunctionTableAlloc => rfl
  | wasmMemoryDataAlloc => rw [malloc]; split <;> rfl

theorem calloc_ram (W : W2c2Base) (nmemb size : SizeT) (m : Machine) :
    (calloc W nmemb size m).2.ram = m.ram := malloc_ram W _ _ _

theorem realloc_ram (W : W2c2Base) (ptr : U64) (size : SizeT) (m : Machine) :
    (realloc W ptr size m).2.ram = m.ram := by
  rw [realloc]
  split <;> rfl

theorem allocType_struct (W : W2c2Base) :
    allocType W (BitVec.ofNat 64 W.sizeofWasmMemory) = .wasmMemoryStructAlloc := if_pos rfl

theorem allocType_one (W : W2c2Base) : allocType W 1 = .wasmMemoryDataAlloc := by
  have hw := W.holds_pointer
  have hp := W.within_page
  rw [allocType, if_neg, if_pos rfl]
  intro h
  have hone : 1 = W.sizeofWasmMemory % 2 ^ 64 :=
    (congrArg BitVec.toNat h).trans (BitVec.toNat_ofNat _ _)
  omega

theorem calloc_struct (W : W2c2Base) (nmemb : SizeT) (m : Machine) :
    (calloc W nmemb (BitVec.ofNat 64 W.sizeofWasmMemory) m).1 = heapStart.setWidth 64 := by
  rw [calloc, allocType_struct, malloc]

theorem calloc_table (W : W2c2Base) (n e : SizeT) (m : Machine) (he : e ≠ 1)
    (hs : e ≠ BitVec.ofNat 64 W.sizeofWasmMemory) :
    (calloc W n e m).1 = (heapStart + heapSize).setWidth 64 - n * e - 1 := by
  rw [calloc, allocType, if_neg hs, if_neg he, malloc]

theorem calloc_data (W : W2c2Base) (bytes : SizeT) (m : Machine) : (calloc W bytes 1 m).1 =
    if memoryDataSizeOk W bytes then (heapStart + wasmMemoryStructBufSize W).setWidth 64 else 0 := by
  rw [calloc, allocType_one, malloc, show bytes * 1 = bytes from BitVec.mul_one bytes]
  cases memoryDataSizeOk W bytes <;> rfl

theorem realloc_ptr (W : W2c2Base) (ptr : U64) (size : SizeT) (m : Machine) :
    (realloc W ptr size m).1 = if memoryDataSizeOk W size then ptr else 0 := by
  rw [realloc]
  cases memoryDataSizeOk W size <;> rfl

end Wasrisc.Memlib
