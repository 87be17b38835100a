import Wasrisc.BareMetalConsole
import Wasrisc.NearestEven

namespace Wasrisc.WasiSnapshotPreview1

open AddressedMemory HostMemory NearestEven

/-- What `printf` writes for a format and its arguments: that of main.c on the bare-metal targets,
the C library's on the others. -/
structure Libc where
  printf : String → List U64 → List U8

def bareMetal : Libc := ⟨fun fmt _ => BareMetalConsole.printf (BareMetalConsole.literal fmt)⟩

structure WasmMemory where
  data : U64
  size : ℕ
  size_le : size ≤ 2 ^ 32
  addressable : data.toNat + size ≤ 2 ^ 64

def onePage : WasmMemory := ⟨0xa1040000, 65536, by decide, by decide⟩

structure Host where
  ram : Ram
  console : List U8
  ticks : BitVec 64

def Host.printf (h : Host) (libc : Libc) (fmt : String) (args : List U64) : Host :=
  { h with console := h.console ++ libc.printf fmt args }

def wasiErrnoSuccess : U32 := 0
def wasiErrnoBadf : U32 := 8
def wasiErrnoNomem : U32 := 48

/-- `i32_load` of `w2c2_base.h`, which checks no bounds; so do the two stores. -/
def i32Load (memory : WasmMemory) (address : U64) (ram : Ram) : U32 :=
  load32 ram (memory.data + address)

def i32Store (memory : WasmMemory) (address : U64) (v : U32) (ram : Ram) : Ram :=
  store32 ram (memory.data + address) v

def i64Store (memory : WasmMemory) (address : U64) (v : U64) (ram : Ram) : Ram :=
  store64 ram (memory.data + address) v

def stub (libc : Libc) (fmt : String) (args : List U64) (errno : U32) (h : Host) : U32 × Host :=
  (errno, h.printf libc fmt args)

def procExit {α : Type} (libc : Libc) (exit : CInt → Host → α) (l0 : U32) (h : Host) : α :=
  exit l0 (h.printf libc "wasi_snapshot_preview1__proc_exit\n" [])

def fdPrestatGet (libc : Libc) (wasiFD _resultPointer : U32) : Host → U32 × Host :=
  stub libc "wasi_snapshot_preview1__fd_prestat_get(wasiFD=%d)\n" [wasiFD.setWidth 64] wasiErrnoBadf

def fdPrestatDirName (libc : Libc) (_l0 _l1 _l2 : U32) : Host → U32 × Host :=
  stub libc "wasi_snapshot_preview1__fd_prestat_dir_name\n" [] 0

def fdFdstatGet (libc : Libc) (wasiFD _resultPointer : U32) : Host → U32 × Host :=
  stub libc "wasi_snapshot_preview1__fd_fdstat_get(wasiFD=%d)\n" [wasiFD.setWidth 64] 0

def fdFdstatSetFlags (libc : Libc) (_l0 _l1 : U32) : Host → U32 × Host :=
  stub libc "wasi_snapshot_preview1__fd_fdstat_set_flags\n" [] wasiErrnoBadf

def pathFilestatGet (libc : Libc) (_l0 _l1 _l2 _l3 _l4 : U32) : Host → U32 × Host :=
  stub libc "wasi_snapshot_preview1__path_filestat_get\n" [] 0

def environSizesGet (libc : Libc) (_l0 _l1 : U32) : Host → U32 × Host :=
  stub libc "wasi_snapshot_preview1__environ_sizes_get\n" [] 0

def adapterCloseBadfd (libc : Libc) (_l0 : U32) : Host → U32 × Host :=
  stub libc "wasi_snapshot_preview1__adapter_close_badfd\n" [] 0

def fdAdvise (libc : Libc) (_l0 : U32) (_l1 _l2 : U64) (_l3 : U32) : Host → U32 × Host :=
  stub libc "wasi_snapshot_preview1__fd_advise\n" [] 0

def fdClose (libc : Libc) (_l0 : U32) : Host → U32 × Host :=
  stub libc "wasi_snapshot_preview1__fd_close\n" [] 0

def fdRead (libc : Libc) (wasiFD _iovecsPointer _iovecsCount _resultPointer : U32) :
    Host → U32 × Host :=
  stub libc "wasi_snapshot_preview1__fd_read(wasiFD=%d)\n" [wasiFD.setWidth 64] wasiErrnoBadf

def environGet (libc : Libc) (_l0 _l1 : U32) : Host → U32 × Host :=
  stub libc "wasi_snapshot_preview1__environ_get\n" [] 0

def fdSeek (libc : Libc) (_l0 : U32) (_l1 : U64) (_l2 _l3 : U32) : Host → U32 × Host :=
  stub libc "wasi_snapshot_preview1__fd_seek\n" [] 0

def schedYield (libc : Libc) : Host → U32 × Host :=
  stub libc "wasi_snapshot_preview1__sched_yield\n" [] 0

def pathUnlinkFile (libc : Libc) (_l0 _l1 _l2 : U32) : Host → U32 × Host :=
  stub libc "wasi_snapshot_preview1__path_unlink_file\n" [] 0

def randomGet (libc : Libc) (_l0 _l1 : U32) : Host → U32 × Host :=
  stub libc "wasi_snapshot_preview1__random_get\n" [] 0

def argsGet (libc : Libc) (_l0 _l1 : U32) : Host → U32 × Host :=
  stub libc "wasi_snapshot_preview1__args_get\n" [] 0

def argsSizesGet (libc : Libc) (_l0 _l1 : U32) : Host → U32 × Host :=
  stub libc "wasi_snapshot_preview1__args_sizes_get\n" [] 0

def fdPread (libc : Libc) (wasiFD _iovecsPointer _iovecsCount : U32) (_offset : U64)
    (_resultPointer : U32) : Host → U32 × Host :=
  stub libc "wasi_snapshot_preview1__fd_pread(wasiFD=%d)\n" [wasiFD.setWidth 64] wasiErrnoBadf

def pathReadlink (libc : Libc) (_l0 _l1 _l2 _l3 _l4 _l5 : U32) : Host → U32 × Host :=
  stub libc "wasi_snapshot_preview1__path_readlink\n" [] wasiErrnoBadf

def pathRename (libc : Libc) (_l0 _l1 _l2 _l3 _l4 _l5 : U32) : Host → U32 × Host :=
  stub libc "wasi_snapshot_preview1__path_rename\n" [] wasiErrnoBadf

def fdFilestatGet (libc : Libc) (wasiFD _resultPointer : U32) : Host → U32 × Host :=
  stub libc "wasi_snapshot_preview1__fd_filestat_get(wasiFD=%d)\n"
    [wasiFD.setWidth 64] wasiErrnoBadf

def pathOpen (libc : Libc) (_l0 _l1 _l2 _l3 _l4 : U32) (_l5 _l6 : U64) (_l7 _l8 : U32) :
    Host → U32 × Host :=
  stub libc "wasi_snapshot_preview1__path_open\n" [] wasiErrnoBadf

def pathRemoveDirectory (libc : Libc) (_l0 _l1 _l2 : U32) : Host → U32 × Host :=
  stub libc "wasi_snapshot_preview1__path_remove_directory\n" [] wasiErrnoBadf

def fdSync (libc : Libc) (wasiFD : U32) : Host → U32 × Host :=
  stub libc "wasi_snapshot_preview1__fd_sync(wasiFD=%d)\n" [wasiFD.setWidth 64] wasiErrnoBadf

def pathCreateDirectory (libc : Libc) (_l0 _l1 _l2 : U32) : Host → U32 × Host :=
  stub libc "wasi_snapshot_preview1__path_create_directory\n" [] wasiErrnoBadf

def fdReaddir (libc : Libc) (wasiFD _bufferPointer _bufferLen : U32) (_cookie : U64)
    (_resultPointer : U32) : Host → U32 × Host :=
  stub libc "wasi_snapshot_preview1__fd_readdir(wasiFD=%d)\n" [wasiFD.setWidth 64] wasiErrnoBadf

def fdFilestatSetSize (libc : Libc) (wasiFD : U32) (size : U64) : Host → U32 × Host :=
  stub libc "wasi_snapshot_preview1__fd_filestat_set_size(wasiFD=%d, size=%llu)\n"
    [wasiFD.setWidth 64, size] wasiErrnoBadf

def pollOneoff (_inPointer _outPointer _subscriptionCount _eventCount : U32) (h : Host) :
    U32 × Host :=
  (wasiErrnoSuccess, h)

def timeOffset : U64 := 1758880055000000000

def pseudoclockIncrements : ℤ := 100000000

/-- `ticks += PSEUDOCLOCK_INCREMENTS`: both the conversion of `ticks` to `double` and the sum are
rounded to 53 bits before the result is converted back. -/
def advance (ticks : BitVec 64) : BitVec 64 :=
  BitVec.ofInt 64 (roundInt 53 (roundInt 53 ticks.toInt + pseudoclockIncrements))

def clockTimeGet (memory : WasmMemory) (_clockID : U32) (_precision : U64) (resultPointer : U32)
    (h : Host) : U32 × Host :=
  (0, { h with
    ram := i64Store memory (resultPointer.setWidth 64) (timeOffset + h.ticks) h.ram
    ticks := advance h.ticks })

structure Iovec where
  iovBase : U64
  iovLen : SizeT

def ciovecSize : SizeT := 8

def iovecsSize : U32 := 10

def putLoop (ram : Ram) (v : Iovec) : ℕ → CInt → List U8
  | 0, _ => []
  | left + 1, i =>
    -- the `int` is converted to `size_t`, and wraps around after `INT_MAX`
    if i.signExtend 64 < v.iovLen then
      ram (v.iovBase + i.signExtend 64) :: putLoop ram v left (i + 1)
    else []

def ciovecLoop (libc : Libc) (memory : WasmMemory) (ram : Ram)
    (wasiFD ciovecsPointer ciovecsCount : U32) :
    ℕ → U32 → U64 → List U8 → U64 × List U8
  | 0, _, total, console => (total, console)
  | left + 1, ciovecIndex, total, console =>
    if ciovecIndex < ciovecsCount ∧ ciovecIndex < iovecsSize then
      let ciovecPointer := ciovecsPointer.setWidth 64 + ciovecIndex.setWidth 64 * ciovecSize
      let bufferPointer := i32Load memory ciovecPointer ram
      let length := i32Load memory (ciovecPointer + 4) ram
      let log := if wasiFD ≠ 1 ∧ wasiFD ≠ 2 then
        libc.printf "length = %d\n" [length.setWidth 64] else []
      let iovec : Iovec := ⟨memory.data + bufferPointer.setWidth 64, length.setWidth 64⟩
      ciovecLoop libc memory ram wasiFD ciovecsPointer ciovecsCount left (ciovecIndex + 1)
        (total + length.setWidth 64)
        (console ++ log ++ putLoop ram iovec iovec.iovLen.toNat 0)
    else (total, console)

def fdWrite (libc : Libc) (memory : WasmMemory)
    (wasiFD ciovecsPointer ciovecsCount resultPointer : U32) (h : Host) : U32 × Host :=
  let h := if wasiFD ≠ 1 ∧ wasiFD ≠ 2 then
    h.printf libc "wasi_snapshot_preview1__fd_write(wasiFD=%d)\n" [wasiFD.setWidth 64] else h
  if iovecsSize < ciovecsCount then
    (wasiErrnoNomem, h.printf libc "fd_write: unexpected iovecs\n" [])
  else
    let r := ciovecLoop libc memory h.ram wasiFD ciovecsPointer ciovecsCount iovecsSize.toNat 0 0
      h.console
    (0, { h with
      ram := i32Store memory (resultPointer.setWidth 64) (r.1.setWidth 32) h.ram
      console := r.2 })

def ciovecAddress (ciovecsPointer : U32) (i : ℕ) : U64 :=
  ciovecsPointer.setWidth 64 + BitVec.ofNat 64 i * ciovecSize

def bufferPointer (memory : WasmMemory) (ram : Ram) (ciovecsPointer : U32) (i : ℕ) : U32 :=
  i32Load memory (ciovecAddress ciovecsPointer i) ram

def bufferLength (memory : WasmMemory) (ram : Ram) (ciovecsPointer : U32) (i : ℕ) : U32 :=
  i32Load memory (ciovecAddress ciovecsPointer i + 4) ram

def entryIovec (memory : WasmMemory) (ram : Ram) (ciovecsPointer : U32) (i : ℕ) : Iovec :=
  ⟨memory.data + (bufferPointer memory ram ciovecsPointer i).setWidth 64,
    (bufferLength memory ram ciovecsPointer i).setWidth 64⟩

def descriptorLog (libc : Libc) (wasiFD : U32) (fmt : String) (v : U32) : List U8 :=
  if wasiFD ≠ 1 ∧ wasiFD ≠ 2 then libc.printf fmt [v.setWidth 64] else []

def entryOutput (libc : Libc) (memory : WasmMemory) (ram : Ram) (wasiFD ciovecsPointer : U32)
    (i : ℕ) : List U8 :=
  let iovec := entryIovec memory ram ciovecsPointer i
  descriptorLog libc wasiFD "length = %d\n" (bufferLength memory ram ciovecsPointer i) ++
    putLoop ram iovec iovec.iovLen.toNat 0

def totalLength (memory : WasmMemory) (ram : Ram) (ciovecsPointer : U32) (is : List ℕ) : U64 :=
  (is.map fun i => (bufferLength memory ram ciovecsPointer i).setWidth 64).sum

theorem bufferPointer_congr {memory : WasmMemory} {ram ram' : Ram} {ciovecsPointer : U32} {i : ℕ}
    (h : Set.EqOn ram ram' (span (memory.data + ciovecAddress ciovecsPointer i) 8)) :
    bufferPointer memory ram ciovecsPointer i = bufferPointer memory ram' ciovecsPointer i := by
  apply load32_congr
  intro a ha
  rw [mem_span] at ha
  exact h (mem_span.mpr (by omega))

theorem bufferLength_congr {memory : WasmMemory} {ram ram' : Ram} {ciovecsPointer : U32} {i : ℕ}
    (h : Set.EqOn ram ram' (span (memory.data + ciovecAddress ciovecsPointer i) 8)) :
    bufferLength memory ram ciovecsPointer i = bufferLength memory ram' ciovecsPointer i := by
  apply load32_congr
  intro a ha
  obtain ⟨j, hj, rfl⟩ := offset_of_mem_span ha
  apply h
  rw [← BitVec.add_assoc, BitVec.add_assoc, show (4 : U64) = BitVec.ofNat 64 4 from rfl,
    ← BitVec.ofNat_add]
  exact add_mem_span (by omega)

theorem totalLength_congr {memory : WasmMemory} {ram ram' : Ram} {ciovecsPointer : U32} {n : ℕ}
    (h : ∀ i < n, Set.EqOn ram ram' (span (memory.data + ciovecAddress ciovecsPointer i) 8)) :
    totalLength memory ram ciovecsPointer (List.range n) =
      totalLength memory ram' ciovecsPointer (List.range n) := by
  refine congrArg List.sum (List.map_congr_left fun i hi => ?_)
  rw [bufferLength_congr (h i (List.mem_range.mp hi))]

theorem ciovecIndex_lt_iff {ciovecsCount : U32} {i : ℕ} (hi : i < 10) :
    (BitVec.ofNat 32 i < ciovecsCount ∧ BitVec.ofNat 32 i < iovecsSize) ↔
      i < ciovecsCount.toNat := by
  rw [BitVec.lt_def, BitVec.lt_def, BitVec.toNat_ofNat, show iovecsSize.toNat = 10 from rfl]
  omega

/-- The values that `ciovecIndex` takes, with the one at which the loop ends. -/
def ciovecIndices (ciovecsCount : U32) : ℕ → U32 → List U32
  | 0, ciovecIndex => [ciovecIndex]
  | left + 1, ciovecIndex =>
    if ciovecIndex < ciovecsCount ∧ ciovecIndex < iovecsSize then
      ciovecIndex :: ciovecIndices ciovecsCount left (ciovecIndex + 1)
    else [ciovecIndex]

def ciovecRound (libc : Libc) (memory : WasmMemory) (ram : Ram) (wasiFD ciovecsPointer : U32)
    (r : U64 × List U8) (ciovecIndex : U32) : U64 × List U8 :=
  let ciovecPointer := ciovecsPointer.setWidth 64 + ciovecIndex.setWidth 64 * ciovecSize
  let length := i32Load memory (ciovecPointer + 4) ram
  let iovec : Iovec :=
    ⟨memory.data + (i32Load memory ciovecPointer ram).setWidth 64, length.setWidth 64⟩
  (r.1 + length.setWidth 64, r.2 ++ descriptorLog libc wasiFD "length = %d\n" length ++
    putLoop ram iovec iovec.iovLen.toNat 0)

theorem ciovecIndices_ne_nil (ciovecsCount : U32) (left : ℕ) (ciovecIndex : U32) :
    ciovecIndices ciovecsCount left ciovecIndex ≠ [] := by
  cases left with
  | zero => exact List.cons_ne_nil _ _
  | succ left =>
    rw [ciovecIndices]
    split <;> exact List.cons_ne_nil _ _

theorem ciovecLoop_indices (libc : Libc) (memory : WasmMemory) (ram : Ram)
    (wasiFD ciovecsPointer ciovecsCount : U32) (left : ℕ) (ciovecIndex : U32) (total : U64)
    (console : List U8) :
    ciovecLoop libc memory ram wasiFD ciovecsPointer ciovecsCount left ciovecIndex total console =
      (ciovecIndices ciovecsCount left ciovecIndex).dropLast.foldl
        (ciovecRound libc memory ram wasiFD ciovecsPointer) (total, console) := by
  induction left generalizing ciovecIndex total console with
  | zero => rfl
  | succ left ih =>
    rw [ciovecLoop, ciovecIndices]
    by_cases hguard : ciovecIndex < ciovecsCount ∧ ciovecIndex < iovecsSize
    · rw [if_pos hguard, if_pos hguard,
        List.dropLast_cons_of_ne_nil (ciovecIndices_ne_nil _ _ _), List.foldl_cons]
      exact ih _ _ _
    · rw [if_neg hguard, if_neg hguard]
      rfl

theorem ciovecIndices_eq {ciovecsCount : U32} (hcount : ciovecsCount.toNat ≤ 10) (left i : ℕ)
    (hleft : i + left = 10) (hi : i ≤ ciovecsCount.toNat) :
    ciovecIndices ciovecsCount left (BitVec.ofNat 32 i) =
      (List.range' i (ciovecsCount.toNat - i + 1)).map (BitVec.ofNat 32) := by
  induction left generalizing i with
  | zero => simp [ciovecIndices, show ciovecsCount.toNat - i = 0 by omega]
  | succ left ih =>
    have hguard : _ ↔ i < ciovecsCount.toNat := ciovecIndex_lt_iff (by omega)
    have hsucc : BitVec.ofNat 32 i + 1 = BitVec.ofNat 32 (i + 1) := (BitVec.ofNat_add _ _).symm
    rw [ciovecIndices]
    by_cases hlt : i < ciovecsCount.toNat
    · rw [if_pos (hguard.mpr hlt), hsucc, ih (i + 1) (by omega) hlt,
        show ciovecsCount.toNat - i + 1 = (ciovecsCount.toNat - (i + 1) + 1) + 1 by omega,
        List.range'_succ (n := ciovecsCount.toNat - (i + 1) + 1), List.map_cons]
    · rw [if_neg (mt hguard.mp hlt), show ciovecsCount.toNat - i = 0 by omega]
      rfl

theorem ciovecRounds_eq (libc : Libc) (memory : WasmMemory) (ram : Ram)
    (wasiFD ciovecsPointer : U32) {is : List ℕ} (his : ∀ i ∈ is, i < 2 ^ 32) (total : U64)
    (console : List U8) :
    (is.map (BitVec.ofNat 32)).foldl (ciovecRound libc memory ram wasiFD ciovecsPointer)
        (total, console) =
      (total + totalLength memory ram ciovecsPointer is,
        console ++ is.flatMap (entryOutput libc memory ram wasiFD ciovecsPointer)) := by
  induction is generalizing total console with
  | nil => simp [totalLength]
  | cons i is ih =>
    rw [List.forall_mem_cons] at his
    have hindex : (BitVec.ofNat 32 i).setWidth 64 = BitVec.ofNat 64 i := setWidth_ofNat his.1
    rw [List.map_cons, List.foldl_cons, ciovecRound, hindex]
    simp only
    rw [ih his.2]
    simp only [totalLength, List.map_cons, List.sum_cons, List.flatMap_cons, entryOutput,
      entryIovec, bufferLength, bufferPointer, ciovecAddress, List.append_assoc, BitVec.add_assoc]

theorem ciovecLoop_eq (libc : Libc) (memory : WasmMemory) (ram : Ram)
    (wasiFD ciovecsPointer ciovecsCount : U32) (hcount : ciovecsCount.toNat ≤ 10)
    (console : List U8) :
    ciovecLoop libc memory ram wasiFD ciovecsPointer ciovecsCount iovecsSize.toNat 0 0 console =
      (totalLength memory ram ciovecsPointer (List.range ciovecsCount.toNat),
        console ++ (List.range ciovecsCount.toNat).flatMap
          (entryOutput libc memory ram wasiFD ciovecsPointer)) := by
  have hindices : (ciovecIndices ciovecsCount iovecsSize.toNat 0).dropLast =
      (List.range ciovecsCount.toNat).map (BitVec.ofNat 32) := by
    have heq := ciovecIndices_eq hcount 10 0 (by omega) (Nat.zero_le _)
    rw [Nat.sub_zero, ← List.range_eq_range', List.range_succ, List.map_append] at heq
    exact (congrArg List.dropLast heq).trans List.dropLast_concat
  have hlt : ∀ i ∈ List.range ciovecsCount.toNat, i < 2 ^ 32 := by
    intro i hi
    rw [List.mem_range] at hi
    omega
  rw [ciovecLoop_indices, hindices, ciovecRounds_eq libc memory ram wasiFD ciovecsPointer hlt]
  exact congrArg (·, _) (BitVec.zero_add _)

theorem descriptorLog_eq (libc : Libc) (wasiFD v : U32) (fmt : String) (h : Host) :
    (if wasiFD ≠ 1 ∧ wasiFD ≠ 2 then h.printf libc fmt [v.setWidth 64] else h) =
      { h with console := h.console ++ descriptorLog libc wasiFD fmt v } := by
  rw [descriptorLog]
  split
  · rfl
  · simp

theorem iovecsSize_lt_iff {n : U32} : iovecsSize < n ↔ 10 < n.toNat := by
  rw [BitVec.lt_def, show iovecsSize.toNat = 10 from rfl]

theorem fdWrite_eq (libc : Libc) (memory : WasmMemory)
    (wasiFD ciovecsPointer ciovecsCount resultPointer : U32) (h : Host)
    (hcount : ciovecsCount.toNat ≤ 10) :
    fdWrite libc memory wasiFD ciovecsPointer ciovecsCount resultPointer h =
      (0, { h with
        ram := i32Store memory (resultPointer.setWidth 64) ((totalLength memory h.ram ciovecsPointer
          (List.range ciovecsCount.toNat)).setWidth 32) h.ram
        console := h.console ++ descriptorLog libc wasiFD
          "wasi_snapshot_preview1__fd_write(wasiFD=%d)\n" wasiFD ++
            (List.range ciovecsCount.toNat).flatMap
              (entryOutput libc memory h.ram wasiFD ciovecsPointer) }) := by
  rw [fdWrite, descriptorLog_eq]
  simp only
  rw [if_neg (by rw [iovecsSize_lt_iff]; omega),
    ciovecLoop_eq libc memory h.ram wasiFD ciovecsPointer ciovecsCount hcount]

theorem fdWrite_refused (libc : Libc) (memory : WasmMemory)
    (wasiFD ciovecsPointer ciovecsCount resultPointer : U32) (h : Host)
    (hcount : 10 < ciovecsCount.toNat) :
    fdWrite libc memory wasiFD ciovecsPointer ciovecsCount resultPointer h =
      (wasiErrnoNomem, { h with
        console := h.console ++ descriptorLog libc wasiFD
          "wasi_snapshot_preview1__fd_write(wasiFD=%d)\n" wasiFD ++
            libc.printf "fd_write: unexpected iovecs\n" [] }) := by
  rw [fdWrite, descriptorLog_eq]
  simp only
  rw [if_pos (iovecsSize_lt_iff.mpr hcount)]
  rfl

end Wasrisc.WasiSnapshotPreview1
