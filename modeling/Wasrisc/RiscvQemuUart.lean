import Wasrisc.ExitStatus
import Wasrisc.PolledSerial

namespace Wasrisc.RiscvQemuUart

open HostMemory PolledSerial BareMetalConsole
open WasiSnapshotPreview1 (WasmMemory Host Iovec bareMetal ciovecSize iovecsSize wasiErrnoSuccess
  wasiErrnoBadf wasiErrnoNomem i32Load i32Store i64Store timeOffset advance)
open WasiImports (WasiCall)
open ExitStatus (Action)

def uartLsrThre : U8 := 1 <<< 5

def writeuartc (c : U8) : Code Unit := do
  Code.wait uartLsrThre
  Code.putThr c

def putchar (c : CInt) : Code CInt := do
  writeuartc (c.setWidth 8)
  pure 1

def writeLoop (s : CString) : ℕ → ℕ → Code Unit
  | 0, _ => pure ()
  | left + 1, i =>
    if i < strlen s then do
      writeuartc (s i)
      writeLoop s left (i + 1)
    else pure ()

def puts (s : CString) : Code CInt := do
  writeLoop s strlenMax 0
  pure (BitVec.ofNat 32 (strlen s))

def printf (fmt : CString) : Code CInt := do
  writeLoop fmt strlenMax 0
  pure (BitVec.ofNat 32 (strlen fmt))

def putcharLoop (ram : Ram) (v : Iovec) : ℕ → CInt → Code Unit
  | 0, _ => pure ()
  | left + 1, i =>
    if i.signExtend 64 < v.iovLen then do
      -- `char` is unsigned on RISC-V
      let _ ← putchar ((ram (v.iovBase + i.signExtend 64)).setWidth 32)
      putcharLoop ram v left (i + 1)
    else pure ()

def ciovecLoop (memory : WasmMemory) (ram : Ram) (wasiFD ciovecsPointer ciovecsCount : U32) :
    ℕ → U32 → U64 → Code U64
  | 0, _, total => pure total
  | left + 1, ciovecIndex, total =>
    if ciovecIndex < ciovecsCount ∧ ciovecIndex < iovecsSize then do
      let ciovecPointer := ciovecsPointer.setWidth 64 + ciovecIndex.setWidth 64 * ciovecSize
      let bufferPointer := i32Load memory ciovecPointer ram
      let length := i32Load memory (ciovecPointer + 4) ram
      if wasiFD ≠ 1 ∧ wasiFD ≠ 2 then
        let _ ← printf (literal "length = %d\n")
      let iovec : Iovec := ⟨memory.data + bufferPointer.setWidth 64, length.setWidth 64⟩
      putcharLoop ram iovec iovec.iovLen.toNat 0
      ciovecLoop memory ram wasiFD ciovecsPointer ciovecsCount left (ciovecIndex + 1)
        (total + length.setWidth 64)
    else pure total

structure Core where
  ram : Ram
  ticks : BitVec 64

def core (h : Host) : Core := ⟨h.ram, h.ticks⟩

def fdWrite (memory : WasmMemory) (wasiFD ciovecsPointer ciovecsCount resultPointer : U32)
    (s : Core) : Code (U32 × Core) := do
  if wasiFD ≠ 1 ∧ wasiFD ≠ 2 then
    let _ ← printf (literal "wasi_snapshot_preview1__fd_write(wasiFD=%d)\n")
  if iovecsSize < ciovecsCount then
    let _ ← printf (literal "fd_write: unexpected iovecs\n")
    pure (wasiErrnoNomem, s)
  else
    let total ← ciovecLoop memory s.ram wasiFD ciovecsPointer ciovecsCount iovecsSize.toNat 0 0
    pure (0, { s with
      ram := i32Store memory (resultPointer.setWidth 64) (total.setWidth 32) s.ram })

def stub (fmt : String) (errno : U32) (s : Core) : Code (U32 × Core) := do
  let _ ← printf (literal fmt)
  pure (errno, s)

def clockTimeGet (memory : WasmMemory) (_clockID : U32) (_precision : U64) (resultPointer : U32)
    (s : Core) : Code (U32 × Core) :=
  pure (0, ⟨i64Store memory (resultPointer.setWidth 64) (timeOffset + s.ticks) s.ram,
    advance s.ticks⟩)

def drive (memory : WasmMemory) : WasiCall → Core → Code (U32 × Core)
  | .fdPrestatGet _ _ => stub "wasi_snapshot_preview1__fd_prestat_get(wasiFD=%d)\n" wasiErrnoBadf
  | .fdPrestatDirName _ _ _ => stub "wasi_snapshot_preview1__fd_prestat_dir_name\n" 0
  | .fdFdstatGet _ _ => stub "wasi_snapshot_preview1__fd_fdstat_get(wasiFD=%d)\n" 0
  | .fdFdstatSetFlags _ _ => stub "wasi_snapshot_preview1__fd_fdstat_set_flags\n" wasiErrnoBadf
  | .pathFilestatGet _ _ _ _ _ => stub "wasi_snapshot_preview1__path_filestat_get\n" 0
  | .environSizesGet _ _ => stub "wasi_snapshot_preview1__environ_sizes_get\n" 0
  | .pollOneoff _ _ _ _ => fun s => pure (wasiErrnoSuccess, s)
  | .adapterCloseBadfd _ => stub "wasi_snapshot_preview1__adapter_close_badfd\n" 0
  | .fdAdvise _ _ _ _ => stub "wasi_snapshot_preview1__fd_advise\n" 0
  | .fdClose _ => stub "wasi_snapshot_preview1__fd_close\n" 0
  | .fdRead _ _ _ _ => stub "wasi_snapshot_preview1__fd_read(wasiFD=%d)\n" wasiErrnoBadf
  | .environGet _ _ => stub "wasi_snapshot_preview1__environ_get\n" 0
  | .clockTimeGet clockID precision resultPointer =>
    clockTimeGet memory clockID precision resultPointer
  | .fdSeek _ _ _ _ => stub "wasi_snapshot_preview1__fd_seek\n" 0
  | .schedYield => stub "wasi_snapshot_preview1__sched_yield\n" 0
  | .fdWrite wasiFD ciovecsPointer ciovecsCount resultPointer =>
    fdWrite memory wasiFD ciovecsPointer ciovecsCount resultPointer
  | .pathUnlinkFile _ _ _ => stub "wasi_snapshot_preview1__path_unlink_file\n" 0
  | .randomGet _ _ => stub "wasi_snapshot_preview1__random_get\n" 0
  | .argsGet _ _ => stub "wasi_snapshot_preview1__args_get\n" 0
  | .argsSizesGet _ _ => stub "wasi_snapshot_preview1__args_sizes_get\n" 0
  | .fdPread _ _ _ _ _ => stub "wasi_snapshot_preview1__fd_pread(wasiFD=%d)\n" wasiErrnoBadf
  | .pathReadlink _ _ _ _ _ _ => stub "wasi_snapshot_preview1__path_readlink\n" wasiErrnoBadf
  | .pathRename _ _ _ _ _ _ => stub "wasi_snapshot_preview1__path_rename\n" wasiErrnoBadf
  | .fdFilestatGet _ _ => stub "wasi_snapshot_preview1__fd_filestat_get(wasiFD=%d)\n" wasiErrnoBadf
  | .pathOpen _ _ _ _ _ _ _ _ _ => stub "wasi_snapshot_preview1__path_open\n" wasiErrnoBadf
  | .pathRemoveDirectory _ _ _ => stub "wasi_snapshot_preview1__path_remove_directory\n" wasiErrnoBadf
  | .fdSync _ => stub "wasi_snapshot_preview1__fd_sync(wasiFD=%d)\n" wasiErrnoBadf
  | .pathCreateDirectory _ _ _ => stub "wasi_snapshot_preview1__path_create_directory\n" wasiErrnoBadf
  | .fdReaddir _ _ _ _ _ => stub "wasi_snapshot_preview1__fd_readdir(wasiFD=%d)\n" wasiErrnoBadf
  | .fdFilestatSetSize _ _ =>
    stub "wasi_snapshot_preview1__fd_filestat_set_size(wasiFD=%d, size=%llu)\n" wasiErrnoBadf

def testmodulePrintk (stack : CString) (val : U32) : Code Unit := do
  let buf := Function.update (Function.update stack 0 0x30) 1 0x78
  let buf := RiscvQemu.printkLoop 8 val buf
  let buf := Function.update (Function.update buf 10 0x0a) 11 0
  let _ ← puts buf

def driveAction (memory : WasmMemory) : Action → Core → Code Core
  | .guest (.store address bytes), s => pure { s with
      ram := AddressedMemory.write s.ram (memory.data + address.setWidth 64) bytes }
  | .guest (.call c), s => do
    let r ← drive memory c s
    pure r.2
  | .printk stack val, s => do
    testmodulePrintk stack val
    pure s

def driveAll (memory : WasmMemory) : List Action → Core → Code Core
  | [], s => pure s
  | a :: as, s => do
    let s ← driveAction memory a s
    driveAll memory as s

theorem writeuartc_sends (c : U8) : Sends (writeuartc c) [c] () := .send (.ret ())

theorem putchar_sends (c : U8) : Sends (putchar (c.setWidth 32)) [c] 1 := by
  have hc : (c.setWidth 32).setWidth 8 = c := by simp
  unfold putchar
  rw [hc]
  exact (writeuartc_sends c).map fun _ => 1

theorem writeLoop_sends (s : CString) (left i : ℕ) :
    Sends (writeLoop s left i) (BareMetalConsole.putsLoop s left i) () := by
  induction left generalizing i with
  | zero => exact .ret ()
  | succ left ih =>
    unfold writeLoop BareMetalConsole.putsLoop
    split_ifs
    · exact (writeuartc_sends (s i)).bind (ih (i + 1))
    · exact .ret ()

theorem puts_sends (s : CString) :
    Sends (puts s) (BareMetalConsole.puts s) (BitVec.ofNat 32 (strlen s)) :=
  (writeLoop_sends s strlenMax 0).map fun _ => BitVec.ofNat 32 (strlen s)

theorem printf_sends (fmt : CString) :
    Sends (printf fmt) (BareMetalConsole.printf fmt) (BitVec.ofNat 32 (strlen fmt)) :=
  (writeLoop_sends fmt strlenMax 0).map fun _ => BitVec.ofNat 32 (strlen fmt)

theorem putcharLoop_sends (ram : Ram) (v : Iovec) (left : ℕ) (i : CInt) :
    Sends (putcharLoop ram v left i) (WasiSnapshotPreview1.putLoop ram v left i) () := by
  induction left generalizing i with
  | zero => exact .ret ()
  | succ left ih =>
    unfold putcharLoop WasiSnapshotPreview1.putLoop
    split_ifs
    · exact (putchar_sends _).bind (ih (i + 1))
    · exact .ret ()

theorem sends_log {ρ : Type} (wasiFD : U32) (fmt : String) {c : Code ρ} {out : List U8} {r : ρ}
    (h : Sends c out r) :
    Sends (do
        if wasiFD ≠ 1 ∧ wasiFD ≠ 2 then
          let _ ← printf (literal fmt)
        c)
      ((if wasiFD ≠ 1 ∧ wasiFD ≠ 2 then BareMetalConsole.printf (literal fmt) else []) ++ out) r := by
  split_ifs
  · exact (printf_sends (literal fmt)).bind h
  · exact h

section

variable (memory : WasmMemory) (wasiFD ciovecsPointer ciovecsCount : U32)

theorem ciovecLoop_sends (ram : Ram) (left : ℕ) (ciovecIndex : U32) (total : U64) :
    ∃ out total', (∀ console, WasiSnapshotPreview1.ciovecLoop bareMetal memory ram wasiFD
        ciovecsPointer ciovecsCount left ciovecIndex total console = (total', console ++ out)) ∧
      Sends (ciovecLoop memory ram wasiFD ciovecsPointer ciovecsCount left ciovecIndex total) out
        total' := by
  induction left generalizing ciovecIndex total with
  | zero => exact ⟨[], total, fun console => by simp [WasiSnapshotPreview1.ciovecLoop], .ret total⟩
  | succ left ih =>
    unfold WasiSnapshotPreview1.ciovecLoop ciovecLoop
    by_cases h : ciovecIndex < ciovecsCount ∧ ciovecIndex < iovecsSize
    · simp only [if_pos h]
      obtain ⟨out, total', hhost, hsends⟩ := ih (ciovecIndex + 1) _
      refine ⟨_, total', fun console => ?_,
        sends_log wasiFD _ ((putcharLoop_sends ram _ _ 0).bind hsends)⟩
      rw [hhost, List.append_assoc, List.append_assoc]
      rfl
    · simp only [if_neg h]
      exact ⟨[], total, fun console => by rw [List.append_nil], .ret total⟩

def Delivers (h : Host) (c : Code Core) (h' : Host) : Prop :=
  ∃ out, h'.console = h.console ++ out ∧ Sends c out (core h')

theorem fdWrite_sends (resultPointer : U32) (h : Host) : ∃ out,
    let r := WasiSnapshotPreview1.fdWrite bareMetal memory wasiFD ciovecsPointer ciovecsCount
      resultPointer h
    r.2.console = h.console ++ out ∧
      Sends (fdWrite memory wasiFD ciovecsPointer ciovecsCount resultPointer (core h)) out
        (r.1, core r.2) := by
  unfold WasiSnapshotPreview1.fdWrite fdWrite
  rw [WasiSnapshotPreview1.descriptorLog_eq]
  by_cases hcount : iovecsSize < ciovecsCount
  · simp only [if_pos hcount]
    refine ⟨_, ?_, sends_log wasiFD _ ((printf_sends _).map fun _ => (wasiErrnoNomem, core h))⟩
    exact List.append_assoc _ _ _
  · simp only [if_neg hcount]
    obtain ⟨out, total, hhost, hsends⟩ := ciovecLoop_sends memory wasiFD ciovecsPointer ciovecsCount
      h.ram iovecsSize.toNat 0 0
    rw [hhost]
    refine ⟨_, ?_, sends_log wasiFD _ (hsends.map fun total : U64 => ((0 : U32),
      Core.mk (i32Store memory (resultPointer.setWidth 64) (total.setWidth 32) h.ram) h.ticks))⟩
    exact List.append_assoc _ _ _

end

theorem stub_sends (fmt : String) (args : List U64) (errno : U32) (h : Host) : ∃ out,
    (WasiSnapshotPreview1.stub bareMetal fmt args errno h).2.console = h.console ++ out ∧
      Sends (stub fmt errno (core h)) out ((WasiSnapshotPreview1.stub bareMetal fmt args errno h).1,
        core (WasiSnapshotPreview1.stub bareMetal fmt args errno h).2) :=
  ⟨_, rfl, (printf_sends (literal fmt)).map fun _ => (errno, core h)⟩

theorem drive_sends (memory : WasmMemory) (c : WasiCall) (h : Host) : ∃ out,
    (c.run bareMetal memory h).2.console = h.console ++ out ∧
      Sends (drive memory c (core h)) out
        ((c.run bareMetal memory h).1, core (c.run bareMetal memory h).2) := by
  cases c with
  | fdWrite wasiFD ciovecsPointer ciovecsCount resultPointer =>
    exact fdWrite_sends memory wasiFD ciovecsPointer ciovecsCount resultPointer h
  | clockTimeGet clockID precision resultPointer => exact ⟨[], (List.append_nil _).symm, .ret _⟩
  | pollOneoff => exact ⟨[], (List.append_nil _).symm, .ret _⟩
  | _ => exact stub_sends _ _ _ h

theorem driveAction_delivers (memory : WasmMemory) (a : Action) (h : Host) :
    Delivers h (driveAction memory a (core h)) (a.run .riscvQemu memory h) := by
  cases a with
  | guest step =>
    cases step with
    | store address bytes => exact ⟨[], (List.append_nil _).symm, .ret _⟩
    | call c =>
      obtain ⟨out, hconsole, hsends⟩ := drive_sends memory c h
      exact ⟨out, hconsole, hsends.map Prod.snd⟩
  | printk stack val =>
    exact ⟨_, rfl, ((puts_sends _).map fun _ => ()).map fun _ => core h⟩

theorem driveAll_delivers (memory : WasmMemory) (as : List Action) (h : Host) :
    Delivers h (driveAll memory as (core h)) (as.foldl (Action.run .riscvQemu memory) h) := by
  induction as generalizing h with
  | nil => exact ⟨[], (List.append_nil _).symm, .ret _⟩
  | cons a as ih =>
    obtain ⟨out, hconsole, hsends⟩ := driveAction_delivers memory a h
    obtain ⟨out', hconsole', hsends'⟩ := ih (a.run .riscvQemu memory h)
    refine ⟨out ++ out', ?_, hsends.bind hsends'⟩
    rw [List.foldl_cons, hconsole', hconsole, List.append_assoc]

/-- However the processor and the transmitter interleave, the line carries what the host model
appends to the console at once, in its order, and within three rounds a byte the guest is through
and has left the same state. -/
theorem guest_output (memory : WasmMemory) (as : List Action) (h : Host) (p : Port) :
    let h' := as.foldl (Action.run .riscvQemu memory) h
    let start : System Core := ⟨driveAll memory as (core h), p⟩
    ∃ out, h'.console = h.console ++ out ∧
      (∀ es : List Event, (es.foldl step start).port.wire <+: p.output ++ out ∧
        ∀ s, (es.foldl step start).code = .ret s →
          s = core h' ∧ (es.foldl step start).port.output = p.output ++ out) ∧
      ∀ rounds : List (List Event),
        (∀ round ∈ rounds, .cpu ∈ round ∧ .shift ∈ round ∧ .arrive ∈ round) →
          3 * out.length ≤ rounds.length →
            (rounds.flatten.foldl step start).code = .ret (core h') := by
  obtain ⟨out, hconsole, hsends⟩ := driveAll_delivers memory as h
  have hplay := hsends.play p.input
  refine ⟨out, hconsole, fun es => ?_, fun rounds hturns hn => ?_⟩
  · have hsafe := hsends.guarded.safe p es
    rw [hplay] at hsafe
    refine ⟨hsafe.1, fun s hs => ?_⟩
    obtain ⟨hresult, hout, -⟩ := hsafe.2 s hs
    exact ⟨(Option.some.inj hresult).symm, hout⟩
  · apply hsends.guarded.returns p _ rounds hturns
    · rw [hplay, Nat.sub_self]
      exact hn
    · rw [hplay]

end Wasrisc.RiscvQemuUart
