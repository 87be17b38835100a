import Wasrisc.RiscvQemu
import Wasrisc.WasiImports
import Wasrisc.Zkvm

namespace Wasrisc.ExitStatus

open AddressedMemory HostMemory WasiSnapshotPreview1 WasiImports
open BareMetalConsole (CString literal puts)

inductive Platform where
  | zkvm (S : Zkvm.Symbols)
  | riscvQemu

inductive Register where
  | a0 | a1 | a6 | a7
  deriving DecidableEq

structure Ecall where
  loads : List (Register × U64)
  deriving DecidableEq

structure Observables where
  uart : List U8
  outputWindow : List U8
  ecall : Ecall
  deriving DecidableEq

def windowSize : ℕ := 0x10000

def outputWindow : Platform → Ram → List U8
  | .zkvm _, ram => read ram (Zkvm.outputAddr.setWidth 64) windowSize
  | .riscvQemu, _ => []

def observe (platform : Platform) (h : Host) (ecall : Ecall) : Observables :=
  ⟨h.console, outputWindow platform h.ram, ecall⟩

/-- `shutdown` of zkvm.c loads the call number alone. -/
def zkvmShutdown : Ecall := ⟨[(.a7, 93)]⟩

def riscvQemuShutdown : Ecall := ⟨[(.a7, 0x53525354), (.a6, 0), (.a0, 0), (.a1, 0)]⟩

def exit : Platform → CInt → Host → Host × Ecall
  | .zkvm _, _status, h =>
    ({ h with console := h.console ++ puts (literal "exit()\n") }, zkvmShutdown)
  | .riscvQemu, _status, h =>
    -- the label `exit` of startup.S: a0, which held the status, is overwritten
    (h, riscvQemuShutdown)

def procExit (platform : Platform) (l0 : U32) (h : Host) : Observables :=
  let r := WasiSnapshotPreview1.procExit bareMetal (exit platform) l0 h
  observe platform r.1 r.2

inductive Action where
  | guest (step : GuestStep)
  | printk (stack : CString) (val : U32)

def printk : Platform → CString → U32 → Host → Host
  | .zkvm S, _, val, h => { h with ram := (Zkvm.printk S val ⟨h.ram, []⟩).ram }
  | .riscvQemu, stack, val, h =>
    { h with console := h.console ++ RiscvQemu.testmodulePrintk stack val }

def Action.run (platform : Platform) (memory : WasmMemory) (h : Host) : Action → Host
  | guest step => step.run bareMetal memory h
  | printk stack val => ExitStatus.printk platform stack val h

def finalObservables (platform : Platform) (memory : WasmMemory) (h : Host) (prior : List Action)
    (status : U32) : Observables :=
  procExit platform status (prior.foldl (Action.run platform memory) h)

def FailureVisible (platform : Platform) (memory : WasmMemory) (h : Host) (prior : List Action) :
    Prop :=
  ∀ s t : U32, ¬ (s = 0 ↔ t = 0) →
    finalObservables platform memory h prior s ≠ finalObservables platform memory h prior t

def farewell : Platform → List U8
  | .zkvm _ => puts (literal "exit()\n")
  | .riscvQemu => []

def lastEcall : Platform → Ecall
  | .zkvm _ => zkvmShutdown
  | .riscvQemu => riscvQemuShutdown

theorem exit_eq (platform : Platform) (status : CInt) (h : Host) :
    exit platform status h =
      ({ h with console := h.console ++ farewell platform }, lastEcall platform) := by
  cases platform with
  | zkvm => rfl
  | riscvQemu => simp [exit, farewell, lastEcall]

theorem procExit_eq (platform : Platform) (l0 : U32) (h : Host) :
    procExit platform l0 h =
      ⟨h.console ++ bareMetal.printf "wasi_snapshot_preview1__proc_exit\n" [] ++ farewell platform,
        outputWindow platform h.ram, lastEcall platform⟩ := by
  unfold procExit WasiSnapshotPreview1.procExit
  simp only [exit_eq]
  rfl

theorem finalObservables_congr (platform : Platform) (memory : WasmMemory) (h : Host)
    (prior : List Action) (s t : U32) :
    finalObservables platform memory h prior s = finalObservables platform memory h prior t := by
  unfold finalObservables
  rw [procExit_eq, procExit_eq]

theorem failure_never_visible (platform : Platform) (memory : WasmMemory) (h : Host)
    (prior : List Action) :
    ¬ FailureVisible platform memory h prior ∧ ∀ s t : U32,
      finalObservables platform memory h prior s = finalObservables platform memory h prior t := by
  constructor
  · intro hvisible
    apply hvisible 0 1 (by decide)
    apply finalObservables_congr
  · apply finalObservables_congr

def freshHost : Host := ⟨fun _ => 0, [], 1⟩

theorem panic_looks_like_success :
    ¬ ∀ (platform : Platform) (memory : WasmMemory) (h : Host) (prior : List Action),
      FailureVisible platform memory h prior := by
  intro hvisible
  apply hvisible .riscvQemu onePage freshHost [] 0 101 (by decide)
  decide

end Wasrisc.ExitStatus
