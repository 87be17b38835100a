import Wasrisc.Runs
import Wasrisc.WasiImports

namespace Wasrisc.Descriptors

open HostMemory Runs WasiSnapshotPreview1 WasiImports

structure View where
  host : Host
  closed : List U32

def View.Open (v : View) (fd : U32) : Prop := fd ∈ [0, 1, 2] ∧ fd ∉ v.closed

instance (v : View) (fd : U32) : Decidable (v.Open fd) :=
  inferInstanceAs (Decidable (fd ∈ [0, 1, 2] ∧ fd ∉ v.closed))

def closes (errno : U32) (closed : List U32) : WasiCall → List U32
  | .fdClose l0 => if errno = wasiErrnoSuccess then l0 :: closed else closed
  | _ => closed

def viewStep (libc : Libc) (memory : WasmMemory) (v : View) : GuestStep → Option View
  | .store address bytes => some { v with host := guestStore memory address bytes v.host }
  | .call c =>
    let r := c.run libc memory v.host
    some ⟨r.2, closes r.1 v.closed c⟩

def descriptor : WasiCall → Option U32
  | .fdWrite wasiFD _ _ _ => some wasiFD
  | .fdRead wasiFD _ _ _ => some wasiFD
  | .fdPread wasiFD _ _ _ _ => some wasiFD
  | .fdSeek l0 _ _ _ => some l0
  | .fdFdstatGet wasiFD _ => some wasiFD
  | .fdFilestatGet wasiFD _ => some wasiFD
  | .fdAdvise l0 _ _ _ => some l0
  | .fdClose l0 => some l0
  | .fdSync wasiFD => some wasiFD
  | .fdReaddir wasiFD _ _ _ _ => some wasiFD
  | _ => none

/-- The call returns BADF, and what it prints is the same whatever the memory holds. -/
def Refused (libc : Libc) (memory : WasmMemory) (h : Host) (c : WasiCall) : Prop :=
  (c.run libc memory h).1 = wasiErrnoBadf ∧
    ∃ log, ∀ ram, (c.run libc memory { h with ram := ram }).2.console = h.console ++ log

def OnStale (v : View) (step : GuestStep) (P : WasiCall → Prop) : Prop :=
  ∀ c fd, step = .call c → descriptor c = some fd → ¬ v.Open fd → P c

def Consistent (libc : Libc) (memory : WasmMemory) (v : View) (step : GuestStep) : Prop :=
  OnStale v step (Refused libc memory v.host)

def Refuses : WasiCall → Prop
  | .fdRead .. | .fdPread .. | .fdFilestatGet .. | .fdSync .. | .fdReaddir .. => True
  | _ => False

def AsksRefuser (v : View) (step : GuestStep) : Prop := OnStale v step Refuses

theorem stub_refused (libc : Libc) (fmt : String) (args : List U64) (h : Host) :
    (stub libc fmt args wasiErrnoBadf h).1 = wasiErrnoBadf ∧
      ∃ log, ∀ ram, (stub libc fmt args wasiErrnoBadf { h with ram := ram }).2.console =
        h.console ++ log :=
  ⟨rfl, libc.printf fmt args, fun _ => rfl⟩

theorem fdWrite_errno (libc : Libc) (memory : WasmMemory)
    (wasiFD ciovecsPointer ciovecsCount resultPointer : U32) (h : Host) :
    (fdWrite libc memory wasiFD ciovecsPointer ciovecsCount resultPointer h).1 ≠ wasiErrnoBadf := by
  by_cases hcount : ciovecsCount.toNat ≤ 10
  · rw [fdWrite_eq libc memory _ _ _ _ h hcount]
    exact (by decide : (0 : U32) ≠ wasiErrnoBadf)
  · rw [fdWrite_refused libc memory _ _ _ _ h (by omega)]
    exact (by decide : wasiErrnoNomem ≠ wasiErrnoBadf)

theorem refused_iff (libc : Libc) (memory : WasmMemory) (h : Host) {c : WasiCall} {fd : U32}
    (hfd : descriptor c = some fd) : Refused libc memory h c ↔ Refuses c := by
  cases c with
  | fdRead | fdPread | fdFilestatGet | fdSync | fdReaddir =>
    simp only [Refuses, iff_true]
    apply stub_refused
  | fdWrite =>
    simp only [Refuses, iff_false]
    intro hrefused
    exact fdWrite_errno libc memory _ _ _ _ h hrefused.1
  | fdSeek | fdFdstatGet | fdAdvise | fdClose =>
    simp only [Refuses, iff_false]
    intro hrefused
    exact absurd hrefused.1 (by decide : (0 : U32) ≠ wasiErrnoBadf)
  | _ => exact absurd hfd (by simp [descriptor])

theorem consistent_iff (libc : Libc) (memory : WasmMemory) (v : View) (step : GuestStep) :
    Consistent libc memory v step ↔ AsksRefuser v step := by
  unfold Consistent AsksRefuser OnStale
  constructor
  · intro h c fd hstep hfd hstale
    exact (refused_iff libc memory v.host hfd).mp (h c fd hstep hfd hstale)
  · intro h c fd hstep hfd hstale
    exact (refused_iff libc memory v.host hfd).mpr (h c fd hstep hfd hstale)

theorem descriptors_consistent_iff (libc : Libc) (memory : WasmMemory) (h : Host)
    (steps : List GuestStep) :
    StepsMeet (viewStep libc memory) (Consistent libc memory) ⟨h, []⟩ steps ↔
      StepsMeet (viewStep libc memory) AsksRefuser ⟨h, []⟩ steps := by
  apply stepsMeet_congr
  apply consistent_iff

def strayWrite : List GuestStep :=
  [.store 0 [8, 0, 0, 0, 1, 0, 0, 0, 0x41], .call (.pathOpen 3 0 8 1 0 0 0 0 16),
    .call (.fdWrite 3 0 1 16)]

def quietHost : Host := ⟨fun _ => 0, [], 1⟩

theorem stray_write_reaches_console :
    (¬ ∀ (libc : Libc) (memory : WasmMemory) (h : Host) (steps : List GuestStep),
      StepsMeet (viewStep libc memory) (Consistent libc memory) ⟨h, []⟩ steps) ∧
    (strayWrite.foldlM (viewStep bareMetal onePage) ⟨quietHost, []⟩).elim none
      (fun v => v.host.console.getLast?) = some 0x41 := by
  constructor
  · intro hconsistent
    have hsteps := hconsistent bareMetal onePage quietHost strayWrite
    have hwrite := hsteps [_, _] (.call (.fdWrite 3 0 1 16)) _ (List.prefix_refl _) rfl
    have hrefused := hwrite _ 3 rfl rfl (by decide)
    exact fdWrite_errno bareMetal onePage _ _ _ _ _ hrefused.1
  · decide

end Wasrisc.Descriptors
