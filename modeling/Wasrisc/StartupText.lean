import Wasrisc.Assembler

namespace Wasrisc.StartupText

open HostMemory Rv64 Assembler Instr

inductive Sym where
  | _start | clear_bss | bss_done | exit | shutdown | end_
  | _init_stack_top | _stack_top | __global_pointer | _bss_start | _bss_end | main
  deriving DecidableEq

def wipe {L : Type} (store : Instr L) (width : BitVec 12) : List (Instr L) := [store, addi .t0 .t0 width]

def clearBss (store : Instr (Label Sym)) (width : BitVec 12) : List (Line Sym) :=
  [.code (la .t0 ._bss_start), .code (la .t1 ._bss_end),
    .symbol .clear_bss, .code [bgeu .t0 .t1 (.symbol .bss_done)], .code (wipe store width),
    .code [j (.symbol .clear_bss)],
    .symbol .bss_done]

/-- The arguments of the SBI call, the first one by a `li` of two instructions. -/
def systemReset {L : Type} : List (Instr L) :=
  [.lui .a7 0x53525, .opImm .addw .a7 .a7 (.num 0x354), li .a6 0, li .a0 0, li .a1 0]

def zkvm : List (Line Sym) :=
  .symbol ._start :: .code (la .sp ._init_stack_top) :: (clearBss (.sb .zero 0 .t0) 1).append
    [.code (call .main), .number 1, .code [j (.back 1)]]

def riscvQemu : List (Line Sym) :=
  .symbol ._start :: .code (la .sp ._stack_top) :: .code (la .gp .__global_pointer) ::
    (clearBss (.sd .zero 0 .t0) 8).append
      [.code (call .main), .symbol .exit, .code systemReset, .code [.ecall], .number 1,
        .code [j (.back 1)]]

def riscvWamrQemu : List (Line Sym) :=
  .symbol ._start :: .code (la .sp ._stack_top) :: (clearBss (.sb .zero 0 .t0) 1).append
    [.code (call .main), .symbol .shutdown, .code systemReset, .code [.ecall], .symbol .end_,
      .code [j (.symbol .end_)]]

end Wasrisc.StartupText
