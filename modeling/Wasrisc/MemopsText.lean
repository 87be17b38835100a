import Wasrisc.Assembler

namespace Wasrisc.MemopsText

open HostMemory Rv64 Assembler Instr

inductive Sym where
  | _memset
  | _memcpy | memcpy_bytes | memcpy_bops | memcpy_unaligned
  | _memmove | _memcpy_r | memmove_bytes | memmove_bops | memmove_unaligned
  deriving DecidableEq

variable {L : Type}

namespace Memset

def entry : List (Instr L) := [li .a4 16, mv .a5 .a0]

def misalignment : List (Instr L) := [andi .a3 .a0 7, andi .a1 .a1 255]

def headroom : List (Instr L) := [addi .a3 .a3 (-8), add .a2 .a2 .a3, sub .a3 .a5 .a3]

def setByte : List (Instr L) := [.sb .a1 0 .a5, addi .a5 .a5 1]

def propagate : List (Instr L) :=
  [slli .a3 .a1 8, add .a4 .a5 .a2, or .a1 .a1 .a3, andi .a4 .a4 (-8), slli .a3 .a1 16,
    or .a1 .a1 .a3, slli .a3 .a1 32, or .a1 .a1 .a3, andi .a3 .a2 248, andi .a2 .a2 7]

/-- The second half of the jump address for Duff's device, after the `auipc` at `anchor`. -/
def dispatch (anchor target : L) : List (Instr L) :=
  [add .a5 .a5 .a3, .opImm .add .t0 .t0 (.pcrelLo anchor target), srli .a3 .a3 1,
    sub .t0 .t0 .a3, addi .a5 .a5 (-256)]

def setWords : List (Instr L) :=
  (List.range 32).map fun k => .sd .a1 (BitVec.ofNat 12 (8 * k)) .a5

end Memset

/-- `_memset` for `__riscv_xlen` 64, without the compressed extension. -/
def memset : List (Line Sym) :=
  [.symbol ._memset, .code Memset.entry, .code [bltu .a2 .a4 (.forward 4)],
    .code Memset.misalignment, .code [beqz .a3 (.forward 1)], .code Memset.headroom,
    .number 0, .code Memset.setByte, .code [bltu .a5 .a3 (.back 0)],
    .number 1, .code Memset.propagate, .code [beqz .a3 (.forward 2)],
    .number 0, .code [.auipc .t0 (.forward 3)], .code (Memset.dispatch (.back 0) (.forward 3)),
    .code [jr .t0],
    .number 2, .code Memset.setWords,
    .number 3, .code [addi .a5 .a5 256, bltu .a5 .a4 (.back 2)],
    .number 4, .code [beqz .a2 (.forward 5), add .a2 .a2 .a5],
    .number 0, .code Memset.setByte, .code [bltu .a5 .a2 (.back 0)],
    .number 5, .code [ret]]

def copyFour (k : ℕ) : List (Instr L) :=
  let offset (i : ℕ) : BitVec 12 := BitVec.ofNat 12 (8 * (4 * k + i))
  [.ld .a4 (offset 0) .a1, .ld .a5 (offset 1) .a1, .ld .s0 (offset 2) .a1, .ld .s1 (offset 3) .a1,
    .sd .a4 (offset 0) .a0, .sd .a5 (offset 1) .a0, .sd .s0 (offset 2) .a0, .sd .s1 (offset 3) .a0]

namespace Memcpy

def entry : List (Instr L) := [li .a4 24, mv .t2 .a0]

def headroom : List (Instr L) := [addi .a3 .a3 (-8), add .a2 .a2 .a3, sub .a3 .a0 .a3]

def copyHeadByte : List (Instr L) :=
  [.lbu .a5 0 .a1, .sb .a5 0 .a0, addi .a1 .a1 1, addi .a0 .a0 1]

def save : List (Instr L) := [andi .t3 .a1 7, mv .t0 .s0, mv .t1 .s1, mv .a3 .a0]

def lastOfMainLoop : List (Instr L) := [add .a3 .a3 .a2, andi .a2 .a2 127, sub .a3 .a3 .a2]

def copySixteen : List (Instr L) :=
  (List.range 4).flatMap copyFour ++ [add .a0 .a0 .a7, add .a1 .a1 .a7]

def lastOfWords : List (Instr L) := [add .a3 .a3 .a2, andi .a3 .a3 (-8)]

def copyWord : List (Instr L) :=
  [.ld .a4 0 .a1, addi .a1 .a1 8, .sd .a4 0 .a0, addi .a0 .a0 8]

def restore : List (Instr L) := [mv .s1 .t1, mv .s0 .t0]

def copyByte : List (Instr L) :=
  [.lbu .a4 0 .a1, addi .a1 .a1 1, .sb .a4 0 .a0, addi .a0 .a0 1]

def preload : List (Instr L) :=
  [andi .a3 .a2 (-16), andi .a1 .a1 (-8), slli .a6 .t3 3, andi .a2 .a2 15, .ld .a5 0 .a1,
    add .a3 .a3 .a0, sub .a7 .zero .a6]

def copyShifted : List (Instr L) :=
  [srl .s1 .a5 .a6, .ld .a5 16 .a1, sll .s0 .a4 .a7, or .s0 .s0 .s1, srl .s1 .a4 .a6, .sd .s0 0 .a0,
    sll .s0 .a5 .a7, or .s1 .s1 .s0, addi .a1 .a1 16, .sd .s1 8 .a0, addi .a0 .a0 16, .ld .a4 8 .a1]

end Memcpy

def memcpy : List (Line Sym) :=
  [.symbol ._memcpy, .code Memcpy.entry,
    .code [bltu .a2 .a4 (.symbol .memcpy_bops), andi .a3 .a0 7, beqz .a3 (.forward 1)],
    .code Memcpy.headroom,
    .number 0, .code Memcpy.copyHeadByte, .code [bltu .a0 .a3 (.back 0)],
    .number 1, .code Memcpy.save,
    .code [bnez .t3 (.symbol .memcpy_unaligned), li .a7 128, bltu .a2 .a7 (.forward 2)],
    .code Memcpy.lastOfMainLoop,
    .align3,
    .number 1, .code Memcpy.copySixteen, .code [bltu .a0 .a3 (.back 1)],
    .number 2, .code Memcpy.lastOfWords,
    .code [beq .a3 .a0 (.symbol .memcpy_bytes), andi .a2 .a2 7],
    .number 3, .code Memcpy.copyWord, .code [bltu .a0 .a3 (.back 3)],
    .symbol .memcpy_bytes, .code Memcpy.restore,
    .symbol .memcpy_bops, .code [beqz .a2 (.forward 1), add .a2 .a2 .a0],
    .number 0, .code Memcpy.copyByte, .code [bltu .a0 .a2 (.back 0)],
    .number 1, .code [mv .a0 .t2, ret],
    .symbol .memcpy_unaligned, .code Memcpy.preload,
    .align3, .code [.ld .a4 8 .a1],
    .number 0, .code Memcpy.copyShifted,
    .code [bltu .a0 .a3 (.back 0), add .a1 .a1 .t3, j (.symbol .memcpy_bytes)]]

namespace Memmove

def entry : List (Instr L) := [addi .a5 .a5 0, addi .a5 .gp 0]

def fromEnd : List (Instr L) := [li .a4 24, add .a0 .a0 .a2, add .a1 .a1 .a2]

def headroom : List (Instr L) := [sub .a2 .a2 .a3, xor .a3 .a3 .a0]

def copyByte : List (Instr L) :=
  [addi .a1 .a1 (-1), addi .a0 .a0 (-1), .lbu .a4 0 .a1, .sb .a4 0 .a0]

def save : List (Instr L) := [andi .t2 .a1 7, mv .t0 .s0, mv .t1 .s1]

def lastOfMainLoop : List (Instr L) := [sub .a7 .a0 .a2, andi .a2 .a2 127, add .a7 .a7 .a2]

def copySixteen : List (Instr L) :=
  [sub .a1 .a1 .a3, sub .a0 .a0 .a3] ++ (List.range 4).reverse.flatMap copyFour

def lastOfWords : List (Instr L) := [sub .a3 .a0 .a2, andi .a2 .a2 7, add .a3 .a3 .a2]

def copyWord : List (Instr L) :=
  [addi .a0 .a0 (-8), addi .a1 .a1 (-8), .ld .a4 0 .a1, .sd .a4 0 .a0]

def restore : List (Instr L) := [mv .s1 .t1, mv .s0 .t0]

def preload : List (Instr L) :=
  [slli .a6 .t2 3, sub .a3 .a0 .a2, andi .a1 .a1 (-8), andi .a2 .a2 15, sub .a7 .zero .a6,
    .ld .a5 0 .a1, addi .a1 .a1 (-16), add .a3 .a3 .a2]

def copyShifted : List (Instr L) :=
  [.ld .a4 8 .a1, sll .s0 .a5 .a7, .ld .a5 0 .a1, addi .a0 .a0 (-16), srl .s1 .a4 .a6,
    or .s0 .s0 .s1, sll .s1 .a4 .a7, .sd .s0 8 .a0, srl .s0 .a5 .a6, addi .a1 .a1 (-16),
    or .s1 .s1 .s0, .sd .s1 0 .a0]

end Memmove

def memmove : List (Line Sym) :=
  [.symbol ._memmove, .code Memmove.entry, .code [bltu .a1 .a0 (.symbol ._memcpy_r)],
    .code (tail ._memcpy),
    .symbol ._memcpy_r, .code Memmove.fromEnd,
    .code [bltu .a2 .a4 (.symbol .memmove_bops), andi .a3 .a0 7, beqz .a3 (.forward 1)],
    .code Memmove.headroom,
    .number 0, .code Memmove.copyByte, .code [bgtu .a0 .a3 (.back 0)],
    .number 1, .code Memmove.save,
    .code [bnez .t2 (.symbol .memmove_unaligned), li .a3 128, bltu .a2 .a3 (.forward 2)],
    .code Memmove.lastOfMainLoop,
    .number 1, .code Memmove.copySixteen, .code [bgtu .a0 .a7 (.back 1)],
    .number 2, .code Memmove.lastOfWords, .code [beq .a0 .a3 (.symbol .memmove_bytes)],
    .number 3, .code Memmove.copyWord, .code [bgtu .a0 .a3 (.back 3)],
    .symbol .memmove_bytes, .code Memmove.restore,
    .symbol .memmove_bops, .code [beqz .a2 (.forward 1), sub .a3 .a0 .a2],
    .number 0, .code Memmove.copyByte, .code [bgtu .a0 .a3 (.back 0)],
    .number 1, .code [ret],
    .symbol .memmove_unaligned, .code Memmove.preload,
    .align3,
    .number 0, .code Memmove.copyShifted,
    .code [bgtu .a0 .a3 (.back 0), addi .a1 .a1 16, add .a1 .a1 .t2, j (.symbol .memmove_bytes)]]

end Wasrisc.MemopsText
