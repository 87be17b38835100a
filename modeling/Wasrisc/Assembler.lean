import Wasrisc.Rv64

namespace Wasrisc.Assembler

open HostMemory Rv64

/-- A label as an operand: `nb`, `nf`, the instruction `k` places before, or a symbol. -/
inductive Label (S : Type) where
  | back (n : ℕ)
  | forward (n : ℕ)
  | before (k : ℕ)
  | symbol (s : S)

inductive Line (S : Type) where
  | number (n : ℕ)
  | symbol (s : S)
  | align3
  | code (l : List (Instr (Label S)))

inductive Target (S : Type) where
  | place (k : ℕ)
  | symbol (s : S)
  | undefined

def mapImm {L L' : Type} (f : L → L') : Imm L → Imm L'
  | .num n => .num n
  | .pcrelLo anchor target => .pcrelLo (f anchor) (f target)

def mapInstr {L L' : Type} (f : L → L') : Instr L → Instr L'
  | .op g rd rs rs' => .op g rd rs rs'
  | .opImm g rd rs imm => .opImm g rd rs (mapImm f imm)
  | .lbu rd imm rs => .lbu rd imm rs
  | .ld rd imm rs => .ld rd imm rs
  | .sb rs' imm rs => .sb rs' imm rs
  | .sd rs' imm rs => .sd rs' imm rs
  | .branch g rs rs' target => .branch g rs rs' (f target)
  | .jal rd target => .jal rd (f target)
  | .jalr rd rs imm => .jalr rd rs (mapImm f imm)
  | .auipc rd target => .auipc rd (f target)
  | .lui rd imm => .lui rd imm
  | .ecall => .ecall

section

variable {S : Type} [DecidableEq S]

/-- The number of instructions of a line that starts with the `k`-th: the code starts at a multiple
of eight, so that an alignment is at most one `nop`. -/
def Line.size (k : ℕ) : Line S → ℕ
  | .number _ | .symbol _ => 0
  | .align3 => k % 2
  | .code l => l.length

def place : ℕ → List (Line S) → List (ℕ × Line S)
  | _, [] => []
  | k, l :: ls => (k, l) :: place (k + l.size k) ls

def Line.isNumber (n : ℕ) : Line S → Bool
  | .number m => m = n
  | _ => false

def Line.isSymbol (s : S) : Line S → Bool
  | .symbol t => t = s
  | _ => false

def find (p : Line S → Bool) (ls : List (ℕ × Line S)) : Target S :=
  match ls.find? (p ·.2) with
  | some (k, _) => .place k
  | none => .undefined

def resolve (all before after : List (ℕ × Line S)) (k : ℕ) : Label S → Target S
  | .back n => find (·.isNumber n) before
  | .forward n => find (·.isNumber n) after
  | .before j => .place (k - j)
  | .symbol s =>
    match find (·.isSymbol s) all with
    | .undefined => .symbol s
    | t => t

def emit (all : List (ℕ × Line S)) :
    List (ℕ × Line S) → List (ℕ × Line S) → List (Instr (Target S))
  | _, [] => []
  | before, (k, l) :: after =>
    let here :=
      match l with
      | .code l => l.mapIdx fun j i => mapInstr (resolve all before after (k + j)) i
      | _ => List.replicate (l.size k) .nop
    here ++ emit all ((k, l) :: before) after

def assemble (text : List (Line S)) : List (Instr (Target S)) :=
  emit (place 0 text) [] (place 0 text)

def link (b : U64) (ext : S → U64) : Target S → U64
  | .place k => slot b k
  | .symbol s => ext s
  | .undefined => 0

def code (b : U64) (ext : S → U64) (text : List (Line S)) : List (Instr U64) :=
  (assemble text).map (mapInstr (link b ext))

end

def la {S : Type} (rd : Reg) (s : S) : List (Instr (Label S)) :=
  [.auipc rd (.symbol s), .opImm .add rd rd (.pcrelLo (.before 1) (.symbol s))]

def call {S : Type} (s : S) : List (Instr (Label S)) :=
  [.auipc .ra (.symbol s), .jalr .ra .ra (.pcrelLo (.before 1) (.symbol s))]

def tail {S : Type} (s : S) : List (Instr (Label S)) :=
  [.auipc .t1 (.symbol s), .jalr .zero .t1 (.pcrelLo (.before 1) (.symbol s))]

end Wasrisc.Assembler
