import Wasrisc.RiscvQemu
import Wasrisc.Zkvm

namespace Wasrisc.PrintkEquivalence

open AddressedMemory HostMemory BareMetalConsole HexText Zkvm

/-- The machine starts with zeroed memory: the static counter is zero, and so is the count word. -/
structure Initial (S : Symbols) (ram : Ram) : Prop where
  counter : load32 ram S.outputCount = 0
  countWord : load32 ram ptrCount = 0

def zkvmRun (S : Symbols) (ram : Ram) (vs : List U32) : Machine :=
  vs.foldl (testmodulePrintk S) ⟨ram, []⟩

def riscvQemuRun (stack : ℕ → CString) (vs : List U32) : List U8 :=
  vs.zipIdx.flatMap fun p => RiscvQemu.testmodulePrintk (stack p.2) p.1

def decodeOutput (ram : Ram) : List U32 :=
  (List.range (load32 ram ptrCount).toNat).map fun i => load32 ram (wordAddress i)

def parseLine : List U8 → Option U32
  | c :: d :: ds =>
    if c = 0x30 ∧ d = 0x78 ∧ ds.length = 8 then (number ds).map (BitVec.ofNat 32) else none
  | _ => none

def parseUart (text : List U8) : Option (List U32) :=
  (terminatedLines 0x0a text).bind fun lines => lines.mapM parseLine

structure Holds (S : Symbols) (vs : List U32) (m : Machine) : Prop where
  counter : m.outputCount S = BitVec.ofNat 32 vs.length
  countWord : load32 m.ram ptrCount = BitVec.ofNat 32 vs.length
  words : ∀ i (h : i < vs.length), load32 m.ram (wordAddress i) = vs[i]

theorem holds_initially {S : Symbols} {ram : Ram} (h : Initial S ram) : Holds S [] ⟨ram, []⟩ :=
  ⟨h.counter, h.countWord, fun _ hi => absurd hi (Nat.not_lt_zero _)⟩

theorem holds_printk {S : Symbols} {vs : List U32} {m : Machine} (h : Holds S vs m)
    (hvs : vs.length < capacity) (v : U32) : Holds S (vs ++ [v]) (printk S v m) := by
  have hprintk := printk_eq S h.counter hvs.le v
  constructor
  · rw [List.length_append, List.length_singleton]
    exact outputCount_printk S h.counter hvs v
  · rw [hprintk, List.length_append, List.length_singleton]
    change load32 (printed S m.ram vs.length v) ptrCount = _
    rw [printed, load32_store32_of_disjoint (ptrCount_disjoint_wordAddress hvs),
      load32_store32_same]
  · intro i hi
    rw [List.length_append, List.length_singleton] at hi
    rw [hprintk]
    change load32 (printed S m.ram vs.length v) (wordAddress i) = _
    rw [printed]
    rcases Nat.lt_or_eq_of_le (Nat.le_of_lt_succ hi) with hlt | rfl
    · have hi' : i < capacity := hlt.trans hvs
      rw [load32_store32_of_disjoint (wordAddress_disjoint_of_ne hvs hi' (by omega)),
        load32_store32_of_disjoint (ptrCount_disjoint_wordAddress hi').symm,
        load32_store32_of_disjoint (wordAddress_disjoint S hi').symm, h.words i hlt,
        List.getElem_append_left hlt]
    · rw [load32_store32_same]
      exact (List.getElem_concat_length rfl _).symm

theorem holds_run {S : Symbols} (vs : List U32) {us : List U32} {m : Machine} (h : Holds S us m)
    (hle : us.length + vs.length ≤ capacity) :
    Holds S (us ++ vs) (vs.foldl (testmodulePrintk S) m) := by
  induction vs generalizing us m with
  | nil => rwa [List.append_nil]
  | cons v vs ih =>
    rw [List.length_cons] at hle
    rw [List.foldl_cons, List.append_cons]
    exact ih (holds_printk h (by omega) v) (by
      rw [List.length_append, List.length_singleton]
      omega)

theorem zkvmRun_holds {S : Symbols} {ram : Ram} (h : Initial S ram) {vs : List U32}
    (hle : vs.length ≤ capacity) : Holds S vs (zkvmRun S ram vs) := by
  have hrun := holds_run vs (holds_initially h) (by simpa using hle)
  rwa [List.nil_append] at hrun

theorem decodeOutput_eq {S : Symbols} {vs : List U32} {m : Machine} (h : Holds S vs m)
    (hle : vs.length ≤ capacity) : decodeOutput m.ram = vs := by
  have hlength : (load32 m.ram ptrCount).toNat = vs.length := by
    have hcapacity : capacity = 16383 := rfl
    rw [h.countWord, BitVec.toNat_ofNat]
    omega
  rw [decodeOutput, hlength]
  apply List.ext_getElem
  · rw [List.length_map, List.length_range]
  · intro i hi hi'
    rw [List.getElem_map, List.getElem_range]
    exact h.words i hi'

theorem riscvQemuRun_eq (stack : ℕ → CString) (vs : List U32) :
    riscvQemuRun stack vs = vs.flatMap RiscvQemu.line := by
  rw [riscvQemuRun]
  simp only [RiscvQemu.testmodulePrintk_eq]
  rw [← List.flatMap_map, List.zipIdx_map_fst]

theorem parseLine_numeral (v : U32) : parseLine (RiscvQemu.numeral v) = some v := by
  have hv := v.isLt
  rw [RiscvQemu.numeral, parseLine, if_pos ⟨rfl, rfl, length_digits 8 _⟩, number_digits,
    Nat.mod_eq_of_lt (by omega), Option.map_some, BitVec.ofNat_toNat, BitVec.setWidth_eq]

theorem parse_numerals (vs : List U32) : (vs.map RiscvQemu.numeral).mapM parseLine = some vs := by
  induction vs with
  | nil => rfl
  | cons v vs ih =>
    rw [List.map_cons, List.mapM_cons, parseLine_numeral, ih]
    rfl

theorem newline_notMem (v : U32) : (0x0a : U8) ∉ RiscvQemu.numeral v := by
  intro h
  rw [RiscvQemu.numeral, List.mem_cons, List.mem_cons] at h
  rcases h with h | h | h
  · exact absurd h (by decide)
  · exact absurd h (by decide)
  · exact value_of_mem_digits h (by decide)

theorem parseUart_lines (vs : List U32) : parseUart (vs.flatMap RiscvQemu.line) = some vs := by
  have hlines : vs.flatMap RiscvQemu.line =
      (vs.map RiscvQemu.numeral).flatMap (· ++ [0x0a]) := by
    rw [List.flatMap_map]
    rfl
  have hnewline : ∀ l ∈ vs.map RiscvQemu.numeral, (0x0a : U8) ∉ l := by
    intro l hl
    obtain ⟨v, -, rfl⟩ := List.mem_map.mp hl
    exact newline_notMem v
  rw [parseUart, hlines, terminatedLines_flatMap hnewline, Option.bind_some, parse_numerals]

theorem printk_equivalent (S : Symbols) (ram : Ram) (h : Initial S ram) (stack : ℕ → CString)
    (vs : List U32) (hle : vs.length ≤ capacity) :
    (load32 (zkvmRun S ram vs).ram ptrCount = BitVec.ofNat 32 vs.length ∧
      ∀ us, us <+: vs → ∀ i (hi : i < us.length),
        load32 (zkvmRun S ram us).ram (wordAddress i) = us[i] ∧
          load32 (zkvmRun S ram vs).ram (wordAddress i) = us[i]) ∧
      riscvQemuRun stack vs = vs.flatMap RiscvQemu.line ∧
      decodeOutput (zkvmRun S ram vs).ram = vs ∧
      parseUart (riscvQemuRun stack vs) = some vs := by
  have hvs := zkvmRun_holds h hle
  refine ⟨⟨hvs.countWord, fun us hus i hi => ?_⟩, riscvQemuRun_eq stack vs,
    decodeOutput_eq hvs hle, by rw [riscvQemuRun_eq, parseUart_lines]⟩
  have hlength := hus.length_le
  have hword := (zkvmRun_holds h (hlength.trans hle)).words i hi
  exact ⟨hword, (hvs.words i (by omega)).trans (List.IsPrefix.getElem hus hi).symm⟩

theorem printk_equivalent_two :
    parseUart (riscvQemuRun (fun _ _ => 0) [0x2a, 7]) =
      some (decodeOutput (zkvmRun firstWord (fun _ => 0) [0x2a, 7]).ram) := by
  obtain ⟨-, -, houtput, huart⟩ := printk_equivalent firstWord (fun _ => 0)
    ⟨by decide, by decide⟩ (fun _ _ => 0) [0x2a, 7] (by decide)
  rw [houtput, huart]

end Wasrisc.PrintkEquivalence
