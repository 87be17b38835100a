import Wasrisc.Amd64

namespace Wasrisc.InputGlobals

open HostMemory Amd64

def Owns (p : Process) (pointer : U64) (n : ℕ) : Prop := ∃ size, p.objects pointer = some size ∧ n ≤ size

structure Consistent (p : Process) : Prop where
  not_null : p.testInputData ≠ 0
  length : 0 ≤ p.testInputDataLen.toInt
  owned : Owns p p.testInputData p.testInputDataLen.toNat

/-- `calloc` returns no address at which an object already lies. -/
def Fresh (o : Outcomes) (p : Process) : Prop := p.objects o.calloc = none

structure Kept (p : Process) (r : Report) : Prop where
  request : ∀ q ∈ r.fread, Owns r.process q.buffer (q.size.toNat * q.nmemb.toNat)
  consistent : Consistent r.process
  failure : r.failure.isSome → r.process.testInputData = p.testInputData ∧
    r.process.testInputDataLen = p.testInputDataLen

def Loads (o : Outcomes) : Prop := 0 ≤ o.ftell.toInt ∧ o.calloc ≠ 0 ∧ o.fread = 1

theorem length_succ {n : CLong} (h : 0 ≤ n.toInt) : (n + 1).toNat = n.toNat + 1 := by
  have hlt := n.isLt
  rw [BitVec.toInt_eq_toNat_cond] at h
  rw [BitVec.toNat_add, show (1 : CLong).toNat = 1 from rfl]
  split_ifs at h <;> omega

theorem allocated_owns (p : Process) {o : Outcomes} (h : 0 ≤ o.ftell.toInt) :
    Owns (p.allocated o) o.calloc o.ftell.toNat := by
  refine ⟨(o.ftell + 1).toNat, Function.update_self .., ?_⟩
  rw [length_succ h]
  omega

theorem loads_kept (p : Process) {o : Outcomes} (hopen : o.fopen = true) (h : Loads o) :
    Kept p (readInputData o p) := by
  obtain ⟨hlength, hnull, hread⟩ := h
  have howns := allocated_owns p hlength
  rw [readInputData_allocated p hopen hnull, if_pos hread]
  constructor
  · intro q hq
    obtain rfl := Option.mem_some_iff.mp hq
    change Owns (p.allocated o) o.calloc (o.ftell.toNat * 1)
    rw [Nat.mul_one]
    exact howns
  · exact ⟨hnull, hlength, howns⟩
  · intro hfailed
    exact absurd hfailed (by simp)

theorem kept_of_unopened {p : Process} {o : Outcomes} (hp : Consistent p) (hopen : o.fopen = false) :
    Kept p (readInputData o p) := by
  rw [readInputData_unopened p hopen]
  constructor
  · intro q hq
    exact absurd hq (by simp)
  · exact hp
  · exact fun _ => ⟨rfl, rfl⟩

theorem loads_of_kept {p : Process} {o : Outcomes} (hp : Consistent p) (hfresh : Fresh o p)
    (hopen : o.fopen = true) (h : Kept p (readInputData o p)) : Loads o := by
  by_cases hnull : o.calloc = 0
  · rw [readInputData_null p hopen hnull] at h
    exact absurd rfl h.consistent.not_null
  rw [readInputData_allocated p hopen hnull] at h
  refine ⟨h.consistent.length, hnull, ?_⟩
  by_contra hread
  have hsame : o.calloc = p.testInputData := (h.failure (by rw [if_neg hread]; rfl)).1
  obtain ⟨size, hsize, -⟩ := hp.owned
  unfold Fresh at hfresh
  rw [hsame, hsize] at hfresh
  simp at hfresh

theorem globals_kept_iff (p : Process) (hp : Consistent p) (o : Outcomes) (hfresh : Fresh o p) :
    Kept p (readInputData o p) ↔ o.fopen = false ∨ Loads o := by
  cases hopen : o.fopen with
  | false => exact ⟨fun _ => .inl rfl, fun _ => kept_of_unopened hp hopen⟩
  | true =>
    constructor
    · intro h
      exact .inr (loads_of_kept hp hfresh hopen h)
    · rintro (hfalse | hloads)
      · simp at hfalse
      · exact loads_kept p hopen hloads

/-- `main` has pointed the globals at its literal "test789", which is stored at 0x4000. -/
def mainStart : Process :=
  ⟨fun _ => 0, Function.update (fun _ => none) 0x4000 (some 8), 0x4000, 7⟩

theorem mainStart_consistent : Consistent mainStart :=
  ⟨by decide, by decide, 8, rfl, by decide⟩

def fiveBytes : Outcomes := ⟨true, 0, 5, 0x5000, 1, [1, 2, 3, 4, 5]⟩

def emptyFile : Outcomes := ⟨true, 0, 0, 0x5000, 0, []⟩

theorem globals_kept_five_bytes :
    Kept mainStart (readInputData fiveBytes mainStart) ∧
      ¬ Kept mainStart (readInputData emptyFile mainStart) := by
  constructor
  · exact (globals_kept_iff mainStart mainStart_consistent fiveBytes rfl).mpr
      (.inr ⟨by decide, by decide, rfl⟩)
  · rw [globals_kept_iff mainStart mainStart_consistent emptyFile rfl]
    rintro (hclosed | ⟨-, -, hread⟩)
    · exact absurd hclosed (by decide)
    · exact absurd hread (by decide)

theorem pipe_leaves_negative_length :
    ¬ ∀ (p : Process) (o : Outcomes), Consistent p → Fresh o p → Kept p (readInputData o p) := by
  intro hkept
  have hpipe := hkept mainStart ⟨true, -1, -1, 0x5000, 0, []⟩ mainStart_consistent
    (show mainStart.objects 0x5000 = none from rfl)
  have hlength : 0 ≤ (-1 : CLong).toInt := hpipe.consistent.length
  exact absurd hlength (by decide)

end Wasrisc.InputGlobals
