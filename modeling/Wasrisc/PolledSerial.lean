import Wasrisc.FairRounds

namespace Wasrisc.PolledSerial

open FairRounds

abbrev Byte := BitVec 8

/-- A serial port with one holding register in each direction. `wire` is what the transmitter has
taken so far, `line` what the peer still has to send, and `status` supplies the line status bits
that have nothing to do with either. -/
structure Port where
  thr : Option Byte
  rbr : Option Byte
  wire : List Byte
  line : List Byte
  status : Byte

def txIdle : Byte := 0x20

def rxReady : Byte := 0x01

namespace Port

def lsr (p : Port) : Byte :=
  (p.status &&& ~~~(txIdle ||| rxReady)) ||| (if p.thr.isNone then txIdle else 0) |||
    (if p.rbr.isSome then rxReady else 0)

def writeThr (p : Port) (c : Byte) : Port := { p with thr := some c }

def readRbr (p : Port) : Byte × Port := (p.rbr.getD 0, { p with rbr := none })

def shift (p : Port) : Port := { p with thr := none, wire := p.wire ++ p.thr.toList }

def arrive (p : Port) : Port :=
  match p.rbr, p.line with
  | none, b :: line => { p with rbr := some b, line := line }
  | _, _ => p

def input (p : Port) : List Byte := p.rbr.toList ++ p.line

def output (p : Port) : List Byte := p.wire ++ p.thr.toList

theorem lsr_txIdle (p : Port) : p.lsr &&& txIdle = 0 ↔ p.thr ≠ none := by
  have hbits : ∀ s r : Byte, r = 0 ∨ r = rxReady →
      ((s &&& ~~~(txIdle ||| rxReady)) ||| txIdle ||| r) &&& txIdle ≠ 0 ∧
        ((s &&& ~~~(txIdle ||| rxReady)) ||| 0 ||| r) &&& txIdle = 0 := by
    rintro s r (rfl | rfl)
    · revert s
      decide
    · revert s
      decide
  have hr : (if p.rbr.isSome then rxReady else 0) = 0 ∨
      (if p.rbr.isSome then rxReady else 0) = rxReady := by
    split_ifs
    · exact .inr rfl
    · exact .inl rfl
  unfold lsr
  cases p.thr with
  | none => simpa using (hbits p.status _ hr).1
  | some c => simpa using (hbits p.status _ hr).2

theorem lsr_rxReady (p : Port) : p.lsr &&& rxReady = 0 ↔ p.rbr = none := by
  have hbits : ∀ s t : Byte, t = 0 ∨ t = txIdle →
      ((s &&& ~~~(txIdle ||| rxReady)) ||| t ||| rxReady) &&& rxReady ≠ 0 ∧
        ((s &&& ~~~(txIdle ||| rxReady)) ||| t ||| 0) &&& rxReady = 0 := by
    rintro s t (rfl | rfl)
    · revert s
      decide
    · revert s
      decide
  have ht : (if p.thr.isNone then txIdle else 0) = 0 ∨
      (if p.thr.isNone then txIdle else 0) = txIdle := by
    split_ifs
    · exact .inr rfl
    · exact .inl rfl
  unfold lsr
  cases p.rbr with
  | none => simpa using (hbits p.status _ ht).2
  | some c => simpa using (hbits p.status _ ht).1

@[simp] theorem output_shift (p : Port) : p.shift.output = p.output := by simp [shift, output]

@[simp] theorem input_shift (p : Port) : p.shift.input = p.input := rfl

@[simp] theorem rbr_shift (p : Port) : p.shift.rbr = p.rbr := rfl

@[simp] theorem thr_shift (p : Port) : p.shift.thr = none := rfl

theorem arrive_of_some {p : Port} {b : Byte} (h : p.rbr = some b) : p.arrive = p := by
  simp [arrive, h]

theorem arrive_of_nil {p : Port} (h : p.line = []) : p.arrive = p := by
  unfold arrive
  split
  · rename_i hline
    exact absurd (h.symm.trans hline) (by simp)
  · rfl

theorem arrive_of_cons {p : Port} {b : Byte} {line : List Byte} (h : p.rbr = none)
    (hline : p.line = b :: line) : p.arrive = { p with rbr := some b, line := line } := by
  simp [arrive, h, hline]

@[simp] theorem thr_arrive (p : Port) : p.arrive.thr = p.thr := by
  unfold arrive
  split <;> rfl

@[simp] theorem wire_arrive (p : Port) : p.arrive.wire = p.wire := by
  unfold arrive
  split <;> rfl

@[simp] theorem output_arrive (p : Port) : p.arrive.output = p.output := by simp [output]

@[simp] theorem input_arrive (p : Port) : p.arrive.input = p.input := by
  cases hrbr : p.rbr with
  | some b => rw [arrive_of_some hrbr]
  | none =>
    cases hline : p.line with
    | nil => rw [arrive_of_nil hline]
    | cons b line => simp [arrive_of_cons hrbr hline, input, hrbr, hline]

end Port

/-- What a driver does with the port: `await` reads the line status until it has a bit of the mask,
the other two are one access each. -/
inductive Code (ρ : Type) where
  | ret (r : ρ)
  | await (mask : Byte) (next : Code ρ)
  | transmit (c : Byte) (next : Code ρ)
  | receive (next : Byte → Code ρ)

variable {ρ τ : Type}

namespace Code

def bind : Code ρ → (ρ → Code τ) → Code τ
  | ret r, k => k r
  | await mask next, k => await mask (next.bind k)
  | transmit c next, k => transmit c (next.bind k)
  | receive next, k => receive fun b => (next b).bind k

instance : Monad Code where
  pure := ret
  bind := bind

def wait (mask : Byte) : Code Unit := await mask (ret ())

def putThr (c : Byte) : Code Unit := transmit c (ret ())

def getRbr : Code Byte := receive ret

end Code

structure Outcome (ρ : Type) where
  sent : List Byte
  left : List Byte
  result : Option ρ

def Outcome.bind (o : Outcome ρ) (f : ρ → List Byte → Outcome τ) : Outcome τ :=
  match o.result with
  | none => ⟨o.sent, o.left, none⟩
  | some r => ⟨o.sent ++ (f r o.left).sent, (f r o.left).left, (f r o.left).result⟩

@[simp] theorem Outcome.bind_silent (left : List Byte) (r : ρ) (f : ρ → List Byte → Outcome τ) :
    (⟨[], left, some r⟩ : Outcome ρ).bind f = f r left := rfl

/-- The driver on a port that never makes it wait: what it sends, what it leaves unread, and what
it returns, which is nothing where the input ends too early. -/
def Code.play : Code ρ → List Byte → Outcome ρ
  | .ret r, i => ⟨[], i, some r⟩
  | .await _ next, i => next.play i
  | .transmit c next, i => ⟨c :: (next.play i).sent, (next.play i).left, (next.play i).result⟩
  | .receive _, [] => ⟨[], [], none⟩
  | .receive next, b :: i => (next b).play i

inductive Guarded : Code ρ → Prop
  | ret (r : ρ) : Guarded (.ret r)
  | send {c : Byte} {next : Code ρ} (h : Guarded next) : Guarded (.await txIdle (.transmit c next))
  | take {next : Byte → Code ρ} (h : ∀ b, Guarded (next b)) :
      Guarded (.await rxReady (.receive next))

theorem Guarded.bind {c : Code ρ} {k : ρ → Code τ} (hc : Guarded c) (hk : ∀ r, Guarded (k r)) :
    Guarded (c >>= k) := by
  change Guarded (c.bind k)
  induction hc with
  | ret r => exact hk r
  | send h ih => exact .send ih
  | take h ih => exact .take ih

theorem Code.play_bind (c : Code ρ) (k : ρ → Code τ) (i : List Byte) :
    (c >>= k).play i = (c.play i).bind fun r => (k r).play := by
  change (c.bind k).play i = _
  induction c generalizing i with
  | ret r => rfl
  | await mask next ih => exact ih i
  | transmit c next ih =>
    simp only [Code.bind, play, ih, Outcome.bind]
    cases (next.play i).result <;> simp
  | receive next ih =>
    cases i with
    | nil => rfl
    | cons b i => exact ih b i

@[simp] theorem Code.play_pure (r : ρ) (i : List Byte) :
    (pure r : Code ρ).play i = ⟨[], i, some r⟩ := rfl

theorem Code.length_left_le (c : Code ρ) (i : List Byte) : (c.play i).left.length ≤ i.length := by
  induction c generalizing i with
  | ret r => exact le_refl _
  | await mask next ih => exact ih i
  | transmit c next ih => exact ih i
  | receive next ih =>
    cases i with
    | nil => exact le_refl _
    | cons b i => exact (ih b i).trans (Nat.le_succ _)

inductive Sends : Code ρ → List Byte → ρ → Prop
  | ret (r : ρ) : Sends (.ret r) [] r
  | send {c : Byte} {next : Code ρ} {out : List Byte} {r : ρ} (h : Sends next out r) :
      Sends (.await txIdle (.transmit c next)) (c :: out) r

namespace Sends

variable {c : Code ρ} {out : List Byte} {r : ρ}

theorem bind {k : ρ → Code τ} {out' : List Byte} {r' : τ} (hc : Sends c out r)
    (hk : Sends (k r) out' r') : Sends (c >>= k) (out ++ out') r' := by
  change Sends (c.bind k) (out ++ out') r'
  induction hc with
  | ret r => exact hk
  | send h ih => exact .send (ih hk)

theorem map (f : ρ → τ) (h : Sends c out r) :
    Sends (do let r ← c; pure (f r)) out (f r) := by
  have hbind : Sends (do let r ← c; pure (f r)) (out ++ []) (f r) := h.bind (.ret (f r))
  rwa [List.append_nil] at hbind

theorem guarded (h : Sends c out r) : Guarded c := by
  induction h with
  | ret r => exact .ret r
  | send h ih => exact .send ih

theorem play (h : Sends c out r) (i : List Byte) : c.play i = ⟨out, i, some r⟩ := by
  induction h with
  | ret r => rfl
  | send h ih => rw [Code.play, Code.play, ih]

end Sends

structure System (ρ : Type) where
  code : Code ρ
  port : Port

inductive Event where
  | cpu
  | shift
  | arrive
  | status (b : Byte)

def cpuStep : Code ρ → Port → System ρ
  | .ret r, p => ⟨.ret r, p⟩
  | .await mask next, p => ⟨if p.lsr &&& mask = 0 then .await mask next else next, p⟩
  | .transmit c next, p => ⟨next, p.writeThr c⟩
  | .receive next, p => ⟨next p.readRbr.1, p.readRbr.2⟩

def step (s : System ρ) : Event → System ρ
  | .cpu => cpuStep s.code s.port
  | .shift => { s with port := s.port.shift }
  | .arrive => { s with port := s.port.arrive }
  | .status b => { s with port := { s.port with status := b } }

def System.outcome (s : System ρ) : Outcome ρ :=
  let o := s.code.play s.port.input
  { o with sent := s.port.output ++ o.sent }

inductive Steady : System ρ → Prop
  | between {c : Code ρ} {p : Port} (h : Guarded c) : Steady ⟨c, p⟩
  | sending {c : Byte} {next : Code ρ} {p : Port} (hthr : p.thr = none) (h : Guarded next) :
      Steady ⟨.transmit c next, p⟩
  | taking {next : Byte → Code ρ} {b : Byte} {p : Port} (hrbr : p.rbr = some b)
      (h : ∀ b, Guarded (next b)) : Steady ⟨.receive next, p⟩

theorem cpuStep_idle {next : Code ρ} {p : Port} (h : p.thr = none) :
    cpuStep (.await txIdle next) p = ⟨next, p⟩ := by
  rw [cpuStep, if_neg fun hbusy => p.lsr_txIdle.mp hbusy h]

theorem cpuStep_busy {next : Code ρ} {p : Port} (h : p.thr ≠ none) :
    cpuStep (.await txIdle next) p = ⟨.await txIdle next, p⟩ := by
  rw [cpuStep, if_pos (p.lsr_txIdle.mpr h)]

theorem cpuStep_arrived {next : Code ρ} {p : Port} {b : Byte} (h : p.rbr = some b) :
    cpuStep (.await rxReady next) p = ⟨next, p⟩ := by
  rw [cpuStep, if_neg]
  rw [p.lsr_rxReady, h]
  exact Option.some_ne_none b

theorem cpuStep_empty {next : Code ρ} {p : Port} (h : p.rbr = none) :
    cpuStep (.await rxReady next) p = ⟨.await rxReady next, p⟩ := by
  rw [cpuStep, if_pos (p.lsr_rxReady.mpr h)]

theorem cpuStep_steady {s : System ρ} (hs : Steady s) : Steady (cpuStep s.code s.port) := by
  cases hs with
  | between h =>
    rename_i c p
    cases h with
    | ret r => exact .between (.ret r)
    | send h =>
      by_cases hthr : p.thr = none
      · rw [cpuStep_idle hthr]
        exact .sending hthr h
      · rw [cpuStep_busy hthr]
        exact .between (.send h)
    | take h =>
      cases hrbr : p.rbr with
      | none =>
        rw [cpuStep_empty hrbr]
        exact .between (.take h)
      | some b =>
        rw [cpuStep_arrived hrbr]
        exact .taking hrbr h
  | sending hthr h => exact .between h
  | taking hrbr h => exact .between (h _)

theorem step_steady {s : System ρ} (hs : Steady s) (e : Event) : Steady (step s e) := by
  cases e with
  | cpu => exact cpuStep_steady hs
  | shift =>
    cases hs with
    | between h => exact .between h
    | sending hthr h => exact .sending rfl h
    | taking hrbr h => exact .taking hrbr h
  | arrive =>
    cases hs with
    | between h => exact .between h
    | sending hthr h => exact .sending ((Port.thr_arrive _).trans hthr) h
    | taking hrbr h => exact .taking ((congrArg Port.rbr (Port.arrive_of_some hrbr)).trans hrbr) h
  | status b =>
    cases hs with
    | between h => exact .between h
    | sending hthr h => exact .sending hthr h
    | taking hrbr h => exact .taking hrbr h

theorem cpuStep_outcome {s : System ρ} (hs : Steady s) :
    (cpuStep s.code s.port).outcome = s.outcome := by
  cases hs with
  | between h =>
    rename_i c p
    cases h with
    | ret r => rfl
    | send h =>
      by_cases hthr : p.thr = none
      · rw [cpuStep_idle hthr]
        rfl
      · rw [cpuStep_busy hthr]
    | take h =>
      cases hrbr : p.rbr with
      | none => rw [cpuStep_empty hrbr]
      | some b =>
        rw [cpuStep_arrived hrbr]
        rfl
  | sending hthr h =>
    -- the holding register is free, so that nothing is overwritten
    simp [cpuStep, System.outcome, Port.writeThr, Port.output, Port.input, Code.play, hthr]
  | taking hrbr h =>
    simp [cpuStep, System.outcome, Port.readRbr, Port.output, Port.input, Code.play, hrbr]

theorem step_outcome {s : System ρ} (hs : Steady s) (e : Event) : (step s e).outcome = s.outcome := by
  cases e with
  | cpu => exact cpuStep_outcome hs
  | shift => simp [step, System.outcome]
  | arrive => simp [step, System.outcome]
  | status b => rfl

theorem run_steady {s : System ρ} (hs : Steady s) (es : List Event) : Steady (es.foldl step s) := by
  induction es generalizing s with
  | nil => exact hs
  | cons e es ih => exact ih (step_steady hs e)

theorem run_outcome {s : System ρ} (hs : Steady s) (es : List Event) :
    (es.foldl step s).outcome = s.outcome := by
  induction es generalizing s with
  | nil => rfl
  | cons e es ih => exact (ih (step_steady hs e)).trans (step_outcome hs e)

def Code.work : Code ρ → List Byte → ℕ
  | .ret _, _ => 0
  | .await _ next, i => next.work i
  | .transmit _ next, i => 3 + next.work i
  | .receive _, [] => 0
  | .receive next, b :: i => 3 + (next b).work i

theorem Code.work_eq (c : Code ρ) (i : List Byte) :
    c.work i = 3 * ((c.play i).sent.length + (i.length - (c.play i).left.length)) := by
  induction c generalizing i with
  | ret r => simp [work, play]
  | await mask next ih => exact ih i
  | transmit c next ih =>
    simp only [work, play, ih, List.length_cons]
    omega
  | receive next ih =>
    cases i with
    | nil => rfl
    | cons b i =>
      have hle := (next b).length_left_le i
      simp only [work, play, ih, List.length_cons]
      omega

def System.rank (s : System ρ) : ℕ :=
  s.code.work s.port.input - match s.code with
    | .ret _ => 0
    | .await mask _ =>
      if mask = txIdle then if s.port.thr.isNone then 1 else 0
      else if s.port.rbr.isSome then 1 else 0
    | .transmit _ _ => 2
    | .receive _ => 2

def System.helpful (s : System ρ) : Event :=
  match s.code with
  | .await mask _ =>
    if mask = txIdle then if s.port.thr.isNone then .cpu else .shift
    else if s.port.rbr.isSome then .cpu else .arrive
  | _ => .cpu

theorem rxReady_ne_txIdle : rxReady ≠ txIdle := by decide

section

variable {next : Code ρ} {p : Port}

theorem rank_idle (h : p.thr = none) :
    System.rank ⟨.await txIdle next, p⟩ = next.work p.input - 1 := by
  simp [System.rank, Code.work, h]

theorem rank_busy {c : Byte} (h : p.thr = some c) :
    System.rank ⟨.await txIdle next, p⟩ = next.work p.input := by
  simp [System.rank, Code.work, h]

theorem rank_arrived {b : Byte} (h : p.rbr = some b) :
    System.rank ⟨.await rxReady next, p⟩ = next.work p.input - 1 := by
  simp [System.rank, Code.work, h, rxReady_ne_txIdle]

theorem rank_empty (h : p.rbr = none) :
    System.rank ⟨.await rxReady next, p⟩ = next.work p.input := by
  simp [System.rank, Code.work, h, rxReady_ne_txIdle]

theorem rank_transmit (c : Byte) :
    System.rank ⟨.transmit c next, p⟩ = 1 + next.work p.input := by
  simp only [System.rank, Code.work]
  omega

theorem rank_receive {next : Byte → Code ρ} {b : Byte} (h : p.rbr = some b) :
    System.rank ⟨.receive next, p⟩ = 1 + (next b).work p.line := by
  simp only [System.rank, Port.input, h, Option.toList_some, List.cons_append, List.nil_append,
    Code.work]
  omega

theorem rank_le (c : Code ρ) (p : Port) : System.rank ⟨c, p⟩ ≤ c.work p.input := Nat.sub_le _ _

end

def Advances (s : System ρ) (e : Event) (t : System ρ) : Prop :=
  t.rank < s.rank ∨ t.rank = s.rank ∧ t.helpful = s.helpful ∧ (0 < s.rank → e ≠ s.helpful)

theorem advances_self {s : System ρ} {e : Event} (h : 0 < s.rank → e ≠ s.helpful) :
    Advances s e s := .inr ⟨rfl, rfl, h⟩

theorem cpuStep_advances {s : System ρ} (hs : Steady s) :
    Advances s .cpu (cpuStep s.code s.port) := by
  cases hs with
  | between h =>
    rename_i c p
    cases h with
    | ret r => exact advances_self fun hpos => absurd hpos (lt_irrefl 0)
    | @send c next h =>
      cases hthr : p.thr with
      | none =>
        rw [cpuStep_idle hthr]
        left
        rw [rank_idle hthr, rank_transmit, Code.work]
        omega
      | some b =>
        rw [cpuStep_busy (by simp [hthr])]
        exact advances_self fun _ => by simp [System.helpful, hthr]
    | @take next h =>
      cases hrbr : p.rbr with
      | none =>
        rw [cpuStep_empty hrbr]
        exact advances_self fun _ => by simp [System.helpful, hrbr, rxReady_ne_txIdle]
      | some b =>
        rw [cpuStep_arrived hrbr]
        left
        rw [rank_arrived hrbr, rank_receive hrbr]
        simp only [Port.input, hrbr, Option.toList_some, List.cons_append, List.nil_append, Code.work]
        omega
  | @sending c next p hthr h =>
    left
    have hle := rank_le next (p.writeThr c)
    rw [rank_transmit]
    exact Nat.lt_one_add_iff.mpr hle
  | @taking next b p hrbr h =>
    left
    have hle := rank_le (next b) p.readRbr.2
    rw [rank_receive hrbr]
    simp only [cpuStep, Port.readRbr, hrbr, Option.getD_some]
    exact Nat.lt_one_add_iff.mpr hle

theorem advances_of_same {c : Code ρ} {p q : Port} {e : Event} (hinput : q.input = p.input)
    (hthr : q.thr.isNone = p.thr.isNone) (hrbr : q.rbr.isSome = p.rbr.isSome)
    (he : 0 < System.rank ⟨c, p⟩ → e ≠ System.helpful ⟨c, p⟩) : Advances ⟨c, p⟩ e ⟨c, q⟩ := by
  refine .inr ⟨?_, ?_, he⟩
  · simp only [System.rank, hinput, hthr, hrbr]
  · simp only [System.helpful, hthr, hrbr]

theorem helpful_ne_shift (c : Code ρ) {p : Port} (h : p.thr = none) :
    Event.shift ≠ System.helpful ⟨c, p⟩ := by
  cases c <;> simp only [System.helpful, h, Option.isNone_none, if_true, ne_eq, reduceCtorEq,
    not_false_eq_true]
  split_ifs <;> simp

theorem helpful_ne_arrive (c : Code ρ) {p : Port} {b : Byte} (h : p.rbr = some b) :
    Event.arrive ≠ System.helpful ⟨c, p⟩ := by
  cases c <;> simp only [System.helpful, h, Option.isSome_some, if_true, ne_eq, reduceCtorEq,
    not_false_eq_true]
  split_ifs <;> simp

theorem shift_advances {s : System ρ} (hs : Steady s) : Advances s .shift (step s .shift) := by
  obtain ⟨c, p⟩ := s
  cases hthr : p.thr with
  | none =>
    exact advances_of_same p.input_shift (by simp [hthr]) rfl fun _ => helpful_ne_shift c hthr
  | some b =>
    cases hs with
    | between h =>
      cases h with
      | ret r => exact .inr ⟨rfl, rfl, fun hpos => absurd hpos (lt_irrefl 0)⟩
      | send h =>
        left
        rw [rank_busy hthr, step, rank_idle p.thr_shift, Port.input_shift, Code.work]
        omega
      | take h =>
        refine .inr ⟨?_, ?_, fun _ => ?_⟩
        · simp only [step, System.rank, rxReady_ne_txIdle, if_false]
          rfl
        · simp only [step, System.helpful, rxReady_ne_txIdle, if_false]
          rfl
        · simp only [System.helpful, rxReady_ne_txIdle, if_false]
          split_ifs <;> simp
    | sending hnone h => exact absurd (hthr.symm.trans hnone) (by simp)
    | taking hrbr h =>
      refine .inr ⟨?_, rfl, fun _ => ?_⟩
      · simp [step, System.rank]
      · simp [System.helpful]

theorem arrive_advances {s : System ρ} (hs : Steady s) : Advances s .arrive (step s .arrive) := by
  obtain ⟨c, p⟩ := s
  cases hrbr : p.rbr with
  | some b =>
    rw [step, Port.arrive_of_some hrbr]
    exact advances_self fun _ => helpful_ne_arrive c hrbr
  | none =>
    cases hs with
    | between h =>
      cases h with
      | ret r => exact .inr ⟨rfl, rfl, fun hpos => absurd hpos (lt_irrefl 0)⟩
      | send h =>
        refine .inr ⟨?_, ?_, fun _ => ?_⟩
        · simp [step, System.rank]
        · simp [step, System.helpful]
        · simp only [System.helpful, if_true]
          split_ifs <;> simp
      | take h =>
        cases hline : p.line with
        | nil =>
          -- the driver waits for good
          rw [step, Port.arrive_of_nil hline]
          refine advances_self fun hpos => absurd hpos ?_
          simp [rank_empty hrbr, Port.input, hrbr, hline, Code.work]
        | cons b line =>
          left
          have hnext : p.arrive.rbr = some b := congrArg Port.rbr (Port.arrive_of_cons hrbr hline)
          rw [rank_empty hrbr, step, rank_arrived hnext, Port.input_arrive]
          simp only [Port.input, hrbr, hline, Option.toList_none, List.nil_append, Code.work]
          omega
    | sending hthr h =>
      refine .inr ⟨?_, rfl, fun _ => ?_⟩
      · simp [step, System.rank]
      · simp [System.helpful]
    | taking hsome h => exact absurd (hrbr.symm.trans hsome) (by simp)

theorem helpful_turn (s : System ρ) :
    s.helpful = .cpu ∨ s.helpful = .shift ∨ s.helpful = .arrive := by
  obtain ⟨c, p⟩ := s
  cases c <;> simp only [System.helpful, true_or]
  split_ifs <;> simp

theorem helpful_ne_status (s : System ρ) (b : Byte) : Event.status b ≠ s.helpful := by
  rcases helpful_turn s with h | h | h <;> simp [h]

theorem step_advances {s : System ρ} (hs : Steady s) (e : Event) : Advances s e (step s e) := by
  cases e with
  | cpu => exact cpuStep_advances hs
  | shift => exact shift_advances hs
  | arrive => exact arrive_advances hs
  | status b => exact advances_of_same rfl rfl rfl fun _ => helpful_ne_status s b

theorem ranked : Ranked (step (ρ := ρ)) Steady System.rank System.helpful := by
  constructor
  · intro s e hs
    exact step_steady hs e
  · intro s e hs
    rcases step_advances hs e with hlt | ⟨heq, -, -⟩
    · exact hlt.le
    · exact heq.le
  · intro s hs hpos
    rcases step_advances hs s.helpful with hlt | ⟨-, -, hne⟩
    · exact hlt
    · exact absurd rfl (hne hpos)
  · intro s e hs hpos heq
    rcases step_advances hs e with hlt | ⟨-, hhelpful, -⟩
    · omega
    · exact hhelpful

theorem ret_of_rank_zero {s : System ρ} (hs : Steady s) (hzero : s.rank = 0) {r : ρ}
    (hr : s.outcome.result = some r) : s.code = .ret r := by
  cases hs with
  | between h =>
    rename_i c p
    cases h with
    | ret r' => exact congrArg Code.ret (Option.some.inj hr)
    | send h =>
      cases hthr : p.thr with
      | none =>
        rw [rank_idle hthr, Code.work] at hzero
        omega
      | some b =>
        rw [rank_busy hthr, Code.work] at hzero
        omega
    | take h =>
      cases hrbr : p.rbr with
      | some b =>
        rw [rank_arrived hrbr] at hzero
        simp only [Port.input, hrbr, Option.toList_some, List.cons_append, List.nil_append,
          Code.work] at hzero
        omega
      | none =>
        rw [rank_empty hrbr] at hzero
        simp only [System.outcome, Port.input, hrbr, Option.toList_none, List.nil_append] at hr hzero
        cases hline : p.line with
        | nil =>
          rw [hline] at hr
          exact absurd hr (by simp [Code.play])
        | cons b line =>
          rw [hline, Code.work] at hzero
          omega
  | sending hthr h =>
    rw [rank_transmit] at hzero
    omega
  | taking hrbr h =>
    rw [rank_receive hrbr] at hzero
    omega

/-- Whatever the interleaving: what has been put on the wire is a beginning of what the driver sends
on a port that never makes it wait, and when it returns, all of it has been handed over, what it
returns is the same, and so is what is left to read. -/
theorem Guarded.safe {c : Code ρ} (hc : Guarded c) (p : Port) (es : List Event) :
    let s := es.foldl step ⟨c, p⟩
    s.port.wire <+: p.output ++ (c.play p.input).sent ∧
      ∀ r, s.code = .ret r → (c.play p.input).result = some r ∧
        s.port.output = p.output ++ (c.play p.input).sent ∧
        s.port.input = (c.play p.input).left := by
  have hrun := run_outcome (.between (p := p) hc) es
  intro s
  change s.outcome = _ at hrun
  constructor
  · change _ <+: (System.outcome ⟨c, p⟩).sent
    rw [← hrun]
    exact (List.prefix_append _ _).trans (List.prefix_append _ _)
  · intro r hr
    have hplay : s.code.play s.port.input = ⟨[], s.port.input, some r⟩ := by rw [hr]; rfl
    have hs : s.outcome = ⟨s.port.output ++ [], s.port.input, some r⟩ := by
      rw [System.outcome, hplay]
    rw [hs] at hrun
    refine ⟨(congrArg Outcome.result hrun).symm, ?_, congrArg Outcome.left hrun⟩
    exact (List.append_nil _).symm.trans (congrArg Outcome.sent hrun)

theorem Guarded.returns {c : Code ρ} (hc : Guarded c) (p : Port) {r : ρ}
    (hr : (c.play p.input).result = some r) (rounds : List (List Event))
    (hturns : ∀ round ∈ rounds, .cpu ∈ round ∧ .shift ∈ round ∧ .arrive ∈ round)
    (hn : 3 * ((c.play p.input).sent.length +
      (p.input.length - (c.play p.input).left.length)) ≤ rounds.length) :
    (rounds.flatten.foldl step ⟨c, p⟩).code = .ret r := by
  have hsteady : Steady (⟨c, p⟩ : System ρ) := .between hc
  have hrank : System.rank ⟨c, p⟩ ≤ rounds.length := (rank_le c p).trans (c.work_eq _ ▸ hn)
  apply ret_of_rank_zero (run_steady hsteady _)
  · apply ranked.rounds hsteady _ hrank
    intro round hround t _ _
    obtain ⟨hcpu, hshift, harrive⟩ := hturns round hround
    rcases helpful_turn t with h | h | h
    · rwa [h]
    · rwa [h]
    · rwa [h]
  · rw [run_outcome hsteady]
    exact hr

end Wasrisc.PolledSerial
