import Wasrisc.HostMemory
import Wasrisc.MemoryWindows
import Wasrisc.PolledSerial

namespace Wasrisc.UartConsole

open AddressedMemory HostMemory MemoryWindows PolledSerial

def uartLsrTxIdle : U8 := 1 <<< 5

def uartLsrRxReady : U8 := 1 <<< 0

def uartPutc (c : U8) : Code Unit := do
  Code.wait uartLsrTxIdle
  Code.putThr c
  if c = 0x0a then
    Code.wait uartLsrTxIdle
    Code.putThr 0x0d

def uartGetc : Code U8 := do
  Code.wait uartLsrRxReady
  Code.getRbr

def stdinFileno : CInt := 0

def stdoutFileno : CInt := 1

def stderrFileno : CInt := 2

def ebadf : CInt := 9

structure Newlib where
  ram : Ram
  errno : CInt

def putcLoop (ram : Ram) (ptr : U64) (len : CInt) : ℕ → CInt → Code Unit
  | 0, _ => pure ()
  | left + 1, i =>
    if i.slt len then do
      uartPutc (ram (ptr + i.signExtend 64))
      putcLoop ram ptr len left (i + 1)
    else pure ()

def write (file : CInt) (ptr : U64) (len : CInt) (s : Newlib) : Code (CInt × Newlib) :=
  if file ≠ stdoutFileno ∧ file ≠ stderrFileno then pure (-1, { s with errno := ebadf })
  else do
    putcLoop s.ram ptr len len.toInt.toNat 0
    pure (len, s)

def getcLoop (ptr : U64) (len : CInt) : ℕ → CInt → Ram → Code (CInt × Ram)
  | 0, i, ram => pure (i, ram)
  | left + 1, i, ram =>
    if i.slt len then do
      let c ← uartGetc
      let ram := Function.update ram (ptr + i.signExtend 64) c
      if ram (ptr + i.signExtend 64) = 0x0d ∨ ram (ptr + i.signExtend 64) = 0x0a then
        pure (i + 1, ram)
      else getcLoop ptr len left (i + 1) ram
    else pure (i, ram)

def read (file : CInt) (ptr : U64) (len : CInt) (s : Newlib) : Code (CInt × Newlib) :=
  if file ≠ stdinFileno then pure (-1, { s with errno := ebadf })
  else do
    let r ← getcLoop ptr len len.toInt.toNat 0 s.ram
    pure (r.1, { s with ram := r.2 })

def spelled (c : U8) : List U8 := if c = 0x0a then [0x0a, 0x0d] else [c]

/-- How many bytes a line of at most `n` takes from the input, its end included; nothing where the
input ends first. -/
def lineLength : ℕ → List U8 → Option ℕ
  | 0, _ => some 0
  | _ + 1, [] => none
  | n + 1, b :: i => if b = 0x0d ∨ b = 0x0a then some 1 else (lineLength n i).map (· + 1)

theorem lineLength_le {n k : ℕ} {i : List U8} (h : lineLength n i = some k) : k ≤ n := by
  induction n generalizing i k with
  | zero => exact (Option.some.inj h).symm.le
  | succ n ih =>
    cases i with
    | nil => exact absurd h (by simp [lineLength])
    | cons b i =>
      unfold lineLength at h
      split_ifs at h
      · have hk := Option.some.inj h
        omega
      · obtain ⟨m, hm, rfl⟩ := Option.map_eq_some_iff.mp h
        exact Nat.succ_le_succ (ih hm)

theorem uartPutc_sends (c : U8) : Sends (uartPutc c) (spelled c) () := by
  unfold uartPutc spelled
  by_cases h : c = 0x0a
  · subst h
    exact .send (.send (.ret ()))
  · simp only [if_neg h]
    exact .send (.ret ())

theorem uartGetc_guarded : Guarded uartGetc := .take fun b => .ret b

theorem getcLoop_guarded (ptr : U64) (len : CInt) (left : ℕ) (i : CInt) (ram : Ram) :
    Guarded (getcLoop ptr len left i ram) := by
  induction left generalizing i ram with
  | zero => exact .ret _
  | succ left ih =>
    unfold getcLoop
    split_ifs
    · apply uartGetc_guarded.bind
      intro c
      dsimp only
      split_ifs
      · exact .ret _
      · exact ih _ _
    · exact .ret _

theorem ofNat_slt {len : CInt} {i : ℕ} (hi : i < len.toInt.toNat) : (BitVec.ofNat 32 i).slt len := by
  have hlt : len.toInt < 2 ^ 31 := BitVec.toInt_lt
  rw [BitVec.slt_iff_toInt_lt, toInt_ofNat (by omega)]
  omega

theorem succ_ofNat (i : ℕ) : BitVec.ofNat 32 i + 1 = BitVec.ofNat 32 (i + 1) :=
  (BitVec.ofNat_add _ _).symm

theorem putcLoop_sends (ram : Ram) (ptr : U64) (len : CInt) (left i : ℕ)
    (hi : i + left = len.toInt.toNat) :
    Sends (putcLoop ram ptr len left (BitVec.ofNat 32 i))
      ((AddressedMemory.read ram (ptr + BitVec.ofNat 64 i) left).flatMap spelled) () := by
  have hlt : len.toInt < 2 ^ 31 := BitVec.toInt_lt
  induction left generalizing i with
  | zero => exact .ret ()
  | succ left ih =>
    have haddr : (BitVec.ofNat 32 i).signExtend 64 = BitVec.ofNat 64 i := signExtend_ofNat (by omega)
    have hfirst : AddressedMemory.read ram (ptr + BitVec.ofNat 64 i) 1 =
        [ram (ptr + BitVec.ofNat 64 i)] := by simp [AddressedMemory.read]
    unfold putcLoop
    rw [if_pos (ofNat_slt (by omega)), succ_ofNat, haddr, Nat.add_comm left 1, read_add,
      List.flatMap_append, hfirst, List.flatMap_singleton, BitVec.add_assoc, ← BitVec.ofNat_add]
    exact (uartPutc_sends _).bind (ih (i + 1) (by omega))

theorem getcLoop_play (ptr : U64) (len : CInt) (left i : ℕ) (hi : i + left = len.toInt.toNat)
    (ram : Ram) (input : List U8) :
    (getcLoop ptr len left (BitVec.ofNat 32 i) ram).play input =
      match lineLength left input with
      | some n => ⟨[], input.drop n, some (BitVec.ofNat 32 (i + n),
          AddressedMemory.write ram (ptr + BitVec.ofNat 64 i) (input.take n))⟩
      | none => ⟨[], [], none⟩ := by
  have hlt : len.toInt < 2 ^ 31 := BitVec.toInt_lt
  induction left generalizing i ram input with
  | zero =>
    have hram : AddressedMemory.write ram (ptr + BitVec.ofNat 64 i) [] = ram := by
      funext a
      exact write_of_notMem (by simp [mem_span])
    simp [getcLoop, lineLength, hram]
  | succ left ih =>
    have haddr : (BitVec.ofNat 32 i).signExtend 64 = BitVec.ofNat 64 i := signExtend_ofNat (by omega)
    unfold getcLoop
    rw [if_pos (ofNat_slt (by omega)), Code.play_bind, succ_ofNat, haddr]
    cases input with
    | nil => rfl
    | cons b input =>
      have hget : uartGetc.play (b :: input) = ⟨[], input, some b⟩ := rfl
      rw [hget, Outcome.bind_silent]
      simp only [Function.update_self, update_eq_write, lineLength]
      by_cases hb : b = 0x0d ∨ b = 0x0a
      · rw [if_pos hb, if_pos hb]
        rfl
      · rw [if_neg hb, if_neg hb, ih (i + 1) (by omega), BitVec.ofNat_add, ← BitVec.add_assoc]
        -- the byte just stored goes in front of those that the rest of the loop stores
        have hstore (bs : List U8) (hbs : 1 + bs.length ≤ 2 ^ 64) :
            AddressedMemory.write (AddressedMemory.write ram (ptr + BitVec.ofNat 64 i) [b])
              (ptr + BitVec.ofNat 64 i + BitVec.ofNat 64 1) bs =
                AddressedMemory.write ram (ptr + BitVec.ofNat 64 i) (b :: bs) :=
          write_append rfl hbs
        cases hline : lineLength left input with
        | none => rfl
        | some n =>
          have hn := lineLength_le hline
          simp only [Option.map_some, List.drop_succ_cons, List.take_succ_cons]
          rw [hstore _ (by rw [List.length_take]; omega)]
          simp only [Nat.add_assoc, Nat.add_comm 1 n]

inductive Call where
  | write (file : CInt) (ptr : U64) (len : CInt)
  | read (file : CInt) (ptr : U64) (len : CInt)

def Call.run : Call → Newlib → Code (CInt × Newlib)
  | .write file ptr len => UartConsole.write file ptr len
  | .read file ptr len => UartConsole.read file ptr len

def session : List Call → Newlib → Code (List CInt × Newlib)
  | [], s => pure ([], s)
  | k :: ks, s => do
    let r ← k.run s
    let rs ← session ks r.2
    pure (r.1 :: rs.1, rs.2)

/-- What `_write` is for: the characters in order, a carriage return after each line feed. -/
def writeMeaning (file : CInt) (ptr : U64) (len : CInt) (s : Newlib) (i : List U8) :
    Outcome (CInt × Newlib) :=
  if file = stdoutFileno ∨ file = stderrFileno then
    ⟨(AddressedMemory.read s.ram ptr len.toInt.toNat).flatMap spelled, i, some (len, s)⟩
  else ⟨[], i, some (-1, { s with errno := ebadf })⟩

def readMeaning (file : CInt) (ptr : U64) (len : CInt) (s : Newlib) (i : List U8) :
    Outcome (CInt × Newlib) :=
  if file = stdinFileno then
    match lineLength len.toInt.toNat i with
    | some n => ⟨[], i.drop n,
        some (BitVec.ofNat 32 n, { s with ram := AddressedMemory.write s.ram ptr (i.take n) })⟩
    | none => ⟨[], [], none⟩
  else ⟨[], i, some (-1, { s with errno := ebadf })⟩

def Call.meaning : Call → Newlib → List U8 → Outcome (CInt × Newlib)
  | .write file ptr len => writeMeaning file ptr len
  | .read file ptr len => readMeaning file ptr len

def meaning : List Call → Newlib → List U8 → Outcome (List CInt × Newlib)
  | [], s, i => ⟨[], i, some ([], s)⟩
  | k :: ks, s, i =>
    (k.meaning s i).bind fun r i =>
      (meaning ks r.2 i).bind fun rs i => ⟨[], i, some (r.1 :: rs.1, rs.2)⟩

section

variable (file : CInt) (ptr : U64) (len : CInt) (s : Newlib)

theorem putcLoop_start : Sends (putcLoop s.ram ptr len len.toInt.toNat 0)
    ((AddressedMemory.read s.ram ptr len.toInt.toNat).flatMap spelled) () := by
  have hfrom := putcLoop_sends s.ram ptr len len.toInt.toNat 0 (Nat.zero_add _)
  rwa [show ptr + BitVec.ofNat 64 0 = ptr from BitVec.add_zero ptr] at hfrom

theorem write_guarded : Guarded (write file ptr len s) := by
  unfold write
  split_ifs
  · exact .ret _
  · exact (putcLoop_start ptr len s).guarded.bind fun _ => .ret _

theorem read_guarded : Guarded (read file ptr len s) := by
  unfold read
  split_ifs
  · exact .ret _
  · exact (getcLoop_guarded _ _ _ _ _).bind fun _ => .ret _

theorem write_play (i : List U8) :
    (write file ptr len s).play i = writeMeaning file ptr len s i := by
  unfold write writeMeaning
  by_cases hfile : file = stdoutFileno ∨ file = stderrFileno
  · rw [if_neg (by tauto), if_pos hfile, Code.play_bind, (putcLoop_start ptr len s).play]
    simp [Outcome.bind]
  · rw [if_pos (by tauto), if_neg hfile, Code.play_pure]

theorem read_play (i : List U8) : (read file ptr len s).play i = readMeaning file ptr len s i := by
  have hloop : (getcLoop ptr len len.toInt.toNat 0 s.ram).play i = _ :=
    getcLoop_play ptr len len.toInt.toNat 0 (Nat.zero_add _) s.ram i
  rw [show ptr + BitVec.ofNat 64 0 = ptr from BitVec.add_zero ptr] at hloop
  unfold read readMeaning
  by_cases hfile : file = stdinFileno
  · rw [if_neg (not_not.mpr hfile), if_pos hfile, Code.play_bind, hloop]
    cases lineLength len.toInt.toNat i with
    | none => rfl
    | some n => simp only [Outcome.bind_silent, Nat.zero_add, Code.play_pure]
  · rw [if_pos hfile, if_neg hfile, Code.play_pure]

end

theorem Call.run_guarded (k : Call) (s : Newlib) : Guarded (k.run s) := by
  cases k with
  | write file ptr len => exact write_guarded file ptr len s
  | read file ptr len => exact read_guarded file ptr len s

theorem Call.run_play (k : Call) (s : Newlib) (i : List U8) : (k.run s).play i = k.meaning s i := by
  cases k with
  | write file ptr len => exact write_play file ptr len s i
  | read file ptr len => exact read_play file ptr len s i

theorem session_guarded (ks : List Call) (s : Newlib) : Guarded (session ks s) := by
  induction ks generalizing s with
  | nil => exact .ret _
  | cons k ks ih => exact (k.run_guarded s).bind fun r => (ih r.2).bind fun _ => .ret _

theorem session_play (ks : List Call) (s : Newlib) (i : List U8) :
    (session ks s).play i = meaning ks s i := by
  induction ks generalizing s i with
  | nil => rfl
  | cons k ks ih =>
    rw [session, Code.play_bind, k.run_play, meaning]
    refine congrArg _ (funext fun r => funext fun i => ?_)
    rw [Code.play_bind, ih]
    rfl

theorem console_safe (ks : List Call) (s : Newlib) (p : Port) (es : List Event) :
    let o := meaning ks s p.input
    let t := es.foldl step ⟨session ks s, p⟩
    t.port.wire <+: p.output ++ o.sent ∧
      ∀ r, t.code = .ret r →
        o.result = some r ∧ t.port.output = p.output ++ o.sent ∧ t.port.input = o.left := by
  intro o t
  have hsafe := (session_guarded ks s).safe p es
  rw [session_play] at hsafe
  exact hsafe

theorem console_returns (ks : List Call) (s : Newlib) (p : Port) {r : List CInt × Newlib}
    (hr : (meaning ks s p.input).result = some r) (rounds : List (List Event))
    (hturns : ∀ round ∈ rounds, .cpu ∈ round ∧ .shift ∈ round ∧ .arrive ∈ round)
    (hn : 3 * ((meaning ks s p.input).sent.length +
      (p.input.length - (meaning ks s p.input).left.length)) ≤ rounds.length) :
    (rounds.flatten.foldl step ⟨session ks s, p⟩).code = .ret r := by
  apply (session_guarded ks s).returns p _ rounds hturns
  · rw [session_play]
    exact hn
  · rw [session_play]
    exact hr

def greeting : Newlib := ⟨AddressedMemory.write (fun _ => 0) 0x80400000 [0x68, 0x69, 0x0a], 0⟩

def typed : Port := ⟨some 0x3e, none, [], [0x6f, 0x6b, 0x0d, 0x21], 0x00⟩

def greet : List Call := [.write 1 0x80400000 3, .read 0 0x80400010 8]

theorem console_returns_greeting :
    ((List.replicate 21 [Event.arrive, .status 0xff, .shift, .cpu]).flatten.foldl step
      ⟨session greet greeting, typed⟩).code =
        .ret ([3, 3], ⟨AddressedMemory.write greeting.ram 0x80400010 [0x6f, 0x6b, 0x0d], 0⟩) :=
  console_returns greet greeting typed rfl _ (by simp) (by decide)

end Wasrisc.UartConsole
