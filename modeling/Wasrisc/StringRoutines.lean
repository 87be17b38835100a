import Wasrisc.BareMetalConsole

namespace Wasrisc.StringRoutines

open HostMemory
open BareMetalConsole (CString literal strlenMax)

inductive Event where
  | read (index : ℕ)
  | pollStatus
  | store (address : U64) (c : U8)
  deriving DecidableEq

/-- The UART of a platform; `busy i` polls of riscv-qemu's find its holding register full before
the byte that the `i`th round of a loop sends. -/
inductive Uart where
  | zkvm
  | riscvQemu (busy : ℕ → ℕ)

structure Call where
  events : List Event
  result : ℕ

def transmitter : Uart → U64
  | .zkvm => 0xa0000000 + 512
  | .riscvQemu _ => 0x10000000

def writeuartc (uart : Uart) (round : ℕ) (c : U8) : List Event :=
  match uart with
  | .zkvm => [.store (transmitter uart) c]
  | .riscvQemu busy =>
    List.replicate (busy round) .pollStatus ++ [.pollStatus, .store (transmitter uart) c]

def strlenLoop (s : CString) : ℕ → ℕ → Call
  | 0, _ => ⟨[], strlenMax⟩
  | left + 1, i =>
    if s i = 0 then ⟨[.read i], i⟩
    else
      let rest := strlenLoop s left (i + 1)
      ⟨.read i :: rest.events, rest.result⟩

def strlen (s : CString) : Call := strlenLoop s strlenMax 0

/-- The loop of `puts` and `printf`, whose test scans the string again. -/
def writeLoop (uart : Uart) (s : CString) : ℕ → ℕ → Option (List Event)
  | 0, _ => none
  | left + 1, i =>
    let len := strlen s
    if i < len.result then
      (writeLoop uart s left (i + 1)).map fun rest =>
        len.events ++ .read i :: writeuartc uart i (s i) ++ rest
    else some len.events

def writeString (uart : Uart) (s : CString) : Option Call :=
  (writeLoop uart s (strlenMax + 1) 0).map fun events =>
    ⟨events ++ (strlen s).events, (strlen s).result⟩

def puts (uart : Uart) (s : CString) : Option Call := writeString uart s

-- the arguments after the format are not looked at
def printf (uart : Uart) (fmt : CString) : Option Call := writeString uart fmt

def transmitted (uart : Uart) (events : List Event) : List U8 :=
  events.filterMap fun e =>
    match e with
    | .store address c => if address = transmitter uart then some c else none
    | _ => none

def StaysWithin (n : ℕ) (events : List Event) : Prop := ∀ i, .read i ∈ events → i ≤ n

structure Writes (uart : Uart) (s : CString) (n : ℕ) (r : Option Call) : Prop where
  returns : r.map Call.result = some n
  sends : r.map (fun call => transmitted uart call.events) = some ((List.range n).map s)
  stores : ∀ call ∈ r, ∀ address c, .store address c ∈ call.events → address = transmitter uart
  reads : ∀ call ∈ r, StaysWithin n call.events

def NoConversion (s : CString) (n : ℕ) : Prop := ∀ i < n, s i ≠ 0x25

structure Faithful (uart : Uart) (s : CString) (n : ℕ) : Prop where
  strlen : (strlen s).result = n ∧ StaysWithin n (strlen s).events
  puts : Writes uart s n (puts uart s)
  printf : NoConversion s n → Writes uart s n (printf uart s)

theorem strlenLoop_result (s : CString) (left i : ℕ) :
    (strlenLoop s left i).result = BareMetalConsole.strlenLoop s left i := by
  induction left generalizing i with
  | zero => rfl
  | succ left ih =>
    rw [strlenLoop, BareMetalConsole.strlenLoop]
    split
    · rfl
    · exact ih (i + 1)

theorem strlen_result (s : CString) : (strlen s).result = BareMetalConsole.strlen s :=
  strlenLoop_result s strlenMax 0

theorem strlenLoop_events {s : CString} {left i : ℕ} {e : Event}
    (h : e ∈ (strlenLoop s left i).events) : ∃ k, e = .read k := by
  induction left generalizing i with
  | zero => exact absurd h List.not_mem_nil
  | succ left ih =>
    rw [strlenLoop] at h
    split at h
    · exact ⟨i, List.mem_singleton.mp h⟩
    · rcases List.mem_cons.mp h with rfl | h
      · exact ⟨i, rfl⟩
      · exact ih h

section

variable {uart : Uart} {s : CString} {n : ℕ}

theorem strlenLoop_staysWithin (hn : s n = 0) (left i : ℕ) (hi : i ≤ n) :
    StaysWithin n (strlenLoop s left i).events := by
  induction left generalizing i with
  | zero => exact fun k hk => absurd hk List.not_mem_nil
  | succ left ih =>
    rw [strlenLoop]
    intro k hk
    split at hk
    · cases List.mem_singleton.mp hk
      exact hi
    · rename_i hne
      have hlt : i < n := lt_of_le_of_ne hi fun heq => hne (heq ▸ hn)
      rcases List.mem_cons.mp hk with heq | hk
      · cases heq
        exact hi
      · exact ih (i + 1) hlt k hk

theorem strlen_eq_min (hn : s n = 0) (hs : ∀ j < n, s j ≠ 0) :
    BareMetalConsole.strlen s = min n strlenMax := by
  rcases Nat.lt_or_ge n strlenMax with hlt | hge
  · rw [BareMetalConsole.strlen_eq hn hs hlt]
    omega
  · have hscan : ∀ left i, i + left = strlenMax →
        BareMetalConsole.strlenLoop s left i = strlenMax := by
      intro left
      induction left with
      | zero => exact fun i _ => rfl
      | succ left ih =>
        intro i hi
        rw [BareMetalConsole.strlenLoop, if_neg (hs i (by omega))]
        exact ih (i + 1) (by omega)
    rw [BareMetalConsole.strlen, hscan strlenMax 0 (by omega)]
    omega

theorem transmitted_append (es fs : List Event) :
    transmitted uart (es ++ fs) = transmitted uart es ++ transmitted uart fs :=
  List.filterMap_append

theorem transmitted_strlen : transmitted uart (strlen s).events = [] := by
  apply List.filterMap_eq_nil_iff.mpr
  intro e he
  obtain ⟨k, rfl⟩ := strlenLoop_events he
  rfl

theorem transmitted_writeuartc (round : ℕ) (c : U8) :
    transmitted uart (writeuartc uart round c) = [c] := by
  cases uart with
  | zkvm => simp [writeuartc, transmitted]
  | riscvQemu busy =>
    have hpolls : transmitted (.riscvQemu busy) (List.replicate (busy round) .pollStatus) = [] := by
      apply List.filterMap_eq_nil_iff.mpr
      intro e he
      rw [List.eq_of_mem_replicate he]
    rw [writeuartc, transmitted_append, hpolls]
    simp [transmitted]

theorem mem_writeuartc {round : ℕ} {c : U8} {e : Event} (h : e ∈ writeuartc uart round c) :
    e = .pollStatus ∨ e = .store (transmitter uart) c := by
  cases uart with
  | zkvm => exact .inr (List.mem_singleton.mp h)
  | riscvQemu busy =>
    rcases List.mem_append.mp h with h | h
    · exact .inl (List.eq_of_mem_replicate h)
    · simpa using h

structure Round (uart : Uart) (s : CString) (i : ℕ) (es : List Event) : Prop where
  sends : transmitted uart es = (List.range' i (BareMetalConsole.strlen s - i)).map s
  stores : ∀ address c, .store address c ∈ es → address = transmitter uart
  reads : ∀ n, StaysWithin n (strlen s).events → BareMetalConsole.strlen s ≤ n →
    StaysWithin n es

theorem round_strlen {i : ℕ} (hi : BareMetalConsole.strlen s ≤ i) :
    Round uart s i (strlen s).events := by
  constructor
  · rw [transmitted_strlen, Nat.sub_eq_zero_of_le hi]
    rfl
  · intro address c h
    obtain ⟨k, hk⟩ := strlenLoop_events h
    cases hk
  · exact fun n hreads _ => hreads

theorem round_step {i : ℕ} {es : List Event} (hi : i < BareMetalConsole.strlen s)
    (h : Round uart s (i + 1) es) :
    Round uart s i ((strlen s).events ++ .read i :: writeuartc uart i (s i) ++ es) := by
  have hlength : BareMetalConsole.strlen s - i = (BareMetalConsole.strlen s - (i + 1)) + 1 := by
    omega
  have hread : transmitted uart (.read i :: writeuartc uart i (s i)) = [s i] :=
    transmitted_writeuartc i (s i)
  have htests : Round uart s (BareMetalConsole.strlen s) (strlen s).events :=
    round_strlen le_rfl
  constructor
  · rw [transmitted_append, transmitted_append, transmitted_strlen, hread, h.sends, hlength,
      List.range'_succ]
    rfl
  · intro address c hmem
    simp only [List.mem_append, List.mem_cons] at hmem
    rcases hmem with (hmem | heq | hmem) | hmem
    · exact htests.stores address c hmem
    · cases heq
    · rcases mem_writeuartc hmem with heq | heq
      · cases heq
      · cases heq
        rfl
    · exact h.stores address c hmem
  · intro n hreads hn k hmem
    simp only [List.mem_append, List.mem_cons] at hmem
    rcases hmem with (hmem | heq | hmem) | hmem
    · exact hreads k hmem
    · cases heq
      omega
    · rcases mem_writeuartc hmem with heq | heq
      · cases heq
      · cases heq
    · exact h.reads n hreads hn k hmem

theorem writeLoop_round (left i : ℕ) (hi : i ≤ BareMetalConsole.strlen s)
    (hleft : BareMetalConsole.strlen s < i + left) :
    ∃ es, writeLoop uart s left i = some es ∧ Round uart s i es := by
  induction left generalizing i with
  | zero => omega
  | succ left ih =>
    rw [writeLoop, strlen_result]
    by_cases hlt : i < BareMetalConsole.strlen s
    · obtain ⟨es, hes, hround⟩ := ih (i + 1) hlt (by omega)
      rw [if_pos hlt, hes]
      exact ⟨_, rfl, round_step hlt hround⟩
    · rw [if_neg hlt]
      exact ⟨_, rfl, round_strlen (by omega)⟩

theorem writeString_spec (uart : Uart) (s : CString) : ∃ es,
    writeString uart s = some ⟨es ++ (strlen s).events, BareMetalConsole.strlen s⟩ ∧
      Round uart s 0 es := by
  have hmax := BareMetalConsole.strlen_le s
  obtain ⟨es, hes, hround⟩ : ∃ es, writeLoop uart s (strlenMax + 1) 0 = some es ∧
      Round uart s 0 es := writeLoop_round (strlenMax + 1) 0 (Nat.zero_le _) (by omega)
  rw [writeString, hes, strlen_result]
  exact ⟨es, rfl, hround⟩

theorem puts_console (uart : Uart) (s : CString) :
    (puts uart s).map (fun call => transmitted uart call.events) =
      some (BareMetalConsole.puts s) := by
  obtain ⟨es, hes, hround⟩ := writeString_spec uart s
  rw [puts, hes, Option.map_some, transmitted_append, transmitted_strlen, hround.sends,
    BareMetalConsole.puts_eq, List.append_nil, List.range_eq_range', Nat.sub_zero]

theorem writeString_writes (hn : s n = 0) (hs : ∀ j < n, s j ≠ 0) (hmax : n ≤ strlenMax) :
    Writes uart s n (writeString uart s) := by
  obtain ⟨es, hes, hround⟩ := writeString_spec uart s
  have hlen : BareMetalConsole.strlen s = n := by
    rw [strlen_eq_min hn hs]
    omega
  have hreads : StaysWithin n (strlen s).events :=
    strlenLoop_staysWithin hn strlenMax 0 (Nat.zero_le _)
  rw [hes]
  constructor
  · rw [Option.map_some, hlen]
  · rw [Option.map_some, transmitted_append, transmitted_strlen, hround.sends, hlen,
      List.append_nil, List.range_eq_range', Nat.sub_zero]
  · intro call hcall address c hmem
    obtain rfl := Option.mem_some_iff.mp hcall
    rcases List.mem_append.mp hmem with hmem | hmem
    · exact hround.stores address c hmem
    · obtain ⟨k, hk⟩ := strlenLoop_events hmem
      cases hk
  · intro call hcall k hmem
    obtain rfl := Option.mem_some_iff.mp hcall
    rcases List.mem_append.mp hmem with hmem | hmem
    · exact hround.reads n hreads (by omega) k hmem
    · exact hreads k hmem

end

theorem string_routines_faithful_iff (uart : Uart) (s : CString) (n : ℕ) (hn : s n = 0)
    (hs : ∀ j < n, s j ≠ 0) : Faithful uart s n ↔ n ≤ strlenMax := by
  have hlen := strlen_eq_min hn hs
  constructor
  · intro h
    have hresult := h.strlen.1
    rw [strlen_result, hlen] at hresult
    omega
  · intro hmax
    constructor
    · constructor
      · rw [strlen_result, hlen]
        omega
      · exact strlenLoop_staysWithin hn strlenMax 0 (Nat.zero_le _)
    · exact writeString_writes hn hs hmax
    · exact fun _ => writeString_writes hn hs hmax

def appendViaStream : CString :=
  literal "wasisnapshotpreview1_wasiX3AfilesystemX2FtypesX400X2E2X2E0__X5BmethodX5DdescriptorX2EappendX2DviaX2Dstream()\n"

theorem string_routines_faithful_exit : Faithful .zkvm (literal "exit()\n") 7 :=
  (string_routines_faithful_iff .zkvm (literal "exit()\n") 7 (by decide) (by decide)).mpr
    (by decide)

theorem long_names_are_cut : ¬ ∀ (uart : Uart) (s : CString) (n : ℕ), s n = 0 →
    (∀ j < n, s j ≠ 0) → Faithful uart s n := by
  intro hall
  have hfaithful := hall .zkvm appendViaStream 109 (by decide) (by decide)
  exact absurd hfaithful.strlen.1 (by decide)

end Wasrisc.StringRoutines
