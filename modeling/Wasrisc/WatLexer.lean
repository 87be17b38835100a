import Mathlib

namespace Wasrisc.WatLexer

inductive Token where
  | lpar
  | rpar
  | str (body : List Char)
  | atom (chars : List Char)
  deriving DecidableEq

/-- Where the lexer stands; `closed` is the place right after a string, where another token may
only follow after white space or a parenthesis. -/
inductive Mode where
  | gap
  | atom (chars : List Char)
  | str (body : List Char)
  | escape (body : List Char)
  | closed
  deriving DecidableEq

def isBlank (c : Char) : Bool := c ∈ [' ', '\t', '\n', '\r']

def isAtomChar (c : Char) : Bool := '!' ≤ c && c ≤ '~' && c ∉ ['"', '(', ')']

def isStringChar (c : Char) : Bool := ' ' ≤ c && c ∉ ['\x7f', '"', '\\']

def hexDigit (c : Char) : Option ℕ :=
  if '0' ≤ c ∧ c ≤ '9' then some (c.toNat - 48)
  else if 'a' ≤ c ∧ c ≤ 'f' then some (c.toNat - 87)
  else if 'A' ≤ c ∧ c ≤ 'F' then some (c.toNat - 55)
  else none

def isEscapeChar (c : Char) : Bool :=
  c ∈ ['t', 'n', 'r', '"', '\'', '\\', 'u'] || (hexDigit c).isSome

def delimiter (c : Char) : Option (List Token) :=
  if isBlank c then some []
  else if c = '(' then some [.lpar]
  else if c = ')' then some [.rpar]
  else none

def step : Mode → Char → Option (Mode × List Token)
  | .gap, c =>
    match delimiter c with
    | some ts => some (.gap, ts)
    | none =>
      if c = '"' then some (.str [], [])
      else if isAtomChar c then some (.atom [c], [])
      else none
  | .atom chars, c =>
    match delimiter c with
    | some ts => some (.gap, .atom chars :: ts)
    | none => if isAtomChar c then some (.atom (chars ++ [c]), []) else none
  | .str body, c =>
    if c = '"' then some (.closed, [.str body])
    else if c = '\\' then some (.escape body, [])
    else if isStringChar c then some (.str (body ++ [c]), [])
    else none
  | .escape body, c =>
    if isEscapeChar c then some (.str (body ++ ['\\', c]), []) else none
  | .closed, c => (delimiter c).map fun ts => (.gap, ts)

def run : Mode → List Char → Option (Mode × List Token)
  | q, [] => some (q, [])
  | q, c :: s => (step q c).bind fun r => (run r.1 s).map fun r' => (r'.1, r.2 ++ r'.2)

/-- The tokens of a text: strings whole and as they are spelled, no white space between tokens. -/
def Lexes (s : List Char) (ts : List Token) : Prop := run .gap (s ++ ['\n']) = some (.gap, ts)

instance (s : List Char) (ts : List Token) : Decidable (Lexes s ts) :=
  inferInstanceAs (Decidable (_ = _))

def nesting : ℕ → List Token → Option ℕ
  | depth, [] => some depth
  | depth, .lpar :: ts => nesting (depth + 1) ts
  | 0, .rpar :: _ => none
  | depth + 1, .rpar :: ts => nesting depth ts
  | depth, _ :: ts => nesting depth ts

def ParensBalanced (ts : List Token) : Prop := nesting 0 ts = some 0

inductive Escape where
  | none
  | backslash
  | high (digit : ℕ)
  | brace
  | scalar (value : ℕ) (ready : Bool)

def escaped (c : Char) : Option UInt8 :=
  match c with
  | 't' => some 9
  | 'n' => some 10
  | 'r' => some 13
  | '"' => some 34
  | '\'' => some 39
  | '\\' => some 92
  | _ => Option.none

def denoteFrom : Escape → List Char → Option (List UInt8)
  | .none, [] => some []
  | _, [] => Option.none
  | .none, c :: s =>
    if c = '\\' then denoteFrom .backslash s
    else (denoteFrom .none s).map (String.utf8EncodeChar c ++ ·)
  | .backslash, c :: s =>
    if c = 'u' then denoteFrom .brace s
    else match escaped c, hexDigit c with
      | some b, _ => (denoteFrom .none s).map (b :: ·)
      | _, some d => denoteFrom (.high d) s
      | _, _ => Option.none
  | .high d, c :: s =>
    (hexDigit c).bind fun d' => (denoteFrom .none s).map (UInt8.ofNat (16 * d + d') :: ·)
  | .brace, c :: s => if c = '\x7b' then denoteFrom (.scalar 0 false) s else Option.none
  | .scalar value ready, c :: s =>
    if c = '\x7d' then
      if ready ∧ value.isValidChar then
        (denoteFrom .none s).map (String.utf8EncodeChar (Char.ofNat value) ++ ·)
      else Option.none
    else if c = '_' then (if ready then denoteFrom (.scalar value false) s else Option.none)
    else (hexDigit c).bind fun d => denoteFrom (.scalar (16 * value + d) true) s

def denote (body : List Char) : Option (List UInt8) := denoteFrom .none body

theorem run_append (q : Mode) (s t : List Char) : run q (s ++ t) =
    (run q s).bind fun r => (run r.1 t).map fun r' => (r'.1, r.2 ++ r'.2) := by
  induction s generalizing q with
  | nil => simp [run]
  | cons c s ih =>
    simp only [List.cons_append, run]
    cases step q c with
    | none => rfl
    | some r =>
      simp only [Option.bind_some, ih]
      cases run r.1 s with
      | none => rfl
      | some r' => simp [List.append_assoc, Function.comp_def]

theorem run_cons_iff {q q' : Mode} {c : Char} {s : List Char} {ts : List Token} :
    run q (c :: s) = some (q', ts) ↔ ∃ p us vs, step q c = some (p, us) ∧
      run p s = some (q', vs) ∧ ts = us ++ vs := by
  simp only [run, Option.bind_eq_some_iff, Option.map_eq_some_iff, Prod.exists, Prod.mk.injEq]
  constructor
  · rintro ⟨p, us, hstep, r, vs, hrun, rfl, rfl⟩
    exact ⟨p, us, vs, hstep, hrun, rfl⟩
  · rintro ⟨p, us, vs, hstep, hrun, rfl⟩
    exact ⟨p, us, hstep, q', vs, hrun, rfl, rfl⟩

theorem run_append_iff {q q' : Mode} {s t : List Char} {ts : List Token} :
    run q (s ++ t) = some (q', ts) ↔ ∃ p us vs, run q s = some (p, us) ∧
      run p t = some (q', vs) ∧ ts = us ++ vs := by
  simp only [run_append, Option.bind_eq_some_iff, Option.map_eq_some_iff, Prod.exists,
    Prod.mk.injEq]
  constructor
  · rintro ⟨p, us, hs, r, vs, ht, rfl, rfl⟩
    exact ⟨p, us, vs, hs, ht, rfl⟩
  · rintro ⟨p, us, vs, hs, ht, rfl⟩
    exact ⟨p, us, hs, q', vs, ht, rfl, rfl⟩

def Blanks (s : List Char) : Prop := ∀ c ∈ s, isBlank c = true

def Token.spelling : Token → List Char
  | .lpar => ['(']
  | .rpar => [')']
  | .str body => '"' :: body ++ ['"']
  | .atom chars => chars

def Follows (t : Token) (s : List Char) : Prop :=
  t = .lpar ∨ t = .rpar ∨ ∃ d ∈ s.head?, (delimiter d).isSome

def Spelled (t : Token) : Prop := ∀ s, Follows t s →
  run .gap (t.spelling ++ s) = (run .gap s).map fun r => (r.1, t :: r.2)

theorem run_blanks {g : List Char} (hg : Blanks g) (s : List Char) :
    run .gap (g ++ s) = run .gap s := by
  induction g with
  | nil => rfl
  | cons c g ih =>
    have hc : isBlank c = true := hg c List.mem_cons_self
    have hstep : step .gap c = some (.gap, []) := by simp [step, delimiter, hc]
    rw [List.cons_append, run, hstep, Option.bind_some,
      ih fun d hd => hg d (List.mem_cons_of_mem _ hd)]
    simp

theorem run_closed {s : List Char} (hs : ∃ d ∈ s.head?, (delimiter d).isSome) :
    run .closed s = run .gap s := by
  obtain ⟨d, hd, hdelim⟩ := hs
  obtain ⟨s', rfl⟩ := List.head?_eq_some_iff.mp hd
  obtain ⟨ts, hts⟩ := Option.isSome_iff_exists.mp hdelim
  simp [run, step, hts]

theorem run_atom {a : List Char} {s : List Char} (hs : ∃ d ∈ s.head?, (delimiter d).isSome) :
    run (.atom a) s = (run .gap s).map fun r => (r.1, .atom a :: r.2) := by
  obtain ⟨d, hd, hdelim⟩ := hs
  obtain ⟨s', rfl⟩ := List.head?_eq_some_iff.mp hd
  obtain ⟨ts, hts⟩ := Option.isSome_iff_exists.mp hdelim
  simp [run, step, hts, Function.comp_def]

theorem delimiter_atomChar {c : Char} (hc : isAtomChar c = true) : delimiter c = none := by
  simp only [isAtomChar, Bool.and_eq_true, decide_eq_true_eq, List.mem_cons, not_or] at hc
  have hblank : isBlank c = false := by
    simp only [isBlank, decide_eq_false_iff_not, List.mem_cons, not_or]
    refine ⟨?_, ?_, ?_, ?_, by simp⟩
    all_goals
      rintro rfl
      exact absurd hc.1.1 (by decide)
  rw [delimiter, hblank, if_neg Bool.false_ne_true, if_neg hc.2.2.1, if_neg hc.2.2.2.1]

theorem run_atomChars {a : List Char} (ha : ∀ c ∈ a, isAtomChar c = true) (b s : List Char) :
    run (.atom b) (a ++ s) = run (.atom (b ++ a)) s := by
  induction a generalizing b with
  | nil => simp
  | cons c a ih =>
    have hc : isAtomChar c = true := ha c List.mem_cons_self
    have hstep : step (.atom b) c = some (.atom (b ++ [c]), []) := by
      simp [step, delimiter_atomChar hc, hc]
    rw [List.cons_append, run, hstep, Option.bind_some,
      ih fun d hd => ha d (List.mem_cons_of_mem _ hd), List.append_assoc]
    simp

theorem spelled_lpar : Spelled .lpar := fun s _ => by
  rw [Token.spelling, List.singleton_append, run, show step .gap '(' = some (.gap, [.lpar]) from rfl]
  rfl

theorem spelled_rpar : Spelled .rpar := fun s _ => by
  rw [Token.spelling, List.singleton_append, run, show step .gap ')' = some (.gap, [.rpar]) from rfl]
  rfl

theorem spelled_atom {a : List Char} (hne : a ≠ []) (ha : ∀ c ∈ a, isAtomChar c = true) :
    Spelled (.atom a) := by
  intro s hs
  obtain ⟨c, a, rfl⟩ := List.exists_cons_of_ne_nil hne
  have hc : isAtomChar c = true := ha c List.mem_cons_self
  have hquote : c ≠ '"' := by
    rintro rfl
    exact absurd hc (by decide)
  have hstep : step .gap c = some (.atom [c], []) := by
    simp [step, delimiter_atomChar hc, hc, hquote]
  rw [Token.spelling, List.cons_append, run, hstep, Option.bind_some,
    run_atomChars fun d hd => ha d (List.mem_cons_of_mem _ hd),
    run_atom (by simpa [Follows] using hs)]
  simp [Function.comp_def]

theorem spelled_str {b : List Char} (hb : run (.str []) b = some (.str b, [])) :
    Spelled (.str b) := by
  intro s hs
  have hopen : step .gap '"' = some (.str [], []) := rfl
  have hclose : step (.str b) '"' = some (.closed, [.str b]) := rfl
  rw [Token.spelling, List.cons_append, List.cons_append, List.append_assoc, run, hopen,
    Option.bind_some, run_append, hb, Option.bind_some, List.singleton_append, run, hclose,
    Option.bind_some, run_closed (by simpa [Follows] using hs)]
  simp [Function.comp_def]

theorem delimiter_cases {c : Char} {ts : List Token} (h : delimiter c = some ts) :
    isBlank c = true ∧ ts = [] ∨ c = '(' ∧ ts = [.lpar] ∨ c = ')' ∧ ts = [.rpar] := by
  unfold delimiter at h
  split_ifs at h with hblank hopen hclose
  · exact .inl ⟨hblank, (Option.some.inj h).symm⟩
  · exact .inr (.inl ⟨hopen, (Option.some.inj h).symm⟩)
  · exact .inr (.inr ⟨hclose, (Option.some.inj h).symm⟩)

theorem step_gap_cases {c : Char} {q : Mode} {ts : List Token} (h : step .gap c = some (q, ts)) :
    (delimiter c = some ts ∧ q = .gap) ∨ (c = '"' ∧ q = .str [] ∧ ts = []) ∨
      (isAtomChar c = true ∧ q = .atom [c] ∧ ts = []) := by
  cases hc : delimiter c with
  | some us =>
    simp only [step, hc, Option.some.injEq, Prod.mk.injEq] at h
    exact .inl ⟨congrArg some h.2, h.1.symm⟩
  | none =>
    simp only [step, hc] at h
    split_ifs at h with hquote hchar
    · obtain ⟨rfl, rfl⟩ := Prod.mk.inj (Option.some.inj h)
      exact .inr (.inl ⟨hquote, rfl, rfl⟩)
    · obtain ⟨rfl, rfl⟩ := Prod.mk.inj (Option.some.inj h)
      exact .inr (.inr ⟨hchar, rfl, rfl⟩)

theorem run_str_split {s : List Char} {ts : List Token} :
    (∀ b, run (.str b) s = some (.gap, ts) → ∃ a s' us, s = a ++ '"' :: s' ∧
      run (.str b) a = some (.str (b ++ a), []) ∧ ts = .str (b ++ a) :: us ∧
        run .closed s' = some (.gap, us)) ∧
    (∀ b, run (.escape b) s = some (.gap, ts) → ∃ a s' us, s = a ++ '"' :: s' ∧
      run (.escape b) a = some (.str (b ++ '\\' :: a), []) ∧ ts = .str (b ++ '\\' :: a) :: us ∧
        run .closed s' = some (.gap, us)) := by
  induction s generalizing ts with
  | nil => simp [run]
  | cons c s ih =>
    constructor
    · intro b h
      obtain ⟨p, us, vs, hstep, hrun, rfl⟩ := run_cons_iff.mp h
      rw [step] at hstep
      split_ifs at hstep with hquote hbackslash hchar
      · obtain ⟨rfl, rfl⟩ := Prod.mk.inj (Option.some.inj hstep)
        exact ⟨[], s, vs, by simp [hquote], by simp [run], by simp, hrun⟩
      · obtain ⟨rfl, rfl⟩ := Prod.mk.inj (Option.some.inj hstep)
        obtain ⟨a, s', us, hs, ha, hus, hclosed⟩ := ih.2 b hrun
        refine ⟨c :: a, s', us, by simp [hs], ?_, by simp [hus, hbackslash], hclosed⟩
        rw [run, hbackslash, show step (.str b) '\\' = some (.escape b, []) from rfl,
          Option.bind_some, ha]
        rfl
      · obtain ⟨rfl, rfl⟩ := Prod.mk.inj (Option.some.inj hstep)
        obtain ⟨a, s', us, hs, ha, hus, hclosed⟩ := ih.1 (b ++ [c]) hrun
        refine ⟨c :: a, s', us, by simp [hs], ?_, by simp [hus], hclosed⟩
        have hc : step (.str b) c = some (.str (b ++ [c]), []) := by
          simp [step, hquote, hbackslash, hchar]
        rw [run, hc, Option.bind_some, ha]
        simp
    · intro b h
      obtain ⟨p, us, vs, hstep, hrun, rfl⟩ := run_cons_iff.mp h
      rw [step] at hstep
      split_ifs at hstep with hchar
      obtain ⟨rfl, rfl⟩ := Prod.mk.inj (Option.some.inj hstep)
      obtain ⟨a, s', us, hs, ha, hus, hclosed⟩ := ih.1 (b ++ ['\\', c]) hrun
      refine ⟨c :: a, s', us, by simp [hs], ?_, by simp [hus], hclosed⟩
      rw [run, step, if_pos hchar, Option.bind_some, ha]
      simp

theorem head_of_run {s : List Char} {ts : List Token} (h : run .closed s = some (.gap, ts)) :
    ∃ d ∈ s.head?, (delimiter d).isSome := by
  cases s with
  | nil => simp [run] at h
  | cons d s =>
    obtain ⟨p, us, vs, hstep, -⟩ := run_cons_iff.mp h
    obtain ⟨ws, hws, -⟩ := Option.map_eq_some_iff.mp hstep
    exact ⟨d, rfl, by simp [hws]⟩

theorem run_atom_split {s : List Char} {ts : List Token} (a : List Char)
    (h : run (.atom a) s = some (.gap, ts)) : ∃ b s' us, s = b ++ s' ∧
      (∀ c ∈ b, isAtomChar c = true) ∧ (∃ d ∈ s'.head?, (delimiter d).isSome) ∧
        ts = .atom (a ++ b) :: us ∧ run .gap s' = some (.gap, us) := by
  induction s generalizing a with
  | nil => simp [run] at h
  | cons c s ih =>
    cases hc : delimiter c with
    | some us =>
      have hhead : ∃ d ∈ (c :: s).head?, (delimiter d).isSome := ⟨c, rfl, by simp [hc]⟩
      rw [run_atom hhead, Option.map_eq_some_iff] at h
      obtain ⟨⟨p, vs⟩, hrun, heq⟩ := h
      obtain ⟨rfl, rfl⟩ := Prod.mk.inj heq
      exact ⟨[], c :: s, vs, rfl, by simp, hhead, by simp, hrun⟩
    | none =>
      obtain ⟨p, us, vs, hstep, hrun, rfl⟩ := run_cons_iff.mp h
      simp only [step, hc] at hstep
      split_ifs at hstep with hchar
      obtain ⟨rfl, rfl⟩ := Prod.mk.inj (Option.some.inj hstep)
      obtain ⟨b, s', us, hs, hb, hhead, hus, hrest⟩ := ih (a ++ [c]) hrun
      refine ⟨c :: b, s', us, by simp [hs], ?_, hhead, by simp [hus], hrest⟩
      simpa [hchar] using hb

theorem run_gap_split {s : List Char} {t : Token} {ts : List Token}
    (h : run .gap s = some (.gap, t :: ts)) : ∃ g s', s = g ++ t.spelling ++ s' ∧ Blanks g ∧
      Spelled t ∧ Follows t s' ∧ run .gap s' = some (.gap, ts) := by
  have hnil : Blanks [] := by simp [Blanks]
  induction s with
  | nil => simp [run] at h
  | cons c s ih =>
    obtain ⟨p, us, vs, hstep, hrun, hts⟩ := run_cons_iff.mp h
    obtain ⟨hc, rfl⟩ | ⟨hquote, rfl, rfl⟩ | ⟨hchar, rfl, rfl⟩ := step_gap_cases hstep
    · obtain ⟨hblank, rfl⟩ | ⟨rfl, rfl⟩ | ⟨rfl, rfl⟩ := delimiter_cases hc
      · obtain ⟨g, s', hs, hg, hrest⟩ := ih (by rw [hts]; exact hrun)
        refine ⟨c :: g, s', by simp [hs], ?_, hrest⟩
        simpa [Blanks, hblank] using hg
      · obtain ⟨rfl, rfl⟩ := List.cons.inj hts
        exact ⟨[], s, rfl, hnil, spelled_lpar, .inl rfl, hrun⟩
      · obtain ⟨rfl, rfl⟩ := List.cons.inj hts
        exact ⟨[], s, rfl, hnil, spelled_rpar, .inr (.inl rfl), hrun⟩
    · obtain ⟨a, s', us, hs, ha, hus, hclosed⟩ := run_str_split.1 [] hrun
      rw [List.nil_append] at hts
      rw [hus, List.nil_append] at hts
      obtain ⟨rfl, rfl⟩ := List.cons.inj hts
      have hhead := head_of_run hclosed
      rw [run_closed hhead] at hclosed
      exact ⟨[], s', by simp [hs, hquote, Token.spelling], hnil, spelled_str ha,
        .inr (.inr hhead), hclosed⟩
    · obtain ⟨b, s', us, hs, hb, hhead, hus, hrest⟩ := run_atom_split [c] hrun
      rw [List.nil_append] at hts
      rw [hus] at hts
      obtain ⟨rfl, rfl⟩ := List.cons.inj hts
      refine ⟨[], s', by simp [hs, Token.spelling], hnil, spelled_atom (by simp) ?_,
        .inr (.inr hhead), hrest⟩
      simpa [hchar] using hb

theorem blanks_of_run {s : List Char} (h : run .gap s = some (.gap, [])) : Blanks s := by
  induction s with
  | nil => simp [Blanks]
  | cons c s ih =>
    obtain ⟨p, us, vs, hstep, hrun, hts⟩ := run_cons_iff.mp h
    obtain ⟨rfl, rfl⟩ := List.append_eq_nil_iff.mp hts.symm
    obtain ⟨hc, rfl⟩ | ⟨-, rfl, -⟩ | ⟨-, rfl, -⟩ := step_gap_cases hstep
    · obtain ⟨hblank, -⟩ | ⟨-, hws⟩ | ⟨-, hws⟩ := delimiter_cases hc
      · simpa [Blanks, hblank] using ih hrun
      · cases hws
      · cases hws
    · obtain ⟨a, s', us, -, -, hus, -⟩ := run_str_split.1 [] hrun
      cases hus
    · obtain ⟨b, s', us, -, -, -, hus, -⟩ := run_atom_split [c] hrun
      cases hus

theorem run_ends_rpar {s : List Char} {ts : List Token}
    (h : run .gap s = some (.gap, ts ++ [.rpar])) : ∃ v g, s = v ++ ')' :: g ∧ Blanks g ∧
      run .gap (v ++ [')']) = some (.gap, ts ++ [.rpar]) := by
  induction ts generalizing s with
  | nil =>
    obtain ⟨g, s', rfl, hg, hspelled, -, hrest⟩ := run_gap_split h
    refine ⟨g, s', by simp [Token.spelling], blanks_of_run hrest, ?_⟩
    rw [run_blanks hg]
    rfl
  | cons t ts ih =>
    obtain ⟨g, s', rfl, hg, hspelled, hfollows, hrest⟩ := run_gap_split h
    obtain ⟨v, g', rfl, hg', hv⟩ := ih hrest
    refine ⟨g ++ t.spelling ++ v, g', by simp, hg', ?_⟩
    have hnext : Follows t (v ++ [')']) := by
      refine hfollows.imp_right (Or.imp_right ?_)
      cases v with
      | nil => simp
      | cons d v => simp
    rw [List.append_assoc, List.append_assoc, run_blanks hg, hspelled _ hnext, hv]
    rfl

end Wasrisc.WatLexer
