import Wasrisc.GoStrings
import Wasrisc.WatLexer

namespace Wasrisc.WatSpacing

open GoStrings WatLexer

def squeezeToken : Token → Token
  | .str body => .str (squeeze body)
  | t => t

def squeezeMode : Mode → Mode
  | .str body => .str (squeeze body)
  | .escape body => .escape (squeeze body)
  | q => q

def Settled : Mode → Prop
  | .str body => (squeeze body).getLast? ≠ some ' '
  | _ => True

def Pending : Mode → Prop
  | .gap => True
  | .str body => (squeeze body).getLast? = some ' '
  | _ => False

theorem isSpace_of_isBlank {c : Char} (hc : isBlank c = true) : isSpace c = true := by
  simp only [isBlank, List.mem_cons, decide_eq_true_eq, List.not_mem_nil, or_false] at hc
  obtain rfl | rfl | rfl | rfl := hc
  all_goals decide

theorem ne_of_isSpace {c d : Char} (hc : isSpace c = true) (hd : isSpace d = false) : c ≠ d := by
  rintro rfl
  rw [hc] at hd
  cases hd

theorem not_printable {c : Char} (hc : isSpace c = true) : ¬ ('!' ≤ c ∧ c ≤ '~') := by
  simp only [isSpace, Bool.or_eq_true, Bool.and_eq_true, decide_eq_true_eq, List.mem_cons,
    List.not_mem_nil, or_false] at hc
  rcases hc with hlist | hrange
  · rcases hlist with rfl | rfl | rfl | rfl | rfl | rfl | rfl | rfl | rfl | rfl | rfl | rfl | rfl | rfl
    all_goals decide
  · exact fun h => absurd (hrange.1.trans h.2) (by decide)

theorem isAtomChar_of_isSpace {c : Char} (hc : isSpace c = true) : isAtomChar c = false := by
  have hprint := not_printable hc
  simp only [isAtomChar, Bool.and_eq_false_iff, decide_eq_false_iff_not]
  tauto

theorem printable_of_hexDigit {c : Char} (hc : (hexDigit c).isSome) : '!' ≤ c ∧ c ≤ '~' := by
  unfold hexDigit at hc
  split_ifs at hc with hdigit hlower hupper
  · exact ⟨le_trans (by decide) hdigit.1, hdigit.2.trans (by decide)⟩
  · exact ⟨le_trans (by decide) hlower.1, hlower.2.trans (by decide)⟩
  · exact ⟨le_trans (by decide) hupper.1, hupper.2.trans (by decide)⟩
  · cases hc

theorem isEscapeChar_of_isSpace {c : Char} (hc : isSpace c = true) : isEscapeChar c = false := by
  by_contra hescape
  simp only [isEscapeChar, Bool.not_eq_false, Bool.or_eq_true, decide_eq_true_eq, List.mem_cons,
    List.not_mem_nil, or_false] at hescape
  rcases hescape with hlist | hdigit
  · rcases hlist with rfl | rfl | rfl | rfl | rfl | rfl | rfl
    all_goals exact not_printable hc (by decide)
  · exact not_printable hc (printable_of_hexDigit hdigit)

theorem delimiter_space {c : Char} (hc : isSpace c = true) :
    delimiter c = if isBlank c then some [] else none := by
  have hopen : c ≠ '(' := ne_of_isSpace hc (by decide)
  have hclose : c ≠ ')' := ne_of_isSpace hc (by decide)
  rw [delimiter, if_neg hopen, if_neg hclose]

theorem step_gap_space {c : Char} (hc : isSpace c = true) {q : Mode} {us : List Token}
    (h : step .gap c = some (q, us)) : isBlank c = true ∧ q = .gap ∧ us = [] := by
  have hquote : c ≠ '"' := ne_of_isSpace hc (by decide)
  rw [step, delimiter_space hc] at h
  by_cases hblank : isBlank c = true
  · simp_all
  · simp [hblank, hquote, isAtomChar_of_isSpace hc] at h

theorem isBlank_of_step_atom {c : Char} (hc : isSpace c = true) {a : List Char}
    {r : Mode × List Token} (h : step (.atom a) c = some r) : isBlank c = true := by
  by_contra hblank
  simp [step, delimiter_space hc, hblank, isAtomChar_of_isSpace hc] at h

theorem isBlank_of_step_closed {c : Char} (hc : isSpace c = true) {r : Mode × List Token}
    (h : step .closed c = some r) : isBlank c = true := by
  by_contra hblank
  simp [step, delimiter_space hc, hblank] at h

theorem step_str_space {c : Char} (hc : isSpace c = true) {b : List Char} {q : Mode}
    {us : List Token} (h : step (.str b) c = some (q, us)) : q = .str (b ++ [c]) ∧ us = [] := by
  have hquote : c ≠ '"' := ne_of_isSpace hc (by decide)
  have hbackslash : c ≠ '\\' := ne_of_isSpace hc (by decide)
  rw [step, if_neg hquote, if_neg hbackslash] at h
  split_ifs at h
  simp_all

theorem step_escape_space {c : Char} (hc : isSpace c = true) (b : List Char) :
    step (.escape b) c = none := by
  rw [step, isEscapeChar_of_isSpace hc, if_neg Bool.false_ne_true]

theorem run_blank_gap {g s : Text} (hg : Blank g) {q : Mode} {ts : List Token}
    (h : run .gap (g ++ s) = some (q, ts)) : run .gap s = some (q, ts) := by
  induction g with
  | nil => exact h
  | cons c g ih =>
    obtain ⟨p, us, vs, hstep, hrun, rfl⟩ := run_cons_iff.mp h
    obtain ⟨-, rfl, rfl⟩ := step_gap_space (hg c List.mem_cons_self) hstep
    exact ih (fun d hd => hg d (List.mem_cons_of_mem _ hd)) hrun

theorem squeeze_space {c : Char} (hc : isSpace c = true) {b : Text}
    (hb : (squeeze b).getLast? ≠ some ' ') : squeeze (b ++ [c]) = squeeze b ++ [' '] := by
  rw [squeeze_snoc, push, if_pos hc, if_neg hb]

theorem squeeze_space_again {c : Char} (hc : isSpace c = true) {b : Text}
    (hb : (squeeze b).getLast? = some ' ') : squeeze (b ++ [c]) = squeeze b := by
  rw [squeeze_snoc, push, if_pos hc, if_pos hb]

theorem squeeze_solid {c : Char} (hc : isSpace c = false) (b : Text) :
    squeeze (b ++ [c]) = squeeze b ++ [c] := by
  rw [squeeze_snoc, push, hc, if_neg Bool.false_ne_true]

theorem last_ne_space {c : Char} (hc : isSpace c = false) (b : Text) :
    (squeeze (b ++ [c])).getLast? ≠ some ' ' := by
  rw [squeeze_solid hc, List.getLast?_concat, ne_eq, Option.some.injEq]
  exact (ne_of_isSpace (by decide) hc).symm

theorem step_space {c : Char} (hc : isSpace c = true) {q q' : Mode} {us : List Token}
    (hq : Settled q) (h : step q c = some (q', us)) : Pending q' ∧
      step (squeezeMode q) ' ' = some (squeezeMode q', us.map squeezeToken) := by
  cases q with
  | gap =>
    obtain ⟨-, rfl, rfl⟩ := step_gap_space hc h
    exact ⟨trivial, rfl⟩
  | atom a =>
    have hblank := isBlank_of_step_atom hc h
    rw [step, delimiter_space hc, if_pos hblank] at h
    obtain ⟨rfl, rfl⟩ := Prod.mk.inj (Option.some.inj h)
    exact ⟨trivial, rfl⟩
  | closed =>
    have hblank := isBlank_of_step_closed hc h
    rw [step, delimiter_space hc, if_pos hblank] at h
    obtain ⟨rfl, rfl⟩ := Prod.mk.inj (Option.some.inj h)
    exact ⟨trivial, rfl⟩
  | str b =>
    obtain ⟨rfl, rfl⟩ := step_str_space hc h
    have hb := squeeze_space hc hq
    refine ⟨by simp [Pending, hb], ?_⟩
    rw [squeezeMode, squeezeMode, hb]
    rfl
  | escape b =>
    rw [step_escape_space hc] at h
    cases h

theorem step_space_again {c : Char} (hc : isSpace c = true) {q q' : Mode} {us : List Token}
    (hq : Pending q) (h : step q c = some (q', us)) :
    Pending q' ∧ squeezeMode q' = squeezeMode q ∧ us = [] := by
  cases q with
  | gap =>
    obtain ⟨-, rfl, rfl⟩ := step_gap_space hc h
    exact ⟨trivial, rfl, rfl⟩
  | str b =>
    obtain ⟨rfl, rfl⟩ := step_str_space hc h
    have hb := squeeze_space_again hc hq
    exact ⟨by rw [Pending, hb]; exact hq, by rw [squeezeMode, squeezeMode, hb], rfl⟩
  | atom a => cases hq
  | escape b => cases hq
  | closed => cases hq

theorem map_squeezeToken_delimiter {c : Char} {ts : List Token} (h : delimiter c = some ts) :
    ts.map squeezeToken = ts := by
  obtain ⟨-, rfl⟩ | ⟨-, rfl⟩ | ⟨-, rfl⟩ := delimiter_cases h
  all_goals rfl

theorem step_solid {c : Char} (hc : isSpace c = false) {q q' : Mode} {us : List Token}
    (h : step q c = some (q', us)) : Settled q' ∧
      step (squeezeMode q) c = some (squeezeMode q', us.map squeezeToken) := by
  cases q with
  | gap =>
    obtain ⟨hdelim, rfl⟩ | ⟨rfl, rfl, rfl⟩ | ⟨-, rfl, rfl⟩ := step_gap_cases h
    · rw [map_squeezeToken_delimiter hdelim]
      exact ⟨trivial, h⟩
    · exact ⟨by simp [Settled], rfl⟩
    · exact ⟨trivial, h⟩
  | atom a =>
    cases hdelim : delimiter c with
    | some ts =>
      simp only [step, hdelim, Option.some.injEq, Prod.mk.injEq] at h
      obtain ⟨rfl, rfl⟩ := h
      refine ⟨trivial, ?_⟩
      simp [squeezeMode, squeezeToken, step, hdelim, map_squeezeToken_delimiter hdelim]
    | none =>
      simp only [step, hdelim] at h
      split_ifs at h with hchar
      obtain ⟨rfl, rfl⟩ := Prod.mk.inj (Option.some.inj h)
      exact ⟨trivial, by simp [squeezeMode, step, hdelim, hchar]⟩
  | closed =>
    obtain ⟨ts, hdelim, heq⟩ := Option.map_eq_some_iff.mp h
    obtain ⟨rfl, rfl⟩ := Prod.mk.inj heq
    exact ⟨trivial, by simp [squeezeMode, step, hdelim, map_squeezeToken_delimiter hdelim]⟩
  | str b =>
    rw [step] at h
    split_ifs at h with hquote hbackslash hchar
    · obtain ⟨rfl, rfl⟩ := Prod.mk.inj (Option.some.inj h)
      exact ⟨trivial, by simp [squeezeMode, squeezeToken, step, hquote]⟩
    · obtain ⟨rfl, rfl⟩ := Prod.mk.inj (Option.some.inj h)
      exact ⟨trivial, by simp [squeezeMode, step, hbackslash]⟩
    · obtain ⟨rfl, rfl⟩ := Prod.mk.inj (Option.some.inj h)
      refine ⟨last_ne_space hc b, ?_⟩
      simp [squeezeMode, step, hquote, hbackslash, hchar, squeeze_solid hc]
  | escape b =>
    rw [step] at h
    split_ifs at h with hchar
    obtain ⟨rfl, rfl⟩ := Prod.mk.inj (Option.some.inj h)
    have hsplit : b ++ ['\\', c] = b ++ ['\\'] ++ [c] := by simp
    refine ⟨by rw [Settled, hsplit]; exact last_ne_space hc _, ?_⟩
    rw [squeezeMode, squeezeMode, hsplit, squeeze_solid hc, squeeze_solid (by decide)]
    simp [step, hchar]

theorem step_rpar_early {q q' : Mode} {us ts : List Token} (hq : Pending q)
    (hspace : step q' ' ' = some (squeezeMode q, us)) (h : step q ')' = some (.gap, ts)) :
    step q' ')' = some (.gap, us ++ ts.map squeezeToken) := by
  have hgap : q = .gap := by
    cases q with
    | gap => rfl
    | str b => simp [step] at h
    | atom a => cases hq
    | escape b => cases hq
    | closed => cases hq
  subst hgap
  obtain ⟨-, rfl⟩ := Prod.mk.inj (Option.some.inj h)
  cases q' with
  | gap =>
    obtain ⟨-, rfl⟩ := Prod.mk.inj (Option.some.inj hspace)
    rfl
  | atom a =>
    obtain ⟨-, rfl⟩ := Prod.mk.inj (Option.some.inj hspace)
    rfl
  | closed =>
    obtain ⟨-, rfl⟩ := Prod.mk.inj (Option.some.inj hspace)
    rfl
  | str b => simp [step, squeezeMode] at hspace
  | escape b =>
    rw [step_escape_space (by decide)] at hspace
    cases hspace

/-- Respacing a text squeezes its strings and changes no other token. -/
theorem run_collapse (s : Text) :
    (∀ q ts, Settled q → run q (s ++ [')']) = some (.gap, ts) →
      run (squeezeMode q) (collapse false s ++ [')']) = some (.gap, ts.map squeezeToken)) ∧
    (∀ q q' us ts, Pending q → step q' ' ' = some (squeezeMode q, us) →
      run q (s ++ [')']) = some (.gap, ts) →
        run q' (collapse true s ++ [')']) = some (.gap, us ++ ts.map squeezeToken)) := by
  induction s with
  | nil =>
    constructor
    · intro q ts hq h
      obtain ⟨p, us, vs, hstep, hrun, rfl⟩ := run_cons_iff.mp h
      obtain ⟨rfl, rfl⟩ := Prod.mk.inj (Option.some.inj hrun)
      refine run_cons_iff.mpr ⟨_, _, [], (step_solid (by decide) hstep).2, rfl, by simp⟩
    · intro q q' us ts hq hspace h
      obtain ⟨p, ws, vs, hstep, hrun, rfl⟩ := run_cons_iff.mp h
      obtain ⟨rfl, rfl⟩ := Prod.mk.inj (Option.some.inj hrun)
      refine run_cons_iff.mpr ⟨_, _, [], step_rpar_early hq hspace hstep, rfl, by simp⟩
  | cons c s ih =>
    by_cases hc : isSpace c = true
    · constructor
      · intro q ts hq h
        obtain ⟨p, us, vs, hstep, hrun, rfl⟩ := run_cons_iff.mp h
        obtain ⟨hpending, hspace⟩ := step_space hc hq hstep
        rw [collapse, if_pos hc, ih.2 p _ _ vs hpending hspace hrun, List.map_append]
      · intro q q' us ts hq hspace h
        obtain ⟨p, ws, vs, hstep, hrun, rfl⟩ := run_cons_iff.mp h
        obtain ⟨hpending, hmode, rfl⟩ := step_space_again hc hq hstep
        rw [← hmode] at hspace
        rw [collapse, if_pos hc, ih.2 p _ _ vs hpending hspace hrun, List.nil_append]
    · have hsolid : isSpace c = false := Bool.eq_false_of_not_eq_true hc
      constructor
      · intro q ts hq h
        obtain ⟨p, us, vs, hstep, hrun, rfl⟩ := run_cons_iff.mp h
        obtain ⟨hsettled, hstep'⟩ := step_solid hsolid hstep
        rw [collapse, if_neg hc]
        exact run_cons_iff.mpr ⟨_, _, _, hstep', ih.1 p vs hsettled hrun, List.map_append⟩
      · intro q q' us ts hq hspace h
        obtain ⟨p, ws, vs, hstep, hrun, rfl⟩ := run_cons_iff.mp h
        obtain ⟨hsettled, hstep'⟩ := step_solid hsolid hstep
        rw [collapse, if_neg hc]
        refine run_cons_iff.mpr ⟨_, _, _, hspace, ?_, by rw [List.map_append]⟩
        exact run_cons_iff.mpr ⟨_, _, _, hstep', ih.1 p vs hsettled hrun, rfl⟩

end Wasrisc.WatSpacing
