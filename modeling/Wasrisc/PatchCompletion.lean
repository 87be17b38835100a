import Wasrisc.ImportRewrite

namespace Wasrisc.PatchCompletion

open GoStrings Dotnet2wasm ImportRewrite

def inputLines (input : Text) : List Text := (rawLines input).map dropCR

def IsPatched (line out : Text) : Prop :=
  out = line ∨ ∃ funcName, importWasip1Compat line = some (funcName, out)

def unlines (lines : List Text) : Text := lines.flatMap (· ++ ['\n'])

/-- The input is there and read to its end, and the output holds one line for each line that the
input had before the run. -/
def Complete (host : Host) (inPath : Text) (output : Option Text) : Prop :=
  ∃ input outs, host.openInput inPath = .ok (input, none) ∧ output = some (unlines outs) ∧
    List.Forall₂ IsPatched (inputLines input) outs

def WritesAll (host : Host) (n : ℕ) (lines : List Text) : Prop :=
  ∀ p ∈ lines.zipIdx n, host.written p.2 (outputLine p.1 ++ ['\n']) = outputLine p.1 ++ ['\n']

structure NothingFails (host : Host) (inPath out input : Text) : Prop where
  opened : host.openInput inPath = .ok (input, none)
  created : host.createError out = none
  kept : host.file inPath = host.file out → input = []
  fits : ∀ line ∈ rawLines input, fits bufSize line = true
  writes : WritesAll host 0 (inputLines input)

theorem isPatched_outputLine (line : Text) : IsPatched line (outputLine line) := by
  unfold outputLine
  cases h : importWasip1Compat line with
  | none => exact .inl rfl
  | some r => exact .inr ⟨r.1, h⟩

theorem IsPatched.newline_notMem {line out : Text} (h : IsPatched line out) (hline : '\n' ∉ line) :
    '\n' ∉ out := by
  rcases h with rfl | ⟨funcName, hpatch⟩
  · exact hline
  · have hout : outputLine line = out := by rw [outputLine, hpatch]
    rw [← hout]
    exact newline_notMem_outputLine hline

theorem writesAll_cons {host : Host} {n : ℕ} {line : Text} {lines : List Text} :
    WritesAll host n (line :: lines) ↔
      host.written n (outputLine line ++ ['\n']) = outputLine line ++ ['\n'] ∧
        WritesAll host (n + 1) lines := by
  rw [WritesAll, List.zipIdx_cons, List.forall_mem_cons]
  rfl

theorem writeLines_eq {host : Host} {n : ℕ} {lines : List Text} (h : WritesAll host n lines) :
    writeLines host n lines = unlines (lines.map outputLine) := by
  induction lines generalizing n with
  | nil => rfl
  | cons line lines ih =>
    obtain ⟨hline, hlines⟩ := writesAll_cons.mp h
    rw [writeLines, hline, ih hlines]
    rfl

theorem count_unlines {lines : List Text} (h : ∀ line ∈ lines, '\n' ∉ line) :
    (unlines lines).count '\n' = lines.length := by
  induction lines with
  | nil => rfl
  | cons line lines ih =>
    rw [List.forall_mem_cons] at h
    have hrest := ih h.2
    unfold unlines at hrest ⊢
    rw [List.flatMap_cons, List.count_append, List.count_append, List.count_eq_zero_of_not_mem h.1,
      hrest, List.count_singleton_self, List.length_cons]
    omega

theorem rawLinesFrom_ne_nil {line : Text} (hline : line ≠ []) (s : Text) :
    rawLinesFrom line s ≠ [] := by
  induction s generalizing line with
  | nil =>
    rw [rawLinesFrom, if_neg hline]
    exact List.cons_ne_nil _ _
  | cons c s ih =>
    rw [rawLinesFrom]
    by_cases hc : c = '\n'
    · rw [if_pos hc]
      exact List.cons_ne_nil _ _
    · rw [if_neg hc]
      exact ih (by simp)

theorem rawLines_eq_nil {s : Text} (h : rawLines s = []) : s = [] := by
  cases s with
  | nil => rfl
  | cons c s =>
    rw [rawLines, rawLinesFrom] at h
    by_cases hc : c = '\n'
    · simp [hc] at h
    · rw [if_neg hc] at h
      exact absurd h (rawLinesFrom_ne_nil (by simp) s)

theorem count_of_prefix {line p : Text} (hline : '\n' ∉ line) (h : p <+: line ++ ['\n']) :
    p.count '\n' ≤ 1 ∧ (p.count '\n' = 1 → p = line ++ ['\n']) := by
  rcases List.prefix_concat_iff.mp h with rfl | hp
  · simp [List.count_eq_zero_of_not_mem hline]
  · have hnone : p.count '\n' = 0 :=
      List.count_eq_zero_of_not_mem fun hmem => hline (hp.subset hmem)
    omega

theorem count_writeLines {host : Host} (hwrites : ∀ n s, host.written n s <+: s)
    {lines : List Text} (hlines : ∀ line ∈ lines, '\n' ∉ line) (n : ℕ) :
    (writeLines host n lines).count '\n' ≤ lines.length ∧
      ((writeLines host n lines).count '\n' = lines.length → WritesAll host n lines) := by
  induction lines generalizing n with
  | nil => simp [writeLines, WritesAll]
  | cons line lines ih =>
    rw [List.forall_mem_cons] at hlines
    have hout := newline_notMem_outputLine hlines.1
    obtain ⟨hle, hfull⟩ := count_of_prefix hout (hwrites n _)
    obtain ⟨hles, hfulls⟩ := ih hlines.2 (n + 1)
    rw [writeLines, List.count_append, List.length_cons, writesAll_cons]
    constructor
    · omega
    · intro hcount
      exact ⟨hfull (by omega), hfulls (by omega)⟩

theorem newline_notMem_patched {lines outs : List Text} (h : List.Forall₂ IsPatched lines outs)
    (hlines : ∀ line ∈ lines, '\n' ∉ line) : ∀ out ∈ outs, '\n' ∉ out := by
  induction h with
  | nil => simp
  | cons hpatch _ ih =>
    rw [List.forall_mem_cons] at hlines ⊢
    exact ⟨hpatch.newline_notMem hlines.1, ih hlines.2⟩

theorem scanned_eq_iff {host : Host} {inPath out input : Text} :
    scanned host inPath out input = input ↔ (host.file inPath = host.file out → input = []) := by
  rw [scanned]
  by_cases hsame : host.file inPath = host.file out
  · rw [if_pos hsame]
    exact ⟨fun h _ => h.symm, fun h => (h hsame).symm⟩
  · rw [if_neg hsame]
    exact ⟨fun _ h => absurd h hsame, fun _ => rfl⟩

theorem output_complete {host : Host} {inPath out input : Text}
    (h : NothingFails host inPath out input) :
    Complete host inPath (main host inPath out).output := by
  have hscan : scanLines bufSize input = inputLines input := scanLines_eq h.fits
  have houtput : (main host inPath out).output =
      some (unlines ((inputLines input).map outputLine)) := by
    simp only [main, Main, h.opened, h.created, scanned_eq_iff.mpr h.kept, hscan,
      writeLines_eq h.writes]
  refine ⟨input, _, h.opened, houtput, ?_⟩
  rw [List.forall₂_map_right_iff, List.forall₂_same]
  exact fun line _ => isPatched_outputLine line

theorem nothing_fails {host : Host} (hwrites : ∀ n s, host.written n s <+: s)
    {inPath out : Text} (h : Complete host inPath (main host inPath out).output) :
    ∃ input, NothingFails host inPath out input := by
  obtain ⟨input, outs, hopened, houtput, hpatched⟩ := h
  have hcreated : host.createError out = none := by
    cases herr : host.createError out with
    | none => rfl
    | some err => simp [main, Main, hopened, herr] at houtput
  simp only [main, Main, hopened, hcreated, Option.some.injEq] at houtput
  -- the new lines that reach the file tell how many writes left their whole text
  have houts : (unlines outs).count '\n' = (rawLines input).length := by
    rw [count_unlines (newline_notMem_patched hpatched fun _ => newline_notMem_dropCR),
      ← hpatched.length_eq, inputLines, List.length_map]
  have hkept : host.file inPath = host.file out → input = [] := by
    intro hsame
    -- the emptied file has no lines to write
    rw [scanned, if_pos hsame] at houtput
    rw [← houtput] at houts
    exact rawLines_eq_nil (List.length_eq_zero_iff.mp houts.symm)
  rw [scanned_eq_iff.mpr hkept] at houtput
  have hlines : (scanLines bufSize input).length =
      ((rawLines input).takeWhile (GoStrings.fits bufSize)).length := List.length_map _
  have hprefix : (rawLines input).takeWhile (GoStrings.fits bufSize) <+: rawLines input :=
    List.takeWhile_prefix _
  have hnewline : ∀ line ∈ scanLines bufSize input, '\n' ∉ line := by
    intro line hline
    exact newline_notMem_dropCR (List.map_subset dropCR hprefix.subset hline)
  obtain ⟨hle, hfull⟩ := count_writeLines hwrites hnewline 0
  rw [houtput, houts] at hle hfull
  have hlength := hprefix.length_le
  have htake : (rawLines input).takeWhile (GoStrings.fits bufSize) = rawLines input :=
    hprefix.eq_of_length (by omega)
  have hfits : ∀ line ∈ rawLines input, GoStrings.fits bufSize line = true :=
    List.takeWhile_eq_self_iff.mp htake
  refine ⟨input, hopened, hcreated, hkept, hfits, ?_⟩
  have hwritten := hfull (by omega)
  rwa [scanLines_eq hfits] at hwritten

theorem exit_status_truthful_iff (host : Host) (hwrites : ∀ n s, host.written n s <+: s)
    (inPath out : Text) :
    ((main host inPath out).status = 0 → Complete host inPath (main host inPath out).output) ↔
      ∃ input, NothingFails host inPath out input := by
  constructor
  · exact fun h => nothing_fails hwrites (h rfl)
  · exact fun ⟨_, h⟩ _ => output_complete h

def moduleHost (written : Text → Text) : Host where
  file := id
  openInput _ := .ok ("(module)\n".toList, none)
  createError _ := none
  written _ := written

def inWat : Text := "in.wat".toList
def outWat : Text := "out.wat".toList

theorem exit_status_truthful_written :
    Complete (moduleHost id) inWat (main (moduleHost id) inWat outWat).output ∧
      (main (moduleHost id) inWat outWat).output = some "(module)\n".toList ∧
      ¬ Complete (moduleHost id) inWat (main (moduleHost id) inWat inWat).output := by
  refine ⟨?_, by decide, fun h => ?_⟩
  · have hne : inWat ≠ outWat := by decide
    apply (exit_status_truthful_iff (moduleHost id) (fun _ _ => List.prefix_rfl) inWat outWat).mpr
    · exact ⟨"(module)\n".toList, rfl, rfl, fun h => absurd h hne, by decide, fun _ _ => rfl⟩
    · rfl
  · obtain ⟨input, hfails⟩ := (exit_status_truthful_iff (moduleHost id)
      (fun _ _ => List.prefix_rfl) inWat inWat).mp fun _ => h
    have hinput : "(module)\n".toList = input := congrArg Prod.fst (Except.ok.inj hfails.opened)
    rw [hfails.kept rfl] at hinput
    exact absurd hinput (by decide)

theorem full_disk_unnoticed : ¬ ∀ (host : Host) (inPath out : Text),
    (∀ n s, host.written n s <+: s) → (main host inPath out).status = 0 →
      Complete host inPath (main host inPath out).output := by
  intro hall
  obtain ⟨input, outs, hopened, houtput, hpatched⟩ :=
    hall (moduleHost fun _ => []) inWat outWat (fun _ _ => List.nil_prefix) rfl
  have hinput : "(module)\n".toList = input := congrArg Prod.fst (Except.ok.inj hopened)
  have hempty : (main (moduleHost fun _ => []) inWat outWat).output = some [] := by decide
  have hlength : (inputLines "(module)\n".toList).length = 1 := by decide
  rw [hempty, Option.some.injEq] at houtput
  have hcount := congrArg List.length houtput
  rw [hinput, hpatched.length_eq] at hlength
  obtain ⟨line, rfl⟩ := List.length_eq_one_iff.mp hlength
  simp [unlines] at hcount

end Wasrisc.PatchCompletion
