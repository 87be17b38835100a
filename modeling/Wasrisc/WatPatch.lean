import Wasrisc.ImportRewrite

namespace Wasrisc.WatPatch

open GoStrings WatLexer WatSpacing Dotnet2wasm ImportRewrite

def NamesModule (body : Text) : Prop :=
  denote body = some (fullImportModuleName.flatMap String.utf8EncodeChar)

instance (body : Text) : Decidable (NamesModule body) := inferInstanceAs (Decidable (_ = _))

def renameString : Token → Token
  | .str body => .str (if NamesModule body then importModuleName else body)
  | t => t

def Opens (t u : Token) : Prop := t = .lpar ∧ u = .atom importStr

instance (t u : Token) : Decidable (Opens t u) := inferInstanceAs (Decidable (_ ∧ _))

def renameAfter : Token → Token → List Token → List Token
  | _, _, [] => []
  | t, u, v :: ts => (if Opens t u then renameString v else v) :: renameAfter u v ts

def rename (ts : List Token) : List Token := renameAfter .rpar .rpar ts

def NoImport (ts : List Token) : Prop := ts.IsChain fun t u => ¬ Opens t u

def ImportLine (ts : List Token) : Prop := ∃ m n rest,
  ts = .lpar :: .atom importStr :: .str m :: .str n :: (rest ++ [.rpar]) ∧
    NoImport (.str n :: (rest ++ [.rpar]))

def OtherLine (ts : List Token) : Prop := NoImport ts ∧ ts.head? ≠ some (.atom importStr)

/-- A text each import of which stands on a line of its own, as the scanner delivers lines. -/
structure WatText (text : Text) : Prop where
  fits : ∀ line ∈ rawLines text, fits bufSize line = true
  lines : ∀ line ∈ scanLines bufSize text, ∃ ts, Lexes line ts ∧ (ImportLine ts ∨ OtherLine ts)

def host (text : Text) : Host := ⟨id, fun _ => .ok (text, none), fun _ => none, fun _ s => s⟩

def patch (text : Text) : Text :=
  ((Main (host text) "input.wat".toList "output.wat".toList).output).getD []

structure PatchesModules (text : Text) (ts : List Token) : Prop where
  input : Lexes text ts
  output : Lexes (patch text) (rename ts)
  balanced : ParensBalanced ts → ParensBalanced (rename ts)
  again : Lexes (patch (patch text)) (rename ts)
  stable : '\r' ∉ text → patch (patch text) = patch text

/-- The module is spelled without escapes, and no string after it would change when the white space
of the line is collapsed. -/
def Plain (ts : List Token) : Prop := ∀ m rest,
  ts = .lpar :: .atom importStr :: .str m :: rest → NamesModule m →
    m = fullImportModuleName ∧ ∀ b, .str b ∈ rest → SingleSpaced b

def tokens (s : Text) : List Token := (run .gap (s ++ ['\n'])).elim [] Prod.snd

theorem tokens_eq {s : Text} {ts : List Token} (h : Lexes s ts) : tokens s = ts := by
  unfold Lexes at h
  rw [tokens, h]
  rfl

@[simp] theorem renameAfter_nil (t u : Token) : renameAfter t u [] = [] := rfl

theorem renameAfter_noImport {t u : Token} {ts : List Token} (ht : ¬ Opens t u)
    (hchain : NoImport (u :: ts)) (us : List Token) : ∃ t' u', ¬ Opens t' u' ∧
      renameAfter t u (ts ++ us) = ts ++ renameAfter t' u' us := by
  induction ts generalizing t u with
  | nil => exact ⟨t, u, ht, rfl⟩
  | cons v ts ih =>
    obtain ⟨huv, hrest⟩ := List.isChain_cons_cons.mp hchain
    obtain ⟨t', u', hopens, hrename⟩ := ih huv hrest
    refine ⟨t', u', hopens, ?_⟩
    rw [List.cons_append, renameAfter, if_neg ht, hrename]
    rfl

theorem noImport_cons {u : Token} {ts : List Token} (h : OtherLine ts) : NoImport (u :: ts) := by
  cases ts with
  | nil => exact .singleton u
  | cons t ts => exact .cons_cons (fun ho => h.2 (by rw [ho.2]; rfl)) h.1

theorem renameAfter_import {t u : Token} {m : Text} {rest : List Token} (ht : ¬ Opens t u)
    (h : NoImport (.str m :: rest)) (us : List Token) : ∃ t' u', ¬ Opens t' u' ∧
      renameAfter t u (.lpar :: .atom importStr :: .str m :: rest ++ us) =
        .lpar :: .atom importStr :: renameString (.str m) :: rest ++ renameAfter t' u' us := by
  have hm : ¬ Opens (.atom importStr) (.str m) := by simp [Opens]
  have hu : ¬ Opens u .lpar := by simp [Opens]
  have himport : Opens .lpar (.atom importStr) := ⟨rfl, rfl⟩
  obtain ⟨t', u', hopens, hrename⟩ := renameAfter_noImport hm h us
  refine ⟨t', u', hopens, ?_⟩
  simp only [List.cons_append, renameAfter, if_neg ht, if_neg hu, if_pos himport, hrename]

theorem noImport_str {m n : Text} {ts : List Token} (h : NoImport (.str n :: ts)) :
    NoImport (.str m :: .str n :: ts) :=
  .cons_cons (by simp [Opens]) h

theorem not_opens_start : ¬ Opens .rpar .rpar := by decide

theorem rename_import {m : Text} {rest : List Token} (h : NoImport (.str m :: rest)) :
    rename (.lpar :: .atom importStr :: .str m :: rest) =
      .lpar :: .atom importStr :: renameString (.str m) :: rest := by
  obtain ⟨t, u, -, hrename⟩ := renameAfter_import not_opens_start h []
  rwa [List.append_nil, renameAfter_nil, List.append_nil] at hrename

theorem rename_other {ts : List Token} (h : OtherLine ts) : rename ts = ts := by
  obtain ⟨t, u, -, hrename⟩ := renameAfter_noImport not_opens_start (noImport_cons h) []
  rwa [List.append_nil, renameAfter_nil, List.append_nil] at hrename

theorem renameAfter_line {t u : Token} {ts : List Token} (ht : ¬ Opens t u)
    (h : ImportLine ts ∨ OtherLine ts) (us : List Token) : ∃ t' u', ¬ Opens t' u' ∧
      renameAfter t u (ts ++ us) = rename ts ++ renameAfter t' u' us := by
  rcases h with ⟨m, n, rest, rfl, hrest⟩ | h
  · rw [rename_import (noImport_str hrest)]
    exact renameAfter_import ht (noImport_str hrest) us
  · rw [rename_other h]
    exact renameAfter_noImport ht (noImport_cons h) us

theorem renameAfter_flatMap {lines : List Text} {t u : Token} (ht : ¬ Opens t u)
    (h : ∀ line ∈ lines, ImportLine (tokens line) ∨ OtherLine (tokens line)) :
    renameAfter t u (lines.flatMap tokens) = lines.flatMap fun line => rename (tokens line) := by
  induction lines generalizing t u with
  | nil => rfl
  | cons line lines ih =>
    obtain ⟨t', u', hopens, hrename⟩ :=
      renameAfter_line ht (h line List.mem_cons_self) (lines.flatMap tokens)
    rw [List.flatMap_cons, hrename, List.flatMap_cons,
      ih hopens fun l hl => h l (List.mem_cons_of_mem _ hl)]

theorem nesting_renameAfter (t u : Token) (depth : ℕ) (ts : List Token) :
    nesting depth (renameAfter t u ts) = nesting depth ts := by
  induction ts generalizing t u depth with
  | nil => rfl
  | cons v ts ih =>
    rw [renameAfter]
    cases v with
    | lpar =>
      rw [show renameString .lpar = .lpar from rfl, ite_self, nesting, nesting, ih]
    | rpar =>
      rw [show renameString .rpar = .rpar from rfl, ite_self]
      cases depth with
      | zero => rfl
      | succ depth => rw [nesting, nesting, ih]
    | atom a =>
      rw [renameString, ite_self, nesting, nesting, ih]
      all_goals simp
    | str b =>
      by_cases hopens : Opens t u
      · rw [if_pos hopens, renameString, nesting, nesting, ih]
        all_goals simp
      · rw [if_neg hopens, nesting, nesting, ih]
        all_goals simp

theorem parensBalanced_rename {ts : List Token} (h : ParensBalanced ts) :
    ParensBalanced (rename ts) := by
  rw [ParensBalanced, rename, nesting_renameAfter]
  exact h

def patchedTokens : List Token → List Token
  | .lpar :: .atom a :: .str m :: ts =>
    if a = importStr ∧ m = fullImportModuleName then
      .lpar :: .atom a :: .str importModuleName :: ts.map squeezeToken
    else .lpar :: .atom a :: .str m :: ts
  | ts => ts

theorem not_noImport {m : Text} {rest : List Token} :
    ¬ NoImport (.lpar :: .atom importStr :: .str m :: rest) :=
  fun h => (List.isChain_cons_cons.mp h).1 ⟨rfl, rfl⟩

theorem patchedTokens_other {ts : List Token} (h : OtherLine ts) : patchedTokens ts = ts := by
  unfold patchedTokens
  split
  · apply if_neg
    rintro ⟨rfl, -⟩
    exact not_noImport h.1
  · rfl

theorem patchedTokens_kept {m : Text} {rest : List Token} (h : m ≠ fullImportModuleName) :
    patchedTokens (.lpar :: .atom importStr :: .str m :: rest) =
      .lpar :: .atom importStr :: .str m :: rest :=
  if_neg fun hmatch => h hmatch.2

theorem patchedTokens_renamed (rest : List Token) :
    patchedTokens (.lpar :: .atom importStr :: .str fullImportModuleName :: rest) =
      .lpar :: .atom importStr :: .str importModuleName :: rest.map squeezeToken := by
  rw [patchedTokens, if_pos ⟨rfl, rfl⟩]

theorem lexes_outputLine {line : Text} {ts : List Token} (hl : Lexes line ts)
    (h : ImportLine ts ∨ OtherLine ts) : Lexes (outputLine line) (patchedTokens ts) := by
  cases hrewrite : importWasip1Compat line with
  | none =>
    have hline : outputLine line = line := by rw [outputLine, hrewrite]
    rw [hline]
    rcases h with ⟨m, n, rest, rfl, -⟩ | h
    · have hm : m ≠ fullImportModuleName := by
        rintro rfl
        obtain ⟨r, hr, -⟩ := rewrite_of_import hl
        rw [hrewrite] at hr
        cases hr
      rwa [patchedTokens_kept hm]
    · rwa [patchedTokens_other h]
  | some r =>
    have hline : outputLine line = r.2 := by rw [outputLine, hrewrite]
    obtain ⟨us, hus⟩ := tokens_of_rewrite hrewrite hl
    rcases h with ⟨m, n, rest, rfl, -⟩ | h
    · have hmodule : m = fullImportModuleName ∧ .str n :: (rest ++ [.rpar]) = us := by
        simpa using hus
      obtain ⟨rfl, -⟩ := hmodule
      obtain ⟨r', hr', hlexes⟩ := rewrite_of_import hl
      rw [hrewrite] at hr'
      obtain rfl := Option.some.inj hr'
      rwa [hline, patchedTokens_renamed]
    · rcases hus with rfl | rfl
      · exact absurd rfl h.2
      · exact absurd h.1 not_noImport

theorem squeezeToken_eq_self_iff (t : Token) :
    squeezeToken t = t ↔ ∀ b, .str b = t → SingleSpaced b := by
  cases t with
  | str body => simp [squeezeToken, squeeze_eq_self_iff]
  | _ => simp [squeezeToken]

theorem map_squeezeToken_iff (ts : List Token) :
    ts.map squeezeToken = ts ↔ ∀ b, .str b ∈ ts → SingleSpaced b := by
  induction ts with
  | nil => simp
  | cons t ts ih =>
    rw [List.map_cons, List.cons.injEq, ih, squeezeToken_eq_self_iff]
    simp only [List.mem_cons, or_imp, forall_and]

theorem renameString_eq_self_iff {m : Text} (hm : m ≠ fullImportModuleName) :
    .str m = renameString (.str m) ↔ ¬ NamesModule m := by
  unfold renameString
  by_cases hnames : NamesModule m
  · have hnew : m ≠ importModuleName := by
      rintro rfl
      exact absurd hnames (by decide)
    simp [hnames, hnew]
  · simp [hnames]

theorem import_inj {m m' : Text} {rest rest' : List Token}
    (h : Token.lpar :: .atom importStr :: .str m :: rest =
      .lpar :: .atom importStr :: .str m' :: rest') : m = m' ∧ rest = rest' := by
  simpa using h

theorem patched_eq_rename_iff {ts : List Token} (h : ImportLine ts ∨ OtherLine ts) :
    patchedTokens ts = rename ts ↔ Plain ts := by
  rcases h with ⟨m, n, rest, rfl, hrest⟩ | h
  · rw [rename_import (noImport_str hrest)]
    by_cases hm : m = fullImportModuleName
    · subst hm
      have hnames : NamesModule fullImportModuleName := by decide
      have hstring : renameString (.str fullImportModuleName) = .str importModuleName := by
        rw [renameString, if_pos hnames]
      rw [patchedTokens_renamed, hstring, List.cons_inj_right, List.cons_inj_right,
        List.cons_inj_right, map_squeezeToken_iff]
      constructor
      · rintro hspaced m rest' heq -
        obtain ⟨rfl, rfl⟩ := import_inj heq
        exact ⟨rfl, hspaced⟩
      · intro hplain
        exact (hplain _ _ rfl hnames).2
    · rw [patchedTokens_kept hm, List.cons_inj_right, List.cons_inj_right, List.cons.injEq,
        renameString_eq_self_iff hm]
      constructor
      · rintro ⟨hother, -⟩ m' rest' heq hnames
        obtain ⟨rfl, rfl⟩ := import_inj heq
        exact absurd hnames hother
      · intro hplain
        exact ⟨fun hnames => hm (hplain _ _ rfl hnames).1, rfl⟩
  · rw [patchedTokens_other h, rename_other h]
    refine iff_of_true rfl ?_
    rintro m rest rfl
    exact absurd h.1 not_noImport

theorem run_cr (q : Mode) : run q ['\r', '\n'] = run q ['\n'] := by
  cases q
  all_goals rfl

theorem lexes_dropCR (line : Text) (ts : List Token) :
    Lexes (dropCR line) ts ↔ Lexes line ts := by
  rcases dropCR_spec line with h | h
  · rw [h]
  · unfold Lexes
    conv_rhs => rw [h]
    rw [List.append_assoc, List.singleton_append, run_append, run_append]
    simp only [run_cr]

theorem lexes_cons {line s : Text} {ts us : List Token} (hline : Lexes line ts)
    (hs : Lexes s us) : Lexes (line ++ '\n' :: s) (ts ++ us) := by
  have hsplit : line ++ '\n' :: s ++ ['\n'] = line ++ ['\n'] ++ (s ++ ['\n']) := by simp
  unfold Lexes
  rw [hsplit]
  exact run_append_iff.mpr ⟨_, _, _, hline, hs, rfl⟩

theorem lexes_rawLinesFrom (line s : Text)
    (h : ∀ l ∈ rawLinesFrom line s, Lexes l (tokens l)) :
    Lexes (line ++ s) ((rawLinesFrom line s).flatMap tokens) := by
  induction s generalizing line with
  | nil =>
    rw [rawLinesFrom] at h ⊢
    by_cases hnil : line = []
    · subst hnil
      rfl
    · rw [if_neg hnil] at h ⊢
      simpa using h line List.mem_cons_self
  | cons c s ih =>
    rw [rawLinesFrom] at h ⊢
    by_cases hc : c = '\n'
    · rw [if_pos hc] at h ⊢
      subst hc
      have hrest := ih [] fun l hl => h l (List.mem_cons_of_mem _ hl)
      exact lexes_cons (h line List.mem_cons_self) hrest
    · rw [if_neg hc] at h ⊢
      have hrest := ih (line ++ [c]) h
      rwa [List.append_assoc, List.singleton_append] at hrest

theorem lexes_written {lines : List Text} {f : Text → Text} {g : Text → List Token}
    (h : ∀ line ∈ lines, Lexes (f line) (g line)) :
    Lexes (lines.flatMap fun line => f line ++ ['\n']) (lines.flatMap g) := by
  induction lines with
  | nil => rfl
  | cons line lines ih =>
    rw [List.flatMap_cons, List.flatMap_cons, List.append_assoc]
    exact lexes_cons (h line List.mem_cons_self) (ih fun l hl => h l (List.mem_cons_of_mem _ hl))

theorem writeLines_host (text : Text) (n : ℕ) (lines : List Text) :
    writeLines (host text) n lines = lines.flatMap fun line => outputLine line ++ ['\n'] := by
  induction lines generalizing n with
  | nil => rfl
  | cons line lines ih =>
    rw [writeLines, ih, List.flatMap_cons]
    rfl

theorem patch_eq (text : Text) : patch text =
    (scanLines bufSize text).flatMap fun line => outputLine line ++ ['\n'] :=
  writeLines_host text 0 _

section

variable {text : Text} (h : WatText text)

include h

theorem lexes_scanned {line : Text} (hline : line ∈ scanLines bufSize text) :
    Lexes line (tokens line) ∧ (ImportLine (tokens line) ∨ OtherLine (tokens line)) := by
  obtain ⟨ts, hts, hkind⟩ := h.lines line hline
  rw [tokens_eq hts]
  exact ⟨hts, hkind⟩

theorem lexes_text : Lexes text ((scanLines bufSize text).flatMap tokens) := by
  have hraw : ∀ l ∈ rawLines text, Lexes l (tokens l) ∧ tokens (dropCR l) = tokens l := by
    intro l hl
    have hmem : dropCR l ∈ scanLines bufSize text := by
      rw [scanLines_eq h.fits]
      exact List.mem_map_of_mem hl
    have hlexes := (lexes_dropCR l _).mp (lexes_scanned h hmem).1
    rw [tokens_eq hlexes]
    exact ⟨hlexes, rfl⟩
  have hlines : (scanLines bufSize text).flatMap tokens = (rawLines text).flatMap tokens := by
    rw [scanLines_eq h.fits, List.flatMap_map]
    exact List.flatMap_congr fun l hl => (hraw l hl).2
  rw [hlines]
  exact lexes_rawLinesFrom [] text fun l hl => (hraw l hl).1

theorem lexes_patch : Lexes (patch text)
    ((scanLines bufSize text).flatMap fun line => patchedTokens (tokens line)) := by
  rw [patch_eq]
  apply lexes_written
  intro line hline
  obtain ⟨hlexes, hkind⟩ := lexes_scanned h hline
  exact lexes_outputLine hlexes hkind

theorem mem_scanLines {line : Text} (hline : line ∈ scanLines bufSize text) :
    '\n' ∉ line ∧ line ⊆ text ∧ byteLength line < bufSize := by
  rw [scanLines_eq h.fits] at hline
  obtain ⟨l, hl, rfl⟩ := List.mem_map.mp hline
  obtain ⟨hnewline, hsub⟩ := mem_rawLinesFrom (by simp) hl
  have hfits := h.fits l hl
  simp only [GoStrings.fits, decide_eq_true_eq] at hfits
  obtain ⟨hpart, hbytes⟩ := dropCR_part l
  exact ⟨fun hmem => hnewline (hpart hmem), List.Subset.trans hpart hsub,
    hbytes.trans_lt hfits⟩

theorem scanLines_patch : scanLines bufSize (patch text) =
    (scanLines bufSize text).map fun line => dropCR (outputLine line) := by
  have hraw : rawLines (patch text) = (scanLines bufSize text).map outputLine := by
    rw [patch_eq, ← List.flatMap_map outputLine fun line => line ++ ['\n']]
    apply rawLines_written
    intro l hl
    obtain ⟨line, hline, rfl⟩ := List.mem_map.mp hl
    exact newline_notMem_outputLine (mem_scanLines h hline).1
  have hfits : ∀ line ∈ rawLines (patch text), GoStrings.fits bufSize line = true := by
    intro l hl
    rw [hraw] at hl
    obtain ⟨line, hline, rfl⟩ := List.mem_map.mp hl
    have hbytes := (byteLength_outputLine line).trans_lt (mem_scanLines h hline).2.2
    simpa [GoStrings.fits] using hbytes
  rw [scanLines_eq hfits, hraw, List.map_map]
  rfl

theorem patch_patch_eq : patch (patch text) =
    (scanLines bufSize text).flatMap fun line => dropCR (outputLine line) ++ ['\n'] := by
  have hsettled : ∀ line, outputLine (dropCR (outputLine line)) = dropCR (outputLine line) := by
    intro line
    rw [outputLine, importWasip1Compat_dropCR, outputLine_settled]
  rw [patch_eq, scanLines_patch h, List.flatMap_map]
  simp only [hsettled]

theorem lexes_patch_patch : Lexes (patch (patch text))
    ((scanLines bufSize text).flatMap fun line => patchedTokens (tokens line)) := by
  rw [patch_patch_eq h]
  apply lexes_written
  intro line hline
  obtain ⟨hlexes, hkind⟩ := lexes_scanned h hline
  exact (lexes_dropCR _ _).mpr (lexes_outputLine hlexes hkind)

theorem patch_stable (hcr : '\r' ∉ text) : patch (patch text) = patch text := by
  rw [patch_patch_eq h, patch_eq]
  apply List.flatMap_congr
  intro line hline
  have hline' : '\r' ∉ outputLine line :=
    notMem_outputLine (by decide) (by decide) fun hmem => hcr ((mem_scanLines h hline).2.1 hmem)
  rcases dropCR_spec (outputLine line) with hdrop | hdrop
  · rw [hdrop]
  · rw [hdrop] at hline'
    simp at hline'

theorem rename_text : rename ((scanLines bufSize text).flatMap tokens) =
    (scanLines bufSize text).flatMap fun line => rename (tokens line) :=
  renameAfter_flatMap not_opens_start fun _ hline => (lexes_scanned h hline).2

end

theorem length_patchedTokens (ts : List Token) : (patchedTokens ts).length = ts.length := by
  unfold patchedTokens
  split
  · split_ifs
    all_goals simp
  · rfl

theorem length_renameAfter (t u : Token) (ts : List Token) :
    (renameAfter t u ts).length = ts.length := by
  induction ts generalizing t u with
  | nil => rfl
  | cons v ts ih => rw [renameAfter, List.length_cons, ih, List.length_cons]

theorem flatMap_tokens_eq_iff (lines : List Text) :
    (lines.flatMap fun line => patchedTokens (tokens line)) =
      (lines.flatMap fun line => rename (tokens line)) ↔
        ∀ line ∈ lines, patchedTokens (tokens line) = rename (tokens line) := by
  have hlengths : (lines.map fun line => patchedTokens (tokens line)).map List.length =
      (lines.map fun line => rename (tokens line)).map List.length := by
    simp [length_patchedTokens, rename, length_renameAfter]
  rw [List.flatMap_def, List.flatMap_def, ← List.map_inj_left]
  constructor
  · exact fun hflat => List.eq_iff_flatten_eq.mpr ⟨hflat, hlengths⟩
  · exact fun hmap => (List.eq_iff_flatten_eq.mp hmap).1

theorem patch_iff (text : Text) (h : WatText text) : (∃ ts, PatchesModules text ts) ↔
    ∀ line ∈ scanLines bufSize text, ∀ ts, Lexes line ts → Plain ts := by
  have hkept := flatMap_tokens_eq_iff (scanLines bufSize text)
  constructor
  · rintro ⟨ts, hpatches⟩ line hline us hus
    have hts : ts = (scanLines bufSize text).flatMap tokens :=
      (tokens_eq hpatches.input).symm.trans (tokens_eq (lexes_text h))
    have houtput := hpatches.output
    rw [hts, rename_text h] at houtput
    have heq := (tokens_eq (lexes_patch h)).symm.trans (tokens_eq houtput)
    rw [← tokens_eq hus]
    exact (patched_eq_rename_iff (lexes_scanned h hline).2).mp (hkept.mp heq line hline)
  · intro hplain
    have heq := hkept.mpr fun line hline =>
      (patched_eq_rename_iff (lexes_scanned h hline).2).mpr
        (hplain line hline _ (lexes_scanned h hline).1)
    refine ⟨_, lexes_text h, ?_, parensBalanced_rename, ?_, patch_stable h⟩
    · rw [rename_text h, ← heq]
      exact lexes_patch h
    · rw [rename_text h, ← heq]
      exact lexes_patch_patch h

-- an escaped spelling names the module, and the tool leaves it
example : NamesModule "example:api\\2ftestmodule".toList ∧ importWasip1Compat
    "(import \"example:api\\2ftestmodule\" \"f\" (func))".toList = none := by decide

def importText (name : Text) : Text :=
  "  (import ".toList ++ quoted fullImportModuleName ++ " ".toList ++ quoted name ++
    " (func (;0;)))".toList

def descriptorTokens : List Token :=
  [.lpar, .atom "func".toList, .lpar, .atom ";0;".toList, .rpar, .rpar]

def importTokens (name : Text) : List Token :=
  .lpar :: .atom importStr :: .str fullImportModuleName :: .str name ::
    (descriptorTokens ++ [.rpar])

theorem noImport_importTokens (name : Text) :
    NoImport (.str name :: (descriptorTokens ++ [.rpar])) :=
  .cons_cons (by simp [Opens]) (by decide)

theorem scanLines_import {name : Text} (hraw : rawLines (importText name) = [importText name])
    (hfits : GoStrings.fits bufSize (importText name) = true) :
    scanLines bufSize (importText name) = [dropCR (importText name)] := by
  rw [scanLines_eq (by simpa [hraw] using hfits), hraw, List.map_singleton]

theorem watText_import {name : Text} (hraw : rawLines (importText name) = [importText name])
    (hfits : GoStrings.fits bufSize (importText name) = true)
    (hlexes : Lexes (importText name) (importTokens name)) : WatText (importText name) := by
  constructor
  · simpa [hraw] using hfits
  · intro line hline
    rw [scanLines_import hraw hfits, List.mem_singleton] at hline
    subst hline
    exact ⟨_, (lexes_dropCR _ _).mpr hlexes, .inl ⟨_, _, _, rfl, noImport_importTokens name⟩⟩

theorem plain_import {name : Text} (h : SingleSpaced name) : Plain (importTokens name) := by
  intro m rest heq _
  obtain ⟨rfl, rfl⟩ := import_inj heq
  exact ⟨rfl, by simpa [descriptorTokens] using h⟩

theorem patch_import_printed : ∃ ts, PatchesModules (importText "print".toList) ts := by
  have hraw : rawLines (importText "print".toList) = [importText "print".toList] := by decide
  have hfits : GoStrings.fits bufSize (importText "print".toList) = true := by decide
  have hlexes : Lexes (importText "print".toList) (importTokens "print".toList) := by decide
  apply (patch_iff _ (watText_import hraw hfits hlexes)).mpr
  intro line hline ts hts
  rw [scanLines_import hraw hfits, List.mem_singleton] at hline
  subst hline
  rw [← tokens_eq hts, tokens_eq ((lexes_dropCR _ _).mpr hlexes)]
  exact plain_import (by decide)

theorem spaced_name_collapses : ¬ ∀ text, WatText text → ∃ ts, PatchesModules text ts := by
  intro hall
  obtain ⟨ts, hpatches⟩ := hall (importText "a  b".toList)
    (watText_import (by decide) (by decide) (by decide))
  have houtput := hpatches.output
  rw [← tokens_eq hpatches.input] at houtput
  exact absurd houtput (by decide)

end Wasrisc.WatPatch
