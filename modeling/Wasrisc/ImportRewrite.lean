import Wasrisc.Dotnet2wasm
import Wasrisc.WatSpacing

namespace Wasrisc.ImportRewrite

open GoStrings WatLexer WatSpacing Dotnet2wasm

def quoted (body : Text) : Text := quote ++ body ++ quote

def stripped (line : Text) : Text :=
  trimSuffix (trimPrefix (trimSpace line) parOpen) parClose

theorem stripped_spec (line : Text) : ∃ g a b g', line = g ++ (a ++ (stripped line ++ (b ++ g'))) ∧
    Blank g ∧ Blank g' ∧ (a = [] ∨ a = parOpen) ∧ (b = [] ∨ b = parClose) := by
  obtain ⟨g, g', hline, hg, hg'⟩ := trimSpace_spec line
  have hfront : ∃ a, trimSpace line = a ++ trimPrefix (trimSpace line) parOpen ∧
      (a = [] ∨ a = parOpen) := by
    rcases trimPrefix_spec (trimSpace line) parOpen with h | h
    · exact ⟨[], h, .inl rfl⟩
    · exact ⟨parOpen, h, .inr rfl⟩
  have hback : ∃ b, trimPrefix (trimSpace line) parOpen = stripped line ++ b ∧
      (b = [] ∨ b = parClose) := by
    rcases trimSuffix_spec (trimPrefix (trimSpace line) parOpen) parClose with h | h
    · exact ⟨[], by simpa [stripped] using h, .inl rfl⟩
    · exact ⟨parClose, h, .inr rfl⟩
  obtain ⟨a, ha, hopen⟩ := hfront
  obtain ⟨b, hb, hclose⟩ := hback
  refine ⟨g, a, b, g', ?_, hg, hg', hopen, hclose⟩
  rw [hb] at ha
  rw [ha] at hline
  simpa [List.append_assoc] using hline

theorem importWasip1Compat_spec {line : Text} {r : Text × Text}
    (h : importWasip1Compat line = some r) : ∃ tokens,
      fields (stripped line) = importStr :: quoted fullImportModuleName :: r.1 :: tokens ∧
        r.2 = parOpen ++ join (importStr :: quoted importModuleName :: r.1 :: tokens) [' '] ++
          parClose := by
  unfold importWasip1Compat at h
  split at h
  · rename_i token moduleName funcName tokens hfields
    split_ifs at h with hmatch
    obtain rfl := Option.some.inj h
    refine ⟨tokens, ?_, ?_⟩
    · rw [← hmatch.1, show quoted fullImportModuleName = moduleName from hmatch.2.symm]
      exact hfields
    · rw [hmatch.1]
      rfl
  · cases h

theorem importWasip1Compat_of_fields {line funcName : Text} {tokens : List Text}
    (h : fields (stripped line) =
      importStr :: quoted fullImportModuleName :: funcName :: tokens) :
    importWasip1Compat line = some (funcName, parOpen ++
      join (importStr :: quoted importModuleName :: funcName :: tokens) [' '] ++ parClose) := by
  unfold importWasip1Compat
  rw [show trimSuffix (trimPrefix (trimSpace line) parOpen) parClose = stripped line from rfl, h]
  exact if_pos ⟨rfl, rfl⟩

theorem run_import : run .gap importStr = some (.atom importStr, []) := by decide

theorem run_fullImport :
    run .gap (quoted fullImportModuleName) = some (.closed, [.str fullImportModuleName]) := by
  decide

theorem run_importWords {g g₁ s : Text} (hg : Blank g) {c : Char} (hc : isSpace c = true)
    (hg₁ : Blank g₁) {ts : List Token}
    (h : run .gap (g ++ (importStr ++ c :: (g₁ ++ (quoted fullImportModuleName ++ s)))) =
      some (.gap, ts)) : ∃ us, ts = .atom importStr :: .str fullImportModuleName :: us := by
  obtain ⟨p, us, vs, himport, hrest, rfl⟩ := run_append_iff.mp (run_blank_gap hg h)
  rw [run_import, Option.some.injEq, Prod.mk.injEq] at himport
  obtain ⟨rfl, rfl⟩ := himport
  obtain ⟨q, ws, xs, hstep, hafter, rfl⟩ := run_cons_iff.mp hrest
  have hblank := isBlank_of_step_atom hc hstep
  simp only [step, delimiter, hblank, if_true, Option.some.injEq, Prod.mk.injEq] at hstep
  obtain ⟨rfl, rfl⟩ := hstep
  obtain ⟨q, ys, zs, hfull, hend, rfl⟩ := run_append_iff.mp (run_blank_gap hg₁ hafter)
  rw [run_fullImport, Option.some.injEq, Prod.mk.injEq] at hfull
  obtain ⟨rfl, rfl⟩ := hfull
  exact ⟨zs, rfl⟩

theorem tokens_of_rewrite {line : Text} {r : Text × Text} {ts : List Token}
    (h : importWasip1Compat line = some r) (hl : Lexes line ts) : ∃ us,
      ts = .atom importStr :: .str fullImportModuleName :: us ∨
        ts = .lpar :: .atom importStr :: .str fullImportModuleName :: us := by
  obtain ⟨tokens, hfields, -⟩ := importWasip1Compat_spec h
  obtain ⟨g, a, b, g', hline, hg, -, hopen, -⟩ := stripped_spec line
  obtain ⟨g₀, s₁, hs, hg₀, hs₁, hfields₁⟩ := fields_cons hfields
  obtain ⟨g₁, s₂, rfl, hg₁, -, -⟩ := fields_cons hfields₁
  cases g₁ with
  | nil => exact absurd (hs₁ '"' rfl) (by decide)
  | cons c g₁ =>
    have hc : isSpace c = true := hg₁ c List.mem_cons_self
    have hg₁' : Blank g₁ := fun d hd => hg₁ d (List.mem_cons_of_mem _ hd)
    unfold Lexes at hl
    rw [hline, hs] at hl
    simp only [List.append_assoc, List.cons_append] at hl
    have hgap := run_blank_gap hg hl
    rcases hopen with rfl | rfl
    · obtain ⟨us, hus⟩ := run_importWords hg₀ hc hg₁' hgap
      exact ⟨us, .inl hus⟩
    · obtain ⟨p, vs, ws, hpar, hrest, rfl⟩ := run_append_iff.mp hgap
      obtain ⟨rfl, rfl⟩ := Prod.mk.inj (Option.some.inj hpar)
      obtain ⟨us, rfl⟩ := run_importWords hg₀ hc hg₁' hrest
      exact ⟨us, .inr rfl⟩

theorem blank_of_blanks {g : Text} (hg : Blanks g) : Blank g :=
  fun c hc => isSpace_of_isBlank (hg c hc)

theorem blank_before_string {t : Token} {g y : Text} (ht : t ≠ .lpar ∧ t ≠ .rpar)
    (h : Follows t (g ++ '"' :: y)) (hg : Blank g) :
    ∃ c g', g = c :: g' ∧ isSpace c = true ∧ Blank g' := by
  obtain rfl | rfl | ⟨d, hd, hdelim⟩ := h
  · exact absurd rfl ht.1
  · exact absurd rfl ht.2
  · cases g with
    | nil =>
      cases hd
      exact absurd hdelim (by decide)
    | cons c g =>
      exact ⟨c, g, rfl, hg c List.mem_cons_self, fun e he => hg e (List.mem_cons_of_mem _ he)⟩

/-- The text of an import line up to its last parenthesis: `x` is what follows the quote that opens
the imported name. -/
structure ImportText (line m x : Text) where
  (g g₀ g₁ g₂ g' : Text)
  (c d : Char)
  text : line = g ++ '(' :: ((g₀ ++ (importStr ++ c :: (g₁ ++ (quoted m ++ d :: (g₂ ++ '"' :: x))))) ++
    ')' :: g')
  blank : Blank g ∧ Blank g₀ ∧ Blank g₁ ∧ Blank g₂ ∧ Blank g'
  space : isSpace c = true ∧ isSpace d = true

theorem exists_snoc {v y : Text} {g : Text} {b : Char} (hy : y ≠ [])
    (h : v ++ [b] = g ++ y) : ∃ x, y = x ++ [b] ∧ v = g ++ x := by
  obtain rfl | ⟨x, z, rfl⟩ := List.eq_nil_or_concat y
  · exact absurd rfl hy
  · rw [List.concat_eq_append, ← List.append_assoc] at h
    obtain ⟨hv, hz⟩ := List.append_inj' h rfl
    refine ⟨x, ?_, hv⟩
    rw [List.concat_eq_append, ← hz]

theorem text_of_import {line m n : Text} {rest : List Token}
    (h : Lexes line (.lpar :: .atom importStr :: .str m :: .str n :: (rest ++ [.rpar]))) :
    ∃ x, Nonempty (ImportText line m x) ∧
      run .gap ('"' :: x ++ [')']) = some (.gap, .str n :: (rest ++ [.rpar])) := by
  obtain ⟨g, s₀, hline, hg, -, -, h₀⟩ := run_gap_split h
  obtain ⟨g₀, s₁, rfl, hg₀, -, hf₁, h₁⟩ := run_gap_split h₀
  obtain ⟨g₁, s₂, rfl, hg₁, -, hf₂, h₂⟩ := run_gap_split h₁
  rw [← List.cons_append] at h₂
  obtain ⟨v, g', rfl, hg', hv⟩ := run_ends_rpar h₂
  obtain ⟨g₂, s₃, hsplit, hg₂, -, -, -⟩ := run_gap_split hv
  simp only [Token.spelling, List.append_assoc, List.cons_append] at hsplit hf₁ hf₂ hline
  obtain ⟨y, hy, rfl⟩ := exists_snoc (by simp) hsplit
  obtain ⟨x, rfl⟩ : ∃ x, y = '"' :: x := by
    cases y with
    | nil => simp at hy
    | cons e x => exact ⟨x, by rw [(List.cons.inj hy).1]⟩
  simp only [List.append_assoc, List.cons_append] at hf₂ hline hv
  obtain ⟨c, g₁, rfl, hc, hg₁⟩ := blank_before_string (by simp) hf₁ (blank_of_blanks hg₁)
  obtain ⟨d, g₂, rfl, hd, hg₂'⟩ := blank_before_string (by simp) hf₂ (blank_of_blanks hg₂)
  have hend : line ++ ['\n'] = (g ++ '(' :: (g₀ ++ (importStr ++ c :: (g₁ ++ (quoted m ++
      d :: (g₂ ++ '"' :: x)))))) ++ ')' :: g' := by
    rw [hline, quoted, show quote = ['"'] from rfl]
    simp
  obtain ⟨z, hz, hz'⟩ := exists_snoc (by simp) hend
  cases z with
  | nil => exact absurd (List.cons.inj hz).1 (by decide)
  | cons e g'' =>
    obtain ⟨rfl, rfl⟩ := List.cons.inj hz
    refine ⟨x, ⟨⟨g, g₀, g₁, g₂, g'', c, d, ?_, ⟨blank_of_blanks hg, blank_of_blanks hg₀, hg₁,
      hg₂', fun e he => ?_⟩, hc, hd⟩⟩, ?_⟩
    · rw [hz']
      simp
    · exact blank_of_blanks hg' e (List.mem_append_left _ he)
    · rw [← run_blanks hg₂]
      exact hv

theorem stripped_enclosed {g g' : Text} (hg : Blank g) (hg' : Blank g') (inner : Text) :
    stripped (g ++ '(' :: (inner ++ ')' :: g')) = inner := by
  have hfront : trimPrefix ('(' :: (inner ++ [')'])) parOpen = inner ++ [')'] :=
    if_pos (List.prefix_append _ _)
  have hback : trimSuffix (inner ++ [')']) parClose = inner := by
    simp [trimSuffix, parClose]
  rw [stripped, trimSpace_enclosed hg hg' (by decide) (by decide), hfront, hback]

theorem fields_of_import {line m x : Text} (t : ImportText line m x) (hm : Solid (quoted m)) :
    fields (stripped line) = importStr :: quoted m :: fields ('"' :: x) := by
  obtain ⟨hg, hg₀, hg₁, hg₂, hg'⟩ := t.blank
  have himport : Solid importStr := by decide
  rw [t.text, stripped_enclosed hg hg', fields_blank hg₀, fields_word himport (by decide) t.space.1,
    fields_blank hg₁, fields_word hm (by simp [quoted, quote]) t.space.2, fields_blank hg₂]

def importHead : Text := parOpen ++ (importStr ++ ' ' :: (quoted importModuleName ++ [' ']))

theorem run_importHead : run .gap importHead =
    some (.gap, [.lpar, .atom importStr, .str importModuleName]) := by
  decide

theorem updated_eq {w : Text} {words : List Text} {s : Text} (h : join (w :: words) [' '] = s) :
    parOpen ++ join (importStr :: quoted importModuleName :: w :: words) [' '] ++ parClose =
      importHead ++ (s ++ parClose) := by
  rw [← h, join, List.intercalate_cons_cons, List.intercalate_cons_cons, importHead, join]
  simp

theorem rewrite_of_import {line n : Text} {rest : List Token}
    (h : Lexes line (.lpar :: .atom importStr :: .str fullImportModuleName :: .str n ::
      (rest ++ [.rpar]))) : ∃ r, importWasip1Compat line = some r ∧
        Lexes r.2 (.lpar :: .atom importStr :: .str importModuleName ::
          (.str n :: (rest ++ [.rpar])).map squeezeToken) := by
  obtain ⟨x, ⟨t⟩, hx⟩ := text_of_import h
  have hfull : Solid (quoted fullImportModuleName) := by decide
  have hfields := fields_of_import t hfull
  have hjoin := join_fields_cons (show isSpace '"' = false by decide) x
  cases hwords : fields ('"' :: x) with
  | nil =>
    rw [hwords] at hjoin
    simp [join] at hjoin
  | cons w words =>
    rw [hwords] at hfields hjoin
    refine ⟨_, importWasip1Compat_of_fields hfields, ?_⟩
    have hcollapse : collapse false ('"' :: x) = '"' :: collapse false x := by
      rw [collapse, if_neg (by decide)]
      rfl
    have hrest := (run_collapse ('"' :: x)).1 .gap _ trivial hx
    rw [hcollapse] at hrest
    rw [Lexes, updated_eq hjoin, List.append_assoc]
    refine run_append_iff.mpr ⟨_, _, _, run_importHead, ?_, rfl⟩
    exact run_append_iff.mpr ⟨_, _, _, hrest, rfl, by simp⟩

theorem join_head (v w : Text) (words : List Text) :
    join (v :: w :: words) [' '] = v ++ ' ' :: join (w :: words) [' '] := by
  rw [join, List.intercalate_cons_cons, List.append_assoc]
  rfl

theorem updated_spec {line : Text} {r : Text × Text} (h : importWasip1Compat line = some r) :
    ∃ words, (∀ w ∈ r.1 :: words, Solid w ∧ w ≠ []) ∧
      r.2 = importHead ++ (join (r.1 :: words) [' '] ++ parClose) ∧
        byteLength (join (r.1 :: words) [' ']) + 32 ≤ byteLength line := by
  obtain ⟨words, hfields, hupdated⟩ := importWasip1Compat_spec h
  obtain ⟨g, a, b, g', hline, -⟩ := stripped_spec line
  refine ⟨words, ?_, ?_, ?_⟩
  · intro w hw
    apply fields_spec (stripped line)
    rw [hfields]
    exact List.mem_cons_of_mem _ (List.mem_cons_of_mem _ hw)
  · rw [hupdated, updated_eq rfl]
  · have hjoin := byteLength_join_fields (stripped line)
    have himport : byteLength importStr = 6 := by decide
    have hfull : byteLength (quoted fullImportModuleName) = 24 := by decide
    have hspace : ' '.utf8Size = 1 := by decide
    have hbytes := congrArg byteLength hline
    rw [hfields, join_head, join_head] at hjoin
    simp only [byteLength_append, byteLength_cons, himport, hfull, hspace] at hjoin hbytes
    omega

theorem byteLength_outputLine (line : Text) : byteLength (outputLine line) ≤ byteLength line := by
  unfold outputLine
  cases h : importWasip1Compat line with
  | none => exact le_rfl
  | some r =>
    obtain ⟨words, -, hupdated, hbytes⟩ := updated_spec h
    have hhead : byteLength importHead = 21 := by decide
    have hclose : byteLength parClose = 1 := by decide
    change byteLength r.2 ≤ _
    rw [hupdated, byteLength_append, byteLength_append, hhead, hclose]
    omega

theorem notMem_outputLine {line : Text} {c : Char} (hspace : isSpace c = true) (hc : c ≠ ' ')
    (h : c ∉ line) : c ∉ outputLine line := by
  unfold outputLine
  cases hrewrite : importWasip1Compat line with
  | none => exact h
  | some r =>
    obtain ⟨words, hwords, hupdated, -⟩ := updated_spec hrewrite
    have hhead : importHead.all (fun d => d = ' ' || !isSpace d) = true := by decide
    change c ∉ r.2
    rw [hupdated, List.mem_append, List.mem_append, not_or, not_or]
    refine ⟨fun hmem => ?_, fun hmem => ?_, fun hmem => ?_⟩
    · have hword := List.all_eq_true.mp hhead c hmem
      simp [hc, hspace] at hword
    · rcases mem_join hmem with hblank | ⟨w, hw, hmem⟩
      · exact hc hblank
      · exact ne_of_isSpace hspace ((hwords w hw).1 c hmem) rfl
    · rw [List.mem_singleton.mp hmem] at hspace
      exact absurd hspace (by decide)

theorem newline_notMem_outputLine {line : Text} (h : '\n' ∉ line) : '\n' ∉ outputLine line := by
  apply notMem_outputLine
  · decide
  · decide
  · exact h

theorem importWasip1Compat_dropCR (line : Text) :
    importWasip1Compat (dropCR line) = importWasip1Compat line := by
  unfold importWasip1Compat
  rw [trimSpace_dropCR]

theorem outputLine_settled (line : Text) : importWasip1Compat (outputLine line) = none := by
  unfold outputLine
  cases h : importWasip1Compat line with
  | none => exact h
  | some r =>
    obtain ⟨words, hwords, hupdated, -⟩ := updated_spec h
    have hinner : r.2 = [] ++ '(' :: ((importStr ++ ' ' :: (quoted importModuleName ++
        ' ' :: join (r.1 :: words) [' '])) ++ ')' :: []) := by
      rw [hupdated, importHead]
      simp [parOpen, parClose]
    have hnil : Blank [] := by simp [Blank]
    have hfields : fields (stripped r.2) =
        importStr :: quoted importModuleName :: r.1 :: words := by
      rw [hinner, stripped_enclosed hnil hnil, fields_word (by decide) (by decide) (by decide),
        fields_word (by decide) (by decide) (by decide), fields_join hwords]
    change importWasip1Compat r.2 = none
    rw [Option.eq_none_iff_forall_ne_some]
    intro r' hr'
    obtain ⟨tokens, hfields', -⟩ := importWasip1Compat_spec hr'
    rw [hfields, List.cons.injEq, List.cons.injEq] at hfields'
    exact absurd hfields'.2.1 (by decide)

end Wasrisc.ImportRewrite
