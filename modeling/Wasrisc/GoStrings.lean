import Mathlib

namespace Wasrisc.GoStrings

abbrev Text := List Char

def isSpace (c : Char) : Bool :=
  c ∈ ['\t', '\n', '\x0b', '\x0c', '\r', ' ', '\u0085', '\u00a0', '\u1680', '\u2028', '\u2029',
    '\u202f', '\u205f', '\u3000'] || ('\u2000' ≤ c && c ≤ '\u200a')

def trimSpace (s : Text) : Text := (s.dropWhile isSpace).rdropWhile isSpace

def trimPrefix (s front : Text) : Text := if front <+: s then s.drop front.length else s

def trimSuffix (s back : Text) : Text :=
  if back <:+ s then s.take (s.length - back.length) else s

def fieldsFrom : Text → Text → List Text
  | word, [] => if word = [] then [] else [word]
  | word, c :: s =>
    if isSpace c then (if word = [] then fieldsFrom [] s else word :: fieldsFrom [] s)
    else fieldsFrom (word ++ [c]) s

def fields (s : Text) : List Text := fieldsFrom [] s

def join (words : List Text) (sep : Text) : Text := sep.intercalate words

def byteLength (s : Text) : ℕ := (s.map Char.utf8Size).sum

def rawLinesFrom : Text → Text → List Text
  | line, [] => if line = [] then [] else [line]
  | line, c :: s => if c = '\n' then line :: rawLinesFrom [] s else rawLinesFrom (line ++ [c]) s

def rawLines (s : Text) : List Text := rawLinesFrom [] s

def dropCR (line : Text) : Text := if line.getLast? = some '\r' then line.dropLast else line

/-- A line is found once it and its newline, or the end of the input, are in the buffer. -/
def fits (bufferSize : ℕ) (line : Text) : Bool := byteLength line < bufferSize

def scanLines (bufferSize : ℕ) (s : Text) : List Text :=
  ((rawLines s).takeWhile (fits bufferSize)).map dropCR

def tokenTooLong (bufferSize : ℕ) (s : Text) : Bool := !(rawLines s).all (fits bufferSize)

/-- The text with each run of white space after a character replaced by one space, less the
spaces at its end; `pending` says that a run has begun. -/
def collapse : Bool → Text → Text
  | _, [] => []
  | pending, c :: s =>
    if isSpace c then collapse true s
    else (if pending then [' ', c] else [c]) ++ collapse false s

def push (s : Text) (c : Char) : Text :=
  if isSpace c then (if s.getLast? = some ' ' then s else s ++ [' ']) else s ++ [c]

def squeeze (s : Text) : Text := s.foldl push []

def SingleSpaced (s : Text) : Prop :=
  (∀ c ∈ s, isSpace c → c = ' ') ∧ s.IsChain fun c d => ¬(isSpace c ∧ isSpace d)

def Solid (s : Text) : Prop := ∀ c ∈ s, isSpace c = false

instance (s : Text) : Decidable (Solid s) :=
  decidable_of_iff (s.all fun c => !isSpace c) (by simp [Solid])

def Blank (s : Text) : Prop := ∀ c ∈ s, isSpace c = true

theorem fieldsFrom_solid {w : Text} (hw : Solid w) (word s : Text) :
    fieldsFrom word (w ++ s) = fieldsFrom (word ++ w) s := by
  induction w generalizing word with
  | nil => simp
  | cons c w ih =>
    have hc : isSpace c = false := hw c List.mem_cons_self
    rw [List.cons_append, fieldsFrom, hc, if_neg Bool.false_ne_true,
      ih fun d hd => hw d (List.mem_cons_of_mem _ hd), List.append_assoc]
    rfl

theorem fields_blank {g : Text} (hg : Blank g) (s : Text) : fields (g ++ s) = fields s := by
  induction g with
  | nil => rfl
  | cons c g ih =>
    have hc : isSpace c = true := hg c List.mem_cons_self
    rw [List.cons_append, fields, fieldsFrom, if_pos hc, if_pos rfl]
    exact ih fun d hd => hg d (List.mem_cons_of_mem _ hd)

theorem fields_word {w : Text} (hw : Solid w) (hne : w ≠ []) {c : Char} (hc : isSpace c)
    (s : Text) : fields (w ++ c :: s) = w :: fields s := by
  rw [fields, fieldsFrom_solid hw, List.nil_append, fieldsFrom, if_pos hc, if_neg hne]
  rfl

theorem fields_solid {w : Text} (hw : Solid w) (hne : w ≠ []) : fields w = [w] := by
  have h := fieldsFrom_solid hw [] []
  rw [List.append_nil, List.nil_append, fieldsFrom, if_neg hne] at h
  exact h

theorem fieldsFrom_spec (word s : Text) (hword : Solid word) :
    ∀ w ∈ fieldsFrom word s, Solid w ∧ w ≠ [] := by
  induction s generalizing word with
  | nil =>
    unfold fieldsFrom
    by_cases hne : word = []
    · simp [hne]
    · simp [hne, hword]
  | cons c s ih =>
    have hnil : Solid [] := by simp [Solid]
    unfold fieldsFrom
    by_cases hc : isSpace c = true
    · rw [if_pos hc]
      by_cases hne : word = []
      · rw [if_pos hne]
        exact ih [] hnil
      · rw [if_neg hne]
        intro w hw
        rcases List.mem_cons.mp hw with rfl | hw
        · exact ⟨hword, hne⟩
        · exact ih [] hnil w hw
    · rw [if_neg hc]
      apply ih
      intro d hd
      rcases List.mem_append.mp hd with hd | hd
      · exact hword d hd
      · rw [List.mem_singleton.mp hd]
        exact Bool.eq_false_of_not_eq_true hc

theorem fields_spec (s : Text) : ∀ w ∈ fields s, Solid w ∧ w ≠ [] :=
  fieldsFrom_spec [] s (by simp [Solid])

theorem fields_join {words : List Text} (h : ∀ w ∈ words, Solid w ∧ w ≠ []) :
    fields (join words [' ']) = words := by
  induction words with
  | nil => rfl
  | cons w words ih =>
    obtain ⟨hw, hne⟩ := h w List.mem_cons_self
    cases words with
    | nil => simpa [join] using fields_solid hw hne
    | cons v words =>
      have htail := ih fun u hu => h u (List.mem_cons_of_mem _ hu)
      rw [join, List.intercalate_cons_cons, List.append_assoc, List.singleton_append,
        fields_word hw hne (by decide)]
      exact congrArg (w :: ·) htail

def OpensBlank (s : Text) : Prop := ∀ c ∈ s.head?, isSpace c

theorem fieldsFrom_cons {word s w : Text} {ws : List Text} (hne : word ≠ [])
    (h : fieldsFrom word s = w :: ws) :
    ∃ v s', s = v ++ s' ∧ w = word ++ v ∧ OpensBlank s' ∧ fields s' = ws := by
  induction s generalizing word with
  | nil =>
    rw [fieldsFrom, if_neg hne, List.cons.injEq] at h
    exact ⟨[], [], rfl, by simp [h.1], by simp [OpensBlank], h.2⟩
  | cons c s ih =>
    rw [fieldsFrom] at h
    by_cases hc : isSpace c = true
    · rw [if_pos hc, if_neg hne, List.cons.injEq] at h
      refine ⟨[], c :: s, rfl, by simp [h.1], by simpa [OpensBlank] using hc, ?_⟩
      rw [← h.2, fields, fieldsFrom, if_pos hc, if_pos rfl]
    · rw [if_neg hc] at h
      obtain ⟨v, s', hs, hw, hopens, hws⟩ := ih (by simp) h
      exact ⟨c :: v, s', by rw [hs, List.cons_append], by simp [hw], hopens, hws⟩

theorem fields_cons {s w : Text} {ws : List Text} (h : fields s = w :: ws) :
    ∃ g s', s = g ++ w ++ s' ∧ Blank g ∧ OpensBlank s' ∧ fields s' = ws := by
  induction s with
  | nil => simp [fields, fieldsFrom] at h
  | cons c s ih =>
    by_cases hc : isSpace c = true
    · rw [← List.singleton_append, fields_blank (by simpa [Blank] using hc)] at h
      obtain ⟨g, s', hs, hg, hrest⟩ := ih h
      refine ⟨c :: g, s', by rw [hs]; rfl, ?_, hrest⟩
      simpa [Blank, hc] using hg
    · rw [fields, fieldsFrom, if_neg hc] at h
      obtain ⟨v, s', hs, hw, hrest⟩ := fieldsFrom_cons (by simp) h
      exact ⟨[], s', by rw [hs, hw]; rfl, by simp [Blank], hrest⟩

theorem join_fieldsFrom (s : Text) :
    (∀ word ≠ [], join (fieldsFrom word s) [' '] = word ++ collapse false s) ∧
      collapse true s = if fields s = [] then [] else ' ' :: join (fields s) [' '] := by
  induction s with
  | nil =>
    refine ⟨fun word hne => ?_, rfl⟩
    rw [fieldsFrom, if_neg hne]
    simp [join, collapse]
  | cons c s ih =>
    obtain ⟨hword, hgap⟩ := ih
    by_cases hc : isSpace c = true
    · constructor
      · intro word hne
        rw [fieldsFrom, if_pos hc, if_neg hne, collapse, if_pos hc, hgap]
        change join (word :: fields s) [' '] = _
        cases fields s with
        | nil => simp [join]
        | cons v words => simp [join, List.intercalate_cons_cons]
      · rw [collapse, if_pos hc, fields, fieldsFrom, if_pos hc, if_pos rfl]
        exact hgap
    · have hcons : fields (c :: s) = fieldsFrom [c] s := by
        rw [fields, fieldsFrom, if_neg hc, List.nil_append]
      have hjoin := hword [c] (by simp)
      constructor
      · intro word hne
        rw [fieldsFrom, if_neg hc, hword _ (by simp), collapse, if_neg hc, List.append_assoc]
        rfl
      · have hnonempty : fieldsFrom [c] s ≠ [] := by
          intro hnil
          rw [hnil] at hjoin
          simp [join] at hjoin
        rw [hcons, hjoin, collapse, if_neg hc, if_neg hnonempty]
        rfl

theorem join_fields_cons {c : Char} (hc : isSpace c = false) (s : Text) :
    join (fields (c :: s)) [' '] = c :: collapse false s := by
  rw [fields, fieldsFrom, hc, if_neg Bool.false_ne_true]
  exact (join_fieldsFrom s).1 [c] (by simp)

theorem byteLength_append (s t : Text) : byteLength (s ++ t) = byteLength s + byteLength t := by
  simp [byteLength]

theorem byteLength_cons (c : Char) (s : Text) :
    byteLength (c :: s) = c.utf8Size + byteLength s := by
  simp [byteLength]

theorem byteLength_collapse (pending : Bool) (s : Text) :
    byteLength (collapse pending s) ≤ pending.toNat + byteLength s := by
  induction s generalizing pending with
  | nil => simp [collapse, byteLength]
  | cons c s ih =>
    have hpos := c.utf8Size_pos
    rw [collapse, byteLength_cons]
    by_cases hc : isSpace c = true
    · have hrun := ih true
      rw [if_pos hc]
      simp only [Bool.toNat_true] at hrun
      omega
    · have hrun := ih false
      have hspace : ' '.utf8Size = 1 := by decide
      rw [if_neg hc, byteLength_append]
      simp only [Bool.toNat_false] at hrun
      cases pending with
      | false => simp [byteLength] at *; omega
      | true => simp [byteLength, hspace] at *; omega

theorem byteLength_join_fields (s : Text) : byteLength (join (fields s) [' ']) ≤ byteLength s := by
  have hgap := (join_fieldsFrom s).2
  have hrun := byteLength_collapse true s
  have hspace : ' '.utf8Size = 1 := by decide
  rw [hgap, Bool.toNat_true] at hrun
  by_cases hnil : fields s = []
  · simp [hnil, join, byteLength]
  · rw [if_neg hnil, byteLength_cons, hspace] at hrun
    omega

theorem mem_join {words : List Text} {c : Char} (h : c ∈ join words [' ']) :
    c = ' ' ∨ ∃ w ∈ words, c ∈ w := by
  induction words with
  | nil => simp [join] at h
  | cons w words ih =>
    cases words with
    | nil => exact .inr ⟨w, by simp, by simpa [join] using h⟩
    | cons v words =>
      rw [join, List.intercalate_cons_cons, List.append_assoc] at h
      rcases List.mem_append.mp h with h | h
      · exact .inr ⟨w, List.mem_cons_self, h⟩
      · rcases List.mem_cons.mp h with rfl | h
        · exact .inl rfl
        · exact (ih h).imp_right fun ⟨u, hu, hc⟩ => ⟨u, List.mem_cons_of_mem _ hu, hc⟩

@[simp] theorem squeeze_nil : squeeze [] = [] := rfl

theorem squeeze_snoc (s : Text) (c : Char) : squeeze (s ++ [c]) = push (squeeze s) c := by
  rw [squeeze, List.foldl_append]
  rfl

theorem length_squeeze (s : Text) : (squeeze s).length ≤ s.length := by
  induction s using List.reverseRecOn with
  | nil => simp
  | append_singleton s c ih =>
    rw [squeeze_snoc, push]
    split_ifs
    all_goals simp
    all_goals omega

theorem singleSpaced_snoc (s : Text) (c : Char) : SingleSpaced (s ++ [c]) ↔
    SingleSpaced s ∧ (isSpace c → c = ' ' ∧ s.getLast? ≠ some ' ') := by
  unfold SingleSpaced
  rw [List.isChain_append]
  constructor
  · rintro ⟨honly, hchain, -, hlast⟩
    refine ⟨⟨fun d hd => honly d (by simp [hd]), hchain⟩, fun hc => ⟨honly c (by simp) hc, ?_⟩⟩
    intro hspace
    exact hlast ' ' hspace c rfl ⟨by decide, hc⟩
  · rintro ⟨⟨honly, hchain⟩, hsnoc⟩
    refine ⟨?_, hchain, by simp, ?_⟩
    · intro d hd hspace
      rcases List.mem_append.mp hd with hd | hd
      · exact honly d hd hspace
      · rw [List.mem_singleton.mp hd] at hspace ⊢
        exact (hsnoc hspace).1
    · rintro d hd e he ⟨hdspace, hespace⟩
      cases he
      have hd' := honly d (List.mem_of_getLast? hd) hdspace
      rw [hd'] at hd
      exact (hsnoc hespace).2 hd

theorem squeeze_eq_self_iff (s : Text) : squeeze s = s ↔ SingleSpaced s := by
  induction s using List.reverseRecOn with
  | nil => simp [SingleSpaced]
  | append_singleton s c ih =>
    rw [squeeze_snoc, singleSpaced_snoc, ← ih, push]
    by_cases hc : isSpace c = true
    · by_cases hlast : (squeeze s).getLast? = some ' '
      · rw [if_pos hc, if_pos hlast]
        constructor
        · intro h
          have hlength := length_squeeze s
          rw [h] at hlength
          simp at hlength
        · intro h
          rw [h.1] at hlast
          exact absurd hlast (h.2 hc).2
      · rw [if_pos hc, if_neg hlast]
        constructor
        · intro h
          obtain ⟨hs, hspace⟩ := List.append_inj' h rfl
          refine ⟨hs, fun _ => ⟨(List.singleton_inj.mp hspace).symm, ?_⟩⟩
          rwa [hs] at hlast
        · intro h
          rw [h.1, (h.2 hc).1]
    · rw [if_neg hc]
      simp [hc]

instance (s : Text) : Decidable (SingleSpaced s) := decidable_of_iff _ (squeeze_eq_self_iff s)

theorem dropWhile_blank {g : Text} (hg : Blank g) (s : Text) :
    (g ++ s).dropWhile isSpace = s.dropWhile isSpace := by
  rw [List.dropWhile_append, List.dropWhile_eq_nil_iff.mpr hg]
  rfl

theorem rdropWhile_blank {g : Text} (hg : Blank g) (s : Text) :
    (s ++ g).rdropWhile isSpace = s.rdropWhile isSpace := by
  rw [List.rdropWhile, List.reverse_append, dropWhile_blank fun c hc => hg c (List.mem_reverse.mp hc)]
  rfl

theorem trimSpace_enclosed {g g' : Text} (hg : Blank g) (hg' : Blank g') {c d : Char}
    (hc : isSpace c = false) (hd : isSpace d = false) (m : Text) :
    trimSpace (g ++ c :: (m ++ d :: g')) = c :: (m ++ [d]) := by
  rw [trimSpace, dropWhile_blank hg, List.dropWhile_cons_of_neg (by simp [hc]),
    show c :: (m ++ d :: g') = c :: (m ++ [d]) ++ g' by simp, rdropWhile_blank hg',
    ← List.cons_append, List.rdropWhile_concat_neg _ _ _ (by simp [hd])]

theorem trimSpace_spec (s : Text) :
    ∃ g g', s = g ++ trimSpace s ++ g' ∧ Blank g ∧ Blank g' := by
  refine ⟨s.takeWhile isSpace, (s.dropWhile isSpace).rtakeWhile isSpace, ?_, ?_, ?_⟩
  · rw [List.append_assoc, trimSpace, List.rdropWhile_append_rtakeWhile,
      List.takeWhile_append_dropWhile]
  · exact fun c hc => List.mem_takeWhile_imp hc
  · exact fun c hc => List.mem_rtakeWhile_imp hc

theorem trimPrefix_spec (s front : Text) : s = trimPrefix s front ∨ s = front ++ trimPrefix s front := by
  unfold trimPrefix
  split_ifs with h
  · right
    rw [← List.prefix_append_drop h]
  · exact .inl rfl

theorem trimSuffix_spec (s back : Text) : s = trimSuffix s back ∨ s = trimSuffix s back ++ back := by
  unfold trimSuffix
  split_ifs with h
  · right
    obtain ⟨t, rfl⟩ := h
    simp
  · exact .inl rfl

theorem dropCR_spec (line : Text) : dropCR line = line ∨ line = dropCR line ++ ['\r'] := by
  unfold dropCR
  split_ifs with h
  · right
    rw [List.dropLast_append_getLast? _ h]
  · exact .inl rfl

theorem dropCR_part (line : Text) :
    dropCR line ⊆ line ∧ byteLength (dropCR line) ≤ byteLength line := by
  rcases dropCR_spec line with h | h
  · rw [h]
    exact ⟨List.Subset.refl _, le_rfl⟩
  · constructor
    · intro c hc
      rw [h]
      exact List.mem_append_left _ hc
    · have hbytes := congrArg byteLength h
      rw [byteLength_append] at hbytes
      omega

theorem trimSpace_blank {g : Text} (hg : Blank g) (s : Text) : trimSpace (s ++ g) = trimSpace s := by
  rw [trimSpace, trimSpace, List.dropWhile_append]
  by_cases hs : (s.dropWhile isSpace).isEmpty = true
  · rw [if_pos hs, List.dropWhile_eq_nil_iff.mpr hg, List.isEmpty_iff.mp hs]
  · rw [if_neg hs, rdropWhile_blank hg]

theorem trimSpace_dropCR (line : Text) : trimSpace (dropCR line) = trimSpace line := by
  rcases dropCR_spec line with h | h
  · rw [h]
  · have hblank : Blank ['\r'] := by simp [Blank, isSpace]
    rw [← trimSpace_blank hblank (dropCR line), ← h]

theorem rawLinesFrom_append {l : Text} (hl : '\n' ∉ l) (line s : Text) :
    rawLinesFrom line (l ++ s) = rawLinesFrom (line ++ l) s := by
  induction l generalizing line with
  | nil => simp
  | cons c l ih =>
    rw [List.mem_cons, not_or] at hl
    rw [List.cons_append, rawLinesFrom, if_neg (Ne.symm hl.1), ih hl.2, List.append_assoc]
    rfl

theorem rawLines_written {lines : List Text} (h : ∀ l ∈ lines, '\n' ∉ l) :
    rawLines (lines.flatMap (· ++ ['\n'])) = lines := by
  induction lines with
  | nil => rfl
  | cons l lines ih =>
    rw [List.flatMap_cons, List.append_assoc, rawLines, rawLinesFrom_append (h l List.mem_cons_self),
      List.singleton_append, rawLinesFrom, if_pos rfl, List.nil_append]
    exact congrArg (l :: ·) (ih fun l' hl' => h l' (List.mem_cons_of_mem _ hl'))

theorem mem_rawLinesFrom {line s l : Text} (hline : '\n' ∉ line) (h : l ∈ rawLinesFrom line s) :
    '\n' ∉ l ∧ l ⊆ line ++ s := by
  induction s generalizing line with
  | nil =>
    rw [rawLinesFrom] at h
    split_ifs at h with hnil
    · cases h
    · rw [List.mem_singleton.mp h]
      exact ⟨hline, by simp⟩
  | cons c s ih =>
    rw [rawLinesFrom] at h
    split_ifs at h with hc
    · rcases List.mem_cons.mp h with rfl | h
      · exact ⟨hline, by simp⟩
      · obtain ⟨hnew, hsub⟩ := ih (by simp) h
        have hd : l ⊆ s := by simpa using hsub
        exact ⟨hnew, fun d hmem => by simp [hd hmem]⟩
    · obtain ⟨hnew, hsub⟩ := ih (by simp [hline, Ne.symm hc]) h
      exact ⟨hnew, by simpa using hsub⟩

theorem scanLines_eq {bufferSize : ℕ} {s : Text}
    (h : ∀ line ∈ rawLines s, fits bufferSize line = true) :
    scanLines bufferSize s = (rawLines s).map dropCR := by
  rw [scanLines, List.takeWhile_eq_self_iff.mpr h]

theorem newline_notMem_dropCR {s line : Text} (h : line ∈ (rawLines s).map dropCR) :
    '\n' ∉ line := by
  obtain ⟨l, hl, rfl⟩ := List.mem_map.mp h
  exact fun hmem => (mem_rawLinesFrom (by simp) hl).1 ((dropCR_part l).1 hmem)

end Wasrisc.GoStrings
