import Mathlib

namespace Wasrisc.CDeclarations

abbrev Text := List Char

inductive Specifier where
  | const
  | char
  | int
  deriving DecidableEq

inductive Punctuator where
  | lbracket
  | rbracket
  | lbrace
  | rbrace
  | comma
  | semicolon
  | equals
  deriving DecidableEq

inductive Token where
  | specifier (s : Specifier)
  | identifier (name : Text)
  | constant (n : ℕ)
  | punctuator (p : Punctuator)
  deriving DecidableEq

def keywords : List Text :=
  ["auto", "break", "case", "char", "const", "continue", "default", "do", "double", "else", "enum",
    "extern", "float", "for", "goto", "if", "inline", "int", "long", "register", "restrict",
    "return", "short", "signed", "sizeof", "static", "struct", "switch", "typedef", "union",
    "unsigned", "void", "volatile", "while", "_Alignas", "_Alignof", "_Atomic", "_Bool",
    "_Complex", "_Generic", "_Imaginary", "_Noreturn", "_Static_assert", "_Thread_local"].map
    String.toList

def specifier (w : Text) : Option Specifier :=
  if w = "const".toList then some .const
  else if w = "char".toList then some .char
  else if w = "int".toList then some .int
  else none

def punctuator : Char → Option Punctuator
  | '[' => some .lbracket
  | ']' => some .rbracket
  | '\x7b' => some .lbrace
  | '\x7d' => some .rbrace
  | ',' => some .comma
  | ';' => some .semicolon
  | '=' => some .equals
  | _ => none

def isBlank (c : Char) : Bool := c ∈ [' ', '\t', '\n', '\x0b', '\x0c']

def isWordChar (c : Char) : Bool := c.isAlphanum || c = '_'

def digitValue (c : Char) : Option ℕ :=
  if c.isDigit then some (c.toNat - '0'.toNat)
  else if 'a' ≤ c ∧ c ≤ 'f' then some (c.toNat - 'a'.toNat + 10)
  else if 'A' ≤ c ∧ c ≤ 'F' then some (c.toNat - 'A'.toNat + 10)
  else none

def numberFrom (base : ℕ) : ℕ → Text → Option ℕ
  | n, [] => some n
  | n, c :: s =>
    match digitValue c with
    | some d => if d < base then numberFrom base (n * base + d) s else none
    | none => none

def number (base : ℕ) (s : Text) : Option ℕ := if s = [] then none else numberFrom base 0 s

/-- A constant without a suffix, of a value that some integer type holds. -/
def integerConstant (w : Text) : Option ℕ :=
  let n :=
    match w with
    | '0' :: 'x' :: s => number 16 s
    | '0' :: 'X' :: s => number 16 s
    | '0' :: s => number 8 ('0' :: s)
    | s => number 10 s
  n.filter (· < 2 ^ 63)

def IsIdentifier (w : Text) : Prop :=
  w ≠ [] ∧ w.all isWordChar ∧ ¬ w.head?.any Char.isDigit ∧ w ∉ keywords

instance (w : Text) : Decidable (IsIdentifier w) := inferInstanceAs (Decidable (_ ∧ _))

def wordToken (w : Text) : Option Token :=
  if w.head?.any Char.isDigit then (integerConstant w).map .constant
  else if w ∈ keywords then (specifier w).map .specifier
  else some (.identifier w)

def wordTokens (w : Text) : Option (List Token) :=
  if w = [] then some [] else (wordToken w).map ([·])

def separator (c : Char) : Option (List Token) :=
  if isBlank c then some [] else (punctuator c).map ([.punctuator ·])

def lexFrom : Text → Text → Option (List Token)
  | word, [] => wordTokens word
  | word, c :: s =>
    if isWordChar c then lexFrom (word ++ [c]) s
    -- the equality operator is a token of its own
    else if c = '=' ∧ s.head? = some '=' then none
    else
      match wordTokens word, separator c, lexFrom [] s with
      | some before, some here, some rest => some (before ++ here ++ rest)
      | _, _, _ => none

def lex (s : Text) : Option (List Token) := lexFrom [] s

inductive Base where
  | char
  | int
  deriving DecidableEq

@[reducible] def Base.width : Base → ℕ
  | .char => 8
  | .int => 32

inductive Object where
  | scalar (base : Base) (value : BitVec base.width)
  | array (base : Base) (elements : List (BitVec base.width))
  deriving DecidableEq

structure Definition where
  name : Text
  isConst : Bool
  object : Object
  deriving DecidableEq

def specifiers : List Token → List Specifier × List Token
  | .specifier s :: ts => (s :: (specifiers ts).1, (specifiers ts).2)
  | ts => ([], ts)

def baseOf (specs : List Specifier) : Option Base :=
  match specs.filter (· ≠ .const) with
  | [.char] => some .char
  | [.int] => some .int
  | _ => none

/-- The rest of an initializer list after its opening brace; a comma may follow the last one. -/
def initializers : List Token → Option (List ℕ)
  | [.constant n, .punctuator .rbrace] => some [n]
  | [.constant n, .punctuator .comma, .punctuator .rbrace] => some [n]
  | .constant n :: .punctuator .comma :: ts => (initializers ts).map (n :: ·)
  | _ => none

def object (base : Base) : List Token → Option Object
  | [.punctuator .equals, .constant n] => some (.scalar base (BitVec.ofNat base.width n))
  | .punctuator .lbracket :: .punctuator .rbracket :: .punctuator .equals ::
      .punctuator .lbrace :: ts =>
    (initializers ts).map fun values => .array base (values.map (BitVec.ofNat base.width))
  | _ => none

def definition (ts : List Token) : Option Definition :=
  match specifiers ts with
  | (specs, .identifier name :: rest) =>
    match baseOf specs with
    | some base => (object base rest).map fun o => ⟨name, .const ∈ specs, o⟩
    | none => none
  | _ => none

def definitionsFrom : List Token → List Token → Option (List Definition)
  | piece, [] => if piece = [] then some [] else none
  | piece, t :: ts =>
    if t = .punctuator .semicolon then
      match definition piece, definitionsFrom [] ts with
      | some d, some ds => some (d :: ds)
      | _, _ => none
    else definitionsFrom (piece ++ [t]) ts

def translationUnit (s : Text) : Option (List Definition) :=
  match lex s with
  | some ts => (definitionsFrom [] ts).filter fun ds => (ds.map Definition.name).Nodup
  | none => none

theorem digitValue_digitChar {d : ℕ} (h : d < 16) : digitValue d.digitChar = some d := by
  have hall : ∀ d < 16, digitValue (Nat.digitChar d) = some d := by decide
  exact hall d h

theorem numberFrom_append {base n m : ℕ} {s : Text} (t : Text) (h : numberFrom base n s = some m) :
    numberFrom base n (s ++ t) = numberFrom base m t := by
  induction s generalizing n with
  | nil =>
    obtain rfl := Option.some.inj h
    rfl
  | cons c s ih =>
    rw [numberFrom] at h
    rw [List.cons_append, numberFrom]
    cases hd : digitValue c with
    | none => simp [hd] at h
    | some d =>
      simp only [hd] at h ⊢
      split_ifs at h ⊢
      exact ih h

theorem numberFrom_digit {base n d : ℕ} (hd : d < base) (hbase : base ≤ 16) :
    numberFrom base n [d.digitChar] = some (n * base + d) := by
  simp [numberFrom, digitValue_digitChar (hd.trans_le hbase), hd]

theorem toDigits_induction {base : ℕ} (hone : 1 < base) {P : ℕ → Text → Prop}
    (digit : ∀ n < base, P n [n.digitChar])
    (append : ∀ n, base ≤ n → P (n / base) (Nat.toDigits base (n / base)) →
      P n (Nat.toDigits base (n / base) ++ [(n % base).digitChar])) (n : ℕ) :
    P n (Nat.toDigits base n) := by
  induction n using Nat.strong_induction_on with
  | _ n ih =>
    rcases Nat.lt_or_ge n base with hlt | hge
    · rw [Nat.toDigits_of_lt_base hlt]
      exact digit n hlt
    · rw [Nat.toDigits_of_base_le hone hge]
      exact append n hge (ih _ (Nat.div_lt_self (by omega) hone))

theorem numberFrom_toDigits {base : ℕ} (hone : 1 < base) (hbase : base ≤ 16) (n : ℕ) :
    numberFrom base 0 (Nat.toDigits base n) = some n := by
  apply toDigits_induction hone (P := fun n s => numberFrom base 0 s = some n)
  · intro n hlt
    rw [numberFrom_digit hlt hbase, Nat.zero_mul, Nat.zero_add]
  · intro n hge ih
    rw [numberFrom_append _ ih, numberFrom_digit (Nat.mod_lt n (by omega)) hbase,
      Nat.div_add_mod']

theorem number_toDigits {base : ℕ} (hone : 1 < base) (hbase : base ≤ 16) (n : ℕ) :
    number base (Nat.toDigits base n) = some n := by
  rw [number, if_neg Nat.toDigits_ne_nil, numberFrom_toDigits hone hbase]

theorem head_toDigits {base n : ℕ} (hone : 1 < base) (hn : 0 < n) :
    ∀ c ∈ (Nat.toDigits base n).head?, c ≠ '0' := by
  apply toDigits_induction hone (P := fun n s => 0 < n → ∀ c ∈ s.head?, c ≠ '0') _ _ n hn
  · rintro n - hn c hc rfl
    simp at hc
    omega
  · intro n hge ih _
    rw [List.head?_append_of_ne_nil _ Nat.toDigits_ne_nil]
    exact ih (Nat.div_pos hge (by omega))

theorem decimal_word (n : ℕ) : (Nat.toDigits 10 n).all isWordChar := by
  rw [List.all_eq_true]
  intro c hc
  have hdigit : c.isDigit = true := Nat.isDigit_of_mem_toDigits (by decide) (by decide) hc
  simp [isWordChar, Char.isAlphanum, hdigit]

theorem wordToken_decimal {n : ℕ} (hn : 0 < n) (hmax : n < 2 ^ 63) :
    wordToken (Nat.toDigits 10 n) = some (.constant n) := by
  have hnumber := number_toDigits (show 1 < 10 by decide) (by decide) n
  have hhead := head_toDigits (show 1 < 10 by decide) hn
  have hdigit : ∀ c ∈ Nat.toDigits 10 n, c.isDigit = true :=
    fun c => Nat.isDigit_of_mem_toDigits (by decide) (by decide)
  cases hdigits : Nat.toDigits 10 n with
  | nil => exact absurd hdigits Nat.toDigits_ne_nil
  | cons c s =>
    rw [hdigits] at hnumber hhead hdigit
    have hc : c ≠ '0' := hhead c rfl
    have hconstant : integerConstant (c :: s) = some n := by
      unfold integerConstant
      split
      · exact absurd (List.cons.inj ‹_›).1 hc
      · exact absurd (List.cons.inj ‹_›).1 hc
      · exact absurd (List.cons.inj ‹_›).1 hc
      · rw [hnumber]
        simpa using hmax
    rw [wordToken, hconstant]
    simp [hdigit c List.mem_cons_self]

theorem wordToken_identifier {w : Text} (h : IsIdentifier w) :
    wordToken w = some (.identifier w) := by
  obtain ⟨-, -, hhead, hkeyword⟩ := h
  rw [wordToken, if_neg hhead, if_neg hkeyword]

theorem IsIdentifier.append {w v : Text} (h : IsIdentifier w) (hv : v.all isWordChar)
    (hkeyword : ∀ k ∈ keywords, ¬ v <:+ k) : IsIdentifier (w ++ v) := by
  obtain ⟨hne, hword, hhead, -⟩ := h
  refine ⟨by simp [hne], by simp [hword, hv], ?_, fun hmem => ?_⟩
  · rwa [List.head?_append_of_ne_nil _ hne]
  · exact hkeyword _ hmem (List.suffix_append w v)

def EndsWord (s : Text) : Prop := ∀ c ∈ s.head?, isWordChar c = false

theorem endsWord_cons {c : Char} (hc : isWordChar c = false) (s : Text) : EndsWord (c :: s) := by
  intro d hd
  obtain rfl := Option.mem_some_iff.mp hd
  exact hc

theorem endsWord_append {p : Text} (hp : p.head?.any fun c => !isWordChar c) (s : Text) :
    EndsWord (p ++ s) := by
  cases p with
  | nil => exact absurd hp (by simp)
  | cons c p => exact endsWord_cons (by simpa using hp) (p ++ s)

theorem lexFrom_word {w : Text} (hw : w.all isWordChar) (word s : Text) :
    lexFrom word (w ++ s) = lexFrom (word ++ w) s := by
  induction w generalizing word with
  | nil => simp
  | cons c w ih =>
    rw [List.all_cons, Bool.and_eq_true] at hw
    rw [List.cons_append, lexFrom, if_pos hw.1, ih hw.2, List.append_assoc, List.singleton_append]

theorem lexFrom_cons_iff {word s : Text} {c : Char} {ts : List Token}
    (hc : isWordChar c = false) : lexFrom word (c :: s) = some ts ↔
      ¬(c = '=' ∧ s.head? = some '=') ∧ ∃ before here rest, wordTokens word = some before ∧
        separator c = some here ∧ lex s = some rest ∧ ts = before ++ here ++ rest := by
  rw [lexFrom, hc, if_neg Bool.false_ne_true]
  by_cases heq : c = '=' ∧ s.head? = some '='
  · simp [heq]
  · rw [if_neg heq]
    constructor
    · intro h
      split at h
      · rename_i before here rest hbefore hhere hrest
        exact ⟨heq, before, here, rest, hbefore, hhere, hrest, (Option.some.inj h).symm⟩
      · cases h
    · rintro ⟨-, before, here, rest, hbefore, hhere, hrest, rfl⟩
      rw [lex] at hrest
      rw [hbefore, hhere, hrest]

theorem lex_word {w s : Text} {t : Token} {us : List Token} (hw : w.all isWordChar)
    (ht : wordToken w = some t) (hne : w ≠ []) (hs : EndsWord s)
    (h : lex s = some us) : lex (w ++ s) = some (t :: us) := by
  have htokens : wordTokens w = some [t] := by rw [wordTokens, if_neg hne, ht, Option.map_some]
  rw [lex, lexFrom_word hw, List.nil_append]
  cases s with
  | nil =>
    obtain rfl := Option.some.inj h
    exact htokens
  | cons c s =>
    have hc : isWordChar c = false := hs c rfl
    obtain ⟨heq, before, here, rest, hbefore, hhere, hrest, rfl⟩ := (lexFrom_cons_iff hc).mp h
    obtain rfl := Option.some.inj hbefore
    exact (lexFrom_cons_iff hc).mpr ⟨heq, [t], here, rest, htokens, hhere, hrest, rfl⟩

theorem lex_decimal {n : ℕ} {s : Text} {us : List Token} (hn : 0 < n) (hmax : n < 2 ^ 63)
    (hs : EndsWord s) (h : lex s = some us) :
    lex (Nat.toDigits 10 n ++ s) = some (.constant n :: us) :=
  lex_word (decimal_word n) (wordToken_decimal hn hmax) Nat.toDigits_ne_nil hs h

theorem lex_identifier {w s : Text} {us : List Token} (hw : IsIdentifier w)
    (hs : EndsWord s) (h : lex s = some us) :
    lex (w ++ s) = some (.identifier w :: us) :=
  lex_word hw.2.1 (wordToken_identifier hw) hw.1 hs h

theorem lex_punctuator {c : Char} {p : Punctuator} {s : Text} {us : List Token}
    (hp : punctuator c = some p) (hc : isWordChar c = false ∧ isBlank c = false)
    (heq : ¬(c = '=' ∧ s.head? = some '=')) (h : lex s = some us) :
    lex (c :: s) = some (.punctuator p :: us) := by
  have hhere : separator c = some [.punctuator p] := by simp [separator, hc.2, hp]
  exact (lexFrom_cons_iff hc.1).mpr ⟨heq, [], _, us, rfl, hhere, h, rfl⟩

def Closed (p : Text) : Prop := ∃ c ∈ p.getLast?, isWordChar c = false ∧ c ≠ '='

theorem lexFrom_append {c : Char} (hc : isWordChar c = false) (hne : c ≠ '=') {word q s : Text}
    {ts us : List Token} (h : lexFrom word (q ++ [c]) = some ts) (hs : lex s = some us) :
    lexFrom word (q ++ c :: s) = some (ts ++ us) := by
  induction q generalizing word ts with
  | nil =>
    obtain ⟨-, before, here, rest, hbefore, hhere, hrest, rfl⟩ := (lexFrom_cons_iff hc).mp h
    obtain rfl := Option.some.inj hrest
    apply (lexFrom_cons_iff hc).mpr
    exact ⟨fun heq => hne heq.1, before, here, us, hbefore, hhere, hs, by simp⟩
  | cons d q ih =>
    rw [List.cons_append] at h ⊢
    cases hd : isWordChar d with
    | true =>
      rw [lexFrom, if_pos hd] at h ⊢
      exact ih h
    | false =>
      obtain ⟨heq, before, here, rest, hbefore, hhere, hrest, rfl⟩ := (lexFrom_cons_iff hd).mp h
      have hhead : (q ++ c :: s).head? = (q ++ [c]).head? := by
        cases q
        all_goals rfl
      apply (lexFrom_cons_iff hd).mpr
      rw [hhead]
      exact ⟨heq, before, here, rest ++ us, hbefore, hhere, ih hrest, by simp⟩

theorem lex_append {p s : Text} {ts us : List Token} (hp : Closed p) (h : lex p = some ts)
    (hs : lex s = some us) : lex (p ++ s) = some (ts ++ us) := by
  obtain ⟨c, hlast, hc, hne⟩ := hp
  obtain ⟨q, rfl⟩ := List.getLast?_eq_some_iff.mp hlast
  rw [List.append_assoc]
  exact lexFrom_append hc hne h hs

def elements (values : List ℕ) : List Token :=
  (values.map .constant).intersperse (.punctuator .comma)

theorem initializers_elements {values : List ℕ} (h : values ≠ []) :
    initializers (elements values ++ [.punctuator .rbrace]) = some values := by
  induction values with
  | nil => exact absurd rfl h
  | cons n values ih =>
    cases values with
    | nil => rfl
    | cons m values =>
      have hrest := ih (by simp)
      have hcons : elements (n :: m :: values) =
          .constant n :: .punctuator .comma :: elements (m :: values) := rfl
      have hhead : ∃ ts, elements (m :: values) = .constant m :: ts := by
        cases values
        all_goals exact ⟨_, rfl⟩
      obtain ⟨ts, hts⟩ := hhead
      rw [hts, List.cons_append] at hrest
      simp [hcons, hts, initializers, hrest]

theorem mem_elements {values : List ℕ} {t : Token} (h : t ∈ elements values) :
    t = .punctuator .comma ∨ ∃ n, t = .constant n := by
  induction values with
  | nil => simp [elements] at h
  | cons n values ih =>
    cases values with
    | nil => exact .inr ⟨n, List.mem_singleton.mp h⟩
    | cons m values =>
      change t ∈ .constant n :: .punctuator .comma :: elements (m :: values) at h
      simp only [List.mem_cons] at h
      rcases h with rfl | rfl | h
      · exact .inr ⟨n, rfl⟩
      · exact .inl rfl
      · exact ih h

theorem object_array (base : Base) {values : List ℕ} (h : values ≠ []) :
    object base ([.punctuator .lbracket, .punctuator .rbracket, .punctuator .equals,
      .punctuator .lbrace] ++ (elements values ++ [.punctuator .rbrace])) =
        some (.array base (values.map (BitVec.ofNat base.width))) := by
  simp [object, initializers_elements h]

theorem definition_eq {ts rest : List Token} {specs : List Specifier} {name : Text} {base : Base}
    {o : Object} (hspecs : specifiers ts = (specs, .identifier name :: rest))
    (hbase : baseOf specs = some base) (ho : object base rest = some o) :
    definition ts = some ⟨name, .const ∈ specs, o⟩ := by
  simp only [definition, hspecs, hbase, ho, Option.map_some]

theorem definitionsFrom_cons {piece p ts : List Token} {d : Definition} {ds : List Definition}
    (hp : .punctuator .semicolon ∉ p) (hd : definition (piece ++ p) = some d)
    (hds : definitionsFrom [] ts = some ds) :
    definitionsFrom piece (p ++ .punctuator .semicolon :: ts) = some (d :: ds) := by
  induction p generalizing piece with
  | nil =>
    rw [List.append_nil] at hd
    simp [definitionsFrom, hd, hds]
  | cons t p ih =>
    rw [List.mem_cons, not_or] at hp
    rw [List.cons_append, definitionsFrom, if_neg (Ne.symm hp.1)]
    apply ih hp.2
    rwa [List.append_assoc, List.singleton_append]

end Wasrisc.CDeclarations
