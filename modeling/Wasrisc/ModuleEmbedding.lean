import Wasrisc.File2c

namespace Wasrisc.ModuleEmbedding

open HostMemory CDeclarations File2c

structure LoadArguments where
  buf : List U8
  size : U32

def declared (defs : List Definition) (name : Text) (isConst : Bool) : Option Object :=
  match defs.find? fun d => d.name = name with
  | some d => if d.isConst = isConst then some d.object else none
  | none => none

def loadArguments (defs : List Definition) : Option LoadArguments :=
  match declared defs "wasmModuleBuffer".toList true,
    declared defs "wasmModuleBuffer_length".toList false with
  | some (.array .char bytes), some (.scalar .int length) => some ⟨bytes, length⟩
  | _, _ => none

structure Embeds (varName : Text) (file : List U8) (o : Outcome) : Prop where
  status : o.status = 0
  defines : ∃ length : CInt, translationUnit o.stdout =
    some [⟨varName, true, .array .char file⟩,
      ⟨varName ++ "_length".toList, false, .scalar .int length⟩] ∧ length.toInt = file.length
  loads : varName = "wasmModuleBuffer".toList → ∃ args : LoadArguments,
    (translationUnit o.stdout).bind loadArguments = some args ∧ args.buf = file ∧
      args.size.toNat = file.length

theorem item_word (c : U8) : ("0x".toList ++ formatX 2 (c.setWidth 32)).all isWordChar = true ∧
    wordToken ("0x".toList ++ formatX 2 (c.setWidth 32)) = some (.constant c.toNat) := by
  revert c
  decide

theorem lex_item (c : U8) {s : Text} {us : List Token} (hs : EndsWord s) (h : lex s = some us) :
    lex ("0x".toList ++ formatX 2 (c.setWidth 32) ++ s) = some (.constant c.toNat :: us) :=
  lex_word (item_word c).1 (item_word c).2 (by simp) hs h

theorem lex_newline (n : U64) {s : Text} {us : List Token} (h : lex s = some us) :
    lex ((if n % 20 = 0 then "\n    ".toList else []) ++ s) = some us := by
  split
  · have hblank : lex "\n    ".toList = some [] := by decide
    exact lex_append ⟨' ', by decide, by decide⟩ hblank h
  · exact h

theorem endsWord_newline (n : U64) {s : Text} (h : EndsWord s) :
    EndsWord ((if n % 20 = 0 then "\n    ".toList else []) ++ s) := by
  split
  · exact endsWord_append (by decide) _
  · exact h

theorem counted {filesize : CInt} {n : U64} {k : ℕ} (h : n.toNat + k = filesize.toNat)
    (hk : 0 < k) : (n + 1).toNat + (k - 1) = filesize.toNat ∧
      ((n + 1).setWidth 32 = filesize ↔ k = 1) := by
  have hlt := filesize.isLt
  have hnext : (n + 1).toNat = n.toNat + 1 := by
    rw [BitVec.toNat_add_of_lt]
    all_goals simp
    omega
  refine ⟨by omega, ?_⟩
  rw [← BitVec.toNat_inj, BitVec.toNat_setWidth, hnext]
  omega

theorem lex_readLoop {filesize : CInt} {n : U64} {file : List U8} {s : Text} {us : List Token}
    (h : n.toNat + file.length = filesize.toNat) (hs : EndsWord s)
    (hlex : lex s = some us) :
    lex (readLoop filesize n file ++ s) = some (elements (file.map BitVec.toNat) ++ us) := by
  induction file generalizing n with
  | nil => exact hlex
  | cons c file ih =>
    rw [List.length_cons] at h
    obtain ⟨hnext, hlast⟩ := counted h (Nat.succ_pos _)
    have hrest := ih hnext
    cases file with
    | nil =>
      rw [readLoop, readLoop, if_pos (hlast.mpr rfl), List.append_nil, List.append_assoc]
      exact lex_item c (endsWord_newline _ hs) (lex_newline _ hlex)
    | cons d file =>
      have hmore : ¬ (n + 1).setWidth 32 = filesize := by
        rw [hlast]
        simp
      have hcomma : lex ", ".toList = some [.punctuator .comma] := by decide
      have htail := lex_append ⟨' ', by decide, by decide⟩ hcomma (lex_newline (n + 1) hrest)
      have hitem := lex_item c (endsWord_append (by decide) _) htail
      rw [readLoop, if_neg hmore]
      simp only [List.append_assoc] at hitem ⊢
      exact hitem

theorem formatI_eq {v : CInt} (h : v.toNat < 2 ^ 31) : formatI v = Nat.toDigits 10 v.toNat := by
  have hint : v.toInt = v.toNat := BitVec.toInt_eq_toNat_of_lt (by omega)
  rw [formatI, hint, if_neg (by omega), Int.natAbs_natCast]

theorem isIdentifier_length {varName : Text} (h : IsIdentifier varName) :
    IsIdentifier (varName ++ "_length".toList) := by
  have hkeyword : ∀ k ∈ keywords, ¬ "_length".toList <:+ k := by decide +kernel
  apply h.append _ hkeyword
  decide

def arrayTokens (name : Text) (values : List ℕ) : List Token :=
  .specifier .const :: .specifier .char :: .identifier name ::
    ([.punctuator .lbracket, .punctuator .rbracket, .punctuator .equals, .punctuator .lbrace] ++
      (elements values ++ [.punctuator .rbrace]))

def lengthTokens (name : Text) (n : ℕ) : List Token :=
  [.specifier .int, .identifier name, .punctuator .equals, .constant n]

theorem lex_length {name : Text} {v : CInt} (hname : IsIdentifier name) (hv : 0 < v.toNat)
    (hmax : v.toNat < 2 ^ 31) :
    lex ("int ".toList ++ (name ++ '=' :: (formatI v ++ ";\n".toList))) =
      some (lengthTokens name v.toNat ++ [.punctuator .semicolon]) := by
  have hend : lex ";\n".toList = some [.punctuator .semicolon] := by decide
  have hint : lex "int ".toList = some [.specifier .int] := by decide
  have hlong : v.toNat < 2 ^ 63 := hmax.trans (by decide)
  have hvalue := lex_decimal hv hlong (s := ";\n".toList) (endsWord_cons rfl _) hend
  rw [formatI_eq hmax]
  have hhead : (Nat.toDigits 10 v.toNat ++ ";\n".toList).head? ≠ some '=' := by
    rw [List.head?_append_of_ne_nil _ Nat.toDigits_ne_nil]
    intro hhead
    have hdigit := Nat.isDigit_of_mem_toDigits (by decide) (by decide) (List.mem_of_head? hhead)
    exact absurd hdigit (by decide)
  have hequals := lex_punctuator (c := '=') rfl (by decide) (fun h => hhead h.2) hvalue
  have htext := lex_append ⟨' ', by decide, by decide⟩ hint
    (lex_identifier hname (endsWord_cons rfl _) hequals)
  rw [htext, lengthTokens]
  rfl

theorem lex_array {name s : Text} {file : List U8} {filesize : CInt} {us : List Token}
    (hname : IsIdentifier name) (hsize : file.length = filesize.toNat) (hs : lex s = some us) :
    lex ("const char ".toList ++ (name ++ ("[] = \x7b\n    ".toList ++
      (readLoop filesize 0 file ++ ("\n\x7d;\n".toList ++ s))))) =
        some (arrayTokens name (file.map BitVec.toNat) ++ .punctuator .semicolon :: us) := by
  have hconst : lex "const char ".toList = some [.specifier .const, .specifier .char] := by decide
  have hopen : lex "[] = \x7b\n    ".toList = some [.punctuator .lbracket, .punctuator .rbracket,
      .punctuator .equals, .punctuator .lbrace] := by decide
  have hclose : lex "\n\x7d;\n".toList = some [.punctuator .rbrace, .punctuator .semicolon] := by
    decide
  have hrest := lex_append ⟨'\n', by decide, by decide⟩ hclose hs
  have hloop := lex_readLoop (n := 0) (by simpa using hsize) (endsWord_append (by decide) _) hrest
  have hlist := lex_append ⟨' ', by decide, by decide⟩ hopen hloop
  have htext := lex_append ⟨' ', by decide, by decide⟩ hconst
    (lex_identifier hname (endsWord_append (by decide) _) hlist)
  rw [htext, arrayTokens]
  simp

theorem definition_array (name : Text) {file : List U8} (h : file ≠ []) :
    definition (arrayTokens name (file.map BitVec.toNat)) =
      some ⟨name, true, .array .char file⟩ := by
  have hvalues : file.map BitVec.toNat ≠ [] := by simpa using h
  have hbytes : (file.map BitVec.toNat).map (BitVec.ofNat 8) = file := by
    simp [List.map_map, Function.comp_def]
  have hobject := object_array .char hvalues
  rw [hbytes] at hobject
  have hbase : baseOf [.const, .char] = some .char := rfl
  exact definition_eq rfl hbase hobject

theorem semicolon_notMem_array (name : Text) (values : List ℕ) :
    .punctuator .semicolon ∉ arrayTokens name values := by
  have hlist : .punctuator .semicolon ∉ elements values := by
    intro hmem
    rcases mem_elements hmem with heq | ⟨n, heq⟩
    · cases heq
    · cases heq
  simp [arrayTokens, hlist]

theorem definitions_eq (varName : Text) {file : List U8} (h : file ≠ []) (n : ℕ) :
    definitionsFrom [] (arrayTokens varName (file.map BitVec.toNat) ++ .punctuator .semicolon ::
      (lengthTokens (varName ++ "_length".toList) n ++ [.punctuator .semicolon])) =
        some [⟨varName, true, .array .char file⟩,
          ⟨varName ++ "_length".toList, false, .scalar .int (BitVec.ofNat 32 n)⟩] := by
  have hlength : definition (lengthTokens (varName ++ "_length".toList) n) =
      some ⟨varName ++ "_length".toList, false, .scalar .int (BitVec.ofNat 32 n)⟩ := rfl
  apply definitionsFrom_cons (semicolon_notMem_array varName _) (definition_array varName h)
  exact definitionsFrom_cons (by simp [lengthTokens]) hlength rfl

theorem toNat_ofNat_length {file : List U8} (hmax : file.length < 2 ^ 31) :
    (BitVec.ofNat 32 file.length).toNat = file.length :=
  Nat.mod_eq_of_lt (hmax.trans (by decide))

theorem translationUnit_stdout {host : Host} {fn varName : Text} {file : List U8} (me : Text)
    (hvar : IsIdentifier varName) (hopen : host.fopen fn = some file)
    (hstat : host.stSize fn = BitVec.ofNat 64 file.length) (hne : file ≠ [])
    (hmax : file.length < 2 ^ 31) : translationUnit (main host me [fn, varName]).stdout =
      some [⟨varName, true, .array .char file⟩,
        ⟨varName ++ "_length".toList, false, .scalar .int (BitVec.ofNat 32 file.length)⟩] := by
  have hpos : 0 < file.length := List.length_pos_iff.mpr hne
  have hsize : (host.stSize fn).setWidth 32 = BitVec.ofNat 32 file.length := by
    rw [hstat, BitVec.setWidth_ofNat_of_le (by decide)]
  have hlength := toNat_ofNat_length hmax
  have hint := lex_length (isIdentifier_length hvar) (v := BitVec.ofNat 32 file.length)
    (by omega) (by omega)
  have hlex := lex_array hvar hlength.symm hint
  have hdefs := definitions_eq varName hne file.length
  rw [hlength] at hlex
  have hstdout : (main host me [fn, varName]).stdout = "const char ".toList ++ (varName ++
      ("[] = \x7b\n    ".toList ++ (readLoop (BitVec.ofNat 32 file.length) 0 file ++
        ("\n\x7d;\n".toList ++ ("int ".toList ++ (varName ++ "_length".toList ++
          '=' :: (formatI (BitVec.ofNat 32 file.length) ++ ";\n".toList))))))) := by
    have hequals : "_length=".toList = "_length".toList ++ ['='] := by decide
    simp only [main, hopen, hsize, hequals, List.append_assoc, List.cons_append,
      List.nil_append]
  have hnames : [varName, varName ++ "_length".toList].Nodup := by simp
  rw [translationUnit, hstdout, hlex]
  simp only [hdefs, Option.filter_some, List.map_cons, List.map_nil, hnames, decide_true, if_true]

theorem loadArguments_eq (bytes : List U8) (length : CInt) :
    loadArguments [⟨"wasmModuleBuffer".toList, true, .array .char bytes⟩,
      ⟨"wasmModuleBuffer".toList ++ "_length".toList, false, .scalar .int length⟩] =
        some ⟨bytes, length⟩ := rfl

theorem file2c_lossless (host : Host) (me fn varName : Text) (file : List U8)
    (hvar : IsIdentifier varName) (hopen : host.fopen fn = some file)
    (hstat : host.stSize fn = BitVec.ofNat 64 file.length) (hne : file ≠ [])
    (hmax : file.length < 2 ^ 31) : Embeds varName file (main host me [fn, varName]) := by
  have hunit := translationUnit_stdout me hvar hopen hstat hne hmax
  have hlength := toNat_ofNat_length hmax
  constructor
  · simp only [main, hopen]
  · refine ⟨_, hunit, ?_⟩
    rw [BitVec.toInt_eq_toNat_of_lt (by omega), hlength]
  · rintro rfl
    rw [hunit]
    exact ⟨⟨file, BitVec.ofNat 32 file.length⟩, loadArguments_eq file _, rfl, hlength⟩

example : (main ⟨fun _ => some [0x41, 0xff], fun _ => 2⟩ [] [[], "aot".toList]).stdout =
    "const char aot[] = \x7b\n    0x41, 0xFF\n\x7d;\nint aot_length=2;\n".toList := by decide

def ragged : List U8 := 0xff :: List.replicate 20 0x00

theorem file2c_lossless_ragged :
    Embeds "wasmModuleBuffer".toList ragged (main ⟨fun _ => some ragged, fun _ => 21⟩
      "file2c".toList ["guest.aot".toList, "wasmModuleBuffer".toList]) :=
  file2c_lossless _ _ _ _ _ (by decide) rfl rfl (by decide) (by decide)

end Wasrisc.ModuleEmbedding
