import Wasrisc.CDeclarations
import Wasrisc.HostMemory

namespace Wasrisc.File2c

open CDeclarations (Text)
open HostMemory

structure Host where
  fopen : Text → Option (List U8)
  stSize : Text → U64

structure Outcome where
  stdout : Text
  stderr : Text
  status : ℕ

def formatX (precision : ℕ) (v : CInt) : Text :=
  let digits := (Nat.toDigits 16 v.toNat).map Char.toUpper
  List.replicate (precision - digits.length) '0' ++ digits

def formatI (v : CInt) : Text :=
  if v.toInt < 0 then '-' :: Nat.toDigits 10 v.toInt.natAbs else Nat.toDigits 10 v.toInt.natAbs

def help (me : Text) : Text :=
  "file2c originally by IngwiePhoenix | Convert a file into a C source file.\n".toList ++
    ("Usage: ".toList ++ me ++ " inputFile varName > output".toList)

/-- What the reading loop prints from its `n`th byte on. The end of the file is noticed by the read
that finds no byte, so the loop ends in its `break`. -/
def readLoop (filesize : CInt) : U64 → List U8 → Text
  | _, [] => []
  | n, c :: file =>
    let n := n + 1
    let item :=
      if n.setWidth 32 = filesize then "0x".toList ++ formatX 2 (c.setWidth 32)
      else "0x".toList ++ formatX 2 (c.setWidth 32) ++ ", ".toList
    let newline := if n % 20 = 0 then "\n    ".toList else []
    item ++ newline ++ readLoop filesize n file

def main (host : Host) (me : Text) (args : List Text) : Outcome :=
  match args with
  | [fn, varName] =>
    match host.fopen fn with
    | none => ⟨[], "Error while opening file.".toList, 1⟩
    | some file =>
      let filesize : CInt := (host.stSize fn).setWidth 32
      ⟨"const char ".toList ++ varName ++ "[] = \x7b\n    ".toList ++ readLoop filesize 0 file ++
          "\n\x7d;\n".toList ++
          ("int ".toList ++ varName ++ "_length=".toList ++ formatI filesize ++ ";\n".toList),
        [], 0⟩
  | _ => ⟨help me, [], 1⟩

end Wasrisc.File2c
