import Wasrisc.GoStrings

namespace Wasrisc.Dotnet2wasm

open GoStrings

def parOpen : Text := "(".toList
def parClose : Text := ")".toList
def quote : Text := "\"".toList
def importStr : Text := "import".toList
def importPackageName : Text := "example:api".toList
def importModuleName : Text := "testmodule".toList
def fullImportModuleName : Text := importPackageName ++ "/".toList ++ importModuleName

def importWasip1Compat (line : Text) : Option (Text × Text) :=
  match fields (trimSuffix (trimPrefix (trimSpace line) parOpen) parClose) with
  | token :: moduleName :: funcName :: tokens =>
    if token = importStr ∧ moduleName = quote ++ fullImportModuleName ++ quote then
      some (funcName, parOpen ++
        join (token :: (quote ++ importModuleName ++ quote) :: funcName :: tokens) [' '] ++ parClose)
    else none
  | _ => none

/-- What the operating system answers, by path: the file that is meant, the input's text with the
error that ends its reading, the error of creating the output, and what a write leaves of its text
in that file. -/
structure Host where
  file : Text → Text
  openInput : Text → Except Text (Text × Option Text)
  createError : Text → Option Text
  written : ℕ → Text → Text

structure Outcome where
  log : List Text
  output : Option Text
  err : Option Text

def bufSize : ℕ := 30 * 1024 * 1024

def outputLine (t : Text) : Text :=
  match importWasip1Compat t with
  | some (_, updated) => updated
  | none => t

def logLine (t : Text) : Option Text :=
  (importWasip1Compat t).map fun r => "import ".toList ++ r.1

/-- The loop over the scanned lines, from its `n`th write; no result of `WriteString` is used. -/
def writeLines (host : Host) : ℕ → List Text → Text
  | _, [] => []
  | n, t :: lines => host.written n (outputLine t ++ ['\n']) ++ writeLines host (n + 1) lines

def scannerErr (input : Text) (readError : Option Text) : Option Text :=
  if tokenTooLong bufSize input then some "bufio.Scanner: token too long".toList else readError

/-- The text that the scanner finds: when it reads the file that it is to write, `os.Create` has
emptied it by then. -/
def scanned (host : Host) (inPath out input : Text) : Text :=
  if host.file inPath = host.file out then [] else input

def Main (host : Host) (inPath out : Text) : Outcome :=
  match host.openInput inPath with
  | .error err => ⟨[], none, some err⟩
  | .ok (input, readError) =>
    match host.createError out with
    | some err => ⟨[], none, some ("2nd pass: create ".toList ++ out ++ ": ".toList ++ err)⟩
    | none =>
      let text := scanned host inPath out input
      ⟨(scanLines bufSize text).filterMap logLine,
        some (writeLines host 0 (scanLines bufSize text)),
        (scannerErr text readError).map ("scanner error: ".toList ++ ·)⟩

structure Exit where
  status : ℕ
  log : List Text
  output : Option Text

def main (host : Host) (inPath out : Text) : Exit :=
  let r := Main host inPath out
  -- an error is logged, and `main` returns as without one
  ⟨0, r.log ++ (r.err.map ("main: ".toList ++ ·)).toList, r.output⟩

end Wasrisc.Dotnet2wasm
