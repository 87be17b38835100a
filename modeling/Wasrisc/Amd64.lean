import Wasrisc.HostMemory

namespace Wasrisc.Amd64

open AddressedMemory HostMemory

abbrev CLong := BitVec 64

/-- The input globals of amd64.c, the memory, and the sizes of the live objects by the address of
their first byte. The null pointer is 0. -/
structure Process where
  ram : Ram
  objects : U64 → Option ℕ
  testInputData : U64
  testInputDataLen : CLong

/-- What the C library reports while `read_input_data` runs; `delivered` is what `fread` stores. -/
structure Outcomes where
  fopen : Bool
  fseek : CInt
  ftell : CLong
  calloc : U64
  fread : SizeT
  delivered : List U8

structure FreadRequest where
  buffer : U64
  size : SizeT
  nmemb : SizeT

structure Report where
  process : Process
  fread : Option FreadRequest
  failure : Option String

def Process.calloc (p : Process) (address : U64) (nmemb size : SizeT) : Process :=
  if address = 0 then p
  else { p with
    ram := fill p.ram address (nmemb * size).toNat 0
    objects := Function.update p.objects address (some (nmemb * size).toNat) }

def readInputData (o : Outcomes) (p : Process) : Report :=
  if !o.fopen then ⟨p, none, some "failed to open %s\n"⟩
  else
    -- the result of `fseek` is not looked at, and that of `ftell` is taken as the length
    let p := { p with testInputDataLen := o.ftell }
    let p := p.calloc o.calloc 1 (p.testInputDataLen + 1)
    let p := { p with testInputData := o.calloc }
    if p.testInputData = 0 then ⟨p, none, some "calloc failed"⟩
    else
      let request : FreadRequest := ⟨p.testInputData, p.testInputDataLen, 1⟩
      let p := { p with ram := write p.ram p.testInputData o.delivered }
      if o.fread ≠ 1 then ⟨p, some request, some "read failed"⟩
      else ⟨p, some request, none⟩

def testmoduleInputData (p : Process) (k : U32) : U32 :=
  -- `char` is signed on x86-64
  (p.ram (p.testInputData + k.setWidth 64)).signExtend 32

def testmoduleInputDataLen (p : Process) : U32 := p.testInputDataLen.setWidth 32

def Process.allocated (p : Process) (o : Outcomes) : Process where
  ram := fill p.ram o.calloc (o.ftell + 1).toNat 0
  objects := Function.update p.objects o.calloc (some (o.ftell + 1).toNat)
  testInputData := o.calloc
  testInputDataLen := o.ftell

def request (o : Outcomes) : FreadRequest := ⟨o.calloc, o.ftell, 1⟩

theorem readInputData_unopened {o : Outcomes} (p : Process) (h : o.fopen = false) :
    readInputData o p = ⟨p, none, some "failed to open %s\n"⟩ := by
  simp [readInputData, h]

theorem readInputData_null {o : Outcomes} (p : Process) (h : o.fopen = true) (hnull : o.calloc = 0) :
    readInputData o p =
      ⟨{ p with testInputData := 0, testInputDataLen := o.ftell }, none, some "calloc failed"⟩ := by
  simp [readInputData, Process.calloc, h, hnull]

theorem readInputData_allocated {o : Outcomes} (p : Process) (h : o.fopen = true)
    (hnull : o.calloc ≠ 0) :
    readInputData o p =
      ⟨{ p.allocated o with ram := write (p.allocated o).ram o.calloc o.delivered },
        some (request o), if o.fread = 1 then none else some "read failed"⟩ := by
  have hsize : 1 * (o.ftell + 1) = o.ftell + 1 := BitVec.one_mul _
  unfold readInputData
  simp only [Process.calloc, h, hnull, hsize, if_false, Bool.not_true, Bool.false_eq_true]
  by_cases hread : o.fread = 1
  · simp only [hread, ne_eq, not_true_eq_false, if_false, if_true]
    rfl
  · simp only [hread, ne_eq, not_false_eq_true, if_false, if_true]
    rfl

end Wasrisc.Amd64
