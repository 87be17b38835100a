import Wasrisc.WasiSnapshotPreview1

namespace Wasrisc.WasiImports

open AddressedMemory HostMemory WasiSnapshotPreview1

inductive WasiCall where
  | fdPrestatGet (wasiFD resultPointer : U32)
  | fdPrestatDirName (l0 l1 l2 : U32)
  | fdFdstatGet (wasiFD resultPointer : U32)
  | fdFdstatSetFlags (l0 l1 : U32)
  | pathFilestatGet (l0 l1 l2 l3 l4 : U32)
  | environSizesGet (l0 l1 : U32)
  | pollOneoff (inPointer outPointer subscriptionCount eventCount : U32)
  | adapterCloseBadfd (l0 : U32)
  | fdAdvise (l0 : U32) (l1 l2 : U64) (l3 : U32)
  | fdClose (l0 : U32)
  | fdRead (wasiFD iovecsPointer iovecsCount resultPointer : U32)
  | environGet (l0 l1 : U32)
  | clockTimeGet (clockID : U32) (precision : U64) (resultPointer : U32)
  | fdSeek (l0 : U32) (l1 : U64) (l2 l3 : U32)
  | schedYield
  | fdWrite (wasiFD ciovecsPointer ciovecsCount resultPointer : U32)
  | pathUnlinkFile (l0 l1 l2 : U32)
  | randomGet (l0 l1 : U32)
  | argsGet (l0 l1 : U32)
  | argsSizesGet (l0 l1 : U32)
  | fdPread (wasiFD iovecsPointer iovecsCount : U32) (offset : U64) (resultPointer : U32)
  | pathReadlink (l0 l1 l2 l3 l4 l5 : U32)
  | pathRename (l0 l1 l2 l3 l4 l5 : U32)
  | fdFilestatGet (wasiFD resultPointer : U32)
  | pathOpen (l0 l1 l2 l3 l4 : U32) (l5 l6 : U64) (l7 l8 : U32)
  | pathRemoveDirectory (l0 l1 l2 : U32)
  | fdSync (wasiFD : U32)
  | pathCreateDirectory (l0 l1 l2 : U32)
  | fdReaddir (wasiFD bufferPointer bufferLen : U32) (cookie : U64) (resultPointer : U32)
  | fdFilestatSetSize (wasiFD : U32) (size : U64)

def WasiCall.run (libc : Libc) (memory : WasmMemory) : WasiCall → Host → U32 × Host
  | fdPrestatGet wasiFD resultPointer =>
    WasiSnapshotPreview1.fdPrestatGet libc wasiFD resultPointer
  | fdPrestatDirName l0 l1 l2 => WasiSnapshotPreview1.fdPrestatDirName libc l0 l1 l2
  | fdFdstatGet wasiFD resultPointer => WasiSnapshotPreview1.fdFdstatGet libc wasiFD resultPointer
  | fdFdstatSetFlags l0 l1 => WasiSnapshotPreview1.fdFdstatSetFlags libc l0 l1
  | pathFilestatGet l0 l1 l2 l3 l4 => WasiSnapshotPreview1.pathFilestatGet libc l0 l1 l2 l3 l4
  | environSizesGet l0 l1 => WasiSnapshotPreview1.environSizesGet libc l0 l1
  | pollOneoff inPointer outPointer subscriptionCount eventCount =>
    WasiSnapshotPreview1.pollOneoff inPointer outPointer subscriptionCount eventCount
  | adapterCloseBadfd l0 => WasiSnapshotPreview1.adapterCloseBadfd libc l0
  | fdAdvise l0 l1 l2 l3 => WasiSnapshotPreview1.fdAdvise libc l0 l1 l2 l3
  | fdClose l0 => WasiSnapshotPreview1.fdClose libc l0
  | fdRead wasiFD iovecsPointer iovecsCount resultPointer =>
    WasiSnapshotPreview1.fdRead libc wasiFD iovecsPointer iovecsCount resultPointer
  | environGet l0 l1 => WasiSnapshotPreview1.environGet libc l0 l1
  | clockTimeGet clockID precision resultPointer =>
    WasiSnapshotPreview1.clockTimeGet memory clockID precision resultPointer
  | fdSeek l0 l1 l2 l3 => WasiSnapshotPreview1.fdSeek libc l0 l1 l2 l3
  | schedYield => WasiSnapshotPreview1.schedYield libc
  | fdWrite wasiFD ciovecsPointer ciovecsCount resultPointer =>
    WasiSnapshotPreview1.fdWrite libc memory wasiFD ciovecsPointer ciovecsCount resultPointer
  | pathUnlinkFile l0 l1 l2 => WasiSnapshotPreview1.pathUnlinkFile libc l0 l1 l2
  | randomGet l0 l1 => WasiSnapshotPreview1.randomGet libc l0 l1
  | argsGet l0 l1 => WasiSnapshotPreview1.argsGet libc l0 l1
  | argsSizesGet l0 l1 => WasiSnapshotPreview1.argsSizesGet libc l0 l1
  | fdPread wasiFD iovecsPointer iovecsCount offset resultPointer =>
    WasiSnapshotPreview1.fdPread libc wasiFD iovecsPointer iovecsCount offset resultPointer
  | pathReadlink l0 l1 l2 l3 l4 l5 => WasiSnapshotPreview1.pathReadlink libc l0 l1 l2 l3 l4 l5
  | pathRename l0 l1 l2 l3 l4 l5 => WasiSnapshotPreview1.pathRename libc l0 l1 l2 l3 l4 l5
  | fdFilestatGet wasiFD resultPointer =>
    WasiSnapshotPreview1.fdFilestatGet libc wasiFD resultPointer
  | pathOpen l0 l1 l2 l3 l4 l5 l6 l7 l8 =>
    WasiSnapshotPreview1.pathOpen libc l0 l1 l2 l3 l4 l5 l6 l7 l8
  | pathRemoveDirectory l0 l1 l2 => WasiSnapshotPreview1.pathRemoveDirectory libc l0 l1 l2
  | fdSync wasiFD => WasiSnapshotPreview1.fdSync libc wasiFD
  | pathCreateDirectory l0 l1 l2 => WasiSnapshotPreview1.pathCreateDirectory libc l0 l1 l2
  | fdReaddir wasiFD bufferPointer bufferLen cookie resultPointer =>
    WasiSnapshotPreview1.fdReaddir libc wasiFD bufferPointer bufferLen cookie resultPointer
  | fdFilestatSetSize wasiFD size => WasiSnapshotPreview1.fdFilestatSetSize libc wasiFD size

/-- What the guest does between two looks at the host: a store to its memory or a call. -/
inductive GuestStep where
  | store (address : U32) (bytes : List U8)
  | call (c : WasiCall)

def guestStore (memory : WasmMemory) (address : U32) (bytes : List U8) (h : Host) : Host :=
  { h with ram := write h.ram (memory.data + address.setWidth 64) bytes }

def GuestStep.run (libc : Libc) (memory : WasmMemory) : GuestStep → Host → Host
  | store address bytes, h => guestStore memory address bytes h
  | call c, h => (c.run libc memory h).2

end Wasrisc.WasiImports
