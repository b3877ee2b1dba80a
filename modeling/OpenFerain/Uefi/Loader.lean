import OpenFerain.Support.Calls

/-!
# The UEFI loader

`UefiMain` in `entry.c`, for the 32-bit target of the package, as a program
that calls the firmware.  A reply is what the call returns and what it leaves in
the variables that it is given; nothing else is assumed about the firmware here.
-/

namespace OpenFerain

namespace Uefi

/-! ## The firmware -/

/-- `EFI_STATUS` -/
abbrev Status := BitVec 32

/-- `EFI_ERROR` -/
def EfiError (status : Status) : Prop := status.msb = true

instance : DecidablePred EfiError := fun status =>
  inferInstanceAs (Decidable (status.msb = true))

def efiSuccess : Status := 0
def efiBufferTooSmall : Status := 0x80000005
def efiOutOfResources : Status := 0x80000009
def efiNotFound : Status := 0x8000000E

/-- A handle of a block device. -/
abbrev Handle := BitVec 32

/-- The fields of a `EFI_BLOCK_IO_PROTOCOL` and its `Media` that are used. -/
structure BlockIo where
  mediaId : BitVec 32
  logicalPartition : Bool
  readOnly : Bool
  blockSize : BitVec 32
  lastBlock : BitVec 64
  deriving DecidableEq

/-- `Status`, and the buffer with its handles. -/
structure LocateReply where
  status : Status
  buffer : BitVec 32
  handles : List Handle

/-- `Status` and `BlockIo`. -/
structure HandleReply where
  status : Status
  blockIo : Option BlockIo

/-- `Status` and `TargetAddr`. -/
structure PagesReply where
  status : Status
  targetAddr : BitVec 64

/-- `Status`, `MemMapSize` and `MemMapKey`. -/
structure MapReply where
  status : Status
  memMapSize : BitVec 32
  memMapKey : BitVec 32

/-- The calls of `UefiMain`.  A pointer is 0 if it is `NULL`. -/
inductive Call where
  | locateHandleBuffer
  | handleProtocol (handle : Handle) (blockIo : Option BlockIo)
  | allocatePages (pages : BitVec 32)
  | readBlocks (blockIo : BlockIo) (mediaId : BitVec 32) (lba : BitVec 64)
      (bufferSize buffer : BitVec 32)
  | getMemoryMap (memMapSize memMap : BitVec 32)
  | allocatePool (size : BitVec 32)
  | freePool (buffer : BitVec 32)
  | freePages (memory : BitVec 64) (pages : BitVec 32)
  | exitBootServices (memMapKey : BitVec 32)
  | print (text : String) (args : List (BitVec 64))
  | asm

abbrev Call.Reply : Call → Type
  | .locateHandleBuffer => LocateReply
  | .handleProtocol .. => HandleReply
  | .allocatePages .. => PagesReply
  | .readBlocks .. => Status
  | .getMemoryMap .. => MapReply
  | .allocatePool .. => BitVec 32
  | .freePool .. => Status
  | .freePages .. => Status
  | .exitBootServices .. => Status
  | .print .. => Unit
  | .asm => Unit

/-- A program that calls the firmware. -/
abbrev Loader := Calls.Prog Call.Reply

abbrev Event := Calls.Event Call.Reply

def call (c : Call) : Loader c.Reply := Calls.request c

/-- `Print` with a status. -/
def printStatus (text : String) (status : Status) : Loader Unit :=
  call (.print text [status.setWidth 64])

/-! ## `UefiMain` -/

/-- A physical disk that can be written. -/
def suitable (blockIo : BlockIo) : Bool :=
  !blockIo.logicalPartition && !blockIo.readOnly

/-- The loop over the handles.  A call that does not fail leaves an interface in
`BlockIo`. -/
def findDisk : List Handle → Option BlockIo → Loader (Option BlockIo)
  | [], blockIo => return blockIo
  | handle :: handles, blockIo => do
      let reply ← call (.handleProtocol handle blockIo)
      if EfiError reply.status then findDisk handles reply.blockIo
      else if reply.blockIo.any suitable then return reply.blockIo
      else findDisk handles none

/-- `EFI_SIZE_TO_PAGES` -/
def efiSizeToPages (size : BitVec 32) : BitVec 32 :=
  (size >>> 12) + if size &&& 0xFFF ≠ 0 then 1 else 0

/-- `Status`, `MemMap` and `MemMapKey` when the memory map has been asked
for. -/
structure MemoryMap where
  status : Status
  memMap : BitVec 32
  memMapKey : BitVec 32

/-- Ask for the size of the memory map and then for the map. -/
def readMemoryMap : Loader MemoryMap := do
  let first ← call (.getMemoryMap 0 0)
  if first.status = efiBufferTooSmall then
    let memMap ← call (.allocatePool first.memMapSize)
    if memMap ≠ 0 then
      let second ← call (.getMemoryMap first.memMapSize memMap)
      return ⟨second.status, memMap, second.memMapKey⟩
    else return ⟨efiOutOfResources, memMap, first.memMapKey⟩
  else return ⟨first.status, 0, first.memMapKey⟩

/-- From the memory map on. -/
def leaveFirmware (targetAddr : BitVec 64) (pagesCount : BitVec 32) :
    Loader Status := do
  let map ← readMemoryMap
  if EfiError map.status then
    printStatus "GetMemoryMap failed: %r\n" map.status
    let _ ← call (.freePages targetAddr pagesCount)
    if map.memMap ≠ 0 then
      let _ ← call (.freePool map.memMap)
      return map.status
    else return map.status
  else
    let status ← call (.exitBootServices map.memMapKey)
    if EfiError status then
      printStatus "ExitBootServices failed: %r\n" status
      let _ ← call (.freePages targetAddr pagesCount)
      let _ ← call (.freePool map.memMap)
      return status
    else
      call .asm
      return efiSuccess

/-- From the disk on. -/
def loadKernel (blockIo : BlockIo) : Loader Status := do
  call (.print "Disk found. Block size: %d bytes, Last LBA: 0x%llx\n"
    [blockIo.blockSize.setWidth 64, blockIo.lastBlock])
  let bufferSize := 8 * blockIo.blockSize
  let pagesCount := efiSizeToPages bufferSize
  let pages ← call (.allocatePages pagesCount)
  if EfiError pages.status then
    printStatus "Failed to allocate memory for kernel: %r\n" pages.status
    return pages.status
  else
    let readBuffer := pages.targetAddr.setWidth 32
    let status ← call
      (.readBlocks blockIo blockIo.mediaId 1 bufferSize readBuffer)
    if EfiError status then
      printStatus "ReadBlocks failed: %r\n" status
      let _ ← call (.freePages pages.targetAddr pagesCount)
      return status
    else leaveFirmware pages.targetAddr pagesCount

/-- `UefiMain` in `entry.c`. -/
def uefiMain : Loader Status := do
  let located ← call .locateHandleBuffer
  if EfiError located.status then
    printStatus "Failed to locate BlockIo handles: %r\n" located.status
    return located.status
  else
    let disk ← findDisk located.handles none
    let _ ← call (.freePool located.buffer)
    match disk with
    | none =>
        call (.print "No suitable physical disk found.\n" [])
        return efiNotFound
    | some blockIo => loadKernel blockIo

end Uefi

end OpenFerain
