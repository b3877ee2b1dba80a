import Mathlib.Data.Nat.Notation

/-!
# The kernel's memory map

The fixed physical addresses of the kernel's tables, from `paging.h`,
`descriptor.h` and `task.h`.  In address order: the page directory and page
table, the GDT, the IDT, the task data, the task LDTs, the page bitmap, the
temporary page table and the task bitmap.
-/

namespace OpenFerain

/-! ## `paging.h` -/

def kernelPdPhyAddr : BitVec 32 := 0x00000000
def kernelPtPhyAddr : BitVec 32 := 0x00001000
def pageSize : BitVec 32 := 0x1000

/-! ## `descriptor.h` -/

def gdtBase : BitVec 32 := 0x00002000
def gdtLimit : BitVec 32 := 0x00001FFF
def idtBase : BitVec 32 := 0x00004000
def idtLimit : BitVec 32 := 0x000007FF

/-! ## `task.h` -/

def taskDataBase : BitVec 32 := 0x00005000
def taskLdtBase : BitVec 32 := 0x00015000
def memMapBase : BitVec 32 := 0x00020000
def tempPtBase : BitVec 32 := 0x00048000
def taskMapBase : BitVec 32 := 0x00049000

end OpenFerain
