import OpenFerain.Ia32.Memory

/-!
# The encoding of a division

`DIV` and `IDIV` in 32-bit code: operand size prefixes, an opcode, a ModRM
byte, and what the ModRM byte asks for, which is a SIB byte, a displacement,
both or nothing.
-/

namespace Ia32

/-! ## The ModRM byte and the SIB byte -/

def modField (modrm : BitVec 8) : BitVec 8 := modrm >>> 6

def regField (modrm : BitVec 8) : BitVec 8 := modrm >>> 3 &&& 7

def rmField (modrm : BitVec 8) : BitVec 8 := modrm &&& 7

def baseField (sib : BitVec 8) : BitVec 8 := sib &&& 7

/-- An operand in memory whose r/m field is 4 has a SIB byte. -/
def sibSize (modrm : BitVec 8) : ℕ :=
  if modField modrm ≠ 3 ∧ rmField modrm = 4 then 1 else 0

/-- The number of bytes of the displacement. -/
def dispSize (modrm sib : BitVec 8) : ℕ :=
  if modField modrm = 0 then
    if rmField modrm = 5 then 4
    else if rmField modrm = 4 ∧ baseField sib = 5 then 4
    else 0
  else if modField modrm = 1 then 1
  else if modField modrm = 2 then 4
  else 0

/-! ## Divisions -/

/-- A `DIV` or `IDIV`.  The byte `sib` is part of the instruction only where
the ModRM byte asks for it. -/
structure Division where
  prefixes : ℕ
  opcode : BitVec 8
  modrm : BitVec 8
  sib : BitVec 8
  disp : List (BitVec 8)
  opcode_eq : opcode = 0xF6 ∨ opcode = 0xF7
  regField_eq : regField modrm = 6 ∨ regField modrm = 7
  disp_length : disp.length = dispSize modrm sib

namespace Division

/-- The bytes of the instruction. -/
def bytes (d : Division) : List (BitVec 8) :=
  List.replicate d.prefixes 0x66 ++
    d.opcode :: d.modrm :: (List.replicate (sibSize d.modrm) d.sib ++ d.disp)

theorem bytes_length (d : Division) :
    d.bytes.length =
      d.prefixes + 1 + (1 + sibSize d.modrm + dispSize d.modrm d.sib) := by
  simp only [bytes, List.length_append, List.length_replicate,
    List.length_cons, d.disp_length]
  omega

variable {d : Division} {k : ℕ}

theorem getElem?_bytes_prefix (hk : k < d.prefixes) :
    d.bytes[k]? = some 0x66 := by
  have hlen : k < (List.replicate d.prefixes (0x66 : BitVec 8)).length := by
    rwa [List.length_replicate]
  rw [bytes, List.getElem?_append_left hlen, List.getElem?_replicate,
    if_pos hk]

theorem getElem?_bytes_add (d : Division) (k : ℕ) :
    d.bytes[d.prefixes + k]? =
      (d.opcode :: d.modrm ::
        (List.replicate (sibSize d.modrm) d.sib ++ d.disp))[k]? := by
  rw [bytes, List.getElem?_append_right
    (by rw [List.length_replicate]; omega), List.length_replicate,
    Nat.add_sub_cancel_left]

theorem opcode_ne_prefix (d : Division) : d.opcode ≠ 0x66 := by
  rcases d.opcode_eq with h | h
  · rw [h]
    decide
  · rw [h]
    decide

end Division

end Ia32
