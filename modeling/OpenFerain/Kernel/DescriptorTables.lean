import OpenFerain.Interrupt.Gates
import OpenFerain.Kernel.Descriptors
import OpenFerain.Kernel.TaskTables

/-!
# Writes to the descriptor tables

What `set_gd` and `set_id` write decodes to the arguments of the call, and the
LDT words that `creat_task` composes by hand are those `set_gd` would compose.
The check of both functions compares an index with the limit of the table,
which counts bytes.  An index past the last entry and up to the limit passes
the check, and the entry is then written behind the table.
-/

namespace OpenFerain

open Ia32 Access

/-! ## Calls -/

/-- The arguments of a call of `set_gd`. -/
structure GdCall where
  gdNumber : BitVec 32
  gdBase : BitVec 32
  gdLimit : BitVec 32
  g : BitVec 8
  s : BitVec 8
  type : BitVec 8
  dpl : BitVec 8

def GdCall.run (c : GdCall) : Access Unit :=
  setGd c.gdNumber c.gdBase c.gdLimit c.g c.s c.type c.dpl

/-- The arguments of a call of `set_id`. -/
structure IdCall where
  idNumber : BitVec 32
  idSegment : BitVec 16
  idOffset : BitVec 32
  dpl : BitVec 8
  type : BitVec 8

def IdCall.run (c : IdCall) : Access Unit :=
  setId c.idNumber c.idSegment c.idOffset c.dpl c.type

variable {m m' : Memory} {table limit number low high x : BitVec 32}

/-! ## The common body -/

/-- The common body of `set_gd` and `set_id`: two words at an index that is not
above the limit. -/
def checkedEntry (table limit number low high : BitVec 32) : Access Unit :=
  if number > limit then pure ()
  else do
    write32 (table + number * 8) low
    write32 (table + number * 8 + 4) high

theorem gdCall_run_eq (c : GdCall) :
    c.run = checkedEntry gdtBase gdtLimit c.gdNumber
      (gdLow c.gdBase c.gdLimit)
      (gdHigh c.gdBase c.gdLimit c.g c.s c.type c.dpl) := rfl

theorem idCall_run_eq (c : IdCall) :
    c.run = checkedEntry idtBase idtLimit c.idNumber
      (idLow c.idSegment c.idOffset c.type)
      (idHigh c.idOffset c.dpl c.type) := rfl

/-- The byte lies in the table, its last byte included. -/
def InLimit (table limit x : BitVec 32) : Prop :=
  (x - table).toNat ≤ limit.toNat

/-- The entry lies in the table. -/
def NamesEntry (limit number : BitVec 32) : Prop :=
  number.toNat * 8 + 7 ≤ limit.toNat

/-- The eight bytes at an index. -/
def InEntry (table number x : BitVec 32) : Prop :=
  (x - (table + number * 8)).toNat < 8

theorem checkedEntry_of_gt (h : limit.toNat < number.toNat) :
    checkedEntry table limit number low high = pure () := by
  have hgt : number > limit := h
  rw [checkedEntry, if_pos hgt]

theorem exec_checkedEntry (h : number.toNat ≤ limit.toNat) (m : Memory) :
    (checkedEntry table limit number low high).exec m =
      (m.write (table + number * 8) (bytes32 low)).write
        (table + number * 8 + 4) (bytes32 high) := by
  have hle : ¬number > limit := Nat.not_lt.mpr h
  rw [checkedEntry, if_neg hle, exec_bind, exec_write32, exec_write32]

/-- No byte outside the entry changes. -/
theorem exec_checkedEntry_apply (hx : ¬InEntry table number x) (m : Memory) :
    (checkedEntry table limit number low high).exec m x = m x := by
  rcases Nat.lt_or_ge limit.toNat number.toNat with hgt | hle
  · rw [checkedEntry_of_gt hgt, exec_pure]
  · rw [InEntry] at hx
    rw [exec_checkedEntry hle, Memory.write_apply_of_le,
      Memory.write_apply_of_le]
    · rw [bytes32_length]
      omega
    · rw [bytes32_length]
      bv_omega

/-- What an entry that is written holds does not depend on what the memory
held. -/
theorem exec_checkedEntry_congr (h : number.toNat ≤ limit.toNat)
    (hx : InEntry table number x) (m m' : Memory) :
    (checkedEntry table limit number low high).exec m x =
      (checkedEntry table limit number low high).exec m' x := by
  rw [InEntry] at hx
  rw [exec_checkedEntry h, exec_checkedEntry h]
  by_cases hhigh : (x - (table + number * 8 + 4)).toNat < 4
  · rw [Memory.write_apply_of_lt (by rwa [bytes32_length]),
      Memory.write_apply_of_lt (by rwa [bytes32_length])]
  · have hlow : (x - (table + number * 8)).toNat < 4 := by bv_omega
    have hkeep : ∀ m : Memory,
        m.write (table + number * 8 + 4) (bytes32 high) x = m x :=
      fun m => Memory.write_apply_of_le (Nat.le_of_not_lt hhigh)
    rw [hkeep, hkeep, Memory.write_apply_of_lt (by rwa [bytes32_length]),
      Memory.write_apply_of_lt (by rwa [bytes32_length])]

/-! ## Decoding -/

/-- The entry is there, and every argument is within the width of its field. -/
structure GdCall.InWidth (c : GdCall) : Prop where
  gdNumber : c.gdNumber.toNat ≤ 1023
  gdLimit : c.gdLimit.toNat < 2 ^ 20
  g : c.g.toNat < 2
  s : c.s.toNat < 2
  type : c.type.toNat < 16
  dpl : c.dpl.toNat < 4

/-- The descriptor has the arguments of the call in its fields. -/
structure GdCall.Describes (c : GdCall) (d : SegmentDescriptor) : Prop where
  base : d.base = c.gdBase
  limit : d.limit.toNat = c.gdLimit.toNat
  granular : d.granular.toNat = c.g.toNat
  codeOrData : d.codeOrData.toNat = c.s.toNat
  type : d.type.toNat = c.type.toNat
  dpl : d.dpl.toNat = c.dpl.toNat
  present : d.present = true

structure IdCall.InWidth (c : IdCall) : Prop where
  idNumber : c.idNumber.toNat ≤ 255
  dpl : c.dpl.toNat < 4
  type : c.type.toNat < 16

/-- The gate has the arguments of the call in its fields; a task gate has no
offset. -/
structure IdCall.Describes (c : IdCall) (d : GateDescriptor) : Prop where
  selector : d.selector = c.idSegment
  offset : c.type ≠ idTypeTask → d.offset = c.idOffset
  dpl : d.dpl.toNat = c.dpl.toNat
  type : d.type.toNat = c.type.toNat
  present : d.present = true

/-- The LDT words of `creat_task` are those that `set_gd` composes for a code
segment of 4 GB at `taskCodeBase` and a data segment of 4 GB at 0. -/
structure LdtWordsAgree (taskCodeBase : BitVec 32) : Prop where
  codeLow : ldtCodeLow taskCodeBase = gdLow taskCodeBase 0xFFFFF
  codeHigh : ldtCodeHigh taskCodeBase =
    gdHigh taskCodeBase 0xFFFFF gdGPage gdNormal gdTypeCode plUser
  dataLow : ldtDataLow = gdLow 0 0xFFFFF
  dataHigh : ldtDataHigh =
    gdHigh 0 0xFFFFF gdGPage gdNormal gdTypeData plUser

theorem toNat_setWidth_of_lt {w k : ℕ} {v : BitVec w} (h : v.toNat < 2 ^ k) :
    (v.setWidth k).toNat = v.toNat := by
  rw [BitVec.toNat_setWidth, Nat.mod_eq_of_lt h]

theorem toNat_getLsbD_zero {v : BitVec 8} (h : v.toNat < 2) :
    (v.getLsbD 0).toNat = v.toNat := by
  rw [BitVec.getLsbD, Nat.testBit_zero]
  obtain hzero | hone : v.toNat = 0 ∨ v.toNat = 1 := by omega
  · rw [hzero]
    rfl
  · rw [hone]
    rfl

theorem GdCall.InWidth.describes {c : GdCall} (h : c.InWidth) (m : Memory) :
    c.Describes (descriptorAt (c.run.exec m) gdtBase c.gdNumber) := by
  have hnumber := h.gdNumber
  rw [GdCall.run, descriptorAt_setGd (by omega)]
  constructor
  · rfl
  · exact toNat_setWidth_of_lt h.gdLimit
  · exact toNat_getLsbD_zero h.g
  · exact toNat_getLsbD_zero h.s
  · exact toNat_setWidth_of_lt h.type
  · exact toNat_setWidth_of_lt h.dpl
  · rfl

/-- The two words of an entry read back as they were written. -/
theorem load32_checkedEntry (h : number.toNat ≤ limit.toNat) (m : Memory) :
    let m' := (checkedEntry table limit number low high).exec m
    m'.load32 (table + number * 8) = low ∧
      m'.load32 (table + number * 8 + 4) = high := by
  simp only [exec_checkedEntry h]
  constructor
  · rw [Memory.load32_write_bytes32_of_apart, Memory.load32_write_bytes32]
    · bv_omega
    · bv_omega
  · rw [Memory.load32_write_bytes32]

theorem IdCall.InWidth.describes {c : IdCall} (h : c.InWidth) (m : Memory) :
    c.Describes (gateAt (c.run.exec m) idtBase c.idNumber) := by
  have hnumber : c.idNumber.toNat ≤ idtLimit.toNat := by
    have hle := h.idNumber
    have hlimit : idtLimit.toNat = 2047 := rfl
    omega
  obtain ⟨hlow, hhigh⟩ := load32_checkedEntry hnumber m
  rw [gateAt, idCall_run_eq, hlow, hhigh]
  by_cases htask : c.type = idTypeTask
  · rw [htask, decodeGate_task]
    refine ⟨rfl, fun hne => absurd htask hne, ?_, ?_, rfl⟩
    · exact toNat_setWidth_of_lt h.dpl
    · rw [htask]
      rfl
  · rw [decodeGate_of_ne_task htask]
    refine ⟨rfl, fun _ => rfl, ?_, ?_, rfl⟩
    · exact toNat_setWidth_of_lt h.dpl
    · exact toNat_setWidth_of_lt h.type

theorem ldtWordsAgree (taskCodeBase : BitVec 32) :
    LdtWordsAgree taskCodeBase := by
  constructor
  · rfl
  · apply BitVec.eq_of_getLsbD_eq
    intro i hi
    simp only [ldtCodeHigh, gdHigh, gdGPage, gdNormal, gdTypeCode, plUser]
    interval_cases i <;> simp
  · decide
  · decide

/-- Decoding what `set_gd` and `set_id` write gives back their arguments, and no
other entry changes.  The LDT words that `creat_task` composes are in the same
format. -/
theorem descriptors_decode (gd : GdCall) (id : IdCall)
    (taskCodeBase : BitVec 32) (m : Memory) (hgd : gd.InWidth)
    (hid : id.InWidth) :
    (gd.Describes (descriptorAt (gd.run.exec m) gdtBase gd.gdNumber) ∧
        ∀ x, ¬InEntry gdtBase gd.gdNumber x → gd.run.exec m x = m x) ∧
      (id.Describes (gateAt (id.run.exec m) idtBase id.idNumber) ∧
        ∀ x, ¬InEntry idtBase id.idNumber x → id.run.exec m x = m x) ∧
      LdtWordsAgree taskCodeBase := by
  refine ⟨⟨hgd.describes m, ?_⟩, ⟨hid.describes m, ?_⟩,
    ldtWordsAgree taskCodeBase⟩
  · intro x hx
    exact exec_checkedEntry_apply hx m
  · intro x hx
    exact exec_checkedEntry_apply hx m

/-- The kernel code segment of `descriptor_init`. -/
def kernelCodeCall : GdCall where
  gdNumber := 1
  gdBase := 0
  gdLimit := 0xFFFFF
  g := gdGPage
  s := gdNormal
  type := gdTypeCode
  dpl := plKernel

/-- The gate of the video interrupt, with the stub at `func`. -/
def videoGateCall (func : BitVec 32) : IdCall where
  idNumber := 0x41
  idSegment := 0x08
  idOffset := func
  dpl := plUser
  type := idTypeInt

theorem descriptors_decode_kernelCode :
    (kernelCodeCall.Describes (descriptorAt
        (kernelCodeCall.run.exec fun _ => 0) gdtBase 1) ∧
        ∀ x, ¬InEntry gdtBase 1 x →
          kernelCodeCall.run.exec (fun _ => 0) x = 0) ∧
      ((videoGateCall 0x100000).Describes (gateAt
        ((videoGateCall 0x100000).run.exec fun _ => 0) idtBase 0x41) ∧
        ∀ x, ¬InEntry idtBase 0x41 x →
          (videoGateCall 0x100000).run.exec (fun _ => 0) x = 0) ∧
      LdtWordsAgree 0x00400000 :=
  descriptors_decode kernelCodeCall (videoGateCall 0x100000) 0x00400000
    (fun _ => 0) (by constructor <;> decide) (by constructor <;> decide)

/-! ## Staying in the table -/

/-- The entry is written in the table, or not at all where the table has no
such entry. -/
def StaysInTable (table limit number : BitVec 32) (p : Access Unit) : Prop :=
  ∀ m : Memory, (∀ x, ¬InLimit table limit x → p.exec m x = m x) ∧
    (¬NamesEntry limit number → p.exec m = m)

/-- For every byte there is a memory in which it changes. -/
theorem exists_changed (low high : BitVec 32)
    (h : number.toNat ≤ limit.toNat) (hx : InEntry table number x) :
    ∃ m : Memory,
      (checkedEntry table limit number low high).exec m x ≠ m x := by
  by_contra hsame
  simp only [ne_eq, not_exists, not_not] at hsame
  have hzero := hsame fun _ => 0
  have hone := hsame fun _ => 1
  rw [exec_checkedEntry_congr h hx _ fun _ => 0, hzero] at hone
  exact absurd hone (by decide)

/-- For a table of `entries` entries, the index has to name one of them or to
be above the limit. -/
theorem staysInTable_checkedEntry_iff (entries : ℕ)
    (hentries : limit.toNat + 1 = entries * 8) (hfits : limit.toNat < 2 ^ 28) :
    StaysInTable table limit number
        (checkedEntry table limit number low high) ↔
      number.toNat < entries ∨ limit.toNat < number.toNat := by
  constructor
  · intro h
    by_contra hpast
    rw [not_or, Nat.not_lt, Nat.not_lt] at hpast
    have hfirst : InEntry table number (table + number * 8) := by
      rw [InEntry]
      bv_omega
    obtain ⟨m, hchanged⟩ := exists_changed low high hpast.2 hfirst
    refine hchanged ((h m).1 _ ?_)
    rw [InLimit]
    bv_omega
  · rintro (hin | hgt) m
    · refine ⟨?_, fun hnone => absurd ?_ hnone⟩
      · intro x hx
        apply exec_checkedEntry_apply
        rw [InLimit] at hx
        rw [InEntry]
        bv_omega
      · rw [NamesEntry]
        omega
    · rw [checkedEntry_of_gt hgt]
      exact ⟨fun _ _ => rfl, fun _ => rfl⟩

/-! ## Sequences of calls -/

/-- The memory after the calls, in order. -/
def execCalls (calls : List GdCall) (m : Memory) : Memory :=
  calls.foldl (fun m c => c.run.exec m) m

/-- The IDT, and the task data up to the task LDTs. -/
def InIdtOrTaskData (x : BitVec 32) : Prop :=
  InLimit idtBase idtLimit x ∨ InTable taskDataBase taskLdtBase x

/-- The entry at the index of the call lies in the IDT or in the task data,
and the check lets the call pass. -/
def GdCall.Strays (c : GdCall) : Prop :=
  (1024 ≤ c.gdNumber.toNat ∧ c.gdNumber.toNat ≤ 1279) ∨
    (1536 ≤ c.gdNumber.toNat ∧ c.gdNumber.toNat ≤ 8191)

/-- The calls change no byte of the IDT or of the task data. -/
def SparesTables (calls : List GdCall) : Prop :=
  ∀ (m : Memory) x, InIdtOrTaskData x → execCalls calls m x = m x

theorem exec_gdCall_of_not_strays {c : GdCall} (hc : ¬c.Strays)
    (hx : InIdtOrTaskData x) (m : Memory) : c.run.exec m x = m x := by
  rw [GdCall.Strays] at hc
  rw [gdCall_run_eq]
  rcases Nat.lt_or_ge gdtLimit.toNat c.gdNumber.toNat with hgt | hle
  · rw [checkedEntry_of_gt hgt, exec_pure]
  · apply exec_checkedEntry_apply
    have hlimit : gdtLimit.toNat = 8191 := rfl
    simp only [InIdtOrTaskData, InLimit, InTable, InEntry, gdtBase, idtBase,
      idtLimit, taskDataBase, taskLdtBase] at hx ⊢
    bv_omega

/-- What the calls leave in a byte that one of them writes does not depend on
what the memory held. -/
theorem execCalls_congr {calls : List GdCall}
    (h : ∃ c ∈ calls, c.gdNumber.toNat ≤ gdtLimit.toNat ∧
      InEntry gdtBase c.gdNumber x) (m m' : Memory) :
    execCalls calls m x = execCalls calls m' x := by
  induction calls using List.reverseRecOn with
  | nil =>
      obtain ⟨c, hc, -⟩ := h
      exact absurd hc List.not_mem_nil
  | append_singleton calls last ih =>
      simp only [execCalls, List.foldl_append, List.foldl_cons,
        List.foldl_nil]
      by_cases hlast : last.gdNumber.toNat ≤ gdtLimit.toNat ∧
          InEntry gdtBase last.gdNumber x
      · exact exec_checkedEntry_congr hlast.1 hlast.2 _ _
      · have hkeep : ∀ m : Memory, last.run.exec m x = m x := by
          intro m
          rcases Nat.lt_or_ge gdtLimit.toNat last.gdNumber.toNat with hgt | hle
          · rw [gdCall_run_eq, checkedEntry_of_gt hgt, exec_pure]
          · exact exec_checkedEntry_apply (fun hx => hlast ⟨hle, hx⟩) m
        rw [hkeep, hkeep]
        apply ih
        obtain ⟨c, hc, hwrites⟩ := h
        rcases List.mem_append.mp hc with hold | hnew
        · exact ⟨c, hold, hwrites⟩
        · rw [List.mem_singleton] at hnew
          exact absurd (hnew ▸ hwrites) hlast

theorem sparesTables_iff (calls : List GdCall) :
    SparesTables calls ↔ ∀ c ∈ calls, ¬c.Strays := by
  constructor
  · intro h c hc hstrays
    have hfirst : InEntry gdtBase c.gdNumber (gdtBase + c.gdNumber * 8) := by
      rw [InEntry]
      bv_omega
    have hin : InIdtOrTaskData (gdtBase + c.gdNumber * 8) := by
      simp only [GdCall.Strays] at hstrays
      simp only [InIdtOrTaskData, InLimit, InTable, gdtBase, idtBase,
        idtLimit, taskDataBase, taskLdtBase]
      bv_omega
    have hle : c.gdNumber.toNat ≤ gdtLimit.toNat := by
      simp only [GdCall.Strays] at hstrays
      have hlimit : gdtLimit.toNat = 8191 := rfl
      omega
    have hzero := h (fun _ => 0) _ hin
    have hone := h (fun _ => 1) _ hin
    rw [execCalls_congr ⟨c, hc, hle, hfirst⟩ _ fun _ => 0, hzero] at hone
    exact absurd hone (by decide)
  · intro h m x hx
    induction calls using List.reverseRecOn with
    | nil => rfl
    | append_singleton calls last ih =>
        rw [List.forall_mem_append] at h
        simp only [execCalls, List.foldl_append, List.foldl_cons,
          List.foldl_nil]
        rw [exec_gdCall_of_not_strays
          (h.2 last (List.mem_singleton_self last)) hx]
        exact ih h.1

/-- A call of `set_gd` and a call of `set_id` stay in their tables, and a
sequence of calls of `set_gd` spares the IDT and the task data, exactly as long
as the indices name entries or are above the limit that they are checked
against. -/
theorem descriptorWrites_stay_iff (gd : GdCall) (id : IdCall)
    (calls : List GdCall) :
    (StaysInTable gdtBase gdtLimit gd.gdNumber gd.run ↔
        gd.gdNumber.toNat ≤ 1023 ∨ 0x1FFF < gd.gdNumber.toNat) ∧
      (StaysInTable idtBase idtLimit id.idNumber id.run ↔
        id.idNumber.toNat ≤ 255 ∨ 0x7FF < id.idNumber.toNat) ∧
      (SparesTables calls ↔ ∀ c ∈ calls, ¬c.Strays) := by
  refine ⟨?_, ?_, sparesTables_iff calls⟩
  · rw [gdCall_run_eq, staysInTable_checkedEntry_iff 1024 rfl (by decide)]
    exact or_congr_left Nat.lt_succ_iff
  · rw [idCall_run_eq, staysInTable_checkedEntry_iff 256 rfl (by decide)]
    exact or_congr_left Nat.lt_succ_iff

/-- The call that `creat_task` makes for the LDT of task number 510. -/
def ldtCallOfTask510 : GdCall where
  gdNumber := 4 + 510 * 2
  gdBase := taskLdtBase + 510 * 32
  gdLimit := 0x1F
  g := gdGByte
  s := gdSystem
  type := gdTypeLdt
  dpl := plKernel

/-- The LDT descriptor of task number 510 is written over the gate of vector
0. -/
theorem not_staysInTable_task510 :
    ¬∀ c : GdCall, StaysInTable gdtBase gdtLimit c.gdNumber c.run := by
  intro h
  have hkept := (h ldtCallOfTask510 fun _ => 0).1 0x4000 (by
    rw [InLimit]
    decide)
  revert hkept
  decide +kernel

end OpenFerain
