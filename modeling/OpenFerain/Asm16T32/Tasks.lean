import OpenFerain.Asm16T32.Tables

/-!
# The tasks of `16T32.asm`

`_creat_task` takes a task's base and the sizes of its code and data and enters
the task in five tables: the base table, the GDT, the LDT that all tasks share,
the memory of the task state segments, and the interrupt table, where a gate
leads to the task.  Five variables say where the next entry goes.  Every task
is then reached through its gate, runs in its own segments, and finds its base
through `_LOAD_BASE`, whatever tasks are created after it.
-/

namespace OpenFerain.Asm16T32

open Ia32

/-! ## The source functions -/

/-- The registers of a call of `_creat_task`. -/
structure TaskArgs where
  eax : BitVec 32
  esi : BitVec 32
  edi : BitVec 32

/-- The first instructions of `_creat_task`: the base goes to the base
table. -/
def saveBase (args : TaskArgs) (m : Memory) : Memory :=
  let ebx := m.load32 0x2028#32
  let m := m.write ebx (bytes32 args.eax)
  m.write 0x2028#32 (bytes32 (ebx + 4))

/-- The next instructions of `_creat_task`: the descriptor of the task state
segment. -/
def saveDescriptor (m : Memory) : Memory :=
  let bx := m.load16 0x2000#32
  let m := storeAt bx [field16 0 0x0067] m
  let dx := m.load16 0x2002#32
  let m := storeAt bx [field16 2 dx, field32 4 0x00008900] m
  let m := m.write 0x2000#32 (bytes16 (bx + 8))
  m.write 0x2002#32 (bytes16 (dx + 0x80))

/-- `_ldt_creat` in `16T32.asm`: the memory, and `cx`. -/
def ldtCreat (args : TaskArgs) (m : Memory) : Memory × BitVec 16 :=
  let bx := m.load16 0x2010#32
  let cx := bx - 0x1C00 ||| 0x7
  let ax := args.eax.setWidth 16
  let dl := (args.eax >>> 16).extractLsb' 0 8
  let dh := (args.eax >>> 16).extractLsb' 8 8
  let m := storeAt bx
    [field16 0 ((args.esi - 1).setWidth 16), field16 2 ax, field8 4 dl,
      field8 5 0xFA, field8 6 0x40, field8 7 dh,
      field16 8 ((args.edi - 1).setWidth 16), field16 10 ax, field8 12 dl,
      field8 13 0xF2, field8 14 0x40, field8 15 dh] m
  (m.write 0x2010#32 (bytes16 (bx + 16)), cx)

/-- `_tss_creat` in `16T32.asm`. -/
def tssCreat (cx : BitVec 16) (m : Memory) : Memory :=
  let bx := m.load16 0x2002#32 - 0x80
  storeAt bx
    [field16 0 0x0038, field16 2 0x0000, field32 4 0x0000FFF0,
      field16 8 0x0018, field16 10 0x0000, field32 12 0x00000000,
      field16 16 0x0000, field16 18 0x0000, field32 20 0x00000000,
      field16 24 0x0000, field16 26 0x0000, field32 28 0x00000000,
      field32 32 0x00000000, field32 36 0x00000202, field32 40 0x00000000,
      field32 44 0x00000000, field32 48 0x00000000, field32 52 0x00000000,
      field32 56 0x0000FFF0, field32 60 0x00000000, field32 64 0x00000000,
      field32 68 0x00000000, field16 72 (cx + 8), field16 74 0x0000,
      field16 76 cx, field16 78 0x0000, field16 80 0x002B, field16 82 0x0000,
      field16 84 (cx + 8), field16 86 0x0000, field16 88 0x0000,
      field16 90 0x0000, field16 92 0x0000, field16 94 0x0000,
      field16 96 0x0030, field16 98 0x0000, field16 100 0x0000,
      field16 102 0x0068] m

/-- The last instructions of `_creat_task`: the gate. -/
def saveGate (m : Memory) : Memory :=
  let bx := m.load16 0x2020#32
  let m := storeAt bx [field16 0 0x0000] m
  let dx := m.load16 0x2000#32 - 0x6008
  let m := storeAt bx [field16 2 dx, field32 4 0x0000E500] m
  m.write 0x2020#32 (bytes16 (bx + 8))

/-- `_creat_task` in `16T32.asm`. -/
def creatTask (args : TaskArgs) (m : Memory) : Memory :=
  let m := saveDescriptor (saveBase args m)
  let ldt := ldtCreat args m
  saveGate (tssCreat ldt.2 ldt.1)

/-- `_LOAD_BASE` in `16T32.asm`: `eax` for a caller with this `ds`. -/
def loadBase (ds : BitVec 16) (m : Memory) : BitVec 32 :=
  let eax := ((ds &&& 0x00F8).setWidth 32 >>> 4) - 1
  m.load32 (eax <<< 2 + 0x10000)

/-- What the registers of a call of `_SERVER` hold. -/
structure Call where
  bh : BitVec 8
  ds : BitVec 16
  args : TaskArgs

/-- `_SERVER` in `16T32.asm`: the memory, and `eax`.  `_LOAD_BASE` sets `DS` to
the flat segment `0x10`, but `_creat_task` goes through the `DS` of its caller.
What a call with another segment comes to is not followed. -/
def server (call : Call) (m : Memory) : Option (Memory × BitVec 32) :=
  if call.bh = 0x00 then some (m, loadBase call.ds m)
  else if call.bh = 0x01 then
    if call.ds = 0x0010 then some (creatTask call.args m, call.args.eax)
    else none
  else some (m, loadBase call.ds m)

/-! ## Where the entries go -/

/-- The next GDT entry, the address of the next task state segment, the next
pair of LDT entries and the next vector. -/
structure Next where
  segment : ℕ
  tss : ℕ
  pair : ℕ
  vector : ℕ

/-- After `n` more tasks. -/
def Next.skip (s : Next) (n : ℕ) : Next where
  segment := s.segment + n
  tss := s.tss + 0x80 * n
  pair := s.pair + n
  vector := s.vector + n

/-- The variables at `0x2000` name the next entries.  The base table has its
first entry for the first pair. -/
structure Points (m : Memory) (s : Next) : Prop where
  segment : m.load16 0x2000#32 = BitVec.ofNat 16 (0x6000 + 8 * s.segment)
  tss : m.load16 0x2002#32 = BitVec.ofNat 16 s.tss
  pair : m.load16 0x2010#32 = BitVec.ofNat 16 (0x1C00 + 16 * s.pair)
  vector : m.load16 0x2020#32 = BitVec.ofNat 16 (0x6800 + 8 * s.vector)
  base : m.load32 0x2028#32 = BitVec.ofNat 32 (0xFFFC + 4 * s.pair)

/-- There is room for `n` more tasks: in the tables, and for the task state
segments apart from the tables and variables. -/
structure Fits (s : Next) (n : ℕ) : Prop where
  segment : 7 ≤ s.segment ∧ s.segment + n ≤ 128
  pair : 1 ≤ s.pair ∧ s.pair + n ≤ 64
  vector : s.vector + n ≤ 128
  tss : s.tss + 0x80 * n ≤ 0x1C00 ∨
    0x202C ≤ s.tss ∧ s.tss + 0x80 * n ≤ 0x6000 ∨
    0x6400 ≤ s.tss ∧ s.tss + 0x80 * n ≤ 0x6800 ∨
    0x6C00 ≤ s.tss ∧ s.tss + 0x80 * n ≤ 0x10000

/-! ## The entries of a task -/

/-- `cx`: the code selector of a pair. -/
def codeSelector (pair : ℕ) : BitVec 16 := BitVec.ofNat 16 (16 * pair) ||| 0x7

def descriptorWords (tss : ℕ) : List (BitVec 32) :=
  [BitVec.ofNat 16 tss ++ (0x0067 : BitVec 16), 0x00008900]

/-- The two words of a segment with the byte `access`. -/
def segmentWords (base size : BitVec 32) (access : BitVec 8) :
    List (BitVec 32) :=
  [base.setWidth 16 ++ (size - 1).setWidth 16,
    (base >>> 16).extractLsb' 8 8 ++ (0x40 : BitVec 8) ++ access ++
      (base >>> 16).extractLsb' 0 8]

def ldtWords (args : TaskArgs) : List (BitVec 32) :=
  segmentWords args.eax args.esi 0xFA ++ segmentWords args.eax args.edi 0xF2

def gateWords (segment : ℕ) : List (BitVec 32) :=
  [BitVec.ofNat 16 (8 * segment) ++ (0x0000 : BitVec 16), 0x0000E500]

/-- A word with a selector in its low half. -/
def selectorWord (selector : BitVec 16) : BitVec 32 :=
  (0x0000 : BitVec 16) ++ selector

def tssWords (cx : BitVec 16) : List (BitVec 32) :=
  [selectorWord 0x0038, 0x0000FFF0, selectorWord 0x0018, 0, selectorWord 0, 0,
    selectorWord 0, 0, 0, 0x00000202, 0, 0, 0, 0, 0x0000FFF0, 0, 0, 0,
    selectorWord (cx + 8), selectorWord cx, selectorWord 0x002B,
    selectorWord (cx + 8), selectorWord 0, selectorWord 0,
    selectorWord 0x0030, (0x0068 : BitVec 16) ++ (0x0000 : BitVec 16)]

/-- The entries of a task are in the tables. -/
structure Present (s : Next) (args : TaskArgs) (m : Memory) : Prop where
  base : WordsAt m (0xFFFC + 4 * s.pair) [args.eax]
  segment : WordsAt m (0x6000 + 8 * s.segment) (descriptorWords s.tss)
  ldt : WordsAt m (0x1C00 + 16 * s.pair) (ldtWords args)
  tss : WordsAt m s.tss (tssWords (codeSelector s.pair))
  gate : WordsAt m (0x6800 + 8 * s.vector) (gateWords s.segment)

/-- An address of an entry of the task. -/
def InEntries (s : Next) (x : BitVec 32) : Prop :=
  Between (0xFFFC + 4 * s.pair) (0x10000 + 4 * s.pair) x ∨
    Between (0x6000 + 8 * s.segment) (0x6008 + 8 * s.segment) x ∨
    Between (0x1C00 + 16 * s.pair) (0x1C10 + 16 * s.pair) x ∨
    Between s.tss (s.tss + 0x68) x ∨
    Between (0x6800 + 8 * s.vector) (0x6808 + 8 * s.vector) x

/-- An address of the variables. -/
def InVariables (x : BitVec 32) : Prop := Between 0x2000 0x202C x

/-! ## One creation -/

section Creation

variable {s : Next} {args : TaskArgs} {m m' : Memory} {a : ℕ}

theorem saveBase_eq (h : m.load32 0x2028#32 = BitVec.ofNat 32 a) :
    saveBase args m = (m.writeWords a [args.eax]).write 0x2028#32
      (bytes32 (BitVec.ofNat 32 (a + 4))) := by
  rw [saveBase, h, Memory.writeWords, List.flatMap_singleton,
    BitVec.ofNat_add]
  rfl

theorem saveDescriptor_eq {tss : ℕ}
    (hsegment : m.load16 0x2000#32 = BitVec.ofNat 16 a)
    (htss : m.load16 0x2002#32 = BitVec.ofNat 16 tss)
    (ha : 0x2004 ≤ a ∧ a + 8 < 2 ^ 16) :
    saveDescriptor m =
      ((m.writeWords a (descriptorWords tss)).write 0x2000#32
        (bytes16 (BitVec.ofNat 16 (a + 8)))).write 0x2002#32
          (bytes16 (BitVec.ofNat 16 (tss + 0x80))) := by
  have hdx := load16_storeAt_field16 (m := m) (a := a) (x := 0x2002#32) 0x0067
    (by omega) (show 0x2002 + 2 ≤ a by omega)
  have hentry : storeAt (BitVec.ofNat 16 a)
      [field16 0 0x0067, field16 2 (BitVec.ofNat 16 tss),
        field32 4 0x00008900] m = m.writeWords a (descriptorWords tss) := by
    refine storeAt_eq_writeWords ⟨rfl, rfl, rfl, trivial⟩ ?_
      (by simp [descriptorWords]; omega)
    simp [descriptorWords, field16, field32, bytes32_append]
  have hnext : BitVec.ofNat 16 (a + 8) = BitVec.ofNat 16 a + 8 :=
    BitVec.ofNat_add a 8
  have htop : BitVec.ofNat 16 (tss + 0x80) = BitVec.ofNat 16 tss + 0x80 :=
    BitVec.ofNat_add tss 0x80
  simp only [saveDescriptor, hsegment, hdx, htss, storeAt_append,
    List.cons_append, List.nil_append, hentry, hnext, htop]

theorem saveGate_eq {segment : ℕ}
    (hvector : m.load16 0x2020#32 = BitVec.ofNat 16 a)
    (hsegment : m.load16 0x2000#32 = BitVec.ofNat 16 (0x6008 + 8 * segment))
    (ha : 0x2002 ≤ a ∧ a + 8 < 2 ^ 16) :
    saveGate m = (m.writeWords a (gateWords segment)).write 0x2020#32
      (bytes16 (BitVec.ofNat 16 (a + 8))) := by
  have hdx := load16_storeAt_field16 (m := m) (a := a) (x := 0x2000#32) 0x0000
    (by omega) (show 0x2000 + 2 ≤ a by omega)
  have hselector : BitVec.ofNat 16 (0x6008 + 8 * segment) - 0x6008 =
      BitVec.ofNat 16 (8 * segment) := by bv_omega
  have hentry : storeAt (BitVec.ofNat 16 a)
      [field16 0 0x0000, field16 2 (BitVec.ofNat 16 (8 * segment)),
        field32 4 0x0000E500] m = m.writeWords a (gateWords segment) := by
    refine storeAt_eq_writeWords ⟨rfl, rfl, rfl, trivial⟩ ?_
      (by simp [gateWords]; omega)
    simp [gateWords, field16, field32, bytes32_append]
  have hnext : BitVec.ofNat 16 (a + 8) = BitVec.ofNat 16 a + 8 :=
    BitVec.ofNat_add a 8
  simp only [saveGate, hvector, hdx, hsegment, hselector, storeAt_append,
    List.cons_append, List.nil_append, hentry, hnext]

theorem ldtCreat_eq {pair : ℕ}
    (hpair : m.load16 0x2010#32 = BitVec.ofNat 16 (0x1C00 + 16 * pair))
    (ha : pair < 64) :
    ldtCreat args m =
      ((m.writeWords (0x1C00 + 16 * pair) (ldtWords args)).write 0x2010#32
        (bytes16 (BitVec.ofNat 16 (0x1C10 + 16 * pair))),
          codeSelector pair) := by
  have hcx : BitVec.ofNat 16 (0x1C00 + 16 * pair) - 0x1C00 =
      BitVec.ofNat 16 (16 * pair) := by bv_omega
  have hnext : BitVec.ofNat 16 (0x1C10 + 16 * pair) =
      BitVec.ofNat 16 (0x1C00 + 16 * pair) + 16 := by bv_omega
  have hentry : storeAt (BitVec.ofNat 16 (0x1C00 + 16 * pair))
      [field16 0 ((args.esi - 1).setWidth 16),
        field16 2 (args.eax.setWidth 16),
        field8 4 ((args.eax >>> 16).extractLsb' 0 8), field8 5 0xFA,
        field8 6 0x40, field8 7 ((args.eax >>> 16).extractLsb' 8 8),
        field16 8 ((args.edi - 1).setWidth 16),
        field16 10 (args.eax.setWidth 16),
        field8 12 ((args.eax >>> 16).extractLsb' 0 8), field8 13 0xF2,
        field8 14 0x40, field8 15 ((args.eax >>> 16).extractLsb' 8 8)] m =
      m.writeWords (0x1C00 + 16 * pair) (ldtWords args) := by
    refine storeAt_eq_writeWords ?_ ?_ ?_
    · exact ⟨rfl, rfl, rfl, rfl, rfl, rfl, rfl, rfl, rfl, rfl, rfl, rfl,
        trivial⟩
    · simp [ldtWords, segmentWords, field16, field8, bytes32_append,
        bytes32_append4]
    · simp [ldtWords, segmentWords]
      omega
  simp only [ldtCreat, hpair, hcx, hentry, hnext, codeSelector]

theorem tssCreat_eq {tss : ℕ} (cx : BitVec 16)
    (htss : m.load16 0x2002#32 = BitVec.ofNat 16 (tss + 0x80))
    (ha : tss + 0x68 < 2 ^ 16) :
    tssCreat cx m = m.writeWords tss (tssWords cx) := by
  have hbx : BitVec.ofNat 16 (tss + 0x80) - 0x80 = BitVec.ofNat 16 tss := by
    bv_omega
  rw [tssCreat, htss, hbx]
  refine storeAt_eq_writeWords ?_ ?_ (by simp [tssWords]; omega)
  · repeat' constructor
  · simp only [tssWords, selectorWord, field16, field32, bytes32_append,
      List.flatMap_cons, List.flatMap_nil, List.append_assoc]

@[simp] theorem length_descriptorWords (tss : ℕ) :
    (descriptorWords tss).length = 2 := rfl

@[simp] theorem length_ldtWords (args : TaskArgs) :
    (ldtWords args).length = 4 := rfl

@[simp] theorem length_tssWords (cx : BitVec 16) :
    (tssWords cx).length = 26 := rfl

@[simp] theorem length_gateWords (segment : ℕ) :
    (gateWords segment).length = 2 := rfl

/-- The memory after a creation, table by table. -/
def created (s : Next) (args : TaskArgs) (m : Memory) : Memory :=
  let m := (m.writeWords (0xFFFC + 4 * s.pair) [args.eax]).write 0x2028#32
    (bytes32 (BitVec.ofNat 32 (0xFFFC + 4 * s.pair + 4)))
  let m := ((m.writeWords (0x6000 + 8 * s.segment)
    (descriptorWords s.tss)).write 0x2000#32
      (bytes16 (BitVec.ofNat 16 (0x6000 + 8 * s.segment + 8)))).write 0x2002#32
        (bytes16 (BitVec.ofNat 16 (s.tss + 0x80)))
  let m := (m.writeWords (0x1C00 + 16 * s.pair) (ldtWords args)).write 0x2010#32
    (bytes16 (BitVec.ofNat 16 (0x1C10 + 16 * s.pair)))
  let m := m.writeWords s.tss (tssWords (codeSelector s.pair))
  (m.writeWords (0x6800 + 8 * s.vector) (gateWords s.segment)).write 0x2020#32
    (bytes16 (BitVec.ofNat 16 (0x6800 + 8 * s.vector + 8)))

theorem creatTask_eq (hpoints : Points m s) (hfits : Fits s 1) :
    creatTask args m = created s args m := by
  obtain ⟨hsegment, hpair, hvector, htss⟩ := hfits
  have hbase : saveBase args m = _ := saveBase_eq hpoints.base
  have hsegment₁ : (saveBase args m).load16 0x2000#32 =
      BitVec.ofNat 16 (0x6000 + 8 * s.segment) := by
    rw [hbase]
    simp (disch := first | (simp; done) | (simp; omega)) only
      [load16_write_of_apart, load16_writeWords]
    exact hpoints.segment
  have htss₁ : (saveBase args m).load16 0x2002#32 = BitVec.ofNat 16 s.tss := by
    rw [hbase]
    simp (disch := first | (simp; done) | (simp; omega)) only
      [load16_write_of_apart, load16_writeWords]
    exact hpoints.tss
  have hdescriptor := saveDescriptor_eq hsegment₁ htss₁ (by omega)
  have hpair₂ : (saveDescriptor (saveBase args m)).load16 0x2010#32 =
      BitVec.ofNat 16 (0x1C00 + 16 * s.pair) := by
    rw [hdescriptor, hbase]
    simp (disch := first | (simp; done) | (simp; omega)) only
      [load16_write_of_apart, load16_writeWords]
    exact hpoints.pair
  have hldt : ldtCreat args (saveDescriptor (saveBase args m)) = _ :=
    ldtCreat_eq hpair₂ (by omega)
  have htss₃ : (ldtCreat args (saveDescriptor (saveBase args m))).1.load16
      0x2002#32 = BitVec.ofNat 16 (s.tss + 0x80) := by
    rw [hldt, hdescriptor]
    simp (disch := first | (simp; done) | (simp; omega)) only
      [load16_write_of_apart, load16_writeWords, Memory.load16_write_bytes16]
  have htask := tssCreat_eq (codeSelector s.pair) htss₃ (by omega)
  rw [hldt] at htask
  have hcreat : creatTask args m = saveGate (tssCreat (codeSelector s.pair)
      (((saveDescriptor (saveBase args m)).writeWords (0x1C00 + 16 * s.pair)
        (ldtWords args)).write 0x2010#32
          (bytes16 (BitVec.ofNat 16 (0x1C10 + 16 * s.pair))))) := by
    simp only [creatTask, hldt]
  rw [hcreat, htask, hdescriptor, hbase]
  refine saveGate_eq ?_ ?_ (by omega)
  · simp (disch := first | (simp; done) | (simp; omega)) only
      [load16_write_of_apart, load16_writeWords]
    exact hpoints.vector
  · simp (disch := first | (simp; done) | (simp; omega)) only
      [load16_write_of_apart, load16_writeWords, Memory.load16_write_bytes16]
    congr 1
    omega

/-- A creation writes the entries of the task and the variables, and no other
byte. -/
theorem created_apply {x : BitVec 32} (hfits : Fits s 1)
    (hx : ¬InEntries s x) (hvariables : ¬InVariables x) :
    created s args m x = m x := by
  obtain ⟨hsegment, hpair, hvector, htss⟩ := hfits
  simp only [InEntries, InVariables, Between] at hx hvariables
  simp (disch := first | (simp; done) | (simp; omega) |
      (simp only [Between]; simp; omega)) only
    [created, write_apply_of_not_between, writeWords_apply]

/-- The entries of the new task. -/
theorem created_present (hfits : Fits s 1) :
    Present s args (created s args m) := by
  obtain ⟨hsegment, hpair, hvector, htss⟩ := hfits
  constructor
  all_goals
    simp (disch := first | (simp; done) | (simp; omega)) only
      [created, wordsAt_write_iff, wordsAt_writeWords_iff]
    exact wordsAt_writeWords _ (by simp; omega)

/-- The variables name the next entries. -/
theorem created_points (hfits : Fits s 1) :
    Points (created s args m) (s.skip 1) := by
  obtain ⟨hsegment, hpair, hvector, htss⟩ := hfits
  constructor
  all_goals
    simp (disch := first | (simp; done) | (simp; omega)) only
      [created, load16_write_of_apart, load16_writeWords,
        load32_write_of_apart, load32_writeWords, Memory.load16_write_bytes16,
        Memory.load32_write_bytes32, Next.skip]
  all_goals
    congr 1
    all_goals omega

end Creation

/-! ## Whole runs -/

/-- The tables, the variables, and the task state segments of `n` tasks. -/
def InTables (s : Next) (n : ℕ) (x : BitVec 32) : Prop :=
  Between 0x1C00 0x202C x ∨ Between 0x6000 0x6C00 x ∨
    Between 0x10000 0x100FC x ∨ Between s.tss (s.tss + 0x80 * n) x

/-- The system runs from the memory `m₀`: any calls of `_SERVER` come, those
for a task with the flat segment in `DS` and all others with any registers, and
between them the programs write where no table is, as do the pushes of a call.
The list holds the tasks created. -/
inductive Run (s : Next) (m₀ : Memory) : List TaskArgs → Memory → Prop
  | start : Run s m₀ [] m₀
  | serve {tasks m m' eax} (call : Call) (h : Run s m₀ tasks m)
      (hserved : server call m = some (m', eax)) :
      Run s m₀ (if call.bh = 0x01 then tasks ++ [call.args] else tasks) m'
  | other {tasks m m'} (h : Run s m₀ tasks m)
      (hkept : ∀ x, InTables s tasks.length x → m' x = m x) :
      Run s m₀ tasks m'

/-- What holds in a run: the variables name the next entries, every task has
its entries, and the entries before the first task's are those of `m₀`. -/
structure Kept (s : Next) (m₀ : Memory) (tasks : List TaskArgs) (m : Memory) :
    Prop where
  points : Points m (s.skip tasks.length)
  present : ∀ k (h : k < tasks.length), Present (s.skip k) tasks[k] m
  gate : ∀ u < 128, u < s.vector ∨ s.vector + tasks.length ≤ u →
    gate m u = gate m₀ u
  segments : ∀ x, Between 0x6000 (0x6000 + 8 * s.segment) x → m x = m₀ x

section Runs

variable {s : Next} {args : TaskArgs} {m m' m₀ : Memory}
  {tasks : List TaskArgs} {n k : ℕ}

theorem Fits.mono (h : Fits s n) (hk : k ≤ n) : Fits s k where
  segment := ⟨h.segment.1, by have := h.segment.2; omega⟩
  pair := ⟨h.pair.1, by have := h.pair.2; omega⟩
  vector := by have := h.vector; omega
  tss := by have := h.tss; omega

theorem Fits.skip (h : Fits s n) (hk : k < n) : Fits (s.skip k) 1 := by
  obtain ⟨hsegment, hpair, hvector, htss⟩ := h
  constructor
  all_goals
    simp only [Next.skip]
    omega

/-- The entries of a task are in the tables. -/
theorem inTables_of_inEntries (hfits : Fits s n) (hk : k < n) {x : BitVec 32}
    (hx : InEntries (s.skip k) x) : InTables s n x := by
  obtain ⟨hsegment, hpair, hvector, -⟩ := hfits
  simp only [InEntries, InTables, Next.skip, Between] at hx ⊢
  omega

/-- No two tasks share an entry. -/
theorem not_inEntries_later (hfits : Fits s (n + 1)) (hk : k < n)
    {x : BitVec 32} (hx : InEntries (s.skip k) x) :
    ¬InEntries (s.skip n) x ∧ ¬InVariables x := by
  obtain ⟨hsegment, hpair, hvector, htss⟩ := hfits
  simp only [InEntries, InVariables, Next.skip, Between] at hx ⊢
  omega

theorem Present.congr (h : Present s args m) (hfits : Fits s 1)
    (hsame : ∀ x, InEntries s x → m' x = m x) : Present s args m' := by
  obtain ⟨hsegment, hpair, hvector, htss⟩ := hfits
  constructor
  · refine h.base.congr (by simp; omega) fun x hx => hsame x (Or.inl ?_)
    exact hx.mono le_rfl (by simp; omega)
  · refine h.segment.congr (by simp; omega) fun x hx =>
      hsame x (Or.inr (Or.inl ?_))
    exact hx.mono le_rfl (by simp; omega)
  · refine h.ldt.congr (by simp; omega) fun x hx =>
      hsame x (Or.inr (Or.inr (Or.inl ?_)))
    exact hx.mono le_rfl (by simp; omega)
  · refine h.tss.congr (by simp; omega) fun x hx =>
      hsame x (Or.inr (Or.inr (Or.inr (Or.inl ?_))))
    exact hx.mono le_rfl (by simp)
  · refine h.gate.congr (by simp; omega) fun x hx =>
      hsame x (Or.inr (Or.inr (Or.inr (Or.inr ?_))))
    exact hx.mono le_rfl (by simp; omega)

theorem Points.congr (h : Points m s)
    (hsame : ∀ x, InVariables x → m' x = m x) : Points m' s := by
  have hword : ∀ {v : BitVec 32} {k : ℕ}, 0x2000 ≤ v.toNat →
      v.toNat + 4 ≤ 0x202C → k < 4 →
        m' (v + BitVec.ofNat 32 k) = m (v + BitVec.ofNat 32 k) := by
    intro v k hlow hhigh hk
    refine hsame _ ⟨?_, ?_⟩
    · bv_omega
    · bv_omega
  have hload16 : ∀ v : BitVec 32, 0x2000 ≤ v.toNat → v.toNat + 4 ≤ 0x202C →
      m'.load16 v = m.load16 v := fun v hlow hhigh =>
    Memory.load16_congr fun k hk => hword hlow hhigh (by omega)
  constructor
  · exact (hload16 _ (by decide) (by decide)).trans h.segment
  · exact (hload16 _ (by decide) (by decide)).trans h.tss
  · exact (hload16 _ (by decide) (by decide)).trans h.pair
  · exact (hload16 _ (by decide) (by decide)).trans h.vector
  · exact (Memory.load32_congr fun k hk =>
      hword (by decide) (by decide) hk).trans h.base

/-! ### Steps -/

theorem Kept.other (h : Kept s m₀ tasks m) (hfits : Fits s tasks.length)
    (hkept : ∀ x, InTables s tasks.length x → m' x = m x) :
    Kept s m₀ tasks m' where
  points := h.points.congr fun x hx => hkept x (Or.inl ⟨by
    have := hx.1; omega, hx.2⟩)
  present k hk := (h.present k hk).congr (hfits.skip hk) fun x hx =>
    hkept x (inTables_of_inEntries hfits hk hx)
  gate u hu hother := by
    rw [← h.gate u hu hother]
    refine gate_congr hu fun x hx => hkept x (Or.inr (Or.inl ?_))
    exact hx.mono (by omega) (by omega)
  segments x hx := by
    have hsegment := hfits.segment
    rw [← h.segments x hx]
    exact hkept x (Or.inr (Or.inl (hx.mono le_rfl (by omega))))

/-- One more task. -/
theorem Kept.create (h : Kept s m₀ tasks m)
    (hfits : Fits s (tasks.length + 1)) :
    Kept s m₀ (tasks ++ [args]) (creatTask args m) := by
  have hone : Fits (s.skip tasks.length) 1 := hfits.skip (by omega)
  rw [creatTask_eq h.points hone]
  have hnext : (s.skip tasks.length).skip 1 =
      s.skip (tasks ++ [args]).length := by
    simp only [Next.skip, List.length_append, List.length_singleton]
    congr 1
  constructor
  · rw [← hnext]
    exact created_points hone
  · intro k hk
    rw [List.length_append, List.length_singleton] at hk
    rcases Nat.lt_succ_iff_lt_or_eq.mp hk with hlt | rfl
    · rw [List.getElem_append_left hlt]
      refine (h.present k hlt).congr (hfits.skip (by omega)) fun x hx => ?_
      obtain ⟨hentries, hvariables⟩ := not_inEntries_later hfits hlt hx
      exact created_apply hone hentries hvariables
    · rw [List.getElem_append_right le_rfl]
      simp only [Nat.sub_self, List.getElem_cons_zero]
      exact created_present hone
  · intro u hu hother
    rw [List.length_append, List.length_singleton] at hother
    rw [← h.gate u hu (by omega)]
    obtain ⟨hsegment, hpair, hvector, htss⟩ := hfits
    refine gate_congr hu fun x hx => created_apply hone ?_ ?_
    · simp only [InEntries, Next.skip, Between] at hx ⊢
      omega
    · exact hx.not_of_apart (by omega)
  · intro x hx
    rw [← h.segments x hx]
    obtain ⟨hsegment, hpair, hvector, htss⟩ := hfits
    refine created_apply hone ?_ ?_
    · simp only [InEntries, Next.skip, Between] at hx ⊢
      omega
    · exact hx.not_of_apart (by omega)

theorem kept_start (hpoints : Points m₀ s) : Kept s m₀ [] m₀ where
  points := hpoints
  present k hk := absurd hk (Nat.not_lt_zero k)
  gate _ _ _ := rfl
  segments _ _ := rfl

/-- A call creates a task or leaves the memory alone. -/
theorem server_cases {call : Call} {eax : BitVec 32}
    (h : server call m = some (m', eax)) :
    (call.bh = 0x01 ∧ m' = creatTask call.args m) ∨
      (call.bh ≠ 0x01 ∧ m' = m) := by
  rw [server] at h
  by_cases hcreate : call.bh = 0x01
  · rw [if_neg (by rw [hcreate]; decide), if_pos hcreate] at h
    split at h
    · rw [Option.some.injEq, Prod.mk.injEq] at h
      exact Or.inl ⟨hcreate, h.1.symm⟩
    · cases h
  · rw [if_neg hcreate, ite_self, Option.some.injEq, Prod.mk.injEq] at h
    exact Or.inr ⟨hcreate, h.1.symm⟩

/-- The run lemma: whatever calls come, all entries stay. -/
theorem Run.kept (h : Run s m₀ tasks m) (hpoints : Points m₀ s)
    (hfits : Fits s tasks.length) : Kept s m₀ tasks m := by
  induction h with
  | start => exact kept_start hpoints
  | serve call _ hserved ih =>
      obtain ⟨hcreate, rfl⟩ | ⟨hcreate, rfl⟩ := server_cases hserved
      · rw [if_pos hcreate, List.length_append, List.length_singleton] at hfits
        rw [if_pos hcreate]
        exact (ih (hfits.mono (Nat.le_succ _))).create hfits
      · rw [if_neg hcreate] at hfits ⊢
        exact ih hfits
  | other _ hkept ih => exact (ih hfits).other hfits hkept

end Runs

/-! ## What the processor finds -/

/-- A segment of ring 3 with a base and a size of at most 64 KB. -/
def userSegment (base size : BitVec 32) (type : BitVec 4) :
    SegmentDescriptor where
  base := base
  limit := ((size - 1).setWidth 16).setWidth 20
  granular := false
  present := true
  dpl := 3
  codeOrData := true
  type := type

/-- An available task state segment of 104 bytes. -/
def taskDescriptor (tss : BitVec 32) : SegmentDescriptor where
  base := tss
  limit := 0x67
  granular := false
  present := true
  dpl := 0
  codeOrData := false
  type := 9

/-- The vector leads to a task whose state segment is at `tss`: the task starts
at the beginning of its own code segment and has its own data segment in `DS`
and `ES`.  `_LOAD_BASE` reads the base table for it at the entry of its pair
modulo 16, which is its own for the pairs below 16. -/
structure Enters (m : Memory) (vector tss pair : ℕ) (args : TaskArgs) :
    Prop where
  gate : ∃ selector, gate m vector = taskGate selector ∧
    selectorLocal selector = false ∧
    descriptorAt m 0x00006000 (selectorIndex selector) =
      taskDescriptor (BitVec.ofNat 32 tss)
  eip : m.load32 (BitVec.ofNat 32 (tss + 32)) = 0
  eflags : m.load32 (BitVec.ofNat 32 (tss + 36)) = 0x00000202
  esp : m.load32 (BitVec.ofNat 32 (tss + 56)) = 0x0000FFF0
  ss : m.load16 (BitVec.ofNat 32 (tss + 80)) = 0x002B
  code : ResolvesLocally m 0x00006000 0x3FF
    (m.load16 (BitVec.ofNat 32 (tss + 96)))
    (m.load16 (BitVec.ofNat 32 (tss + 76)))
    (userSegment args.eax args.esi 0xA)
  data : ResolvesLocally m 0x00006000 0x3FF
    (m.load16 (BitVec.ofNat 32 (tss + 96)))
    (m.load16 (BitVec.ofNat 32 (tss + 84)))
    (userSegment args.eax args.edi 0x2)
  es : m.load16 (BitVec.ofNat 32 (tss + 72)) =
    m.load16 (BitVec.ofNat 32 (tss + 84))
  base : loadBase (m.load16 (BitVec.ofNat 32 (tss + 84))) m =
    m.load32 (BitVec.ofNat 32 (0xFFFC + 4 * (pair % 16)))
  ownBase : pair < 16 →
    loadBase (m.load16 (BitVec.ofNat 32 (tss + 84))) m = args.eax

section Meaning

variable {s : Next} {args : TaskArgs} {m : Memory} {pair tss : ℕ}

theorem load16_eq_of_load32 {x : BitVec 32} {high low : BitVec 16}
    (h : m.load32 x = high ++ low) : m.load16 x = low := by
  have hhalf : m.load16 x = (m.load32 x).setWidth 16 := by
    apply BitVec.eq_of_getLsbD_eq
    intro i hi
    simp only [Memory.load16, Memory.load32, BitVec.getLsbD_setWidth,
      BitVec.getLsbD_append]
    grind
  rw [hhalf, h]
  apply BitVec.eq_of_getLsbD_eq
  intro i hi
  rw [BitVec.getLsbD_setWidth, BitVec.getLsbD_append]
  grind

theorem base_append (base : BitVec 32) :
    (base >>> 16).extractLsb' 8 8 ++ (base >>> 16).extractLsb' 0 8 ++
      base.setWidth 16 = base := by
  apply BitVec.eq_of_getLsbD_eq
  intro i hi
  simp only [BitVec.getLsbD_append, BitVec.getLsbD_extractLsb',
    BitVec.getLsbD_ushiftRight, BitVec.getLsbD_setWidth]
  grind

/-- The two segments of a task. -/
theorem decodeSegment_segmentWords (access : BitVec 8) {type : BitVec 4}
    {base size : BitVec 32}
    (haccess : access.getLsbD 7 = true ∧ access.extractLsb' 5 2 = 3 ∧
      access.getLsbD 4 = true ∧ access.extractLsb' 0 4 = type) :
    decodeSegment (base.setWidth 16 ++ (size - 1).setWidth 16)
        ((base >>> 16).extractLsb' 8 8 ++ (0x40 : BitVec 8) ++ access ++
          (base >>> 16).extractLsb' 0 8) = userSegment base size type := by
  obtain ⟨hpresent, hdpl, hnormal, htype⟩ := haccess
  have hlimit : (0x40 : BitVec 8).extractLsb' 0 4 ++ (size - 1).setWidth 16 =
      ((size - 1).setWidth 16).setWidth 20 := by
    rw [show (0x40 : BitVec 8).extractLsb' 0 4 = 0 by decide]
    apply BitVec.eq_of_getLsbD_eq
    intro i hi
    rw [BitVec.getLsbD_append, BitVec.getLsbD_setWidth]
    grind
  rw [decodeSegment_append, base_append, hlimit, hpresent, hdpl, hnormal,
    htype, userSegment]
  rfl

theorem decodeSegment_descriptorWords (htss : tss < 2 ^ 16) :
    decodeSegment (BitVec.ofNat 16 tss ++ (0x0067 : BitVec 16)) 0x00008900 =
      taskDescriptor (BitVec.ofNat 32 tss) := by
  have hhigh : (0x00008900 : BitVec 32) =
      (0x00 : BitVec 8) ++ (0x00 : BitVec 8) ++ (0x89 : BitVec 8) ++
        (0x00 : BitVec 8) := by decide
  have hbase : (0x00 : BitVec 8) ++ (0x00 : BitVec 8) ++ BitVec.ofNat 16 tss =
      BitVec.ofNat 32 tss := by
    refine (zero_append (BitVec.ofNat 16 tss)).trans ?_
    bv_omega
  rw [hhigh, decodeSegment_append, hbase, taskDescriptor]
  rfl

/-- The selectors of a pair, as the processor reads them. -/
theorem codeSelector_index : ∀ pair < 64,
    selectorLocal (codeSelector pair) = true ∧
      selectorLocal (codeSelector pair + 8) = true ∧
      selectorIndex (codeSelector pair) = BitVec.ofNat 32 (2 * pair) ∧
      selectorIndex (codeSelector pair + 8) =
        BitVec.ofNat 32 (2 * pair + 1) := by
  decide +kernel

/-- The entry that `_LOAD_BASE` reads for a pair. -/
theorem loadBase_index : ∀ pair < 64,
    ((((codeSelector pair + 8) &&& 0x00F8).setWidth 32 >>> 4) - 1) <<< 2 +
      0x10000 = BitVec.ofNat 32 (0xFFFC + 4 * (pair % 16)) := by
  decide +kernel

theorem taskSelector_index : ∀ segment < 128,
    selectorLocal (BitVec.ofNat 16 (8 * segment)) = false ∧
      selectorIndex (BitVec.ofNat 16 (8 * segment)) =
        BitVec.ofNat 32 segment := by
  decide +kernel

/-- The descriptor of the LDT that `_gdt_init` installs. -/
def ldtDescriptor : SegmentDescriptor := decodeSegment 0x1C0003FF 0x00008200

/-- A local selector, resolved through the LDT selector `0x30`. -/
theorem resolvesLocally {i : ℕ} {selector : BitVec 16}
    {d : SegmentDescriptor} (hi : i < 128)
    (hldt : descriptorAt m 0x00006000 6 = ldtDescriptor)
    (hlocal : selectorLocal selector = true)
    (hindex : selectorIndex selector = BitVec.ofNat 32 i)
    (hdescriptor : descriptorAt m 0x00001C00 (BitVec.ofNat 32 i) = d) :
    ResolvesLocally m 0x00006000 0x3FF 0x0030 selector d := by
  have hsix : selectorIndex 0x0030 = 6 := by decide
  have hlimit : ldtDescriptor.limit.toNat = 0x3FF := by decide
  have hbase : ldtDescriptor.base = 0x00001C00 := by decide
  simp only [ResolvesLocally, hsix, hldt, hindex, hbase, hlimit,
    SegmentDescriptor.IsLdt]
  refine ⟨by decide, hlocal, by decide, ⟨rfl, rfl, rfl⟩, rfl, ?_, hdescriptor⟩
  rw [BitVec.toNat_ofNat]
  omega

/-- A task whose entries are in the tables is reached through its gate. -/
theorem Present.enters (h : Present s args m) (hfits : Fits s 1)
    (hldt : descriptorAt m 0x00006000 6 = ldtDescriptor) :
    Enters m s.vector s.tss s.pair args := by
  obtain ⟨hsegment, hpair, hvector, htss⟩ := hfits
  obtain ⟨hcode, hdata, hcodeIndex, hdataIndex⟩ :=
    codeSelector_index s.pair (by omega)
  obtain ⟨hglobal, htaskIndex⟩ := taskSelector_index s.segment (by omega)
  have hword : ∀ j (hj : j < 26), m.load32 (BitVec.ofNat 32 (s.tss + 4 * j)) =
      (tssWords (codeSelector s.pair))[j] := h.tss
  have hcs : m.load16 (BitVec.ofNat 32 (s.tss + 76)) = codeSelector s.pair :=
    load16_eq_of_load32 (hword 19 (by omega))
  have hds : m.load16 (BitVec.ofNat 32 (s.tss + 84)) =
      codeSelector s.pair + 8 :=
    load16_eq_of_load32 (hword 21 (by omega))
  have hes : m.load16 (BitVec.ofNat 32 (s.tss + 72)) =
      codeSelector s.pair + 8 :=
    load16_eq_of_load32 (hword 18 (by omega))
  have hldtSelector : m.load16 (BitVec.ofNat 32 (s.tss + 96)) = 0x0030 :=
    load16_eq_of_load32 (hword 24 (by omega))
  obtain ⟨hcodeWords, hdataWords⟩ := WordsAt.of_append h.ldt
  have hbase : loadBase (codeSelector s.pair + 8) m =
      m.load32 (BitVec.ofNat 32 (0xFFFC + 4 * (s.pair % 16))) := by
    rw [loadBase, loadBase_index s.pair (by omega)]
  constructor
  · refine ⟨_, ?_, hglobal, ?_⟩
    · rw [gate_of_words h.gate, decodeGate_taskGate]
    · rw [htaskIndex, ← decodeSegment_descriptorWords (by omega)]
      exact descriptorAt_of_words h.segment
  · exact hword 8 (by omega)
  · exact hword 9 (by omega)
  · exact hword 14 (by omega)
  · exact load16_eq_of_load32 (hword 20 (by omega))
  · rw [hldtSelector, hcs]
    refine resolvesLocally (by omega) hldt hcode hcodeIndex ?_
    rw [← decodeSegment_segmentWords 0xFA (by decide)]
    have hwords : WordsAt m (0x1C00 + 8 * (2 * s.pair))
        (segmentWords args.eax args.esi 0xFA) := by
      rwa [show 0x1C00 + 8 * (2 * s.pair) = 0x1C00 + 16 * s.pair by omega]
    exact descriptorAt_of_words hwords
  · rw [hldtSelector, hds]
    refine resolvesLocally (by omega) hldt hdata hdataIndex ?_
    rw [← decodeSegment_segmentWords 0xF2 (by decide)]
    have hwords : WordsAt m (0x1C00 + 8 * (2 * s.pair + 1))
        (segmentWords args.eax args.edi 0xF2) := by
      rwa [show 0x1C00 + 8 * (2 * s.pair + 1) =
        0x1C00 + 16 * s.pair + 8 by omega]
    exact descriptorAt_of_words hwords
  · rw [hes, hds]
  · rw [hds, hbase]
  · intro hown
    rw [hds, hbase, Nat.mod_eq_of_lt hown]
    exact h.base 0 (by simp)

end Meaning

/-- Whatever calls of `_SERVER` come after the boot, from variables that name
the next entries on, and whatever the programs write outside the tables: as long
as the tables have room, every task that was created is reached through its own
gate and runs in its own segments, and the gates of the boot stay. -/
theorem run_enters {h : Handlers} {s : Next} {m₀ m : Memory}
    {tasks : List TaskArgs} (hrun : Run s m₀ tasks m) (hbooted : Booted h m₀)
    (hpoints : Points m₀ s) (hfits : Fits s tasks.length) :
    (∀ k (hk : k < tasks.length),
      Enters m (s.vector + k) (s.tss + 0x80 * k) (s.pair + k) tasks[k]) ∧
      ∀ u < 128, u < s.vector ∨ s.vector + tasks.length ≤ u →
        gate m u = installedGate h u := by
  have hkept := hrun.kept hpoints hfits
  have hwords : WordsAt m₀ 0x6000
      (gdtWords.take 12 ++ [0x1C0003FF, 0x00008200]) := hbooted.segments
  have hentry : WordsAt m₀ (0x6000 + 8 * 6) [0x1C0003FF, 0x00008200] :=
    (WordsAt.of_append hwords).2
  have hldt : descriptorAt m 0x00006000 6 = ldtDescriptor := by
    refine descriptorAt_of_words (hentry.congr (by simp) fun x hx =>
      hkept.segments x (hx.mono (by omega) ?_))
    have hsegment := hfits.segment.1
    simp
    omega
  refine ⟨fun k hk => ?_, fun u hu hother => ?_⟩
  · exact (hkept.present k hk).enters (hfits.skip hk) hldt
  · rw [hkept.gate u hu hother, hbooted.gate u hu]

/-- The addresses of the handlers, a hundred bytes each. -/
def bootHandlers : Handlers where
  defaultInt := 0x5200
  mIrqInt := 0x5264
  sIrqInt := 0x52C8
  nm := 0x532C
  ss := 0x5390
  gp := 0x53F4
  keyboard := 0x5458
  rtc := 0x54BC
  video := 0x5520
  server := 0x5584

/-- The variables as a kernel sets them after the boot: two task state segments
have GDT entries already, and the first pair of the LDT is left out. -/
def kernelMemory : Memory :=
  ((((idtInit bootHandlers (gdtInit fun _ => 0)).write 0x2000#32
    (bytes16 0x6048)).write 0x2002#32 (bytes16 0x7000)).write 0x2010#32
      (bytes16 0x1C10)).write 0x2028#32 (bytes32 0x00010000)

def kernelNext : Next where
  segment := 9
  tss := 0x7000
  pair := 1
  vector := 0x40

theorem booted_kernelMemory : Booted bootHandlers kernelMemory := by
  refine (booted_idtInit bootHandlers fun _ => 0).congr fun x hx => ?_
  simp only [Between] at hx
  simp (disch := first | (simp; done) | (simp only [Between]; simp; omega)) only
    [kernelMemory, write_apply_of_not_between]

theorem points_kernelMemory : Points kernelMemory kernelNext := by
  have hvector : ∀ m : Memory,
      (idtInit bootHandlers m).load16 0x2020#32 = 0x6A00 :=
    fun m => Memory.load16_write_bytes16 _ _ _
  constructor
  all_goals
    simp (disch := first | (simp; done) | (simp; omega)) only
      [kernelMemory, load16_write_of_apart, hvector,
        Memory.load16_write_bytes16, Memory.load32_write_bytes32]
    rfl

def firstTask : TaskArgs := ⟨0x00020000, 0x00001000, 0x00000800⟩

def secondTask : TaskArgs := ⟨0x00040000, 0x00002000, 0x00001000⟩

/-- Two tasks are created, and the first one asks for its base in between. -/
theorem run_twoTasks : Run kernelNext kernelMemory [firstTask, secondTask]
    (creatTask secondTask (creatTask firstTask kernelMemory)) :=
  ((Run.start.serve ⟨0x01, 0x0010, firstTask⟩ rfl).serve
    ⟨0x00, 0x001F, firstTask⟩ rfl).serve ⟨0x01, 0x0010, secondTask⟩ rfl

theorem run_enters_twoTasks :
    let tasks := [firstTask, secondTask]
    let m := creatTask secondTask (creatTask firstTask kernelMemory)
    (∀ k (hk : k < tasks.length), Enters m (0x40 + k) (0x7000 + 0x80 * k)
      (1 + k) tasks[k]) ∧
      ∀ u < 128, u < 0x40 ∨ 0x40 + tasks.length ≤ u →
        gate m u = installedGate bootHandlers u :=
  run_enters run_twoTasks booted_kernelMemory points_kernelMemory
    ⟨by decide, by decide, by decide, by decide⟩

end OpenFerain.Asm16T32
