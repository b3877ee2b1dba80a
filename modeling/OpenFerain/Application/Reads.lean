import OpenFerain.Application.Dispatch
import OpenFerain.Ia32.Access

/-!
# The command shell: reads of the buffer

The same functions as programs that read `command`, byte 0 of their memory
being `command[0]`.  They take `command_base` and return it as they leave it;
the strings given to `printf` and `sha256` are read up to their zero.

Each command skips its name and the byte behind it without looking at that
byte.  A name that ends at index 125 is followed by the last zero of the array,
and what comes behind it is outside; only `pr` looks first.
-/

namespace OpenFerain

open Ia32 (Access Memory)

/-! ## The source functions -/

namespace Reads

/-- `command[i] != 0 && command[i] != 0x20` -/
def isWord (i : BitVec 32) : Access Bool := do
  if (← Access.read8 i) = 0 then return false
  return (← Access.read8 i) ≠ 0x20

/-- The reads of `cmd_calculate`. -/
def cmdCalculate (base : BitVec 32) : Access CmdScan :=
  Access.forRange (127 - base.toNat) ⟨base, 0, 0⟩ fun k scan => do
    let i := BitVec.ofNat 32 (base.toNat + k)
    if ← isWord i then
      let scan :=
        if scan.commandCheckFlag = 0 then
          { scan with commandBase := i, commandCheckFlag := 1 }
        else scan
      return { scan with lastChar := i }
    else return scan

/-- `cmd_code_check` from index `i` on, with the rest of the name. -/
def nameFrom (i : BitVec 32) : List (BitVec 8) → Access Bool
  | [] => do return !(← isWord i)
  | c :: name => do
      if (← Access.read8 i) = c then nameFrom (i + 1) name
      else return false

/-- The reads of `cmd_code_check`. -/
def cmdCodeCheck (base : BitVec 32) (name : String) : Access Bool :=
  nameFrom base (bytes name)

/-- `while(s[len])++len;` for at most `n` bytes. -/
def stringFrom : ℕ → BitVec 32 → Access Unit
  | 0, _ => return ()
  | n + 1, s => do
      if (← Access.read8 s) = 0 then return ()
      else stringFrom n (s + 1)

/-- The reads of `printf` and `sha256`.  After `2 ^ 32` bytes the scan is back
where it started. -/
def string (s : BitVec 32) : Access Unit := stringFrom (2 ^ 32) s

def setColorDigits (base : BitVec 32) : Access (BitVec 32) := do
  if charToHex (← Access.read8 base) = 0x1000 then return base
  else if charToHex (← Access.read8 (base + 1)) = 0x1000 then return base
  else
    let _high ← Access.read8 base
    let _low ← Access.read8 (base + 1)
    return base

def colorCommand (base : BitVec 32) : Access (BitVec 32) := do
  let base := base + 6
  if (← Access.read8 base) = 0x30 then
    if (← Access.read8 (base + 1)) = 0x78 then setColorDigits (base + 2)
    else if (← Access.read8 (base + 1)) = 0x58 then setColorDigits (base + 2)
    else setColorDigits base
  else setColorDigits base

def hashCommand (base : BitVec 32) : Access (BitVec 32) := do
  let base := base + 5
  if ← cmdCodeCheck base "sha256" then
    let base := base + 7
    string base
    return base
  else return base

def prCommand (base : BitVec 32) : Access (BitVec 32) := do
  if (← Access.read8 (base + 2)) = 0 then return base
  else if (← Access.read8 (base + 3)) = 0 then return base
  else
    let base := base + 3
    string base
    return base

/-- `cmd_code_check` of one name after the other up to the one that fits. -/
def checkNames (base : BitVec 32) : List String → Access Unit
  | [] => return ()
  | name :: names => do
      if ← cmdCodeCheck base name then return ()
      else checkNames base names

def timeCommand (base : BitVec 32) : Access (BitVec 32) := do
  let base := base + 5
  checkNames base ["a", "y", "mo", "d", "h", "mi", "s"]
  return base

def verCommand (base : BitVec 32) : Access (BitVec 32) := do
  let base := base + 4
  checkNames base ["cmd", "CMD", "os", "OS"]
  return base

/-- The reads of `code`.  The branches for `help` and for an unknown name read
nothing. -/
def code (base : BitVec 32) : Access (BitVec 32) := do
  if ← cmdCodeCheck base "help" then return base
  else if ← cmdCodeCheck base "h" then return base
  else if ← cmdCodeCheck base "color" then colorCommand base
  else if ← cmdCodeCheck base "hash" then hashCommand base
  else if ← cmdCodeCheck base "pr" then prCommand base
  else if ← cmdCodeCheck base "time" then timeCommand base
  else if ← cmdCodeCheck base "ver" then verCommand base
  else return base

/-- The reads of `enter`, up to the end of the command. -/
def enter (base : BitVec 32) : Access (BitVec 32) := do
  let scan ← cmdCalculate base
  if scan.commandCheckFlag = 0 then return scan.commandBase
  else code scan.commandBase

end Reads

/-! ## Inside the array -/

/-- An index of the array of 127 bytes. -/
def Inside (i : BitVec 32) : Prop := i.toNat ≤ 126

/-- Every read is of the array. -/
def ReadsInside {α : Type} (p : Access α) (m : Memory) : Prop :=
  p.Within Inside (fun _ => False) m

/-- Every read is of the array, and `command_base` ends up in it. -/
structure StaysInside (p : Access (BitVec 32)) (m : Memory) : Prop where
  reads : ReadsInside p m
  base : Inside (p.value m)

/-- The memory from `command` on. -/
def CmdState.memory (s : CmdState) : Memory := fun i => s.command i.toNat

section Inside

variable {α β : Type} {m : Memory} {i base : BitVec 32} {name : String}
  {s : CmdState}

/-- Behind a byte that is not zero there is one more in the array. -/
theorem Inside.succ (hi : Inside i) (hlast : m 126 = 0) (hne : m i ≠ 0) :
    Inside (i + 1) := by
  have hlt : i ≠ 126 := by
    rintro rfl
    exact hne hlast
  unfold Inside at *
  bv_omega

theorem readsInside_bind_iff {p : Access α} (hp : p.ReadOnly)
    {f : α → Access β} :
    ReadsInside (p >>= f) m ↔
      ReadsInside p m ∧ ReadsInside (f (p.value m)) m :=
  hp.within_bind_iff

theorem readsInside_pure (v : α) : ReadsInside (pure v) m := trivial

/-- A read, and what is done with the byte. -/
theorem readsInside_read8_bind_iff {f : BitVec 8 → Access β} :
    ReadsInside (Access.read8 i >>= f) m ↔
      Inside i ∧ ReadsInside (f (m i)) m := Iff.rfl

theorem readOnly_isWord (i : BitVec 32) : (Reads.isWord i).ReadOnly := by
  refine (Access.readOnly_read8 i).bind fun c => Access.readOnly_ite ?_ ?_
  · exact Access.readOnly_pure _
  · exact (Access.readOnly_read8 i).bind fun c => Access.readOnly_pure _

theorem value_isWord (i : BitVec 32) (m : Memory) :
    (Reads.isWord i).value m = decide (IsWordChar (m i)) := by
  rw [Reads.isWord, Access.value_bind, Access.value_read8, Access.exec_read8]
  by_cases hzero : m i = 0
  · rw [if_pos hzero]
    exact (decide_eq_false fun h => h.1 hzero).symm
  · rw [if_neg hzero]
    exact decide_eq_decide.mpr (iff_and_self.mpr fun _ => hzero)

theorem readsInside_isWord_iff : ReadsInside (Reads.isWord i) m ↔ Inside i := by
  rw [Reads.isWord, readsInside_read8_bind_iff]
  refine and_iff_left_of_imp fun hi => ?_
  split
  · exact readsInside_pure _
  · exact ⟨hi, readsInside_pure _⟩

/-! ## `cmd_code_check` -/

theorem readOnly_nameFrom (name : List (BitVec 8)) (i : BitVec 32) :
    (Reads.nameFrom i name).ReadOnly := by
  induction name generalizing i with
  | nil => exact (readOnly_isWord i).bind fun _ => Access.readOnly_pure _
  | cons c name ih =>
      exact (Access.readOnly_read8 i).bind fun _ =>
        Access.readOnly_ite (ih (i + 1)) (Access.readOnly_pure _)

theorem value_nameFrom (name : List (BitVec 8)) (i : BitVec 32) (m : Memory) :
    (Reads.nameFrom i name).value m = true ↔
      (∀ k (hk : k < name.length), m (i + BitVec.ofNat 32 k) = name[k]) ∧
        ¬IsWordChar (m (i + BitVec.ofNat 32 name.length)) := by
  induction name generalizing i with
  | nil =>
      rw [Reads.nameFrom, (readOnly_isWord i).value_bind, value_isWord]
      simp
  | cons c name ih =>
      have hnext : ∀ k, i + 1 + BitVec.ofNat 32 k =
          i + BitVec.ofNat 32 (k + 1) := by
        intro k
        bv_omega
      rw [Reads.nameFrom, (Access.readOnly_read8 i).value_bind,
        Access.value_read8]
      by_cases hc : m i = c
      · rw [if_pos hc, ih (i + 1), hnext]
        refine and_congr_left' ?_
        constructor
        · intro h k hk
          cases k with
          | zero => simpa using hc
          | succ k =>
              have hchar := h k (Nat.lt_of_succ_lt_succ hk)
              rwa [hnext] at hchar
        · intro h k hk
          rw [hnext]
          exact h (k + 1) (Nat.succ_lt_succ hk)
      · rw [if_neg hc]
        refine iff_of_false Bool.false_ne_true fun h => hc ?_
        have hchar := h.1 0 (Nat.succ_pos _)
        simpa using hchar

/-- A name is compared only up to the first blank or zero. -/
theorem readsInside_nameFrom_iff (hlast : m 126 = 0) (name : List (BitVec 8))
    (hname : ∀ c ∈ name, IsWordChar c) (i : BitVec 32) :
    ReadsInside (Reads.nameFrom i name) m ↔ Inside i := by
  induction name generalizing i with
  | nil =>
      rw [Reads.nameFrom, readsInside_bind_iff (readOnly_isWord i),
        readsInside_isWord_iff]
      exact and_iff_left (readsInside_pure _)
  | cons c name ih =>
      obtain ⟨hc, hrest⟩ := List.forall_mem_cons.mp hname
      rw [Reads.nameFrom, readsInside_read8_bind_iff]
      refine and_iff_left_of_imp fun hi => ?_
      by_cases hchar : m i = c
      · rw [if_pos hchar, ih hrest]
        exact hi.succ hlast (hchar ▸ hc.1)
      · rw [if_neg hchar]
        exact readsInside_pure _

theorem readOnly_cmdCodeCheck (base : BitVec 32) (name : String) :
    (Reads.cmdCodeCheck base name).ReadOnly := readOnly_nameFrom _ _

/-- The answer is the one of the shell. -/
theorem value_cmdCodeCheck (s : CmdState) (name : String) :
    (Reads.cmdCodeCheck s.commandBase name).value s.memory = s.nameIs name := by
  rw [Bool.eq_iff_iff, nameIs_iff]
  exact value_nameFrom _ _ _

/-! ## Strings -/

theorem readOnly_stringFrom (n : ℕ) (i : BitVec 32) :
    (Reads.stringFrom n i).ReadOnly := by
  induction n generalizing i with
  | zero => exact Access.readOnly_pure _
  | succ n ih =>
      exact (Access.readOnly_read8 i).bind fun _ =>
        Access.readOnly_ite (Access.readOnly_pure _) (ih (i + 1))

theorem readsInside_stringFrom (hlast : m 126 = 0) (n : ℕ) (hi : Inside i) :
    ReadsInside (Reads.stringFrom n i) m := by
  induction n generalizing i with
  | zero => exact readsInside_pure _
  | succ n ih =>
      rw [Reads.stringFrom, readsInside_read8_bind_iff]
      refine ⟨hi, ?_⟩
      by_cases hzero : m i = 0
      · rw [if_pos hzero]
        exact readsInside_pure _
      · rw [if_neg hzero]
        exact ih (hi.succ hlast hzero)

/-- A string that starts in the array ends in it. -/
theorem readsInside_string_iff (hlast : m 126 = 0) :
    ReadsInside (Reads.string i) m ↔ Inside i := by
  refine ⟨fun h => ?_, readsInside_stringFrom hlast _⟩
  have hsucc : Reads.string i = Reads.stringFrom (2 ^ 32 - 1 + 1) i := rfl
  rw [hsucc, Reads.stringFrom, readsInside_read8_bind_iff] at h
  exact h.1

/-! ## `cmd_calculate` -/

theorem readOnly_cmdCalculate (base : BitVec 32) :
    (Reads.cmdCalculate base).ReadOnly := by
  refine Access.readOnly_forRange fun k scan => ?_
  exact (readOnly_isWord _).bind fun _ =>
    Access.readOnly_ite (Access.readOnly_pure _) (Access.readOnly_pure _)

theorem readsInside_cmdCalculate (base : BitVec 32) (m : Memory) :
    ReadsInside (Reads.cmdCalculate base) m := by
  refine Access.within_forRange fun k hk scan m' => ?_
  refine (readsInside_bind_iff (readOnly_isWord _)).mpr ⟨?_, ?_⟩
  · rw [readsInside_isWord_iff]
    unfold Inside
    bv_omega
  · split
    · exact readsInside_pure _
    · exact readsInside_pure _

/-- The scan is the one of the shell. -/
theorem value_cmdCalculate (s : CmdState) :
    (Reads.cmdCalculate s.commandBase).value s.memory = cmdScan s := by
  have hrun : (Reads.cmdCalculate s.commandBase).exec s.memory = s.memory ∧
      (Reads.cmdCalculate s.commandBase).value s.memory = cmdScan s := by
    rw [Reads.cmdCalculate, cmdScan]
    refine Access.forRange_induction
      (fun k scan m' => m' = s.memory ∧
        scan = (List.range' s.commandBase.toNat k).foldl
          (cmdScanStep s.command) ⟨s.commandBase, 0, 0⟩) ⟨rfl, rfl⟩ ?_
    rintro k hk scan m' ⟨rfl, hscan⟩
    have hchar : s.memory (BitVec.ofNat 32 (s.commandBase.toNat + k)) =
        s.command (s.commandBase.toNat + k) := by
      rw [CmdState.memory]
      congr 1
      bv_omega
    rw [Access.exec_bind, readOnly_isWord, Access.value_bind, readOnly_isWord,
      value_isWord, hchar, List.range'_1_concat, List.foldl_append, ← hscan,
      List.foldl_cons, List.foldl_nil, cmdScanStep]
    by_cases hword : IsWordChar (s.command (s.commandBase.toNat + k))
    · rw [if_pos hword, if_pos (decide_eq_true hword)]
      exact ⟨rfl, rfl⟩
    · rw [if_neg hword, if_neg (by simpa using hword)]
      exact ⟨rfl, rfl⟩
  exact hrun.2

/-! ## The commands -/

theorem readsInside_setColorDigits_iff (hlast : m 126 = 0) :
    ReadsInside (Reads.setColorDigits i) m ↔ Inside i := by
  rw [Reads.setColorDigits, readsInside_read8_bind_iff]
  refine and_iff_left_of_imp fun hi => ?_
  by_cases hhigh : charToHex (m i) = 0x1000
  · rw [if_pos hhigh]
    exact readsInside_pure _
  · have hne : m i ≠ 0 := by
      intro hzero
      rw [hzero] at hhigh
      exact hhigh (by decide)
    have hnext := hi.succ hlast hne
    rw [if_neg hhigh, readsInside_read8_bind_iff]
    refine ⟨hnext, ?_⟩
    by_cases hlow : charToHex (m (i + 1)) = 0x1000
    · rw [if_pos hlow]
      exact readsInside_pure _
    · rw [if_neg hlow]
      exact ⟨hi, hnext, readsInside_pure _⟩

theorem value_setColorDigits (i : BitVec 32) (m : Memory) :
    (Reads.setColorDigits i).value m = i := by
  rw [Reads.setColorDigits, (Access.readOnly_read8 i).value_bind]
  split
  · rfl
  · rw [(Access.readOnly_read8 (i + 1)).value_bind]
    split
    · rfl
    · rfl

/-- Each read behind the first follows a byte that is not zero. -/
theorem readsInside_colorCommand_iff (hlast : m 126 = 0) :
    ReadsInside (Reads.colorCommand base) m ↔ Inside (base + 6) := by
  rw [Reads.colorCommand, readsInside_read8_bind_iff]
  refine and_iff_left_of_imp fun hi => ?_
  have hskip : base + 6 + 2 = base + 6 + 1 + 1 := by
    bv_omega
  by_cases hzero : m (base + 6) = 0x30
  · have hone : Inside (base + 6 + 1) := by
      refine hi.succ hlast ?_
      rw [hzero]
      decide
    have hdigits : m (base + 6 + 1) ≠ 0 →
        ReadsInside (Reads.setColorDigits (base + 6 + 2)) m := by
      intro hne
      rw [readsInside_setColorDigits_iff hlast, hskip]
      exact hone.succ hlast hne
    rw [if_pos hzero, readsInside_read8_bind_iff]
    refine ⟨hone, ?_⟩
    by_cases hx : m (base + 6 + 1) = 0x78
    · rw [if_pos hx]
      exact hdigits (by rw [hx]; decide)
    · rw [if_neg hx, readsInside_read8_bind_iff]
      refine ⟨hone, ?_⟩
      by_cases hX : m (base + 6 + 1) = 0x58
      · rw [if_pos hX]
        exact hdigits (by rw [hX]; decide)
      · rw [if_neg hX]
        exact (readsInside_setColorDigits_iff hlast).mpr hi
  · rw [if_neg hzero]
    exact (readsInside_setColorDigits_iff hlast).mpr hi

theorem value_colorCommand (base : BitVec 32) (m : Memory) :
    (Reads.colorCommand base).value m =
      if m (base + 6) = 0x30 ∧
          (m (base + 6 + 1) = 0x78 ∨ m (base + 6 + 1) = 0x58) then base + 6 + 2
      else base + 6 := by
  have hread := fun i => Access.readOnly_read8 i
  rw [Reads.colorCommand, (hread _).value_bind, Access.value_read8]
  by_cases hzero : m (base + 6) = 0x30
  · rw [if_pos hzero, (hread _).value_bind, Access.value_read8]
    by_cases hx : m (base + 6 + 1) = 0x78
    · rw [if_pos hx, if_pos ⟨hzero, Or.inl hx⟩, value_setColorDigits]
    · rw [if_neg hx, (hread _).value_bind, Access.value_read8]
      by_cases hX : m (base + 6 + 1) = 0x58
      · rw [if_pos hX, if_pos ⟨hzero, Or.inr hX⟩, value_setColorDigits]
      · rw [if_neg hX, if_neg fun h => h.2.elim hx hX, value_setColorDigits]
  · rw [if_neg hzero, if_neg fun h => hzero h.1, value_setColorDigits]

/-- A second skip, over `0x`, stays in the array as well. -/
theorem inside_colorCommand (hlast : m 126 = 0) (hi : Inside (base + 6)) :
    Inside ((Reads.colorCommand base).value m) := by
  rw [value_colorCommand]
  split_ifs with hskipped
  · have hskip : base + 6 + 2 = base + 6 + 1 + 1 := by
      bv_omega
    have hone : Inside (base + 6 + 1) := by
      refine hi.succ hlast ?_
      rw [hskipped.1]
      decide
    rw [hskip]
    refine hone.succ hlast ?_
    rcases hskipped.2 with hx | hx
    · rw [hx]
      decide
    · rw [hx]
      decide
  · exact hi

theorem readOnly_checkNames (names : List String) (base : BitVec 32) :
    (Reads.checkNames base names).ReadOnly := by
  induction names with
  | nil => exact Access.readOnly_pure _
  | cons name names ih =>
      exact (readOnly_cmdCodeCheck base name).bind fun _ =>
        Access.readOnly_ite (Access.readOnly_pure _) ih

theorem readsInside_cmdCodeCheck_iff (hlast : m 126 = 0)
    (hname : ∀ c ∈ bytes name, IsWordChar c) :
    ReadsInside (Reads.cmdCodeCheck base name) m ↔ Inside base :=
  readsInside_nameFrom_iff hlast _ hname base

/-- However many names are tested, the first byte is read first. -/
theorem readsInside_checkNames_iff (hlast : m 126 = 0) (names : List String)
    (hnames : ∀ name ∈ names, ∀ c ∈ bytes name, IsWordChar c)
    (hne : names ≠ []) :
    ReadsInside (Reads.checkNames base names) m ↔ Inside base := by
  have hinside : Inside base → ReadsInside (Reads.checkNames base names) m := by
    intro hbase
    clear hne
    induction names with
    | nil => exact readsInside_pure _
    | cons name names ih =>
        obtain ⟨hname, hrest⟩ := List.forall_mem_cons.mp hnames
        rw [Reads.checkNames,
          readsInside_bind_iff (readOnly_cmdCodeCheck base name),
          readsInside_cmdCodeCheck_iff hlast hname]
        refine ⟨hbase, ?_⟩
        split
        · exact readsInside_pure _
        · exact ih hrest
  refine ⟨fun h => ?_, hinside⟩
  cases names with
  | nil => exact absurd rfl hne
  | cons name names =>
      rw [Reads.checkNames,
        readsInside_bind_iff (readOnly_cmdCodeCheck base name),
        readsInside_cmdCodeCheck_iff hlast
          (hnames name List.mem_cons_self)] at h
      exact h.1

theorem readsInside_timeCommand_iff (hlast : m 126 = 0) :
    ReadsInside (Reads.timeCommand base) m ↔ Inside (base + 5) := by
  rw [Reads.timeCommand, readsInside_bind_iff (readOnly_checkNames _ _),
    readsInside_checkNames_iff hlast _ (by decide) (by decide)]
  exact and_iff_left (readsInside_pure _)

theorem readsInside_verCommand_iff (hlast : m 126 = 0) :
    ReadsInside (Reads.verCommand base) m ↔ Inside (base + 4) := by
  rw [Reads.verCommand, readsInside_bind_iff (readOnly_checkNames _ _),
    readsInside_checkNames_iff hlast _ (by decide) (by decide)]
  exact and_iff_left (readsInside_pure _)

theorem value_timeCommand (base : BitVec 32) (m : Memory) :
    (Reads.timeCommand base).value m = base + 5 := by
  rw [Reads.timeCommand, (readOnly_checkNames _ _).value_bind]
  rfl

theorem value_verCommand (base : BitVec 32) (m : Memory) :
    (Reads.verCommand base).value m = base + 4 := by
  rw [Reads.verCommand, (readOnly_checkNames _ _).value_bind]
  rfl

theorem readOnly_string (i : BitVec 32) : (Reads.string i).ReadOnly :=
  readOnly_stringFrom _ i

/-- The last thing a command does is to pass a string on. -/
theorem readsInside_string_then_iff (hlast : m 126 = 0) (v : α) :
    ReadsInside (Reads.string i >>= fun _ => pure v) m ↔ Inside i := by
  rw [readsInside_bind_iff (readOnly_string i), readsInside_string_iff hlast]
  exact and_iff_left (readsInside_pure _)

theorem value_string_then (i : BitVec 32) (v : α) (m : Memory) :
    (Reads.string i >>= fun _ => pure v).value m = v := by
  rw [(readOnly_string i).value_bind]
  rfl

/-- `pr` looks at the byte behind its name before it goes on. -/
theorem readsInside_prCommand (hlast : m 126 = 0) (hi : Inside (base + 2)) :
    ReadsInside (Reads.prCommand base) m := by
  have hnext : base + 3 = base + 2 + 1 := by
    bv_omega
  rw [Reads.prCommand, readsInside_read8_bind_iff]
  refine ⟨hi, ?_⟩
  by_cases htwo : m (base + 2) = 0
  · rw [if_pos htwo]
    exact readsInside_pure _
  · have hthree : Inside (base + 3) := by
      rw [hnext]
      exact hi.succ hlast htwo
    rw [if_neg htwo, readsInside_read8_bind_iff]
    refine ⟨hthree, ?_⟩
    split
    · exact readsInside_pure _
    · exact (readsInside_string_then_iff hlast _).mpr hthree

theorem value_prCommand (base : BitVec 32) (m : Memory) :
    (Reads.prCommand base).value m =
      if m (base + 2) = 0 ∨ m (base + 3) = 0 then base else base + 3 := by
  have hread := fun i => Access.readOnly_read8 i
  rw [Reads.prCommand, (hread _).value_bind, Access.value_read8]
  by_cases htwo : m (base + 2) = 0
  · rw [if_pos htwo, if_pos (Or.inl htwo)]
    rfl
  · rw [if_neg htwo, (hread _).value_bind, Access.value_read8]
    by_cases hthree : m (base + 3) = 0
    · rw [if_pos hthree, if_pos (Or.inr hthree)]
      rfl
    · rw [if_neg hthree, if_neg fun h => h.elim htwo hthree]
      exact value_string_then _ _ _

theorem inside_prCommand (hlast : m 126 = 0) (hbase : Inside base)
    (hi : Inside (base + 2)) : Inside ((Reads.prCommand base).value m) := by
  have hnext : base + 3 = base + 2 + 1 := by
    bv_omega
  rw [value_prCommand]
  split_ifs with hempty
  · exact hbase
  · rw [hnext]
    exact hi.succ hlast (not_or.mp hempty).1

theorem value_hashCommand (base : BitVec 32) (m : Memory) :
    (Reads.hashCommand base).value m =
      if (Reads.cmdCodeCheck (base + 5) "sha256").value m = true then
        base + 5 + 7
      else base + 5 := by
  rw [Reads.hashCommand, (readOnly_cmdCodeCheck _ _).value_bind]
  split
  · exact value_string_then _ _ _
  · rfl

/-- `hash` skips its own name and then the name of the algorithm. -/
theorem readsInside_hashCommand_iff (hlast : m 126 = 0) :
    ReadsInside (Reads.hashCommand base) m ↔
      Inside (base + 5) ∧ Inside ((Reads.hashCommand base).value m) := by
  rw [value_hashCommand, Reads.hashCommand,
    readsInside_bind_iff (readOnly_cmdCodeCheck _ _),
    readsInside_cmdCodeCheck_iff hlast (by decide)]
  refine and_congr_right fun hi => ?_
  split
  · exact readsInside_string_then_iff hlast _
  · exact iff_of_true (readsInside_pure _) hi

/-! ## `code` -/

/-- The reads of a branch. -/
def Command.reads : Command → BitVec 32 → Access (BitVec 32)
  | .help, base => return base
  | .color, base => Reads.colorCommand base
  | .hash, base => Reads.hashCommand base
  | .pr, base => Reads.prCommand base
  | .time, base => Reads.timeCommand base
  | .ver, base => Reads.verCommand base
  | .unknown, base => return base

/-- The tests lead to the branch the shell takes, for everything that passes
over a test. -/
theorem code_reads_iff (s : CmdState) (Φ : Access (BitVec 32) → Prop)
    (htest : ∀ name f, (∀ c ∈ bytes name, IsWordChar c) →
      (Φ (Reads.cmdCodeCheck s.commandBase name >>= f) ↔
        Φ (f (s.nameIs name)))) :
    Φ (Reads.code s.commandBase) ↔
      Φ ((codeBranch.run s).1.reads s.commandBase) := by
  rw [Reads.code, codeBranch_run_fst, htest "help" _ (by decide)]
  by_cases hhelp : s.nameIs "help" = true
  · rw [if_pos hhelp, if_pos (Or.inl hhelp)]
    rfl
  rw [if_neg hhelp, htest "h" _ (by decide)]
  by_cases hh : s.nameIs "h" = true
  · rw [if_pos hh, if_pos (Or.inr hh)]
    rfl
  rw [if_neg hh, if_neg (not_or.mpr ⟨hhelp, hh⟩), htest "color" _ (by decide)]
  by_cases hcolor : s.nameIs "color" = true
  · rw [if_pos hcolor, if_pos hcolor]
    rfl
  rw [if_neg hcolor, if_neg hcolor, htest "hash" _ (by decide)]
  by_cases hhash : s.nameIs "hash" = true
  · rw [if_pos hhash, if_pos hhash]
    rfl
  rw [if_neg hhash, if_neg hhash, htest "pr" _ (by decide)]
  by_cases hpr : s.nameIs "pr" = true
  · rw [if_pos hpr, if_pos hpr]
    rfl
  rw [if_neg hpr, if_neg hpr, htest "time" _ (by decide)]
  by_cases htime : s.nameIs "time" = true
  · rw [if_pos htime, if_pos htime]
    rfl
  rw [if_neg htime, if_neg htime, htest "ver" _ (by decide)]
  by_cases hver : s.nameIs "ver" = true
  · rw [if_pos hver, if_pos hver]
    rfl
  · rw [if_neg hver, if_neg hver]
    rfl

theorem value_code (s : CmdState) :
    (Reads.code s.commandBase).value s.memory =
      ((codeBranch.run s).1.reads s.commandBase).value s.memory := by
  have hsame := code_reads_iff s (fun p => p.value s.memory =
    ((codeBranch.run s).1.reads s.commandBase).value s.memory) ?_
  · exact hsame.mpr rfl
  · intro name f hname
    rw [(readOnly_cmdCodeCheck _ _).value_bind, value_cmdCodeCheck]

theorem readsInside_code_iff (hlast : s.memory 126 = 0)
    (hbase : Inside s.commandBase) :
    ReadsInside (Reads.code s.commandBase) s.memory ↔
      ReadsInside ((codeBranch.run s).1.reads s.commandBase) s.memory := by
  refine code_reads_iff s (fun p => ReadsInside p s.memory) ?_
  intro name f hname
  rw [readsInside_bind_iff (readOnly_cmdCodeCheck _ _), value_cmdCodeCheck,
    readsInside_cmdCodeCheck_iff hlast hname]
  exact and_iff_right hbase

/-! ## The two texts agree -/

theorem keeps_commandBase_setColorDigits :
    Keeps CmdState.commandBase setColorDigits := by
  refine keeps_get.bind fun s => keeps_ite keeps_colorError ?_
  exact Keeps.bind (fun _ => rfl) fun _ => keeps_pure _

theorem value_colorCommand_eq (s : CmdState) :
    (Reads.colorCommand s.commandBase).value s.memory =
      (colorCommand.run s).2.commandBase := by
  have hzero : (s.skip 6).charAt 0 = s.memory (s.commandBase + 6) := by
    rw [CmdState.charAt, BitVec.add_zero]
    rfl
  have hone : (s.skip 6).charAt 1 = s.memory (s.commandBase + 6 + 1) := rfl
  have hdigits := keeps_commandBase_setColorDigits
  rw [value_colorCommand, colorCommand_run, hzero, hone]
  split_ifs
  · exact (hdigits ((s.skip 6).skip 2)).symm
  · exact (hdigits (s.skip 6)).symm

theorem value_hashCommand_eq (s : CmdState) :
    (Reads.hashCommand s.commandBase).value s.memory =
      (hashCommand.run s).2.commandBase := by
  have hcheck : (Reads.cmdCodeCheck (s.commandBase + 5) "sha256").value
      s.memory = (s.skip 5).nameIs "sha256" := value_cmdCodeCheck (s.skip 5) _
  rw [value_hashCommand, hcheck]
  change _ = ((cmdCodeCheck "sha256" >>= fun known => ite (known = true) _ _ :
    StateM CmdState (List Action)).run (s.skip 5)).2.commandBase
  rw [cmdCodeCheck_bind, run_ite]
  split_ifs
  · rfl
  · rfl

theorem value_prCommand_eq (s : CmdState) :
    (Reads.prCommand s.commandBase).value s.memory =
      (prCommand.run s).2.commandBase := by
  rw [value_prCommand]
  change _ = ((ite (s.charAt 2 = 0 ∨ s.charAt 3 = 0) _ _ :
    StateM CmdState (List Action)).run s).2.commandBase
  rw [run_ite]
  split_ifs with hempty hempty' hempty'
  · rfl
  · exact absurd hempty hempty'
  · exact absurd hempty' hempty
  · rfl

theorem value_timeCommand_eq (s : CmdState) :
    (Reads.timeCommand s.commandBase).value s.memory =
      (timeCommand.run s).2.commandBase := by
  obtain ⟨checks, heq, hchecks⟩ := timeCommand_eq
  rw [value_timeCommand, heq]
  exact (hchecks CmdState.commandBase (s.skip 5)).symm

theorem value_verCommand_eq (s : CmdState) :
    (Reads.verCommand s.commandBase).value s.memory =
      (verCommand.run s).2.commandBase := by
  obtain ⟨checks, heq, hchecks⟩ := verCommand_eq
  rw [value_verCommand, heq]
  exact (hchecks CmdState.commandBase (s.skip 4)).symm

/-- `command_base` ends up where the shell leaves it. -/
theorem value_reads (c : Command) (s : CmdState) :
    (c.reads s.commandBase).value s.memory = (c.run.run s).2.commandBase := by
  cases c with
  | help => rfl
  | color => exact value_colorCommand_eq s
  | hash => exact value_hashCommand_eq s
  | pr => exact value_prCommand_eq s
  | time => exact value_timeCommand_eq s
  | ver => exact value_verCommand_eq s
  | unknown => rfl

/-- The whole of `enter`. -/
theorem value_enter (s : CmdState) :
    (Reads.enter s.commandBase).value s.memory =
      if (cmdScan s).commandCheckFlag = 0 then (cmdScan s).commandBase
      else (code.run (cmdCalculate.run s).2).2.commandBase := by
  have hbase :
      (cmdCalculate.run s).2.commandBase = (cmdScan s).commandBase := by
    rw [cmdCalculate_run]
  have hmemory : (cmdCalculate.run s).2.memory = s.memory := by
    rw [cmdCalculate_run]
    rfl
  rw [Reads.enter, (readOnly_cmdCalculate _).value_bind, value_cmdCalculate]
  split_ifs
  · rfl
  · rw [← hbase, ← hmemory, value_code, value_reads, code_run]

end Inside

/-! ## When the command stays in the buffer -/

/-- Room behind the first word.  Each of these names needs one byte more than
its own zero, and `hash sha256` one more behind the second word. -/
def LeavesRoom (command : ℕ → BitVec 8) : Prop :=
  ∀ start token, FirstToken command start token →
    (token ∈ [bytes "color", bytes "hash", bytes "time", bytes "ver"] →
      start + token.length < 126) ∧
    (token = bytes "hash" → start = 115 →
      ¬WordAt command 120 (bytes "sha256"))

section LeavesRoom

variable {s : CmdState} {start : ℕ} {token : List (BitVec 8)}

/-- A skip from an index of the array. -/
theorem inside_skip {base : BitVec 32} {k : ℕ}
    (hbase : base = BitVec.ofNat 32 start) (hstart : start ≤ 126)
    (hk : k ≤ 7) : Inside (base + BitVec.ofNat 32 k) ↔ start + k ≤ 126 := by
  have hsum : (base + BitVec.ofNat 32 k).toNat = start + k := by
    bv_omega
  rw [Inside, hsum]

/-- After the skip of `hash` and of the name of the algorithm. -/
theorem inside_value_hashCommand_iff (hlast : s.command 126 = 0)
    (hbase : s.commandBase = BitVec.ofNat 32 start) (hroom : start + 5 ≤ 126) :
    Inside ((Reads.hashCommand s.commandBase).value s.memory) ↔
      (start = 115 → ¬WordAt s.command 120 (bytes "sha256")) := by
  have hskip := skip_commandBase 5 hbase
  have hcheck : (Reads.cmdCodeCheck (s.commandBase + 5) "sha256").value
      s.memory = (s.skip 5).nameIs "sha256" := value_cmdCodeCheck (s.skip 5) _
  have hword := nameIs_iff_wordAt "sha256" hskip (by decide)
    (by change start + 5 + 6 < _; omega)
  have hlength : (bytes "sha256").length = 6 := rfl
  rw [value_hashCommand, hcheck]
  by_cases hknown : (s.skip 5).nameIs "sha256" = true
  · have hat := hword.mp hknown
    have hend := hat.end_le hlast (by omega)
    have hinside : Inside (s.commandBase + 5 + 7) ↔ start + 5 + 7 ≤ 126 :=
      inside_skip hskip hroom le_rfl
    rw [if_pos hknown, hinside]
    constructor
    · intro hle heq
      omega
    · intro hno
      by_contra hgt
      obtain rfl : start = 115 := by omega
      exact hno rfl hat
  · have hinside := inside_skip (k := 5) hbase (by omega) (by decide)
    rw [if_neg hknown]
    refine iff_of_true (hinside.mpr hroom) ?_
    rintro rfl hat
    exact hknown (hword.mpr hat)

/-- What a branch needs of the place of its word. -/
def Command.Room (command : ℕ → BitVec 8) (start : ℕ) : Command → Prop
  | .color => start + 6 ≤ 126
  | .hash => start + 5 ≤ 126 ∧
      (start = 115 → ¬WordAt command 120 (bytes "sha256"))
  | .time => start + 5 ≤ 126
  | .ver => start + 4 ≤ 126
  | .help | .pr | .unknown => True

theorem readsInside_reads_iff {c : Command} (hlast : s.command 126 = 0)
    (hbase : s.commandBase = BitVec.ofNat 32 start) (hstart : start ≤ 126)
    (hpr : c = .pr → start + 2 ≤ 126) :
    ReadsInside (c.reads s.commandBase) s.memory ↔
      c.Room s.command start := by
  have hinside := fun k hk => inside_skip (k := k) hbase hstart hk
  cases c with
  | help => exact iff_of_true (readsInside_pure _) trivial
  | color =>
      exact (readsInside_colorCommand_iff hlast).trans (hinside 6 (by decide))
  | hash =>
      rw [Command.reads, readsInside_hashCommand_iff hlast]
      refine (and_congr_left' (hinside 5 (by decide))).trans ?_
      exact and_congr_right fun hroom =>
        inside_value_hashCommand_iff hlast hbase hroom
  | pr =>
      refine iff_of_true (readsInside_prCommand hlast ?_) trivial
      exact (hinside 2 (by decide)).mpr (hpr rfl)
  | time =>
      exact (readsInside_timeCommand_iff hlast).trans (hinside 5 (by decide))
  | ver =>
      exact (readsInside_verCommand_iff hlast).trans (hinside 4 (by decide))
  | unknown => exact iff_of_true (readsInside_pure _) trivial

theorem inside_value_reads {c : Command} (hlast : s.command 126 = 0)
    (hbase : s.commandBase = BitVec.ofNat 32 start) (hstart : start ≤ 126)
    (hpr : c = .pr → start + 2 ≤ 126) (hroom : c.Room s.command start) :
    Inside ((c.reads s.commandBase).value s.memory) := by
  have hinside := fun k hk => inside_skip (k := k) hbase hstart hk
  have hzero : Inside s.commandBase := by
    have hle := (hinside 0 (by decide)).mpr hstart
    rwa [BitVec.add_zero] at hle
  cases c with
  | help => exact hzero
  | color =>
      exact inside_colorCommand hlast ((hinside 6 (by decide)).mpr hroom)
  | hash => exact (inside_value_hashCommand_iff hlast hbase hroom.1).mpr hroom.2
  | pr =>
      exact inside_prCommand hlast hzero ((hinside 2 (by decide)).mpr (hpr rfl))
  | time =>
      rw [Command.reads, value_timeCommand]
      exact (hinside 5 (by decide)).mpr hroom
  | ver =>
      rw [Command.reads, value_verCommand]
      exact (hinside 4 (by decide)).mpr hroom
  | unknown => exact hzero

/-- The names of `LeavesRoom`, and how far they skip. -/
theorem room_commandOf_iff (command : ℕ → BitVec 8) (start : ℕ)
    (token : List (BitVec 8)) :
    (commandOf token).Room command start ↔
      (token ∈ [bytes "color", bytes "hash", bytes "time", bytes "ver"] →
        start + token.length < 126) ∧
      (token = bytes "hash" → start = 115 →
        ¬WordAt command 120 (bytes "sha256")) := by
  have hcommand := fun c => commandOf_eq_iff token c
  by_cases hhash : token = bytes "hash"
  · rw [(hcommand .hash).mpr hhash, hhash]
    refine and_congr ?_ (imp_iff_right rfl).symm
    exact (imp_iff_right (by decide)).symm
  have hskip : token ∈ [bytes "color", bytes "hash", bytes "time",
      bytes "ver"] → (start + token.length < 126 ↔
      (token ∈ [bytes "color", bytes "hash", bytes "time", bytes "ver"] →
        start + token.length < 126) ∧
      (token = bytes "hash" → start = 115 →
        ¬WordAt command 120 (bytes "sha256"))) := by
    intro hmem
    rw [imp_iff_right hmem]
    exact (and_iff_left fun h => absurd h hhash).symm
  by_cases hcolor : token = bytes "color"
  · rw [← hskip (by rw [hcolor]; decide), (hcommand .color).mpr hcolor, hcolor]
    rfl
  by_cases htime : token = bytes "time"
  · rw [← hskip (by rw [htime]; decide), (hcommand .time).mpr htime, htime]
    rfl
  by_cases hver : token = bytes "ver"
  · rw [← hskip (by rw [hver]; decide), (hcommand .ver).mpr hver, hver]
    rfl
  have hfree : (commandOf token).Room command start := by
    cases hother : commandOf token with
    | color => exact absurd ((hcommand .color).mp hother) hcolor
    | hash => exact absurd ((hcommand .hash).mp hother) hhash
    | time => exact absurd ((hcommand .time).mp hother) htime
    | ver => exact absurd ((hcommand .ver).mp hother) hver
    | help | pr | unknown => trivial
  refine iff_of_true hfree ⟨fun hmem => ?_, fun h => absurd h hhash⟩
  simp [hcolor, hhash, htime, hver] at hmem

/-- What `enter` reads is what the branch for the first word reads. -/
theorem FirstToken.enter_reads (h : FirstToken s.command start token)
    (hbase : s.commandBase = 0) (hlast : s.command 126 = 0) :
    (ReadsInside (Reads.enter s.commandBase) s.memory ↔
      (commandOf token).Room s.command start) ∧
    ((commandOf token).Room s.command start →
      Inside ((Reads.enter s.commandBase).value s.memory)) := by
  obtain ⟨hstart, hflag⟩ := h.cmdScan hbase
  have hend := h.end_le hlast (by have := h.inside; omega)
  have hlength := List.length_pos_iff.mpr h.nonempty
  have hpr : commandOf token = .pr → start + 2 ≤ 126 := by
    intro hcommand
    have htoken : token = bytes "pr" := (commandOf_eq_iff token .pr).mp hcommand
    rw [htoken] at hend
    exact hend
  -- The variables at the start of `code`.
  have hat : ∀ s' : CmdState, s'.command = s.command →
      s'.commandBase = BitVec.ofNat 32 start →
      (ReadsInside (Reads.code s'.commandBase) s'.memory ↔
        (commandOf token).Room s.command start) ∧
      ((commandOf token).Room s.command start →
        Inside ((Reads.code s'.commandBase).value s'.memory)) := by
    intro s' hcommand hbase'
    have hword : WordAt s'.command start token := by
      rw [hcommand]
      exact h.toWordAt
    have hlast' : s'.command 126 = 0 := by
      rw [hcommand, hlast]
    have hbranch := codeBranch_eq_commandOf hword hbase' h.inside
    have hinside : Inside s'.commandBase := by
      rw [hbase', Inside, BitVec.toNat_ofNat]
      omega
    rw [readsInside_code_iff hlast' hinside, value_code, hbranch, ← hcommand]
    exact ⟨readsInside_reads_iff hlast' hbase' (by omega) hpr,
      inside_value_reads hlast' hbase' (by omega) hpr⟩
  obtain ⟨hreads, hvalue⟩ := hat
    { s with commandBase := BitVec.ofNat 32 start } rfl rfl
  rw [Reads.enter, readsInside_bind_iff (readOnly_cmdCalculate _),
    (readOnly_cmdCalculate _).value_bind, value_cmdCalculate, if_neg hflag,
    hstart]
  refine ⟨?_, hvalue⟩
  rw [← hreads]
  exact and_iff_right (readsInside_cmdCalculate _ _)

/-- A command stays in the buffer exactly if there is room behind its word. -/
theorem enter_staysInside_iff (hbase : s.commandBase = 0)
    (hlast : s.command 126 = 0) :
    StaysInside (Reads.enter s.commandBase) s.memory ↔
      LeavesRoom s.command := by
  by_cases hword : ∃ i < 127, IsWordChar (s.command i)
  · obtain ⟨i, hi, hchar⟩ := hword
    constructor
    · intro hstays start token h
      rw [← room_commandOf_iff]
      exact (h.enter_reads hbase hlast).1.mp hstays.reads
    · intro hroom
      obtain ⟨start, token, h⟩ := exists_firstToken hlast hi hchar
      obtain ⟨hreads, hinside⟩ := h.enter_reads hbase hlast
      have hcommand := (room_commandOf_iff _ _ _).mpr (hroom start token h)
      exact ⟨hreads.mpr hcommand, hinside hcommand⟩
  · have hblank : ∀ i, s.commandBase.toNat ≤ i → i < 127 →
        ¬IsWordChar (s.command i) :=
      fun i _ hi hchar => hword ⟨i, hi, hchar⟩
    have hflag := (cmdScan_flag_eq_zero_iff s).mpr hblank
    have hscan : (cmdScan s).commandBase = s.commandBase := by
      rw [cmdScan, foldl_cmdScanStep_of_blank]
      intro i hi
      rw [List.mem_range'_1] at hi
      exact hblank i hi.1 (by omega)
    have hstays : StaysInside (Reads.enter s.commandBase) s.memory := by
      refine ⟨?_, ?_⟩
      · rw [Reads.enter, readsInside_bind_iff (readOnly_cmdCalculate _),
          value_cmdCalculate, if_pos hflag]
        exact ⟨readsInside_cmdCalculate _ _, readsInside_pure _⟩
      · rw [value_enter, if_pos hflag, hscan, hbase]
        exact Nat.zero_le 126
    refine iff_of_true hstays fun start token h => ?_
    obtain ⟨-, hne⟩ := h.cmdScan hbase
    exact absurd hflag hne

/-- 120 blanks and then `color`: the longest line there is room for. -/
def lateColor : CmdState where
  command i :=
    if i = 0 then 0
    else if i < 121 then 0x20
    else ((bytes "color")[i - 121]?).getD 0
  commandBase := 0
  commandLen := 0
  color := 0x07

theorem firstToken_lateColor :
    FirstToken lateColor.command 121 (bytes "color") where
  char := by decide
  word := by decide
  stop := by decide
  blank := by decide
  nonempty := by decide
  inside := by decide

/-- `command[127]` is read. -/
theorem not_staysInside_lateColor :
    ¬∀ s : CmdState, s.commandBase = 0 → s.command 126 = 0 →
      StaysInside (Reads.enter s.commandBase) s.memory := by
  intro h
  have hreads := (h lateColor rfl rfl).reads
  obtain ⟨hroom, -⟩ := firstToken_lateColor.enter_reads rfl rfl
  have hcommand : commandOf (bytes "color") = .color := by decide
  have hle := hroom.mp hreads
  rw [hcommand] at hle
  exact absurd hle (by change ¬121 + 6 ≤ 126; decide)

theorem enter_staysInside_iff_lateColor :
    StaysInside (Reads.enter lateColor.commandBase) lateColor.memory ↔
      LeavesRoom lateColor.command :=
  enter_staysInside_iff rfl rfl

end LeavesRoom

end OpenFerain
