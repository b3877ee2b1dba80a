import OpenFerain.Application.Cmd
import Mathlib.Data.List.Induction
import Mathlib.Logic.Function.Basic

/-!
# The command shell: the line editor

`have_key`, `back_space` and `enter` of `CMD.c`, and what they are for: the
buffer holds the characters typed since the last Enter, less those taken back.
A blank line leaves `enter` by an exit that does not clear the buffer, so the
spaces of a blank line stay in it; and nothing bounds the length of a line,
while the buffer has room for 125 characters and the zero behind them.
-/

namespace OpenFerain

/-! ## The source functions -/

/-- The variables of the shell, what it has done, and the indices at which
`have_key` and `back_space` have stored into `command`. -/
structure Shell where
  cmd : CmdState
  cmdCharNum : BitVec 32
  lineCharNum : BitVec 32
  lineNum : BitVec 32
  videoMemoryPoint : BitVec 32
  actions : List Action
  stores : List ℕ

def pressCommand : String := "Press Command - >"

/-- `printf(PressCommand)` and the assignments both exits of `enter` make. -/
def newPrompt (s : Shell) : Shell :=
  { s with
    cmd := { s.cmd with commandBase := 0, commandLen := 0 }
    cmdCharNum := 17
    lineCharNum := 17
    lineNum := 0
    actions := s.actions ++ [.printf pressCommand s.cmd.color] }

/-- `for(int i = 0;i < 127;i++) command[i] = 0;` -/
def clearCommand (command : ℕ → BitVec 8) : ℕ → BitVec 8 :=
  (List.range 127).foldl (fun command i => Function.update command i 0) command

/-- `enter` in `CMD.c`. -/
def enter (s : Shell) : Shell :=
  let checked := cmdCalculate.run s.cmd
  if checked.1 = 0 then newPrompt { s with cmd := checked.2 }
  else
    let done := code.run checked.2
    newPrompt { s with
      cmd := { done.2 with command := clearCommand done.2.command }
      actions := s.actions ++ done.1 }

/-- The main loop starts with an empty buffer and prints the first prompt.
`memory` is the memory from `command` on, zero in the array. -/
def initialShell (behind : ℕ → BitVec 8) : Shell where
  cmd := {
    command := fun i => if i < 127 then 0 else behind i
    commandBase := 0
    commandLen := 0
    color := 0x07 }
  cmdCharNum := 17
  lineCharNum := 17
  lineNum := 0
  videoMemoryPoint := 0
  actions := [.printf "OpenFerain Command Shell @ 1.1.26.7.1" 0x07,
    .testScolling, .printf pressCommand 0x07]
  stores := []

section Editor

variable (stray : ℕ → BitVec 8 → Shell → Shell)

/-- `command[i] = v`.  What a store past the end of the array changes is left
open. -/
def storeCommand (i : BitVec 32) (v : BitVec 8) (s : Shell) : Shell :=
  let stored :=
    if i.toNat < 127 then
      { s with cmd := { s.cmd with
        command := Function.update s.cmd.command i.toNat v } }
    else stray i.toNat v s
  { stored with stores := i.toNat :: s.stores }

/-- The end of `back_space`: one character less, on the line before if this
line had no other. -/
def uncountKey (s : Shell) : Shell :=
  let s := { s with
    cmdCharNum := s.cmdCharNum - 1
    lineCharNum := s.lineCharNum - 1 }
  if s.lineCharNum ≤ 0 then
    { s with
      videoMemoryPoint := s.videoMemoryPoint - 0x00000100
      lineNum := s.lineNum - 1
      lineCharNum := 79 }
  else s

/-- `back_space` in `CMD.c`. -/
def backSpace (s : Shell) : Shell :=
  if s.cmdCharNum ≤ 17 then s
  else
    let moved := { s with actions := s.actions ++ [.moveBack s.cmd.color] }
    uncountKey (storeCommand stray (s.cmdCharNum - 17) 0x00 moved)

/-- The middle of `have_key`: one character more, on the next line if this line
is full. -/
def countKey (key : BitVec 8) (s : Shell) : Shell :=
  let s := { s with
    actions := s.actions ++ [.type key]
    cmdCharNum := s.cmdCharNum + 1
    lineCharNum := s.lineCharNum + 1 }
  if s.lineCharNum ≥ 80 then
    { s with
      actions := s.actions ++ [.testScolling]
      lineNum := s.lineNum + 1
      lineCharNum := 0 }
  else s

/-- `have_key` in `CMD.c`. -/
def haveKey (key : BitVec 8) (s : Shell) : Shell :=
  if key = 0x1C then enter s
  else if key = 0x0E then backSpace stray s
  else
    let counted := countKey key s
    storeCommand stray (counted.cmdCharNum - 17) key counted

/-- The shell after a sequence of keys. -/
def runKeys (behind : ℕ → BitVec 8) (keys : List (BitVec 8)) : Shell :=
  keys.foldl (fun s key => haveKey stray key s) (initialShell behind)

end Editor

/-! ## The line -/

/-- The line after one more key: Enter starts a new one and Backspace takes the
last character back. -/
def typeKey (line : List (BitVec 8)) (key : BitVec 8) : List (BitVec 8) :=
  if key = 0x1C then []
  else if key = 0x0E then line.dropLast
  else line ++ [key]

/-- The characters typed since the last Enter, less those taken back. -/
def typedLine (keys : List (BitVec 8)) : List (BitVec 8) :=
  keys.foldl typeKey []

/-- The array holds the line from index 1 on and 0 in every other byte. -/
def HoldsLine (command : ℕ → BitVec 8) (line : List (BitVec 8)) : Prop :=
  ∀ i < 127, command i = ((0 :: line)[i]?).getD 0

/-- No line ever has more than 125 characters. -/
def ShortLines (keys : List (BitVec 8)) : Prop :=
  ∀ before, before <+: keys → (typedLine before).length ≤ 125

/-- Enter is never pressed on a line of nothing but spaces, the empty line
apart. -/
def NoBlankLines (keys : List (BitVec 8)) : Prop :=
  ∀ before, before ++ [0x1C] <+: keys →
    typedLine before = [] ∨ ∃ c ∈ typedLine before, c ≠ 0x20

variable {stray : ℕ → BitVec 8 → Shell → Shell} {behind : ℕ → BitVec 8}
  {keys line : List (BitVec 8)} {key : BitVec 8} {s : Shell}

theorem runKeys_concat (stray : ℕ → BitVec 8 → Shell → Shell)
    (behind : ℕ → BitVec 8) (keys : List (BitVec 8)) (key : BitVec 8) :
    runKeys stray behind (keys ++ [key]) =
      haveKey stray key (runKeys stray behind keys) := by
  rw [runKeys, List.foldl_append]
  rfl

theorem typedLine_concat (keys : List (BitVec 8)) (key : BitVec 8) :
    typedLine (keys ++ [key]) = typeKey (typedLine keys) key := by
  rw [typedLine, List.foldl_append]
  rfl

theorem ShortLines.of_concat (h : ShortLines (keys ++ [key])) :
    ShortLines keys :=
  fun before hbefore => h before (hbefore.trans (List.prefix_append _ _))

theorem ShortLines.length_le (h : ShortLines keys) :
    (typedLine keys).length ≤ 125 :=
  h keys (List.prefix_refl _)

theorem NoBlankLines.of_concat (h : NoBlankLines (keys ++ [key])) :
    NoBlankLines keys :=
  fun before hbefore => h before (hbefore.trans (List.prefix_append _ _))

/-! ## One key -/

/-- A store inside the array. -/
theorem storeCommand_of_lt (stray : ℕ → BitVec 8 → Shell → Shell)
    {i : BitVec 32} {v : BitVec 8} (hi : i.toNat < 127) :
    storeCommand stray i v s =
      { s with
        cmd := { s.cmd with
          command := Function.update s.cmd.command i.toNat v }
        stores := i.toNat :: s.stores } := by
  rw [storeCommand, if_pos hi]

/-- Counting a character changes neither the buffer nor the stores. -/
theorem countKey_fields (key : BitVec 8) (s : Shell) :
    (countKey key s).cmd = s.cmd ∧ (countKey key s).stores = s.stores ∧
      (countKey key s).cmdCharNum = s.cmdCharNum + 1 := by
  rw [countKey]
  split
  · exact ⟨rfl, rfl, rfl⟩
  · exact ⟨rfl, rfl, rfl⟩

theorem uncountKey_fields (s : Shell) :
    (uncountKey s).cmd = s.cmd ∧ (uncountKey s).stores = s.stores ∧
      (uncountKey s).cmdCharNum = s.cmdCharNum - 1 := by
  rw [uncountKey]
  split
  · exact ⟨rfl, rfl, rfl⟩
  · exact ⟨rfl, rfl, rfl⟩

/-- What a key changes of the buffer, the counter and the list of stores, for
a line of `n` characters: the buffer stored to at `i`, and `m` characters
then. -/
structure Stored (s s' : Shell) (i : ℕ) (v : BitVec 8) (m : ℕ) : Prop where
  cmd : s'.cmd = { s.cmd with command := Function.update s.cmd.command i v }
  charNum : s'.cmdCharNum = BitVec.ofNat 32 (17 + m)
  stores : s'.stores = i :: s.stores

/-- A character that fits is stored behind the line. -/
theorem haveKey_char (stray : ℕ → BitVec 8 → Shell → Shell) {n : ℕ}
    (henter : key ≠ 0x1C) (hback : key ≠ 0x0E)
    (hnum : s.cmdCharNum = BitVec.ofNat 32 (17 + n)) (hn : n < 126) :
    Stored s (haveKey stray key s) (n + 1) key (n + 1) := by
  obtain ⟨hcmd, hstores, hcount⟩ := countKey_fields key s
  have hnext : s.cmdCharNum + 1 = BitVec.ofNat 32 (17 + (n + 1)) := by
    rw [hnum]
    bv_omega
  have hindex : (BitVec.ofNat 32 (17 + (n + 1)) - 17).toNat = n + 1 := by
    bv_omega
  rw [haveKey, if_neg henter, if_neg hback]
  simp only [hcount, hnext]
  rw [storeCommand_of_lt stray (by omega), hindex, hcmd, hstores]
  exact ⟨rfl, hcount.trans hnext, rfl⟩

/-- Backspace on the empty line does nothing. -/
theorem backSpace_empty (hnum : s.cmdCharNum = BitVec.ofNat 32 17) :
    backSpace stray s = s := by
  rw [backSpace, if_pos (by rw [hnum]; decide)]

/-- Backspace clears the last character. -/
theorem backSpace_succ (stray : ℕ → BitVec 8 → Shell → Shell) {n : ℕ}
    (hnum : s.cmdCharNum = BitVec.ofNat 32 (17 + (n + 1))) (hn : n < 126) :
    Stored s (backSpace stray s) (n + 1) 0 n := by
  have hpos : ¬s.cmdCharNum ≤ 17 := by
    rw [hnum]
    bv_omega
  have hindex : (s.cmdCharNum - 17).toNat = n + 1 := by
    rw [hnum]
    bv_omega
  rw [backSpace, if_neg hpos]
  simp only [storeCommand_of_lt stray (i := s.cmdCharNum - 17)
    (by omega), hindex]
  obtain ⟨hcmd, hstores, hcount⟩ := uncountKey_fields { s with
    cmd := { s.cmd with command := Function.update s.cmd.command (n + 1) 0 }
    actions := s.actions ++ [.moveBack s.cmd.color]
    stores := (n + 1) :: s.stores }
  refine ⟨hcmd, hcount.trans ?_, hstores⟩
  rw [hnum]
  bv_omega

/-! ## Enter -/

theorem clearCommand_apply (command : ℕ → BitVec 8) (i : ℕ) :
    clearCommand command i = if i < 127 then 0 else command i := by
  have hclear : ∀ n, (List.range n).foldl
      (fun command i => Function.update command i 0) command i =
        if i < n then 0 else command i := by
    intro n
    induction n with
    | zero => rfl
    | succ n ih =>
        rw [List.range_succ, List.foldl_append, List.foldl_cons,
          List.foldl_nil, Function.update_apply, ih]
        split_ifs <;> first | rfl | omega
  exact hclear 127

/-- Both exits of `enter` start a new line. -/
theorem enter_fields (s : Shell) :
    (enter s).cmdCharNum = 17 ∧ (enter s).stores = s.stores ∧
      (enter s).cmd.commandBase = 0 ∧ (enter s).cmd.commandLen = 0 := by
  rw [enter]
  simp only
  split
  · exact ⟨rfl, rfl, rfl, rfl⟩
  · exact ⟨rfl, rfl, rfl, rfl⟩

/-- The exit for a line without a word leaves the buffer as it is. -/
theorem command_enter_of_noWord
    (h : (cmdScan s.cmd).commandCheckFlag = 0) :
    (enter s).cmd.command = s.cmd.command := by
  rw [enter, cmdCalculate_run]
  simp only [if_pos h]
  rfl

/-- The other exit clears the buffer. -/
theorem command_enter_of_word
    (h : (cmdScan s.cmd).commandCheckFlag ≠ 0) (i : ℕ) :
    (enter s).cmd.command i = if i < 127 then 0 else s.cmd.command i := by
  have hne : ¬(1 : BitVec 8) = 0 := by decide
  rw [enter, cmdCalculate_run]
  simp only [if_neg h, if_neg hne, newPrompt]
  rw [clearCommand_apply, keepsCommand_code]

/-- Enter changes nothing behind the array, and leaves its last byte 0 if it
was. -/
theorem command_enter (s : Shell) (i : ℕ) :
    (enter s).cmd.command i = s.cmd.command i ∨
      i < 127 ∧ (enter s).cmd.command i = 0 := by
  by_cases h : (cmdScan s.cmd).commandCheckFlag = 0
  · exact Or.inl (congrFun (command_enter_of_noWord h) i)
  · rw [command_enter_of_word h i]
    split
    · exact Or.inr ⟨‹_›, rfl⟩
    · exact Or.inl rfl

/-! ## The buffer is never overrun -/

/-- The state of the editor while a line is typed: the counter tells its length,
the last byte of the array is 0, and all stores were inside the array. -/
structure InArray (line : List (BitVec 8)) (s : Shell) : Prop where
  charNum : s.cmdCharNum = BitVec.ofNat 32 (17 + line.length)
  last : s.cmd.command 126 = 0
  stores : ∀ i ∈ s.stores, i ≤ 126

theorem inArray_initialShell (behind : ℕ → BitVec 8) :
    InArray [] (initialShell behind) :=
  ⟨rfl, rfl, fun _ h => absurd h List.not_mem_nil⟩

/-- A store below the last byte keeps the last byte and the bound. -/
theorem InArray.stored {s' : Shell} {line' : List (BitVec 8)} {i : ℕ}
    {v : BitVec 8} (h : InArray line s)
    (hstored : Stored s s' i v line'.length) (hi : i < 126) :
    InArray line' s' := by
  refine ⟨hstored.charNum, ?_, ?_⟩
  · rw [hstored.cmd]
    change Function.update s.cmd.command i v 126 = 0
    rw [Function.update_of_ne (by omega), h.last]
  · rw [hstored.stores]
    intro j hj
    rcases List.mem_cons.mp hj with rfl | hold
    · omega
    · exact h.stores j hold

theorem InArray.enter (h : InArray line s) : InArray [] (enter s) := by
  obtain ⟨hnum, hstores, -, -⟩ := enter_fields s
  refine ⟨hnum, ?_, by rw [hstores]; exact h.stores⟩
  rcases command_enter s 126 with hsame | ⟨-, hzero⟩
  · rw [hsame, h.last]
  · exact hzero

theorem InArray.haveKey (h : InArray line s) (key : BitVec 8)
    (hbefore : line.length ≤ 125) (hafter : (typeKey line key).length ≤ 125) :
    InArray (typeKey line key) (haveKey stray key s) := by
  rw [typeKey] at hafter ⊢
  split_ifs at hafter ⊢ with henter hback
  · rw [OpenFerain.haveKey, if_pos henter]
    exact h.enter
  · rw [OpenFerain.haveKey, if_neg henter, if_pos hback]
    rcases hline : line.length with _ | n
    · have hnil : line = [] := List.eq_nil_of_length_eq_zero hline
      subst hnil
      rw [backSpace_empty h.charNum]
      exact h
    · have hstored := backSpace_succ stray (n := n)
        (by rw [h.charNum, hline]) (by omega)
      have hlen : line.dropLast.length = n := by
        rw [List.length_dropLast, hline, Nat.add_sub_cancel]
      exact h.stored (by rw [hlen]; exact hstored) (by omega)
  · rw [List.length_append, List.length_singleton] at hafter
    have hstored := haveKey_char stray henter hback h.charNum
      (by omega)
    exact h.stored (by rw [List.length_append]; exact hstored) (by omega)

theorem ShortLines.inArray (stray : ℕ → BitVec 8 → Shell → Shell)
    (behind : ℕ → BitVec 8) (h : ShortLines keys) :
    InArray (typedLine keys) (runKeys stray behind keys) := by
  induction keys using List.reverseRecOn with
  | nil => exact inArray_initialShell behind
  | append_singleton keys key ih =>
      have hafter := h.length_le
      rw [typedLine_concat] at hafter ⊢
      rw [runKeys_concat]
      exact (ih h.of_concat).haveKey key h.of_concat.length_le hafter

/-- All through the sequence the stores stay in the array, and behind the line
there is a zero in the array. -/
def NeverOverrun (stray : ℕ → BitVec 8 → Shell → Shell)
    (behind : ℕ → BitVec 8) (keys : List (BitVec 8)) : Prop :=
  ∀ before, before <+: keys →
    (∀ i ∈ (runKeys stray behind before).stores, i ≤ 126) ∧
      ∃ i, (typedLine before).length < i ∧ i ≤ 126 ∧
        (runKeys stray behind before).cmd.command i = 0

theorem ShortLines.of_prefix {before : List (BitVec 8)} (h : ShortLines keys)
    (hbefore : before <+: keys) : ShortLines before :=
  fun _ hle => h _ (hle.trans hbefore)

/-- The buffer is never overrun exactly if no line has more than 125
characters. -/
theorem neverOverrun_iff (stray : ℕ → BitVec 8 → Shell → Shell)
    (behind : ℕ → BitVec 8) (keys : List (BitVec 8)) :
    NeverOverrun stray behind keys ↔
      ∀ before, before <+: keys → (typedLine before).length ≤ 125 := by
  constructor
  · intro h before hbefore
    obtain ⟨-, i, hline, hi, -⟩ := h before hbefore
    omega
  · intro h before hbefore
    have hshort : ShortLines before := ShortLines.of_prefix h hbefore
    have hin := hshort.inArray stray behind
    have hlength := hshort.length_le
    exact ⟨hin.stores, 126, by omega, Nat.le_refl _, hin.last⟩

theorem typedLine_replicate (n : ℕ) :
    typedLine (List.replicate n 0x61) = List.replicate n 0x61 := by
  induction n with
  | zero => rfl
  | succ n ih =>
      rw [List.replicate_succ', typedLine_concat, ih]
      rfl

/-- After 126 letters without Enter no zero is left in the array behind the
line. -/
theorem not_neverOverrun_letters :
    ¬∀ (stray : ℕ → BitVec 8 → Shell → Shell) (behind : ℕ → BitVec 8)
      (keys : List (BitVec 8)), NeverOverrun stray behind keys := by
  intro h
  obtain ⟨-, i, hline, hi, -⟩ := h (fun _ _ s => s) (fun _ => 0)
    (List.replicate 126 0x61) _ (List.prefix_refl _)
  rw [typedLine_replicate, List.length_replicate] at hline
  omega

end OpenFerain
