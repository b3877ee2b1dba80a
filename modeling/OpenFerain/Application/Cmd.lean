import Mathlib.Data.Nat.Notation
import Mathlib.Tactic.Common

/-!
# The command shell: commands

`cmd_calculate`, `cmd_code_check` and `code` of `CMD.c`.  A command is
described by what it does to the variables of the shell and by the list of its
actions: the calls of `stdio.h` and `sha2.h`, and of `print_time`, which the
repository does not have.
-/

namespace OpenFerain

/-! ## The variables of a command -/

/-- The bytes of a string literal. -/
def bytes (s : String) : List (BitVec 8) :=
  s.toList.map fun c => BitVec.ofNat 8 c.toNat

/-- The variables that the functions of a command use.  `command` is the memory
from the array of 127 bytes on. -/
structure CmdState where
  command : ℕ → BitVec 8
  commandBase : BitVec 32
  commandLen : BitVec 32
  color : BitVec 8

/-- `command[command_base + i]` -/
def CmdState.charAt (s : CmdState) (i : ℕ) : BitVec 8 :=
  s.command (s.commandBase + BitVec.ofNat 32 i).toNat

/-- What the shell asks other code to do.  A string in memory is given by the
bytes from its start on. -/
inductive Action where
  | printf (text : String) (color : BitVec 8)
  | printfFrom (string : ℕ → BitVec 8) (color : BitVec 8)
  | testScolling
  | type (key : BitVec 8)
  | moveBack (color : BitVec 8)
  | setColor (color : BitVec 8)
  | printTime (n : ℕ)
  | sha256 (string : ℕ → BitVec 8) (color : BitVec 8)

/-! ## `cmd_calculate` -/

/-- A character of a command name or an argument. -/
def IsWordChar (c : BitVec 8) : Prop := c ≠ 0 ∧ c ≠ 0x20

instance : DecidablePred IsWordChar := fun _ =>
  inferInstanceAs (Decidable (_ ∧ _))

/-- The variables of the loop of `cmd_calculate`. -/
structure CmdScan where
  commandBase : BitVec 32
  commandCheckFlag : BitVec 8
  lastChar : BitVec 32

/-- The body of the loop. -/
def cmdScanStep (command : ℕ → BitVec 8) (scan : CmdScan) (i : ℕ) : CmdScan :=
  if IsWordChar (command i) then
    let scan :=
      if scan.commandCheckFlag = 0 then
        { scan with commandBase := BitVec.ofNat 32 i, commandCheckFlag := 1 }
      else scan
    { scan with lastChar := BitVec.ofNat 32 i }
  else scan

/-- The loop of `cmd_calculate`, over the indices from `command_base` to
126. -/
def cmdScan (s : CmdState) : CmdScan :=
  (List.range' s.commandBase.toNat (127 - s.commandBase.toNat)).foldl
    (cmdScanStep s.command) ⟨s.commandBase, 0, 0⟩

/-- `cmd_calculate` in `CMD.c`. -/
def cmdCalculate : StateM CmdState (BitVec 8) := do
  let scan := cmdScan (← get)
  modify fun s =>
    { s with
      commandBase := scan.commandBase
      commandLen := scan.lastChar + 1 - scan.commandBase }
  if scan.commandCheckFlag = 0 then return 0
  return 1

/-! ## `code` -/

/-- `cmd_code_check` in `CMD.c`. -/
def cmdCodeCheck (name : String) : StateM CmdState Bool := do
  let s ← get
  let len := (bytes name).length
  return (bytes name).zipIdx.all (fun x => s.charAt x.2 = x.1) &&
    !IsWordChar (s.charAt len)

/-- `printf` of a text with the colour of the moment. -/
def say (text : String) : StateM CmdState Action := do
  return .printf text (← get).color

/-- `command_base = command_base + n; command_len = command_len - n;` -/
def skipChars (n : BitVec 32) : StateM CmdState Unit :=
  modify fun s =>
    { s with commandBase := s.commandBase + n, commandLen := s.commandLen - n }

/-- The string at `&command[command_base]`. -/
def argument : StateM CmdState (ℕ → BitVec 8) := do
  return (← get).charAt

/-- `char_to_hex` in `bit.h`. -/
def charToHex (ch : BitVec 8) : BitVec 16 :=
  if 0x30 ≤ ch ∧ ch ≤ 0x39 then (ch - 0x30).setWidth 16
  else if 0x41 ≤ ch ∧ ch ≤ 0x46 then (ch - 0x41 + 10).setWidth 16
  else if 0x61 ≤ ch ∧ ch ≤ 0x66 then (ch - 0x61 + 10).setWidth 16
  else 0x1000

/-- `color_error` in `CMD.c`. -/
def colorError : StateM CmdState (List Action) := do
  return [← say "Unknown color", .testScolling,
    ← say "color format :    XX", ← say "                 -- --",
    ← say "                 ^  ^", ← say "                0~F 0~F",
    ← say "   background color  foreground color"]

/-- The end of the `color` command: set the colour to the two digits at
`command_base`. -/
def setColorDigits : StateM CmdState (List Action) := do
  let s ← get
  let high := charToHex (s.charAt 0)
  let low := charToHex (s.charAt 1)
  if high = 0x1000 ∨ low = 0x1000 then colorError
  else
    let color := high.setWidth 8 <<< 4 ||| low.setWidth 8
    modify fun s => { s with color := color }
    return [.setColor color]

/-- `nocommand` in `CMD.c`. -/
def nocommand : StateM CmdState (List Action) := do
  let color1 := (← get).color
  modify fun s => { s with color := 0x04 }
  let actions := [← say "Command not Found!",
    ← say "Press 'help' or 'h' to get more information"]
  modify fun s => { s with color := color1 }
  return actions

def helpCommand : StateM CmdState (List Action) := do
  return [← say "OpenFerain OS @ Command Shell 1.0.7_19", .testScolling,
    ← say "color [color] --  set color",
    ← say "hash [-algorithm_name] [str] --  Get a string's hash",
    ← say "pr [str] --  Print string",
    ← say
      "time [a/y/mo/d/h/mi/s] --  Get time all/year/month/day/hour/minute/second",
    ← say "ver [appname]  --  Get an application's version",
    ← say "help/h  --  Get help"]

def colorCommand : StateM CmdState (List Action) := do
  skipChars 6
  let s ← get
  if s.charAt 0 = 0x30 ∧ (s.charAt 1 = 0x78 ∨ s.charAt 1 = 0x58) then
    skipChars 2
  setColorDigits

def hashCommand : StateM CmdState (List Action) := do
  skipChars 5
  if ← cmdCodeCheck "sha256" then
    skipChars 7
    return [.sha256 (← argument) (← get).color]
  else return [← say "Unkown algorithm!"]

def prCommand : StateM CmdState (List Action) := do
  let s ← get
  if s.charAt 2 = 0 ∨ s.charAt 3 = 0 then
    return [← say "Please press string!"]
  skipChars 3
  return [.printfFrom (← argument) (← get).color]

def timeCommand : StateM CmdState (List Action) := do
  skipChars 5
  if ← cmdCodeCheck "a" then return [.printTime 0]
  else if ← cmdCodeCheck "y" then return [.printTime 1]
  else if ← cmdCodeCheck "mo" then return [.printTime 2]
  else if ← cmdCodeCheck "d" then return [.printTime 3]
  else if ← cmdCodeCheck "h" then return [.printTime 4]
  else if ← cmdCodeCheck "mi" then return [.printTime 5]
  else if ← cmdCodeCheck "s" then return [.printTime 6]
  else return [← say "Parameter error!"]

def verCommand : StateM CmdState (List Action) := do
  skipChars 4
  if (← cmdCodeCheck "cmd") || (← cmdCodeCheck "CMD") then
    return [← say "OpenFerain OS @ Command Shell 1.0.7_19"]
  else if (← cmdCodeCheck "os") || (← cmdCodeCheck "OS") then
    return [← say "OpenFerain OS 26.0.7_19"]
  else return [← say "Unknow application"]

/-- `code` in `CMD.c`, one function for each of its branches. -/
def code : StateM CmdState (List Action) := do
  if (← cmdCodeCheck "help") || (← cmdCodeCheck "h") then helpCommand
  else if ← cmdCodeCheck "color" then colorCommand
  else if ← cmdCodeCheck "hash" then hashCommand
  else if ← cmdCodeCheck "pr" then prCommand
  else if ← cmdCodeCheck "time" then timeCommand
  else if ← cmdCodeCheck "ver" then verCommand
  else nocommand

/-! ## Facts -/

variable {α β : Type}

theorem foldl_cmdScanStep_flag (command : ℕ → BitVec 8) (xs : List ℕ)
    (scan : CmdScan) :
    (xs.foldl (cmdScanStep command) scan).commandCheckFlag = 0 ↔
      scan.commandCheckFlag = 0 ∧ ∀ i ∈ xs, ¬IsWordChar (command i) := by
  induction xs generalizing scan with
  | nil => simp
  | cons i xs ih =>
      rw [List.foldl_cons, ih, List.forall_mem_cons]
      by_cases hword : IsWordChar (command i)
      · have hset : (cmdScanStep command scan i).commandCheckFlag ≠ 0 := by
          rw [cmdScanStep, if_pos hword]
          by_cases hflag : scan.commandCheckFlag = 0
          · simp only [if_pos hflag]
            decide
          · simp only [if_neg hflag]
            exact hflag
        exact ⟨fun h => absurd h.1 hset, fun h => absurd hword h.2.1⟩
      · rw [cmdScanStep, if_neg hword]
        exact and_congr_right fun _ => (and_iff_right hword).symm

/-- The flag is set exactly if there is a word in the buffer. -/
theorem cmdScan_flag_eq_zero_iff (s : CmdState) :
    (cmdScan s).commandCheckFlag = 0 ↔
      ∀ i, s.commandBase.toNat ≤ i → i < 127 → ¬IsWordChar (s.command i) := by
  rw [cmdScan, foldl_cmdScanStep_flag]
  simp only [true_and, List.mem_range'_1]
  constructor
  · intro h i hbase hi
    exact h i ⟨hbase, by omega⟩
  · intro h i hi
    exact h i hi.1 (by omega)

theorem cmdCalculate_run (s : CmdState) :
    cmdCalculate.run s =
      (if (cmdScan s).commandCheckFlag = 0 then 0 else 1,
        { s with
          commandBase := (cmdScan s).commandBase
          commandLen :=
            (cmdScan s).lastChar + 1 - (cmdScan s).commandBase }) := by
  by_cases hflag : (cmdScan s).commandCheckFlag = 0
  · rw [if_pos hflag]
    change StateT.run (if (cmdScan s).commandCheckFlag = 0 then _ else _) _ = _
    rw [if_pos hflag]
    rfl
  · rw [if_neg hflag]
    change StateT.run (if (cmdScan s).commandCheckFlag = 0 then _ else _) _ = _
    rw [if_neg hflag]
    rfl

/-! ## What a command leaves as it is -/

section Keeps

variable {γ : Type} {g : CmdState → γ}

/-- A program that does not change the part `g` of the variables. -/
def Keeps (g : CmdState → γ) (x : StateM CmdState α) : Prop :=
  ∀ s, g (x.run s).2 = g s

/-- The part of the variables has nothing to do with where the command
stands. -/
def IgnoresBase (g : CmdState → γ) : Prop :=
  ∀ s base len, g { s with commandBase := base, commandLen := len } = g s

theorem keeps_pure (a : α) : Keeps g (pure a : StateM CmdState α) :=
  fun _ => rfl

theorem keeps_get : Keeps g (get : StateM CmdState CmdState) := fun _ => rfl

theorem Keeps.bind {x : StateM CmdState α} {f : α → StateM CmdState β}
    (hx : Keeps g x) (hf : ∀ a, Keeps g (f a)) : Keeps g (x >>= f) := by
  intro s
  exact (hf (x.run s).1 (x.run s).2).trans (hx s)

theorem keeps_ite {c : Prop} [Decidable c] {x y : StateM CmdState α}
    (hx : Keeps g x) (hy : Keeps g y) : Keeps g (if c then x else y) := by
  split
  · exact hx
  · exact hy

theorem keeps_skipChars (hg : IgnoresBase g) (n : BitVec 32) :
    Keeps g (skipChars n) := fun s => hg s _ _

theorem keeps_say (text : String) : Keeps g (say text) := fun _ => rfl

theorem keeps_cmdCodeCheck (name : String) : Keeps g (cmdCodeCheck name) :=
  fun _ => rfl

theorem keeps_argument : Keeps g argument := fun _ => rfl

theorem keeps_colorError : Keeps g colorError := fun _ => rfl

theorem keeps_helpCommand : Keeps g helpCommand := fun _ => rfl

/-- The colour is changed and changed back. -/
theorem keeps_nocommand : Keeps g nocommand := fun _ => rfl

theorem keeps_hashCommand (hg : IgnoresBase g) : Keeps g hashCommand := by
  refine (keeps_skipChars hg 5).bind fun _ =>
    (keeps_cmdCodeCheck _).bind fun _ => keeps_ite ?_ ?_
  · exact (keeps_skipChars hg 7).bind fun _ => keeps_argument.bind fun _ =>
      keeps_get.bind fun _ => keeps_pure _
  · exact (keeps_say _).bind fun _ => keeps_pure _

theorem keeps_prCommand (hg : IgnoresBase g) : Keeps g prCommand := by
  refine keeps_get.bind fun s => keeps_ite ?_ ?_
  · exact (keeps_say _).bind fun _ => keeps_pure _
  · exact (keeps_skipChars hg 3).bind fun _ => keeps_argument.bind fun _ =>
      keeps_get.bind fun _ => keeps_pure _

/-- A chain of tests of command names. -/
theorem keeps_branch {names : StateM CmdState Bool}
    {x y : StateM CmdState α} (hnames : Keeps g names)
    (hx : Keeps g x) (hy : Keeps g y) :
    Keeps g (names >>= fun b => if b = true then x else y) :=
  hnames.bind fun _ => keeps_ite hx hy

/-- After its skip `time` only tests and asks for the time. -/
theorem timeCommand_eq : ∃ checks : StateM CmdState (List Action),
    timeCommand = (skipChars 5 >>= fun _ => checks) ∧
      ∀ {γ : Type} (g : CmdState → γ), Keeps g checks := by
  refine ⟨_, rfl, fun g => ?_⟩
  have hprint : ∀ n, Keeps g
      (pure [Action.printTime n] : StateM CmdState (List Action)) :=
    fun n => keeps_pure _
  have hcheck := fun name => keeps_cmdCodeCheck (g := g) name
  have hlast : Keeps g (do return [← say "Parameter error!"]) :=
    (keeps_say _).bind fun _ => keeps_pure _
  exact keeps_branch (hcheck _) (hprint 0) <|
    keeps_branch (hcheck _) (hprint 1) <|
    keeps_branch (hcheck _) (hprint 2) <|
    keeps_branch (hcheck _) (hprint 3) <|
    keeps_branch (hcheck _) (hprint 4) <|
    keeps_branch (hcheck _) (hprint 5) <|
    keeps_branch (hcheck _) (hprint 6) hlast

theorem keeps_timeCommand (hg : IgnoresBase g) : Keeps g timeCommand := by
  obtain ⟨checks, heq, hchecks⟩ := timeCommand_eq
  rw [heq]
  exact (keeps_skipChars hg 5).bind fun _ => hchecks g

/-- `cmd_code_check(a) == 1 || cmd_code_check(b) == 1` -/
theorem keeps_eitherName (a b : String) {x y : StateM CmdState α}
    (hx : Keeps g x) (hy : Keeps g y) :
    Keeps g (do
      if (← cmdCodeCheck a) || (← cmdCodeCheck b) then x else y) :=
  (keeps_cmdCodeCheck a).bind fun _ =>
    (keeps_cmdCodeCheck b).bind fun _ => keeps_ite hx hy

/-- After its skip `ver` only tests and prints. -/
theorem verCommand_eq : ∃ checks : StateM CmdState (List Action),
    verCommand = (skipChars 4 >>= fun _ => checks) ∧
      ∀ {γ : Type} (g : CmdState → γ), Keeps g checks := by
  refine ⟨_, rfl, fun g => ?_⟩
  have hsay : ∀ text, Keeps g (do return [← say text]) :=
    fun text => (keeps_say text).bind fun _ => keeps_pure _
  exact keeps_eitherName _ _ (hsay _) (keeps_eitherName _ _ (hsay _) (hsay _))

theorem keeps_verCommand (hg : IgnoresBase g) : Keeps g verCommand := by
  obtain ⟨checks, heq, hchecks⟩ := verCommand_eq
  rw [heq]
  exact (keeps_skipChars hg 4).bind fun _ => hchecks g

end Keeps

theorem ignoresBase_command : IgnoresBase CmdState.command :=
  fun _ _ _ => rfl

theorem keepsCommand_setColorDigits :
    Keeps CmdState.command setColorDigits := by
  refine keeps_get.bind fun s => keeps_ite keeps_colorError ?_
  exact Keeps.bind (fun _ => rfl) fun _ => keeps_pure _

theorem keepsCommand_colorCommand : Keeps CmdState.command colorCommand := by
  refine (keeps_skipChars ignoresBase_command 6).bind fun _ =>
    keeps_get.bind fun s => keeps_ite ?_ ?_
  · exact (keeps_skipChars ignoresBase_command 2).bind fun _ =>
      keepsCommand_setColorDigits
  · exact keepsCommand_setColorDigits

/-- No command changes the buffer. -/
theorem keepsCommand_code : Keeps CmdState.command code := by
  have hcheck := fun name => keeps_cmdCodeCheck (g := CmdState.command) name
  have hg := ignoresBase_command
  exact keeps_eitherName _ _ keeps_helpCommand <|
    keeps_branch (hcheck _) keepsCommand_colorCommand <|
    keeps_branch (hcheck _) (keeps_hashCommand hg) <|
    keeps_branch (hcheck _) (keeps_prCommand hg) <|
    keeps_branch (hcheck _) (keeps_timeCommand hg) <|
    keeps_branch (hcheck _) (keeps_verCommand hg) keeps_nocommand

end OpenFerain
