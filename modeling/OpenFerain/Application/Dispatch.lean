import OpenFerain.Application.LineEditor
import Mathlib.Algebra.Order.Ring.Nat
import Mathlib.Data.Nat.Find

/-!
# The command shell: dispatch

The names of the commands are tested one after the other, each by comparing it
with the bytes at `command_base` and then testing the byte behind it.  As the
names have no blanks, the test is equality with the first word of the buffer,
and the branch `code` takes is a function of that word.
-/

namespace OpenFerain

variable {command : ℕ → BitVec 8} {start : ℕ} {token : List (BitVec 8)}
  {s : CmdState} {name : String}

/-! ## Words -/

/-- The characters from `start` up to the next blank or zero. -/
structure WordAt (command : ℕ → BitVec 8) (start : ℕ)
    (token : List (BitVec 8)) : Prop where
  char : ∀ i (h : i < token.length), command (start + i) = token[i]
  word : ∀ c ∈ token, IsWordChar c
  stop : ¬IsWordChar (command (start + token.length))

/-- The first word of the buffer. -/
structure FirstToken (command : ℕ → BitVec 8) (start : ℕ)
    (token : List (BitVec 8)) : Prop extends WordAt command start token where
  blank : ∀ i < start, ¬IsWordChar (command i)
  nonempty : token ≠ []
  inside : start < 127

/-- The name is compared up to the end of the word. -/
theorem WordAt.eq_iff (h : WordAt command start token)
    {ns : List (BitVec 8)} (hns : ∀ c ∈ ns, IsWordChar c) :
    token = ns ↔ (∀ i (hi : i < ns.length), command (start + i) = ns[i]) ∧
      ¬IsWordChar (command (start + ns.length)) := by
  constructor
  · rintro rfl
    exact ⟨h.char, h.stop⟩
  · rintro ⟨hchar, hstop⟩
    have hlength : token.length = ns.length := by
      rcases Nat.lt_trichotomy token.length ns.length with hlt | heq | hgt
      · refine absurd ?_ h.stop
        rw [hchar _ hlt]
        exact hns _ (List.getElem_mem hlt)
      · exact heq
      · refine absurd ?_ hstop
        rw [h.char _ hgt]
        exact h.word _ (List.getElem_mem hgt)
    apply List.ext_getElem hlength
    intro i htoken hi
    rw [← h.char i htoken, hchar i hi]

/-- A word of the buffer ends in front of the last zero. -/
theorem WordAt.end_le (h : WordAt command start token)
    (hlast : command 126 = 0) (hstart : start ≤ 126) :
    start + token.length ≤ 126 := by
  by_contra hlong
  have hlt : 126 - start < token.length := by omega
  have hchar := h.char (126 - start) hlt
  rw [Nat.add_sub_cancel' hstart, hlast] at hchar
  exact (h.word _ (List.getElem_mem hlt)).1 hchar.symm

theorem charAt_eq {i : ℕ} (hbase : s.commandBase = BitVec.ofNat 32 start)
    (hfits : start + i < 2 ^ 32) : s.charAt i = s.command (start + i) := by
  have hindex : (BitVec.ofNat 32 start + BitVec.ofNat 32 i).toNat =
      start + i := by
    bv_omega
  rw [CmdState.charAt, hbase, hindex]

/-- What `cmd_code_check` answers. -/
def CmdState.nameIs (s : CmdState) (name : String) : Bool :=
  ((cmdCodeCheck name).run s).1

theorem nameIs_iff : s.nameIs name = true ↔
    (∀ i (hi : i < (bytes name).length), s.charAt i = (bytes name)[i]) ∧
      ¬IsWordChar (s.charAt (bytes name).length) := by
  change ((bytes name).zipIdx.all (fun x => s.charAt x.2 = x.1) &&
    !IsWordChar (s.charAt (bytes name).length)) = true ↔ _
  rw [Bool.and_eq_true, List.all_eq_true]
  refine and_congr ?_ (by simp)
  constructor
  · intro hall i hi
    have hmem : ((bytes name)[i], i) ∈ (bytes name).zipIdx := by
      rw [List.mk_mem_zipIdx_iff_getElem?]
      exact List.getElem?_eq_getElem hi
    exact of_decide_eq_true (hall _ hmem)
  · rintro hall ⟨c, i⟩ hmem
    rw [List.mk_mem_zipIdx_iff_getElem?] at hmem
    obtain ⟨hi, rfl⟩ := List.getElem?_eq_some_iff.mp hmem
    exact decide_eq_true (hall i hi)

/-- `cmd_code_check` tests whether the word at `command_base` is the name. -/
theorem WordAt.nameIs (h : WordAt s.command start token)
    (hbase : s.commandBase = BitVec.ofNat 32 start)
    (hname : ∀ c ∈ bytes name, IsWordChar c)
    (hfits : start + (bytes name).length < 2 ^ 32) :
    s.nameIs name = decide (token = bytes name) := by
  rw [Bool.eq_iff_iff, decide_eq_true_iff, h.eq_iff hname, nameIs_iff,
    charAt_eq hbase hfits]
  refine and_congr_left' ?_
  refine forall_congr' fun i => forall_congr' fun hi => ?_
  rw [charAt_eq hbase (by omega)]

theorem nameIs_iff_wordAt (name : String)
    (hbase : s.commandBase = BitVec.ofNat 32 start)
    (hname : ∀ c ∈ bytes name, IsWordChar c)
    (hfits : start + (bytes name).length < 2 ^ 32) :
    s.nameIs name = true ↔ WordAt s.command start (bytes name) := by
  rw [nameIs_iff, charAt_eq hbase hfits]
  constructor
  · rintro ⟨hchar, hstop⟩
    refine ⟨fun i hi => ?_, hname, hstop⟩
    rw [← charAt_eq hbase (by omega)]
    exact hchar i hi
  · intro h
    refine ⟨fun i hi => ?_, h.stop⟩
    rw [charAt_eq hbase (by omega)]
    exact h.char i hi

/-- A test of a name continues with the answer. -/
theorem cmdCodeCheck_bind {α : Type} (s : CmdState) (name : String)
    (f : Bool → StateM CmdState α) :
    (cmdCodeCheck name >>= f).run s = (f (s.nameIs name)).run s := rfl

/-! ## The branch that is taken -/

/-- The branches of `code`. -/
inductive Command where
  | help | color | hash | pr | time | ver | unknown
  deriving DecidableEq

/-- What a branch does. -/
def Command.run : Command → StateM CmdState (List Action)
  | .help => helpCommand
  | .color => colorCommand
  | .hash => hashCommand
  | .pr => prCommand
  | .time => timeCommand
  | .ver => verCommand
  | .unknown => nocommand

/-- The branch for a first word. -/
def commandOf (token : List (BitVec 8)) : Command :=
  if token = bytes "help" ∨ token = bytes "h" then .help
  else if token = bytes "color" then .color
  else if token = bytes "hash" then .hash
  else if token = bytes "pr" then .pr
  else if token = bytes "time" then .time
  else if token = bytes "ver" then .ver
  else .unknown

/-- The tests of `code`, without what is done in the branches. -/
def codeBranch : StateM CmdState Command := do
  if (← cmdCodeCheck "help") || (← cmdCodeCheck "h") then return .help
  else if ← cmdCodeCheck "color" then return .color
  else if ← cmdCodeCheck "hash" then return .hash
  else if ← cmdCodeCheck "pr" then return .pr
  else if ← cmdCodeCheck "time" then return .time
  else if ← cmdCodeCheck "ver" then return .ver
  else return .unknown

theorem ite_bind {α β : Type} (c : Prop) [Decidable c]
    (x y : StateM CmdState α) (f : α → StateM CmdState β) :
    (if c then x else y) >>= f = if c then x >>= f else y >>= f :=
  apply_ite (fun x => x >>= f) c x y

theorem run_ite {α : Type} (c : Prop) [Decidable c]
    (x y : StateM CmdState α) :
    (if c then x else y).run s = if c then x.run s else y.run s :=
  apply_ite (fun x => x.run s) c x y

/-- `code` is the choice of a branch and then the branch. -/
theorem code_eq : code = codeBranch >>= Command.run := by
  simp only [code, codeBranch, bind_assoc, ite_bind, pure_bind, Command.run]

/-- The tests change nothing. -/
theorem keeps_codeBranch : Keeps id codeBranch := by
  have hcheck := fun name => keeps_cmdCodeCheck (g := id) name
  exact keeps_eitherName _ _ (keeps_pure _) <|
    keeps_branch (hcheck _) (keeps_pure _) <|
    keeps_branch (hcheck _) (keeps_pure _) <|
    keeps_branch (hcheck _) (keeps_pure _) <|
    keeps_branch (hcheck _) (keeps_pure _) <|
    keeps_branch (hcheck _) (keeps_pure _) (keeps_pure _)

theorem code_run (s : CmdState) :
    code.run s = (codeBranch.run s).1.run.run s := by
  have hrun : code.run s =
      (codeBranch.run s).1.run.run (codeBranch.run s).2 := by
    rw [code_eq]
    rfl
  have hsame : (codeBranch.run s).2 = s := keeps_codeBranch s
  rw [hrun, hsame]

/-- The tests one after the other. -/
theorem codeBranch_run_fst (s : CmdState) : (codeBranch.run s).1 =
    if s.nameIs "help" = true ∨ s.nameIs "h" = true then .help
    else if s.nameIs "color" = true then .color
    else if s.nameIs "hash" = true then .hash
    else if s.nameIs "pr" = true then .pr
    else if s.nameIs "time" = true then .time
    else if s.nameIs "ver" = true then .ver
    else .unknown := by
  simp only [codeBranch, cmdCodeCheck_bind, run_ite, Bool.or_eq_true]
  split_ifs <;> rfl

/-- The branch is the one for the word at `command_base`. -/
theorem codeBranch_eq_commandOf (h : WordAt s.command start token)
    (hbase : s.commandBase = BitVec.ofNat 32 start) (hstart : start < 127) :
    (codeBranch.run s).1 = commandOf token := by
  have hname : ∀ name : String, (∀ c ∈ bytes name, IsWordChar c) →
      (bytes name).length ≤ 5 → s.nameIs name = decide (token = bytes name) :=
    fun name hname hlength => h.nameIs hbase hname (by omega)
  simp only [codeBranch_run_fst, commandOf, decide_eq_true_eq,
    hname "help" (by decide) (by decide), hname "h" (by decide) (by decide),
    hname "color" (by decide) (by decide),
    hname "hash" (by decide) (by decide), hname "pr" (by decide) (by decide),
    hname "time" (by decide) (by decide), hname "ver" (by decide) (by decide)]

/-! ## The scan -/

/-- The loop of `cmd_calculate` passes over blanks. -/
theorem foldl_cmdScanStep_of_blank (scan : CmdScan) {xs : List ℕ}
    (h : ∀ i ∈ xs, ¬IsWordChar (command i)) :
    xs.foldl (cmdScanStep command) scan = scan := by
  induction xs with
  | nil => rfl
  | cons i xs ih =>
      obtain ⟨hi, hxs⟩ := List.forall_mem_cons.mp h
      rw [List.foldl_cons, cmdScanStep, if_neg hi]
      exact ih hxs

/-- After the first character of a word the loop changes only the index of the
last one. -/
theorem foldl_cmdScanStep_of_flag (command : ℕ → BitVec 8)
    (scan : CmdScan) (xs : List ℕ) (h : scan.commandCheckFlag ≠ 0) :
    ∃ last, xs.foldl (cmdScanStep command) scan =
      { scan with lastChar := last } := by
  induction xs generalizing scan with
  | nil => exact ⟨scan.lastChar, rfl⟩
  | cons i xs ih =>
      rw [List.foldl_cons, cmdScanStep]
      by_cases hword : IsWordChar (command i)
      · rw [if_pos hword, if_neg h]
        exact ih _ h
      · rw [if_neg hword]
        exact ih _ h

/-- The scan stops at the first word. -/
theorem FirstToken.cmdScan (h : FirstToken s.command start token)
    (hbase : s.commandBase = 0) :
    (cmdScan s).commandBase = BitVec.ofNat 32 start ∧
      (cmdScan s).commandCheckFlag ≠ 0 := by
  have hrange : List.range' 0 127 =
      List.range' 0 start ++
        start :: List.range' (start + 1) (126 - start) := by
    have hinside := h.inside
    have hsplit : 127 = start + (126 - start + 1) := by omega
    have htail := List.range'_append_1 (s := 0) (m := start)
      (n := 126 - start + 1)
    rw [← List.range'_succ, hsplit, ← htail, Nat.zero_add]
  have hblank : ∀ i ∈ List.range' 0 start, ¬IsWordChar (s.command i) := by
    intro i hi
    exact h.blank i (by simpa using hi)
  have hword : IsWordChar (s.command start) := by
    have hlength := List.length_pos_iff.mpr h.nonempty
    have hchar := h.char 0 hlength
    rw [Nat.add_zero] at hchar
    rw [hchar]
    exact h.word _ (List.getElem_mem hlength)
  have hflag : (1 : BitVec 8) ≠ 0 := by decide
  obtain ⟨last, hlast⟩ := foldl_cmdScanStep_of_flag s.command
    ⟨BitVec.ofNat 32 start, 1, BitVec.ofNat 32 start⟩
    (List.range' (start + 1) (126 - start)) hflag
  have hscan : OpenFerain.cmdScan s = ⟨BitVec.ofNat 32 start, 1, last⟩ := by
    rw [OpenFerain.cmdScan, hbase]
    change (List.range' 0 127).foldl _ _ = _
    rw [hrange, List.foldl_append, foldl_cmdScanStep_of_blank _ hblank,
      List.foldl_cons, cmdScanStep, if_pos hword]
    exact hlast
  rw [hscan]
  exact ⟨rfl, hflag⟩

theorem FirstToken.cmdCalculate_run (h : FirstToken s.command start token)
    (hbase : s.commandBase = 0) :
    ∃ len, cmdCalculate.run s = (1, { s with
      commandBase := BitVec.ofNat 32 start, commandLen := len }) := by
  obtain ⟨hstart, hflag⟩ := h.cmdScan hbase
  rw [OpenFerain.cmdCalculate_run, if_neg hflag, hstart]
  exact ⟨_, rfl⟩

/-- A buffer with a word has a first one. -/
theorem exists_firstToken (hlast : command 126 = 0) {i : ℕ} (hi : i < 127)
    (hword : IsWordChar (command i)) :
    ∃ start token, FirstToken command start token := by
  classical
  have hsome : ∃ k, IsWordChar (command k) := ⟨i, hword⟩
  have hstart := Nat.find_spec hsome
  have hblank := fun k => Nat.find_min (m := k) hsome
  have hle := Nat.find_min' hsome hword
  generalize Nat.find hsome = start at hstart hblank hle
  have hend : ∃ n, ¬IsWordChar (command (start + n)) := by
    refine ⟨126 - start, ?_⟩
    rw [Nat.add_sub_cancel' (by omega), hlast]
    decide
  have hstop := Nat.find_spec hend
  have hinside := fun k => Nat.find_min (m := k) hend
  generalize Nat.find hend = n at hstop hinside
  have hlength : ((List.range n).map fun k => command (start + k)).length =
      n := by simp
  refine ⟨start, (List.range n).map fun k => command (start + k), ?_⟩
  refine ⟨⟨?_, ?_, ?_⟩, fun k hk => hblank k hk, ?_, by omega⟩
  · intro k hk
    simp
  · intro c hc
    obtain ⟨k, hk, rfl⟩ := List.mem_map.mp hc
    exact not_not.mp (hinside k (List.mem_range.mp hk))
  · rwa [hlength]
  · intro hnil
    rw [hnil] at hlength
    rw [← hlength] at hstop
    exact hstop hstart

/-! ## The colour -/

/-- The value of a hexadecimal digit. -/
def hexValue (c : BitVec 8) : Option ℕ :=
  (bytes "0123456789abcdef").idxOf? c <|> (bytes "0123456789ABCDEF").idxOf? c

theorem charToHex_eq (c : BitVec 8) :
    charToHex c = ((hexValue c).map (BitVec.ofNat 16)).getD 0x1000 := by
  revert c
  decide +kernel

theorem hexValue_lt {c : BitVec 8} {v : ℕ} (h : hexValue c = some v) :
    v < 16 := by
  have hfound : (bytes "0123456789abcdef").idxOf? c = some v ∨
      (bytes "0123456789ABCDEF").idxOf? c = some v := by
    rw [hexValue, Option.orElse_eq_some] at h
    exact h.imp_right And.right
  rcases hfound with hlower | hupper
  · exact (List.idxOf?_eq_some_iff.mp hlower).1
  · exact (List.idxOf?_eq_some_iff.mp hupper).1

theorem charToHex_eq_error_iff (c : BitVec 8) :
    charToHex c = 0x1000 ↔ hexValue c = none := by
  rw [charToHex_eq]
  cases h : hexValue c with
  | none => exact iff_of_true rfl rfl
  | some v =>
      have hlt := hexValue_lt h
      refine iff_of_false ?_ (Option.some_ne_none v)
      change BitVec.ofNat 16 v ≠ 0x1000
      bv_omega

/-- Two digits make a byte. -/
theorem digits_eq {high low : ℕ} (hhigh : high < 16) (hlow : low < 16) :
    (BitVec.ofNat 16 high).setWidth 8 <<< 4 |||
      (BitVec.ofNat 16 low).setWidth 8 = BitVec.ofNat 8 (16 * high + low) := by
  have hall : ∀ high < 16, ∀ low < 16,
      (BitVec.ofNat 16 high).setWidth 8 <<< 4 |||
      (BitVec.ofNat 16 low).setWidth 8 = BitVec.ofNat 8 (16 * high + low) := by
    decide +kernel
  exact hall high hhigh low hlow

/-- The place of the two digits of the `color` command: behind the blank, and
behind `0x` if that is there. -/
def digitsAt (command : ℕ → BitVec 8) (start : ℕ) : ℕ :=
  if command (start + 6) = 0x30 ∧
      (command (start + 7) = 0x78 ∨ command (start + 7) = 0x58) then start + 8
  else start + 6

/-- The colour that two characters name. -/
def namedColor (high low : BitVec 8) : Option (BitVec 8) := do
  return BitVec.ofNat 8 (16 * (← hexValue high) + (← hexValue low))

theorem setColorDigits_color : (setColorDigits.run s).2.color =
    (namedColor (s.charAt 0) (s.charAt 1)).getD s.color := by
  change ((ite _ _ _ : StateM CmdState (List Action)).run s).2.color = _
  rw [run_ite]
  cases hhigh : hexValue (s.charAt 0) with
  | none =>
      rw [if_pos (Or.inl ((charToHex_eq_error_iff _).mpr hhigh)), namedColor,
        hhigh]
      rfl
  | some high =>
      cases hlow : hexValue (s.charAt 1) with
      | none =>
          rw [if_pos (Or.inr ((charToHex_eq_error_iff _).mpr hlow)), namedColor,
            hhigh, hlow]
          rfl
      | some low =>
          have hdigits : ¬(charToHex (s.charAt 0) = 0x1000 ∨
              charToHex (s.charAt 1) = 0x1000) := by
            rw [charToHex_eq_error_iff, charToHex_eq_error_iff, hhigh, hlow]
            simp
          rw [if_neg hdigits, charToHex_eq, charToHex_eq, namedColor, hhigh,
            hlow]
          exact digits_eq (hexValue_lt hhigh) (hexValue_lt hlow)

/-- The variables after `skipChars`. -/
def CmdState.skip (n : ℕ) (s : CmdState) : CmdState :=
  { s with
    commandBase := s.commandBase + BitVec.ofNat 32 n
    commandLen := s.commandLen - BitVec.ofNat 32 n }

theorem skip_commandBase (n : ℕ)
    (hbase : s.commandBase = BitVec.ofNat 32 start) :
    (s.skip n).commandBase = BitVec.ofNat 32 (start + n) := by
  rw [BitVec.ofNat_add, ← hbase]
  rfl

theorem colorCommand_run : colorCommand.run s =
    if (s.skip 6).charAt 0 = 0x30 ∧
        ((s.skip 6).charAt 1 = 0x78 ∨ (s.skip 6).charAt 1 = 0x58) then
      setColorDigits.run ((s.skip 6).skip 2)
    else setColorDigits.run (s.skip 6) := by
  change (ite _ _ _ : StateM CmdState (List Action)).run (s.skip 6) = _
  rw [run_ite]
  rfl

/-- The `color` command takes the digits at `digitsAt`. -/
theorem colorCommand_color (hbase : s.commandBase = BitVec.ofNat 32 start)
    (hstart : start < 127) :
    (colorCommand.run s).2.color =
      (namedColor (s.command (digitsAt s.command start))
        (s.command (digitsAt s.command start + 1))).getD s.color := by
  have hsix := skip_commandBase 6 hbase
  have height := skip_commandBase 2 hsix
  rw [colorCommand_run, charAt_eq hsix (by omega), charAt_eq hsix (by omega),
    digitsAt]
  change (if s.command (start + 6) = 0x30 ∧
      (s.command (start + 7) = 0x78 ∨ s.command (start + 7) = 0x58) then _
    else _ : List Action × CmdState).2.color = _
  split_ifs
  · rw [setColorDigits_color, charAt_eq height (by omega),
      charAt_eq height (by omega)]
    rfl
  · rw [setColorDigits_color, charAt_eq hsix (by omega),
      charAt_eq hsix (by omega)]
    rfl

/-! ## What Enter does -/

/-- The branch that `enter` takes, if it runs a command. -/
def ranBranch (s : Shell) : Option Command :=
  let checked := cmdCalculate.run s.cmd
  if checked.1 = 0 then none else some (codeBranch.run checked.2).1

/-- `enter` with the branch given. -/
def enterWith (branch : Option Command) (s : Shell) : Shell :=
  let checked := cmdCalculate.run s.cmd
  match branch with
  | none => newPrompt { s with cmd := checked.2 }
  | some command =>
      let done := command.run.run checked.2
      newPrompt { s with
        cmd := { done.2 with command := clearCommand done.2.command }
        actions := s.actions ++ done.1 }

/-- The words that a branch is for. -/
def Command.For : Command → List (BitVec 8) → Prop
  | .help, token => token = bytes "help" ∨ token = bytes "h"
  | .color, token => token = bytes "color"
  | .hash, token => token = bytes "hash"
  | .pr, token => token = bytes "pr"
  | .time, token => token = bytes "time"
  | .ver, token => token = bytes "ver"
  | .unknown, token =>
      ∀ name ∈ ["help", "h", "color", "hash", "pr", "time", "ver"],
        token ≠ bytes name

/-- Each word is for one branch, the one the shell takes. -/
theorem commandOf_eq_iff (token : List (BitVec 8)) (c : Command) :
    commandOf token = c ↔ c.For token := by
  constructor
  · rintro rfl
    rw [commandOf]
    split_ifs with hhelp hcolor hhash hpr htime hver
    · exact hhelp
    · exact hcolor
    · exact hhash
    · exact hpr
    · exact htime
    · exact hver
    · simp only [not_or] at hhelp
      simp only [Command.For, List.forall_mem_cons]
      exact ⟨hhelp.1, hhelp.2, hcolor, hhash, hpr, htime, hver,
        List.forall_mem_nil _⟩
  · intro hfor
    cases c with
    | help =>
        rcases hfor with rfl | rfl
        · decide
        · decide
    | unknown =>
        simp only [Command.For, List.forall_mem_cons] at hfor
        obtain ⟨hhelp, hh, hcolor, hhash, hpr, htime, hver, -⟩ := hfor
        rw [commandOf, if_neg (not_or.mpr ⟨hhelp, hh⟩), if_neg hcolor,
          if_neg hhash, if_neg hpr, if_neg htime, if_neg hver]
    | color | hash | pr | time | ver =>
        obtain rfl := hfor
        decide

theorem enter_eq_enterWith (s : Shell) :
    enter s = enterWith (ranBranch s) s := by
  by_cases hnone : (cmdCalculate.run s.cmd).1 = 0
  · simp only [enter, ranBranch, if_pos hnone, enterWith]
  · simp only [enter, ranBranch, if_neg hnone, enterWith, code_run]

theorem ranBranch_eq_none_iff {s : Shell} (hbase : s.cmd.commandBase = 0) :
    ranBranch s = none ↔ ∀ i < 127, ¬IsWordChar (s.cmd.command i) := by
  have hflag := cmdScan_flag_eq_zero_iff s.cmd
  rw [hbase] at hflag
  rw [ranBranch, cmdCalculate_run]
  by_cases hnone : (cmdScan s.cmd).commandCheckFlag = 0
  · rw [if_pos hnone]
    exact iff_of_true rfl fun i hi => hflag.mp hnone i (Nat.zero_le i) hi
  · rw [if_neg hnone]
    refine iff_of_false (by simp) fun h => hnone ?_
    exact hflag.mpr fun i _ hi => h i hi

theorem FirstToken.ranBranch {s : Shell}
    (h : FirstToken s.cmd.command start token)
    (hbase : s.cmd.commandBase = 0) :
    ranBranch s = some (commandOf token) := by
  obtain ⟨len, hrun⟩ := h.cmdCalculate_run hbase
  have hbranch := codeBranch_eq_commandOf (s := { s.cmd with
    commandBase := BitVec.ofNat 32 start, commandLen := len }) h.toWordAt rfl
      h.inside
  rw [OpenFerain.ranBranch, hrun]
  exact congrArg some hbranch

/-- Only the `color` command sets the colour. -/
theorem keeps_color_run {c : Command} (h : c ≠ .color) :
    Keeps CmdState.color c.run := by
  have hg : IgnoresBase CmdState.color := fun _ _ _ => rfl
  cases c with
  | help => exact keeps_helpCommand
  | color => exact absurd rfl h
  | hash => exact keeps_hashCommand hg
  | pr => exact keeps_prCommand hg
  | time => exact keeps_timeCommand hg
  | ver => exact keeps_verCommand hg
  | unknown => exact keeps_nocommand

/-- The colour after Enter is the one the branch leaves. -/
theorem FirstToken.enter_color {s : Shell}
    (h : FirstToken s.cmd.command start token)
    (hbase : s.cmd.commandBase = 0) :
    (enter s).cmd.color = if token = bytes "color" then
      (namedColor (s.cmd.command (digitsAt s.cmd.command start))
        (s.cmd.command (digitsAt s.cmd.command start + 1))).getD s.cmd.color
    else s.cmd.color := by
  obtain ⟨len, hrun⟩ := h.cmdCalculate_run hbase
  have hcolor : (enter s).cmd.color = ((commandOf token).run.run
      { s.cmd with
        commandBase := BitVec.ofNat 32 start, commandLen := len }).2.color := by
    rw [enter_eq_enterWith, h.ranBranch hbase, enterWith, hrun]
    rfl
  rw [hcolor]
  by_cases hcommand : token = bytes "color"
  · rw [if_pos hcommand, (commandOf_eq_iff token .color).mpr hcommand]
    exact colorCommand_color rfl h.inside
  · have hother : commandOf token ≠ .color :=
      fun heq => hcommand ((commandOf_eq_iff token .color).mp heq)
    rw [if_neg hcommand]
    exact keeps_color_run hother _

/-- What Enter does with the first word of the buffer: without one no command
is run, with one the branch that is for this word, and only `color` with two
digits sets the colour. -/
theorem enter_runs_branch {s : Shell} (hbase : s.cmd.commandBase = 0) :
    enter s = enterWith (ranBranch s) s ∧
      (ranBranch s = none ↔ ∀ i < 127, ¬IsWordChar (s.cmd.command i)) ∧
      (ranBranch s = none → (enter s).cmd.color = s.cmd.color) ∧
      ∀ start token, FirstToken s.cmd.command start token →
        (∀ c : Command, ranBranch s = some c ↔ c.For token) ∧
        (∀ high low, token = bytes "color" →
          hexValue (s.cmd.command (digitsAt s.cmd.command start)) =
            some high →
          hexValue (s.cmd.command (digitsAt s.cmd.command start + 1)) =
            some low →
          (enter s).cmd.color = BitVec.ofNat 8 (16 * high + low)) ∧
        ((enter s).cmd.color ≠ s.cmd.color → token = bytes "color" ∧
          (hexValue (s.cmd.command (digitsAt s.cmd.command start))).isSome ∧
          (hexValue
            (s.cmd.command (digitsAt s.cmd.command start + 1))).isSome) := by
  refine ⟨enter_eq_enterWith s, ranBranch_eq_none_iff hbase, ?_, ?_⟩
  · intro hnone
    rw [enter_eq_enterWith, hnone, enterWith, cmdCalculate_run]
    rfl
  · intro start token h
    refine ⟨fun c => ?_, fun high low htoken hhigh hlow => ?_, fun hne => ?_⟩
    · rw [h.ranBranch hbase, Option.some_inj, commandOf_eq_iff]
    · rw [h.enter_color hbase, if_pos htoken, namedColor, hhigh, hlow]
      rfl
    · rw [h.enter_color hbase] at hne
      by_cases htoken : token = bytes "color"
      · rw [if_pos htoken, namedColor] at hne
        refine ⟨htoken, ?_⟩
        cases hhigh : hexValue
          (s.cmd.command (digitsAt s.cmd.command start)) with
        | none =>
            rw [hhigh] at hne
            exact absurd rfl hne
        | some high =>
            cases hlow : hexValue
                (s.cmd.command (digitsAt s.cmd.command start + 1)) with
            | none =>
                rw [hhigh, hlow] at hne
                exact absurd rfl hne
            | some low => exact ⟨rfl, rfl⟩
      · rw [if_neg htoken] at hne
        exact absurd rfl hne

/-- The shell with a line in the buffer, as the keys leave it there. -/
def shellWith (line : String) : Shell :=
  let initial := initialShell fun _ => 0
  { initial with cmd := { initial.cmd with
    command := fun i => ((0 :: bytes line)[i]?).getD 0 } }

theorem firstToken_shellWith : FirstToken (shellWith "color 0x1f").cmd.command 1
    (bytes "color") where
  char := by decide
  word := by decide
  stop := by decide
  blank := by decide
  nonempty := by decide
  inside := by decide

theorem enter_runs_branch_color :
    ranBranch (shellWith "color 0x1f") = some .color ∧
      (enter (shellWith "color 0x1f")).cmd.color = 0x1F := by
  obtain ⟨-, -, -, htoken⟩ := enter_runs_branch
    (s := shellWith "color 0x1f") rfl
  obtain ⟨hbranch, hcolor, -⟩ := htoken 1 (bytes "color") firstToken_shellWith
  refine ⟨(hbranch .color).mpr rfl, ?_⟩
  exact hcolor 1 15 rfl (by decide) (by decide)

end OpenFerain
