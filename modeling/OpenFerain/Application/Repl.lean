import OpenFerain.Application.CursorCount
import OpenFerain.Application.Dispatch
import OpenFerain.Application.LineRefinement
import Mathlib.Data.List.Forall2
import Mathlib.Data.List.Infix
import Mathlib.Data.List.TakeWhile

/-!
# The command shell as a read-eval-print loop

What the shell does for a sequence of keys is compared with a machine that has
no buffer, no `command_base` and no counters: it keeps the line as a list of
characters, and at Enter it answers the line.  An answer is a function of the
first word of the line, of what stands behind it, and of the colour.
-/

namespace OpenFerain

/-! ## The answers -/

/-- What the user sees of an action: a string by its characters. -/
inductive Reply where
  | say (text : String) (color : BitVec 8)
  | echo (text : List (BitVec 8)) (color : BitVec 8)
  | digest (text : List (BitVec 8)) (color : BitVec 8)
  | time (n : ℕ)
  | setColor (color : BitVec 8)
  | scroll
  | type (key : BitVec 8)
  | moveBack (color : BitVec 8)

/-- The line from its first word on. -/
def lineText (line : List (BitVec 8)) : List (BitVec 8) :=
  line.dropWhile fun c => !IsWordChar c

/-- The characters up to the next blank. -/
def firstWord (text : List (BitVec 8)) : List (BitVec 8) :=
  text.takeWhile fun c => IsWordChar c

/-- The digits of a colour, with or without `0x`. -/
def colorDigits (argument : List (BitVec 8)) : List (BitVec 8) :=
  if argument[0]? = some 0x30 ∧
      (argument[1]? = some 0x78 ∨ argument[1]? = some 0x58) then
    argument.drop 2
  else argument

/-- The colour that an argument names by its first two digits. -/
def argumentColor (argument : List (BitVec 8)) : Option (BitVec 8) := do
  namedColor (← (colorDigits argument)[0]?) (← (colorDigits argument)[1]?)

def helpReplies (color : BitVec 8) : List Reply :=
  [.say "OpenFerain OS @ Command Shell 1.0.7_19" color, .scroll,
    .say "color [color] --  set color" color,
    .say "hash [-algorithm_name] [str] --  Get a string's hash" color,
    .say "pr [str] --  Print string" color,
    .say "time [a/y/mo/d/h/mi/s] --  Get time all/year/month/day/hour/minute/second"
      color,
    .say "ver [appname]  --  Get an application's version" color,
    .say "help/h  --  Get help" color]

def colorHelp (color : BitVec 8) : List Reply :=
  [.say "Unknown color" color, .scroll, .say "color format :    XX" color,
    .say "                 -- --" color, .say "                 ^  ^" color,
    .say "                0~F 0~F" color,
    .say "   background color  foreground color" color]

/-- The words behind `time`, each with what `print_time` is asked for. -/
def timeUnits : List (String × ℕ) :=
  [("a", 0), ("y", 1), ("mo", 2), ("d", 3), ("h", 4), ("mi", 5), ("s", 6)]

def timeReply (argument : List (BitVec 8)) (color : BitVec 8) : Reply :=
  match timeUnits.find? fun unit => firstWord argument = bytes unit.1 with
  | some unit => .time unit.2
  | none => .say "Parameter error!" color

def verText (word : List (BitVec 8)) : String :=
  if word = bytes "cmd" ∨ word = bytes "CMD" then
    "OpenFerain OS @ Command Shell 1.0.7_19"
  else if word = bytes "os" ∨ word = bytes "OS" then "OpenFerain OS 26.0.7_19"
  else "Unknow application"

/-- The answer to a line, given from its first word on, and the colour then. -/
def Command.answer (text : List (BitVec 8)) (color : BitVec 8) :
    Command → List Reply × BitVec 8
  | .help => (helpReplies color, color)
  | .color =>
      match argumentColor (text.drop 6) with
      | some new => ([.setColor new], new)
      | none => (colorHelp color, color)
  | .hash =>
      if firstWord (text.drop 5) = bytes "sha256" then
        ([.digest (text.drop 12) color], color)
      else ([.say "Unkown algorithm!" color], color)
  | .pr =>
      if text.drop 3 = [] then ([.say "Please press string!" color], color)
      else ([.echo (text.drop 3) color], color)
  | .time => ([timeReply (text.drop 5) color], color)
  | .ver => ([.say (verText (firstWord (text.drop 4))) color], color)
  | .unknown =>
      ([.say "Command not Found!" 0x04,
        .say "Press 'help' or 'h' to get more information" 0x04], color)

/-- The answer to a line; a line without a word has none. -/
def answer (line : List (BitVec 8)) (color : BitVec 8) :
    List Reply × BitVec 8 :=
  if lineText line = [] then ([], color)
  else (commandOf (firstWord (lineText line))).answer (lineText line) color

/-- The read-eval-print loop. -/
structure Repl where
  line : List (BitVec 8)
  color : BitVec 8
  replies : List Reply

def Repl.start : Repl where
  line := []
  color := 0x07
  replies := [.say "OpenFerain Command Shell @ 1.1.26.7.1" 0x07, .scroll,
    .say pressCommand 0x07]

/-- One key.  A screen line is full when the prompt and the line make up a
multiple of 80 characters. -/
def Repl.key (r : Repl) (key : BitVec 8) : Repl :=
  if key = 0x1C then
    let answered := answer r.line r.color
    { line := []
      color := answered.2
      replies := r.replies ++ answered.1 ++ [.say pressCommand answered.2] }
  else if key = 0x0E then
    { r with
      line := r.line.dropLast
      replies := r.replies ++ if r.line = [] then [] else [.moveBack r.color] }
  else
    { r with
      line := r.line ++ [key]
      replies := r.replies ++
        if (18 + r.line.length) % 80 = 0 then [.type key, .scroll]
        else [.type key] }

/-! ## Actions and replies -/

/-- A string in memory: its characters and then a zero. -/
structure IsString (string : ℕ → BitVec 8) (text : List (BitVec 8)) :
    Prop where
  char : ∀ i (h : i < text.length), string i = text[i]
  nonzero : ∀ c ∈ text, c ≠ 0
  terminator : string text.length = 0

/-- What an action shows. -/
inductive Action.Shows : Action → Reply → Prop
  | say (text color) : Shows (.printf text color) (.say text color)
  | echo {string text} (color) (h : IsString string text) :
      Shows (.printfFrom string color) (.echo text color)
  | digest {string text} (color) (h : IsString string text) :
      Shows (.sha256 string color) (.digest text color)
  | time (n) : Shows (.printTime n) (.time n)
  | setColor (color) : Shows (.setColor color) (.setColor color)
  | scroll : Shows .testScolling .scroll
  | type (key) : Shows (.type key) (.type key)
  | moveBack (color) : Shows (.moveBack color) (.moveBack color)

/-- Actions that show the replies, one by one. -/
def Show (actions : List Action) (replies : List Reply) : Prop :=
  List.Forall₂ Action.Shows actions replies

/-! ## The text at `command_base` -/

/-- The bytes from `command_base` on are a text with zeros behind it, as far as
`bound`; behind a text that is not empty there are two. -/
structure TextAt (s : CmdState) (text : List (BitVec 8)) (bound : ℕ) :
    Prop where
  char : ∀ i ≤ bound, s.charAt i = (text[i]?).getD 0
  nonzero : ∀ c ∈ text, c ≠ 0
  room : text ≠ [] → text.length < bound

section TextAt

variable {s : CmdState} {text token : List (BitVec 8)} {bound n : ℕ}
  {name : String} {command : ℕ → BitVec 8} {start : ℕ}

theorem charAt_skip (s : CmdState) (n i : ℕ) :
    (s.skip n).charAt i = s.charAt (n + i) := by
  rw [CmdState.charAt, CmdState.charAt, CmdState.skip, BitVec.ofNat_add,
    BitVec.add_assoc]

theorem TextAt.length (h : TextAt s text bound) : text.length ≤ bound := by
  by_cases hnil : text = []
  · rw [hnil]
    exact Nat.zero_le bound
  · exact (h.room hnil).le

theorem TextAt.skip (h : TextAt s text bound) (hn : n ≤ bound) :
    TextAt (s.skip n) (text.drop n) (bound - n) where
  char := by
    intro i hi
    rw [charAt_skip, h.char _ (by omega), List.getElem?_drop]
  nonzero c hc := h.nonzero c (List.mem_of_mem_drop hc)
  room := by
    intro hne
    rw [ne_eq, List.drop_eq_nil_iff, not_le] at hne
    have hroom := h.room (List.ne_nil_of_length_pos (Nat.zero_lt_of_lt hne))
    rw [List.length_drop]
    omega

theorem TextAt.isString (h : TextAt s text bound) : IsString s.charAt text where
  char := by
    intro i hi
    have hlength := h.length
    rw [h.char i (by omega), List.getElem?_eq_getElem hi, Option.getD_some]
  nonzero := h.nonzero
  terminator := by
    rw [h.char _ h.length, List.getElem?_eq_none le_rfl, Option.getD_none]

/-- The first word of a text in memory. -/
theorem wordAt_firstWord
    (h : ∀ i ≤ text.length, command (start + i) = (text[i]?).getD 0) :
    WordAt command start (firstWord text) := by
  induction text generalizing start with
  | nil =>
      have hzero := h 0 le_rfl
      refine ⟨fun i hi => absurd hi (Nat.not_lt_zero i),
        fun c hc => absurd hc List.not_mem_nil, ?_⟩
      rw [firstWord, List.takeWhile_nil, List.length_nil, hzero]
      decide
  | cons c text ih =>
      have hfirst : command start = c := h 0 (Nat.zero_le _)
      by_cases hword : IsWordChar c
      · have hlater : ∀ i ≤ text.length,
            command (start + 1 + i) = (text[i]?).getD 0 := by
          intro i hi
          rw [Nat.add_assoc, Nat.add_comm 1 i]
          exact h (i + 1) (Nat.succ_le_succ hi)
        have hrest := ih hlater
        have hcons : firstWord (c :: text) = c :: firstWord text := by
          rw [firstWord, List.takeWhile_cons, if_pos (decide_eq_true hword)]
          rfl
        rw [hcons]
        refine ⟨fun i hi => ?_,
          List.forall_mem_cons.mpr ⟨hword, hrest.word⟩, ?_⟩
        · rcases i with _ | i
          · exact hfirst
          · have hchar := hrest.char i (Nat.lt_of_succ_lt_succ hi)
            rw [List.getElem_cons_succ, ← hchar, Nat.add_assoc, Nat.add_comm 1]
        · have hstop := hrest.stop
          rwa [Nat.add_assoc, Nat.add_comm 1] at hstop
      · have hnil : firstWord (c :: text) = [] := by
          rw [firstWord, List.takeWhile_cons,
            if_neg (by rw [decide_eq_true_eq]; exact hword)]
        rw [hnil]
        refine ⟨fun i hi => absurd hi (Nat.not_lt_zero i),
          fun c hc => absurd hc List.not_mem_nil, ?_⟩
        rw [List.length_nil, Nat.add_zero, hfirst]
        exact hword

/-- `cmd_code_check` compares the first word of the text. -/
theorem TextAt.nameIs (h : TextAt s text bound)
    (hname : ∀ c ∈ bytes name, IsWordChar c) :
    s.nameIs name = decide (firstWord text = bytes name) := by
  have hword : WordAt s.charAt 0 (firstWord text) := by
    refine wordAt_firstWord fun i hi => ?_
    rw [Nat.zero_add]
    exact h.char i (hi.trans h.length)
  rw [Bool.eq_iff_iff, decide_eq_true_iff, hword.eq_iff hname, nameIs_iff]
  simp only [Nat.zero_add]

theorem getD_eq_zero_iff (h : ∀ c ∈ text, c ≠ 0) (i : ℕ) :
    (text[i]?).getD 0 = 0 ↔ text.length ≤ i := by
  rcases Nat.lt_or_ge i text.length with hlt | hge
  · rw [List.getElem?_eq_getElem hlt, Option.getD_some]
    exact iff_of_false (h _ (List.getElem_mem hlt)) (by omega)
  · rw [List.getElem?_eq_none hge]
    exact iff_of_true rfl hge

end TextAt

/-! ## The commands answer -/

/-- What a command does is the answer. -/
structure Answered (done : List Action × CmdState)
    (answered : List Reply × BitVec 8) : Prop where
  replies : Show done.1 answered.1
  color : done.2.color = answered.2

section Answers

variable {s : CmdState} {text : List (BitVec 8)} {bound : ℕ}

theorem Action.shows_say (text : String) (color : BitVec 8) :
    Show [.printf text color] [.say text color] :=
  .cons (.say text color) .nil

theorem helpCommand_answers (s : CmdState) :
    Answered (helpCommand.run s) (helpReplies s.color, s.color) := by
  refine ⟨?_, rfl⟩
  exact .cons (.say _ _) <| .cons .scroll <| .cons (.say _ _) <|
    .cons (.say _ _) <| .cons (.say _ _) <| .cons (.say _ _) <|
    .cons (.say _ _) <| .cons (.say _ _) .nil

theorem nocommand_answers (s : CmdState) :
    Answered (nocommand.run s) (Command.unknown.answer text s.color) :=
  ⟨.cons (.say _ _) <| .cons (.say _ _) .nil, rfl⟩

theorem colorError_show (s : CmdState) :
    Show (colorError.run s).1 (colorHelp s.color) := by
  exact .cons (.say _ _) <| .cons .scroll <| .cons (.say _ _) <|
    .cons (.say _ _) <| .cons (.say _ _) <| .cons (.say _ _) <|
    .cons (.say _ _) .nil

/-- The two digits at `command_base`, the colour if they name one. -/
theorem setColorDigits_run (s : CmdState) : setColorDigits.run s =
    match namedColor (s.charAt 0) (s.charAt 1) with
    | some new => ([.setColor new], { s with color := new })
    | none => colorError.run s := by
  have hrun : setColorDigits.run s =
      if charToHex (s.charAt 0) = 0x1000 ∨ charToHex (s.charAt 1) = 0x1000 then
        colorError.run s
      else
        let color := (charToHex (s.charAt 0)).setWidth 8 <<< 4 |||
          (charToHex (s.charAt 1)).setWidth 8
        ([.setColor color], { s with color := color }) := by
    change (ite _ _ _ : StateM CmdState (List Action)).run s = _
    rw [run_ite]
    rfl
  have hfirst := charToHex_eq_error_iff (s.charAt 0)
  have hsecond := charToHex_eq_error_iff (s.charAt 1)
  cases hhigh : hexValue (s.charAt 0) with
  | none =>
      rw [hrun, if_pos (Or.inl (hfirst.mpr hhigh)), namedColor, hhigh]
      rfl
  | some high =>
      cases hlow : hexValue (s.charAt 1) with
      | none =>
          rw [hrun, if_pos (Or.inr (hsecond.mpr hlow)), namedColor, hhigh, hlow]
          rfl
      | some low =>
          have hbyte := digits_eq (hexValue_lt hhigh) (hexValue_lt hlow)
          have hdigits : ¬(charToHex (s.charAt 0) = 0x1000 ∨
              charToHex (s.charAt 1) = 0x1000) := by
            rw [hfirst, hsecond, hhigh, hlow]
            simp
          rw [hrun, if_neg hdigits, charToHex_eq, charToHex_eq, namedColor,
            hhigh, hlow]
          simp only [Option.map_some, Option.getD_some, hbyte]
          rfl

theorem prCommand_run (s : CmdState) : prCommand.run s =
    if s.charAt 2 = 0 ∨ s.charAt 3 = 0 then
      ([.printf "Please press string!" s.color], s)
    else ([.printfFrom (s.skip 3).charAt s.color], s.skip 3) := by
  change (ite _ _ _ : StateM CmdState (List Action)).run s = _
  rw [run_ite]
  rfl

theorem hashCommand_run (s : CmdState) : hashCommand.run s =
    if (s.skip 5).nameIs "sha256" = true then
      ([.sha256 ((s.skip 5).skip 7).charAt s.color], (s.skip 5).skip 7)
    else ([.printf "Unkown algorithm!" s.color], s.skip 5) := by
  change (ite _ _ _ : StateM CmdState (List Action)).run (s.skip 5) = _
  rw [run_ite]
  rfl

/-- The tests of `time`, one unit after the other. -/
def checkUnits : List (String × ℕ) → StateM CmdState (List Action)
  | [] => do return [← say "Parameter error!"]
  | unit :: units => do
      if ← cmdCodeCheck unit.1 then return [.printTime unit.2]
      else checkUnits units

theorem checkUnits_run (h : TextAt s text bound) {units : List (String × ℕ)}
    (hchars : ∀ unit ∈ units, ∀ c ∈ bytes unit.1, IsWordChar c) :
    (checkUnits units).run s =
      ([match units.find? fun unit => firstWord text = bytes unit.1 with
        | some unit => .printTime unit.2
        | none => .printf "Parameter error!" s.color], s) := by
  induction units with
  | nil => rfl
  | cons unit units ih =>
      obtain ⟨hunit, hrest⟩ := List.forall_mem_cons.mp hchars
      rw [checkUnits, cmdCodeCheck_bind, run_ite, List.find?_cons,
        h.nameIs hunit]
      by_cases hname : firstWord text = bytes unit.1
      · rw [decide_eq_true hname]
        rfl
      · rw [decide_eq_false hname, ih hrest]
        rfl

theorem timeCommand_run (s : CmdState) :
    timeCommand.run s = (checkUnits timeUnits).run (s.skip 5) := rfl

theorem verCommand_run (s : CmdState) : verCommand.run s =
    ([.printf (
      if (s.skip 4).nameIs "cmd" = true ∨ (s.skip 4).nameIs "CMD" = true then
        "OpenFerain OS @ Command Shell 1.0.7_19"
      else if (s.skip 4).nameIs "os" = true ∨ (s.skip 4).nameIs "OS" = true then
        "OpenFerain OS 26.0.7_19"
      else "Unknow application") s.color], s.skip 4) := by
  have hrun : verCommand.run s = (do
      if (← cmdCodeCheck "cmd") || (← cmdCodeCheck "CMD") then
        return [← say "OpenFerain OS @ Command Shell 1.0.7_19"]
      else if (← cmdCodeCheck "os") || (← cmdCodeCheck "OS") then
        return [← say "OpenFerain OS 26.0.7_19"]
      else return [← say "Unknow application"] :
        StateM CmdState (List Action)).run (s.skip 4) := rfl
  simp only [hrun, cmdCodeCheck_bind, run_ite, Bool.or_eq_true]
  split_ifs <;> rfl

theorem namedColor_zero_right (high : BitVec 8) : namedColor high 0 = none := by
  have hzero : hexValue 0 = none := by decide
  rw [namedColor, hzero]
  cases hexValue high <;> rfl

theorem namedColor_zero_left (low : BitVec 8) : namedColor 0 low = none := by
  have hzero : hexValue 0 = none := by decide
  rw [namedColor, hzero]
  rfl

/-- The first two characters of the text name the colour that they name in
memory. -/
theorem TextAt.namedColor (h : TextAt s text bound) :
    OpenFerain.namedColor (s.charAt 0) (s.charAt 1) =
      (text[0]?.bind fun high => text[1]?.bind fun low =>
        OpenFerain.namedColor high low) := by
  rw [h.char 0 (Nat.zero_le _)]
  rcases text with _ | ⟨high, text⟩
  · exact namedColor_zero_left _
  · have hroom := h.room (List.cons_ne_nil high text)
    rw [List.length_cons] at hroom
    rw [h.char 1 (by omega)]
    rcases text with _ | ⟨low, text⟩
    · exact namedColor_zero_right high
    · rfl

theorem getD_eq_iff {text : List (BitVec 8)} {i : ℕ} {c : BitVec 8}
    (hc : c ≠ 0) : (text[i]?).getD 0 = c ↔ text[i]? = some c := by
  cases text[i]? with
  | none => exact iff_of_false hc.symm (Option.some_ne_none c).symm
  | some d => exact Option.some_inj.symm

/-- `0x` in memory is `0x` in the text. -/
theorem TextAt.hexPrefix_iff (h : TextAt s text bound) :
    (s.charAt 0 = 0x30 ∧ (s.charAt 1 = 0x78 ∨ s.charAt 1 = 0x58)) ↔
      text[0]? = some 0x30 ∧ (text[1]? = some 0x78 ∨ text[1]? = some 0x58) := by
  rw [h.char 0 (Nat.zero_le _), getD_eq_iff (by decide)]
  refine and_congr_right fun hzero => ?_
  have hne : text ≠ [] := by
    rintro rfl
    exact absurd hzero (Option.some_ne_none _).symm
  have hroom := h.room hne
  rw [h.char 1 (by omega), getD_eq_iff (by decide), getD_eq_iff (by decide)]

theorem colorCommand_answers (h : TextAt s text bound) (hlen : 6 ≤ bound) :
    Answered (colorCommand.run s) (Command.color.answer text s.color) := by
  have hdigits : ∀ {s' : CmdState} {text' : List (BitVec 8)} {bound' : ℕ},
      TextAt s' text' bound' → s'.color = s.color →
      Answered (setColorDigits.run s')
        (match text'[0]?.bind fun high => text'[1]?.bind fun low =>
            namedColor high low with
          | some new => ([.setColor new], new)
          | none => (colorHelp s.color, s.color)) := by
    intro s' text' bound' h' hcolor
    rw [setColorDigits_run, ← h'.namedColor, ← hcolor]
    cases namedColor (s'.charAt 0) (s'.charAt 1) with
    | none => exact ⟨colorError_show s', rfl⟩
    | some new => exact ⟨.cons (.setColor new) .nil, rfl⟩
  have hskip := h.skip hlen
  rw [colorCommand_run, Command.answer, argumentColor, colorDigits]
  simp only [hskip.hexPrefix_iff]
  split
  · next hhex =>
      have hpair : 2 ≤ bound - 6 := by
        have hlong : 1 < (text.drop 6).length := by
          rcases hhex.2 with hx | hx
          · exact (List.getElem?_eq_some_iff.mp hx).1
          · exact (List.getElem?_eq_some_iff.mp hx).1
        have hlength := hskip.length
        omega
      exact hdigits (hskip.skip hpair) rfl
  · exact hdigits hskip rfl

theorem hashCommand_answers (h : TextAt s text bound) (hlen : 5 ≤ bound) :
    Answered (hashCommand.run s) (Command.hash.answer text s.color) := by
  have hskip := h.skip hlen
  have hname : (s.skip 5).nameIs "sha256" =
      decide (firstWord (text.drop 5) = bytes "sha256") :=
    hskip.nameIs (by decide)
  rw [hashCommand_run, hname, Command.answer]
  simp only [decide_eq_true_eq]
  split
  · next hword =>
      have hne : text.drop 5 ≠ [] := by
        intro hnil
        rw [hnil] at hword
        exact absurd hword (by decide)
      have hlong : 6 ≤ (text.drop 5).length := by
        have hle := (List.takeWhile_sublist (l := text.drop 5)
          (fun c => decide (IsWordChar c))).length_le
        rw [firstWord] at hword
        rw [hword] at hle
        exact hle
      have hroom := hskip.room hne
      have hstring := (hskip.skip (n := 7) (by omega)).isString
      rw [List.drop_drop] at hstring
      exact ⟨.cons (.digest _ hstring) .nil, rfl⟩
  · exact ⟨Action.shows_say _ _, rfl⟩

theorem prCommand_answers (h : TextAt s text bound) (hlen : 3 ≤ bound) :
    Answered (prCommand.run s) (Command.pr.answer text s.color) := by
  have hskip := h.skip hlen
  have htext : (s.charAt 2 = 0 ∨ s.charAt 3 = 0) ↔ text.drop 3 = [] := by
    rw [h.char 2 (by omega), h.char 3 hlen, getD_eq_zero_iff h.nonzero,
      getD_eq_zero_iff h.nonzero, List.drop_eq_nil_iff]
    omega
  rw [prCommand_run, Command.answer]
  simp only [htext]
  split
  · exact ⟨Action.shows_say _ _, rfl⟩
  · exact ⟨.cons (.echo _ hskip.isString) .nil, rfl⟩

theorem timeCommand_answers (h : TextAt s text bound) (hlen : 5 ≤ bound) :
    Answered (timeCommand.run s) (Command.time.answer text s.color) := by
  have hskip := h.skip hlen
  rw [timeCommand_run, checkUnits_run hskip (by decide), Command.answer,
    timeReply]
  refine ⟨?_, rfl⟩
  cases timeUnits.find? fun unit =>
    decide (firstWord (text.drop 5) = bytes unit.1) with
  | none => exact Action.shows_say _ _
  | some unit => exact .cons (.time unit.2) .nil

theorem verCommand_answers (h : TextAt s text bound) (hlen : 4 ≤ bound) :
    Answered (verCommand.run s) (Command.ver.answer text s.color) := by
  have hskip := h.skip hlen
  rw [verCommand_run, hskip.nameIs (by decide), hskip.nameIs (by decide),
    hskip.nameIs (by decide), hskip.nameIs (by decide)]
  simp only [decide_eq_true_eq]
  exact ⟨Action.shows_say _ _, rfl⟩

/-- Every branch answers the text at `command_base`. -/
theorem TextAt.answers (h : TextAt s text bound) {c : Command}
    (hword : c.For (firstWord text)) (hne : text ≠ []) :
    Answered (c.run.run s) (c.answer text s.color) := by
  have hroom := h.room hne
  have hlong : (firstWord text).length ≤ text.length :=
    (List.takeWhile_sublist _).length_le
  cases c with
  | help => exact helpCommand_answers s
  | unknown => exact nocommand_answers s
  | color =>
      rw [show firstWord text = bytes "color" from hword] at hlong
      exact colorCommand_answers h (hroom.trans_le' hlong)
  | hash =>
      rw [show firstWord text = bytes "hash" from hword] at hlong
      exact hashCommand_answers h (hroom.trans_le' hlong)
  | pr =>
      rw [show firstWord text = bytes "pr" from hword] at hlong
      exact prCommand_answers h (hroom.trans_le' hlong)
  | time =>
      rw [show firstWord text = bytes "time" from hword] at hlong
      exact timeCommand_answers h (hroom.trans_le' hlong)
  | ver =>
      rw [show firstWord text = bytes "ver" from hword] at hlong
      exact verCommand_answers h (hroom.trans_le' hlong)

end Answers

/-! ## Enter answers the line -/

section Enter

variable {stray : ℕ → BitVec 8 → Shell → Shell} {behind : ℕ → BitVec 8}
  {line : List (BitVec 8)} {key : BitVec 8} {s : Shell} {r : Repl}

/-- The blanks before the first word. -/
def leadingBlanks (line : List (BitVec 8)) : List (BitVec 8) :=
  line.takeWhile fun c => !IsWordChar c

theorem leadingBlanks_append (line : List (BitVec 8)) :
    leadingBlanks line ++ lineText line = line :=
  List.takeWhile_append_dropWhile

theorem length_leadingBlanks (line : List (BitVec 8)) :
    (leadingBlanks line).length + (lineText line).length = line.length := by
  rw [← List.length_append, leadingBlanks_append]

theorem getElem?_leadingBlanks {typed : List (BitVec 8)} {i : ℕ}
    (hi : i < (leadingBlanks typed).length) :
    typed[i]? = some (leadingBlanks typed)[i] := by
  calc typed[i]? = (leadingBlanks typed ++ lineText typed)[i]? := by
        rw [leadingBlanks_append]
    _ = some (leadingBlanks typed)[i] := by
        rw [List.getElem?_append_left hi, List.getElem?_eq_getElem hi]

theorem getElem?_lineText (typed : List (BitVec 8)) (i : ℕ) :
    typed[(leadingBlanks typed).length + i]? = (lineText typed)[i]? := by
  calc typed[(leadingBlanks typed).length + i]?
      = (leadingBlanks typed ++ lineText typed)[
          (leadingBlanks typed).length + i]? := by
        rw [leadingBlanks_append]
    _ = (lineText typed)[i]? := by
        rw [List.getElem?_append_right (Nat.le_add_right _ _),
          Nat.add_sub_cancel_left]

/-- The text in the buffer begins behind the blanks. -/
theorem lineMemory_lineText {i : ℕ}
    (hi : (leadingBlanks line).length + i ≤ 125) :
    lineMemory behind line ((leadingBlanks line).length + 1 + i) =
      ((lineText line)[i]?).getD 0 := by
  have hindex : (leadingBlanks line).length + 1 + i =
      (leadingBlanks line).length + i + 1 := by omega
  rw [hindex, lineMemory_succ (by omega), getElem?_lineText]

theorem not_isWordChar_leadingBlanks :
    ∀ c ∈ leadingBlanks line, ¬IsWordChar c := by
  intro c hc
  have hblank := List.mem_takeWhile_imp
    (p := fun c => !decide (IsWordChar c)) hc
  simpa using hblank

theorem firstWord_lineText_ne_nil (h : lineText line ≠ []) :
    firstWord (lineText line) ≠ [] := by
  intro hnil
  have hpos := List.length_pos_iff.mpr h
  have hhead := List.dropWhile_get_zero_not
    (fun c => !decide (IsWordChar c)) line hpos
  rw [firstWord, List.takeWhile_eq_nil_iff] at hnil
  have hword := hnil hpos
  simp only [Bool.not_eq_true', decide_eq_false_iff_not, not_not] at hhead
  exact hword (decide_eq_true hhead)

theorem firstToken_lineMemory (hlen : line.length ≤ 124)
    (h : lineText line ≠ []) :
    FirstToken (lineMemory behind line) ((leadingBlanks line).length + 1)
      (firstWord (lineText line)) := by
  have hlength := length_leadingBlanks line
  have hpos := List.length_pos_iff.mpr h
  refine ⟨wordAt_firstWord fun i hi => lineMemory_lineText (by omega), ?_,
    firstWord_lineText_ne_nil h, by omega⟩
  intro i hi
  rcases i with _ | i
  · rw [lineMemory_zero]
    decide
  · have hlt : i < (leadingBlanks line).length := by omega
    have hchar : lineMemory behind line (i + 1) = (leadingBlanks line)[i] := by
      rw [lineMemory_succ (by omega), getElem?_leadingBlanks hlt,
        Option.getD_some]
    rw [hchar]
    exact not_isWordChar_leadingBlanks _ (List.getElem_mem hlt)

/-- The text at the first word of the buffer. -/
theorem textAt_lineMemory {c : CmdState} (hlen : line.length ≤ 124)
    (hnul : ∀ c ∈ line, c ≠ 0) (hcommand : c.command = lineMemory behind line)
    (hbase : c.commandBase =
      BitVec.ofNat 32 ((leadingBlanks line).length + 1)) :
    TextAt c (lineText line) (125 - (leadingBlanks line).length) := by
  have hlength := length_leadingBlanks line
  refine ⟨fun i hi => ?_, fun c hc => hnul c (List.dropWhile_subset _ hc),
    fun _ => by omega⟩
  rw [charAt_eq hbase (by omega), hcommand, lineMemory_lineText (by omega)]

theorem Show.append {actions actions' : List Action}
    {replies replies' : List Reply} (h : Show actions replies)
    (h' : Show actions' replies') :
    Show (actions ++ actions') (replies ++ replies') :=
  List.rel_append h h'

/-- What Enter does on a line is the answer and a new prompt. -/
theorem Editing.enter_answers (h : Editing behind line s)
    (hlen : line.length ≤ 124) (hnul : ∀ c ∈ line, c ≠ 0) :
    ∃ done, (OpenFerain.enter s).actions = s.actions ++ done ∧
      Show done ((answer line s.cmd.color).1 ++
        [.say pressCommand (answer line s.cmd.color).2]) ∧
      (OpenFerain.enter s).cmd.color = (answer line s.cmd.color).2 := by
  rw [answer]
  by_cases hblank : lineText line = []
  · have hnone : ranBranch s = none := by
      rw [ranBranch_eq_none_iff h.base, h.command]
      intro i hi hword
      have hall := List.dropWhile_eq_nil_iff.mp hblank
      rcases lineMemory_eq_zero_or_mem hi with hzero | hmem
      · rw [hzero] at hword
        exact hword.1 rfl
      · have hbool := hall _ hmem
        rw [decide_eq_true hword] at hbool
        exact Bool.noConfusion hbool
    rw [if_pos hblank, enter_eq_enterWith, hnone, enterWith, cmdCalculate_run]
    exact ⟨_, rfl, Action.shows_say _ _, rfl⟩
  · have hfirst : FirstToken s.cmd.command _ _ :=
      h.command ▸ firstToken_lineMemory hlen hblank
    obtain ⟨len, hrun⟩ := hfirst.cmdCalculate_run h.base
    have htext := textAt_lineMemory (c := { s.cmd with
        commandBase := BitVec.ofNat 32 ((leadingBlanks line).length + 1)
        commandLen := len }) hlen hnul h.command rfl
    have hfor := (commandOf_eq_iff (firstWord (lineText line)) _).mp rfl
    obtain ⟨hreplies, hcolor⟩ := htext.answers hfor hblank
    rw [if_neg hblank, enter_eq_enterWith, hfirst.ranBranch h.base, enterWith,
      hrun]
    refine ⟨_, List.append_assoc _ _ _, ?_, hcolor⟩
    rw [← hcolor]
    exact hreplies.append (Action.shows_say _ _)

end Enter

/-! ## One key -/

/-- The shell is where the read-eval-print loop is. -/
structure Follows (behind : ℕ → BitVec 8) (s : Shell) (r : Repl) : Prop where
  editing : Editing behind r.line s
  counters : s.counters = countersAt r.line.length
  shown : Show s.actions r.replies
  color : s.cmd.color = r.color

section Key

variable {stray : ℕ → BitVec 8 → Shell → Shell} {behind : ℕ → BitVec 8}
  {keys : List (BitVec 8)} {key : BitVec 8} {s : Shell} {r : Repl}

theorem follows_start (behind : ℕ → BitVec 8) :
    Follows behind (initialShell behind) Repl.start where
  editing := editing_initialShell behind
  counters := rfl
  shown := .cons (.say _ _) <| .cons .scroll <| .cons (.say _ _) .nil
  color := rfl

theorem Repl.key_line (r : Repl) (key : BitVec 8) :
    (r.key key).line = typeKey r.line key := by
  rw [Repl.key, typeKey]
  split
  · rfl
  · split
    · rfl
    · rfl

theorem Repl.replies_key_enter (r : Repl) :
    (r.key 0x1C).replies = r.replies ++ ((answer r.line r.color).1 ++
      [.say pressCommand (answer r.line r.color).2]) :=
  List.append_assoc _ _ _

theorem actions_countKey (key : BitVec 8) (s : Shell) :
    (countKey key s).actions = s.actions ++
      if s.lineCharNum + 1 ≥ 80 then [.type key, .testScolling]
      else [.type key] := by
  rw [countKey]
  split
  · exact List.append_assoc _ _ _
  · rfl

/-- A character is typed, and the screen scrolls behind a full line. -/
theorem Follows.actions_char (h : Follows behind s r)
    (henter : key ≠ 0x1C) (hback : key ≠ 0x0E) (hlen : r.line.length ≤ 125) :
    (haveKey stray key s).actions = s.actions ++
        (if (18 + r.line.length) % 80 = 0 then [.type key, .testScolling]
        else [.type key]) ∧
      (haveKey stray key s).cmd.color = s.cmd.color := by
  obtain ⟨hcmd, -, hcount⟩ := countKey_fields key s
  have hindex : ((countKey key s).cmdCharNum - 17).toNat < 127 := by
    rw [hcount, h.editing.charNum]
    bv_omega
  have hfull : s.lineCharNum + 1 ≥ 80 ↔ (18 + r.line.length) % 80 = 0 := by
    have hcolumn : s.lineCharNum =
        BitVec.ofNat 32 ((17 + r.line.length) % 80) :=
      congrArg Counters.lineCharNum h.counters
    rw [hcolumn]
    constructor
    · intro hge
      bv_omega
    · intro hzero
      bv_omega
  rw [haveKey, if_neg henter, if_neg hback]
  simp only [storeCommand_of_lt stray hindex, actions_countKey, hfull, hcmd,
    and_self]

/-- Backspace moves the cursor back, unless the line is empty. -/
theorem Follows.actions_backSpace (h : Follows behind s r)
    (hlen : r.line.length ≤ 125) :
    (backSpace stray s).actions = s.actions ++
        (if r.line = [] then [] else [.moveBack s.cmd.color]) ∧
      (backSpace stray s).cmd.color = s.cmd.color := by
  have hnum := h.editing.charNum
  by_cases hnil : r.line = []
  · rw [hnil] at hnum
    rw [backSpace_empty hnum, if_pos hnil, List.append_nil]
    exact ⟨rfl, rfl⟩
  · have hpos := List.length_pos_iff.mpr hnil
    have hmany : ¬s.cmdCharNum ≤ 17 := by
      rw [hnum]
      bv_omega
    have hindex : (s.cmdCharNum - 17).toNat < 127 := by
      rw [hnum]
      bv_omega
    rw [backSpace, if_neg hmany, if_neg hnil]
    simp only [storeCommand_of_lt stray hindex]
    rw [uncountKey]
    split
    · exact ⟨rfl, rfl⟩
    · exact ⟨rfl, rfl⟩

/-- No key is 0, no line has more than 124 characters, Enter is not pressed on
spaces only, and Backspace is not pressed behind 63 or 64 characters. -/
structure Tame (keys : List (BitVec 8)) : Prop where
  short : ∀ before, before <+: keys → (typedLine before).length ≤ 124
  nonzero : ∀ key ∈ keys, key ≠ 0
  blank : ∀ before, before ++ [0x1C] <+: keys →
    typedLine before = [] ∨ ∃ c ∈ typedLine before, c ≠ 0x20
  column : ∀ before, before ++ [0x0E] <+: keys →
    (typedLine before).length ≠ 63 ∧ (typedLine before).length ≠ 64

theorem Tame.of_concat (h : Tame (keys ++ [key])) : Tame keys where
  short before hbefore :=
    h.short before (hbefore.trans (List.prefix_append _ _))
  nonzero k hk := h.nonzero k (List.mem_append_left _ hk)
  blank before hbefore :=
    h.blank before (hbefore.trans (List.prefix_append _ _))
  column before hbefore :=
    h.column before (hbefore.trans (List.prefix_append _ _))

/-- Shell and loop move alike. -/
theorem Follows.haveKey (h : Follows behind s r)
    (hline : r.line = typedLine keys) (htame : Tame (keys ++ [key])) :
    Follows behind (haveKey stray key s) (r.key key) := by
  have hbefore : r.line.length ≤ 124 := by
    rw [hline]
    exact htame.of_concat.short keys (List.prefix_refl _)
  have hafter : (typeKey r.line key).length ≤ 124 := by
    rw [hline, ← typedLine_concat]
    exact htame.short _ (List.prefix_refl _)
  have hnul : ∀ c ∈ r.line, c ≠ 0 := by
    rw [hline]
    exact typedLine_ne_zero htame.of_concat.nonzero
  have hcounters : (OpenFerain.haveKey stray key s).counters = _ :=
    counters_haveKey h.counters (hbefore.trans (by decide))
      (hafter.trans (by decide)) fun hback => by
      rw [hline]
      subst hback
      exact htame.column keys (List.prefix_refl _)
  by_cases henter : key = 0x1C
  · subst henter
    have hblank := htame.blank keys (List.prefix_refl _)
    rw [← hline] at hblank
    have hempty := h.editing.enter (hbefore.trans (by decide)) hnul hblank
    obtain ⟨done, hactions, hshow, hcolor⟩ :=
      h.editing.enter_answers hbefore hnul
    rw [OpenFerain.haveKey, if_pos rfl] at hcounters ⊢
    rw [h.color] at hshow hcolor
    refine ⟨hempty, hcounters, ?_, hcolor⟩
    rw [hactions, Repl.replies_key_enter]
    exact h.shown.append hshow
  · have hediting : Editing behind _ (OpenFerain.haveKey stray key s) :=
      h.editing.haveKey henter (hbefore.trans (by decide))
        (hafter.trans (by decide))
    rw [← Repl.key_line] at hediting hcounters
    have hchanges : Show (OpenFerain.haveKey stray key s).actions
        (r.key key).replies ∧
        (OpenFerain.haveKey stray key s).cmd.color = (r.key key).color := by
      by_cases hback : key = 0x0E
      · obtain ⟨hactions, hcolor⟩ :
            (backSpace stray s).actions = _ ∧
              (backSpace stray s).cmd.color = _ :=
          h.actions_backSpace (hbefore.trans (by decide))
        rw [OpenFerain.haveKey, Repl.key, if_neg henter, if_pos hback,
          if_neg henter, if_pos hback, hactions, hcolor, h.color]
        refine ⟨h.shown.append ?_, rfl⟩
        split
        · exact .nil
        · exact .cons (.moveBack _) .nil
      · obtain ⟨hactions, hcolor⟩ :
            (OpenFerain.haveKey stray key s).actions = _ ∧
              (OpenFerain.haveKey stray key s).cmd.color = _ :=
          h.actions_char henter hback (hbefore.trans (by decide))
        rw [hactions, hcolor, h.color, Repl.key, if_neg henter, if_neg hback]
        refine ⟨h.shown.append ?_, rfl⟩
        split
        · exact .cons (.type key) (.cons .scroll .nil)
        · exact .cons (.type key) .nil
    exact ⟨hediting, hcounters, hchanges.1, hchanges.2⟩

/-- The loop after a sequence of keys. -/
def replAfter (keys : List (BitVec 8)) : Repl := keys.foldl Repl.key Repl.start

theorem replAfter_concat (keys : List (BitVec 8)) (key : BitVec 8) :
    replAfter (keys ++ [key]) = (replAfter keys).key key := by
  rw [replAfter, List.foldl_append]
  rfl

theorem line_replAfter (keys : List (BitVec 8)) :
    (replAfter keys).line = typedLine keys := by
  induction keys using List.reverseRecOn with
  | nil => rfl
  | append_singleton keys key ih =>
      rw [replAfter_concat, Repl.key_line, ih, typedLine_concat]

/-- The run lemma: the shell follows the loop. -/
theorem follows_runKeys (stray : ℕ → BitVec 8 → Shell → Shell)
    (behind : ℕ → BitVec 8) (htame : Tame keys) :
    Follows behind (runKeys stray behind keys) (replAfter keys) := by
  induction keys using List.reverseRecOn with
  | nil => exact follows_start behind
  | append_singleton keys key ih =>
      rw [runKeys_concat, replAfter_concat]
      exact (ih htame.of_concat).haveKey (line_replAfter keys) htame

end Key

/-! ## The main loop -/

/-- What the main loop finds in EAX and ECX in one round. -/
structure Poll where
  eax : BitVec 32
  ecx : BitVec 32

/-- `main_func` in `CMD.c`: `key_status` is EAX, and `have_key` takes the key
from CL. -/
def mainFunc (stray : ℕ → BitVec 8 → Shell → Shell) (behind : ℕ → BitVec 8)
    (polls : List Poll) : Shell :=
  polls.foldl (fun s poll =>
    if poll.eax = 0x00000001 then haveKey stray (poll.ecx.setWidth 8) s
    else s) (initialShell behind)

/-- The keys that the rounds find. -/
def polledKeys (polls : List Poll) : List (BitVec 8) :=
  (polls.filter fun poll => poll.eax = 1).map fun poll => poll.ecx.setWidth 8

theorem mainFunc_eq (stray : ℕ → BitVec 8 → Shell → Shell)
    (behind : ℕ → BitVec 8) (polls : List Poll) :
    mainFunc stray behind polls = runKeys stray behind (polledKeys polls) := by
  induction polls using List.reverseRecOn with
  | nil => rfl
  | append_singleton polls poll ih =>
      have hround : mainFunc stray behind (polls ++ [poll]) =
          if poll.eax = 1 then
            haveKey stray (poll.ecx.setWidth 8) (mainFunc stray behind polls)
          else mainFunc stray behind polls := by
        rw [mainFunc, List.foldl_append]
        rfl
      have hkeys : polledKeys (polls ++ [poll]) = polledKeys polls ++
          if poll.eax = 1 then [poll.ecx.setWidth 8] else [] := by
        rw [polledKeys, List.filter_append, List.map_append]
        by_cases hkey : poll.eax = 1
        · rw [if_pos hkey, List.filter_cons_of_pos (by simpa using hkey)]
          rfl
        · rw [if_neg hkey, List.filter_cons_of_neg (by simpa using hkey)]
          rfl
      rw [hround, ih, hkeys]
      split
      · rw [runKeys_concat]
      · rw [List.append_nil]

/-- Whatever the rounds of the main loop find in the registers, as long as the
keys among it are not 0, make no line of more than 124 characters and press
neither Enter on spaces only nor Backspace behind 63 or 64 characters: the shell
has shown what the read-eval-print loop replies to the keys, its colour is the
loop's, and the buffer holds the loop's line.  What lies behind the buffer has
no part in it. -/
theorem mainFunc_refines_repl (stray : ℕ → BitVec 8 → Shell → Shell)
    (behind : ℕ → BitVec 8) (polls : List Poll)
    (htame : Tame (polledKeys polls)) :
    let s := mainFunc stray behind polls
    let r := replAfter (polledKeys polls)
    Show s.actions r.replies ∧ s.cmd.color = r.color ∧
      HoldsLine s.cmd.command r.line := by
  have hfollows := follows_runKeys stray behind htame
  rw [← mainFunc_eq] at hfollows
  refine ⟨hfollows.shown, hfollows.color, ?_⟩
  rw [hfollows.editing.command]
  exact holdsLine_lineMemory behind _

/-- The keys of a line and Enter, each found in one round. -/
def typing (line : String) : List Poll :=
  (bytes line ++ [0x1C]).map fun (key : BitVec 8) =>
    ⟨1, key.setWidth 32⟩

/-- A check of few keys, prefix by prefix. -/
theorem tame_of_inits {keys : List (BitVec 8)} (hlen : keys.length ≤ 124)
    (hnonzero : ∀ key ∈ keys, key ≠ 0)
    (hinits : ∀ before ∈ keys.inits,
      (before ++ [0x1C] <+: keys →
        typedLine before = [] ∨ ∃ c ∈ typedLine before, c ≠ 0x20) ∧
      (before ++ [0x0E] <+: keys →
        (typedLine before).length ≠ 63 ∧ (typedLine before).length ≠ 64)) :
    Tame keys := by
  have hgrow : ∀ {before key}, before ++ [key] <+: keys →
      before ∈ keys.inits :=
    fun h => (List.mem_inits _ _).mpr ((List.prefix_append _ _).trans h)
  refine ⟨fun before hbefore => ?_, hnonzero,
    fun before h => (hinits before (hgrow h)).1 h,
    fun before h => (hinits before (hgrow h)).2 h⟩
  exact (typedLine_length_le before).trans (hbefore.length_le.trans hlen)

/-- `color 0x1f`: the colour is set, and the next prompt is printed in it. -/
theorem mainFunc_refines_repl_color :
    let s := mainFunc (fun _ _ s => s) (fun _ => 0) (typing "color 0x1f")
    let r := replAfter (polledKeys (typing "color 0x1f"))
    Show s.actions r.replies ∧ s.cmd.color = r.color ∧
      HoldsLine s.cmd.command r.line :=
  mainFunc_refines_repl (fun _ _ s => s) (fun _ => 0) (typing "color 0x1f")
    (tame_of_inits (by decide) (by decide +kernel) (by decide +kernel))

end OpenFerain
