import OpenFerain.Application.LineEditor
import Mathlib.Data.List.Infix

/-!
# The command shell: the buffer refines the line

In a run where no line is longer than 125 characters and Enter is never pressed
on a line of nothing but spaces, the buffer holds the typed line whenever Enter
is pressed, and what Enter does is a function of that line and the colour.
Spaces of a blank line are not cleared and show up behind the lines after it.
-/

namespace OpenFerain

/-! ## The memory that holds a line -/

/-- The memory from `command` on when the array holds a line: the characters
from index 1 on, zeros elsewhere in the array, and what lies behind it. -/
def lineMemory (behind : ℕ → BitVec 8) (line : List (BitVec 8)) (i : ℕ) :
    BitVec 8 :=
  if i < 127 then ((0 :: line)[i]?).getD 0 else behind i

variable {stray : ℕ → BitVec 8 → Shell → Shell} {behind : ℕ → BitVec 8}
  {keys line : List (BitVec 8)} {key : BitVec 8} {s : Shell}

theorem holdsLine_lineMemory (behind : ℕ → BitVec 8)
    (line : List (BitVec 8)) : HoldsLine (lineMemory behind line) line :=
  fun _ hi => if_pos hi

theorem lineMemory_zero (behind : ℕ → BitVec 8) (line : List (BitVec 8)) :
    lineMemory behind line 0 = 0 := rfl

theorem lineMemory_succ {text : List (BitVec 8)} {i : ℕ}
    (hi : i + 1 < 127) :
    lineMemory behind text (i + 1) = (text[i]?).getD 0 := by
  rw [lineMemory, if_pos hi, List.getElem?_cons_succ]

theorem lineMemory_nil (behind : ℕ → BitVec 8) (i : ℕ) :
    lineMemory behind [] i = if i < 127 then 0 else behind i := by
  rw [lineMemory]
  rcases i with _ | i
  · rfl
  · rw [List.getElem?_cons_succ, List.getElem?_nil]
    rfl

/-- Storing a character behind the line. -/
theorem update_lineMemory_concat (hlen : line.length < 126) :
    Function.update (lineMemory behind line) (line.length + 1) key =
      lineMemory behind (line ++ [key]) := by
  funext i
  rcases i with _ | i
  · rw [Function.update_of_ne (by omega), lineMemory_zero, lineMemory_zero]
  · by_cases hi : i + 1 < 127
    · rw [lineMemory_succ hi]
      rcases Nat.lt_trichotomy i line.length with hlt | rfl | hgt
      · rw [Function.update_of_ne (by omega), lineMemory_succ hi,
          List.getElem?_append_left hlt]
      · rw [Function.update_self, List.getElem?_concat_length]
        rfl
      · have hend : (line ++ [key]).length ≤ i := by
          rw [List.length_append]
          exact hgt
        rw [Function.update_of_ne (by omega), lineMemory_succ hi,
          List.getElem?_eq_none (by omega), List.getElem?_eq_none hend]
    · rw [Function.update_of_ne (by omega), lineMemory, if_neg hi, lineMemory,
        if_neg hi]

/-- Clearing the last character. -/
theorem update_lineMemory_dropLast (behind : ℕ → BitVec 8)
    (hlen : line.length < 127)
    (hpos : line ≠ []) :
    Function.update (lineMemory behind line) line.length 0 =
      lineMemory behind line.dropLast := by
  have hlength := List.length_pos_iff.mpr hpos
  funext i
  rcases i with _ | i
  · rw [Function.update_of_ne (by omega), lineMemory_zero, lineMemory_zero]
  · by_cases hi : i + 1 < 127
    · rw [lineMemory_succ hi, List.getElem?_dropLast]
      by_cases hlast : i + 1 = line.length
      · rw [← hlast, Function.update_self, if_neg (by omega)]
        rfl
      · rw [Function.update_of_ne hlast, lineMemory_succ hi]
        by_cases hlt : i < line.length - 1
        · rw [if_pos hlt]
        · rw [if_neg hlt, List.getElem?_eq_none (by omega)]
    · rw [Function.update_of_ne (by omega), lineMemory, if_neg hi, lineMemory,
        if_neg hi]

/-! ## One key -/

/-- The state of the shell while a line is typed. -/
structure Editing (behind : ℕ → BitVec 8) (line : List (BitVec 8))
    (s : Shell) : Prop where
  charNum : s.cmdCharNum = BitVec.ofNat 32 (17 + line.length)
  base : s.cmd.commandBase = 0
  len : s.cmd.commandLen = 0
  command : s.cmd.command = lineMemory behind line

theorem editing_initialShell (behind : ℕ → BitVec 8) :
    Editing behind [] (initialShell behind) :=
  ⟨rfl, rfl, rfl, funext fun i => (lineMemory_nil behind i).symm⟩

theorem Editing.stored {s' : Shell} {line' : List (BitVec 8)} {i : ℕ}
    {v : BitVec 8} (h : Editing behind line s)
    (hstored : Stored s s' i v line'.length)
    (hmemory : Function.update (lineMemory behind line) i v =
      lineMemory behind line') : Editing behind line' s' := by
  obtain ⟨hcmd, hnum, -⟩ := hstored
  rw [h.command, hmemory] at hcmd
  exact ⟨hnum, by rw [hcmd]; exact h.base, by rw [hcmd]; exact h.len,
    by rw [hcmd]⟩

/-- A line with a character that is not a space is seen by
`cmd_calculate`. -/
theorem Editing.flag_ne_zero (h : Editing behind line s)
    (hlen : line.length ≤ 125) (hnul : ∀ c ∈ line, c ≠ 0)
    (hword : ∃ c ∈ line, c ≠ 0x20) :
    (cmdScan s.cmd).commandCheckFlag ≠ 0 := by
  obtain ⟨c, hmem, hspace⟩ := hword
  obtain ⟨i, hi, hc⟩ := List.getElem_of_mem hmem
  rw [Ne, cmdScan_flag_eq_zero_iff, h.base, h.command]
  intro hnone
  apply hnone (i + 1) (Nat.zero_le _) (by omega)
  rw [lineMemory_succ (by omega), List.getElem?_eq_getElem hi, hc]
  exact ⟨hnul c hmem, hspace⟩

/-- Enter on the empty line or on a line with a word leaves an empty
buffer. -/
theorem Editing.enter (h : Editing behind line s) (hlen : line.length ≤ 125)
    (hnul : ∀ c ∈ line, c ≠ 0)
    (hblank : line = [] ∨ ∃ c ∈ line, c ≠ 0x20) :
    Editing behind [] (enter s) := by
  obtain ⟨hnum, -, hbase, hlen'⟩ := enter_fields s
  refine ⟨hnum, hbase, hlen', funext fun i => ?_⟩
  rw [lineMemory_nil]
  have hcleared : ∀ i, ¬i < 127 → lineMemory behind line i = behind i :=
    fun i hi => if_neg hi
  rcases hblank with rfl | hword
  · rcases command_enter s i with hsame | ⟨hi, hzero⟩
    · rw [hsame, h.command, lineMemory_nil]
    · rw [hzero, if_pos hi]
  · rw [command_enter_of_word (h.flag_ne_zero hlen hnul hword), h.command]
    by_cases hi : i < 127
    · rw [if_pos hi, if_pos hi]
    · rw [if_neg hi, if_neg hi, hcleared i hi]

/-- A key other than Enter. -/
theorem Editing.haveKey (h : Editing behind line s) (henter : key ≠ 0x1C)
    (hbefore : line.length ≤ 125) (hafter : (typeKey line key).length ≤ 125) :
    Editing behind (typeKey line key) (haveKey stray key s) := by
  rw [typeKey, if_neg henter] at hafter ⊢
  split_ifs at hafter ⊢ with hback
  · rw [OpenFerain.haveKey, if_neg henter, if_pos hback]
    rcases hline : line.length with _ | n
    · have hnil : line = [] := List.eq_nil_of_length_eq_zero hline
      subst hnil
      rw [backSpace_empty h.charNum]
      exact h
    · have hstored := backSpace_succ stray (n := n)
        (by rw [h.charNum, hline]) (by omega)
      have hne : line ≠ [] := by
        rintro rfl
        exact absurd hline (by simp)
      have hmemory := update_lineMemory_dropLast behind
        (by omega) hne
      have hlen : line.dropLast.length = n := by
        rw [List.length_dropLast, hline, Nat.add_sub_cancel]
      rw [hline] at hmemory
      exact h.stored (by rw [hlen]; exact hstored) hmemory
  · rw [List.length_append, List.length_singleton] at hafter
    have hstored := haveKey_char stray henter hback h.charNum
      (by omega)
    exact h.stored (by rw [List.length_append]; exact hstored)
      (update_lineMemory_concat (by omega))

/-! ## Runs -/

theorem typedLine_ne_zero (hnul : ∀ key ∈ keys, key ≠ 0) :
    ∀ c ∈ typedLine keys, c ≠ 0 := by
  induction keys using List.reverseRecOn with
  | nil => exact fun c hc => absurd hc List.not_mem_nil
  | append_singleton keys key ih =>
      have hline := ih fun k hk => hnul k (List.mem_append_left _ hk)
      rw [typedLine_concat, typeKey]
      split_ifs with henter hback
      · exact fun c hc => absurd hc List.not_mem_nil
      · exact fun c hc => hline c (List.dropLast_subset _ hc)
      · intro c hc
        rcases List.mem_append.mp hc with hold | hnew
        · exact hline c hold
        · rw [List.mem_singleton.mp hnew]
          exact hnul key (by simp)

/-- All through a run without blank lines the buffer holds the line. -/
theorem editing_runKeys (stray : ℕ → BitVec 8 → Shell → Shell)
    (behind : ℕ → BitVec 8) (hshort : ShortLines keys)
    (hnul : ∀ key ∈ keys, key ≠ 0) (hblank : NoBlankLines keys) :
    Editing behind (typedLine keys) (runKeys stray behind keys) := by
  induction keys using List.reverseRecOn with
  | nil => exact editing_initialShell behind
  | append_singleton keys key ih =>
      have hnul' : ∀ k ∈ keys, k ≠ 0 :=
        fun k hk => hnul k (List.mem_append_left _ hk)
      have hbefore := ih hshort.of_concat hnul' hblank.of_concat
      have hafter := hshort.length_le
      rw [typedLine_concat] at hafter ⊢
      rw [runKeys_concat]
      by_cases henter : key = 0x1C
      · subst henter
        have hline := hblank keys (List.prefix_refl _)
        exact hbefore.enter hshort.of_concat.length_le
          (typedLine_ne_zero hnul') hline
      · exact hbefore.haveKey henter hshort.of_concat.length_le hafter

/-- What Enter does when the shell is at the start of a line with the memory
`memory` from `command` on: its actions, and the colour then. -/
def lineActions (memory : ℕ → BitVec 8) (color : BitVec 8) :
    List Action × BitVec 8 :=
  let s := enter {
    cmd := ⟨memory, 0, 0, color⟩
    cmdCharNum := 17
    lineCharNum := 17
    lineNum := 0
    videoMemoryPoint := 0
    actions := []
    stores := [] }
  (s.actions, s.cmd.color)

/-- Enter looks at nothing but the buffer and the colour. -/
theorem enter_eq_lineActions (hbase : s.cmd.commandBase = 0)
    (hlen : s.cmd.commandLen = 0) :
    (enter s).actions =
        s.actions ++ (lineActions s.cmd.command s.cmd.color).1 ∧
      (enter s).cmd.color = (lineActions s.cmd.command s.cmd.color).2 := by
  have hcmd : s.cmd = ⟨s.cmd.command, s.cmd.commandBase, s.cmd.commandLen,
      s.cmd.color⟩ := rfl
  rw [hbase, hlen] at hcmd
  rw [lineActions, enter, enter, ← hcmd]
  simp only
  split
  · exact ⟨rfl, rfl⟩
  · constructor
    · simp only [newPrompt, List.nil_append, List.append_assoc]
    · rfl

/-- In a run where no line has more than 125 characters and Enter is never
pressed on a line of nothing but spaces, the buffer holds the typed line
whenever Enter is pressed; and what Enter then does is a function of the line
and the colour. -/
theorem holdsLine_of_noBlankLines (stray : ℕ → BitVec 8 → Shell → Shell)
    (behind : ℕ → BitVec 8) (keys : List (BitVec 8))
    (hshort : ∀ before, before <+: keys → (typedLine before).length ≤ 125)
    (hnul : ∀ key ∈ keys, key ≠ 0)
    (hblank : ∀ before, before ++ [0x1C] <+: keys →
      typedLine before = [] ∨ ∃ c ∈ typedLine before, c ≠ 0x20) :
    ∀ before, before ++ [0x1C] <+: keys →
      let s := runKeys stray behind before
      let line := typedLine before
      HoldsLine s.cmd.command line ∧
        (enter s).actions = s.actions ++
          (lineActions (lineMemory behind line) s.cmd.color).1 ∧
        (enter s).cmd.color =
          (lineActions (lineMemory behind line) s.cmd.color).2 := by
  intro before hbefore
  have hpre : before <+: keys := (List.prefix_append _ _).trans hbefore
  have hediting := editing_runKeys stray behind
    (ShortLines.of_prefix hshort hpre)
    (fun k hk => hnul k (hpre.subset hk))
    (fun b hb => hblank b (hb.trans hpre))
  have hactions := enter_eq_lineActions hediting.base hediting.len
  rw [hediting.command] at hactions
  refine ⟨?_, hactions⟩
  rw [hediting.command]
  exact holdsLine_lineMemory behind _

theorem typedLine_length_le (keys : List (BitVec 8)) :
    (typedLine keys).length ≤ keys.length := by
  induction keys using List.reverseRecOn with
  | nil => exact Nat.le_refl _
  | append_singleton keys key ih =>
      rw [typedLine_concat, typeKey, List.length_append,
        List.length_singleton]
      split_ifs with henter hback
      · exact Nat.zero_le _
      · rw [List.length_dropLast]
        omega
      · rw [List.length_append, List.length_singleton]
        omega

theorem shortLines_of_length_le (h : keys.length ≤ 125) :
    ShortLines keys := by
  intro before hbefore
  have hkeys := hbefore.length_le
  have hline := typedLine_length_le before
  omega

/-- `pr a` and Enter, then `ver` with a wrong letter taken back, and Enter. -/
def retyped : List (BitVec 8) :=
  [0x70, 0x72, 0x20, 0x61, 0x1C, 0x76, 0x65, 0x77, 0x0E, 0x72, 0x1C]

theorem holdsLine_of_noBlankLines_retyped :
    let before := retyped.dropLast
    let s := runKeys (fun _ _ s => s) (fun _ => 0) before
    let line := typedLine before
    HoldsLine s.cmd.command line ∧
      (enter s).actions = s.actions ++
        (lineActions (lineMemory (fun _ => 0) line) s.cmd.color).1 ∧
      (enter s).cmd.color =
        (lineActions (lineMemory (fun _ => 0) line) s.cmd.color).2 := by
  have hinits : ∀ before ∈ retyped.inits, before ++ [0x1C] <+: retyped →
      typedLine before = [] ∨ ∃ c ∈ typedLine before, c ≠ 0x20 := by
    decide +kernel
  exact holdsLine_of_noBlankLines (fun _ _ s => s) (fun _ => 0) retyped
    (shortLines_of_length_le (by decide)) (by decide)
    (fun before h => hinits before
      ((List.mem_inits _ _).mpr ((List.prefix_append _ _).trans h)) h)
    retyped.dropLast ⟨[], rfl⟩

/-! ## Blank lines -/

theorem lineMemory_eq_zero_or_mem {text : List (BitVec 8)} {i : ℕ}
    (hi : i < 127) :
    lineMemory behind text i = 0 ∨ lineMemory behind text i ∈ text := by
  rcases i with _ | i
  · exact Or.inl rfl
  · rw [lineMemory_succ hi]
    rcases h : text[i]? with _ | c
    · exact Or.inl rfl
    · exact Or.inr (List.mem_of_getElem? h)

/-- The condition on blank lines cannot be spared: the spaces of a blank line
are still in the buffer when Enter is pressed next. -/
theorem not_holdsLine_after_blank (stray : ℕ → BitVec 8 → Shell → Shell)
    (behind : ℕ → BitVec 8) (hshort : ShortLines keys)
    (hnul : ∀ key ∈ keys, key ≠ 0) (hblank : NoBlankLines keys)
    (hne : typedLine keys ≠ [])
    (hspaces : ∀ c ∈ typedLine keys, c = 0x20) :
    typedLine (keys ++ [0x1C]) = [] ∧
      ¬HoldsLine (runKeys stray behind (keys ++ [0x1C])).cmd.command [] := by
  have hediting := editing_runKeys stray behind hshort hnul hblank
  have hflag :
      (cmdScan (runKeys stray behind keys).cmd).commandCheckFlag = 0 := by
    rw [cmdScan_flag_eq_zero_iff, hediting.command]
    rintro i - hi ⟨hzero, hspace⟩
    rcases lineMemory_eq_zero_or_mem hi with hnil | hmem
    · exact hzero hnil
    · exact hspace (hspaces _ hmem)
  have hrun : runKeys stray behind (keys ++ [0x1C]) =
      enter (runKeys stray behind keys) := by
    rw [runKeys_concat, haveKey, if_pos rfl]
  refine ⟨by rw [typedLine_concat]; rfl, ?_⟩
  rw [hrun, command_enter_of_noWord hflag, hediting.command]
  intro hholds
  have hfirst := hholds 1 (by decide)
  rcases hline : typedLine keys with _ | ⟨c, line⟩
  · exact hne hline
  · rw [hline] at hspaces hfirst
    rw [lineMemory_succ (by decide)] at hfirst
    obtain rfl := hspaces c List.mem_cons_self
    exact absurd hfirst (by simp)

/-- A space, Enter and Enter again: at the second Enter the buffer still holds
the space. -/
theorem not_holdsLine_space_enter :
    ¬∀ (stray : ℕ → BitVec 8 → Shell → Shell) (behind : ℕ → BitVec 8)
      (keys : List (BitVec 8)), ShortLines keys → (∀ key ∈ keys, key ≠ 0) →
      ∀ before, before ++ [0x1C] <+: keys →
        HoldsLine (runKeys stray behind before).cmd.command
          (typedLine before) := by
  intro h
  have hblank : NoBlankLines [0x20] := by
    rintro before ⟨after, hkeys⟩
    rcases before with _ | ⟨c, before⟩
    · exact Or.inl rfl
    · have hlength := congrArg List.length hkeys
      simp at hlength
  have hshort : ShortLines [0x20] := shortLines_of_length_le (by decide)
  obtain ⟨hline, hnot⟩ := not_holdsLine_after_blank
    (fun _ _ s => s) (fun _ => 0) hshort (by decide) hblank (by decide)
    (by decide)
  have hholds := h (fun _ _ s => s) (fun _ => 0) [0x20, 0x1C, 0x1C]
    (shortLines_of_length_le (by decide)) (by decide) ([0x20] ++ [0x1C])
    ⟨[], rfl⟩
  rw [hline] at hholds
  exact hnot hholds

end OpenFerain
