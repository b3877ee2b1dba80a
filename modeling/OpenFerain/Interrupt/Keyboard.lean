import Mathlib.Data.List.Induction
import Mathlib.Tactic.Common

/-!
# The keyboard handler

`ISR_FOR_PS2` of `interrupt.h` turns scan codes into characters.  Its test for
a letter is written `0x10 <= key <= 0x19`, which C reads as a comparison of the
truth value of `0x10 <= key` with `0x19`: every code passes it, and the switch
that keeps the shift and caps lock flags is never reached.  The handler with
the test as it is meant is proved right for every sequence of codes; the one
in the source is right exactly for sequences without a code of the switch.
-/

namespace OpenFerain

/-! ## The source functions -/

/-- `KEY_SHIFT_FLAG` and `KEY_CAPSLOCK_FLAG`. -/
structure KeyFlags where
  shift : BitVec 8
  caps : BitVec 8
  deriving DecidableEq

/-- The flags as the source initialises them. -/
def initialKeyFlags : KeyFlags := ⟨0, 0⟩

def keyShiftD (flags : KeyFlags) : KeyFlags := { flags with shift := 1 }

def keyShiftU (flags : KeyFlags) : KeyFlags := { flags with shift := 0 }

def keyCapsLk (flags : KeyFlags) : KeyFlags :=
  { flags with caps := flags.caps ^^^ 1 }

def ascii (c : Char) : BitVec 8 := BitVec.ofNat 8 c.toNat

/-- `PS2CLF` in `interrupt.h`: the letters without caps lock. -/
def ps2clf (key : BitVec 8) : BitVec 8 :=
  match key with
  | 0x10#8 => ascii 'q'
  | 0x11#8 => ascii 'w'
  | 0x12#8 => ascii 'e'
  | 0x13#8 => ascii 'r'
  | 0x14#8 => ascii 't'
  | 0x15#8 => ascii 'y'
  | 0x16#8 => ascii 'u'
  | 0x17#8 => ascii 'i'
  | 0x18#8 => ascii 'o'
  | 0x19#8 => ascii 'p'
  | 0x1E#8 => ascii 'a'
  | 0x1F#8 => ascii 's'
  | 0x20#8 => ascii 'd'
  | 0x21#8 => ascii 'f'
  | 0x22#8 => ascii 'g'
  | 0x23#8 => ascii 'h'
  | 0x24#8 => ascii 'j'
  | 0x25#8 => ascii 'k'
  | 0x26#8 => ascii 'l'
  | 0x2C#8 => ascii 'z'
  | 0x2D#8 => ascii 'x'
  | 0x2E#8 => ascii 'c'
  | 0x2F#8 => ascii 'v'
  | 0x30#8 => ascii 'b'
  | 0x31#8 => ascii 'n'
  | 0x32#8 => ascii 'm'
  | _ => 0xFF

/-- `PS2CLT` in `interrupt.h`: the letters with caps lock. -/
def ps2clt (key : BitVec 8) : BitVec 8 :=
  match key with
  | 0x10#8 => ascii 'Q'
  | 0x11#8 => ascii 'W'
  | 0x12#8 => ascii 'E'
  | 0x13#8 => ascii 'R'
  | 0x14#8 => ascii 'T'
  | 0x15#8 => ascii 'Y'
  | 0x16#8 => ascii 'U'
  | 0x17#8 => ascii 'I'
  | 0x18#8 => ascii 'O'
  | 0x19#8 => ascii 'P'
  | 0x1E#8 => ascii 'A'
  | 0x1F#8 => ascii 'S'
  | 0x20#8 => ascii 'D'
  | 0x21#8 => ascii 'F'
  | 0x22#8 => ascii 'G'
  | 0x23#8 => ascii 'H'
  | 0x24#8 => ascii 'J'
  | 0x25#8 => ascii 'K'
  | 0x26#8 => ascii 'L'
  | 0x2C#8 => ascii 'Z'
  | 0x2D#8 => ascii 'X'
  | 0x2E#8 => ascii 'C'
  | 0x2F#8 => ascii 'V'
  | 0x30#8 => ascii 'B'
  | 0x31#8 => ascii 'N'
  | 0x32#8 => ascii 'M'
  | _ => 0xFF

/-- `if(KEY_SHIFT_FLAG == 0)key = plain; else key = shifted;` -/
def pickShift (flags : KeyFlags) (plain shifted : BitVec 8) : BitVec 8 :=
  if flags.shift = 0 then plain else shifted

/-- The switch of `ISR_FOR_PS2`: the flags and the value of `key` after it.
A key of the keypad has no second character and stays as it is under shift. -/
def ps2Switch (key : BitVec 8) (flags : KeyFlags) : KeyFlags × BitVec 8 :=
  match key with
  | 0x29#8 => (flags, pickShift flags 0x60 (ascii '~'))
  | 0x02#8 => (flags, pickShift flags (ascii '1') (ascii '!'))
  | 0x03#8 => (flags, pickShift flags (ascii '2') (ascii '@'))
  | 0x04#8 => (flags, pickShift flags (ascii '3') (ascii '#'))
  | 0x05#8 => (flags, pickShift flags (ascii '4') (ascii '$'))
  | 0x06#8 => (flags, pickShift flags (ascii '5') (ascii '%'))
  | 0x07#8 => (flags, pickShift flags (ascii '6') (ascii '^'))
  | 0x08#8 => (flags, pickShift flags (ascii '7') (ascii '&'))
  | 0x09#8 => (flags, pickShift flags (ascii '8') (ascii '*'))
  | 0x0A#8 => (flags, pickShift flags (ascii '9') (ascii '('))
  | 0x0B#8 => (flags, pickShift flags (ascii '0') (ascii ')'))
  | 0x0C#8 => (flags, pickShift flags (ascii '-') (ascii '='))
  | 0x0D#8 => (flags, pickShift flags (ascii '=') (ascii '+'))
  | 0x1A#8 => (flags, pickShift flags (ascii '[') (ascii '{'))
  | 0x1B#8 => (flags, pickShift flags (ascii ']') (ascii '}'))
  | 0x27#8 => (flags, pickShift flags (ascii ';') (ascii ':'))
  | 0x28#8 => (flags, pickShift flags 0x27 0x22)
  | 0x2B#8 => (flags, pickShift flags 0x5C (ascii '|'))
  | 0x33#8 => (flags, pickShift flags (ascii ',') (ascii '<'))
  | 0x34#8 => (flags, pickShift flags (ascii '.') (ascii '>'))
  | 0x35#8 => (flags, pickShift flags (ascii '/') (ascii '?'))
  | 0x4F#8 => (flags, pickShift flags (ascii '1') key)
  | 0x50#8 => (flags, pickShift flags (ascii '2') key)
  | 0x51#8 => (flags, pickShift flags (ascii '3') key)
  | 0x4B#8 => (flags, pickShift flags (ascii '4') key)
  | 0x4C#8 => (flags, pickShift flags (ascii '5') key)
  | 0x4D#8 => (flags, pickShift flags (ascii '6') key)
  | 0x47#8 => (flags, pickShift flags (ascii '7') key)
  | 0x48#8 => (flags, pickShift flags (ascii '8') key)
  | 0x49#8 => (flags, pickShift flags (ascii '9') key)
  | 0x52#8 => (flags, pickShift flags (ascii '0') key)
  | 0x4A#8 => (flags, pickShift flags (ascii '-') key)
  | 0x53#8 => (flags, pickShift flags (ascii '.') key)
  | 0x4E#8 => (flags, pickShift flags (ascii '+') key)
  | 0x37#8 => (flags, pickShift flags (ascii '*') key)
  | 0x39#8 => (flags, ascii ' ')
  | 0x0F#8 => (flags, key)
  | 0x3A#8 => (keyCapsLk flags, 0xFF)
  | 0x1C#8 => (flags, key)
  | 0x0E#8 => (flags, key)
  | 0x2A#8 => (keyShiftD flags, 0x2A)
  | 0x36#8 => (keyShiftD flags, 0x2A)
  | 0xAA#8 => (keyShiftU flags, 0xAA)
  | 0xB6#8 => (keyShiftU flags, 0xAA)
  | _ => (flags, 0xFF)

/-- A handler: from a scan code and the flags to the new flags and the byte it
stores at `keybuf_ptr`, if it stores one. -/
abbrev KeyHandler := BitVec 8 → KeyFlags → KeyFlags × Option (BitVec 8)

/-- `if(key == 0xFF)return; *mem_ptr = key;` -/
def storedKey (key : BitVec 8) : Option (BitVec 8) :=
  if key = 0xFF then none else some key

/-- The body of `ISR_FOR_PS2` around its first test. -/
def keyHandler (letterTest : BitVec 8 → Bool) : KeyHandler := fun key flags =>
  if letterTest key then
    (flags, storedKey
      (if flags.caps = 0 then ps2clf key
        else if flags.caps = 1 then ps2clt key
        else key))
  else ((ps2Switch key flags).1, storedKey (ps2Switch key flags).2)

/-- `<=` in C, which yields 1 or 0. -/
def cLe (x y : ℕ) : ℕ := if x ≤ y then 1 else 0

/-- The test of the source, grouped as C groups it: `(low <= key) <= high`. -/
def sourceLetterTest (key : BitVec 8) : Bool :=
  cLe (cLe 0x10 key.toNat) 0x19 ≠ 0 ∨ cLe (cLe 0x1E key.toNat) 0x26 ≠ 0 ∨
    cLe (cLe 0x2C key.toNat) 0x32 ≠ 0

/-- `ISR_FOR_PS2` in `interrupt.h`. -/
def isrForPs2 : KeyHandler := keyHandler sourceLetterTest

/-! ## What a keyboard should do -/

/-- The codes of letters. -/
def IsLetterCode (key : BitVec 8) : Prop :=
  0x10 ≤ key ∧ key ≤ 0x19 ∨ 0x1E ≤ key ∧ key ≤ 0x26 ∨ 0x2C ≤ key ∧ key ≤ 0x32

instance : DecidablePred IsLetterCode := fun _ =>
  inferInstanceAs (Decidable (_ ∨ _))

/-- The labels of the switch. -/
def caseLabels : List (BitVec 8) :=
  [0x29, 0x02, 0x03, 0x04, 0x05, 0x06, 0x07, 0x08, 0x09, 0x0A, 0x0B, 0x0C,
    0x0D, 0x1A, 0x1B, 0x27, 0x28, 0x2B, 0x33, 0x34, 0x35, 0x4F, 0x50, 0x51,
    0x4B, 0x4C, 0x4D, 0x47, 0x48, 0x49, 0x52, 0x4A, 0x53, 0x4E, 0x37, 0x39,
    0x0F, 0x3A, 0x1C, 0x0E, 0x2A, 0x36, 0xAA, 0xB6]

/-- The handler with the test as it is meant. -/
def rangedHandler : KeyHandler := keyHandler fun key => IsLetterCode key

/-- The flags after a sequence of codes. -/
def flagsAfter (isr : KeyHandler) (codes : List (BitVec 8)) : KeyFlags :=
  codes.foldl (fun flags key => (isr key flags).1) initialKeyFlags

/-- Whether a code is a press of a shift key (`some true`), a release
(`some false`) or neither. -/
def shiftEvent (key : BitVec 8) : Option Bool :=
  if key = 0x2A ∨ key = 0x36 then some true
  else if key = 0xAA ∨ key = 0xB6 then some false
  else none

/-- The last shift event of a sequence. -/
def lastShift (codes : List (BitVec 8)) : Option Bool :=
  (codes.filterMap shiftEvent).getLast?

/-- The flags tell the last shift event and the parity of the caps lock
codes. -/
structure FlagsFollow (isr : KeyHandler) (codes : List (BitVec 8)) : Prop where
  shift : (flagsAfter isr codes).shift = 1 ↔ lastShift codes = some true
  caps : (flagsAfter isr codes).caps =
    BitVec.ofNat 8 (codes.count 0x3A % 2)

/-- The answer to a code: the letter that the caps lock flag selects, what the
case of the code prescribes, or nothing. -/
structure Answers (isr : KeyHandler) (flags : KeyFlags) (key : BitVec 8) :
    Prop where
  letter : IsLetterCode key →
    (isr key flags).2 =
      some (if flags.caps = 0 then ps2clf key else ps2clt key)
  hasCase : ¬IsLetterCode key → key ∈ caseLabels →
    (isr key flags).2 = storedKey (ps2Switch key flags).2
  noCase : ¬IsLetterCode key → key ∉ caseLabels →
    isr key flags = (flags, none)

/-- All through the sequence the flags follow it and every code is
answered. -/
structure KeyboardCorrect (isr : KeyHandler) (codes : List (BitVec 8)) :
    Prop where
  follows : ∀ before, before <+: codes → FlagsFollow isr before
  answers : ∀ before key, before ++ [key] <+: codes →
    Answers isr (flagsAfter isr before) key

/-! ## The tables and the switch -/

variable {key : BitVec 8} {flags : KeyFlags} {codes : List (BitVec 8)}

theorem pickShift_ne {plain shifted x : BitVec 8} (hplain : plain ≠ x)
    (hshifted : shifted ≠ x) : pickShift flags plain shifted ≠ x := by
  rw [pickShift]
  split
  · exact hplain
  · exact hshifted

theorem ps2clf_eq_iff : ps2clf key = 0xFF ↔ ¬IsLetterCode key := by
  revert key
  decide +kernel

theorem ps2clt_eq_iff : ps2clt key = 0xFF ↔ ¬IsLetterCode key := by
  revert key
  decide +kernel

theorem ps2Switch_of_notMem (hkey : key ∉ caseLabels) :
    ps2Switch key flags = (flags, 0xFF) := by
  unfold ps2Switch
  split
  case h_45 => rfl
  all_goals exact absurd (by decide) hkey

theorem notMem_of_isLetterCode (hkey : IsLetterCode key) :
    key ∉ caseLabels := by
  revert key
  decide +kernel

/-- The codes of the shift keys have cases. -/
theorem shiftEvent_of_notMem (hkey : key ∉ caseLabels) :
    shiftEvent key = none := by
  have hpress : ¬(key = 0x2A ∨ key = 0x36) := by
    rintro (rfl | rfl)
    · exact hkey (by decide)
    · exact hkey (by decide)
  have hrelease : ¬(key = 0xAA ∨ key = 0xB6) := by
    rintro (rfl | rfl)
    · exact hkey (by decide)
    · exact hkey (by decide)
  rw [shiftEvent, if_neg hpress, if_neg hrelease]

/-- What the switch does to the flags. -/
theorem ps2Switch_flags (key : BitVec 8) (flags : KeyFlags) :
    (ps2Switch key flags).1 =
      match shiftEvent key with
      | some true => keyShiftD flags
      | some false => keyShiftU flags
      | none => if key = 0x3A then keyCapsLk flags else flags := by
  by_cases hkey : key ∈ caseLabels
  · revert key
    simp only [caseLabels, List.forall_mem_cons, List.not_mem_nil,
      IsEmpty.forall_iff, implies_true, and_true]
    and_intros
    all_goals rfl
  · have hcaps : key ≠ 0x3A := by
      rintro rfl
      exact hkey (by decide)
    rw [ps2Switch_of_notMem hkey, shiftEvent_of_notMem hkey]
    exact (if_neg hcaps).symm

/-- Every case but caps lock leaves a byte to store. -/
theorem ps2Switch_ne (hkey : key ∈ caseLabels) (hcaps : key ≠ 0x3A) :
    (ps2Switch key flags).2 ≠ 0xFF := by
  revert key
  simp only [caseLabels, List.forall_mem_cons, List.not_mem_nil,
    IsEmpty.forall_iff, implies_true, and_true]
  and_intros
  all_goals intro hcaps
  all_goals first
    | exact pickShift_ne (by decide) (by decide)
    | exact absurd rfl hcaps
    | simp [ps2Switch, ascii]

theorem storedKey_of_ne (hkey : key ≠ 0xFF) : storedKey key = some key :=
  if_neg hkey

/-! ## Sequences of codes -/

theorem flagsAfter_concat (isr : KeyHandler) (codes : List (BitVec 8))
    (key : BitVec 8) :
    flagsAfter isr (codes ++ [key]) =
      (isr key (flagsAfter isr codes)).1 := by
  rw [flagsAfter, List.foldl_append]
  rfl

theorem lastShift_concat (codes : List (BitVec 8)) (key : BitVec 8) :
    lastShift (codes ++ [key]) = (shiftEvent key).or (lastShift codes) := by
  rw [lastShift, List.filterMap_append, List.getLast?_append, lastShift]
  cases h : shiftEvent key with
  | none => simp [h]
  | some press => simp [h]

theorem count_concat (codes : List (BitVec 8)) (key : BitVec 8) :
    (codes ++ [key]).count 0x3A =
      codes.count 0x3A + if key = 0x3A then 1 else 0 := by
  rw [List.count_append, List.count_singleton]
  simp only [beq_iff_eq]

/-! ## The handler as it is meant -/

theorem rangedHandler_flags (key : BitVec 8) (flags : KeyFlags) :
    (rangedHandler key flags).1 = (ps2Switch key flags).1 := by
  rw [rangedHandler, keyHandler]
  split
  · have hletter : IsLetterCode key := of_decide_eq_true ‹_›
    rw [ps2Switch_of_notMem (notMem_of_isLetterCode hletter)]
  · rfl

/-- One more code keeps the flags right. -/
theorem FlagsFollow.concat (h : FlagsFollow rangedHandler codes)
    (key : BitVec 8) : FlagsFollow rangedHandler (codes ++ [key]) := by
  have hflags : flagsAfter rangedHandler (codes ++ [key]) =
      (ps2Switch key (flagsAfter rangedHandler codes)).1 := by
    rw [flagsAfter_concat, rangedHandler_flags]
  rw [ps2Switch_flags] at hflags
  have hcount := count_concat codes key
  have hlast := lastShift_concat codes key
  rcases hevent : shiftEvent key with _ | press
  · rw [hevent] at hflags hlast
    by_cases hcaps : key = 0x3A
    · rw [if_pos hcaps] at hflags hcount
      refine ⟨?_, ?_⟩
      · rw [hflags, hlast]
        exact h.shift
      · rw [hflags, hcount]
        change (flagsAfter rangedHandler codes).caps ^^^ 1 = _
        rw [h.caps]
        rcases Nat.mod_two_eq_zero_or_one (codes.count 0x3A) with hmod | hmod
        · rw [hmod, Nat.add_mod, hmod]
          rfl
        · rw [hmod, Nat.add_mod, hmod]
          rfl
    · rw [if_neg hcaps] at hflags hcount
      exact ⟨by rw [hflags, hlast]; exact h.shift,
        by rw [hflags, hcount]; exact h.caps⟩
  · have hcaps : key ≠ 0x3A := by
      rintro rfl
      exact absurd hevent (by cases press <;> decide)
    rw [if_neg hcaps] at hcount
    rw [hevent] at hflags hlast
    cases press with
    | true =>
        refine ⟨?_, ?_⟩
        · rw [hflags, hlast]
          simp [keyShiftD]
        · rw [hflags, hcount]
          exact h.caps
    | false =>
        refine ⟨?_, ?_⟩
        · rw [hflags, hlast]
          simp [keyShiftU]
        · rw [hflags, hcount]
          exact h.caps

theorem flagsFollow_rangedHandler (codes : List (BitVec 8)) :
    FlagsFollow rangedHandler codes := by
  induction codes using List.reverseRecOn with
  | nil => exact ⟨by decide, by decide⟩
  | append_singleton codes key ih => exact ih.concat key

theorem answers_rangedHandler
    (hcaps : flags.caps = 0 ∨ flags.caps = 1) :
    Answers rangedHandler flags key := by
  constructor
  · intro hletter
    have hclf : ps2clf key ≠ 0xFF := fun h => ps2clf_eq_iff.mp h hletter
    have hclt : ps2clt key ≠ 0xFF := fun h => ps2clt_eq_iff.mp h hletter
    rw [rangedHandler, keyHandler, if_pos (by simpa using hletter)]
    rcases hcaps with hcaps | hcaps
    · rw [if_pos hcaps, if_pos hcaps]
      exact storedKey_of_ne hclf
    · have hzero : flags.caps ≠ 0 := by
        rw [hcaps]
        decide
      rw [if_neg hzero, if_neg hzero, if_pos hcaps]
      exact storedKey_of_ne hclt
  · intro hletter _
    rw [rangedHandler, keyHandler, if_neg (by simpa using hletter)]
  · intro hletter hkey
    rw [rangedHandler, keyHandler, if_neg (by simpa using hletter),
      ps2Switch_of_notMem hkey]
    rfl

/-- With the test as it is meant, the handler is right for every sequence. -/
theorem keyboardCorrect_rangedHandler (codes : List (BitVec 8)) :
    KeyboardCorrect rangedHandler codes := by
  constructor
  · intro before _
    exact flagsFollow_rangedHandler before
  · intro before key _
    apply answers_rangedHandler
    rw [(flagsFollow_rangedHandler before).caps]
    rcases Nat.mod_two_eq_zero_or_one (before.count 0x3A) with hmod | hmod
    · exact Or.inl (by rw [hmod]; rfl)
    · exact Or.inr (by rw [hmod]; rfl)

/-! ## The handler of the source -/

theorem cLe_le_one (x y : ℕ) : cLe x y ≤ 1 := by
  rw [cLe]
  split
  · exact Nat.le_refl 1
  · exact Nat.zero_le 1

/-- Every code passes the test. -/
theorem sourceLetterTest_eq (key : BitVec 8) :
    sourceLetterTest key = true := by
  have hfirst : cLe (cLe 0x10 key.toNat) 0x19 = 1 :=
    if_pos (Nat.le_trans (cLe_le_one _ _) (by decide))
  simp [sourceLetterTest, hfirst]

theorem isrForPs2_flags (key : BitVec 8) (flags : KeyFlags) :
    (isrForPs2 key flags).1 = flags := by
  rw [isrForPs2, keyHandler, if_pos (sourceLetterTest_eq key)]

/-- The flags never change. -/
theorem flagsAfter_isrForPs2 (codes : List (BitVec 8)) :
    flagsAfter isrForPs2 codes = initialKeyFlags := by
  induction codes using List.reverseRecOn with
  | nil => rfl
  | append_singleton codes key ih =>
      rw [flagsAfter_concat, isrForPs2_flags, ih]

theorem isrForPs2_initial (key : BitVec 8) :
    isrForPs2 key initialKeyFlags =
      (initialKeyFlags, storedKey (ps2clf key)) := by
  rw [isrForPs2, keyHandler, if_pos (sourceLetterTest_eq key),
    if_pos (show initialKeyFlags.caps = 0 from rfl)]

/-- A code that only the switch handles is lost, and a caps lock code does not
count. -/
theorem not_keyboardCorrect_of_mem (hmem : key ∈ codes)
    (hletter : ¬IsLetterCode key) (hcase : key ∈ caseLabels) :
    ¬KeyboardCorrect isrForPs2 codes := by
  intro h
  obtain ⟨before, after, rfl⟩ := List.append_of_mem hmem
  have hpre : before ++ [key] <+: before ++ key :: after :=
    ⟨after, by simp⟩
  by_cases hcaps : key = 0x3A
  · have hbefore := (h.follows before ⟨_, rfl⟩).caps
    have hafter := (h.follows _ hpre).caps
    rw [flagsAfter_isrForPs2] at hbefore hafter
    rw [hbefore, count_concat, if_pos hcaps, Nat.add_mod] at hafter
    rcases Nat.mod_two_eq_zero_or_one (before.count 0x3A) with hmod | hmod
    · rw [hmod] at hafter
      exact absurd hafter (by decide)
    · rw [hmod] at hafter
      exact absurd hafter (by decide)
  · have hanswer := (h.answers before key hpre).hasCase hletter hcase
    rw [flagsAfter_isrForPs2, isrForPs2_initial,
      storedKey_of_ne (ps2Switch_ne hcase hcaps), storedKey,
      if_pos (ps2clf_eq_iff.mpr hletter)] at hanswer
    exact absurd hanswer (by simp)

/-- Without a shift or caps lock code the initial flags stay right. -/
theorem flagsFollow_isrForPs2
    (hquiet : ∀ key ∈ codes, IsLetterCode key ∨ key ∉ caseLabels) :
    FlagsFollow isrForPs2 codes := by
  have hlast : lastShift codes = none := by
    rw [lastShift, List.getLast?_eq_none_iff, List.filterMap_eq_nil_iff]
    intro key hmem
    rcases hquiet key hmem with hletter | hcase
    · exact shiftEvent_of_notMem (notMem_of_isLetterCode hletter)
    · exact shiftEvent_of_notMem hcase
  have hcount : codes.count 0x3A = 0 := by
    rw [List.count_eq_zero]
    intro hmem
    exact absurd (hquiet _ hmem) (by decide)
  constructor
  · rw [flagsAfter_isrForPs2, hlast]
    decide
  · rw [flagsAfter_isrForPs2, hcount]
    rfl

theorem answers_isrForPs2 (hkey : IsLetterCode key ∨ key ∉ caseLabels) :
    Answers isrForPs2 initialKeyFlags key := by
  constructor
  · intro hletter
    rw [isrForPs2_initial, if_pos (show initialKeyFlags.caps = 0 from rfl)]
    exact storedKey_of_ne fun h => ps2clf_eq_iff.mp h hletter
  · intro hletter hcase
    exact absurd hcase (hkey.resolve_left hletter)
  · intro hletter _
    rw [isrForPs2_initial, storedKey, if_pos (ps2clf_eq_iff.mpr hletter)]

/-- The handler of the source is right exactly for the sequences of letters
and of codes without a case in the switch. -/
theorem keyboardCorrect_isrForPs2_iff (codes : List (BitVec 8)) :
    KeyboardCorrect isrForPs2 codes ↔
      ∀ key ∈ codes, IsLetterCode key ∨ key ∉ caseLabels := by
  constructor
  · intro h key hmem
    by_contra hkey
    rw [not_or, not_not] at hkey
    exact not_keyboardCorrect_of_mem hmem hkey.1 hkey.2 h
  · intro hcodes
    constructor
    · intro before hbefore
      exact flagsFollow_isrForPs2 fun key hmem =>
        hcodes key (hbefore.subset hmem)
    · intro before key hpre
      rw [flagsAfter_isrForPs2]
      exact answers_isrForPs2 (hcodes key (hpre.subset (by simp)))

/-- The digit 1 stores nothing. -/
theorem not_keyboardCorrect_digit :
    ¬∀ codes, KeyboardCorrect isrForPs2 codes := by
  intro h
  have hmem : (0x02 : BitVec 8) ∈ [0x02] := by decide
  exact not_keyboardCorrect_of_mem hmem (by decide) (by decide) (h [0x02])

end OpenFerain
