import OpenFerain.Application.Repl
import OpenFerain.Asm16T32.Keyboard

/-!
# The shell at the keyboard

The main loop of the shell takes its keys from the registers in which the
keyboard handler of `16T32.asm` leaves them.  Between the interrupts the shell
is free to use its registers and its memory, and the loop may make any number
of rounds that find no key.  What is typed then comes to the shell as it is,
and the answers are those of the read-eval-print loop.
-/

namespace OpenFerain

open Ia32 Asm16T32

/-- The registers after an interrupt, as the main loop reads them. -/
def Asm16T32.Press.poll (labels : Labels) (p : Press) : Option Poll :=
  (p.after labels).map fun c => ⟨c.eax, c.ecx⟩

/-- The interrupts come while the shell waits in its loop, and each key is found
by one round: the rounds that find a key are those behind an interrupt that
leaves one. -/
def Sees (labels : Labels) (polls : List Poll) (presses : List Press) : Prop :=
  polls.filter (fun poll => poll.eax = 1) =
    (presses.filterMap (Press.poll labels)).filter fun poll => poll.eax = 1

section Session

variable {labels : Labels} {polls : List Poll} {presses : List Press}
  {keys : List (BitVec 8)}

theorem polledKeys_cons (poll : Poll) (polls : List Poll) :
    polledKeys (poll :: polls) =
      if poll.eax = 1 then poll.ecx.setWidth 8 :: polledKeys polls
      else polledKeys polls := by
  rw [polledKeys]
  split
  · next heax =>
      rw [List.filter_cons_of_pos (by simpa using heax)]
      rfl
  · next heax =>
      rw [List.filter_cons_of_neg (by simpa using heax)]
      rfl

/-- The keys in the registers after the interrupts. -/
theorem polledKeys_presses (labels : Labels) (presses : List Press) :
    polledKeys (presses.filterMap (Press.poll labels)) =
      presses.filterMap (Press.found labels) := by
  induction presses with
  | nil => rfl
  | cons p presses ih =>
      rcases hafter : p.after labels with _ | c
      · have hpoll : p.poll labels = none := by rw [Press.poll, hafter]; rfl
        have hfound : p.found labels = none := by rw [Press.found, hafter]; rfl
        rw [List.filterMap_cons_none hpoll, List.filterMap_cons_none hfound, ih]
      · have hpoll : p.poll labels = some ⟨c.eax, c.ecx⟩ := by
          rw [Press.poll, hafter]
          rfl
        have hfound : p.found labels = foundKey c := by
          rw [Press.found, hafter]
          rfl
        rw [List.filterMap_cons_some hpoll, polledKeys_cons, ih]
        by_cases heax : c.eax = 1
        · rw [foundKey, if_pos heax] at hfound
          rw [if_pos heax, List.filterMap_cons_some hfound]
        · rw [foundKey, if_neg heax] at hfound
          rw [if_neg heax, List.filterMap_cons_none hfound]

/-- The keys that the loop finds are those that the codes stand for. -/
theorem polledKeys_of_sees (hpresses : Interrupts labels false presses)
    (hsees : Sees labels polls presses) :
    polledKeys polls = (decode false (presses.map Press.code)).1 := by
  rw [← hpresses.found.2, ← polledKeys_presses, polledKeys, polledKeys, hsees]

/-- Whatever is typed at the keyboard while the shell waits, with Enter and
Backspace, as long as no line has more than 124 characters, Enter is not pressed
on spaces only and Backspace not behind 63 or 64 characters: every interrupt
comes back to the shell, the codes yield the text, and the shell shows what the
read-eval-print loop replies to it. -/
theorem typing_refines_repl (stray : ℕ → BitVec 8 → Shell → Shell)
    (behind : ℕ → BitVec 8) (hpresses : Interrupts labels false presses)
    (hcodes : presses.map Press.code = keys.flatMap strokes)
    (hkeys : ∀ key ∈ keys, Typeable key) (hsees : Sees labels polls presses)
    (htame : Tame keys) :
    let s := mainFunc stray behind polls
    let r := replAfter keys
    (∀ p ∈ presses, ∃ c ∈ p.after labels, Resumed labels p.cpu c) ∧
      presses.filterMap (Press.found labels) = keys ∧
      Show s.actions r.replies ∧ s.cmd.color = r.color ∧
        HoldsLine s.cmd.command r.line := by
  have hdecoded : presses.filterMap (Press.found labels) = keys := by
    rw [hpresses.found.2, hcodes, decode_text hkeys]
  have hfound : polledKeys polls = keys := by
    rw [polledKeys_of_sees hpresses hsees, hcodes, decode_text hkeys]
  have hfollows := follows_runKeys stray behind htame
  rw [← hfound, ← mainFunc_eq, hfound] at hfollows
  refine ⟨hpresses.found.1, hdecoded, hfollows.shown, hfollows.color, ?_⟩
  rw [hfollows.editing.command]
  exact holdsLine_lineMemory behind _

end Session

/-! ## A run for every text -/

/-- `KSR` behind the code, at an address inside it. -/
def keyLabels : Labels where
  ksr := 0x00005A00
  afterConvert := 0x00005600

/-- The shell, waiting in its loop. -/
def waitingCpu (shift : Bool) : Cpu where
  eax := 0
  ecx := 0
  edx := 0
  ebx := 0
  esp := 0x00090000
  ebp := 0
  esi := 0
  edi := 0
  ds := 0x0010
  es := 0x0010
  cs := 0x0008
  eip := 0x00010000
  eflags := 0x00000202
  memory := Memory.write (fun _ => 0) 0x00005A00
    (bytes32 (if shift then 1 else 0))
  out := []

/-- The codes, each sent while the shell waits. -/
def pressesFor (shift : Bool) : List (BitVec 8) → List Press
  | [] => []
  | code :: codes =>
      ⟨code, waitingCpu shift⟩ ::
        pressesFor ((action shift code).shift shift) codes

theorem map_code_pressesFor (shift : Bool) (codes : List (BitVec 8)) :
    (pressesFor shift codes).map Press.code = codes := by
  induction codes generalizing shift with
  | nil => rfl
  | cons code codes ih => rw [pressesFor, List.map_cons, ih]

theorem interrupts_pressesFor (shift : Bool) (codes : List (BitVec 8)) :
    Interrupts keyLabels shift (pressesFor shift codes) := by
  induction codes generalizing shift with
  | nil => trivial
  | cons code codes ih =>
      have hshift : shifted keyLabels (waitingCpu shift).memory = shift := by
        rw [shifted, waitingCpu, keyLabels, Memory.load32_write_bytes32]
        cases shift <;> rfl
      have hapart : KsrApart keyLabels (waitingCpu shift) := by
        change 20 ≤ (0x00005A00#32 - (0x00090000#32 - 20)).toNat ∧
          4 ≤ (0x00090000#32 - 20 - 0x00005A00#32).toNat
        decide
      refine ⟨hshift, hapart, fun c hc => ?_⟩
      obtain ⟨c', hafter, -, hdelivered⟩ :=
        keyboard_served keyLabels code (waitingCpu shift) hapart
      have hsame : c = c' := Option.some.inj (hc.symm.trans hafter)
      rw [hsame, hdelivered.shift, hshift]
      exact ih _

/-- `ver OS`, with Backspace on the way. -/
def verOs : List (BitVec 8) :=
  bytes "ver OZ" ++ [0x0E] ++ bytes "S" ++ [0x1C]

theorem typing_refines_repl_verOs :
    let presses := pressesFor false (verOs.flatMap strokes)
    let s := mainFunc (fun _ _ s => s) (fun _ => 0)
      (presses.filterMap (Press.poll keyLabels))
    let r := replAfter verOs
    (∀ p ∈ presses, ∃ c ∈ p.after keyLabels, Resumed keyLabels p.cpu c) ∧
      presses.filterMap (Press.found keyLabels) = verOs ∧
      Show s.actions r.replies ∧ s.cmd.color = r.color ∧
        HoldsLine s.cmd.command r.line :=
  typing_refines_repl (fun _ _ s => s) (fun _ => 0)
    (interrupts_pressesFor false _) (map_code_pressesFor false _)
    (by decide +kernel) rfl
    (tame_of_inits (by decide) (by decide +kernel) (by decide +kernel))

end OpenFerain
