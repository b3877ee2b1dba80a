import OpenFerain.Application.Session
import OpenFerain.Asm16T32.Clock
import OpenFerain.Console.Stdio

/-!
# The line on the screen

The shell shows a line while it is typed: `type` puts a character on the screen
and `back_space` takes one back, through the video service of `16T32.asm` and
its pointer, while the clock prints the time through the same service.  What
the screen shows behind the prompt is then what the buffer of the shell holds,
as long as the line does not reach the column at which the shell calls
`test_scolling`.  The handler of the clock saves no general register, so this
asks for an operand in a register not to meet an interrupt: the clock comes
before the operands of a call are loaded, or behind its `int`.
-/

namespace OpenFerain

open Ia32 Asm16T32

/-! ## The instructions of the shell -/

/-- What happens while a line is typed: the instructions with which the shell
calls the service, interrupts of the clock, and whatever else leaves the screen
alone. -/
inductive Moment where
  /-- The compiler loads the operands of an `asm` statement. -/
  | load (eax ecx : BitVec 32)
  | movAh (ah : BitVec 8)
  | int30
  | clock (c : Cmos)
  | other

/-- The registers of the shell, and the screen. -/
structure ShellState where
  regs : VideoRegs
  screen : Screen

/-- What a moment does.  `_VIDEO` uses the registers as it needs them and `_RTC`
saves none but `DS`: behind an interrupt they hold anything. -/
def Moment.Step : Moment → ShellState → ShellState → Prop
  | .load eax ecx, c, c' =>
      c' = { c with regs := { c.regs with eax := eax, ecx := ecx } }
  | .movAh ah, c, c' =>
      c' = { c with regs := { c.regs with eax := movbAh ah c.regs.eax } }
  | .int30, c, c' => c'.screen = video c.regs c.screen
  | .clock k, c, c' => rtc k c.screen = some c'.screen
  | .other, c, c' => Event.other.Step c.screen c'.screen

/-- The shell goes from `c` to `c'`. -/
def Moments : List Moment → ShellState → ShellState → Prop
  | [], c, c' => c' = c
  | moment :: moments, c, c' =>
      ∃ c₁, moment.Step c c₁ ∧ Moments moments c₁ c'

def Moment.isInstruction : Moment → Bool
  | .clock _ => false
  | .other => false
  | _ => true

/-- Between the operands of a call and its `int`, nothing happens but the
instructions of the shell.  The flag says that an operand is in a register. -/
def Quiet : Bool → List Moment → Prop
  | _, [] => True
  | _, .load _ _ :: moments => Quiet true moments
  | _, .movAh _ :: moments => Quiet true moments
  | _, .int30 :: moments => Quiet false moments
  | loaded, .clock _ :: moments => loaded = false ∧ Quiet false moments
  | loaded, .other :: moments => loaded = false ∧ Quiet false moments

/-- The instructions for actions of the shell, in the colour of the moment:
those of `type` and `set_color` in `stdio.h` and of `back_space` in `CMD.c`. -/
inductive Issued (color : BitVec 8) : List Action → List Moment → Prop
  | nil : Issued color [] []
  | type {key eax ecx actions instrs} (hcolor : eax.extractLsb' 0 8 = color)
      (hkey : ecx.extractLsb' 0 8 = key) (hrest : Issued color actions instrs) :
      Issued color (.type key :: actions)
        (.load eax ecx :: .movAh 0x01 :: .int30 :: .movAh 0x80 :: .int30 ::
          instrs)
  | moveBack {c eax ecx actions instrs} (hcolor : eax.extractLsb' 0 8 = c)
      (hrest : Issued color actions instrs) :
      Issued color (.moveBack c :: actions)
        (.load eax ecx :: .movAh 0x03 :: .int30 :: .movAh 0x80 :: .int30 ::
          instrs)
  | setColor {c eax ecx actions instrs} (hcolor : eax.extractLsb' 0 8 = c)
      (hrest : Issued color actions instrs) :
      Issued color (.setColor c :: actions)
        (.load eax ecx :: .movAh 0x05 :: .int30 :: instrs)

/-! ## The calls they make -/

/-- The calls that actions of the shell come to. -/
inductive ActionCalls (color : BitVec 8) : List Action → List VideoRegs → Prop
  | nil : ActionCalls color [] []
  | type {key put cursor actions calls}
      (hput : put.ah = 0x01 ∧ al put = color ∧ cl put = key)
      (hcursor : cursor.ah = 0x80) (hrest : ActionCalls color actions calls) :
      ActionCalls color (.type key :: actions) (put :: cursor :: calls)
  | moveBack {c clean cursor actions calls}
      (hclean : clean.ah = 0x03 ∧ al clean = c) (hcursor : cursor.ah = 0x80)
      (hrest : ActionCalls color actions calls) :
      ActionCalls color (.moveBack c :: actions) (clean :: cursor :: calls)
  | setColor {c set actions calls} (hset : set.ah = 0x05 ∧ al set = c)
      (hrest : ActionCalls color actions calls) :
      ActionCalls color (.setColor c :: actions) (set :: calls)

/-- The calls of instructions, from what is known of the registers on. -/
inductive Makes : (VideoRegs → Prop) → List Moment → List VideoRegs → Prop
  | nil {known} : Makes known [] []
  | load {known eax ecx instrs calls}
      (hrest : Makes (fun regs => regs.eax = eax ∧ regs.ecx = ecx) instrs
        calls) :
      Makes known (.load eax ecx :: instrs) calls
  | movAh {known ah instrs calls}
      (hrest : Makes (fun regs => ∃ before, known before ∧
        regs = { before with eax := movbAh ah before.eax }) instrs calls) :
      Makes known (.movAh ah :: instrs) calls
  | int30 {known regs instrs calls} (hregs : known regs)
      (hrest : Makes (fun _ => True) instrs calls) :
      Makes known (.int30 :: instrs) (regs :: calls)

theorem al_movbAh (v : BitVec 8) (eax : BitVec 32) :
    (movbAh v eax).extractLsb' 0 8 = eax.extractLsb' 0 8 := by
  apply BitVec.eq_of_getLsbD_eq
  intro i hi
  simp only [movbAh]
  interval_cases i <;> simp

/-- A call with its operands. -/
theorem Makes.operands {known : VideoRegs → Prop} {ah : BitVec 8}
    {eax ecx : BitVec 32} {instrs : List Moment} {calls : List VideoRegs}
    (h : Makes known (.load eax ecx :: .movAh ah :: .int30 :: instrs) calls) :
    ∃ regs rest, calls = regs :: rest ∧ regs.ah = ah ∧
      al regs = eax.extractLsb' 0 8 ∧ cl regs = ecx.extractLsb' 0 8 ∧
      Makes (fun _ => True) instrs rest := by
  cases h with
  | load h =>
      cases h with
      | movAh h =>
          cases h with
          | int30 hregs hrest =>
              obtain ⟨before, ⟨heax, hecx⟩, rfl⟩ := hregs
              refine ⟨_, _, rfl, ah_movbAh _ _ _ _ _, ?_, ?_, hrest⟩
              · rw [← heax]
                exact al_movbAh _ _
              · rw [← hecx]
                rfl

/-- The call for the cursor, in the registers of the moment. -/
theorem Makes.cursor {known : VideoRegs → Prop} {ah : BitVec 8}
    {instrs : List Moment} {calls : List VideoRegs}
    (h : Makes known (.movAh ah :: .int30 :: instrs) calls) :
    ∃ regs rest, calls = regs :: rest ∧ regs.ah = ah ∧
      Makes (fun _ => True) instrs rest := by
  cases h with
  | movAh h =>
      cases h with
      | int30 hregs hrest =>
          obtain ⟨before, -, rfl⟩ := hregs
          exact ⟨_, _, rfl, ah_movbAh _ _ _ _ _, hrest⟩

/-- The instructions make the calls of the actions. -/
theorem Issued.calls {color : BitVec 8} {actions : List Action}
    {instrs : List Moment} (h : Issued color actions instrs) :
    ∀ {known : VideoRegs → Prop} {calls : List VideoRegs},
      Makes known instrs calls → ActionCalls color actions calls := by
  induction h with
  | nil =>
      intro known calls hmakes
      cases hmakes
      exact .nil
  | type hcolor hkey _ ih =>
      intro known calls hmakes
      obtain ⟨put, _, rfl, hah, hal, hcl, hmakes⟩ := hmakes.operands
      obtain ⟨cursor, rest, rfl, hcursor, hmakes⟩ := hmakes.cursor
      exact .type ⟨hah, hal.trans hcolor, hcl.trans hkey⟩ hcursor (ih hmakes)
  | moveBack hcolor _ ih =>
      intro known calls hmakes
      obtain ⟨clean, _, rfl, hah, hal, -, hmakes⟩ := hmakes.operands
      obtain ⟨cursor, rest, rfl, hcursor, hmakes⟩ := hmakes.cursor
      exact .moveBack ⟨hah, hal.trans hcolor⟩ hcursor (ih hmakes)
  | setColor hcolor _ ih =>
      intro known calls hmakes
      obtain ⟨set, rest, rfl, hah, hal, -, hmakes⟩ := hmakes.operands
      exact .setColor ⟨hah, hal.trans hcolor⟩ (ih hmakes)

/-- The call of an event. -/
def Asm16T32.Event.regs : Event → Option VideoRegs
  | .call regs => some regs
  | _ => none

/-- The machine goes from `s` to `s'`. -/
def Steps : List Event → Screen → Screen → Prop
  | [], s, s' => s' = s
  | e :: events, s, s' => ∃ s₁, e.Step s s₁ ∧ Steps events s₁ s'

/-- The moments are events.  As long as nothing interrupts a call, what is known
of the registers stays true up to its `int`. -/
theorem events_of_moments {moments : List Moment} {loaded : Bool}
    (known : VideoRegs → Prop) {c c' : ShellState}
    (hrun : Moments moments c c') (hquiet : Quiet loaded moments)
    (hclock : ∀ k, Moment.clock k ∈ moments → k.Decimal)
    (hknown : known c.regs) (hopen : loaded = false → ∀ regs, known regs) :
    ∃ events, Steps events c.screen c'.screen ∧
      (∀ k, Event.clock k ∈ events → k.Decimal) ∧
      Makes known (moments.filter Moment.isInstruction)
        (events.filterMap Event.regs) := by
  induction moments generalizing loaded known c with
  | nil =>
      subst hrun
      exact ⟨[], rfl, fun k hk => absurd hk List.not_mem_nil, .nil⟩
  | cons moment moments ih =>
      obtain ⟨c₁, hstep, hrest⟩ := hrun
      have hclock' : ∀ k, Moment.clock k ∈ moments → k.Decimal :=
        fun k hk => hclock k (List.mem_cons_of_mem _ hk)
      cases moment with
      | load eax ecx =>
          subst hstep
          obtain ⟨events, hsteps, hdecimal, hmakes⟩ :=
            ih (fun regs => regs.eax = eax ∧ regs.ecx = ecx) hrest hquiet
              hclock' ⟨rfl, rfl⟩ (fun h => Bool.noConfusion h)
          exact ⟨events, hsteps, hdecimal, .load hmakes⟩
      | movAh ah =>
          subst hstep
          obtain ⟨events, hsteps, hdecimal, hmakes⟩ :=
            ih (fun regs => ∃ before, known before ∧
                regs = { before with eax := movbAh ah before.eax }) hrest
              hquiet hclock' ⟨c.regs, hknown, rfl⟩
              (fun h => Bool.noConfusion h)
          exact ⟨events, hsteps, hdecimal, .movAh hmakes⟩
      | int30 =>
          obtain ⟨events, hsteps, hdecimal, hmakes⟩ :=
            ih (fun _ => True) hrest hquiet hclock' trivial
              (fun _ _ => trivial)
          have hdecimal' : ∀ k, Event.clock k ∈ .call c.regs :: events →
              k.Decimal :=
            fun k hk => hdecimal k (List.mem_of_ne_of_mem (by simp) hk)
          exact ⟨.call c.regs :: events, ⟨_, hstep, hsteps⟩, hdecimal',
            .int30 hknown hmakes⟩
      | clock k =>
          obtain ⟨hloaded, hquiet⟩ := hquiet
          obtain ⟨events, hsteps, hdecimal, hmakes⟩ :=
            ih known hrest hquiet hclock' (hopen hloaded _)
              (fun _ => hopen hloaded)
          have hdecimal' : ∀ k', Event.clock k' ∈ .clock k :: events →
              k'.Decimal := by
            intro k' hk
            rw [List.mem_cons, Event.clock.injEq] at hk
            rcases hk with rfl | hk
            · exact hclock k' List.mem_cons_self
            · exact hdecimal k' hk
          exact ⟨.clock k :: events, ⟨_, hstep, hsteps⟩, hdecimal', hmakes⟩
      | other =>
          obtain ⟨hloaded, hquiet⟩ := hquiet
          obtain ⟨events, hsteps, hdecimal, hmakes⟩ :=
            ih known hrest hquiet hclock' (hopen hloaded _)
              (fun _ => hopen hloaded)
          have hdecimal' : ∀ k, Event.clock k ∈ .other :: events → k.Decimal :=
            fun k hk => hdecimal k (List.mem_of_ne_of_mem (by simp) hk)
          exact ⟨.other :: events, ⟨_, hstep, hsteps⟩, hdecimal', hmakes⟩

/-! ## The line -/

/-- Since `s₀` the line has been typed from cell `p` on in the colour `color`,
and the cursor stands behind it.  The last cells are left to the clock. -/
structure LineShown (p : ℕ) (color : BitVec 8) (s₀ : Screen)
    (text : List (BitVec 8)) (s : Screen) : Prop where
  chars : ∀ i, p + i < 1980 →
    s.memory (cellAt (p + i)) = (text[i]?).getD 0x20
  colors : ∀ i < text.length, s.memory (cellAt (p + i) + 1) = color
  front : ∀ j < p, s.memory (cellAt j) = s₀.memory (cellAt j) ∧
    s.memory (cellAt j + 1) = s₀.memory (cellAt j + 1)
  pointer : s.memory.load32 0x2008 = cellAt (p + text.length)
  cursor : s.crtc.cursor = p + text.length

/-- Calls that edit a line of at most `room` characters: from a line and a
cursor behind `n` characters of it to another line and cursor. -/
inductive Edits (color : BitVec 8) (room : ℕ) :
    List VideoRegs → List (BitVec 8) → ℕ → List (BitVec 8) → ℕ → Prop
  | nil {line n} : Edits color room [] line n line n
  | put {regs calls line n line' n'} (hservice : service regs.ah = .oneChar)
      (hcolor : al regs = color) (hroom : line.length < room)
      (hrest : Edits color room calls (line ++ [cl regs]) n line' n') :
      Edits color room (regs :: calls) line n line' n'
  | takeBack {regs calls line n line' n'}
      (hservice : service regs.ah = .cleanChar) (hline : line ≠ [])
      (hrest : Edits color room calls line.dropLast n line' n') :
      Edits color room (regs :: calls) line n line' n'
  | cursor {regs calls line n line' n'}
      (hservice : service regs.ah = .setCursor)
      (hrest : Edits color room calls line line.length line' n') :
      Edits color room (regs :: calls) line n line' n'

section Edits

variable {color : BitVec 8} {room n n₁ n' : ℕ} {calls calls' : List VideoRegs}
  {line line₁ line' : List (BitVec 8)}

theorem Edits.append (h : Edits color room calls line n line₁ n₁)
    (h' : Edits color room calls' line₁ n₁ line' n') :
    Edits color room (calls ++ calls') line n line' n' := by
  induction h with
  | nil => exact h'
  | put hservice hcolor hroom _ ih => exact .put hservice hcolor hroom (ih h')
  | takeBack hservice hline _ ih => exact .takeBack hservice hline (ih h')
  | cursor hservice _ ih => exact .cursor hservice (ih h')

theorem ActionCalls.append_left {actions actions' : List Action}
    (h : ActionCalls color (actions ++ actions') calls) :
    ∃ first rest, calls = first ++ rest ∧ ActionCalls color actions first ∧
      ActionCalls color actions' rest := by
  induction actions generalizing calls with
  | nil => exact ⟨[], calls, rfl, .nil, h⟩
  | cons action actions ih =>
      rw [List.cons_append] at h
      cases h with
      | type hput hcursor hrest =>
          obtain ⟨first, rest, rfl, hfirst, hlast⟩ := ih hrest
          exact ⟨_, rest, rfl, .type hput hcursor hfirst, hlast⟩
      | moveBack hclean hcursor hrest =>
          obtain ⟨first, rest, rfl, hfirst, hlast⟩ := ih hrest
          exact ⟨_, rest, rfl, .moveBack hclean hcursor hfirst, hlast⟩
      | setColor hset hrest =>
          obtain ⟨first, rest, rfl, hfirst, hlast⟩ := ih hrest
          exact ⟨_, rest, rfl, .setColor hset hfirst, hlast⟩

/-- `type` puts the character and moves the cursor behind it. -/
theorem ActionCalls.edits_type {key : BitVec 8} (hroom : line.length < room)
    (h : ActionCalls color [.type key] calls) :
    Edits color room calls line n (line ++ [key]) (line ++ [key]).length := by
  cases h with
  | type hput hcursor hrest =>
      obtain ⟨hservice, hcolor, rfl⟩ := hput
      cases hrest
      exact .put (by rw [hservice]; rfl) hcolor hroom
        (.cursor (by rw [hcursor]; rfl) .nil)

/-- `back_space` takes the last character back. -/
theorem ActionCalls.edits_moveBack {c : BitVec 8} (hline : line ≠ [])
    (h : ActionCalls color [.moveBack c] calls) :
    Edits color room calls line n line.dropLast line.dropLast.length := by
  cases h with
  | moveBack hclean hcursor hrest =>
      cases hrest
      exact .takeBack (by rw [hclean.1]; rfl) hline
        (.cursor (by rw [hcursor]; rfl) .nil)

end Edits

/-! ## The screen follows the calls -/

/-- The machine shows a line, with the cursor behind `n` of its characters. -/
structure Echoes (t₀ : Picture) (p : ℕ) (color : BitVec 8)
    (line : List (BitVec 8)) (n : ℕ) (s : Screen) (t : Picture) : Prop where
  shows : Asm16T32.Shows s t
  line : TextScreen.ShowsLine t₀ p 1980 0x20 color line t
  cursor : t.cursor = p + n

section Screen

variable {color : BitVec 8} {p room n n' : ℕ} {events : List Event}
  {e : Event} {regs : VideoRegs} {line line' : List (BitVec 8)}
  {s s' : Screen} {t t₀ : Picture}

/-- The clock and the rest of the program leave the line alone. -/
theorem Echoes.noCall (h : Echoes t₀ p color line n s t)
    (hcall : e.regs = none) (hstep : e.Step s s') (hstays : e.Stays t) :
    Echoes t₀ p color line n s' (e.follow s.memory t) := by
  have hshows := (h.shows.step hstep hstays).1
  cases e with
  | call regs => cases hcall
  | clock c =>
      refine ⟨hshows, ?_, ?_⟩
      · change TextScreen.ShowsLine t₀ p 1980 0x20 color line (c.follow t)
        rw [Cmos.follow]
        split
        · exact h.line
        · exact h.line.overlay (Nat.le_refl _) _ _
      · change (c.follow t).cursor = p + n
        rw [Cmos.follow]
        split
        · exact h.cursor
        · exact (TextScreen.cursor_write _ _ _).trans h.cursor
  | other => exact ⟨hshows, h.line, h.cursor⟩

theorem Echoes.put (h : Echoes t₀ p color line n s t)
    (hservice : service regs.ah = .oneChar) (hcolor : al regs = color)
    (hlen : p + line.length < 1980) :
    Echoes t₀ p color (line ++ [cl regs]) n (video regs s)
      (t.put (cl regs) color) := by
  have hnext : t.next < 2000 := by
    rw [h.line.next]
    omega
  have hstays : Stays regs t := by
    rw [Stays, hservice]
    exact hnext
  have hserved := h.shows.video hstays
  rw [follow, hservice, hcolor] at hserved
  exact ⟨hserved.shows, h.line.put _ hlen, h.cursor⟩

theorem Echoes.takeBack (h : Echoes t₀ p color line n s t)
    (hservice : service regs.ah = .cleanChar) (hline : line ≠ []) :
    Echoes t₀ p color line.dropLast n (video regs s)
      (t.takeBack 0x20 (al regs)) := by
  have hnext : 0 < t.next := by
    rw [h.line.next]
    exact Nat.add_pos_right _ (List.length_pos_iff.mpr hline)
  have hstays : Stays regs t := by
    rw [Stays, hservice]
    exact hnext
  have hserved := h.shows.video hstays
  rw [follow, hservice] at hserved
  exact ⟨hserved.shows, h.line.takeBack hline _, h.cursor⟩

theorem Echoes.showCursor (h : Echoes t₀ p color line n s t)
    (hservice : service regs.ah = .setCursor) :
    Echoes t₀ p color line line.length (video regs s) t.showCursor := by
  have hstays : Stays regs t := by
    rw [Stays, hservice]
    trivial
  have hserved := h.shows.video hstays
  rw [follow, hservice] at hserved
  exact ⟨hserved.shows, h.line.showCursor, h.line.next⟩

/-- The run lemma: events whose calls edit the line, in any order with the
others. -/
theorem Echoes.run (hroom : p + room ≤ 1980)
    (hedits : Edits color room (events.filterMap Event.regs) line n line' n')
    (hsteps : Steps events s s')
    (hclock : ∀ c, Event.clock c ∈ events → c.Decimal)
    (h : Echoes t₀ p color line n s t) :
    ∃ t', Echoes t₀ p color line' n' s' t' := by
  induction events generalizing line n s t with
  | nil =>
      rw [List.filterMap_nil] at hedits
      cases hedits
      subst hsteps
      exact ⟨t, h⟩
  | cons e events ih =>
      obtain ⟨s₁, hstep, hrest⟩ := hsteps
      have hclock' : ∀ c, Event.clock c ∈ events → c.Decimal :=
        fun c hc => hclock c (List.mem_cons_of_mem _ hc)
      cases e with
      | call regs =>
          change Edits color room (regs :: events.filterMap Event.regs) line n
            line' n' at hedits
          subst hstep
          cases hedits with
          | put hservice hcolor hlen hedits =>
              exact ih hedits hrest hclock'
                (h.put hservice hcolor (by omega))
          | takeBack hservice hline hedits =>
              exact ih hedits hrest hclock' (h.takeBack hservice hline)
          | cursor hservice hedits =>
              exact ih hedits hrest hclock' (h.showCursor hservice)
      | clock c =>
          exact ih hedits hrest hclock'
            (h.noCall rfl hstep (hclock c List.mem_cons_self))
      | other => exact ih hedits hrest hclock' (h.noCall rfl hstep trivial)

end Screen

/-! ## The shell follows the keys -/

section Shell

variable {behind : ℕ → BitVec 8} {before keys : List (BitVec 8)}
  {key : BitVec 8} {s : Shell} {r : Repl}

theorem typedLine_append (hbefore : typedLine before = []) :
    typedLine (before ++ keys) = typedLine keys := by
  rw [typedLine, List.foldl_append]
  change keys.foldl typeKey (typedLine before) = _
  rw [hbefore]
  rfl

/-- At a key other than Enter the shell calls the service for what the key does
to the line. -/
theorem key_edits (stray : ℕ → BitVec 8 → Shell → Shell)
    (h : Follows behind s r) (henter : key ≠ 0x1C)
    (hlen : r.line.length ≤ 62) (hafter : (typeKey r.line key).length ≤ 62) :
    (haveKey stray key s).cmd.color = s.cmd.color ∧
      ∃ actions, (haveKey stray key s).actions = s.actions ++ actions ∧
        ∀ color calls, ActionCalls color actions calls →
          Edits color 62 calls r.line r.line.length (typeKey r.line key)
            (typeKey r.line key).length := by
  rw [typeKey, if_neg henter] at hafter ⊢
  by_cases hback : key = 0x0E
  · obtain ⟨hactions, hcolor⟩ :
        (backSpace stray s).actions = _ ∧ (backSpace stray s).cmd.color = _ :=
      h.actions_backSpace (by omega)
    rw [haveKey, if_neg henter, if_pos hback, if_pos hback]
    refine ⟨hcolor, _, hactions, fun color calls hissued => ?_⟩
    by_cases hline : r.line = []
    · rw [if_pos hline] at hissued
      cases hissued
      rw [hline]
      exact .nil
    · rw [if_neg hline] at hissued
      exact hissued.edits_moveBack hline
  · rw [if_neg hback] at hafter ⊢
    rw [List.length_append, List.length_singleton] at hafter
    obtain ⟨hactions, hcolor⟩ :
        (haveKey stray key s).actions = _ ∧
          (haveKey stray key s).cmd.color = _ :=
      h.actions_char henter hback (by omega)
    rw [if_neg (by omega)] at hactions
    exact ⟨hcolor, _, hactions, fun color calls hissued =>
      hissued.edits_type (by omega)⟩

/-- Behind a new prompt, the calls for keys other than Enter are those that
type the line. -/
theorem keys_edit (stray : ℕ → BitVec 8 → Shell → Shell)
    (behind : ℕ → BitVec 8) (htame : Tame (before ++ keys))
    (hbefore : typedLine before = []) (henter : 0x1C ∉ keys)
    (hshort : ∀ typed, typed <+: keys → (typedLine typed).length ≤ 62) :
    (runKeys stray behind (before ++ keys)).cmd.color =
        (runKeys stray behind before).cmd.color ∧
      ∃ actions, (runKeys stray behind (before ++ keys)).actions =
          (runKeys stray behind before).actions ++ actions ∧
        ∀ color calls, ActionCalls color actions calls →
          Edits color 62 calls [] 0 (typedLine keys)
            (typedLine keys).length := by
  induction keys using List.reverseRecOn with
  | nil =>
      rw [List.append_nil]
      refine ⟨rfl, [], (List.append_nil _).symm, fun color calls hissued => ?_⟩
      cases hissued
      exact .nil
  | append_singleton keys key ih =>
      rw [← List.append_assoc] at htame ⊢
      have hkeys : 0x1C ∉ keys ∧ key ≠ 0x1C := by
        rw [List.mem_append, List.mem_singleton, not_or] at henter
        exact ⟨henter.1, Ne.symm henter.2⟩
      obtain ⟨hcolor, actions, hactions, hedits⟩ := ih htame.of_concat hkeys.1
        fun typed htyped => hshort typed
          (htyped.trans (List.prefix_append _ _))
      have hfollows := follows_runKeys stray behind htame.of_concat
      have hline : (replAfter (before ++ keys)).line = typedLine keys := by
        rw [line_replAfter, typedLine_append hbefore]
      have hafter := hshort (keys ++ [key]) (List.prefix_refl _)
      rw [typedLine_concat, ← hline] at hafter
      obtain ⟨hcolor', new, hnew, hedit⟩ :=
        key_edits stray hfollows hkeys.2
          (by rw [hline]; exact hshort keys (List.prefix_append _ _)) hafter
      rw [runKeys_concat, typedLine_concat, hcolor', hnew, hactions, ← hline]
      rw [← hline] at hedits
      refine ⟨hcolor, actions ++ new, List.append_assoc _ _ _,
        fun color calls hissued => ?_⟩
      obtain ⟨first, rest, rfl, hfirst, hrest⟩ := hissued.append_left
      exact (hedits color first hfirst).append (hedit color rest hrest)

end Shell

/-! ## From the keyboard to the screen -/

section Typing

variable {color : BitVec 8} {p : ℕ} {actions : List Action}
  {events : List Event} {before keys line : List (BitVec 8)}
  {s s₀ s' : Screen} {t : Picture} {labels : Labels} {presses : List Press}
  {polls : List Poll} {moments : List Moment} {c c' : ShellState}

/-- What the text buffer holds, as a screen with the pointer at cell `p`. -/
def pictureOf (s : Screen) (p : ℕ) : Picture where
  char j := s.memory (cellAt j)
  color j := s.memory (cellAt j + 1)
  next := p
  cursor := p

theorem LineShown.echoes (h : LineShown p color s [] s) (hp : p ≤ 1980) :
    Echoes (pictureOf s p) p color [] 0 s (pictureOf s p) where
  shows := {
    cells := ⟨fun _ _ => rfl, fun _ _ => rfl⟩
    pointer := h.pointer
    next_le := hp.trans (by decide)
    cursor := h.cursor }
  line := {
    next := rfl
    room := hp
    chars := h.chars
    colors := h.colors
    front := fun _ _ => ⟨rfl, rfl⟩ }
  cursor := rfl

theorem Echoes.lineShown
    (h : Echoes (pictureOf s₀ p) p color line line.length s t) :
    LineShown p color s₀ line s := by
  have hroom := h.line.room
  refine ⟨fun i hi => ?_, fun i hi => ?_, fun j hj => ⟨?_, ?_⟩, ?_, ?_⟩
  · rw [h.shows.cells.char _ (by omega), h.line.chars i hi]
  · rw [h.shows.cells.color _ (by omega), h.line.colors i hi]
  · rw [h.shows.cells.char _ (by omega), (h.line.front j hj).1]
    rfl
  · rw [h.shows.cells.color _ (by omega), (h.line.front j hj).2]
    rfl
  · rw [h.shows.pointer, h.line.next]
  · rw [h.shows.cursor, h.cursor]

/-- What is typed behind a prompt, on the screen and in the buffer. -/
theorem keys_shown (stray : ℕ → BitVec 8 → Shell → Shell)
    (behind : ℕ → BitVec 8) (htame : Tame (before ++ keys))
    (hbefore : typedLine before = []) (henter : 0x1C ∉ keys)
    (hshort : ∀ typed, typed <+: keys → (typedLine typed).length ≤ 62)
    (hactions : (runKeys stray behind (before ++ keys)).actions =
      (runKeys stray behind before).actions ++ actions)
    (hcalls : ActionCalls color actions (events.filterMap Event.regs))
    (hsteps : Steps events s s')
    (hclock : ∀ c, Event.clock c ∈ events → c.Decimal)
    (hroom : p + 62 ≤ 1980) (hprompt : LineShown p color s [] s) :
    LineShown p color s (typedLine keys) s' ∧
      HoldsLine (runKeys stray behind (before ++ keys)).cmd.command
        (typedLine keys) := by
  obtain ⟨-, issued, heq, hedits⟩ :=
    keys_edit stray behind htame hbefore henter hshort
  have hsame : issued = actions :=
    List.append_cancel_left (heq.symm.trans hactions)
  rw [hsame] at hedits
  obtain ⟨t, hechoes⟩ := (hprompt.echoes (by omega)).run hroom
    (hedits color _ hcalls) hsteps hclock
  refine ⟨hechoes.lineShown, ?_⟩
  have hediting := (follows_runKeys stray behind htame).editing
  rw [hediting.command, line_replAfter, typedLine_append hbefore]
  exact holdsLine_lineMemory behind _

/-- Text is typed behind a prompt, at the keyboard and with Backspace.  The
instructions of the shell are executed, in any order with interrupts of the
clock and with whatever else leaves the screen alone, which come between an
`int` and the next operands.  Then the screen shows the line from the prompt on,
in the colour of the shell, blanks behind it and the cursor at its end, and the
prompt as it was; and it is the line in the buffer of the shell. -/
theorem typing_shown (stray : ℕ → BitVec 8 → Shell → Shell)
    (behind : ℕ → BitVec 8) (before keys : List (BitVec 8))
    (hpresses : Interrupts labels false presses)
    (hcodes : presses.map Press.code = (before ++ keys).flatMap strokes)
    (hkeys : ∀ key ∈ before ++ keys, Typeable key)
    (hsees : Sees labels polls presses) (htame : Tame (before ++ keys))
    (hbefore : typedLine before = []) (henter : 0x1C ∉ keys)
    (hshort : ∀ typed, typed <+: keys → (typedLine typed).length ≤ 62)
    (hactions : (mainFunc stray behind polls).actions =
      (runKeys stray behind before).actions ++ actions)
    (hissued : Issued (runKeys stray behind before).cmd.color actions
      (moments.filter Moment.isInstruction))
    (hquiet : Quiet false moments) (hmoments : Moments moments c c')
    (hclock : ∀ k, Moment.clock k ∈ moments → k.Decimal)
    (hroom : p + 62 ≤ 1980)
    (hprompt : LineShown p (runKeys stray behind before).cmd.color c.screen []
      c.screen) :
    let shell := mainFunc stray behind polls
    LineShown p shell.cmd.color c.screen (typedLine keys) c'.screen ∧
      HoldsLine shell.cmd.command (typedLine keys) := by
  have hfound : polledKeys polls = before ++ keys := by
    rw [polledKeys_of_sees hpresses hsees, hcodes, decode_text hkeys]
  have hshell : mainFunc stray behind polls =
      runKeys stray behind (before ++ keys) := by
    rw [mainFunc_eq, hfound]
  rw [hshell] at hactions ⊢
  have hcolor := (keys_edit stray behind htame hbefore henter hshort).1
  change LineShown p (runKeys stray behind (before ++ keys)).cmd.color c.screen
    _ c'.screen ∧ _
  rw [hcolor]
  obtain ⟨events, hsteps, hdecimal, hmakes⟩ := events_of_moments (fun _ => True)
    hmoments hquiet hclock trivial (fun _ _ => trivial)
  exact keys_shown stray behind htame hbefore henter hshort hactions
    (hissued.calls hmakes) hsteps hdecimal hroom hprompt

end Typing

/-- A screen with the pointer and the cursor behind the prompt in the third
row. -/
def promptScreen : Screen where
  memory := Memory.write (fun _ => 0x20) 0x2008 (bytes32 (cellAt 177))
  crtc := ⟨0x0F, 0, 177⟩
  out := []

theorem promptScreen_shown :
    LineShown 177 0x07 promptScreen [] promptScreen where
  chars i hi := by
    have hblank : CellsShow promptScreen.memory (fun _ => 0x20)
        (fun _ => 0x20) :=
      CellsShow.writePointer ⟨fun _ _ => rfl, fun _ _ => rfl⟩ 0x2008
        (by decide)
    rw [List.getElem?_nil]
    exact hblank.char _ (by omega)
  colors i hi := absurd hi (Nat.not_lt_zero i)
  front _ _ := ⟨rfl, rfl⟩
  pointer := Memory.load32_write_bytes32 _ _ _
  cursor := rfl

/-- `hi`, with the second letter replaced. -/
def hiTyped : List (BitVec 8) := [0x68, 0x6F, 0x0E, 0x69]

/-- The instructions for it.  The clock comes behind an `int` and before the
operands of a call. -/
def hiMoments : List Moment :=
  [.load 0x07 0x68, .movAh 0x01, .int30, .clock noon, .movAh 0x80, .int30,
    .load 0x07 0x6F, .movAh 0x01, .int30, .movAh 0x80, .int30, .clock noon,
    .load 0x07 0x00, .movAh 0x03, .int30, .movAh 0x80, .int30,
    .load 0x07 0x69, .movAh 0x01, .int30, .movAh 0x80, .int30]

theorem eq_noon_of_mem_hiMoments {k : Cmos} (hk : Moment.clock k ∈ hiMoments) :
    k = noon := by
  simpa only [hiMoments, List.mem_cons, List.not_mem_nil, or_false,
    reduceCtorEq, false_or, Moment.clock.injEq, or_self] using hk

/-- Moments in which the clock finds a time take place. -/
theorem exists_moments {moments : List Moment} (c : ShellState)
    (hclock : ∀ k, Moment.clock k ∈ moments → ∃ status ∈ k.status,
      status &&& 0x80 = 0) : ∃ c', Moments moments c c' := by
  induction moments generalizing c with
  | nil => exact ⟨c, rfl⟩
  | cons moment moments ih =>
      have hnext : ∃ c₁, moment.Step c c₁ := by
        cases moment with
        | load eax ecx => exact ⟨_, rfl⟩
        | movAh ah => exact ⟨_, rfl⟩
        | int30 => exact ⟨⟨c.regs, _⟩, rfl⟩
        | clock k =>
            obtain ⟨status, hin, hready⟩ := hclock k List.mem_cons_self
            have hback : rtc k c.screen ≠ none := fun hnone =>
              (rtc_eq_none_iff.mp hnone).2 status hin hready
            obtain ⟨s', hs'⟩ := Option.ne_none_iff_exists'.mp hback
            exact ⟨⟨c.regs, s'⟩, hs'⟩
        | other => exact ⟨c, fun _ _ => rfl, fun _ _ => rfl, rfl⟩
      obtain ⟨c₁, hstep⟩ := hnext
      obtain ⟨c', hrest⟩ := ih c₁ fun k hk =>
        hclock k (List.mem_cons_of_mem _ hk)
      exact ⟨c', c₁, hstep, hrest⟩

theorem typing_shown_hi :
    ∃ c', Moments hiMoments ⟨callRegs 0 0 0, promptScreen⟩ c' ∧
      let shell := mainFunc (fun _ _ s => s) (fun _ => 0)
        ((pressesFor false (hiTyped.flatMap strokes)).filterMap
          (Press.poll keyLabels))
      LineShown 177 shell.cmd.color promptScreen [0x68, 0x69] c'.screen ∧
        HoldsLine shell.cmd.command [0x68, 0x69] := by
  obtain ⟨c', hmoments⟩ : ∃ c', Moments hiMoments
      ⟨callRegs 0 0 0, promptScreen⟩ c' := by
    apply exists_moments
    intro k hk
    rw [eq_noon_of_mem_hiMoments hk]
    exact ⟨0x26, by decide, by decide⟩
  have htypeable : ∀ key ∈ hiTyped, Typeable key := by decide +kernel
  have hpresses := interrupts_pressesFor false (hiTyped.flatMap strokes)
  have hcodes := map_code_pressesFor false (hiTyped.flatMap strokes)
  have hpolled : polledKeys ((pressesFor false
      (hiTyped.flatMap strokes)).filterMap (Press.poll keyLabels)) =
        hiTyped := by
    rw [polledKeys_of_sees hpresses rfl, hcodes, decode_text htypeable]
  have hactions : (mainFunc (fun _ _ s => s) (fun _ => 0)
      ((pressesFor false (hiTyped.flatMap strokes)).filterMap
        (Press.poll keyLabels))).actions =
      (runKeys (fun _ _ s => s) (fun _ => 0) []).actions ++
        [.type 0x68, .type 0x6F, .moveBack 0x07, .type 0x69] := by
    rw [mainFunc_eq, hpolled]
    rfl
  have hissued : Issued 0x07
      [.type 0x68, .type 0x6F, .moveBack 0x07, .type 0x69]
      (hiMoments.filter Moment.isInstruction) :=
    .type rfl rfl <| .type rfl rfl <| .moveBack rfl <| .type rfl rfl .nil
  have hquiet : Quiet false hiMoments := ⟨rfl, rfl, trivial⟩
  have hdecimal : ∀ k, Moment.clock k ∈ hiMoments → k.Decimal := by
    intro k hk
    rw [eq_noon_of_mem_hiMoments hk]
    exact noon_decimal
  exact ⟨c', hmoments, typing_shown (fun _ _ s => s) (fun _ => 0) [] hiTyped
    hpresses hcodes htypeable rfl
    (tame_of_inits (by decide) (by decide +kernel) (by decide +kernel)) rfl
    (by decide)
    (fun typed htyped => (typedLine_length_le typed).trans
      (htyped.length_le.trans (by decide)))
    hactions hissued hquiet hmoments hdecimal (by decide)
    promptScreen_shown⟩

end OpenFerain
