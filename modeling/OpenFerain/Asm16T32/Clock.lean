import OpenFerain.Asm16T32.Video
import OpenFerain.Support.Numeral

/-!
# The clock of `16T32.asm`

`_RTC` reads the date and the time from the real-time clock, which keeps them
in binary-coded decimal, and prints them in the last row through the same
service and the same pointer as the program it interrupts.  It saves the
pointer, so the program goes on where it was; this is followed here through
whole runs, in which calls of the service and interrupts of the clock come in
any order.
-/

namespace OpenFerain.Asm16T32

open Ia32 Access

/-! ## The handler -/

/-- What the clock answers during an interrupt: the register C, the reads of
the register A, one after the other, and the registers of the time. -/
structure Cmos where
  flags : BitVec 8
  status : List (BitVec 8)
  register : BitVec 8 → BitVec 8

/-- The loop at `_read_time`, which reads until no update is going on.  It is
still waiting if the reads run out. -/
def readTime : List (BitVec 8) → Option Unit
  | [] => none
  | status :: reads => if status &&& 0x80 = 0 then some () else readTime reads

/-- The two digits of one register. -/
def storeDigits (address : BitVec 32) (value : BitVec 8) : Access Unit := do
  let bl := (value >>> 4) <<< 4
  write8 address (bl >>> 4 + 0x30)
  write8 (address + 1) (value - bl + 0x30)

/-- The stores of `_RTC`, from 0x4000 on. -/
def storeTime (register : BitVec 8 → BitVec 8) : Access Unit := do
  write8 0x4000 0x32
  write8 0x4001 0x30
  storeDigits 0x4002 (register 0x09)
  write8 0x4004 0x2F
  storeDigits 0x4005 (register 0x08)
  write8 0x4007 0x2F
  storeDigits 0x4008 (register 0x07)
  write8 0x400A 0x20
  storeDigits 0x400B (register 0x04)
  write8 0x400D 0x3A
  storeDigits 0x400E (register 0x02)
  write8 0x4010 0x3A
  storeDigits 0x4011 (register 0x00)

/-- The registers with which `_RTC` calls `_VIDEO`.  It sets the low half of
`eax` only. -/
def clockRegs : VideoRegs where
  eax := 0x00000007
  ecx := 19
  esi := 0x4000
  edi := 0x183C

/-- `_rtc_exit` -/
def rtcExit (s : Screen) : Screen :=
  { s with out := s.out ++ [(0x00A0, 0x20), (0x0020, 0x20)] }

/-- `_RTC` in `16T32.asm`. -/
def rtc (c : Cmos) (s : Screen) : Option Screen :=
  if c.flags &&& 0x10 = 0 then some (rtcExit s)
  else do
    readTime c.status
    let s := s.exec (storeTime c.register)
    let edi := s.memory.load32 0x2008
    let s := video clockRegs s
    return rtcExit (s.exec (write32 0x2008 edi))

/-! ## The time it shows -/

/-- Both digits of a register are decimal. -/
def IsBcd (value : BitVec 8) : Prop :=
  value.toNat / 16 < 10 ∧ value.toNat % 16 < 10

/-- The number that a register stands for. -/
def fromBcd (value : BitVec 8) : ℕ := value.toNat / 16 * 10 + value.toNat % 16

/-- A number below 100 with two digits. -/
def twoDigits (n : ℕ) : List (BitVec 8) :=
  [Numeral.digit (n / 10), Numeral.digit (n % 10)]

/-- The registers of the year, the month, the day, the hour, the minute and the
second. -/
def timeRegisters : List (BitVec 8) := [0x09, 0x08, 0x07, 0x04, 0x02, 0x00]

/-- The text `20YY/MM/DD hh:mm:ss`. -/
def timeText (register : BitVec 8 → BitVec 8) : List (BitVec 8) :=
  let number := fun index => twoDigits (fromBcd (register index))
  [0x32, 0x30] ++ number 0x09 ++ [0x2F] ++ number 0x08 ++ [0x2F] ++
    number 0x07 ++ [0x20] ++ number 0x04 ++ [0x3A] ++ number 0x02 ++ [0x3A] ++
    number 0x00

theorem length_twoDigits (n : ℕ) : (twoDigits n).length = 2 := rfl

theorem length_timeText (register : BitVec 8 → BitVec 8) :
    (timeText register).length = 19 := rfl

section Time

variable {m : Memory} {value : BitVec 8} {register : BitVec 8 → BitVec 8}
  {address : BitVec 32}

theorem exec_storeDigits (hvalue : IsBcd value) :
    (storeDigits address value).exec m =
      m.write address (twoDigits (fromBcd value)) := by
  obtain ⟨hhigh, hlow⟩ := hvalue
  have hfirst : value >>> 4 <<< 4 >>> 4 + 0x30 =
      Numeral.digit (fromBcd value / 10) := by
    rw [Numeral.digit, fromBcd]
    bv_omega
  have hsecond : value - value >>> 4 <<< 4 + 0x30 =
      Numeral.digit (fromBcd value % 10) := by
    rw [Numeral.digit, fromBcd]
    bv_omega
  change (m.write address [_]).write (address + 1) [_] = _
  rw [hfirst, hsecond]
  exact write_write_append (Nat.le_of_ble_eq_true rfl)

/-- A write right behind another one. -/
theorem write_write_next {bs cs : List (BitVec 8)} {next : BitVec 32}
    (hnext : next = address + BitVec.ofNat 32 bs.length)
    (hfit : bs.length + cs.length ≤ 2 ^ 32) :
    (m.write address bs).write next cs = m.write address (bs ++ cs) := by
  rw [hnext, write_write_append hfit]

theorem exec_storeTime
    (hbcd : ∀ index ∈ timeRegisters, IsBcd (register index)) :
    (storeTime register).exec m = m.write 0x4000 (timeText register) := by
  simp only [timeRegisters, List.forall_mem_cons] at hbcd
  obtain ⟨hyear, hmonth, hday, hhour, hminute, hsecond, -⟩ := hbcd
  rw [storeTime]
  simp only [exec_bind, exec_write8, exec_storeDigits hyear,
    exec_storeDigits hmonth, exec_storeDigits hday, exec_storeDigits hhour,
    exec_storeDigits hminute, exec_storeDigits hsecond]
  -- every store begins where the one before it stops
  iterate 12
    rw [write_write_next (by simp [length_twoDigits])
      (by simp [length_twoDigits])]
  rfl

end Time

/-! ## One interrupt -/

/-- What an interrupt of the clock does to the screen. -/
def Cmos.follow (c : Cmos) (t : Picture) : Picture :=
  if c.flags &&& 0x10 = 0 then t
  else t.overlay 1980 (timeText c.register) 0x07

/-- The clock keeps decimal digits when it has something to tell. -/
def Cmos.Decimal (c : Cmos) : Prop :=
  c.flags &&& 0x10 ≠ 0 → ∀ index ∈ timeRegisters, IsBcd (c.register index)

/-- Where `_RTC` stores the text. -/
abbrev InTime : BitVec 32 → Prop := Between 0x4000 0x4013

section Interrupt

variable {s s' : Screen} {t : Picture} {c : Cmos}

/-- The handler never comes back exactly if there is something to read and no
read finds the update finished. -/
theorem rtc_eq_none_iff : rtc c s = none ↔
    c.flags &&& 0x10 ≠ 0 ∧ ∀ status ∈ c.status, status &&& 0x80 ≠ 0 := by
  have hread : ∀ reads, readTime reads = none ↔
      ∀ status ∈ reads, status &&& 0x80 ≠ 0 := by
    intro reads
    induction reads with
    | nil => exact ⟨fun _ _ hin => absurd hin List.not_mem_nil, fun _ => rfl⟩
    | cons status reads ih =>
        rw [readTime, List.forall_mem_cons]
        by_cases hready : status &&& 0x80 = 0
        · rw [if_pos hready]
          exact iff_of_false (Option.some_ne_none ()) fun h => h.1 hready
        · rw [if_neg hready, ih, and_iff_right hready]
  rw [← hread, rtc]
  by_cases hflags : c.flags &&& 0x10 = 0
  · rw [if_pos hflags]
    exact iff_of_false (Option.some_ne_none _) fun h => h.1 hflags
  · rw [if_neg hflags, and_iff_right hflags]
    cases readTime c.status with
    | none => exact iff_of_true rfl rfl
    | some u =>
        exact iff_of_false (Option.some_ne_none _) (Option.some_ne_none u)

theorem Shows.rtcExit (h : Shows s t) : Shows (rtcExit s) t :=
  h.congr (fun _ _ => rfl) (fun _ _ => rfl) rfl

theorem Shows.writePointer (h : Shows s t) {n : ℕ} (hn : n ≤ 2000) :
    Shows (s.exec (write32 0x2008 (cellAt n))) (t.goto n) where
  cells := h.cells.writePointer 0x2008 (by decide)
  pointer := Memory.load32_write_bytes32 _ _ _
  next_le := hn
  cursor := h.cursor

/-- The stores of the text leave the screen and the pointer alone. -/
theorem storeTime_outside (hbcd : ∀ index ∈ timeRegisters,
      IsBcd (c.register index)) {x : BitVec 32} (hx : ¬InTime x) :
    (s.exec (storeTime c.register)).memory x = s.memory x := by
  change (storeTime c.register).exec s.memory x = _
  rw [exec_storeTime hbcd]
  refine write_apply_of_not_between s.memory ?_ ?_
  · rw [length_timeText]
    decide
  · rw [length_timeText]
    exact hx

theorem loadBytes_storeTime (hbcd : ∀ index ∈ timeRegisters,
      IsBcd (c.register index)) :
    (s.exec (storeTime c.register)).memory.loadBytes 0x4000 19 =
      timeText c.register := by
  change ((storeTime c.register).exec s.memory).loadBytes 0x4000 19 = _
  rw [exec_storeTime hbcd, ← length_timeText c.register]
  exact Memory.loadBytes_write s.memory 0x4000
    (by rw [length_timeText]; decide)

/-- The time is shown in the last row, and the program goes on where it
was. -/
theorem Shows.rtc (h : Shows s t) (hdecimal : c.Decimal)
    (hrtc : rtc c s = some s') :
    Shows s' (c.follow t) ∧ ∀ x, ¬InBuffer x → ¬InPointers x → ¬InTime x →
      s'.memory x = s.memory x := by
  rw [Asm16T32.rtc] at hrtc
  rw [Cmos.follow]
  by_cases hflags : c.flags &&& 0x10 = 0
  · rw [if_pos hflags] at hrtc ⊢
    obtain rfl := Option.some.inj hrtc
    exact ⟨h.rtcExit, fun _ _ _ _ => rfl⟩
  · rw [if_neg hflags] at hrtc ⊢
    have hbcd := hdecimal hflags
    have hstored : Shows (s.exec (storeTime c.register)) t :=
      h.congr
        (fun x hx => storeTime_outside hbcd
          (hx.not_of_apart (Or.inr (by decide))))
        (fun x hx => storeTime_outside hbcd
          (hx.not_of_apart (Or.inl (by decide))))
        rfl
    have hstays : Stays clockRegs t := by
      change startOf 0x183C + loopCount 19 ≤ 2000 ∧
        ∀ i < loopCount 19, ¬InBuffer (0x4000 + BitVec.ofNat 32 i) ∧
          ¬InPointers (0x4000 + BitVec.ofNat 32 i)
      decide
    have hserved := hstored.video hstays
    have hfollow : follow clockRegs (s.exec (storeTime c.register)).memory t =
        (t.goto 1980).write (timeText c.register) 0x07 := by
      rw [← loadBytes_storeTime (s := s) hbcd]
      rfl
    rw [hfollow] at hserved
    cases hread : readTime c.status with
    | none => rw [hread] at hrtc; cases hrtc
    | some u =>
        rw [hread] at hrtc
        obtain rfl := Option.some.inj hrtc
        have hnext : (s.exec (storeTime c.register)).memory.load32 0x2008 =
            cellAt t.next := hstored.pointer
        rw [hnext]
        refine ⟨(hserved.shows.writePointer h.next_le).rtcExit,
          fun x hbuffer hpointers htime => ?_⟩
        change (Asm16T32.video clockRegs _).memory.write 0x2008 _ x = _
        rw [write_pointer_apply _ (by decide) hpointers,
          hserved.outside x hbuffer hpointers, storeTime_outside hbcd htime]

end Interrupt

/-! ## Runs -/

/-- A call of `_VIDEO`, an interrupt of the clock, or something else that the
program does. -/
inductive Event where
  | call (regs : VideoRegs)
  | clock (c : Cmos)
  | other

/-- What an event may do to the machine.  The rest of the program leaves the
screen and the pointers to the service. -/
def Event.Step : Event → Screen → Screen → Prop
  | .call regs, s, s' => s' = video regs s
  | .clock c, s, s' => rtc c s = some s'
  | .other, s, s' =>
      (∀ x, InBuffer x → s'.memory x = s.memory x) ∧
        (∀ x, InPointers x → s'.memory x = s.memory x) ∧ s'.crtc = s.crtc

/-- What an event needs. -/
def Event.Stays : Event → Picture → Prop
  | .call regs, t => Asm16T32.Stays regs t
  | .clock c, _ => c.Decimal
  | .other, _ => True

/-- What an event does to the screen. -/
def Event.follow : Event → Memory → Picture → Picture
  | .call regs, m, t => Asm16T32.follow regs m t
  | .clock c, _, t => c.follow t
  | .other, _, t => t

/-- The machine goes from `s` to `s'` and the screen from `t` to `t'`. -/
inductive Runs : List Event → Screen → Picture → Screen → Picture → Prop
  | nil {s t} : Runs [] s t s t
  | cons {e events s t s₁ s' t'} (hstep : e.Step s s₁) (hstays : e.Stays t)
      (hrest : Runs events s₁ (e.follow s.memory t) s' t') :
      Runs (e :: events) s t s' t'

section Runs

variable {e : Event} {events : List Event} {s s' : Screen} {t t' : Picture}

/-- One event. -/
theorem Shows.step (h : Shows s t) (hstep : e.Step s s') (hstays : e.Stays t) :
    Shows s' (e.follow s.memory t) ∧ (e ≠ .other →
      ∀ x, ¬InBuffer x → ¬InPointers x → ¬InTime x →
        s'.memory x = s.memory x) := by
  cases e with
  | call regs =>
      have hserved := h.video hstays
      subst hstep
      exact ⟨hserved.shows, fun _ x hx hpointers _ =>
        hserved.outside x hx hpointers⟩
  | clock c =>
      obtain ⟨hshows, houtside⟩ := h.rtc hstays hstep
      exact ⟨hshows, fun _ => houtside⟩
  | other =>
      obtain ⟨hbuffer, hpointers, hcrtc⟩ := hstep
      exact ⟨h.congr hbuffer hpointers hcrtc, fun hne => absurd rfl hne⟩

/-- In any order of calls and of interrupts of the clock, the text buffer holds
the cells of the screen, the pointer is at the place of its next character and
the hardware cursor is where it was last asked to be; and apart from the stack,
which is not followed, the service and the clock store nothing but the buffer,
the pointers and the text of the time. -/
theorem runs_shows (hruns : Runs events s t s' t') (h : Shows s t) :
    Shows s' t' ∧ (Event.other ∉ events →
      ∀ x, ¬InBuffer x → ¬InPointers x → ¬InTime x →
        s'.memory x = s.memory x) := by
  induction hruns with
  | nil => exact ⟨h, fun _ _ _ _ _ => rfl⟩
  | cons hstep hstays hrest ih =>
      obtain ⟨hnext, houtside⟩ := h.step hstep hstays
      obtain ⟨hlast, hrestOutside⟩ := ih hnext
      refine ⟨hlast, fun hnone x hx hpointers htime => ?_⟩
      rw [List.mem_cons, not_or] at hnone
      rw [hrestOutside hnone.2 x hx hpointers htime,
        houtside (Ne.symm hnone.1) x hx hpointers htime]

end Runs

/-- An empty screen, the pointer at its first cell. -/
def clearedScreen : Screen where
  memory := Memory.write (fun _ => 0x20) 0x2008 (bytes32 (cellAt 0))
  crtc := ⟨0, 0, 0⟩
  out := []

def clearedPicture : Picture where
  char _ := 0x20
  color _ := 0x20
  next := 0
  cursor := 0

theorem shows_cleared : Shows clearedScreen clearedPicture where
  cells := CellsShow.writePointer ⟨fun _ _ => rfl, fun _ _ => rfl⟩ 0x2008
    (by decide)
  pointer := Memory.load32_write_bytes32 _ _ _
  next_le := by decide
  cursor := rfl

/-- Ten seconds past noon, read when the second update has finished. -/
def noon : Cmos where
  flags := 0x10
  status := [0xA6, 0x26]
  register index :=
    if index = 0x09 then 0x26
    else if index = 0x08 then 0x12
    else if index = 0x07 then 0x31
    else if index = 0x04 then 0x12
    else if index = 0x02 then 0x00
    else 0x10

theorem noon_decimal : noon.Decimal := by
  intro _ index hindex
  simp only [timeRegisters, List.mem_cons, List.not_mem_nil, or_false]
    at hindex
  rcases hindex with rfl | rfl | rfl | rfl | rfl | rfl
  all_goals exact ⟨by decide, by decide⟩

/-- A call of `_VIDEO` from outside `_RTC`. -/
def callRegs (ah al cl : BitVec 8) : VideoRegs where
  eax := ah.setWidth 32 <<< 8 ||| al.setWidth 32
  ecx := cl.setWidth 32
  esi := 0
  edi := 0

/-- The time comes in between a character and the cursor behind it. -/
theorem runs_shows_noon :
    ∃ s' t', Runs [.call (callRegs 0x01 0x07 0x41), .clock noon,
        .call (callRegs 0x80 0x07 0x00)] clearedScreen clearedPicture s' t' ∧
      Shows s' t' ∧ s'.crtc.cursor = 1 := by
  obtain ⟨s₁, hs₁⟩ : ∃ s₁, rtc noon
      (video (callRegs 0x01 0x07 0x41) clearedScreen) = some s₁ := ⟨_, rfl⟩
  have hruns : Runs [.call (callRegs 0x01 0x07 0x41), .clock noon,
      .call (callRegs 0x80 0x07 0x00)] clearedScreen clearedPicture
      (video (callRegs 0x80 0x07 0x00) s₁)
      (noon.follow (clearedPicture.put 0x41 0x07)).showCursor :=
    .cons rfl (show 0 < 2000 by decide)
      (.cons hs₁ noon_decimal (.cons rfl trivial .nil))
  have hshows := (runs_shows hruns shows_cleared).1
  exact ⟨_, _, hruns, hshows, hshows.cursor⟩

end OpenFerain.Asm16T32
