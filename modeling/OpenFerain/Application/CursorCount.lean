import OpenFerain.Application.LineEditor

/-!
# The command shell: the cursor counters

`have_key` starts a new screen line when its 80th column is filled, and
`back_space` goes back to the line before when the column it comes to is 0.
So the column 0 of the second line is entered from one side and skipped from
the other: a Backspace in column 1 leaves column 79 with the count of column
0, and a Backspace in column 0 takes 1 from an unsigned 0.
-/

namespace OpenFerain

/-! ## The counters -/

/-- `line_num`, `line_char_num` and `cmd_char_num`. -/
structure Counters where
  lineNum : BitVec 32
  lineCharNum : BitVec 32
  cmdCharNum : BitVec 32

def Shell.counters (s : Shell) : Counters :=
  ⟨s.lineNum, s.lineCharNum, s.cmdCharNum⟩

/-- The line number and the column make up the count, with no wrap-around. -/
structure Counters.Agree (k : Counters) : Prop where
  total : k.lineNum.toNat * 80 + k.lineCharNum.toNat = k.cmdCharNum.toNat
  column : k.lineCharNum.toNat < 80
  prompt : 17 ≤ k.cmdCharNum.toNat

/-- All through a sequence of keys the counters agree, and a character that is
typed and taken back leaves them as they were.  Nothing is assumed of a store
past the end of the buffer. -/
def CountersKept (keys : List (BitVec 8)) : Prop :=
  ∀ (stray : ℕ → BitVec 8 → Shell → Shell) (behind : ℕ → BitVec 8) before,
    before <+: keys →
      (runKeys stray behind before).counters.Agree ∧
        ∀ earlier key, key ≠ 0x1C → key ≠ 0x0E →
          before = earlier ++ [key, 0x0E] →
            (runKeys stray behind before).counters =
              (runKeys stray behind earlier).counters

/-- No line has more characters than the buffer can take, and Backspace is
never pressed in the first two columns of the second line of the screen. -/
structure BackspacesInLine (keys : List (BitVec 8)) : Prop where
  short : ∀ before, before <+: keys → (typedLine before).length ≤ 126
  column : ∀ before, before ++ [0x0E] <+: keys →
    (typedLine before).length ≠ 63 ∧ (typedLine before).length ≠ 64

/-- The counters behind the prompt and `n` characters. -/
def countersAt (n : ℕ) : Counters where
  lineNum := BitVec.ofNat 32 ((17 + n) / 80)
  lineCharNum := BitVec.ofNat 32 ((17 + n) % 80)
  cmdCharNum := BitVec.ofNat 32 (17 + n)

variable {stray : ℕ → BitVec 8 → Shell → Shell} {behind : ℕ → BitVec 8}
  {keys line : List (BitVec 8)} {key : BitVec 8} {s : Shell} {n : ℕ}

theorem countersAt_agree (hn : n ≤ 126) : (countersAt n).Agree := by
  constructor
  · simp only [countersAt]
    bv_omega
  · simp only [countersAt]
    bv_omega
  · simp only [countersAt]
    bv_omega

/-- Counters that agree are those of their count. -/
theorem Counters.Agree.eq_countersAt {k : Counters} (h : k.Agree)
    (hcount : k.cmdCharNum = BitVec.ofNat 32 (17 + n)) (hn : n ≤ 126) :
    k = countersAt n := by
  obtain ⟨lineNum, lineCharNum, cmdCharNum⟩ := k
  obtain ⟨htotal, hcolumn, -⟩ := h
  simp only at htotal hcolumn hcount
  subst hcount
  rw [countersAt, Counters.mk.injEq]
  refine ⟨?_, ?_, rfl⟩
  · bv_omega
  · bv_omega

/-! ## One key -/

theorem counters_countKey (key : BitVec 8) (s : Shell) :
    (countKey key s).counters =
      if s.lineCharNum + 1 ≥ 80 then
        ⟨s.lineNum + 1, 0, s.cmdCharNum + 1⟩
      else ⟨s.lineNum, s.lineCharNum + 1, s.cmdCharNum + 1⟩ := by
  rw [countKey]
  split
  · rfl
  · rfl

theorem counters_uncountKey (s : Shell) :
    (uncountKey s).counters =
      if s.lineCharNum - 1 ≤ 0 then
        ⟨s.lineNum - 1, 79, s.cmdCharNum - 1⟩
      else ⟨s.lineNum, s.lineCharNum - 1, s.cmdCharNum - 1⟩ := by
  rw [uncountKey]
  split
  · rfl
  · rfl

theorem counters_storeCommand {i : BitVec 32} (v : BitVec 8)
    (hi : i.toNat < 127) :
    (storeCommand stray i v s).counters = s.counters := by
  rw [storeCommand_of_lt stray hi]
  rfl

/-- Both exits of `enter` set the counters to those of an empty line. -/
theorem counters_enter (s : Shell) : (enter s).counters = countersAt 0 := by
  rw [enter]
  simp only
  split
  · rfl
  · rfl

/-- A character moves the counters on by one. -/
theorem counters_haveKey_char (henter : key ≠ 0x1C) (hback : key ≠ 0x0E)
    (h : s.counters = countersAt n) (hn : n < 126) :
    (haveKey stray key s).counters = countersAt (n + 1) := by
  simp only [Shell.counters, countersAt, Counters.mk.injEq] at h
  obtain ⟨hline, hcolumn, hcount⟩ := h
  obtain ⟨-, -, hnext⟩ := countKey_fields key s
  have hindex : ((countKey key s).cmdCharNum - 17).toNat < 127 := by
    rw [hnext, hcount]
    bv_omega
  rw [haveKey, if_neg henter, if_neg hback]
  simp only
  rw [counters_storeCommand key hindex, counters_countKey, hline, hcolumn,
    hcount, countersAt]
  split
  · next hfull =>
      rw [Counters.mk.injEq]
      refine ⟨?_, ?_, ?_⟩
      · bv_omega
      · bv_omega
      · bv_omega
  · next hroom =>
      rw [Counters.mk.injEq]
      refine ⟨?_, ?_, ?_⟩
      · bv_omega
      · bv_omega
      · bv_omega

/-- Backspace on a line that is not empty, in the counters. -/
theorem counters_backSpace_succ (h : s.counters = countersAt (n + 1))
    (hn : n < 126) :
    (backSpace stray s).counters =
      if (18 + n) % 80 = 1 then
        ⟨BitVec.ofNat 32 ((18 + n) / 80) - 1, 79, BitVec.ofNat 32 (17 + n)⟩
      else ⟨BitVec.ofNat 32 ((18 + n) / 80),
        BitVec.ofNat 32 ((18 + n) % 80) - 1, BitVec.ofNat 32 (17 + n)⟩ := by
  simp only [Shell.counters, countersAt, Counters.mk.injEq] at h
  obtain ⟨hline, hcolumn, hcount⟩ := h
  have hpos : ¬s.cmdCharNum ≤ 17 := by
    rw [hcount]
    bv_omega
  have hindex : (s.cmdCharNum - 17).toNat < 127 := by
    rw [hcount]
    bv_omega
  have hback : BitVec.ofNat 32 (18 + n) - 1 = BitVec.ofNat 32 (17 + n) := by
    bv_omega
  have hsum : 17 + (n + 1) = 18 + n := by omega
  rw [backSpace, if_neg hpos]
  simp only [storeCommand_of_lt stray hindex]
  rw [counters_uncountKey]
  simp only [hline, hcolumn, hcount, hsum, hback]
  refine if_congr ?_ rfl rfl
  constructor
  · intro hzero
    bv_omega
  · intro hone
    rw [hone]
    decide

/-- Apart from the columns 0 and 1, Backspace moves the counters back by
one. -/
theorem counters_backSpace (h : s.counters = countersAt (n + 1))
    (hn : n < 126) (hcolumn : n + 1 ≠ 63 ∧ n + 1 ≠ 64) :
    (backSpace stray s).counters = countersAt n := by
  rw [counters_backSpace_succ h hn, if_neg (by omega), countersAt,
    Counters.mk.injEq]
  refine ⟨?_, ?_, rfl⟩
  · bv_omega
  · bv_omega

/-! ## The counters over a run -/

theorem BackspacesInLine.of_concat (h : BackspacesInLine (keys ++ [key])) :
    BackspacesInLine keys where
  short before hbefore :=
    h.short before (hbefore.trans (List.prefix_append _ _))
  column before hbefore :=
    h.column before (hbefore.trans (List.prefix_append _ _))

theorem BackspacesInLine.restrict {before : List (BitVec 8)}
    (h : BackspacesInLine keys) (hbefore : before <+: keys) :
    BackspacesInLine before where
  short _ hle := h.short _ (hle.trans hbefore)
  column _ hle := h.column _ (hle.trans hbefore)

/-- One key moves the counters as it changes the line. -/
theorem counters_haveKey (h : s.counters = countersAt line.length)
    (hbefore : line.length ≤ 126) (hafter : (typeKey line key).length ≤ 126)
    (hcolumn : key = 0x0E → line.length ≠ 63 ∧ line.length ≠ 64) :
    (haveKey stray key s).counters = countersAt (typeKey line key).length := by
  rw [typeKey] at hafter ⊢
  split_ifs at hafter ⊢ with henter hback
  · rw [haveKey, if_pos henter]
    exact counters_enter s
  · rw [haveKey, if_neg henter, if_pos hback, List.length_dropLast]
    rcases hline : line.length with _ | n
    · rw [hline] at h
      have hcount : s.cmdCharNum = BitVec.ofNat 32 17 :=
        congrArg Counters.cmdCharNum h
      rw [backSpace_empty hcount, h]
    · rw [hline] at h
      have hne := hcolumn hback
      exact counters_backSpace h (by omega) (by omega)
  · rw [List.length_append, List.length_singleton] at hafter ⊢
    exact counters_haveKey_char henter hback h (by omega)

/-- The run lemma: the counters are those of the line. -/
theorem BackspacesInLine.counters (stray : ℕ → BitVec 8 → Shell → Shell)
    (behind : ℕ → BitVec 8) (h : BackspacesInLine keys) :
    (runKeys stray behind keys).counters =
      countersAt (typedLine keys).length := by
  induction keys using List.reverseRecOn with
  | nil => rfl
  | append_singleton keys key ih =>
      have hafter := h.short _ (List.prefix_refl _)
      have hbefore := h.of_concat.short _ (List.prefix_refl _)
      rw [typedLine_concat] at hafter ⊢
      rw [runKeys_concat]
      refine counters_haveKey (ih h.of_concat) hbefore hafter ?_
      rintro rfl
      exact h.column keys (List.prefix_refl _)

/-- Typing a character and taking it back leaves the line as it was. -/
theorem typedLine_type_back {earlier : List (BitVec 8)} (henter : key ≠ 0x1C)
    (hback : key ≠ 0x0E) :
    typedLine (earlier ++ [key, 0x0E]) = typedLine earlier := by
  have hsplit : earlier ++ [key, 0x0E] = earlier ++ [key] ++ [0x0E] := by
    rw [List.append_assoc, List.singleton_append]
  have hne : (0x0E : BitVec 8) ≠ 0x1C := by decide
  rw [hsplit, typedLine_concat, typedLine_concat]
  simp only [typeKey, if_neg henter, if_neg hback, if_neg hne, if_pos,
    List.dropLast_concat]

theorem BackspacesInLine.countersKept (h : BackspacesInLine keys) :
    CountersKept keys := by
  intro stray behind before hbefore
  have hin := h.restrict hbefore
  refine ⟨?_, ?_⟩
  · rw [hin.counters]
    exact countersAt_agree (hin.short _ (List.prefix_refl _))
  · intro earlier key henter hback heq
    have hearlier : earlier <+: before := heq ▸ List.prefix_append _ _
    rw [hin.counters, (hin.restrict hearlier).counters, heq,
      typedLine_type_back henter hback]

/-! ## Where the counters go wrong -/

/-- The count of characters follows the line as long as no line overruns the
buffer. -/
theorem cmdCharNum_runKeys (stray : ℕ → BitVec 8 → Shell → Shell)
    (behind : ℕ → BitVec 8)
    (h : ∀ before, before <+: keys → (typedLine before).length ≤ 126) :
    (runKeys stray behind keys).cmdCharNum =
      BitVec.ofNat 32 (17 + (typedLine keys).length) := by
  induction keys using List.reverseRecOn with
  | nil => rfl
  | append_singleton keys key ih =>
      have hcount := ih fun before hbefore =>
        h before (hbefore.trans (List.prefix_append _ _))
      have hbefore := h keys (List.prefix_append _ _)
      have hafter := h _ (List.prefix_refl _)
      rw [typedLine_concat] at hafter ⊢
      rw [runKeys_concat]
      rw [typeKey] at hafter ⊢
      split_ifs at hafter ⊢ with henter hback
      · rw [haveKey, if_pos henter]
        exact (enter_fields _).1
      · rw [haveKey, if_neg henter, if_pos hback, List.length_dropLast]
        rcases hline : (typedLine keys).length with _ | n
        · rw [hline] at hcount
          rw [backSpace_empty hcount]
          exact hcount
        · rw [hline] at hcount
          exact (backSpace_succ stray hcount (by omega)).charNum
      · rw [List.length_append, List.length_singleton] at hafter ⊢
        exact (haveKey_char stray henter hback hcount (by omega)).charNum

/-- A run whose counters agree has the counters of its line. -/
theorem CountersKept.counters (hkept : CountersKept keys)
    (h : ∀ before, before <+: keys → (typedLine before).length ≤ 126)
    (stray : ℕ → BitVec 8 → Shell → Shell) (behind : ℕ → BitVec 8) :
    (runKeys stray behind keys).counters =
      countersAt (typedLine keys).length :=
  (hkept stray behind keys (List.prefix_refl _)).1.eq_countersAt
    (cmdCharNum_runKeys stray behind h) (h keys (List.prefix_refl _))

theorem CountersKept.restrict {before : List (BitVec 8)}
    (h : CountersKept keys) (hbefore : before <+: keys) :
    CountersKept before :=
  fun stray behind _ hle => h stray behind _ (hle.trans hbefore)

/-- A store past the end of the buffer may change the counters. -/
theorem not_agree_of_overrun (behind : ℕ → BitVec 8) (henter : key ≠ 0x1C)
    (hback : key ≠ 0x0E)
    (hshort : ∀ before, before <+: keys → (typedLine before).length ≤ 126)
    (hfull : (typedLine keys).length = 126) :
    ¬(runKeys (fun _ _ s => { s with lineCharNum := 80 }) behind
      (keys ++ [key])).counters.Agree := by
  have hcount := cmdCharNum_runKeys
    (fun _ _ s => { s with lineCharNum := 80 }) behind hshort
  rw [hfull] at hcount
  rw [runKeys_concat]
  generalize runKeys _ behind keys = s at hcount ⊢
  obtain ⟨-, -, hnext⟩ := countKey_fields key s
  have hindex : ¬((countKey key s).cmdCharNum - 17).toNat < 127 := by
    rw [hnext, hcount]
    decide
  rw [haveKey, if_neg henter, if_neg hback, storeCommand]
  simp only [if_neg hindex]
  intro h
  exact absurd h.column (Nat.lt_irrefl 80)

/-- If the counters agree whatever is behind the buffer, no line overruns
it. -/
theorem CountersKept.short (hkept : CountersKept keys) :
    ∀ before, before <+: keys → (typedLine before).length ≤ 126 := by
  induction keys using List.reverseRecOn with
  | nil =>
      intro before hbefore
      rw [List.prefix_nil.mp hbefore]
      exact Nat.zero_le _
  | append_singleton keys key ih =>
      have hshort := ih (hkept.restrict (List.prefix_append _ _))
      intro before hbefore
      rcases List.prefix_concat_iff.mp hbefore with rfl | hold
      · have hlen := hshort keys (List.prefix_refl _)
        rw [typedLine_concat, typeKey]
        split_ifs with henter hback
        · exact Nat.zero_le _
        · rw [List.length_dropLast]
          omega
        · rw [List.length_append, List.length_singleton]
          by_contra hlong
          exact not_agree_of_overrun (fun _ => 0) henter hback hshort
            (by omega) (hkept _ _ _ (List.prefix_refl _)).1
      · exact hshort before hold

/-- After a Backspace in column 0 or 1 of the second line the counters do not
agree. -/
theorem not_agree_backSpace (h : s.counters = countersAt n)
    (hn : n = 63 ∨ n = 64) : ¬(backSpace stray s).counters.Agree := by
  rcases hn with rfl | rfl
  · rw [counters_backSpace_succ (n := 62) h (by decide), if_neg (by decide)]
    intro hagree
    exact absurd hagree.column (by decide)
  · rw [counters_backSpace_succ (n := 63) h (by decide), if_pos (by decide)]
    intro hagree
    exact absurd hagree.total (by decide)

theorem CountersKept.backspacesInLine (hkept : CountersKept keys) :
    BackspacesInLine keys where
  short := hkept.short
  column := by
    intro before hbefore
    have hpre : before <+: keys := (List.prefix_append _ _).trans hbefore
    have hcounters := (hkept.restrict hpre).counters
      (hkept.restrict hpre).short (fun _ _ s => s) fun _ => 0
    have hagree := (hkept (fun _ _ s => s) (fun _ => 0) _ hbefore).1
    have hne : (0x0E : BitVec 8) ≠ 0x1C := by decide
    rw [runKeys_concat, haveKey, if_neg hne, if_pos rfl] at hagree
    rw [← not_or]
    exact fun hn => not_agree_backSpace hcounters hn hagree

/-- The counters agree all through a sequence of keys, and editing restores
them, exactly if no line has more than 126 characters and Backspace is never
pressed behind 63 or 64 characters. -/
theorem countersKept_iff (keys : List (BitVec 8)) :
    CountersKept keys ↔
      (∀ before, before <+: keys → (typedLine before).length ≤ 126) ∧
        ∀ before, before ++ [0x0E] <+: keys →
          (typedLine before).length ≠ 63 ∧ (typedLine before).length ≠ 64 := by
  constructor
  · intro h
    exact ⟨h.backspacesInLine.short, h.backspacesInLine.column⟩
  · rintro ⟨hshort, hcolumn⟩
    exact BackspacesInLine.countersKept ⟨hshort, hcolumn⟩

/-- After 64 letters the cursor is in column 1 of the second line, and
Backspace makes it column 79 of the first. -/
theorem not_countersKept_letters :
    ¬∀ keys : List (BitVec 8), CountersKept keys := by
  intro h
  have hcolumn := (h (List.replicate 64 0x61 ++ [0x0E])).backspacesInLine.column
    (List.replicate 64 0x61) (List.prefix_refl _)
  rw [typedLine_replicate, List.length_replicate] at hcolumn
  exact hcolumn.2 rfl

end OpenFerain
