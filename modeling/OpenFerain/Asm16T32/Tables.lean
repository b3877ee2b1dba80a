import OpenFerain.Ia32.Record
import OpenFerain.Ia32.Segment
import OpenFerain.Ia32.Words

/-!
# The tables of `16T32.asm`

`_gdt_init` and `_idt_init` fill the tables in real mode.  The interrupt table
is filled three times over: default gates first, then the gates of the two
interrupt controllers, then the handlers one by one; the gate that counts is
the one stored last.
-/

namespace OpenFerain.Asm16T32

open Ia32 Access

/-! ## The source functions -/

/-- Stores at `[bx]`, `[bx+2]` and so on, with 16-bit addresses. -/
def storeAt (bx : BitVec 16) (fs : List Field) (m : Memory) : Memory :=
  fs.foldl (fun m f =>
    m.write ((bx + BitVec.ofNat 16 f.offset).setWidth 32) f.bytes) m

/-- `_gdt_init` in `16T32.asm`. -/
def gdtInit (m : Memory) : Memory :=
  storeAt 0x6000
    [field32 0x00 0x00000000, field32 0x04 0x00000000,
      field32 0x08 0x0000FFFF, field32 0x0C 0x00CF9A00,
      field32 0x10 0x0000FFFF, field32 0x14 0x00CF9200,
      field32 0x18 0x0000FFFF, field32 0x1C 0x3F4092FF,
      field32 0x20 0x80000F9F, field32 0x24 0x0040920B,
      field32 0x28 0x0000FFFF, field32 0x2C 0x3F40F2FE,
      field32 0x30 0x1C0003FF, field32 0x34 0x00008200] m

/-- The addresses of the handlers. -/
structure Handlers where
  defaultInt : BitVec 16
  mIrqInt : BitVec 16
  sIrqInt : BitVec 16
  nm : BitVec 16
  ss : BitVec 16
  gp : BitVec 16
  keyboard : BitVec 16
  rtc : BitVec 16
  video : BitVec 16
  server : BitVec 16

/-- The three stores of a gate. -/
def gateFields (offset selector : BitVec 16) (attributes : BitVec 32) :
    List Field :=
  [field16 0 offset, field16 2 selector, field32 4 attributes]

/-- `_set_idt` in `16T32.asm`, with `cx` turns of the loop. -/
def setIdt (ax : BitVec 16) : ℕ → BitVec 16 → Memory → Memory
  | 0, _, m => m
  | cx + 1, di, m =>
      setIdt ax cx (di + 8) (storeAt di (gateFields ax 0x0008 0x00008E00) m)

/-- The stores of `_idt_init` in `16T32.asm`. -/
def idtInit (h : Handlers) (m : Memory) : Memory :=
  let m := setIdt h.defaultInt 128 0x6800 m
  let m := setIdt h.mIrqInt 8 0x6900 m
  let m := setIdt h.sIrqInt 8 0x6940 m
  let m := storeAt 0x6838 (gateFields h.nm 0x0008 0x00008E00) m
  let m := storeAt 0x6860 (gateFields h.ss 0x0008 0x00008E00) m
  let m := storeAt 0x6868 (gateFields h.gp 0x0008 0x00008E00) m
  let m := storeAt 0x6900 (gateFields 0x0000 0x0040 0x0000E500) m
  let m := storeAt 0x6908 (gateFields h.keyboard 0x0008 0x0000EE00) m
  let m := storeAt 0x6940 (gateFields h.rtc 0x0008 0x0000EE00) m
  let m := storeAt 0x6980 (gateFields h.video 0x0008 0x0000EE00) m
  let m := storeAt 0x6988 (gateFields h.server 0x0008 0x0000EE00) m
  m.write 0x2020 (bytes16 0x6A00)

/-! ## Records without gaps -/

/-- Each field begins where the one before it stops, the first one at `k`. -/
def Contiguous : ℕ → List Field → Prop
  | _, [] => True
  | k, f :: fs => f.offset = k ∧ Contiguous f.stop fs

section Records

variable {m : Memory} {a k : ℕ} {fs : List Field} {ws : List (BitVec 32)}

theorem storeAt_eq_write (hfs : Contiguous k fs)
    (hfit : a + k + (fs.flatMap Field.bytes).length < 2 ^ 16) :
    storeAt (BitVec.ofNat 16 a) fs m =
      m.write (BitVec.ofNat 32 (a + k)) (fs.flatMap Field.bytes) := by
  induction fs generalizing k m with
  | nil => rw [List.flatMap_nil, Memory.write_nil]; rfl
  | cons f fs ih =>
      obtain ⟨hoffset, hrest⟩ := hfs
      rw [List.flatMap_cons, List.length_append] at hfit
      have hstop : a + f.stop = a + k + f.bytes.length := by
        rw [Field.stop, hoffset]
        omega
      have haddr : (BitVec.ofNat 16 a + BitVec.ofNat 16 f.offset).setWidth 32 =
          BitVec.ofNat 32 (a + k) := by
        rw [hoffset]
        bv_omega
      rw [storeAt, List.foldl_cons, haddr]
      refine (ih hrest (by omega)).trans ?_
      have hjoin : BitVec.ofNat 32 (a + f.stop) =
          BitVec.ofNat 32 (a + k) + BitVec.ofNat 32 f.bytes.length := by
        rw [hstop, BitVec.ofNat_add]
      rw [hjoin, write_write_append (by omega), List.flatMap_cons]

/-- A word that the first half of a record does not reach. -/
theorem load16_storeAt_field16 {x : BitVec 32} (v : BitVec 16)
    (ha : a + 2 < 2 ^ 16) (hx : x.toNat + 2 ≤ a) :
    (storeAt (BitVec.ofNat 16 a) [field16 0 v] m).load16 x = m.load16 x := by
  have hfield : Contiguous 0 [field16 0 v] := ⟨rfl, trivial⟩
  have haddr := toNat_address (show a + 0 < 2 ^ 32 by omega)
  have hlength : ([field16 0 v].flatMap Field.bytes).length = 2 := rfl
  rw [storeAt_eq_write hfield ha]
  exact load16_write_of_apart (by rw [haddr, hlength]; omega) (by omega)
    (Or.inl (by rw [haddr]; exact hx))

theorem storeAt_append (bx : BitVec 16) (fs gs : List Field) (m : Memory) :
    storeAt bx gs (storeAt bx fs m) = storeAt bx (fs ++ gs) m :=
  (List.foldl_append ..).symm

/-- A record of two halves to a word. -/
theorem bytes32_append (high low : BitVec 16) :
    bytes32 (high ++ low) = bytes16 low ++ bytes16 high := by
  simp only [bytes32, bytes16, List.cons_append, List.nil_append,
    List.cons.injEq, and_true]
  refine ⟨?_, ?_, ?_, ?_⟩ <;>
    · apply BitVec.eq_of_getLsbD_eq
      intro i hi
      simp only [BitVec.getLsbD_extractLsb', BitVec.getLsbD_append]
      grind

theorem bytes32_append4 (b₃ b₂ b₁ b₀ : BitVec 8) :
    bytes32 (b₃ ++ b₂ ++ b₁ ++ b₀) = [b₀, b₁, b₂, b₃] := by
  simp only [bytes32, List.cons.injEq, and_true]
  refine ⟨?_, ?_, ?_, ?_⟩ <;>
    · apply BitVec.eq_of_getLsbD_eq
      intro i hi
      simp only [BitVec.getLsbD_extractLsb', BitVec.getLsbD_append]
      grind

theorem storeAt_eq_writeWords (hfs : Contiguous 0 fs)
    (hws : fs.flatMap Field.bytes = ws.flatMap bytes32)
    (hfit : a + 4 * ws.length < 2 ^ 16) :
    storeAt (BitVec.ofNat 16 a) fs m = m.writeWords a ws := by
  rw [storeAt_eq_write hfs (by rw [hws, length_flatMap_bytes32]; omega), hws]
  rfl

end Records

/-! ## Descriptors in the tables -/

/-- The gate of a vector. -/
def gate (m : Memory) (v : ℕ) : GateDescriptor :=
  gateAt m 0x00006800 (BitVec.ofNat 32 v)

/-- A gate to a handler in the code segment. -/
def interruptGate (offset : BitVec 16) (dpl : BitVec 2) : GateDescriptor where
  selector := 0x0008
  offset := offset.setWidth 32
  present := true
  dpl := dpl
  type := 0xE

/-- A gate to a task. -/
def taskGate (selector : BitVec 16) : GateDescriptor where
  selector := selector
  offset := 0
  present := true
  dpl := 3
  type := 5

section Gates

variable {m m' : Memory} {u v i n : ℕ} {low high : BitVec 32}
  {offset selector ax : BitVec 16}

/-- The two words of an entry. -/
theorem entry_words {table : ℕ} (h : WordsAt m (table + 8 * i) [low, high]) :
    m.load32 (BitVec.ofNat 32 table + BitVec.ofNat 32 i * 8) = low ∧
      m.load32 (BitVec.ofNat 32 table + BitVec.ofNat 32 i * 8 + 4) = high := by
  have hlow : BitVec.ofNat 32 table + BitVec.ofNat 32 i * 8 =
      BitVec.ofNat 32 (table + 8 * i + 4 * 0) := by bv_omega
  have hhigh : BitVec.ofNat 32 table + BitVec.ofNat 32 i * 8 + 4 =
      BitVec.ofNat 32 (table + 8 * i + 4 * 1) := by bv_omega
  rw [hhigh, hlow]
  exact ⟨h 0 (by simp), h 1 (by simp)⟩

theorem descriptorAt_of_words {table : ℕ}
    (h : WordsAt m (table + 8 * i) [low, high]) :
    descriptorAt m (BitVec.ofNat 32 table) (BitVec.ofNat 32 i) =
      decodeSegment low high := by
  obtain ⟨hlow, hhigh⟩ := entry_words h
  exact congrArg₂ decodeSegment hlow hhigh

theorem gate_of_words (h : WordsAt m (0x6800 + 8 * v) [low, high]) :
    gate m v = decodeGate low high := by
  obtain ⟨hlow, hhigh⟩ := entry_words h
  exact congrArg₂ decodeGate hlow hhigh

/-- A gate depends on its eight bytes. -/
theorem gate_congr (hv : v < 128)
    (h : ∀ x, Between (0x6800 + 8 * v) (0x6800 + 8 * v + 8) x → m' x = m x) :
    gate m' v = gate m v := by
  have hwords : WordsAt m (0x6800 + 8 * v)
      [m.load32 (BitVec.ofNat 32 (0x6800 + 8 * v)),
        m.load32 (BitVec.ofNat 32 (0x6800 + 8 * v + 4))] :=
    wordsAt_cons rfl (wordsAt_cons rfl fun j hj =>
      absurd hj (Nat.not_lt_zero j))
  have hwords' := hwords.congr (by simp; omega) h
  rw [gate_of_words hwords', gate_of_words hwords]

theorem decodeGate_append (selector offset : BitVec 16) (high : BitVec 32) :
    decodeGate (selector ++ offset) high = {
      selector := selector
      offset := high.extractLsb' 16 16 ++ offset
      present := high.getLsbD 15
      dpl := high.extractLsb' 13 2
      type := high.extractLsb' 8 4 } := by
  have hselector : (selector ++ offset).extractLsb' 16 16 = selector := by
    apply BitVec.eq_of_getLsbD_eq
    intro i hi
    simp only [BitVec.getLsbD_extractLsb', BitVec.getLsbD_append]
    grind
  have hoffset : (selector ++ offset).extractLsb' 0 16 = offset := by
    apply BitVec.eq_of_getLsbD_eq
    intro i hi
    simp only [BitVec.getLsbD_extractLsb', BitVec.getLsbD_append]
    grind
  rw [decodeGate, hselector, hoffset]

theorem zero_append (offset : BitVec 16) :
    (0 : BitVec 16) ++ offset = offset.setWidth 32 := by
  apply BitVec.eq_of_getLsbD_eq
  intro i hi
  rw [BitVec.getLsbD_append, BitVec.getLsbD_setWidth]
  grind

/-- A segment descriptor by the halves of its low word and the bytes of its
high word. -/
theorem decodeSegment_append (high low : BitVec 16) (b₃ b₂ b₁ b₀ : BitVec 8) :
    decodeSegment (high ++ low) (b₃ ++ b₂ ++ b₁ ++ b₀) = {
      base := b₃ ++ b₀ ++ high
      limit := b₂.extractLsb' 0 4 ++ low
      granular := b₂.getLsbD 7
      present := b₁.getLsbD 7
      dpl := b₁.extractLsb' 5 2
      codeOrData := b₁.getLsbD 4
      type := b₁.extractLsb' 0 4 } := by
  apply SegmentDescriptor.ext
  all_goals
    simp only [decodeSegment]
    try apply BitVec.eq_of_getLsbD_eq
    try intro i hi
    simp only [BitVec.getLsbD_append, BitVec.getLsbD_extractLsb']
    grind

/-- The attributes of the gates in ring 0 and in ring 3. -/
theorem decodeGate_interruptGate (offset : BitVec 16) :
    decodeGate ((0x0008 : BitVec 16) ++ offset) 0x00008E00 =
        interruptGate offset 0 ∧
      decodeGate ((0x0008 : BitVec 16) ++ offset) 0x0000EE00 =
        interruptGate offset 3 := by
  rw [decodeGate_append, decodeGate_append, interruptGate, interruptGate,
    ← zero_append]
  exact ⟨rfl, rfl⟩

theorem decodeGate_taskGate (selector : BitVec 16) :
    decodeGate (selector ++ (0x0000 : BitVec 16)) 0x0000E500 =
      taskGate selector := by
  rw [decodeGate_append]
  rfl

/-- The stores of a gate. -/
theorem storeAt_gateFields (hv : v < 128) (attributes : BitVec 32) :
    storeAt (BitVec.ofNat 16 (0x6800 + 8 * v))
        (gateFields offset selector attributes) m =
      m.writeWords (0x6800 + 8 * v) [selector ++ offset, attributes] := by
  refine storeAt_eq_writeWords ⟨rfl, rfl, rfl, trivial⟩ ?_ ?_
  · simp [gateFields, field16, field32, bytes32_append]
  · simp
    omega

theorem gate_storeAt (hu : u < 128) (hv : v < 128) (attributes : BitVec 32) :
    gate (storeAt (BitVec.ofNat 16 (0x6800 + 8 * v))
        (gateFields offset selector attributes) m) u =
      if u = v then decodeGate (selector ++ offset) attributes
      else gate m u := by
  rw [storeAt_gateFields hv]
  split
  · next heq =>
      subst heq
      exact gate_of_words (wordsAt_writeWords m (by simp; omega))
  · next hne =>
      refine gate_congr hu fun x hx => writeWords_apply (by simp; omega) ?_
      exact hx.not_of_apart (by simp; omega)

/-- The loop fills neighbouring gates. -/
theorem gate_setIdt (hu : u < 128) (hvn : v + n ≤ 128) :
    gate (setIdt ax n (BitVec.ofNat 16 (0x6800 + 8 * v)) m) u =
      if v ≤ u ∧ u < v + n then interruptGate ax 0 else gate m u := by
  induction n generalizing v m with
  | zero => rw [if_neg (by omega), setIdt]
  | succ n ih =>
      have hnext : BitVec.ofNat 16 (0x6800 + 8 * v) + 8 =
          BitVec.ofNat 16 (0x6800 + 8 * (v + 1)) := by bv_omega
      rw [setIdt, hnext, ih (by omega), gate_storeAt hu (by omega),
        (decodeGate_interruptGate ax).1]
      split_ifs <;> first | rfl | omega

theorem gate_store {g g₀ : GateDescriptor} {attributes : BitVec 32}
    (hu : u < 128) (hv : v < 128)
    (hgate : decodeGate (selector ++ offset) attributes = g)
    (hbefore : gate m u = g₀) :
    gate (storeAt (BitVec.ofNat 16 (0x6800 + 8 * v))
        (gateFields offset selector attributes) m) u =
      if u = v then g else g₀ := by
  rw [gate_storeAt hu hv, hgate, hbefore]

end Gates

/-! ## The tables after the boot -/

/-- The gate of each vector. -/
def installedGate (h : Handlers) (u : ℕ) : GateDescriptor :=
  if u = 0x31 then interruptGate h.server 3
  else if u = 0x30 then interruptGate h.video 3
  else if u = 0x28 then interruptGate h.rtc 3
  else if u = 0x21 then interruptGate h.keyboard 3
  else if u = 0x20 then taskGate 0x0040
  else if u = 13 then interruptGate h.gp 0
  else if u = 12 then interruptGate h.ss 0
  else if u = 7 then interruptGate h.nm 0
  else if 0x28 ≤ u ∧ u < 0x30 then interruptGate h.sIrqInt 0
  else if 0x20 ≤ u ∧ u < 0x28 then interruptGate h.mIrqInt 0
  else interruptGate h.defaultInt 0

theorem gate_idtInit (h : Handlers) (m : Memory) {u : ℕ} (hu : u < 128) :
    gate (idtInit h m) u = installedGate h u := by
  have hlast : ∀ m : Memory, gate (m.write 0x2020 (bytes16 0x6A00)) u =
      gate m u := by
    intro m
    refine gate_congr hu fun x hx => ?_
    exact write_ofNat_apply (a := 0x2020) (by simp)
      (hx.not_of_apart (by simp; omega))
  have hkernel := fun offset => (decodeGate_interruptGate offset).1
  have huser := fun offset => (decodeGate_interruptGate offset).2
  rw [idtInit, hlast, installedGate]
  refine gate_store (v := 0x31) hu (by omega) (huser _) ?_
  refine gate_store (v := 0x30) hu (by omega) (huser _) ?_
  refine gate_store (v := 0x28) hu (by omega) (huser _) ?_
  refine gate_store (v := 0x21) hu (by omega) (huser _) ?_
  refine gate_store (v := 0x20) hu (by omega) (decodeGate_taskGate _) ?_
  refine gate_store (v := 13) hu (by omega) (hkernel _) ?_
  refine gate_store (v := 12) hu (by omega) (hkernel _) ?_
  refine gate_store (v := 7) hu (by omega) (hkernel _) ?_
  refine (gate_setIdt (v := 0x28) (n := 8) hu (by omega)).trans ?_
  refine ite_congr rfl (fun _ => rfl) fun _ => ?_
  refine (gate_setIdt (v := 0x20) (n := 8) hu (by omega)).trans ?_
  refine ite_congr rfl (fun _ => rfl) fun _ => ?_
  refine (gate_setIdt (v := 0) (n := 128) hu (by omega)).trans ?_
  exact if_pos ⟨Nat.zero_le u, by omega⟩

/-- The words of the GDT. -/
def gdtWords : List (BitVec 32) :=
  [0x00000000, 0x00000000, 0x0000FFFF, 0x00CF9A00, 0x0000FFFF, 0x00CF9200,
    0x0000FFFF, 0x3F4092FF, 0x80000F9F, 0x0040920B, 0x0000FFFF, 0x3F40F2FE,
    0x1C0003FF, 0x00008200]

theorem gdtInit_eq (m : Memory) : gdtInit m = m.writeWords 0x6000 gdtWords := by
  refine storeAt_eq_writeWords (a := 0x6000) ?_ rfl ?_
  · exact ⟨rfl, rfl, rfl, rfl, rfl, rfl, rfl, rfl, rfl, rfl, rfl, rfl, rfl, rfl,
      trivial⟩
  · simp [gdtWords]

/-- The tables are those of the boot. -/
structure Booted (h : Handlers) (m : Memory) : Prop where
  gate : ∀ u < 128, gate m u = installedGate h u
  segments : WordsAt m 0x6000 gdtWords

section Booted

variable {h : Handlers} {m : Memory}

/-- A gate lies in the interrupt table. -/
theorem storeAt_gateFields_apply {v : ℕ} {x : BitVec 32}
    {offset selector : BitVec 16} {attributes : BitVec 32} (hv : v < 128)
    (hx : ¬Between 0x6800 0x6C00 x) :
    storeAt (BitVec.ofNat 16 (0x6800 + 8 * v))
        (gateFields offset selector attributes) m x = m x := by
  rw [storeAt_gateFields hv]
  refine writeWords_apply (by simp; omega) fun hmem => hx (hmem.mono ?_ ?_)
  · omega
  · simp
    omega

theorem setIdt_apply {ax : BitVec 16} {v n : ℕ} {x : BitVec 32}
    (hvn : v + n ≤ 128) (hx : ¬Between 0x6800 0x6C00 x) :
    setIdt ax n (BitVec.ofNat 16 (0x6800 + 8 * v)) m x = m x := by
  induction n generalizing v m with
  | zero => rfl
  | succ n ih =>
      have hnext : BitVec.ofNat 16 (0x6800 + 8 * v) + 8 =
          BitVec.ofNat 16 (0x6800 + 8 * (v + 1)) := by bv_omega
      rw [setIdt, hnext, ih (by omega)]
      exact storeAt_gateFields_apply (by omega) hx

/-- `_idt_init` writes the interrupt table and one variable. -/
theorem idtInit_apply {x : BitVec 32} (hx : ¬Between 0x6800 0x6C00 x)
    (hvariable : ¬Between 0x2020 0x2022 x) : idtInit h m x = m x := by
  have hstore : ∀ {offset selector attributes} {m : Memory} (v : ℕ), v < 128 →
      storeAt (BitVec.ofNat 16 (0x6800 + 8 * v))
        (gateFields offset selector attributes) m x = m x :=
    fun v hv => storeAt_gateFields_apply hv hx
  have hword : ∀ m : Memory, m.write 0x2020 (bytes16 0x6A00) x = m x :=
    fun m => write_ofNat_apply (a := 0x2020) (by simp) hvariable
  refine (hword _).trans ?_
  refine (hstore 0x31 (by omega)).trans <| (hstore 0x30 (by omega)).trans <|
    (hstore 0x28 (by omega)).trans <| (hstore 0x21 (by omega)).trans <|
    (hstore 0x20 (by omega)).trans <| (hstore 13 (by omega)).trans <|
    (hstore 12 (by omega)).trans <| (hstore 7 (by omega)).trans ?_
  exact (setIdt_apply (v := 0x28) (n := 8) (by omega) hx).trans <|
    (setIdt_apply (v := 0x20) (n := 8) (by omega) hx).trans <|
    setIdt_apply (v := 0) (n := 128) (by omega) hx

/-- `_gdt_init` and then `_idt_init`. -/
theorem booted_idtInit (h : Handlers) (m : Memory) :
    Booted h (idtInit h (gdtInit m)) := by
  refine ⟨fun u hu => gate_idtInit h _ hu, ?_⟩
  rw [gdtInit_eq]
  refine (wordsAt_writeWords m (by simp [gdtWords])).congr (by simp [gdtWords])
    fun x hx => idtInit_apply ?_ ?_
  · exact hx.not_of_apart (by simp [gdtWords])
  · exact hx.not_of_apart (by simp [gdtWords])

theorem Booted.congr {m' : Memory} (hbooted : Booted h m)
    (hsame : ∀ x, Between 0x6000 0x6C00 x → m' x = m x) : Booted h m' where
  gate u hu := by
    rw [← hbooted.gate u hu]
    exact gate_congr hu fun x hx => hsame x (hx.mono (by omega) (by omega))
  segments := hbooted.segments.congr (by simp [gdtWords]) fun x hx =>
    hsame x (hx.mono le_rfl (by simp [gdtWords]))

end Booted

end OpenFerain.Asm16T32
