import OpenFerain.Ia32.Access
import OpenFerain.Kernel.Layout
import OpenFerain.Support.Pool

/-!
# The page bitmap and the task bitmap

`task.h` keeps one bit for each of `2 ^ 20` pages and one for each of `2 ^ 20`
task numbers.  Marking goes through bytes and toggles a bit; searching goes
through little-endian 32-bit words and keeps the last clear bit it meets.  Both
views are stated here through `mapBit`.
-/

namespace OpenFerain

open Ia32 Access Pool

/-! ## The source functions -/

/-- The common body of `task_num_write` and `mem_map_write`. -/
def mapWrite (mapBase i : BitVec 32) : Access Unit := do
  let readByte ← read8 (mapBase + i / 8)
  let mapByte := (1#8 <<< (i % 8)) ^^^ readByte
  write8 (mapBase + i / 8) mapByte

/-- `task_num_write` in `task.h`. -/
def taskNumWrite (i : BitVec 32) : Access Unit := mapWrite taskMapBase i

/-- `mem_map_write` in `task.h`. -/
def memMapWrite (i : BitVec 32) : Access Unit := mapWrite memMapBase i

/-- The inner loop of the two searches, over the bits of one word. -/
def scanSection (mapSection : BitVec 32) (i : ℕ) (retVal : BitVec 32) :
    Access (BitVec 32) :=
  forRange 32 retVal fun j retVal =>
    let usedFlag := (mapSection >>> j) &&& 0x00000001#32
    pure (if usedFlag = 0 then
      BitVec.ofNat 32 i * 32 + BitVec.ofNat 32 j else retVal)

/-- The common body of `get_available_task_num` and `get_available_page`.
Neither loop stops at a free bit, so the last one met is returned. -/
def getAvailable (mapBase : BitVec 32) : Access (BitVec 32) :=
  forRange 32768 0xFFFFFFFF#32 fun i retVal => do
    let mapSection ← read32 (mapBase + BitVec.ofNat 32 i * 4)
    scanSection mapSection i retVal

/-- `get_available_task_num` in `task.h`. -/
def getAvailableTaskNum : Access (BitVec 32) := getAvailable taskMapBase

/-- `get_available_page` in `task.h`. -/
def getAvailablePage : Access (BitVec 32) := getAvailable memMapBase

/-- `mem_map_init` in `init.c`: the low 4 MB are in use. -/
def memMapInit : Access Unit :=
  forRange 1024 () fun i _ => memMapWrite (BitVec.ofNat 32 i)

/-! ## Bits of a map -/

/-- The number of bits of each map. -/
def mapSize : ℕ := 2 ^ 20

theorem mapSize_eq : mapSize = 1048576 := rfl

/-- Bit `i` of the map at `mapBase`. -/
def mapBit (mapBase : BitVec 32) (m : Memory) (i : ℕ) : Bool :=
  (m (mapBase + BitVec.ofNat 32 (i / 8))).getLsbD (i % 8)

/-- `x` is one of the bytes of the map at `mapBase`. -/
def InMap (mapBase x : BitVec 32) : Prop := (x - mapBase).toNat < 0x20000

theorem inMap_byte (mapBase : BitVec 32) {i : ℕ} (hi : i < mapSize) :
    InMap mapBase (mapBase + BitVec.ofNat 32 (i / 8)) := by
  rw [mapSize_eq] at hi
  rw [InMap, Memory.add_ofNat_dist (by omega)]
  omega

/-- A map is determined by its bytes. -/
theorem mapBit_congr {mapBase : BitVec 32} {m m' : Memory}
    (h : ∀ x, InMap mapBase x → m' x = m x) {i : ℕ} (hi : i < mapSize) :
    mapBit mapBase m' i = mapBit mapBase m i := by
  rw [mapBit, mapBit, h _ (inMap_byte mapBase hi)]

/-- The word the search reads holds the bits the byte view names. -/
theorem mapBit_eq_load32 (mapBase : BitVec 32) (m : Memory) {i j : ℕ}
    (hj : j < 32) :
    mapBit mapBase m (32 * i + j) =
      (m.load32 (mapBase + BitVec.ofNat 32 i * 4)).getLsbD j := by
  have haddr : mapBase + BitVec.ofNat 32 i * 4 + BitVec.ofNat 32 (j / 8) =
      mapBase + BitVec.ofNat 32 ((32 * i + j) / 8) := by
    have hsplit : (32 * i + j) / 8 = 4 * i + j / 8 := by omega
    rw [hsplit]
    bv_omega
  rw [Memory.load32_getLsbD m _ hj, haddr, mapBit]
  congr 1
  omega

/-! ## Marking -/

/-- The memory after bit `i` of a map is toggled. -/
theorem exec_mapWrite (mapBase i : BitVec 32) (m : Memory) :
    (mapWrite mapBase i).exec m =
      m.write (mapBase + i / 8)
        [(1#8 <<< (i % 8)) ^^^ m (mapBase + i / 8)] := rfl

theorem byteIndex_eq {i : ℕ} (hi : i < mapSize) :
    BitVec.ofNat 32 i / 8 = BitVec.ofNat 32 (i / 8) := by
  rw [mapSize_eq] at hi
  apply BitVec.eq_of_toNat_eq
  rw [BitVec.toNat_udiv, BitVec.toNat_ofNat, BitVec.toNat_ofNat]
  change i % 2 ^ 32 / 8 = i / 8 % 2 ^ 32
  omega

theorem bitIndex_eq (i : ℕ) : (BitVec.ofNat 32 i % 8).toNat = i % 8 := by
  rw [BitVec.toNat_umod, BitVec.toNat_ofNat]
  change i % 2 ^ 32 % 8 = i % 8
  omega

/-- Marking changes one byte of its map and no other byte of memory. -/
theorem mapWrite_within (mapBase : BitVec 32) {i : ℕ} (hi : i < mapSize)
    (m : Memory) :
    (mapWrite mapBase (BitVec.ofNat 32 i)).Within
      (InMap mapBase) (InMap mapBase) m := by
  have hbyte : InMap mapBase (mapBase + BitVec.ofNat 32 i / 8) := by
    rw [byteIndex_eq hi]
    exact inMap_byte mapBase hi
  apply within_bind
  · exact within_read8 hbyte
  · exact within_write8 hbyte

/-- Marking toggles the bit it names and keeps every other bit of the map. -/
theorem mapBit_mapWrite (mapBase : BitVec 32) (m : Memory) {i j : ℕ}
    (hi : i < mapSize) (hj : j < mapSize) :
    mapBit mapBase ((mapWrite mapBase (BitVec.ofNat 32 i)).exec m) j =
      (mapBit mapBase m j ^^ decide (j = i)) := by
  have hi' := hi
  have hj' := hj
  rw [mapSize_eq] at hi' hj'
  rw [exec_mapWrite, byteIndex_eq hi, mapBit, Memory.write_singleton_apply]
  by_cases hbyte : j / 8 = i / 8
  · rw [if_pos (by rw [hbyte]), mapBit, hbyte, BitVec.getLsbD_xor,
      BitVec.shiftLeft_eq', bitIndex_eq i, BitVec.getLsbD_shiftLeft,
      Bool.xor_comm]
    congr 1
    by_cases hji : j = i
    · subst j
      simp [Nat.mod_lt]
    · have hbit : j % 8 ≠ i % 8 := by omega
      by_cases hlt : j % 8 < i % 8
      · simp [hlt, hji]
      · have hpos : j % 8 - i % 8 ≠ 0 := by omega
        simp [hji, hpos, BitVec.getLsbD_one]
  · have haddr : mapBase + BitVec.ofNat 32 (j / 8) ≠
        mapBase + BitVec.ofNat 32 (i / 8) := by
      bv_omega
    have hji : j ≠ i := by
      rintro rfl
      exact hbyte rfl
    rw [if_neg haddr, mapBit, decide_eq_false hji, Bool.xor_false]

/-- Toggling a bit twice restores the whole memory. -/
theorem mapWrite_twice (mapBase i : BitVec 32) (m : Memory) :
    (mapWrite mapBase i).exec ((mapWrite mapBase i).exec m) = m := by
  funext x
  simp only [exec_mapWrite, Memory.write_singleton_apply, if_true]
  by_cases hx : x = mapBase + i / 8
  · subst x
    rw [if_pos rfl, ← BitVec.xor_assoc, BitVec.xor_self, BitVec.zero_xor]
  · rw [if_neg hx, if_neg hx]

/-! ## Searching -/

/-- What the search returns for the result of the abstract search. -/
def encodeNumber : Option ℕ → BitVec 32
  | none => 0xFFFFFFFF
  | some k => BitVec.ofNat 32 k

/-- Bit `i` of the map at `mapBase` is clear. -/
def mapFree (mapBase : BitVec 32) (m : Memory) (i : ℕ) : Bool :=
  !mapBit mapBase m i

/-- The greatest number whose bit is clear. -/
def lastClear (mapBase : BitVec 32) (m : Memory) : Option ℕ :=
  lastFree (mapFree mapBase m) mapSize

theorem usedFlag_eq_zero_iff (v : BitVec 32) (j : ℕ) :
    (v >>> j) &&& 0x00000001#32 = 0 ↔ v.getLsbD j = false := by
  constructor
  · intro h
    have hbit := congrArg (fun w : BitVec 32 => w.getLsbD 0) h
    simpa using hbit
  · intro h
    apply BitVec.eq_of_getLsbD_eq
    intro k hk
    cases k with
    | zero => simpa using h
    | succ k => simp [BitVec.getLsbD_one]

theorem scanSection_within {R W : BitVec 32 → Prop} (mapSection : BitVec 32)
    (i : ℕ) (retVal : BitVec 32) (m : Memory) :
    (scanSection mapSection i retVal).Within R W m := by
  apply within_forRange
  intro j hj acc m'
  exact within_pure _ _

theorem exec_scanSection (mapSection : BitVec 32) (i : ℕ)
    (retVal : BitVec 32) (m : Memory) :
    (scanSection mapSection i retVal).exec m = m := by
  funext x
  exact (scanSection_within (R := fun _ => True) (W := fun _ => False)
    mapSection i retVal m).exec_apply fun h => h

/-- The search reads its map only and writes nothing. -/
theorem getAvailable_within (mapBase : BitVec 32) (m : Memory) :
    (getAvailable mapBase).Within (InMap mapBase) (fun _ => False) m := by
  rw [getAvailable]
  apply within_forRange
  intro i hi acc m'
  apply within_bind
  · apply within_read32
    intro k hk
    rw [InMap]
    bv_omega
  · exact scanSection_within _ _ _ _

@[simp] theorem exec_getAvailable (mapBase : BitVec 32) (m : Memory) :
    (getAvailable mapBase).exec m = m := by
  funext x
  exact (getAvailable_within mapBase m).exec_apply fun h => h

/-- Scanning one word extends the search over the bits before it. -/
theorem run_scanSection (mapBase : BitVec 32) (m : Memory) (i : ℕ)
    (m' : Memory) :
    (scanSection (m.load32 (mapBase + BitVec.ofNat 32 i * 4)) i
        (encodeNumber (lastFree (mapFree mapBase m) (32 * i)))).value m' =
      encodeNumber (lastFree (mapFree mapBase m) (32 * (i + 1))) := by
  refine forRange_induction (m := m')
    (fun j retVal _ => retVal =
      encodeNumber (lastFree (mapFree mapBase m) (32 * i + j))) rfl ?_
  rintro j hj retVal m'' rfl
  have hword := mapBit_eq_load32 mapBase m (i := i) hj
  have hnum : BitVec.ofNat 32 i * 32 + BitVec.ofNat 32 j =
      BitVec.ofNat 32 (32 * i + j) := by bv_omega
  rw [value_pure, ← Nat.add_assoc, lastFree_succ, mapFree]
  by_cases hbit : mapBit mapBase m (32 * i + j) = true
  · have hused := mt (usedFlag_eq_zero_iff _ j).mp
      (by rw [← hword, hbit]; decide)
    rw [if_neg hused, if_neg (by simp [hbit])]
  · have hclear := (usedFlag_eq_zero_iff _ j).mpr
      (by rw [← hword]; simpa using hbit)
    rw [if_pos hclear, if_pos (by simpa using hbit), hnum]
    rfl

/-- The search returns the greatest number whose bit is clear. -/
theorem value_getAvailable (mapBase : BitVec 32) (m : Memory) :
    (getAvailable mapBase).value m = encodeNumber (lastClear mapBase m) := by
  -- After `i` words the accumulator is the search over the first `32 * i` bits.
  have hscan : (getAvailable mapBase).exec m = m ∧
      (getAvailable mapBase).value m =
        encodeNumber (lastFree (mapFree mapBase m) (32 * 32768)) := by
    rw [getAvailable]
    refine forRange_induction
      (fun i retVal m' => m' = m ∧
        retVal = encodeNumber (lastFree (mapFree mapBase m) (32 * i)))
      ⟨rfl, by rw [Nat.mul_zero, lastFree_zero]; rfl⟩ ?_
    rintro i hi retVal m' ⟨rfl, rfl⟩
    simp only [value_bind, exec_bind, value_read32, exec_read32]
    exact ⟨exec_scanSection _ _ _ _, run_scanSection mapBase m' i m'⟩
  exact hscan.2

end OpenFerain
