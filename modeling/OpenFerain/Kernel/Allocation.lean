import OpenFerain.Kernel.Bitmap

/-!
# Exclusivity of page and task-number allocation

Both bitmaps are used by the same two steps: search, then mark the number the
search returned.  The set of marked numbers of a map evolves as the abstract
pool that hands out its greatest free member, so exclusivity over arbitrary
interleavings of the two maps follows from the pool.
-/

namespace OpenFerain

open Ia32 Access Pool

/-! ## Allocating from a map -/

/-- The two bitmaps of `task.h`. -/
inductive BitmapKind where
  | page
  | task
  deriving DecidableEq

/-- The address of a bitmap. -/
def BitmapKind.base : BitmapKind → BitVec 32
  | .page => memMapBase
  | .task => taskMapBase

/-- Search a map and mark the number found. -/
def allocateFrom (mapBase : BitVec 32) : Access (BitVec 32) := do
  let number ← getAvailable mapBase
  if number ≠ 0xFFFFFFFF then mapWrite mapBase number else pure ()
  pure number

/-- Search a map and mark the number found, in the words of the source. -/
def allocate : BitmapKind → Access (BitVec 32)
  | .page => do
      let p ← getAvailablePage
      if p ≠ 0xFFFFFFFF then memMapWrite p else pure ()
      pure p
  | .task => do
      let t ← getAvailableTaskNum
      if t ≠ 0xFFFFFFFF then taskNumWrite t else pure ()
      pure t

theorem allocate_eq (kind : BitmapKind) :
    allocate kind = allocateFrom kind.base := by
  cases kind with
  | page => rfl
  | task => rfl

/-- The memory after a sequence of allocations. -/
def allocations (ops : List BitmapKind) (m : Memory) : Memory :=
  ops.foldl (fun m kind => (allocate kind).exec m) m

@[simp] theorem allocations_concat (ops : List BitmapKind) (kind : BitmapKind)
    (m : Memory) :
    allocations (ops ++ [kind]) m =
      (allocate kind).exec (allocations ops m) := by
  simp [allocations]

/-! ## Numbers found by the search -/

theorem encodeNumber_some_toNat {k : ℕ} (hk : k < mapSize) :
    (encodeNumber (some k)).toNat = k := by
  rw [mapSize_eq] at hk
  rw [encodeNumber, BitVec.toNat_ofNat]
  omega

theorem encodeNumber_some_ne {k : ℕ} (hk : k < mapSize) :
    encodeNumber (some k) ≠ 0xFFFFFFFF := by
  intro h
  have htoNat := congrArg BitVec.toNat h
  rw [encodeNumber_some_toNat hk] at htoNat
  change k = 4294967295 at htoNat
  rw [mapSize_eq] at hk
  omega

theorem lastClear_some {mapBase : BitVec 32} {m : Memory} {k : ℕ}
    (h : lastClear mapBase m = some k) :
    k < mapSize ∧ mapBit mapBase m k = false := by
  obtain ⟨hlt, hfree, -⟩ := lastFree_eq_some_iff.mp h
  exact ⟨hlt, by simpa [mapFree] using hfree⟩

theorem mapBit_of_lastClear_lt {mapBase : BitVec 32} {m : Memory} {k i : ℕ}
    (h : lastClear mapBase m = some k) (hki : k < i) (hi : i < mapSize) :
    mapBit mapBase m i = true := by
  obtain ⟨-, -, hmax⟩ := lastFree_eq_some_iff.mp h
  simpa [mapFree] using hmax i hi hki

theorem lastClear_eq_some {mapBase : BitVec 32} {m : Memory} {k : ℕ}
    (hk : k < mapSize) (hclear : mapBit mapBase m k = false)
    (hset : ∀ i < mapSize, k < i → mapBit mapBase m i = true) :
    lastClear mapBase m = some k := by
  apply lastFree_eq_some_iff.mpr
  refine ⟨hk, by simpa [mapFree] using hclear, ?_⟩
  intro i hi hki
  simpa [mapFree] using hset i hi hki

theorem lastClear_eq_none_iff {mapBase : BitVec 32} {m : Memory} :
    lastClear mapBase m = none ↔
      ∀ i < mapSize, mapBit mapBase m i = true := by
  simp [lastClear, lastFree_eq_none_iff, mapFree]

/-- Distinct results of the abstract search are returned as distinct words. -/
theorem encodeNumber_lastClear_eq_iff {mapBase : BitVec 32} {m : Memory}
    {k : ℕ} (hk : k < mapSize) :
    encodeNumber (lastClear mapBase m) = BitVec.ofNat 32 k ↔
      lastClear mapBase m = some k := by
  cases h : lastClear mapBase m with
  | none =>
      simp only [reduceCtorEq, iff_false]
      exact (encodeNumber_some_ne hk).symm
  | some j =>
      rw [Option.some.injEq]
      constructor
      · intro heq
        have htoNat := congrArg BitVec.toNat heq
        rwa [encodeNumber_some_toNat (lastClear_some h).1,
          ← encodeNumber, encodeNumber_some_toNat hk] at htoNat
      · rintro rfl
        rfl

theorem encodeNumber_lastClear_eq_failure_iff {mapBase : BitVec 32}
    {m : Memory} :
    encodeNumber (lastClear mapBase m) = 0xFFFFFFFF ↔
      lastClear mapBase m = none := by
  cases h : lastClear mapBase m with
  | none => simp [encodeNumber]
  | some k =>
      simp only [reduceCtorEq, iff_false]
      exact encodeNumber_some_ne (lastClear_some h).1

/-! ## One allocation -/

/-- What an allocation does when a bit of its map is clear. -/
theorem allocate_of_some {kind : BitmapKind} {m : Memory} {k : ℕ}
    (h : lastClear kind.base m = some k) :
    (allocate kind).value m = BitVec.ofNat 32 k ∧
      (allocate kind).exec m =
        (mapWrite kind.base (BitVec.ofNat 32 k)).exec m := by
  have hne := encodeNumber_some_ne (lastClear_some h).1
  rw [allocate_eq, allocateFrom]
  simp only [value_bind, exec_bind, exec_getAvailable, value_getAvailable, h,
    if_pos hne, value_pure, exec_pure]
  exact ⟨rfl, rfl⟩

/-- An allocation from a full map changes nothing. -/
theorem allocate_of_none {kind : BitmapKind} {m : Memory}
    (h : lastClear kind.base m = none) :
    (allocate kind).value m = 0xFFFFFFFF ∧ (allocate kind).exec m = m := by
  have heq : encodeNumber none = 0xFFFFFFFF := rfl
  rw [allocate_eq, allocateFrom]
  simp only [value_bind, exec_bind, exec_getAvailable, value_getAvailable, h,
    heq, value_pure, exec_pure, ne_eq, not_true_eq_false, if_false,
    and_self]

theorem value_allocate (kind : BitmapKind) (m : Memory) :
    (allocate kind).value m = encodeNumber (lastClear kind.base m) := by
  cases h : lastClear kind.base m with
  | none => exact (allocate_of_none h).1
  | some k => exact (allocate_of_some h).1

/-- An allocation changes no byte outside its own map. -/
theorem exec_allocate_apply (kind : BitmapKind) (m : Memory) {x : BitVec 32}
    (hx : ¬InMap kind.base x) : (allocate kind).exec m x = m x := by
  cases h : lastClear kind.base m with
  | none => rw [(allocate_of_none h).2]
  | some k =>
      rw [(allocate_of_some h).2]
      exact (mapWrite_within kind.base (lastClear_some h).1 m).exec_apply hx

theorem inMap_disjoint (kind kind' : BitmapKind) (hne : kind' ≠ kind)
    {x : BitVec 32} (hx : InMap kind'.base x) : ¬InMap kind.base x := by
  cases kind <;> cases kind' <;>
    simp only [ne_eq, not_true_eq_false, reduceCtorEq, not_false_eq_true,
      InMap, BitmapKind.base, memMapBase, taskMapBase] at *
  · bv_omega
  · bv_omega

theorem mapBit_allocate_other {kind kind' : BitmapKind} (hne : kind' ≠ kind)
    (m : Memory) {i : ℕ} (hi : i < mapSize) :
    mapBit kind'.base ((allocate kind).exec m) i = mapBit kind'.base m i :=
  mapBit_congr
    (fun _ hx => exec_allocate_apply kind m (inMap_disjoint _ _ hne hx)) hi

theorem mapBit_allocate_of_some {kind : BitmapKind} {m : Memory} {k i : ℕ}
    (h : lastClear kind.base m = some k) (hi : i < mapSize) :
    mapBit kind.base ((allocate kind).exec m) i =
      (mapBit kind.base m i || decide (i = k)) := by
  obtain ⟨hk, hclear⟩ := lastClear_some h
  rw [(allocate_of_some h).2, mapBit_mapWrite _ _ hk hi]
  by_cases hik : i = k
  · subst i
    simp [hclear]
  · simp [hik]

/-! ## The pool a map refines -/

/-- The numbers whose bit is set. -/
def takenBits (mapBase : BitVec 32) (m : Memory) : Finset ℕ :=
  (Finset.range mapSize).filter fun i => mapBit mapBase m i = true

theorem mem_takenBits {mapBase : BitVec 32} {m : Memory} {i : ℕ} :
    i ∈ takenBits mapBase m ↔ i < mapSize ∧ mapBit mapBase m i = true := by
  simp [takenBits]

/-- The concrete search computes the pool's choice. -/
theorem lastClear_eq_pick (mapBase : BitVec 32) (m : Memory) :
    lastClear mapBase m =
      (greatestFree mapSize).pick (takenBits mapBase m) := by
  rw [lastClear, greatestFree_pick]
  apply lastFree_congr
  intro k hk
  cases hbit : mapBit mapBase m k <;> simp [mapFree, mem_takenBits, hbit, hk]

/-- One allocation is one step of the pool of its map. -/
theorem takenBits_allocate (kind : BitmapKind) (m : Memory) :
    takenBits kind.base ((allocate kind).exec m) =
      (greatestFree mapSize).grant (takenBits kind.base m) := by
  cases h : lastClear kind.base m with
  | none =>
      rw [(allocate_of_none h).2, Policy.grant_of_none]
      rw [← lastClear_eq_pick, h]
  | some k =>
      rw [Policy.grant_of_some _ ((lastClear_eq_pick _ _).symm.trans h)]
      have hk := (lastClear_some h).1
      ext i
      rw [Finset.mem_insert, mem_takenBits, mem_takenBits]
      constructor
      · rintro ⟨hi, hbit⟩
        rw [mapBit_allocate_of_some h hi, Bool.or_eq_true,
          decide_eq_true_eq] at hbit
        exact hbit.symm.imp_right fun hset => ⟨hi, hset⟩
      · rintro (rfl | ⟨hi, hset⟩)
        · exact ⟨hk, by rw [mapBit_allocate_of_some h hk]; simp⟩
        · exact ⟨hi, by rw [mapBit_allocate_of_some h hi, hset]; rfl⟩

theorem takenBits_allocate_other {kind kind' : BitmapKind}
    (hne : kind' ≠ kind) (m : Memory) :
    takenBits kind'.base ((allocate kind).exec m) =
      takenBits kind'.base m := by
  apply Finset.filter_congr
  intro i hi
  rw [mapBit_allocate_other hne m (Finset.mem_range.mp hi)]

/-- Over any interleaving, a map evolves as its pool does over the allocations
that concern it. -/
theorem takenBits_allocations (kind : BitmapKind) (ops : List BitmapKind)
    (m : Memory) :
    takenBits kind.base (allocations ops m) =
      (greatestFree mapSize).after (takenBits kind.base m)
        (ops.count kind) := by
  induction ops using List.reverseRecOn with
  | nil => rfl
  | append_singleton ops last ih =>
      rw [allocations_concat, List.count_append]
      by_cases hlast : kind = last
      · subst last
        rw [takenBits_allocate, ih, List.count_singleton_self, Policy.after]
      · rw [takenBits_allocate_other hlast, ih,
          List.count_singleton, if_neg (by simpa using Ne.symm hlast),
          Nat.add_zero]

/-! ## The start state -/

/-- Both maps are zero, as `init.s` leaves them. -/
def ZeroedMaps (m : Memory) : Prop :=
  ∀ (kind : BitmapKind) (x : BitVec 32), InMap kind.base x → m x = 0

theorem memMapInit_within (m : Memory) :
    memMapInit.Within (InMap memMapBase) (InMap memMapBase) m := by
  rw [memMapInit]
  apply within_forRange
  intro i hi acc m'
  exact mapWrite_within memMapBase (by rw [mapSize_eq]; omega) m'

/-- `mem_map_init` toggles exactly the first 1024 bits. -/
theorem mapBit_memMapInit (m : Memory) {j : ℕ} (hj : j < mapSize) :
    mapBit memMapBase (memMapInit.exec m) j =
      (mapBit memMapBase m j ^^ decide (j < 1024)) := by
  rw [memMapInit]
  refine forRange_induction
    (fun i _ m' => mapBit memMapBase m' j =
      (mapBit memMapBase m j ^^ decide (j < i))) (by simp) ?_
  intro i hi acc m' hinv
  have hmark : mapBit memMapBase
      ((memMapWrite (BitVec.ofNat 32 i)).exec m') j =
        (mapBit memMapBase m' j ^^ decide (j = i)) :=
    mapBit_mapWrite memMapBase m' (by rw [mapSize_eq]; omega) hj
  rw [hmark, hinv, Bool.xor_assoc]
  congr 1
  by_cases hji : j = i
  · subst j
    simp
  · have hiff : (j < i + 1) ↔ j < i := by omega
    simp [hji, hiff]

theorem mapBit_of_zeroed {m : Memory} (hzero : ZeroedMaps m)
    (kind : BitmapKind) {i : ℕ} (hi : i < mapSize) :
    mapBit kind.base m i = false := by
  rw [mapBit, hzero kind _ (inMap_byte kind.base hi)]
  simp

/-- After `mem_map_init` the low 4 MB are the taken pages. -/
theorem takenBits_page_start {m : Memory} (hzero : ZeroedMaps m) :
    takenBits memMapBase (memMapInit.exec m) = Finset.range 1024 := by
  ext i
  rw [mem_takenBits, Finset.mem_range]
  constructor
  · rintro ⟨hi, hbit⟩
    have hclear : mapBit memMapBase m i = false :=
      mapBit_of_zeroed hzero .page hi
    rw [mapBit_memMapInit m hi, hclear] at hbit
    simpa using hbit
  · intro hi
    have hlt : i < mapSize := by
      rw [mapSize_eq]
      omega
    have hclear : mapBit memMapBase m i = false :=
      mapBit_of_zeroed hzero .page hlt
    refine ⟨hlt, ?_⟩
    rw [mapBit_memMapInit m hlt, hclear]
    simpa using hi

/-- The pages free at the start are the `2 ^ 20 - 1024` above 4 MB. -/
theorem card_free_page_start {m : Memory} (hzero : ZeroedMaps m) :
    ((greatestFree mapSize).members \
      takenBits memMapBase (memMapInit.exec m)).card = mapSize - 1024 := by
  have hsub : Finset.range 1024 ⊆ Finset.range mapSize := by
    intro i hi
    rw [Finset.mem_range] at *
    rw [mapSize_eq]
    omega
  rw [takenBits_page_start hzero]
  change (Finset.range mapSize \ Finset.range 1024).card = _
  rw [Finset.card_sdiff_of_subset hsub, Finset.card_range, Finset.card_range]

/-! ## Exclusivity over every sequence of allocations -/

/-- What the next allocation, from the map `kind`, does after the sequence
`ops` of allocations.  `before` is the memory it starts from, `number` what it
returns and `afterwards` the memory it leaves. -/
structure ExclusiveAllocation (m : Memory) (ops : List BitmapKind)
    (kind : BitmapKind) (before afterwards : Memory) (number : BitVec 32) :
    Prop where
  page_range : kind = .page → number ≠ 0xFFFFFFFF →
    1024 ≤ number.toNat ∧ number.toNat < 2 ^ 20
  never_again : number ≠ 0xFFFFFFFF →
    ∀ earlier later, ops = earlier ++ kind :: later →
      (allocate kind).value (allocations earlier (memMapInit.exec m)) ≠ number
  one_bit : number ≠ 0xFFFFFFFF →
    mapBit kind.base before number.toNat = false ∧
      ∀ i < 2 ^ 20, mapBit kind.base afterwards i =
        (mapBit kind.base before i || decide (i = number.toNat))
  outside : ∀ x, ¬InMap kind.base x → afterwards x = before x
  failure : number = 0xFFFFFFFF → afterwards = before
  exhausted : number = 0xFFFFFFFF ↔
    ∀ i < 2 ^ 20, mapBit kind.base before i = true
  page_count : kind = .page →
    (number = 0xFFFFFFFF ↔ 2 ^ 20 - 1024 ≤ ops.count .page)

section Exclusive

variable {m : Memory} {ops : List BitmapKind} {kind : BitmapKind} {k : ℕ}

/-- The pool's view of the number found after `ops`. -/
theorem pick_of_lastClear
    (h : lastClear kind.base (allocations ops m) = some k) :
    (greatestFree mapSize).pick ((greatestFree mapSize).after
      (takenBits kind.base m) (ops.count kind)) = some k := by
  rw [← takenBits_allocations, ← lastClear_eq_pick, h]

theorem page_range_of_lastClear (hzero : ZeroedMaps m)
    (h : lastClear memMapBase (allocations ops (memMapInit.exec m)) = some k) :
    1024 ≤ k ∧ k < 2 ^ 20 := by
  have hfree := Policy.pick_after_free _ (@pick_of_lastClear _ ops .page _ h)
  have hstart : k ∉ takenBits memMapBase (memMapInit.exec m) :=
    (Finset.mem_sdiff.mp hfree).2
  rw [takenBits_page_start hzero, Finset.mem_range] at hstart
  exact ⟨by omega, (lastClear_some h).1⟩

/-- A number returned after `ops` was returned by no earlier allocation from
the same map. -/
theorem value_allocate_ne_of_earlier {earlier later : List BitmapKind}
    (hops : ops = earlier ++ kind :: later)
    (h : lastClear kind.base (allocations ops m) = some k) :
    (allocate kind).value (allocations earlier m) ≠ BitVec.ofNat 32 k := by
  intro heq
  rw [value_allocate,
    encodeNumber_lastClear_eq_iff (lastClear_some h).1] at heq
  have hcount : earlier.count kind < ops.count kind := by
    rw [hops, List.count_append, List.count_cons_self]
    omega
  exact Policy.pick_after_ne _ hcount (pick_of_lastClear heq)
    (pick_of_lastClear h)

theorem page_failure_iff (hzero : ZeroedMaps m) :
    lastClear memMapBase (allocations ops (memMapInit.exec m)) = none ↔
      2 ^ 20 - 1024 ≤ ops.count .page := by
  have hpool := takenBits_allocations .page ops (memMapInit.exec m)
  rw [BitmapKind.base] at hpool
  rw [lastClear_eq_pick, hpool, Policy.pick_after_eq_none_iff,
    card_free_page_start hzero, mapSize]

/-- From zeroed maps with the low 4 MB marked, every allocation of every
sequence over the two maps is exclusive. -/
theorem allocation_exclusive (m : Memory) (hzero : ZeroedMaps m)
    (ops : List BitmapKind) (kind : BitmapKind) :
    ExclusiveAllocation m ops kind
      (allocations ops (memMapInit.exec m))
      ((allocate kind).exec (allocations ops (memMapInit.exec m)))
      ((allocate kind).value (allocations ops (memMapInit.exec m))) := by
  have hfail : (allocate kind).value (allocations ops (memMapInit.exec m)) =
      0xFFFFFFFF ↔
        lastClear kind.base (allocations ops (memMapInit.exec m)) = none := by
    rw [value_allocate, encodeNumber_lastClear_eq_failure_iff]
  have hfound : (allocate kind).value
        (allocations ops (memMapInit.exec m)) ≠ 0xFFFFFFFF →
      ∃ k, lastClear kind.base (allocations ops (memMapInit.exec m)) = some k :=
    fun hne => Option.ne_none_iff_exists'.mp (mt hfail.mpr hne)
  refine ⟨?_, ?_, ?_, ?_, ?_, ?_, ?_⟩
  · rintro rfl hne
    obtain ⟨k, hk⟩ := hfound hne
    rw [value_allocate, hk, encodeNumber_some_toNat (lastClear_some hk).1]
    exact page_range_of_lastClear hzero hk
  · intro hne earlier later hops
    obtain ⟨k, hk⟩ := hfound hne
    rw [(allocate_of_some hk).1]
    exact value_allocate_ne_of_earlier hops hk
  · intro hne
    obtain ⟨k, hk⟩ := hfound hne
    rw [value_allocate, hk, encodeNumber_some_toNat (lastClear_some hk).1]
    exact ⟨(lastClear_some hk).2, fun i hi => mapBit_allocate_of_some hk hi⟩
  · intro x hx
    exact exec_allocate_apply kind _ hx
  · intro heq
    exact (allocate_of_none (hfail.mp heq)).2
  · exact hfail.trans lastClear_eq_none_iff
  · rintro rfl
    exact hfail.trans (page_failure_iff hzero)

/-- An instance: a page after a page and a task number, from cleared memory. -/
theorem allocation_exclusive_page_task :
    ExclusiveAllocation (fun _ => 0) [.page, .task] .page
      (allocations [.page, .task] (memMapInit.exec fun _ => 0))
      ((allocate .page).exec
        (allocations [.page, .task] (memMapInit.exec fun _ => 0)))
      ((allocate .page).value
        (allocations [.page, .task] (memMapInit.exec fun _ => 0))) :=
  allocation_exclusive (fun _ => 0) (fun _ _ _ => rfl) [.page, .task] .page

end Exclusive

end OpenFerain
