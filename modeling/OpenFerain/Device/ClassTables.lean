import OpenFerain.Device.Enumeration
import Mathlib.Data.List.Induction

/-!
# The class tables

`PCI_Enumeration` lists the controllers of each class in a table of their
ordinals.  The guard of a store is `device_count <= N` where the table has `N`
entries, so one controller too many is stored past the end of its table.  The
tables are right exactly on machines where no class has more controllers than
its table has entries.
-/

namespace OpenFerain

/-! ## Classes and ordinals -/

/-- `device_count` and the class tables as the source initialises them. -/
def initialClassTables : ClassTables where
  deviceCount _ := 0
  table _ _ := 0xFFFFFFFF
  stores := []

/-- The global variables as the source initialises them. -/
def initialPciState (bridge : HostBridge) (device : ℕ → PcieDevice) :
    PciState where
  bridge := bridge
  device := device
  pcieConfMemBase := 0x00050000
  pcieConfIoBase := 0x1000
  continueFlag := 0
  classes := initialClassTables

/-- The class code of a function is that of class `c`, whatever its
programming interface. -/
def HasClass (config : Register → BitVec 32) (f : FunctionId) (c : PciClass) :
    Prop :=
  (config ⟨f, 2⟩ >>> 8) &&& 0xFFFF00#32 = c.code

instance (config : Register → BitVec 32) (f : FunctionId) (c : PciClass) :
    Decidable (HasClass config f c) :=
  inferInstanceAs (Decidable (_ = _))

/-- The chain of tests finds the class. -/
theorem classify_eq_some_iff {config : Register → BitVec 32} {f : FunctionId}
    {c : PciClass} :
    classify (config ⟨f, 2⟩ >>> 8) = some c ↔ HasClass config f c := by
  rw [HasClass, classify]
  generalize (config ⟨f, 2⟩ >>> 8) &&& 0xFFFF00#32 = masked
  constructor
  · intro h
    split_ifs at h <;> simp_all
  · rintro rfl
    cases c <;> rfl

/-- The ordinals of the functions of a class among `rs`, in increasing
order. -/
def ordinals (config : Register → BitVec 32) (rs : List FunctionId)
    (c : PciClass) : List ℕ :=
  rs.zipIdx.filterMap fun x => if HasClass config x.1 c then some x.2 else none

variable {config : Register → BitVec 32} {rs : List FunctionId}
  {f : FunctionId} {c : PciClass} {p : Platform} {t : ClassTables}

theorem ordinals_concat (config : Register → BitVec 32)
    (rs : List FunctionId) (f : FunctionId) (c : PciClass) :
    ordinals config (rs ++ [f]) c =
      ordinals config rs c ++
        if HasClass config f c then [rs.length] else [] := by
  rw [ordinals, List.zipIdx_append, List.filterMap_append, ordinals]
  by_cases h : HasClass config f c
  · simp [h]
  · simp [h]

/-- The class tables as they should be after the functions `rs` are recorded:
every store was inside its table, and a table holds the first ordinals of its
class and is unused from there on. -/
structure TablesHold (config : Register → BitVec 32) (rs : List FunctionId)
    (t : ClassTables) : Prop where
  inBounds : ∀ c i, (c, i) ∈ t.stores → i < c.tableLength
  entries : ∀ c i, i < c.tableLength →
    t.table c i =
      ((ordinals config rs c)[i]?).elim 0xFFFFFFFF (BitVec.ofNat 32)
  count : ∀ c, (t.deviceCount c).toNat =
    min c.tableLength (ordinals config rs c).length

/-- No class has more functions among `rs` than its table has entries. -/
def ClassesFit (config : Register → BitVec 32) (rs : List FunctionId) : Prop :=
  ∀ c, (ordinals config rs c).length ≤ c.tableLength

/-! ## Recording one function -/

theorem tableLength_le (c : PciClass) : c.tableLength ≤ 16 := by
  cases c <;> decide

theorem countLimit_eq (c : PciClass) : c.countLimit = c.tableLength := by
  cases c <;> rfl

/-- A function of no class changes neither the tables nor what they should
be. -/
theorem TablesHold.concat_of_noClass (h : TablesHold config rs t)
    (hclass : ∀ c, ¬HasClass config f c) :
    TablesHold config (rs ++ [f]) t := by
  have hsame : ∀ c, ordinals config (rs ++ [f]) c = ordinals config rs c := by
    intro c
    rw [ordinals_concat, if_neg (hclass c), List.append_nil]
  exact ⟨h.inBounds, by simpa only [hsame] using h.entries,
    by simpa only [hsame] using h.count⟩

theorem ordinals_concat_of_hasClass (hclass : HasClass config f c) :
    ordinals config (rs ++ [f]) c = ordinals config rs c ++ [rs.length] := by
  rw [ordinals_concat, if_pos hclass]

/-- The code of a class is its own. -/
theorem HasClass.unique {c' : PciClass} (h : HasClass config f c)
    (h' : HasClass config f c') : c = c' := by
  have hsome := classify_eq_some_iff.mpr h
  rw [classify_eq_some_iff.mpr h', Option.some.injEq] at hsome
  exact hsome.symm

theorem ordinals_concat_of_ne {c' : PciClass} (hclass : HasClass config f c)
    (hne : c' ≠ c) :
    ordinals config (rs ++ [f]) c' = ordinals config rs c' := by
  rw [ordinals_concat, if_neg fun h => hne (h.unique hclass),
    List.append_nil]

/-- A store inside its table. -/
theorem recordClass_of_lt {ans : BitVec 32}
    (hlimit : (t.deviceCount c).toNat ≤ c.countLimit)
    (hin : (t.deviceCount c).toNat < c.tableLength) :
    recordClass p c ans t = {
      deviceCount := Function.update t.deviceCount c (t.deviceCount c + 1)
      table := Function.update t.table c
        (Function.update (t.table c) (t.deviceCount c).toNat ans)
      stores := (c, (t.deviceCount c).toNat) :: t.stores } := by
  rw [recordClass, if_pos hlimit]
  simp only [if_pos hin]

/-- The entries of a list with one element more. -/
theorem getElem?_concat_elim {xs : List ℕ} {n i : ℕ} (g : ℕ → BitVec 32)
    (default : BitVec 32) (hi : i ≠ xs.length) :
    ((xs ++ [n])[i]?).elim default g = (xs[i]?).elim default g := by
  rcases Nat.lt_or_gt_of_ne hi with hlt | hgt
  · rw [List.getElem?_append_left hlt]
  · have hlen : (xs ++ [n]).length ≤ i := by
      rw [List.length_append]
      exact hgt
    rw [List.getElem?_eq_none hlen, List.getElem?_eq_none (by omega)]

/-- With room in its table, the function is stored where it belongs. -/
theorem TablesHold.concat (h : TablesHold config rs t)
    (hclass : HasClass config f c)
    (hroom : (ordinals config rs c).length < c.tableLength) :
    TablesHold config (rs ++ [f])
      (recordClass p c (BitVec.ofNat 32 rs.length) t) := by
  have hcount : (t.deviceCount c).toNat = (ordinals config rs c).length := by
    rw [h.count]
    omega
  have hin : (t.deviceCount c).toNat < c.tableLength := by omega
  have hlimit : (t.deviceCount c).toNat ≤ c.countLimit := by
    rw [countLimit_eq]
    omega
  have hbound := tableLength_le c
  rw [recordClass_of_lt hlimit hin, hcount]
  constructor
  · intro c' i hmem
    rcases List.mem_cons.mp hmem with heq | hold
    · rw [Prod.mk.injEq] at heq
      rw [heq.1, heq.2]
      exact hroom
    · exact h.inBounds c' i hold
  · intro c' i hi
    by_cases hc : c' = c
    · subst hc
      change Function.update t.table c' _ c' i = _
      rw [Function.update_self, ordinals_concat_of_hasClass hclass]
      by_cases hnow : i = (ordinals config rs c').length
      · rw [hnow, Function.update_self, List.getElem?_concat_length]
        rfl
      · rw [Function.update_of_ne hnow, getElem?_concat_elim _ _ hnow]
        exact h.entries c' i hi
    · change Function.update t.table c _ c' i = _
      rw [Function.update_of_ne hc, ordinals_concat_of_ne hclass hc]
      exact h.entries c' i hi
  · intro c'
    by_cases hc : c' = c
    · subst hc
      change (Function.update t.deviceCount c' _ c').toNat = _
      rw [Function.update_self, ordinals_concat_of_hasClass hclass,
        List.length_append, List.length_singleton]
      bv_omega
    · change (Function.update t.deviceCount c _ c').toNat = _
      rw [Function.update_of_ne hc, ordinals_concat_of_ne hclass hc]
      exact h.count c'

/-- With its table full, the function is stored past the end. -/
theorem mem_stores_recordClass_of_full (h : TablesHold config rs t)
    (hfull : (ordinals config rs c).length = c.tableLength)
    (ans : BitVec 32) :
    (c, c.tableLength) ∈ (recordClass p c ans t).stores := by
  have hcount : (t.deviceCount c).toNat = c.tableLength := by
    rw [h.count]
    omega
  have hlimit : (t.deviceCount c).toNat ≤ c.countLimit := by
    rw [countLimit_eq]
    omega
  rw [recordClass, if_pos hlimit, hcount]
  exact List.mem_cons_self

/-- No store is forgotten. -/
theorem stores_subset_recordedClasses (ans : BitVec 32) :
    t.stores ⊆ (recordedClasses p config f ans t).stores := by
  rw [recordedClasses]
  split
  · exact List.Subset.refl _
  · rw [recordClass]
    split
    · exact List.subset_cons_self _ _
    · exact List.Subset.refl _

/-! ## Recording all functions -/

theorem recordedClasses_of_hasClass (hclass : HasClass config f c)
    (ans : BitVec 32) :
    recordedClasses p config f ans t = recordClass p c ans t := by
  rw [recordedClasses, classify_eq_some_iff.mpr hclass]

theorem recordedClasses_of_noClass (hclass : ∀ c, ¬HasClass config f c)
    (ans : BitVec 32) : recordedClasses p config f ans t = t := by
  have hnone : classify (config ⟨f, 2⟩ >>> 8) = none := by
    rw [Option.eq_none_iff_forall_ne_some]
    intro c hc
    exact hclass c (classify_eq_some_iff.mp hc)
  rw [recordedClasses, hnone]

theorem ClassesFit.of_concat (h : ClassesFit config (rs ++ [f])) :
    ClassesFit config rs := by
  intro c
  have hle := h c
  rw [ordinals_concat, List.length_append] at hle
  omega

/-- If every class fits, the tables are right. -/
theorem ClassesFit.tablesHold (h : ClassesFit config rs) :
    TablesHold config rs (classesAfter p config rs initialClassTables) := by
  induction rs using List.reverseRecOn with
  | nil =>
      refine ⟨?_, ?_, ?_⟩
      · intro c i hmem
        exact absurd hmem List.not_mem_nil
      · intro c i _
        rfl
      · intro c
        exact (Nat.min_zero _).symm
  | append_singleton rs f ih =>
      have hbefore := ih h.of_concat
      rw [classesAfter_concat]
      by_cases hclass : ∃ c, HasClass config f c
      · obtain ⟨c, hc⟩ := hclass
        have hfits := h c
        rw [ordinals_concat_of_hasClass hc, List.length_append,
          List.length_singleton] at hfits
        rw [recordedClasses_of_hasClass hc]
        exact hbefore.concat hc hfits
      · rw [not_exists] at hclass
        rw [recordedClasses_of_noClass hclass]
        exact hbefore.concat_of_noClass hclass

/-- If every store was inside its table, every class fits: the first function
too many is stored past the end while the tables are still right. -/
theorem classesFit_of_inBounds
    (h : ∀ c i, (c, i) ∈ (classesAfter p config rs initialClassTables).stores →
      i < c.tableLength) : ClassesFit config rs := by
  induction rs using List.reverseRecOn with
  | nil =>
      intro c
      exact Nat.zero_le _
  | append_singleton rs f ih =>
      rw [classesAfter_concat] at h
      have hbefore := ih fun c i hmem =>
        h c i (stores_subset_recordedClasses _ hmem)
      intro c
      by_cases hclass : HasClass config f c
      · rw [ordinals_concat_of_hasClass hclass, List.length_append,
          List.length_singleton]
        by_contra hover
        have hle := hbefore c
        rw [recordedClasses_of_hasClass hclass] at h
        have hpast := h c c.tableLength (mem_stores_recordClass_of_full
          (hbefore.tablesHold (p := p)) (by omega) _)
        exact absurd hpast (Nat.lt_irrefl _)
      · rw [ordinals_concat, if_neg hclass, List.append_nil]
        exact hbefore c

/-- The class tables that enumeration leaves. -/
theorem classes_pciEnumeration (p : Platform) (bridge : HostBridge)
    (device : ℕ → PcieDevice) :
    (pciEnumeration p (initialPciState bridge device)).classes =
      classesAfter p bridge.config (recorded bridge.config)
        initialClassTables := by
  obtain ⟨ans, h⟩ :=
    recordedIn_pciEnumeration p (initialPciState bridge device)
  exact h.classes

/-- After enumeration the class tables are right exactly if no class has more
recorded functions than its table has entries. -/
theorem tablesHold_pciEnumeration_iff (p : Platform) (bridge : HostBridge)
    (device : ℕ → PcieDevice) :
    TablesHold bridge.config (recorded bridge.config)
        (pciEnumeration p (initialPciState bridge device)).classes ↔
      ∀ c, (ordinals bridge.config (recorded bridge.config) c).length ≤
        c.tableLength := by
  rw [classes_pciEnumeration]
  constructor
  · intro hhold
    exact classesFit_of_inBounds hhold.inBounds
  · intro hfits
    exact ClassesFit.tablesHold hfits

/-! ## Five IDE controllers -/

theorem ordinals_length (config : Register → BitVec 32)
    (rs : List FunctionId) (c : PciClass) :
    (ordinals config rs c).length =
      rs.countP fun f => HasClass config f c := by
  induction rs using List.reverseRecOn with
  | nil => rfl
  | append_singleton rs f ih =>
      rw [ordinals_concat, List.length_append, ih, List.countP_append]
      by_cases h : HasClass config f c
      · simp [h]
      · simp [h]

theorem FunctionId.Before.ne {f g : FunctionId} (h : f.Before g) : f ≠ g := by
  rintro rfl
  simp [FunctionId.Before] at h

/-- On a machine with the functions `fs` these are found. -/
theorem found_perm {fs : List FunctionId} (hnodup : fs.Nodup)
    (h : ∀ f, (config ⟨f, 0⟩).setWidth 16 ≠ (0xFFFF : BitVec 16) ↔ f ∈ fs) :
    (found config).Perm fs := by
  have hfound : (found config).Nodup :=
    (functions_pairwise.filter _).imp fun h => h.ne
  rw [List.perm_ext_iff_of_nodup hfound hnodup]
  intro f
  rw [mem_found, h f]

theorem length_ordinals_of_perm {fs : List FunctionId}
    (h : (found config).Perm fs) (hlength : fs.length ≤ 1024) :
    (ordinals config (recorded config) c).length =
      fs.countP fun f => HasClass config f c := by
  rw [ordinals_length, recorded,
    List.take_of_length_le (by rw [h.length_eq]; exact hlength), h.countP_eq]

/-- Functions 0 to 4 of device 0 on bus 0. -/
def ideFunctions : List FunctionId :=
  [⟨0, 0, 0⟩, ⟨0, 0, 1⟩, ⟨0, 0, 2⟩, ⟨0, 0, 3⟩, ⟨0, 0, 4⟩]

/-- A machine with five IDE controllers and nothing else. -/
def fiveIdeControllers : HostBridge where
  address := 0
  config r :=
    if r.owner ∈ ideFunctions then
      if r.reg = 0 then 0x70108086 else 0x01018000
    else 0xFFFFFFFF
  writes := []

theorem found_fiveIdeControllers :
    (found fiveIdeControllers.config).Perm ideFunctions := by
  refine found_perm (by decide) fun f => ?_
  by_cases hf : f ∈ ideFunctions
  · simp [fiveIdeControllers, hf]
  · simp [fiveIdeControllers, hf]

/-- The fifth of five IDE controllers is stored past the end of `IDE_device`,
which has four entries. -/
theorem not_tablesHold_fiveIdeControllers :
    ¬∀ (p : Platform) (bridge : HostBridge) (device : ℕ → PcieDevice),
      TablesHold bridge.config (recorded bridge.config)
        (pciEnumeration p (initialPciState bridge device)).classes := by
  intro h
  have hhold := h ⟨fun _ => 0, fun _ _ _ t => t⟩ fiveIdeControllers
    fun _ => ⟨0, 0, 0, 0, 0, 0, fun _ => 0⟩
  rw [classes_pciEnumeration] at hhold
  have hfits := classesFit_of_inBounds hhold.inBounds .ide
  rw [length_ordinals_of_perm found_fiveIdeControllers (by decide)] at hfits
  exact absurd hfits (by decide)

end OpenFerain
