import OpenFerain.Device.Pci
import Mathlib.Tactic.IntervalCases

/-!
# What PCI enumeration records

The address that `Convert_to_32data` composes selects the register it is meant
to select, and the three loops visit every function once, in order.  The first
1024 functions that answer are recorded, with the fields of their own
registers.
-/

namespace OpenFerain

theorem run_bind {σ α β : Type} (x : StateM σ α) (f : α → StateM σ β)
    (s : σ) : (x >>= f).run s = (f (x.run s).1).run (x.run s).2 := rfl

theorem run_modify {σ : Type} (f : σ → σ) (s : σ) :
    (modify f : StateM σ Unit).run s = ((), f s) := rfl

/-! ## Reading the configuration space -/

/-- The address names the register that the arguments name. -/
theorem decodeAddress_convertTo32Data (bus dev function reg : BitVec 8) :
    decodeAddress (convertTo32Data bus dev function reg) = some {
      owner := {
        bus := bus
        dev := dev.setWidth 5
        function := function.setWidth 3 }
      reg := reg.setWidth 6 } := by
  have henable : (convertTo32Data bus dev function reg).getLsbD 31 = true := by
    simp [convertTo32Data]
  have hbus : (convertTo32Data bus dev function reg).extractLsb' 16 8 =
      bus := by
    apply BitVec.eq_of_getLsbD_eq
    intro i hi
    simp only [convertTo32Data]
    interval_cases i <;> simp
  have hdev : (convertTo32Data bus dev function reg).extractLsb' 11 5 =
      dev.setWidth 5 := by
    apply BitVec.eq_of_getLsbD_eq
    intro i hi
    simp only [convertTo32Data]
    interval_cases i <;> simp
  have hfunction : (convertTo32Data bus dev function reg).extractLsb' 8 3 =
      function.setWidth 3 := by
    apply BitVec.eq_of_getLsbD_eq
    intro i hi
    simp only [convertTo32Data]
    interval_cases i <;> simp
  have hreg : (convertTo32Data bus dev function reg).extractLsb' 2 6 =
      reg.setWidth 6 := by
    apply BitVec.eq_of_getLsbD_eq
    intro i hi
    simp only [convertTo32Data]
    interval_cases i <;> simp
  rw [decodeAddress, if_pos henable, hbus, hdev, hfunction, hreg]

variable {p : Platform} {s : PciState} {f : FunctionId} {ans : BitVec 32}

/-- The number of a device as the loops hold it. -/
def FunctionId.j (f : FunctionId) : BitVec 8 := f.dev.setWidth 8

/-- The number of a function as the loops hold it. -/
def FunctionId.k (f : FunctionId) : BitVec 8 := f.function.setWidth 8

theorem inpd_run (port : BitVec 16) {r : Register}
    (h : decodeAddress s.bridge.address = some r) :
    (inpd port).run s = (s.bridge.config r, s) := by
  have hget : (get : StateM PciState PciState).run s = (s, s) := rfl
  simp only [inpd, run_bind, hget, h]
  rfl

theorem readRegister_run (reg : BitVec 8) :
    (readRegister p f.bus f.j f.k reg).run s =
      (s.bridge.config ⟨f, reg.setWidth 6⟩,
        s.select (convertTo32Data f.bus f.j f.k reg)) := by
  have hdecode : decodeAddress (convertTo32Data f.bus f.j f.k reg) =
      some ⟨f, reg.setWidth 6⟩ := by
    rw [decodeAddress_convertTo32Data, FunctionId.j, FunctionId.k,
      BitVec.setWidth_setWidth_of_le _ (by decide),
      BitVec.setWidth_setWidth_of_le _ (by decide), BitVec.setWidth_eq,
      BitVec.setWidth_eq]
  have hread := inpd_run 0xCFC
    (s := s.select (convertTo32Data f.bus f.j f.k reg)) hdecode
  exact hread

/-! ## Recording a function -/

@[simp] theorem config_select (s : PciState) (address : BitVec 32) :
    (s.select address).bridge.config = s.bridge.config := rfl

@[simp] theorem config_mapDevice (s : PciState) (n : ℕ)
    (g : PcieDevice → PcieDevice) :
    (s.mapDevice n g).bridge.config = s.bridge.config := rfl

@[simp] theorem select_select (s : PciState) (a b : BitVec 32) :
    (s.select a).select b = s.select b := rfl

/-- Selecting a register does not touch the device table. -/
theorem mapDevice_select (s : PciState) (address : BitVec 32) (n : ℕ)
    (g : PcieDevice → PcieDevice) :
    (s.select address).mapDevice n g = (s.mapDevice n g).select address := rfl

theorem mapDevice_mapDevice (s : PciState) (n : ℕ)
    (g h : PcieDevice → PcieDevice) :
    (s.mapDevice n g).mapDevice n h = s.mapDevice n fun d => h (g d) := by
  simp only [PciState.mapDevice, Function.update_self, Function.update_idem]

/-- `conf_bar` returns at its first line. -/
theorem confBar_run (bus dev function : BitVec 8) (select : BitVec 32) :
    (confBar p bus dev function select).run s =
      (0, { s with continueFlag := 1 }) := rfl

/-- The state after `conf_bar` calls that recorded nothing but `g` at `n`. -/
def barsAssigned (s : PciState) (n : ℕ) (g : PcieDevice → PcieDevice) :
    PciState :=
  { s.mapDevice n g with continueFlag := 1 }

theorem barsAssigned_barsAssigned (s : PciState) (n : ℕ)
    (g h : PcieDevice → PcieDevice) :
    barsAssigned (barsAssigned s n g) n h =
      barsAssigned s n fun d => h (g d) := by
  simp only [barsAssigned, PciState.mapDevice, Function.update_self,
    Function.update_idem]

theorem barsAssigned_select (s : PciState) (address : BitVec 32) (n : ℕ)
    (g : PcieDevice → PcieDevice) :
    barsAssigned (s.select address) n g =
      (barsAssigned s n g).select address := rfl

theorem barsAssigned_mapDevice (s : PciState) (n : ℕ)
    (g h : PcieDevice → PcieDevice) :
    barsAssigned (s.mapDevice n g) n h =
      barsAssigned s n fun d => h (g d) := by
  simp only [barsAssigned, mapDevice_mapDevice]

theorem assignBar_run (i j k : BitVec 8) {n : Fin 6} (hn : n ≠ 0) :
    (assignBar p i j k ans n).run s =
      (BitVec.ofNat 32 n,
        barsAssigned s ans.toNat (PcieDevice.setBar n 0)) := by
  have hcounter : BitVec.ofNat 32 n ≠ 0 := by
    revert n
    decide
  rw [assignBar, if_pos hcounter]
  simp only [run_bind, confBar_run]
  rfl

/-- What the loop over the base address registers does to an entry: all fields
but the first become 0. -/
def clearBars (d : PcieDevice) : PcieDevice :=
  { d with confBase := fun n => if n.val = 0 then d.confBase n else 0 }

/-- The loop clears the fields one by one. -/
theorem setBar_clearBars (d : PcieDevice) :
    ((((d.setBar 1 0).setBar 2 0).setBar 3 0).setBar 4 0).setBar 5 0 =
      clearBars d := by
  have hbase : Function.update (Function.update (Function.update
      (Function.update (Function.update d.confBase 1 0) 2 0) 3 0) 4 0) 5 0 =
        fun n : Fin 6 => if n.val = 0 then d.confBase n else 0 := by
    funext n
    obtain ⟨n, hn⟩ := n
    interval_cases n <;> rfl
  simp only [PcieDevice.setBar, clearBars, hbase]

theorem barBody_run (i j k : BitVec 8) (s : PciState) :
    (barBody p i j k ans).run s =
      (5, barsAssigned s ans.toNat clearBars) := by
  have hfirst : (assignBar p i j k ans 0).run s = (0, s) := rfl
  have hone : (1 : Fin 6) ≠ 0 := by decide
  have htwo : (2 : Fin 6) ≠ 0 := by decide
  have hthree : (3 : Fin 6) ≠ 0 := by decide
  have hfour : (4 : Fin 6) ≠ 0 := by decide
  have hfive : (5 : Fin 6) ≠ 0 := by decide
  simp only [barBody, run_bind, hfirst, assignBar_run i j k hone,
    assignBar_run i j k htwo, assignBar_run i j k hthree,
    assignBar_run i j k hfour, assignBar_run i j k hfive,
    barsAssigned_barsAssigned, setBar_clearBars]
  rfl

/-- The loop ends after one turn. -/
theorem barLoop_zero (i j k : BitVec 8) (s : PciState) :
    barLoop p i j k ans 0 s = barsAssigned s ans.toNat clearBars := by
  have hend : ¬(5 : BitVec 32) + 1 < 6 := by decide
  rw [barLoop, if_pos (by decide), barLoop, barBody_run, if_neg hend]

/-- The entry that is recorded for a function, where `old` was before. -/
def recordedDevice (config : Register → BitVec 32) (f : FunctionId)
    (old : PcieDevice) : PcieDevice :=
  clearBars {
    bus := f.bus
    device := f.j
    function := f.k
    vendorId := (config ⟨f, 0⟩).setWidth 16
    classCode := config ⟨f, 2⟩ >>> 8
    headerType := (config ⟨f, 3⟩ >>> 16).setWidth 8
    confBase := old.confBase }

/-- The class tables after function `f` is recorded with ordinal `ans`. -/
def recordedClasses (p : Platform) (config : Register → BitVec 32)
    (f : FunctionId) (ans : BitVec 32) (t : ClassTables) : ClassTables :=
  match classify (config ⟨f, 2⟩ >>> 8) with
  | none => t
  | some c => recordClass p c ans t

/-- The state after function `f` is recorded with ordinal `ans`. -/
def recordedState (p : Platform) (f : FunctionId) (ans : BitVec 32)
    (s : PciState) : PciState :=
  { (barsAssigned s ans.toNat (recordedDevice s.bridge.config f)).select
      (convertTo32Data f.bus f.j f.k 4) with
    classes := recordedClasses p s.bridge.config f ans s.classes }

theorem recordDeviceClass_run (ans : BitVec 32) (s : PciState) :
    ((recordDeviceClass p ans).run s).2 =
      match classify (s.device ans.toNat).classCode with
      | none => s
      | some c => { s with classes := recordClass p c ans s.classes } := rfl

theorem recordFunction_run (ans : BitVec 32) (vendor : BitVec 16)
    (hvendor : vendor = (s.bridge.config ⟨f, 0⟩).setWidth 16) :
    ((recordFunction p f.bus f.j f.k vendor ans).run s).2 =
      recordedState p f ans s := by
  subst hvendor
  have hfields : ((recordFunction p f.bus f.j f.k
      ((s.bridge.config ⟨f, 0⟩).setWidth 16) ans).run s).2 =
        ((recordDeviceClass p ans).run ((barsAssigned s ans.toNat
          (recordedDevice s.bridge.config f)).select
            (convertTo32Data f.bus f.j f.k 4))).2 := by
    simp only [recordFunction, setDevice, run_bind, run_modify,
      readRegister_run, barLoop_zero, outpd, if_pos, mapDevice_select,
      mapDevice_mapDevice, select_select, config_select, config_mapDevice,
      barsAssigned_select, barsAssigned_mapDevice]
    rfl
  have hclass : (((barsAssigned s ans.toNat
      (recordedDevice s.bridge.config f)).select
        (convertTo32Data f.bus f.j f.k 4)).device ans.toNat).classCode =
          s.bridge.config ⟨f, 2⟩ >>> 8 := by
    simp only [PciState.select, barsAssigned, PciState.mapDevice,
      Function.update_self]
    rfl
  rw [hfields, recordDeviceClass_run, hclass, recordedState, recordedClasses]
  split
  · rfl
  · rfl

/-! ## The order of the scan -/

/-- The functions in the order in which the loops visit them. -/
def functions : List FunctionId :=
  (List.range 256).flatMap fun i =>
    (List.range 32).flatMap fun j =>
      (List.range 8).map fun k =>
        ⟨BitVec.ofNat 8 i, BitVec.ofNat 5 j, BitVec.ofNat 3 k⟩

/-- Increasing (bus, device, function) order. -/
def FunctionId.Before (f g : FunctionId) : Prop :=
  f.bus < g.bus ∨ f.bus = g.bus ∧
    (f.dev < g.dev ∨ f.dev = g.dev ∧ f.function < g.function)

theorem mem_functions (f : FunctionId) : f ∈ functions := by
  simp only [functions, List.mem_flatMap, List.mem_range, List.mem_map]
  exact ⟨f.bus.toNat, f.bus.isLt, f.dev.toNat, f.dev.isLt, f.function.toNat,
    f.function.isLt, by simp only [BitVec.ofNat_toNat, BitVec.setWidth_eq]⟩

theorem ofNat_lt_ofNat {w i j : ℕ} (hij : i < j) (hj : j < 2 ^ w) :
    BitVec.ofNat w i < BitVec.ofNat w j := by
  rw [BitVec.lt_def, BitVec.toNat_ofNat, BitVec.toNat_ofNat,
    Nat.mod_eq_of_lt hj, Nat.mod_eq_of_lt (hij.trans hj)]
  exact hij

theorem functions_pairwise : functions.Pairwise FunctionId.Before := by
  rw [functions, List.pairwise_flatMap]
  constructor
  · intro i _
    rw [List.pairwise_flatMap]
    constructor
    · intro j _
      rw [List.pairwise_map]
      refine List.pairwise_lt_range.imp_of_mem ?_
      intro k k' _ hk' hlt
      exact Or.inr ⟨rfl, Or.inr ⟨rfl,
        ofNat_lt_ofNat hlt (List.mem_range.mp hk')⟩⟩
    · refine List.pairwise_lt_range.imp_of_mem ?_
      intro j j' _ hj' hlt f hf g hg
      obtain ⟨k, -, rfl⟩ := List.mem_map.mp hf
      obtain ⟨k', -, rfl⟩ := List.mem_map.mp hg
      exact Or.inr ⟨rfl, Or.inl
        (ofNat_lt_ofNat hlt (List.mem_range.mp hj'))⟩
  · refine List.pairwise_lt_range.imp_of_mem ?_
    intro i i' _ hi' hlt f hf g hg
    obtain ⟨j, -, hf⟩ := List.mem_flatMap.mp hf
    obtain ⟨k, -, rfl⟩ := List.mem_map.mp hf
    obtain ⟨j', -, hg⟩ := List.mem_flatMap.mp hg
    obtain ⟨k', -, rfl⟩ := List.mem_map.mp hg
    exact Or.inl (ofNat_lt_ofNat hlt (List.mem_range.mp hi'))

/-- The loops visit the functions one after the other. -/
theorem scanBuses_eq (s : Enumeration) :
    scanBuses p s =
      functions.foldlM (fun s f => visit p f.bus f.j f.k s) s := by
  rw [functions, Scan.foldlM_flatMap]
  refine Scan.foldlM_congr ?_ s
  intro i _ s
  rw [Scan.foldlM_flatMap]
  refine Scan.foldlM_congr ?_ s
  intro j hj s
  rw [List.foldlM_map]
  refine Scan.foldlM_congr ?_ s
  intro k hk s
  have hdev : BitVec.ofNat 8 j = (BitVec.ofNat 5 j).setWidth 8 := by
    have hlt := List.mem_range.mp hj
    bv_omega
  have hfunction : BitVec.ofNat 8 k = (BitVec.ofNat 3 k).setWidth 8 := by
    have hlt := List.mem_range.mp hk
    bv_omega
  rw [hdev, hfunction, FunctionId.j, FunctionId.k]

/-! ## The scan -/

/-- The function answers: its vendor word is not all ones. -/
def Present (config : Register → BitVec 32) (f : FunctionId) : Bool :=
  (config ⟨f, 0⟩).setWidth 16 ≠ (0xFFFF : BitVec 16)

/-- The functions that answer, in order. -/
def found (config : Register → BitVec 32) : List FunctionId :=
  functions.filter (Present config)

/-- The functions that are recorded. -/
def recorded (config : Register → BitVec 32) : List FunctionId :=
  (found config).take 1024

/-- The class tables after the functions `rs` are recorded. -/
def classesAfter (p : Platform) (config : Register → BitVec 32)
    (rs : List FunctionId) (t : ClassTables) : ClassTables :=
  rs.zipIdx.foldl
    (fun t x => recordedClasses p config x.1 (BitVec.ofNat 32 x.2) t) t

theorem classesAfter_concat (p : Platform) (config : Register → BitVec 32)
    (rs : List FunctionId) (f : FunctionId) (t : ClassTables) :
    classesAfter p config (rs ++ [f]) t =
      recordedClasses p config f (BitVec.ofNat 32 rs.length)
        (classesAfter p config rs t) := by
  rw [classesAfter, List.zipIdx_append, List.foldl_append, Nat.zero_add]
  rfl

/-- The state after the functions `rs` are recorded, where `s₀` was before. -/
structure RecordedIn (p : Platform) (s₀ : PciState) (rs : List FunctionId)
    (s : Enumeration) : Prop where
  ans : s.ans = BitVec.ofNat 32 rs.length
  config : s.state.bridge.config = s₀.bridge.config
  writes : s.state.bridge.writes = s₀.bridge.writes
  device : ∀ n, s.state.device n =
    (rs[n]?).elim (s₀.device n) fun f =>
      recordedDevice s₀.bridge.config f (s₀.device n)
  classes : s.state.classes =
    classesAfter p s₀.bridge.config rs s₀.classes

variable {s₀ : PciState} {rs : List FunctionId} {e : Enumeration}

theorem RecordedIn.select (h : RecordedIn p s₀ rs e) (address : BitVec 32) :
    RecordedIn p s₀ rs { e with state := e.state.select address } :=
  ⟨h.ans, h.config, h.writes, h.device, h.classes⟩

theorem RecordedIn.concat (h : RecordedIn p s₀ rs e)
    (hlen : rs.length < 1024) (f : FunctionId) :
    RecordedIn p s₀ (rs ++ [f])
      { ans := e.ans + 1, state := recordedState p f e.ans e.state } := by
  have hans : e.ans.toNat = rs.length := by
    rw [h.ans, BitVec.toNat_ofNat, Nat.mod_eq_of_lt (by omega)]
  refine ⟨?_, h.config, h.writes, ?_, ?_⟩
  · rw [h.ans, List.length_append, BitVec.ofNat_add]
    rfl
  · intro n
    change Function.update e.state.device e.ans.toNat
      (recordedDevice e.state.bridge.config f (e.state.device e.ans.toNat)) n =
        _
    rw [hans, h.config]
    rcases Nat.lt_trichotomy n rs.length with hlt | rfl | hgt
    · rw [Function.update_of_ne (by omega), h.device n,
        List.getElem?_append_left hlt]
    · rw [Function.update_self, List.getElem?_concat_length, h.device,
        List.getElem?_eq_none (Nat.le_refl _)]
      rfl
    · rw [Function.update_of_ne (by omega), h.device n,
        List.getElem?_eq_none (by omega),
        List.getElem?_eq_none (by rw [List.length_append]; exact hgt)]
  · rw [classesAfter_concat, ← h.ans, ← h.classes, ← h.config]
    rfl

/-- The value of `visit` at a function. -/
theorem visit_eq (e : Enumeration) :
    visit p f.bus f.j f.k e =
      let s := e.state.select (convertTo32Data f.bus f.j f.k 0)
      if Present e.state.bridge.config f then
        if e.ans ≥ pcieDeviceMax then .error { e with state := s }
        else .ok { ans := e.ans + 1, state := recordedState p f e.ans s }
      else .ok { e with state := s } := by
  have hrecord := recordFunction_run (p := p) (f := f)
    (s := e.state.select (convertTo32Data f.bus f.j f.k 0)) e.ans
    ((e.state.bridge.config ⟨f, 0⟩).setWidth 16) rfl
  simp only [visit, readRegister_run, Present, decide_eq_true_eq]
  rw [← hrecord]
  rfl

theorem visit_records (p : Platform) (s₀ : PciState) :
    Scan.Records (Present s₀.bridge.config) 1024 (RecordedIn p s₀)
      fun e f => visit p f.bus f.j f.k e := by
  constructor
  · intro rs e f _ h habsent
    refine ⟨_, ?_, h.select (convertTo32Data f.bus f.j f.k 0)⟩
    rw [visit_eq, h.config]
    simp only [habsent]
    rfl
  · intro rs e f hlen h hpresent
    have hroom : ¬e.ans ≥ pcieDeviceMax := by
      rw [h.ans, pcieDeviceMax]
      bv_omega
    refine ⟨_, ?_, (h.select (convertTo32Data f.bus f.j f.k 0)).concat hlen f⟩
    rw [visit_eq, h.config]
    simp only [hpresent, hroom, if_true, if_false]
  · intro rs e f hlen h hpresent
    have hfull : e.ans ≥ pcieDeviceMax := by
      rw [h.ans, pcieDeviceMax]
      bv_omega
    refine ⟨_, ?_, h.select (convertTo32Data f.bus f.j f.k 0)⟩
    rw [visit_eq, h.config]
    simp only [hpresent, hfull, if_true]

/-- What `PCI_Enumeration` leaves. -/
theorem recordedIn_pciEnumeration (p : Platform) (s₀ : PciState) :
    ∃ ans, RecordedIn p s₀ (recorded s₀.bridge.config)
      { ans := ans, state := pciEnumeration p s₀ } := by
  have hstart : RecordedIn p s₀ [] { ans := 0, state := s₀ } :=
    ⟨rfl, rfl, rfl, fun n => rfl, rfl⟩
  have hend := (visit_records p s₀).outcome_foldlM functions
    (Nat.zero_le _) hstart
  rw [List.nil_append, ← scanBuses_eq] at hend
  exact ⟨_, hend⟩

/-! ## The device table -/

/-- An entry of `device` has the fields of the registers of function `f`. -/
structure Describes (config : Register → BitVec 32) (f : FunctionId)
    (d : PcieDevice) : Prop where
  bus : d.bus = f.bus
  device : d.device.toNat = f.dev.toNat
  function : d.function.toNat = f.function.toNat
  vendorId : d.vendorId = (config ⟨f, 0⟩).extractLsb' 0 16
  classCode : d.classCode.toNat = ((config ⟨f, 2⟩).extractLsb' 8 24).toNat
  headerType : d.headerType = (config ⟨f, 3⟩).extractLsb' 16 8

theorem setWidth_shiftRight (x : BitVec 32) (k w : ℕ) :
    (x >>> k).setWidth w = x.extractLsb' k w := by
  apply BitVec.eq_of_getLsbD_eq
  intro i hi
  rw [BitVec.getLsbD_setWidth, BitVec.getLsbD_ushiftRight,
    BitVec.getLsbD_extractLsb']

theorem describes_recordedDevice (config : Register → BitVec 32)
    (f : FunctionId) (old : PcieDevice) :
    Describes config f (recordedDevice config f old) where
  bus := rfl
  device := BitVec.toNat_setWidth_of_le (by decide)
  function := BitVec.toNat_setWidth_of_le (by decide)
  vendorId := setWidth_shiftRight (config ⟨f, 0⟩) 0 16
  classCode := by
    have hlt := (config ⟨f, 2⟩).isLt
    change (config ⟨f, 2⟩ >>> 8).toNat = _
    rw [BitVec.toNat_ushiftRight, BitVec.extractLsb'_toNat,
      Nat.shiftRight_eq_div_pow]
    omega
  headerType := setWidth_shiftRight (config ⟨f, 3⟩) 16 8

theorem mem_found (config : Register → BitVec 32) (f : FunctionId) :
    f ∈ found config ↔ (config ⟨f, 0⟩).setWidth 16 ≠ (0xFFFF : BitVec 16) := by
  rw [found, List.mem_filter, Present, decide_eq_true_eq]
  exact and_iff_right (mem_functions f)

/-- Enumeration is exact: the functions that answer, in order and each once,
fill the table from its first entry on as far as it reaches, and no other entry
is written. -/
theorem pciEnumeration_exact (p : Platform) (s : PciState) :
    ∃ fs : List FunctionId, fs.Pairwise FunctionId.Before ∧
      (∀ f, f ∈ fs ↔
        (s.bridge.config ⟨f, 0⟩).setWidth 16 ≠ (0xFFFF : BitVec 16)) ∧
      (∀ n f, n < 1024 → fs[n]? = some f →
        Describes s.bridge.config f ((pciEnumeration p s).device n)) ∧
      ∀ n, min 1024 fs.length ≤ n →
        (pciEnumeration p s).device n = s.device n := by
  obtain ⟨ans, h⟩ := recordedIn_pciEnumeration p s
  refine ⟨found s.bridge.config, functions_pairwise.filter _,
    mem_found s.bridge.config, ?_, ?_⟩
  · intro n f hn hf
    have hentry := h.device n
    rw [recorded, List.getElem?_take_of_lt hn, hf] at hentry
    rw [hentry]
    exact describes_recordedDevice s.bridge.config f (s.device n)
  · intro n hn
    have hentry := h.device n
    rw [recorded, List.getElem?_eq_none
      (by rw [List.length_take]; exact hn)] at hentry
    exact hentry

end OpenFerain
