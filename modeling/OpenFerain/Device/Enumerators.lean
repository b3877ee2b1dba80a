import OpenFerain.Device.ClassTables

/-!
# The controller enumerators

`PCI_ISA_ENU` and its five copies print where the controllers of their class
are.  They differ in their table, their texts and the bound of their loop.  The
loop also ends at the first unused entry, which a full table does not have: so
the bound has to be the length of the table.  `PCI_SDHOST_ENU` has the bound 8
and a table of four entries, and with four SD host controllers it reads the
word behind its table.
-/

namespace OpenFerain

/-! ## The source functions -/

/-- `dec_digit` and the print of its digits are one output. -/
inductive EnumOutput where
  | printf (text : String)
  | println (text : String)
  | printfNumber (n : BitVec 32)
  | printlnNumber (n : BitVec 32)
  deriving DecidableEq

/-- What an enumerator does: it reads its table and `device`, and it prints. -/
inductive EnumEvent where
  | readTable (i : ℕ)
  | readDevice (n : ℕ)
  | print (output : EnumOutput)

/-- What the enumerators differ in. -/
structure Enumerator where
  controllers : PciClass
  bound : ℕ
  starts : String
  notFound : String
  enumerating : String
  located : String

/-- Where a controller is. -/
structure Location where
  bus : BitVec 8
  device : BitVec 8
  function : BitVec 8

def PcieDevice.location (d : PcieDevice) : Location :=
  ⟨d.bus, d.device, d.function⟩

section Enumerator

variable (e : Enumerator) (entry : ℕ → BitVec 32) (device : ℕ → PcieDevice)

/-- The body of the loop behind its test.  Each of the three fields is read
through the table. -/
def Enumerator.body (i : ℕ) : List EnumEvent :=
  let n := (entry i).toNat
  let read := [.readTable i, .readDevice n]
  [.print (.printf e.enumerating), .print (.printlnNumber (BitVec.ofNat 32 i))]
    ++ read ++ read ++ read ++
    [.print (.printf e.located),
      .print (.printf " Bus : "),
      .print (.printfNumber ((device n).bus.setWidth 32)),
      .print (.printf " Device : "),
      .print (.printfNumber ((device n).device.setWidth 32)),
      .print (.printf " Function : "),
      .print (.printlnNumber ((device n).function.setWidth 32))]

/-- The loop with `n` turns left. -/
def Enumerator.loop : ℕ → ℕ → List EnumEvent
  | 0, _ => []
  | n + 1, i =>
      .readTable i ::
        if entry i = 0xFFFFFFFF then []
        else e.body entry device i ++ Enumerator.loop n (i + 1)

/-- The text the six functions share. -/
def Enumerator.run : List EnumEvent :=
  .print (.println e.starts) :: .readTable 0 ::
    if entry 0 = 0xFFFFFFFF then [.print (.println e.notFound)]
    else e.loop entry device e.bound 0

end Enumerator

def isaEnumerator : Enumerator where
  controllers := .isaBridge
  bound := 4
  starts := "[ISA] ISA starts enumerating devices"
  notFound := "[ISA] Not Found Any ISA Bridge!!!"
  enumerating := "[ISA] Enumerating ISA Bridge "
  located := "[ISA] ISA Bridge Located in "

def ideEnumerator : Enumerator where
  controllers := .ide
  bound := 4
  starts := "[IDE] IDE starts enumerating devices"
  notFound := "[IDE] Not Found Any IDE Controller!!!"
  enumerating := "[IDE] Enumerating IDE Contraller "
  located := "[IDE] IDE Contraller Located in "

def sataEnumerator : Enumerator where
  controllers := .sataBus
  bound := 8
  starts := "[SATA] SATA starts enumerating devices"
  notFound := "[SATA] Not Found Any SATA Bus!!!"
  enumerating := "[SATA] Enumerating SATA Bus "
  located := "[SATA] SATA Bus Located in "

def usbEnumerator : Enumerator where
  controllers := .usb
  bound := 8
  starts := "[USB] USB starts enumerating devices"
  notFound := "[USB] Not Found Any USB Control!!!"
  enumerating := "[USB] Enumerating USB Contraller "
  located := "[USB] USB Contraller Located in "

/-- The bound is twice the length of `SD_device`. -/
def sdHostEnumerator : Enumerator where
  controllers := .sdHost
  bound := 8
  starts := "[SDHOST] SDHOST starts enumerating devices"
  notFound := "[SDHOST] Not Found Any SDHOST Controller!!!"
  enumerating := "[SDHOST] Enumerating SDHOST Contraller "
  located := "[SDHOST] SDHOST Contraller Located in "

def ieee1394Enumerator : Enumerator where
  controllers := .ieee1394
  bound := 4
  starts := "[IEEE1394] IEEE1394 starts enumerating devices"
  notFound := "[IEEE1394] Not Found Any IEEE1394 Controller!!!"
  enumerating := "[IEEE1394] Enumerating IEEE1394 Contraller "
  located := "[IEEE1394] IEEE1394 Contraller Located in "

/-- In the order of the calls in `init.c`. -/
def enumerators : List Enumerator :=
  [isaEnumerator, ideEnumerator, sataEnumerator, usbEnumerator,
    sdHostEnumerator, ieee1394Enumerator]

/-- An entry of a class table.  What is behind the table is left open. -/
def Enumerator.tableEntry (e : Enumerator) (behind : ℕ → BitVec 32)
    (s : PciState) (i : ℕ) : BitVec 32 :=
  if i < e.controllers.tableLength then s.classes.table e.controllers i
  else behind i

/-- An enumerator, run in a state. -/
def Enumerator.runIn (e : Enumerator) (behind : ℕ → BitVec 32)
    (s : PciState) : List EnumEvent :=
  e.run (e.tableEntry behind s) s.device

def pciIsaEnu := isaEnumerator.runIn

def pciIdeEnu := ideEnumerator.runIn

def pciSataEnu := sataEnumerator.runIn

def pciUsbEnu := usbEnumerator.runIn

def pciSdhostEnu := sdHostEnumerator.runIn

def pciIeee1394Enu := ieee1394Enumerator.runIn

/-! ## What they are for -/

def outputs (events : List EnumEvent) : List EnumOutput :=
  events.filterMap fun
    | .print output => some output
    | _ => none

/-- The lines about the controller at place `i` of the table. -/
def Enumerator.lines (e : Enumerator) (i : ℕ) (l : Location) :
    List EnumOutput :=
  [.printf e.enumerating, .printlnNumber (BitVec.ofNat 32 i),
    .printf e.located,
    .printf " Bus : ", .printfNumber (l.bus.setWidth 32),
    .printf " Device : ", .printfNumber (l.device.setWidth 32),
    .printf " Function : ", .printlnNumber (l.function.setWidth 32)]

/-- What an enumerator should print. -/
def Enumerator.report (e : Enumerator) (ls : List Location) : List EnumOutput :=
  .println e.starts ::
    if ls.isEmpty then [.println e.notFound]
    else ls.zipIdx.flatMap fun x => e.lines x.2 x.1

def FunctionId.location (f : FunctionId) : Location := ⟨f.bus, f.j, f.k⟩

/-- The recorded controllers of a class, in the order of their ordinals. -/
def controllers (config : Register → BitVec 32) (c : PciClass) :
    List FunctionId :=
  (recorded config).filter fun f => HasClass config f c

/-- An enumerator reads its table and `device` inside and prints each
controller of its class once, in order. -/
structure Enumerates (e : Enumerator) (config : Register → BitVec 32)
    (events : List EnumEvent) : Prop where
  tableReads : ∀ i, .readTable i ∈ events → i < e.controllers.tableLength
  deviceReads : ∀ n, .readDevice n ∈ events → n < 1024
  prints : outputs events =
    e.report ((controllers config e.controllers).map FunctionId.location)

/-- All six do. -/
structure AllEnumerate (config : Register → BitVec 32)
    (behind : ℕ → BitVec 32) (s : PciState) : Prop where
  isa : Enumerates isaEnumerator config (pciIsaEnu behind s)
  ide : Enumerates ideEnumerator config (pciIdeEnu behind s)
  sata : Enumerates sataEnumerator config (pciSataEnu behind s)
  usb : Enumerates usbEnumerator config (pciUsbEnu behind s)
  sdHost : Enumerates sdHostEnumerator config (pciSdhostEnu behind s)
  ieee1394 : Enumerates ieee1394Enumerator config (pciIeee1394Enu behind s)

theorem allEnumerate_iff (config : Register → BitVec 32)
    (behind : ℕ → BitVec 32) (s : PciState) :
    AllEnumerate config behind s ↔
      ∀ e ∈ enumerators, Enumerates e config (e.runIn behind s) := by
  constructor
  · rintro ⟨hisa, hide, hsata, husb, hsd, hieee⟩
    simp only [enumerators, List.forall_mem_cons]
    exact ⟨hisa, hide, hsata, husb, hsd, hieee, List.forall_mem_nil _⟩
  · intro h
    simp only [enumerators, List.forall_mem_cons] at h
    obtain ⟨hisa, hide, hsata, husb, hsd, hieee, -⟩ := h
    exact ⟨hisa, hide, hsata, husb, hsd, hieee⟩

/-! ## The loop over a table -/

section Loop

variable {e : Enumerator} {entry : ℕ → BitVec 32} {device : ℕ → PcieDevice}

theorem outputs_append (xs ys : List EnumEvent) :
    outputs (xs ++ ys) = outputs xs ++ outputs ys :=
  List.filterMap_append

/-- The body prints the lines of its controller. -/
theorem outputs_body (e : Enumerator) (entry : ℕ → BitVec 32)
    (device : ℕ → PcieDevice) (i : ℕ) :
    outputs (e.body entry device i) =
      e.lines i (device (entry i).toNat).location := rfl

theorem readTable_mem_body_iff {i j : ℕ} :
    EnumEvent.readTable j ∈ e.body entry device i ↔ j = i := by
  simp [Enumerator.body]

theorem readDevice_mem_body_iff {i n : ℕ} :
    EnumEvent.readDevice n ∈ e.body entry device i ↔ n = (entry i).toNat := by
  simp [Enumerator.body]

/-- The loop over entries that are in use, and perhaps the unused one behind
them. -/
structure LoopsOver (e : Enumerator) (device : ℕ → PcieDevice) (xs : List ℕ)
    (n i : ℕ) (events : List EnumEvent) : Prop where
  tableReads : ∀ j, .readTable j ∈ events →
    j < i + xs.length ∨ j = i + xs.length ∧ xs.length < n
  deviceReads : ∀ m, .readDevice m ∈ events → m ∈ xs
  prints : outputs events =
    ((xs.map fun m => (device m).location).zipIdx i).flatMap
      fun x => e.lines x.2 x.1

theorem loop_of_entries (e : Enumerator) (device : ℕ → PcieDevice)
    {xs : List ℕ} {n i : ℕ} (hle : xs.length ≤ n)
    (hsmall : ∀ m ∈ xs, m < 1024)
    (hentry : ∀ k m, xs[k]? = some m → entry (i + k) = BitVec.ofNat 32 m)
    (hstop : xs.length < n → entry (i + xs.length) = 0xFFFFFFFF) :
    LoopsOver e device xs n i (e.loop entry device n i) := by
  induction xs generalizing n i with
  | nil =>
      cases n with
      | zero =>
          exact ⟨fun j h => absurd h List.not_mem_nil,
            fun m h => absurd h List.not_mem_nil, rfl⟩
      | succ n =>
          have hend : entry i = 0xFFFFFFFF := hstop (Nat.succ_pos n)
          rw [Enumerator.loop, if_pos hend]
          refine ⟨fun j h => Or.inr ?_, fun m h => ?_, rfl⟩
          · obtain ⟨rfl⟩ : j = i := by simpa using h
            exact ⟨rfl, Nat.succ_pos n⟩
          · simp at h
  | cons m xs ih =>
      obtain ⟨n, rfl⟩ : ∃ k, n = k + 1 :=
        ⟨n - 1, by rw [List.length_cons] at hle; omega⟩
      obtain ⟨hm, hrest⟩ := List.forall_mem_cons.mp hsmall
      have hhere : entry i = BitVec.ofNat 32 m := hentry 0 m rfl
      have hused : entry i ≠ 0xFFFFFFFF := by
        rw [hhere]
        bv_omega
      have hnat : (entry i).toNat = m := by
        rw [hhere, BitVec.toNat_ofNat, Nat.mod_eq_of_lt (by omega)]
      have hshift : ∀ k, i + 1 + k = i + (k + 1) := by
        intro k
        omega
      have hnext := ih (n := n) (i := i + 1) (Nat.le_of_succ_le_succ hle) hrest
        (fun k m hk => by rw [hshift]; exact hentry (k + 1) m hk)
        (fun hlt => by rw [hshift]; exact hstop (Nat.succ_lt_succ hlt))
      rw [Enumerator.loop, if_neg hused]
      refine ⟨fun j h => ?_, fun a h => ?_, ?_⟩
      · rw [List.mem_cons, List.mem_append, readTable_mem_body_iff] at h
        rw [List.length_cons]
        rcases h with heq | rfl | hlater
        · obtain rfl := EnumEvent.readTable.inj heq
          exact Or.inl (by omega)
        · exact Or.inl (by omega)
        · rcases hnext.tableReads j hlater with hlt | ⟨heq, hlt⟩
          · exact Or.inl (by omega)
          · exact Or.inr ⟨by omega, by omega⟩
      · rw [List.mem_cons, List.mem_append, readDevice_mem_body_iff, hnat] at h
        rcases h with heq | rfl | hlater
        · cases heq
        · exact List.mem_cons_self
        · exact List.mem_cons_of_mem _ (hnext.deviceReads a hlater)
      · have hskip : outputs (.readTable i :: (e.body entry device i ++
            e.loop entry device n (i + 1))) = outputs (e.body entry device i) ++
              outputs (e.loop entry device n (i + 1)) := outputs_append _ _
        rw [hskip, outputs_body, hnat, hnext.prints]
        rfl

theorem tableLength_pos (c : PciClass) : 0 < c.tableLength := by
  cases c <;> decide

/-- With its entries in the table, an enumerator is right if its bound keeps it
there or the table ends with an unused entry. -/
theorem enumerates_of_entries {config : Register → BitVec 32} (xs : List ℕ)
    (hlocations : xs.map (fun m => (device m).location) =
      (controllers config e.controllers).map FunctionId.location)
    (hlength : xs.length ≤ e.controllers.tableLength)
    (hbound : e.controllers.tableLength ≤ e.bound)
    (hroom : e.controllers.tableLength < e.bound →
      xs.length < e.controllers.tableLength)
    (hsmall : ∀ m ∈ xs, m < 1024)
    (hentry : ∀ i < e.controllers.tableLength,
      entry i = (xs[i]?).elim 0xFFFFFFFF (BitVec.ofNat 32)) :
    Enumerates e config (e.run entry device) := by
  have hpos := tableLength_pos e.controllers
  have hused : ∀ k m, xs[k]? = some m → entry (0 + k) = BitVec.ofNat 32 m := by
    intro k m hk
    have hlt := (List.getElem?_eq_some_iff.mp hk).1
    rw [Nat.zero_add, hentry k (by omega), hk]
    rfl
  have hstop : xs.length < e.bound → entry (0 + xs.length) = 0xFFFFFFFF := by
    intro hlt
    have hin : xs.length < e.controllers.tableLength := by
      by_cases hlong : e.controllers.tableLength < e.bound
      · exact hroom hlong
      · omega
    rw [Nat.zero_add, hentry _ hin, List.getElem?_eq_none le_rfl]
    rfl
  have hloop := loop_of_entries e device
    (hlength.trans hbound) hsmall hused hstop
  cases hxs : xs with
  | nil =>
      have hzero : entry 0 = 0xFFFFFFFF := by
        rw [hentry 0 hpos, hxs]
        rfl
      have hnone : (controllers config e.controllers).map
          FunctionId.location = [] := by
        rw [← hlocations, hxs]
        rfl
      rw [Enumerator.run, if_pos hzero]
      refine ⟨fun i h => ?_, fun n h => ?_, ?_⟩
      · obtain rfl : i = 0 := by simpa using h
        exact hpos
      · simp at h
      · rw [hnone]
        rfl
  | cons m ms =>
      have hfirst : entry 0 ≠ 0xFFFFFFFF := by
        have hm := hsmall m (by rw [hxs]; exact List.mem_cons_self)
        rw [hentry 0 hpos, hxs]
        change BitVec.ofNat 32 m ≠ _
        bv_omega
      rw [Enumerator.run, if_neg hfirst]
      refine ⟨fun i h => ?_, fun n h => ?_, ?_⟩
      · have hcases : i = 0 ∨ .readTable i ∈ e.loop entry device e.bound 0 := by
          simpa using h
        rcases hcases with rfl | hread
        · exact hpos
        · rcases hloop.tableReads i hread with hlt | ⟨heq, hlt⟩
          · omega
          · by_cases hlong : e.controllers.tableLength < e.bound
            · have := hroom hlong
              omega
            · omega
      · have hread : .readDevice n ∈ e.loop entry device e.bound 0 := by
          simpa using h
        exact hsmall n (hloop.deviceReads n hread)
      · have hne : (xs.map fun m => (device m).location).isEmpty = false := by
          rw [hxs]
          rfl
        rw [← hlocations, Enumerator.report, if_neg (by rw [hne]; decide),
          ← hloop.prints]
        rfl

/-! ## What a right enumerator needs -/

/-- The loop prints nine outputs in each turn it takes to the end. -/
theorem exists_turns (e : Enumerator) (entry : ℕ → BitVec 32)
    (device : ℕ → PcieDevice) (n i : ℕ) :
    ∃ r ≤ n, (outputs (e.loop entry device n i)).length = 9 * r ∧
      (∀ j < r, .readTable (i + j) ∈ e.loop entry device n i) ∧
      (r < n → .readTable (i + r) ∈ e.loop entry device n i) := by
  induction n generalizing i with
  | zero =>
      exact ⟨0, le_rfl, rfl, fun j h => absurd h (Nat.not_lt_zero j),
        fun h => absurd h (Nat.lt_irrefl 0)⟩
  | succ n ih =>
      by_cases hend : entry i = 0xFFFFFFFF
      · rw [Enumerator.loop, if_pos hend]
        exact ⟨0, Nat.zero_le _, rfl, fun j h => absurd h (Nat.not_lt_zero j),
          fun _ => List.mem_cons_self⟩
      · obtain ⟨r, hr, hlength, hturns, hlast⟩ := ih (i + 1)
        have hshift : ∀ j, i + 1 + j = i + (j + 1) := by
          intro j
          omega
        have hlater : ∀ j, .readTable (i + 1 + j) ∈
            e.loop entry device n (i + 1) → .readTable (i + (j + 1)) ∈
              e.loop entry device (n + 1) i := by
          intro j hj
          rw [Enumerator.loop, if_neg hend, ← hshift j]
          exact List.mem_cons_of_mem _ (List.mem_append_right _ hj)
        refine ⟨r + 1, Nat.succ_le_succ hr, ?_, fun j hj => ?_, fun hlt => ?_⟩
        · have hskip : outputs (e.loop entry device (n + 1) i) =
              outputs (e.body entry device i) ++
                outputs (e.loop entry device n (i + 1)) := by
            rw [Enumerator.loop, if_neg hend]
            exact outputs_append _ _
          rw [hskip, List.length_append, hlength, outputs_body]
          change 9 + 9 * r = _
          omega
        · cases j with
          | zero =>
              rw [Enumerator.loop]
              exact List.mem_cons_self
          | succ j => exact hlater j (hturns j (Nat.lt_of_succ_lt_succ hj))
        · exact hlater r (hlast (Nat.lt_of_succ_lt_succ hlt))

theorem length_lines (e : Enumerator) (ls : List Location) (i : ℕ) :
    ((ls.zipIdx i).flatMap fun x => e.lines x.2 x.1).length =
      9 * ls.length := by
  induction ls generalizing i with
  | nil => rfl
  | cons l ls ih =>
      rw [List.zipIdx_cons, List.flatMap_cons, List.length_append, ih]
      change 9 + 9 * ls.length = 9 * (ls.length + 1)
      omega

/-- The table has an entry for each controller, and one more if the bound of
the loop is too large. -/
theorem Enumerates.fits {config : Register → BitVec 32}
    (h : Enumerates e config (e.run entry device)) :
    (controllers config e.controllers).length ≤ e.controllers.tableLength ∧
      (e.controllers.tableLength < e.bound →
        (controllers config e.controllers).length <
          e.controllers.tableLength) := by
  have hpos := tableLength_pos e.controllers
  obtain ⟨htable, -, hprints⟩ := h
  by_cases hnone : (controllers config e.controllers).length = 0
  · rw [hnone]
    exact ⟨Nat.zero_le _, fun _ => hpos⟩
  have hsome : ((controllers config e.controllers).map
      FunctionId.location).isEmpty = false := by
    rw [List.isEmpty_eq_false_iff, ← List.length_pos_iff, List.length_map]
    omega
  have hlength := congrArg List.length hprints
  rw [Enumerator.report, if_neg (by rw [hsome]; decide), List.length_cons,
    length_lines, List.length_map] at hlength
  by_cases hzero : entry 0 = 0xFFFFFFFF
  · rw [Enumerator.run, if_pos hzero] at hlength
    change 2 = _ at hlength
    omega
  · rw [Enumerator.run, if_neg hzero] at hlength htable
    obtain ⟨r, hr, hturns, hreads, hlast⟩ :=
      exists_turns e entry device e.bound 0
    have hrun : (outputs (.print (.println e.starts) :: .readTable 0 ::
        e.loop entry device e.bound 0)).length = 9 * r + 1 := by
      rw [← hturns]
      rfl
    have hin : ∀ j, .readTable (0 + j) ∈ e.loop entry device e.bound 0 →
        j < e.controllers.tableLength := by
      intro j hj
      rw [Nat.zero_add] at hj
      exact htable j (List.mem_cons_of_mem _ (List.mem_cons_of_mem _ hj))
    have hcount : (controllers config e.controllers).length = r := by
      omega
    have hbefore := hin (r - 1) (hreads (r - 1) (by omega))
    refine ⟨by omega, fun hlong => ?_⟩
    have hmore := hin r (hlast (by omega))
    omega

end Loop

/-! ## After enumeration -/

section Enumeration

variable {config : Register → BitVec 32} {rs : List FunctionId} {c : PciClass}

theorem ordinals_lt : ∀ m ∈ ordinals config rs c, m < rs.length := by
  induction rs using List.reverseRecOn with
  | nil => exact fun m h => absurd h List.not_mem_nil
  | append_singleton rs f ih =>
      intro m hm
      rw [ordinals_concat, List.mem_append] at hm
      rw [List.length_append, List.length_singleton]
      rcases hm with hold | hnew
      · exact Nat.lt_succ_of_lt (ih m hold)
      · split at hnew
        · obtain rfl := List.mem_singleton.mp hnew
          exact Nat.lt_succ_self _
        · exact absurd hnew List.not_mem_nil

/-- The ordinals of a class lead to its controllers. -/
theorem ordinals_map {β : Type} {g : ℕ → β} {g' : FunctionId → β}
    (h : ∀ n f, rs[n]? = some f → g n = g' f) :
    (ordinals config rs c).map g =
      (rs.filter fun f => HasClass config f c).map g' := by
  induction rs using List.reverseRecOn with
  | nil => rfl
  | append_singleton rs f ih =>
      have hbefore := ih fun n f' hn => by
        have hlt := (List.getElem?_eq_some_iff.mp hn).1
        exact h n f' (by rw [List.getElem?_append_left hlt, hn])
      have hlast := h rs.length f List.getElem?_concat_length
      rw [ordinals_concat, List.map_append, hbefore, List.filter_append,
        List.map_append]
      by_cases hclass : HasClass config f c
      · simp [hclass, hlast]
      · simp [hclass]

theorem length_controllers (config : Register → BitVec 32) (c : PciClass) :
    (controllers config c).length =
      (ordinals config (recorded config) c).length := by
  rw [ordinals_length, List.countP_eq_length_filter]
  rfl

/-- Where all classes fit and the SD hosts leave an entry unused, the tables
are read inside and each controller is printed. -/
theorem allEnumerate_of_fits {bridge : HostBridge} (p : Platform)
    (device : ℕ → PcieDevice) (behind : ℕ → BitVec 32)
    (hfits : ClassesFit bridge.config (recorded bridge.config))
    (hsd : (controllers bridge.config .sdHost).length < 4) :
    AllEnumerate bridge.config behind
      (pciEnumeration p (initialPciState bridge device)) := by
  obtain ⟨ans, hrecorded⟩ :=
    recordedIn_pciEnumeration p (initialPciState bridge device)
  have htables := hfits.tablesHold (p := p)
  rw [← classes_pciEnumeration p bridge device] at htables
  have hlength : (recorded bridge.config).length ≤ 1024 :=
    List.length_take_le _ _
  have hright : ∀ e : Enumerator, e.controllers.tableLength ≤ e.bound →
      (e.controllers.tableLength < e.bound → e.controllers = .sdHost) →
      Enumerates e bridge.config (e.runIn behind
        (pciEnumeration p (initialPciState bridge device))) := by
    intro e hbound hlong
    refine enumerates_of_entries
      (ordinals bridge.config (recorded bridge.config) e.controllers)
      (ordinals_map fun n f hn => ?_) (hfits e.controllers) hbound ?_ ?_ ?_
    · have hentry := hrecorded.device n
      change _ = ((recorded bridge.config)[n]?).elim _ _ at hentry
      rw [hn] at hentry
      change PcieDevice.location (PciState.device _ n) = _
      rw [hentry]
      rfl
    · intro hlt
      rw [← length_controllers, hlong hlt]
      exact hsd
    · intro m hm
      exact lt_of_lt_of_le (ordinals_lt m hm) hlength
    · intro i hi
      rw [Enumerator.tableEntry, if_pos hi]
      exact htables.entries e.controllers i hi
  rw [allEnumerate_iff]
  simp only [enumerators, List.forall_mem_cons]
  exact ⟨hright _ (by decide) (by decide), hright _ (by decide) (by decide),
    hright _ (by decide) (by decide), hright _ (by decide) (by decide),
    hright _ (by decide) (by decide), hright _ (by decide) (by decide),
    List.forall_mem_nil _⟩

/-! ## Stores past the end -/

/-- A machine on which a store past the end of a table spoils all tables. -/
def spoilingPlatform : Platform where
  writable _ := 0
  stray _ _ _ t :=
    { t with table := fun _ _ => 1024, deviceCount := fun _ => 254 }

/-- No entry is the ordinal of a device, and no table takes another one. -/
def Spoiled (t : ClassTables) : Prop :=
  ∀ c, (∀ i, t.table c i = 1024) ∧ 17 ≤ (t.deviceCount c).toNat

theorem Spoiled.recordClass {t : ClassTables} (h : Spoiled t) (p : Platform)
    (ans : BitVec 32) : recordClass p c ans t = t := by
  have hlimit := tableLength_le c
  have hcount := (h c).2
  rw [OpenFerain.recordClass, countLimit_eq, if_neg (by omega)]

theorem recordClass_inBounds_or_spoiled {t : ClassTables}
    (hin : ∀ c i, (c, i) ∈ t.stores → i < c.tableLength) (ans : BitVec 32) :
    (∀ c' i, (c', i) ∈ (recordClass spoilingPlatform c ans t).stores →
      i < c'.tableLength) ∨ Spoiled (recordClass spoilingPlatform c ans t) := by
  by_cases hlimit : (t.deviceCount c).toNat ≤ c.countLimit
  · by_cases hlt : (t.deviceCount c).toNat < c.tableLength
    · rw [recordClass_of_lt hlimit hlt]
      refine Or.inl fun c' i hmem => ?_
      rcases List.mem_cons.mp hmem with heq | hold
      · rw [Prod.mk.injEq] at heq
        rw [heq.1, heq.2]
        exact hlt
      · exact hin c' i hold
    · rw [recordClass, if_pos hlimit]
      simp only [if_neg hlt]
      refine Or.inr fun c' => ⟨fun i => rfl, ?_⟩
      change 17 ≤ (Function.update (fun _ => (254 : BitVec 8)) c
        (254 + 1) c').toNat
      by_cases hc : c' = c
      · rw [hc, Function.update_self]
        decide
      · rw [Function.update_of_ne hc]
        decide
  · rw [recordClass, if_neg hlimit]
    exact Or.inl hin

/-- Up to the first store past the end the stores are inside; from then on the
tables are spoiled. -/
theorem inBounds_or_spoiled (config : Register → BitVec 32)
    (rs : List FunctionId) :
    (∀ c i, (c, i) ∈ (classesAfter spoilingPlatform config rs
      initialClassTables).stores → i < c.tableLength) ∨
    Spoiled (classesAfter spoilingPlatform config rs initialClassTables) := by
  induction rs using List.reverseRecOn with
  | nil => exact Or.inl fun c i h => absurd h List.not_mem_nil
  | append_singleton rs f ih =>
      rw [classesAfter_concat]
      by_cases hclass : ∃ c, HasClass config f c
      · obtain ⟨c, hc⟩ := hclass
        rw [recordedClasses_of_hasClass hc]
        rcases ih with hin | hspoiled
        · exact recordClass_inBounds_or_spoiled hin _
        · rw [hspoiled.recordClass]
          exact Or.inr hspoiled
      · rw [recordedClasses_of_noClass (not_exists.mp hclass)]
        exact ih

/-- With spoiled tables the first enumerator reads behind `device`. -/
theorem not_enumerates_of_spoiled {s : PciState} (h : Spoiled s.classes)
    (config : Register → BitVec 32) (behind : ℕ → BitVec 32) :
    ¬Enumerates isaEnumerator config (pciIsaEnu behind s) := by
  intro hright
  have hfirst : isaEnumerator.tableEntry behind s 0 = 1024 := (h .isaBridge).1 0
  have hread : .readDevice 1024 ∈ pciIsaEnu behind s := by
    change _ ∈ isaEnumerator.run _ _
    rw [Enumerator.run, hfirst, if_neg (by decide)]
    change _ ∈ _ :: _ :: isaEnumerator.loop _ _ (3 + 1) 0
    rw [Enumerator.loop, hfirst, if_neg (by decide)]
    refine List.mem_cons_of_mem _ (List.mem_cons_of_mem _
      (List.mem_cons_of_mem _ (List.mem_append_left _ ?_)))
    rw [readDevice_mem_body_iff, hfirst]
    rfl
  exact absurd (hright.deviceReads 1024 hread) (Nat.lt_irrefl 1024)

/-- Whatever lies behind the tables, the enumerators are right exactly if no
class has more controllers than its table has entries and there are fewer than
four SD host controllers. -/
theorem allEnumerate_pciEnumeration_iff (bridge : HostBridge) :
    (∀ (p : Platform) (device : ℕ → PcieDevice) (behind : ℕ → BitVec 32),
      AllEnumerate bridge.config behind
        (pciEnumeration p (initialPciState bridge device))) ↔
      (∀ c, (controllers bridge.config c).length ≤ c.tableLength) ∧
        (controllers bridge.config .sdHost).length < 4 := by
  constructor
  · intro h
    have hspoil := h spoilingPlatform
      (fun _ => ⟨0, 0, 0, 0, 0, 0, fun _ => 0⟩) (fun _ => 0)
    refine ⟨fun c => ?_, (hspoil.sdHost.fits).2 (by decide)⟩
    rcases inBounds_or_spoiled bridge.config (recorded bridge.config) with
      hin | hspoiled
    · rw [length_controllers]
      exact classesFit_of_inBounds hin c
    · rw [← classes_pciEnumeration] at hspoiled
      exact absurd hspoil.isa (not_enumerates_of_spoiled hspoiled _ _)
  · rintro ⟨hfits, hsd⟩ p device behind
    refine allEnumerate_of_fits p device behind (fun c => ?_) hsd
    rw [← length_controllers]
    exact hfits c

/-! ## Four SD host controllers -/

/-- Functions 0 to 3 of device 0 on bus 0. -/
def sdHostFunctions : List FunctionId :=
  [⟨0, 0, 0⟩, ⟨0, 0, 1⟩, ⟨0, 0, 2⟩, ⟨0, 0, 3⟩]

/-- A machine with four SD host controllers and nothing else. -/
def fourSdHosts : HostBridge where
  address := 0
  config r :=
    if r.owner ∈ sdHostFunctions then
      if r.reg = 0 then 0x84211217 else 0x08050100
    else 0xFFFFFFFF
  writes := []

theorem length_controllers_fourSdHosts :
    (controllers fourSdHosts.config .sdHost).length = 4 := by
  have hfound : (found fourSdHosts.config).Perm sdHostFunctions := by
    refine found_perm (by decide) fun f => ?_
    by_cases hf : f ∈ sdHostFunctions
    · simp [fourSdHosts, hf]
    · simp [fourSdHosts, hf]
  rw [length_controllers, length_ordinals_of_perm hfound (by decide)]
  decide

/-- `SD_device[4]` is read. -/
theorem not_allEnumerate_fourSdHosts :
    ¬∀ (p : Platform) (bridge : HostBridge) (device : ℕ → PcieDevice)
      (behind : ℕ → BitVec 32), AllEnumerate bridge.config behind
        (pciEnumeration p (initialPciState bridge device)) := by
  intro h
  have hright := h ⟨fun _ => 0, fun _ _ _ t => t⟩ fourSdHosts
    (fun _ => ⟨0, 0, 0, 0, 0, 0, fun _ => 0⟩) fun _ => 0
  have hlt : (controllers fourSdHosts.config .sdHost).length < 4 :=
    (hright.sdHost.fits).2 (by decide)
  rw [length_controllers_fourSdHosts] at hlt
  exact absurd hlt (by decide)

end Enumeration

end OpenFerain
