import OpenFerain.Uefi.Loader

/-!
# The UEFI loader cleans up

Whatever the firmware replies, when `UefiMain` returns an error it holds nothing
any more: the handle buffer, the pages and the memory map are released, each
once.  And it leaves the firmware with the key of the last memory map, which
nothing has made invalid.
-/

namespace OpenFerain

namespace Uefi

open Calls (Holds Runs Always)

/-! ## Resources and keys -/

/-- What the loader can hold. -/
inductive Resource where
  | pool (buffer : BitVec 32)
  | pages (memory : BitVec 64) (count : BitVec 32)
  deriving DecidableEq

/-- The calls that allocate, if they do not fail, and the calls that free. -/
def accounting : Calls.Accounting Event Resource where
  acquires
    | ⟨.locateHandleBuffer, reply⟩ =>
        if EfiError reply.status then none else some (.pool reply.buffer)
    | ⟨.allocatePages pages, reply⟩ =>
        if EfiError reply.status then none
        else some (.pages reply.targetAddr pages)
    | ⟨.allocatePool _, buffer⟩ =>
        if buffer = 0 then none else some (.pool buffer)
    | _ => none
  releases
    | ⟨.freePool buffer, _⟩ => some (.pool buffer)
    | ⟨.freePages memory pages, _⟩ => some (.pages memory pages)
    | _ => none

/-- Neither an allocation nor a release nor a new memory map. -/
structure Quiet (e : Event) : Prop where
  acquires : accounting.acquires e = none
  releases : accounting.releases e = none
  noMap : ∀ size memMap reply, e = ⟨.getMemoryMap size memMap, reply⟩ →
    EfiError reply.status

/-- The key is that of the last memory map, and it is still valid. -/
def FreshKey (history : List Event) (key : BitVec 32) : Prop :=
  ∃ (start : List Event) (size memMap : BitVec 32) (reply : MapReply)
    (rest : List Event),
    history = start ++ ⟨.getMemoryMap size memMap, reply⟩ :: rest ∧
      ¬EfiError reply.status ∧ reply.memMapKey = key ∧ ∀ e ∈ rest, Quiet e

/-- If the event leaves the firmware, it does so with a fresh key. -/
def ExitsFresh (before : List Event) (e : Event) : Prop :=
  ∀ key reply, e = ⟨.exitBootServices key, reply⟩ → FreshKey before key

/-- What the specification says of the firmware: a memory map does not fit in no
bytes, and a handle without the protocol gives no interface. -/
structure Documented (e : Event) : Prop where
  mapFails : ∀ memMap reply, e = ⟨.getMemoryMap 0 memMap, reply⟩ →
    EfiError reply.status
  noInterface : ∀ handle blockIo reply,
    e = ⟨.handleProtocol handle blockIo, reply⟩ → EfiError reply.status →
      reply.blockIo = none ∨ reply.blockIo = blockIo

/-- The history so far, with the resources that are held. -/
structure Safe (history : List Event) (live : List Resource) : Prop where
  live : accounting.Live history live
  exits : Always ExitsFresh history

section Steps

variable {history : List Event} {live : List Resource} {e : Event}
  {r : Resource}

theorem safe_nil : Safe [] [] :=
  ⟨Calls.Accounting.live_nil, Calls.always_nil⟩

theorem Safe.skip (h : Safe history live)
    (hacquires : accounting.acquires e = none)
    (hreleases : accounting.releases e = none)
    (hexit : ExitsFresh history e) : Safe (history ++ [e]) live :=
  ⟨h.live.skip hacquires hreleases, h.exits.concat hexit⟩

theorem Safe.acquire (h : Safe history live)
    (hacquires : accounting.acquires e = some r)
    (hreleases : accounting.releases e = none)
    (hexit : ExitsFresh history e) : Safe (history ++ [e]) (r :: live) :=
  ⟨h.live.acquire hacquires hreleases, h.exits.concat hexit⟩

theorem Safe.release (h : Safe history (r :: live))
    (hacquires : accounting.acquires e = none)
    (hreleases : accounting.releases e = some r)
    (hexit : ExitsFresh history e) : Safe (history ++ [e]) live :=
  ⟨h.live.release hacquires hreleases, h.exits.concat hexit⟩

/-- Every event but an exit. -/
theorem exitsFresh_of_ne {c : Call} {reply : c.Reply}
    (h : ∀ key, c ≠ .exitBootServices key) : ExitsFresh history ⟨c, reply⟩ := by
  intro key reply' heq
  obtain ⟨hcall, -⟩ := Sigma.mk.inj heq
  exact absurd hcall (h key)

end Steps

/-! ## The parts of `UefiMain` -/

/-- The calls that neither allocate nor free nor leave the firmware. -/
def Call.Plain : Call → Prop
  | .handleProtocol .. | .readBlocks .. | .getMemoryMap .. | .print .. | .asm =>
      True
  | _ => False

section Parts

variable {α : Type} {before : List Event} {live : List Resource} {c : Call}
  {Q : List Event → α → Prop}

theorem Safe.plain (h : Safe before live) (hc : c.Plain) (reply : c.Reply) :
    Safe (before ++ [⟨c, reply⟩]) live := by
  have hexit : ExitsFresh before ⟨c, reply⟩ := by
    refine exitsFresh_of_ne ?_
    rintro key rfl
    exact hc
  cases c with
  | handleProtocol | readBlocks | getMemoryMap | print | asm =>
      exact h.skip rfl rfl hexit
  | _ => exact absurd hc id

/-- A plain call: the rest goes on with the same resources. -/
theorem Safe.plain_bind (h : Safe before live) (hc : c.Plain)
    {f : c.Reply → Loader α}
    (hnext : ∀ reply, Documented ⟨c, reply⟩ →
      Safe (before ++ [⟨c, reply⟩]) live →
        Holds Documented (before ++ [⟨c, reply⟩]) (f reply) Q) :
    Holds Documented before (call c >>= f) Q :=
  Calls.holds_request_bind fun reply hlegal =>
    hnext reply hlegal (h.plain hc reply)

/-- The search neither allocates nor frees, and what it finds is suitable. -/
theorem findDisk_holds (handles : List Handle) (h : Safe before live) :
    Holds Documented before (findDisk handles none) fun history disk =>
      Safe history live ∧ ∀ blockIo, disk = some blockIo →
        suitable blockIo = true := by
  induction handles generalizing before with
  | nil => exact Calls.holds_pure ⟨h, fun blockIo hsome => by cases hsome⟩
  | cons handle handles ih =>
      refine h.plain_bind (by trivial) fun reply hlegal hnext => ?_
      refine Calls.holds_ite (fun herror => ?_) fun _ => ?_
      · have hnone : reply.blockIo = none :=
          (hlegal.noInterface handle none reply rfl herror).elim id id
        rw [hnone]
        exact ih hnext
      · refine Calls.holds_ite (fun hfound => ?_) fun _ => ih hnext
        refine Calls.holds_pure ⟨hnext, fun blockIo hsome => ?_⟩
        rw [hsome] at hfound
        exact hfound

/-- The pool behind a pointer that may be `NULL`. -/
def poolAt (buffer : BitVec 32) : List Resource :=
  if buffer = 0 then [] else [.pool buffer]

/-- The memory map: its pool is held if there is one, and if there was no error
there is one and its key is fresh. -/
theorem readMemoryMap_holds (h : Safe before live) :
    Holds Documented before readMemoryMap fun history map =>
      Safe history (poolAt map.memMap ++ live) ∧
        (¬EfiError map.status →
          map.memMap ≠ 0 ∧ FreshKey history map.memMapKey) := by
  refine h.plain_bind (by trivial) fun first hlegal hfirst => ?_
  refine Calls.holds_ite (fun _ => ?_) fun _ => ?_
  · refine Calls.holds_request_bind fun memMap _ => ?_
    refine Calls.holds_ite (fun hpool => ?_) fun hnull => ?_
    · have hacquires : accounting.acquires
          ⟨.allocatePool first.memMapSize, memMap⟩ = some (.pool memMap) :=
        if_neg hpool
      have halloc := hfirst.acquire hacquires rfl (exitsFresh_of_ne nofun)
      refine halloc.plain_bind (by trivial) fun second _ hsecond => ?_
      refine Calls.holds_pure ⟨?_, fun hok => ⟨hpool, ?_⟩⟩
      · rw [poolAt, if_neg hpool]
        exact hsecond
      · exact ⟨_, _, _, second, [], rfl, hok, rfl,
          fun e he => absurd he List.not_mem_nil⟩
    · have hacquires : accounting.acquires
          ⟨.allocatePool first.memMapSize, memMap⟩ = none :=
        if_pos (not_not.mp hnull)
      have hnone := hfirst.skip hacquires rfl (exitsFresh_of_ne nofun)
      have herror : EfiError efiOutOfResources := by decide
      refine Calls.holds_pure ⟨?_, fun hok => absurd herror hok⟩
      rw [poolAt, if_pos (not_not.mp hnull)]
      exact hnone
  · refine Calls.holds_pure ⟨hfirst, fun hok => ?_⟩
    exact absurd (hlegal.mapFails 0 first rfl) hok

/-- What a call of the whole function leaves: it has left the firmware only
with a fresh key, and if it failed nothing is held. -/
def CleanedUp (history : List Event) (status : Status) : Prop :=
  (EfiError status → accounting.Live history []) ∧ Always ExitsFresh history

theorem Safe.cleanedUp {history : List Event} (h : Safe history [])
    (status : Status) : CleanedUp history status :=
  ⟨fun _ => h.live, h.exits⟩

/-- The pages are freed while the memory map may be held. -/
theorem Safe.freePages {memMap : BitVec 32} {targetAddr : BitVec 64}
    {pagesCount : BitVec 32}
    (h : Safe before (poolAt memMap ++ [.pages targetAddr pagesCount]))
    (status : Status) :
    Safe (before ++ [⟨.freePages targetAddr pagesCount, status⟩])
      (poolAt memMap) := by
  have hfirst : Safe before (.pages targetAddr pagesCount :: poolAt memMap) :=
    ⟨h.live.perm List.perm_append_comm, h.exits⟩
  exact hfirst.release rfl rfl (exitsFresh_of_ne nofun)

theorem Safe.freePool {memMap : BitVec 32} (h : Safe before (poolAt memMap))
    (hpool : memMap ≠ 0) (status : Status) :
    Safe (before ++ [⟨.freePool memMap, status⟩]) [] := by
  rw [poolAt, if_neg hpool] at h
  exact h.release rfl rfl (exitsFresh_of_ne nofun)

theorem leaveFirmware_holds {targetAddr : BitVec 64} {pagesCount : BitVec 32}
    (h : Safe before [.pages targetAddr pagesCount]) :
    Holds Documented before (leaveFirmware targetAddr pagesCount)
      CleanedUp := by
  refine (readMemoryMap_holds h).bind fun history map => ?_
  rintro ⟨hmap, hfresh⟩
  refine Calls.holds_ite (fun _ => ?_) fun hok => ?_
  · refine hmap.plain_bind (by trivial) fun _ _ hprinted => ?_
    refine Calls.holds_request_bind fun freed _ => ?_
    have hpages := hprinted.freePages freed
    refine Calls.holds_ite (fun hpool => ?_) fun hnull => ?_
    · refine Calls.holds_request_bind fun freed _ => ?_
      exact Calls.holds_pure ((hpages.freePool hpool freed).cleanedUp _)
    · rw [poolAt, if_pos (not_not.mp hnull)] at hpages
      exact Calls.holds_pure (hpages.cleanedUp _)
  · obtain ⟨hpool, hkey⟩ := hfresh hok
    refine Calls.holds_request_bind fun status _ => ?_
    have hexit : ExitsFresh history
        ⟨.exitBootServices map.memMapKey, status⟩ := by
      intro key reply heq
      cases heq
      exact hkey
    have hleft := hmap.skip rfl rfl hexit
    refine Calls.holds_ite (fun _ => ?_) fun _ => ?_
    · refine hleft.plain_bind (by trivial) fun _ _ hprinted => ?_
      refine Calls.holds_request_bind fun freed _ => ?_
      have hpages := hprinted.freePages freed
      refine Calls.holds_request_bind fun freed _ => ?_
      exact Calls.holds_pure ((hpages.freePool hpool freed).cleanedUp _)
    · refine hleft.plain_bind (by trivial) fun _ _ hjumped => ?_
      have hsuccess : ¬EfiError efiSuccess := by decide
      exact Calls.holds_pure ⟨fun h => absurd h hsuccess, hjumped.exits⟩

theorem loadKernel_holds (blockIo : BlockIo) (h : Safe before []) :
    Holds Documented before (loadKernel blockIo) CleanedUp := by
  refine h.plain_bind (by trivial) fun _ _ hfound => ?_
  refine Calls.holds_request_bind fun pages _ => ?_
  refine Calls.holds_ite (fun herror => ?_) fun hok => ?_
  · have hacquires : accounting.acquires ⟨.allocatePages
        (efiSizeToPages (8 * blockIo.blockSize)), pages⟩ = none :=
      if_pos herror
    have hnone := hfound.skip hacquires rfl (exitsFresh_of_ne nofun)
    refine hnone.plain_bind (by trivial) fun _ _ hprinted => ?_
    exact Calls.holds_pure (hprinted.cleanedUp _)
  · have hacquires : accounting.acquires ⟨.allocatePages
        (efiSizeToPages (8 * blockIo.blockSize)), pages⟩ =
          some (.pages pages.targetAddr
            (efiSizeToPages (8 * blockIo.blockSize))) := if_neg hok
    have hpages := hfound.acquire hacquires rfl (exitsFresh_of_ne nofun)
    refine hpages.plain_bind (by trivial) fun status _ hread => ?_
    refine Calls.holds_ite (fun _ => ?_) fun _ => leaveFirmware_holds hread
    refine hread.plain_bind (by trivial) fun _ _ hprinted => ?_
    refine Calls.holds_request_bind fun freed _ => ?_
    have hfreed := hprinted.release (e := ⟨.freePages pages.targetAddr
      (efiSizeToPages (8 * blockIo.blockSize)), freed⟩) rfl rfl
      (exitsFresh_of_ne nofun)
    exact Calls.holds_pure (hfreed.cleanedUp _)

end Parts

/-! ## `UefiMain` -/

/-- Whatever the firmware replies: if `UefiMain` returns an error, each thing it
acquired was released once and nothing else was; and it leaves the firmware only
with the key of the last memory map, with nothing allocated or released
since. -/
theorem uefiMain_cleans_up {history : List Event} {status : Status}
    (hrun : Runs uefiMain history status)
    (hfirmware : ∀ e ∈ history, Documented e) :
    (EfiError status → accounting.Live history []) ∧
      Always ExitsFresh history := by
  have hholds : Holds Documented [] uefiMain CleanedUp := by
    refine Calls.holds_request_bind fun located _ => ?_
    refine Calls.holds_ite (fun herror => ?_) fun hok => ?_
    · have hacquires : accounting.acquires ⟨.locateHandleBuffer, located⟩ =
          none := if_pos herror
      have hnone := safe_nil.skip hacquires rfl (exitsFresh_of_ne nofun)
      refine hnone.plain_bind (by trivial) fun _ _ hprinted => ?_
      exact Calls.holds_pure (hprinted.cleanedUp _)
    · have hacquires : accounting.acquires ⟨.locateHandleBuffer, located⟩ =
          some (.pool located.buffer) := if_neg hok
      have hlocated := safe_nil.acquire hacquires rfl (exitsFresh_of_ne nofun)
      refine (findDisk_holds located.handles hlocated).bind
        fun history disk => ?_
      rintro ⟨hsearched, -⟩
      refine Calls.holds_request_bind fun freed _ => ?_
      have hfreed := hsearched.release
        (e := ⟨.freePool located.buffer, freed⟩) rfl rfl
        (exitsFresh_of_ne nofun)
      cases disk with
      | none =>
          refine hfreed.plain_bind (by trivial) fun _ _ hprinted => ?_
          exact Calls.holds_pure (hprinted.cleanedUp _)
      | some blockIo => exact loadKernel_holds blockIo hfreed
  exact hholds history status hrun hfirmware

/-- A firmware with one disk that does not let the loader go. -/
def refusingFirmware : (c : Call) → c.Reply
  | .locateHandleBuffer => ⟨efiSuccess, 0x1000, [1]⟩
  | .handleProtocol _ _ => ⟨efiSuccess, some ⟨0, false, false, 512, 2047⟩⟩
  | .allocatePages _ => ⟨efiSuccess, 0x200000⟩
  | .readBlocks .. => efiSuccess
  | .getMemoryMap size _ =>
      if size = 0 then ⟨efiBufferTooSmall, 0x1000, 0⟩ else ⟨efiSuccess, size, 7⟩
  | .allocatePool _ => 0x3000
  | .freePool _ => efiSuccess
  | .freePages _ _ => efiSuccess
  | .exitBootServices _ => 0x80000002
  | .print _ _ => ()
  | .asm => ()

theorem documented_refusingFirmware (c : Call) :
    Documented ⟨c, refusingFirmware c⟩ where
  mapFails memMap reply heq := by
    cases heq
    have herror : EfiError efiBufferTooSmall := by decide
    exact herror
  noInterface handle blockIo reply heq herror := by
    cases heq
    have hsuccess : ¬EfiError efiSuccess := by decide
    exact absurd herror hsuccess

theorem uefiMain_cleans_up_refusingFirmware :
    accounting.Live (uefiMain.exec refusingFirmware).1 [] ∧
      Always ExitsFresh (uefiMain.exec refusingFirmware).1 := by
  have hlegal : ∀ e ∈ (uefiMain.exec refusingFirmware).1, Documented e := by
    intro e he
    obtain ⟨c, rfl⟩ := Calls.mem_exec he
    exact documented_refusingFirmware c
  obtain ⟨hlive, hexits⟩ :=
    uefiMain_cleans_up (Calls.runs_exec refusingFirmware uefiMain) hlegal
  exact ⟨hlive (by decide), hexits⟩

end Uefi

end OpenFerain
