import OpenFerain.Uefi.Cleanup

/-!
# The UEFI loader: which disk, which read, and the way out

Whatever the firmware replies, `UefiMain` reads from the first disk in the order
of the handles that is physical and can be written, and from no other, into
pages that hold what is read.  The jump to the kernel comes right after the call
that leaves the firmware, and no call of the firmware comes after that.
-/

namespace OpenFerain

namespace Uefi

open Calls (Holds Runs Always)

/-! ## The order of the calls -/

/-- The handles are asked in order, up to the first with a suitable disk. -/
inductive Searched : List Handle → List Event → Option BlockIo → Prop where
  | none : Searched [] [] none
  | skip {handle : Handle} {reply : HandleReply} {handles : List Handle}
      {events : List Event} {disk : Option BlockIo}
      (hunfit : EfiError reply.status ∨ ¬reply.blockIo.any suitable)
      (rest : Searched handles events disk) :
      Searched (handle :: handles)
        (⟨.handleProtocol handle .none, reply⟩ :: events) disk
  | found {handle : Handle} {reply : HandleReply} {handles : List Handle}
      {blockIo : BlockIo} (hok : ¬EfiError reply.status)
      (hdisk : reply.blockIo = some blockIo)
      (hsuitable : suitable blockIo = true) :
      Searched (handle :: handles) [⟨.handleProtocol handle .none, reply⟩]
        (some blockIo)

/-- The history begins with a search that has found the disk. -/
def FirstDisk (history : List Event) (blockIo : BlockIo) : Prop :=
  ∃ (located : LocateReply) (events : List Event) (freed : Status)
    (rest : List Event),
    history = ⟨.locateHandleBuffer, located⟩ ::
        (events ++ ⟨.freePool located.buffer, freed⟩ :: rest) ∧
      ¬EfiError located.status ∧
      Searched located.handles events (some blockIo)

/-- A read is of the blocks 1 to 8 of the disk that was found, into the pages
that were allocated right before, and they hold it. -/
structure ReadsKernel (before : List Event) (blockIo : BlockIo)
    (mediaId : BitVec 32) (lba : BitVec 64) (bufferSize buffer : BitVec 32) :
    Prop where
  disk : FirstDisk before blockIo
  mediaId : mediaId = blockIo.mediaId
  lba : lba = 1
  size : bufferSize = 8 * blockIo.blockSize
  pages : ∃ start pages reply,
    before = start ++ [⟨.allocatePages pages, reply⟩] ∧
      ¬EfiError reply.status ∧ buffer = reply.targetAddr.setWidth 32 ∧
      bufferSize.toNat ≤ pages.toNat * 4096

/-- The call that leaves the firmware. -/
def Leaves (e : Event) : Prop :=
  ∃ key reply, e = ⟨.exitBootServices key, reply⟩ ∧ ¬EfiError reply

/-- A read is one of the kernel, and a call is the jump exactly if the firmware
has been left before. -/
structure InOrder (before : List Event) (e : Event) : Prop where
  read : ∀ blockIo mediaId lba bufferSize buffer reply,
    e = ⟨.readBlocks blockIo mediaId lba bufferSize buffer, reply⟩ →
      ReadsKernel before blockIo mediaId lba bufferSize buffer
  jump : e.1 = .asm ↔ ∃ e' ∈ before, Leaves e'

/-- The kernel has been read without an error. -/
def HasRead (history : List Event) : Prop :=
  ∃ blockIo mediaId lba bufferSize buffer, ∃ read : Status,
    ⟨.readBlocks blockIo mediaId lba bufferSize buffer, read⟩ ∈ history ∧
      ¬EfiError read

/-- An end with the jump: the kernel has been read, and the last two calls leave
the firmware and jump. -/
def Jumped (history : List Event) : Prop :=
  ∃ start key reply, history = start ++
      [⟨.exitBootServices key, reply⟩, ⟨.asm, ()⟩] ∧ ¬EfiError reply ∧
    HasRead start

/-- What every run of `UefiMain` does. -/
structure BootOrder (history : List Event) (status : Status) : Prop where
  order : Always InOrder history
  success : ¬EfiError status → status = efiSuccess ∧ Jumped history
  failure : EfiError status → ∀ e ∈ history, e.1 ≠ .asm ∧ ¬Leaves e

/-! ## Inside the firmware -/

/-- A history that is in order and has not left the firmware. -/
structure Inside (history : List Event) : Prop where
  order : Always InOrder history
  inside : ∀ e ∈ history, e.1 ≠ .asm ∧ ¬Leaves e

section Inside

variable {α : Type} {before history : List Event} {c : Call} {blockIo : BlockIo}
  {Q : List Event → α → Prop} {status : Status}

theorem inside_nil : Inside [] :=
  ⟨Calls.always_nil, fun _ h => absurd h List.not_mem_nil⟩

theorem Inside.not_left (h : Inside history) : ¬∃ e ∈ history, Leaves e := by
  rintro ⟨e, he, hleaves⟩
  exact (h.inside e he).2 hleaves

/-- One more call that is neither the jump nor a way out. -/
theorem Inside.concat (h : Inside before) {e : Event} (hjump : e.1 ≠ .asm)
    (hstays : ¬Leaves e)
    (hread : ∀ blockIo mediaId lba bufferSize buffer reply,
      e = ⟨.readBlocks blockIo mediaId lba bufferSize buffer, reply⟩ →
        ReadsKernel before blockIo mediaId lba bufferSize buffer) :
    Inside (before ++ [e]) := by
  refine ⟨h.order.concat ⟨hread, iff_of_false hjump h.not_left⟩, ?_⟩
  intro e' he'
  rcases List.mem_append.mp he' with hold | hnew
  · exact h.inside e' hold
  · rw [List.mem_singleton.mp hnew]
    exact ⟨hjump, hstays⟩

/-- The calls that may come anywhere inside the firmware. -/
def Call.Anywhere : Call → Prop
  | .readBlocks .. | .exitBootServices _ | .asm => False
  | _ => True

theorem Inside.anywhere (h : Inside before) (hc : c.Anywhere)
    (reply : c.Reply) : Inside (before ++ [⟨c, reply⟩]) := by
  refine h.concat ?_ ?_ ?_
  · rintro rfl
    exact hc
  · rintro ⟨key, reply', heq, -⟩
    obtain ⟨rfl, -⟩ := Sigma.mk.inj heq
    exact hc
  · rintro blockIo mediaId lba bufferSize buffer reply' heq
    obtain ⟨rfl, -⟩ := Sigma.mk.inj heq
    exact hc.elim

/-- Such a call: the rest goes on inside the firmware. -/
theorem Inside.anywhere_bind (h : Inside before) (hc : c.Anywhere)
    {f : c.Reply → Loader α}
    (hnext : ∀ reply, Documented ⟨c, reply⟩ →
      Inside (before ++ [⟨c, reply⟩]) →
        Holds Documented (before ++ [⟨c, reply⟩]) (f reply) Q) :
    Holds Documented before (call c >>= f) Q :=
  Calls.holds_request_bind fun reply hlegal =>
    hnext reply hlegal (h.anywhere hc reply)

theorem Inside.bootOrder (h : Inside history) (herror : EfiError status) :
    BootOrder history status :=
  ⟨h.order, fun hok => absurd herror hok, fun _ => h.inside⟩

theorem FirstDisk.concat (h : FirstDisk before blockIo) (e : Event) :
    FirstDisk (before ++ [e]) blockIo := by
  obtain ⟨located, events, freed, rest, rfl, hok, hsearched⟩ := h
  refine ⟨located, events, freed, rest ++ [e], ?_, hok, hsearched⟩
  simp only [List.cons_append, List.append_assoc]

end Inside

/-! ## The parts of `UefiMain` -/

section Parts

variable {before : List Event} {blockIo : BlockIo}

/-- The search asks the handles in order. -/
theorem findDisk_searched (handles : List Handle) (h : Inside before) :
    Holds Documented before (findDisk handles none) fun history disk =>
      Inside history ∧ ∃ events, history = before ++ events ∧
        Searched handles events disk := by
  induction handles generalizing before with
  | nil => exact Calls.holds_pure ⟨h, [], (List.append_nil _).symm, .none⟩
  | cons handle handles ih =>
      refine h.anywhere_bind (by trivial) fun reply hlegal hnext => ?_
      have hskip : (EfiError reply.status ∨ ¬reply.blockIo.any suitable) →
          Holds Documented (before ++ [⟨.handleProtocol handle none, reply⟩])
            (findDisk handles none) fun history disk =>
              Inside history ∧ ∃ events, history = before ++ events ∧
                Searched (handle :: handles) events disk := by
        intro hunfit
        refine (ih hnext).mono ?_
        rintro history disk ⟨hinside, events, rfl, hsearched⟩
        refine ⟨hinside, _, List.append_assoc _ _ _, ?_⟩
        exact .skip hunfit hsearched
      refine Calls.holds_ite (fun herror => ?_) fun hok => ?_
      · have hnone : reply.blockIo = none :=
          (hlegal.noInterface handle none reply rfl herror).elim id id
        rw [hnone]
        exact hskip (Or.inl herror)
      · refine Calls.holds_ite (fun hfound => ?_) fun hunfit =>
          hskip (Or.inr hunfit)
        cases hdisk : reply.blockIo with
        | none =>
            rw [hdisk] at hfound
            exact absurd hfound Bool.false_ne_true
        | some disk =>
            rw [hdisk] at hfound
            exact Calls.holds_pure ⟨hnext, _, rfl, .found hok hdisk hfound⟩

/-- The pages hold the bytes. -/
theorem le_efiSizeToPages (size : BitVec 32) :
    size.toNat ≤ (efiSizeToPages size).toNat * 4096 := by
  have hpages : (size >>> 12).toNat = size.toNat / 4096 := by
    rw [BitVec.toNat_ushiftRight, Nat.shiftRight_eq_div_pow]
  have hrest : (size &&& 0xFFF).toNat = size.toNat % 4096 := by
    rw [BitVec.toNat_and]
    exact Nat.and_two_pow_sub_one_eq_mod size.toNat 12
  rw [efiSizeToPages]
  split
  · have hsum : ((size >>> 12) + 1).toNat = size.toNat / 4096 + 1 := by
      bv_omega
    omega
  · next hzero =>
      rw [ne_eq, not_not] at hzero
      rw [hzero] at hrest
      have hsum : ((size >>> 12) + 0).toNat = size.toNat / 4096 := by
        bv_omega
      have hdivides : size.toNat % 4096 = 0 := hrest.symm
      omega

theorem HasRead.append {history : List Event} (h : HasRead history)
    (rest : List Event) : HasRead (history ++ rest) := by
  obtain ⟨blockIo, mediaId, lba, bufferSize, buffer, read, hmem, hok⟩ := h
  exact ⟨blockIo, mediaId, lba, bufferSize, buffer, read,
    List.mem_append_left _ hmem, hok⟩

theorem hasRead_concat (before : List Event) (blockIo : BlockIo)
    (mediaId : BitVec 32) (lba : BitVec 64) (bufferSize buffer : BitVec 32)
    {read : Status} (hok : ¬EfiError read) :
    HasRead (before ++
      [⟨.readBlocks blockIo mediaId lba bufferSize buffer, read⟩]) :=
  ⟨blockIo, mediaId, lba, bufferSize, buffer, read,
    List.mem_append_right _ (List.mem_singleton_self _), hok⟩

/-- Asking for the memory map stays inside the firmware. -/
theorem readMemoryMap_inside (h : Inside before) (hread : HasRead before) :
    Holds Documented before readMemoryMap fun history _ =>
      Inside history ∧ HasRead history := by
  refine h.anywhere_bind (by trivial) fun first _ hfirst => ?_
  have hread₁ := hread.append [⟨.getMemoryMap 0 0, first⟩]
  refine Calls.holds_ite (fun _ => ?_) fun _ => ?_
  · refine hfirst.anywhere_bind (by trivial) fun memMap _ hpool => ?_
    have hread₂ := hread₁.append [⟨.allocatePool first.memMapSize, memMap⟩]
    refine Calls.holds_ite (fun _ => ?_) fun _ => ?_
    · refine hpool.anywhere_bind (by trivial) fun second _ hsecond => ?_
      exact Calls.holds_pure ⟨hsecond, hread₂.append _⟩
    · exact Calls.holds_pure ⟨hpool, hread₂⟩
  · exact Calls.holds_pure ⟨hfirst, hread₁⟩

/-- The end: the firmware is left, and then comes the jump. -/
theorem Inside.jumped {key : BitVec 32} {reply : Status} (h : Inside before)
    (hread : HasRead before) (hok : ¬EfiError reply) :
    BootOrder (before ++ [⟨.exitBootServices key, reply⟩] ++ [⟨.asm, ()⟩])
      efiSuccess := by
  have hleft : InOrder before ⟨.exitBootServices key, reply⟩ :=
    ⟨nofun, iff_of_false nofun h.not_left⟩
  have hjump : InOrder (before ++ [⟨.exitBootServices key, reply⟩])
      ⟨.asm, ()⟩ := by
    refine ⟨nofun, iff_of_true rfl ⟨_, ?_, key, reply, rfl, hok⟩⟩
    exact List.mem_append_right _ (List.mem_singleton_self _)
  have hsuccess : ¬EfiError efiSuccess := by decide
  refine ⟨(h.order.concat hleft).concat hjump, fun _ => ⟨rfl, ?_⟩,
    fun herror => absurd herror hsuccess⟩
  exact ⟨before, key, reply, List.append_assoc _ _ _, hok, hread⟩

theorem leaveFirmware_order (targetAddr : BitVec 64) (pagesCount : BitVec 32)
    (h : Inside before) (hread : HasRead before) :
    Holds Documented before (leaveFirmware targetAddr pagesCount)
      BootOrder := by
  refine (readMemoryMap_inside h hread).bind fun history map => ?_
  rintro ⟨hmap, hread⟩
  refine Calls.holds_ite (fun herror => ?_) fun _ => ?_
  · refine hmap.anywhere_bind (by trivial) fun _ _ hprinted => ?_
    refine hprinted.anywhere_bind (by trivial) fun freed _ hpages => ?_
    refine Calls.holds_ite (fun _ => ?_) fun _ => ?_
    · refine hpages.anywhere_bind (by trivial) fun freed _ hpool => ?_
      exact Calls.holds_pure (hpool.bootOrder herror)
    · exact Calls.holds_pure (hpages.bootOrder herror)
  · refine Calls.holds_request_bind fun status _ => ?_
    refine Calls.holds_ite (fun herror => ?_) fun hok => ?_
    · have hstays : ¬Leaves ⟨.exitBootServices map.memMapKey, status⟩ := by
        rintro ⟨key, reply, heq, hok⟩
        cases heq
        exact hok herror
      have hrefused := hmap.concat (by nofun) hstays (by nofun)
      refine hrefused.anywhere_bind (by trivial) fun _ _ hprinted => ?_
      refine hprinted.anywhere_bind (by trivial) fun freed _ hpages => ?_
      refine hpages.anywhere_bind (by trivial) fun freed _ hpool => ?_
      exact Calls.holds_pure (hpool.bootOrder herror)
    · refine Calls.holds_request_bind fun _ _ => ?_
      exact Calls.holds_pure (hmap.jumped hread hok)

theorem loadKernel_order (h : Inside before)
    (hdisk : FirstDisk before blockIo) :
    Holds Documented before (loadKernel blockIo) BootOrder := by
  refine h.anywhere_bind (by trivial) fun _ _ hprinted => ?_
  have hdisk₁ := hdisk.concat ⟨.print
    "Disk found. Block size: %d bytes, Last LBA: 0x%llx\n"
    [blockIo.blockSize.setWidth 64, blockIo.lastBlock], ()⟩
  refine hprinted.anywhere_bind (by trivial) fun pages _ hpages => ?_
  refine Calls.holds_ite (fun herror => ?_) fun hok => ?_
  · refine hpages.anywhere_bind (by trivial) fun _ _ hfailed => ?_
    exact Calls.holds_pure (hfailed.bootOrder herror)
  · refine Calls.holds_request_bind fun status _ => ?_
    have hread := hpages.concat (e := ⟨.readBlocks blockIo blockIo.mediaId 1
      (8 * blockIo.blockSize) (pages.targetAddr.setWidth 32), status⟩)
      (by nofun) (by nofun) (by
        rintro _ _ _ _ _ _ heq
        cases heq
        exact ⟨hdisk₁.concat _, rfl, rfl, rfl, _, _, pages, rfl, hok, rfl,
          le_efiSizeToPages _⟩)
    refine Calls.holds_ite (fun herror => ?_) fun hstatus => ?_
    · refine hread.anywhere_bind (by trivial) fun _ _ hfailed => ?_
      refine hfailed.anywhere_bind (by trivial) fun freed _ hfreed => ?_
      exact Calls.holds_pure (hfreed.bootOrder herror)
    · exact leaveFirmware_order _ _ hread (hasRead_concat _ _ _ _ _ _ hstatus)

end Parts

/-! ## `UefiMain` -/

/-- Whatever the firmware replies: `UefiMain` reads only from the first suitable
disk, and only into pages that hold what it reads; it jumps right after it has
left the firmware, with the kernel read, and calls nothing after that; and it
returns an error exactly if it does not jump. -/
theorem uefiMain_bootOrder {history : List Event} {status : Status}
    (hrun : Runs uefiMain history status)
    (hfirmware : ∀ e ∈ history, Documented e) : BootOrder history status := by
  have hholds : Holds Documented [] uefiMain BootOrder := by
    refine inside_nil.anywhere_bind (by trivial) fun located _ hlocated => ?_
    refine Calls.holds_ite (fun herror => ?_) fun hok => ?_
    · refine hlocated.anywhere_bind (by trivial) fun _ _ hprinted => ?_
      exact Calls.holds_pure (hprinted.bootOrder herror)
    · refine (findDisk_searched located.handles hlocated).bind
        fun history disk => ?_
      rintro ⟨hsearched, events, rfl, hevents⟩
      refine hsearched.anywhere_bind (by trivial) fun freed _ hfreed => ?_
      cases disk with
      | none =>
          refine hfreed.anywhere_bind (by trivial) fun _ _ hprinted => ?_
          exact Calls.holds_pure (hprinted.bootOrder (by decide))
      | some blockIo =>
          refine loadKernel_order hfreed ⟨located, events, freed, [], ?_, hok,
            hevents⟩
          simp only [List.nil_append, List.cons_append]
  exact hholds history status hrun hfirmware

/-- A firmware with a partition, a write-protected disk and a disk. -/
def threeDisksFirmware : (c : Call) → c.Reply
  | .locateHandleBuffer => ⟨efiSuccess, 0x1000, [1, 2, 3]⟩
  | .handleProtocol handle _ =>
      ⟨efiSuccess, some ⟨0, handle = 1, handle = 2, 512, 2047⟩⟩
  | .exitBootServices _ => efiSuccess
  | c => refusingFirmware c

theorem documented_threeDisksFirmware (c : Call) :
    Documented ⟨c, threeDisksFirmware c⟩ where
  mapFails memMap reply heq := by
    cases heq
    have herror : EfiError efiBufferTooSmall := by decide
    exact herror
  noInterface handle blockIo reply heq herror := by
    cases heq
    have hsuccess : ¬EfiError efiSuccess := by decide
    exact absurd herror hsuccess

theorem uefiMain_bootOrder_threeDisks :
    BootOrder (uefiMain.exec threeDisksFirmware).1
      (uefiMain.exec threeDisksFirmware).2 := by
  refine uefiMain_bootOrder (Calls.runs_exec threeDisksFirmware uefiMain) ?_
  intro e he
  obtain ⟨c, rfl⟩ := Calls.mem_exec he
  exact documented_threeDisksFirmware c

end Uefi

end OpenFerain
