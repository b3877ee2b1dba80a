import OpenFerain.Ia32.Access

/-!
# Two-level paging

The 32-bit translation of the architecture: `CR3` names a page directory, an
entry of which names a page table, an entry of which names a frame.  A program
of memory accesses can be run through the translation; an access to an address
without a present directory and table entry faults.  Where the translation is
the identity on everything the program touches, and the program does not touch
the tables, that run is the direct run.
-/

namespace Ia32

/-! ## Entries and the table walk -/

/-- The present bit of a page-directory or page-table entry. -/
def entryPresent (entry : BitVec 32) : Bool := entry.getLsbD 0

/-- The read/write bit of an entry. -/
def entryWritable (entry : BitVec 32) : Bool := entry.getLsbD 1

/-- The user/supervisor bit of an entry. -/
def entryUser (entry : BitVec 32) : Bool := entry.getLsbD 2

/-- The frame an entry, or `CR3`, names. -/
def entryFrame (entry : BitVec 32) : BitVec 32 := entry &&& 0xFFFFF000#32

/-- The page-directory entry used for the linear address `x`. -/
def directoryEntry (m : Memory) (cr3 x : BitVec 32) : BitVec 32 :=
  m.load32 (entryFrame cr3 + (x >>> 22) * 4)

/-- The entry for `x` of the page table that `pde` names. -/
def tableEntry (m : Memory) (pde x : BitVec 32) : BitVec 32 :=
  m.load32 (entryFrame pde + ((x >>> 12) &&& 0x3FF) * 4)

/-- The page a linear address is mapped to, with its access rights. -/
structure Mapping where
  frame : BitVec 32
  user : Bool
  writable : Bool

/-- The two-level walk for `x`; `none` when an entry is not present. -/
def walk (m : Memory) (cr3 x : BitVec 32) : Option Mapping :=
  let pde := directoryEntry m cr3 x
  let pte := tableEntry m pde x
  if entryPresent pde && entryPresent pte then
    some {
      frame := entryFrame pte
      user := entryUser pde && entryUser pte
      writable := entryWritable pde && entryWritable pte }
  else none

/-- The physical address of the linear address `x`. -/
def translate (m : Memory) (cr3 x : BitVec 32) : Option (BitVec 32) :=
  (walk m cr3 x).map fun page => page.frame + (x &&& 0xFFF)

/-- Both entries for `x` are present. -/
def Mapped (m : Memory) (cr3 x : BitVec 32) : Prop :=
  entryPresent (directoryEntry m cr3 x) = true ∧
    entryPresent (tableEntry m (directoryEntry m cr3 x) x) = true

theorem walk_eq_none_iff {m : Memory} {cr3 x : BitVec 32} :
    walk m cr3 x = none ↔ ¬Mapped m cr3 x := by
  simp only [walk, Mapped]
  split <;> simp_all

theorem walk_eq_some_iff {m : Memory} {cr3 x : BitVec 32} {page : Mapping} :
    walk m cr3 x = some page ↔ Mapped m cr3 x ∧ page = {
      frame := entryFrame (tableEntry m (directoryEntry m cr3 x) x)
      user := entryUser (directoryEntry m cr3 x) &&
        entryUser (tableEntry m (directoryEntry m cr3 x) x)
      writable := entryWritable (directoryEntry m cr3 x) &&
        entryWritable (tableEntry m (directoryEntry m cr3 x) x) } := by
  rw [walk, Mapped, ← Bool.and_eq_true]
  split
  · rename_i hmapped
    rw [Option.some.injEq, eq_comm]
    exact (and_iff_right hmapped).symm
  · rename_i hnot
    simp only [reduceCtorEq, hnot, false_and]

theorem translate_eq_none_iff {m : Memory} {cr3 x : BitVec 32} :
    translate m cr3 x = none ↔ ¬Mapped m cr3 x := by
  rw [translate, Option.map_eq_none_iff, walk_eq_none_iff]

/-! ## Running through the translation -/

/-- An access to a linear address that is not mapped. -/
inductive PageFault where
  | load (a : BitVec 32)
  | store (a : BitVec 32)

/-- The byte at the linear address `a`. -/
def fetch8 (m : Memory) (cr3 a : BitVec 32) : Option (BitVec 8) :=
  (translate m cr3 a).map m

/-- The word at the linear address `a`. -/
def fetch32 (m : Memory) (cr3 a : BitVec 32) : Option (BitVec 32) := do
  let b0 ← fetch8 m cr3 a
  let b1 ← fetch8 m cr3 (a + 1)
  let b2 ← fetch8 m cr3 (a + 2)
  let b3 ← fetch8 m cr3 (a + 3)
  pure (b3 ++ b2 ++ b1 ++ b0)

/-- The memory after bytes are stored at the linear address `a`.  All bytes
are translated by the tables as they were before the store. -/
def deposit (tables : Memory) (cr3 : BitVec 32) :
    BitVec 32 → List (BitVec 8) → Memory → Option Memory
  | _, [], m => some m
  | a, b :: bs, m => do
      let target ← translate tables cr3 a
      let m' ← deposit tables cr3 (a + 1) bs m
      pure (m'.write target [b])

namespace Access

variable {α β : Type}

/-- Run a program through the tables at `cr3`.  A fault ends the run and leaves
the memory as it was before the faulting access. -/
def runPaged (cr3 : BitVec 32) : Access α → Memory → Except PageFault α × Memory
  | ret value, m => (.ok value, m)
  | load8 a next, m =>
      match fetch8 m cr3 a with
      | none => (.error (.load a), m)
      | some b => (next b).runPaged cr3 m
  | load32 a next, m =>
      match fetch32 m cr3 a with
      | none => (.error (.load a), m)
      | some v => (next v).runPaged cr3 m
  | store a bs next, m =>
      match deposit m cr3 a bs m with
      | none => (.error (.store a), m)
      | some m' => next.runPaged cr3 m'

/-- The linear addresses of the bytes a paged run stores to, the faulting store
included, each with the memory at the moment of the store. -/
def storeAttempts (cr3 : BitVec 32) :
    Access α → Memory → List (Memory × BitVec 32)
  | ret _, _ => []
  | load8 a next, m =>
      match fetch8 m cr3 a with
      | none => []
      | some b => (next b).storeAttempts cr3 m
  | load32 a next, m =>
      match fetch32 m cr3 a with
      | none => []
      | some v => (next v).storeAttempts cr3 m
  | store a bs next, m =>
      (List.range bs.length).map (fun k => (m, a + BitVec.ofNat 32 k)) ++
        match deposit m cr3 a bs m with
        | none => []
        | some m' => next.storeAttempts cr3 m'

/-- The memory after programs run one after the other.  A fault ends the
sequence. -/
def runAllPaged (cr3 : BitVec 32) : List (Access α) → Memory → Memory
  | [], m => m
  | p :: rest, m =>
      match p.runPaged cr3 m with
      | (.ok _, m') => runAllPaged cr3 rest m'
      | (.error _, m') => m'

theorem runAllPaged_of_error {p : Access α} {rest : List (Access α)}
    {cr3 : BitVec 32} {m m' : Memory} {fault : PageFault}
    (h : p.runPaged cr3 m = (.error fault, m')) :
    runAllPaged cr3 (p :: rest) m = m' := by
  rw [runAllPaged, h]

theorem runPaged_bind_of_ok {p : Access α} {f : α → Access β}
    {cr3 : BitVec 32} {m m' : Memory} {v : α}
    (h : p.runPaged cr3 m = (.ok v, m')) :
    (p >>= f).runPaged cr3 m = (f v).runPaged cr3 m' := by
  change (p.andThen f).runPaged cr3 m = _
  induction p generalizing m with
  | ret w =>
      simp only [runPaged, Prod.mk.injEq, Except.ok.injEq] at h
      obtain ⟨rfl, rfl⟩ := h
      rfl
  | load8 a next ih =>
      simp only [runPaged, andThen] at h ⊢
      cases hfetch : fetch8 m cr3 a with
      | none => simp [hfetch] at h
      | some b => exact ih b (by simpa [hfetch] using h)
  | load32 a next ih =>
      simp only [runPaged, andThen] at h ⊢
      cases hfetch : fetch32 m cr3 a with
      | none => simp [hfetch] at h
      | some v => exact ih v (by simpa [hfetch] using h)
  | store a bs next ih =>
      simp only [runPaged, andThen] at h ⊢
      cases hstore : deposit m cr3 a bs m with
      | none => simp [hstore] at h
      | some m'' => exact ih (by simpa [hstore] using h)

/-- A run that faults stays faulted whatever follows. -/
theorem runPaged_bind_of_error {p : Access α} {f : α → Access β}
    {cr3 : BitVec 32} {m m' : Memory} {fault : PageFault}
    (h : p.runPaged cr3 m = (.error fault, m')) :
    (p >>= f).runPaged cr3 m = (.error fault, m') := by
  change (p.andThen f).runPaged cr3 m = _
  induction p generalizing m with
  | ret w => simp [runPaged] at h
  | load8 a next ih =>
      simp only [runPaged, andThen] at h ⊢
      cases hfetch : fetch8 m cr3 a with
      | none => simpa [hfetch] using h
      | some b => exact ih b (by simpa [hfetch] using h)
  | load32 a next ih =>
      simp only [runPaged, andThen] at h ⊢
      cases hfetch : fetch32 m cr3 a with
      | none => simpa [hfetch] using h
      | some v => exact ih v (by simpa [hfetch] using h)
  | store a bs next ih =>
      simp only [runPaged, andThen] at h ⊢
      cases hstore : deposit m cr3 a bs m with
      | none => simpa [hstore] using h
      | some m'' => exact ih (by simpa [hstore] using h)

end Access

/-! ## Faults and unmapped stores -/

theorem exists_unmapped_of_deposit {tables : Memory} {cr3 a : BitVec 32}
    {bs : List (BitVec 8)} {m : Memory}
    (h : deposit tables cr3 a bs m = none) :
    ∃ k < bs.length, ¬Mapped tables cr3 (a + BitVec.ofNat 32 k) := by
  induction bs generalizing a with
  | nil => simp [deposit] at h
  | cons b bs ih =>
      cases hhead : translate tables cr3 a with
      | none =>
          refine ⟨0, by simp, ?_⟩
          rw [BitVec.add_zero]
          exact translate_eq_none_iff.mp hhead
      | some target =>
          cases htail : deposit tables cr3 (a + 1) bs m with
          | none =>
              obtain ⟨k, hk, hnot⟩ := ih htail
              have haddr : a + 1 + BitVec.ofNat 32 k =
                  a + BitVec.ofNat 32 (k + 1) := by bv_omega
              rw [haddr] at hnot
              exact ⟨k + 1, by simpa using hk, hnot⟩
          | some m' =>
              rw [deposit, hhead, htail] at h
              contradiction

theorem Access.runPaged_write32_of_unmapped {cr3 a v : BitVec 32}
    {m : Memory} (h : ¬Mapped m cr3 a) :
    (write32 a v).runPaged cr3 m = (.error (.store a), m) := by
  have htranslate := translate_eq_none_iff.mpr h
  have hstore : deposit m cr3 a (bytes32 v) m = none := by
    rw [bytes32, deposit, htranslate]
    rfl
  simp only [write32, runPaged, hstore]

/-- A run that faults on a store attempts to store to an unmapped address. -/
theorem Access.exists_unmapped_of_fault {α : Type} {p : Access α}
    {cr3 a : BitVec 32} {m m' : Memory}
    (h : p.runPaged cr3 m = (.error (.store a), m')) :
    ∃ x, (m', x) ∈ p.storeAttempts cr3 m ∧ ¬Mapped m' cr3 x := by
  induction p generalizing m with
  | ret v => simp [runPaged] at h
  | load8 b next ih =>
      simp only [runPaged, storeAttempts] at h ⊢
      cases hfetch : fetch8 m cr3 b with
      | none => simp [hfetch] at h
      | some v => exact ih v (by simpa [hfetch] using h)
  | load32 b next ih =>
      simp only [runPaged, storeAttempts] at h ⊢
      cases hfetch : fetch32 m cr3 b with
      | none => simp [hfetch] at h
      | some v => exact ih v (by simpa [hfetch] using h)
  | store b bs next ih =>
      simp only [runPaged, storeAttempts] at h ⊢
      cases hstore : deposit m cr3 b bs m with
      | none =>
          obtain ⟨k, hk, hnot⟩ := exists_unmapped_of_deposit hstore
          simp only [hstore, Prod.mk.injEq] at h
          obtain ⟨-, rfl⟩ := h
          refine ⟨b + BitVec.ofNat 32 k, ?_, hnot⟩
          apply List.mem_append_left
          exact List.mem_map.mpr ⟨k, List.mem_range.mpr hk, rfl⟩
      | some m'' =>
          obtain ⟨x, hx, hnot⟩ := ih (m := m'') (by simpa [hstore] using h)
          exact ⟨x, List.mem_append_right _ hx, hnot⟩

/-! ## The identity mapping -/

/-- In every memory that agrees with `m` on the bytes `T` of the tables, the
translation through `cr3` is the identity on the bytes that satisfy `P`. -/
def IdentityMapped (T P : BitVec 32 → Prop) (cr3 : BitVec 32) (m : Memory) :
    Prop :=
  ∀ m' : Memory, (∀ x, T x → m' x = m x) →
    ∀ x, P x → translate m' cr3 x = some x

section Identity

variable {T R W P : BitVec 32 → Prop} {cr3 : BitVec 32} {m m' : Memory}

theorem IdentityMapped.of_agree (h : IdentityMapped T P cr3 m)
    (hagree : ∀ x, T x → m' x = m x) : IdentityMapped T P cr3 m' := by
  intro m'' hm'' x hx
  exact h m'' (fun y hy => (hm'' y hy).trans (hagree y hy)) x hx

theorem IdentityMapped.translate (h : IdentityMapped T P cr3 m)
    {x : BitVec 32} (hx : P x) : translate m cr3 x = some x :=
  h m (fun _ _ => rfl) x hx

theorem fetch32_of_identity (h : IdentityMapped T R cr3 m) {a : BitVec 32}
    (ha : ∀ k < 4, R (a + BitVec.ofNat 32 k)) :
    fetch32 m cr3 a = some (m.load32 a) := by
  have hbyte : ∀ k < 4, fetch8 m cr3 (a + BitVec.ofNat 32 k) =
      some (m (a + BitVec.ofNat 32 k)) := by
    intro k hk
    rw [fetch8, h.translate (ha k hk), Option.map_some]
  have h0 := hbyte 0 (by omega)
  have h1 := hbyte 1 (by omega)
  have h2 := hbyte 2 (by omega)
  have h3 := hbyte 3 (by omega)
  simp only [BitVec.add_zero] at h0
  rw [fetch32]
  simp only [BitVec.ofNat_eq_ofNat] at h1 h2 h3 ⊢
  rw [h0, h1, h2, h3]
  rfl

theorem deposit_of_identity {tables : Memory}
    (h : IdentityMapped T W cr3 tables) {bs : List (BitVec 8)}
    {a : BitVec 32} (ha : ∀ k < bs.length, W (a + BitVec.ofNat 32 k)) :
    deposit tables cr3 a bs m = some (m.write a bs) := by
  induction bs generalizing a with
  | nil => rw [deposit, Memory.write_nil]
  | cons b bs ih =>
      have hhead : W a := by simpa using ha 0 (by simp)
      have htail : ∀ k < bs.length, W (a + 1 + BitVec.ofNat 32 k) := by
        intro k hk
        have hnext := ha (k + 1) (by simpa using hk)
        have haddr : a + BitVec.ofNat 32 (k + 1) =
            a + 1 + BitVec.ofNat 32 k := by bv_omega
        rwa [haddr] at hnext
      rw [deposit, h.translate hhead, ih htail, Memory.write_cons]
      rfl

namespace Access

variable {α : Type}

/-- Where everything a program touches is mapped to itself and the program
leaves the tables alone, its paged run is its direct run. -/
theorem runPaged_of_identity {p : Access α} (h : p.Within R W m)
    (hR : IdentityMapped T R cr3 m) (hW : IdentityMapped T W cr3 m)
    (htables : ∀ x, W x → ¬T x) :
    p.runPaged cr3 m = (.ok (p.value m), p.exec m) := by
  induction p generalizing m with
  | ret v => rfl
  | load8 a next ih =>
      have hfetch : fetch8 m cr3 a = some (m a) := by
        rw [fetch8, hR.translate h.1, Option.map_some]
      simp only [runPaged, hfetch]
      exact ih _ h.2 hR hW
  | load32 a next ih =>
      simp only [runPaged, fetch32_of_identity hR h.1]
      exact ih _ h.2 hR hW
  | store a bs next ih =>
      have hagree : ∀ x, T x → m.write a bs x = m x := by
        intro x hx
        have hstore : (store a bs (ret ())).Within R W m := ⟨h.1, trivial⟩
        exact hstore.exec_apply fun hw => htables x hw hx
      simp only [runPaged, deposit_of_identity hW h.1]
      exact ih h.2 (hR.of_agree hagree) (hW.of_agree hagree)

end Access

end Identity

end Ia32
