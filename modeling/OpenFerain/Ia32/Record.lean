import OpenFerain.Ia32.Access

/-!
# Storing the fields of a packed record

A C structure is filled by one store for each field assigned.  The stores are
given as a list of fields at fixed offsets; when the fields do not overlap,
every field reads back as it was stored, and no byte outside the record is
touched.
-/

namespace Ia32

open Access

/-- The bytes stored to one field, at an offset in its record. -/
structure Field where
  offset : ℕ
  bytes : List (BitVec 8)

def field8 (offset : ℕ) (v : BitVec 8) : Field := ⟨offset, [v]⟩

def field16 (offset : ℕ) (v : BitVec 16) : Field := ⟨offset, bytes16 v⟩

def field32 (offset : ℕ) (v : BitVec 32) : Field := ⟨offset, bytes32 v⟩

/-- The offset just after a field. -/
def Field.stop (f : Field) : ℕ := f.offset + f.bytes.length

/-- The field lies before or after the other one. -/
def Field.Apart (f f' : Field) : Prop :=
  f.stop ≤ f'.offset ∨ f'.stop ≤ f.offset

/-- The offsets at which a field starts and stops. -/
def Field.extent (f : Field) : ℕ × ℕ := (f.offset, f.stop)

/-- Whether fields stay within a record, and apart from each other, depends on
their extents only. -/
theorem stop_le_of_extents {size : ℕ} {fs : List Field}
    (h : ∀ e ∈ fs.map Field.extent, e.2 ≤ size) :
    ∀ f ∈ fs, f.stop ≤ size :=
  fun _ hf => h _ (List.mem_map_of_mem hf)

theorem apart_of_extents {fs : List Field}
    (h : (fs.map Field.extent).Pairwise
      fun e e' => e.2 ≤ e'.1 ∨ e'.2 ≤ e.1) :
    fs.Pairwise Field.Apart := by
  rw [List.pairwise_map] at h
  exact h

/-- Store the fields of the record at `base`, in order. -/
def storeFields (base : BitVec 32) : List Field → Access Unit
  | [] => pure ()
  | f :: fs => do
      store (base + BitVec.ofNat 32 f.offset) f.bytes (ret ())
      storeFields base fs

variable {base : BitVec 32} {size : ℕ} {fs : List Field} {m : Memory}

theorem exec_storeFields_cons (f : Field) :
    (storeFields base (f :: fs)).exec m =
      (storeFields base fs).exec
        (m.write (base + BitVec.ofNat 32 f.offset) f.bytes) := by
  rw [storeFields, exec_bind]
  rfl

/-- Filling a record touches only the record. -/
theorem storeFields_within {R : BitVec 32 → Prop} (hsize : size ≤ 2 ^ 32)
    (hfs : ∀ f ∈ fs, f.stop ≤ size) :
    (storeFields base fs).Within R (fun x => (x - base).toNat < size) m := by
  induction fs generalizing m with
  | nil => exact within_pure _ _
  | cons f fs ih =>
      rw [storeFields]
      apply within_bind
      · refine ⟨?_, trivial⟩
        intro k hk
        have hf := hfs f List.mem_cons_self
        rw [Field.stop] at hf
        bv_omega
      · exact ih fun g hg => hfs g (List.mem_cons_of_mem f hg)

/-- A byte apart from every field keeps its value. -/
theorem exec_storeFields_of_apart (hsize : size ≤ 2 ^ 32)
    (hfs : ∀ f ∈ fs, f.stop ≤ size) {k : ℕ} (hk : k < size)
    (hapart : ∀ f ∈ fs, k < f.offset ∨ f.stop ≤ k) :
    (storeFields base fs).exec m (base + BitVec.ofNat 32 k) =
      m (base + BitVec.ofNat 32 k) := by
  induction fs generalizing m with
  | nil => rfl
  | cons f fs ih =>
      have hf := hfs f List.mem_cons_self
      have hfar := hapart f List.mem_cons_self
      rw [Field.stop] at hf hfar
      rw [exec_storeFields_cons,
        ih (fun g hg => hfs g (List.mem_cons_of_mem f hg))
          (fun g hg => hapart g (List.mem_cons_of_mem f hg)),
        Memory.write_apply_of_le]
      bv_omega

/-- A field of a record whose fields are apart reads back as stored. -/
theorem exec_storeFields_field (hsize : size ≤ 2 ^ 32)
    (hfs : ∀ f ∈ fs, f.stop ≤ size) (hapart : fs.Pairwise Field.Apart)
    {f : Field} (hf : f ∈ fs) {k : ℕ} (hk : k < f.bytes.length) :
    (storeFields base fs).exec m (base + BitVec.ofNat 32 (f.offset + k)) =
      f.bytes[k] := by
  induction fs generalizing m with
  | nil => exact absurd hf List.not_mem_nil
  | cons g fs ih =>
      rw [exec_storeFields_cons]
      have htail : ∀ f ∈ fs, f.stop ≤ size :=
        fun f hf => hfs f (List.mem_cons_of_mem g hf)
      rcases List.mem_cons.mp hf with rfl | hmem
      · have hstop := hfs f List.mem_cons_self
        rw [Field.stop] at hstop
        rw [exec_storeFields_of_apart hsize htail (by omega)]
        · have haddr : base + BitVec.ofNat 32 (f.offset + k) =
              base + BitVec.ofNat 32 f.offset + BitVec.ofNat 32 k := by
            bv_omega
          rw [haddr, Memory.write_apply_add _ _ _ _ hk (by omega)]
        · intro g hg
          have hrel := (List.pairwise_cons.mp hapart).1 g hg
          simp only [Field.Apart, Field.stop] at hrel ⊢
          omega
      · exact ih htail (List.pairwise_cons.mp hapart).2 hmem

theorem load32_storeFields (hsize : size ≤ 2 ^ 32)
    (hfs : ∀ f ∈ fs, f.stop ≤ size) (hapart : fs.Pairwise Field.Apart)
    {offset : ℕ} {v : BitVec 32} (hf : field32 offset v ∈ fs) :
    ((storeFields base fs).exec m).load32 (base + BitVec.ofNat 32 offset) =
      v := by
  rw [← Memory.load32_write_bytes32 m (base + BitVec.ofNat 32 offset) v]
  apply Memory.load32_congr
  intro k hk
  have haddr : base + BitVec.ofNat 32 offset + BitVec.ofNat 32 k =
      base + BitVec.ofNat 32 (offset + k) := by bv_omega
  rw [Memory.write_apply_add _ _ _ _ (by simpa using hk) (by simp), haddr]
  exact exec_storeFields_field hsize hfs hapart hf (by simpa [field32] using hk)

theorem load16_storeFields (hsize : size ≤ 2 ^ 32)
    (hfs : ∀ f ∈ fs, f.stop ≤ size) (hapart : fs.Pairwise Field.Apart)
    {offset : ℕ} {v : BitVec 16} (hf : field16 offset v ∈ fs) :
    ((storeFields base fs).exec m).load16 (base + BitVec.ofNat 32 offset) =
      v := by
  rw [← Memory.load16_write_bytes16 m (base + BitVec.ofNat 32 offset) v]
  apply Memory.load16_congr
  intro k hk
  have haddr : base + BitVec.ofNat 32 offset + BitVec.ofNat 32 k =
      base + BitVec.ofNat 32 (offset + k) := by bv_omega
  rw [Memory.write_apply_add _ _ _ _ (by simpa using hk) (by simp), haddr]
  exact exec_storeFields_field hsize hfs hapart hf (by simpa [field16] using hk)

end Ia32
