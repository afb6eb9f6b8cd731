import LinuxPtp.Wire.Message

/-!
# Converting the members of a structure

`swapFields` converts members one after the other.  When the members do not
overlap, every one of them ends up as the host would read it, and converting
them once more restores the structure.
-/

namespace LinuxPtp.Wire

open ByteOrder Access

/-! ## Where members lie -/

def FieldsWithin (start stop : ℕ) (fields : List Field) : Prop :=
  ∀ field ∈ fields, start ≤ field.offset ∧ field.offset + field.width ≤ stop

instance (start stop : ℕ) (fields : List Field) :
    Decidable (FieldsWithin start stop fields) :=
  inferInstanceAs (Decidable (∀ field ∈ fields, _))

def Field.Disjoint (left right : Field) : Prop :=
  left.offset + left.width ≤ right.offset ∨
    right.offset + right.width ≤ left.offset

instance (left right : Field) : Decidable (left.Disjoint right) :=
  inferInstanceAs (Decidable (_ ∨ _))

theorem Field.Disjoint.symm {left right : Field}
    (hdisjoint : left.Disjoint right) : right.Disjoint left :=
  Or.symm hdisjoint

theorem FieldsWithin.tail {start stop : ℕ} {field : Field}
    {fields : List Field} (hfields : FieldsWithin start stop (field :: fields)) :
    FieldsWithin start stop fields :=
  fun other hother => hfields other (List.mem_cons_of_mem _ hother)

/-! ## The conversion as a function on memory -/

def swapAll (endian : Endian) (base : ℕ) (fields : List Field)
    (mem : Memory) : Memory :=
  fields.foldl
    (fun mem field => netSwap endian (base + field.offset) field.width mem) mem

def fieldSpans (base : ℕ) (fields : List Field) : List Span :=
  (fields.map fun field => ⟨base + field.offset, field.width⟩).reverse

variable {endian : Endian}

@[simp]
theorem swapAll_nil (base : ℕ) (mem : Memory) :
    swapAll endian base [] mem = mem := rfl

@[simp]
theorem swapAll_cons (base : ℕ) (field : Field) (fields : List Field)
    (mem : Memory) :
    swapAll endian base (field :: fields) mem =
      swapAll endian base fields
        (netSwap endian (base + field.offset) field.width mem) := rfl

theorem swapFields_run (host : Host) (base : ℕ) (fields : List Field)
    (store : Store ParseState) :
    swapFields host base fields store =
      (.ok (), ⟨swapAll host.endian base fields store.mem,
        fieldSpans base fields ++ store.spans, store.rest⟩) := by
  induction fields generalizing store with
  | nil => rfl
  | cons field fields ih =>
    rw [swapFields, bind_run]
    simp only [swapWord, ih, fieldSpans, List.map_cons, List.reverse_cons,
      List.append_assoc, List.singleton_append, swapAll_cons]

theorem readField_run (host : Host) (base : ℕ) (field : Field)
    (store : Store ParseState) :
    readField host base field store =
      (.ok (hostWord host.endian store.mem (base + field.offset) field.width),
        ⟨store.mem, ⟨base + field.offset, field.width⟩ :: store.spans,
          store.rest⟩) := rfl

theorem swapFields_eq_ok {host : Host} {base : ℕ} {fields : List Field}
    {store final : Store ParseState} {value : Unit}
    (hrun : swapFields host base fields store = (.ok value, final)) :
    final = ⟨swapAll host.endian base fields store.mem,
      fieldSpans base fields ++ store.spans, store.rest⟩ := by
  rw [swapFields_run] at hrun
  exact (Prod.mk.inj hrun).2.symm

theorem readField_eq_ok {host : Host} {base value : ℕ} {field : Field}
    {store final : Store ParseState}
    (hrun : readField host base field store = (.ok value, final)) :
    value = hostWord host.endian store.mem (base + field.offset) field.width ∧
      final = ⟨store.mem, ⟨base + field.offset, field.width⟩ :: store.spans,
        store.rest⟩ := by
  rw [readField_run] at hrun
  obtain ⟨hvalue, hfinal⟩ := Prod.mk.inj hrun
  exact ⟨(Except.ok.inj hvalue).symm, hfinal.symm⟩

theorem swapAll_outside {base i : ℕ} (start stop : ℕ) {fields : List Field}
    (hfields : FieldsWithin start stop fields)
    (houtside : i < base + start ∨ base + stop ≤ i) (mem : Memory) :
    swapAll endian base fields mem i = mem i := by
  induction fields generalizing mem with
  | nil => rfl
  | cons field fields ih =>
    have hfield := hfields field (List.mem_cons_self ..)
    rw [swapAll_cons, ih hfields.tail]
    exact netSwap_outside endian mem (by omega)

theorem swapAll_agreeOn {base lo hi : ℕ} {fields : List Field}
    {left right : Memory}
    (hfields : ∀ field ∈ fields,
      lo ≤ base + field.offset ∧ base + field.offset + field.width ≤ hi)
    (hagree : AgreeOn lo hi left right) :
    AgreeOn lo hi (swapAll endian base fields left)
      (swapAll endian base fields right) := by
  induction fields generalizing left right with
  | nil => exact hagree
  | cons field fields ih =>
    have hfield := hfields field (List.mem_cons_self ..)
    exact ih (fun other hother => hfields other (List.mem_cons_of_mem _ hother))
      (hagree.netSwap endian hfield.1 hfield.2)

/-- A member that overlaps none of the others may be converted first or
last. -/
theorem swapAll_netSwap {base : ℕ} {field : Field} {fields : List Field}
    (hdisjoint : ∀ other ∈ fields, field.Disjoint other) (mem : Memory) :
    swapAll endian base fields
        (netSwap endian (base + field.offset) field.width mem) =
      netSwap endian (base + field.offset) field.width
        (swapAll endian base fields mem) := by
  induction fields generalizing mem with
  | nil => rfl
  | cons other fields ih =>
    have hother := hdisjoint other (List.mem_cons_self ..)
    unfold Field.Disjoint at hother
    rw [swapAll_cons, swapAll_cons, netSwap_comm endian (by omega)]
    exact ih (fun another hmem => hdisjoint another (List.mem_cons_of_mem _ hmem)) _

/-- Converting twice restores the structure. -/
theorem swapAll_swapAll {base : ℕ} {fields : List Field}
    (hdisjoint : fields.Pairwise Field.Disjoint) (mem : Memory) :
    swapAll endian base fields (swapAll endian base fields mem) = mem := by
  induction fields generalizing mem with
  | nil => rfl
  | cons field fields ih =>
    obtain ⟨hfield, hrest⟩ := List.pairwise_cons.mp hdisjoint
    rw [swapAll_cons, swapAll_cons, ← swapAll_netSwap hfield, netSwap_netSwap,
      ih hrest]

/-- Bytes of a member that overlaps none of the converted ones. -/
theorem swapAll_apply_of_disjoint {base : ℕ} {field : Field}
    {fields : List Field} (hdisjoint : ∀ other ∈ fields, field.Disjoint other)
    (mem : Memory) {i : ℕ} (hge : base + field.offset ≤ i)
    (hlt : i < base + field.offset + field.width) :
    swapAll endian base fields mem i = mem i := by
  induction fields generalizing mem with
  | nil => rfl
  | cons other fields ih =>
    have hother := hdisjoint other (List.mem_cons_self ..)
    unfold Field.Disjoint at hother
    rw [swapAll_cons, ih fun another hmem =>
      hdisjoint another (List.mem_cons_of_mem _ hmem)]
    exact netSwap_outside endian mem (by omega)

/-- Every converted member reads as its value on the wire. -/
theorem hostWord_swapAll (base : ℕ) (field : Field) {fields : List Field}
    (hdisjoint : fields.Pairwise Field.Disjoint) (hmem : field ∈ fields)
    (mem : Memory) :
    hostWord endian (swapAll endian base fields mem) (base + field.offset)
        field.width =
      netWord mem (base + field.offset) field.width := by
  induction fields generalizing mem with
  | nil => simp at hmem
  | cons other fields ih =>
    obtain ⟨hother, hrest⟩ := List.pairwise_cons.mp hdisjoint
    rcases List.mem_cons.mp hmem with rfl | hmem
    · rw [swapAll_cons, swapAll_netSwap hother, hostWord_netSwap]
      exact netWord_congr fun i hge hlt =>
        swapAll_apply_of_disjoint hother mem hge hlt
    · rw [swapAll_cons, ih hrest hmem]
      have := hother field hmem
      unfold Field.Disjoint at this
      exact netWord_congr fun i hge hlt =>
        netSwap_outside endian mem (by omega)

end LinuxPtp.Wire
