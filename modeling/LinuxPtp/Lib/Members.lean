import LinuxPtp.Lib.Conversion

/-!
# Structures in memory, member by member

A program that fills in a structure stores one member after the other, each
converted to the type that it has there.  When the members do not overlap, every
one of them can be read back, and it has the value it was given exactly when the
value fits its type.
-/

namespace ByteOrder

/-- A member of a structure, and the value that is assigned to it. -/
inductive Member
  | unsigned (offset width : ℕ) (value : ℤ)
  | signed (offset width : ℕ) (value : ℤ)
  | octets (offset : ℕ) (bytes : List UInt8)
  deriving DecidableEq, Repr

/-- One byte has no order. -/
theorem hostWord_byte (endian : Endian) (mem : Memory) (offset : ℕ) :
    hostWord endian mem offset 1 = (mem offset).toNat := by
  cases endian <;> simp [hostWord, bytesAt, Endian.value, bigValue]

/-- The number that is stored in a word for a value. -/
def twosComplement (width : ℕ) (value : ℤ) : ℕ :=
  (value % (256 ^ width : ℕ)).toNat

/-- The signed value that a word stands for. -/
def signedValue (width number : ℕ) : ℤ :=
  if 2 * number < 256 ^ width then number else number - (256 ^ width : ℕ)

namespace Member

def offset : Member → ℕ
  | unsigned offset _ _ => offset
  | signed offset _ _ => offset
  | octets offset _ => offset

def width : Member → ℕ
  | unsigned _ width _ => width
  | signed _ width _ => width
  | octets _ bytes => bytes.length

/-- What is stored for a member; a value that is too large is cut. -/
def stored (endian : Endian) : Member → List UInt8
  | unsigned _ width value => endian.encode width (twosComplement width value)
  | signed _ width value => endian.encode width (twosComplement width value)
  | octets _ bytes => bytes

def Fits : Member → Prop
  | unsigned _ width value => 0 ≤ value ∧ value < (256 ^ width : ℤ)
  | signed _ width value =>
      -(256 ^ width : ℤ) ≤ 2 * value ∧ 2 * value < (256 ^ width : ℤ)
  | octets _ _ => True

instance (member : Member) : Decidable member.Fits := by
  unfold Fits
  split <;> infer_instance

/-- The member of the structure at `base` has the value that was assigned to it. -/
def ReadsAs (endian : Endian) (mem : Memory) (base : ℕ) : Member → Prop
  | unsigned offset width value =>
      (hostWord endian mem (base + offset) width : ℤ) = value
  | signed offset width value =>
      signedValue width (hostWord endian mem (base + offset) width) = value
  | octets offset bytes => bytesAt mem (base + offset) bytes.length = bytes

instance (endian : Endian) (mem : Memory) (base : ℕ) (member : Member) :
    Decidable (member.ReadsAs endian mem base) := by
  unfold ReadsAs
  split <;> infer_instance

def Disjoint (left right : Member) : Prop :=
  left.offset + left.width ≤ right.offset ∨
    right.offset + right.width ≤ left.offset

instance (left right : Member) : Decidable (left.Disjoint right) :=
  inferInstanceAs (Decidable (_ ∨ _))

/-- A member of a structure that lies `base` bytes into another one. -/
def shift (base : ℕ) : Member → Member
  | unsigned offset width value => unsigned (base + offset) width value
  | signed offset width value => signed (base + offset) width value
  | octets offset bytes => octets (base + offset) bytes

def Before (left right : Member) : Prop :=
  left.offset + left.width ≤ right.offset

@[simp]
theorem length_stored (endian : Endian) (member : Member) :
    (member.stored endian).length = member.width := by
  cases member <;> simp [stored, width]

@[simp]
theorem offset_shift (base : ℕ) (member : Member) :
    (member.shift base).offset = base + member.offset := by
  cases member <;> rfl

@[simp]
theorem width_shift (base : ℕ) (member : Member) :
    (member.shift base).width = member.width := by
  cases member <;> rfl

/-- Members in the order of their offsets do not overlap. -/
theorem disjoint_of_isChain {members : List Member} (hchain : members.IsChain Before) :
    members.Pairwise Disjoint := by
  have htrans : ∀ {left middle right : Member}, left.Before middle →
      middle.Before right → left.Before right := fun hleft hright => by
    simp only [Before] at hleft hright ⊢
    omega
  have : IsTrans Member Before := ⟨fun _ _ _ => htrans⟩
  exact hchain.pairwise.imp Or.inl

theorem emod_add_of_neg {value size : ℤ} (hneg : value < 0) (hge : -size ≤ value) :
    value % size = value + size := by
  rw [← Int.add_emod_right]
  exact Int.emod_eq_of_lt (by omega) (by omega)

/-- A value and its word are congruent. -/
theorem twosComplement_eq (width : ℕ) (value : ℤ) :
    (twosComplement width value : ℤ) = value % (256 ^ width : ℕ) :=
  Int.toNat_of_nonneg (Int.emod_nonneg value (by positivity))

theorem twosComplement_lt (width : ℕ) (value : ℤ) :
    twosComplement width value < 256 ^ width := by
  have hlt := Int.emod_lt_of_pos value (by positivity : (0 : ℤ) < (256 ^ width : ℕ))
  rw [← twosComplement_eq] at hlt
  exact_mod_cast hlt

/-- A value is recovered exactly when it is in the range of the word. -/
theorem unsigned_twosComplement {width : ℕ} {value : ℤ} :
    (twosComplement width value : ℤ) = value ↔
      0 ≤ value ∧ value < (256 ^ width : ℤ) := by
  have hcast : ((256 ^ width : ℕ) : ℤ) = 256 ^ width := by push_cast; rfl
  have hlt := twosComplement_lt width value
  have hnumber := twosComplement_eq width value
  rw [← hcast]
  constructor
  · intro hsame
    omega
  · rintro ⟨hnonneg, hfits⟩
    rw [hnumber, Int.emod_eq_of_lt hnonneg hfits]

/-- A value comes back from its word exactly where it fits. -/
theorem signedValue_twosComplement {width : ℕ} {value : ℤ} :
    signedValue width (twosComplement width value) = value ↔
      -(256 ^ width : ℤ) ≤ 2 * value ∧ 2 * value < (256 ^ width : ℤ) := by
  have hcast : ((256 ^ width : ℕ) : ℤ) = 256 ^ width := by push_cast; rfl
  have hlt := twosComplement_lt width value
  have hnumber := twosComplement_eq width value
  rw [← hcast, signedValue]
  generalize hsize : 256 ^ width = size at *
  rcases lt_or_ge value 0 with hvalue | hvalue
  · by_cases hge : -(size : ℤ) ≤ value
    · rw [emod_add_of_neg hvalue hge] at hnumber
      split <;> omega
    · split <;> omega
  · by_cases hfits : value < size
    · rw [Int.emod_eq_of_lt hvalue hfits] at hnumber
      split <;> omega
    · split <;> omega

variable {endian : Endian} {mem : Memory} {base : ℕ} {member other : Member}
variable {members : List Member}

/-- A stored member has its value exactly when it fits. -/
theorem readsAs_iff_fits
    (hstored : bytesAt mem (base + member.offset) member.width =
      member.stored endian) :
    member.ReadsAs endian mem base ↔ member.Fits := by
  have hword : ∀ {offset width value},
      bytesAt mem (base + offset) width =
        endian.encode width (twosComplement width value) →
      hostWord endian mem (base + offset) width = twosComplement width value := by
    intro offset width value hbytes
    rw [hostWord, hbytes, Endian.value_encode, Nat.mod_eq_of_lt (twosComplement_lt _ _)]
  cases member with
  | unsigned offset width value =>
    simp only [ReadsAs, Fits]
    rw [@hword offset width value hstored, unsigned_twosComplement]
  | signed offset width value =>
    simp only [ReadsAs, Fits]
    rw [@hword offset width value hstored, signedValue_twosComplement]
  | octets offset bytes => exact iff_of_true hstored trivial

/-- What a member reads as depends on its own bytes. -/
theorem ReadsAs.congr {mem' : Memory} (hreads : member.ReadsAs endian mem base)
    (hagree : ∀ i, base + member.offset ≤ i →
      i < base + member.offset + member.width → mem' i = mem i) :
    member.ReadsAs endian mem' base := by
  cases member with
  | unsigned => exact (congrArg _ (hostWord_congr endian hagree)).trans hreads
  | signed => exact (congrArg (signedValue _) (hostWord_congr endian hagree)).trans hreads
  | octets => exact (bytesAt_congr hagree).trans hreads

/-! ## Storing -/

/-- Memory with the members of the structure at `base` stored one after the
other. -/
def storeAll (endian : Endian) (base : ℕ) (members : List Member) (mem : Memory) :
    Memory :=
  members.foldl
    (fun mem member => storeBytes mem (base + member.offset) (member.stored endian))
    mem

theorem storeAll_before {i : ℕ} (hbefore : i < base) :
    storeAll endian base members mem i = mem i := by
  induction members generalizing mem with
  | nil => rfl
  | cons member members ih =>
    exact ih.trans (storeBytes_outside mem _ (by omega))

/-- Members that are stored elsewhere do not matter. -/
theorem storeAll_of_disjoint (hdisjoint : ∀ other ∈ members, member.Disjoint other) :
    bytesAt (storeAll endian base members mem) (base + member.offset) member.width =
      bytesAt mem (base + member.offset) member.width := by
  induction members generalizing mem with
  | nil => rfl
  | cons other members ih =>
    obtain ⟨hother, hothers⟩ := List.forall_mem_cons.mp hdisjoint
    refine (ih hothers).trans (bytesAt_congr fun i hge hlt =>
      storeBytes_outside mem _ ?_)
    rw [length_stored]
    unfold Disjoint at hother
    omega

/-- Each of several disjoint members is stored. -/
theorem bytesAt_storeAll (hdisjoint : members.Pairwise Disjoint)
    (hmember : member ∈ members) :
    bytesAt (storeAll endian base members mem) (base + member.offset) member.width =
      member.stored endian := by
  induction members generalizing mem with
  | nil => simp at hmember
  | cons first members ih =>
    obtain ⟨hfirst, hrest⟩ := List.pairwise_cons.mp hdisjoint
    rcases List.mem_cons.mp hmember with rfl | hmember
    · refine (storeAll_of_disjoint hfirst).trans ?_
      have hbytes := bytesAt_storeBytes mem (base + member.offset)
        (member.stored endian)
      rwa [length_stored] at hbytes
    · exact ih hrest hmember

/-- Members may be stored in two parts. -/
theorem storeAll_append (others : List Member) :
    storeAll endian base (members ++ others) mem =
      storeAll endian base others (storeAll endian base members mem) :=
  List.foldl_append

/-! ## Structures within structures -/

variable {inner : ℕ}

@[simp]
theorem stored_shift : (member.shift inner).stored endian = member.stored endian := by
  cases member <;> rfl

@[simp]
theorem fits_shift : (member.shift inner).Fits ↔ member.Fits := by
  cases member <;> exact Iff.rfl

theorem readsAs_shift :
    (member.shift inner).ReadsAs endian mem base ↔
      member.ReadsAs endian mem (base + inner) := by
  cases member <;> simp only [shift, ReadsAs, Nat.add_assoc]

/-- To shift members is to shift their structure. -/
theorem storeAll_map_shift :
    storeAll endian base (members.map (shift inner)) mem =
      storeAll endian (base + inner) members mem := by
  induction members generalizing mem with
  | nil => rfl
  | cons member members ih =>
    refine Eq.trans ih ?_
    simp only [storeAll, List.foldl_cons, stored_shift, offset_shift, Nat.add_assoc]

end Member

end ByteOrder

namespace Access

open ByteOrder

variable {σ ε : Type}

def writeMembers (endian : Endian) (base : ℕ) : List Member → Access σ ε Unit
  | [] => pure ()
  | member :: members => do
      writeBytes (base + member.offset) (member.stored endian)
      writeMembers endian base members

theorem Runs.writeMembers (endian : Endian) (base : ℕ) (members : List Member)
    (mem : Memory) :
    Runs (writeMembers endian base members : Access σ ε Unit) mem ()
      (Member.storeAll endian base members mem) := by
  induction members generalizing mem with
  | nil => exact .pure () mem
  | cons member members ih => exact (Runs.writeBytes _ _ mem).bind (ih _)

end Access
