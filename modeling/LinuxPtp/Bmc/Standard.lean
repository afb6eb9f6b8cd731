import LinuxPtp.Bmc.Dataset

/-!
# The dataset comparison of the standard

The comparison as IEEE 1588 states it, over numbers rather than over memory,
and the pairs of datasets on which a little-endian host computes its verdict.
-/

namespace LinuxPtp.Bmc

open ByteOrder Ranking

/-! ## The standard -/

inductive Verdict
  | aBetter
  | aBetterTopo
  | bBetter
  | bBetterTopo
  | error1
  | error2
  deriving DecidableEq, Repr

/-- The number by which the program reports a verdict; it reports no error. -/
def Verdict.code : Verdict → ℤ
  | .aBetter => Bmc.aBetter
  | .aBetterTopo => Bmc.aBetterTopo
  | .bBetter => Bmc.bBetter
  | .bBetterTopo => Bmc.bBetterTopo
  | .error1 | .error2 => 0

def ClockIdentity.number (identity : ClockIdentity) : ℕ :=
  bigValue identity.bytes

/-- Port identities are ordered by clock and then by the number of the port. -/
def PortIdentity.order (left right : PortIdentity) : Ordering :=
  (compare left.clockIdentity.number right.clockIdentity.number).then
    (compare left.portNumber.toNat right.portNumber.toNat)

/-- The comparison of datasets of one grandmaster. -/
def topologyComparison (a b : Dataset) : Verdict :=
  if a.stepsRemoved.toNat > b.stepsRemoved.toNat + 1 then .bBetter
  else if a.stepsRemoved.toNat + 1 < b.stepsRemoved.toNat then .aBetter
  else match compare a.stepsRemoved.toNat b.stepsRemoved.toNat with
    | .gt =>
        match a.receiver.order a.sender with
        | .lt => .bBetter
        | .gt => .bBetterTopo
        | .eq => .error1
    | .lt =>
        match b.receiver.order b.sender with
        | .lt => .aBetter
        | .gt => .aBetterTopo
        | .eq => .error1
    | .eq =>
        match a.sender.order b.sender with
        | .lt => .aBetterTopo
        | .gt => .bBetterTopo
        | .eq =>
            match compare a.receiver.portNumber.toNat
                b.receiver.portNumber.toNat with
            | .lt => .aBetterTopo
            | .gt => .bBetterTopo
            | .eq => .error2

def grandmasterOrder (a b : Dataset) : Ordering :=
  (compare a.priority1.toNat b.priority1.toNat).then <|
  (compare a.quality.clockClass.toNat b.quality.clockClass.toNat).then <|
  (compare a.quality.clockAccuracy.toNat b.quality.clockAccuracy.toNat).then <|
  (compare a.quality.offsetScaledLogVariance.toNat
    b.quality.offsetScaledLogVariance.toNat).then <|
  (compare a.priority2.toNat b.priority2.toNat).then <|
  compare a.identity.number b.identity.number

def datasetComparison (a b : Dataset) : Verdict :=
  if a.identity = b.identity then topologyComparison a b
  else match grandmasterOrder a b with
    | .lt => .aBetter
    | _ => .bBetter

/-! ## Memory and numbers -/

/-- Sign of an order, as `memcmp` reports it. -/
def orderSign : Ordering → ℤ
  | .lt => -1
  | .eq => 0
  | .gt => 1

/-- Two words of a high and a low part compare part by part. -/
theorem compare_parts {high low high' low' base : ℕ} (hlow : low < base)
    (hlow' : low' < base) :
    compare (high * base + low) (high' * base + low') =
      (compare high high').then (compare low low') := by
  rcases lt_trichotomy high high' with hlt | rfl | hgt
  · have hvalue : high * base + low < high' * base + low' := by
      calc
        high * base + low < (high + 1) * base := by linarith
        _ ≤ high' * base := Nat.mul_le_mul_right _ hlt
        _ ≤ _ := Nat.le_add_right _ _
    rw [compare_lt_iff_lt.mpr hvalue, compare_lt_iff_lt.mpr hlt]
    rfl
  · rw [compare_eq_iff_eq.mpr rfl, Ordering.then]
    rcases lt_trichotomy low low' with h | h | h
    · rw [compare_lt_iff_lt.mpr h, compare_lt_iff_lt]
      omega
    · rw [h, compare_eq_iff_eq.mpr rfl, compare_eq_iff_eq.mpr rfl]
    · rw [compare_gt_iff_gt.mpr h, compare_gt_iff_gt]
      omega
  · have hvalue : high' * base + low' < high * base + low := by
      calc
        high' * base + low' < (high' + 1) * base := by linarith
        _ ≤ high * base := Nat.mul_le_mul_right _ hgt
        _ ≤ _ := Nat.le_add_right _ _
    rw [compare_gt_iff_gt.mpr hvalue, compare_gt_iff_gt.mpr hgt]
    rfl

/-- Bytes compare as the numbers that they are, the first byte counting most. -/
theorem memcmp_eq_orderSign {left right : List UInt8}
    (hlength : left.length = right.length) :
    memcmp left right = orderSign (compare (bigValue left) (bigValue right)) := by
  induction left generalizing right with
  | nil =>
    rw [List.length_eq_zero_iff.mp hlength.symm]
    rfl
  | cons first left ih =>
    cases right with
    | nil => simp at hlength
    | cons second right =>
      have hlength' : left.length = right.length := by simpa using hlength
      have hleft := hlength' ▸ bigValue_lt left
      rw [bigValue_cons, bigValue_cons, memcmp, List.map_cons, List.map_cons,
        firstDifference_cons, hlength', compare_parts hleft (bigValue_lt right)]
      rcases lt_trichotomy first.toNat second.toNat with hlt | heq | hgt
      · rw [if_pos hlt, compare_lt_iff_lt.mpr hlt]
        rfl
      · rw [heq, if_neg (lt_irrefl _), if_neg (lt_irrefl _),
          compare_eq_iff_eq.mpr rfl]
        exact ih hlength'
      · rw [if_neg hgt.asymm, if_pos hgt, compare_gt_iff_gt.mpr hgt]
        rfl

/-- A port number as a little-endian host compares it: the low byte decides. -/
def lowByteFirst (number : UInt16) : ℕ :=
  number.toNat % 256 * 256 + number.toNat / 256

theorem lowByteFirst_injective : Function.Injective lowByteFirst := by
  intro left right hvalue
  have hleft := left.toNat_lt
  have hright := right.toNat_lt
  simp only [lowByteFirst] at hvalue
  exact UInt16.toNat_inj.mp (by omega)

/-- A little-endian port number is read with its bytes exchanged. -/
theorem bigValue_encode_little (number : UInt16) :
    bigValue (Endian.little.encode 2 number.toNat) = lowByteFirst number := by
  have hnumber := number.toNat_lt
  simp [Endian.encode, bigEncode, bigValue, lowByteFirst]
  omega

theorem number_injective : Function.Injective ClockIdentity.number := by
  intro left right hnumber
  apply identityBytes_injective
  have hzero : memcmp left.bytes right.bytes = 0 := by
    rw [memcmp_eq_orderSign (by simp)]
    simp only [ClockIdentity.number] at hnumber
    simp [hnumber, orderSign]
  exact (memcmp_eq_zero (by simp)).mp hzero

/-- The order in which `memcmp` of a little-endian host puts port identities. -/
def PortIdentity.memoryOrder (left right : PortIdentity) : Ordering :=
  (compare left.clockIdentity.number right.clockIdentity.number).then
    (compare (lowByteFirst left.portNumber) (lowByteFirst right.portNumber))

theorem lowByteFirst_lt (number : UInt16) : lowByteFirst number < 256 ^ 2 := by
  have hnumber := number.toNat_lt
  simp only [lowByteFirst]
  omega

theorem bigValue_append (left right : List UInt8) :
    bigValue (left ++ right) =
      bigValue left * 256 ^ right.length + bigValue right := by
  induction left with
  | nil => simp
  | cons byte left ih =>
    rw [List.cons_append, bigValue_cons, bigValue_cons, ih, List.length_append,
      pow_add]
    ring

/-- So port identities compare in the order of memory. -/
theorem memcmp_portBytes (left right : PortIdentity) :
    memcmp (left.bytes .little) (right.bytes .little) =
      orderSign (left.memoryOrder right) := by
  rw [memcmp_eq_orderSign (by simp), PortIdentity.bytes, PortIdentity.bytes,
    bigValue_append, bigValue_append, length_encode, length_encode,
    bigValue_encode_little, bigValue_encode_little,
    compare_parts (lowByteFirst_lt _) (lowByteFirst_lt _)]
  rfl

theorem memoryOrder_eq_eq {left right : PortIdentity} :
    left.memoryOrder right = .eq ↔ left = right := by
  rw [PortIdentity.memoryOrder, Ordering.then_eq_eq, compare_eq_iff_eq,
    compare_eq_iff_eq]
  constructor
  · rintro ⟨hclock, hport⟩
    cases left
    cases right
    rw [PortIdentity.mk.injEq]
    exact ⟨number_injective hclock, lowByteFirst_injective hport⟩
  · rintro rfl
    exact ⟨rfl, rfl⟩

theorem order_eq_eq {left right : PortIdentity} :
    left.order right = .eq ↔ left = right := by
  rw [PortIdentity.order, Ordering.then_eq_eq, compare_eq_iff_eq,
    compare_eq_iff_eq]
  constructor
  · rintro ⟨hclock, hport⟩
    cases left
    cases right
    rw [PortIdentity.mk.injEq]
    exact ⟨number_injective hclock, UInt16.toNat_inj.mp hport⟩
  · rintro rfl
    exact ⟨rfl, rfl⟩

/-! ## Where host and standard agree -/

/-- Ports of one clock whose numbers compare alike by their low bytes first. -/
def SwappedAlike (left right : PortIdentity) : Prop :=
  left.clockIdentity = right.clockIdentity →
    compare (lowByteFirst left.portNumber) (lowByteFirst right.portNumber) =
      compare left.portNumber.toNat right.portNumber.toNat

instance (left right : PortIdentity) : Decidable (SwappedAlike left right) :=
  inferInstanceAs (Decidable (_ → _))

/-- The order of memory is that of the standard where no exchange of bytes matters. -/
theorem memoryOrder_eq_order {left right : PortIdentity} :
    left.memoryOrder right = left.order right ↔ SwappedAlike left right := by
  rw [PortIdentity.memoryOrder, PortIdentity.order, SwappedAlike]
  by_cases hclock : left.clockIdentity = right.clockIdentity
  · rw [hclock, compare_eq_iff_eq.mpr rfl]
    simp [Ordering.then]
  · have hne : left.clockIdentity.number ≠ right.clockIdentity.number :=
      fun hnumber => hclock (number_injective hnumber)
    rcases hne.lt_or_gt with hlt | hgt
    · simp [compare_lt_iff_lt.mpr hlt, hclock]
    · simp [compare_gt_iff_gt.mpr hgt, hclock]

/-- The port identities that the comparison of two datasets consults, where it
does. -/
def consulted (a b : Dataset) : Option (PortIdentity × PortIdentity) :=
  if a.identity ≠ b.identity then none
  else if a.stepsRemoved.toNat + 1 < b.stepsRemoved.toNat then none
  else if b.stepsRemoved.toNat + 1 < a.stepsRemoved.toNat then none
  else if a.stepsRemoved.toNat < b.stepsRemoved.toNat then
    some (b.receiver, b.sender)
  else if a.stepsRemoved.toNat > b.stepsRemoved.toNat then
    some (a.receiver, a.sender)
  else some (a.sender, b.sender)

/-- The consulted port identities compare alike in memory and as numbers. -/
def PortOrderAgrees (a b : Dataset) : Prop :=
  ∀ ports ∈ consulted a b, SwappedAlike ports.1 ports.2

/-- With fewer steps, only the ports can make a difference, -/
theorem code_topology_lt {a b : Dataset} (hidentity : a.identity = b.identity)
    (hlt : a.stepsRemoved.toNat < b.stepsRemoved.toNat) :
    dscmp2 .little a b = (topologyComparison a b).code ↔
      PortOrderAgrees a b := by
  by_cases hfar : a.stepsRemoved.toNat + 1 < b.stepsRemoved.toNat
  · simp [dscmp2, topologyComparison, PortOrderAgrees, consulted, hidentity,
      hfar, Verdict.code, show ¬b.stepsRemoved.toNat + 1 < a.stepsRemoved.toNat
        by omega]
  · have hback : ¬b.stepsRemoved.toNat + 1 < a.stepsRemoved.toNat := by omega
    have hagrees : PortOrderAgrees a b ↔ SwappedAlike b.receiver b.sender := by
      simp [PortOrderAgrees, consulted, hidentity, hfar, hback, hlt]
    rw [hagrees, ← memoryOrder_eq_order]
    simp only [dscmp2, topologyComparison, memcmp_portBytes,
      compare_lt_iff_lt.mpr hlt, hfar, hback, hlt, gt_iff_lt, if_true, if_false]
    cases b.receiver.memoryOrder b.sender <;>
      cases b.receiver.order b.sender <;>
      simp [orderSign, Verdict.code, aBetter, aBetterTopo]

/-- and with more, -/
theorem code_topology_gt {a b : Dataset} (hidentity : a.identity = b.identity)
    (hgt : b.stepsRemoved.toNat < a.stepsRemoved.toNat) :
    dscmp2 .little a b = (topologyComparison a b).code ↔
      PortOrderAgrees a b := by
  have hnear : ¬a.stepsRemoved.toNat + 1 < b.stepsRemoved.toNat := by omega
  by_cases hfar : b.stepsRemoved.toNat + 1 < a.stepsRemoved.toNat
  · simp [dscmp2, topologyComparison, PortOrderAgrees, consulted, hidentity,
      hfar, hnear, Verdict.code]
  · have hagrees : PortOrderAgrees a b ↔ SwappedAlike a.receiver a.sender := by
      simp [PortOrderAgrees, consulted, hidentity, hfar, hnear, hgt, hgt.asymm]
    rw [hagrees, ← memoryOrder_eq_order]
    simp only [dscmp2, topologyComparison, memcmp_portBytes,
      compare_gt_iff_gt.mpr hgt, hfar, hnear, hgt, hgt.asymm, gt_iff_lt,
      if_true, if_false]
    cases a.receiver.memoryOrder a.sender <;>
      cases a.receiver.order a.sender <;>
      simp [orderSign, Verdict.code, bBetter, bBetterTopo]

/-- Neither order takes two different ports for one. -/
theorem memoryOrder_eq_iff_order_eq (left right : PortIdentity) :
    left.memoryOrder right = .eq ↔ left.order right = .eq := by
  rw [memoryOrder_eq_eq, order_eq_eq]

/-- and with as many. -/
theorem code_topology_eq {a b : Dataset} (hidentity : a.identity = b.identity)
    (hsteps : a.stepsRemoved.toNat = b.stepsRemoved.toNat) :
    dscmp2 .little a b = (topologyComparison a b).code ↔
      PortOrderAgrees a b := by
  have hagrees : PortOrderAgrees a b ↔ SwappedAlike a.sender b.sender := by
    simp [PortOrderAgrees, consulted, hidentity, hsteps]
  have hsame := memoryOrder_eq_iff_order_eq a.sender b.sender
  rw [hagrees, ← memoryOrder_eq_order]
  simp only [dscmp2, topologyComparison, memcmp_portBytes, hsteps,
    compare_eq_iff_eq.mpr rfl, gt_iff_lt, lt_irrefl, if_false,
    show ¬b.stepsRemoved.toNat + 1 < b.stepsRemoved.toNat by omega]
  cases hmemory : a.sender.memoryOrder b.sender <;>
    cases horder : a.sender.order b.sender <;>
    simp_all [orderSign, Verdict.code, aBetterTopo, bBetterTopo]
  rcases lt_trichotomy a.receiver.portNumber.toNat
    b.receiver.portNumber.toNat with hlt | heq | hgt
  · simp [hlt, compare_lt_iff_lt.mpr hlt]
  · simp [heq]
  · simp [hgt, hgt.asymm, compare_gt_iff_gt.mpr hgt]

/-- The topology is compared as in the standard exactly where the ports are. -/
theorem code_topology {a b : Dataset} (hidentity : a.identity = b.identity) :
    dscmp2 .little a b = (topologyComparison a b).code ↔
      PortOrderAgrees a b := by
  rcases lt_trichotomy a.stepsRemoved.toNat b.stepsRemoved.toNat with
    hlt | heq | hgt
  · exact code_topology_lt hidentity hlt
  · exact code_topology_eq hidentity heq
  · exact code_topology_gt hidentity hgt

/-- Sign of the standard's order of grandmasters, with the smaller better. -/
def preference : Ordering → ℤ
  | .lt => aBetter
  | .eq => 0
  | .gt => bBetter

theorem compareMember_preference (a b : ℕ) (order : Ordering) :
    compareMember a b (preference order) =
      preference ((compare a b).then order) := by
  rcases lt_trichotomy a b with hlt | rfl | hgt
  · simp [compareMember, hlt, compare_lt_iff_lt.mpr hlt, preference]
  · simp [compareMember]
  · simp [compareMember, hgt, hgt.asymm, compare_gt_iff_gt.mpr hgt, preference]

/-- On different grandmasters host and standard always agree. -/
theorem code_grandmaster {a b : Dataset} (hidentity : a.identity ≠ b.identity) :
    dscmpOf .little a b = (datasetComparison a b).code := by
  have hnumber : a.identity.number ≠ b.identity.number := fun hsame =>
    hidentity (number_injective hsame)
  have hmemcmp : memcmp a.identity.bytes b.identity.bytes =
      orderSign (compare a.identity.number b.identity.number) :=
    memcmp_eq_orderSign (by simp)
  have hne : memcmp a.identity.bytes b.identity.bytes ≠ 0 := by
    rw [Ne, memcmp_eq_zero (by simp)]
    exact fun hbytes => hidentity (identityBytes_injective hbytes)
  have hlast : (if memcmp a.identity.bytes b.identity.bytes < 0 then aBetter
      else bBetter) =
      preference (compare a.identity.number b.identity.number) := by
    rw [hmemcmp]
    rcases hnumber.lt_or_gt with hlt | hgt
    · rw [compare_lt_iff_lt.mpr hlt]
      rfl
    · rw [compare_gt_iff_gt.mpr hgt]
      rfl
  have horder : grandmasterOrder a b ≠ .eq := by
    simp [grandmasterOrder, Ordering.then_eq_eq, hnumber]
  calc
    dscmpOf .little a b = preference (grandmasterOrder a b) := by
      rw [dscmpOf, if_neg hne, hlast]
      simp only [compareMember_preference]
      rfl
    _ = (datasetComparison a b).code := by
      rw [datasetComparison, if_neg hidentity]
      cases hverdict : grandmasterOrder a b
      · rfl
      · exact absurd hverdict horder
      · rfl

/-- A little-endian host computes the verdict of the standard on exactly the
pairs whose consulted ports it orders alike. -/
theorem dscmp_standard_iff (a b : Dataset) :
    dscmp .little (some a) (some b) = (datasetComparison a b).code ↔
      PortOrderAgrees a b := by
  change dscmpOf .little a b = _ ↔ _
  by_cases hidentity : a.identity = b.identity
  · rw [dscmpOf, datasetComparison, if_pos hidentity, if_pos]
    · exact code_topology hidentity
    · rw [hidentity]
      exact firstDifference_self _
  · have hagrees : PortOrderAgrees a b := by
      simp [PortOrderAgrees, consulted, hidentity]
    exact iff_of_true (code_grandmaster hidentity) hagrees

/-! ## Ports 1 and 256 -/

/-- A boundary clock of one grandmaster, heard through the given port of it. -/
def heardThrough (port : UInt16) : Dataset where
  priority1 := 128
  identity := ⟨#v[0, 1, 2, 255, 254, 3, 4, 5]⟩
  quality := ⟨6, 33, 20061⟩
  priority2 := 128
  localPriority := 128
  stepsRemoved := 1
  sender := ⟨⟨#v[0, 1, 2, 255, 254, 6, 7, 8]⟩, port⟩
  receiver := ⟨⟨#v[0, 1, 2, 255, 254, 9, 10, 11]⟩, 1⟩

theorem heardThrough_not_standard :
    ¬∀ a b : Dataset,
      dscmp .little (some a) (some b) = (datasetComparison a b).code := by
  intro hstandard
  have hpair := hstandard (heardThrough 1) (heardThrough 256)
  revert hpair
  decide

end LinuxPtp.Bmc
