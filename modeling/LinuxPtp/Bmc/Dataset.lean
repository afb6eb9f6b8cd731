import LinuxPtp.Lib.ByteOrder
import LinuxPtp.Lib.Ranking

/-!
# Comparing datasets

The two comparisons of `bmc.c`.  Both order datasets by the first difference of
a key, and the key shows that the order is transitive, although equal and
neighbouring step counts consult different members.
-/

namespace LinuxPtp.Bmc

open ByteOrder Ranking

structure ClockIdentity where
  id : Vector UInt8 8
  deriving DecidableEq, Repr

structure PortIdentity where
  clockIdentity : ClockIdentity
  portNumber : UInt16
  deriving DecidableEq, Repr

structure ClockQuality where
  clockClass : UInt8
  clockAccuracy : UInt8
  offsetScaledLogVariance : UInt16
  deriving DecidableEq, Repr

structure Dataset where
  priority1 : UInt8
  identity : ClockIdentity
  quality : ClockQuality
  priority2 : UInt8
  localPriority : UInt8
  stepsRemoved : UInt16
  sender : PortIdentity
  receiver : PortIdentity
  deriving DecidableEq, Repr

def ClockIdentity.bytes (identity : ClockIdentity) : List UInt8 :=
  identity.id.toList

/-- A port identity as it lies in memory once its number is in host order. -/
def PortIdentity.bytes (host : Endian) (port : PortIdentity) : List UInt8 :=
  port.clockIdentity.bytes ++ host.encode 2 port.portNumber.toNat

/-- Sign of the first difference of two runs of bytes. -/
def memcmp (left right : List UInt8) : ℤ :=
  firstDifference (left.map UInt8.toNat) (right.map UInt8.toNat)

/-! ## The verdicts -/

def aBetterTopo : ℤ := 2
def aBetter : ℤ := 1
def bBetter : ℤ := -1
def bBetterTopo : ℤ := -2

/-- A member decides where it differs, the smaller value being the better. -/
def compareMember (a b : ℕ) (otherwise : ℤ) : ℤ :=
  if a < b then aBetter
  else if a > b then bBetter
  else otherwise

def dscmp2 (host : Endian) (a b : Dataset) : ℤ :=
  let stepsA := a.stepsRemoved.toNat
  let stepsB := b.stepsRemoved.toNat
  let portA := a.receiver.portNumber.toNat
  let portB := b.receiver.portNumber.toNat
  if stepsA + 1 < stepsB then aBetter
  else if stepsB + 1 < stepsA then bBetter
  else if stepsA < stepsB then
    let diff := memcmp (b.receiver.bytes host) (b.sender.bytes host)
    if diff < 0 then aBetter
    else if diff > 0 then aBetterTopo
    else 0
  else if stepsA > stepsB then
    let diff := memcmp (a.receiver.bytes host) (a.sender.bytes host)
    if diff < 0 then bBetter
    else if diff > 0 then bBetterTopo
    else 0
  else
    let diff := memcmp (a.sender.bytes host) (b.sender.bytes host)
    if diff < 0 then aBetterTopo
    else if diff > 0 then bBetterTopo
    else if portA < portB then aBetterTopo
    else if portA > portB then bBetterTopo
    else 0

/-- A dataset that is there is better than a null pointer. -/
def comparePointers (compare : Dataset → Dataset → ℤ) :
    Option Dataset → Option Dataset → ℤ
  | none, none => 0
  | some _, none => aBetter
  | none, some _ => bBetter
  | some a, some b => compare a b

/-- `dscmp` of two datasets that are there. -/
def dscmpOf (host : Endian) (a b : Dataset) : ℤ :=
  let diff := memcmp a.identity.bytes b.identity.bytes
  if diff = 0 then dscmp2 host a b
  else
    compareMember a.priority1.toNat b.priority1.toNat <|
    compareMember a.quality.clockClass.toNat b.quality.clockClass.toNat <|
    compareMember a.quality.clockAccuracy.toNat
      b.quality.clockAccuracy.toNat <|
    compareMember a.quality.offsetScaledLogVariance.toNat
      b.quality.offsetScaledLogVariance.toNat <|
    compareMember a.priority2.toNat b.priority2.toNat <|
    if diff < 0 then aBetter else bBetter

def dscmp (host : Endian) : Option Dataset → Option Dataset → ℤ :=
  comparePointers (dscmpOf host)

/-- `telecom_dscmp` of two datasets that are there. -/
def telecomDscmpOf (host : Endian) (a b : Dataset) : ℤ :=
  compareMember a.quality.clockClass.toNat b.quality.clockClass.toNat <|
  compareMember a.quality.clockAccuracy.toNat
    b.quality.clockAccuracy.toNat <|
  compareMember a.quality.offsetScaledLogVariance.toNat
    b.quality.offsetScaledLogVariance.toNat <|
  compareMember a.priority2.toNat b.priority2.toNat <|
  compareMember a.localPriority.toNat b.localPriority.toNat <|
  if a.quality.clockClass.toNat ≤ 127 then dscmp2 host a b
  else
    let diff := memcmp a.identity.bytes b.identity.bytes
    if diff = 0 then dscmp2 host a b
    else if diff < 0 then aBetter
    else bBetter

def telecomDscmp (host : Endian) : Option Dataset → Option Dataset → ℤ :=
  comparePointers (telecomDscmpOf host)

/-! ## Turning the arguments round -/

theorem memcmp_swap (left right : List UInt8) :
    memcmp right left = -memcmp left right :=
  firstDifference_swap _ _

/-- To exchange the two sides turns the sign of a comparison. -/
theorem compareMember_swap (a b : ℕ) {otherwise otherwise' : ℤ}
    (hotherwise : a = b → otherwise' = -otherwise) :
    compareMember b a otherwise' = -compareMember a b otherwise := by
  rcases lt_trichotomy a b with hlt | rfl | hgt
  · simp [compareMember, hlt, hlt.asymm, aBetter, bBetter]
  · simpa [compareMember] using hotherwise rfl
  · simp [compareMember, hgt, hgt.asymm, aBetter, bBetter]

theorem dscmp2_swap (host : Endian) (a b : Dataset) :
    dscmp2 host b a = -dscmp2 host a b := by
  have hsender := memcmp_swap (a.sender.bytes host) (b.sender.bytes host)
  simp only [dscmp2, hsender, aBetter, bBetter, aBetterTopo, bBetterTopo]
  split_ifs <;> omega

theorem dscmpOf_swap (host : Endian) (a b : Dataset) :
    dscmpOf host b a = -dscmpOf host a b := by
  have hidentity := memcmp_swap a.identity.bytes b.identity.bytes
  rcases lt_trichotomy (memcmp a.identity.bytes b.identity.bytes) 0 with
    hlt | heq | hgt
  · have hback : 0 < memcmp b.identity.bytes a.identity.bytes := by omega
    simp only [dscmpOf, hlt.ne, hback.ne', hlt, hback.not_gt, if_true, if_false]
    iterate 5 refine compareMember_swap _ _ fun _ => ?_
    rfl
  · have hback : memcmp b.identity.bytes a.identity.bytes = 0 := by omega
    simp only [dscmpOf, heq, hback, if_true]
    exact dscmp2_swap host a b
  · have hback : memcmp b.identity.bytes a.identity.bytes < 0 := by omega
    simp only [dscmpOf, hgt.ne', hback.ne, hback, hgt.not_gt, if_true, if_false]
    iterate 5 refine compareMember_swap _ _ fun _ => ?_
    rfl

/-- The telecom comparison of swapped datasets is negated as well. -/
theorem telecomDscmpOf_swap (host : Endian) (a b : Dataset) :
    telecomDscmpOf host b a = -telecomDscmpOf host a b := by
  have hidentity := memcmp_swap a.identity.bytes b.identity.bytes
  refine compareMember_swap _ _ fun hclass => ?_
  iterate 4 refine compareMember_swap _ _ fun _ => ?_
  rw [hclass, dscmp2_swap host a b]
  simp only [hidentity, aBetter, bBetter]
  split_ifs <;> omega

/-! ## The key of a dataset -/

/-- What the last part of the comparison consults. -/
def topologyKey (host : Endian) (ds : Dataset) : List ℕ :=
  [ds.stepsRemoved.toNat] ++ (ds.sender.bytes host).map UInt8.toNat ++
    [ds.receiver.portNumber.toNat]

def rankKey (host : Endian) (ds : Dataset) : List ℕ :=
  [ds.priority1.toNat, ds.quality.clockClass.toNat,
    ds.quality.clockAccuracy.toNat,
    ds.quality.offsetScaledLogVariance.toNat, ds.priority2.toNat] ++
    (ds.identity.bytes.map UInt8.toNat ++ topologyKey host ds)

/-- Grandmasters of a class up to 127 are not told apart by their identity. -/
def telecomIdentity (ds : Dataset) : List ℕ :=
  if ds.quality.clockClass.toNat ≤ 127 then List.replicate 8 0
  else ds.identity.bytes.map UInt8.toNat

def telecomKey (host : Endian) (ds : Dataset) : List ℕ :=
  [ds.quality.clockClass.toNat, ds.quality.clockAccuracy.toNat,
    ds.quality.offsetScaledLogVariance.toNat, ds.priority2.toNat,
    ds.localPriority.toNat] ++ (telecomIdentity ds ++ topologyKey host ds)

@[simp]
theorem length_identityBytes (identity : ClockIdentity) :
    identity.bytes.length = 8 := by
  simp [ClockIdentity.bytes]

@[simp]
theorem length_portBytes (host : Endian) (port : PortIdentity) :
    (port.bytes host).length = 10 := by
  simp [PortIdentity.bytes]

@[simp]
theorem length_topologyKey (host : Endian) (ds : Dataset) :
    (topologyKey host ds).length = 12 := by
  simp [topologyKey]

@[simp]
theorem length_rankKey (host : Endian) (ds : Dataset) :
    (rankKey host ds).length = 25 := by
  simp [rankKey]

@[simp]
theorem length_telecomIdentity (ds : Dataset) :
    (telecomIdentity ds).length = 8 := by
  rw [telecomIdentity]
  split <;> simp

@[simp]
theorem length_telecomKey (host : Endian) (ds : Dataset) :
    (telecomKey host ds).length = 25 := by
  simp [telecomKey]

theorem identityBytes_injective : Function.Injective ClockIdentity.bytes := by
  rintro ⟨left⟩ ⟨right⟩ hbytes
  simpa [ClockIdentity.bytes, Vector.toList_inj] using hbytes

/-- Two numbers with the same bytes are the same. -/
theorem encode_two_injective (host : Endian) {left right : UInt16}
    (hencode : host.encode 2 left.toNat = host.encode 2 right.toNat) :
    left = right := by
  have hvalue := congrArg host.value hencode
  rw [Endian.value_encode, Endian.value_encode] at hvalue
  have hleft := left.toNat_lt
  have hright := right.toNat_lt
  exact UInt16.toNat_inj.mp (by omega)

theorem portBytes_injective (host : Endian) :
    Function.Injective (PortIdentity.bytes host) := by
  rintro ⟨leftClock, leftPort⟩ ⟨rightClock, rightPort⟩ hbytes
  obtain ⟨hclock, hport⟩ := List.append_inj hbytes (by simp)
  have hclock' : leftClock = rightClock := identityBytes_injective hclock
  have hport' : leftPort = rightPort := encode_two_injective host hport
  rw [hclock', hport']

/-- Equal runs of bytes, and no others, compare as equal. -/
theorem memcmp_eq_zero {left right : List UInt8}
    (hlength : left.length = right.length) :
    memcmp left right = 0 ↔ left = right := by
  constructor
  · intro hzero
    have hsame := firstDifference_eq_zero (by simpa using hlength) hzero
    exact List.map_injective_iff.mpr (fun _ _ => UInt8.toNat_inj.mp) hsame
  · rintro rfl
    exact firstDifference_self _

/-! ## The key decides -/

theorem sign_compareMember {a b : ℕ} {otherwise : ℤ} {lefts rights : List ℕ}
    (hotherwise : a = b → otherwise.sign = -firstDifference lefts rights) :
    (compareMember a b otherwise).sign =
      -firstDifference (a :: lefts) (b :: rights) := by
  rcases lt_trichotomy a b with hlt | rfl | hgt
  · simp [compareMember, firstDifference_cons, hlt, aBetter]
  · simpa [compareMember] using hotherwise rfl
  · simp [compareMember, firstDifference_cons, hgt, hgt.asymm, bBetter]

/-- With equal steps the topology is compared key by key. -/
theorem sign_dscmp2_equalSteps (host : Endian) {a b : Dataset}
    (hsteps : a.stepsRemoved = b.stepsRemoved) :
    (dscmp2 host a b).sign =
      -firstDifference (topologyKey host a) (topologyKey host b) := by
  have hkey : firstDifference (topologyKey host a) (topologyKey host b) =
      if memcmp (a.sender.bytes host) (b.sender.bytes host) = 0 then
        firstDifference [a.receiver.portNumber.toNat]
          [b.receiver.portNumber.toNat]
      else memcmp (a.sender.bytes host) (b.sender.bytes host) := by
    rw [topologyKey, topologyKey, hsteps, List.singleton_append,
      List.singleton_append, List.cons_append, List.cons_append,
      firstDifference_cons_self, firstDifference_append (by simp)]
    rfl
  rw [hkey]
  have hsign : (memcmp (a.sender.bytes host) (b.sender.bytes host)).sign =
      memcmp (a.sender.bytes host) (b.sender.bytes host) :=
    sign_firstDifference _ _
  rcases lt_trichotomy (memcmp (a.sender.bytes host) (b.sender.bytes host)) 0
    with hlt | heq | hgt
  · rw [Int.sign_eq_neg_one_of_neg hlt] at hsign
    simp [dscmp2, hsteps, ← hsign, aBetterTopo]
  · rcases lt_trichotomy a.receiver.portNumber.toNat
      b.receiver.portNumber.toNat with hlt | hsame | hgt
    · simp [dscmp2, hsteps, heq, hlt, firstDifference_cons, aBetterTopo]
    · simp [dscmp2, hsteps, heq, hsame]
    · simp [dscmp2, hsteps, heq, hgt, hgt.asymm, firstDifference_cons,
        bBetterTopo]
  · rw [Int.sign_eq_one_of_pos hgt] at hsign
    simp [dscmp2, hsteps, ← hsign, bBetterTopo]

/-- The port filter: no dataset comes from the port that receives it. -/
def Filtered (ds : Dataset) : Prop := ds.sender ≠ ds.receiver

/-- No port hears itself. -/
theorem memcmp_receiver_ne_zero (host : Endian) {ds : Dataset}
    (hfiltered : Filtered ds) :
    memcmp (ds.receiver.bytes host) (ds.sender.bytes host) ≠ 0 := by
  rw [Ne, memcmp_eq_zero (by simp)]
  exact fun hbytes => hfiltered (portBytes_injective host hbytes).symm

/-- Neighbouring step counts consult the receiver only to tell how the nearer
dataset is better. -/
theorem sign_dscmp2 (host : Endian) {a b : Dataset} (ha : Filtered a)
    (hb : Filtered b) :
    (dscmp2 host a b).sign =
      -firstDifference (topologyKey host a) (topologyKey host b) := by
  rcases lt_trichotomy a.stepsRemoved.toNat b.stepsRemoved.toNat with
    hlt | heq | hgt
  · have hne := memcmp_receiver_ne_zero host hb
    have hkey : firstDifference (topologyKey host a) (topologyKey host b) =
        -1 := by
      simp [topologyKey, firstDifference_cons, hlt]
    rw [hkey, Int.neg_neg, Int.sign_eq_one_iff_pos]
    simp only [dscmp2, aBetter, bBetter, aBetterTopo]
    split_ifs <;> omega
  · exact sign_dscmp2_equalSteps host (UInt16.toNat_inj.mp heq)
  · have hne := memcmp_receiver_ne_zero host ha
    have hkey : firstDifference (topologyKey host a) (topologyKey host b) =
        1 := by
      simp [topologyKey, firstDifference_cons, hgt, hgt.asymm]
    rw [hkey, Int.sign_eq_neg_one_iff_neg]
    simp only [dscmp2, aBetter, bBetter, bBetterTopo]
    split_ifs <;> omega

def SameAttributes (a b : Dataset) : Prop :=
  a.identity = b.identity →
    a.priority1 = b.priority1 ∧ a.quality = b.quality ∧
      a.priority2 = b.priority2

theorem sign_identity {left right : List UInt8} {lefts rights : List ℕ}
    (hlength : left.length = right.length) {otherwise : ℤ}
    (hotherwise : memcmp left right = 0 →
      otherwise.sign = -firstDifference lefts rights) :
    (if memcmp left right = 0 then otherwise
      else if memcmp left right < 0 then aBetter else bBetter).sign =
      -firstDifference (left.map UInt8.toNat ++ lefts)
        (right.map UInt8.toNat ++ rights) := by
  have hsign : (memcmp left right).sign = memcmp left right :=
    sign_firstDifference _ _
  rw [firstDifference_append (by simpa using hlength)]
  change _ = -(if memcmp left right = 0 then _ else memcmp left right)
  rcases lt_trichotomy (memcmp left right) 0 with hlt | heq | hgt
  · rw [Int.sign_eq_neg_one_of_neg hlt] at hsign
    simp [← hsign, aBetter]
  · simpa [heq] using hotherwise heq
  · rw [Int.sign_eq_one_of_pos hgt] at hsign
    simp [← hsign, bBetter]

/-- The comparison of one grandmaster ranks by the key. -/
theorem sign_dscmpOf (host : Endian) {a b : Dataset} (ha : Filtered a)
    (hb : Filtered b) (hsame : SameAttributes a b) :
    (dscmpOf host a b).sign =
      -firstDifference (rankKey host a) (rankKey host b) := by
  have htopology := sign_dscmp2 host ha hb
  by_cases hidentity : a.identity = b.identity
  · obtain ⟨hpriority1, hquality, hpriority2⟩ := hsame hidentity
    have hkey : firstDifference (rankKey host a) (rankKey host b) =
        firstDifference (topologyKey host a) (topologyKey host b) := by
      simp [rankKey, hidentity, hpriority1, hquality, hpriority2,
        firstDifference_append]
    rw [hkey, ← htopology, dscmpOf, if_pos]
    rw [hidentity]
    exact firstDifference_self _
  · have hne : memcmp a.identity.bytes b.identity.bytes ≠ 0 := by
      rw [Ne, memcmp_eq_zero (by simp)]
      exact fun hbytes => hidentity (identityBytes_injective hbytes)
    have hlast : (if memcmp a.identity.bytes b.identity.bytes < 0 then aBetter
        else bBetter).sign =
        -firstDifference
          (a.identity.bytes.map UInt8.toNat ++ topologyKey host a)
          (b.identity.bytes.map UInt8.toNat ++ topologyKey host b) := by
      have h := @sign_identity a.identity.bytes b.identity.bytes _ _
        (by simp) _ fun _ => htopology
      rwa [if_neg hne] at h
    rw [dscmpOf, if_neg hne]
    iterate 5 refine sign_compareMember fun _ => ?_
    exact hlast

/-- The telecom comparison ranks by its own key. -/
theorem sign_telecomDscmpOf (host : Endian) {a b : Dataset} (ha : Filtered a)
    (hb : Filtered b) :
    (telecomDscmpOf host a b).sign =
      -firstDifference (telecomKey host a) (telecomKey host b) := by
  have htopology := sign_dscmp2 host ha hb
  refine sign_compareMember fun hclass => ?_
  iterate 4 refine sign_compareMember fun _ => ?_
  change _ = -firstDifference (telecomIdentity a ++ topologyKey host a)
    (telecomIdentity b ++ topologyKey host b)
  by_cases hlow : a.quality.clockClass.toNat ≤ 127
  · have hlow' : b.quality.clockClass.toNat ≤ 127 := hclass ▸ hlow
    rw [if_pos hlow, telecomIdentity, telecomIdentity, if_pos hlow,
      if_pos hlow', firstDifference_append rfl, firstDifference_self,
      if_pos rfl]
    exact htopology
  · have hlow' : ¬b.quality.clockClass.toNat ≤ 127 := hclass ▸ hlow
    rw [if_neg hlow, telecomIdentity, telecomIdentity, if_neg hlow,
      if_neg hlow']
    exact @sign_identity a.identity.bytes b.identity.bytes _ _ (by simp) _
      fun _ => htopology

/-! ## The comparisons rank the datasets -/

/-- Datasets that an election may have to compare. -/
structure Comparable (datasets : Set Dataset) : Prop where
  filtered : ∀ ds ∈ datasets, Filtered ds
  attributes : ∀ a ∈ datasets, ∀ b ∈ datasets, SameAttributes a b

/-- Null pointers come last in any ranking. -/
theorem comparePointers_ranks {compare : Dataset → Dataset → ℤ}
    {datasets : Set Dataset} (hranks : Ranks compare datasets) :
    Ranks (comparePointers compare) {a | ∀ ds ∈ a, ds ∈ datasets} :=
  Ranks.option hranks (fun _ => by simp [comparePointers, aBetter])
    (fun _ => rfl) rfl

/-- A comparison whose sign is the first difference of a key of fixed length
ranks what the key covers. -/
theorem ranks_of_key {compare : Dataset → Dataset → ℤ} {datasets : Set Dataset}
    {key : Dataset → List ℕ} {length : ℕ}
    (hlength : ∀ ds, (key ds).length = length)
    (hswap : ∀ a b, compare b a = -compare a b)
    (hsign : ∀ a ∈ datasets, ∀ b ∈ datasets,
      (compare a b).sign = -firstDifference (key a) (key b)) :
    Ranks compare datasets where
  swap a _ b _ := hswap a b
  trans a ha b hb c hc hab hbc := by
    have hle : ∀ {x y : Dataset}, x ∈ datasets → y ∈ datasets →
        (0 ≤ compare x y ↔ firstDifference (key x) (key y) ≤ 0) := by
      intro x y hx hy
      rw [← Int.sign_nonneg_iff, hsign x hx y hy]
      exact Int.neg_nonneg
    rw [hle ha hc]
    exact firstDifference_trans (by rw [hlength, hlength])
      (by rw [hlength, hlength]) ((hle ha hb).mp hab) ((hle hb hc).mp hbc)

/-- The comparison ranks datasets that can be compared. -/
theorem dscmp_ranks (host : Endian) {datasets : Set Dataset}
    (hcomparable : Comparable datasets) :
    Ranks (dscmp host) {a | ∀ ds ∈ a, ds ∈ datasets} :=
  comparePointers_ranks <| ranks_of_key (length_rankKey host)
    (dscmpOf_swap host) fun a ha b hb =>
      sign_dscmpOf host (hcomparable.filtered a ha) (hcomparable.filtered b hb)
        (hcomparable.attributes a ha b hb)

/-- The key tells the path that an Announce has taken. -/
theorem topologyKey_eq (host : Endian) {a b : Dataset}
    (hkey : topologyKey host a = topologyKey host b) :
    a.stepsRemoved = b.stepsRemoved ∧ a.sender = b.sender ∧
      a.receiver.portNumber = b.receiver.portNumber := by
  obtain ⟨hfront, hreceiver⟩ := List.append_inj hkey (by simp)
  obtain ⟨hsteps, hsender⟩ := List.append_inj hfront rfl
  have hbytes : a.sender.bytes host = b.sender.bytes host :=
    List.map_injective_iff.mpr (fun _ _ => UInt8.toNat_inj.mp) hsender
  exact ⟨UInt16.toNat_inj.mp (List.singleton_inj.mp hsteps),
    portBytes_injective host hbytes,
    UInt16.toNat_inj.mp (List.singleton_inj.mp hreceiver)⟩

/-- Only datasets of one grandmaster over one path compare equal. -/
theorem dscmpOf_eq_zero (host : Endian) {a b : Dataset} (ha : Filtered a)
    (hb : Filtered b) (hsame : SameAttributes a b)
    (hzero : dscmpOf host a b = 0) :
    a.identity = b.identity ∧ a.stepsRemoved = b.stepsRemoved ∧
      a.sender = b.sender ∧
      a.receiver.portNumber = b.receiver.portNumber := by
  have hsign := sign_dscmpOf host ha hb hsame
  rw [hzero, Int.sign_zero, zero_eq_neg] at hsign
  have hkey := firstDifference_eq_zero (by simp) hsign
  obtain ⟨-, hrest⟩ := List.append_inj hkey rfl
  obtain ⟨hidentity, htopology⟩ := List.append_inj hrest (by simp)
  have hbytes : a.identity.bytes = b.identity.bytes :=
    List.map_injective_iff.mpr (fun _ _ => UInt8.toNat_inj.mp) hidentity
  exact ⟨identityBytes_injective hbytes, topologyKey_eq host htopology⟩

/-- The telecom comparison ranks all that a port accepts. -/
theorem telecomDscmp_ranks (host : Endian) {datasets : Set Dataset}
    (hfiltered : ∀ ds ∈ datasets, Filtered ds) :
    Ranks (telecomDscmp host) {a | ∀ ds ∈ a, ds ∈ datasets} :=
  comparePointers_ranks <| ranks_of_key (length_telecomKey host)
    (telecomDscmpOf_swap host) fun a ha b hb =>
      sign_telecomDscmpOf host (hfiltered a ha) (hfiltered b hb)

end LinuxPtp.Bmc
