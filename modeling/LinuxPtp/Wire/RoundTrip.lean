import LinuxPtp.Lib.Conversion
import LinuxPtp.Wire.TlvList

/-!
# Encoding undoes decoding

`msg_pre_send` is run on messages that `ptpMsgReceive` has converted.  TLV by
TLV the encoding restores the bytes of the wire, with two exceptions: the low
word of a scaled-nanoseconds member is recomputed from its high word, and the
length of an oversized path trace is cut.
-/

namespace LinuxPtp.Wire

open ByteOrder Access

variable (host : Host)

/-! ## Conversions of members -/

/-- Fields are converted one after the other. -/
theorem swapFields_runs (base : ℕ) (fields : List Field) (mem : Memory) :
    Runs (swapFields host base fields) mem ()
      (swapAll host.endian base fields mem) :=
  fun _ _ => ⟨_, swapFields_run host base fields _⟩

/-- Members between two offsets of the structure at `base`. -/
def fieldsConversion (endian : Endian) (base start stop : ℕ)
    (fields : List Field) (hfields : FieldsWithin start stop fields) :
    Conversion where
  lo := base + start
  hi := base + stop
  apply := swapAll endian base fields
  frame mem _ houtside := swapAll_outside _ _ hfields houtside mem
  congr _ _ hagree := by
    refine swapAll_agreeOn (fun field hfield => ?_) hagree
    have := hfields field hfield
    omega

/-- Converting members of a structure undoes itself. -/
theorem swapFields_restores {lo hi base : ℕ} (start stop : ℕ)
    {fields : List Field}
    (hfields : FieldsWithin start stop fields)
    (hdisjoint : fields.Pairwise Field.Disjoint) (hlo : lo ≤ base + start)
    (hhi : base + stop ≤ hi) (original : Memory) :
    Restores (swapFields host base fields) lo hi
      (swapAll host.endian base fields original) original := by
  refine .conversion
    (fieldsConversion host.endian base start stop fields hfields)
    (swapFields_runs host base fields) hlo hhi fun i _ _ => ?_
  exact congrFun (swapAll_swapAll hdisjoint original) i

/-! ## Scaled nanoseconds -/

/-- The low word of a scaled-nanoseconds member as the code computes it from
the high word. -/
def scaledNsEcho (endian : Endian) (sns : ℕ) (mem : Memory) : Memory :=
  storeBytes mem (sns + 2) (bigEncode 8 (hostWord endian mem sns 2))

/-- Only the eight bytes of the low word can come out other than they were. -/
theorem scaledNsEcho_outside (endian : Endian) {sns i : ℕ} (mem : Memory)
    (houtside : i < sns + 2 ∨ sns + 10 ≤ i) :
    scaledNsEcho endian sns mem i = mem i :=
  storeBytes_outside mem _ (by simp only [length_bigEncode]; omega)

theorem scaledNsEcho_agreeOn (endian : Endian) {lo hi sns : ℕ}
    {left right : Memory} (hagree : AgreeOn lo hi left right) (hlo : lo ≤ sns)
    (hhi : sns + 10 ≤ hi) :
    AgreeOn lo hi (scaledNsEcho endian sns left)
      (scaledNsEcho endian sns right) := by
  intro i hge hlt
  rw [scaledNsEcho, scaledNsEcho, hagree.hostWord endian hlo (by omega)]
  exact storeBytes_congr _ (hagree i hge hlt)

private def msbConversion (endian : Endian) (sns : ℕ) : Conversion :=
  fieldsConversion endian sns 0 2 [ScaledNs.nanosecondsMsb] (by decide)

private def fractionConversion (endian : Endian) (sns : ℕ) : Conversion :=
  fieldsConversion endian sns 10 12 [ScaledNs.fractionalNanoseconds]
    (by decide)

/-- `scaled_ns_n2h` and `scaled_ns_h2n`. -/
def scaledNsConversion (endian : Endian) (sns : ℕ) : Conversion where
  lo := sns
  hi := sns + 12
  apply mem := (fractionConversion endian sns).apply
    (scaledNsEcho endian sns ((msbConversion endian sns).apply mem))
  frame mem i houtside := by
    have hmsb : (msbConversion endian sns).lo = sns ∧
      (msbConversion endian sns).hi = sns + 2 := ⟨rfl, rfl⟩
    have hfraction : (fractionConversion endian sns).lo = sns + 10 ∧
      (fractionConversion endian sns).hi = sns + 12 := ⟨rfl, rfl⟩
    rw [(fractionConversion endian sns).frame _ i (by omega),
      scaledNsEcho_outside endian _ (by omega),
      (msbConversion endian sns).frame mem i (by omega)]
  congr left right hagree := by
    have hmsb : (msbConversion endian sns).lo = sns ∧
      (msbConversion endian sns).hi = sns + 2 := ⟨rfl, rfl⟩
    have hfraction : (fractionConversion endian sns).lo = sns + 10 ∧
      (fractionConversion endian sns).hi = sns + 12 := ⟨rfl, rfl⟩
    refine Conversion.agreeOn_apply _ ?_ (by omega) (by omega)
    refine scaledNsEcho_agreeOn endian ?_ le_rfl (by omega)
    exact Conversion.agreeOn_apply _ hagree (by omega) (by omega)

/-- To host order, -/
theorem scaledNsN2h_runs (sns : ℕ) (mem : Memory) :
    Runs (scaledNsN2h host sns) mem ()
      ((scaledNsConversion host.endian sns).apply mem) := by
  refine (swapFields_runs host sns _ mem).bind ?_
  refine (Runs.readWord host.endian sns 2 _).bind ?_
  have hwrite := Runs.writeBytes (σ := ParseState) (ε := Errno) (sns + 2)
    (host.endian.encode 8 (host.endian.ntoh 8 (hostWord host.endian
      (swapAll host.endian sns [ScaledNs.nanosecondsMsb] mem) sns 2)))
    (swapAll host.endian sns [ScaledNs.nanosecondsMsb] mem)
  refine hwrite.bind ?_
  rw [Endian.encode_ntoh]
  exact swapFields_runs host sns _ _

/-- and back, by the same conversion. -/
theorem scaledNsH2n_runs (sns : ℕ) (mem : Memory) :
    Runs (scaledNsH2n host sns) mem ()
      ((scaledNsConversion host.endian sns).apply mem) :=
  scaledNsN2h_runs host sns mem

private theorem scaledNsEcho_msb (endian : Endian) (sns : ℕ) (mem : Memory) :
    scaledNsEcho endian sns ((msbConversion endian sns).apply
        (scaledNsEcho endian sns ((msbConversion endian sns).apply mem))) =
      scaledNsEcho endian sns mem := by
  have hmsb : (msbConversion endian sns).hi = sns + 2 := rfl
  have hstore : ∀ bytes inner, (msbConversion endian sns).apply
      (storeBytes inner (sns + 2) bytes) =
        storeBytes ((msbConversion endian sns).apply inner) (sns + 2) bytes :=
    fun bytes inner => Conversion.apply_comm
      _ (Conversion.store (sns + 2) bytes) (Or.inl hmsb.le) inner
  have htwice : (msbConversion endian sns).apply
      ((msbConversion endian sns).apply mem) = mem :=
    swapAll_swapAll (by decide) mem
  rw [scaledNsEcho, scaledNsEcho, hstore, htwice, storeBytes_storeBytes]
  · exact congrArg (fun word => storeBytes mem (sns + 2) (bigEncode 8 word))
      (hostWord_congr endian fun i hge hlt =>
        storeBytes_outside mem _ (Or.inl hlt))
  · simp only [length_bigEncode]

/-- Back and forth, the outer members are restored and the low word is the one
computed from the high word. -/
theorem scaledNsConversion_twice (endian : Endian) (sns : ℕ) (mem : Memory) :
    (scaledNsConversion endian sns).apply
        ((scaledNsConversion endian sns).apply mem) =
      scaledNsEcho endian sns mem := by
  have hecho : ∀ inner, scaledNsEcho endian sns
      ((fractionConversion endian sns).apply inner) =
        (fractionConversion endian sns).apply (scaledNsEcho endian sns inner) := by
    intro inner
    rw [scaledNsEcho, hostWord_congr endian fun i hge hlt =>
      (fractionConversion endian sns).frame inner i (Or.inl (by
        show i < sns + 10
        omega))]
    refine Conversion.apply_comm (Conversion.store (sns + 2)
      (bigEncode 8 (hostWord endian inner sns 2))) _ (Or.inl ?_) inner
    show sns + 2 + (bigEncode 8 _).length ≤ sns + 10
    rw [length_bigEncode]
  have hcomm : ∀ inner, (msbConversion endian sns).apply
      ((fractionConversion endian sns).apply inner) =
        (fractionConversion endian sns).apply
          ((msbConversion endian sns).apply inner) :=
    Conversion.apply_comm _ _ (Or.inl (Nat.add_le_add_left (by decide) sns))
  have hfraction : ∀ inner, (fractionConversion endian sns).apply
      ((fractionConversion endian sns).apply inner) = inner :=
    swapAll_swapAll (by decide)
  simp only [scaledNsConversion]
  rw [hcomm, hecho, hfraction, scaledNsEcho_msb]

/-- A structure that holds scaled nanoseconds between two groups of members,
converted back and forth. -/
theorem phaseChange_twice (endian : Endian) {base start stop sns : ℕ}
    {before after : List Field} (hbefore : FieldsWithin start sns before)
    (hafter : FieldsWithin (sns + 12) stop after)
    (hdisjoint : before.Pairwise Field.Disjoint)
    (hdisjoint' : after.Pairwise Field.Disjoint) (mem : Memory) :
    swapAll endian base after ((scaledNsConversion endian (base + sns)).apply
        (swapAll endian base before (swapAll endian base after
          ((scaledNsConversion endian (base + sns)).apply
            (swapAll endian base before mem))))) =
      scaledNsEcho endian (base + sns) mem := by
  have htwice := Conversion.twice_of_involutions
    (fieldsConversion endian base start sns before hbefore)
    (scaledNsConversion endian (base + sns))
    (fieldsConversion endian base (sns + 12) stop after hafter)
    (swapAll_swapAll hdisjoint) (swapAll_swapAll hdisjoint')
    (Or.inl le_rfl)
    (Or.inl (Nat.add_le_add_left (Nat.le_add_right sns 12) base))
    (Or.inl (Nat.add_assoc base sns 12).le) mem
  exact htwice.trans (scaledNsConversion_twice endian (base + sns) mem)

/-! ## Clock descriptions -/

/-- A length is converted in place and returned. -/
theorem flip16_runs (ptr : ℕ) (mem : Memory) :
    Runs (flip16 host ptr) mem
      (hostWord host.endian (netSwap host.endian ptr 2 mem) ptr 2)
      (netSwap host.endian ptr 2 mem) :=
  (Runs.swapWord host.endian ptr 2 mem).bind (Runs.readWord host.endian ptr 2 _)

theorem flip16_eq_ok {ptr value : ℕ} {store final : Store ParseState}
    (hrun : flip16 host ptr store = (.ok value, final)) :
    final.mem = netSwap host.endian ptr 2 store.mem :=
  ((flip16_runs host ptr store.mem).eq_of_run hrun).2.1

/-- The cursor moves on and nothing else happens. -/
theorem skip_eq_ok {cursor later : Cursor} {count : ℕ}
    {store final : Store ParseState}
    (hrun : cursor.skip count store = (.ok later, final)) :
    store = final ∧ cursor.Advances later count := by
  refine ⟨?_, skip_returns cursor count hrun⟩
  obtain ⟨-, hrun⟩ := ite_fail_eq_ok.mp hrun
  exact (Prod.mk.inj hrun).2

theorem skipAddress_eq_ok {cursor later : Cursor} {length : ℕ}
    {store final : Store ParseState}
    (hrun : cursor.skipAddress length store = (.ok later, final)) :
    store = final ∧ cursor.Advances later 0 := by
  refine ⟨?_, skipAddress_returns cursor length hrun⟩
  exact (skip_eq_ok (ite_fail_eq_ok.mp hrun).2).1

/-- Nor does it at a text. -/
theorem skipText_eq_ok {cursor later : Cursor}
    {store final : Store ParseState}
    (hrun : cursor.skipText store = (.ok later, final)) :
    final.mem = store.mem ∧ cursor.Advances later sizeofPtpText := by
  refine ⟨?_, skipText_returns cursor hrun⟩
  obtain ⟨middle, store₁, h₁, hrun⟩ := bind_eq_ok.mp hrun
  obtain ⟨rfl, -⟩ := skip_eq_ok h₁
  obtain ⟨length, store₂, h₂, hrun⟩ := bind_eq_ok.mp hrun
  obtain ⟨-, rfl⟩ := Prod.mk.inj h₂
  obtain ⟨rfl, -⟩ := skip_eq_ok hrun
  rfl

/-- The four converted words of a clock description. -/
def clockDescriptionFields (clockType physicalAddress protocolAddress : ℕ) :
    List Field :=
  [⟨clockType, 2⟩, ⟨physicalAddress, 2⟩, ⟨protocolAddress, 2⟩,
    ⟨protocolAddress + 2, 2⟩]

theorem clockDescriptionPostRecv_eq_ok {data dataLen : ℕ}
    {result : MgmtClockDescription × ℕ} {store final : Store ParseState}
    (hrun : clockDescriptionPostRecv host data dataLen store =
      (.ok result, final)) :
    ∃ physicalAddress protocolAddress,
      result.1.clockType = some data ∧
      result.1.physicalAddress = some physicalAddress ∧
      result.1.protocolAddress = some protocolAddress ∧
      data + 2 ≤ physicalAddress ∧ physicalAddress + 2 ≤ protocolAddress ∧
      protocolAddress + 4 ≤ data + dataLen ∧
      final.mem = swapAll host.endian 0
        (clockDescriptionFields data physicalAddress protocolAddress)
        store.mem := by
  obtain ⟨c₁, s₁, h₁, hrun⟩ := bind_eq_ok.mp hrun
  obtain ⟨rfl, b₁, e₁⟩ := skip_eq_ok h₁
  obtain ⟨_, s₂, h₂, hrun⟩ := bind_eq_ok.mp hrun
  have m₂ := flip16_eq_ok host h₂
  obtain ⟨c₃, s₃, h₃, hrun⟩ := bind_eq_ok.mp hrun
  obtain ⟨m₃, b₃, e₃⟩ := skipText_eq_ok h₃
  obtain ⟨c₄, s₄, h₄, hrun⟩ := bind_eq_ok.mp hrun
  obtain ⟨rfl, b₄, e₄⟩ := skip_eq_ok h₄
  obtain ⟨_, s₅, h₅, hrun⟩ := bind_eq_ok.mp hrun
  have m₅ := flip16_eq_ok host h₅
  obtain ⟨c₆, s₆, h₆, hrun⟩ := bind_eq_ok.mp hrun
  obtain ⟨rfl, b₆, e₆⟩ := skipAddress_eq_ok h₆
  obtain ⟨c₇, s₇, h₇, hrun⟩ := bind_eq_ok.mp hrun
  obtain ⟨rfl, b₇, e₇⟩ := skip_eq_ok h₇
  obtain ⟨_, s₈, h₈, hrun⟩ := bind_eq_ok.mp hrun
  have m₈ := flip16_eq_ok host h₈
  obtain ⟨_, s₉, h₉, hrun⟩ := bind_eq_ok.mp hrun
  have m₉ := flip16_eq_ok host h₉
  obtain ⟨c₁₀, s₁₀, h₁₀, hrun⟩ := bind_eq_ok.mp hrun
  obtain ⟨rfl, b₁₀, e₁₀⟩ := skipAddress_eq_ok h₁₀
  obtain ⟨c₁₁, s₁₁, h₁₁, hrun⟩ := bind_eq_ok.mp hrun
  obtain ⟨rfl, -⟩ := skip_eq_ok h₁₁
  obtain ⟨c₁₂, s₁₂, h₁₂, hrun⟩ := bind_eq_ok.mp hrun
  obtain ⟨m₁₂, -⟩ := skipText_eq_ok h₁₂
  obtain ⟨c₁₃, s₁₃, h₁₃, hrun⟩ := bind_eq_ok.mp hrun
  obtain ⟨m₁₃, -⟩ := skipText_eq_ok h₁₃
  obtain ⟨c₁₄, s₁₄, h₁₄, hrun⟩ := bind_eq_ok.mp hrun
  obtain ⟨m₁₄, -⟩ := skipText_eq_ok h₁₄
  obtain ⟨c₁₅, s₁₅, h₁₅, hrun⟩ := bind_eq_ok.mp hrun
  obtain ⟨rfl, -⟩ := skip_eq_ok h₁₅
  obtain ⟨hresult, rfl⟩ := Prod.mk.inj hrun
  obtain rfl := Except.ok.inj hresult
  simp only [sizeofPtpText, sizeofPhysicalAddress, sizeofPortAddress]
    at b₁ b₃ b₄ b₆ b₇ b₁₀ e₁ e₃ e₄ e₆ e₇ e₁₀
  refine ⟨c₃.buf, c₆.buf, rfl, rfl, rfl, by omega, by omega, by omega, ?_⟩
  rw [m₁₄, m₁₃, m₁₂, m₉, m₈, m₅, m₃, m₂]
  simp only [clockDescriptionFields, swapAll_cons, swapAll_nil,
    PhysicalAddress.length, PortAddress.networkProtocol,
    PortAddress.addressLength, Nat.zero_add, Nat.add_zero]

theorem flip16At_runs (ptr offset : ℕ) (mem : Memory) :
    Runs (flip16At host (some ptr) offset) mem ()
      (netSwap host.endian (ptr + offset) 2 mem) :=
  (flip16_runs host (ptr + offset) mem).bind (.pure () _)

/-- A clock description is sent as it came. -/
theorem clockDescription_restores {data dataLen lo : ℕ}
    {result : MgmtClockDescription × ℕ} {store final : Store ParseState}
    (hrun : clockDescriptionPostRecv host data dataLen store =
      (.ok result, final)) (hlo : lo ≤ data) :
    Restores (do
        flip16At host result.1.clockType 0
        flip16At host result.1.physicalAddress PhysicalAddress.length.offset
        flip16At host result.1.protocolAddress
          PortAddress.networkProtocol.offset
        flip16At host result.1.protocolAddress
          PortAddress.addressLength.offset)
      lo (data + dataLen) final.mem store.mem := by
  obtain ⟨physicalAddress, protocolAddress, hclock, hphysical, hprotocol,
    hfirst, hsecond, hthird, hmem⟩ := clockDescriptionPostRecv_eq_ok host hrun
  have hfields : FieldsWithin data (data + dataLen)
      (clockDescriptionFields data physicalAddress protocolAddress) := by
    simp only [FieldsWithin, clockDescriptionFields, List.forall_mem_cons,
      List.not_mem_nil, false_implies, implies_true, and_true]
    omega
  have hdisjoint : (clockDescriptionFields data physicalAddress
      protocolAddress).Pairwise Field.Disjoint := by
    simp only [clockDescriptionFields, List.pairwise_cons, Field.Disjoint,
      List.forall_mem_cons, List.not_mem_nil, false_implies, implies_true,
      and_true, List.Pairwise.nil]
    omega
  rw [hclock, hphysical, hprotocol, hmem]
  refine .conversion
    (fieldsConversion host.endian 0 data (data + dataLen) _ hfields)
    (fun mem => ?_) (by simpa [fieldsConversion] using hlo)
    (by simp [fieldsConversion]) fun i _ _ => ?_
  · refine (flip16At_runs host data 0 mem).bind ?_
    refine (flip16At_runs host physicalAddress _ _).bind ?_
    refine (flip16At_runs host protocolAddress _ _).bind ?_
    simpa [fieldsConversion, clockDescriptionFields, PhysicalAddress.length,
      PortAddress.networkProtocol, PortAddress.addressLength]
      using flip16At_runs host protocolAddress _ _
  · exact congrFun (swapAll_swapAll hdisjoint store.mem) i

/-! ## Management data -/

theorem dataSetPostRecv_eq_ok {dataLen size : ℕ} {convert : WireM Unit}
    {extra : TlvExtra} {result : TlvExtra × ℕ} {store final : Store ParseState}
    (hrun : dataSetPostRecv dataLen size convert extra store =
      (.ok result, final)) :
    dataLen = size ∧ result = (extra, 0) ∧ convert store = (.ok (), final) := by
  obtain ⟨hlen, hrun⟩ := ite_fail_eq_ok.mp hrun
  obtain ⟨_, store₁, h₁, hrun⟩ := bind_eq_ok.mp hrun
  obtain ⟨hresult, rfl⟩ := Prod.mk.inj hrun
  exact ⟨not_not.mp hlen, (Except.ok.inj hresult).symm, h₁⟩

/-- A data set converted in one go. -/
theorem dataSetFields_restores {data dataLen size lo : ℕ} {fields : List Field}
    {extra : TlvExtra} {result : TlvExtra × ℕ} {store final : Store ParseState}
    (hrun : dataSetPostRecv dataLen size (swapFields host data fields) extra
      store = (.ok result, final))
    (hfields : FieldsWithin 0 size fields)
    (hdisjoint : fields.Pairwise Field.Disjoint) (hlo : lo ≤ data) :
    Restores (swapFields host data fields) lo (data + dataLen) final.mem
      store.mem := by
  obtain ⟨rfl, -, hconvert⟩ := dataSetPostRecv_eq_ok hrun
  obtain rfl := swapFields_eq_ok hconvert
  exact swapFields_restores host _ _ hfields hdisjoint hlo le_rfl store.mem

/-- Scaled nanoseconds between two groups of members, sent again as they were
received. -/
theorem phaseChange_restores {base sns lo hi : ℕ} (start stop : ℕ)
    {before after : List Field} {store final : Store ParseState}
    (hrun : (do
        swapFields host base before
        scaledNsN2h host (base + sns)
        swapFields host base after : WireM Unit) store = (.ok (), final))
    (hbefore : FieldsWithin start sns before)
    (hafter : FieldsWithin (sns + 12) stop after)
    (hdisjoint : before.Pairwise Field.Disjoint)
    (hdisjoint' : after.Pairwise Field.Disjoint)
    (hlo : lo ≤ base + start) (hstart : start ≤ sns) (hstop : sns + 12 ≤ stop)
    (hhi : base + stop ≤ hi) :
    Restores (do
        swapFields host base before
        scaledNsH2n host (base + sns)
        swapFields host base after)
      lo hi final.mem (scaledNsEcho host.endian (base + sns) store.mem) := by
  have hmem := (((swapFields_runs host base before store.mem).bind
    ((scaledNsN2h_runs host (base + sns) _).bind
      (swapFields_runs host base after _))).eq_of_run hrun).2.1
  rw [hmem]
  refine .bind (.conversion (fieldsConversion host.endian base
    start sns before hbefore) (swapFields_runs host base before) hlo ?_
    fun _ _ _ => rfl) (.bind (.conversion _
    (scaledNsH2n_runs host (base + sns)) ?_ ?_ fun _ _ _ => rfl)
    (.conversion (fieldsConversion host.endian base (sns + 12)
      stop after hafter) (swapFields_runs host base after) ?_ ?_
      fun i _ _ => ?_))
  · show base + sns ≤ hi
    omega
  · show lo ≤ base + sns
    omega
  · show base + sns + 12 ≤ hi
    omega
  · show lo ≤ base + (sns + 12)
    omega
  · exact hhi
  · exact congrFun (phaseChange_twice host.endian hbefore hafter hdisjoint
      hdisjoint' store.mem) i

def mgtEcho (endian : Endian) (id data : ℕ) (mem : Memory) : Memory :=
  if ManagementId.ofCode id = some .timeStatusNp then
    scaledNsEcho endian (data + TimeStatusNp.lastGmPhaseChange) mem
  else mem

/-- All management data is restored, the phase change apart. -/
theorem mgtPreSend_restores {m id dataLen : ℕ} {extra : TlvExtra}
    {result : TlvExtra × ℕ} {store final : Store ParseState}
    (hrun : mgtDataPostRecv host id (m + ManagementTlv.data) dataLen extra
      store = (.ok result, final))
    (hid : hostWord host.endian store.mem (m + 4) 2 = id) :
    Restores (mgtPreSend host m result.1) (m + 4)
      (m + ManagementTlv.data + dataLen) final.mem
      (mgtEcho host.endian id (m + ManagementTlv.data) store.mem) := by
  have hdata : ManagementTlv.data = 6 := rfl
  have hframe : ∀ i, i < m + ManagementTlv.data → final.mem i = store.mem i :=
    fun i hi => (confined_mgtDataPostRecv host id extra le_rfl le_rfl).mem_eq
      hrun (Or.inl hi)
  have hword : hostWord host.endian final.mem (m + 4) 2 = id := by
    rw [← hid]
    exact hostWord_congr _ fun i hge hlt => hframe i (by omega)
  refine .readWord (by simp only [ManagementTlv.id]; omega)
    (by simp only [ManagementTlv.id]; omega) ?_
  simp only [ManagementTlv.id, hword]
  have hlo : m + 4 ≤ m + ManagementTlv.data := by omega
  unfold mgtDataPostRecv at hrun
  unfold mgtEcho
  cases hcode : ManagementId.ofCode id with
  | none =>
    rw [hcode] at hrun
    obtain ⟨-, rfl⟩ := Prod.mk.inj hrun
    exact .pure fun _ _ _ => rfl
  | some name =>
    rw [hcode] at hrun
    cases name with
    | clockDescription =>
      obtain ⟨cd, store₁, h₁, hrun⟩ := bind_eq_ok.mp hrun
      obtain ⟨hresult, rfl⟩ := Prod.mk.inj hrun
      obtain rfl := Except.ok.inj hresult
      exact clockDescription_restores host h₁ hlo
    | userDescription =>
      obtain ⟨-, hrun⟩ := ite_fail_eq_ok.mp hrun
      obtain ⟨length, store₁, h₁, hrun⟩ := bind_eq_ok.mp hrun
      obtain ⟨-, rfl⟩ := Prod.mk.inj h₁
      obtain ⟨-, rfl⟩ := Prod.mk.inj hrun
      exact .pure fun _ _ _ => rfl
    | portPropertiesNp =>
      obtain ⟨hlen, hrun⟩ := ite_fail_eq_ok.mp hrun
      obtain ⟨_, store₁, h₁, hrun⟩ := bind_eq_ok.mp hrun
      obtain rfl := swapFields_eq_ok h₁
      obtain ⟨length, store₂, h₂, hrun⟩ := bind_eq_ok.mp hrun
      obtain ⟨-, rfl⟩ := Prod.mk.inj h₂
      obtain ⟨-, rfl⟩ := Prod.mk.inj hrun
      exact swapFields_restores host 0 PortPropertiesNp.size (by decide) (by decide) hlo
        (Nat.add_le_add_left (by omega) _) store.mem
    | timeStatusNp =>
      obtain ⟨hlen, -, hconvert⟩ := dataSetPostRecv_eq_ok hrun
      have hsize : TimeStatusNp.size = 50 := rfl
      exact phaseChange_restores host 0 50 hconvert
        (by decide) (by decide) (by decide) (by decide) hlo (by decide)
        (by decide) (by omega)
    | saveInNonVolatileStorage | resetNonVolatileStorage | initializeTlv
    | faultLogReset | enablePort | disablePort =>
      obtain ⟨-, -, hconvert⟩ := dataSetPostRecv_eq_ok hrun
      obtain ⟨-, rfl⟩ := Prod.mk.inj hconvert
      exact .pure fun _ _ _ => rfl
    | _ =>
      exact dataSetFields_restores host hrun (by decide) (by decide) hlo

/-! ## The other TLVs -/

theorem swapNsmRespFoot_runs (foot : ℕ) (members : List (ℕ × List Field))
    (mem : Memory) :
    Runs (swapNsmRespFoot host foot members) mem ()
      (swapAll host.endian foot
        (members.flatMap fun member => member.2.map fun field =>
          ⟨member.1 + field.offset, field.width⟩) mem) := by
  induction members generalizing mem with
  | nil => exact .pure () mem
  | cons member members ih =>
    have hshift : ∀ fields mem, swapAll host.endian (foot + member.1) fields mem =
        swapAll host.endian foot (fields.map fun field =>
          ⟨member.1 + field.offset, field.width⟩) mem := by
      intro fields
      induction fields with
      | nil => exact fun _ => rfl
      | cons field fields ih' =>
        intro mem
        simp only [List.map_cons, swapAll_cons, ih', Nat.add_assoc]
    have happend : ∀ left right mem,
        swapAll host.endian foot (left ++ right) mem =
          swapAll host.endian foot right (swapAll host.endian foot left mem) :=
      fun left right mem => List.foldl_append ..
    rw [List.flatMap_cons, happend, ← hshift]
    exact (swapFields_runs host (foot + member.1) member.2 mem).bind (ih _)

/-- The converted members of the foot, from its start. -/
def nsmRespFields : List Field :=
  nsmRespFootFields.flatMap fun member => member.2.map fun field =>
    ⟨member.1 + field.offset, field.width⟩

/-- A monitoring response is sent as it came. -/
theorem nsmRespPreSend_restores {tlv length : ℕ} {extra result : TlvExtra}
    {store final : Store ParseState}
    (hrun : nsmRespPostRecv host tlv length extra store = (.ok result, final))
    (hextra : extra.tlv = tlv) :
    Restores (nsmRespPreSend host result) (tlv + 4)
      (tlv + sizeofTlv + length) final.mem store.mem := by
  obtain ⟨-, hrun⟩ := ite_fail_eq_ok.mp hrun
  obtain ⟨_, store₁, h₁, hrun⟩ := bind_eq_ok.mp hrun
  obtain rfl := swapFields_eq_ok h₁
  obtain ⟨protocol, store₂, h₂, hrun⟩ := bind_eq_ok.mp hrun
  obtain ⟨-, rfl⟩ := readField_eq_ok h₂
  cases hexpected : expectedAddressLength protocol with
  | none => simp [hexpected] at hrun
  | some expected =>
    rw [hexpected] at hrun
    obtain ⟨addressLength, store₃, h₃, hrun⟩ := bind_eq_ok.mp hrun
    obtain ⟨-, rfl⟩ := readField_eq_ok h₃
    obtain ⟨-, hrun⟩ := ite_fail_eq_ok.mp hrun
    obtain ⟨hexact, hrun⟩ := ite_fail_eq_ok.mp hrun
    obtain ⟨_, store₄, h₄, hrun⟩ := bind_eq_ok.mp hrun
    obtain ⟨hresult, rfl⟩ := Prod.mk.inj hrun
    obtain rfl := Except.ok.inj hresult
    have hmem := ((swapNsmRespFoot_runs host _ _ _).eq_of_run h₄).2.1
    simp only [NsmResp.headSize, NsmResp.footSize, sizeofTlv] at hexact
    let address := fieldsConversion host.endian (tlv + NsmResp.parentAddr) 0 4
      [PortAddress.networkProtocol, PortAddress.addressLength] (by decide)
    let foot := fieldsConversion host.endian
      (tlv + NsmResp.headSize + addressLength) 0 64 nsmRespFields (by decide)
    have hcomm : ∀ mem, address.apply (foot.apply mem) =
        foot.apply (address.apply mem) :=
      Conversion.apply_comm _ _ (Or.inl (by
        show tlv + 6 + 4 ≤ tlv + 10 + addressLength + 0
        omega))
    rw [hmem]
    refine .bind (show Restores _ _ _ _ (foot.apply store.mem) from
      .conversion address (fun mem => ?_) ?_ ?_ fun i _ _ => ?_)
      (.conversion foot
        (swapNsmRespFoot_runs host _ nsmRespFootFields) ?_ ?_ fun i _ _ => ?_)
    · rw [hextra]
      exact swapFields_runs host _ _ mem
    · show tlv + 4 ≤ tlv + 6
      omega
    · show tlv + 6 + 4 ≤ tlv + 4 + length
      omega
    · have htwice : address.apply (address.apply store.mem) = store.mem :=
        swapAll_swapAll (by decide) store.mem
      exact congrFun ((hcomm _).trans (congrArg foot.apply htwice)) i
    · show tlv + 4 ≤ tlv + 10 + addressLength
      omega
    · show tlv + 10 + addressLength + 64 ≤ tlv + 4 + length
      omega
    · exact congrFun (swapAll_swapAll (by decide) store.mem) i

/-- What `orgSubtype` finds. -/
def orgSubtypeOf (mem : Memory) (org : ℕ) : Option ℕ :=
  if [(mem (org + 4)).toNat, (mem (org + 5)).toNat, (mem (org + 6)).toNat] =
      ieee8021Id then
    if (mem (org + 7)).toNat ≠ 0 ∨ (mem (org + 8)).toNat ≠ 0 then none
    else some (mem (org + 9)).toNat
  else none

theorem readByte_runs (offset : ℕ) (mem : Memory) :
    Runs (readByte offset : WireM ℕ) mem (mem offset).toNat mem := by
  have hvalue : hostWord .big mem offset 1 = (mem offset).toNat := by
    simp [hostWord, bytesAt, Endian.value, bigValue]
  exact hvalue ▸ Runs.readWord .big offset 1 mem

theorem orgSubtype_runs (org : ℕ) (mem : Memory) :
    Runs (orgSubtype org) mem (orgSubtypeOf mem org) mem := by
  unfold orgSubtype orgSubtypeOf
  refine (readByte_runs _ mem).bind ?_
  refine (readByte_runs _ mem).bind ?_
  refine (readByte_runs _ mem).bind ?_
  simp only [OrganizationTlv.id, OrganizationTlv.subtype, Nat.add_assoc]
  split
  · refine (readByte_runs _ mem).bind ?_
    refine (readByte_runs _ mem).bind ?_
    split
    · exact .pure _ mem
    · refine (readByte_runs _ mem).bind ?_
      exact .pure _ mem
  · exact .pure _ mem

theorem orgSubtypeOf_congr {left right : Memory} {org lo hi : ℕ}
    (hagree : AgreeOn lo hi left right) (hlo : lo ≤ org + 4)
    (hhi : org + 10 ≤ hi) : orgSubtypeOf left org = orgSubtypeOf right org := by
  simp only [orgSubtypeOf, hagree (org + 4) (by omega) (by omega),
    hagree (org + 5) (by omega) (by omega), hagree (org + 6) (by omega) (by omega),
    hagree (org + 7) (by omega) (by omega), hagree (org + 8) (by omega) (by omega),
    hagree (org + 9) (by omega) (by omega)]

def orgEcho (endian : Endian) (org : ℕ) (mem : Memory) : Memory :=
  if orgSubtypeOf mem org = some 1 then
    scaledNsEcho endian (org + FollowUpInfoTlv.lastGmPhaseChange) mem
  else mem

/-- An extension is restored, its phase change apart, -/
theorem orgPreSend_restores {org length : ℕ} {store final : Store ParseState}
    (hrun : orgPostRecv host org length store = (.ok (), final))
    (hlen : 6 ≤ length) :
    Restores (orgPreSend host org) (org + 4) (org + sizeofTlv + length)
      final.mem (orgEcho host.endian org store.mem) := by
  have hsize : sizeofTlv = 4 := rfl
  obtain ⟨subtype, store₁, h₁, hrun⟩ := bind_eq_ok.mp hrun
  obtain ⟨rfl, hmem₁, -⟩ := (orgSubtype_runs org store.mem).eq_of_run h₁
  unfold orgEcho
  by_cases hsubtype : orgSubtypeOf store.mem org = some 1
  · rw [if_pos hsubtype] at hrun ⊢
    obtain ⟨hexact, hrun⟩ := ite_fail_eq_ok.mp hrun
    have hroom : org + FollowUpInfoTlv.size ≤ org + sizeofTlv + length := by
      omega
    have hsame : orgSubtypeOf final.mem org = some 1 := by
      rw [← hsubtype, ← hmem₁]
      have hkept : AgreeOn (org + 4) (org + 10) final.mem store₁.mem :=
        fun i _ hlt => (confined_followUpInfo host le_rfl le_rfl).mem_eq
          hrun (Or.inl hlt)
      exact orgSubtypeOf_congr hkept le_rfl le_rfl
    refine .read (orgSubtype_runs org) (fun mem hmem =>
      orgSubtypeOf_congr hmem le_rfl (by omega)) ?_
    rw [hsame, if_pos rfl, ← hmem₁]
    exact phaseChange_restores host 10 32 hrun
      (by decide) (by decide) (by decide) (by decide) (by omega) (by decide)
      (by decide) hroom
  · rw [if_neg hsubtype] at hrun ⊢
    obtain ⟨-, rfl⟩ := Prod.mk.inj hrun
    refine .read (orgSubtype_runs org) (fun mem hmem =>
      orgSubtypeOf_congr hmem le_rfl (by omega)) ?_
    rw [hmem₁, if_neg hsubtype]
    exact .pure fun _ _ _ => rfl

/-- and a TLV of the unicast negotiation. -/
theorem unicastNegotiationPreSend_restores {type : TlvType} {tlv length : ℕ}
    {store final : Store ParseState}
    (hrun : unicastNegotiationPostRecv host type tlv length store =
      (.ok (), final)) :
    Restores (unicastNegotiationPreSend host type tlv) (tlv + 4)
      (tlv + sizeofTlv + length) final.mem store.mem := by
  have hbody : ∀ {size convert}, unicastTlvPostRecv tlv length size convert
      store = (.ok (), final) → size - sizeofTlv ≤ length ∧
        ∃ store', store'.mem = store.mem ∧ convert store' = (.ok (), final) := by
    intro size convert hrun
    obtain ⟨hlen, hrun⟩ := ite_fail_eq_ok.mp hrun
    obtain ⟨messageType, store₁, h₁, hrun⟩ := bind_eq_ok.mp hrun
    obtain ⟨-, rfl⟩ := Prod.mk.inj h₁
    refine ⟨by omega, _, ?_, (ite_fail_eq_ok.mp hrun).2⟩
    rfl
  have hduration : ∀ {size}, UnicastXmitTlv.requestSize ≤ size →
      unicastTlvPostRecv tlv length size
        (swapFields host tlv [UnicastXmitTlv.durationField]) store =
          (.ok (), final) →
      Restores (swapFields host tlv [UnicastXmitTlv.durationField]) (tlv + 4)
        (tlv + sizeofTlv + length) final.mem store.mem := by
    intro size hsize hrun
    obtain ⟨hlen, store', hmem, hconvert⟩ := hbody hrun
    obtain rfl := swapFields_eq_ok hconvert
    simp only [UnicastXmitTlv.requestSize, sizeofTlv] at hsize hlen ⊢
    rw [← hmem]
    exact swapFields_restores host 6 10 (by decide)
      (by decide) (by omega) (by omega) store'.mem
  have hnothing : ∀ {size}, unicastTlvPostRecv tlv length size (pure ()) store =
      (.ok (), final) → final.mem = store.mem := by
    intro size hrun
    obtain ⟨-, store', hmem, hconvert⟩ := hbody hrun
    obtain ⟨-, rfl⟩ := Prod.mk.inj hconvert
    exact hmem
  cases type with
  | requestUnicastTransmission => exact hduration (by decide) hrun
  | grantUnicastTransmission => exact hduration (by decide) hrun
  | cancelUnicastTransmission | acknowledgeCancelUnicastTransmission =>
    exact .pure fun i _ _ => congrFun (hnothing hrun) i
  | _ =>
    obtain ⟨-, rfl⟩ := Prod.mk.inj hrun
    exact .pure fun _ _ _ => rfl

/-! ## Any TLV -/

/-- Where a TLV of the wire holds scaled nanoseconds. -/
def phaseChange (type length tlv : ℕ) (mem : Memory) : Option ℕ :=
  match TlvType.ofCode type with
  | some .management =>
      if length > ManagementTlv.id.width ∧
          ManagementId.ofCode (netWord mem (tlv + 4) 2) = some .timeStatusNp then
        some (tlv + ManagementTlv.data + TimeStatusNp.lastGmPhaseChange)
      else none
  | some .organizationExtension =>
      if orgSubtypeOf mem tlv = some 1 then
        some (tlv + FollowUpInfoTlv.lastGmPhaseChange)
      else none
  | _ => none

def tlvEcho (endian : Endian) (type length tlv : ℕ) (mem : Memory) : Memory :=
  match phaseChange type length tlv mem with
  | some sns => scaledNsEcho endian sns mem
  | none => mem

private theorem tlvEcho_management (endian : Endian) {type : ℕ}
    (length tlv : ℕ) (mem : Memory)
    (htype : TlvType.ofCode type = some .management) :
    tlvEcho endian type length tlv mem =
      if length > ManagementTlv.id.width then
        mgtEcho endian (netWord mem (tlv + 4) 2) (tlv + ManagementTlv.data) mem
      else mem := by
  simp only [tlvEcho, phaseChange, htype, mgtEcho]
  split_ifs <;> simp_all

private theorem tlvEcho_organizationExtension (endian : Endian) {type : ℕ}
    (length tlv : ℕ) (mem : Memory)
    (htype : TlvType.ofCode type = some .organizationExtension) :
    tlvEcho endian type length tlv mem = orgEcho endian tlv mem := by
  simp only [tlvEcho, phaseChange, htype, orgEcho]
  split_ifs <;> simp_all

private theorem mgtEcho_swapId (endian : Endian) (id m : ℕ) (mem : Memory) :
    swapAll endian m [ManagementTlv.id] (mgtEcho endian id
        (m + ManagementTlv.data) (swapAll endian m [ManagementTlv.id] mem)) =
      mgtEcho endian id (m + ManagementTlv.data) mem := by
  have htwice : swapAll endian m [ManagementTlv.id]
      (swapAll endian m [ManagementTlv.id] mem) = mem :=
    swapAll_swapAll (by decide) mem
  unfold mgtEcho
  split
  · let word := fieldsConversion endian m 4 6 [ManagementTlv.id] (by decide)
    let echo : Conversion :=
      { lo := m + ManagementTlv.data + TimeStatusNp.lastGmPhaseChange
        hi := m + ManagementTlv.data + TimeStatusNp.lastGmPhaseChange + 10
        apply := scaledNsEcho endian _
        frame := fun mem i houtside =>
          scaledNsEcho_outside endian mem (by omega)
        congr := fun left right hagree =>
          scaledNsEcho_agreeOn endian hagree le_rfl le_rfl }
    have hcomm := Conversion.apply_comm word echo
      (Or.inl (by
        show m + 6 ≤ m + ManagementTlv.data + TimeStatusNp.lastGmPhaseChange
        simp only [ManagementTlv.data]
        omega))
    exact (hcomm _).trans (congrArg echo.apply htwice)
  · exact htwice

private theorem management_restores {type length : ℕ} {extra result : TlvExtra}
    {store final : Store ParseState}
    (htype : TlvType.ofCode type = some .management)
    (hrun : tlvPostRecv host type length extra store = (.ok result, final)) :
    Restores (tlvPreSend host type length result) (extra.tlv + 4)
      (extra.tlv + sizeofTlv + length) final.mem
      (tlvEcho host.endian type length extra.tlv store.mem) := by
  have htlv := tlvPostRecv_tlv host type length extra hrun
  have hsize : sizeofTlv = 4 := rfl
  have hdata : ManagementTlv.data = 6 := rfl
  have hwidth : ManagementTlv.id.width = 2 := rfl
  simp only [tlvPostRecv, htype] at hrun
  rw [tlvEcho_management host.endian length extra.tlv store.mem htype]
  simp only [tlvPreSend, htype, htlv]
  obtain ⟨hlen, hrun⟩ := ite_fail_eq_ok.mp hrun
  simp only [ManagementTlv.size, hsize] at hlen
  obtain ⟨_, store₁, h₁, hrun⟩ := bind_eq_ok.mp hrun
  obtain rfl := swapFields_eq_ok h₁
  by_cases hmore : length > ManagementTlv.id.width
  · rw [if_pos hmore] at hrun
    rw [if_pos hmore, if_pos hmore]
    obtain ⟨id, store₂, h₂, hrun⟩ := bind_eq_ok.mp hrun
    obtain ⟨hid, rfl⟩ := readField_eq_ok h₂
    obtain ⟨pair, store₃, h₃, hrun⟩ := bind_eq_ok.mp hrun
    have hwire : id = netWord store.mem (extra.tlv + 4) 2 := hid.trans
      (hostWord_swapAll _ ManagementTlv.id (by decide) (by decide) _)
    have hpair : result = pair.1 ∧ store₃ = final := by
      obtain ⟨-, hrun⟩ := ite_fail_eq_ok.mp hrun
      obtain ⟨hresult, hfinal⟩ := Prod.mk.inj hrun
      exact ⟨(Except.ok.inj hresult).symm, hfinal⟩
    obtain ⟨rfl, rfl⟩ := hpair
    have hspan : extra.tlv + ManagementTlv.data +
        (length - ManagementTlv.id.width) = extra.tlv + sizeofTlv + length := by
      omega
    have hdataRestores := mgtPreSend_restores host h₃ hid.symm
    rw [hspan] at hdataRestores
    refine hdataRestores.bind (.conversion
      (fieldsConversion host.endian extra.tlv 4 6
        [ManagementTlv.id] (by decide))
      (swapFields_runs host extra.tlv _) le_rfl ?_ fun i _ _ => ?_)
    · show extra.tlv + 6 ≤ _
      omega
    · rw [hwire]
      exact congrFun (mgtEcho_swapId host.endian _ extra.tlv store.mem) i
  · rw [if_neg hmore] at hrun
    rw [if_neg hmore, if_neg hmore]
    obtain ⟨-, rfl⟩ := Prod.mk.inj hrun
    exact swapFields_restores host 4 6 (by decide)
      (by decide) le_rfl (by omega) store.mem

/-- Sending a TLV that was accepted restores its body up to the low word of
scaled nanoseconds.  A path trace may have had its length cut in between. -/
theorem tlvPreSend_restores {type length : ℕ} (length' : ℕ)
    {extra result : TlvExtra}
    {store final : Store ParseState}
    (hrun : tlvPostRecv host type length extra store = (.ok result, final))
    (hlength : TlvType.ofCode type = some .pathTrace ∨ length' = length) :
    Restores (tlvPreSend host type length' result) (extra.tlv + 4)
      (extra.tlv + sizeofTlv + length) final.mem
      (tlvEcho host.endian type length extra.tlv store.mem) := by
  have htlv := tlvPostRecv_tlv host type length extra hrun
  have hsize : sizeofTlv = 4 := rfl
  cases htype : TlvType.ofCode type with
  | none =>
    simp only [tlvPostRecv, htype] at hrun
    simp only [tlvPreSend, tlvEcho, phaseChange, htype]
    obtain ⟨-, rfl⟩ := Prod.mk.inj hrun
    exact .pure fun _ _ _ => rfl
  | some name =>
    cases name with
    | management =>
      obtain rfl : length' = length := by simpa [htype] using hlength
      exact management_restores host htype hrun
    | managementErrorStatus =>
      simp only [tlvPostRecv, htype] at hrun
      simp only [tlvPreSend, tlvEcho, phaseChange, htype, htlv]
      obtain ⟨hlen, hrun⟩ := ite_fail_eq_ok.mp hrun
      obtain ⟨_, store₁, h₁, hrun⟩ := bind_eq_ok.mp hrun
      obtain rfl := swapFields_eq_ok h₁
      obtain ⟨-, rfl⟩ := Prod.mk.inj hrun
      simp only [ManagementErrorStatus.size, hsize] at hlen
      exact swapFields_restores host 4 8 (by decide)
        (by decide) le_rfl (by omega) store.mem
    | organizationExtension =>
      simp only [tlvPostRecv, htype] at hrun
      rw [tlvEcho_organizationExtension host.endian length extra.tlv store.mem
        htype]
      simp only [tlvPreSend, htype, htlv]
      obtain ⟨hlen, hrun⟩ := ite_fail_eq_ok.mp hrun
      obtain ⟨_, store₁, h₁, hrun⟩ := bind_eq_ok.mp hrun
      obtain ⟨-, rfl⟩ := Prod.mk.inj hrun
      simp only [OrganizationTlv.size, hsize] at hlen
      exact orgPreSend_restores host h₁ (by omega)
    | requestUnicastTransmission | grantUnicastTransmission
    | cancelUnicastTransmission | acknowledgeCancelUnicastTransmission =>
      simp only [tlvPostRecv, htype] at hrun
      simp only [tlvPreSend, tlvEcho, phaseChange, htype, htlv]
      obtain ⟨_, store₁, h₁, hrun⟩ := bind_eq_ok.mp hrun
      obtain ⟨-, rfl⟩ := Prod.mk.inj hrun
      exact unicastNegotiationPreSend_restores host h₁
    | pathTrace =>
      simp only [tlvPostRecv, htype] at hrun
      simp only [tlvPreSend, tlvEcho, phaseChange, htype]
      split at hrun
      · obtain ⟨_, store₁, h₁, hrun⟩ := bind_eq_ok.mp hrun
        obtain ⟨-, rfl⟩ := Prod.mk.inj h₁
        obtain ⟨-, rfl⟩ := Prod.mk.inj hrun
        refine .pure fun i hge _ => storeBytes_outside _ _ (Or.inr ?_)
        simp only [Tlv.length, length_encode]
        omega
      · obtain ⟨-, rfl⟩ := Prod.mk.inj hrun
        exact .pure fun _ _ _ => rfl
    | ptpmonResp =>
      simp only [tlvPostRecv, htype] at hrun
      simp only [tlvPreSend, tlvEcho, phaseChange, htype]
      exact nsmRespPreSend_restores host hrun rfl
    | _ =>
      simp only [tlvPostRecv, htype] at hrun
      simp only [tlvPreSend, tlvEcho, phaseChange, htype]
      obtain ⟨-, rfl⟩ := Prod.mk.inj hrun
      exact .pure fun _ _ _ => rfl

/-! ## TLVs with their headers -/

/-- The path trace is longer than an Announce can carry, so its length is cut
on reception. -/
def Oversized (mem : Memory) (tlv : ℕ) : Prop :=
  TlvType.ofCode (netWord mem tlv 2) = some .pathTrace ∧
    pathTraceMax < netWord mem (tlv + 2) 2 / sizeofClockIdentity

instance (mem : Memory) (tlv : ℕ) : Decidable (Oversized mem tlv) :=
  inferInstanceAs (Decidable (_ ∧ _))

def wireEcho (endian : Endian) (tlv : ℕ) (mem : Memory) : Memory :=
  if Oversized mem tlv then
    storeBytes mem (tlv + 2) (bigEncode 2 (pathTraceMax * sizeofClockIdentity))
  else
    tlvEcho endian (netWord mem tlv 2) (netWord mem (tlv + 2) 2) tlv mem

theorem lt_phaseChange {type length tlv sns : ℕ} {mem : Memory}
    (hsns : phaseChange type length tlv mem = some sns) : tlv + 6 ≤ sns := by
  unfold phaseChange at hsns
  split at hsns
  · simp only [ManagementTlv.data, TimeStatusNp.lastGmPhaseChange] at hsns
    split at hsns
    · obtain rfl := Option.some.inj hsns
      omega
    · simp at hsns
  · simp only [FollowUpInfoTlv.lastGmPhaseChange] at hsns
    split at hsns
    · obtain rfl := Option.some.inj hsns
      omega
    · simp at hsns
  · simp at hsns

/-- Type and length are sent as they came. -/
theorem tlvEcho_header (endian : Endian) (type length : ℕ)
    {tlv i : ℕ} (mem : Memory) (hi : i < tlv + 4) :
    tlvEcho endian type length tlv mem i = mem i := by
  unfold tlvEcho
  cases hsns : phaseChange type length tlv mem with
  | none => rfl
  | some sns =>
    have := lt_phaseChange hsns
    exact scaledNsEcho_outside endian mem (Or.inl (by omega))

/-- Where the phase change lies depends on the TLV alone. -/
theorem phaseChange_congr {type length tlv : ℕ} {left right : Memory}
    (hagree : ∀ j, tlv + 4 ≤ j → left j = right j) :
    phaseChange type length tlv left = phaseChange type length tlv right := by
  have hagreeOn : ∀ hi, AgreeOn (tlv + 4) hi left right :=
    fun hi j hge _ => hagree j hge
  have hid : netWord left (tlv + 4) 2 = netWord right (tlv + 4) 2 :=
    (hagreeOn (tlv + 6)).netWord le_rfl le_rfl
  simp only [phaseChange, hid,
    orgSubtypeOf_congr (hagreeOn (tlv + 10)) le_rfl le_rfl]

/-- So does what is sent instead of it. -/
theorem tlvEcho_congr (endian : Endian) (type length tlv : ℕ) {i : ℕ}
    (left right : Memory) (hagree : ∀ j, tlv + 4 ≤ j → left j = right j)
    (hi : tlv + 4 ≤ i) :
    tlvEcho endian type length tlv left i =
      tlvEcho endian type length tlv right i := by
  unfold tlvEcho
  rw [phaseChange_congr hagree]
  cases hphase : phaseChange type length tlv right with
  | none => exact hagree i hi
  | some sns =>
    have hlow := lt_phaseChange hphase
    have hbehind : AgreeOn (tlv + 4) (i + sns + 10) left right :=
      fun j hge _ => hagree j hge
    exact scaledNsEcho_agreeOn endian hbehind (by omega) (by omega) i hi
      (by omega)

/-- The type and length that a converted TLV shows. -/
theorem tlvPostRecv_header {type length : ℕ} {extra result : TlvExtra}
    {store final : Store ParseState}
    (hrun : tlvPostRecv host type length extra store = (.ok result, final))
    {i : ℕ} (hi : i < extra.tlv + 4) :
    final.mem i =
      if TlvType.ofCode type = some .pathTrace ∧
          pathTraceMax < length / sizeofClockIdentity then
        storeBytes store.mem (extra.tlv + 2)
          (host.endian.encode 2 (pathTraceMax * sizeofClockIdentity)) i
      else store.mem i := by
  by_cases htype : TlvType.ofCode type = some .pathTrace
  · simp only [tlvPostRecv, htype] at hrun
    by_cases hlong : length / sizeofClockIdentity > pathTraceMax
    · rw [if_pos hlong] at hrun
      rw [if_pos ⟨htype, hlong⟩]
      obtain ⟨_, store₁, h₁, hrun⟩ := bind_eq_ok.mp hrun
      obtain ⟨-, rfl⟩ := Prod.mk.inj h₁
      obtain ⟨-, rfl⟩ := Prod.mk.inj hrun
      rfl
    · rw [if_neg hlong] at hrun
      rw [if_neg fun h => hlong h.2]
      obtain ⟨-, rfl⟩ := Prod.mk.inj hrun
      rfl
  · rw [if_neg fun h => htype h.1]
    exact (confined_tlvPostRecv host le_rfl (fun h => absurd h htype)
      le_rfl).mem_eq hrun (Or.inl hi)

/-- The header of a converted TLV, converted back. -/
private theorem swapHeader_eq {type length tlv : ℕ} {extra : TlvExtra}
    {wire : Memory} {spans : List Span} {rest : ParseState}
    {final : Store ParseState}
    (htype : type = netWord wire tlv 2) (hlength : length = netWord wire (tlv + 2) 2)
    (hrun : tlvPostRecv host type length { tlv := tlv }
      ⟨swapAll host.endian tlv tlvHeader wire, spans, rest⟩ = (.ok extra, final))
    {i : ℕ} (hge : tlv ≤ i) (hlt : i < tlv + 4) :
    swapAll host.endian tlv tlvHeader final.mem i =
      wireEcho host.endian tlv wire i := by
  let header := fieldsConversion host.endian tlv 0 4 tlvHeader (by decide)
  have hheader : ∀ mem, AgreeOn tlv (tlv + 4) final.mem mem →
      swapAll host.endian tlv tlvHeader final.mem i =
        swapAll host.endian tlv tlvHeader mem i :=
    fun mem hagree => header.congr final.mem mem hagree i hge hlt
  have htwice : swapAll host.endian tlv tlvHeader
      (swapAll host.endian tlv tlvHeader wire) = wire :=
    swapAll_swapAll tlvHeader_disjoint wire
  have hrunHeader := fun j (hj : j < tlv + 4) =>
    tlvPostRecv_header host hrun hj
  by_cases hover : Oversized wire tlv
  · have hcut : TlvType.ofCode type = some .pathTrace ∧
        pathTraceMax < length / sizeofClockIdentity := by
      rw [htype, hlength]
      exact hover
    rw [wireEcho, if_pos hover, hheader (storeBytes
      (swapAll host.endian tlv tlvHeader wire) (tlv + 2)
      (host.endian.encode 2 (pathTraceMax * sizeofClockIdentity))) fun j _ hj => by
        rw [hrunHeader j hj, if_pos hcut]]
    let cut := Conversion.store (tlv + 2)
      (host.endian.encode 2 (pathTraceMax * sizeofClockIdentity))
    let typeWord := fieldsConversion host.endian tlv 0 2 [Tlv.type] (by decide)
    have hcomm := Conversion.apply_comm typeWord cut
      (Or.inl le_rfl) (swapAll host.endian tlv tlvHeader wire)
    have hsplit : ∀ mem, swapAll host.endian tlv tlvHeader mem =
        netSwap host.endian (tlv + 2) 2 (typeWord.apply mem) := fun _ => rfl
    have hword := netSwap_storeBytes_encode host.endian (tlv + 2) 2
      (pathTraceMax * sizeofClockIdentity)
      (typeWord.apply (swapAll host.endian tlv tlvHeader wire))
    rw [hsplit]
    refine (congrFun (congrArg (netSwap host.endian (tlv + 2) 2) hcomm) i).trans
      ((congrFun hword i).trans ?_)
    by_cases hlen : tlv + 2 ≤ i
    · have hinside : tlv + 2 ≤ i ∧ i < tlv + 2 + 2 := ⟨hlen, by omega⟩
      simp only [storeBytes, length_bigEncode, if_pos hinside]
    · rw [storeBytes_outside _ _ (by omega), storeBytes_outside _ _ (by omega)]
      have hbyte := congrFun htwice i
      rw [hsplit, netSwap_outside host.endian _ (by omega)] at hbyte
      exact hbyte
  · have hcut : ¬(TlvType.ofCode type = some .pathTrace ∧
        pathTraceMax < length / sizeofClockIdentity) := by
      rw [htype, hlength]
      exact hover
    rw [wireEcho, if_neg hover, tlvEcho_header host.endian _ _ wire hlt,
      hheader (swapAll host.endian tlv tlvHeader wire) fun j _ hj => by
        rw [hrunHeader j hj, if_neg hcut]]
    exact congrFun htwice i

/-- One round of `suffix_pre_send` undoes one round of `suffix_post_recv`. -/
theorem suffixTlvPreSend_restores {ptr len : ℕ} {tlv : TlvExtra × ℕ}
    {store store' : Store ParseState}
    (hrun : suffixTlvPostRecv host ptr len store = (.ok tlv, store')) :
    Restores (suffixTlvPreSend host tlv.1) ptr (ptr + sizeofTlv + tlv.2)
      store'.mem (wireEcho host.endian ptr store.mem) := by
  have hsize : sizeofTlv = 4 := rfl
  obtain ⟨hlength, -, -, hextra, spans, hpost⟩ :=
    suffixTlvPostRecv_eq_ok host hrun
  obtain ⟨extra, length⟩ := tlv
  simp only at hlength hextra hpost ⊢
  have hheader := fun i (hi : i < ptr + 4) =>
    tlvPostRecv_header host hpost hi
  have htypeWord : hostWord host.endian store'.mem (ptr + 0) 2 =
      netWord store.mem ptr 2 := by
    refine Eq.trans (hostWord_congr _ fun i hge hlt => ?_) (hostWord_swapAll
      _ Tlv.type tlvHeader_disjoint (by decide) store.mem)
    rw [hheader i (by omega)]
    split
    · exact storeBytes_outside _ _ (Or.inl (by simp only at *; omega))
    · rfl
  have hlengthWord : ¬TlvType.ofCode (netWord store.mem ptr 2) = some .pathTrace →
      hostWord host.endian store'.mem (ptr + 2) 2 = length := by
    intro htype
    refine Eq.trans (hostWord_congr _ fun i hge hlt => ?_) ((hostWord_swapAll
      _ Tlv.length tlvHeader_disjoint (by decide) store.mem).trans
      hlength.symm)
    rw [hheader i (by omega), if_neg fun h => htype h.1]
  unfold suffixTlvPreSend
  rw [hextra]
  refine .readWord (Nat.le_add_right _ _) (by simp only [Tlv.type]; omega) ?_
  refine .readWord (Nat.le_add_right _ _) (by simp only [Tlv.length]; omega) ?_
  simp only [Tlv.type, Tlv.length, htypeWord]
  have hbody := tlvPreSend_restores host
    (hostWord host.endian store'.mem (ptr + 2) 2) hpost (by
      by_cases htype : TlvType.ofCode (netWord store.mem ptr 2) = some .pathTrace
      · exact Or.inl htype
      · exact Or.inr (hlengthWord htype))
  let middle : Memory := fun i =>
    if i < ptr + 4 then store'.mem i
    else tlvEcho host.endian (netWord store.mem ptr 2) length ptr
      (swapAll host.endian ptr tlvHeader store.mem) i
  have hmiddle : Restores (tlvPreSend host (netWord store.mem ptr 2)
      (hostWord host.endian store'.mem (ptr + 2) 2) extra) ptr
      (ptr + sizeofTlv + length) store'.mem middle := by
    intro mem hmem
    obtain ⟨mem', hruns, hagree, hframe⟩ :=
      hbody mem (hmem.mono (by simp only; omega) le_rfl)
    refine ⟨mem', hruns, fun i hge hlt => ?_, fun i hi => hframe i (by
      simp only
      omega)⟩
    by_cases hi : i < ptr + 4
    · simp only [middle, if_pos hi]
      rw [hframe i (Or.inl hi)]
      exact hmem i hge hlt
    · simp only [middle, if_neg hi]
      exact hagree i (by simp only; omega) hlt
  refine hmiddle.bind (.conversion (fieldsConversion host.endian
    ptr 0 4 tlvHeader (by decide)) (swapFields_runs host ptr _) le_rfl (by
      show ptr + 4 ≤ _
      omega) fun i hge hlt => ?_)
  show swapAll host.endian ptr tlvHeader middle i = _
  by_cases hi : i < ptr + 4
  · rw [← swapHeader_eq host rfl hlength hpost hge hi]
    refine (fieldsConversion host.endian ptr 0 4 tlvHeader (by decide)).congr
      middle store'.mem (fun j _ hj => ?_) i hge hi
    have hj : j < ptr + 4 := hj
    simp only [middle, if_pos hj]
  · rw [swapAll_outside 0 4 (by decide) (by omega)]
    simp only [middle, if_neg hi]
    have hsame := tlvEcho_congr host.endian (netWord store.mem ptr 2) length
      ptr (swapAll host.endian ptr tlvHeader store.mem) store.mem
      (fun j hj => swapAll_outside 0 4 (by decide)
        (Or.inr hj) _) (Nat.not_lt.mp hi)
    rw [hsame]
    unfold wireEcho
    split
    · rename_i hover
      have htype := hover.1
      simp only [tlvEcho, phaseChange, htype]
      exact (storeBytes_outside _ _ (by rw [length_bigEncode]; omega)).symm
    · rw [hlength]

end LinuxPtp.Wire
