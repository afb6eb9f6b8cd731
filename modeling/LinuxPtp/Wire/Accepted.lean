import LinuxPtp.Wire.HostOrder

/-!
# What reception accepts

A TLV that is accepted on reception has the form, in host order, that the format asks of
its type.  The parser finds the members of a clock description where the format has them.
-/

namespace LinuxPtp.Wire

open ByteOrder Access

variable (host : Host)

/-! ## Clock descriptions -/

section

variable {cursor later : Cursor} {count ptr value : ℕ} {store final : Store ParseState}

theorem skip_buf (hrun : cursor.skip count store = (.ok later, final)) :
    store = final ∧ later.buf = cursor.buf + count ∧ count ≤ cursor.len ∧
      later.len = cursor.len - count := by
  obtain ⟨hroom, hrun⟩ := ite_fail_eq_ok.mp hrun
  obtain ⟨hlater, rfl⟩ := Prod.mk.inj hrun
  obtain rfl := Except.ok.inj hlater
  exact ⟨rfl, rfl, Nat.not_lt.mp hroom, rfl⟩

theorem skipAddress_buf (hrun : cursor.skipAddress count store = (.ok later, final)) :
    store = final ∧ later.buf = cursor.buf + count ∧ count ≤ transportAddrLen := by
  obtain ⟨hshort, hrun⟩ := ite_fail_eq_ok.mp hrun
  obtain ⟨hsame, hbuf, -⟩ := skip_buf hrun
  exact ⟨hsame, hbuf, Nat.not_lt.mp hshort⟩

theorem skipText_buf (hrun : cursor.skipText store = (.ok later, final)) :
    final.mem = store.mem ∧ later.buf = textEnd store.mem cursor.buf := by
  obtain ⟨middle, store₁, h₁, hrun⟩ := bind_eq_ok.mp hrun
  obtain ⟨rfl, hmiddle, -⟩ := skip_buf h₁
  obtain ⟨length, store₂, h₂, hrun⟩ := bind_eq_ok.mp hrun
  obtain ⟨rfl, hmem, -⟩ := (readByte_runs cursor.buf store.mem).eq_of_run h₂
  obtain ⟨rfl, hlater, -⟩ := skip_buf hrun
  exact ⟨hmem, by rw [hlater, hmiddle, textEnd]⟩

variable {host} in
theorem flip16_value (hrun : flip16 host ptr store = (.ok value, final)) :
    final.mem = netSwap host.endian ptr 2 store.mem ∧
      value = hostWord host.endian final.mem ptr 2 := by
  obtain ⟨hvalue, hmem, -⟩ := (flip16_runs host ptr store.mem).eq_of_run hrun
  exact ⟨hmem, by rw [hmem, hvalue]⟩

end

theorem textEnd_congr {left right : Memory} {text : ℕ} (hbyte : left text = right text) :
    textEnd left text = textEnd right text := by
  rw [textEnd, textEnd, hbyte]

/-- The members of an accepted clock description are where the format has them, and the
bytes used are its own. -/
theorem clockDescriptionPostRecv_formatted {data dataLen : ℕ}
    {result : MgmtClockDescription × ℕ} {store final : Store ParseState}
    (hrun : clockDescriptionPostRecv host data dataLen store = (.ok result, final)) :
    AddressesFit host.endian data final.mem ∧
      result.2 = (clockDescriptionAt host.endian data final.mem).2 - data := by
  obtain ⟨c₁, s₁, h₁, hrun⟩ := bind_eq_ok.mp hrun
  obtain ⟨rfl, b₁, -⟩ := skip_buf h₁
  obtain ⟨_, s₂, h₂, hrun⟩ := bind_eq_ok.mp hrun
  obtain ⟨c₃, s₃, h₃, hrun⟩ := bind_eq_ok.mp hrun
  obtain ⟨m₃, b₃⟩ := skipText_buf h₃
  obtain ⟨c₄, s₄, h₄, hrun⟩ := bind_eq_ok.mp hrun
  obtain ⟨rfl, b₄, -⟩ := skip_buf h₄
  obtain ⟨_, s₅, h₅, hrun⟩ := bind_eq_ok.mp hrun
  obtain ⟨m₅, rfl⟩ := flip16_value h₅
  obtain ⟨c₆, s₆, h₆, hrun⟩ := bind_eq_ok.mp hrun
  obtain ⟨rfl, b₆, f₆⟩ := skipAddress_buf h₆
  obtain ⟨c₇, s₇, h₇, hrun⟩ := bind_eq_ok.mp hrun
  obtain ⟨rfl, b₇, -⟩ := skip_buf h₇
  obtain ⟨_, s₈, h₈, hrun⟩ := bind_eq_ok.mp hrun
  obtain ⟨m₈, -⟩ := flip16_value h₈
  obtain ⟨_, s₉, h₉, hrun⟩ := bind_eq_ok.mp hrun
  obtain ⟨m₉, rfl⟩ := flip16_value h₉
  obtain ⟨c₁₀, s₁₀, h₁₀, hrun⟩ := bind_eq_ok.mp hrun
  obtain ⟨rfl, b₁₀, f₁₀⟩ := skipAddress_buf h₁₀
  obtain ⟨c₁₁, s₁₁, h₁₁, hrun⟩ := bind_eq_ok.mp hrun
  obtain ⟨rfl, b₁₁, -⟩ := skip_buf h₁₁
  obtain ⟨c₁₂, s₁₂, h₁₂, hrun⟩ := bind_eq_ok.mp hrun
  obtain ⟨m₁₂, b₁₂⟩ := skipText_buf h₁₂
  obtain ⟨c₁₃, s₁₃, h₁₃, hrun⟩ := bind_eq_ok.mp hrun
  obtain ⟨m₁₃, b₁₃⟩ := skipText_buf h₁₃
  obtain ⟨c₁₄, s₁₄, h₁₄, hrun⟩ := bind_eq_ok.mp hrun
  obtain ⟨m₁₄, b₁₄⟩ := skipText_buf h₁₄
  obtain ⟨c₁₅, s₁₅, h₁₅, hrun⟩ := bind_eq_ok.mp hrun
  obtain ⟨rfl, b₁₅, -⟩ := skip_buf h₁₅
  obtain ⟨hresult, rfl⟩ := Prod.mk.inj hrun
  obtain rfl := Except.ok.inj hresult
  -- the words behind the first text are converted after it has been read
  have hmem : s₁₄.mem = s₉.mem := m₁₄.trans (m₁₃.trans m₁₂)
  simp only [PhysicalAddress.length, PortAddress.networkProtocol, PortAddress.addressLength,
    sizeofPhysicalAddress, sizeofPortAddress, Nat.add_zero] at *
  have hlayer := b₃.trans (textEnd_eq _ _)
  have hafter : ∀ i < c₆.buf, s₉.mem i = s₅.mem i := fun i hi => by
    rw [m₉, netSwap_outside _ _ (by omega), m₈, netSwap_outside _ _ (by omega)]
  have hphysical : textEnd s₉.mem (data + 2) = c₃.buf := by
    rw [b₃, b₁]
    refine textEnd_congr ?_
    rw [hafter _ (by omega), m₅, netSwap_outside _ _ (by omega), m₃]
  have hfirst : hostWord host.endian s₉.mem c₃.buf 2 =
      hostWord host.endian s₅.mem c₃.buf 2 :=
    hostWord_congr _ fun i _ hlt => hafter i (by omega)
  have hprotocol : c₆.buf = c₃.buf + 2 + hostWord host.endian s₉.mem c₃.buf 2 := by
    rw [hfirst, b₆, b₄]
  rw [m₁₃, m₁₂] at b₁₄
  rw [m₁₂] at b₁₃
  simp only [AddressesFit, clockDescriptionAt, hmem, hphysical, sizeofPhysicalAddress,
    sizeofPortAddress, ← hprotocol]
  refine ⟨⟨hfirst ▸ f₆, f₁₀⟩, ?_⟩
  rw [b₁₅, b₁₄, b₁₃, b₁₂, b₁₁, b₁₀, b₇]

/-- The members of a clock description depend on its own bytes only. -/
theorem clockDescriptionAt_congr {endian : Endian} {data lo hi : ℕ} {left right : Memory}
    (hagree : AgreeOn lo hi left right) (hlo : lo ≤ data)
    (hhi : (clockDescriptionAt endian data left).2 ≤ hi) :
    clockDescriptionAt endian data right = clockDescriptionAt endian data left ∧
      (AddressesFit endian data right ↔ AddressesFit endian data left) := by
  simp only [AddressesFit, clockDescriptionAt, ouiLen, profileIdLen, sizeofPhysicalAddress,
    sizeofPortAddress] at hhi ⊢
  generalize hphysical : textEnd left (data + 2) = physicalAddress at *
  generalize hfirst : hostWord endian left physicalAddress 2 = first at *
  generalize hsecond : hostWord endian left (physicalAddress + 2 + first + 2) 2 = second at *
  generalize hproduct : physicalAddress + 2 + first + 4 + second + (3 + 1) = product at *
  generalize hrevision : textEnd left product = revision at *
  generalize huser : textEnd left revision = user at *
  generalize hprofile : textEnd left user = profile at *
  have hlayer := hphysical.symm.trans (textEnd_eq ..)
  have htext₁ := hrevision.symm.trans (textEnd_eq ..)
  have htext₂ := huser.symm.trans (textEnd_eq ..)
  have htext₃ := hprofile.symm.trans (textEnd_eq ..)
  have hsame : ∀ text, lo ≤ text → text < hi → textEnd right text = textEnd left text :=
    fun text hge hlt => (textEnd_congr (hagree text hge hlt)).symm
  have hword : ∀ offset, lo ≤ offset → offset + 2 ≤ hi →
      hostWord endian right offset 2 = hostWord endian left offset 2 :=
    fun offset hge hle => (hagree.hostWord endian hge hle).symm
  rw [hsame (data + 2) (by omega) (by omega), hphysical,
    hword physicalAddress (by omega) (by omega), hfirst,
    hword (physicalAddress + 2 + first + 2) (by omega) (by omega), hsecond, hproduct,
    hsame product (by omega) (by omega), hrevision,
    hsame revision (by omega) (by omega), huser, hsame user (by omega) (by omega), hprofile]
  exact ⟨rfl, Iff.rfl⟩

/-! ## Management data -/

/-- Management data that is accepted has the format of its identifier. -/
theorem mgtDataPostRecv_formatted {id data dataLen : ℕ} {extra : TlvExtra}
    {result : TlvExtra × ℕ} {store final : Store ParseState}
    (hrun : mgtDataPostRecv host id data dataLen extra store = (.ok result, final))
    (hround : result.2 ≠ 0 → roundUp result.2 = dataLen) :
    MgtFormatted host.endian id data dataLen final.mem := by
  unfold mgtDataPostRecv at hrun
  unfold MgtFormatted
  cases hcode : ManagementId.ofCode id with
  | none => trivial
  | some name =>
    rw [hcode] at hrun
    cases name with
    | clockDescription =>
      obtain ⟨⟨cd, extraLen⟩, store₁, h₁, hrun⟩ := bind_eq_ok.mp hrun
      obtain ⟨hresult, rfl⟩ := Prod.mk.inj hrun
      obtain rfl := Except.ok.inj hresult
      obtain ⟨hfit, hextra⟩ := clockDescriptionPostRecv_formatted host h₁
      dsimp only at hextra hround
      refine ⟨hfit, hextra ▸ hround ?_⟩
      simp only [hextra, clockDescriptionAt, textEnd_eq]
      omega
    | userDescription =>
      obtain ⟨-, hrun⟩ := ite_fail_eq_ok.mp hrun
      obtain ⟨length, store₁, h₁, hrun⟩ := bind_eq_ok.mp hrun
      obtain ⟨rfl, hmem, -⟩ := (readByte_runs data store.mem).eq_of_run h₁
      obtain ⟨hresult, rfl⟩ := Prod.mk.inj hrun
      obtain rfl := Except.ok.inj hresult
      dsimp only at hround ⊢
      rw [hmem, textEnd, Nat.add_assoc, Nat.add_sub_cancel_left]
      exact hround (by simp only [sizeofPtpText]; omega)
    | portPropertiesNp =>
      obtain ⟨-, hrun⟩ := ite_fail_eq_ok.mp hrun
      obtain ⟨_, store₁, h₁, hrun⟩ := bind_eq_ok.mp hrun
      obtain ⟨length, store₂, h₂, hrun⟩ := bind_eq_ok.mp hrun
      obtain ⟨rfl, hmem, -⟩ := (readByte_runs _ store₁.mem).eq_of_run h₂
      obtain ⟨hresult, rfl⟩ := Prod.mk.inj hrun
      obtain rfl := Except.ok.inj hresult
      have hsize : PortPropertiesNp.size = 13 := rfl
      have htext : PortPropertiesNp.intfTxtLength = 12 := rfl
      dsimp only at hround ⊢
      rw [hmem, textEnd_eq, show data + PortPropertiesNp.intfTxtLength + 1 +
        (store₁.mem (data + PortPropertiesNp.intfTxtLength)).toNat - data =
          PortPropertiesNp.size +
            (store₁.mem (data + PortPropertiesNp.intfTxtLength)).toNat by omega]
      exact hround (by omega)
    | _ => exact (dataSetPostRecv_eq_ok hrun).1

/-- The format is a matter of the data. -/
theorem mgtFormatted_congr {endian : Endian} {id data dataLen : ℕ} {left right : Memory}
    (hagree : AgreeOn data (data + dataLen) left right)
    (hformat : MgtFormatted endian id data dataLen left) :
    MgtFormatted endian id data dataLen right := by
  unfold MgtFormatted at hformat ⊢
  cases hcode : ManagementId.ofCode id with
  | none => trivial
  | some name =>
    rw [hcode] at hformat
    cases name with
    | clockDescription =>
      obtain ⟨hfit, hlength⟩ := hformat
      have hround := le_roundUp ((clockDescriptionAt endian data left).2 - data)
      have hend : (clockDescriptionAt endian data left).2 ≤ data + dataLen := by omega
      obtain ⟨hsame, hfits⟩ := clockDescriptionAt_congr hagree le_rfl hend
      exact ⟨hfits.mpr hfit, by rw [hsame, hlength]⟩
    | userDescription =>
      have hround := le_roundUp (textEnd left data - data)
      rw [hformat, textEnd_eq] at hround
      dsimp only at hformat ⊢
      rw [← textEnd_congr (hagree data le_rfl (by omega)), hformat]
    | portPropertiesNp =>
      have hround := le_roundUp
        (textEnd left (data + PortPropertiesNp.intfTxtLength) - data)
      rw [hformat, textEnd_eq] at hround
      dsimp only at hformat ⊢
      rw [← textEnd_congr (hagree _ (by omega) (by omega)), hformat]
    | _ => exact hformat

/-! ## Any TLV -/

variable {type length : ℕ}

/-- A TLV of the negotiation that is accepted is long enough and of a known type. -/
theorem unicastTlvPostRecv_formatted {tlv size : ℕ} {fields : List Field}
    {store final : Store ParseState}
    (hrun : unicastTlvPostRecv tlv length size (swapFields host tlv fields) store =
      (.ok (), final)) (hfields : FieldsWithin 6 10 fields) :
    UnicastFormatted tlv length size final.mem := by
  obtain ⟨hlen, hrun⟩ := ite_fail_eq_ok.mp hrun
  obtain ⟨messageType, store₁, h₁, hrun⟩ := bind_eq_ok.mp hrun
  obtain ⟨rfl, hmem, -⟩ := (readByte_runs _ store.mem).eq_of_run h₁
  obtain ⟨hvalid, hrun⟩ := ite_fail_eq_ok.mp hrun
  obtain rfl := swapFields_eq_ok hrun
  refine ⟨Nat.not_lt.mp hlen, ?_⟩
  have hbyte : swapAll host.endian tlv fields store₁.mem (tlv + UnicastXmitTlv.messageType) =
      store₁.mem (tlv + UnicastXmitTlv.messageType) :=
    swapAll_outside 6 10 hfields (Or.inl (by
      simp only [UnicastXmitTlv.messageType]
      omega)) _
  dsimp only
  rw [hbyte, hmem]
  exact Bool.not_eq_false _ ▸ hvalid

section

variable {extra result : TlvExtra} {store final : Store ParseState}

/-- Management data has the form that its identifier asks for. -/
theorem management_formatted (htype : TlvType.ofCode type = some .management)
    (hrun : tlvPostRecv host type length extra store = (.ok result, final)) :
    Formatted host.endian type length extra.tlv final.mem := by
  unfold tlvPostRecv at hrun
  unfold Formatted
  simp only [htype] at hrun ⊢
  obtain ⟨hlen, hrun⟩ := ite_fail_eq_ok.mp hrun
  refine ⟨Nat.not_lt.mp hlen, fun hmore => ?_⟩
  obtain ⟨_, store₁, -, hrun⟩ := bind_eq_ok.mp hrun
  rw [if_pos hmore] at hrun
  obtain ⟨id, store₂, h₂, hrun⟩ := bind_eq_ok.mp hrun
  obtain ⟨rfl, rfl⟩ := readField_eq_ok h₂
  obtain ⟨pair, store₃, h₃, hrun⟩ := bind_eq_ok.mp hrun
  obtain ⟨hexact, hrun⟩ := ite_fail_eq_ok.mp hrun
  obtain ⟨-, rfl⟩ := Prod.mk.inj hrun
  have hword : hostWord host.endian store₃.mem (extra.tlv + 4) 2 =
      hostWord host.endian store₁.mem (extra.tlv + ManagementTlv.id.offset)
        ManagementTlv.id.width :=
    hostWord_congr _ fun i _ hlt =>
      (confined_mgtDataPostRecv host _ extra le_rfl le_rfl).mem_eq h₃ (Or.inl (by
        simp only [ManagementTlv.data]
        omega))
  rw [hword]
  refine mgtDataPostRecv_formatted host h₃ fun hextra => ?_
  simp only [roundUp]
  omega

theorem organizationExtension_formatted
    (htype : TlvType.ofCode type = some .organizationExtension)
    (hrun : tlvPostRecv host type length extra store = (.ok result, final)) :
    Formatted host.endian type length extra.tlv final.mem := by
  unfold tlvPostRecv at hrun
  unfold Formatted
  simp only [htype] at hrun ⊢
  obtain ⟨hlen, hrun⟩ := ite_fail_eq_ok.mp hrun
  obtain ⟨_, store₁, h₁, hrun⟩ := bind_eq_ok.mp hrun
  obtain ⟨-, rfl⟩ := Prod.mk.inj hrun
  refine ⟨Nat.not_lt.mp hlen, fun hsubtype => ?_⟩
  obtain ⟨subtype, store₂, h₂, h₁⟩ := bind_eq_ok.mp h₁
  obtain ⟨rfl, hmem, -⟩ := (orgSubtype_runs extra.tlv store.mem).eq_of_run h₂
  by_cases hinfo : orgSubtypeOf store.mem extra.tlv = some 1
  · rw [if_pos hinfo] at h₁
    exact not_not.mp (ite_fail_eq_ok.mp h₁).1
  · rw [if_neg hinfo] at h₁
    obtain ⟨-, rfl⟩ := Prod.mk.inj h₁
    exact absurd (hmem ▸ hsubtype) hinfo

/-- The address of a monitoring response has the length of its protocol. -/
theorem ptpmonResp_formatted (htype : TlvType.ofCode type = some .ptpmonResp)
    (hrun : tlvPostRecv host type length extra store = (.ok result, final)) :
    Formatted host.endian type length extra.tlv final.mem := by
  unfold tlvPostRecv at hrun
  unfold Formatted
  simp only [htype] at hrun ⊢
  obtain ⟨hlen, hrun⟩ := ite_fail_eq_ok.mp hrun
  obtain ⟨_, store₁, h₁, hrun⟩ := bind_eq_ok.mp hrun
  obtain ⟨protocol, store₂, h₂, hrun⟩ := bind_eq_ok.mp hrun
  obtain ⟨rfl, rfl⟩ := readField_eq_ok h₂
  cases hexpected : expectedAddressLength (hostWord host.endian store₁.mem
      (extra.tlv + NsmResp.parentAddr + PortAddress.networkProtocol.offset)
      PortAddress.networkProtocol.width) with
  | none => simp [hexpected] at hrun
  | some expected =>
    rw [hexpected] at hrun
    obtain ⟨addressLength, store₃, h₃, hrun⟩ := bind_eq_ok.mp hrun
    obtain ⟨rfl, rfl⟩ := readField_eq_ok h₃
    obtain ⟨hsame, hrun⟩ := ite_fail_eq_ok.mp hrun
    obtain ⟨hexact, hrun⟩ := ite_fail_eq_ok.mp hrun
    obtain ⟨_, store₄, h₄, hrun⟩ := bind_eq_ok.mp hrun
    obtain ⟨-, rfl⟩ := Prod.mk.inj hrun
    have hmem := ((swapNsmRespFoot_runs host _ _ _).eq_of_run h₄).2.1
    have hframe : ∀ i < extra.tlv + 10, store₄.mem i = store₁.mem i := fun i hi => by
      rw [hmem]
      refine swapAll_outside 0 64 (show FieldsWithin 0 64 nsmRespFields by decide)
        (Or.inl ?_) _
      simp only [NsmResp.headSize]
      omega
    have hword : ∀ offset, offset + 2 ≤ extra.tlv + 10 →
        hostWord host.endian store₄.mem offset 2 =
          hostWord host.endian store₁.mem offset 2 := fun offset hoffset =>
      hostWord_congr _ fun i _ hlt => hframe i (by omega)
    refine ⟨?_, ?_⟩
    · rw [hword _ (by omega), hword _ (by omega)]
      exact hexpected.trans (congrArg some (not_not.mp hsame).symm)
    · rw [hword _ (by omega)]
      exact not_not.mp hexact

/-- What is accepted is well formed, in host order; a path trace that is too long is cut
instead. -/
theorem tlvPostRecv_formatted
    (hrun : tlvPostRecv host type length extra store = (.ok result, final))
    (hpath : TlvType.ofCode type = some .pathTrace →
      length / sizeofClockIdentity ≤ pathTraceMax) :
    Formatted host.endian type length extra.tlv final.mem := by
  cases htype : TlvType.ofCode type with
  | none => simp [Formatted, htype]
  | some name =>
    cases name with
    | management => exact management_formatted host htype hrun
    | organizationExtension => exact organizationExtension_formatted host htype hrun
    | ptpmonResp => exact ptpmonResp_formatted host htype hrun
    | pathTrace => simpa only [Formatted, htype] using hpath htype
    | managementErrorStatus =>
      simp only [tlvPostRecv, Formatted, htype] at hrun ⊢
      exact Nat.not_lt.mp (ite_fail_eq_ok.mp hrun).1
    | requestUnicastTransmission | grantUnicastTransmission =>
      simp only [tlvPostRecv, Formatted, htype] at hrun ⊢
      obtain ⟨_, store₁, h₁, hrun⟩ := bind_eq_ok.mp hrun
      obtain ⟨-, rfl⟩ := Prod.mk.inj hrun
      exact unicastTlvPostRecv_formatted host h₁ (by decide)
    | cancelUnicastTransmission | acknowledgeCancelUnicastTransmission =>
      simp only [tlvPostRecv, Formatted, htype] at hrun ⊢
      obtain ⟨_, store₁, h₁, hrun⟩ := bind_eq_ok.mp hrun
      obtain ⟨-, rfl⟩ := Prod.mk.inj hrun
      exact @unicastTlvPostRecv_formatted host length extra.tlv _ [] _ _ h₁ (by decide)
    | _ => simp [Formatted, htype]

end

/-- The form of a TLV depends on its body only. -/
theorem formatted_congr {endian : Endian} {tlv : ℕ} {left right : Memory}
    (hagree : AgreeOn (tlv + 4) (tlv + 4 + length) left right)
    (hformat : Formatted endian type length tlv left) :
    Formatted endian type length tlv right := by
  have hheader : sizeofTlv = 4 := rfl
  have hunicast : ∀ size, 6 ≤ size → UnicastFormatted tlv length size left →
      UnicastFormatted tlv length size right := by
    rintro size hsize ⟨hlen, hvalid⟩
    refine ⟨hlen, ?_⟩
    rwa [← hagree (tlv + UnicastXmitTlv.messageType) (Nat.le_refl _)
      (show tlv + 4 < tlv + 4 + length by omega)]
  unfold Formatted at hformat ⊢
  cases htype : TlvType.ofCode type with
  | none => trivial
  | some name =>
    rw [htype] at hformat
    cases name with
    | management =>
      obtain ⟨hlen, hdata⟩ := hformat
      simp only [ManagementTlv.size, sizeofTlv] at hlen
      refine ⟨hlen, fun hmore => ?_⟩
      rw [← hagree.hostWord endian le_rfl (by omega)]
      refine mgtFormatted_congr (hagree.mono ?_ ?_) (hdata hmore) <;>
        simp only [ManagementTlv.data, ManagementTlv.id] at hmore ⊢ <;> omega
    | managementErrorStatus => exact hformat
    | organizationExtension =>
      obtain ⟨hlen, hinfo⟩ := hformat
      simp only [OrganizationTlv.size, sizeofTlv] at hlen
      refine ⟨hlen, fun hsubtype => hinfo ?_⟩
      rwa [orgSubtypeOf_congr hagree le_rfl (by omega)]
    | requestUnicastTransmission => exact hunicast _ (by decide) hformat
    | grantUnicastTransmission => exact hunicast _ (by decide) hformat
    | cancelUnicastTransmission => exact hunicast _ (by decide) hformat
    | acknowledgeCancelUnicastTransmission => exact hunicast _ (by decide) hformat
    | pathTrace => exact hformat
    | ptpmonResp =>
      obtain ⟨hexpected, hlength⟩ := hformat
      have hlong : 10 ≤ length := by
        simp only [NsmResp.headSize, NsmResp.footSize] at hlength
        omega
      refine ⟨?_, ?_⟩
      · rw [← hagree.hostWord endian (by omega) (by omega),
          ← hagree.hostWord endian (by omega) (by omega)]
        exact hexpected
      · rw [← hagree.hostWord endian (by omega) (by omega)]
        exact hlength
    | _ => trivial

end LinuxPtp.Wire
