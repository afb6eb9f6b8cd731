import LinuxPtp.Wire.Resend

/-!
# The first TLV of a management message

What the parser has checked of the first TLV in the list it leaves behind, also when
it gives up on a later one.  For a management TLV this is the length of the data, as
far as the parser knows the identifier.
-/

namespace LinuxPtp.Wire

open ByteOrder Access

/-- The length that `mgt_post_recv` demands of the data. -/
def fixedSize : ManagementId → Option ℕ
  | .defaultDataSet => some DefaultDS.size
  | .currentDataSet => some CurrentDS.size
  | .parentDataSet => some ParentDS.size
  | .timePropertiesDataSet => some TimePropertiesDS.size
  | .portDataSet => some PortDS.size
  | .timeStatusNp => some TimeStatusNp.size
  | .grandmasterSettingsNp => some GrandmasterSettingsNp.size
  | .portDataSetNp => some PortDsNp.size
  | .subscribeEventsNp => some SubscribeEventsNp.size
  | .saveInNonVolatileStorage | .resetNonVolatileStorage | .initializeTlv
  | .faultLogReset | .enablePort | .disablePort => some 0
  | .clockDescription | .userDescription | .portPropertiesNp => none

/-- A management TLV whose data, if any, has the length that is demanded. -/
def HeadChecked (endian : Endian) (tlv : ℕ) (mem : Memory) : Prop :=
  hostWord endian mem tlv 2 = TlvType.management.code →
    2 ≤ hostWord endian mem (tlv + 2) 2 ∧
      ∀ id size, ManagementId.ofCode (hostWord endian mem (tlv + 4) 2) = some id →
        fixedSize id = some size →
          hostWord endian mem (tlv + 2) 2 = 2 ∨
            hostWord endian mem (tlv + 2) 2 = 2 + size

theorem HeadChecked.congr {endian : Endian} {tlv : ℕ} {left right : Memory}
    (hchecked : HeadChecked endian tlv left)
    (hagree : AgreeOn tlv (tlv + 6) left right) :
    HeadChecked endian tlv right := by
  have hword : ∀ offset, tlv ≤ offset → offset + 2 ≤ tlv + 6 →
      hostWord endian left offset 2 = hostWord endian right offset 2 :=
    fun _ hlo hhi => hagree.hostWord endian hlo hhi
  unfold HeadChecked at *
  rw [← hword tlv le_rfl (by omega), ← hword (tlv + 2) (by omega) (by omega),
    ← hword (tlv + 4) (by omega) (by omega)]
  exact hchecked

/-- Bytes behind the TLV do not matter. -/
theorem HeadChecked.later {endian : Endian} {tlv length : ℕ} {left right : Memory}
    (hchecked : HeadChecked endian tlv left)
    (hagree : AgreeOn tlv (tlv + sizeofTlv + length) left right)
    (hroom : hostWord endian left tlv 2 = TlvType.management.code → 2 ≤ length) :
    HeadChecked endian tlv right := by
  intro htype
  have hsame : hostWord endian left tlv 2 = hostWord endian right tlv 2 :=
    hagree.hostWord endian le_rfl (by simp only [sizeofTlv]; omega)
  have hlength := hroom (hsame.trans htype)
  exact hchecked.congr (hagree.mono le_rfl (by simp only [sizeofTlv]; omega)) htype

section

variable (host : Host)

/-! ## One TLV -/

theorem dataSetPostRecv_size {dataLen size : ℕ} {convert : WireM Unit}
    {extra : TlvExtra} :
    Returns (dataSetPostRecv dataLen size convert extra) fun _ => dataLen = size :=
  .ite (fun _ => .fail _) fun hsize =>
    .bind (.trivial _) fun _ _ => .pure (not_not.mp hsize)

theorem mgtDataPostRecv_fixedSize (number data dataLen : ℕ) (extra : TlvExtra) :
    Returns (mgtDataPostRecv host number data dataLen extra) fun _ =>
      ∀ id size, ManagementId.ofCode number = some id → fixedSize id = some size →
        dataLen = size := by
  unfold mgtDataPostRecv
  cases hid : ManagementId.ofCode number with
  | none => exact .pure (by simp)
  | some id =>
    cases id with
    | clockDescription | userDescription | portPropertiesNp =>
      exact (Returns.trivial _).mono fun _ _ id size hsome hsize => by
        obtain rfl := Option.some.inj hsome
        simp [fixedSize] at hsize
    | _ =>
      exact dataSetPostRecv_size.mono fun _ hlen id size hsome hsize => by
        obtain rfl := Option.some.inj hsome
        obtain rfl := Option.some.inj hsize
        exact hlen

theorem mgtPostRecv_checked {m length : ℕ} {extra result : TlvExtra}
    {store final : Store ParseState} (hlength : 2 ≤ length)
    (hrun : mgtPostRecv host m length (length - ManagementTlv.id.width) extra store =
      (.ok result, final)) :
    (∀ i, i < m + 6 → final.mem i = store.mem i) ∧
      ∀ id size,
        ManagementId.ofCode (hostWord host.endian store.mem (m + 4) 2) = some id →
        fixedSize id = some size → length = 2 + size := by
  obtain ⟨number, store₁, h₁, hrun⟩ := bind_eq_ok.mp hrun
  obtain ⟨hnumber, rfl⟩ := readField_eq_ok h₁
  obtain ⟨data, store₂, h₂, hrun⟩ := bind_eq_ok.mp hrun
  obtain ⟨-, hrun⟩ := ite_fail_eq_ok.mp hrun
  obtain ⟨-, rfl⟩ := Prod.mk.inj hrun
  have hconfined : Confined onBuffer (m + 6) (m + 4 + length)
      (mgtDataPostRecv host number (m + ManagementTlv.data)
        (length - ManagementTlv.id.width) extra) :=
    confined_mgtDataPostRecv host number extra le_rfl (by
      simp only [ManagementTlv.data, ManagementTlv.id]
      omega)
  refine ⟨fun i hi => hconfined.mem_eq h₂ (Or.inl hi), fun id size hid hsize => ?_⟩
  have hlen := mgtDataPostRecv_fixedSize host number _ _ extra h₂ id size
    (by rw [hnumber]; exact hid) hsize
  simp only [ManagementTlv.id] at hlen
  omega

/-- A monitoring response that has been accepted, in host order. -/
theorem nsmRespPostRecv_eq_ok {tlv length : ℕ} {extra result : TlvExtra}
    {store final : Store ParseState}
    (hrun : nsmRespPostRecv host tlv length extra store = (.ok result, final)) :
    expectedAddressLength (hostWord host.endian final.mem (tlv + 6) 2) =
        some (hostWord host.endian final.mem (tlv + 8) 2) ∧
      length = NsmResp.headSize + NsmResp.footSize +
        hostWord host.endian final.mem (tlv + 8) 2 - sizeofTlv ∧
      result.tlv = extra.tlv ∧
      result.foot = some
        (tlv + NsmResp.headSize + hostWord host.endian final.mem (tlv + 8) 2) := by
  obtain ⟨-, hrun⟩ := ite_fail_eq_ok.mp hrun
  obtain ⟨_, store₁, -, hrun⟩ := bind_eq_ok.mp hrun
  obtain ⟨protocol, store₂, h₂, hrun⟩ := bind_eq_ok.mp hrun
  obtain ⟨hprotocol, rfl⟩ := readField_eq_ok h₂
  cases hexpected : expectedAddressLength protocol with
  | none => simp [hexpected] at hrun
  | some expected =>
    simp only [hexpected] at hrun
    obtain ⟨addressLength, store₃, h₃, hrun⟩ := bind_eq_ok.mp hrun
    obtain ⟨hlength, rfl⟩ := readField_eq_ok h₃
    obtain ⟨hsame, hrun⟩ := ite_fail_eq_ok.mp hrun
    obtain ⟨hexact, hrun⟩ := ite_fail_eq_ok.mp hrun
    obtain ⟨_, store₄, h₄, hrun⟩ := bind_eq_ok.mp hrun
    obtain ⟨hresult, rfl⟩ := Prod.mk.inj hrun
    have hconfined : Confined onBuffer (tlv + 10) (tlv + 10 + addressLength + 64)
        (swapNsmRespFoot host (tlv + NsmResp.headSize + addressLength)
          nsmRespFootFields) :=
      confined_swapNsmRespFoot host (by decide) (Nat.le_add_right _ _) le_rfl
    have hword : ∀ offset, offset + 2 ≤ tlv + 10 →
        hostWord host.endian store₄.mem offset 2 =
          hostWord host.endian store₁.mem offset 2 := fun offset hoffset =>
      hostWord_congr _ fun i _ hlt => hconfined.mem_eq h₄ (Or.inl (by omega))
    have hcount : hostWord host.endian store₄.mem (tlv + 8) 2 = addressLength :=
      (hword (tlv + 8) (by omega)).trans hlength.symm
    have hcode : hostWord host.endian store₄.mem (tlv + 6) 2 = protocol :=
      (hword (tlv + 6) (by omega)).trans hprotocol.symm
    rw [hcount, hcode, hexpected, not_not.mp hsame]
    obtain rfl := Except.ok.inj hresult
    exact ⟨rfl, (not_not.mp hsame) ▸ not_not.mp hexact, rfl, by rw [not_not.mp hsame]⟩

/-- A TLV that has been accepted, in host order. -/
theorem tlvPostRecv_checked {extra result : TlvExtra} {length : ℕ}
    {store final : Store ParseState}
    (hlength : hostWord host.endian store.mem (extra.tlv + 2) 2 = length)
    (hrun : tlvPostRecv host (hostWord host.endian store.mem extra.tlv 2) length
      extra store = (.ok result, final)) :
    HeadChecked host.endian extra.tlv final.mem ∧
      (hostWord host.endian final.mem extra.tlv 2 = TlvType.management.code →
        2 ≤ length) := by
  subst hlength
  rw [HeadChecked, ← forall_and]
  intro htype
  have hkept : hostWord host.endian final.mem extra.tlv 2 =
      hostWord host.endian store.mem extra.tlv 2 :=
    hostWord_congr _ fun i _ hi => tlvPostRecv_outside host hrun (Or.inl hi)
  rw [← hkept, htype] at hrun
  obtain ⟨hlong, hrun⟩ := ite_fail_eq_ok.mp hrun
  obtain ⟨_, store₁, h₁, hrun⟩ := bind_eq_ok.mp hrun
  obtain rfl := swapFields_eq_ok h₁
  have hheader : ∀ i, i < extra.tlv + 4 →
      swapAll host.endian extra.tlv [ManagementTlv.id] store.mem i = store.mem i :=
    fun i hi => swapAll_outside 4 6 (by decide) (Or.inl hi) store.mem
  have hlengthKept : ∀ mem : Memory, (∀ i, i < extra.tlv + 4 → mem i = store.mem i) →
      hostWord host.endian mem (extra.tlv + 2) 2 =
        hostWord host.endian store.mem (extra.tlv + 2) 2 := fun mem hmem =>
    hostWord_congr _ fun i _ hi => hmem i (by omega)
  have hlong : 2 ≤ hostWord host.endian store.mem (extra.tlv + 2) 2 := by
    simp only [ManagementTlv.size, sizeofTlv] at hlong
    omega
  split at hrun
  · obtain ⟨hframe, hsize⟩ := mgtPostRecv_checked host hlong hrun
    have hsame : hostWord host.endian final.mem (extra.tlv + 2) 2 =
        hostWord host.endian store.mem (extra.tlv + 2) 2 :=
      hlengthKept _ fun i hi => (hframe i (by omega)).trans (hheader i hi)
    have hid : hostWord host.endian final.mem (extra.tlv + 4) 2 =
        hostWord host.endian
          (swapAll host.endian extra.tlv [ManagementTlv.id] store.mem)
          (extra.tlv + 4) 2 :=
      hostWord_congr _ fun i _ hi => hframe i (by omega)
    rw [hsame, hid]
    exact ⟨⟨hlong, fun id size hknown hfixed =>
      Or.inr (hsize id size hknown hfixed)⟩, hlong⟩
  · rename_i hshort
    obtain ⟨-, rfl⟩ := Prod.mk.inj hrun
    have hsame := hlengthKept _ hheader
    simp only [ManagementTlv.id] at hshort
    simp only [hsame]
    exact ⟨⟨hlong, fun _ _ _ _ => Or.inl (by omega)⟩, hlong⟩

theorem suffixTlvPostRecv_checked {ptr len : ℕ} {tlv : TlvExtra × ℕ}
    {store final : Store ParseState}
    (hrun : suffixTlvPostRecv host ptr len store = (.ok tlv, final)) :
    HeadChecked host.endian ptr final.mem ∧
      (hostWord host.endian final.mem ptr 2 = TlvType.management.code →
        2 ≤ tlv.2) := by
  obtain ⟨hlength, -, -, -, spans, hpost⟩ := suffixTlvPostRecv_eq_ok host hrun
  have htype : hostWord host.endian
      (swapAll host.endian ptr tlvHeader store.mem) ptr 2 = netWord store.mem ptr 2 :=
    hostWord_swapAll ptr Tlv.type tlvHeader_disjoint (by decide) store.mem
  have hlen : hostWord host.endian
      (swapAll host.endian ptr tlvHeader store.mem) (ptr + 2) 2 =
        netWord store.mem (ptr + 2) 2 :=
    hostWord_swapAll ptr Tlv.length tlvHeader_disjoint (by decide) store.mem
  rw [← htype] at hpost
  exact @tlvPostRecv_checked host { tlv := ptr } tlv.1 tlv.2
    ⟨swapAll host.endian ptr tlvHeader store.mem, spans, store.rest⟩ final
    (hlen.trans hlength.symm) hpost

/-! ## The list -/

/-- The TLV list is empty, or its first TLV lies at `ptr` and has been checked. -/
def FirstChecked (endian : Endian) (ptr : ℕ) (store : Store ParseState) : Prop :=
  store.rest.tlvList = [] ∨
    ∃ first rest, store.rest.tlvList = first :: rest ∧ first.tlv = ptr ∧
      HeadChecked endian ptr store.mem

theorem tlvExtraAlloc_tlvList (store : Store ParseState) :
    (tlvExtraAlloc host store).2.rest.tlvList = store.rest.tlvList := by
  simp only [tlvExtraAlloc, getRest, bind_run]
  split
  · rfl
  · simp only [bind_run, modifyRest_run]
    split <;> rfl

/-- Whatever becomes of the loop, the first TLV in its list has been checked. -/
theorem suffixLoop_firstChecked {rounds ptr len : ℕ} {store : Store ParseState}
    (hrounds : len < rounds) (hempty : store.rest.tlvList = []) :
    FirstChecked host.endian ptr (suffixLoop host rounds ptr len store).2 := by
  obtain ⟨rounds, rfl⟩ : ∃ less, rounds = less + 1 := ⟨rounds - 1, by omega⟩
  rw [suffixLoop]
  by_cases hmore : len < sizeofTlv
  · rw [if_pos hmore]
    exact Or.inl hempty
  rw [if_neg hmore, bind_run]
  have hlist := tlvExtraAlloc_tlvList host store
  rcases halloc : tlvExtraAlloc host store with ⟨err | _, store₁⟩
  · exact Or.inl (by rw [halloc] at hlist; exact hlist.trans hempty)
  simp only
  rw [bind_run]
  have hstart : store₁.rest.tlvList = [] := by
    rw [halloc] at hlist
    exact hlist.trans hempty
  have hround : Confined onBuffer ptr (ptr + len) (suffixTlvPostRecv host ptr len) :=
    confined_suffixTlvPostRecv host le_rfl (not_lt.mp hmore) le_rfl
  have hrest := hround.updates store₁
  rcases hrun : suffixTlvPostRecv host ptr len store₁ with ⟨err | tlv, store₂⟩
  · rw [hrun] at hrest
    simp only [onFail, hrun]
    exact Or.inl (by rw [ParseState.recycle, ← hrest]; exact hstart)
  simp only [onFail, hrun]
  rw [hrun] at hrest
  have hattached : store₂.rest.tlvList = [] := by rw [← hrest]; exact hstart
  obtain ⟨-, -, hfits, htlv, -⟩ := suffixTlvPostRecv_eq_ok host hrun
  obtain ⟨hchecked, hroom⟩ := suffixTlvPostRecv_checked host hrun
  rw [bind_run, msgTlvAttach, modifyRest_run]
  simp only
  simp only [sizeofTlv] at hmore hfits
  have hlater : Confined whileParsing (ptr + sizeofTlv + tlv.2) (ptr + len)
      (suffixLoop host rounds (ptr + sizeofTlv + tlv.2) (len - sizeofTlv - tlv.2)) :=
    confined_suffixLoop host (by simp only [sizeofTlv]; omega) le_rfl
      (by simp only [sizeofTlv]; omega)
  let store₃ : Store ParseState := ⟨store₂.mem, store₂.spans,
    { store₂.rest with tlvList := store₂.rest.tlvList ++ [tlv.1] }⟩
  obtain ⟨later, hlist⟩ := hlater.updates store₃
  have hframe : AgreeOn ptr (ptr + sizeofTlv + tlv.2) store₂.mem
      (suffixLoop host rounds (ptr + sizeofTlv + tlv.2) (len - sizeofTlv - tlv.2)
        store₃).2.mem :=
    fun i _ hi => (hlater.frame store₃ i (Or.inl hi)).symm
  have hfirst : store₃.rest.tlvList = [tlv.1] := by
    simp only [store₃, hattached, List.nil_append]
  rw [hfirst] at hlist
  exact Or.inr ⟨tlv.1, later, hlist.symm, htlv, hchecked.later hframe hroom⟩

/-- The same for a whole management message. -/
theorem ptpMsgReceive_firstChecked {store : Store ParseState}
    (htype : typeOf store.mem = some .management)
    (hempty : store.rest.tlvList = []) (cnt : ℕ) :
    FirstChecked host.endian 48 (ptpMsgReceive host cnt store).2 := by
  by_cases hsize : cnt < Header.size
  · rw [ptpMsgReceive, if_pos hsize]
    exact Or.inl hempty
  by_cases hversion : versionOf store.mem = version
  swap
  · rw [ptpMsgReceive, if_neg hsize, bind_run, hdrPostRecv_refuses host hversion]
    exact Or.inl hempty
  by_cases hpdu : MsgType.management.pduLength ≤ cnt
  · obtain ⟨spans, hreceive⟩ := ptpMsgReceive_run host hversion htype hpdu
    rw [hreceive, bind_run, bodyPostRecv, portIdPostRecv, swapFields_run]
    exact suffixLoop_firstChecked host (Nat.lt_succ_self _) hempty
  · rw [ptpMsgReceive, if_neg hsize, bind_run, hdrPostRecv_run host hversion]
    simp only
    rw [bind_run, msgType_run]
    simp only
    rw [swapAll_outside 2 32 (by decide) (by omega)]
    rw [typeOf] at htype
    simp only [htype]
    rw [if_pos (not_le.mp hpdu)]
    exact Or.inl hempty

end

end LinuxPtp.Wire
