import LinuxPtp.Wire.ParseBounds

/-!
# The TLV list of a received message

A successful run of the parser is taken apart here, TLV by TLV.  The list it
leaves behind tiles an initial part of the bytes behind the body.
-/

namespace LinuxPtp.Wire

open ByteOrder Access

/-! ## Tiling -/

/-- Length of the body of a TLV as found on the wire. -/
def wireLength (mem : Memory) (extra : TlvExtra) : ℕ :=
  netWord mem (extra.tlv + Tlv.length.offset) Tlv.length.width

def wireEnd (mem : Memory) (extra : TlvExtra) : ℕ :=
  extra.tlv + sizeofTlv + wireLength mem extra

/-- TLVs of even length that follow each other without a gap from `lo` on and
end by `hi`. -/
def Tiles (mem : Memory) (hi : ℕ) : ℕ → List TlvExtra → Prop
  | lo, [] => lo ≤ hi
  | lo, extra :: rest =>
      extra.tlv = lo ∧ wireLength mem extra % 2 = 0 ∧
        Tiles mem hi (wireEnd mem extra) rest

/-- The TLVs of a message, by their lengths on the wire: without gaps from the
end of the body on, pairwise disjoint, of even length, and inside the bytes
received. -/
structure WellPlaced (mem : Memory) (pdulen cnt : ℕ)
    (tlvs : List TlvExtra) : Prop where
  starts : ∀ first ∈ tlvs.head?, first.tlv = pdulen
  contiguous : tlvs.IsChain fun left right => right.tlv = wireEnd mem left
  disjoint : tlvs.Pairwise fun left right => wireEnd mem left ≤ right.tlv
  even : ∀ extra ∈ tlvs, wireLength mem extra % 2 = 0
  inside : ∀ extra ∈ tlvs, pdulen ≤ extra.tlv ∧ wireEnd mem extra ≤ cnt

namespace Tiles

variable {mem : Memory} {hi lo : ℕ} {tlvs : List TlvExtra}

theorem le (htiles : Tiles mem hi lo tlvs) : lo ≤ hi := by
  induction tlvs generalizing lo with
  | nil => exact htiles
  | cons extra rest ih =>
    obtain ⟨hstart, -, hrest⟩ := htiles
    have := ih hrest
    unfold wireEnd at this
    omega

theorem lo_le_of_mem (htiles : Tiles mem hi lo tlvs) {extra : TlvExtra}
    (hextra : extra ∈ tlvs) : lo ≤ extra.tlv := by
  induction tlvs generalizing lo with
  | nil => simp at hextra
  | cons first rest ih =>
    obtain ⟨hstart, -, hrest⟩ := htiles
    rcases List.mem_cons.mp hextra with rfl | hextra
    · exact hstart.ge
    · have := ih hrest hextra
      unfold wireEnd at this
      omega

theorem wireEnd_le_of_mem (htiles : Tiles mem hi lo tlvs) {extra : TlvExtra}
    (hextra : extra ∈ tlvs) : wireEnd mem extra ≤ hi := by
  induction tlvs generalizing lo with
  | nil => simp at hextra
  | cons first rest ih =>
    obtain ⟨-, -, hrest⟩ := htiles
    rcases List.mem_cons.mp hextra with rfl | hextra
    · exact hrest.le
    · exact ih hrest hextra

theorem even_of_mem (htiles : Tiles mem hi lo tlvs) {extra : TlvExtra}
    (hextra : extra ∈ tlvs) : wireLength mem extra % 2 = 0 := by
  induction tlvs generalizing lo with
  | nil => simp at hextra
  | cons first rest ih =>
    obtain ⟨-, heven, hrest⟩ := htiles
    rcases List.mem_cons.mp hextra with rfl | hextra
    · exact heven
    · exact ih hrest hextra

/-- TLVs that tile a message do not overlap, -/
theorem pairwise (htiles : Tiles mem hi lo tlvs) :
    tlvs.Pairwise fun left right => wireEnd mem left ≤ right.tlv := by
  induction tlvs generalizing lo with
  | nil => exact List.Pairwise.nil
  | cons first rest ih =>
    obtain ⟨-, -, hrest⟩ := htiles
    exact List.pairwise_cons.mpr
      ⟨fun other hother => hrest.lo_le_of_mem hother, ih hrest⟩

theorem head?_tlv (htiles : Tiles mem hi lo tlvs) :
    ∀ first ∈ tlvs.head?, first.tlv = lo := by
  cases tlvs with
  | nil => simp
  | cons first rest => simpa using htiles.1

/-- and leave no gap. -/
theorem contiguous (htiles : Tiles mem hi lo tlvs) :
    tlvs.IsChain fun left right => right.tlv = wireEnd mem left := by
  induction tlvs generalizing lo with
  | nil => exact .nil
  | cons first rest ih =>
    obtain ⟨-, -, hrest⟩ := htiles
    cases rest with
    | nil => exact .singleton first
    | cons second rest => exact .cons_cons hrest.1 (ih hrest)

/-- Tiling depends on the bytes of the TLVs. -/
theorem congr {mem' : Memory} (hagree : AgreeOn lo hi mem mem')
    (htiles : Tiles mem hi lo tlvs) : Tiles mem' hi lo tlvs := by
  induction tlvs generalizing lo with
  | nil => exact htiles
  | cons first rest ih =>
    obtain ⟨hstart, heven, hrest⟩ := htiles
    have hend := hrest.le
    have hlength : wireLength mem' first = wireLength mem first := by
      unfold wireLength
      unfold wireEnd sizeofTlv at hend
      refine netWord_congr fun i hge hlt => (hagree i ?_ ?_).symm
      · omega
      · simp only [Tlv.length] at hlt
        omega
    refine ⟨hstart, by rwa [hlength], ?_⟩
    unfold wireEnd
    rw [hlength]
    refine ih (hagree.mono ?_ le_rfl) hrest
    omega

theorem wellPlaced (htiles : Tiles mem hi lo tlvs) :
    WellPlaced mem lo hi tlvs where
  starts := htiles.head?_tlv
  contiguous := htiles.contiguous
  disjoint := htiles.pairwise
  even _ hextra := htiles.even_of_mem hextra
  inside _ hextra :=
    ⟨htiles.lo_le_of_mem hextra, htiles.wireEnd_le_of_mem hextra⟩

end Tiles

section

variable (host : Host)

/-! ## One TLV -/

theorem mgtDataPostRecv_tlv (id data dataLen : ℕ) (extra : TlvExtra) :
    Returns (mgtDataPostRecv host id data dataLen extra) fun result =>
      result.1.tlv = extra.tlv := by
  have hdata : ∀ size convert, Returns
      (dataSetPostRecv dataLen size convert extra) fun result =>
        result.1.tlv = extra.tlv := fun size convert =>
    .ite (fun _ => .fail _) fun _ => .bind (.trivial _) fun _ _ => .pure rfl
  unfold mgtDataPostRecv
  split
  case h_1 => exact .bind (.trivial _) fun _ _ => .pure rfl
  case h_2 =>
    exact .ite (fun _ => .fail _) fun _ => .bind (.trivial _) fun _ _ => .pure rfl
  case h_12 =>
    exact .ite (fun _ => .fail _) fun _ => .bind (.trivial _) fun _ _ =>
      .bind (.trivial _) fun _ _ => .pure rfl
  case h_19 => exact .pure rfl
  all_goals exact hdata _ _

/-- The parser does not move a TLV. -/
theorem mgtPostRecv_tlv (m length dataLen : ℕ) (extra : TlvExtra) :
    Returns (mgtPostRecv host m length dataLen extra) fun result =>
      result.tlv = extra.tlv := by
  refine .bind (.trivial _) fun id _ => ?_
  refine .bind (mgtDataPostRecv_tlv host id _ dataLen extra) fun result hresult => ?_
  exact .ite (fun _ => .fail _) fun _ => .pure hresult

theorem nsmRespPostRecv_tlv (tlv length : ℕ) (extra : TlvExtra) :
    Returns (nsmRespPostRecv host tlv length extra) fun result =>
      result.tlv = extra.tlv := by
  refine .ite (fun _ => .fail _) fun _ => ?_
  refine .bind (.trivial _) fun _ _ => .bind (.trivial _) fun protocol _ => ?_
  split
  · exact .fail _
  refine .bind (.trivial _) fun _ _ => ?_
  refine .ite (fun _ => .fail _) fun _ => .ite (fun _ => .fail _) fun _ => ?_
  exact .bind (.trivial _) fun _ _ => .pure rfl

/-- The descriptor keeps pointing at its TLV. -/
theorem tlvPostRecv_tlv (type length : ℕ) (extra : TlvExtra) :
    Returns (tlvPostRecv host type length extra) fun result =>
      result.tlv = extra.tlv := by
  unfold tlvPostRecv
  split
  case h_1 =>
    refine .ite (fun _ => .fail _) fun _ => .bind (.trivial _) fun _ _ => ?_
    exact .ite (fun _ => mgtPostRecv_tlv host _ _ _ extra) fun _ => .pure rfl
  case h_2 | h_3 =>
    exact .ite (fun _ => .fail _) fun _ => .bind (.trivial _) fun _ _ => .pure rfl
  case h_4 | h_5 | h_6 | h_7 => exact .bind (.trivial _) fun _ _ => .pure rfl
  case h_8 =>
    exact .ite (fun _ => .bind (.trivial _) fun _ _ => .pure rfl) fun _ => .pure rfl
  case h_9 => exact nsmRespPostRecv_tlv host _ _ extra
  case h_10 => exact .pure rfl

/-- To parse a TLV changes nothing outside it. -/
theorem tlvPostRecv_outside {type length : ℕ} {extra result : TlvExtra}
    {store final : Store ParseState}
    (hrun : tlvPostRecv host type length extra store = (.ok result, final))
    {i : ℕ}
    (houtside : i < extra.tlv + 2 ∨ extra.tlv + sizeofTlv + length ≤ i) :
    final.mem i = store.mem i :=
  (confined_tlvPostRecv host (by omega) (fun _ => le_rfl) le_rfl).mem_eq hrun
    houtside

/-- Nor does it take a descriptor. -/
theorem tlvPostRecv_rest {type length : ℕ} {extra result : TlvExtra}
    {store final : Store ParseState}
    (hrun : tlvPostRecv host type length extra store = (.ok result, final)) :
    final.rest = store.rest := by
  have hconfined : Confined onBuffer extra.tlv (extra.tlv + sizeofTlv + length)
      (tlvPostRecv host type length extra) :=
    confined_tlvPostRecv host (by omega) (fun _ => by omega) le_rfl
  have hrest := hconfined.updates store
  rw [hrun] at hrest
  exact hrest.symm

def tlvHeader : List Field := [Tlv.type, Tlv.length]

theorem tlvHeader_disjoint : tlvHeader.Pairwise Field.Disjoint := by
  decide

/-- A successful round over the TLV at `ptr`: its type and length are those on
the wire, the length is even and fits, and `tlv_post_recv` accepts it. -/
theorem suffixTlvPostRecv_eq_ok {ptr len : ℕ} {tlv : TlvExtra × ℕ}
    {store final : Store ParseState}
    (hrun : suffixTlvPostRecv host ptr len store = (.ok tlv, final)) :
    tlv.2 = netWord store.mem (ptr + 2) 2 ∧ tlv.2 % 2 = 0 ∧
      tlv.2 ≤ len - sizeofTlv ∧ tlv.1.tlv = ptr ∧
      ∃ spans, tlvPostRecv host (netWord store.mem ptr 2) tlv.2 { tlv := ptr }
          ⟨swapAll host.endian ptr tlvHeader store.mem, spans, store.rest⟩ =
        (.ok tlv.1, final) := by
  obtain ⟨_, store₁, h₁, hrun⟩ := bind_eq_ok.mp hrun
  obtain rfl := swapFields_eq_ok h₁
  obtain ⟨type, store₂, h₂, hrun⟩ := bind_eq_ok.mp hrun
  obtain ⟨htype, rfl⟩ := readField_eq_ok h₂
  obtain ⟨length, store₃, h₃, hrun⟩ := bind_eq_ok.mp hrun
  obtain ⟨hlength, rfl⟩ := readField_eq_ok h₃
  obtain ⟨heven, hrun⟩ := ite_fail_eq_ok.mp hrun
  obtain ⟨hfits, hrun⟩ := ite_fail_eq_ok.mp hrun
  obtain ⟨extra, store₄, hpost, hrun⟩ := bind_eq_ok.mp hrun
  obtain ⟨hvalue, rfl⟩ := Prod.mk.inj hrun
  obtain rfl := Except.ok.inj hvalue
  obtain rfl : type = netWord store.mem ptr 2 := htype.trans
    (hostWord_swapAll _ Tlv.type tlvHeader_disjoint (by decide) _)
  obtain rfl : length = netWord store.mem (ptr + 2) 2 := hlength.trans
    (hostWord_swapAll _ Tlv.length tlvHeader_disjoint (by decide) _)
  exact ⟨rfl, by simp only; omega, by simp only; omega,
    tlvPostRecv_tlv host _ _ _ hpost, _, hpost⟩

/-- Bytes outside the TLV at `ptr` are left alone by its round. -/
theorem suffixTlvPostRecv_outside {ptr len : ℕ} {tlv : TlvExtra × ℕ}
    {store final : Store ParseState}
    (hrun : suffixTlvPostRecv host ptr len store = (.ok tlv, final)) {i : ℕ}
    (houtside : i < ptr ∨ ptr + sizeofTlv + tlv.2 ≤ i) :
    final.mem i = store.mem i := by
  obtain ⟨-, -, -, -, spans, hpost⟩ := suffixTlvPostRecv_eq_ok host hrun
  have hbody := tlvPostRecv_outside host hpost (i := i) (by simp only; omega)
  refine hbody.trans (swapAll_outside 0 4 (by decide)
    ?_ store.mem)
  simp only [sizeofTlv] at houtside
  omega

theorem suffixTlvPostRecv_rest {ptr len : ℕ} {tlv : TlvExtra × ℕ}
    {store final : Store ParseState}
    (hrun : suffixTlvPostRecv host ptr len store = (.ok tlv, final)) :
    final.rest = store.rest := by
  obtain ⟨-, -, -, -, spans, hpost⟩ := suffixTlvPostRecv_eq_ok host hrun
  have hrest := tlvPostRecv_rest host hpost
  exact hrest

/-- To take a descriptor changes neither the bytes nor the list. -/
theorem tlvExtraAlloc_eq_ok {store final : Store ParseState} {value : Unit}
    (hrun : tlvExtraAlloc host store = (.ok value, final)) :
    final.mem = store.mem ∧ final.rest.tlvList = store.rest.tlvList := by
  obtain ⟨state, store₁, h₁, hrun⟩ := bind_eq_ok.mp hrun
  obtain ⟨hstate, rfl⟩ := Prod.mk.inj h₁
  obtain rfl := Except.ok.inj hstate
  split at hrun
  · obtain ⟨-, rfl⟩ := Prod.mk.inj hrun
    exact ⟨rfl, rfl⟩
  · obtain ⟨_, store₂, h₂, hrun⟩ := bind_eq_ok.mp hrun
    obtain ⟨-, rfl⟩ := Prod.mk.inj h₂
    split at hrun
    · obtain ⟨-, rfl⟩ := Prod.mk.inj hrun
      exact ⟨rfl, rfl⟩
    · simp at hrun

/-! ## The whole list -/

/-- One round of a finished loop: a descriptor is found for the TLV at `ptr`,
the TLV is accepted, and the loop goes on behind it. -/
theorem suffixLoop_eq_ok {rounds ptr len : ℕ} {store final : Store ParseState}
    (hrun : suffixLoop host (rounds + 1) ptr len store = (.ok (), final))
    (hmore : ¬len < sizeofTlv) :
    ∃ tlv store₁ store₂, store₁.mem = store.mem ∧
      suffixTlvPostRecv host ptr len store₁ = (.ok tlv, store₂) ∧
      (∀ i, i < ptr ∨ ptr + sizeofTlv + tlv.2 ≤ i →
        store₂.mem i = store.mem i) ∧
      ptr + sizeofTlv + tlv.2 + (len - sizeofTlv - tlv.2) = ptr + len ∧
      ∃ store₃, store₃.mem = store₂.mem ∧
        store₃.rest.tlvList = store.rest.tlvList ++ [tlv.1] ∧
        suffixLoop host rounds (ptr + sizeofTlv + tlv.2)
          (len - sizeofTlv - tlv.2) store₃ = (.ok (), final) := by
  rw [suffixLoop, if_neg hmore] at hrun
  obtain ⟨_, store₁, h₁, hrun⟩ := bind_eq_ok.mp hrun
  obtain ⟨hmem₁, hlist₁⟩ := tlvExtraAlloc_eq_ok host h₁
  obtain ⟨tlv, store₂, h₂, hrun⟩ := bind_eq_ok.mp hrun
  have h₂ := onFail_eq_ok.mp h₂
  obtain ⟨_, store₃, h₃, hrun⟩ := bind_eq_ok.mp hrun
  obtain rfl := modifyRest_eq_ok h₃
  have hrest := suffixTlvPostRecv_rest host h₂
  obtain ⟨-, -, hfits, -, -⟩ := suffixTlvPostRecv_eq_ok host h₂
  refine ⟨tlv, store₁, store₂, hmem₁, h₂, fun i hi => ?_, ?_, _, ?_, ?_, hrun⟩
  · rw [suffixTlvPostRecv_outside host h₂ hi, hmem₁]
  · simp only [sizeofTlv] at *
    omega
  · rfl
  · simp only [hrest, hlist₁]

/-- A finished loop leaves the bytes outside its range alone. -/
theorem suffixLoop_outside {rounds ptr len : ℕ} {store final : Store ParseState}
    (hrun : suffixLoop host rounds ptr len store = (.ok (), final)) {i : ℕ}
    (houtside : i < ptr ∨ ptr + len ≤ i) : final.mem i = store.mem i := by
  induction rounds generalizing ptr len store with
  | zero => simp [suffixLoop] at hrun
  | succ rounds ih =>
    by_cases hmore : len < sizeofTlv
    · rw [suffixLoop, if_pos hmore] at hrun
      obtain ⟨-, rfl⟩ := Prod.mk.inj hrun
      rfl
    · obtain ⟨tlv, store₁, store₂, -, -, hframe, hspan, store₃, hmem₃, -, hrun⟩ :=
        suffixLoop_eq_ok host hrun hmore
      rw [ih hrun (by omega), hmem₃, hframe i (by omega)]

/-- What a finished loop appends to the TLV list tiles the bytes it was given,
by the lengths on the wire. -/
theorem suffixLoop_tiles {rounds ptr len : ℕ} {store final : Store ParseState}
    (hrun : suffixLoop host rounds ptr len store = (.ok (), final)) :
    ∃ tlvs, final.rest.tlvList = store.rest.tlvList ++ tlvs ∧
      Tiles store.mem (ptr + len) ptr tlvs := by
  induction rounds generalizing ptr len store with
  | zero => simp [suffixLoop] at hrun
  | succ rounds ih =>
    by_cases hmore : len < sizeofTlv
    · rw [suffixLoop, if_pos hmore] at hrun
      obtain ⟨-, rfl⟩ := Prod.mk.inj hrun
      exact ⟨[], (List.append_nil _).symm, Nat.le_add_right _ _⟩
    · obtain ⟨tlv, store₁, store₂, hmem₁, h₂, hbehind, hspan, store₃, hmem₃,
        hlist₃, hrun⟩ := suffixLoop_eq_ok host hrun hmore
      obtain ⟨tlvs, hlist, htiles⟩ := ih hrun
      obtain ⟨hlength, heven, -, hextra, -⟩ := suffixTlvPostRecv_eq_ok host h₂
      have hwire : wireLength store.mem tlv.1 = tlv.2 := by
        rw [wireLength, hextra, ← hmem₁, hlength]
        rfl
      refine ⟨tlv.1 :: tlvs, ?_, hextra, hwire ▸ heven, ?_⟩
      · rw [hlist, hlist₃, List.append_assoc, List.singleton_append]
      · rw [wireEnd, hwire, hextra, ← hspan]
        refine htiles.congr fun i hge _ => ?_
        rw [hmem₃]
        exact hbehind i (Or.inr hge)

/-! ## Whole messages -/

def headerFields : List Field :=
  [Header.messageLength, Header.correction, Header.portNumber,
    Header.sequenceId]

def bodyFields : MsgType → List Field
  | .sync | .delayReq | .pdelayReq | .followUp => []
  | .pdelayResp | .delayResp | .pdelayRespFollowUp =>
      [RequestingPort.portNumber]
  | .announce =>
      [Announce.currentUtcOffset, Announce.offsetScaledLogVariance,
        Announce.stepsRemoved]
  | .signaling | .management => [TargetPort.portNumber]

/-- A message of the given type as it stands before its TLVs are parsed. -/
def fixedPart (endian : Endian) (type : MsgType) (mem : Memory) : Memory :=
  swapAll endian 0 (bodyFields type) (swapAll endian 0 headerFields mem)

/-- The first two bytes need no conversion. -/
theorem fixedPart_outside (endian : Endian) (type : MsgType) (mem : Memory)
    {i : ℕ} (houtside : i = 0 ∨ i = 1 ∨ type.pduLength ≤ i) :
    fixedPart endian type mem i = mem i := by
  have hpdu : 44 ≤ type.pduLength := by cases type <;> decide
  have hbody : FieldsWithin 42 type.pduLength (bodyFields type) := by
    cases type <;> decide
  rw [fixedPart, swapAll_outside _ _ hbody (by omega)]
  exact swapAll_outside 2 32 (by decide) (by omega) mem

theorem timestampPostRecv_eq_ok {ts : ℕ} {store final : Store ParseState}
    {value : Unit}
    (hrun : timestampPostRecv host ts store = (.ok value, final)) :
    final.mem = store.mem ∧ final.rest.tlvList = store.rest.tlvList ∧
      final.rest.pool = store.rest.pool := by
  obtain ⟨_, store₁, h₁, hrun⟩ := bind_eq_ok.mp hrun
  obtain ⟨-, rfl⟩ := readField_eq_ok h₁
  obtain ⟨_, store₂, h₂, hrun⟩ := bind_eq_ok.mp hrun
  obtain ⟨-, rfl⟩ := readField_eq_ok h₂
  obtain ⟨_, store₃, h₃, hrun⟩ := bind_eq_ok.mp hrun
  obtain ⟨-, rfl⟩ := readField_eq_ok h₃
  obtain rfl := modifyRest_eq_ok hrun
  exact ⟨rfl, rfl, rfl⟩

/-- To parse the body converts its fields. -/
theorem bodyPostRecv_eq_ok {type : MsgType} {store final : Store ParseState}
    {value : Unit} (hrun : bodyPostRecv host type store = (.ok value, final)) :
    final.mem = swapAll host.endian 0 (bodyFields type) store.mem ∧
      final.rest.tlvList = store.rest.tlvList ∧
      final.rest.pool = store.rest.pool := by
  have hresponse : ∀ {store : Store ParseState} fields, (do
        timestampPostRecv host WireTimestamp.offset
        swapFields host 0 fields : WireM Unit) store = (.ok value, final) →
      final.mem = swapAll host.endian 0 fields store.mem ∧
        final.rest.tlvList = store.rest.tlvList ∧
        final.rest.pool = store.rest.pool := by
    intro store fields hrun
    obtain ⟨_, store₁, h₁, hrun⟩ := bind_eq_ok.mp hrun
    obtain ⟨hmem, hrest⟩ := timestampPostRecv_eq_ok host h₁
    obtain rfl := swapFields_eq_ok hrun
    exact ⟨by simp only [hmem], hrest⟩
  cases type with
  | sync | followUp => exact timestampPostRecv_eq_ok host hrun
  | delayReq | pdelayReq =>
    obtain ⟨-, rfl⟩ := Prod.mk.inj hrun
    exact ⟨rfl, rfl, rfl⟩
  | pdelayResp | delayResp | pdelayRespFollowUp => exact hresponse _ hrun
  | announce =>
    obtain ⟨_, store₁, h₁, hrun⟩ := bind_eq_ok.mp hrun
    obtain rfl := modifyRest_eq_ok h₁
    have hannounce := hresponse (bodyFields .announce) hrun
    exact hannounce
  | signaling | management =>
    obtain rfl := swapFields_eq_ok hrun
    exact ⟨rfl, rfl, rfl⟩

def typeOf (mem : Memory) : Option MsgType :=
  MsgType.ofCode ((mem 0).toNat % 16)

theorem msgType_run (store : Store ParseState) :
    msgType store = (.ok ((store.mem 0).toNat % 16),
      { store with spans := ⟨0, 1⟩ :: store.spans }) := by
  simp [msgType, bind_run, readByte, readWord, hostWord, bytesAt, Header.tsmt,
    Endian.value, bigValue]

/-- The version of the protocol, from the low half of the second byte. -/
def versionOf (mem : Memory) : ℕ :=
  (mem 1).toNat % (versionMask + 1)

/-- An accepted message has a known type and room for its body, and its TLVs
are parsed from the fixed part as converted. -/
theorem ptpMsgReceive_eq_ok {cnt : ℕ} {store final : Store ParseState}
    (hrun : ptpMsgReceive host cnt store = (.ok (), final)) :
    versionOf store.mem = version ∧
    ∃ type, typeOf store.mem = some type ∧ type.pduLength ≤ cnt ∧
      ∃ store', store'.mem = fixedPart host.endian type store.mem ∧
        store'.rest.tlvList = store.rest.tlvList ∧
        store'.rest.pool = store.rest.pool ∧
        suffixPostRecv host type (cnt - type.pduLength) store' =
          (.ok (), final) := by
  obtain ⟨-, hrun⟩ := ite_fail_eq_ok.mp hrun
  obtain ⟨_, store₁, h₁, hrun⟩ := bind_eq_ok.mp hrun
  obtain ⟨ver, store₂, h₂, h₁⟩ := bind_eq_ok.mp h₁
  obtain ⟨hver, rfl⟩ := Prod.mk.inj h₂
  obtain rfl := Except.ok.inj hver
  obtain ⟨hversion, h₁⟩ := ite_fail_eq_ok.mp h₁
  obtain rfl := swapFields_eq_ok h₁
  obtain ⟨code, store₃, h₃, hrun⟩ := bind_eq_ok.mp hrun
  rw [msgType_run] at h₃
  obtain ⟨hcode, rfl⟩ := Prod.mk.inj h₃
  obtain rfl := Except.ok.inj hcode
  simp only at hrun
  rw [swapAll_outside 2 32 (by decide) (by omega)] at hrun
  refine ⟨?_, ?_⟩
  · simpa [versionOf, hostWord, bytesAt, Endian.value, bigValue, Header.ver]
      using hversion
  cases htype : typeOf store.mem with
  | none =>
    rw [typeOf] at htype
    simp [htype] at hrun
  | some type =>
    rw [typeOf] at htype
    simp only [htype] at hrun
    obtain ⟨hpdu, hrun⟩ := ite_fail_eq_ok.mp hrun
    obtain ⟨_, store₄, h₄, hrun⟩ := bind_eq_ok.mp hrun
    obtain ⟨hmem, hlist, hpool⟩ := bodyPostRecv_eq_ok host h₄
    exact ⟨type, rfl, by omega, store₄, hmem, hlist, hpool, hrun⟩

/-- The store on which `ptpMsgReceive` runs: a fresh message into which the
transport has put a datagram. -/
def receivedStore (datagram : List UInt8) (buffer : Memory) (pool : TlvPool) :
    Store ParseState where
  mem := storeBytes buffer 0 datagram
  spans := []
  rest := { tlvList := [], pdu := ⟨0, 0⟩, hostTime := ⟨0, 0⟩, pool := pool }

/-- Parsing a datagram touches only its bytes, comes to an end, and either
refuses the message or leaves a well placed TLV list. -/
theorem ptpMsgReceive_inside_datagram (datagram : List UInt8)
    (buffer : Memory) (pool : TlvPool) :
    let received := receivedStore datagram buffer pool
    let run := ptpMsgReceive host datagram.length received
    (∀ span ∈ run.2.spans, span.offset + span.width ≤ datagram.length) ∧
      ((∃ err, Refusal err ∧ run.1 = .error err) ∨
        run.1 = .ok () ∧ ∃ type, typeOf received.mem = some type ∧
          WellPlaced received.mem type.pduLength datagram.length
            run.2.rest.tlvList) := by
  intro received run
  have hconfined := confined_ptpMsgReceive host datagram.length
  constructor
  · intro span hspan
    obtain ⟨spans, hwithin, hspans⟩ := hconfined.touches received
    have hmem : span ∈ spans ++ [] := hspans ▸ hspan
    exact (hwithin span (by simpa using hmem)).2
  · rcases hrun : ptpMsgReceive host datagram.length received with ⟨err | _, final⟩
    · exact Or.inl ⟨err, hconfined.raises hrun, by simp only [run, hrun]⟩
    · obtain ⟨-, type, htype, hpdu, store', hmem, hlist, -, hsuffix⟩ :=
        ptpMsgReceive_eq_ok host hrun
      refine Or.inr ⟨by simp only [run, hrun], type, htype, ?_⟩
      have hempty : store'.rest.tlvList = [] := hlist
      simp only [run, hrun]
      cases hptr : type.suffix with
      | none =>
        simp only [suffixPostRecv, hptr] at hsuffix
        obtain ⟨-, rfl⟩ := Prod.mk.inj hsuffix
        rw [hempty]
        have hnone : Tiles received.mem datagram.length type.pduLength [] := hpdu
        exact hnone.wellPlaced
      | some ptr =>
        simp only [suffixPostRecv, hptr] at hsuffix
        obtain rfl := MsgType.suffix_eq_pduLength hptr
        obtain ⟨tlvs, hfinal, htiles⟩ := suffixLoop_tiles host hsuffix
        rw [hfinal, hempty, List.nil_append]
        rw [show type.pduLength + (datagram.length - type.pduLength) =
          datagram.length by omega] at htiles
        refine (htiles.congr fun i hge _ => ?_).wellPlaced
        rw [hmem]
        exact fixedPart_outside host.endian type _ (by omega)

end

end LinuxPtp.Wire
