import LinuxPtp.Wire.RoundTrip

/-!
# Sending a received message again

The whole TLV list, converted on reception and converted back for sending,
gives the bytes of the wire but for two kinds of TLV.  Parsing the same bytes
a second time, with the descriptors of the first parse back in the pool, gives
the same message.
-/

namespace LinuxPtp.Wire

open ByteOrder Access

/-! ## TLVs that survive -/

/-- A TLV that is sent again exactly as it came. -/
def Transparent (endian : Endian) (mem : Memory) (tlv : ℕ) : Prop :=
  ¬Oversized mem tlv ∧
    ∀ sns ∈ phaseChange (netWord mem tlv 2) (netWord mem (tlv + 2) 2) tlv mem,
      bytesAt mem (sns + 2) 8 = bigEncode 8 (hostWord endian mem sns 2)

instance (endian : Endian) (mem : Memory) (tlv : ℕ) :
    Decidable (Transparent endian mem tlv) :=
  inferInstanceAs (Decidable (_ ∧ _))

/-- Bytes stored over equal ones change nothing. -/
theorem storeBytes_eq_self_iff (mem : Memory) (offset : ℕ)
    (bytes : List UInt8) :
    (∀ i, offset ≤ i → i < offset + bytes.length →
      storeBytes mem offset bytes i = mem i) ↔
        bytesAt mem offset bytes.length = bytes := by
  constructor
  · intro hsame
    exact (bytesAt_congr hsame).symm.trans (bytesAt_storeBytes mem offset bytes)
  · intro hbytes i _ _
    have hstore := storeBytes_bytesAt mem offset bytes.length
    rw [hbytes] at hstore
    exact congrFun hstore i

/-- The low word of scaled nanoseconds is restored when it holds what is
computed from the high word. -/
theorem scaledNsEcho_eq_self_iff {endian : Endian} {mem : Memory}
    {sns lo hi : ℕ} (hlo : lo ≤ sns + 2) (hhi : sns + 10 ≤ hi) :
    AgreeOn lo hi (scaledNsEcho endian sns mem) mem ↔
      bytesAt mem (sns + 2) 8 = bigEncode 8 (hostWord endian mem sns 2) := by
  have hiff := storeBytes_eq_self_iff mem (sns + 2)
    (bigEncode 8 (hostWord endian mem sns 2))
  rw [length_bigEncode] at hiff
  rw [← hiff]
  constructor
  · intro hagree i hge hlt
    exact hagree i (by omega) (by omega)
  · intro hsame i _ _
    by_cases hinside : sns + 2 ≤ i ∧ i < sns + 2 + 8
    · exact hsame i hinside.1 hinside.2
    · exact scaledNsEcho_outside endian mem (by omega)

/-- An oversized path trace is sent with another length. -/
theorem not_agreeOn_of_oversized {endian : Endian} {mem : Memory}
    {tlv lo hi : ℕ} (hover : Oversized mem tlv) (hlo : lo ≤ tlv)
    (hhi : tlv + 4 ≤ hi) : ¬AgreeOn lo hi (wireEcho endian tlv mem) mem := by
  intro hagree
  have hword : netWord (wireEcho endian tlv mem) (tlv + 2) 2 =
      netWord mem (tlv + 2) 2 := hagree.netWord (by omega) (by omega)
  have hbytes := bytesAt_storeBytes mem (tlv + 2)
    (bigEncode 2 (pathTraceMax * sizeofClockIdentity))
  rw [length_bigEncode] at hbytes
  rw [wireEcho, if_pos hover, netWord, hbytes] at hword
  have hlong := hover.2
  rw [← hword] at hlong
  revert hlong
  decide

/-- A TLV with room for its scaled nanoseconds is sent as it came exactly when
it is transparent. -/
theorem wireEcho_agreeOn_iff {endian : Endian} {mem : Memory}
    {tlv lo hi : ℕ} (hlo : lo ≤ tlv) (hhi : tlv + 4 ≤ hi)
    (hroom : ∀ sns ∈ phaseChange (netWord mem tlv 2) (netWord mem (tlv + 2) 2)
      tlv mem, sns + 10 ≤ hi) :
    AgreeOn lo hi (wireEcho endian tlv mem) mem ↔ Transparent endian mem tlv := by
  by_cases hover : Oversized mem tlv
  · exact ⟨fun hagree => absurd hagree (not_agreeOn_of_oversized hover hlo hhi),
      fun htransparent => absurd hover htransparent.1⟩
  rw [wireEcho, if_neg hover, Transparent, tlvEcho]
  cases hsns : phaseChange (netWord mem tlv 2) (netWord mem (tlv + 2) 2) tlv
      mem with
  | none => simp [hover, AgreeOn]
  | some sns =>
    have hlow := lt_phaseChange hsns
    have hhigh := hroom sns hsns
    rw [scaledNsEcho_eq_self_iff (by omega) hhigh]
    simp [hover]

/-! ## Room for scaled nanoseconds -/

section

variable (host : Host)

theorem phaseChange_le {type length : ℕ} {extra result : TlvExtra}
    {store final : Store ParseState}
    (hrun : tlvPostRecv host type length extra store = (.ok result, final))
    {mem : Memory} (hmem : ∀ i, extra.tlv + 4 ≤ i → store.mem i = mem i) :
    ∀ sns ∈ phaseChange type length extra.tlv mem,
      sns + 10 ≤ extra.tlv + sizeofTlv + length := by
  intro sns hsns
  have hagree : ∀ hi, AgreeOn (extra.tlv + 4) hi store.mem mem :=
    fun hi i hge _ => hmem i hge
  have hsize : sizeofTlv = 4 := rfl
  unfold phaseChange at hsns
  split at hsns
  · rename_i htype
    simp only [tlvPostRecv, htype] at hrun
    split at hsns
    · rename_i hcondition
      obtain ⟨hmore, hid⟩ := hcondition
      obtain rfl := Option.some.inj hsns
      obtain ⟨-, hrun⟩ := ite_fail_eq_ok.mp hrun
      obtain ⟨_, store₁, h₁, hrun⟩ := bind_eq_ok.mp hrun
      obtain rfl := swapFields_eq_ok h₁
      rw [if_pos hmore] at hrun
      obtain ⟨id, store₂, h₂, hrun⟩ := bind_eq_ok.mp hrun
      obtain ⟨rfl, rfl⟩ := readField_eq_ok h₂
      obtain ⟨pair, store₃, h₃, -⟩ := bind_eq_ok.mp hrun
      simp only at h₃
      rw [hostWord_swapAll _ ManagementTlv.id (by decide) (by decide)]
        at h₃
      have hword : netWord store.mem (extra.tlv + ManagementTlv.id.offset) 2 =
          netWord mem (extra.tlv + 4) 2 :=
        (hagree (extra.tlv + 6)).netWord le_rfl le_rfl
      simp only [mgtDataPostRecv, ManagementTlv.id] at h₃ hword
      rw [hword] at h₃
      simp only [hid] at h₃
      obtain ⟨hexact, -⟩ := ite_fail_eq_ok.mp h₃
      simp only [ManagementTlv.data, TimeStatusNp.lastGmPhaseChange,
        TimeStatusNp.size, ManagementTlv.id] at hexact hmore ⊢
      omega
    · simp at hsns
  · rename_i htype
    simp only [tlvPostRecv, htype] at hrun
    split at hsns
    · rename_i hsubtype
      obtain rfl := Option.some.inj hsns
      obtain ⟨-, hrun⟩ := ite_fail_eq_ok.mp hrun
      obtain ⟨_, store₁, h₁, -⟩ := bind_eq_ok.mp hrun
      obtain ⟨subtype, store₂, h₂, h₁⟩ := bind_eq_ok.mp h₁
      obtain ⟨rfl, hmem₂, -⟩ := (orgSubtype_runs extra.tlv store.mem).eq_of_run h₂
      rw [orgSubtypeOf_congr (hagree (extra.tlv + 10)) le_rfl le_rfl,
        if_pos hsubtype] at h₁
      obtain ⟨hexact, -⟩ := ite_fail_eq_ok.mp h₁
      simp only [FollowUpInfoTlv.lastGmPhaseChange, FollowUpInfoTlv.size,
        hsize] at hexact ⊢
      omega
    · simp at hsns
  · simp at hsns

/-! ## The whole list -/

def listEcho (endian : Endian) : List TlvExtra → Memory → ℕ → UInt8
  | [], mem, i => mem i
  | extra :: rest, mem, i =>
      if i < wireEnd mem extra then wireEcho endian extra.tlv mem i
      else listEcho endian rest mem i

/-- The list is sent as it came exactly when each of its TLVs is. -/
theorem listEcho_agreeOn_iff {endian : Endian} {mem : Memory} {hi lo : ℕ}
    {tlvs : List TlvExtra} (htiles : Tiles mem hi lo tlvs) :
    AgreeOn lo hi (listEcho endian tlvs mem) mem ↔
      ∀ extra ∈ tlvs,
        AgreeOn extra.tlv (wireEnd mem extra)
          (wireEcho endian extra.tlv mem) mem := by
  induction tlvs generalizing lo with
  | nil => simp [listEcho, AgreeOn]
  | cons first rest ih =>
    obtain ⟨rfl, -, hrest⟩ := htiles
    have hend : first.tlv ≤ wireEnd mem first := by
      unfold wireEnd
      omega
    have hhi := hrest.le
    rw [List.forall_mem_cons, ← ih hrest]
    constructor
    · intro hagree
      constructor
      · intro i hge hlt
        have hbyte := hagree i hge (by omega)
        rwa [listEcho, if_pos hlt] at hbyte
      · intro i hge hlt
        have hbyte := hagree i (by omega) hlt
        rwa [listEcho, if_neg (by omega)] at hbyte
    · rintro ⟨hfirst, hothers⟩ i hge hlt
      rw [listEcho]
      split
      · exact hfirst i hge ‹_›
      · exact hothers i (by omega) hlt

theorem wireEcho_congr {endian : Endian} {tlv : ℕ} {left right : Memory}
    (hagree : ∀ i, tlv ≤ i → left i = right i) {i : ℕ} (hi : tlv ≤ i) :
    wireEcho endian tlv left i = wireEcho endian tlv right i := by
  have hagreeOn : AgreeOn tlv (tlv + 4) left right := fun j hge _ => hagree j hge
  have htype : netWord left tlv 2 = netWord right tlv 2 :=
    hagreeOn.netWord le_rfl (by omega)
  have hlength : netWord left (tlv + 2) 2 = netWord right (tlv + 2) 2 :=
    hagreeOn.netWord (by omega) (by omega)
  have hover : Oversized left tlv ↔ Oversized right tlv := by
    simp only [Oversized, htype, hlength]
  unfold wireEcho
  by_cases hright : Oversized right tlv
  · rw [if_pos hright, if_pos (hover.mpr hright)]
    exact storeBytes_congr _ (hagree i hi)
  · rw [if_neg hright, if_neg (fun hleft => hright (hover.mp hleft)), htype,
      hlength]
    by_cases hheader : i < tlv + 4
    · rw [tlvEcho_header endian _ _ left hheader,
        tlvEcho_header endian _ _ right hheader]
      exact hagree i hi
    · exact tlvEcho_congr _ _ _ _ _ _ (fun j hj => hagree j (by omega))
        (by omega)

/-- What is sent for the TLVs depends on their bytes. -/
theorem listEcho_congr {endian : Endian} {hi lo : ℕ} {tlvs : List TlvExtra}
    {left right : Memory} (hagree : ∀ i, lo ≤ i → left i = right i)
    (htiles : Tiles left hi lo tlvs) {i : ℕ} (hge : lo ≤ i) :
    listEcho endian tlvs left i = listEcho endian tlvs right i := by
  induction tlvs generalizing lo with
  | nil => exact hagree i hge
  | cons first rest ih =>
    obtain ⟨rfl, -, hrest⟩ := htiles
    have hagreeOn : AgreeOn first.tlv (first.tlv + 4) left right :=
      fun j hge _ => hagree j hge
    have hend : wireEnd left first = wireEnd right first := by
      unfold wireEnd wireLength
      rw [hagreeOn.netWord]
      · simp only [Tlv.length]
        omega
      · simp only [Tlv.length]
        omega
    have hlow : first.tlv ≤ wireEnd left first := by
      unfold wireEnd
      omega
    rw [listEcho, listEcho, ← hend]
    split
    · exact wireEcho_congr hagree hge
    · exact ih (fun j hj => hagree j (by omega)) hrest (by omega)

theorem wireEnd_congr {extra : TlvExtra} {left right : Memory}
    (hagree : ∀ i, extra.tlv ≤ i → left i = right i) :
    wireEnd left extra = wireEnd right extra := by
  unfold wireEnd wireLength
  rw [netWord_congr fun i hge _ => hagree i (by omega)]

/-- The scaled nanoseconds of a TLV lie inside it. -/
def Roomy (mem : Memory) (extra : TlvExtra) : Prop :=
  ∀ sns ∈ phaseChange (netWord mem extra.tlv 2) (netWord mem (extra.tlv + 2) 2)
    extra.tlv mem, sns + 10 ≤ wireEnd mem extra

theorem Roomy.congr {extra : TlvExtra} {left right : Memory}
    (hroomy : Roomy left extra)
    (hagree : ∀ i, extra.tlv ≤ i → left i = right i) : Roomy right extra := by
  have htype : netWord left extra.tlv 2 = netWord right extra.tlv 2 :=
    netWord_congr fun i hge _ => hagree i hge
  have hlength : netWord left (extra.tlv + 2) 2 =
      netWord right (extra.tlv + 2) 2 :=
    netWord_congr fun i hge _ => hagree i (by omega)
  intro sns hsns
  rw [← htype, ← hlength,
    ← phaseChange_congr fun i hge => hagree i (by omega)] at hsns
  rw [← wireEnd_congr hagree]
  exact hroomy sns hsns

/-- What `suffix_pre_send` makes of a list that has been parsed. -/
theorem suffixLoop_resent {rounds ptr len : ℕ} {store final : Store ParseState}
    (hrun : suffixLoop host rounds ptr len store = (.ok (), final)) :
    ∃ tlvs, final.rest.tlvList = store.rest.tlvList ++ tlvs ∧
      Tiles store.mem (ptr + len) ptr tlvs ∧
      (∀ extra ∈ tlvs, Roomy store.mem extra) ∧
      Restores (suffixPreSendLoop host tlvs) ptr (ptr + len) final.mem
        (listEcho host.endian tlvs store.mem) := by
  induction rounds generalizing ptr len store with
  | zero => simp [suffixLoop] at hrun
  | succ rounds ih =>
    by_cases hmore : len < sizeofTlv
    · rw [suffixLoop, if_pos hmore] at hrun
      obtain ⟨-, rfl⟩ := Prod.mk.inj hrun
      exact ⟨[], (List.append_nil _).symm, Nat.le_add_right _ _, by simp,
        .pure fun _ _ _ => rfl⟩
    · obtain ⟨tlv, store₁, store₂, hmem₁, h₂, hframe, hspan, store₃, hmem₃,
        hlist₃, hrun⟩ := suffixLoop_eq_ok host hrun hmore
      obtain ⟨tlvs, hlist, htiles, hroomy, hrestores⟩ := ih hrun
      rw [hspan] at htiles hrestores
      obtain ⟨hlength, heven, -, hextra, spans, hpost⟩ :=
        suffixTlvPostRecv_eq_ok host h₂
      have hfirst := suffixTlvPreSend_restores host h₂
      rw [hmem₁] at hlength hpost hfirst
      have hwire : wireEnd store.mem tlv.1 = ptr + sizeofTlv + tlv.2 := by
        rw [wireEnd, wireLength, hextra, hlength]
        rfl
      have hbehind : ∀ i, ptr + sizeofTlv + tlv.2 ≤ i →
          store₃.mem i = store.mem i := fun i hi => by
        rw [hmem₃]
        exact hframe i (Or.inr hi)
      have hbefore : ∀ i, i < ptr + sizeofTlv + tlv.2 →
          final.mem i = store₂.mem i := fun i hi => by
        rw [suffixLoop_outside host hrun (Or.inl hi), hmem₃]
      refine ⟨tlv.1 :: tlvs, ?_, ⟨hextra, ?_, ?_⟩, ?_, ?_⟩
      · rw [hlist, hlist₃, List.append_assoc, List.singleton_append]
      · rw [wireLength, hextra]
        exact hlength ▸ heven
      · rw [hwire]
        exact htiles.congr fun i hge _ => hbehind i hge
      · intro extra hmember
        rcases List.mem_cons.mp hmember with rfl | hmember
        · intro sns hsns
          rw [hwire]
          rw [hextra, ← hlength] at hsns
          exact phaseChange_le host hpost (fun i hge =>
            swapAll_outside 0 4 (by decide) (Or.inr hge) _)
            sns hsns
        · have hlow := htiles.lo_le_of_mem hmember
          exact (hroomy extra hmember).congr fun i hge => hbehind i (by omega)
      · let middle : Memory := fun i =>
          if i < ptr + sizeofTlv + tlv.2 then wireEcho host.endian ptr store.mem i
          else final.mem i
        have hmiddle : Restores (suffixTlvPreSend host tlv.1) ptr (ptr + len)
            final.mem middle := by
          refine (hfirst.congr _ middle (fun i _ hi => hbefore i hi)
            fun i _ hi => ?_).extend le_rfl (by omega) fun i hge _ hi => ?_
          · simp only [middle, if_pos hi]
          · simp only [middle]
            rw [if_neg (by omega)]
        refine hmiddle.bind ((hrestores.congr middle
          (listEcho host.endian (tlv.1 :: tlvs) store.mem)
          (fun i hge _ => ?_) fun i hge _ => ?_).extend (by omega) le_rfl
          fun i hge hlt hi => ?_)
        · simp only [middle]
          rw [if_neg (by omega)]
        · rw [listEcho, hwire, if_neg (by omega)]
          exact listEcho_congr hbehind htiles hge
        · rw [listEcho, hwire, if_pos (by omega), hextra]
          simp only [middle]
          rw [if_pos (by omega)]

/-! ## The same bytes a second time -/

/-- The state that is left when `tlvs` have been attached to a message with
descriptors from the pool. -/
def ParseState.attach (state : ParseState) (tlvs : List TlvExtra) :
    ParseState :=
  { state with
    tlvList := state.tlvList ++ tlvs
    pool := { state.pool with free := state.pool.free - tlvs.length } }

/-- A list that has been parsed once is parsed again from the same bytes when
the pool has descriptors for it. -/
theorem suffixLoop_replay {rounds ptr len : ℕ}
    {store final : Store ParseState} (other : Store ParseState)
    {tlvs : List TlvExtra}
    (hrun : suffixLoop host rounds ptr len store = (.ok (), final))
    (hlist : final.rest.tlvList = store.rest.tlvList ++ tlvs)
    (hagree : AgreeOn ptr (ptr + len) store.mem other.mem)
    (hfree : tlvs.length ≤ other.rest.pool.free) :
    ∃ mem spans, AgreeOn ptr (ptr + len) final.mem mem ∧
      suffixLoop host rounds ptr len other =
        (.ok (), ⟨mem, spans, other.rest.attach tlvs⟩) := by
  induction rounds generalizing ptr len store other tlvs with
  | zero => simp [suffixLoop] at hrun
  | succ rounds ih =>
    by_cases hmore : len < sizeofTlv
    · rw [suffixLoop, if_pos hmore] at hrun
      obtain ⟨-, rfl⟩ := Prod.mk.inj hrun
      obtain rfl : tlvs = [] := by simpa using hlist
      refine ⟨other.mem, other.spans, hagree, ?_⟩
      rw [suffixLoop, if_pos hmore]
      simp [ParseState.attach]
    · obtain ⟨tlv, store₁, store₂, hmem₁, h₂, hframe, hspan, store₃, hmem₃,
        hlist₃, hloop⟩ := suffixLoop_eq_ok host hrun hmore
      obtain ⟨rest, hrest, -⟩ := suffixLoop_tiles host hloop
      obtain rfl : tlvs = tlv.1 :: rest := by
        rw [hrest, hlist₃, List.append_assoc] at hlist
        exact (List.append_cancel_left hlist).symm
      let allocated : Store ParseState := { other with rest := { other.rest with
        pool := { other.rest.pool with free := other.rest.pool.free - 1 } } }
      have halloc : tlvExtraAlloc host other = (.ok (), allocated) := by
        have hpos : 0 < other.rest.pool.free :=
          Nat.lt_of_lt_of_le (Nat.succ_pos _) hfree
        simp [tlvExtraAlloc, bind_run, getRest, hpos, modifyRest_run, allocated]
      have hconfined : Confined onBuffer ptr (ptr + len)
          (suffixTlvPostRecv host ptr len) :=
        confined_suffixTlvPostRecv host le_rfl (Nat.not_lt.mp hmore) le_rfl
      have hpost : ∃ mem spans, AgreeOn ptr (ptr + len) store₂.mem mem ∧
          suffixTlvPostRecv host ptr len allocated =
            (.ok tlv, ⟨mem, spans, allocated.rest⟩) := by
        obtain ⟨hvalue, -, hmem⟩ := hconfined.congr store₁ allocated
          (hmem₁ ▸ hagree) trivial
        have hbuffer : allocated.rest =
          (suffixTlvPostRecv host ptr len allocated).2.rest :=
            hconfined.updates allocated
        rw [h₂] at hvalue hmem
        exact ⟨_, _, hmem, Prod.ext hvalue.symm (by rw [hbuffer])⟩
      obtain ⟨mem₂, spans₂, hagree₂, hpost⟩ := hpost
      have hbehind : AgreeOn (ptr + sizeofTlv + tlv.2) (ptr + sizeofTlv +
          tlv.2 + (len - sizeofTlv - tlv.2)) store₃.mem mem₂ := by
        rw [hmem₃]
        exact hagree₂.mono (by omega) hspan.le
      have henough : rest.length ≤ other.rest.pool.free - 1 := by
        simp only [List.length_cons] at hfree
        omega
      obtain ⟨mem, spans, hfinal, hreplay⟩ := ih ⟨mem₂, spans₂,
        { allocated.rest with tlvList := other.rest.tlvList ++ [tlv.1] }⟩
        hloop hrest hbehind henough
      refine ⟨mem, spans, fun i hge hlt => ?_, ?_⟩
      · by_cases hi : i < ptr + sizeofTlv + tlv.2
        · have hsame : mem i = mem₂ i :=
            suffixLoop_outside host hreplay (Or.inl hi)
          rw [suffixLoop_outside host hloop (Or.inl hi), hmem₃, hsame]
          exact hagree₂ i hge hlt
        · exact hfinal i (by omega) (by omega)
      · have hround : onFail ParseState.recycle (suffixTlvPostRecv host ptr len)
            allocated = (.ok tlv, ⟨mem₂, spans₂, allocated.rest⟩) :=
          onFail_eq_ok.mpr hpost
        rw [suffixLoop, if_neg hmore, bind_run, halloc]
        simp only
        rw [bind_run, hround]
        simp only
        rw [bind_run, msgTlvAttach, modifyRest_run]
        refine hreplay.trans ?_
        simp [ParseState.attach, allocated, Nat.sub_sub, Nat.add_comm]

/-! ## Whole messages -/

theorem bodyFields_within (type : MsgType) :
    FieldsWithin 42 type.pduLength (bodyFields type) := by
  cases type <;> decide

/-- The fixed part is converted back by the same conversions. -/
theorem fixedPart_fixedPart (endian : Endian) (type : MsgType) (mem : Memory) :
    fixedPart endian type (fixedPart endian type mem) = mem := by
  let header := fieldsConversion endian 0 2 32 headerFields (by decide)
  let body := fieldsConversion endian 0 42 type.pduLength (bodyFields type)
    (bodyFields_within type)
  have hcomm := Conversion.apply_comm header body
    (Or.inl (show 0 + 32 ≤ 0 + 42 by decide))
  have hheader : ∀ mem, header.apply (header.apply mem) = mem :=
    swapAll_swapAll (by decide)
  have hbody : ∀ mem, body.apply (body.apply mem) = mem :=
    swapAll_swapAll (by cases type <;> decide)
  show body.apply (header.apply (body.apply (header.apply mem))) = mem
  rw [hcomm, hheader, hbody]

/-- The bytes behind the target of a management message may be replaced before
or after the conversion. -/
theorem fixedPart_storeBytes (endian : Endian) {offset : ℕ}
    (bytes : List UInt8) (hoffset : 44 ≤ offset) (mem : Memory) :
    fixedPart endian .management (storeBytes mem offset bytes) =
      storeBytes (fixedPart endian .management mem) offset bytes := by
  let header := fieldsConversion endian 0 2 32 headerFields (by decide)
  let body := fieldsConversion endian 0 42 44 (bodyFields .management)
    (by decide)
  have hheader := Conversion.apply_comm header (.store offset bytes) (Or.inl (show 0 + 32 ≤ offset by omega))
  have hbody := Conversion.apply_comm body (.store offset bytes) (Or.inl (show 0 + 44 ≤ offset by omega))
  exact (congrArg body.apply (hheader mem)).trans (hbody _)

/-- What is sent for the rest depends on the rest. -/
theorem fixedPart_agreeOn (endian : Endian) (type : MsgType) {cnt : ℕ}
    {left right : Memory} (hpdu : type.pduLength ≤ cnt)
    (hagree : AgreeOn 0 cnt left right) :
    AgreeOn 0 cnt (fixedPart endian type left) (fixedPart endian type right) := by
  let header := fieldsConversion endian 0 2 32 headerFields (by decide)
  let body := fieldsConversion endian 0 42 type.pduLength (bodyFields type)
    (bodyFields_within type)
  have hsize : 32 ≤ type.pduLength := by cases type <;> decide
  have hheader : AgreeOn 0 cnt (header.apply left) (header.apply right) :=
    header.agreeOn_apply hagree (Nat.zero_le _) (show 0 + 32 ≤ cnt by omega)
  exact body.agreeOn_apply hheader (Nat.zero_le _)
    (show 0 + type.pduLength ≤ cnt by omega)

theorem versionByte_eq (mem : Memory) :
    hostWord .big mem Header.ver.offset 1 % (versionMask + 1) = versionOf mem := by
  simp [versionOf, hostWord, bytesAt, Endian.value, bigValue, Header.ver]

/-- A header of the right version is converted, -/
theorem hdrPostRecv_run {store : Store ParseState}
    (hversion : versionOf store.mem = version) :
    hdrPostRecv host store = (.ok (),
      ⟨swapAll host.endian 0 headerFields store.mem,
        fieldSpans 0 headerFields ++ ⟨1, 1⟩ :: store.spans, store.rest⟩) := by
  rw [hdrPostRecv, bind_run, readByte, readWord]
  simp only
  rw [versionByte_eq, if_neg (not_not.mpr hversion)]
  exact swapFields_run host 0 _ _

/-- and one of another version refused. -/
theorem hdrPostRecv_refuses {store : Store ParseState}
    (hversion : versionOf store.mem ≠ version) :
    hdrPostRecv host store =
      (.error .eproto, { store with spans := ⟨1, 1⟩ :: store.spans }) := by
  rw [hdrPostRecv, bind_run, readByte, readWord]
  simp only
  rw [versionByte_eq, if_pos hversion]
  rfl

/-- An acceptable message is parsed from its converted header on. -/
theorem ptpMsgReceive_run {cnt : ℕ} {store : Store ParseState}
    {type : MsgType} (hversion : versionOf store.mem = version)
    (htype : typeOf store.mem = some type) (hpdu : type.pduLength ≤ cnt) :
    ∃ spans, ptpMsgReceive host cnt store =
      (do bodyPostRecv host type
          suffixPostRecv host type (cnt - type.pduLength) : WireM Unit)
        ⟨swapAll host.endian 0 headerFields store.mem, spans, store.rest⟩ := by
  have hsize : ¬cnt < Header.size := by
    have : Header.size ≤ type.pduLength := by cases type <;> decide
    omega
  refine ⟨⟨0, 1⟩ :: (fieldSpans 0 headerFields ++ ⟨1, 1⟩ :: store.spans), ?_⟩
  rw [ptpMsgReceive, if_neg hsize, bind_run, hdrPostRecv_run host hversion]
  simp only
  rw [bind_run, msgType_run]
  simp only
  rw [swapAll_outside 2 32 (by decide) (by omega)]
  rw [typeOf] at htype
  simp only [htype]
  rw [if_neg (by omega)]

/-- The TLVs of an accepted management message are parsed from its converted
fixed part. -/
theorem ptpMsgReceive_management {cnt : ℕ} {store final : Store ParseState}
    (hrun : ptpMsgReceive host cnt store = (.ok (), final))
    (htype : typeOf store.mem = some .management) :
    48 ≤ cnt ∧ ∃ spans, suffixLoop host (cnt - 48 + 1) 48 (cnt - 48)
      ⟨fixedPart host.endian .management store.mem, spans, store.rest⟩ =
        (.ok (), final) := by
  obtain ⟨hversion, type, hknown, hpdu, -⟩ := ptpMsgReceive_eq_ok host hrun
  obtain rfl : type = .management := Option.some.inj (hknown.symm.trans htype)
  obtain ⟨spans, hreceive⟩ := ptpMsgReceive_run host hversion htype hpdu
  rw [hreceive, bind_run, bodyPostRecv, portIdPostRecv, swapFields_run] at hrun
  exact ⟨hpdu, _, hrun⟩

/-- What sending makes of an accepted management message. -/
theorem ptpMsgReceive_resent {cnt : ℕ} {store final : Store ParseState}
    (hrun : ptpMsgReceive host cnt store = (.ok (), final))
    (htype : typeOf store.mem = some .management)
    (hempty : store.rest.tlvList = []) :
    (∀ i < 48, final.mem i = fixedPart host.endian .management store.mem i) ∧
      Tiles store.mem cnt 48 final.rest.tlvList ∧
      (∀ extra ∈ final.rest.tlvList, Roomy store.mem extra) ∧
      Restores (suffixPreSendLoop host final.rest.tlvList) 48 cnt final.mem
        (listEcho host.endian final.rest.tlvList store.mem) := by
  obtain ⟨hpdu, spans, hloop⟩ := ptpMsgReceive_management host hrun htype
  obtain ⟨tlvs, hlist, htiles, hroomy, hrestores⟩ := suffixLoop_resent host hloop
  obtain rfl : final.rest.tlvList = tlvs := by
    rw [hlist]
    exact congrArg (· ++ tlvs) hempty
  have hbehind : ∀ i, 48 ≤ i →
      fixedPart host.endian .management store.mem i = store.mem i := fun i hi =>
    fixedPart_outside host.endian .management store.mem (Or.inr (Or.inr hi))
  rw [show 48 + (cnt - 48) = cnt by omega] at htiles hrestores
  refine ⟨fun i hi => suffixLoop_outside host hloop (Or.inl hi),
    htiles.congr fun i hge _ => hbehind i hge, fun extra hextra => ?_,
    hrestores.congr _ _ (fun _ _ _ => rfl) fun i hge _ => ?_⟩
  · have hlow := htiles.lo_le_of_mem hextra
    exact (hroomy extra hextra).congr fun i hge => hbehind i (by omega)
  · exact listEcho_congr hbehind htiles hge

/-- The state that is left when the TLVs of a message have been recycled. -/
def ParseState.detach (state : ParseState) : ParseState :=
  { state with
    tlvList := []
    pool := { state.pool with
      free := state.pool.free + state.tlvList.length } }

/-- The fixed part of a management message is converted before its TLVs. -/
theorem msgPreSend_run {store : Store ParseState}
    (htype : typeOf store.mem = some .management) :
    ∃ spans, msgPreSend host store =
      (do suffixPreSend host; pure true : WireM Bool)
        ⟨fixedPart host.endian .management store.mem, spans, store.rest⟩ := by
  refine ⟨fieldSpans 0 (bodyFields .management) ++
    (⟨0, 1⟩ :: (fieldSpans 0 headerFields ++ store.spans)), ?_⟩
  have hheader : hdrPreSend host store = (.ok (),
      ⟨swapAll host.endian 0 headerFields store.mem,
        fieldSpans 0 headerFields ++ store.spans, store.rest⟩) :=
    swapFields_run host 0 _ store
  rw [msgPreSend, bind_run, hheader]
  simp only
  rw [bind_run, msgType_run]
  simp only
  rw [swapAll_outside 2 32 (by decide) (by omega)]
  rw [typeOf] at htype
  simp only [htype]
  rw [bind_run, bodyPreSend, portIdPreSend, swapFields_run]
  rfl

/-- A management message is encoded part by part. -/
theorem msgPreSend_management {cnt : ℕ} {store : Store ParseState}
    {target : Memory} (htype : typeOf store.mem = some .management)
    (hrestores : Restores (suffixPreSendLoop host store.rest.tlvList) 48 cnt
      store.mem target) :
    ∃ mem spans, msgPreSend host store =
        (.ok true, ⟨mem, spans, store.rest.detach⟩) ∧
      (∀ i < 48, mem i = fixedPart host.endian .management store.mem i) ∧
      AgreeOn 48 cnt mem target := by
  have hbehind : AgreeOn 48 cnt (fixedPart host.endian .management store.mem)
      store.mem := fun i hge _ =>
    fixedPart_outside host.endian .management store.mem (Or.inr (Or.inr hge))
  obtain ⟨mem, hruns, hagree, hframe⟩ := hrestores _ hbehind
  obtain ⟨before, hrun⟩ := msgPreSend_run host htype
  obtain ⟨spans, hsuffix⟩ := hruns before store.rest
  refine ⟨mem, spans, ?_, fun i hi => hframe i (Or.inl hi), hagree⟩
  rw [hrun, suffixPreSend, bind_run, bind_run, getRest]
  simp only
  rw [bind_run, hsuffix]
  rfl

/-- A management message that has been accepted is accepted again, whatever
the byte at `offset` behind its target, when the pool has descriptors for its
TLVs. -/
theorem ptpMsgReceive_replay {cnt : ℕ} (offset : ℕ) (byte : UInt8)
    {store final : Store ParseState} (other : Store ParseState)
    (hrun : ptpMsgReceive host cnt store = (.ok (), final))
    (htype : typeOf store.mem = some .management)
    (hempty : store.rest.tlvList = []) (hoffset : 44 ≤ offset)
    (hbody : offset < 48)
    (hagree : AgreeOn 0 cnt (storeBytes store.mem offset [byte]) other.mem)
    (hfree : final.rest.tlvList.length ≤ other.rest.pool.free) :
    ∃ mem spans, ptpMsgReceive host cnt other =
        (.ok (), ⟨mem, spans, other.rest.attach final.rest.tlvList⟩) ∧
      AgreeOn 0 cnt mem (storeBytes final.mem offset [byte]) := by
  obtain ⟨hpdu, spans, hloop⟩ := ptpMsgReceive_management host hrun htype
  obtain ⟨hversion, -⟩ := ptpMsgReceive_eq_ok host hrun
  have hsame : ∀ i < 44, other.mem i = store.mem i := fun i hi => by
    rw [← hagree i (Nat.zero_le _) (by omega)]
    exact storeBytes_outside _ _ (Or.inl (by omega))
  have hbehind : ∀ i, 48 ≤ i → ∀ mem, storeBytes mem offset [byte] i = mem i :=
    fun i hi mem => storeBytes_outside mem _ (Or.inr (by
      simp only [List.length_singleton]
      omega))
  have hfixed : ∀ i < cnt, fixedPart host.endian .management other.mem i =
      storeBytes (fixedPart host.endian .management store.mem) offset [byte] i := by
    intro i hi
    rw [← fixedPart_storeBytes host.endian [byte] hoffset]
    exact (fixedPart_agreeOn host.endian .management hpdu hagree i (Nat.zero_le _) hi).symm
  have hversion' : versionOf other.mem = version := by
    rw [versionOf, hsame 1 (by decide)]
    exact hversion
  have htype' : typeOf other.mem = some .management := by
    rw [typeOf, hsame 0 (by decide)]
    exact htype
  obtain ⟨before, hreceive⟩ := ptpMsgReceive_run host hversion' htype' hpdu
  have hlist : final.rest.tlvList = store.rest.tlvList ++ final.rest.tlvList := by
    rw [hempty, List.nil_append]
  have hspan : 48 + (cnt - 48) = cnt := by omega
  obtain ⟨mem, spans, hfinal, hreplay⟩ := suffixLoop_replay host
    ⟨fixedPart host.endian .management other.mem,
      fieldSpans 0 (bodyFields .management) ++ before, other.rest⟩
    hloop hlist (fun i hge hlt => ((hfixed i (hspan ▸ hlt)).trans
      (hbehind i hge _)).symm) hfree
  refine ⟨mem, spans, ?_, fun i _ hi => ?_⟩
  · rw [hreceive, bind_run, bodyPostRecv, portIdPostRecv, swapFields_run]
    exact hreplay
  · by_cases hhead : i < 48
    · have hkept : mem i = fixedPart host.endian .management other.mem i :=
        suffixLoop_outside host hreplay (Or.inl hhead)
      rw [hkept, hfixed i hi]
      exact storeBytes_congr _ (suffixLoop_outside host hloop (Or.inl hhead)).symm
    · rw [hbehind i (by omega)]
      exact (hfinal i (by omega) (by omega)).symm

end

end LinuxPtp.Wire
