import LinuxPtp.Wire.Accepted
import LinuxPtp.Wire.Resend

/-!
# Conversion of TLVs in both directions

Reception followed by sending, and sending followed by reception, give back the
body of a TLV, except that both compute the low word of scaled nanoseconds from
the high word.  Sending does not look at the form of a TLV, reception does.
-/

namespace LinuxPtp.Wire

open ByteOrder Access

/-- The low word of scaled nanoseconds is the one that is computed from the high
word. -/
def LowWordFollows (endian : Endian) (mem : Memory) (place : Option ℕ) : Prop :=
  ∀ sns ∈ place, bytesAt mem (sns + 2) 8 = bigEncode 8 (hostWord endian mem sns 2)

instance (endian : Endian) (mem : Memory) (place : Option ℕ) :
    Decidable (LowWordFollows endian mem place) :=
  inferInstanceAs (Decidable (∀ sns ∈ place, _))

variable (host : Host) (type length : ℕ) (extra : TlvExtra)
  (store : Store ParseState)

/-- The TLV is received, and sending restores the body it came with. -/
def SentAsReceived : Prop :=
  ∃ result final sent,
    tlvPostRecv host type length extra store = (.ok result, final) ∧
    tlvPreSend host type length result final = (.ok (), sent) ∧
    AgreeOn (extra.tlv + 4) (extra.tlv + 4 + length) sent.mem store.mem

/-- The TLV is sent, and reception restores the body it had in host order. -/
def ReceivedAsSent : Prop :=
  ∃ sent result final,
    tlvPreSend host type length extra store = (.ok (), sent) ∧
    tlvPostRecv host type length { tlv := extra.tlv } sent = (.ok result, final) ∧
    AgreeOn (extra.tlv + 4) (extra.tlv + 4 + length) final.mem store.mem

/-- The TLV comes from the wire and is accepted; a path trace has no more entries
than it may. -/
def Acceptable : Prop :=
  (∃ result final,
    tlvPostRecv host type length extra store = (.ok result, final)) ∧
  (TlvType.ofCode type = some .pathTrace →
    length / sizeofClockIdentity ≤ pathTraceMax)

/-- The TLV is encoded, with its members where the format has them; a path trace has no
more entries than it may. -/
def Encoded : Prop :=
  (∃ sent, tlvPreSend host type length extra store = (.ok (), sent)) ∧
  PointsInto extra (located host.endian type length extra.tlv store.mem) ∧
  (TlvType.ofCode type = some .pathTrace →
    length / sizeofClockIdentity ≤ pathTraceMax)

variable {host type length extra store}

/-- Conversion there and back changes a body exactly when it changes the low word
of scaled nanoseconds. -/
theorem echo_agreeOn_iff {endian : Endian} {mem echo : Memory} {place : Option ℕ}
    {lo hi : ℕ} (hnone : place = none → echo = mem)
    (hsome : ∀ sns, place = some sns → echo = scaledNsEcho endian sns mem)
    (hroom : ∀ sns ∈ place, lo ≤ sns + 2 ∧ sns + 10 ≤ hi) :
    AgreeOn lo hi echo mem ↔ LowWordFollows endian mem place := by
  cases place with
  | none =>
    rw [hnone rfl]
    exact iff_of_true (fun _ _ _ => rfl) fun _ hsns => absurd hsns.symm (Option.some_ne_none _)
  | some sns =>
    have hplace := hroom sns rfl
    rw [hsome sns rfl, scaledNsEcho_eq_self_iff hplace.1 hplace.2]
    exact ⟨fun hbytes sns' hsns' => Option.some.inj hsns' ▸ hbytes,
      fun hfollows => hfollows sns rfl⟩

theorem tlvEcho_agreeOn_iff {endian : Endian} {tlv lo hi : ℕ} {mem : Memory}
    (hroom : ∀ sns ∈ phaseChange type length tlv mem,
      lo ≤ sns + 2 ∧ sns + 10 ≤ hi) :
    AgreeOn lo hi (tlvEcho endian type length tlv mem) mem ↔
      LowWordFollows endian mem (phaseChange type length tlv mem) :=
  echo_agreeOn_iff (fun hnone => by rw [tlvEcho, hnone])
    (fun sns hsome => by rw [tlvEcho, hsome]) hroom

theorem hostEcho_agreeOn_iff {endian : Endian} {tlv lo hi : ℕ} {mem : Memory}
    (hroom : ∀ sns ∈ hostPhaseChange endian type length tlv mem,
      lo ≤ sns + 2 ∧ sns + 10 ≤ hi) :
    AgreeOn lo hi (hostEcho endian type length tlv mem) mem ↔
      LowWordFollows endian mem (hostPhaseChange endian type length tlv mem) :=
  echo_agreeOn_iff (fun hnone => by rw [hostEcho, hnone])
    (fun sns hsome => by rw [hostEcho, hsome]) hroom

/-- A received TLV is sent as it came where the low word of the phase change follows. -/
theorem sentAsReceived_iff (haccepted : Acceptable host type length extra store) :
    SentAsReceived host type length extra store ↔
      LowWordFollows host.endian store.mem
        (phaseChange type length extra.tlv store.mem) := by
  obtain ⟨⟨result, final, hrun⟩, -⟩ := haccepted
  have hroom : ∀ sns ∈ phaseChange type length extra.tlv store.mem,
      extra.tlv + 4 ≤ sns + 2 ∧ sns + 10 ≤ extra.tlv + 4 + length := by
    intro sns hsns
    have hlow := lt_phaseChange hsns
    have hhigh := phaseChange_le host hrun (fun _ _ => rfl) sns hsns
    have hheader : sizeofTlv = 4 := rfl
    omega
  obtain ⟨mem, hruns, hagree, -⟩ := tlvPreSend_restores host length hrun
    (Or.inr rfl) final.mem fun _ _ _ => rfl
  obtain ⟨spans, hsent⟩ := hruns final.spans final.rest
  rw [← tlvEcho_agreeOn_iff hroom]
  constructor
  · rintro ⟨result', final', sent, hrun', hsent', hsame⟩
    obtain ⟨hresult, rfl⟩ := Prod.mk.inj (hrun.symm.trans hrun')
    obtain rfl := Except.ok.inj hresult
    obtain ⟨-, rfl⟩ := Prod.mk.inj (hsent.symm.trans hsent')
    exact hagree.symm.trans hsame
  · intro hsame
    exact ⟨result, final, _, hrun, hsent, hagree.trans hsame⟩

theorem hostPhaseChange_room
    (hformat : Formatted host.endian type length extra.tlv store.mem) :
    ∀ sns ∈ hostPhaseChange host.endian type length extra.tlv store.mem,
      extra.tlv + 4 ≤ sns + 2 ∧ sns + 10 ≤ extra.tlv + 4 + length := by
  intro sns hsns
  unfold hostPhaseChange at hsns
  split at hsns
  · rename_i htype
    simp only [Formatted, htype] at hformat
    split at hsns
    · rename_i hcondition
      obtain rfl := Option.some.inj hsns
      have hdata := hformat.2 hcondition.1
      simp only [MgtFormatted, hcondition.2, TimeStatusNp.size] at hdata
      simp only [ManagementTlv.data, TimeStatusNp.lastGmPhaseChange]
      omega
    · exact absurd hsns (Option.some_ne_none _).symm
  · rename_i htype
    simp only [Formatted, htype] at hformat
    split at hsns
    · rename_i hsubtype
      obtain rfl := Option.some.inj hsns
      have hexact := hformat.2 hsubtype
      simp only [sizeofTlv, FollowUpInfoTlv.size] at hexact
      simp only [FollowUpInfoTlv.lastGmPhaseChange]
      omega
    · exact absurd hsns (Option.some_ne_none _).symm
  · exact absurd hsns (Option.some_ne_none _).symm

/-- What is well formed comes back, but for the low word. -/
theorem receivedAsSent_of_formatted
    (hformat : Formatted host.endian type length extra.tlv store.mem)
    (hpoints : PointsInto extra (located host.endian type length extra.tlv store.mem)) :
    ReceivedAsSent host type length extra store ↔
      LowWordFollows host.endian store.mem
        (hostPhaseChange host.endian type length extra.tlv store.mem) := by
  obtain ⟨wire, hconverts⟩ := tlvConverts hformat hpoints
  obtain ⟨spans, hsent⟩ := hconverts.sent store.spans store.rest
  obtain ⟨spans', hreceived⟩ := hconverts.received spans store.rest
  rw [← hostEcho_agreeOn_iff (hostPhaseChange_room hformat)]
  constructor
  · rintro ⟨sent, result, final, hsent', hreceived', hsame⟩
    obtain ⟨-, rfl⟩ := Prod.mk.inj (hsent.symm.trans hsent')
    obtain ⟨-, rfl⟩ := Prod.mk.inj (hreceived.symm.trans hreceived')
    exact hsame
  · intro hsame
    exact ⟨_, _, _, hsent, hreceived, hsame⟩

/-- What comes back was well formed: reception refuses everything else. -/
theorem ReceivedAsSent.formatted (hback : ReceivedAsSent host type length extra store)
    (hpath : TlvType.ofCode type = some .pathTrace →
      length / sizeofClockIdentity ≤ pathTraceMax) :
    Formatted host.endian type length extra.tlv store.mem := by
  obtain ⟨sent, result, final, -, hreceived, hsame⟩ := hback
  have hformat : Formatted host.endian type length extra.tlv final.mem :=
    @tlvPostRecv_formatted host type length { tlv := extra.tlv } _ _ _ hreceived hpath
  exact formatted_congr hsame hformat

/-- An encoded one is received as it was where besides the parser accepts its format. -/
theorem receivedAsSent_iff (hencoded : Encoded host type length extra store) :
    ReceivedAsSent host type length extra store ↔
      Formatted host.endian type length extra.tlv store.mem ∧
        LowWordFollows host.endian store.mem
          (hostPhaseChange host.endian type length extra.tlv store.mem) := by
  obtain ⟨-, hpoints, hpath⟩ := hencoded
  constructor
  · intro hback
    have hformat := hback.formatted hpath
    exact ⟨hformat, (receivedAsSent_of_formatted hformat hpoints).mp hback⟩
  · rintro ⟨hformat, hfollows⟩
    exact (receivedAsSent_of_formatted hformat hpoints).mpr hfollows

/-- Sending restores what was received exactly where the scaled nanoseconds, if any, have
the low word that is computed from the high word.  Reception restores what was sent
exactly where, besides, the TLV has the form that its type asks for. -/
theorem tlvConversion_inverse_iff (host : Host) (type length : ℕ)
    (extra : TlvExtra) (store : Store ParseState) :
    (Acceptable host type length extra store →
      (SentAsReceived host type length extra store ↔
        LowWordFollows host.endian store.mem
          (phaseChange type length extra.tlv store.mem))) ∧
    (Encoded host type length extra store →
      (ReceivedAsSent host type length extra store ↔
        Formatted host.endian type length extra.tlv store.mem ∧
          LowWordFollows host.endian store.mem
            (hostPhaseChange host.endian type length extra.tlv store.mem))) :=
  ⟨sentAsReceived_iff, receivedAsSent_iff⟩

def smallHost : Host where
  endian := .little
  calloc _ := true
  monotonic := ⟨0, 0⟩

/-- A buffer that begins with the given bytes. -/
def holding (bytes : List UInt8) : Store ParseState where
  mem i := bytes.getD i 0
  spans := []
  rest := ⟨[], ⟨0, 0⟩, ⟨0, 0⟩, ⟨0, 0⟩⟩

/-- Follow-up information whose last phase change of the grandmaster is one
nanosecond. -/
def followUpInformation : Store ParseState :=
  holding [0, 3, 0, 28, 0x00, 0x80, 0xc2, 0, 0, 1, 0, 0, 0, 0, 0, 0,
    0, 0, 0, 0, 0, 0, 0, 0, 0, 1, 0, 0, 0, 0, 0, 0]

/-- A cancellation, in host order, for messages that are not sent in unicast by
contract. -/
def cancelSignaling : Store ParseState := holding [6, 0, 2, 0, 0xc0, 0]

/-- A grant of Announce messages, in host order: every two seconds for five minutes. -/
def grantAnnounce : Store ParseState := holding [5, 0, 8, 0, 0xb0, 1, 44, 1, 0, 0, 0, 1]

theorem acceptable_followUpInformation :
    Acceptable smallHost 3 28 { tlv := 0 } followUpInformation := by
  have haccepted : (tlvPostRecv smallHost 3 28 { tlv := 0 }
      followUpInformation).1 = .ok { tlv := 0 } := by decide +kernel
  refine ⟨⟨{ tlv := 0 }, (tlvPostRecv smallHost 3 28 { tlv := 0 }
    followUpInformation).2, ?_⟩, by decide⟩
  rw [← haccepted]

theorem encoded_cancelSignaling : Encoded smallHost 6 2 { tlv := 0 } cancelSignaling :=
  ⟨⟨_, rfl⟩, .refl _, by decide⟩

theorem encoded_grantAnnounce : Encoded smallHost 5 8 { tlv := 0 } grantAnnounce :=
  ⟨⟨_, rfl⟩, .refl _, by decide⟩

/-- The nanosecond is lost on the way there and back. -/
theorem followUpInformation_not_inverse :
    ¬((∀ host type length extra store, host.endian = .little →
        Acceptable host type length extra store →
        SentAsReceived host type length extra store) ∧
      ∀ host type length extra store, host.endian = .little →
        Encoded host type length extra store →
        ReceivedAsSent host type length extra store) := by
  rintro ⟨hsent, -⟩
  have hsame := hsent smallHost 3 28 { tlv := 0 } followUpInformation rfl
    acceptable_followUpInformation
  rw [sentAsReceived_iff acceptable_followUpInformation] at hsame
  revert hsame
  decide

/-- The nanosecond is lost, the cancellation is refused, and the grant comes back. -/
theorem tlvConversion_inverse_iff_examples :
    ¬SentAsReceived smallHost 3 28 { tlv := 0 } followUpInformation ∧
    ¬ReceivedAsSent smallHost 6 2 { tlv := 0 } cancelSignaling ∧
    ReceivedAsSent smallHost 5 8 { tlv := 0 } grantAnnounce := by
  refine ⟨fun hsame => ?_, fun hback => ?_, ?_⟩
  · exact absurd (((tlvConversion_inverse_iff smallHost 3 28 { tlv := 0 }
      followUpInformation).1 acceptable_followUpInformation).mp hsame) (by decide)
  · exact absurd (((tlvConversion_inverse_iff smallHost 6 2 { tlv := 0 }
      cancelSignaling).2 encoded_cancelSignaling).mp hback) (by decide)
  · exact ((tlvConversion_inverse_iff smallHost 5 8 { tlv := 0 } grantAnnounce).2
      encoded_grantAnnounce).mpr (by decide)

end LinuxPtp.Wire
