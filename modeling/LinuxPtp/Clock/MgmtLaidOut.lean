import LinuxPtp.Clock.MgmtReply
import LinuxPtp.Wire.Append

/-!
# Replies as they lie in memory

What `fillResponse` leaves behind a message: the header of the TLV, the members of
the data with the values assigned to them, and the length of the message.
-/

namespace LinuxPtp.Clock

open ByteOrder Access Wire Port Bmc

/-! ## Replies that can be laid out -/

/-- The members do not overlap, and none is where a padding byte is put. -/
structure Reply.WellFormed (reply : Reply) : Prop where
  disjoint : reply.members.Pairwise Member.Disjoint
  padded : reply.dataLen % 2 = 0 ∨
    ∀ member ∈ reply.members, member.offset + member.width ≤ reply.dataLen
  small : reply.dataLen ≤ 1000

/-- The reply stands behind the fixed part `start`. -/
structure LaidOut (endian : Endian) (id : ℕ) (reply : Reply) (start mem : Memory) :
    Prop where
  type : hostWord endian mem mgmtTlv 2 = TlvType.management.code
  length : hostWord endian mem (mgmtTlv + 2) 2 = 2 + roundUp reply.dataLen
  id : hostWord endian mem (mgmtTlv + 4) 2 = id
  members : ∀ member ∈ reply.members,
    bytesAt mem (mgmtData + member.offset) member.width = member.stored endian
  messageLength : hostWord endian mem 2 2 =
    mgmtTlv + ManagementTlv.size + roundUp reply.dataLen
  fixed : ∀ i < mgmtTlv, i < 2 ∨ 4 ≤ i → mem i = start i

variable {endian : Endian} {host : Host} {id : ℕ} {reply : Reply}
variable {start mem : Memory} {store : Store ParseState}

/-- A word that has been stored and what comes after. -/
theorem hostWord_of_stored {offset number : ℕ} (hnumber : number < 2 ^ 16)
    (hmem : ∀ i, offset ≤ i → i < offset + 2 →
      mem i = storeBytes start offset (endian.encode 2 number) i) :
    hostWord endian mem offset 2 = number := by
  have hbytes := bytesAt_storeBytes start offset (endian.encode 2 number)
  rw [length_encode] at hbytes
  rw [hostWord_congr endian hmem, hostWord, hbytes, Endian.value_encode]
  exact Nat.mod_eq_of_lt hnumber

def padding (dataLen : ℕ) : List UInt8 :=
  if dataLen % 2 = 0 then [] else [0]

theorem length_padding (dataLen : ℕ) :
    (padding dataLen).length = roundUp dataLen - dataLen := by
  rw [padding, roundUp]
  split <;> simp only [List.length_nil, List.length_singleton] <;> omega

/-- The writes of `fillResponse` behind the fixed part, in their order. -/
def layOutTlv (endian : Endian) (id : ℕ) (reply : Reply) (start : Memory) : Memory :=
  let typed := storeBytes start 48 (endian.encode 2 1)
  let identified := storeBytes typed 52 (endian.encode 2 id)
  let filled := Member.storeAll endian 54 reply.members identified
  let padded := storeBytes filled (54 + reply.dataLen) (padding reply.dataLen)
  storeBytes padded 50 (endian.encode 2 (2 + roundUp reply.dataLen))

/-- All writes of `fillResponse`. -/
def layOut (endian : Endian) (id : ℕ) (reply : Reply) (start : Memory) : Memory :=
  storeBytes (layOutTlv endian id reply start) 2
    (endian.encode 2 (hostWord endian start 2 2 + 6 + roundUp reply.dataLen))

theorem layOutTlv_before {i : ℕ} (hi : i < 48) :
    layOutTlv endian id reply start i = start i := by
  rw [layOutTlv, storeBytes_outside _ _ (by omega), storeBytes_outside _ _ (by omega),
    Member.storeAll_before (by omega), storeBytes_outside _ _ (by omega),
    storeBytes_outside _ _ (by omega)]

theorem layOut_laidOut (hwellFormed : reply.WellFormed) (hid : id < 2 ^ 16)
    (hlength : hostWord endian start 2 2 = mgmtTlv) :
    LaidOut endian id reply start (layOut endian id reply start) := by
  have hsmall := hwellFormed.small
  have hrounded : roundUp reply.dataLen ≤ reply.dataLen + 1 := by
    simp only [roundUp]
    omega
  have hword : ∀ number, (endian.encode 2 number).length = 2 := length_encode endian 2
  have hlast : ∀ i, i < 2 ∨ 4 ≤ i →
      layOut endian id reply start i = layOutTlv endian id reply start i :=
    fun i hi => storeBytes_outside _ _ (by rw [hword]; omega)
  have hbefore : ∀ i, i < 2 ∨ 4 ≤ i → i < 50 ∨ 52 ≤ i → i < 54 →
      layOut endian id reply start i =
        storeBytes (storeBytes start 48 (endian.encode 2 1)) 52
          (endian.encode 2 id) i := by
    intro i hi hlen hlt
    rw [hlast i hi, layOutTlv, storeBytes_outside _ _ (by rw [hword]; omega),
      storeBytes_outside _ _ (by omega), Member.storeAll_before hlt]
  have hfixed : ∀ i < 48, i < 2 ∨ 4 ≤ i → layOut endian id reply start i = start i := by
    intro i hlt hi
    rw [hbefore i hi (by omega) (by omega), storeBytes_outside _ _ (by omega),
      storeBytes_outside _ _ (by omega)]
  exact {
    type := @hostWord_of_stored endian start _ _ _ (by decide) fun i hge hlt => by
      simp only [mgmtTlv] at hge hlt
      rw [hbefore i (by omega) (by omega) (by omega)]
      exact storeBytes_outside _ _ (by omega)
    length := hostWord_of_stored (by omega) fun i hge hlt =>
      hlast i (by simp only [mgmtTlv] at hge; omega)
    id := hostWord_of_stored hid fun i hge hlt => by
      simp only [mgmtTlv] at hge hlt
      exact hbefore i (by omega) (by omega) (by omega)
    members := fun member hmember => by
      rw [← @Member.bytesAt_storeAll endian (storeBytes (storeBytes start 48
        (endian.encode 2 1)) 52 (endian.encode 2 id)) mgmtData member reply.members
        hwellFormed.disjoint hmember]
      refine bytesAt_congr fun i hge hlt => ?_
      simp only [mgmtData, mgmtTlv, ManagementTlv.data] at hge hlt
      rw [hlast i (by omega), layOutTlv,
        storeBytes_outside _ _ (by rw [hword]; omega)]
      refine storeBytes_outside _ _ ?_
      rw [length_padding]
      rcases hwellFormed.padded with heven | hwithin
      · simp only [roundUp]
        omega
      · have := hwithin member hmember
        omega
    messageLength := by
      refine @hostWord_of_stored endian (layOutTlv endian id reply start) _ _ _ ?_
        fun i _ _ => ?_
      · simp only [mgmtTlv, ManagementTlv.size]
        omega
      · rw [layOut, hlength]
        rfl
    fixed := hfixed }

/-! ## Running `fillResponse` -/

theorem layOutData_runs (host : Host) (id : ℕ) (reply : Reply) (start : Memory) :
    Runs (layOutData host reply)
      (storeBytes (storeBytes start 48 (host.endian.encode 2 1)) 52
        (host.endian.encode 2 id)) ()
      (layOut host.endian id reply start) := by
  refine (Runs.writeMembers _ _ _ _).bind ((Runs.writeBytes _ _ _).bind
    ((Runs.writeBytes _ _ _).bind ((Runs.readWord _ _ _ _).bind ?_)))
  have hsame : hostWord host.endian (layOutTlv host.endian id reply start) 2 2 =
      hostWord host.endian start 2 2 :=
    hostWord_congr _ fun i _ hlt => layOutTlv_before (by omega)
  rw [layOut, ← hsame]
  exact Runs.writeBytes _ _ _

theorem fillResponse_run (host : Host) (id : ℕ) (reply : Option Reply)
    (store : Store ParseState) :
    ∃ done store', fillResponse host id reply store = (.ok done, store') ∧
      (done = true → ∃ answer, reply = some answer ∧
        store'.mem = layOut host.endian id answer store.mem ∧
        store'.rest.tlvList =
          store.rest.tlvList ++ [{ tlv := mgmtTlv, cd := answer.cd }]) ∧
      (reply ≠ none → HasDescriptors host store.rest 1 → done = true) := by
  obtain ⟨found, rest, halloc, hlist, hsupply⟩ :=
    @HostTlv.succeeds_tlvExtraAlloc_run host store
  cases found with
  | false =>
    have hrun : fillResponse host id reply store =
        (.ok false, ⟨store.mem, store.spans, rest⟩) := by
      unfold fillResponse
      rw [bind_run, halloc]
      rfl
    exact ⟨false, _, hrun, fun hno => absurd hno (by decide),
      fun _ hfree => hsupply hfree⟩
  | true =>
    cases reply with
    | none =>
      refine ⟨false, ((do
        writeWord host.endian 48 2 1
        writeWord host.endian 52 2 id
        modifyRest ParseState.recycle : WireM Unit)
        ⟨store.mem, store.spans, rest⟩).2, ?_, fun hno => absurd hno (by decide),
        fun hno => absurd rfl hno⟩
      rw [fillResponse, bind_run, halloc]
      rfl
    | some answer =>
      let typed := storeBytes store.mem 48 (host.endian.encode 2 1)
      let accessed : List Span := ⟨52, (host.endian.encode 2 id).length⟩ ::
        ⟨48, (host.endian.encode 2 1).length⟩ :: store.spans
      obtain ⟨spans, hrun⟩ := layOutData_runs host id answer store.mem accessed rest
      refine ⟨true, ⟨layOut host.endian id answer store.mem, spans,
        { rest with tlvList := rest.tlvList ++ [{ tlv := 48, cd := answer.cd }] }⟩,
        ?_, fun _ => ⟨answer, rfl, rfl, by rw [hlist]; rfl⟩, fun _ _ => rfl⟩
      rw [fillResponse, bind_run, halloc]
      change (layOutData host answer >>= fun _ => _)
        ⟨storeBytes typed 52 (host.endian.encode 2 id), accessed, rest⟩ = _
      rw [bind_run, hrun]
      rfl

end LinuxPtp.Clock
