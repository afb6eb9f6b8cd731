import LinuxPtp.Nsm.Response
import LinuxPtp.Wire.HostMessage

/-!
# Time values over the wire

A number of nanoseconds is split into seconds and nanoseconds, these go over the wire in
network order, and the receiver puts the number together again.  The arithmetic is that
of unsigned 64-bit words, so a negative number travels as its two's complement.
-/

namespace LinuxPtp.Wire

open ByteOrder Access Nsm

/-- `timestamp_to_tmv`. -/
def LocalTimestamp.toTmv (ts : LocalTimestamp) : Int64 :=
  (UInt64.ofNat ts.sec * 1000000000 + UInt64.ofNat ts.nsec).toInt64

def timestampMembers : List Field :=
  [WireTimestamp.secondsLsb, WireTimestamp.secondsMsb, WireTimestamp.nanoseconds]

/-- The time stamp is stored in the message at `ts` and made ready to be sent. -/
def timestampSend (host : Host) (ts : ℕ) (x : Int64) : WireM Unit := do
  writeMembers host.endian ts (tmvToTimestamp x).members
  timestampPreSend host ts

/-! ## The words of a time stamp -/

variable (x : Int64)

theorem tmvToTimestamp_nanoseconds :
    (tmvToTimestamp x).nanoseconds.toNat = x.toUInt64.toNat % 1000000000 := by
  have := Nat.mod_lt x.toUInt64.toNat (show 0 < 1000000000 by decide)
  simp only [tmvToTimestamp, UInt64.toNat_toUInt32, UInt64.toNat_mod]
  exact Nat.mod_eq_of_lt (by simpa using this.trans (by decide))

theorem tmvToTimestamp_seconds :
    2 ^ 32 * (tmvToTimestamp x).secondsMsb.toNat + (tmvToTimestamp x).secondsLsb.toNat =
      x.toUInt64.toNat / 1000000000 := by
  have := x.toUInt64.toNat_lt
  simp only [tmvToTimestamp, UInt64.toNat_toUInt32, UInt64.toNat_toUInt16,
    UInt64.toNat_shiftRight, UInt64.toNat_div, Nat.shiftRight_eq_div_pow]
  simp only [UInt64.toNat_ofNat, Nat.reduceMod, Nat.reducePow]
  omega

/-- The words that the receiver decodes stand for the number sent. -/
theorem toTmv_ofWire :
    (LocalTimestamp.ofWire (tmvToTimestamp x).secondsLsb.toNat
      (tmvToTimestamp x).secondsMsb.toNat (tmvToTimestamp x).nanoseconds.toNat).toTmv =
      x := by
  rw [LocalTimestamp.toTmv, LocalTimestamp.ofWire]
  dsimp only
  rw [tmvToTimestamp_seconds, tmvToTimestamp_nanoseconds]
  have hword : UInt64.ofNat (x.toUInt64.toNat / 1000000000) * 1000000000 +
      UInt64.ofNat (x.toUInt64.toNat % 1000000000) = x.toUInt64 := by
    rw [← UInt64.toNat_inj]
    have := x.toUInt64.toNat_lt
    simp only [UInt64.toNat_add, UInt64.toNat_mul, UInt64.toNat_ofNat']
    simp only [UInt64.toNat_ofNat, Nat.reduceMod, Nat.reducePow]
    omega
  rw [hword]
  exact Int64.toInt64_toUInt64 x

/-! ## The journey -/

theorem timestampMembers_disjoint : timestampMembers.Pairwise Field.Disjoint := by
  decide

theorem wireTime_disjoint : (tmvToTimestamp x).members.Pairwise Member.Disjoint := by
  refine Member.disjoint_of_isChain ?_
  simp [WireTime.members, Clock.uint16, Clock.uint32, Member.Before, Member.offset,
    Member.width, WireTimestamp.secondsMsb, WireTimestamp.secondsLsb,
    WireTimestamp.nanoseconds]

variable (sender : Host) (ts : ℕ) (mem : Memory)

def timestampSent : Memory :=
  swapAll sender.endian ts timestampMembers
    (Member.storeAll sender.endian ts (tmvToTimestamp x).members mem)

theorem timestampSend_runs :
    Runs (timestampSend sender ts x) mem () (timestampSent x sender ts mem) :=
  (Runs.writeMembers _ _ _ _).bind (swapFields_runs sender _ _ _)

/-- A word on the wire is the one that was stored in host order. -/
theorem netWord_timestampSent {field : Field} {value : ℕ}
    (hfield : field ∈ timestampMembers)
    (hmember : .unsigned field.offset field.width value ∈ (tmvToTimestamp x).members)
    (hvalue : (value : ℤ) < 256 ^ field.width) :
    netWord (timestampSent x sender ts mem) (ts + field.offset) field.width = value := by
  have hstored : Member.ReadsAs sender.endian
      (Member.storeAll sender.endian ts (tmvToTimestamp x).members mem) ts
      (.unsigned field.offset field.width value) :=
    (Member.readsAs_iff_fits (Member.bytesAt_storeAll (wireTime_disjoint x)
      hmember)).mpr ⟨Int.natCast_nonneg _, hvalue⟩
  have hback := @hostWord_swapAll sender.endian ts field timestampMembers
    timestampMembers_disjoint hfield (timestampSent x sender ts mem)
  rw [timestampSent, swapAll_swapAll timestampMembers_disjoint] at hback
  exact hback.symm.trans (Int.ofNat_inj.mp hstored)

def timestampAt : LocalTimestamp :=
  .ofWire
    (netWord mem (ts + WireTimestamp.secondsLsb.offset) WireTimestamp.secondsLsb.width)
    (netWord mem (ts + WireTimestamp.secondsMsb.offset) WireTimestamp.secondsMsb.width)
    (netWord mem (ts + WireTimestamp.nanoseconds.offset) WireTimestamp.nanoseconds.width)

theorem timestampPostRecv_eq (receiver : Host) (store : Store ParseState) :
    ∃ spans, timestampPostRecv receiver ts store =
      (.ok (), ⟨store.mem, spans,
        { store.rest with pdu := timestampAt ts store.mem }⟩) := by
  refine ⟨⟨ts + 6, 4⟩ :: ⟨ts + 0, 2⟩ :: ⟨ts + 2, 4⟩ :: store.spans, ?_⟩
  rw [timestampPostRecv, bind_run, readField_run]
  dsimp only
  rw [bind_run, readField_run]
  dsimp only
  rw [bind_run, readField_run]
  dsimp only
  rw [modifyRest_run]
  simp only [timestampAt, ntoh_hostWord, WireTimestamp.secondsLsb,
    WireTimestamp.secondsMsb, WireTimestamp.nanoseconds]

/-- A number of nanoseconds that is sent by one host and received by another is the same
there, whatever the byte orders of the two, and its nanoseconds on the wire are fewer
than a second has. -/
theorem timestamp_lossless (receiver : Host) (rest : ParseState) (store : Store ParseState) :
    ∃ sent, timestampSend sender ts x store = (.ok (), sent) ∧
      netWord sent.mem (ts + WireTimestamp.nanoseconds.offset)
        WireTimestamp.nanoseconds.width < 10 ^ 9 ∧
      ∃ received, timestampPostRecv receiver ts ⟨sent.mem, [], rest⟩ = (.ok (), received) ∧
        received.rest.pdu.toTmv = x := by
  obtain ⟨spans, hsend⟩ := timestampSend_runs x sender ts store.mem store.spans store.rest
  have hnsec := netWord_timestampSent x sender ts store.mem
    (show WireTimestamp.nanoseconds ∈ timestampMembers by decide)
    (show .unsigned _ _ ((tmvToTimestamp x).nanoseconds.toNat : ℤ) ∈
      (tmvToTimestamp x).members by
        simp [WireTime.members, Clock.uint32, WireTimestamp.nanoseconds])
    (by have := (tmvToTimestamp x).nanoseconds.toNat_lt; exact mod_cast this)
  have hlsb := netWord_timestampSent x sender ts store.mem
    (show WireTimestamp.secondsLsb ∈ timestampMembers by decide)
    (show .unsigned _ _ ((tmvToTimestamp x).secondsLsb.toNat : ℤ) ∈
      (tmvToTimestamp x).members by
        simp [WireTime.members, Clock.uint32, WireTimestamp.secondsLsb])
    (by have := (tmvToTimestamp x).secondsLsb.toNat_lt; exact mod_cast this)
  have hmsb := netWord_timestampSent x sender ts store.mem
    (show WireTimestamp.secondsMsb ∈ timestampMembers by decide)
    (show .unsigned _ _ ((tmvToTimestamp x).secondsMsb.toNat : ℤ) ∈
      (tmvToTimestamp x).members by
        simp [WireTime.members, Clock.uint16, WireTimestamp.secondsMsb])
    (by have := (tmvToTimestamp x).secondsMsb.toNat_lt; exact mod_cast this)
  obtain ⟨spans', hrecv⟩ := timestampPostRecv_eq ts receiver
    ⟨timestampSent x sender ts store.mem, [], rest⟩
  refine ⟨_, hsend, ?_, _, hrecv, ?_⟩
  · rw [hnsec, tmvToTimestamp_nanoseconds]
    exact Nat.mod_lt _ (by decide)
  · dsimp only [timestampAt]
    rw [hnsec, hlsb, hmsb]
    exact toTmv_ofWire x

end LinuxPtp.Wire
