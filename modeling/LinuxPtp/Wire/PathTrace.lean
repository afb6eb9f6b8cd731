import LinuxPtp.Bmc.Dataset
import LinuxPtp.Lib.RecordArray
import LinuxPtp.Wire.Append

/-!
# Path traces

An Announce lists the clocks that it has come through in a TLV of its own.  A clock
stores the list of its master and sends it on with its own identity behind.
-/

namespace LinuxPtp.Wire

open ByteOrder Access Bmc

/-! ## Reading -/

section

variable (endian : Endian)

def tlvLength (mem : Memory) (ptt : ℕ) : ℕ :=
  hostWord endian mem (ptt + Tlv.length.offset) Tlv.length.width

def pathLength (mem : Memory) (ptt : ℕ) : ℕ :=
  tlvLength endian mem ptt / sizeofClockIdentity

/-- The identities of a path trace TLV, each as its bytes. -/
def pathAt (mem : Memory) (ptt : ℕ) : List (List UInt8) :=
  recordsAt mem (ptt + sizeofTlv) sizeofClockIdentity (pathLength endian mem ptt)

theorem pathLength_le {mem : Memory} {ptt : ℕ}
    (hfits : tlvLength endian mem ptt ≤ pathTraceMax * sizeofClockIdentity) :
    pathLength endian mem ptt ≤ pathTraceMax :=
  Nat.div_le_of_le_mul (by rwa [Nat.mul_comm])

def isPathTrace (mem : Memory) (extra : TlvExtra) : Bool :=
  hostWord endian mem (extra.tlv + Tlv.type.offset) Tlv.type.width =
    TlvType.pathTrace.code

/-- What an Announce says of its path: the identities of its path trace TLV, and
nothing where it has none. -/
def announcedPath (m : Store ParseState) : List (List UInt8) :=
  match m.rest.tlvList.find? (isPathTrace endian m.mem) with
  | none => []
  | some extra => pathAt endian m.mem extra.tlv

end

/-! ## Storing -/

/-- `ptl` and `path_length` of `struct parent_ds`; the path stays within the storage. -/
structure StoredPath where
  ptl : Memory
  pathLength : ℕ
  fits : pathLength ≤ pathTraceMax

namespace StoredPath

def identities (dad : StoredPath) : List (List UInt8) :=
  recordsAt dad.ptl 0 sizeofClockIdentity dad.pathLength

/-- As `clock_create` and `clock_update_grandmaster` leave it. -/
def cleared : StoredPath := ⟨fun _ => 0, 0, Nat.zero_le _⟩

/-- The path trace TLV at `ptt` is stored; nothing where `memcpy` would leave the
storage. -/
def copy (dad : StoredPath) (endian : Endian) (mem : Memory) (ptt : ℕ) :
    Option StoredPath :=
  if hfits : tlvLength endian mem ptt ≤ pathTraceMax * sizeofClockIdentity then
    some
      { ptl := storeBytes dad.ptl 0
          (bytesAt mem (ptt + sizeofTlv) (tlvLength endian mem ptt))
        pathLength := Wire.pathLength endian mem ptt
        fits := pathLength_le endian hfits }
  else none

theorem identities_cleared : cleared.identities = [] := rfl

theorem length_identities (dad : StoredPath) :
    dad.identities.length = dad.pathLength := length_recordsAt ..

variable {dad dad' : StoredPath} {endian : Endian} {mem : Memory} {ptt : ℕ}

theorem identities_copy (hcopy : dad.copy endian mem ptt = some dad') :
    dad'.identities = pathAt endian mem ptt := by
  unfold copy at hcopy
  split at hcopy
  · obtain rfl := Option.some.inj hcopy
    exact recordsAt_copy (Nat.mul_div_le _ _)
  · exact absurd hcopy (Option.some_ne_none _).symm

theorem copy_isSome_iff :
    (dad.copy endian mem ptt).isSome ↔
      tlvLength endian mem ptt ≤ pathTraceMax * sizeofClockIdentity := by
  unfold copy
  split
  · exact iff_of_true rfl ‹_›
  · exact iff_of_false Bool.false_ne_true ‹_›

end StoredPath

/-! ## Sending -/

/-- `path_trace_append`.  The result tells whether the path has been appended. -/
def pathTraceAppend (host : Host) (clockIdentity : ClockIdentity) (dad : StoredPath) :
    WireM Bool :=
  let length := 1 + dad.pathLength
  if length > pathTraceMax then pure false
  else do
    let pttLen := length * sizeofClockIdentity
    let extra ← msgTlvAppend host (pttLen + Tlv.type.width + Tlv.length.width)
    match extra with
    | none => pure false
    | some extra => do
        writeWord host.endian (extra.tlv + Tlv.type.offset) Tlv.type.width
          TlvType.pathTrace.code
        writeWord host.endian (extra.tlv + Tlv.length.offset) Tlv.length.width pttLen
        writeBytes (extra.tlv + sizeofTlv) (bytesAt dad.ptl 0 pttLen)
        writeBytes (extra.tlv + sizeofTlv + sizeofClockIdentity * (length - 1))
          clockIdentity.bytes
        pure true

namespace StoredPath

variable (own : ClockIdentity) (dad : StoredPath)

/-- The stored path and the clock's own identity behind. -/
def traceBody : List UInt8 :=
  bytesAt dad.ptl 0 (sizeofClockIdentity * dad.pathLength) ++ own.bytes

theorem length_traceBody :
    (dad.traceBody own).length = (1 + dad.pathLength) * sizeofClockIdentity := by
  rw [traceBody, List.length_append, length_bytesAt, ClockIdentity.bytes,
    Vector.length_toList, sizeofClockIdentity]
  omega

theorem even_traceBody : (dad.traceBody own).length % 2 = 0 := by
  rw [length_traceBody, sizeofClockIdentity]
  omega

def traceTlv : HostTlv where
  type := TlvType.pathTrace.code
  body := dad.traceBody own
  type_lt := by decide
  even := dad.even_traceBody own

theorem length_traceTlv :
    (dad.traceTlv own).body.length = (1 + dad.pathLength) * sizeofClockIdentity :=
  dad.length_traceBody own

variable {own dad} {host : Host} {start : Memory} {store final : Store ParseState}

/-- The storage up to the end of the own identity, which is then stored over it. -/
theorem stored_body (mem : Memory) (offset : ℕ) :
    storeBytes
        (storeBytes mem offset (bytesAt dad.ptl 0 (dad.traceTlv own).body.length))
        (offset + sizeofClockIdentity * (1 + dad.pathLength - 1)) own.bytes =
      storeBytes mem offset (dad.traceTlv own).body := by
  have hwidth : (dad.traceTlv own).body.length =
      sizeofClockIdentity * dad.pathLength + own.bytes.length := by
    rw [length_traceTlv, ClockIdentity.bytes, Vector.length_toList, sizeofClockIdentity]
    omega
  rw [Nat.add_sub_cancel_left, hwidth, storeBytes_tail _ _ (length_bytesAt ..),
    bytesAt_add, List.take_left' (length_bytesAt ..)]
  rfl

/-- A path that can be appended is appended like any other TLV. -/
theorem pathTraceAppend_eq {done : Bool} (hfits : dad.pathLength < pathTraceMax)
    (happend : (dad.traceTlv own).append host store = (.ok done, final)) :
    ∃ spans, pathTraceAppend host own dad store =
      (.ok done, { final with spans := spans }) := by
  have hlength := dad.length_traceTlv own
  have hsize : (1 + dad.pathLength) * sizeofClockIdentity + Tlv.type.width +
      Tlv.length.width = (dad.traceTlv own).size := by
    simp only [HostTlv.size, hlength, sizeofTlv, Tlv.type, Tlv.length]
    omega
  rw [HostTlv.append, bind_run] at happend
  rw [pathTraceAppend, if_neg (by omega), hsize, bind_run]
  rcases hroom : msgTlvAppend host (dad.traceTlv own).size store with ⟨err | extra, store'⟩
  · rw [hroom] at happend
    exact absurd (congrArg Prod.fst happend) (by simp)
  rw [hroom] at happend
  cases extra with
  | none =>
    obtain ⟨hdone, rfl⟩ := Prod.mk.inj happend
    obtain rfl := Except.ok.inj hdone
    exact ⟨store'.spans, rfl⟩
  | some extra =>
    obtain ⟨hdone, rfl⟩ := Prod.mk.inj happend
    obtain rfl := Except.ok.inj hdone
    rw [← hlength]
    exact ⟨_, congrArg
      (fun mem => (Except.ok true, (⟨mem, _, store'.rest⟩ : Store ParseState)))
      (stored_body _ _)⟩

/-- Behind an Announce there is room for every path that can be appended. -/
theorem pathTraceAppend_built (htype : typeOf start = some .announce)
    (hbuilt : HostTlv.Built host.endian .announce start [] store)
    (hfits : dad.pathLength < pathTraceMax) (hsupply : HasDescriptors host store.rest 1) :
    ∃ final, pathTraceAppend host own dad store = (.ok true, final) ∧
      HostTlv.Built host.endian .announce start [dad.traceTlv own] final := by
  obtain ⟨done, final, happend, hdone, -, hroom⟩ :=
    HostTlv.append_run (dad.traceTlv own) htype hbuilt
  have hsize : MsgType.announce.pduLength + HostTlv.total [] + (dad.traceTlv own).size ≤
      messageDataSize := by
    have hmax : pathTraceMax = 179 := rfl
    have hpdu : MsgType.announce.pduLength + HostTlv.total [] = 64 := rfl
    rw [HostTlv.size, length_traceTlv, hpdu, sizeofTlv, sizeofClockIdentity, messageDataSize]
    omega
  obtain rfl : done = true := hroom ⟨Option.some_ne_none _, hsize, hsupply⟩
  obtain ⟨spans, hrun⟩ := pathTraceAppend_eq hfits happend
  obtain ⟨hplaced, hlength, hfitting, hfixed, hadmitted⟩ := hdone rfl
  exact ⟨_, hrun, hplaced, hlength, hfitting, hfixed, hadmitted⟩

/-- An Announce with this TLV announces the stored path and the own identity behind. -/
theorem announcedPath_built
    (hbuilt : HostTlv.Built host.endian .announce start [dad.traceTlv own] final) :
    final.rest.tlvList.length = 1 ∧
      announcedPath host.endian final = dad.identities ++ [own.bytes] := by
  have hplaced := hbuilt.placed
  cases hlist : final.rest.tlvList with
  | nil =>
    rw [hlist] at hplaced
    exact hplaced.elim
  | cons extra rest =>
    rw [hlist] at hplaced
    obtain ⟨rfl, hat, hrest⟩ := hplaced
    have hlength : tlvLength host.endian final.mem MsgType.announce.pduLength =
        (1 + dad.pathLength) * sizeofClockIdentity :=
      hat.length.trans (dad.length_traceTlv own)
    have hcount : Wire.pathLength host.endian final.mem MsgType.announce.pduLength =
        dad.pathLength + 1 := by
      rw [Wire.pathLength, hlength, Nat.mul_div_cancel _ (by decide), Nat.add_comm]
    have hfirst : isPathTrace host.endian final.mem
        { tlv := MsgType.announce.pduLength } = true :=
      decide_eq_true hat.type
    refine ⟨?_, ?_⟩
    · cases rest with
      | nil => rfl
      | cons => exact hrest.elim
    rw [announcedPath, hlist, List.find?_cons_of_pos hfirst]
    simp only
    rw [pathAt, hcount]
    refine recordsAt_push ?_
    have hbody := hat.body
    rw [length_traceTlv, show (1 + dad.pathLength) * sizeofClockIdentity =
      sizeofClockIdentity * dad.pathLength + sizeofClockIdentity by
        rw [sizeofClockIdentity]; omega] at hbody
    exact hbody

end StoredPath

/-! ## Reception -/

section

variable {host : Host} {cnt : ℕ} {store final : Store ParseState}

/-- Reception keeps the type of a message. -/
theorem ptpMsgReceive_typeOf (hrun : ptpMsgReceive host cnt store = (.ok (), final)) :
    typeOf final.mem = typeOf store.mem := by
  obtain ⟨-, type, -, -, store', hmem, -, -, hsuffix⟩ := ptpMsgReceive_eq_ok host hrun
  have hkept : final.mem 0 = store'.mem 0 := by
    rw [suffixPostRecv] at hsuffix
    cases hptr : type.suffix with
    | none =>
      rw [hptr] at hsuffix
      obtain ⟨-, rfl⟩ := Prod.mk.inj hsuffix
      rfl
    | some ptr =>
      rw [hptr] at hsuffix
      have := pduLength_ge type
      obtain rfl := MsgType.suffix_eq_pduLength hptr
      exact suffixLoop_outside host hsuffix (Or.inl (by omega))
  rw [typeOf, hkept, hmem, fixedPart_outside _ _ _ (Or.inl rfl)]
  rfl

/-- The storage has room for every path that a message can carry. -/
theorem suffixTlvPostRecv_length {ptr len : ℕ} {tlv : TlvExtra × ℕ}
    (hlen : len ≤ sizeofTlv + pathTraceMax * sizeofClockIdentity)
    (hrun : suffixTlvPostRecv host ptr len store = (.ok tlv, final)) :
    tlvLength host.endian final.mem ptr = tlv.2 := by
  obtain ⟨hlength, -, hfits, -, spans, hpost⟩ := suffixTlvPostRecv_eq_ok host hrun
  have hkept : ∀ i < ptr + 4, final.mem i =
      swapAll host.endian ptr tlvHeader store.mem i := by
    intro i hi
    by_cases htype : TlvType.ofCode (netWord store.mem ptr 2) = some .pathTrace
    · have hshort : ¬tlv.2 / sizeofClockIdentity > pathTraceMax := by
        have := Nat.div_le_of_le_mul (show tlv.2 ≤ sizeofClockIdentity * pathTraceMax by
          rw [Nat.mul_comm]; omega)
        omega
      rw [tlvPostRecv, htype] at hpost
      simp only at hpost
      rw [if_neg hshort] at hpost
      obtain ⟨-, rfl⟩ := Prod.mk.inj hpost
      rfl
    · have hconfined : Confined onBuffer (ptr + 4) (ptr + sizeofTlv + tlv.2)
          (tlvPostRecv host (netWord store.mem ptr 2) tlv.2 { tlv := ptr }) :=
        confined_tlvPostRecv host le_rfl (fun htrace => absurd htrace htype) le_rfl
      exact hconfined.mem_eq hpost (Or.inl hi)
  rw [hlength, tlvLength, hostWord_congr _ fun i _ hi => hkept i (by
    simp only [Tlv.length] at hi; omega)]
  exact hostWord_swapAll ptr Tlv.length tlvHeader_disjoint (by decide) store.mem

/-- Where an Announce has a TLV, the first one lies behind the body and its length is
within the storage. -/
theorem ptpMsgReceive_firstLength (hrun : ptpMsgReceive host cnt store = (.ok (), final))
    (htype : typeOf store.mem = some .announce) (hempty : store.rest.tlvList = [])
    (hcnt : cnt ≤ messageDataSize) (hsome : final.rest.tlvList ≠ []) :
    tlvLength host.endian final.mem MsgType.announce.pduLength ≤
      pathTraceMax * sizeofClockIdentity := by
  obtain ⟨-, type, hknown, hpdu, store', -, hlist, -, hsuffix⟩ :=
    ptpMsgReceive_eq_ok host hrun
  obtain rfl := Option.some.inj (hknown.symm.trans htype)
  have hbody : MsgType.announce.pduLength = 64 := rfl
  have hbuffer : messageDataSize = 1500 := rfl
  have hmax : pathTraceMax * sizeofClockIdentity = 1432 := rfl
  have hheader : sizeofTlv = 4 := rfl
  have hmore : ¬cnt - MsgType.announce.pduLength < sizeofTlv := by
    intro hless
    rw [suffixPostRecv] at hsuffix
    simp only [MsgType.suffix] at hsuffix
    rw [suffixLoop, if_pos hless] at hsuffix
    obtain ⟨-, rfl⟩ := Prod.mk.inj hsuffix
    exact hsome (hlist.trans hempty)
  obtain ⟨tlv, store₁, store₂, -, hround, -, -, store₃, hmem, -, hloop⟩ :=
    suffixLoop_eq_ok host hsuffix hmore
  obtain ⟨-, -, hfits, -, -⟩ := suffixTlvPostRecv_eq_ok host hround
  have hlength : tlvLength host.endian final.mem 64 = tlv.2 := by
    rw [← suffixTlvPostRecv_length (by omega) hround]
    refine hostWord_congr _ fun i _ hi => ?_
    simp only [Tlv.length] at hi
    exact (suffixLoop_outside host hloop (Or.inl (by omega))).trans (by rw [hmem])
  rw [hbody, hlength]
  omega

end

end LinuxPtp.Wire
