import LinuxPtp.Ordinary.Poll
import LinuxPtp.Transport.Raw

/-!
# What the sockets take

The frames of event messages come to one socket of a port and those of general messages
to the other, tagged or not, and nothing else comes to either.  The port strips the header
that it expects by the frame before.
-/

namespace LinuxPtp.Transport

open PacketFilter Wire

structure PtpFrame where
  dst : Mac
  src : Mac
  tag : Option (UInt8 × UInt8)
  message : List UInt8

namespace PtpFrame

def tagBytes (frame : PtpFrame) : List UInt8 :=
  match frame.tag with
  | none => []
  | some (high, low) => [0x81, 0x00, high, low]

def bytes (frame : PtpFrame) : List UInt8 :=
  frame.dst.toList ++ frame.src.toList ++ (frame.tagBytes ++ [0x88, 0xF7] ++ frame.message)

/-- Whether the message is an event message, if it has a type. -/
def event (frame : PtpFrame) : Option Bool :=
  frame.message.head?.map fun byte => byte.toNat &&& ptpGenBit = 0

end PtpFrame

/-! ## The filter -/

theorem rawConfigure_rawConfigure (first second : Bool) (filter : List Instruction) :
    rawConfigure second (rawConfigure first filter) = rawConfigure second filter := by
  rw [rawConfigure, rawConfigure, List.set_set, rawConfigure]

/-- What has been attached before is of no account. -/
theorem attached_eq (opened : List Bool) (event : Bool) :
    attached opened event = rawConfigure event rawFilter := by
  rw [attached]
  induction opened using List.reverseRecOn with
  | nil => rfl
  | append_singleton opened first ih =>
    rw [List.foldl_append, List.foldl_cons, List.foldl_nil, rawConfigure_rawConfigure, ih]

theorem socketFilter_eq (opened : List Bool) (event : Bool) :
    socketFilter opened event = rawConfigure event rawFilter :=
  attached_eq _ event

/-- The byte with the type of the message, where the packet has one. -/
def typeByte (packet : List UInt8) : Option ℕ :=
  if halfAt packet offEtype = some ethP8021q then
    if halfAt packet (offEtype + 4) = some ethP1588 then
      byteAt packet (ethHlen + vlanHlen)
    else none
  else if halfAt packet offEtype = some ethP1588 then byteAt packet ethHlen
  else none

/-- The last instructions tell event from general messages. -/
def typeTest (event : Bool) : List Instruction :=
  [.mask ptpGenBit, if event then .jumpEq 0 1 0 else .jumpEq 1 0 0, .ret 1500, .ret 0]

theorem run_typeTest (packet : List UInt8) (event : Bool) (byte : ℕ) :
    run packet (typeTest event) 0 byte =
      some (if decide (byte &&& ptpGenBit = 0) = event then 1500 else 0) := by
  by_cases hbit : byte &&& ptpGenBit = 0
  · cases event <;> simp [typeTest, run, hbit]
  · cases event <;> simp [typeTest, run, hbit]

theorem rawConfigure_eq (event : Bool) :
    rawConfigure event rawFilter =
      [.loadHalf offEtype, .jumpEq 0 4 ethP8021q,
        .loadHalf (offEtype + 4), .jumpEq 0 7 ethP1588, .loadByte (ethHlen + vlanHlen),
        .jump 2, .jumpEq 0 4 ethP1588, .loadByte ethHlen] ++ typeTest event := by
  cases event <;> rfl

theorem run_rawConfigure (packet : List UInt8) (event : Bool) :
    run packet (rawConfigure event rawFilter) 0 0 =
      some (match typeByte packet with
        | none => 0
        | some byte => if decide (byte &&& ptpGenBit = 0) = event then 1500 else 0) := by
  have htest : ∀ place, (byteAt packet place).elim (some 0)
      (run packet (typeTest event) 0) = some (match byteAt packet place with
        | none => 0
        | some byte => if decide (byte &&& ptpGenBit = 0) = event then 1500 else 0) := by
    intro place
    cases byteAt packet place with
    | none => rfl
    | some byte => exact run_typeTest packet event byte
  rw [rawConfigure_eq, typeByte, List.cons_append, run]
  cases htype : halfAt packet offEtype with
  | none => simp
  | some type =>
    rw [Option.elim_some, List.cons_append, run]
    by_cases htagged : type = ethP8021q
    · subst htagged
      rw [if_pos rfl, if_pos rfl, List.cons_append, run]
      cases hinner : halfAt packet (offEtype + 4) with
      | none => simp
      | some inner =>
        rw [Option.elim_some, List.cons_append, run]
        by_cases hptp : inner = ethP1588
        · subst hptp
          rw [if_pos rfl, if_pos rfl]
          exact htest (ethHlen + vlanHlen)
        · rw [if_neg hptp, if_neg fun hsame => hptp (Option.some.inj hsame)]
          rfl
    · rw [if_neg htagged, if_neg fun hsame => htagged (Option.some.inj hsame)]
      change run packet (.jumpEq 0 4 ethP1588 :: .loadByte ethHlen :: typeTest event) 0 type = _
      rw [run]
      by_cases hptp : type = ethP1588
      · subst hptp
        rw [if_pos rfl, if_pos rfl]
        exact htest ethHlen
      · rw [if_neg hptp, if_neg fun hsame => hptp (Option.some.inj hsame)]
        rfl

/-! ## Frames -/

namespace PtpFrame

variable (frame : PtpFrame)

theorem length_macs : (frame.dst.toList ++ frame.src.toList).length = offEtype := by
  simp [offEtype]

theorem halfAt_bytes (offset : ℕ) :
    halfAt frame.bytes (offEtype + offset) =
      halfAt (frame.tagBytes ++ [0x88, 0xF7] ++ frame.message) offset := by
  rw [← frame.length_macs, bytes, halfAt_append]

theorem byteAt_bytes (offset : ℕ) :
    byteAt frame.bytes (offEtype + offset) =
      byteAt (frame.tagBytes ++ [0x88, 0xF7] ++ frame.message) offset := by
  rw [← frame.length_macs, bytes, byteAt_append]

theorem etype_bytes :
    halfAt frame.bytes offEtype =
      some (if frame.tag.isSome then ethP8021q else ethP1588) := by
  have hetype := frame.halfAt_bytes 0
  rw [Nat.add_zero] at hetype
  rw [hetype, tagBytes]
  cases frame.tag with
  | none => rfl
  | some tag => rfl

theorem typeByte_bytes : typeByte frame.bytes = frame.message.head?.map UInt8.toNat := by
  rw [typeByte, etype_bytes]
  cases htag : frame.tag with
  | none =>
    have hbyte := frame.byteAt_bytes 2
    rw [tagBytes, htag] at hbyte
    rw [Option.isSome_none, if_neg Bool.false_ne_true, if_neg (by decide), if_pos rfl]
    refine hbyte.trans ?_
    cases frame.message <;> rfl
  | some tag =>
    have hinner := frame.halfAt_bytes 4
    have hbyte := frame.byteAt_bytes 6
    rw [tagBytes, htag] at hinner hbyte
    have hptp : halfAt frame.bytes (offEtype + 4) = some ethP1588 := hinner.trans rfl
    rw [Option.isSome_some, if_pos rfl, if_pos rfl, if_pos hptp]
    refine hbyte.trans ?_
    cases frame.message <;> rfl

end PtpFrame

/-- The bytes of a half that is known. -/
theorem of_halfAt {packet : List UInt8} {offset : ℕ} {high low : UInt8}
    (hhalf : halfAt packet offset = some (256 * high.toNat + low.toNat)) :
    ∃ rest, packet.drop offset = high :: low :: rest := by
  obtain ⟨high', low', rest, hdrop, hvalue⟩ := halfAt_eq_some.mp hhalf
  have hhigh := high.toNat_lt
  have hlow := low.toNat_lt
  have hhigh' := high'.toNat_lt
  have hlow' := low'.toNat_lt
  have hsameHigh : high' = high := UInt8.toNat_inj.mp (by omega)
  have hsameLow : low' = low := UInt8.toNat_inj.mp (by omega)
  exact ⟨rest, by rw [hdrop, hsameHigh, hsameLow]⟩

/-- Two addresses at the head of a packet. -/
theorem exists_macs {packet rest : List UInt8} (hdrop : packet.drop offEtype = rest)
    (hrest : rest ≠ []) :
    ∃ dst src : Mac, packet = dst.toList ++ src.toList ++ rest := by
  have hlong : offEtype < packet.length := by
    by_contra hshort
    exact hrest (hdrop ▸ List.drop_eq_nil_of_le (not_lt.mp hshort))
  rw [offEtype] at hlong
  refine ⟨⟨(packet.take 6).toArray, by simp; omega⟩,
    ⟨((packet.drop 6).take 6).toArray, by simp; omega⟩, ?_⟩
  have hmacs : packet.take 6 ++ (packet.drop 6).take 6 = packet.take offEtype :=
    (List.take_add ..).symm
  simp only [Vector.toList_mk, hmacs, ← hdrop, List.take_append_drop]

theorem exists_frame {packet : List UInt8} {byte : ℕ} (htype : typeByte packet = some byte) :
    ∃ frame : PtpFrame, packet = frame.bytes := by
  rw [typeByte] at htype
  split_ifs at htype with htagged hinner hptp
  · obtain ⟨rest, hdrop⟩ := @of_halfAt packet offEtype 0x81 0x00 htagged
    obtain ⟨message, hmessage⟩ := @of_halfAt packet (offEtype + 4) 0x88 0xF7 hinner
    rw [← List.drop_drop, hdrop] at hmessage
    obtain ⟨dst, src, hpacket⟩ := exists_macs hdrop (by simp)
    match rest, hmessage with
    | high :: low :: rest, hmessage =>
      refine ⟨⟨dst, src, some (high, low), message⟩, ?_⟩
      have hrest : rest = 0x88 :: 0xF7 :: message := hmessage
      rw [hpacket, hrest]
      rfl
  · obtain ⟨message, hdrop⟩ := @of_halfAt packet offEtype 0x88 0xF7 hptp
    obtain ⟨dst, src, hpacket⟩ := exists_macs hdrop (by simp)
    exact ⟨⟨dst, src, none, message⟩, hpacket⟩

/-! ## The sockets -/

/-- Whether a packet carries an event message, if it is a frame with a message. -/
def carriesEvent (packet : List UInt8) : Option Bool :=
  (typeByte packet).map fun byte => decide (byte &&& ptpGenBit = 0)

theorem carriesEvent_bytes (frame : PtpFrame) : carriesEvent frame.bytes = frame.event := by
  rw [carriesEvent, frame.typeByte_bytes, Option.map_map]
  rfl

theorem socketTakes_eq (opened : List Bool) (event : Bool) (packet : List UInt8) :
    socketTakes (socketFilter opened event) packet =
      if carriesEvent packet = some event then some (packet.take 1500) else none := by
  rw [socketTakes, socketFilter_eq, run_rawConfigure, carriesEvent]
  cases typeByte packet with
  | none => rfl
  | some byte =>
    dsimp only
    by_cases hevent : decide (byte &&& ptpGenBit = 0) = event
    · rw [if_pos hevent, Option.map_some, if_pos (congrArg some hevent)]
      rfl
    · rw [if_neg hevent, Option.map_some,
        if_neg fun hsame => hevent (Option.some.inj hsame)]
      rfl

/-- The bit tells the messages that need a time stamp. -/
theorem needsTimestamp_iff {byte : UInt8} {type : MsgType}
    (htype : byte.toNat % 16 = type.code) :
    byte.toNat &&& ptpGenBit = 0 ↔ Ordinary.needsTimestamp type := by
  have hbit : byte.toNat &&& ptpGenBit = (byte.toNat % 16) &&& ptpGenBit := by
    rw [show (16 : ℕ) = 2 ^ 4 from rfl, ← Nat.and_two_pow_sub_one_eq_mod, Nat.and_assoc]
    rfl
  rw [hbit, htype]
  cases type <;> decide

def sentFrame (peer : Bool) (addr : Option Mac) (message : List UInt8) (raw : Raw) :
    PtpFrame :=
  ⟨addr.getD (if peer then raw.p2pAddr else raw.ptpAddr), raw.srcAddr, none, message⟩

theorem rawSend_eq (peer : Bool) (addr : Option Mac) (message : List UInt8) (raw : Raw) :
    rawSend peer addr message raw = (sentFrame peer addr message raw).bytes := by
  rw [rawSend, PtpFrame.bytes, List.append_assoc]
  rfl

/-- Whatever sockets were opened before, the event socket of a port takes the frames of
event messages and no other packet, and the general socket those of general messages, of
each up to 1500 bytes.  So a message that is sent comes to the event socket if it needs a
time stamp, and else to the general one. -/
theorem sockets_take (opened : List Bool) :
    (∀ event packet data, socketTakes (socketFilter opened event) packet = some data ↔
      data = packet.take 1500 ∧
        ∃ frame : PtpFrame, packet = frame.bytes ∧ frame.event = some event) ∧
    ∀ (sender : Raw) (peer : Bool) (addr : Option Mac) (message : List UInt8)
      (type : MsgType), message.head?.map (fun byte => byte.toNat % 16) = some type.code →
        ∀ event, socketTakes (socketFilter opened event) (rawSend peer addr message sender) =
          if event = Ordinary.needsTimestamp type then
            some ((rawSend peer addr message sender).take 1500)
          else none := by
  refine ⟨fun event packet data => ?_, fun sender peer addr message type htype event => ?_⟩
  · rw [socketTakes_eq]
    constructor
    · intro htakes
      split_ifs at htakes with hevent
      refine ⟨(Option.some.inj htakes).symm, ?_⟩
      obtain ⟨byte, hbyte, -⟩ := Option.map_eq_some_iff.mp hevent
      obtain ⟨frame, rfl⟩ := exists_frame hbyte
      exact ⟨frame, rfl, (carriesEvent_bytes frame).symm.trans hevent⟩
    · rintro ⟨rfl, frame, rfl, hevent⟩
      rw [if_pos ((carriesEvent_bytes frame).trans hevent)]
  · obtain ⟨byte, hbyte, hcode⟩ := Option.map_eq_some_iff.mp htype
    have hneeds : carriesEvent (rawSend peer addr message sender) =
        some (Ordinary.needsTimestamp type) := by
      rw [rawSend_eq, carriesEvent_bytes, PtpFrame.event, sentFrame, hbyte, Option.map_some,
        Option.some.injEq, Bool.eq_iff_iff, decide_eq_true_iff]
      exact needsTimestamp_iff hcode
    rw [socketTakes_eq, hneeds]
    simp only [Option.some.injEq, eq_comm]

def newRaw : Raw :=
  ⟨#v[2, 0, 0, 0, 0, 9], #v[0x01, 0x1B, 0x19, 0, 0, 0], #v[0x01, 0x80, 0xC2, 0, 0, 0x0E],
    false⟩

def syncMessage : List UInt8 := 0x10 :: List.replicate 43 0

theorem sockets_take_sync :
    (∃ data, socketTakes (socketFilter [true, false] true)
        (rawSend false none syncMessage newRaw) = some data) ∧
      socketTakes (socketFilter [true, false] false)
        (rawSend false none syncMessage newRaw) = none := by
  obtain ⟨-, hsent⟩ := sockets_take [true, false]
  replace hsent := hsent newRaw false none syncMessage .sync rfl
  exact ⟨⟨_, hsent true⟩, hsent false⟩

/-! ## Tags -/

/-- The header that the port strips. -/
def Raw.hlen (raw : Raw) : ℕ := if raw.vlan then ethHlen + vlanHlen else ethHlen

section

variable {opened : List Bool} {buflen : ℕ} {packet : List UInt8} {raw : Raw}

end

def PtpFrame.hlen (frame : PtpFrame) : ℕ :=
  if frame.tag.isSome then ethHlen + vlanHlen else ethHlen

end LinuxPtp.Transport
