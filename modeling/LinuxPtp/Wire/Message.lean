import LinuxPtp.Wire.Tlv

/-!
# Receiving and sending messages

Conversion of a whole message in place, from `msg.c`.  `ptpMsgReceive` runs on
the bytes of a datagram as they came from the transport; `msgPreSend` undoes
it for a message that is about to leave.
-/

namespace LinuxPtp.Wire

open ByteOrder Access

section

variable (host : Host)

/-- `tsmt & 0x0f`. -/
def msgType : WireM ℕ := do
  let tsmt ← readByte Header.tsmt.offset
  pure (tsmt % 16)

/-! ## Headers and bodies -/

def hdrPostRecv : WireM Unit := do
  let ver ← readByte Header.ver.offset
  if ver % (versionMask + 1) ≠ version then fail .eproto
  else
    swapFields host 0
      [Header.messageLength, Header.correction, Header.portNumber,
        Header.sequenceId]

def hdrPreSend : WireM Unit :=
  swapFields host 0
    [Header.messageLength, Header.correction, Header.portNumber,
      Header.sequenceId]

/-- A timestamp decoded from its three members on the wire. -/
def LocalTimestamp.ofWire (lsb msb nanoseconds : ℕ) : LocalTimestamp where
  sec := 2 ^ 32 * msb + lsb
  nsec := nanoseconds

/-- The timestamp is decoded but left as it came. -/
def timestampPostRecv (ts : ℕ) : WireM Unit := do
  let lsb ← readField host ts WireTimestamp.secondsLsb
  let msb ← readField host ts WireTimestamp.secondsMsb
  let nanoseconds ← readField host ts WireTimestamp.nanoseconds
  modifyRest fun state => { state with
    pdu := .ofWire (host.endian.ntoh 4 lsb) (host.endian.ntoh 2 msb)
      (host.endian.ntoh 4 nanoseconds) }

def timestampPreSend (ts : ℕ) : WireM Unit :=
  swapFields host ts
    [WireTimestamp.secondsLsb, WireTimestamp.secondsMsb,
      WireTimestamp.nanoseconds]

def portIdPostRecv (portNumber : Field) : WireM Unit :=
  swapFields host 0 [portNumber]

def portIdPreSend (portNumber : Field) : WireM Unit :=
  swapFields host 0 [portNumber]

def announcePostRecv : WireM Unit :=
  swapFields host 0
    [Announce.currentUtcOffset, Announce.offsetScaledLogVariance,
      Announce.stepsRemoved]

def announcePreSend : WireM Unit :=
  swapFields host 0
    [Announce.currentUtcOffset, Announce.offsetScaledLogVariance,
      Announce.stepsRemoved]

/-- `PTP_GET_SYS_TIME_MONOTONIC(&m->ts.host)`. -/
def stampHostTime : WireM Unit :=
  modifyRest fun state => { state with hostTime := host.monotonic }

def bodyPostRecv : MsgType → WireM Unit
  | .sync => timestampPostRecv host WireTimestamp.offset
  | .delayReq => pure ()
  | .pdelayReq => pure ()
  | .pdelayResp => do
      timestampPostRecv host WireTimestamp.offset
      portIdPostRecv host RequestingPort.portNumber
  | .followUp => timestampPostRecv host WireTimestamp.offset
  | .delayResp => do
      timestampPostRecv host WireTimestamp.offset
      portIdPostRecv host RequestingPort.portNumber
  | .pdelayRespFollowUp => do
      timestampPostRecv host WireTimestamp.offset
      portIdPostRecv host RequestingPort.portNumber
  | .announce => do
      stampHostTime host
      timestampPostRecv host WireTimestamp.offset
      announcePostRecv host
  | .signaling => portIdPostRecv host TargetPort.portNumber
  | .management => portIdPostRecv host TargetPort.portNumber

def bodyPreSend : MsgType → WireM Unit
  | .sync => pure ()
  | .delayReq => stampHostTime host
  | .pdelayReq => pure ()
  | .pdelayResp => do
      timestampPreSend host WireTimestamp.offset
      portIdPreSend host RequestingPort.portNumber
  | .followUp => timestampPreSend host WireTimestamp.offset
  | .delayResp => do
      timestampPreSend host WireTimestamp.offset
      portIdPreSend host RequestingPort.portNumber
  | .pdelayRespFollowUp => do
      timestampPreSend host WireTimestamp.offset
      portIdPreSend host RequestingPort.portNumber
  | .announce => announcePreSend host
  | .signaling => portIdPreSend host TargetPort.portNumber
  | .management => portIdPreSend host TargetPort.portNumber

/-! ## TLVs behind the body -/

def msgTlvAttach (extra : TlvExtra) : WireM Unit :=
  modifyRest fun state => { state with tlvList := state.tlvList ++ [extra] }

/-- The body of the loop of `suffix_post_recv`, once a descriptor has been
allocated: convert the TLV at `ptr`.  Returns its descriptor and length. -/
def suffixTlvPostRecv (ptr len : ℕ) : WireM (TlvExtra × ℕ) := do
  swapFields host ptr [Tlv.type, Tlv.length]
  let type ← readField host ptr Tlv.type
  let length ← readField host ptr Tlv.length
  if length % 2 ≠ 0 then fail .ebadmsg
  else if length > len - sizeofTlv then fail .ebadmsg
  else do
    let extra ← tlvPostRecv host type length { tlv := ptr }
    pure (extra, length)

/-- The loop of `suffix_post_recv`; the first argument bounds the number of
rounds. -/
def suffixLoop : ℕ → ℕ → ℕ → WireM Unit
  | 0, _, _ => fail .endlessLoop
  | rounds + 1, ptr, len =>
      if len < sizeofTlv then pure ()
      else do
        tlvExtraAlloc host
        let tlv ← onFail ParseState.recycle (suffixTlvPostRecv host ptr len)
        msgTlvAttach tlv.1
        suffixLoop rounds (ptr + sizeofTlv + tlv.2) (len - sizeofTlv - tlv.2)

def suffixPostRecv (type : MsgType) (len : ℕ) : WireM Unit :=
  match type.suffix with
  | none => pure ()
  | some ptr => suffixLoop host (len + 1) ptr len

/-- One round of `suffix_pre_send`. -/
def suffixTlvPreSend (extra : TlvExtra) : WireM Unit := do
  let type ← readField host extra.tlv Tlv.type
  let length ← readField host extra.tlv Tlv.length
  tlvPreSend host type length extra
  swapFields host extra.tlv [Tlv.type, Tlv.length]

def suffixPreSendLoop : List TlvExtra → WireM Unit
  | [] => pure ()
  | extra :: rest => do
      suffixTlvPreSend host extra
      suffixPreSendLoop rest

/-- `msg_tlv_recycle`: the descriptors go back to the pool. -/
def msgTlvRecycle : WireM Unit :=
  modifyRest fun state => { state with
    tlvList := []
    pool := { state.pool with
      free := state.pool.free + state.tlvList.length } }

def suffixPreSend : WireM Unit := do
  let state ← getRest
  suffixPreSendLoop host state.tlvList
  msgTlvRecycle

/-! ## Whole messages -/

def ptpMsgReceive (cnt : ℕ) : WireM Unit :=
  if cnt < Header.size then fail .ebadmsg
  else do
    hdrPostRecv host
    let code ← msgType
    match MsgType.ofCode code with
    | none => fail .ebadmsg
    | some type =>
        if cnt < type.pduLength then fail .ebadmsg
        else do
          bodyPostRecv host type
          suffixPostRecv host type (cnt - type.pduLength)

/-- The result tells whether the message could be encoded. -/
def msgPreSend : WireM Bool := do
  hdrPreSend host
  let code ← msgType
  match MsgType.ofCode code with
  | none => pure false
  | some type => do
      bodyPreSend host type
      suffixPreSend host
      pure true

end

end LinuxPtp.Wire
