import AcpltKs.Xdr

/-! The ONC/RPC message header, as the code reads and writes it. -/
namespace AcpltKs

/-- The enumerations are assigned from words off the wire, so each can hold any word. -/
inductive KsRpcMsgType where
  | call
  | reply
  | other (w : UInt32)
  deriving DecidableEq

def KsRpcMsgType.ofWord (w : UInt32) : KsRpcMsgType :=
  if w = 0 then .call else if w = 1 then .reply else .other w

def KsRpcMsgType.toWord : KsRpcMsgType → UInt32
  | .call => 0
  | .reply => 1
  | .other w => w

inductive KsRpcReplyStat where
  | msgAccepted
  | msgDenied
  | other (w : UInt32)
  deriving DecidableEq

def KsRpcReplyStat.ofWord (w : UInt32) : KsRpcReplyStat :=
  if w = 0 then .msgAccepted else if w = 1 then .msgDenied else .other w

def KsRpcReplyStat.toWord : KsRpcReplyStat → UInt32
  | .msgAccepted => 0
  | .msgDenied => 1
  | .other w => w

inductive KsRpcAcceptStat where
  | success
  | progUnavail
  | progMismatch
  | procUnavail
  | garbageArgs
  | systemErr
  | other (w : UInt32)
  deriving DecidableEq

def KsRpcAcceptStat.ofWord (w : UInt32) : KsRpcAcceptStat :=
  if w = 0 then .success
  else if w = 1 then .progUnavail
  else if w = 2 then .progMismatch
  else if w = 3 then .procUnavail
  else if w = 4 then .garbageArgs
  else if w = 5 then .systemErr
  else .other w

def KsRpcAcceptStat.toWord : KsRpcAcceptStat → UInt32
  | .success => 0
  | .progUnavail => 1
  | .progMismatch => 2
  | .procUnavail => 3
  | .garbageArgs => 4
  | .systemErr => 5
  | .other w => w

/-- The accept states that nothing follows. -/
def KsRpcAcceptStat.isPlain : KsRpcAcceptStat → Bool
  | .success | .progUnavail | .procUnavail | .garbageArgs | .systemErr => true
  | .progMismatch | .other _ => false

inductive KsRpcRejectStat where
  | rpcMismatch
  | authError
  | other (w : UInt32)
  deriving DecidableEq

def KsRpcRejectStat.ofWord (w : UInt32) : KsRpcRejectStat :=
  if w = 0 then .rpcMismatch else if w = 1 then .authError else .other w

def KsRpcRejectStat.toWord : KsRpcRejectStat → UInt32
  | .rpcMismatch => 0
  | .authError => 1
  | .other w => w

structure KsRpcHeader where
  xid : UInt32 := 0
  msgType : KsRpcMsgType := .call
  rpcVersion : UInt32 := 2
  progNumber : UInt32 := 0
  progVersion : UInt32 := 0
  procedure : UInt32 := 0
  replyStatus : KsRpcReplyStat := .msgAccepted
  acceptStatus : KsRpcAcceptStat := .systemErr
  low : UInt32 := 0
  high : UInt32 := 0
  authError : UInt32 := 0
  rejectStatus : KsRpcRejectStat := .rpcMismatch
  deriving DecidableEq

/-- What a decoder of a header returns: does it accept, and the header with the fields read. -/
abbrev HeaderReader := XdrReader (Bool × KsRpcHeader)

/-- `xdr_u_long` in decode mode; without a word the decoder gives up. -/
def xdrULong (h : KsRpcHeader) (next : UInt32 → HeaderReader) : HeaderReader :=
  .long fun
    | none => .done (false, h)
    | some w => next w

/-- An authentication part, which has to be empty. -/
def xdrAuthNone (h : KsRpcHeader) (next : HeaderReader) : HeaderReader :=
  xdrULong h fun dummy => xdrULong h fun dummy2 =>
    if dummy ≠ 0 ∨ dummy2 ≠ 0 then .done (false, h) else next

/-- The part of a call behind the message type. -/
def KsRpcHeader.xdrDecodeCall (h : KsRpcHeader) : HeaderReader :=
  xdrULong h fun w =>
    let h := { h with rpcVersion := w }
    xdrULong h fun w =>
      let h := { h with progNumber := w }
      xdrULong h fun w =>
        let h := { h with progVersion := w }
        xdrULong h fun w =>
          let h := { h with procedure := w }
          if h.rpcVersion ≠ 2 then .done (false, h)
          else xdrAuthNone h (xdrAuthNone h (.done (true, h)))

/-- The version range at the end of a mismatch reply. -/
def KsRpcHeader.xdrDecodeRange (h : KsRpcHeader) : HeaderReader :=
  xdrULong h fun w =>
    let h := { h with low := w }
    xdrULong h fun w => .done (true, { h with high := w })

/-- The part of a reply behind the message type. -/
def KsRpcHeader.xdrDecodeReply (h : KsRpcHeader) : HeaderReader :=
  xdrULong h fun w =>
    let h := { h with replyStatus := .ofWord w }
    match h.replyStatus with
    | .msgAccepted =>
        xdrAuthNone h <| xdrULong h fun w =>
          let h := { h with acceptStatus := .ofWord w }
          match h.acceptStatus with
          | .success | .progUnavail | .procUnavail | .garbageArgs | .systemErr =>
              .done (true, h)
          | .progMismatch => h.xdrDecodeRange
          | .other _ => .done (false, h)
    | .msgDenied =>
        xdrULong h fun w =>
          let h := { h with rejectStatus := .ofWord w }
          match h.rejectStatus with
          | .rpcMismatch => h.xdrDecodeRange
          | .authError => xdrULong h fun w => .done (true, { h with authError := w })
          | .other _ => .done (false, h)
    | .other _ => .done (false, h)

/-- Read in a header; the RPC version is invalid until a call has been read. -/
def KsRpcHeader.xdrDecode (h : KsRpcHeader) : HeaderReader :=
  let h := { h with rpcVersion := 0 }
  xdrULong h fun w =>
    let h := { h with xid := w }
    xdrULong h fun w =>
      let h := { h with msgType := .ofWord w }
      match h.msgType with
      | .call => h.xdrDecodeCall
      | .reply => h.xdrDecodeReply
      | .other _ => .done (false, h)

/-- The words that `xdrEncode` sends down the stream, and what it returns if all of them get
there. -/
def KsRpcHeader.words (h : KsRpcHeader) : List UInt32 × Bool :=
  match h.msgType with
  | .call =>
      if h.rpcVersion ≠ 2 then ([h.xid, h.msgType.toWord], false)
      else
        ([h.xid, h.msgType.toWord, h.rpcVersion, h.progNumber, h.progVersion, h.procedure,
          0, 0, 0, 0], true)
  | .reply =>
      match h.replyStatus with
      | .msgAccepted =>
          let ws := [h.xid, h.msgType.toWord, h.replyStatus.toWord, 0, 0, h.acceptStatus.toWord]
          match h.acceptStatus with
          | .success | .progUnavail | .procUnavail | .garbageArgs | .systemErr => (ws, true)
          | .progMismatch => (ws ++ [h.low, h.high], true)
          | .other _ => (ws, false)
      | .msgDenied =>
          let ws := [h.xid, h.msgType.toWord, h.replyStatus.toWord, h.rejectStatus.toWord]
          match h.rejectStatus with
          | .rpcMismatch => (ws ++ [h.low, h.high], true)
          | .authError => (ws ++ [h.authError], true)
          | .other _ => (ws, false)
      | .other _ => ([h.xid, h.msgType.toWord, h.replyStatus.toWord], false)
  | .other _ => ([h.xid, h.msgType.toWord], false)

/-- Write out a header. -/
def KsRpcHeader.xdrEncode {σ : Type*} [XdrSink σ] (h : KsRpcHeader) (s : σ) : Bool × σ :=
  Payload.xdrEncode ⟨h.words.1.map .long, h.words.2⟩ s

def KsRpcHeader.acceptCall (h : KsRpcHeader) : KsRpcHeader :=
  { h with msgType := .reply, replyStatus := .msgAccepted, acceptStatus := .success }

def KsRpcHeader.setDecodeError (h : KsRpcHeader) : KsRpcHeader :=
  { h with msgType := .reply, replyStatus := .msgAccepted, acceptStatus := .garbageArgs }

def KsRpcHeader.setRequest (h : KsRpcHeader)
    (xid progNumber progVersion procedure : UInt32) : KsRpcHeader :=
  { h with xid, msgType := .call, rpcVersion := 2, progNumber, progVersion, procedure }

end AcpltKs
