import AcpltKs.RpcHeader.Messages
import AcpltKs.XdrMem

/-! A header that has been written out is read in again with every field of its shape, and a header
that has been read in is written out with the same bytes. -/
namespace AcpltKs
open ByteMemory

/-- The message a header stands for: its shape, and the fields that belong to this shape. -/
def KsRpcHeader.message (h : KsRpcHeader) : Option RpcMessage :=
  match h.msgType with
  | .call =>
      if h.rpcVersion = 2 then some (.call h.xid h.progNumber h.progVersion h.procedure) else none
  | .reply =>
      match h.replyStatus with
      | .msgAccepted =>
          if plain : h.acceptStatus.isPlain = true then some (.accepted h.xid h.acceptStatus plain)
          else if h.acceptStatus = .progMismatch then some (.progMismatch h.xid h.low h.high)
          else none
      | .msgDenied =>
          match h.rejectStatus with
          | .rpcMismatch => some (.rpcMismatch h.xid h.low h.high)
          | .authError => some (.authError h.xid h.authError)
          | .other _ => none
      | .other _ => none
  | .other _ => none

theorem RpcMessage.message_apply (h : KsRpcHeader) (msg : RpcMessage) :
    (msg.apply h).message = some msg := by
  cases msg with
  | accepted xid status plain => simp [apply, KsRpcHeader.message, plain]
  | call | progMismatch | rpcMismatch | authError =>
    simp [apply, KsRpcHeader.message, KsRpcAcceptStat.isPlain]

/-- The encoder sends the words of the message, and it is content with exactly the headers that
stand for one. -/
theorem KsRpcHeader.words_of_message {h : KsRpcHeader} {msg : RpcMessage}
    (hm : h.message = some msg) : h.words = (msg.words, true) := by
  obtain ⟨xid, type, version, number, progVersion, procedure, reply, accept, low, high, auth,
    reject⟩ := h
  cases type with
  | call =>
    simp only [message, Option.ite_none_right_eq_some, Option.some.injEq] at hm
    obtain ⟨rfl, rfl⟩ := hm
    rfl
  | reply =>
    cases reply with
    | msgAccepted =>
      cases accept <;> simp only [message, KsRpcAcceptStat.isPlain, ↓reduceDIte, ↓reduceIte,
        Bool.false_eq_true, Option.some.injEq, reduceCtorEq] at hm <;> subst hm <;> rfl
    | msgDenied =>
      cases reject <;> simp only [message, Option.some.injEq, reduceCtorEq] at hm <;> subst hm <;>
        rfl
    | other w => simp [message] at hm
  | other w => simp [message] at hm

theorem RpcMessage.bytes_length (msg : RpcMessage) : msg.bytes.length = 4 * msg.words.length :=
  wireBytes_length msg.words

/-- A header that stands for a message is written out if there is room. -/
theorem KsRpcHeader.xdrEncode_stored {h : KsRpcHeader} {msg : RpcMessage} {x : XdrMem}
    (hm : h.message = some msg) (hroom : msg.bytes.length ≤ x.handy) :
    h.xdrEncode x = (true, x.stored msg.bytes) := by
  have hbytes : (msg.words.map XdrItem.long).flatMap XdrItem.bytes = msg.bytes :=
    flatMap_long_bytes msg.words
  rw [xdrEncode, words_of_message hm, Payload.xdrEncode,
    xdrEncodeItems_stored _ (by rwa [hbytes]), hbytes]

/-- A header is read in from a memory stream exactly if it holds the bytes of a message. -/
theorem xdrDecode_run_mem {h h' : KsRpcHeader} {x x' : XdrMem} :
    h.xdrDecode.run x = ((true, h'), x') ↔
      ∃ msg : RpcMessage, msg.bytes.length ≤ x.handy ∧
        read x.buffer x.pos msg.bytes.length = msg.bytes ∧ h' = msg.apply h ∧
          x' = x.skip msg.bytes.length := by
  rw [xdrDecode_run_true]
  refine exists_congr fun msg => ?_
  rw [XdrMem.yields_iff, msg.bytes_length, RpcMessage.bytes]
  tauto

/-- The codec round-trips in both directions, whatever the header that is read into holds. -/
theorem rpcHeader_roundTrip (h : KsRpcHeader) :
    (∀ (sent : KsRpcHeader) (msg : RpcMessage) (buffer : ℕ → UInt8) (size rest : ℕ),
      sent.message = some msg → msg.bytes.length ≤ size →
        ∃ x, sent.xdrEncode (xdrmemCreate buffer size .encode) = (true, x) ∧
          ∃ h' x', h.xdrDecode.run (xdrmemCreate x.buffer (x.pos + rest) .decode) =
              ((true, h'), x') ∧
            x'.pos = x.pos ∧ h'.message = some msg) ∧
    (∀ (h' : KsRpcHeader) (buffer buffer' : ℕ → UInt8) (size : ℕ) (x' : XdrMem),
      h.xdrDecode.run (xdrmemCreate buffer size .decode) = ((true, h'), x') →
        ∃ x, h'.xdrEncode (xdrmemCreate buffer' size .encode) = (true, x) ∧
          x.pos = x'.pos ∧ read x.buffer 0 x.pos = read buffer 0 x'.pos) := by
  constructor
  · intro sent msg buffer size rest hm hroom
    let x := (xdrmemCreate buffer size .encode).stored msg.bytes
    have hpos : x.pos = msg.bytes.length := Nat.zero_add _
    have hread : read x.buffer 0 msg.bytes.length = msg.bytes :=
      XdrMem.read_stored (xdrmemCreate buffer size .encode) msg.bytes
    refine ⟨x, KsRpcHeader.xdrEncode_stored hm hroom, msg.apply h, _, xdrDecode_run_mem.mpr
      ⟨msg, ?_, hread, rfl, rfl⟩, ?_, msg.message_apply h⟩
    · rw [hpos]
      exact Nat.le_add_right _ _
    · rw [hpos]
      exact Nat.zero_add _
  · intro h' buffer buffer' size x' hrun
    obtain ⟨msg, hroom, hread, rfl, rfl⟩ := xdrDecode_run_mem.mp hrun
    refine ⟨_, KsRpcHeader.xdrEncode_stored (msg.message_apply h) hroom, rfl, ?_⟩
    have hstored := XdrMem.read_stored (xdrmemCreate buffer' size .encode) msg.bytes
    simpa [xdrmemCreate, XdrMem.skip] using hstored.trans hread.symm

/-- A rejected call, read into a fresh header. -/
theorem rpcHeader_roundTrip_authError :
    let sent : KsRpcHeader :=
      { xid := 7, msgType := .reply, replyStatus := .msgDenied, rejectStatus := .authError }
    ∃ x, sent.xdrEncode (xdrmemCreate (fun _ => 0) 64 .encode) = (true, x) ∧
      ∃ h' x', ({} : KsRpcHeader).xdrDecode.run (xdrmemCreate x.buffer (x.pos + 8) .decode) =
          ((true, h'), x') ∧
        x'.pos = x.pos ∧ h'.message = some (.authError 7 0) :=
  (rpcHeader_roundTrip {}).1 _ _ _ _ _ (by decide) (by decide)

end AcpltKs
