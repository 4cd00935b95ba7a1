import AcpltKs.Connection
import AcpltKs.RpcHeader.RoundTrip
import AcpltKs.XdrCodec

/-! Calls are for servers, and replies are for the clients that wait for them. The decoder does not
know about that, nor where a message ends. -/
namespace AcpltKs

/-- A server takes any call, a client the reply to its request `xid`. -/
def RpcMessage.IsFor (type : ConnectionType) (xid : UInt32) (msg : RpcMessage) : Prop :=
  match type with
  | .server => msg.isCall = true
  | .client => msg.isCall = false ∧ msg.xid = xid

/-- The header is that of a message for the connection, and the bytes received carry it. -/
def Carries (type : ConnectionType) (xid : UInt32) (bytes : List UInt8) (h : KsRpcHeader) : Prop :=
  ∃ msg : RpcMessage, msg.bytes <+: bytes ∧ msg.IsFor type xid ∧ h.message = some msg

/-- At the beginning of the stream there is the header of a message that is not for the connection,
or that reaches beyond the bytes received. A client looks no further than the transaction id. -/
def Misleads {σ : Type*} [XdrSource σ] (type : ConnectionType) (xid : UInt32) (s : σ)
    (bytes : List UInt8) : Prop :=
  ∃ msg : RpcMessage, (∃ s', Yields s msg.words s') ∧ (type = .client → msg.xid = xid) ∧
    ¬ (msg.IsFor type xid ∧ msg.bytes <+: bytes)

/-- The error reply to a message that cannot be decoded. -/
def KsRpcHeader.IsDecodeError (h : KsRpcHeader) : Prop :=
  ∃ xid plain, h.message = some (.accepted xid .garbageArgs plain)

theorem setDecodeError_isDecodeError (h : KsRpcHeader) : h.setDecodeError.IsDecodeError :=
  ⟨h.xid, rfl, rfl⟩

/-- What is accepted is a message for the connection, carried by the bytes received, unless they
mislead it. -/
theorem accepted_carries_iff {σ : Type*} [XdrSource σ] (s : σ) (bytes : List UInt8)
    (h : KsRpcHeader) (type : ConnectionType) (xid : UInt32) :
    ((h.xdrDecode.run s).1.1 = true → (type = .client → (h.xdrDecode.run s).1.2.xid = xid) →
        Carries type xid bytes (h.xdrDecode.run s).1.2) ↔ ¬ Misleads type xid s bytes := by
  constructor
  · rintro hcarries ⟨msg, ⟨s', hyields⟩, hxid, hnot⟩
    have hrun : h.xdrDecode.run s = ((true, msg.apply h), s') :=
      xdrDecode_run_true.mpr ⟨msg, hyields, rfl⟩
    rw [hrun] at hcarries
    obtain ⟨msg', hprefix, hfor, hmessage⟩ := hcarries rfl fun hclient => by
      rw [msg.apply_xid, hxid hclient]
    rw [msg.message_apply] at hmessage
    obtain rfl := Option.some.inj hmessage
    exact hnot ⟨hfor, hprefix⟩
  · intro hclear hok hxid
    rcases hrun : h.xdrDecode.run s with ⟨⟨ok, h'⟩, s'⟩
    rw [hrun] at hok hxid
    obtain rfl : ok = true := hok
    obtain ⟨msg, hyields, rfl⟩ := xdrDecode_run_true.mp hrun
    by_contra hnot
    refine hclear ⟨msg, ⟨s', hyields⟩, fun hclient => ?_, ?_⟩
    · rw [← hxid hclient, msg.apply_xid]
    · rintro ⟨hfor, hprefix⟩
      exact hnot ⟨msg, hprefix, hfor, msg.message_apply h⟩

section Xid
/-- Whatever the decoder comes to, the header has this transaction id. -/
def KeepsXid (xid : UInt32) (r : HeaderReader) : Prop := ∀ res, r.MayReturn res → res.2.xid = xid

variable {h : KsRpcHeader} {xid : UInt32}

theorem done_keepsXid {ok : Bool} (hxid : h.xid = xid) : KeepsXid xid (.done (ok, h)) := by
  rintro res rfl
  exact hxid

theorem xdrULong_keepsXid {next : UInt32 → HeaderReader} (hxid : h.xid = xid)
    (hnext : ∀ w, KeepsXid xid (next w)) : KeepsXid xid (xdrULong h next) := by
  rintro res ⟨_ | w, hres⟩
  · exact done_keepsXid hxid res hres
  · exact hnext w res hres

theorem xdrAuthNone_keepsXid {next : HeaderReader} (hxid : h.xid = xid)
    (hnext : KeepsXid xid next) : KeepsXid xid (xdrAuthNone h next) := by
  apply xdrULong_keepsXid hxid
  intro v
  apply xdrULong_keepsXid hxid
  intro w
  split
  · exact done_keepsXid hxid
  · exact hnext

theorem xdrDecodeRange_keepsXid (hxid : h.xid = xid) : KeepsXid xid h.xdrDecodeRange :=
  xdrULong_keepsXid hxid fun _ => xdrULong_keepsXid hxid fun _ => done_keepsXid hxid

theorem xdrDecodeCall_keepsXid (hxid : h.xid = xid) : KeepsXid xid h.xdrDecodeCall := by
  refine xdrULong_keepsXid hxid fun v => xdrULong_keepsXid hxid fun w =>
    xdrULong_keepsXid hxid fun x => xdrULong_keepsXid hxid fun y => ?_
  dsimp only
  split
  · exact done_keepsXid hxid
  · exact xdrAuthNone_keepsXid hxid (xdrAuthNone_keepsXid hxid (done_keepsXid hxid))

theorem xdrDecodeReply_keepsXid (hxid : h.xid = xid) : KeepsXid xid h.xdrDecodeReply := by
  refine xdrULong_keepsXid hxid fun v => ?_
  dsimp only
  split
  · refine xdrAuthNone_keepsXid hxid (xdrULong_keepsXid hxid fun w => ?_)
    split
    all_goals first | exact done_keepsXid hxid | exact xdrDecodeRange_keepsXid hxid
  · refine xdrULong_keepsXid hxid fun w => ?_
    split
    · exact xdrDecodeRange_keepsXid hxid
    · exact xdrULong_keepsXid hxid fun x => done_keepsXid hxid
    · exact done_keepsXid hxid
  · exact done_keepsXid hxid

theorem KeepsXid.run {r : HeaderReader} (hr : KeepsXid xid r) {σ : Type*} [XdrSource σ] (s : σ) :
    (r.run s).1.2.xid = xid :=
  hr _ (r.mayReturn_run s)

/-- The transaction id is the first word, and nothing changes it afterwards. -/
theorem xdrDecode_xid {σ : Type*} [XdrSource σ] {s s' : σ} {w : UInt32}
    (hfirst : XdrSource.getLong s = (some w, s')) : (h.xdrDecode.run s).1.2.xid = w := by
  unfold KsRpcHeader.xdrDecode
  dsimp only
  unfold xdrULong
  rw [XdrReader.run, hfirst]
  apply KeepsXid.run
  apply xdrULong_keepsXid rfl
  intro v
  dsimp only
  split
  · exact xdrDecodeCall_keepsXid rfl
  · exact xdrDecodeReply_keepsXid rfl
  · exact done_keepsXid rfl

end Xid

end AcpltKs
