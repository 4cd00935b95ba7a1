import AcpltKs.RpcHeader.Basic

/-! The well-formed RPC messages and their headers on the wire; the decoder accepts exactly those,
and the encoder sends exactly those. -/
namespace AcpltKs

/-- A message that the decoder may accept. -/
inductive RpcMessage where
  | call (xid progNumber progVersion procedure : UInt32)
  | accepted (xid : UInt32) (status : KsRpcAcceptStat) (plain : status.isPlain = true)
  | progMismatch (xid low high : UInt32)
  | rpcMismatch (xid low high : UInt32)
  | authError (xid why : UInt32)
  deriving DecidableEq

namespace RpcMessage

/-- The header on the wire, without authentication. -/
def words : RpcMessage → List UInt32
  | call xid progNumber progVersion procedure =>
      [xid, 0, 2, progNumber, progVersion, procedure, 0, 0, 0, 0]
  | accepted xid status _ => [xid, 1, 0, 0, 0, status.toWord]
  | progMismatch xid low high => [xid, 1, 0, 0, 0, 2, low, high]
  | rpcMismatch xid low high => [xid, 1, 1, 0, low, high]
  | authError xid why => [xid, 1, 1, 1, why]

def bytes (msg : RpcMessage) : List UInt8 := wireBytes msg.words

def xid : RpcMessage → UInt32
  | call xid _ _ _ | accepted xid _ _ | progMismatch xid _ _ | rpcMismatch xid _ _
  | authError xid _ => xid

def isCall : RpcMessage → Bool
  | call .. => true
  | _ => false

/-- The fields a message of this shape sets in a header. -/
def apply (h : KsRpcHeader) : RpcMessage → KsRpcHeader
  | call xid progNumber progVersion procedure =>
      { h with xid, msgType := .call, rpcVersion := 2, progNumber, progVersion, procedure }
  | accepted xid status _ =>
      { h with xid, msgType := .reply, rpcVersion := 0, replyStatus := .msgAccepted,
               acceptStatus := status }
  | progMismatch xid low high =>
      { h with xid, msgType := .reply, rpcVersion := 0, replyStatus := .msgAccepted,
               acceptStatus := .progMismatch, low, high }
  | rpcMismatch xid low high =>
      { h with xid, msgType := .reply, rpcVersion := 0, replyStatus := .msgDenied,
               rejectStatus := .rpcMismatch, low, high }
  | authError xid why =>
      { h with xid, msgType := .reply, rpcVersion := 0, replyStatus := .msgDenied,
               rejectStatus := .authError, authError := why }

@[simp] theorem apply_xid (h : KsRpcHeader) (msg : RpcMessage) : (msg.apply h).xid = msg.xid := by
  cases msg <;> rfl

theorem words_length_le (msg : RpcMessage) : 2 ≤ msg.words.length ∧ msg.words.length ≤ 10 := by
  cases msg <;> simp [words]

theorem words_eq_cons (msg : RpcMessage) :
    ∃ ws, msg.words = msg.xid :: (if msg.isCall then 0 else 1) :: ws := by
  cases msg <;> exact ⟨_, rfl⟩

end RpcMessage

section Decode
variable {σ : Type*} [XdrSource σ] {s s' : σ} {h h' : KsRpcHeader}

theorem xdrULong_run_true {next : UInt32 → HeaderReader} :
    (xdrULong h next).run s = ((true, h'), s') ↔
      ∃ w s₁, XdrSource.getLong s = (some w, s₁) ∧ (next w).run s₁ = ((true, h'), s') := by
  rcases hg : XdrSource.getLong s with ⟨_ | w, s₁⟩ <;> simp [xdrULong, XdrReader.run, hg]

theorem done_run_true {a : KsRpcHeader} :
    (XdrReader.done (true, a)).run s = ((true, h'), s') ↔ a = h' ∧ s = s' := by
  simp [XdrReader.run]

@[simp] theorem not_done_run_true {a : KsRpcHeader} :
    ¬ (XdrReader.done (false, a)).run s = ((true, h'), s') := by
  simp [XdrReader.run]

theorem xdrAuthNone_run_true {next : HeaderReader} :
    (xdrAuthNone h next).run s = ((true, h'), s') ↔
      ∃ s₁, Yields s [0, 0] s₁ ∧ next.run s₁ = ((true, h'), s') := by
  simp only [xdrAuthNone, xdrULong_run_true]
  constructor
  · rintro ⟨v, s₁, hv, w, s₂, hw, hnext⟩
    split_ifs at hnext with hne
    · exact absurd hnext not_done_run_true
    · simp only [not_or, ne_eq, not_not] at hne
      exact ⟨s₂, ⟨s₁, hne.1 ▸ hv, s₂, hne.2 ▸ hw, rfl⟩, hnext⟩
  · rintro ⟨_, ⟨s₁, hv, s₂, hw, rfl⟩, hnext⟩
    exact ⟨0, s₁, hv, 0, s₂, hw, by simpa using hnext⟩

theorem xdrDecodeRange_run_true :
    h.xdrDecodeRange.run s = ((true, h'), s') ↔
      ∃ low high, Yields s [low, high] s' ∧ h' = { h with low, high } := by
  simp only [KsRpcHeader.xdrDecodeRange, xdrULong_run_true, done_run_true]
  constructor
  · rintro ⟨low, s₁, hlow, high, s₂, hhigh, rfl, rfl⟩
    exact ⟨low, high, ⟨s₁, hlow, s₂, hhigh, rfl⟩, rfl⟩
  · rintro ⟨low, high, ⟨s₁, hlow, s₂, hhigh, rfl⟩, rfl⟩
    exact ⟨low, s₁, hlow, high, s₂, hhigh, rfl, rfl⟩

theorem xdrDecodeCall_run_true :
    h.xdrDecodeCall.run s = ((true, h'), s') ↔
      ∃ progNumber progVersion procedure,
        Yields s [2, progNumber, progVersion, procedure, 0, 0, 0, 0] s' ∧
          h' = { h with rpcVersion := 2, progNumber, progVersion, procedure } := by
  simp only [KsRpcHeader.xdrDecodeCall, xdrULong_run_true]
  constructor
  · rintro ⟨version, s₁, h₁, progNumber, s₂, h₂, progVersion, s₃, h₃, procedure, s₄, h₄, hrest⟩
    split_ifs at hrest with hne
    · exact absurd hrest not_done_run_true
    · rw [ne_eq, not_not] at hne
      subst hne
      simp only [xdrAuthNone_run_true, done_run_true] at hrest
      obtain ⟨_, ⟨s₅, h₅, s₆, h₆, rfl⟩, _, hauth, rfl, rfl⟩ := hrest
      exact ⟨progNumber, progVersion, procedure, ⟨s₁, h₁, s₂, h₂, s₃, h₃, s₄, h₄, s₅, h₅, s₆, h₆,
        hauth⟩, rfl⟩
  · rintro ⟨progNumber, progVersion, procedure, ⟨s₁, h₁, s₂, h₂, s₃, h₃, s₄, h₄, s₅, h₅, s₆, h₆,
      hauth⟩, rfl⟩
    refine ⟨2, s₁, h₁, progNumber, s₂, h₂, progVersion, s₃, h₃, procedure, s₄, h₄, ?_⟩
    simp only [ne_eq, not_true_eq_false, ↓reduceIte, xdrAuthNone_run_true, done_run_true]
    exact ⟨s₆, ⟨s₅, h₅, s₆, h₆, rfl⟩, s', hauth, trivial, rfl⟩

@[simp] theorem KsRpcAcceptStat.toWord_ofWord (w : UInt32) :
    (KsRpcAcceptStat.ofWord w).toWord = w := by
  unfold KsRpcAcceptStat.ofWord
  split_ifs <;> simp_all [KsRpcAcceptStat.toWord]

theorem KsRpcAcceptStat.ofWord_toWord {status : KsRpcAcceptStat} (h : status.isPlain = true) :
    KsRpcAcceptStat.ofWord status.toWord = status := by
  cases status <;> first | rfl | simp [isPlain] at h

/-- The accepted shapes of a reply behind its message type. -/
theorem xdrDecodeReply_run_true :
    h.xdrDecodeReply.run s = ((true, h'), s') ↔
      (∃ status : KsRpcAcceptStat, status.isPlain = true ∧ Yields s [0, 0, 0, status.toWord] s' ∧
        h' = { h with replyStatus := .msgAccepted, acceptStatus := status }) ∨
      (∃ low high, Yields s [0, 0, 0, 2, low, high] s' ∧
        h' = { h with replyStatus := .msgAccepted, acceptStatus := .progMismatch, low, high }) ∨
      (∃ low high, Yields s [1, 0, low, high] s' ∧
        h' = { h with replyStatus := .msgDenied, rejectStatus := .rpcMismatch, low, high }) ∨
      (∃ why, Yields s [1, 1, why] s' ∧
        h' = { h with
          replyStatus := .msgDenied, rejectStatus := .authError, authError := why }) := by
  simp only [KsRpcHeader.xdrDecodeReply, xdrULong_run_true]
  constructor
  · rintro ⟨reply, s₁, h₁, hrest⟩
    by_cases hacc : reply = 0
    · subst hacc
      simp only [KsRpcReplyStat.ofWord, ↓reduceIte, xdrAuthNone_run_true,
        xdrULong_run_true] at hrest
      obtain ⟨_, ⟨s₂, h₂, s₃, h₃, rfl⟩, w, s₄, h₄, hstat⟩ := hrest
      rcases hst : KsRpcAcceptStat.ofWord w <;> simp only [hst] at hstat
      case progMismatch =>
        obtain ⟨low, high, hy, rfl⟩ := xdrDecodeRange_run_true.mp hstat
        have hw : w = 2 := by rw [← KsRpcAcceptStat.toWord_ofWord w, hst]; rfl
        exact Or.inr (Or.inl ⟨low, high, ⟨s₁, h₁, s₂, h₂, s₃, h₃, s₄, hw ▸ h₄, hy⟩, rfl⟩)
      case other => exact absurd hstat not_done_run_true
      all_goals
        obtain ⟨rfl, rfl⟩ := done_run_true.mp hstat
        refine Or.inl ⟨_, ?_, ⟨s₁, h₁, s₂, h₂, s₃, h₃, s₄, ?_, rfl⟩, rfl⟩
        · rfl
        · rw [h₄, ← hst, KsRpcAcceptStat.toWord_ofWord]
    · by_cases hden : reply = 1
      · subst hden
        simp only [KsRpcReplyStat.ofWord, hacc, ↓reduceIte, xdrULong_run_true] at hrest
        obtain ⟨w, s₂, h₂, hstat⟩ := hrest
        by_cases hrpc : w = 0
        · subst hrpc
          simp only [KsRpcRejectStat.ofWord, ↓reduceIte] at hstat
          obtain ⟨low, high, hy, rfl⟩ := xdrDecodeRange_run_true.mp hstat
          exact Or.inr (Or.inr (Or.inl ⟨low, high, ⟨s₁, h₁, s₂, h₂, hy⟩, rfl⟩))
        · by_cases hauth : w = 1
          · subst hauth
            simp only [KsRpcRejectStat.ofWord, hrpc, ↓reduceIte, xdrULong_run_true,
              done_run_true] at hstat
            obtain ⟨why, s₃, h₃, rfl, rfl⟩ := hstat
            exact Or.inr (Or.inr (Or.inr ⟨why, ⟨s₁, h₁, s₂, h₂, s₃, h₃, rfl⟩, rfl⟩))
          · simp [KsRpcRejectStat.ofWord, hrpc, hauth] at hstat
      · simp [KsRpcReplyStat.ofWord, hacc, hden] at hrest
  · rintro (⟨status, hplain, ⟨s₁, h₁, s₂, h₂, s₃, h₃, s₄, h₄, rfl⟩, rfl⟩ |
      ⟨low, high, ⟨s₁, h₁, s₂, h₂, s₃, h₃, s₄, h₄, hy⟩, rfl⟩ |
      ⟨low, high, ⟨s₁, h₁, s₂, h₂, hy⟩, rfl⟩ | ⟨why, ⟨s₁, h₁, s₂, h₂, s₃, h₃, rfl⟩, rfl⟩)
    · refine ⟨0, s₁, h₁, ?_⟩
      simp only [KsRpcReplyStat.ofWord, ↓reduceIte, xdrAuthNone_run_true, xdrULong_run_true]
      refine ⟨s₃, ⟨s₂, h₂, s₃, h₃, rfl⟩, _, s₄, h₄, ?_⟩
      rw [KsRpcAcceptStat.ofWord_toWord hplain]
      cases status <;> first | rfl | simp [KsRpcAcceptStat.isPlain] at hplain
    · refine ⟨0, s₁, h₁, ?_⟩
      simp only [KsRpcReplyStat.ofWord, ↓reduceIte, xdrAuthNone_run_true, xdrULong_run_true]
      exact ⟨s₃, ⟨s₂, h₂, s₃, h₃, rfl⟩, 2, s₄, h₄,
        xdrDecodeRange_run_true.mpr ⟨low, high, hy, rfl⟩⟩
    · refine ⟨1, s₁, h₁, xdrULong_run_true.mpr ⟨0, s₂, h₂, ?_⟩⟩
      exact xdrDecodeRange_run_true.mpr ⟨low, high, hy, rfl⟩
    · refine ⟨1, s₁, h₁, xdrULong_run_true.mpr ⟨1, s₂, h₂, ?_⟩⟩
      exact xdrULong_run_true.mpr ⟨why, s₃, h₃, rfl⟩

/-- The decoder accepts a header exactly if the stream hands out the words of a message. -/
theorem xdrDecode_run_true :
    h.xdrDecode.run s = ((true, h'), s') ↔
      ∃ msg : RpcMessage, Yields s msg.words s' ∧ h' = msg.apply h := by
  simp only [KsRpcHeader.xdrDecode, xdrULong_run_true]
  constructor
  · rintro ⟨xid, s₁, h₁, type, s₂, h₂, hrest⟩
    by_cases hcall : type = 0
    · subst hcall
      simp only [KsRpcMsgType.ofWord, ↓reduceIte, xdrDecodeCall_run_true] at hrest
      obtain ⟨progNumber, progVersion, procedure, hy, rfl⟩ := hrest
      exact ⟨.call xid progNumber progVersion procedure, ⟨s₁, h₁, s₂, h₂, hy⟩, rfl⟩
    · by_cases hreply : type = 1
      · subst hreply
        simp only [KsRpcMsgType.ofWord, hcall, ↓reduceIte, xdrDecodeReply_run_true] at hrest
        obtain ⟨status, hplain, hy, rfl⟩ | ⟨low, high, hy, rfl⟩ | ⟨low, high, hy, rfl⟩ |
          ⟨why, hy, rfl⟩ := hrest
        · exact ⟨.accepted xid status hplain, ⟨s₁, h₁, s₂, h₂, hy⟩, rfl⟩
        · exact ⟨.progMismatch xid low high, ⟨s₁, h₁, s₂, h₂, hy⟩, rfl⟩
        · exact ⟨.rpcMismatch xid low high, ⟨s₁, h₁, s₂, h₂, hy⟩, rfl⟩
        · exact ⟨.authError xid why, ⟨s₁, h₁, s₂, h₂, hy⟩, rfl⟩
      · simp [KsRpcMsgType.ofWord, hcall, hreply] at hrest
  · rintro ⟨msg, hy, rfl⟩
    cases msg with
    | call xid progNumber progVersion procedure =>
      obtain ⟨s₁, h₁, s₂, h₂, hy⟩ := hy
      refine ⟨xid, s₁, h₁, 0, s₂, h₂, xdrDecodeCall_run_true.mpr ?_⟩
      exact ⟨progNumber, progVersion, procedure, hy, rfl⟩
    | accepted xid status plain =>
      obtain ⟨s₁, h₁, s₂, h₂, hy⟩ := hy
      refine ⟨xid, s₁, h₁, 1, s₂, h₂, xdrDecodeReply_run_true.mpr ?_⟩
      exact Or.inl ⟨status, plain, hy, rfl⟩
    | progMismatch xid low high =>
      obtain ⟨s₁, h₁, s₂, h₂, hy⟩ := hy
      refine ⟨xid, s₁, h₁, 1, s₂, h₂, xdrDecodeReply_run_true.mpr ?_⟩
      exact Or.inr (Or.inl ⟨low, high, hy, rfl⟩)
    | rpcMismatch xid low high =>
      obtain ⟨s₁, h₁, s₂, h₂, hy⟩ := hy
      refine ⟨xid, s₁, h₁, 1, s₂, h₂, xdrDecodeReply_run_true.mpr ?_⟩
      exact Or.inr (Or.inr (Or.inl ⟨low, high, hy, rfl⟩))
    | authError xid why =>
      obtain ⟨s₁, h₁, s₂, h₂, hy⟩ := hy
      refine ⟨xid, s₁, h₁, 1, s₂, h₂, xdrDecodeReply_run_true.mpr ?_⟩
      exact Or.inr (Or.inr (Or.inr ⟨why, hy, rfl⟩))

theorem xdrULong_givesUp {next : UInt32 → HeaderReader} (hnext : ∀ w, (next w).GivesUp) :
    (xdrULong h next).GivesUp :=
  ⟨⟨_, rfl⟩, hnext⟩

theorem xdrAuthNone_givesUp {next : HeaderReader} (hnext : next.GivesUp) :
    (xdrAuthNone h next).GivesUp := by
  refine xdrULong_givesUp fun v => xdrULong_givesUp fun w => ?_
  split
  · trivial
  · exact hnext

theorem xdrDecodeRange_givesUp : h.xdrDecodeRange.GivesUp :=
  xdrULong_givesUp fun _ => xdrULong_givesUp fun _ => trivial

theorem xdrDecodeCall_givesUp : h.xdrDecodeCall.GivesUp := by
  refine xdrULong_givesUp fun v => xdrULong_givesUp fun w => xdrULong_givesUp fun x =>
    xdrULong_givesUp fun y => ?_
  dsimp only
  split
  · trivial
  · exact xdrAuthNone_givesUp (xdrAuthNone_givesUp trivial)

theorem xdrDecodeReply_givesUp : h.xdrDecodeReply.GivesUp := by
  refine xdrULong_givesUp fun v => ?_
  dsimp only
  split
  · refine xdrAuthNone_givesUp (xdrULong_givesUp fun w => ?_)
    split <;> first | trivial | exact xdrDecodeRange_givesUp
  · refine xdrULong_givesUp fun w => ?_
    split
    · exact xdrDecodeRange_givesUp
    · exact xdrULong_givesUp fun x => trivial
    · trivial
  · trivial

/-- The header is not read on behind the end of the stream. -/
theorem xdrDecode_givesUp : h.xdrDecode.GivesUp := by
  refine xdrULong_givesUp fun v => xdrULong_givesUp fun w => ?_
  dsimp only
  split
  · exact xdrDecodeCall_givesUp
  · exact xdrDecodeReply_givesUp
  · trivial

end Decode

section Encode
variable (h : KsRpcHeader)

theorem words_acceptCall :
    h.acceptCall.words = ((RpcMessage.accepted h.xid .success rfl).words, true) := rfl

theorem words_setDecodeError :
    h.setDecodeError.words = ((RpcMessage.accepted h.xid .garbageArgs rfl).words, true) := rfl

theorem words_setRequest (xid progNumber progVersion procedure : UInt32) :
    (h.setRequest xid progNumber progVersion procedure).words =
      ((RpcMessage.call xid progNumber progVersion procedure).words, true) := rfl

theorem flatMap_long_bytes (ws : List UInt32) :
    (ws.map XdrItem.long).flatMap XdrItem.bytes = wireBytes ws := by
  simp [List.flatMap_map, wireBytes, XdrItem.bytes]

/-- A header with the words of a message is appended to the stream as that message. -/
theorem xdrEncode_encoding {size : ℕ} {pool : Pool} {s : MemStream} {bs : List UInt8}
    {h : KsRpcHeader} {msg : RpcMessage} (hwords : h.words = (msg.words, true))
    (henc : s.Encoding size bs) (hpool : pool.memStreamBufferSize = size) (hsize : LegalSize size)
    (hbs : 4 ∣ bs.length) {ok : Bool} {m : Mem} (hp : h.xdrEncode (pool, s) = (ok, m)) :
    m.1.memStreamBufferSize = size ∧ (∃ cs, m.2.Encoding size cs) ∧
      (ok = true → m.2.Encoding size (bs ++ msg.bytes)) := by
  have hspec := Payload.xdrEncode_encoding henc hpool hsize hbs
    ⟨h.words.1.map .long, h.words.2⟩ hp
  rwa [Payload.bytes, flatMap_long_bytes, hwords] at hspec

/-- In a fresh stream there is room for any header. -/
theorem xdrEncode_ok (pool : Pool) {s : MemStream} {h : KsRpcHeader} {msg : RpcMessage}
    (hwords : h.words = (msg.words, true)) (hroom : 40 ≤ s.handy) :
    (h.xdrEncode (pool, s)).1 = true := by
  have hlen := msg.words_length_le.2
  have hfits : 4 * msg.words.length ≤ s.handy := by omega
  have hitems := xdrEncodeItems_longs_ok (pool, s) msg.words hfits
  rcases hp : xdrEncodeItems (pool, s) (msg.words.map .long) with ⟨ok, m⟩
  rw [hp] at hitems
  simp only at hitems
  subst hitems
  simp only [KsRpcHeader.xdrEncode, Payload.xdrEncode, hwords, hp]

end Encode

end AcpltKs
