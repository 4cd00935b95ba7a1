import AcpltKs.RpcHeader.RoundTrip
import AcpltKs.Udp.Calls

/-! What a UDP server makes of a datagram: the bytes in its buffer are those of the datagram and,
behind them, whatever was there before; a header is looked for in all of them. -/
namespace AcpltKs
open ByteMemory

/-- The size of the buffer that a connection allocates. -/
def bufferLength (buffsize : ℕ) : ℕ := min (max buffsize 1024) 65500

theorem four_le_bufferLength (buffsize : ℕ) : 4 ≤ bufferLength buffsize := by
  unfold bufferLength
  omega

/-- These results of `recvfrom` end with a datagram; until then, it is interrupted. -/
def Brings (ios : List RecvOutcome) (d : Datagram) : Prop :=
  ∃ k rest, ios = List.replicate k (.fails .eintr) ++ .datagram d :: rest

namespace UdpEndpoint

/-- A server connection that has just been created, in memory `raw`. -/
def server (raw : KssUDPXDRConnection) (timeout retrytimeout : ULong)
    (clientAddr : Option SocketAddress) (buffsize : ℕ) : UdpEndpoint :=
  ⟨.create raw timeout retrytimeout clientAddr .server buffsize true true 0, []⟩

/-- A server that waits for a datagram. -/
structure Listens (e : UdpEndpoint) (buffsize : ℕ) : Prop where
  cnxType : e.con.cnxType = .server
  bufferSize : e.con.bufferSize = bufferLength buffsize
  fits : e.Fits
  idle : e.con.state = .idle

/-- The stream when a datagram has come into the buffer. -/
def filled (e : UdpEndpoint) (d : Datagram) : XdrMem :=
  ⟨.decode, write e.con.xdrs.buffer 0 (d.bytes.take e.con.bufferSize), 0, e.con.bufferSize⟩

variable {e : UdpEndpoint} {d : Datagram} {ios : List RecvOutcome} {buffsize : ℕ}

theorem server_listens {raw : KssUDPXDRConnection} {timeout retrytimeout : ULong}
    {clientAddr : Option SocketAddress} (cs : List UdpCall)
    (hidle : ((server raw timeout retrytimeout clientAddr buffsize).calls cs).con.state = .idle) :
    ((server raw timeout retrytimeout clientAddr buffsize).calls cs).Listens buffsize := by
  have hshaped := shaped_calls (server raw timeout retrytimeout clientAddr buffsize) cs
  obtain ⟨hfits, htype⟩ := create_fits raw timeout retrytimeout clientAddr .server buffsize true 0 []
  exact ⟨hshaped.cnxType.trans htype, hshaped.bufferSize, hshaped.fits hfits, hidle⟩

theorem receiveLoop_retries (e : UdpEndpoint) (k : ℕ) (ios : List RecvOutcome) :
    e.receiveLoop (List.replicate k (.fails .eintr) ++ ios) = e.receiveLoop ios := by
  induction k with
  | zero => rfl
  | succ k ih =>
    rw [List.replicate_succ, List.cons_append, receiveLoop]
    exact ih

/-- The datagram is read from the start of the buffer on. -/
theorem store_xdrs (hfits : e.Fits) (d : Datagram) :
    ((e.startStream .decode).store d).con.xdrs = e.filled d := by
  have hextent : e.con.xdrs.pos + e.con.xdrs.handy = e.con.bufferSize := hfits
  unfold store startStream filled
  simp only [XdrMem.setpos, Nat.not_lt_zero, if_false, setXdrs, note, hextent, Nat.sub_zero]
  cases e.con.cnxType <;> rfl

theorem store_frame (e : UdpEndpoint) (d : Datagram) :
    (e.store d).con.rpcHeader = e.con.rpcHeader ∧ (e.store d).con.cnxType = e.con.cnxType ∧
      (e.store d).con.state = e.con.state := by
  unfold store
  dsimp only
  split <;> exact ⟨rfl, rfl, rfl⟩

theorem receive_loop (hwaits : e.con.state = .idle ∨ e.con.state = .waiting)
    (ios : List RecvOutcome) : e.receive ios = (e.startStream .decode).receiveLoop ios := by
  unfold receive
  obtain hstate | hstate := hwaits
  · rw [hstate, if_neg (by decide), if_neg (by decide)]
  · rw [hstate, if_neg (by decide), if_neg (by decide)]

theorem receive_brings (hwaits : e.con.state = .idle ∨ e.con.state = .waiting)
    (h : Brings ios d) : (e.receive ios).2 = if 4 ≤ min d.bytes.length e.con.bufferSize then
      ((e.startStream .decode).store d).receiveMessage.2 else (e.startStream .decode).store d := by
  obtain ⟨k, rest, rfl⟩ := h
  rw [receive_loop hwaits, receiveLoop_retries, receiveLoop]
  have hsize : (e.startStream .decode).con.bufferSize = e.con.bufferSize := rfl
  rw [hsize]
  split <;> rfl

/-- A datagram without the first word of a header is dropped. -/
theorem receive_dropped (hidle : e.con.state = .idle) (h : Brings ios d)
    (hshort : d.bytes.length < 4) : (e.receive ios).2.con.state = .idle := by
  rw [receive_brings (.inl hidle) h, if_neg (by omega), (store_frame _ d).2.2]
  exact hidle

/-- A server becomes ready exactly if there is a header at the beginning of its buffer. -/
theorem Listens.receive_cases (hl : e.Listens buffsize) (h : Brings ios d)
    (hlen : 4 ≤ d.bytes.length) :
    (∃ msg : RpcMessage, msg.bytes.length ≤ e.con.bufferSize ∧
      read (e.filled d).buffer 0 msg.bytes.length = msg.bytes ∧
      (e.receive ios).2.con.state = .ready ∧
      (e.receive ios).2.con.rpcHeader = msg.apply e.con.rpcHeader ∧
      (e.receive ios).2.con.xdrs = (e.filled d).skip msg.bytes.length) ∨
    ((∀ msg : RpcMessage, msg.bytes.length ≤ e.con.bufferSize →
        read (e.filled d).buffer 0 msg.bytes.length ≠ msg.bytes) ∧
      (e.receive ios).2.con.state = .sending) := by
  have hsize := four_le_bufferLength buffsize
  rw [← hl.bufferSize] at hsize
  rw [receive_brings (.inl hl.idle) h, if_pos (by omega)]
  obtain ⟨hheader, htype, -⟩ := store_frame (e.startStream .decode) d
  have hxdrs := store_xdrs hl.fits d
  replace hheader : ((e.startStream .decode).store d).con.rpcHeader = e.con.rpcHeader := hheader
  replace htype : ((e.startStream .decode).store d).con.cnxType = .server := htype.trans hl.cnxType
  generalize (e.startStream .decode).store d = e₁ at hheader htype hxdrs ⊢
  unfold receiveMessage decodeHeader
  rw [htype, hheader, hxdrs]
  rcases hrun : e.con.rpcHeader.xdrDecode.run (e.filled d) with ⟨⟨ok, h'⟩, x'⟩
  cases ok with
  | true =>
    obtain ⟨msg, hroom, hread, rfl, rfl⟩ := xdrDecode_run_mem.mp hrun
    exact Or.inl ⟨msg, hroom, hread, rfl, rfl, rfl⟩
  | false =>
    refine Or.inr ⟨fun msg hroom hread => ?_, rfl⟩
    have haccepted := (xdrDecode_run_mem (h := e.con.rpcHeader)).mpr ⟨msg, hroom, hread, rfl, rfl⟩
    rw [hrun] at haccepted
    cases haccepted

/-- The bytes of the datagram, as far as they fit, are at the beginning of the buffer. -/
theorem read_filled {n : ℕ} (hn : n ≤ min d.bytes.length e.con.bufferSize) :
    read (e.filled d).buffer 0 n = d.bytes.take n := by
  have hlen : (d.bytes.take e.con.bufferSize).length = min e.con.bufferSize d.bytes.length :=
    List.length_take
  have hself := read_write_self e.con.xdrs.buffer 0 (d.bytes.take e.con.bufferSize)
  unfold filled
  dsimp only
  rw [← read_take _ 0 (show n ≤ (d.bytes.take e.con.bufferSize).length by omega), hself,
    List.take_take, Nat.min_eq_left (by omega)]

end UdpEndpoint
end AcpltKs
