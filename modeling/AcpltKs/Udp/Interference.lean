import AcpltKs.Udp.Datagrams

/-! Two histories of a UDP server that end with the same datagram. What was in the buffer before can
be told from what is decoded of the datagram, unless the datagram fills the buffer or is refused. -/
namespace AcpltKs
open ByteMemory

namespace XdrMem

/-- Two streams in front of the same bytes. -/
structure Alike (x y : XdrMem) : Prop where
  pos : x.pos = y.pos
  handy : x.handy = y.handy
  cells : ∀ i < x.handy, x.buffer (x.pos + i) = y.buffer (x.pos + i)

variable {x y : XdrMem} {n : ℕ}

theorem Alike.read (h : x.Alike y) (hn : n ≤ x.handy) :
    read x.buffer x.pos n = read y.buffer y.pos n := by
  rw [← h.pos]
  apply read_congr
  intro i hi
  exact h.cells i (by omega)

theorem Alike.skip (h : x.Alike y) (hn : n ≤ x.handy) : (x.skip n).Alike (y.skip n) := by
  refine ⟨?_, ?_, fun i hi => ?_⟩
  · exact congrArg (· + n) h.pos
  · exact congrArg (· - n) h.handy
  · have hcell := h.cells (n + i) (by simp only [XdrMem.skip] at hi; omega)
    simpa only [XdrMem.skip, Nat.add_assoc] using hcell

/-- A decoder is told the same by both. -/
theorem Alike.run {α : Type*} (h : x.Alike y) (r : XdrReader α) : (r.run x).1 = (r.run y).1 := by
  induction r generalizing x y with
  | done a => rfl
  | long next ih =>
    change ((next x.getLong.1).run x.getLong.2).1 = ((next y.getLong.1).run y.getLong.2).1
    unfold getLong
    rw [← h.handy]
    by_cases hshort : x.handy < 4
    · rw [if_pos hshort, if_pos hshort]
      exact ih none h
    · rw [if_neg hshort, if_neg hshort, h.read (by omega)]
      have hskip := ih (some (BigEndian.decode (ByteMemory.read y.buffer y.pos 4)))
        (h.skip (n := 4) (by omega))
      unfold XdrMem.skip at hskip
      rw [← h.handy] at hskip
      exact hskip
  | octets len next ih =>
    change ((next (x.getBytes len).1).run (x.getBytes len).2).1 =
      ((next (y.getBytes len).1).run (y.getBytes len).2).1
    unfold getBytes
    rw [← h.handy]
    by_cases hshort : x.handy < len
    · rw [if_pos hshort, if_pos hshort]
      exact ih none h
    · rw [if_neg hshort, if_neg hshort, h.read (by omega)]
      have hskip := ih (some (ByteMemory.read y.buffer y.pos len)) (h.skip (n := len) (by omega))
      unfold XdrMem.skip at hskip
      rw [← h.handy] at hskip
      exact hskip

/-- Decoding leaves the buffer alone. -/
theorem run_buffer {α : Type*} (r : XdrReader α) (x : XdrMem) : (r.run x).2.buffer = x.buffer := by
  induction r generalizing x with
  | done a => rfl
  | long next ih =>
    refine (ih x.getLong.1 x.getLong.2).trans ?_
    unfold getLong
    split <;> rfl
  | octets len next ih =>
    refine (ih (x.getBytes len).1 (x.getBytes len).2).trans ?_
    unfold getBytes
    split <;> rfl

end XdrMem

/-- The bytes are neither the beginning of a message header, nor do they begin with one. -/
def Malformed (bs : List UInt8) : Prop :=
  ∀ msg : RpcMessage, ¬ msg.bytes <+: bs ∧ ¬ bs <+: msg.bytes

/-- There is at most one message at a place. -/
theorem RpcMessage.eq_of_read {b : ℕ → UInt8} {msg msg' : RpcMessage}
    (h : read b 0 msg.bytes.length = msg.bytes) (h' : read b 0 msg'.bytes.length = msg'.bytes) :
    msg = msg' := by
  let size := msg.bytes.length + msg'.bytes.length
  have hrun := (xdrDecode_run_mem (h := {}) (x := xdrmemCreate b size .decode)).mpr
    ⟨msg, Nat.le_add_right _ _, h, rfl, rfl⟩
  have hrun' := (xdrDecode_run_mem (h := {}) (x := xdrmemCreate b size .decode)).mpr
    ⟨msg', Nat.le_add_left _ _, h', rfl, rfl⟩
  rw [hrun] at hrun'
  have happly : msg.apply {} = msg'.apply {} := congrArg (fun r => r.1.2) hrun'
  have hmessage := msg.message_apply {}
  rw [happly, msg'.message_apply {}] at hmessage
  exact (Option.some.inj hmessage).symm

namespace UdpEndpoint

/-- A datagram has been received in the same way: with the same outcome and the same header, and
whatever a handler then reads does not tell the two connections apart. -/
structure ReceivedAlike (e₁ e₂ : UdpEndpoint) : Prop where
  state : e₁.con.state = e₂.con.state
  header : e₁.con.state = .ready → e₁.con.rpcHeader.message = e₂.con.rpcHeader.message
  reads : e₁.con.state = .ready → ∀ (α : Type) (r : XdrReader α),
    (e₁.decode r).1 = (e₂.decode r).1

/-- The datagram is received in the same way after any two histories. -/
def NonInterfering (s₁ s₂ : UdpEndpoint) (d : Datagram) : Prop :=
  ∀ cs₁ cs₂ ios₁ ios₂, (s₁.calls cs₁).con.state = .idle → (s₂.calls cs₂).con.state = .idle →
    Brings ios₁ d → Brings ios₂ d →
      ReceivedAlike ((s₁.calls cs₁).receive ios₁).2 ((s₂.calls cs₂).receive ios₂).2

variable {e e₁ e₂ : UdpEndpoint} {d : Datagram} {ios ios₁ ios₂ : List RecvOutcome} {buffsize : ℕ}

/-- A message that is found in the buffer goes with the datagram. -/
theorem agrees_of_read {msg : RpcMessage} (hroom : msg.bytes.length ≤ e.con.bufferSize)
    (hread : read (e.filled d).buffer 0 msg.bytes.length = msg.bytes) :
    msg.bytes <+: d.bytes ∨ d.bytes <+: msg.bytes := by
  by_cases hlen : msg.bytes.length ≤ d.bytes.length
  · left
    rw [read_filled (by omega)] at hread
    exact List.prefix_iff_eq_take.mpr hread.symm
  · right
    have hfilled := read_filled (e := e) (d := d) (n := d.bytes.length) (by omega)
    rw [List.take_length, ← read_take _ 0 (by omega : d.bytes.length ≤ msg.bytes.length),
      hread] at hfilled
    exact List.prefix_iff_eq_take.mpr hfilled.symm

/-- What fills the buffer is all there is to be decoded. -/
theorem filled_alike (h₁ : e₁.Listens buffsize) (h₂ : e₂.Listens buffsize)
    (hlen : bufferLength buffsize ≤ d.bytes.length) : (e₁.filled d).Alike (e₂.filled d) := by
  refine ⟨rfl, h₁.bufferSize.trans h₂.bufferSize.symm, fun i hi => ?_⟩
  have hread₁ := read_filled (e := e₁) (d := d) (n := bufferLength buffsize)
    (by rw [h₁.bufferSize]; omega)
  have hread₂ := read_filled (e := e₂) (d := d) (n := bufferLength buffsize)
    (by rw [h₂.bufferSize]; omega)
  rw [← hread₂] at hread₁
  have hi' : i < bufferLength buffsize := h₁.bufferSize ▸ hi
  exact cell_of_read hread₁ hi'

/-- Connections that get ready in front of the same bytes. -/
theorem receivedAlike_of_alike (h₁ : e₁.Listens buffsize) (h₂ : e₂.Listens buffsize)
    (hb₁ : Brings ios₁ d) (hb₂ : Brings ios₂ d) (hlen : 4 ≤ d.bytes.length)
    (halike : (e₁.filled d).Alike (e₂.filled d)) :
    ReceivedAlike (e₁.receive ios₁).2 (e₂.receive ios₂).2 := by
  have hsize : e₁.con.bufferSize = e₂.con.bufferSize := h₁.bufferSize.trans h₂.bufferSize.symm
  have hsame : ∀ n ≤ e₁.con.bufferSize,
      read (e₁.filled d).buffer 0 n = read (e₂.filled d).buffer 0 n :=
    fun n hn => halike.read hn
  obtain ⟨msg₁, hroom₁, hread₁, hready₁, hheader₁, hxdrs₁⟩ | ⟨hnone₁, hstate₁⟩ :=
    h₁.receive_cases hb₁ hlen
  · obtain ⟨msg₂, hroom₂, hread₂, hready₂, hheader₂, hxdrs₂⟩ | ⟨hnone₂, -⟩ :=
      h₂.receive_cases hb₂ hlen
    · rw [← hsame _ (hsize ▸ hroom₂)] at hread₂
      obtain rfl := RpcMessage.eq_of_read hread₁ hread₂
      refine ⟨hready₁.trans hready₂.symm, fun _ => ?_, fun _ α r => ?_⟩
      · rw [hheader₁, hheader₂, msg₁.message_apply, msg₁.message_apply]
      · unfold decode
        rw [hxdrs₁, hxdrs₂]
        exact (halike.skip hroom₁).run r
    · exact absurd ((hsame _ hroom₁).symm.trans hread₁) (hnone₂ msg₁ (hsize ▸ hroom₁))
  · obtain ⟨msg₂, hroom₂, hread₂, -⟩ | ⟨-, hstate₂⟩ := h₂.receive_cases hb₂ hlen
    · exact absurd ((hsame _ (hsize ▸ hroom₂)).trans hread₂) (hnone₁ msg₂ (hsize ▸ hroom₂))
    · refine ⟨hstate₁.trans hstate₂.symm, fun hready => ?_, fun hready => ?_⟩
      · rw [hstate₁] at hready
        cases hready
      · rw [hstate₁] at hready
        cases hready

/-- Connections that do not get ready. -/
theorem receivedAlike_of_state (hstate : (e₁.receive ios₁).2.con.state =
    (e₂.receive ios₂).2.con.state) (hne : (e₁.receive ios₁).2.con.state ≠ .ready) :
    ReceivedAlike (e₁.receive ios₁).2 (e₂.receive ios₂).2 :=
  ⟨hstate, fun hready => absurd hready hne, fun hready => absurd hready hne⟩

/-- A datagram that is refused whatever stands behind it. -/
theorem receive_malformed (h : e.Listens buffsize) (hb : Brings ios d)
    (hlen : 4 ≤ d.bytes.length) (hbad : Malformed d.bytes) :
    (e.receive ios).2.con.state = .sending := by
  obtain ⟨msg, hroom, hread, -⟩ | ⟨-, hstate⟩ := h.receive_cases hb hlen
  · obtain hprefix | hprefix := agrees_of_read hroom hread
    · exact absurd hprefix (hbad msg).1
    · exact absurd hprefix (hbad msg).2
  · exact hstate

/-- What a server has in its buffer after a datagram and a reset. -/
theorem receive_reset (h : e.Listens buffsize) (hb : Brings ios d) :
    (e.receive ios).2.reset.2.con.state = .idle ∧
      (e.receive ios).2.reset.2.con.xdrs.buffer = (e.filled d).buffer := by
  have hframe := store_frame (e.startStream .decode) d
  have hxdrs := store_xdrs h.fits d
  have htype : ((e.startStream .decode).store d).con.cnxType = .server :=
    hframe.2.1.trans h.cnxType
  have hidle : ((e.startStream .decode).store d).con.state = .idle := hframe.2.2.trans h.idle
  rw [receive_brings (.inl h.idle) hb]
  generalize (e.startStream .decode).store d = e₁ at hxdrs htype hidle ⊢
  have hreset (e' : UdpEndpoint) (hdead : e'.con.state ≠ .dead) (hserver : e'.con.cnxType = .server)
      (hbuffer : e'.con.xdrs.buffer = (e.filled d).buffer) :
      e'.reset.2.con.state = .idle ∧ e'.reset.2.con.xdrs.buffer = (e.filled d).buffer := by
    unfold reset
    rw [if_neg hdead, hserver]
    exact ⟨rfl, hbuffer⟩
  split_ifs
  · unfold receiveMessage decodeHeader
    rw [htype, hxdrs]
    have hrun := XdrMem.run_buffer e₁.con.rpcHeader.xdrDecode (e.filled d)
    rcases hdecoded : e₁.con.rpcHeader.xdrDecode.run (e.filled d) with ⟨⟨ok, h'⟩, x'⟩
    rw [hdecoded] at hrun
    cases ok with
    | true => exact hreset _ nofun htype hrun
    | false => exact hreset _ nofun htype hrun
  · exact hreset _ (by rw [hidle]; nofun) htype (by rw [hxdrs])

/-- The history in which the buffer is filled with other bytes first. -/
def overwritten (f : ℕ → UInt8) (buffsize : ℕ) (address : SocketAddress) : List UdpCall :=
  [.receive [.datagram ⟨read f 0 (bufferLength buffsize), address⟩], .reset]

theorem overwritten_listens {s : UdpEndpoint} (h : s.Listens buffsize) (f : ℕ → UInt8)
    (address : SocketAddress) :
    (s.calls (overwritten f buffsize address)).Listens buffsize ∧
      ∀ i < bufferLength buffsize,
        (s.calls (overwritten f buffsize address)).con.xdrs.buffer i = f i := by
  have hbrings : Brings [.datagram ⟨read f 0 (bufferLength buffsize), address⟩]
      ⟨read f 0 (bufferLength buffsize), address⟩ := ⟨0, [], rfl⟩
  have hshaped := s.shaped_calls (overwritten f buffsize address)
  obtain ⟨hidle, hbuffer⟩ := receive_reset h hbrings
  refine ⟨⟨hshaped.cnxType.trans h.cnxType, hshaped.bufferSize.trans h.bufferSize,
    hshaped.fits h.fits, hidle⟩, fun i hi => ?_⟩
  have hread := read_filled (e := s) (d := ⟨read f 0 (bufferLength buffsize), address⟩)
    (n := bufferLength buffsize) (by rw [h.bufferSize]; simp)
  rw [List.take_of_length_le (by simp)] at hread
  have hcell := cell_of_read hread hi
  rw [Nat.zero_add] at hcell
  exact (congrFun hbuffer i).trans hcell

/-- Behind the datagram there is what was there before. -/
theorem filled_behind {i : ℕ} (hi : d.bytes.length ≤ i) :
    (e.filled d).buffer i = e.con.xdrs.buffer i := by
  unfold filled write
  dsimp only
  have hlen : (d.bytes.take e.con.bufferSize).length ≤ i :=
    (List.length_take_le' _ _).trans hi
  rw [if_neg (Nat.not_lt_zero i), Nat.sub_zero, List.getD_eq_getElem?_getD,
    List.getElem?_eq_none hlen, Option.getD_none]

/-- The first byte behind the datagram. -/
theorem filled_next {f : ℕ → UInt8} (h : e.con.bufferSize = bufferLength buffsize)
    (hcells : ∀ i < bufferLength buffsize, e.con.xdrs.buffer i = f i)
    (hlen : d.bytes.length < bufferLength buffsize) {n : ℕ} (hn : d.bytes.length ≤ n)
    (hroom : n ≤ bufferLength buffsize) :
    read (e.filled d).buffer 0 n =
      d.bytes ++ read f d.bytes.length (n - d.bytes.length) := by
  have hbefore := read_filled (e := e) (d := d) (n := d.bytes.length) (by omega)
  have hsplit := read_add (e.filled d).buffer 0 d.bytes.length (n - d.bytes.length)
  rw [show d.bytes.length + (n - d.bytes.length) = n by omega, hbefore, List.take_length,
    Nat.zero_add] at hsplit
  rw [hsplit]
  congr 1
  apply read_congr
  intro i hi
  rw [filled_behind (Nat.le_add_right _ _)]
  exact hcells _ (by omega)

/-- Bytes behind a datagram that is part of a message make a difference. -/
theorem not_receivedAlike {msg : RpcMessage} (h₁ : e₁.Listens buffsize)
    (h₂ : e₂.Listens buffsize) (hb₁ : Brings ios₁ d) (hb₂ : Brings ios₂ d)
    (hlen : 4 ≤ d.bytes.length) (hroom : d.bytes.length < bufferLength buffsize)
    (hfits : msg.bytes.length ≤ bufferLength buffsize)
    (hagrees : msg.bytes <+: d.bytes ∨ d.bytes <+: msg.bytes) {f g : ℕ → UInt8}
    (hf : ∀ i < msg.bytes.length, f i = msg.bytes.getD i 0)
    (hcells₁ : ∀ i < bufferLength buffsize, e₁.con.xdrs.buffer i = f i)
    (hcells₂ : ∀ i < bufferLength buffsize, e₂.con.xdrs.buffer i = g i)
    (hne : f d.bytes.length ≠ g d.bytes.length) :
    ¬ ReceivedAlike (e₁.receive ios₁).2 (e₂.receive ios₂).2 := by
  intro halike
  have hread₁ : read (e₁.filled d).buffer 0 msg.bytes.length = msg.bytes := by
    obtain hprefix | hprefix := hagrees
    · rw [read_filled (by rw [h₁.bufferSize]; have := hprefix.length_le; omega)]
      exact (List.prefix_iff_eq_take.mp hprefix).symm
    · rw [filled_next h₁.bufferSize hcells₁ hroom hprefix.length_le hfits]
      obtain ⟨rest, hrest⟩ := hprefix
      rw [← hrest, List.length_append, Nat.add_sub_cancel_left]
      congr 1
      apply List.ext_getElem (by simp)
      intro i hi hi'
      rw [read_getElem, hf _ (by rw [← hrest, List.length_append]; omega), ← hrest]
      simp [hi']
  have hready₁ : (e₁.receive ios₁).2.con.state = .ready ∧
      (e₁.receive ios₁).2.con.rpcHeader.message = some msg ∧
      (e₁.receive ios₁).2.con.xdrs = (e₁.filled d).skip msg.bytes.length := by
    obtain ⟨msg', -, hread, hready, hheader, hxdrs⟩ | ⟨hnone, -⟩ := h₁.receive_cases hb₁ hlen
    · obtain rfl := RpcMessage.eq_of_read hread₁ hread
      exact ⟨hready, hheader ▸ msg.message_apply _, hxdrs⟩
    · exact absurd hread₁ (hnone msg (h₁.bufferSize ▸ hfits))
  obtain ⟨hready, hmessage, hxdrs₁⟩ := hready₁
  obtain ⟨msg', -, hread₂, -, hheader₂, hxdrs₂⟩ | ⟨-, hsending⟩ := h₂.receive_cases hb₂ hlen
  · have hsame := halike.header hready
    rw [hmessage, hheader₂, msg'.message_apply] at hsame
    obtain rfl := Option.some.inj hsame
    apply hne
    suffices hcell : (e₁.filled d).buffer d.bytes.length =
        (e₂.filled d).buffer d.bytes.length by
      rwa [filled_behind le_rfl, filled_behind le_rfl, hcells₁ _ hroom, hcells₂ _ hroom] at hcell
    by_cases hbehind : msg.bytes.length ≤ d.bytes.length
    · have hreads := halike.reads hready _ (.octets (d.bytes.length + 1 - msg.bytes.length) .done)
      unfold decode at hreads
      rw [hxdrs₁, hxdrs₂] at hreads
      change (((e₁.filled d).skip msg.bytes.length).getBytes _).1 =
        (((e₂.filled d).skip msg.bytes.length).getBytes _).1 at hreads
      have hroom₁ : ¬ ((e₁.filled d).skip msg.bytes.length).handy <
          d.bytes.length + 1 - msg.bytes.length := by
        simp only [XdrMem.skip, filled, h₁.bufferSize]
        omega
      have hroom₂ : ¬ ((e₂.filled d).skip msg.bytes.length).handy <
          d.bytes.length + 1 - msg.bytes.length := by
        simp only [XdrMem.skip, filled, h₂.bufferSize]
        omega
      unfold XdrMem.getBytes at hreads
      rw [if_neg hroom₁, if_neg hroom₂] at hreads
      have hpos : 0 + msg.bytes.length + (d.bytes.length - msg.bytes.length) = d.bytes.length := by
        omega
      have hcell := cell_of_read (i := d.bytes.length - msg.bytes.length)
        (Option.some.inj hreads) (by omega)
      unfold XdrMem.skip filled at hcell
      dsimp only at hcell
      rwa [hpos] at hcell
    · have hcell := cell_of_read (hread₁.trans hread₂.symm) (lt_of_not_ge hbehind)
      rwa [Nat.zero_add] at hcell
  · have hstate := halike.state
    rw [hready, hsending] at hstate
    cases hstate

/-- A datagram is received in the same way after any two histories of a server, or of two servers
with buffers of the same size, if and only if it fills the buffer, is too short to be looked at, or
goes with no message at all. -/
theorem nonInterfering_iff (raw₁ raw₂ : KssUDPXDRConnection)
    (timeout₁ timeout₂ retrytimeout₁ retrytimeout₂ : ULong)
    (clientAddr₁ clientAddr₂ : Option SocketAddress) (buffsize : ℕ) (d : Datagram) :
    NonInterfering (server raw₁ timeout₁ retrytimeout₁ clientAddr₁ buffsize)
        (server raw₂ timeout₂ retrytimeout₂ clientAddr₂ buffsize) d ↔
      bufferLength buffsize ≤ d.bytes.length ∨ d.bytes.length < 4 ∨ Malformed d.bytes := by
  constructor
  · intro hsame
    by_contra hnot
    simp only [not_or, not_le, not_lt, Malformed, not_forall, not_and_or, not_not] at hnot
    obtain ⟨hroom, hlen, msg, hagrees⟩ := hnot
    let f : ℕ → UInt8 := fun i => msg.bytes.getD i 0
    let g : ℕ → UInt8 := fun i => f i + 1
    have hfits : msg.bytes.length ≤ bufferLength buffsize := by
      have := msg.words_length_le.2
      rw [msg.bytes_length]
      unfold bufferLength
      omega
    obtain ⟨h₁, hcells₁⟩ := overwritten_listens (s := server raw₁ timeout₁ retrytimeout₁
      clientAddr₁ buffsize) (server_listens [] rfl) f d.address
    obtain ⟨h₂, hcells₂⟩ := overwritten_listens (s := server raw₂ timeout₂ retrytimeout₂
      clientAddr₂ buffsize) (server_listens [] rfl) g d.address
    have hbrings : Brings [.datagram d] d := ⟨0, [], rfl⟩
    refine not_receivedAlike h₁ h₂ hbrings hbrings hlen hroom hfits hagrees (fun _ _ => rfl)
      hcells₁ hcells₂ ?_ (hsame _ _ _ _ h₁.idle h₂.idle hbrings hbrings)
    exact fun heq => absurd (UInt8.left_eq_add.mp heq) (by decide)
  · intro hcond cs₁ cs₂ ios₁ ios₂ hidle₁ hidle₂ hb₁ hb₂
    have h₁ := server_listens cs₁ hidle₁
    have h₂ := server_listens cs₂ hidle₂
    by_cases hshort : d.bytes.length < 4
    · have hstate₁ := receive_dropped hidle₁ hb₁ hshort
      refine receivedAlike_of_state (hstate₁.trans (receive_dropped hidle₂ hb₂ hshort).symm) ?_
      rw [hstate₁]
      nofun
    · obtain hfull | hshort' | hbad := hcond
      · exact receivedAlike_of_alike h₁ h₂ hb₁ hb₂ (by omega) (filled_alike h₁ h₂ hfull)
      · exact absurd hshort' hshort
      · have hstate₁ := receive_malformed h₁ hb₁ (by omega) hbad
        refine receivedAlike_of_state
          (hstate₁.trans (receive_malformed h₂ hb₂ (by omega) hbad).symm) ?_
        rw [hstate₁]
        nofun

/-- A UDP server in zeroed memory. -/
def zeroedServer : UdpEndpoint :=
  server
    { cnxType := .server, state := .dead, timeout := 0, totalTimeout := 0, timePassed := 0
      bufferSize := 0, xdrs := xdrmemCreate (fun _ => 0) 0 .decode, sendbuffer := fun _ => 0
      tosend := 0, clientAddress := ⟨0, 0⟩, rpcHeader := {} }
    30 5 none 1024

/-- The first half of a call. -/
def shortCall : Datagram := ⟨(RpcMessage.call 7 1 1 9).bytes.take 20, ⟨1, 2⟩⟩

/-- The server takes half a call for a call of procedure 0, and for one of procedure 9 if it has had
such a call before. -/
theorem not_nonInterfering_shortCall : ¬ NonInterfering zeroedServer zeroedServer shortCall := by
  intro hsame
  let history : List UdpCall :=
    [.receive [.datagram ⟨(RpcMessage.call 7 1 1 9).bytes, ⟨3, 4⟩⟩], .reset]
  have halike := hsame [] history [.datagram shortCall] [.datagram shortCall] rfl
    (by decide +kernel) ⟨0, [], rfl⟩ ⟨0, [], rfl⟩
  exact absurd (halike.header (by decide +kernel)) (by decide +kernel)

end UdpEndpoint
end AcpltKs
