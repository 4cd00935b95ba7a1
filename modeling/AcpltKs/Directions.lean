import AcpltKs.Tcp.Clients
import AcpltKs.Udp.Clients

/-! Which messages make a connection ready, over TCP and UDP, as a server and as a client: those in
the right direction, unless the decoder is misled. -/
namespace AcpltKs

/-- Only a call of `receive` makes a connection ready, and only for a message in the right direction
that the record or the datagram carries, while everything else is refused: exactly as long as the
decoder does not find the header of a message in the other direction, or one that reaches beyond
the bytes received. -/
theorem rightDirection_iff_notMisled {size : ℕ} (hsize : LegalSize size) :
    (∀ (e : Endpoint) (ev : Event), e.con.state ≠ .ready → (e.step ev).con.state = .ready →
      ∃ sys, ev = .receive sys) ∧
    (∀ e : Endpoint, e.Reached size → e.con.state ≠ .dead → e.con.state ≠ .ready →
      ∀ xid sys, e.RightDirection xid sys ↔ e.NotMisled .server xid sys) ∧
    (∀ (r : ClientRun) (call : ClientCall), r.endpoint.con.state ≠ .ready →
      (r.step call).endpoint.con.state = .ready → ∃ sys, call = .event (.receive sys)) ∧
    (∀ r : ClientRun, r.Reached size → r.endpoint.con.xdrs.fault = false →
      r.endpoint.getIoMode.readable = true →
      ∀ sys, r.endpoint.RightDirection r.outstanding sys ↔
        r.endpoint.NotMisled .client r.outstanding sys) ∧
    (∀ (e : UdpEndpoint) (c : UdpCall), e.con.state ≠ .ready → (e.call c).con.state = .ready →
      e.Awaits ∧ ∃ ios, c = .receive ios) ∧
    (∀ raw timeout retrytimeout clientAddr buffsize cs,
      let e := (UdpEndpoint.server raw timeout retrytimeout clientAddr buffsize).calls cs
      e.con.state = .idle → ∀ xid ios, e.RightDirection xid ios ↔ e.NotMisled .server xid ios) ∧
    (∀ r : UdpClientRun, r.Reached → r.endpoint.con.state = .waiting →
      ∀ ios, r.endpoint.RightDirection r.outstanding ios ↔
        r.endpoint.NotMisled .client r.outstanding ios) := by
  refine ⟨?_, ?_, ?_, ?_, ?_, ?_, ?_⟩
  · intro e ev h hready
    exact Endpoint.step_ready h hready
  · intro e h halive hstate xid sys
    exact h.rightDirection_iff hsize halive hstate xid sys
  · intro r call h hready
    exact ClientRun.step_ready h hready
  · intro r h hfault hreadable sys
    exact h.rightDirection_iff hsize hfault hreadable sys
  · intro e c h hready
    exact UdpEndpoint.call_ready h hready
  · intro raw timeout retrytimeout clientAddr buffsize cs e hidle xid ios
    exact (UdpEndpoint.server_listens cs hidle).rightDirection_iff xid ios
  · intro r h hstate ios
    exact h.rightDirection_iff hstate ios

theorem started_reached (incoming : List UInt8) : (Endpoint.started incoming).Reached 8192 :=
  ⟨zeroedConnection, _, Pool.initial fun _ => some fun _ => 0, _, some 0, true, false, _, [], rfl,
    rfl, trivial, rfl⟩

/-- A call makes a server ready, and it is the one that has been received. -/
theorem rightDirection_call :
    let e := Endpoint.started (RecordMarking.record [(RpcMessage.call 7 1 1 9).bytes])
    let sys : SystemCalls := { outcomes := [.transfers 4, .transfers 64] }
    (e.receive sys).2.con.state = .ready ∧ e.RightDirection 0 sys := by
  intro e sys
  refine ⟨by decide, ?_⟩
  have hdirection := (rightDirection_iff_notMisled legalSize_default).2.1 e (started_reached _)
    (by decide) (by decide) 0 sys
  refine hdirection.mpr fun e₁ he₁ => ?_
  have hdecoded : (e.completed sys).map (fun e₁ =>
      ((e₁.con.rpcHeader.xdrDecode.run e₁.rewound).1.2.message, e₁.completeRecord)) =
      some (some (.call 7 1 1 9), (RpcMessage.call 7 1 1 9).bytes) := by decide
  rw [he₁] at hdecoded
  obtain ⟨hmessage, hrecord⟩ := Prod.mk.inj (Option.some.inj hdecoded)
  refine (accepted_carries_iff _ _ e₁.con.rpcHeader .server 0).mp fun _ _ => ?_
  exact ⟨.call 7 1 1 9, hrecord ▸ List.prefix_refl _, rfl, hmessage⟩

/-- A reply makes a server ready, too. -/
theorem not_rightDirection_reply :
    ¬ ∀ (e : Endpoint) (xid : UInt32) (sys : SystemCalls), e.Reached 8192 →
      e.con.state = .idle → e.RightDirection xid sys := by
  intro h
  let reply : RpcMessage := .accepted 7 .success rfl
  let e := Endpoint.started (RecordMarking.record [reply.bytes])
  let sys : SystemCalls := { outcomes := [.transfers 4, .transfers 64] }
  obtain ⟨e₁, -, msg, -, hcall, hmessage⟩ := (h e 0 sys (started_reached _) rfl).ready (by decide)
  have hreply : (e.receive sys).2.con.rpcHeader.message = some reply := by decide
  obtain rfl := Option.some.inj (hreply.symm.trans hmessage)
  cases hcall

end AcpltKs
