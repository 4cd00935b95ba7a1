import AcpltKs.Client.Transport
import AcpltKs.Library.DoWhile

/-! Requests of a client: calls that are repeated over a new transport until one succeeds or the
tries are used up. -/
namespace AcpltKs
namespace KscServer
variable {W P R : Type*} (net : KscNetwork W P R)

/-- The negotiator for a module, which is remembered as long as the transport stays. -/
def getNegotiator (avm : Option KscAvModule) (s : KscServer) (w : W) :
    KscNegotiator × KscServer × W :=
  match avm <|> s.avModule <|> net.clientAvModule w with
  | none => (.avNone, s, w)
  | some avm =>
      match s.negTable.lookup avm with
      | some hneg => (hneg.getD .avNone, s, w)
      | none =>
          match net.getNegotiator avm w with
          | (none, w) => (.avNone, s, w)
          | (some neg, w) =>
              let (added, w) := net.addNegotiator w
              if added then (neg, { s with negTable := (avm, some neg) :: s.negTable }, w)
              else (.avNone, s, w)

/-- Whether it makes sense to try again after this failure to create a transport. -/
def reconnectAfterCreate (result : KsResultCode) : Bool :=
  !(result = .hostUnknown || result = .serverUnknown)

/-- Whether a call that has failed is repeated, after an attempt to get a new transport. -/
def reconnectServer (tryCount : ℕ) (errcode : ClntStat) (s : KscServer) (w : W) :
    Bool × KscServer × W :=
  if s.tries ≤ tryCount then (false, s, w)
  else if errcode = .cantSend ∨ errcode = .cantRecv ∨ errcode = .timedOut ∨ errcode = .failed then
    let (_, s, w) := s.createTransport net (net.sleep w)
    (reconnectAfterCreate s.lastResult, s, w)
  else (false, s, w)

def resultAfterService : ClntStat → KsResultCode
  | .success => .ok
  | .timedOut => .timeout
  | .cantSend | .cantRecv => .networkError
  | .cantEncodeArgs | .cantDecodeRes => .generic
  | .cantDecodeArgs => .networkError
  | _ => .generic

/-- A request under way. Of every pass through the loop, the call that it has made is kept. -/
structure Request (W R : Type*) where
  server : KscServer
  world : W
  result : R
  errcode : ClntStat
  tryCount : ℕ
  passes : List (Option ClntStat)

/-- The outcome of the last call. -/
def Request.lastCall (r : Request W R) : Option ClntStat := (r.passes.filterMap id).getLast?

/-- One pass through the loop: a call, if there is a transport. -/
def tryRequest (service : UInt32) (avm : Option KscAvModule) (params : P) (r : Request W R) :
    Request W R :=
  match r.server.clientTransport with
  | some transport =>
      let (negotiator, s, w) := r.server.getNegotiator net avm r.world
      let (errcode, result, w) := net.callServer transport service negotiator params r.result w
      { r with server := { s with lastResult := .ok }, world := w, result, errcode,
               passes := r.passes ++ [some errcode] }
  | none => { r with errcode := .failed, passes := r.passes ++ [none] }

/-- The test at the end of the loop. -/
def retryRequest (r : Request W R) : Bool × Request W R :=
  if r.errcode = .success then (false, r)
  else
    let (again, s, w) := r.server.reconnectServer net (r.tryCount + 1) r.errcode r.world
    (again, { r with server := s, world := w, tryCount := r.tryCount + 1 })

/-- What follows the loop, and what the request returns. -/
def finishRequest (r : Request W R) : Bool × Request W R :=
  let (s, w) :=
    if r.errcode ≠ .success then r.server.destroyTransport net r.world else (r.server, r.world)
  let s := if s.lastResult = .ok then { s with lastResult := resultAfterService r.errcode } else s
  (s.lastResult = .ok, { r with server := s, world := w })

/-- Nothing if the loop takes more passes than there is fuel for. -/
def requestByOpcode (fuel : ℕ) (service : UInt32) (avm : Option KscAvModule) (params : P)
    (result : R) (s : KscServer) (w : W) : Option (Bool × Request W R) :=
  let s := { s with lastResult := .ok }
  let (created, s, w) :=
    if s.clientTransport.isSome then (true, s, w) else s.createTransport net w
  let start : Request W R := ⟨s, w, result, .failed, 0, []⟩
  if !created && !reconnectAfterCreate s.lastResult then some (false, start)
  else
    (DoWhile.run (tryRequest net service avm params) (retryRequest net) fuel start).map
      (finishRequest net)

variable {net}

theorem reconnectAfterCreate_ok : reconnectAfterCreate .ok = true := by decide

theorem resultAfterService_ok_iff {errcode : ClntStat} :
    resultAfterService errcode = .ok ↔ errcode = .success := by
  cases errcode <;> decide

theorem getNegotiator_tries (avm : Option KscAvModule) (s : KscServer) (w : W) :
    (s.getNegotiator net avm w).2.1.tries = s.tries := by
  unfold getNegotiator
  split
  · rfl
  · split
    · rfl
    · split
      · rfl
      · dsimp only
        split_ifs
        · rfl
        · rfl

/-- There is another pass only while tries are left. -/
theorem reconnectServer_changes {tryCount : ℕ} {errcode : ClntStat} {s s' : KscServer} {w w' : W}
    {again : Bool} (h : s.reconnectServer net tryCount errcode w = (again, s', w')) :
    s'.tries = s.tries ∧ (again = true → tryCount < s.tries) := by
  unfold reconnectServer at h
  dsimp only at h
  split_ifs at h with htries herr
  · cases h
    exact ⟨rfl, nofun⟩
  · cases h
    exact ⟨(createTransport_changes rfl).1, fun _ => by omega⟩
  · cases h
    exact ⟨rfl, nofun⟩

namespace Request

/-- A request at the beginning of a pass: all calls up to here have failed, one in each pass at
most, and at most `left` passes follow this one. -/
structure Retrying (tries left : ℕ) (r : Request W R) : Prop where
  server_tries : r.server.tries = tries
  left_passes : left + 1 + r.tryCount = max 1 tries
  length_passes : r.passes.length = r.tryCount
  failed : ∀ call ∈ r.passes, call ≠ some .success

/-- A request at the end of the loop. -/
structure Settled (tries : ℕ) (r : Request W R) : Prop where
  length_passes : r.passes.length ≤ max 1 tries
  lastCall_iff : r.lastCall = some .success ↔ r.errcode = .success
  result_ok : r.errcode = .success → r.server.lastResult = .ok

end Request

/-- What a pass does: it makes a call or has failed without one. -/
theorem tryRequest_changes (net : KscNetwork W P R) (service : UInt32) (avm : Option KscAvModule)
    (params : P) (r : Request W R) :
    ∃ call : Option ClntStat, (tryRequest net service avm params r).passes = r.passes ++ [call] ∧
      (tryRequest net service avm params r).errcode = call.getD .failed ∧
      (call.isSome → (tryRequest net service avm params r).server.lastResult = .ok) ∧
      (tryRequest net service avm params r).tryCount = r.tryCount ∧
      (tryRequest net service avm params r).server.tries = r.server.tries := by
  unfold tryRequest
  cases htransport : r.server.clientTransport with
  | some transport => exact ⟨_, rfl, rfl, fun _ => rfl, rfl, getNegotiator_tries avm r.server r.world⟩
  | none => exact ⟨none, rfl, rfl, nofun, rfl, rfl⟩

/-- What the test does: the calls made so far stay, and so does a server whose call succeeded. -/
theorem retryRequest_changes (net : KscNetwork W P R) (r : Request W R) :
    (retryRequest net r).2.passes = r.passes ∧ (retryRequest net r).2.errcode = r.errcode ∧
      (retryRequest net r).2.server.tries = r.server.tries ∧
      (r.errcode = .success → (retryRequest net r).2.server = r.server) ∧
      ((retryRequest net r).1 = true → r.errcode ≠ .success ∧ r.tryCount + 1 < r.server.tries ∧
        (retryRequest net r).2.tryCount = r.tryCount + 1) := by
  unfold retryRequest
  split_ifs with hsuccess
  · exact ⟨rfl, rfl, rfl, fun _ => rfl, nofun⟩
  · rcases hrec : r.server.reconnectServer net (r.tryCount + 1) r.errcode r.world with ⟨again, s, w⟩
    obtain ⟨htries, hlt⟩ := reconnectServer_changes hrec
    exact ⟨rfl, rfl, htries, fun h => absurd h hsuccess, fun h => ⟨hsuccess, hlt h, rfl⟩⟩

namespace Request

variable {tries left : ℕ} {r : Request W R}

/-- As all the calls before the last pass have failed, the last call succeeded if and only if that
pass did. -/
theorem lastCall_append {passes : List (Option ClntStat)} (call : Option ClntStat)
    (hfailed : ∀ call ∈ passes, call ≠ some .success) (h : r.passes = passes ++ [call]) :
    r.lastCall = some .success ↔ call.getD .failed = .success := by
  unfold lastCall
  rw [h, List.filterMap_append]
  cases call with
  | some errcode =>
    rw [show [some errcode].filterMap id = [errcode] from rfl, List.getLast?_concat]
    exact Option.some_inj
  | none =>
    rw [show [(none : Option ClntStat)].filterMap id = [] from rfl, List.append_nil]
    constructor
    · intro hlast
      obtain ⟨c, hc, hid⟩ := List.mem_filterMap.mp (List.mem_of_getLast? hlast)
      exact absurd hid (hfailed c hc)
    · exact nofun

theorem Retrying.again (net : KscNetwork W P R) (service : UInt32) (avm : Option KscAvModule)
    (params : P) (h : r.Retrying tries left)
    (hagain : (retryRequest net (tryRequest net service avm params r)).1 = true) :
    ∃ left', left = left' + 1 ∧
      (retryRequest net (tryRequest net service avm params r)).2.Retrying tries left' := by
  obtain ⟨call, hpasses, herr, -, hcount, htries⟩ :=
    tryRequest_changes net service avm params r
  generalize tryRequest net service avm params r = t at *
  obtain ⟨hpasses', -, htries', -, hnext⟩ := retryRequest_changes net t
  obtain ⟨hfailed, hlt, hcount'⟩ := hnext hagain
  have hserver := h.server_tries
  have hleft := h.left_passes
  refine ⟨left - 1, by omega, ?_, ?_, ?_, ?_⟩
  · rw [htries', htries, hserver]
  · omega
  · rw [hpasses', hpasses, List.length_append, List.length_singleton, h.length_passes, hcount',
      hcount]
  · rw [hpasses', hpasses]
    intro c hc
    rcases List.mem_append.mp hc with hc | hc
    · exact h.failed c hc
    · obtain rfl := List.mem_singleton.mp hc
      rintro rfl
      exact hfailed herr

theorem Retrying.exit (net : KscNetwork W P R) (service : UInt32) (avm : Option KscAvModule)
    (params : P) (h : r.Retrying tries left) :
    (retryRequest net (tryRequest net service avm params r)).2.Settled tries := by
  obtain ⟨call, hpasses, herr, hok, -, -⟩ :=
    tryRequest_changes net service avm params r
  generalize tryRequest net service avm params r = t at *
  obtain ⟨hpasses', herr', -, hserver, -⟩ := retryRequest_changes net t
  have hleft := h.left_passes
  refine ⟨?_, ?_, ?_⟩
  · rw [hpasses', hpasses, List.length_append, List.length_singleton, h.length_passes]
    omega
  · rw [herr', herr]
    exact lastCall_append call h.failed (hpasses'.trans hpasses)
  · rw [herr']
    intro hsuccess
    rw [hserver hsuccess]
    cases call with
    | some errcode => exact hok rfl
    | none => exact absurd (herr.symm.trans hsuccess) (by decide)

/-- What is reported after the loop. -/
theorem Settled.finish (net : KscNetwork W P R) (h : r.Settled tries) :
    ((finishRequest net r).1 = true ↔ (finishRequest net r).2.lastCall = some .success) ∧
      ((finishRequest net r).1 = false → (finishRequest net r).2.server.lastResult ≠ .ok ∧
        (finishRequest net r).2.server.clientTransport = none ∧
        (finishRequest net r).2.server.negTable = []) := by
  have hlast : (finishRequest net r).2.lastCall = r.lastCall := rfl
  rw [hlast, h.lastCall_iff]
  unfold finishRequest
  cases hsuccess : decide (r.errcode = .success) with
  | true =>
    have hsuccess := of_decide_eq_true hsuccess
    simp [hsuccess, h.result_ok hsuccess, resultAfterService]
  | false =>
    have hfailed := of_decide_eq_false hsuccess
    by_cases hok : r.server.lastResult = .ok
    · have hres : resultAfterService r.errcode ≠ .ok := resultAfterService_ok_iff.not.mpr hfailed
      simp [hfailed, hok, hres]
    · simp [hfailed, hok]

end Request

/-- A request ends after as many passes as there are tries, or one. It succeeds if and only if its
last call did. Otherwise the last result says so, and if it has got as far as to the loop, neither
the transport nor any negotiator is kept. -/
theorem requestByOpcode_reports (net : KscNetwork W P R) (service : UInt32)
    (avm : Option KscAvModule) (params : P) (result : R) (s : KscServer) (w : W) :
    ∃ ok r, (∀ fuel ≥ max 1 s.tries,
        requestByOpcode net fuel service avm params result s w = some (ok, r)) ∧
      r.passes.length ≤ max 1 s.tries ∧
      (ok = true ↔ r.lastCall = some .success) ∧
      (ok = false → r.server.lastResult ≠ .ok ∧
        (r.passes ≠ [] → r.server.clientTransport = none ∧ r.server.negTable = [])) := by
  unfold requestByOpcode
  dsimp only
  generalize hprepare : (if s.clientTransport.isSome = true then
    (true, ({ s with lastResult := .ok } : KscServer), w)
    else createTransport net { s with lastResult := .ok } w) = prepared
  obtain ⟨created, s₁, w₁⟩ := prepared
  have htries : s₁.tries = s.tries := by
    split_ifs at hprepare
    · cases hprepare
      rfl
    · exact (createTransport_changes hprepare).1
  cases hgiven : !created && !reconnectAfterCreate s₁.lastResult with
  | true =>
    refine ⟨false, _, fun fuel _ => rfl, Nat.zero_le _, by simp [Request.lastCall], ?_⟩
    intro _
    refine ⟨?_, fun h => absurd rfl h⟩
    intro hok
    have hok : s₁.lastResult = .ok := hok
    rw [hok, reconnectAfterCreate_ok] at hgiven
    simp at hgiven
  | false =>
    have hstart : (⟨s₁, w₁, result, .failed, 0, []⟩ : Request W R).Retrying s.tries
        (max 1 s.tries - 1) :=
      ⟨htries, by dsimp only; omega, rfl, nofun⟩
    obtain ⟨r, hrun, hsettled⟩ := DoWhile.run_total
      (fun _ _ h hagain => Request.Retrying.again net service avm params h hagain)
      (fun _ _ h _ => Request.Retrying.exit net service avm params h) hstart
    obtain ⟨hreturned, hfalse⟩ := hsettled.finish net
    refine ⟨(finishRequest net r).1, (finishRequest net r).2, fun fuel hfuel => ?_,
      hsettled.length_passes, hreturned, fun hret => ?_⟩
    · have hrun := DoWhile.run_mono hrun (show max 1 s.tries - 1 + 1 ≤ fuel by omega)
      rw [if_neg Bool.false_ne_true, hrun]
      rfl
    · obtain ⟨hres, htransport, htable⟩ := hfalse hret
      exact ⟨hres, fun _ => ⟨htransport, htable⟩⟩

end KscServer
end AcpltKs
