import AcpltKs.InterServer.Automaton

/-! Attention keeps the automaton of an inter-server connection consistent, whatever the user calls
in a notification. -/
namespace AcpltKs
open Function GuardedRun EventLog ConnectionObject

namespace InterServer

variable {w w' w'' : InterServer} {con : ℕ} {a : Attention} {reactivate : Bool}

/-- What attention for the connection object `con` keeps. -/
def Attended (w' : InterServer) (con : ℕ) (reactivate : Bool) : Prop :=
  w'.Invariant ∧ (reactivate = true → w'.isc.clnCon = some con)

theorem Kept.refl (h : w.Invariant) : Kept w w := h.kept (Silent.refl w)

theorem Kept.trans (h : Kept w w') (h' : Kept w' w'') : Kept w w'' := by
  refine ⟨h'.1, fun honce => ?_⟩
  obtain ⟨honce', hcon'⟩ := h'.2 honce
  obtain ⟨honce, hcon⟩ := h.2 honce'
  refine ⟨honce, fun hne => ?_⟩
  have hsame := hcon hne
  rw [hcon' (hsame ▸ hne), hsame]

/-- The calls inside of a notification keep the invariant one after the other. -/
theorem Invariant.script (h : w.Invariant) {script : List UserCall}
    (hs : script.foldlM InterServer.perform w = some w') : Kept w w' := by
  induction script generalizing w with
  | nil =>
    rw [← Option.some.inj hs]
    exact Kept.refl h
  | cons u script ih =>
    obtain ⟨w₁, hu, hs⟩ := Option.bind_eq_some_iff.mp hs
    have hkept := h.perform hu
    exact hkept.trans (ih hkept.1 hs)

/-- A notification that the connection is open is in order if it is the first one. -/
theorem Invariant.note_notified (h : w.Invariant) {op : KssInterKsServerConnectionOperations}
    (hop : op = .opOpen → w.isc.state = .opened →
      w.isc.subState = .connectingServer ∧ phase w.trace ≠ .fresh ∧
        .notified .opOpen .opened ∉ sinceLast Notice.isOpened w.trace) :
    (w.note (.notified op w.isc.state)).Invariant := by
  have hsince : ∀ m, m ∈ sinceLast Notice.isOpened (w.note (.notified op w.isc.state)).trace →
      m ∈ sinceLast Notice.isOpened w.trace ∨ m = .notified op w.isc.state :=
    fun m hm => (mem_sinceLast_concat.mp hm).2
  have hphase : phase (w.note (.notified op w.isc.state)).trace = phase w.trace := by
    rw [InterServer.note, phase_concat]
    rfl
  have haskable : (w.note (.notified op w.isc.state)).Askable ↔ w.Askable := by
    rw [Askable, hphase]
    rfl
  refine ⟨h.closed_iff, h.live, always_concat.mpr ⟨h.log, ?_, ?_⟩, h.version,
    fun hcon version hm => ?_, fun hcon hm => ?_⟩
  · intro version earlier heq
    exact absurd heq (by simp)
  · intro heq
    obtain ⟨hopOpen, hopened⟩ := Notice.notified.inj heq
    exact (hop hopOpen hopened).2.2
  · rw [haskable]
    exact h.asked hcon version ((hsince _ hm).resolve_right (by simp))
  · rw [hphase]
    obtain hm | heq := hsince _ hm
    · exact h.opened hcon hm
    · obtain ⟨hopOpen, hopened⟩ := Notice.notified.inj heq
      obtain ⟨hserver, hfresh, -⟩ := hop hopOpen.symm hopened.symm
      exact ⟨hserver, hfresh⟩

theorem Invariant.asyncAttention (h : w.Invariant) {op : KssInterKsServerConnectionOperations}
    {script : List UserCall} (ha : w.asyncAttention op script = some w')
    (hop : op = .opOpen → w.isc.state = .opened →
      w.isc.subState = .connectingServer ∧ phase w.trace ≠ .fresh ∧
        .notified .opOpen .opened ∉ sinceLast Notice.isOpened w.trace) : Kept w w' := by
  have hkept := (h.note_notified hop).script ha
  exact ⟨hkept.1, fun honce => hkept.2 honce⟩

/-- After an error the connection is closed before the user is notified. -/
theorem reportError_attended {state : ConnectionState} (hlog : Always Legitimate w.trace)
    (hr : w.reportError state a = some (reactivate, w')) : Attended w' con reactivate := by
  obtain ⟨w₁, hclose, hr⟩ := Option.bind_eq_some_iff.mp hr
  obtain ⟨w₂, hnotify, hr⟩ := Option.bind_eq_some_iff.mp hr
  obtain ⟨rfl, rfl⟩ := Prod.mk.inj (Option.some.inj hr)
  have hclosed : w₁.isc.state = .closed := by
    rw [(closeConnection_eq hclose).1]
  have hkept := (closeConnection_invariant hlog hclose).asyncAttention hnotify
    fun _ hopened => absurd (hclosed.symm.trans hopened) (by simp)
  exact ⟨hkept.1, fun h => absurd h (by simp)⟩

theorem attentionFailed_attended {state : ConnectionState} (hlog : Always Legitimate w.trace)
    (ha : w.attentionFailed state a = some (reactivate, w')) : Attended w' con reactivate := by
  simp only [attentionFailed] at ha
  split at ha <;> exact reportError_attended (by exact hlog) ha

/-- The attempt to open another connection object in the place of a closed one. -/
theorem Invariant.reopened (h : w.Invariant) {state : ConnectionState} {ok : Bool}
    (hr : (if ok then some (false, w) else w.reportError state a) = some (reactivate, w')) :
    Attended w' con reactivate := by
  cases ok with
  | true =>
    obtain ⟨rfl, rfl⟩ := Prod.mk.inj (Option.some.inj hr)
    exact ⟨h, fun hfalse => absurd hfalse (by simp)⟩
  | false => exact reportError_attended h.log hr

/-- A request is written by way of the connection object. -/
theorem silent_written {xid progNumber progVersion procNumber : UInt32} {args : Payload}
    {ok ok' : Bool} {w₁ w₂ : InterServer}
    (hbegin : w.clnCall (·.beginRequest xid progNumber progVersion procNumber) = some (ok, w₁))
    (hargs : (if ok then w₁.clnCall (·.encodeArguments args) else some (false, w₁)) =
      some (ok', w₂)) : Silent w w₂ := by
  have h₁ := (silent_clnCall virtual_isAutoDestroyable hbegin).1
  cases ok with
  | true => exact h₁.trans (silent_clnCall virtual_isAutoDestroyable hargs).1
  | false =>
    obtain ⟨-, rfl⟩ := Prod.mk.inj (Option.some.inj hargs)
    exact h₁

theorem Invariant.pmapConnected (h : w.Invariant) (hcon : w.isc.clnCon = some con)
    (hp : w.pmapConnected a = some (reactivate, w')) : Attended w' con reactivate := by
  obtain ⟨⟨ok, w₁⟩, hbegin, hp⟩ := Option.bind_eq_some_iff.mp hp
  obtain ⟨⟨ok', w₂⟩, hargs, hp⟩ := Option.bind_eq_some_iff.mp hp
  have h₂ : Silent w w₂ := silent_written hbegin hargs
  cases ok' with
  | true =>
    obtain ⟨w₃, hsend, hp⟩ := Option.bind_eq_some_iff.mp hp
    obtain ⟨rfl, rfl⟩ := Prod.mk.inj (Option.some.inj hp)
    obtain ⟨w₀, hsilent, -, rfl⟩ := sendRequest_eq hsend
    have h₃ := h₂.trans hsilent
    exact ⟨(h.silent h₃).note_requested, fun _ => h₃.clnCon.trans hcon⟩
  | false => exact reportError_attended (h₂.trace ▸ h.log) hp

/-- A request to the manager for a version that has not been asked for. -/
theorem Invariant.managerConnected (h : w.Invariant) (hcon : w.isc.clnCon = some con)
    (hsub : w.isc.subState = .connectingManager)
    (hlower : ∀ version, .asked version ∈ sinceLast Notice.isOpened w.trace →
      w.isc.protocolVersion < version)
    (hp : w.managerConnected a = some (reactivate, w')) : Attended w' con reactivate := by
  obtain ⟨⟨ok, w₁⟩, hbegin, hp⟩ := Option.bind_eq_some_iff.mp hp
  obtain ⟨⟨ok', w₂⟩, hargs, hp⟩ := Option.bind_eq_some_iff.mp hp
  have h₂ : Silent w w₂ := silent_written hbegin hargs
  cases ok' with
  | true =>
    obtain ⟨w₃, hsend, hp⟩ := Option.bind_eq_some_iff.mp hp
    obtain ⟨rfl, rfl⟩ := Prod.mk.inj (Option.some.inj hp)
    obtain ⟨w₀, hsilent, -, rfl⟩ := sendRequest_eq hsend
    have h₃ := h₂.trans hsilent
    have hinv := (h.silent h₃).note_requested
    have hsince : ∀ m, m ∈ sinceLast Notice.isOpened (w₀.note .requested).trace →
        m ≠ .requested → m ∈ sinceLast Notice.isOpened w.trace := by
      intro m hm hne
      rw [← h₃.trace]
      exact (mem_sinceLast_concat.mp hm).2.resolve_right hne
    have hsince' : ∀ m, m ∈ sinceLast Notice.isOpened
          ((w₀.note .requested).note (.asked w.isc.protocolVersion)).trace →
        m ∈ sinceLast Notice.isOpened (w₀.note .requested).trace ∨
          m = .asked w.isc.protocolVersion :=
      fun m hm => (mem_sinceLast_concat.mp hm).2
    have hphase : phase ((w₀.note .requested).note (.asked w.isc.protocolVersion)).trace =
        .requested := by
      rw [InterServer.note, phase_concat, InterServer.note, phase_concat]
      rfl
    refine ⟨⟨hinv.closed_iff, hinv.live, always_concat.mpr ⟨hinv.log, ?_, ?_⟩, hinv.version,
      fun hne version hm => ⟨?_, fun haskable => ?_⟩, fun hne hm => ?_⟩,
      fun _ => h₃.clnCon.trans hcon⟩
    · intro version earlier heq hearlier
      rw [← Notice.asked.inj heq]
      exact hlower earlier (hsince _ hearlier (by simp))
    · intro heq
      exact absurd heq (by simp)
    · obtain hm | heq := hsince' _ hm
      · exact (hinv.asked hne version hm).1
      · rw [Notice.asked.inj heq]
        exact (congrArg UInt16.toNat h₃.version).le
    · obtain hpmap | ⟨-, hfresh⟩ := haskable
      · exact absurd (hpmap.symm.trans (h₃.subState.trans hsub)) (by simp)
      · exact absurd (hphase.symm.trans hfresh) (by simp)
    · obtain hm | heq := hsince' _ hm
      · obtain ⟨hserver, -⟩ := hinv.opened hne hm
        exact absurd (hserver.symm.trans (h₃.subState.trans hsub)) (by simp)
      · exact absurd heq (by simp)
  | false => exact reportError_attended (h₂.trace ▸ h.log) hp

/-- A portmapper that knows a manager: its version has not been asked for yet. -/
theorem Invariant.pmapReady (h : w.Invariant) (hsub : w.isc.subState = .connectingPmap)
    (hp : w.pmapReady a = some (reactivate, w')) : Attended w' con reactivate := by
  obtain ⟨⟨header, w₁⟩, hheader, hp⟩ := Option.bind_eq_some_iff.mp hp
  obtain ⟨h₁, hne⟩ := silent_clnCall (fun _ => rfl) hheader
  simp only at hp
  split at hp
  · obtain ⟨⟨port, w₂⟩, hport, hp⟩ := Option.bind_eq_some_iff.mp hp
    have h₂ := h₁.trans (silent_clnCall virtual_isAutoDestroyable hport).1
    cases port with
    | none => exact reportError_attended (by exact h₂.trace ▸ h.log) hp
    | some port =>
      simp only at hp
      split at hp
      · obtain ⟨w₃, hclose, hp⟩ := Option.bind_eq_some_iff.mp hp
        obtain ⟨⟨ok, w₄⟩, hopen, hp⟩ := Option.bind_eq_some_iff.mp hp
        obtain ⟨hisc, htrace⟩ := closeConnection_eq hclose
        have htrace' := htrace.trans h₂.trace
        have hversion : w₃.isc.protocolVersion = w.isc.protocolVersion := by
          rw [hisc]
          exact h₂.version
        have hopens := openManagerConnection_opens hopen (by rw [hisc]) (by rw [hisc])
        have hinv : w₄.Invariant := by
          refine hopens.invariant (htrace' ▸ h.log) (hversion ▸ h.version hne) ?_ ?_
          · rw [htrace', hversion]
            intro version hm
            obtain ⟨hle, hlt⟩ := h.asked hne version hm
            exact ⟨hle, fun _ => hlt (Or.inl hsub)⟩
          · rw [htrace']
            intro hm
            exact absurd (hsub.symm.trans (h.opened hne hm).1) (by simp)
        exact hinv.reopened hp
      · exact reportError_attended (by exact h₂.trace ▸ h.log) hp
  · exact reportError_attended (by exact h₁.trace ▸ h.log) hp

/-- An older protocol version has not been asked for, as long as there is one. -/
theorem lowerVersion_attended {minVersion : ℕ} (hmin : 1 ≤ minVersion)
    (hclosed : w.isc.state = .closed) (hcon : w.isc.clnCon = none)
    (hlog : Always Legitimate w.trace) (hversion : w.isc.protocolVersion ≠ 0)
    (hasked : ∀ version, .asked version ∈ sinceLast Notice.isOpened w.trace →
      w.isc.protocolVersion ≤ version)
    (hopened : .notified .opOpen .opened ∉ sinceLast Notice.isOpened w.trace)
    (hl : lowerVersion minVersion w a = some (reactivate, w')) : Attended w' con reactivate := by
  simp only [lowerVersion] at hl
  have hpred : (w.isc.protocolVersion - 1).toNat = w.isc.protocolVersion.toNat - 1 := by
    have hpos : 0 < w.isc.protocolVersion.toNat :=
      Nat.pos_of_ne_zero fun hzero => hversion (UInt16.toNat_inj.mp hzero)
    have hlt := w.isc.protocolVersion.toNat_lt
    rw [UInt16.toNat_sub]
    simp only [UInt16.toNat_one]
    omega
  split at hl
  · rename_i hge
    obtain ⟨⟨ok, w₁⟩, hopen, hl⟩ := Option.bind_eq_some_iff.mp hl
    have hpos : 1 ≤ w.isc.protocolVersion.toNat - 1 := by
      rw [← hpred]
      exact hmin.trans hge
    have hlower : ∀ version, .asked version ∈ sinceLast Notice.isOpened w.trace →
        w.isc.protocolVersion - 1 < version := by
      intro version hm
      have hle := UInt16.le_iff_toNat_le.mp (hasked version hm)
      rw [UInt16.lt_iff_toNat_lt, hpred]
      omega
    have hne : w.isc.protocolVersion - 1 ≠ 0 := by
      intro hzero
      rw [hzero] at hpred
      simp only [UInt16.toNat_zero] at hpred
      omega
    have hopens : ∃ subState, Opens { w with isc := { w.isc with
        protocolVersion := w.isc.protocolVersion - 1 } } w₁ subState ok := by
      split at hopen
      · exact ⟨_, openManagerConnection_opens hopen hclosed hcon⟩
      · exact ⟨_, openPortmapperConnection_opens hopen hclosed hcon⟩
    obtain ⟨subState, hopens⟩ := hopens
    refine (hopens.invariant hlog hne (fun version hm => ?_) hopened).reopened hl
    exact ⟨UInt16.le_of_lt (hlower version hm), fun _ => hlower version hm⟩
  · exact reportError_attended (by exact hlog) hl

/-- The manager has been asked for the current version, which opening the server keeps. -/
theorem Invariant.managerReady {minVersion : ℕ} (hmin : 1 ≤ minVersion) (h : w.Invariant)
    (hsub : w.isc.subState = .connectingManager)
    (hm : managerReady minVersion w a = some (reactivate, w')) : Attended w' con reactivate := by
  obtain ⟨⟨header, w₁⟩, hheader, hm⟩ := Option.bind_eq_some_iff.mp hm
  obtain ⟨h₁, hne⟩ := silent_clnCall (fun _ => rfl) hheader
  simp only at hm
  split at hm
  · obtain ⟨⟨⟨ok, result, port⟩, w₂⟩, hreply, hm⟩ := Option.bind_eq_some_iff.mp hm
    obtain ⟨w₃, hclose, hm⟩ := Option.bind_eq_some_iff.mp hm
    have h₂ := h₁.trans (silent_clnCall virtual_isAutoDestroyable hreply).1
    obtain ⟨hisc, htrace⟩ := closeConnection_eq hclose
    have htrace' := htrace.trans h₂.trace
    have hversion : w₃.isc.protocolVersion = w.isc.protocolVersion := by
      rw [hisc]
      exact h₂.version
    have hlog : Always Legitimate w₃.trace := htrace' ▸ h.log
    have hclosed : w₃.isc.state = .closed := by rw [hisc]
    have hnone : w₃.isc.clnCon = none := by rw [hisc]
    have hasked : ∀ version, .asked version ∈ sinceLast Notice.isOpened w₃.trace →
        w₃.isc.protocolVersion ≤ version := by
      rw [htrace', hversion]
      exact fun version hmem => (h.asked hne version hmem).1
    have hopened : .notified .opOpen .opened ∉ sinceLast Notice.isOpened w₃.trace := by
      rw [htrace']
      exact fun hmem => absurd (hsub.symm.trans (h.opened hne hmem).1) (by simp)
    have hpv : w₃.isc.protocolVersion ≠ 0 := hversion ▸ h.version hne
    simp only at hm
    split at hm
    · obtain ⟨⟨ok', w₄⟩, hopen, hm⟩ := Option.bind_eq_some_iff.mp hm
      have hopens := openServerConnection_opens hopen hclosed hnone
      refine (hopens.invariant hlog hpv (fun version hmem => ?_) hopened).reopened hm
      exact ⟨hasked version hmem, fun hserver => absurd rfl hserver⟩
    · split at hm
      · exact lowerVersion_attended hmin hclosed hnone hlog hpv hasked hopened hm
      · exact reportError_attended (by exact hlog) hm
  · exact reportError_attended (by exact h₁.trace ▸ h.log) hm

/-- Only a connection that has not been closed in the notification is reactivated. -/
theorem Invariant.serverAttention (h : w.Invariant) (hcon : w.isc.clnCon = some con)
    (hsub : w.isc.subState = .connectingServer) (hphase : phase w.trace ≠ .fresh)
    {op : KssInterKsServerConnectionOperations}
    (hop : op = .opOpen → .notified .opOpen .opened ∉ sinceLast Notice.isOpened w.trace)
    (hs : w.serverAttention op a = some (reactivate, w')) : Attended w' con reactivate := by
  obtain ⟨w₁, hnotify, hs⟩ := Option.bind_eq_some_iff.mp hs
  obtain ⟨hreactivate, rfl⟩ := Prod.mk.inj (Option.some.inj hs)
  have hopened : ({ w with isc := { w.isc with
      state := .opened, result := .ok, clnConOnceClosed := false } } : InterServer).Invariant :=
    ⟨by simp [hcon], h.live, h.log, h.version, h.asked, h.opened⟩
  obtain ⟨hinv, hsame⟩ := hopened.asyncAttention hnotify fun hopOpen _ =>
    ⟨hsub, hphase, hop hopOpen⟩
  refine ⟨hinv, fun htrue => ?_⟩
  rw [htrue, Bool.not_eq_true'] at hreactivate
  rw [(hsame hreactivate).2 (by simp [hcon]), hcon]

/-- A report is a note like others for a connection object that keeps to its contract. -/
theorem Invariant.note_reported (h : w.Invariant) {c : KssConnection}
    (hc : w.Contract (.attention c a)) : (w.note (.reported (getState c))).Invariant := by
  have hplain : (Notice.reported (getState c)).IsPlain := ⟨fun version => by simp, by simp⟩
  simp only [Contract] at hc
  split at hc
  · refine h.note hplain (fun _ => ?_) fun hne => ?_
    · assumption
    · contradiction
  · exact hc.elim
  · rename_i hphase
    refine h.note_same hplain ?_
    obtain hstate | hstate := hc <;> rw [hstate, hphase] <;> rfl

theorem Invariant.attention {minVersion : ℕ} (hmin : 1 ≤ minVersion) (h : w.Invariant)
    (hcon : w.isc.clnCon = some con) {c : KssConnection} (hobj : w.system.objects con = some c)
    (hc : w.Contract (.attention c a))
    (ha : InterServer.attention minVersion w con a = some (reactivate, w')) :
    Attended w' con reactivate := by
  have hnoted := h.note_reported hc
  have hne : w.isc.clnCon ≠ none := by simp [hcon]
  simp only [InterServer.attention, hobj, Option.bind_eq_bind, Option.bind_some] at ha
  have hsince : ∀ m, m ∈ sinceLast Notice.isOpened (w.note (.reported (getState c))).trace →
      m ≠ .reported (getState c) → m ∈ sinceLast Notice.isOpened w.trace :=
    fun m hm hm' => (mem_sinceLast_concat.mp hm).2.resolve_right hm'
  simp only [Contract] at hc
  split at hc
  · rename_i hfresh
    obtain hstate | hstate := hc
    · have hphase : phase (w.note (.reported (getState c))).trace = .established := by
        rw [InterServer.note, phase_concat, hstate]
        rfl
      cases hsub : w.isc.subState with
      | none =>
        simp only [hstate, InterServer.note, hsub] at ha
        exact reportError_attended (by rw [← hstate]; exact hnoted.log) ha
      | connectingPmap =>
        rw [hstate] at hnoted
        simp only [hstate, InterServer.note, hsub] at ha
        exact hnoted.pmapConnected hcon ha
      | connectingManager =>
        rw [hstate] at hnoted hsince
        simp only [hstate, InterServer.note, hsub] at ha
        refine hnoted.managerConnected hcon hsub (fun version hm => ?_) ha
        exact (h.asked hne version (hsince _ hm (by simp))).2 (Or.inr ⟨hsub, hfresh⟩)
      | connectingServer =>
        rw [hstate] at hnoted hsince hphase
        simp only [hstate, InterServer.note, hsub] at ha
        refine hnoted.serverAttention hcon hsub (by simp [hphase]) (fun _ hm => ?_) ha
        exact (h.opened hne (hsince _ hm (by simp))).2 hfresh
    · simp only [hstate] at ha
      exact attentionFailed_attended (by rw [← hstate]; exact hnoted.log) ha
  · exact hc.elim
  · rename_i hrequested
    obtain hstate | hstate := hc
    · have hphase : phase (w.note (.reported (getState c))).trace = .requested := by
        rw [InterServer.note, phase_concat, hstate, hrequested]
        rfl
      rw [hstate] at hnoted hphase
      cases hsub : w.isc.subState with
      | none =>
        simp only [hstate, InterServer.note, hsub] at ha
        exact reportError_attended hnoted.log ha
      | connectingPmap =>
        simp only [hstate, InterServer.note, hsub] at ha
        exact hnoted.pmapReady hsub ha
      | connectingManager =>
        simp only [hstate, InterServer.note, hsub] at ha
        exact hnoted.managerReady hmin hsub ha
      | connectingServer =>
        simp only [hstate, InterServer.note, hsub] at ha
        exact hnoted.serverAttention hcon hsub (by simp [hphase]) (fun hop => absurd hop (by simp))
          ha
    · simp only [hstate] at ha
      exact attentionFailed_attended (by rw [← hstate]; exact hnoted.log) ha

/-- The object may have come into any state that its contract allows. -/
theorem Invariant.attend {minVersion : ℕ} (hmin : 1 ≤ minVersion) (h : w.Invariant)
    {c : KssConnection} (hc : w.Contract (.attention c a))
    (ha : w.attend minVersion c a = some (reactivate, w')) :
    ∃ con, w.isc.clnCon = some con ∧ Attended w' con reactivate := by
  obtain ⟨con, hcon, ha⟩ := Option.bind_eq_some_iff.mp ha
  obtain ⟨system, hchange, ha⟩ := Option.bind_eq_some_iff.mp ha
  obtain ⟨old, hold, -, hauto, rfl⟩ := CnxSystem.change_eq hchange
  have hspares : w.system.Spares
      { w.system with objects := update w.system.objects con (some c) } := by
    refine CnxSystem.spares_update fun c' hobj hauto' => ⟨c, rfl, ?_⟩
    obtain rfl := Option.some.inj (hold.symm.trans hobj)
    rw [hauto, hauto']
  exact ⟨con, hcon, (h.silent (silent_system hspares)).attention hmin hcon (update_self ..) hc ha⟩

theorem Invariant.consistent {minVersion : ℕ} (hmin : 1 ≤ minVersion) (h : w.Invariant) :
    w.Consistent minVersion := by
  refine ⟨h.closed_iff, h.log, fun c a w' hc ha => ?_⟩
  obtain ⟨con, hcon, hinv, hkept⟩ := h.attend hmin hc ha
  exact ⟨(hkept rfl).trans hcon.symm, hinv.live⟩

theorem create_invariant (host : KsString) (hostPort : UInt16) (server : KsString)
    (hostAddr : SocketAddress) (fdsetSize : ℕ) :
    (create (.create host hostPort server hostAddr) fdsetSize).Invariant :=
  invariant_of_closed rfl rfl always_nil

/-- The automaton is consistent after any calls and any attention, as long as every connection
object keeps to its contract. -/
theorem automaton_consistent {minVersion : ℕ} (hmin : 1 ≤ minVersion) (host : KsString)
    (hostPort : UInt16) (server : KsString) (hostAddr : SocketAddress) (fdsetSize : ℕ)
    {es : List AutomatonEvent}
    (hes : Along (automatonStep minVersion) (fun o e => ∀ w ∈ o, w.Contract e)
      (some (create (.create host hostPort server hostAddr) fdsetSize)) es)
    (hrun : run (automatonStep minVersion)
      (some (create (.create host hostPort server hostAddr) fdsetSize)) es = some w) :
    w.Consistent minVersion := by
  have hinv : ∀ w ∈ run (automatonStep minVersion)
      (some (create (.create host hostPort server hostAddr) fdsetSize)) es, w.Invariant := by
    refine run_invariant (I := fun o => ∀ w ∈ o, w.Invariant) ?_ ?_ hes
    · intro o e ho hc w' hw'
      obtain ⟨w, rfl, hstep⟩ := Option.bind_eq_some_iff.mp hw'
      have h := ho w rfl
      cases e with
      | call u => exact (h.perform hstep).1
      | attention c a =>
        obtain ⟨⟨reactivate, w₁⟩, ha, rfl⟩ := Option.map_eq_some_iff.mp hstep
        obtain ⟨con, -, hinv, -⟩ := h.attend hmin (hc w rfl) ha
        exact hinv
    · rintro w ⟨⟩
      exact create_invariant ..
  exact (hinv w hrun).consistent hmin

/-- A socket whose connect is under way, and memory for the connection object. -/
def creationInProgress : Creation where
  sock := some 7
  allocated := true
  tcpMemory := (Endpoint.started []).con
  pool := (Endpoint.started []).pool
  info := some 0
  udpMemory := UdpEndpoint.started.con
  buffers := true
  nonblocking := true
  connecting := true
  incoming := []
  xid := 1
  rounds := [⟨0, {}⟩]

/-- The connection object of a manager in a certain state. -/
def managerConnection (state : ConnectionState) : KssConnection :=
  match KssConnection.newTcp 7 15 creationInProgress with
  | .tcp fd timeout destroyable e => .tcp fd timeout destroyable (e.setState state)
  | c => c

/-- A manager that can be connected to and then fails to answer. -/
def failingManager : List AutomatonEvent :=
  [.call (.startOpen ⟨0x7F000001, none⟩ creationInProgress),
    .attention (managerConnection .connected) ⟨1, creationInProgress, []⟩,
    .attention (managerConnection .readyFailed) ⟨2, creationInProgress, [.close]⟩]

theorem automaton_consistent_failingManager :
    ∃ w, run (automatonStep 1) (some (create (.create [104] 7509 [115] ⟨0, 0⟩) 8))
      failingManager = some w ∧ w.Consistent 1 := by
  obtain ⟨w, hw⟩ := Option.isSome_iff_exists.mp (show (run (automatonStep 1)
    (some (create (.create [104] 7509 [115] ⟨0, 0⟩) 8)) failingManager).isSome = true by decide)
  refine ⟨w, hw, automaton_consistent (le_refl 1) [104] 7509 [115] ⟨0, 0⟩ 8 ?_ hw⟩
  refine ⟨fun _ _ => trivial, fun w₁ hw₁ => ?_, fun w₂ hw₂ => ?_, trivial⟩
  · obtain rfl := Option.some.inj hw₁
    exact Or.inl rfl
  · obtain rfl := Option.some.inj hw₂
    exact Or.inr rfl

end InterServer
end AcpltKs
