import AcpltKs.Manager.Registration

/-! Registrations for which there is not enough memory: up to the place in the table a failure leaves
everything as it was, and afterwards it does not. -/
namespace AcpltKs
open Function BackPointers GuardedRun

namespace KsManager

variable {m : KsManager} {mem : Memory} {now : KsTime} {params : KsRegistrationParams}

/-- The manager as if these events, for which there was no place in the queue, were queued. -/
def andQueued (m : KsManager) (lost : List ℕ) : KsManager :=
  { m with timerQueue := m.timerQueue ++ lost }

/-- Events may have got lost, but all else is as it should be. -/
def Sane (m : KsManager) : Prop := ∃ lost, (m.andQueued lost).Invariant

/-- The server is in the table and below `/servers`, with what has been asked for. -/
def Registers (m : KsManager) (params : KsRegistrationParams) (now : KsTime) : Prop :=
  ∃ pserver s, m.serverTable.lookup params.server.key = some pserver ∧
    m.servers pserver = some s ∧ s.port = params.port ∧
    s.expiresAt = now.after params.timeToLive ∧ s.living = true ∧
    objectAt m.serversDomain (cString params.server.name)
      (fromInt params.server.protocolVersion.toNat) = some (.registration pserver)

/-- The tables are as before, and so are the registration objects and the events. -/
def Kept (m m' : KsManager) : Prop :=
  m'.serverTable = m.serverTable ∧ m'.serversDomain = m.serversDomain ∧
    (∀ pserver s, m.servers pserver = some s → m'.servers pserver = some s) ∧
    ∀ pevent e, m.events pevent = some e → m'.events pevent = some e

/-- A registration is made as a whole, or reported as a failure and not made at all. -/
def Atomic (m : KsManager) (mem : Memory) (now : KsTime) (params : KsRegistrationParams) : Prop :=
  ∃ result m', m.registerServer mem now params = some (result, m') ∧
    (result = .ok → m'.Registers params now) ∧ (result ≠ .ok → Kept m m') ∧
    ∀ key pserver, m'.serverTable.lookup key = some pserver → (m'.servers pserver).isSome

/-- For a new server that has got its place in the table, the objects below `/servers` are created
as well. -/
def Completes (m : KsManager) (mem : Memory) (params : KsRegistrationParams) : Prop :=
  Accepts params → m.serverTable.lookup params.server.key = none →
    mem.event = true → mem.queue = true → mem.server = true → mem.table = true →
      (m.serversDomain.lookup (cString params.server.name) = none →
        mem.domain = true ∧ mem.domainHandle = true ∧ mem.domainChild = true) ∧
      mem.serverHandle = true ∧ mem.serverChild = true

/-- The manager with one more event that belongs to no server. -/
def withEvent (m : KsManager) (triggerAt : KsTime) : KsManager :=
  (m.newEvent { triggerAt, pserver := none }).2.addTimerEvent m.next

theorem Invariant.withEvent (h : m.Invariant) (triggerAt : KsTime) :
    (m.withEvent triggerAt).Invariant := by
  refine ⟨h.object_of_entry, h.entry_of_object, h.nonempty, h.server_of_entry, h.entry_of_server,
    ?_, fun r s hr => Nat.lt_succ_of_lt (h.server_lt r s hr), fun r e hr => ?_, h.manager_name,
    h.other_name⟩
  · have hadd := h.linked.add (k := m.next) (by rw [ticket, h.next_unused.2]; rfl)
    have hticket : (m.withEvent triggerAt).ticket = update m.ticket m.next (some none) :=
      map_update ..
    rw [hticket]
    exact hadd
  · obtain ⟨rfl, -⟩ | ⟨-, hr'⟩ := update_eq_some.mp hr
    · exact Nat.lt_succ_self _
    · exact Nat.lt_succ_of_lt (h.event_lt r e hr')

/-- References may be used up. -/
theorem Invariant.skip (h : m.Invariant) {next : ℕ} (hnext : m.next ≤ next) :
    ({ m with next } : KsManager).Invariant :=
  ⟨h.object_of_entry, h.entry_of_object, h.nonempty, h.server_of_entry, h.entry_of_server, h.linked,
    fun r s hr => (h.server_lt r s hr).trans_le hnext,
    fun r e hr => (h.event_lt r e hr).trans_le hnext, h.manager_name, h.other_name⟩

/-- The order in the queue does not matter. -/
theorem Invariant.perm (h : m.Invariant) {timerQueue : List ℕ}
    (hperm : timerQueue.Perm m.timerQueue) : ({ m with timerQueue } : KsManager).Invariant :=
  ⟨h.object_of_entry, h.entry_of_object, h.nonempty, h.server_of_entry, h.entry_of_server,
    h.linked.perm hperm, h.server_lt, h.event_lt, h.manager_name, h.other_name⟩

/-- The manager with a new server object in its table, which belongs nowhere else yet. -/
def tabled (m : KsManager) (params : KsRegistrationParams) (expireAt : KsTime) : KsManager :=
  let (pserver, m) := (m.withEvent expireAt).newServer {
    desc := params.server
    port := params.port
    expiresAt := expireAt
    timeToLive := params.timeToLive
    living := true
    pevent := none }
  { m with serverTable := m.serverTable.insert params.server.key pserver }

theorem accepts_iff : Accepts params ↔
    (!isValidManagerName params.server.name || decide (params.server.protocolVersion < 1)) = false ∧
      cString params.server.name ≠ getServerName := by
  rw [Accepts, Bool.or_eq_false_iff, Bool.not_eq_false', decide_eq_false_iff_not, and_assoc]

theorem Kept.refl (m : KsManager) : Kept m m := ⟨rfl, rfl, fun _ _ h => h, fun _ _ h => h⟩

theorem Invariant.kept_withEvent (h : m.Invariant) (triggerAt : KsTime) :
    Kept m (m.withEvent triggerAt) := by
  refine ⟨rfl, rfl, fun _ _ hs => hs, fun pevent e he => ?_⟩
  exact (update_of_ne (Nat.ne_of_lt (h.event_lt pevent e he)) ..).trans he

/-- A request is refused or fails without a trace, or it renews a registration, or the server has
got its place in the table. -/
theorem registerServer_outcomes (h : m.Invariant) (mem : Memory) (now : KsTime)
    (params : KsRegistrationParams) :
    (∃ result m', m.registerServer mem now params = some (result, m') ∧ result ≠ .ok ∧
        Kept m m' ∧ m'.Invariant ∧ Completes m mem params) ∨
      (∃ pserver pevent s e, Accepts params ∧
        m.serverTable.lookup params.server.key = some pserver ∧
        m.servers pserver = some s ∧ s.pevent = some pevent ∧ m.events pevent = some e ∧
        m.registerServer mem now params = some (.ok, m.renewed pserver pevent s e params.port
          (now.after params.timeToLive))) ∨
      Accepts params ∧ m.serverTable.lookup params.server.key = none ∧
        mem.event = true ∧ mem.queue = true ∧ mem.server = true ∧ mem.table = true ∧
        m.registerServer mem now params =
          (m.tabled params (now.after params.timeToLive)).addToDomain mem params.server
            (m.next + 1) m.next := by
  by_cases haccepts : Accepts params
  swap
  · refine Or.inl ⟨.badParam, m, ?_, by simp, .refl m, h, fun hacc => absurd hacc haccepts⟩
    rw [registerServer]
    by_cases hvalid : (!isValidManagerName params.server.name ||
        decide (params.server.protocolVersion < 1)) = true
    · rw [if_pos hvalid]
    · have hname : cString params.server.name = getServerName := by
        rw [accepts_iff, not_and, not_not] at haccepts
        exact haccepts (by simpa using hvalid)
      rw [if_neg hvalid, if_pos hname]
  obtain ⟨hvalid, hname⟩ := accepts_iff.mp haccepts
  cases hevent : mem.event with
  | false =>
    refine Or.inl ⟨.generic, m, ?_, by simp, .refl m, h,
      fun _ _ hev => absurd (hev.symm.trans hevent) (by simp)⟩
    rw [registerServer, hvalid, if_neg (by simp), if_neg hname]
    simp [hevent]
  | true =>
  cases hqueue : mem.queue with
  | false =>
    refine Or.inl ⟨.generic, { m with next := m.next + 1 }, ?_, by simp, .refl m,
      h.skip (Nat.le_succ _), fun _ _ _ hq => absurd (hq.symm.trans hqueue) (by simp)⟩
    have hevents : update m.events m.next none = m.events :=
      update_eq_iff.mpr ⟨h.next_unused.2.symm, fun _ _ => rfl⟩
    rw [registerServer, hvalid, if_neg (by simp), if_neg hname]
    simp [hevent, hqueue, newEvent, deleteEvent, hevents]
  | true =>
  cases hlookup : m.serverTable.lookup params.server.key with
  | some pserver =>
    obtain ⟨s, hs, -⟩ := h.server_of_entry _ _ hlookup
    obtain ⟨pevent, e, hpevent, he, -, hlt⟩ := h.event hs
    refine Or.inr (Or.inl ⟨pserver, pevent, s, e, haccepts, rfl, hs, hpevent, he, ?_⟩)
    have hne : pevent ≠ m.next := Nat.ne_of_lt hlt
    rw [registerServer, hvalid, if_neg (by simp), if_neg hname]
    simp only [newEvent, addTimerEvent, hlookup, renewServer, setServer, inactivate, setEvent,
      connect, hs, hpevent, he, hevent, hqueue, update_self, update_of_ne hne,
      update_of_ne hne.symm, update_idem, Option.bind_eq_bind, Option.bind_some, Option.map_some,
      Bool.not_true, Bool.false_eq_true, ↓reduceIte, renewed, update_comm hne]
  | none =>
  cases hserver : mem.server with
  | false =>
    refine Or.inl ⟨.generic, m.withEvent (now.after params.timeToLive), ?_, by simp,
      h.kept_withEvent _, h.withEvent _,
      fun _ _ _ _ hsv => absurd (hsv.symm.trans hserver) (by simp)⟩
    rw [registerServer, hvalid, if_neg (by simp), if_neg hname]
    simp [hevent, hqueue, hlookup, hserver, withEvent, newEvent,
      addTimerEvent]
  | true =>
  cases htable : mem.table with
  | false =>
    refine Or.inl ⟨.generic, { m.withEvent (now.after params.timeToLive) with
        next := m.next + 1 + 1 }, ?_, by simp, h.kept_withEvent _,
      (h.withEvent _).skip (Nat.le_succ _),
      fun _ _ _ _ _ ht => absurd (ht.symm.trans htable) (by simp)⟩
    have hservers : update m.servers (m.next + 1) none = m.servers :=
      update_eq_iff.mpr ⟨(h.skip (Nat.le_succ _)).next_unused.1.symm, fun _ _ => rfl⟩
    rw [registerServer, hvalid, if_neg (by simp), if_neg hname]
    simp [hevent, hqueue, hlookup, hserver, htable, withEvent,
      newEvent, addTimerEvent, newServer, deleteServer, hservers]
  | true =>
    refine Or.inr (Or.inr ⟨haccepts, rfl, rfl, rfl, rfl, rfl, ?_⟩)
    rw [registerServer, hvalid, if_neg (by simp), if_neg hname]
    simp [hevent, hqueue, hlookup, hserver, htable, tabled,
      withEvent, newEvent, addTimerEvent, newServer]

/-- With enough memory the server gets its object below `/servers`. -/
theorem addToDomain_of_complete (h : m.Invariant)
    (hlookup : m.serverTable.lookup params.server.key = none)
    (hname : cString params.server.name ≠ getServerName)
    (hdomain : m.serversDomain.lookup (cString params.server.name) = none →
      mem.domain = true ∧ mem.domainHandle = true ∧ mem.domainChild = true)
    (hhandle : mem.serverHandle = true) (hchild : mem.serverChild = true) (expireAt : KsTime) :
    (m.tabled params expireAt).addToDomain mem params.server (m.next + 1) m.next =
      some (.ok, m.registered params expireAt) := by
  have hid : ((m.serversDomain.lookup (cString params.server.name)).getD ∅).lookup
      (fromInt params.server.protocolVersion.toNat) = none := by
    rw [lookup_getD]
    exact h.objectAt_eq_none hlookup hname
  have hroom : ((m.serversDomain.lookup (cString params.server.name)).isNone &&
      !(mem.domain && mem.domainHandle && mem.domainChild)) = false := by
    cases hps : m.serversDomain.lookup (cString params.server.name) with
    | none =>
      obtain ⟨h₁, h₂, h₃⟩ := hdomain hps
      rw [h₁, h₂, h₃]
      rfl
    | some ps => rfl
  simp only [addToDomain, tabled, withEvent, newEvent, addTimerEvent, newServer, hroom, hid, hhandle,
    hchild, connect, setServer, setEvent, update_self, update_idem, Option.isNone_none,
    Bool.and_self, Option.bind_eq_bind, Option.bind_some, Option.map_some, Bool.false_eq_true,
    ↓reduceIte, registered]

theorem connect_tables {m' : KsManager} {pserver pevent : ℕ}
    (hconnect : m.connect pserver pevent = some m') :
    m'.serverTable = m.serverTable ∧ m'.serversDomain = m.serversDomain := by
  obtain ⟨m₁, hserver, hevent⟩ := Option.bind_eq_some_iff.mp hconnect
  obtain ⟨s, -, rfl⟩ := Option.map_eq_some_iff.mp hserver
  obtain ⟨e, -, rfl⟩ := Option.map_eq_some_iff.mp hevent
  exact ⟨rfl, rfl⟩

/-- Without enough memory the server keeps its place in the table, whatever is reported. -/
theorem addToDomain_of_not_complete {desc : KsServerDesc} {pserver pevent : ℕ}
    (hid : objectAt m.serversDomain (cString desc.name) (fromInt desc.protocolVersion.toNat) = none)
    (hfails : ¬ ((m.serversDomain.lookup (cString desc.name) = none →
      mem.domain = true ∧ mem.domainHandle = true ∧ mem.domainChild = true) ∧
      mem.serverHandle = true ∧ mem.serverChild = true)) {result : KsResult} {m' : KsManager}
    (hadd : m.addToDomain mem desc pserver pevent = some (result, m')) :
    m'.serverTable = m.serverTable ∧ m'.serversDomain = m.serversDomain := by
  have hconnected : ∀ {m₁ : KsManager}, m₁.serverTable = m.serverTable →
      m₁.serversDomain = m.serversDomain →
      (m₁.connect pserver pevent).bind (fun m => some (KsResult.ok, m)) = some (result, m') →
      m'.serverTable = m.serverTable ∧ m'.serversDomain = m.serversDomain := by
    intro m₁ htable hdomain hconnect
    obtain ⟨m₂, hm₂, heq⟩ := Option.bind_eq_some_iff.mp hconnect
    obtain ⟨-, rfl⟩ := Prod.mk.inj (Option.some.inj heq)
    obtain ⟨htable', hdomain'⟩ := connect_tables hm₂
    exact ⟨htable'.trans htable, hdomain'.trans hdomain⟩
  have hempty : (((m.serversDomain.lookup (cString desc.name)).getD ∅).lookup
      (fromInt desc.protocolVersion.toNat)).isNone = true := by
    rw [lookup_getD, hid]
    rfl
  rw [addToDomain] at hadd
  simp only [hempty, Bool.and_true] at hadd
  by_cases hroom : ((m.serversDomain.lookup (cString desc.name)).isNone &&
      !(mem.domain && mem.domainHandle && mem.domainChild)) = true
  · rw [if_pos hroom] at hadd
    obtain ⟨-, rfl⟩ := Prod.mk.inj (Option.some.inj hadd)
    exact ⟨rfl, rfl⟩
  by_cases hchild : (mem.serverHandle && mem.serverChild) = true
  · refine absurd ⟨fun hnone => ?_, by simpa using hchild⟩ hfails
    rw [hnone, Option.isNone_none, Bool.true_and, Bool.not_eq_true', Bool.not_eq_false] at hroom
    simpa [and_assoc] using hroom
  rw [if_neg hroom, if_neg hchild] at hadd
  by_cases hfresh : (m.serversDomain.lookup (cString desc.name)).isNone = true
  · rw [if_pos hfresh] at hadd
    obtain ⟨-, rfl⟩ := Prod.mk.inj (Option.some.inj hadd)
    split <;> exact ⟨rfl, rfl⟩
  · rw [if_neg hfresh] at hadd
    refine hconnected ?_ ?_ hadd
    · split <;> rfl
    · split <;> rfl

theorem Registers.renewed {pserver pevent : ℕ} {s : KsmServer} {e : KsmExpireServerEvent}
    (h : m.Invariant) (hlookup : m.serverTable.lookup params.server.key = some pserver) :
    (m.renewed pserver pevent s e params.port (now.after params.timeToLive)).Registers params now := by
  refine ⟨pserver, _, hlookup, update_self .., rfl, rfl, rfl, ?_⟩
  exact h.object_of_entry _ _ pserver hlookup

theorem Registers.registered :
    (m.registered params (now.after params.timeToLive)).Registers params now := by
  refine ⟨m.next + 1, _, AList.lookup_insert _, update_self .., rfl, rfl, rfl, ?_⟩
  rw [objectAt_registered, if_pos ⟨rfl, rfl⟩]

theorem Invariant.no_dangling (h : m.Invariant) (key : KsString × UInt16) (pserver : ℕ)
    (hlookup : m.serverTable.lookup key = some pserver) : (m.servers pserver).isSome := by
  obtain ⟨s, hs, -⟩ := h.server_of_entry key pserver hlookup
  rw [hs]
  rfl

theorem Kept.no_dangling {m' : KsManager} (hkept : Kept m m') (h : m.Invariant) :
    ∀ key pserver, m'.serverTable.lookup key = some pserver → (m'.servers pserver).isSome := by
  intro key pserver hlookup
  obtain ⟨s, hs, -⟩ := h.server_of_entry key pserver (hkept.1 ▸ hlookup)
  rw [hkept.2.2.1 pserver s hs]
  rfl

/-- With the place in the table the registration cannot be undone any more. -/
theorem Invariant.atomic_iff (h : m.Invariant) (mem : Memory) (now : KsTime)
    (params : KsRegistrationParams) : Atomic m mem now params ↔ Completes m mem params := by
  obtain ⟨result, m', hreg, hne, hkept, -, hcompletes⟩ | ⟨r, p, s, e, -, hlookup, hs, hp, he, hreg⟩ |
    ⟨haccepts, hlookup, hev, hq, hsv, ht, hreg⟩ := registerServer_outcomes h mem now params
  · refine iff_of_true ⟨result, m', hreg, fun hok => absurd hok hne, fun _ => hkept, ?_⟩ hcompletes
    exact hkept.no_dangling h
  · refine iff_of_true ⟨_, _, hreg, fun _ => .renewed h hlookup, fun hne => absurd rfl hne, ?_⟩ ?_
    · exact (h.renewed hs hp he _ _).no_dangling
    · exact fun _ hnone => absurd (hlookup.symm.trans hnone) (by simp)
  · constructor
    · rintro ⟨result, m', hreg', hok, hfail, -⟩ - - - - - -
      by_contra hfails
      have hid := h.objectAt_eq_none hlookup haccepts.2.2
      obtain ⟨htable, hdomain⟩ := addToDomain_of_not_complete
        (m := m.tabled params (now.after params.timeToLive)) hid hfails (hreg.symm.trans hreg')
      by_cases hresult : result = .ok
      · obtain ⟨pserver, s, -, -, -, -, -, hobject⟩ := hok hresult
        rw [hdomain] at hobject
        exact absurd (hid.symm.trans hobject) (by simp)
      · have hold := (hfail hresult).1
        rw [htable] at hold
        have hnew : (m.serverTable.insert params.server.key (m.next + 1)).lookup
            params.server.key = some (m.next + 1) := AList.lookup_insert _
        rw [show m.serverTable.insert params.server.key (m.next + 1) = m.serverTable from hold,
          hlookup] at hnew
        exact absurd hnew (by simp)
    · intro hcompletes
      obtain ⟨hdomain, hhandle, hchild⟩ := hcompletes haccepts hlookup hev hq hsv ht
      rw [addToDomain_of_complete h hlookup haccepts.2.2 hdomain hhandle hchild] at hreg
      refine ⟨_, _, hreg, fun _ => .registered, fun hne => absurd rfl hne, ?_⟩
      exact (h.registered hlookup haccepts.2.2 _).no_dangling

section Queued
variable (lost : List ℕ)

theorem setServer_andQueued (pserver : ℕ) (f : KsmServer → KsmServer) :
    (m.andQueued lost).setServer pserver f = (m.setServer pserver f).map (·.andQueued lost) := by
  unfold setServer
  cases hs : m.servers pserver <;> simp [andQueued, hs]

theorem setEvent_andQueued (pevent : ℕ) (f : KsmExpireServerEvent → KsmExpireServerEvent) :
    (m.andQueued lost).setEvent pevent f = (m.setEvent pevent f).map (·.andQueued lost) := by
  unfold setEvent
  cases he : m.events pevent <;> simp [andQueued, he]

theorem inactivate_andQueued (pserver : ℕ) :
    (m.andQueued lost).inactivate pserver = (m.inactivate pserver).map (·.andQueued lost) := by
  simp only [inactivate, setEvent_andQueued, Option.map_bind, Option.bind_eq_bind, comp_def]
  rfl

theorem connect_andQueued (pserver pevent : ℕ) :
    (m.andQueued lost).connect pserver pevent =
      (m.connect pserver pevent).map (·.andQueued lost) := by
  simp only [connect, setServer_andQueued, setEvent_andQueued, Option.map_bind, Option.bind_eq_bind,
    Option.bind_map, comp_def]

theorem renewServer_andQueued (pserver pevent : ℕ) (port : UInt16) (expireAt : KsTime) :
    (m.andQueued lost).renewServer pserver pevent port expireAt =
      (m.renewServer pserver pevent port expireAt).map
        (Prod.map id (·.andQueued lost)) := by
  simp only [renewServer, setServer_andQueued, inactivate_andQueued, connect_andQueued,
    Option.map_bind, Option.bind_eq_bind, Option.bind_map, comp_def, Option.map_some, Prod.map, id]

theorem connected_andQueued (pserver pevent : ℕ) :
    ((m.andQueued lost).connect pserver pevent).bind (fun m => some (KsResult.ok, m)) =
      ((m.connect pserver pevent).bind fun m => some (KsResult.ok, m)).map
        (Prod.map id (·.andQueued lost)) := by
  simp only [connect_andQueued, Option.map_bind, Option.bind_map, comp_def, Option.map_some,
    Prod.map, id]

theorem addToDomain_andQueued (desc : KsServerDesc) (pserver pevent : ℕ) :
    (m.andQueued lost).addToDomain mem desc pserver pevent =
      (m.addToDomain mem desc pserver pevent).map (Prod.map id (·.andQueued lost)) := by
  unfold addToDomain
  have hdomain : (m.andQueued lost).serversDomain = m.serversDomain := rfl
  simp only [hdomain]
  split
  · rfl
  split
  · exact connected_andQueued (m := { m with serversDomain := _ }) lost pserver pevent
  by_cases hhandle : mem.serverHandle = true
  · rw [if_pos hhandle, if_pos hhandle]
    split
    · rfl
    · exact connected_andQueued (m := m.deleteServer pserver) lost pserver pevent
  · rw [if_neg hhandle, if_neg hhandle]
    split
    · rfl
    · exact connected_andQueued lost pserver pevent

theorem removeServer_andQueued (pserver : ℕ) :
    (m.andQueued lost).removeServer pserver =
      (m.removeServer pserver).map (·.andQueued lost) := by
  unfold removeServer
  rw [show (m.andQueued lost).servers = m.servers from rfl]
  cases hs : m.servers pserver with
  | none => rfl
  | some s =>
  have hinactivate := inactivate_andQueued
    (m := { m with serverTable := m.serverTable.erase s.desc.key }) lost pserver
  simp only [Option.bind_eq_bind, Option.bind_some]
  change ((({ m with serverTable := m.serverTable.erase s.desc.key } : KsManager).andQueued
    lost).inactivate pserver).bind _ = _
  rw [hinactivate]
  cases ({ m with serverTable := m.serverTable.erase s.desc.key } : KsManager).inactivate
      pserver with
  | none => rfl
  | some m' =>
  simp only [Option.map_some, Option.bind_some]
  rw [show (m'.andQueued lost).serversDomain = m'.serversDomain from rfl]
  cases m'.serversDomain.lookup (cString s.desc.name) with
  | none => rfl
  | some ps =>
    simp only [Option.bind_some]
    split <;> rfl

theorem registerServer_andQueued :
    (m.andQueued lost).registerServer mem now params =
      (m.registerServer mem now params).map (Prod.map id (·.andQueued lost)) := by
  unfold registerServer
  split
  · rfl
  split
  · rfl
  split
  · rfl
  simp only [newEvent, addTimerEvent, newServer]
  split
  · rfl
  rw [show (m.andQueued lost).serverTable = m.serverTable from rfl]
  cases m.serverTable.lookup params.server.key with
  | some pserver =>
    exact renewServer_andQueued (m := m.withEvent (now.after params.timeToLive)) lost pserver m.next
      params.port (now.after params.timeToLive)
  | none =>
    simp only
    split
    · rfl
    split
    · rfl
    · exact addToDomain_andQueued (m := m.tabled params (now.after params.timeToLive)) lost
        params.server (m.next + 1) m.next

theorem unregisterServer_andQueued (server : KsServerDesc) :
    (m.andQueued lost).unregisterServer server =
      (m.unregisterServer server).map (Prod.map id (·.andQueued lost)) := by
  unfold unregisterServer
  split
  · rfl
  rw [show (m.andQueued lost).serverTable = m.serverTable from rfl]
  cases m.serverTable.lookup server.key with
  | none => rfl
  | some pserver =>
    simp only [removeServer_andQueued, Option.map_map]
    rfl

theorem trigger_andQueued (pevent : ℕ) :
    (m.andQueued lost).trigger mem now pevent =
      (m.trigger mem now pevent).map (·.andQueued lost) := by
  unfold trigger
  rw [show (m.andQueued lost).events = m.events from rfl,
    show (m.andQueued lost).servers = m.servers from rfl]
  cases m.events pevent with
  | none => rfl
  | some e =>
  cases he : e.pserver with
  | none => simp [he]; rfl
  | some pserver =>
  simp only [he, Option.bind_eq_bind, Option.bind_some]
  cases m.servers pserver with
  | none => rfl
  | some s =>
    simp only [Option.bind_some, setServer_andQueued, setEvent_andQueued, removeServer_andQueued,
      Option.bind_map, comp_def]
    split
    · cases m.setServer pserver fun s => { s with living := false } with
      | none => rfl
      | some m₁ =>
        simp only [Option.bind_some]
        cases m₁.setEvent pevent fun e => { e with triggerAt := now.after s.timeToLive } with
        | none => rfl
        | some m₂ =>
          simp only [Option.bind_some, Option.map_some]
          split <;> rfl
    · cases m.removeServer pserver <;> rfl

/-- If there is no place in the queue, an event gets lost, but all else is the same. -/
theorem trigger_memory (m : KsManager) (mem : Memory) (now : KsTime) (pevent : ℕ) :
    m.trigger mem now pevent = m.trigger {} now pevent ∨
      ∃ m', m.trigger mem now pevent = some m' ∧
        m.trigger {} now pevent = some (m'.addTimerEvent pevent) := by
  unfold trigger
  cases m.events pevent with
  | none => exact Or.inl rfl
  | some e =>
  cases he : e.pserver with
  | none => exact Or.inl (by simp [he])
  | some pserver =>
  simp only [he, Option.bind_eq_bind, Option.bind_some]
  cases m.servers pserver with
  | none => exact Or.inl rfl
  | some s =>
    simp only [Option.bind_some]
    split
    · cases m.setServer pserver fun s => { s with living := false } with
      | none => exact Or.inl rfl
      | some m₁ =>
        simp only [Option.bind_some]
        cases m₁.setEvent pevent fun e => { e with triggerAt := now.after s.timeToLive } with
        | none => exact Or.inl rfl
        | some m₂ =>
          cases hqueue : mem.queue with
          | true => exact Or.inl rfl
          | false => exact Or.inr ⟨m₂, rfl, rfl⟩
    · exact Or.inl rfl

end Queued

theorem Completes.andQueued_iff (lost : List ℕ) :
    Completes (m.andQueued lost) mem params ↔ Completes m mem params := Iff.rfl

/-- An outcome with the lost events in the queue is an outcome without them. -/
theorem outcome_of_andQueued {x : Option (KsResult × KsManager)} {lost : List ℕ}
    {result : KsResult} {m' : KsManager}
    (h : x.map (Prod.map id (·.andQueued lost)) = some (result, m')) :
    ∃ m₁, x = some (result, m₁) ∧ m' = m₁.andQueued lost := by
  obtain ⟨⟨result', m₁⟩, hx, heq⟩ := Option.map_eq_some_iff.mp h
  obtain ⟨rfl, rfl⟩ := Prod.mk.inj heq
  exact ⟨m₁, hx, rfl⟩

theorem Sane.atomic_iff (h : m.Sane) (mem : Memory) (now : KsTime)
    (params : KsRegistrationParams) : Atomic m mem now params ↔ Completes m mem params := by
  obtain ⟨lost, h⟩ := h
  rw [← Completes.andQueued_iff lost, ← h.atomic_iff mem now params]
  constructor
  · rintro ⟨result, m', hreg, hatomic⟩
    exact ⟨result, m'.andQueued lost, by rw [registerServer_andQueued, hreg]; rfl, hatomic⟩
  · rintro ⟨result, m', hreg, hatomic⟩
    rw [registerServer_andQueued] at hreg
    obtain ⟨m₁, hreg₁, rfl⟩ := outcome_of_andQueued hreg
    exact ⟨result, m₁, hreg₁, hatomic⟩

/-- A registration that is completed keeps all in order, whatever else fails. -/
theorem Sane.registerServer (h : m.Sane) (hcompletes : Completes m mem params) (now : KsTime) :
    ∃ result m', m.registerServer mem now params = some (result, m') ∧ m'.Sane := by
  obtain ⟨lost, h⟩ := h
  have hreg : (m.andQueued lost).registerServer mem now params = _ := registerServer_andQueued lost
  obtain ⟨result, m', hreg', -, -, hinv, -⟩ | ⟨r, p, s, e, -, hlookup, hs, hp, he, hreg'⟩ |
    ⟨haccepts, hlookup, hev, hq, hsv, ht, hreg'⟩ := registerServer_outcomes h mem now params
  · obtain ⟨m₁, hreg₁, rfl⟩ := outcome_of_andQueued (hreg.symm.trans hreg')
    exact ⟨result, m₁, hreg₁, lost, hinv⟩
  · obtain ⟨m₁, hreg₁, heq⟩ := outcome_of_andQueued (hreg.symm.trans hreg')
    exact ⟨_, m₁, hreg₁, lost, heq ▸ h.renewed hs hp he _ _⟩
  · obtain ⟨hdomain, hhandle, hchild⟩ := hcompletes haccepts hlookup hev hq hsv ht
    rw [addToDomain_of_complete h hlookup haccepts.2.2 hdomain hhandle hchild] at hreg'
    obtain ⟨m₁, hreg₁, heq⟩ := outcome_of_andQueued (hreg.symm.trans hreg')
    exact ⟨_, m₁, hreg₁, lost, heq ▸ h.registered hlookup haccepts.2.2 _⟩

/-- What an operation needs so that everything stays in order. -/
def Op.Completes (m : KsManager) : Op → Prop
  | .register mem _ params => KsManager.Completes m mem params
  | .unregister _ => True
  | .trigger _ _ _ => True

theorem Sane.perform (h : m.Sane) {op : Op} (hop : op.Completes m) :
    ∃ m', m.perform op = some m' ∧ m'.Sane := by
  cases op with
  | register mem now params =>
    obtain ⟨result, m', hreg, hsane⟩ := h.registerServer hop now
    exact ⟨m', by rw [KsManager.perform, hreg]; rfl, hsane⟩
  | unregister server =>
    obtain ⟨lost, h⟩ := h
    have hun := unregisterServer_andQueued (m := m) lost server
    obtain ⟨result, hun'⟩ | ⟨r, p, s, e, tree, -, -, -, -, hun', hinv⟩ :=
      unregisterServer_cases h server
    · obtain ⟨m₁, hun₁, heq⟩ := outcome_of_andQueued (hun.symm.trans hun')
      exact ⟨m₁, by rw [KsManager.perform, hun₁]; rfl, lost, heq ▸ h⟩
    · obtain ⟨m₁, hun₁, heq⟩ := outcome_of_andQueued (hun.symm.trans hun')
      exact ⟨m₁, by rw [KsManager.perform, hun₁]; rfl, lost, heq ▸ hinv⟩
  | trigger mem now pevent =>
    obtain ⟨lost, h⟩ := h
    by_cases hmem : pevent ∈ m.timerQueue
    swap
    · exact ⟨m, by rw [KsManager.perform, if_neg hmem], lost, h⟩
    have hop : Op.Allocates (.trigger {} now pevent) := rfl
    obtain ⟨m', hperform, hinv⟩ := h.perform hop
    rw [KsManager.perform, if_pos (show pevent ∈ (m.andQueued lost).timerQueue from
      List.mem_append_left _ hmem)] at hperform
    rw [KsManager.perform, if_pos hmem]
    have herase : ({ m.andQueued lost with
        timerQueue := (m.andQueued lost).timerQueue.erase pevent } : KsManager) =
          ({ m with timerQueue := m.timerQueue.erase pevent } : KsManager).andQueued lost := by
      simp only [andQueued, List.erase_append_left _ hmem]
    rw [herase, trigger_andQueued] at hperform
    obtain ⟨m₁, htrigger, rfl⟩ := Option.map_eq_some_iff.mp hperform
    obtain hsame | ⟨m₂, hlost, hkept⟩ := trigger_memory
      { m with timerQueue := m.timerQueue.erase pevent } mem now pevent
    · exact ⟨m₁, hsame.trans htrigger, lost, hinv⟩
    · obtain rfl := Option.some.inj (hkept.symm.trans htrigger)
      exact ⟨m₂, hlost, pevent :: lost, hinv.perm List.perm_middle⟩

theorem create_sane : create.Sane := ⟨[], create_invariant⟩

/-- As long as every registration that has got its place in the table is completed, all is in
order. -/
theorem sane_of_along {ops : List Op}
    (h : Along step (fun s op => ∀ m ∈ s, op.Completes m) (some .create) ops) :
    ∃ m, run step (some .create) ops = some m ∧ m.Sane := by
  have hstep : ∀ (s : Option KsManager) (op : Op), (∃ m, s = some m ∧ m.Sane) →
      (∀ m ∈ s, op.Completes m) → ∃ m, step s op = some m ∧ m.Sane := by
    rintro s op ⟨m, rfl, hsane⟩ hop
    obtain ⟨m', hperform, hsane'⟩ := hsane.perform (hop m rfl)
    exact ⟨m', by rw [step, Option.bind_some, hperform], hsane'⟩
  exact run_invariant (I := fun s : Option KsManager => ∃ m, s = some m ∧ m.Sane) hstep
    ⟨.create, rfl, create_sane⟩ h

end KsManager

/-- As long as every registration that has got its place in the table is completed, a registration is
atomic exactly if it is completed itself. -/
theorem registerServer_atomic_iff {ops : List KsManager.Op}
    (h : Along KsManager.step (fun s op => ∀ m ∈ s, op.Completes m) (some .create) ops) :
    ∃ m, run KsManager.step (some .create) ops = some m ∧ ∀ mem now params,
      m.Atomic mem now params ↔ m.Completes mem params := by
  obtain ⟨m, hm, hsane⟩ := KsManager.sane_of_along h
  exact ⟨m, hm, hsane.atomic_iff⟩

/-- The first registration fails for want of a server object, the second one is made. -/
theorem registerServer_atomic_secondTry :
    ∃ m, run KsManager.step (some .create) [.register { server := false } 0 ⟨⟨[65], 1⟩, 7, 20⟩,
        .register {} 1 ⟨⟨[65], 1⟩, 7, 20⟩, .trigger { queue := false } 21 1] = some m ∧
      ∀ mem now params, m.Atomic mem now params ↔ m.Completes mem params := by
  refine registerServer_atomic_iff ⟨?_, ?_, ?_, trivial⟩
  · rintro m - - - - - hserver
    exact absurd hserver (by decide)
  · rintro m - - - - - - -
    exact ⟨fun _ => ⟨rfl, rfl, rfl⟩, rfl, rfl⟩
  · rintro m -
    trivial

/-- Without memory for the domain the server stays in the table, although a failure is reported. -/
theorem not_atomic_noDomain :
    ¬ KsManager.create.Atomic { domain := false } 0 ⟨⟨[65], 1⟩, 7, 20⟩ := by
  intro hatomic
  have haccepts : KsManager.Accepts ⟨⟨[65], 1⟩, 7, 20⟩ := by
    unfold KsManager.Accepts
    decide
  obtain ⟨hdomain, -⟩ := (KsManager.create_sane.atomic_iff _ _ _).mp hatomic haccepts rfl rfl rfl rfl
    rfl
  exact absurd (hdomain (by decide)).1 (by decide)

end AcpltKs
