import AcpltKs.Manager.Failures

/-! A server that registers again: what becomes of its entry, compared with a new registration. -/
namespace AcpltKs
open Function BackPointers GuardedRun

/-- What there is to see of an entry; `triggersAt` is the time of its event, if that is queued. -/
structure EntryState where
  port : UInt16
  timeToLive : ℕ
  expiresAt : KsTime
  living : Bool
  triggersAt : Option KsTime
  deriving DecidableEq

/-- The life of an entry: when its event triggers, it is marked dead, and then it is removed. -/
def EntryState.expire (s : EntryState) (mem : Memory) (now : KsTime) : Option EntryState :=
  if s.triggersAt = none then some s
  else if s.living then
    some { s with
      living := false
      triggersAt := if mem.queue then some (now.after s.timeToLive) else none }
  else none

namespace KsManager
variable {m m' : KsManager} {mem : Memory} {now : KsTime} {params : KsRegistrationParams}
  {key : KsString × UInt16}

def observe (m : KsManager) (key : KsString × UInt16) : Option EntryState := do
  let pserver ← m.serverTable.lookup key
  let s ← m.servers pserver
  let pevent ← s.pevent
  let e ← m.events pevent
  some {
    port := s.port
    timeToLive := s.timeToLive
    expiresAt := s.expiresAt
    living := s.living
    triggersAt := if pevent ∈ m.timerQueue then some e.triggerAt else none }

/-- The event of an entry triggers, if there is one in the queue. -/
def expire (m : KsManager) (key : KsString × UInt16) (mem : Memory) (now : KsTime) :
    Option KsManager :=
  match (m.serverTable.lookup key).bind m.owner with
  | some pevent => m.perform (.trigger mem now pevent)
  | none => some m

/-- What is seen of an entry while its event triggers again and again, at these times and with this
memory. -/
def schedule (key : KsString × UInt16) : Option KsManager → List (Memory × KsTime) →
    List (Option EntryState)
  | m, [] => [m.bind (·.observe key)]
  | m, (mem, now) :: triggers =>
      m.bind (·.observe key) :: schedule key (m.bind (·.expire key mem now)) triggers

/-- The entry is the same now and forever, if only its event triggers. -/
def SameSchedule (m m' : KsManager) (key : KsString × UInt16) : Prop :=
  ∀ triggers, schedule key (some m) triggers = schedule key (some m') triggers

/-- The entry is as if it had been removed before and registered again. -/
def LikeFresh (m m' : KsManager) (params : KsRegistrationParams) (now : KsTime) : Prop :=
  ∀ pserver m₀ m₁, m.serverTable.lookup params.server.key = some pserver →
    m.removeServer pserver = some m₀ → m₀.registerServer {} now params = some (.ok, m₁) →
      SameSchedule m' m₁ params.server.key

/-- An entry with the objects that belong to it. -/
structure Entry (m : KsManager) (key : KsString × UInt16) (pserver pevent : ℕ) (s : KsmServer)
    (e : KsmExpireServerEvent) : Prop where
  lookup : m.serverTable.lookup key = some pserver
  server : m.servers pserver = some s
  key_eq : s.desc.key = key
  pevent_eq : s.pevent = some pevent
  event : m.events pevent = some e
  pserver_eq : e.pserver = some pserver

theorem Sane.entry (h : m.Sane) {pserver : ℕ} (hlookup : m.serverTable.lookup key = some pserver) :
    ∃ pevent s e, m.Entry key pserver pevent s e := by
  obtain ⟨lost, h⟩ := h
  obtain ⟨s, hs, hkey⟩ := h.server_of_entry key pserver hlookup
  obtain ⟨pevent, e, hpevent, he, hpserver, -⟩ := h.event hs
  exact ⟨pevent, s, e, hlookup, hs, hkey, hpevent, he, hpserver⟩

theorem Entry.observe {pserver pevent : ℕ} {s : KsmServer} {e : KsmExpireServerEvent}
    (h : m.Entry key pserver pevent s e) : m.observe key = some {
      port := s.port
      timeToLive := s.timeToLive
      expiresAt := s.expiresAt
      living := s.living
      triggersAt := if pevent ∈ m.timerQueue then some e.triggerAt else none } := by
  simp [KsManager.observe, h.lookup, h.server, h.pevent_eq, h.event]

theorem observe_eq_none (hlookup : m.serverTable.lookup key = none) : m.observe key = none := by
  simp [observe, hlookup]

theorem expire_eq_self (hlookup : m.serverTable.lookup key = none) :
    m.expire key mem now = some m := by
  simp [expire, hlookup]

theorem Sane.nodup (h : m.Sane) : m.timerQueue.Nodup := by
  obtain ⟨lost, h⟩ := h
  exact (List.nodup_append.mp h.linked.nodup).1

/-- A living server is marked dead. -/
theorem Entry.perform_living {pserver pevent : ℕ} {s : KsmServer} {e : KsmExpireServerEvent}
    (h : m.Entry key pserver pevent s e) (hmem : pevent ∈ m.timerQueue) (hliving : s.living = true)
    (mem : Memory) (now : KsTime) :
    m.perform (.trigger mem now pevent) = some { m with
      timerQueue := if mem.queue then pevent :: m.timerQueue.erase pevent
        else m.timerQueue.erase pevent
      servers := update m.servers pserver (some { s with living := false })
      events := update m.events pevent (some { e with triggerAt := now.after s.timeToLive }) } := by
  rw [perform, if_pos hmem]
  simp only [trigger, h.event, h.pserver_eq, h.server, hliving, setServer, setEvent, addTimerEvent,
    Option.bind_eq_bind, Option.bind_some, Option.map_some, if_true]
  split <;> rfl

/-- A dead server is removed. -/
theorem Entry.perform_dead {pserver pevent : ℕ} {s : KsmServer} {e : KsmExpireServerEvent}
    (h : m.Entry key pserver pevent s e) (hsane : m.Sane) (hmem : pevent ∈ m.timerQueue)
    (hliving : s.living = false) (mem : Memory) (now : KsTime) :
    ∃ m', m.perform (.trigger mem now pevent) = some m' ∧ m'.serverTable.lookup key = none := by
  obtain ⟨lost, hinv⟩ := hsane
  have hobject := hinv.object_of_entry _ _ pserver (hinv.entry_of_server pserver s h.server).1
  obtain ⟨tree, -, hremove⟩ := removeServer_eq
    (m := { m with timerQueue := m.timerQueue.erase pevent }) h.server h.pevent_eq h.event hobject
    hinv.nonempty
  refine ⟨(({ m with timerQueue := m.timerQueue.erase pevent } : KsManager).removed pserver pevent s
    e tree).deleteEvent pevent, ?_, ?_⟩
  · rw [perform, if_pos hmem]
    simp only [trigger, h.event, h.pserver_eq, h.server, hliving, hremove, Option.bind_eq_bind,
      Option.bind_some, if_false, Bool.false_eq_true]
  · rw [deleteEvent, removed, h.key_eq, AList.lookup_erase]

/-- The manager lets an entry expire as the life of entries wants it. -/
theorem Sane.expire (h : m.Sane) (key : KsString × UInt16) (mem : Memory) (now : KsTime) :
    ∃ m', m.expire key mem now = some m' ∧ m'.Sane ∧
      m'.observe key = (m.observe key).bind (·.expire mem now) := by
  cases hlookup : m.serverTable.lookup key with
  | none =>
    exact ⟨m, expire_eq_self hlookup, h, by rw [observe_eq_none hlookup]; rfl⟩
  | some pserver =>
  obtain ⟨pevent, s, e, hentry⟩ := h.entry hlookup
  have howner : (m.serverTable.lookup key).bind m.owner = some pevent := by
    rw [hlookup, Option.bind_some, owner, hentry.server, Option.bind_some, hentry.pevent_eq]
  have hop : Op.Completes m (.trigger mem now pevent) := trivial
  obtain ⟨m', hperform, hsane⟩ := h.perform hop
  refine ⟨m', by rw [KsManager.expire, howner]; exact hperform, hsane, ?_⟩
  rw [hentry.observe, Option.bind_some, EntryState.expire]
  by_cases hmem : pevent ∈ m.timerQueue
  swap
  · rw [KsManager.perform, if_neg hmem, Option.some.injEq] at hperform
    rw [← hperform, hentry.observe]
    simp [hmem]
  simp only [if_pos hmem, reduceCtorEq, if_false]
  cases hliving : s.living with
  | true =>
    rw [hentry.perform_living hmem hliving, Option.some.injEq] at hperform
    have hentry' : m'.Entry key pserver pevent { s with living := false }
        { e with triggerAt := now.after s.timeToLive } := by
      rw [← hperform]
      exact ⟨hlookup, update_self .., hentry.key_eq, hentry.pevent_eq, update_self ..,
        hentry.pserver_eq⟩
    rw [hentry'.observe, ← hperform]
    have hnot := h.nodup.not_mem_erase (a := pevent)
    cases hqueue : mem.queue with
    | true => simp
    | false => simp [hnot]
  | false =>
    obtain ⟨m₁, hperform', hnone⟩ := hentry.perform_dead h hmem hliving mem now
    obtain rfl := Option.some.inj (hperform'.symm.trans hperform)
    rw [observe_eq_none hnone]
    rfl

/-- What is seen of an entry follows from its state. -/
theorem sameSchedule_iff (h : m.Sane) (h' : m'.Sane) :
    SameSchedule m m' key ↔ m.observe key = m'.observe key := by
  constructor
  · intro hsame
    simpa [schedule] using hsame []
  · intro hobserve triggers
    induction triggers generalizing m m' with
    | nil => simp [schedule, hobserve]
    | cons trigger triggers ih =>
      obtain ⟨mem, now⟩ := trigger
      obtain ⟨m₁, hexpire, hsane, hnext⟩ := h.expire key mem now
      obtain ⟨m₁', hexpire', hsane', hnext'⟩ := h'.expire key mem now
      simp only [schedule, Option.bind_some, hobserve, hexpire, hexpire']
      rw [ih hsane hsane' (by rw [hnext, hnext', hobserve])]

/-- A registration of a known server leaves the time to live of its entry as it is. -/
theorem Sane.renewed (h : m.Sane) {pserver : ℕ} {s : KsmServer}
    (hlookup : m.serverTable.lookup params.server.key = some pserver)
    (hs : m.servers pserver = some s)
    (hreg : m.registerServer mem now params = some (.ok, m')) :
    Accepts params ∧ m'.Sane ∧ m'.observe params.server.key = some {
      port := params.port
      timeToLive := s.timeToLive
      expiresAt := now.after params.timeToLive
      living := true
      triggersAt := some (now.after params.timeToLive) } := by
  obtain ⟨lost, h⟩ := h
  have hqueued : (m.andQueued lost).registerServer mem now params = _ :=
    registerServer_andQueued lost
  rw [hreg] at hqueued
  obtain ⟨result, m₁, hreg', hne, -⟩ | ⟨r, p, s', e, haccepts, hlookup', hs', hp, he, hreg'⟩ |
    ⟨-, hnone, -⟩ := registerServer_outcomes h mem now params
  · obtain ⟨rfl, -⟩ := Prod.mk.inj (Option.some.inj (hqueued.symm.trans hreg'))
    exact absurd rfl hne
  · obtain rfl : r = pserver := Option.some.inj (hlookup'.symm.trans hlookup)
    obtain rfl := Option.some.inj (hs'.symm.trans hs)
    have heq : m'.andQueued lost = (m.andQueued lost).renewed r p s' e params.port
        (now.after params.timeToLive) :=
      (Prod.mk.inj (Option.some.inj (hqueued.symm.trans hreg'))).2
    have hsane : m'.Sane := ⟨lost, heq ▸ h.renewed hs hp he _ _⟩
    have hqueue : m'.timerQueue = m.next :: m.timerQueue :=
      List.append_cancel_right (congrArg KsManager.timerQueue heq)
    have hentry : m'.Entry params.server.key r m.next
        { s' with
          port := params.port
          expiresAt := now.after params.timeToLive
          living := true
          pevent := some m.next }
        { triggerAt := now.after params.timeToLive, pserver := some r } := by
      obtain ⟨s₀, hs₀, hkey⟩ := h.server_of_entry _ _ hlookup
      obtain rfl := Option.some.inj (hs₀.symm.trans hs)
      refine ⟨?_, ?_, hkey, rfl, ?_, rfl⟩
      · exact (congrArg (·.serverTable.lookup params.server.key) heq).trans hlookup
      · exact (congrArg (·.servers r) heq).trans (update_self ..)
      · exact (congrArg (·.events m.next) heq).trans (update_self ..)
    refine ⟨haccepts, hsane, ?_⟩
    rw [hentry.observe, hqueue, if_pos List.mem_cons_self]
  · exact absurd (hnone.symm.trans hlookup) (by simp)

/-- A server that the manager does not know gets an entry as asked for. -/
theorem Sane.registered (h : m.Sane) (haccepts : Accepts params)
    (hlookup : m.serverTable.lookup params.server.key = none) (now : KsTime) :
    ∃ m', m.registerServer {} now params = some (.ok, m') ∧ m'.Sane ∧
      m'.observe params.server.key = some {
        port := params.port
        timeToLive := params.timeToLive
        expiresAt := now.after params.timeToLive
        living := true
        triggersAt := some (now.after params.timeToLive) } := by
  obtain ⟨lost, h⟩ := h
  have hqueued : (m.andQueued lost).registerServer {} now params = _ :=
    registerServer_andQueued lost
  obtain ⟨hrefused, -⟩ | ⟨-, ⟨r, -, -, -, hknown, -⟩ | ⟨-, hreg⟩⟩ := registerServer_cases h now params
  · exact absurd haccepts hrefused
  · exact absurd (hlookup.symm.trans hknown) (by simp)
  obtain ⟨m', hreg', heq⟩ := outcome_of_andQueued (hqueued.symm.trans hreg)
  have hqueue : m'.timerQueue = m.next :: m.timerQueue :=
    List.append_cancel_right (congrArg KsManager.timerQueue heq).symm
  have hentry : m'.Entry params.server.key (m.next + 1) m.next
      { desc := params.server
        port := params.port
        expiresAt := now.after params.timeToLive
        timeToLive := params.timeToLive
        living := true
        pevent := some m.next }
      { triggerAt := now.after params.timeToLive, pserver := some (m.next + 1) } := by
    refine ⟨?_, ?_, rfl, rfl, ?_, rfl⟩
    · exact (congrArg (·.serverTable.lookup params.server.key) heq).symm.trans (AList.lookup_insert _)
    · exact (congrArg (·.servers (m.next + 1)) heq).symm.trans (update_self ..)
    · exact (congrArg (·.events m.next) heq).symm.trans (update_self ..)
  refine ⟨m', hreg', ⟨lost, heq ▸ h.registered hlookup haccepts.2.2 _⟩, ?_⟩
  rw [hentry.observe, hqueue, if_pos List.mem_cons_self]

/-- A server can be removed, and then its entry is gone. -/
theorem Sane.removed (h : m.Sane) {pserver : ℕ} (hlookup : m.serverTable.lookup key = some pserver) :
    ∃ m', m.removeServer pserver = some m' ∧ m'.Sane ∧ m'.serverTable.lookup key = none := by
  obtain ⟨lost, h⟩ := h
  obtain ⟨s, hs, hkey⟩ := h.server_of_entry key pserver hlookup
  obtain ⟨pevent, e, tree, -, -, hremove, hinv⟩ := h.removeServer hs
  rw [removeServer_andQueued] at hremove
  obtain ⟨m', hremove', heq⟩ := Option.map_eq_some_iff.mp hremove
  refine ⟨m', hremove', ⟨lost, heq ▸ hinv⟩, ?_⟩
  have htable : m'.serverTable = m.serverTable.erase s.desc.key :=
    congrArg KsManager.serverTable heq
  rw [htable, hkey, AList.lookup_erase]

/-- Only the time to live tells a registration that is renewed from a fresh one. -/
theorem Sane.likeFresh_iff (h : m.Sane) {pserver : ℕ} {s : KsmServer}
    (hlookup : m.serverTable.lookup params.server.key = some pserver)
    (hs : m.servers pserver = some s)
    (hreg : m.registerServer mem now params = some (.ok, m')) :
    LikeFresh m m' params now ↔ params.timeToLive = s.timeToLive := by
  obtain ⟨haccepts, hsane, hrenewed⟩ := h.renewed hlookup hs hreg
  obtain ⟨m₀, hremove, hsane₀, hgone⟩ := h.removed hlookup
  obtain ⟨m₁, hfresh, hsane₁, hregistered⟩ := hsane₀.registered haccepts hgone now
  have hsame : SameSchedule m' m₁ params.server.key ↔ params.timeToLive = s.timeToLive := by
    rw [sameSchedule_iff hsane hsane₁, hrenewed, hregistered]
    simp [eq_comm]
  rw [← hsame]
  constructor
  · intro hlike
    exact hlike pserver m₀ m₁ hlookup hremove hfresh
  · rintro hsame pserver' m₀' m₁' hlookup' hremove' hfresh'
    obtain rfl := Option.some.inj (hlookup.symm.trans hlookup')
    obtain rfl := Option.some.inj (hremove.symm.trans hremove')
    obtain rfl := (Prod.mk.inj (Option.some.inj (hfresh.symm.trans hfresh'))).2
    exact hsame

end KsManager

/-- As long as every registration that has got its place in the table is completed, a registration of
a known server is like a fresh one exactly if the time to live is the one of before. -/
theorem registerServer_likeFresh_iff {ops : List KsManager.Op}
    (h : Along KsManager.step (fun s op => ∀ m ∈ s, op.Completes m) (some .create) ops) :
    ∃ m, run KsManager.step (some .create) ops = some m ∧ ∀ mem now params m' pserver s,
      m.registerServer mem now params = some (.ok, m') →
        m.serverTable.lookup params.server.key = some pserver → m.servers pserver = some s →
          (m.LikeFresh m' params now ↔ params.timeToLive = s.timeToLive) := by
  obtain ⟨m, hm, hsane⟩ := KsManager.sane_of_along h
  exact ⟨m, hm, fun _ _ _ _ _ _ hreg hlookup hs => hsane.likeFresh_iff hlookup hs hreg⟩

/-- A server is registered, and marked dead after twenty seconds. -/
theorem registerServer_likeFresh_dead :
    ∃ m, run KsManager.step (some .create) [.register {} 0 ⟨⟨[65], 1⟩, 7, 20⟩,
        .trigger {} 20000000 0] = some m ∧ ∀ mem now params m' pserver s,
      m.registerServer mem now params = some (.ok, m') →
        m.serverTable.lookup params.server.key = some pserver → m.servers pserver = some s →
          (m.LikeFresh m' params now ↔ params.timeToLive = s.timeToLive) := by
  refine registerServer_likeFresh_iff ⟨?_, ?_, trivial⟩
  · rintro m - - - - - - -
    exact ⟨fun _ => ⟨rfl, rfl, rfl⟩, rfl, rfl⟩
  · rintro m -
    trivial

/-- A server asks for more time than before, but it will be removed as early as before. -/
theorem not_likeFresh_longer :
    ∃ m m', run KsManager.step (some .create) [.register {} 0 ⟨⟨[65], 1⟩, 7, 20⟩] = some m ∧
      m.registerServer {} 1 ⟨⟨[65], 1⟩, 7, 30⟩ = some (.ok, m') ∧
      ¬ m.LikeFresh m' ⟨⟨[65], 1⟩, 7, 30⟩ 1 := by
  obtain ⟨m, m', hm, hreg, hlookup, s, hs, hold⟩ : ∃ m m',
      run KsManager.step (some .create) [.register {} 0 ⟨⟨[65], 1⟩, 7, 20⟩] = some m ∧
        m.registerServer {} 1 ⟨⟨[65], 1⟩, 7, 30⟩ = some (.ok, m') ∧
        m.serverTable.lookup (KsServerDesc.key ⟨[65], 1⟩) = some 1 ∧
        ∃ s, m.servers 1 = some s ∧ s.timeToLive = 20 :=
    ⟨_, _, rfl, rfl, rfl, _, rfl, rfl⟩
  have halong : Along KsManager.step (fun s op => ∀ m ∈ s, op.Completes m) (some .create)
      [.register {} 0 ⟨⟨[65], 1⟩, 7, 20⟩] :=
    ⟨fun _ _ _ _ _ _ _ _ => ⟨fun _ => ⟨rfl, rfl, rfl⟩, rfl, rfl⟩, trivial⟩
  obtain ⟨m₀, hm₀, hsane⟩ := KsManager.sane_of_along halong
  obtain rfl := Option.some.inj (hm.symm.trans hm₀)
  refine ⟨m, m', hm, hreg, fun hlike => ?_⟩
  have hsame := (hsane.likeFresh_iff (by exact hlookup) hs hreg).mp hlike
  rw [hold] at hsame
  exact absurd hsame (by decide)

end AcpltKs
