import AcpltKs.ConnectionMgr.Transports
import AcpltKs.Server.TimerQueue

/-! The events a server waits for: timer events, connections that time out, and connections that are
ready. -/
namespace AcpltKs
open LinkedRings GuardedRun

def KsTimerEvent.remainingTime (event : KsTimerEvent) (now : KsTimePoint) : KsTimePoint :=
  if now < event.triggersAt then event.triggersAt - now else 0

namespace KssConnectionManager

def mayHaveTimeout (m : KssConnectionManager) : Bool :=
  decide (m.links.next (.inl .active) ≠ .inl .active)

/-- Nothing if the list of active connections leads into the other one. -/
def getEarliestTimeoutSpan (m : KssConnectionManager) (now : KsTimePoint) : Option KsTimePoint :=
  match m.links.next (.inl .active) with
  | .inl .active => some ((2 ^ 31 - 1) * 1000000)
  | .inl .serviceable => none
  | .inr item =>
      some (if (m.items item).bestBefore > now then (m.items item).bestBefore - now else 0)

theorem Mirrors.next_eq {m : KssConnectionManager} {lists : CnxList → List ℕ}
    (h : m.Mirrors lists) (l : CnxList) : m.links.next (.inl l) = firstNode l (lists l) := by
  have hsplit : lists l = [] ++ lists l := rfl
  exact (h.rings.cut hsplit).2.2.next

end KssConnectionManager

/-- What `select` comes back with: the file descriptors that are ready, or an error. -/
inductive SelectOutcome where
  | ready (readables writeables : Finset ℕ)
  | interrupted
  | failed

/-- The number of ready file descriptors in two sets, or -1. -/
def getReadyFds (readFds writeFds : Finset ℕ) : SelectOutcome → ℤ
  | .ready readables writeables =>
      ((readFds ∩ readables).card + (writeFds ∩ writeables).card : ℕ)
  | .interrupted => 0
  | .failed => -1

structure KsServerEvents where
  timerQueue : TimerQueue
  cnxManager : KssConnectionManager

/-- What the server does when it serves its events; `nothing` if it has only waited. -/
inductive Service where
  | trigger (event : KsTimerEvent)
  | attention (con : ℕ)
  | processConnections
  | processTimeout
  | nothing
  deriving DecidableEq

namespace KsServerEvents

/-- What `select` brings depends on how long it waits. -/
def hasPendingEvents (s : KsServerEvents) (now : KsTimePoint)
    (select : Option KsTimePoint → SelectOutcome) : Option Bool := do
  let timerPending := !s.timerQueue.isEmpty && s.timerQueue.peek.remainingTime now ≠ 0
  let span ← s.cnxManager.getEarliestTimeoutSpan now
  let timeoutPending := s.cnxManager.mayHaveTimeout && span ≠ 0
  let res := getReadyFds s.cnxManager.readableFdset s.cnxManager.writeableFdset (select (some 0))
  some (timerPending || timeoutPending || 0 < res)

/-- What `serveRequests` does first. -/
def serveRequests (m : KssConnectionManager) (now : KsTimePoint) (pTimeout : Option KsTimePoint)
    (select : Option KsTimePoint → SelectOutcome) : Option Service := do
  match ← m.getNextServiceableConnection with
  | (some con, _) => some (.attention con)
  | (none, _) =>
      let span ← m.getEarliestTimeoutSpan now
      let hasCnxTimeout := m.mayHaveTimeout && pTimeout.all (span < ·)
      let pTimeout := if hasCnxTimeout then some span else pTimeout
      if 0 < getReadyFds m.readableFdset m.writeableFdset (select pTimeout) then
        some .processConnections
      else if hasCnxTimeout then some .processTimeout
      else some .nothing

/-- What `servePendingEvents` does first. -/
def servePendingEvents (s : KsServerEvents) (now : KsTimePoint) (pTimeout : Option KsTimePoint)
    (select : Option KsTimePoint → SelectOutcome) : Option Service :=
  if s.timerQueue.isEmpty then serveRequests s.cnxManager now pTimeout select
  else
    let timeleft := s.timerQueue.peek.remainingTime now
    if timeleft ≠ 0 then
      let timeleft := if pTimeout.any (· < timeleft) then pTimeout.getD 0 else timeleft
      serveRequests s.cnxManager now (some timeleft) select
    else some (.trigger s.timerQueue.peek)

/-- A timer event is due. -/
def TimerDue (s : KsServerEvents) (now : KsTimePoint) : Prop :=
  ∃ event ∈ s.timerQueue.contents, event.remainingTime now = 0

/-- The connection with this file descriptor waits for something to happen before its timeout. -/
def Waits (s : KsServerEvents) (item : ℕ) : Prop :=
  s.cnxManager.Managed item ∧ (s.cnxManager.items item).lastIoMode.needTimeout = true

def TimeoutReached (s : KsServerEvents) (now : KsTimePoint) : Prop :=
  ∃ item, s.Waits item ∧ (s.cnxManager.items item).bestBefore ≤ now

def FdReady (s : KsServerEvents) : SelectOutcome → Prop
  | .ready readables writeables => ∃ fd, fd ∈ s.cnxManager.readableFdset ∧ fd ∈ readables ∨
      fd ∈ s.cnxManager.writeableFdset ∧ fd ∈ writeables
  | _ => False

def Pending (s : KsServerEvents) (now : KsTimePoint)
    (select : Option KsTimePoint → SelectOutcome) : Prop :=
  s.TimerDue now ∨ s.TimeoutReached now ∨ s.FdReady (select (some 0))

/-- Pending events are reported, and they are those that are served without waiting. -/
def Agrees (s : KsServerEvents) (now : KsTimePoint)
    (select : Option KsTimePoint → SelectOutcome) : Prop :=
  (s.hasPendingEvents now select = some true ↔ s.Pending now select) ∧
    (s.Pending now select ↔
      ∃ service, s.servePendingEvents now (some 0) select = some service ∧ service ≠ .nothing)

/-- There are connections that wait for a timeout, and all these timeouts lie in the future. -/
def TimeoutsAhead (s : KsServerEvents) (now : KsTimePoint) : Prop :=
  (∃ item, s.Waits item) ∧ ∀ item, s.Waits item → now < (s.cnxManager.items item).bestBefore

def HasServiceable (s : KsServerEvents) : Prop :=
  s.cnxManager.links.next (.inl .serviceable) ≠ .inl .serviceable

/-- A file descriptor is ready, or the first timer event is due and the timeouts are not, or a timeout
is reached (or another timer event due) while the first timer event is not and a connection is to be
served, or there is nothing to wait for. -/
def Told (s : KsServerEvents) (now : KsTimePoint)
    (select : Option KsTimePoint → SelectOutcome) : Prop :=
  s.FdReady (select (some 0)) ∨
    (s.timerQueue.size ≠ 0 ∧ s.timerQueue.peek.triggersAt ≤ now ∧ s.TimeoutsAhead now) ∨
    (s.timerQueue.size ≠ 0 ∧ now < s.timerQueue.peek.triggersAt ∧
      (s.TimerDue now ∨ s.TimeoutReached now) ∧ s.HasServiceable) ∨
    (s.timerQueue.size = 0 ∧ (∀ item, ¬ s.Waits item) ∧ ¬ s.HasServiceable)

variable {s : KsServerEvents} {lists : CnxList → List ℕ}

/-- The time left until some point of time. -/
theorem timeLeft_nonneg (now point : ℤ) : 0 ≤ if now < point then point - now else 0 := by
  split <;> omega

theorem timeLeft_eq_zero {now point : ℤ} :
    (if now < point then point - now else 0) = 0 ↔ point ≤ now := by
  split <;> omega

theorem remainingTime_eq_zero {event : KsTimerEvent} {now : KsTimePoint} :
    event.remainingTime now = 0 ↔ event.triggersAt ≤ now := timeLeft_eq_zero

theorem isEmpty_iff {timerQueue : TimerQueue} : timerQueue.isEmpty = true ↔ timerQueue.size = 0 :=
  decide_eq_true_iff

theorem fdReady_iff (s : KsServerEvents) (outcome : SelectOutcome) :
    0 < getReadyFds s.cnxManager.readableFdset s.cnxManager.writeableFdset outcome ↔
      s.FdReady outcome := by
  cases outcome with
  | ready readables writeables =>
    rw [getReadyFds, FdReady, Int.natCast_pos, Nat.add_pos_iff_pos_or_pos, Finset.card_pos,
      Finset.card_pos, exists_or]
    simp only [Finset.Nonempty, Finset.mem_inter]
  | interrupted => exact iff_of_false (lt_irrefl 0) id
  | failed => exact iff_of_false (by rw [getReadyFds]; decide) id

/-- The first of the active connections is the first one to time out. -/
theorem span_spec (h : s.cnxManager.Mirrors lists) (now : KsTimePoint) :
    ∃ span, s.cnxManager.getEarliestTimeoutSpan now = some span ∧ 0 ≤ span ∧
      ((s.cnxManager.mayHaveTimeout = true ∧ span ≠ 0) ↔ s.TimeoutsAhead now) := by
  have hnext := h.next_eq .active
  have hwaits : ∀ item, s.Waits item ↔ item ∈ lists .active := fun item => (h.active_iff item).symm
  have hsorted := h.sorted
  rw [KssConnectionManager.getEarliestTimeoutSpan, KssConnectionManager.mayHaveTimeout, hnext,
    decide_eq_true_iff]
  simp only [TimeoutsAhead, hwaits]
  cases hactive : lists .active with
  | nil =>
    refine ⟨_, rfl, by decide, iff_of_false (fun hmay => hmay.1 rfl) ?_⟩
    rintro ⟨⟨item, hitem⟩, -⟩
    exact absurd hitem List.not_mem_nil
  | cons item rest =>
    rw [hactive, List.pairwise_cons] at hsorted
    refine ⟨_, rfl, timeLeft_nonneg _ _, ?_⟩
    simp only [gt_iff_lt, Ne, timeLeft_eq_zero, not_le]
    constructor
    · rintro ⟨-, hahead⟩
      refine ⟨⟨item, List.mem_cons_self⟩, fun other hother => ?_⟩
      obtain rfl | hrest := List.mem_cons.mp hother
      · exact hahead
      · exact hahead.trans_le (hsorted.1 other hrest)
    · rintro ⟨-, hahead⟩
      exact ⟨fun heq => absurd heq (by simp [firstNode]), hahead item List.mem_cons_self⟩

/-- There is a connection to be served, or there is none. -/
theorem getNext_cases (h : s.cnxManager.Mirrors lists) :
    (¬ s.HasServiceable ∧ s.cnxManager.getNextServiceableConnection = some (none, s.cnxManager)) ∨
      s.HasServiceable ∧ ∃ con m, s.cnxManager.getNextServiceableConnection = some (some con, m) := by
  have hnext := h.next_eq .serviceable
  rw [HasServiceable, KssConnectionManager.getNextServiceableConnection, hnext]
  cases hlist : lists .serviceable with
  | nil => exact Or.inl ⟨fun hne => hne rfl, rfl⟩
  | cons item rest =>
    have hmanaged := h.serviceable item (by rw [hlist]; exact List.mem_cons_self)
    obtain ⟨con, hcon⟩ := Option.isSome_iff_exists.mp hmanaged
    refine Or.inr ⟨by simp [firstNode], con, ?_⟩
    simp only [firstNode, List.head?_cons, Option.map_some, Option.getD_some, hcon]
    exact ⟨_, rfl⟩

/-- When pending events are reported. -/
theorem hasPendingEvents_iff (h : s.cnxManager.Mirrors lists) (now : KsTimePoint)
    (select : Option KsTimePoint → SelectOutcome) :
    s.hasPendingEvents now select = some true ↔
      (s.timerQueue.size ≠ 0 ∧ now < s.timerQueue.peek.triggersAt) ∨ s.TimeoutsAhead now ∨
        s.FdReady (select (some 0)) := by
  obtain ⟨span, hspan, -, hahead⟩ := span_spec h now
  rw [hasPendingEvents, hspan, ← hahead, ← fdReady_iff]
  simp [← isEmpty_iff, remainingTime_eq_zero, or_assoc]

/-- Without waiting, a connection is served first, or what is ready. -/
theorem serveRequests_iff (h : s.cnxManager.Mirrors lists) (now : KsTimePoint)
    (select : Option KsTimePoint → SelectOutcome) :
    (∃ service, serveRequests s.cnxManager now (some 0) select = some service ∧
      service ≠ .nothing) ↔ s.HasServiceable ∨ s.FdReady (select (some 0)) := by
  rw [serveRequests]
  obtain ⟨hnone, hnext⟩ | ⟨hsome, con, m, hnext⟩ := getNext_cases h
  · obtain ⟨span, hspan, hle, -⟩ := span_spec h now
    have hlater : ¬ span < 0 := not_lt.mpr hle
    rw [hnext, ← fdReady_iff]
    by_cases hready : 0 < getReadyFds s.cnxManager.readableFdset s.cnxManager.writeableFdset
      (select (some 0))
    · simp [hspan, hlater, hnone, hready]
    · simp [hspan, hlater, hnone, hready]
  · rw [hnext]
    simp [hsome]

/-- When something is done without waiting. -/
theorem servePendingEvents_iff (h : s.cnxManager.Mirrors lists) (now : KsTimePoint)
    (select : Option KsTimePoint → SelectOutcome) :
    (∃ service, s.servePendingEvents now (some 0) select = some service ∧ service ≠ .nothing) ↔
      (s.timerQueue.size ≠ 0 ∧ s.timerQueue.peek.triggersAt ≤ now) ∨ s.HasServiceable ∨
        s.FdReady (select (some 0)) := by
  rw [← serveRequests_iff h now, servePendingEvents]
  by_cases hempty : s.timerQueue.isEmpty = true
  · rw [if_pos hempty]
    simp [isEmpty_iff.mp hempty]
  have hsize : s.timerQueue.size ≠ 0 := fun h0 => hempty (isEmpty_iff.mpr h0)
  rw [if_neg hempty]
  by_cases hdue : s.timerQueue.peek.triggersAt ≤ now
  · simp [remainingTime_eq_zero.mpr hdue, hsize, hdue]
  · have hleft : 0 < s.timerQueue.peek.remainingTime now := by
      rw [KsTimerEvent.remainingTime, if_pos (not_le.mp hdue)]
      exact sub_pos.mpr (not_le.mp hdue)
    simp [hleft, hleft.ne', hdue]

/-- The first event is one of those in the queue. -/
theorem timerDue_of_peek {now : KsTimePoint} (hsize : s.timerQueue.size ≠ 0)
    (hdue : s.timerQueue.peek.triggersAt ≤ now) : s.TimerDue now :=
  ⟨_, BinaryHeap.mem_contents.mpr ⟨0, Nat.pos_of_ne_zero hsize, rfl⟩, remainingTime_eq_zero.mpr hdue⟩

theorem TimerDue.size_ne_zero {now : KsTimePoint} (h : s.TimerDue now) : s.timerQueue.size ≠ 0 := by
  obtain ⟨event, hmem, -⟩ := h
  obtain ⟨i, hi, -⟩ := BinaryHeap.mem_contents.mp hmem
  exact Nat.ne_of_gt (Nat.zero_lt_of_lt hi)

theorem timeoutsAhead_iff {now : KsTimePoint} :
    s.TimeoutsAhead now ↔ (∃ item, s.Waits item) ∧ ¬ s.TimeoutReached now := by
  simp only [TimeoutsAhead, TimeoutReached, not_exists, not_and, not_le]

theorem agrees_iff (h : s.cnxManager.Mirrors lists) (now : KsTimePoint)
    (select : Option KsTimePoint → SelectOutcome) : s.Agrees now select ↔ s.Told now select := by
  rw [Agrees, Told, Pending, hasPendingEvents_iff h, servePendingEvents_iff h, timeoutsAhead_iff,
    ← not_exists, ← not_le]
  have hreached : s.TimeoutReached now → ∃ item, s.Waits item :=
    fun ⟨item, hitem, _⟩ => ⟨item, hitem⟩
  have hdue : s.timerQueue.size ≠ 0 → s.timerQueue.peek.triggersAt ≤ now → s.TimerDue now :=
    timerDue_of_peek
  have hsize : s.TimerDue now → s.timerQueue.size ≠ 0 := TimerDue.size_ne_zero
  generalize s.FdReady (select (some 0)) = fdReady
  generalize s.TimerDue now = timerDue at *
  generalize s.TimeoutReached now = timeoutReached at *
  generalize (∃ item, s.Waits item) = waits at *
  generalize s.HasServiceable = hasServiceable
  generalize (s.timerQueue.peek.triggersAt ≤ now) = peekDue at *
  grind

end KsServerEvents

/-- For every timer queue and every state that a connection manager reaches, pending events are
reported as they are served only in the cases `Told`. -/
theorem hasPendingEvents_agrees_iff {C Io : Type} [ConnectionObject C Io] [LawfulConnection C Io]
    {fdsetSize : ℕ} {ops : List (CnxSystem.Op C Io)} {system : CnxSystem C}
    (hrun : run CnxSystem.step (some (CnxSystem.create fdsetSize)) ops = some system)
    (timerQueue : TimerQueue) (now : KsTimePoint) (select : Option KsTimePoint → SelectOutcome) :
    KsServerEvents.Agrees ⟨timerQueue, system.manager⟩ now select ↔
      KsServerEvents.Told ⟨timerQueue, system.manager⟩ now select := by
  obtain ⟨lists, hlists⟩ := (CnxSystem.run_mirrored hrun).mirrors
  exact KsServerEvents.agrees_iff hlists now select

/-- A timer event, and two connections. -/
theorem hasPendingEvents_agrees_twoConnections :
    ∃ system, run CnxSystem.step (some (CnxSystem.create 8)) twoConnections = some system ∧
      ∀ now select, KsServerEvents.Agrees ⟨oneEventQueue, system.manager⟩ now select ↔
        KsServerEvents.Told ⟨oneEventQueue, system.manager⟩ now select := by
  obtain ⟨system, hrun⟩ := Option.isSome_iff_exists.mp
    (show (run CnxSystem.step (some (CnxSystem.create 8)) twoConnections).isSome = true by decide)
  exact ⟨system, hrun, hasPendingEvents_agrees_iff hrun oneEventQueue⟩

/-- A timer event that is due is not reported. -/
theorem not_agrees_timerDue :
    ¬ KsServerEvents.Agrees ⟨oneEventQueue, .create 8⟩ 5 fun _ => .ready ∅ ∅ := by
  rintro ⟨hreports, -⟩
  have hdue : KsServerEvents.TimerDue ⟨oneEventQueue, .create 8⟩ 5 :=
    KsServerEvents.timerDue_of_peek (by decide) (by decide)
  exact absurd (hreports.mpr (Or.inl hdue)) (by decide)

end AcpltKs
