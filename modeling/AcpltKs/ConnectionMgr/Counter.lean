import AcpltKs.ConnectionMgr.Transports

/-! The counter of the connections that wait to be served, against the list in which they wait. The
counter stays behind the list whenever a waiting connection is linked again or removed. -/
namespace AcpltKs
open Function LinkedRings GuardedRun KssConnectionManager ConnectionObject

namespace KssConnectionManager

/-- The items that wait to be served, in the order in which they are fetched. -/
def serviceableItems (m : KssConnectionManager) : List ℕ :=
  m.links.walk m.fdsetSize (m.links.next (.inl .serviceable))

/-- How many more connections are counted than wait. -/
def drift (m : KssConnectionManager) : ℤ := m.serviceableCount - m.serviceableItems.length

variable {m m' : KssConnectionManager} {lists lists' : CnxList → List ℕ} {item : ℕ}
  {ioMode : ConnectionIoMode}

theorem serviceable_next (h : Rings m.links lists) :
    m.links.next (.inl .serviceable) = firstNode .serviceable (lists .serviceable) :=
  (h.cut (List.nil_append _).symm).2.2.next

theorem serviceableItems_of_rings (h : Rings m.links lists)
    (hlength : (lists .serviceable).length ≤ m.fdsetSize) :
    m.serviceableItems = lists .serviceable := by
  unfold serviceableItems
  rw [serviceable_next h]
  exact h.walk (List.nil_append _).symm hlength

theorem Mirrors.length_le (h : m.Mirrors lists) :
    (lists .serviceable).length ≤ m.fdsetSize := by
  have hrange : lists .serviceable ⊆ List.range m.fdsetSize := fun i hi =>
    List.mem_range.mpr (h.lt_size i (h.serviceable i hi))
  have hle := (List.subperm_of_subset (h.rings.nodup .serviceable) hrange).length_le
  rwa [List.length_range] at hle

theorem Mirrors.serviceableItems_eq (h : m.Mirrors lists) :
    m.serviceableItems = lists .serviceable := serviceableItems_of_rings h.rings h.length_le

/-- An item in a list, as a number. -/
theorem length_eq_erase (l : List ℕ) (item : ℕ) :
    l.length = (l.erase item).length + (decide (item ∈ l)).toNat := by
  by_cases hmem : item ∈ l
  · rw [← List.length_erase_add_one hmem, decide_eq_true hmem]
    rfl
  · rw [List.erase_of_not_mem hmem, decide_eq_false hmem]
    rfl

/-- Lists that agree on all items but one. -/
theorem Moves.length_erase (hm : Moves item lists lists') (l : CnxList)
    (hl : (lists l).Nodup) (hl' : (lists' l).Nodup) :
    ((lists' l).erase item).length = ((lists l).erase item).length := by
  apply List.Perm.length_eq
  apply (List.perm_ext_iff_of_nodup (hl'.erase item) (hl.erase item)).mpr
  intro j
  rw [hl'.mem_erase_iff, hl.mem_erase_iff]
  exact and_congr_right (hm l j)

theorem trackTimeout_serviceableCount {last : ConnectionIoMode} {bestBefore : ℤ}
    (ht : m.trackTimeout item last ioMode bestBefore = some m') :
    m'.serviceableCount = m.serviceableCount := by
  rw [trackTimeout] at ht
  split_ifs at ht
  · obtain ⟨n, -, hm'⟩ := Option.bind_eq_some_iff.mp ht
    obtain rfl := Option.some.inj hm'
    rfl
  all_goals
    obtain rfl := Option.some.inj ht
    rfl

/-- Each time a connection needs attention, it is counted. -/
theorem track_serviceableCount {fd : ℕ} {bestBefore : ℤ}
    (ht : m.track item fd ioMode bestBefore = some m') :
    m'.serviceableCount = m.serviceableCount + ioMode.attention.toNat := by
  obtain ⟨m₂, hm₂, hm'⟩ := Option.bind_eq_some_iff.mp ht
  obtain rfl := Option.some.inj hm'
  have hcount := trackTimeout_serviceableCount hm₂
  change m₂.serviceableCount = _
  rw [hcount]
  simp only [trackReadable, trackWriteable, trackAttention]
  split_ifs <;> simp_all

/-- An item that the manager links into a list again, or takes out of its list. -/
structure Visit where
  manager : KssConnectionManager
  item : ℕ
  relinks : Bool

/-- The item waited to be served until then. -/
def Visit.missed (v : Visit) : Bool := v.relinks && decide (v.item ∈ v.manager.serviceableItems)

/-- How often a waiting connection has been put elsewhere without being counted. -/
def misses (vs : List Visit) : ℕ := vs.countP Visit.missed

/-- The call of `trackCnxIoMode` for an item. -/
def trackVisit (m : KssConnectionManager) (item : ℕ) (ioMode : ConnectionIoMode) : Visit :=
  ⟨m, item, ioMode.attention || ioMode.needTimeout⟩

/-- The call of `removeConnection` for an item. -/
def removeVisit (m : KssConnectionManager) (item : ℕ) : Visit := ⟨m, item, true⟩

theorem misses_append (vs ws : List Visit) : misses (vs ++ ws) = misses vs + misses ws :=
  List.countP_append

theorem misses_cons (v : Visit) (vs : List Visit) :
    misses (v :: vs) = v.missed.toNat + misses vs := by
  rw [misses, List.countP_cons, add_comm]
  cases v.missed <;> rfl

theorem Mirrors.missed_trackVisit (h : m.Mirrors lists) (item : ℕ) (ioMode : ConnectionIoMode) :
    (m.trackVisit item ioMode).missed =
      ((ioMode.attention || ioMode.needTimeout) && decide (item ∈ lists .serviceable)) := by
  unfold Visit.missed trackVisit
  rw [← h.serviceableItems_eq]

theorem Mirrors.missed_removeVisit (h : m.Mirrors lists) (item : ℕ) :
    (m.removeVisit item).missed = decide (item ∈ lists .serviceable) := by
  unfold Visit.missed removeVisit
  rw [← h.serviceableItems_eq, Bool.true_and]

/-- An item that waited is counted once more, or waits no longer. -/
theorem counted_again {attention needTimeout waited : Bool}
    (h : needTimeout = true → attention = false) :
    attention.toNat + waited.toNat = ((attention || waited) && !needTimeout).toNat +
      ((attention || needTimeout) && waited).toNat := by
  cases attention <;> cases needTimeout <;> cases waited <;> simp_all

/-- Tracking leaves the counter behind if the connection waits and goes into a list. -/
theorem Mirrors.track_drift (h : m.Mirrors lists) (hitem : m.Managed item)
    (hmode : ioMode.Exclusive) {bestBefore : ℤ}
    (ht : m.track item item ioMode bestBefore = some m') :
    m'.drift = m.drift + (m.trackVisit item ioMode).missed.toNat := by
  obtain ⟨⟨lists', h', hmoves, hmem⟩, -, -⟩ := h.track hitem hmode ht
  have hrest := hmoves.length_erase .serviceable (h.rings.nodup _) (h'.rings.nodup _)
  have hlength := length_eq_erase (lists .serviceable) item
  have hlength' := length_eq_erase (lists' .serviceable) item
  have hwaits : decide (item ∈ lists' .serviceable) =
      ((ioMode.attention || decide (item ∈ lists .serviceable)) && !ioMode.needTimeout) := by
    rw [Bool.eq_iff_iff]
    simpa using hmem
  have hagain : ioMode.attention.toNat + (decide (item ∈ lists .serviceable)).toNat = _ :=
    counted_again hmode
  unfold drift
  rw [h.missed_trackVisit, h.serviceableItems_eq, h'.serviceableItems_eq,
    track_serviceableCount ht]
  rw [hwaits, hrest] at hlength'
  omega

/-- So does removing it. -/
theorem Mirrors.vacated_drift (h : m.Mirrors lists) (item : ℕ) :
    (m.vacated item).drift = m.drift + (m.removeVisit item).missed.toNat := by
  have hlength := length_eq_erase (lists .serviceable) item
  have hcount : (m.vacated item).serviceableCount = m.serviceableCount := rfl
  unfold drift
  rw [h.missed_removeVisit, h.serviceableItems_eq, (h.vacated item).serviceableItems_eq, hcount]
  omega

/-- A connection that is not managed does not wait. -/
theorem Mirrors.not_missed (h : m.Mirrors lists) (hitem : ¬ m.Managed item) :
    (m.removeVisit item).missed = false := by
  rw [h.missed_removeVisit]
  exact decide_eq_false fun hmem => hitem (h.serviceable item hmem)

/-- Nobody waits. -/
theorem Mirrors.getNext_nil (h : m.Mirrors lists) (hl : lists .serviceable = []) :
    m.getNextServiceableConnection = some (none, m) := by
  have hnext := serviceable_next h.rings
  rw [hl] at hnext
  unfold getNextServiceableConnection
  rw [hnext]
  rfl

/-- The first connection that waits leaves the list, and is counted off. -/
theorem Mirrors.getNext_cons (h : m.Mirrors lists) {l : List ℕ}
    (hl : lists .serviceable = item :: l) :
    ∃ m', m.getNextServiceableConnection = some ((m.items item).connection, m') ∧
      m'.items = m.items ∧ m'.serviceableCount = m.serviceableCount - 1 ∧
      (∃ lists', m'.Mirrors lists') ∧ m'.serviceableItems = l := by
  have hnext := serviceable_next h.rings
  rw [hl] at hnext
  have hget : m.getNextServiceableConnection = some ((m.items item).connection, { m with
      links := m.links.remove (.inr item)
      serviceableCount := m.serviceableCount - 1 }) := by
    unfold getNextServiceableConnection
    rw [hnext]
    rfl
  have hlength := h.length_le
  rw [hl] at hlength
  have hitems := serviceableItems_of_rings (m := { m with
      links := m.links.remove (.inr item)
      serviceableCount := m.serviceableCount - 1 }) (h.rings.remove item)
  simp only [hl, List.erase_cons_head] at hitems
  exact ⟨_, hget, rfl, rfl, (h.getNext hget).1, hitems ((Nat.le_succ _).trans hlength)⟩

theorem Mirrors.getNext_drift (h : m.Mirrors lists) {con : Option ℕ}
    (hn : m.getNextServiceableConnection = some (con, m')) : m'.drift = m.drift := by
  rcases hl : lists .serviceable with _ | ⟨item, l⟩
  · rw [h.getNext_nil hl] at hn
    rw [← (Prod.mk.inj (Option.some.inj hn)).2]
  · obtain ⟨m₁, hget, -, hcount, -, hitems⟩ := h.getNext_cons hl
    rw [hget] at hn
    obtain rfl := (Prod.mk.inj (Option.some.inj hn)).2
    unfold drift
    rw [hcount, hitems, h.serviceableItems_eq, hl, List.length_cons]
    omega

/-- The connections that the loop in `serveRequests` fetches in `n` rounds. It ends earlier if there
is none left. -/
def fetches : ℕ → KssConnectionManager → Option (List ℕ × KssConnectionManager)
  | 0, m => some ([], m)
  | n + 1, m => do
      let (con, m) ← m.getNextServiceableConnection
      match con with
      | none => some ([], m)
      | some con => do
        let (cons, m) ← fetches n m
        some (con :: cons, m)

/-- A loop that is long enough fetches all connections that wait. -/
theorem Mirrors.fetches (h : m.Mirrors lists) {n : ℕ} (hn : m.serviceableItems.length ≤ n) :
    ∃ cons m', m.fetches n = some (cons, m') ∧ m'.serviceableItems = [] ∧
      cons.map some = m.serviceableItems.map fun i => (m.items i).connection := by
  induction n generalizing m lists with
  | zero =>
    have hnil := List.length_eq_zero_iff.mp (Nat.le_zero.mp hn)
    rw [hnil]
    exact ⟨[], m, rfl, hnil, rfl⟩
  | succ n ih =>
    rcases hl : lists .serviceable with _ | ⟨item, l⟩
    · have hnil := h.serviceableItems_eq.trans hl
      rw [hnil]
      refine ⟨[], m, ?_, hnil, rfl⟩
      unfold KssConnectionManager.fetches
      rw [h.getNext_nil hl]
      rfl
    · obtain ⟨m₁, hget, hsame, -, ⟨lists₁, h₁⟩, hitems⟩ := h.getNext_cons hl
      have hall := h.serviceableItems_eq.trans hl
      have hmanaged : m.Managed item :=
        h.serviceable item (hl ▸ List.mem_cons_self)
      obtain ⟨con, hcon⟩ := Option.isSome_iff_exists.mp hmanaged
      rw [hall, List.length_cons] at hn
      obtain ⟨cons, m', hrest, hempty, hcons⟩ := ih h₁ (hitems ▸ Nat.le_of_succ_le_succ hn)
      refine ⟨con :: cons, m', ?_, hempty, ?_⟩
      · unfold KssConnectionManager.fetches
        rw [hget, hcon]
        exact Option.bind_eq_some_iff.mpr
          ⟨_, rfl, Option.bind_eq_some_iff.mpr ⟨_, hrest, rfl⟩⟩
      · rw [hall, List.map_cons, List.map_cons, hcons, hitems, hsame, hcon]

end KssConnectionManager
variable {C Io : Type} [ConnectionObject C Io]

namespace CnxSystem

/-- What is visited after a call, if it returns. -/
def afterwards {α : Type} (o : Option α) (visits : α → List Visit) : List Visit :=
  o.elim [] visits

def trackVisits (s : CnxSystem C) (item : ℕ) (ioMode : ConnectionIoMode) :
    List (Round Io) → List Visit
  | [] => []
  | round :: rounds =>
      s.manager.trackVisit item ioMode ::
        afterwards (s.manager.items item).connection fun con =>
        afterwards (s.objects con) fun c =>
        afterwards (s.manager.track item (getFd c) ioMode (round.now + 1000000 * getTimeout c))
          fun manager =>
            if wantsFastwrite (s.manager.items item).lastIoMode ioMode then
              let objects := update s.objects con (some (send c round.io).2)
              ({ s with manager, objects } : CnxSystem C).trackVisits item (send c round.io).1
                rounds
            else []

def removeVisits (s : CnxSystem C) (con : ℕ) : List Visit :=
  afterwards (s.objects con) fun c => [s.manager.removeVisit (getFd c)]

def serveVisits (f : C → Io → ConnectionIoMode × C) (s : CnxSystem C) (item : ℕ)
    (turn : Turn Io) : List Visit :=
  afterwards (s.manager.items item).connection fun con =>
  afterwards (s.call con (f · turn.io)) fun r =>
    r.2.trackVisits item r.1 turn.rounds ++
    afterwards (r.2.trackCnxIoMode item r.1 turn.rounds) fun s =>
      if r.1.dead then
        afterwards (s.objects con) fun c =>
          if isAutoDestroyable c then s.removeVisits con
          else afterwards (s.call con reset) fun r => r.2.trackVisits item r.1 turn.resetRounds
      else []

def fdVisits (f : C → Io → ConnectionIoMode × C) (fds : Finset ℕ) (turns : ℕ → Turn Io)
    (s : CnxSystem C) : List ℕ → List Visit
  | [] => []
  | fd :: rest =>
      if fd ∈ fds then
        s.serveVisits f fd (turns fd) ++
          afterwards (s.serve f fd (turns fd)) fun s => fdVisits f fds turns s rest
      else fdVisits f fds turns s rest

def processVisits (s : CnxSystem C) (readables writeables : Finset ℕ)
    (readTurns writeTurns : ℕ → Turn Io) : List Visit :=
  fdVisits send writeables writeTurns s (List.range s.manager.fdsetSize) ++
    afterwards (s.processFds send writeables writeTurns) fun s =>
      fdVisits receive readables readTurns s (List.range s.manager.fdsetSize)

def timeoutVisits (now : ℤ) (s : CnxSystem C) : CnxList ⊕ ℕ → List (Turn Io) → List Visit
  | .inr item, turn :: turns =>
      if (s.manager.items item).bestBefore ≤ now then
        s.serveVisits (fun c _ => timedOut c) item turn ++
          afterwards (s.serve (fun c _ => timedOut c) item turn) fun s' =>
            s'.timeoutVisits now (s.manager.links.next (.inr item)) turns
      else []
  | _, _ => []

def unlessDeadVisits (s : CnxSystem C) (con : ℕ) : List Visit :=
  afterwards (s.objects con) fun c =>
    if getState c ≠ .dead then []
    else if isAutoDestroyable c then
      afterwards (s.shutDown con) (·.removeVisits con)
    else []

def trackConnectionVisits (s : CnxSystem C) (con : ℕ) (rounds : List (Round Io)) : List Visit :=
  afterwards (s.itemOf con) fun o => afterwards o fun item =>
  afterwards (s.objects con) fun c =>
    if getState c ≠ .dead then
      s.trackVisits item (getIoMode c) rounds ++
        afterwards (s.trackCnxIoMode item (getIoMode c) rounds) (·.unlessDeadVisits con)
    else s.unlessDeadVisits con

def resetConnectionVisits (s : CnxSystem C) (con : ℕ) (rounds : List (Round Io)) : List Visit :=
  afterwards (s.itemOf con) fun o => afterwards o fun item =>
  afterwards (s.objects con) fun c =>
    if getState c ≠ .dead then
      afterwards (s.call con reset) fun r =>
        r.2.trackVisits item r.1 rounds ++
          afterwards (r.2.trackCnxIoMode item r.1 rounds) (·.unlessDeadVisits con)
    else s.unlessDeadVisits con

def addConnectionVisits (s : CnxSystem C) (con : ℕ) (rounds : List (Round Io)) : List Visit :=
  afterwards (s.objects con) fun c =>
  afterwards (s.manager.getConnectionItem (getFd c)) fun item =>
    if (s.manager.items item).connection.isSome then []
    else ({ s with manager := s.manager.occupied item con } : CnxSystem C).trackVisits item
      (getIoMode c) rounds

/-- The items that the manager links again or removes in a call, each before that. -/
def visits (s : CnxSystem C) : Op C Io → List Visit
  | .construct _ | .change _ _ | .getNextServiceableConnection => []
  | .addConnection con rounds => s.addConnectionVisits con rounds
  | .removeConnection con => s.removeVisits con
  | .trackConnection con c rounds =>
      afterwards (s.change con c) (·.trackConnectionVisits con rounds)
  | .resetConnection con c rounds =>
      afterwards (s.change con c) (·.resetConnectionVisits con rounds)
  | .processConnections readables writeables readTurns writeTurns =>
      s.processVisits readables writeables readTurns writeTurns
  | .processTimeout now turns =>
      s.timeoutVisits now (s.manager.links.next (.inl .active)) turns

/-- The counter stays behind the list as often as a visit misses it. -/
def Counted (s s' : CnxSystem C) (vs : List Visit) : Prop :=
  s'.manager.drift = s.manager.drift + misses vs

variable {s s' s'' : CnxSystem C} {pending : ℤ} {item con : ℕ} {c : C} {vs ws : List Visit}

@[simp] theorem afterwards_some {α : Type} (a : α) (visits : α → List Visit) :
    afterwards (some a) visits = visits a := rfl

theorem Counted.nil (h : s'.manager = s.manager) : Counted s s' [] := by
  unfold Counted
  rw [h]
  exact (add_zero _).symm

theorem Counted.append (h : Counted s s' vs) (h' : Counted s' s'' ws) :
    Counted s s'' (vs ++ ws) := by
  unfold Counted at h h' ⊢
  rw [h', h, misses_append]
  omega

/-- One round of tracking. -/
theorem Invariant.counted_round (h : s.Invariant pending) {ioMode : ConnectionIoMode}
    (hmode : ioMode.Exclusive) (hcon : (s.manager.items item).connection = some con)
    (hobj : s.objects con = some c) {bestBefore : ℤ} {m : KssConnectionManager}
    (hm : s.manager.track item (getFd c) ioMode bestBefore = some m) :
    m.drift = s.manager.drift + (s.manager.trackVisit item ioMode).missed.toNat := by
  obtain ⟨lists, hlists⟩ := h.mirrors
  rw [h.fd item con c hcon hobj] at hm
  exact hlists.track_drift (h.managed_of_connection hcon) hmode hm

theorem Invariant.counted_track [LawfulConnection C Io] (h : s.Invariant pending)
    {ioMode : ConnectionIoMode} (hmode : ioMode.Exclusive) {rounds : List (Round Io)}
    (ht : s.trackCnxIoMode item ioMode rounds = some s') :
    Counted s s' (s.trackVisits item ioMode rounds) := by
  induction rounds generalizing s ioMode with
  | nil => exact absurd ht (by simp [CnxSystem.trackCnxIoMode])
  | cons round rounds ih =>
    obtain ⟨_, _, con, c, m, hrounds, hcon, hobj, hm, hinv, -, -, ht⟩ := h.trackRound hmode ht
    obtain ⟨rfl, rfl⟩ := List.cons.inj hrounds
    have hround := h.counted_round hmode hcon hobj hm
    unfold Counted trackVisits
    rw [misses_cons, hcon, afterwards_some, hobj, afterwards_some, hm, afterwards_some]
    split_ifs at ht ⊢
    · have hsend := LawfulConnection.send (C := C) round.io
      have hcalled := hinv.object con fun c' hc' =>
        ⟨c, hobj, (congrArg getFd (Option.some.inj hc').symm).trans (hsend.getFd c)⟩
      have hrest := ih hcalled (hsend.exclusive c) ht
      unfold Counted at hrest
      dsimp only at hrest ⊢
      omega
    · rw [← ht, hround]
      rfl

theorem Invariant.counted_remove (h : s.Invariant pending) {ok : Bool}
    (hr : s.removeConnection con = some (ok, s')) : Counted s s' (s.removeVisits con) := by
  obtain ⟨c, hobj, rfl⟩ := removeConnection_eq hr
  obtain ⟨lists, hlists⟩ := h.mirrors
  unfold Counted removeVisits
  rw [hobj, afterwards_some, misses_cons]
  obtain ⟨-, heq⟩ | ⟨hnot, heq⟩ := manager_removeConnection s.manager (getFd c)
  · rw [heq]
    exact hlists.vacated_drift (getFd c)
  · have hfree : ¬ s.manager.Managed (getFd c) := fun hm => hnot (hlists.lt_size _ hm) hm
    rw [heq, hlists.not_missed hfree]
    exact (add_zero _).symm

theorem Invariant.counted_destroy [LawfulConnection C Io] (h : s.Invariant pending)
    (hd : s.destroy con = some s') : Counted s s' (s.removeVisits con) := by
  obtain ⟨⟨ok, s₁⟩, hremove, hd⟩ := Option.bind_eq_some_iff.mp hd
  obtain ⟨s₂, hshut, hd⟩ := Option.bind_eq_some_iff.mp hd
  obtain ⟨c, -, rfl⟩ := shutDown_eq hshut
  obtain rfl := Option.some.inj hd
  have hremoved : Counted s s₁ (s.removeVisits con) := h.counted_remove hremove
  exact hremoved

theorem Invariant.counted_serve [LawfulConnection C Io] (h : s.Invariant pending)
    {f : C → Io → ConnectionIoMode × C} (hf : ∀ io, Proper fun c => f c io) {turn : Turn Io}
    (hs : s.serve f item turn = some s') : Counted s s' (s.serveVisits f item turn) := by
  obtain ⟨con, hcon, hs⟩ := Option.bind_eq_some_iff.mp hs
  obtain ⟨⟨ioMode, s₁⟩, hcall, htracked⟩ := Option.bind_eq_some_iff.mp hs
  obtain ⟨s₂, htrack, hend⟩ := Option.bind_eq_some_iff.mp htracked
  have hcalled := h.call (hf turn.io).getFd hcall
  unfold serveVisits
  rw [hcon, afterwards_some, hcall, afterwards_some]
  dsimp only
  rw [htrack, afterwards_some]
  obtain ⟨c, -, rfl, rfl⟩ := call_eq hcall
  have hmode := (hf turn.io).exclusive c
  have hbefore : Counted s _ _ := hcalled.counted_track hmode htrack
  have hinv := (hcalled.trackCnxIoMode hmode htrack).1
  refine hbefore.append ?_
  dsimp only at hend
  split at hend <;> rename_i hdead
  · obtain ⟨c', hobj, hend⟩ := Option.bind_eq_some_iff.mp hend
    rw [if_pos hdead, hobj, afterwards_some]
    split at hend <;> rename_i hauto
    · rw [if_pos hauto]
      exact hinv.counted_destroy hend
    · obtain ⟨⟨ioMode', s₃⟩, hreset, hagain⟩ := Option.bind_eq_some_iff.mp hend
      rw [if_neg hauto]
      have hcalled' := hinv.call LawfulConnection.reset.getFd hreset
      rw [hreset, afterwards_some]
      obtain ⟨c'', -, rfl, rfl⟩ := call_eq hreset
      exact hcalled'.counted_track (LawfulConnection.reset.exclusive c'') hagain
  · rw [if_neg hdead]
    exact Counted.nil (by rw [Option.some.inj hend])

theorem Invariant.counted_fds [LawfulConnection C Io] (h : s.Invariant pending)
    {f : C → Io → ConnectionIoMode × C} (hf : ∀ io, Proper fun c => f c io) {fds : Finset ℕ}
    {turns : ℕ → Turn Io} {l : List ℕ}
    (hl : l.foldlM (fun s fd => if fd ∈ fds then s.serve f fd (turns fd) else some s) s =
      some s') : Counted s s' (fdVisits f fds turns s l) := by
  induction l generalizing s with
  | nil => exact Counted.nil (by rw [Option.some.inj hl])
  | cons fd l ih =>
    obtain ⟨s₁, hs₁, hrest⟩ := Option.bind_eq_some_iff.mp hl
    unfold fdVisits
    dsimp only at hs₁
    split_ifs at hs₁ ⊢
    · rw [hs₁, afterwards_some]
      exact (h.counted_serve hf hs₁).append (ih (h.serve hf hs₁) hrest)
    · obtain rfl := Option.some.inj hs₁
      exact ih h hrest

theorem Invariant.counted_process [LawfulConnection C Io] (h : s.Invariant pending)
    {readables writeables : Finset ℕ} {readTurns writeTurns : ℕ → Turn Io}
    (hp : s.processConnections readables writeables readTurns writeTurns = some s') :
    Counted s s' (s.processVisits readables writeables readTurns writeTurns) := by
  obtain ⟨s₁, hwrite, hread⟩ := Option.bind_eq_some_iff.mp hp
  unfold processVisits
  rw [hwrite, afterwards_some]
  have hwritten := h.processFds LawfulConnection.send hwrite
  exact (h.counted_fds LawfulConnection.send hwrite).append
    (hwritten.counted_fds LawfulConnection.receive hread)

theorem Invariant.counted_timeout [LawfulConnection C Io] (h : s.Invariant pending) {now : ℤ}
    {node : CnxList ⊕ ℕ} {turns : List (Turn Io)}
    (hp : s.processTimeoutFrom now node turns = some s') :
    Counted s s' (s.timeoutVisits now node turns) := by
  induction turns generalizing s node with
  | nil =>
    obtain (_ | _) | item := node
    · exact Counted.nil (by rw [Option.some.inj hp])
    · exact absurd hp (by simp [CnxSystem.processTimeoutFrom])
    · exact absurd hp (by simp [CnxSystem.processTimeoutFrom])
  | cons turn turns ih =>
    obtain (_ | _) | item := node
    · exact Counted.nil (by rw [Option.some.inj hp])
    · exact absurd hp (by simp [CnxSystem.processTimeoutFrom])
    · rw [CnxSystem.processTimeoutFrom] at hp
      unfold timeoutVisits
      split_ifs at hp ⊢
      · obtain ⟨s₁, hserve, hrest⟩ := Option.bind_eq_some_iff.mp hp
        have hproper : ∀ io : Io, Proper fun c : C => timedOut c :=
          fun _ => LawfulConnection.timedOut
        rw [hserve, afterwards_some]
        exact (h.counted_serve hproper hserve).append (ih (h.serve hproper hserve) hrest)
      · exact Counted.nil (by rw [Option.some.inj hp])

theorem Invariant.counted_unlessDead [LawfulConnection C Io] (h : s.Invariant pending) {ok : Bool}
    (hu : s.unlessDead con = some (ok, s')) : Counted s s' (s.unlessDeadVisits con) := by
  obtain ⟨c, hobj, hrest⟩ := Option.bind_eq_some_iff.mp hu
  unfold unlessDeadVisits
  rw [hobj, afterwards_some]
  split_ifs at hrest ⊢
  · exact Counted.nil (by rw [← (Prod.mk.inj (Option.some.inj hrest)).2])
  · obtain ⟨s₁, hshut, hend⟩ := Option.bind_eq_some_iff.mp hrest
    obtain ⟨⟨_, s₂⟩, hremove, hdelete⟩ := Option.bind_eq_some_iff.mp hend
    have hremoved := (h.shutDown hshut).counted_remove hremove
    rw [hshut, afterwards_some, ← (Prod.mk.inj (Option.some.inj hdelete)).2]
    obtain ⟨c', -, rfl⟩ := shutDown_eq hshut
    exact hremoved
  · exact Counted.nil (by rw [← (Prod.mk.inj (Option.some.inj hrest)).2])

theorem Invariant.counted_trackConnection [LawfulConnection C Io] (h : s.Invariant pending)
    {rounds : List (Round Io)} {ok : Bool} (ht : s.trackConnection con rounds = some (ok, s')) :
    Counted s s' (s.trackConnectionVisits con rounds) := by
  obtain ⟨o, hitem, hfound⟩ := Option.bind_eq_some_iff.mp ht
  unfold trackConnectionVisits
  rw [hitem, afterwards_some]
  cases o with
  | none => exact Counted.nil (by rw [← (Prod.mk.inj (Option.some.inj hfound)).2])
  | some item =>
    obtain ⟨c, hobj, hrest⟩ := Option.bind_eq_some_iff.mp hfound
    obtain ⟨s₁, htrack, hchecked⟩ := Option.bind_eq_some_iff.mp hrest
    obtain ⟨⟨ok', s₂⟩, hdead, hend⟩ := Option.bind_eq_some_iff.mp hchecked
    have hsame : s'.manager = s₂.manager := by
      dsimp only at hend
      split_ifs at hend
      · rw [← (Prod.mk.inj (Option.some.inj hend)).2]
      · obtain ⟨⟨_, s₃⟩, hreset, hdone⟩ := Option.bind_eq_some_iff.mp hend
        obtain ⟨c', -, -, rfl⟩ := call_eq hreset
        rw [← (Prod.mk.inj (Option.some.inj hdone)).2]
    unfold Counted
    rw [hsame, afterwards_some, hobj, afterwards_some]
    split_ifs at htrack ⊢
    · have hmode := LawfulConnection.getIoMode c
      rw [htrack, afterwards_some]
      exact (h.counted_track hmode htrack).append
        ((h.trackCnxIoMode hmode htrack).1.counted_unlessDead hdead)
    · obtain rfl := Option.some.inj htrack
      exact h.counted_unlessDead hdead

theorem Invariant.counted_resetConnection [LawfulConnection C Io] (h : s.Invariant pending)
    {rounds : List (Round Io)} {ok : Bool} (ht : s.resetConnection con rounds = some (ok, s')) :
    Counted s s' (s.resetConnectionVisits con rounds) := by
  obtain ⟨o, hitem, hfound⟩ := Option.bind_eq_some_iff.mp ht
  unfold resetConnectionVisits
  rw [hitem, afterwards_some]
  cases o with
  | none => exact Counted.nil (by rw [← (Prod.mk.inj (Option.some.inj hfound)).2])
  | some item =>
    obtain ⟨c, hobj, hrest⟩ := Option.bind_eq_some_iff.mp hfound
    obtain ⟨s₁, htrack, hdead⟩ := Option.bind_eq_some_iff.mp hrest
    rw [afterwards_some, hobj, afterwards_some]
    split_ifs at htrack ⊢
    · obtain ⟨⟨ioMode, s₂⟩, hreset, htracked⟩ := Option.bind_eq_some_iff.mp htrack
      have hcalled := h.call LawfulConnection.reset.getFd hreset
      rw [hreset, afterwards_some]
      dsimp only at htracked ⊢
      rw [htracked, afterwards_some]
      obtain ⟨c', -, rfl, rfl⟩ := call_eq hreset
      have hmode := LawfulConnection.reset.exclusive c'
      have hcounted : Counted s s₁ _ := hcalled.counted_track hmode htracked
      exact hcounted.append
        ((hcalled.trackCnxIoMode hmode htracked).1.counted_unlessDead hdead)
    · obtain rfl := Option.some.inj htrack
      exact h.counted_unlessDead hdead

theorem Invariant.counted_add [LawfulConnection C Io] (h : s.Invariant 0)
    {rounds : List (Round Io)} {ok : Bool} (ha : s.addConnection con rounds = some (ok, s')) :
    Counted s s' (s.addConnectionVisits con rounds) := by
  obtain ⟨c, hobj, hfound⟩ := Option.bind_eq_some_iff.mp ha
  unfold addConnectionVisits
  rw [hobj, afterwards_some]
  rw [getConnectionItem] at hfound ⊢
  by_cases hsize : getFd c < s.manager.fdsetSize
  · simp only [if_pos hsize, afterwards_some] at hfound ⊢
    by_cases hfree : (s.manager.items (getFd c)).connection.isSome = true
    · rw [if_pos hfree] at hfound ⊢
      exact Counted.nil (by rw [← (Prod.mk.inj (Option.some.inj hfound)).2])
    · rw [if_neg hfree] at hfound ⊢
      obtain ⟨s₁, htrack, hend⟩ := Option.bind_eq_some_iff.mp hfound
      rw [← (Prod.mk.inj (Option.some.inj hend)).2]
      have hcounted : Counted s s₁ _ :=
        (h.occupied hobj hsize hfree).counted_track (LawfulConnection.getIoMode c) htrack
      exact hcounted
  · simp only [if_neg hsize] at hfound ⊢
    exact Counted.nil (by rw [← (Prod.mk.inj (Option.some.inj hfound)).2])

/-- Every call leaves the counter behind as often as it visits a waiting connection. -/
theorem Invariant.counted_perform [LawfulConnection C Io] (h : s.Invariant 0) {op : Op C Io}
    (hp : s.perform op = some s') : Counted s s' (s.visits op) := by
  cases op with
  | construct c => exact Counted.nil (by rw [← Option.some.inj hp])
  | change con c =>
    obtain ⟨old, -, -, -, rfl⟩ := change_eq hp
    exact Counted.nil rfl
  | addConnection con rounds =>
    obtain ⟨⟨ok, s₁⟩, ha, rfl⟩ := Option.map_eq_some_iff.mp hp
    exact h.counted_add ha
  | removeConnection con =>
    obtain ⟨⟨ok, s₁⟩, hr, rfl⟩ := Option.map_eq_some_iff.mp hp
    exact h.counted_remove hr
  | trackConnection con c rounds =>
    obtain ⟨s₀, hc, hrest⟩ := Option.bind_eq_some_iff.mp hp
    obtain ⟨⟨ok, s₁⟩, ht, rfl⟩ := Option.map_eq_some_iff.mp hrest
    have htracked := (h.change hc).counted_trackConnection ht
    rw [visits, hc, afterwards_some]
    obtain ⟨old, -, -, -, rfl⟩ := change_eq hc
    exact htracked
  | resetConnection con c rounds =>
    obtain ⟨s₀, hc, hrest⟩ := Option.bind_eq_some_iff.mp hp
    obtain ⟨⟨ok, s₁⟩, ht, rfl⟩ := Option.map_eq_some_iff.mp hrest
    have hreset := (h.change hc).counted_resetConnection ht
    rw [visits, hc, afterwards_some]
    obtain ⟨old, -, -, -, rfl⟩ := change_eq hc
    exact hreset
  | processConnections readables writeables readTurns writeTurns => exact h.counted_process hp
  | processTimeout now turns => exact h.counted_timeout hp
  | getNextServiceableConnection =>
    obtain ⟨⟨con, s₁⟩, hn, rfl⟩ := Option.map_eq_some_iff.mp hp
    obtain ⟨⟨con', m⟩, hm, hs₁⟩ := Option.bind_eq_some_iff.mp hn
    obtain ⟨lists, hlists⟩ := h.mirrors
    rw [← (Prod.mk.inj (Option.some.inj hs₁)).2]
    unfold Counted
    exact (hlists.getNext_drift hm).trans (add_zero _).symm

/-- No connection that waits to be served is linked again or removed. -/
def Undisturbed (s : CnxSystem C) (op : Op C Io) : Prop := ∀ v ∈ s.visits op, v.missed = false

/-- The counter tells how many connections wait, and a loop of as many rounds fetches them all. -/
structure Exact (m : KssConnectionManager) : Prop where
  count : m.serviceableCount = m.serviceableItems.length
  fetches : ∃ cons m', m.fetches m.serviceableCount.toNat = some (cons, m') ∧
    m'.serviceableItems = [] ∧
    cons.map some = m.serviceableItems.map fun i => (m.items i).connection

theorem Invariant.exact (h : s.Invariant pending) (hdrift : s.manager.drift = 0) :
    Exact s.manager := by
  obtain ⟨lists, hlists⟩ := h.mirrors
  have hcount : s.manager.serviceableCount = s.manager.serviceableItems.length := by
    unfold drift at hdrift
    omega
  constructor
  · exact hcount
  · apply hlists.fetches
    rw [hcount, Int.toNat_natCast]

theorem misses_eq_zero : misses vs = 0 ↔ ∀ v ∈ vs, v.missed = false := by
  unfold misses
  rw [List.countP_eq_zero]
  simp only [Bool.not_eq_true]

/-- The counter is exact in every state of a run if and only if no call disturbs a connection that
waits. -/
theorem exact_iff [LawfulConnection C Io] (fdsetSize : ℕ) (ops : List (Op C Io)) :
    (∀ fs, fs <+: ops → ∀ s ∈ run step (some (create fdsetSize : CnxSystem C)) fs,
      Exact s.manager) ↔
      Along step (fun o op => ∀ s ∈ o, ∀ s' ∈ s.perform op, s.Undisturbed op)
        (some (create fdsetSize)) ops := by
  apply along_iff (I := fun o : Option (CnxSystem C) =>
      ∀ s ∈ o, s.Invariant 0 ∧ s.manager.drift = 0)
    (P := fun o : Option (CnxSystem C) => ∀ s ∈ o, Exact s.manager)
  · intro o h s hs
    exact (h s hs).1.exact (h s hs).2
  · intro o op h hguard s' hs'
    obtain ⟨s, hs, hp⟩ := Option.bind_eq_some_iff.mp hs'
    obtain ⟨hinv, hdrift⟩ := h s hs
    have hcounted := hinv.counted_perform hp
    unfold Counted at hcounted
    rw [hdrift, misses_eq_zero.mpr (hguard s hs s' hp)] at hcounted
    exact ⟨hinv.perform hp, hcounted⟩
  · intro o op h hguard hexact
    apply hguard
    intro s hs s' hs'
    obtain ⟨hinv, hdrift⟩ := h s hs
    have hcounted := hinv.counted_perform hs'
    have hcount := (hexact s' (Option.bind_eq_some_iff.mpr ⟨s, hs, hs'⟩)).count
    unfold Counted at hcounted
    apply misses_eq_zero.mp
    rw [hdrift] at hcounted
    unfold drift at hcounted
    omega
  · intro s hs
    obtain rfl := Option.some.inj hs
    refine ⟨create_invariant fdsetSize, ?_⟩
    have hitems := (create_mirrors fdsetSize).serviceableItems_eq
    unfold drift
    change 0 - ((KssConnectionManager.create fdsetSize).serviceableItems.length : ℤ) = 0
    rw [hitems]
    rfl

end CnxSystem
/-- On TCP and UDP connections, the counter is exact in every state of a run if and only if no call
links a waiting connection again or removes it. -/
theorem serviceableCount_exact_iff (fdsetSize : ℕ) (ops : List (CnxSystem.Op KssConnection
    ConnectionIo)) :
    (∀ fs, fs <+: ops → ∀ s ∈ run CnxSystem.step (some (CnxSystem.create fdsetSize)) fs,
      CnxSystem.Exact s.manager) ↔
      Along CnxSystem.step (fun o op => ∀ s ∈ o, ∀ s' ∈ s.perform op, s.Undisturbed op)
        (some (CnxSystem.create fdsetSize)) ops :=
  CnxSystem.exact_iff fdsetSize ops

/-- The header of a call. -/
def callHeader : List UInt8 :=
  [0, 0, 0, 1, 0, 0, 0, 0, 0, 0, 0, 2, 0, 4, 0x96, 0x78, 0, 0, 0, 1, 0, 0, 0, 5] ++
    List.replicate 16 0

/-- A turn in which a call arrives. -/
def callTurn : Turn ConnectionIo where
  io := { receives := [.datagram ⟨callHeader, ⟨1, 2⟩⟩] }
  rounds := [⟨0, {}⟩]
  resetRounds := []

/-- A UDP server gets a call, and is removed before it is served. -/
def removedServer : List (CnxSystem.Op KssConnection ConnectionIo) :=
  [.construct (.udp 3 .started), .addConnection 0 [⟨0, {}⟩],
    .processConnections {3} ∅ (fun _ => callTurn) (fun _ => transferTurn 0 []),
    .removeConnection 0]

/-- One connection is counted although none waits. -/
theorem not_exact_removedServer :
    ∃ s, run CnxSystem.step (some (CnxSystem.create 8)) removedServer = some s ∧
      s.manager.serviceableItems = [] ∧ s.manager.serviceableCount = 1 ∧
      ¬ CnxSystem.Exact s.manager := by
  have hrun : ((run CnxSystem.step (some (CnxSystem.create 8)) removedServer).any fun s =>
      s.manager.serviceableItems = [] ∧ s.manager.serviceableCount = 1) = true := by
    decide
  obtain ⟨s, hs, hcount⟩ := (Option.any_eq_true ..).mp hrun
  obtain ⟨hitems, hcount⟩ := of_decide_eq_true hcount
  refine ⟨s, hs, hitems, hcount, fun hexact => ?_⟩
  have heq := hexact.count
  rw [hitems, hcount] at heq
  exact absurd heq (by decide)

end AcpltKs
