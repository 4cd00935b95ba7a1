import AcpltKs.ConnectionMgr.Mirror

/-! In every order of calls the connection manager mirrors its connections, whatever their member
functions and their users do to them. -/
namespace AcpltKs
open Function LinkedRings GuardedRun KssConnectionManager ConnectionObject

variable {C Io : Type} [ConnectionObject C Io]

/-- What the manager relies on in a member function of a connection: that it leaves the file
descriptor alone and never returns an I/O mode with both attention and timeout. -/
structure Proper (f : C → ConnectionIoMode × C) : Prop where
  getFd : ∀ c, getFd (f c).2 = getFd c
  exclusive : ∀ c, (f c).1.Exclusive

class LawfulConnection (C : Type) (Io : outParam Type) [ConnectionObject C Io] : Prop where
  getIoMode : ∀ c : C, (getIoMode c).Exclusive
  receive : ∀ io, Proper fun c : C => receive c io
  send : ∀ io, Proper fun c : C => send c io
  timedOut : Proper (timedOut : C → ConnectionIoMode × C)
  reset : Proper (reset : C → ConnectionIoMode × C)
  shutdown : ∀ c : C, getFd (shutdown c) = getFd c

namespace CnxSystem

/-- The manager mirrors the connections, of which `pending` have not been counted yet; each one is
in the item of its file descriptor. -/
structure Invariant (s : CnxSystem C) (pending : ℤ) : Prop where
  mirrors : ∃ lists, s.manager.Mirrors lists
  count : s.manager.connectionCount + pending = s.manager.managed.card
  fd : ∀ item con c, (s.manager.items item).connection = some con → s.objects con = some c →
    getFd c = item
  lt_next : ∀ item con, (s.manager.items item).connection = some con → con < s.next
  object_lt : ∀ con c, s.objects con = some c → con < s.next

variable {s s' : CnxSystem C} {pending : ℤ} {item con : ℕ} {c : C}

theorem create_invariant (fdsetSize : ℕ) : (create fdsetSize : CnxSystem C).Invariant 0 := by
  refine ⟨⟨_, create_mirrors fdsetSize⟩, ?_, fun item con c hc => absurd hc ?_,
    fun item con hc => absurd hc ?_, fun con c hc => absurd hc ?_⟩
  · have hnone : ∀ i, ¬ (KssConnectionManager.create fdsetSize).Managed i := by
      simp [Managed, KssConnectionManager.create]
    have hempty : (KssConnectionManager.create fdsetSize).managed = ∅ :=
      Finset.filter_eq_empty_iff.mpr fun i _ => hnone i
    rw [create, hempty]
    rfl
  · simp [create, KssConnectionManager.create]
  · simp [create, KssConnectionManager.create]
  · simp [create]

/-- The same connections in the table, but another state of its lists and sets. -/
theorem Invariant.manager (h : s.Invariant pending) {m : KssConnectionManager}
    (hm : ∃ lists, m.Mirrors lists) (hsame : SameTable s.manager m) :
    ({ s with manager := m } : CnxSystem C).Invariant pending := by
  refine ⟨hm, ?_, fun item con c hc => h.fd item con c ?_, fun item con hc => h.lt_next item con
    ?_, h.object_lt⟩
  · rw [hsame.count, hsame.managed]
    exact h.count
  · rwa [hsame.connection] at hc
  · rwa [hsame.connection] at hc

/-- An object changes, or is deleted. -/
theorem Invariant.object (h : s.Invariant pending) (con : ℕ) {o : Option C}
    (ho : ∀ c ∈ o, ∃ old, s.objects con = some old ∧ getFd c =
      getFd old) :
    ({ s with objects := update s.objects con o } : CnxSystem C).Invariant pending := by
  have hobjects : ∀ con' c, update s.objects con o con' = some c →
      ∃ old, s.objects con' = some old ∧ getFd c = getFd old := by
    intro con' c hobj
    by_cases hcon : con' = con
    · rw [hcon, update_self] at hobj
      exact hcon ▸ ho c hobj
    · rw [update_of_ne hcon] at hobj
      exact ⟨c, hobj, rfl⟩
  refine ⟨h.mirrors, h.count, fun item con' c hc hobj => ?_, h.lt_next, fun con' c hobj => ?_⟩
  · obtain ⟨old, hold, hfd⟩ := hobjects con' c hobj
    exact hfd.trans (h.fd item con' old hc hold)
  · obtain ⟨old, hold, -⟩ := hobjects con' c hobj
    exact h.object_lt con' old hold

theorem call_eq {α : Type} {f : C → α × C} {a : α} (hc : s.call con f = some (a, s')) :
    ∃ c, s.objects con = some c ∧ a = (f c).1 ∧
      s' = { s with objects := update s.objects con (some (f c).2) } := by
  obtain ⟨c, hobj, hres⟩ := Option.bind_eq_some_iff.mp hc
  obtain ⟨rfl, rfl⟩ := Prod.mk.inj (Option.some.inj hres)
  exact ⟨c, hobj, rfl, rfl⟩

theorem Invariant.call (h : s.Invariant pending) {α : Type} {f : C → α × C} {a : α}
    (hf : ∀ c, getFd (f c).2 = getFd c)
    (hc : s.call con f = some (a, s')) : s'.Invariant pending := by
  obtain ⟨c, hobj, -, rfl⟩ := call_eq hc
  exact h.object con fun _ hc' => ⟨c, hobj, by rw [← Option.some.inj hc', hf]⟩

/-- What has been noted does not matter. -/
theorem Invariant.noted (h : s.Invariant pending) (log : List (Deed × ℕ)) :
    ({ s with log } : CnxSystem C).Invariant pending :=
  ⟨h.mirrors, h.count, h.fd, h.lt_next, h.object_lt⟩

theorem shutDown_eq (hs : s.shutDown con = some s') : ∃ c, s.objects con = some c ∧
    s' = { s with
      objects := update s.objects con (some (shutdown c))
      log := s.log ++ [(.shutDown, con)] } := by
  obtain ⟨⟨_, s₁⟩, hcall, hs⟩ := Option.bind_eq_some_iff.mp hs
  obtain ⟨c, hobj, -, rfl⟩ := call_eq hcall
  exact ⟨c, hobj, (Option.some.inj hs).symm⟩

theorem Invariant.shutDown [LawfulConnection C Io] (h : s.Invariant pending)
    (hs : s.shutDown con = some s') : s'.Invariant pending := by
  obtain ⟨⟨_, s₁⟩, hcall, hs⟩ := Option.bind_eq_some_iff.mp hs
  obtain rfl := Option.some.inj hs
  exact (h.call LawfulConnection.shutdown hcall).noted _

theorem Invariant.managed_of_connection (_h : s.Invariant pending)
    (hcon : (s.manager.items item).connection = some con) : s.manager.Managed item := by
  rw [Managed, hcon]
  rfl

/-- One round of tracking: the manager changes, and there is another round after a fast write. -/
theorem Invariant.trackRound (h : s.Invariant pending) {ioMode : ConnectionIoMode}
    (hmode : ioMode.Exclusive) {rounds : List (Round Io)}
    (ht : s.trackCnxIoMode item ioMode rounds = some s') :
    ∃ round rest con c m, rounds = round :: rest ∧ (s.manager.items item).connection = some con ∧
      s.objects con = some c ∧ s.manager.track item (getFd c) ioMode
        (round.now + 1000000 * getTimeout c) = some m ∧
      ({ s with manager := m } : CnxSystem C).Invariant pending ∧
      SameTable s.manager m ∧
      (∀ i, (m.items i).lastIoMode = if i = item then ioMode else
        (s.manager.items i).lastIoMode) ∧
      if wantsFastwrite (s.manager.items item).lastIoMode ioMode then
        ({ s with manager := m, objects := update s.objects con (some (send c round.io).2) } :
          CnxSystem C).trackCnxIoMode item (send c round.io).1 rest = some s'
      else { s with manager := m } = s' := by
  cases rounds with
  | nil => exact absurd ht (by simp [CnxSystem.trackCnxIoMode])
  | cons round rest =>
    rw [CnxSystem.trackCnxIoMode] at ht
    obtain ⟨con, hcon, ht⟩ := Option.bind_eq_some_iff.mp ht
    obtain ⟨c, hobj, ht⟩ := Option.bind_eq_some_iff.mp ht
    obtain ⟨m, hm, ht⟩ := Option.bind_eq_some_iff.mp ht
    obtain ⟨lists, hlists⟩ := h.mirrors
    obtain ⟨⟨lists', hlists', -⟩, hsame, hlast⟩ :=
      hlists.track (h.managed_of_connection hcon) hmode (h.fd item con c hcon hobj ▸ hm)
    refine ⟨round, rest, con, c, m, rfl, hcon, hobj, hm, h.manager ⟨lists', hlists'⟩ hsame, hsame,
      hlast, ?_⟩
    split_ifs at ht ⊢
    · obtain ⟨⟨ioMode', s''⟩, hcall, ht⟩ := Option.bind_eq_some_iff.mp ht
      obtain ⟨c', hobj', rfl, rfl⟩ := call_eq hcall
      obtain rfl := Option.some.inj (hobj.symm.trans hobj')
      exact ht
    · exact Option.some.inj ht

/-- Tracking and its fast writes keep the invariant. -/
theorem Invariant.trackCnxIoMode [LawfulConnection C Io] (h : s.Invariant pending)
    {ioMode : ConnectionIoMode} (hmode : ioMode.Exclusive) {rounds : List (Round Io)}
    (ht : s.trackCnxIoMode item ioMode rounds = some s') :
    s'.Invariant pending ∧ s'.next = s.next := by
  induction rounds generalizing s ioMode with
  | nil => exact absurd ht (by simp [CnxSystem.trackCnxIoMode])
  | cons round rounds ih =>
    obtain ⟨_, _, con, c, m, hrounds, -, hobj, -, hinv, -, -, ht⟩ := h.trackRound hmode ht
    obtain ⟨rfl, rfl⟩ := List.cons.inj hrounds
    split_ifs at ht
    · have hsend := LawfulConnection.send (C := C) round.io
      have hcalled := hinv.object con fun c' hc' =>
        ⟨c, hobj, (congrArg getFd (Option.some.inj hc').symm).trans (hsend.getFd c)⟩
      obtain ⟨hinv', hnext⟩ := ih hcalled (hsend.exclusive c) ht
      exact ⟨hinv', hnext⟩
    · rw [← ht]
      exact ⟨hinv, rfl⟩

/-- Only managed connections are removed. -/
theorem manager_removeConnection (m : KssConnectionManager) (fd : ℕ) :
    m.Managed fd ∧ (m.removeConnection fd).2 = m.vacated fd ∨
      (fd < m.fdsetSize → ¬ m.Managed fd) ∧ (m.removeConnection fd).2 = m := by
  rw [KssConnectionManager.removeConnection, getConnectionItem]
  by_cases hsize : fd < m.fdsetSize
  · by_cases hm : m.Managed fd
    · refine Or.inl ⟨hm, ?_⟩
      simp only [if_pos hsize]
      exact congrArg Prod.snd (if_pos hm)
    · refine Or.inr ⟨fun _ => hm, ?_⟩
      simp only [if_pos hsize]
      exact congrArg Prod.snd (if_neg hm)
  · exact Or.inr ⟨fun h => absurd h hsize, by rw [if_neg hsize]⟩

theorem vacated_connection {m : KssConnectionManager} {item i con : ℕ}
    (h : ((m.vacated item).items i).connection = some con) :
    i ≠ item ∧ (m.items i).connection = some con := by
  have hi : i ≠ item := by
    rintro rfl
    rw [vacated, setItem_self] at h
    exact absurd h (by simp)
  rw [vacated, setItem_of_ne m hi] at h
  exact ⟨hi, h⟩

theorem Invariant.vacated (h : s.Invariant pending) (hm : s.manager.Managed item) :
    ({ s with manager := s.manager.vacated item } : CnxSystem C).Invariant pending := by
  obtain ⟨lists, hlists⟩ := h.mirrors
  refine ⟨⟨_, hlists.vacated item⟩, ?_, fun i con c hc => ?_, fun i con hc => ?_, h.object_lt⟩
  · have hmem : item ∈ s.manager.managed :=
      Finset.mem_filter.mpr ⟨Finset.mem_range.mpr (hlists.lt_size item hm), hm⟩
    have hcard := Finset.card_erase_add_one hmem
    have hcount := h.count
    have hone : (s.manager.vacated item).connectionCount = s.manager.connectionCount - 1 := rfl
    rw [hone, managed_vacated]
    omega
  · exact h.fd i con c (vacated_connection hc).2
  · exact h.lt_next i con (vacated_connection hc).2

theorem removeConnection_eq {ok : Bool} (hr : s.removeConnection con = some (ok, s')) :
    ∃ c, s.objects con = some c ∧
      s' = { s with manager := (s.manager.removeConnection (getFd c)).2 } := by
  obtain ⟨c, hobj, hr⟩ := Option.bind_eq_some_iff.mp hr
  exact ⟨c, hobj, (Prod.mk.inj (Option.some.inj hr)).2.symm⟩

theorem Invariant.removeConnection (h : s.Invariant pending) {ok : Bool}
    (hr : s.removeConnection con = some (ok, s')) : s'.Invariant pending := by
  obtain ⟨c, -, rfl⟩ := removeConnection_eq hr
  obtain ⟨hm, heq⟩ | ⟨-, heq⟩ := manager_removeConnection s.manager (getFd c)
  · rw [heq]
    exact h.vacated hm
  · rw [heq]
    exact h

theorem Invariant.delete (h : s.Invariant pending) (con : ℕ) : (s.delete con).Invariant pending :=
  (h.object con fun c hc => absurd hc (by simp)).noted _

theorem Invariant.destroy [LawfulConnection C Io] (h : s.Invariant pending)
    (hd : s.destroy con = some s') : s'.Invariant pending := by
  obtain ⟨⟨ok, s₁⟩, hremove, hd⟩ := Option.bind_eq_some_iff.mp hd
  obtain ⟨s₂, hshut, hd⟩ := Option.bind_eq_some_iff.mp hd
  obtain rfl := Option.some.inj hd
  exact ((h.removeConnection hremove).shutDown hshut).delete con

/-- One turn of a connection. -/
theorem Invariant.serve [LawfulConnection C Io] (h : s.Invariant pending)
    {f : C → Io → ConnectionIoMode × C} (hf : ∀ io, Proper fun c => f c io) {turn : Turn Io}
    (hs : s.serve f item turn = some s') : s'.Invariant pending := by
  obtain ⟨con, hcon, hs⟩ := Option.bind_eq_some_iff.mp hs
  obtain ⟨⟨ioMode, s₁⟩, hcall, hs⟩ := Option.bind_eq_some_iff.mp hs
  obtain ⟨s₂, htrack, hs⟩ := Option.bind_eq_some_iff.mp hs
  have hcalled := h.call (hf turn.io).getFd hcall
  obtain ⟨c, -, rfl, -⟩ := call_eq hcall
  have htracked := (hcalled.trackCnxIoMode ((hf turn.io).exclusive c) htrack).1
  simp only at hs
  split_ifs at hs
  · obtain ⟨c', hobj, hs⟩ := Option.bind_eq_some_iff.mp hs
    split_ifs at hs
    · exact htracked.destroy hs
    · obtain ⟨⟨ioMode', s₃⟩, hreset, hs⟩ := Option.bind_eq_some_iff.mp hs
      have hcalled' := htracked.call LawfulConnection.reset.getFd hreset
      obtain ⟨c'', -, rfl, -⟩ := call_eq hreset
      exact (hcalled'.trackCnxIoMode (LawfulConnection.reset.exclusive c'') hs).1
  · rwa [← Option.some.inj hs]

/-- What every turn of a loop preserves, the loop preserves. -/
theorem foldlM_invariant {σ α : Type} {g : σ → α → Option σ} {I : σ → Prop}
    (hstep : ∀ s a s', I s → g s a = some s' → I s') {l : List α} {s s' : σ} (h : I s)
    (hl : l.foldlM g s = some s') : I s' := by
  induction l generalizing s with
  | nil => rwa [← Option.some.inj hl]
  | cons a l ih =>
    obtain ⟨s₁, hs₁, hl⟩ := Option.bind_eq_some_iff.mp hl
    exact ih (hstep s a s₁ h hs₁) hl

theorem Invariant.processFds [LawfulConnection C Io] (h : s.Invariant pending)
    {f : C → Io → ConnectionIoMode × C} (hf : ∀ io, Proper fun c => f c io) {fds : Finset ℕ}
    {turns : ℕ → Turn Io} (hp : s.processFds f fds turns = some s') : s'.Invariant pending := by
  refine foldlM_invariant (I := fun s => s.Invariant pending) (fun s fd s₁ hs hs₁ => ?_) h hp
  split_ifs at hs₁
  · exact hs.serve hf hs₁
  · rwa [← Option.some.inj hs₁]

theorem Invariant.processTimeoutFrom [LawfulConnection C Io] (h : s.Invariant pending) {now : ℤ}
    {node : CnxList ⊕ ℕ} {turns : List (Turn Io)}
    (hp : s.processTimeoutFrom now node turns = some s') : s'.Invariant pending := by
  induction turns generalizing s node with
  | nil =>
    obtain (_ | _) | item := node
    · rwa [← Option.some.inj hp]
    · exact absurd hp (by simp [CnxSystem.processTimeoutFrom])
    · exact absurd hp (by simp [CnxSystem.processTimeoutFrom])
  | cons turn turns ih =>
    obtain (_ | _) | item := node
    · rwa [← Option.some.inj hp]
    · exact absurd hp (by simp [CnxSystem.processTimeoutFrom])
    · rw [CnxSystem.processTimeoutFrom] at hp
      split_ifs at hp
      · obtain ⟨s₁, hserve, hp⟩ := Option.bind_eq_some_iff.mp hp
        exact ih (h.serve (fun _ => LawfulConnection.timedOut) hserve) hp
      · rwa [← Option.some.inj hp]

theorem Invariant.unlessDead [LawfulConnection C Io] (h : s.Invariant pending) {ok : Bool}
    (hu : s.unlessDead con = some (ok, s')) : s'.Invariant pending := by
  obtain ⟨c, hobj, hu⟩ := Option.bind_eq_some_iff.mp hu
  split_ifs at hu
  · rwa [← (Prod.mk.inj (Option.some.inj hu)).2]
  · obtain ⟨s₁, hshut, hu⟩ := Option.bind_eq_some_iff.mp hu
    obtain ⟨⟨_, s₂⟩, hremove, hu⟩ := Option.bind_eq_some_iff.mp hu
    rw [← (Prod.mk.inj (Option.some.inj hu)).2]
    exact ((h.shutDown hshut).removeConnection hremove).delete con
  · rwa [← (Prod.mk.inj (Option.some.inj hu)).2]

theorem itemOf_eq {o : Option ℕ} (ho : s.itemOf con = some o) :
    ∃ c, s.objects con = some c ∧ ∀ item ∈ o, item = getFd c ∧ s.manager.Managed item := by
  obtain ⟨c, hobj, ho⟩ := Option.bind_eq_some_iff.mp ho
  refine ⟨c, hobj, fun item hitem => ?_⟩
  rw [← Option.some.inj ho, Option.mem_def, Option.filter_eq_some_iff, getConnectionItem] at hitem
  obtain ⟨hfd, hm⟩ := hitem
  split_ifs at hfd
  exact ⟨(Option.some.inj hfd).symm, hm⟩

theorem Invariant.trackConnection [LawfulConnection C Io] (h : s.Invariant pending)
    {rounds : List (Round Io)} {ok : Bool} (ht : s.trackConnection con rounds = some (ok, s')) :
    s'.Invariant pending := by
  obtain ⟨o, hitem, ht⟩ := Option.bind_eq_some_iff.mp ht
  cases o with
  | none => rwa [← (Prod.mk.inj (Option.some.inj ht)).2]
  | some item =>
    obtain ⟨c, hobj, ht⟩ := Option.bind_eq_some_iff.mp ht
    obtain ⟨s₁, htrack, ht⟩ := Option.bind_eq_some_iff.mp ht
    obtain ⟨⟨ok', s₂⟩, hdead, ht⟩ := Option.bind_eq_some_iff.mp ht
    have htracked : s₁.Invariant pending := by
      split_ifs at htrack
      · exact (h.trackCnxIoMode (LawfulConnection.getIoMode c) htrack).1
      · rwa [← Option.some.inj htrack]
    have hchecked := htracked.unlessDead hdead
    simp only at ht
    split_ifs at ht
    · rwa [← (Prod.mk.inj (Option.some.inj ht)).2]
    · obtain ⟨⟨ioMode, s₃⟩, hreset, ht⟩ := Option.bind_eq_some_iff.mp ht
      rw [← (Prod.mk.inj (Option.some.inj ht)).2]
      exact hchecked.call LawfulConnection.reset.getFd hreset

theorem Invariant.resetConnection [LawfulConnection C Io] (h : s.Invariant pending)
    {rounds : List (Round Io)} {ok : Bool} (ht : s.resetConnection con rounds = some (ok, s')) :
    s'.Invariant pending := by
  obtain ⟨o, hitem, ht⟩ := Option.bind_eq_some_iff.mp ht
  cases o with
  | none => rwa [← (Prod.mk.inj (Option.some.inj ht)).2]
  | some item =>
    obtain ⟨c, hobj, ht⟩ := Option.bind_eq_some_iff.mp ht
    obtain ⟨s₁, htrack, ht⟩ := Option.bind_eq_some_iff.mp ht
    have htracked : s₁.Invariant pending := by
      split_ifs at htrack
      · obtain ⟨⟨ioMode, s₂⟩, hreset, htrack⟩ := Option.bind_eq_some_iff.mp htrack
        have hcalled := h.call LawfulConnection.reset.getFd hreset
        obtain ⟨c', -, rfl, -⟩ := call_eq hreset
        exact (hcalled.trackCnxIoMode (LawfulConnection.reset.exclusive c') htrack).1
      · rwa [← Option.some.inj htrack]
    exact htracked.unlessDead ht

/-- A new connection is in the table but has not been counted yet. -/
theorem Invariant.occupied (h : s.Invariant 0) (hobj : s.objects con = some c)
    (hsize : getFd c < s.manager.fdsetSize) (hfree : ¬ s.manager.Managed (getFd c)) :
    ({ s with manager := s.manager.occupied (getFd c) con } : CnxSystem C).Invariant 1 := by
  obtain ⟨lists, hlists⟩ := h.mirrors
  have hconnection : ∀ i con', ((s.manager.occupied (getFd c) con).items
      i).connection = some con' → i = getFd c ∧ con' = con ∨
        (s.manager.items i).connection = some con' := by
    intro i con' hc
    by_cases hi : i = getFd c
    · rw [hi, KssConnectionManager.occupied, setItem_self] at hc
      exact Or.inl ⟨hi, (Option.some.inj hc).symm⟩
    · rw [KssConnectionManager.occupied, setItem_of_ne _ hi] at hc
      exact Or.inr hc
  refine ⟨⟨_, hlists.occupied hfree hsize con⟩, ?_, fun i con' c' hc hobj' => ?_,
    fun i con' hc => ?_, h.object_lt⟩
  · have hnot : getFd c ∉ s.manager.managed :=
      fun hmem => hfree (Finset.mem_filter.mp hmem).2
    have hcount := h.count
    have hsame : (s.manager.occupied (getFd c) con).connectionCount =
        s.manager.connectionCount := rfl
    rw [hsame, managed_occupied hsize, Finset.card_insert_of_notMem hnot]
    omega
  · obtain ⟨rfl, rfl⟩ | hc := hconnection i con' hc
    · rw [Option.some.inj (hobj.symm.trans hobj')]
    · exact h.fd i con' c' hc hobj'
  · obtain ⟨-, rfl⟩ | hc := hconnection i con' hc
    · exact h.object_lt con' c hobj
    · exact h.lt_next i con' hc

/-- The new connection is counted. -/
theorem Invariant.counted (h : s.Invariant 1) : ({ s with manager := { s.manager with
    connectionCount := s.manager.connectionCount + 1 } } : CnxSystem C).Invariant 0 := by
  obtain ⟨lists, hlists⟩ := h.mirrors
  refine ⟨⟨lists, ⟨hlists.rings, hlists.sorted, hlists.active_iff, hlists.serviceable,
    hlists.readable_iff, hlists.writeable_iff, hlists.lt_size⟩⟩, ?_, h.fd, h.lt_next,
    h.object_lt⟩
  have hcount := h.count
  rw [add_zero]
  exact hcount

theorem Invariant.addConnection [LawfulConnection C Io] (h : s.Invariant 0)
    {rounds : List (Round Io)} {ok : Bool} (ha : s.addConnection con rounds = some (ok, s')) :
    s'.Invariant 0 := by
  obtain ⟨c, hobj, ha⟩ := Option.bind_eq_some_iff.mp ha
  rw [getConnectionItem] at ha
  by_cases hsize : getFd c < s.manager.fdsetSize
  · simp only [if_pos hsize] at ha
    by_cases hfree : (s.manager.items (getFd c)).connection.isSome = true
    · rw [if_pos hfree] at ha
      rwa [← (Prod.mk.inj (Option.some.inj ha)).2]
    · rw [if_neg hfree] at ha
      obtain ⟨s₁, htrack, ha⟩ := Option.bind_eq_some_iff.mp ha
      rw [← (Prod.mk.inj (Option.some.inj ha)).2]
      exact ((h.occupied hobj hsize hfree).trackCnxIoMode (LawfulConnection.getIoMode c)
        htrack).1.counted
  · simp only [if_neg hsize] at ha
    rwa [← (Prod.mk.inj (Option.some.inj ha)).2]

theorem Invariant.construct (h : s.Invariant 0) (c : C) : ({ s with
    objects := update s.objects s.next (some c), next := s.next + 1 } : CnxSystem C).Invariant
      0 := by
  have hobjects : ∀ con c', con ≠ s.next → update s.objects s.next (some c) con = some c' →
      s.objects con = some c' := by
    intro con c' hcon hobj
    rwa [update_of_ne hcon] at hobj
  refine ⟨h.mirrors, h.count, fun item con c' hc hobj => ?_, fun item con hc => ?_,
    fun con c' hobj => ?_⟩
  · have hcon : con ≠ s.next := (h.lt_next item con hc).ne
    exact h.fd item con c' hc (hobjects con c' hcon hobj)
  · exact Nat.lt_succ_of_lt (h.lt_next item con hc)
  · by_cases hcon : con = s.next
    · exact hcon ▸ Nat.lt_succ_self s.next
    · exact Nat.lt_succ_of_lt (h.object_lt con c' (hobjects con c' hcon hobj))

theorem change_eq (hc : s.change con c = some s') :
    ∃ old, s.objects con = some old ∧ getFd c = getFd old ∧
      isAutoDestroyable c = isAutoDestroyable old ∧
      s' = { s with objects := update s.objects con (some c) } := by
  obtain ⟨old, hold, hc⟩ := Option.bind_eq_some_iff.mp hc
  split_ifs at hc with hsame
  exact ⟨old, hold, hsame.1, hsame.2, (Option.some.inj hc).symm⟩

theorem Invariant.change (h : s.Invariant pending) (hc : s.change con c = some s') :
    s'.Invariant pending := by
  obtain ⟨old, hold, hfd, -, rfl⟩ := change_eq hc
  exact h.object con fun c' hc' => ⟨old, hold, Option.some.inj hc' ▸ hfd⟩

theorem Invariant.getNext (h : s.Invariant pending) {next : Option ℕ}
    (hn : s.getNextServiceableConnection = some (next, s')) : s'.Invariant pending := by
  obtain ⟨⟨next', m⟩, hm, hs'⟩ := Option.bind_eq_some_iff.mp hn
  rw [← (Prod.mk.inj (Option.some.inj hs')).2]
  obtain ⟨lists, hlists⟩ := h.mirrors
  obtain ⟨hmirrors, hsame⟩ := hlists.getNext hm
  exact h.manager hmirrors hsame

theorem Invariant.perform [LawfulConnection C Io] (h : s.Invariant 0) {op : Op C Io}
    (hp : s.perform op = some s') : s'.Invariant 0 := by
  cases op with
  | construct c =>
    rw [← Option.some.inj hp]
    exact h.construct c
  | change con c => exact h.change hp
  | addConnection con rounds =>
    obtain ⟨⟨ok, s₁⟩, ha, rfl⟩ := Option.map_eq_some_iff.mp hp
    exact h.addConnection ha
  | removeConnection con =>
    obtain ⟨⟨ok, s₁⟩, hr, rfl⟩ := Option.map_eq_some_iff.mp hp
    exact h.removeConnection hr
  | trackConnection con c rounds =>
    obtain ⟨s₀, hc, hp⟩ := Option.bind_eq_some_iff.mp hp
    obtain ⟨⟨ok, s₁⟩, ht, rfl⟩ := Option.map_eq_some_iff.mp hp
    exact (h.change hc).trackConnection ht
  | resetConnection con c rounds =>
    obtain ⟨s₀, hc, hp⟩ := Option.bind_eq_some_iff.mp hp
    obtain ⟨⟨ok, s₁⟩, ht, rfl⟩ := Option.map_eq_some_iff.mp hp
    exact (h.change hc).resetConnection ht
  | processConnections readables writeables readTurns writeTurns =>
    obtain ⟨s₁, hwrite, hread⟩ := Option.bind_eq_some_iff.mp hp
    exact (h.processFds LawfulConnection.send hwrite).processFds LawfulConnection.receive hread
  | processTimeout now turns => exact h.processTimeoutFrom hp
  | getNextServiceableConnection =>
    obtain ⟨⟨con, s₁⟩, hn, rfl⟩ := Option.map_eq_some_iff.mp hp
    exact h.getNext hn

/-- What holds after every call. -/
structure Mirrored (s : CnxSystem C) : Prop where
  mirrors : ∃ lists, s.manager.Mirrors lists
  count : s.manager.connectionCount = s.manager.managed.card
  fd : ∀ item con c, (s.manager.items item).connection = some con → s.objects con = some c →
    getFd c = item

/-- In every order of calls, lists and sets mirror the connections. -/
theorem run_mirrored [LawfulConnection C Io] {fdsetSize : ℕ} {ops : List (Op C Io)}
    (hrun : run step (some (create fdsetSize)) ops = some s) : s.Mirrored := by
  have hstep : ∀ (o : Option (CnxSystem C)) (op : Op C Io), (∀ s ∈ o, s.Invariant 0) →
      ∀ s ∈ step o op, s.Invariant 0 := by
    intro o op h s hs
    obtain ⟨s₀, rfl, hs⟩ := Option.bind_eq_some_iff.mp hs
    exact (h s₀ rfl).perform hs
  have hinv := run_invariant_of_step hstep ops
    (fun s hs => Option.some.inj hs ▸ create_invariant fdsetSize) s hrun
  exact ⟨hinv.mirrors, (add_zero _).symm.trans hinv.count, hinv.fd⟩

end CnxSystem
end AcpltKs
