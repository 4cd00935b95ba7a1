import AcpltKs.ConnectionMgr.Transports

/-! A connection that dies is destroyed by the manager, unless it dies in a fast write after which
nobody looks at its state again. -/
namespace AcpltKs
open Function GuardedRun KssConnectionManager ConnectionObject

variable {C Io : Type} [ConnectionObject C Io]

/-- The I/O mode tells whether the connection is dead. -/
structure Candid (f : C → ConnectionIoMode × C) : Prop where
  isAutoDestroyable : ∀ c, isAutoDestroyable (f c).2 = isAutoDestroyable c
  dead : ∀ c, (f c).1.dead = true ↔ getState (f c).2 = .dead

/-- Connections that the manager can find out to be dead. -/
class CandidConnection (C : Type) (Io : outParam Type) [ConnectionObject C Io] : Prop extends
    LawfulConnection C Io where
  candid_receive : ∀ io, Candid fun c : C => ConnectionObject.receive c io
  candid_send : ∀ io, Candid fun c : C => ConnectionObject.send c io
  candid_timedOut : Candid (ConnectionObject.timedOut : C → ConnectionIoMode × C)
  candid_reset : Candid (ConnectionObject.reset : C → ConnectionIoMode × C)
  timedOut_writeable : ∀ c : C, isAutoDestroyable c →
    (ConnectionObject.timedOut c).1.writeable = false

/-- The manager may not keep an auto-destroyable connection that is dead. -/
def Alive (c : C) : Prop := isAutoDestroyable c → getState c ≠ .dead

namespace CnxSystem

/-- The connection is in the table of the manager. -/
def Manages (s : CnxSystem C) (con : ℕ) : Prop :=
  ∃ item, (s.manager.items item).connection = some con

/-- A connection does not die in the fast write, if there is one. -/
def FastwriteSafe (last ioMode : ConnectionIoMode) (c : C) (rounds : List (Round Io)) : Prop :=
  wantsFastwrite last ioMode → ∀ round ∈ rounds.head?, Alive (send c round.io).2

/-- A connection that does not die in the call of its member function does not die in the fast
write after it either. -/
def TurnSafe (f : C → Io → ConnectionIoMode × C) (s : CnxSystem C) (item : ℕ) (turn : Turn Io) :
    Prop :=
  ∀ con c, (s.manager.items item).connection = some con → s.objects con = some c →
    (f c turn.io).1.dead = false →
    FastwriteSafe (s.manager.items item).lastIoMode (f c turn.io).1 (f c turn.io).2 turn.rounds

/-- One iteration of a loop over the file descriptors. -/
def iterate (f : C → Io → ConnectionIoMode × C) (fds : Finset ℕ) (turns : ℕ → Turn Io)
    (s : Option (CnxSystem C)) (fd : ℕ) : Option (CnxSystem C) :=
  s.bind fun s => if fd ∈ fds then s.serve f fd (turns fd) else some s

def LoopSafe (f : C → Io → ConnectionIoMode × C) (s : CnxSystem C) (fds : Finset ℕ)
    (turns : ℕ → Turn Io) : Prop :=
  Along (iterate f fds turns) (fun o fd => ∀ s ∈ o, fd ∈ fds → s.TurnSafe f fd (turns fd)) (some s)
    (List.range s.manager.fdsetSize)

/-- Another connection in the item of this one does not die in a fast write on its behalf. -/
def BystanderSafe (s : CnxSystem C) (con : ℕ) (c : C) (ioMode : ConnectionIoMode)
    (rounds : List (Round Io)) : Prop :=
  ∀ con' c', con' ≠ con → (s.manager.items (getFd c)).connection = some con' →
    s.objects con' = some c' →
    FastwriteSafe (s.manager.items (getFd c)).lastIoMode ioMode c' rounds

/-- No connection dies in a fast write that is not followed by a look at its state, and the user
neither adds a dead connection nor leaves one dead without a call that tracks or resets it. -/
def Safe (s : CnxSystem C) : Op C Io → Prop
  | .change con c => s.Manages con → Alive c
  | .addConnection con rounds => ∀ c, s.objects con = some c → getFd c < s.manager.fdsetSize →
      (s.manager.items (getFd c)).connection = none →
      Alive c ∧ FastwriteSafe {} (getIoMode c) c rounds
  | .trackConnection con c rounds => getState c ≠ .dead →
      s.BystanderSafe con c (getIoMode c) rounds
  | .resetConnection con c rounds => getState c ≠ .dead →
      s.BystanderSafe con c (reset c).1 rounds
  | .processConnections readables writeables readTurns writeTurns =>
      s.LoopSafe send writeables writeTurns ∧
        ∀ s' ∈ s.processFds send writeables writeTurns, s'.LoopSafe receive readables readTurns
  | _ => True

/-- What has been done to a connection so far, in this order. -/
def deeds (s : CnxSystem C) (con : ℕ) : List Deed := (s.log.filter (·.2 = con)).map Prod.fst

/-- What has to be done to a connection that is to go, and this once. -/
def burial : List Deed := [.shutDown, .deleted]

/-- After a call the manager keeps no auto-destroyable connection that is dead. One that it kept
before the call is alive after it, and nothing has been done to it, or it has been removed, shut
down once and deleted once. One that was gone before the call stays away, and nothing is done to it
any more. -/
structure Tidy (s s' : CnxSystem C) : Prop where
  managed : ∀ con, s'.Manages con → ∃ c, s'.objects con = some c ∧ Alive c
  buried : ∀ con, s.Manages con → s.deeds con = [] ∧
    ((∃ c, s'.objects con = some c ∧ Alive c ∧ s'.deeds con = []) ∨
      s'.objects con = none ∧ ¬ s'.Manages con ∧ s'.deeds con = burial)
  gone : ∀ con, con < s.next → s.objects con = none → s'.objects con = none ∧
    ¬ s'.Manages con ∧ s.deeds con = burial ∧ s'.deeds con = burial

variable {s s' s'' : CnxSystem C} {pending : ℤ} {item con : ℕ} {c : C}

/-- What has been done to a connection of which this is left. -/
def fate : Option C → List Deed
  | some _ => []
  | none => burial

/-- What holds in between: every connection that is managed is there, those that are managed or
watched are alive, those that are gone stay away, and those that have ever been there have been shut
down and deleted once if they are gone, and have not been if they are there. -/
structure Tended (watched away : ℕ → Prop) (s : CnxSystem C) : Prop where
  object : ∀ con, s.Manages con → ∃ c, s.objects con = some c
  alive : ∀ con c, watched con ∨ s.Manages con → s.objects con = some c → Alive c
  gone : ∀ con, away con → s.objects con = none
  born : ∀ con c, s.objects con = some c → con < s.next
  known : ∀ con, watched con ∨ away con → con < s.next
  deeds : ∀ con, con < s.next → s.deeds con = fate (s.objects con)
  future : ∀ con, s.next ≤ con → s.deeds con = []

/-- At most one connection is affected. -/
structure Affects (con : ℕ) (o : Option C) (done : List Deed) (s s' : CnxSystem C) : Prop where
  objects : s'.objects = update s.objects con o
  manages : ∀ con', s'.Manages con' → con' = con ∨ s.Manages con'
  next : s'.next = s.next
  log : s'.log = s.log ++ done.map (·, con)

theorem Affects.trans {o o' : Option C} {done done' : List Deed} (h : Affects con o done s s')
    (h' : Affects con o' done' s' s'') : Affects con o' (done ++ done') s s'' := by
  refine ⟨?_, fun con' hcon' => ?_, h'.next.trans h.next, ?_⟩
  · rw [h'.objects, h.objects, update_idem]
  · obtain hcon | hcon := h'.manages con' hcon'
    · exact Or.inl hcon
    · exact h.manages con' hcon
  · rw [h'.log, h.log, List.append_assoc, List.map_append]

theorem Affects.object {o : Option C} {done : List Deed} (h : Affects con o done s s') :
    s'.objects con = o := by
  rw [h.objects, update_self]

theorem Affects.deeds_self {o : Option C} {done : List Deed} (h : Affects con o done s s') :
    s'.deeds con = s.deeds con ++ done := by
  have hdone : ((done.map (·, con)).filter (·.2 = con)).map Prod.fst = done := by
    rw [List.filter_eq_self.mpr (by simp), List.map_map]
    exact List.map_id done
  rw [deeds, h.log, List.filter_append, List.map_append, hdone]
  rfl

theorem Affects.deeds_of_ne {o : Option C} {done : List Deed} (h : Affects con o done s s')
    {con' : ℕ} (hne : con' ≠ con) : s'.deeds con' = s.deeds con' := by
  have hdone : (done.map (·, con)).filter (·.2 = con') = [] := by
    simp [List.filter_eq_nil_iff, Ne.symm hne]
  rw [deeds, h.log, List.filter_append, hdone, List.append_nil]
  rfl

theorem affects_objects (s : CnxSystem C) (con : ℕ) (o : Option C) :
    Affects con o [] s { s with objects := update s.objects con o } :=
  ⟨rfl, fun _ => Or.inr, rfl, (List.append_nil _).symm⟩

theorem affects_manager (hobj : s.objects con = some c) {m : KssConnectionManager}
    (hm : ∀ item con', (m.items item).connection = some con' → con' = con ∨ s.Manages con') :
    Affects con (some c) [] s { s with manager := m } :=
  ⟨by rw [← hobj, update_eq_self], fun con' ⟨item, hitem⟩ => hm item con' hitem, rfl,
    (List.append_nil _).symm⟩

/-- What becomes of the connection must be alive if it is still of interest. -/
theorem Tended.affects {watched gone : ℕ → Prop} (h : Tended watched gone s) {o : Option C}
    (ha : Affects con o (fate o) s s') (hold : ∃ c, s.objects con = some c)
    (ho : ∀ c ∈ o, watched con ∨ s'.Manages con → Alive c) (hnone : o = none → ¬ s'.Manages con) :
    Tended watched gone s' := by
  constructor
  · intro con' hcon'
    by_cases hcon : con' = con
    · rw [hcon, ha.object]
      exact Option.ne_none_iff_exists'.mp fun hno => hnone hno (hcon ▸ hcon')
    · rw [ha.objects, update_of_ne hcon]
      exact h.object con' ((ha.manages con' hcon').resolve_left hcon)
  · intro con' c hcon' hobj
    by_cases hcon : con' = con
    · subst hcon
      exact ho c (ha.object.symm.trans hobj) hcon'
    · rw [ha.objects, update_of_ne hcon] at hobj
      exact h.alive con' c (hcon'.imp_right fun hm => (ha.manages con' hm).resolve_left hcon) hobj
  · intro con' hgone
    obtain ⟨c, hobj⟩ := hold
    have hcon : con' ≠ con := by
      rintro rfl
      exact absurd ((h.gone con' hgone).symm.trans hobj) (by simp)
    rw [ha.objects, update_of_ne hcon]
    exact h.gone con' hgone
  · intro con' c hobj
    rw [ha.next]
    by_cases hcon : con' = con
    · obtain ⟨old, hold⟩ := hold
      exact hcon ▸ h.born con old hold
    · rw [ha.objects, update_of_ne hcon] at hobj
      exact h.born con' c hobj
  · intro con' hcon'
    rw [ha.next]
    exact h.known con' hcon'
  · intro con' hlt
    rw [ha.next] at hlt
    have hdeeds := h.deeds con' hlt
    by_cases hcon : con' = con
    · subst hcon
      obtain ⟨c, hobj⟩ := hold
      rw [ha.deeds_self, ha.object, hdeeds, hobj]
      rfl
    · rw [ha.deeds_of_ne hcon, ha.objects, update_of_ne hcon, hdeeds]
  · intro con' hle
    rw [ha.next] at hle
    obtain ⟨c, hobj⟩ := hold
    have hcon : con' ≠ con := ((h.born con c hobj).trans_le hle).ne'
    rw [ha.deeds_of_ne hcon, h.future con' hle]

theorem call_affects {α : Type} {f : C → α × C} {a : α} (hobj : s.objects con = some c)
    (hc : s.call con f = some (a, s')) : a = (f c).1 ∧ Affects con (some (f c).2) [] s s' := by
  obtain ⟨c', hobj', rfl, rfl⟩ := call_eq hc
  obtain rfl := Option.some.inj (hobj.symm.trans hobj')
  exact ⟨rfl, affects_objects s con _⟩

/-- The connection after the fast write, if there is one. -/
def fastWritten (last ioMode : ConnectionIoMode) (c : C) : List (Round Io) → C
  | [] => c
  | round :: _ => if wantsFastwrite last ioMode then (send c round.io).2 else c

theorem alive_fastWritten {last ioMode : ConnectionIoMode} {rounds : List (Round Io)}
    (h : FastwriteSafe last ioMode c rounds) (hc : Alive c) :
    Alive (fastWritten last ioMode c rounds) := by
  cases rounds with
  | nil => exact hc
  | cons round rounds =>
    rw [fastWritten]
    split_ifs with hfast
    · exact h hfast round rfl
    · exact hc

theorem wantsFastwrite_again (last ioMode : ConnectionIoMode) (h : wantsFastwrite last ioMode)
    (next : ConnectionIoMode) : wantsFastwrite ioMode next = false := by
  have hwriteable : ioMode.writeable = true := by
    simp only [wantsFastwrite, Bool.and_eq_true] at h
    exact h.1.1
  simp [wantsFastwrite, hwriteable]

/-- There is at most one fast write, and nothing else is done to the connection. -/
theorem Invariant.trackCnxIoMode_affects [LawfulConnection C Io] (h : s.Invariant pending)
    (hcon : (s.manager.items item).connection = some con) (hobj : s.objects con = some c)
    {ioMode : ConnectionIoMode} (hmode : ioMode.Exclusive) {rounds : List (Round Io)}
    (ht : s.trackCnxIoMode item ioMode rounds = some s') :
    Affects con (some (fastWritten (s.manager.items item).lastIoMode ioMode c rounds)) [] s s' ∧
      (s'.manager.items item).connection = some con := by
  obtain ⟨round, rest, con₁, c₁, m, rfl, hcon₁, hobj₁, -, hinv, hsame, hlast, ht⟩ :=
    h.trackRound hmode ht
  obtain rfl := Option.some.inj (hcon.symm.trans hcon₁)
  obtain rfl := Option.some.inj (hobj.symm.trans hobj₁)
  have hm : Affects con (some c) [] s { s with manager := m } :=
    affects_manager hobj fun i con' hi => Or.inr ⟨i, (hsame.connection i).symm.trans hi⟩
  have hmanaged : (m.items item).connection = some con := (hsame.connection item).trans hcon
  rw [fastWritten]
  split_ifs at ht ⊢ with hfast
  · have hsend := LawfulConnection.send (C := C) round.io
    have hcalled := hinv.object con fun c' hc' =>
      ⟨c, hobj, (congrArg getFd (Option.some.inj hc').symm).trans (hsend.getFd c)⟩
    obtain ⟨_, _, _, _, m', rfl, hcon₂, hobj₂, -, -, hsame', -, ht⟩ :=
      hcalled.trackRound (hsend.exclusive c) ht
    obtain rfl := Option.some.inj (hmanaged.symm.trans hcon₂)
    rw [hlast, if_pos rfl, wantsFastwrite_again _ _ hfast] at ht
    simp only [Bool.false_eq_true, ↓reduceIte] at ht
    rw [← ht]
    refine ⟨(hm.trans (affects_objects _ con _)).trans (affects_manager (update_self ..) ?_), ?_⟩
    · exact fun i con' hi => Or.inr ⟨i, (hsame'.connection i).symm.trans hi⟩
    · exact (hsame'.connection item).trans hmanaged
  · rw [← ht]
    exact ⟨hm, hmanaged⟩

/-- A connection that has been removed is no longer managed. -/
theorem Invariant.removeConnection_affects (h : s.Invariant pending) {ok : Bool}
    (hobj : s.objects con = some c) (hr : s.removeConnection con = some (ok, s')) :
    Affects con (some c) [] s s' ∧ ¬ s'.Manages con := by
  obtain ⟨c', hobj', rfl⟩ := removeConnection_eq hr
  obtain rfl := Option.some.inj (hobj.symm.trans hobj')
  obtain ⟨lists, hlists⟩ := h.mirrors
  have hitem : ∀ item, (s.manager.items item).connection = some con → item = getFd c :=
    fun item hcon => (h.fd item con c hcon hobj).symm
  obtain ⟨hm, heq⟩ | ⟨hm, heq⟩ := manager_removeConnection s.manager (getFd c)
  · rw [heq]
    refine ⟨affects_manager hobj fun i con' hi => Or.inr ⟨i, (vacated_connection hi).2⟩, ?_⟩
    rintro ⟨i, hi⟩
    obtain ⟨hne, hcon⟩ := vacated_connection hi
    exact hne (hitem i hcon)
  · rw [heq]
    refine ⟨affects_manager hobj fun i con' hi => Or.inr ⟨i, hi⟩, ?_⟩
    rintro ⟨i, hi⟩
    have hmanaged := h.managed_of_connection hi
    rw [hitem i hi] at hmanaged
    exact hm (hlists.lt_size _ hmanaged) hmanaged

theorem shutDown_affects (hobj : s.objects con = some c) (hs : s.shutDown con = some s') :
    Affects con (some (shutdown c)) [.shutDown] s s' ∧ s'.manager = s.manager := by
  obtain ⟨c', hobj', rfl⟩ := shutDown_eq hs
  obtain rfl := Option.some.inj (hobj.symm.trans hobj')
  exact ⟨⟨rfl, fun _ => Or.inr, rfl, rfl⟩, rfl⟩

theorem delete_affects (s : CnxSystem C) (con : ℕ) :
    Affects con none [.deleted] s (s.delete con) :=
  ⟨rfl, fun _ => Or.inr, rfl, rfl⟩

theorem Invariant.destroy_affects (h : s.Invariant pending) (hobj : s.objects con = some c)
    (hd : s.destroy con = some s') : Affects con none burial s s' ∧ ¬ s'.Manages con := by
  obtain ⟨⟨ok, s₁⟩, hremove, hd⟩ := Option.bind_eq_some_iff.mp hd
  obtain ⟨s₂, hcall, hd⟩ := Option.bind_eq_some_iff.mp hd
  obtain ⟨hremoved, hnot⟩ := h.removeConnection_affects hobj hremove
  obtain ⟨hshut, hmanager⟩ := shutDown_affects hremoved.object hcall
  rw [← Option.some.inj hd]
  refine ⟨(hremoved.trans hshut).trans (delete_affects s₂ con), ?_⟩
  rw [Manages, CnxSystem.delete, hmanager]
  exact hnot

theorem fastWritten_isAutoDestroyable [CandidConnection C Io] (last ioMode : ConnectionIoMode)
    (c : C) (rounds : List (Round Io)) :
    isAutoDestroyable (fastWritten last ioMode c rounds) = isAutoDestroyable c := by
  cases rounds with
  | nil => rfl
  | cons round rounds =>
    rw [fastWritten]
    split_ifs
    · exact (CandidConnection.candid_send round.io).isAutoDestroyable c
    · rfl

theorem alive_of_not_auto (h : isAutoDestroyable c = false) : Alive c :=
  fun hauto => absurd (h.symm.trans hauto) (by simp)

/-- A connection that is dead after its turn has been destroyed, unless the manager may not destroy
it. -/
theorem Invariant.serve_affects [CandidConnection C Io] (h : s.Invariant pending)
    {f : C → Io → ConnectionIoMode × C} (hf : ∀ io, Proper fun c => f c io)
    (hcandid : ∀ io, Candid fun c => f c io) {turn : Turn Io} (hsafe : s.TurnSafe f item turn)
    (hs : s.serve f item turn = some s') :
    ∃ con c o, s.objects con = some c ∧ Affects con o (fate o) s s' ∧ (∀ c ∈ o, Alive c) ∧
      (o = none → ¬ s'.Manages con) := by
  obtain ⟨con, hcon, hs⟩ := Option.bind_eq_some_iff.mp hs
  obtain ⟨⟨ioMode, s₁⟩, hcall, hrest⟩ := Option.bind_eq_some_iff.mp hs
  obtain ⟨c, hobj, rfl, rfl⟩ := call_eq hcall
  obtain ⟨s₂, htrack, hs⟩ := Option.bind_eq_some_iff.mp hrest
  have hcalled := h.call (hf turn.io).getFd hcall
  have hmode := (hf turn.io).exclusive c
  obtain ⟨haffects, hcon₂⟩ := hcalled.trackCnxIoMode_affects hcon (update_self ..) hmode htrack
  have htracked := (hcalled.trackCnxIoMode hmode htrack).1
  have haffected := (affects_objects s con (some (f c turn.io).2)).trans haffects
  simp only at hs
  split_ifs at hs with hdead
  · obtain ⟨c₂, hobj₂, hs⟩ := Option.bind_eq_some_iff.mp hs
    split_ifs at hs with hauto
    · obtain ⟨hdestroyed, hnot⟩ := htracked.destroy_affects hobj₂ hs
      exact ⟨con, c, none, hobj, haffected.trans hdestroyed, by simp, fun _ => hnot⟩
    · obtain ⟨⟨ioMode', s₃⟩, hreset, hs⟩ := Option.bind_eq_some_iff.mp hs
      have hcalled₃ := htracked.call LawfulConnection.reset.getFd hreset
      obtain ⟨c₂', hobj₂', rfl, rfl⟩ := call_eq hreset
      obtain rfl := Option.some.inj (hobj₂.symm.trans hobj₂')
      obtain ⟨hagain, -⟩ := hcalled₃.trackCnxIoMode_affects hcon₂ (update_self ..)
        (LawfulConnection.reset.exclusive c₂) hs
      have hnot : isAutoDestroyable (reset c₂).2 = false :=
        (CandidConnection.candid_reset.isAutoDestroyable c₂).trans (Bool.not_eq_true _ ▸ hauto)
      refine ⟨con, c, _, hobj, (haffected.trans (affects_objects s₂ con _)).trans hagain, ?_, ?_⟩
      · intro c₃ hc₃
        rw [← Option.some.inj hc₃]
        exact alive_of_not_auto ((fastWritten_isAutoDestroyable ..).trans hnot)
      · exact fun hno => absurd hno (by simp)
  · rw [← Option.some.inj hs]
    refine ⟨con, c, _, hobj, haffected, ?_, fun hno => absurd hno (by simp)⟩
    intro c₂ hc₂
    rw [← Option.some.inj hc₂]
    have hmode : (f c turn.io).1.dead = false := Bool.not_eq_true _ ▸ hdead
    exact alive_fastWritten (hsafe con c hcon hobj hmode)
      fun _ hstate => hdead (((hcandid turn.io).dead c).mpr hstate)

theorem Tended.serve [CandidConnection C Io] {watched gone : ℕ → Prop}
    (ht : Tended watched gone s) (h : s.Invariant pending) {f : C → Io → ConnectionIoMode × C}
    (hf : ∀ io, Proper fun c => f c io) (hcandid : ∀ io, Candid fun c => f c io) {turn : Turn Io}
    (hsafe : s.TurnSafe f item turn) (hs : s.serve f item turn = some s') :
    Tended watched gone s' := by
  obtain ⟨con, c, o, hobj, haffects, halive, hnone⟩ := h.serve_affects hf hcandid hsafe hs
  exact ht.affects haffects ⟨c, hobj⟩ (fun c hc _ => halive c hc) hnone

theorem processFds_eq_run (f : C → Io → ConnectionIoMode × C) (fds : Finset ℕ)
    (turns : ℕ → Turn Io) (s : CnxSystem C) : s.processFds f fds turns =
      run (iterate f fds turns) (some s) (List.range s.manager.fdsetSize) := by
  have hnone : ∀ l : List ℕ, run (iterate f fds turns) (none : Option (CnxSystem C)) l = none := by
    intro l
    induction l with
    | nil => rfl
    | cons fd l ih => exact ih
  rw [processFds]
  generalize List.range s.manager.fdsetSize = l
  induction l generalizing s with
  | nil => rfl
  | cons fd l ih =>
    rw [List.foldlM_cons, run_cons, iterate, Option.bind_some]
    generalize (if fd ∈ fds then s.serve f fd (turns fd) else some s) = o
    cases o with
    | none => exact (hnone l).symm
    | some s₁ => exact ih s₁

theorem Tended.processFds [CandidConnection C Io] {watched gone : ℕ → Prop}
    (ht : Tended watched gone s) (h : s.Invariant pending) {f : C → Io → ConnectionIoMode × C}
    (hf : ∀ io, Proper fun c => f c io) (hcandid : ∀ io, Candid fun c => f c io)
    {fds : Finset ℕ} {turns : ℕ → Turn Io} (hsafe : s.LoopSafe f fds turns)
    (hp : s.processFds f fds turns = some s') : Tended watched gone s' := by
  rw [processFds_eq_run] at hp
  have hinv := run_invariant (I := fun o : Option (CnxSystem C) =>
    ∀ s ∈ o, s.Invariant pending ∧ Tended watched gone s) (fun o fd ho hsafe s₂ hs₂ => ?_)
    (fun s₁ hs₁ => Option.some.inj hs₁ ▸ ⟨h, ht⟩) hsafe
  · exact (hinv s' hp).2
  · obtain ⟨s₁, hs₁, hs₂⟩ := Option.bind_eq_some_iff.mp hs₂
    obtain ⟨hinv₁, ht₁⟩ := ho s₁ hs₁
    split_ifs at hs₂ with hfd
    · exact ⟨hinv₁.serve hf hs₂, ht₁.serve hinv₁ hf hcandid (hsafe s₁ hs₁ hfd) hs₂⟩
    · rw [← Option.some.inj hs₂]
      exact ⟨hinv₁, ht₁⟩

/-- A connection that timed out does not write at once. -/
theorem turnSafe_timedOut [CandidConnection C Io] (s : CnxSystem C) (item : ℕ) (turn : Turn Io) :
    s.TurnSafe (fun c (_ : Io) => timedOut c) item turn := by
  intro con c hcon hobj hdead hfast round hround
  by_cases hauto : isAutoDestroyable c = true
  · simp [wantsFastwrite, CandidConnection.timedOut_writeable c hauto] at hfast
  · refine alive_of_not_auto ?_
    rw [(CandidConnection.candid_send round.io).isAutoDestroyable,
      CandidConnection.candid_timedOut.isAutoDestroyable]
    exact Bool.not_eq_true _ ▸ hauto

theorem Tended.processTimeoutFrom [CandidConnection C Io] {watched gone : ℕ → Prop}
    (ht : Tended watched gone s) (h : s.Invariant pending) {now : ℤ} {node : CnxList ⊕ ℕ}
    {turns : List (Turn Io)} (hp : s.processTimeoutFrom now node turns = some s') :
    Tended watched gone s' := by
  induction turns generalizing s node with
  | nil =>
    obtain (_ | _) | item := node
    · rwa [← Option.some.inj hp]
    · exact absurd hp (by simp [CnxSystem.processTimeoutFrom])
    · exact absurd hp (by simp [CnxSystem.processTimeoutFrom])
  | cons turn turns ih =>
    obtain (_ | _) | item := node
    · rwa [← Option.some.inj hp]
    · exact absurd hp (by simp [CnxSystem.processTimeoutFrom])
    · rw [CnxSystem.processTimeoutFrom] at hp
      split_ifs at hp
      · obtain ⟨s₁, hserve, hp⟩ := Option.bind_eq_some_iff.mp hp
        have hproper : Io → Proper (timedOut : C → ConnectionIoMode × C) :=
          fun _ => LawfulConnection.timedOut
        exact ih (ht.serve h hproper (fun _ => CandidConnection.candid_timedOut)
          (turnSafe_timedOut s item turn) hserve) (h.serve hproper hserve) hp
      · rwa [← Option.some.inj hp]

/-- After the second look at its state a connection is alive or deleted, or may not be destroyed. -/
theorem Invariant.unlessDead_affects [LawfulConnection C Io] (h : s.Invariant pending)
    (hobj : s.objects con = some c) {ok : Bool} (hu : s.unlessDead con = some (ok, s')) :
    ∃ o, Affects con o (fate o) s s' ∧ (∀ c' ∈ o, Alive c') ∧ (o = none → ¬ s'.Manages con) ∧
      (ok = false → o = some c ∧ isAutoDestroyable c = false) := by
  obtain ⟨c', hobj', hu⟩ := Option.bind_eq_some_iff.mp hu
  obtain rfl := Option.some.inj (hobj.symm.trans hobj')
  have hsame : Affects con (some c) [] s s := affects_manager hobj fun i con' hi => Or.inr ⟨i, hi⟩
  split_ifs at hu with hstate hauto
  · obtain ⟨rfl, rfl⟩ := Prod.mk.inj (Option.some.inj hu)
    refine ⟨some c, hsame, fun c' hc' _ => ?_, fun hno => absurd hno (by simp),
      fun hok => absurd hok (by simp)⟩
    rwa [← Option.some.inj hc']
  · obtain ⟨s₁, hcall, hu⟩ := Option.bind_eq_some_iff.mp hu
    obtain ⟨⟨_, s₂⟩, hremove, hu⟩ := Option.bind_eq_some_iff.mp hu
    obtain ⟨rfl, rfl⟩ := Prod.mk.inj (Option.some.inj hu)
    obtain ⟨hshut, -⟩ := shutDown_affects hobj hcall
    obtain ⟨hremoved, hnot⟩ :=
      (h.shutDown hcall).removeConnection_affects hshut.object hremove
    exact ⟨none, (hshut.trans hremoved).trans (delete_affects s₂ con), by simp, fun _ => hnot,
      fun hok => absurd hok (by simp)⟩
  · obtain ⟨rfl, rfl⟩ := Prod.mk.inj (Option.some.inj hu)
    have hnot : isAutoDestroyable c = false := Bool.not_eq_true _ ▸ hauto
    refine ⟨some c, hsame, fun c' hc' => ?_, fun hno => absurd hno (by simp),
      fun _ => ⟨rfl, hnot⟩⟩
    rw [← Option.some.inj hc']
    exact alive_of_not_auto hnot

/-- Tracking affects the connection in the item, which need not be the one that is tracked. -/
theorem Tended.track_affects [CandidConnection C Io] {watched gone : ℕ → Prop}
    (ht : Tended watched gone s) {old : C} (hold : s.objects con = some old)
    (h : ({ s with objects := update s.objects con (some c) } : CnxSystem C).Invariant pending)
    (hitem : s.manager.Managed item) {ioMode : ConnectionIoMode} (hmode : ioMode.Exclusive)
    {rounds : List (Round Io)} (hsafe : ∀ con' c', con' ≠ con →
      (s.manager.items item).connection = some con' → s.objects con' = some c' →
      FastwriteSafe (s.manager.items item).lastIoMode ioMode c' rounds)
    (htrack : ({ s with objects := update s.objects con (some c) } :
      CnxSystem C).trackCnxIoMode item ioMode rounds = some s') :
    ∃ s₀ c', Tended watched gone s₀ ∧ (∃ old, s₀.objects con = some old) ∧
      Affects con (some c') [] s₀ s' ∧ isAutoDestroyable c' = isAutoDestroyable c := by
  obtain ⟨con₁, hcon₁⟩ := Option.isSome_iff_exists.mp hitem
  by_cases hcon : con₁ = con
  · subst hcon
    obtain ⟨haffects, -⟩ := h.trackCnxIoMode_affects hcon₁ (update_self ..) hmode htrack
    exact ⟨s, _, ht, ⟨old, hold⟩, (affects_objects s con₁ _).trans haffects,
      fastWritten_isAutoDestroyable ..⟩
  · obtain ⟨c₁, hobj₁⟩ := ht.object con₁ ⟨item, hcon₁⟩
    have hobj₁' : update s.objects con (some c) con₁ = some c₁ := by rwa [update_of_ne hcon]
    obtain ⟨haffects, -⟩ := h.trackCnxIoMode_affects hcon₁ hobj₁' hmode htrack
    have hwritten := alive_fastWritten (hsafe con₁ c₁ hcon hcon₁ hobj₁)
      (ht.alive con₁ c₁ (Or.inr ⟨item, hcon₁⟩) hobj₁)
    generalize fastWritten _ _ c₁ rounds = c₂ at haffects hwritten
    have hother : Affects con₁ (some c₂) [] s
        { s' with objects := update s.objects con₁ (some c₂) } :=
      ⟨rfl, haffects.manages, haffects.next, haffects.log⟩
    refine ⟨_, c, ht.affects hother ⟨c₁, hobj₁⟩ ?_ fun hno => absurd hno (by simp), ⟨old, ?_⟩,
      ⟨?_, fun _ => Or.inr, rfl, (List.append_nil _).symm⟩, rfl⟩
    · intro c' hc' _
      rwa [← Option.some.inj hc']
    · exact (update_of_ne (Ne.symm hcon) ..).trans hold
    · rw [haffects.objects]
      exact update_comm (Ne.symm hcon) ..

theorem not_manages_of_itemOf (h : s.Invariant pending) (ho : s.itemOf con = some none) :
    ¬ s.Manages con := by
  rintro ⟨item, hcon⟩
  obtain ⟨c, hobj, ho⟩ := Option.bind_eq_some_iff.mp ho
  obtain ⟨lists, hlists⟩ := h.mirrors
  have hmanaged := h.managed_of_connection hcon
  rw [h.fd item con c hcon hobj, getConnectionItem, if_pos (hlists.lt_size item hmanaged)] at ho
  have hnone := Option.filter_eq_none_iff.mp (Option.some.inj ho) item rfl
  exact hnone hmanaged

theorem Tended.trackConnection [CandidConnection C Io] {watched gone : ℕ → Prop}
    (ht : Tended watched gone s) (h : s.Invariant pending)
    (hwatched : ∀ con, watched con → s.Manages con) (hc : s.change con c = some s')
    {rounds : List (Round Io)}
    (hsafe : getState c ≠ .dead → s.BystanderSafe con c (getIoMode c) rounds) {ok : Bool}
    (hp : s'.trackConnection con rounds = some (ok, s'')) : Tended watched gone s'' := by
  have h' := h.change hc
  obtain ⟨old, hold, -, -, rfl⟩ := change_eq hc
  obtain ⟨o, hitem, hp⟩ := Option.bind_eq_some_iff.mp hp
  cases o with
  | none =>
    rw [← (Prod.mk.inj (Option.some.inj hp)).2]
    have hnot := not_manages_of_itemOf h' hitem
    refine ht.affects (affects_objects s con (some c)) ⟨old, hold⟩ (fun c' _ hcon => ?_)
      fun hno => absurd hno (by simp)
    exact absurd (hcon.elim (hwatched con) id) hnot
  | some item =>
    have hself : update s.objects con (some c) con = some c := update_self ..
    obtain ⟨c₀, hobj₀, hmanaged⟩ := itemOf_eq hitem
    obtain rfl := Option.some.inj (hself.symm.trans hobj₀)
    obtain ⟨rfl, hmanaged⟩ := hmanaged item rfl
    obtain ⟨c', hobj, hp⟩ := Option.bind_eq_some_iff.mp hp
    obtain rfl := Option.some.inj (hself.symm.trans hobj)
    obtain ⟨s₁, htrack, hp⟩ := Option.bind_eq_some_iff.mp hp
    obtain ⟨⟨ok', s₂⟩, hdead, hp⟩ := Option.bind_eq_some_iff.mp hp
    have htracked : s₁.Invariant pending ∧ ∃ s₀ c', Tended watched gone s₀ ∧
        (∃ old, s₀.objects con = some old) ∧ Affects con (some c') [] s₀ s₁ := by
      split_ifs at htrack with hstate
      · obtain ⟨s₀, c', ht₀, hold₀, ha, -⟩ := ht.track_affects hold h' hmanaged
          (LawfulConnection.getIoMode c) (hsafe hstate) htrack
        exact ⟨(h'.trackCnxIoMode (LawfulConnection.getIoMode c) htrack).1, s₀, c', ht₀, hold₀, ha⟩
      · rw [← Option.some.inj htrack]
        exact ⟨h', s, c, ht, ⟨old, hold⟩, affects_objects s con _⟩
    obtain ⟨h₁, s₀, c', ht₀, hold₀, ha⟩ := htracked
    obtain ⟨o, ha', halive, hnone, hfailed⟩ := h₁.unlessDead_affects ha.object hdead
    simp only at hp
    split_ifs at hp with hok
    · rw [← (Prod.mk.inj (Option.some.inj hp)).2]
      exact ht₀.affects (ha.trans ha') hold₀ (fun c hc _ => halive c hc) hnone
    · obtain ⟨rfl, hnot⟩ := hfailed (Bool.not_eq_true _ ▸ hok)
      obtain ⟨⟨ioMode, s₃⟩, hreset, hp⟩ := Option.bind_eq_some_iff.mp hp
      rw [← (Prod.mk.inj (Option.some.inj hp)).2]
      obtain ⟨-, ha''⟩ := call_affects ha'.object hreset
      refine ht₀.affects ((ha.trans ha').trans ha'') hold₀ (fun c hc _ => ?_)
        fun hno => absurd hno (by simp)
      rw [← Option.some.inj hc]
      exact alive_of_not_auto ((CandidConnection.candid_reset.isAutoDestroyable c').trans hnot)

theorem Tended.resetConnection [CandidConnection C Io] {watched gone : ℕ → Prop}
    (ht : Tended watched gone s) (h : s.Invariant pending)
    (hwatched : ∀ con, watched con → s.Manages con) (hc : s.change con c = some s')
    {rounds : List (Round Io)}
    (hsafe : getState c ≠ .dead → s.BystanderSafe con c (reset c).1 rounds) {ok : Bool}
    (hp : s'.resetConnection con rounds = some (ok, s'')) : Tended watched gone s'' := by
  have h' := h.change hc
  obtain ⟨old, hold, -, -, rfl⟩ := change_eq hc
  have hself : update s.objects con (some c) con = some c := update_self ..
  obtain ⟨o, hitem, hp⟩ := Option.bind_eq_some_iff.mp hp
  cases o with
  | none =>
    rw [← (Prod.mk.inj (Option.some.inj hp)).2]
    have hnot := not_manages_of_itemOf h' hitem
    refine ht.affects (affects_objects s con (some c)) ⟨old, hold⟩ (fun c' _ hcon => ?_)
      fun hno => absurd hno (by simp)
    exact absurd (hcon.elim (hwatched con) id) hnot
  | some item =>
    obtain ⟨c₀, hobj₀, hmanaged⟩ := itemOf_eq hitem
    obtain rfl := Option.some.inj (hself.symm.trans hobj₀)
    obtain ⟨rfl, hmanaged⟩ := hmanaged item rfl
    obtain ⟨c', hobj, hp⟩ := Option.bind_eq_some_iff.mp hp
    obtain rfl := Option.some.inj (hself.symm.trans hobj)
    obtain ⟨s₁, htrack, hdead⟩ := Option.bind_eq_some_iff.mp hp
    have htracked : s₁.Invariant pending ∧ ∃ s₀ c', Tended watched gone s₀ ∧
        (∃ old, s₀.objects con = some old) ∧ Affects con (some c') [] s₀ s₁ := by
      split_ifs at htrack with hstate
      · obtain ⟨⟨ioMode, s₂⟩, hreset, htrack⟩ := Option.bind_eq_some_iff.mp htrack
        have hcalled := h'.call LawfulConnection.reset.getFd hreset
        obtain ⟨c₂, hobj₂, rfl, rfl⟩ := call_eq hreset
        obtain rfl := Option.some.inj (hself.symm.trans hobj₂)
        have hmode := LawfulConnection.reset.exclusive c
        simp only [update_idem] at hcalled htrack
        obtain ⟨s₀, c', ht₀, hold₀, ha, -⟩ := ht.track_affects hold hcalled hmanaged hmode
          (hsafe hstate) htrack
        exact ⟨(hcalled.trackCnxIoMode hmode htrack).1, s₀, c', ht₀, hold₀, ha⟩
      · rw [← Option.some.inj htrack]
        exact ⟨h', s, c, ht, ⟨old, hold⟩, affects_objects s con _⟩
    obtain ⟨h₁, s₀, c', ht₀, hold₀, ha⟩ := htracked
    obtain ⟨o, ha', halive, hnone, -⟩ := h₁.unlessDead_affects ha.object hdead
    exact ht₀.affects (ha.trans ha') hold₀ (fun c hc _ => halive c hc) hnone

theorem Tended.addConnection [CandidConnection C Io] {watched gone : ℕ → Prop}
    (ht : Tended watched gone s) (h : s.Invariant 0) {rounds : List (Round Io)}
    (hsafe : s.Safe (.addConnection con rounds)) {ok : Bool}
    (ha : s.addConnection con rounds = some (ok, s')) : Tended watched gone s' := by
  obtain ⟨c, hobj, ha⟩ := Option.bind_eq_some_iff.mp ha
  rw [getConnectionItem] at ha
  by_cases hsize : getFd c < s.manager.fdsetSize
  · simp only [if_pos hsize] at ha
    by_cases hfree : (s.manager.items (getFd c)).connection.isSome = true
    · rw [if_pos hfree] at ha
      rwa [← (Prod.mk.inj (Option.some.inj ha)).2]
    · rw [if_neg hfree] at ha
      obtain ⟨s₁, htrack, ha⟩ := Option.bind_eq_some_iff.mp ha
      rw [← (Prod.mk.inj (Option.some.inj ha)).2]
      obtain ⟨halive, hfast⟩ := hsafe c hobj hsize (Option.not_isSome_iff_eq_none.mp hfree)
      have hadded : Affects con (some c) [] s
          { s with manager := s.manager.occupied (getFd c) con } := by
        refine affects_manager hobj fun i con' hi => ?_
        by_cases hitem : i = getFd c
        · rw [hitem, occupied, setItem_self] at hi
          exact Or.inl (Option.some.inj hi).symm
        · rw [occupied, setItem_of_ne _ hitem] at hi
          exact Or.inr ⟨i, hi⟩
      have hitem : (s.manager.occupied (getFd c) con).items (getFd c) =
          { s.manager.items (getFd c) with connection := some con, lastIoMode := {} } :=
        setItem_self ..
      obtain ⟨haffects, -⟩ := (h.occupied hobj hsize hfree).trackCnxIoMode_affects
        (congrArg KssConnectionItem.connection hitem) hobj (LawfulConnection.getIoMode c) htrack
      have hboth := hadded.trans haffects
      have hcounted : Affects con _ [] s { s₁ with manager := { s₁.manager with
          connectionCount := s₁.manager.connectionCount + 1 } } :=
        ⟨hboth.objects, hboth.manages, hboth.next, hboth.log⟩
      refine ht.affects hcounted ⟨c, hobj⟩ (fun c' hc' _ => ?_) fun hno => absurd hno (by simp)
      rw [← Option.some.inj hc']
      refine alive_fastWritten ?_ halive
      rwa [congrArg KssConnectionItem.lastIoMode hitem]
  · simp only [if_neg hsize] at ha
    rwa [← (Prod.mk.inj (Option.some.inj ha)).2]

/-- The connections that were managed before a call are watched during the call, and those that
were gone stay away. -/
theorem Tended.perform [CandidConnection C Io]
    (ht : Tended s.Manages (fun con => con < s.next ∧ s.objects con = none) s)
    (h : s.Invariant 0) {op : Op C Io} (hsafe : s.Safe op) (hp : s.perform op = some s') :
    Tended s.Manages (fun con => con < s.next ∧ s.objects con = none) s' := by
  cases op with
  | construct c =>
    rw [← Option.some.inj hp]
    have hne : ∀ con, s.Manages con → con ≠ s.next := fun con ⟨item, hcon⟩ =>
      (h.lt_next item con hcon).ne
    refine ⟨fun con hcon => ?_, fun con c' hcon hobj => ?_, fun con hgone => ?_,
      fun con c' hobj => ?_, fun con hcon => (ht.known con hcon).trans (Nat.lt_succ_self _),
      fun con hlt => ?_, fun con hle => ht.future con ((Nat.le_succ _).trans hle)⟩
    · obtain ⟨c', hobj⟩ := ht.object con hcon
      exact ⟨c', (update_of_ne (hne con hcon) ..).trans hobj⟩
    · have hcon' : s.Manages con := hcon.elim id id
      exact ht.alive con c' hcon ((update_of_ne (hne con hcon') ..).symm.trans hobj)
    · exact (update_of_ne hgone.1.ne ..).trans hgone.2
    · by_cases hcon : con = s.next
      · exact hcon ▸ Nat.lt_succ_self s.next
      · exact (ht.born con c' ((update_of_ne hcon ..).symm.trans hobj)).trans (Nat.lt_succ_self _)
    · by_cases hcon : con = s.next
      · subst hcon
        have hnew : fate (update s.objects s.next (some c) s.next) = [] := by
          rw [update_self]
          rfl
        exact (ht.future s.next le_rfl).trans hnew.symm
      · have hlt' : con < s.next := lt_of_le_of_ne (Nat.le_of_lt_succ hlt) hcon
        exact (ht.deeds con hlt').trans (congrArg fate (update_of_ne hcon ..)).symm
  | change con c =>
    obtain ⟨old, hold, -, -, rfl⟩ := change_eq hp
    refine ht.affects (affects_objects s con (some c)) ⟨old, hold⟩ (fun c' hc' hcon => ?_)
      fun hno => absurd hno (by simp)
    rw [← Option.some.inj hc']
    exact hsafe (hcon.elim id id)
  | addConnection con rounds =>
    obtain ⟨⟨ok, s₁⟩, ha, rfl⟩ := Option.map_eq_some_iff.mp hp
    exact ht.addConnection h hsafe ha
  | removeConnection con =>
    obtain ⟨⟨ok, s₁⟩, hr, rfl⟩ := Option.map_eq_some_iff.mp hp
    obtain ⟨c, hobj, -⟩ := removeConnection_eq hr
    obtain ⟨ha, hnot⟩ := h.removeConnection_affects hobj hr
    refine ht.affects ha ⟨c, hobj⟩ (fun c' hc' hcon => ?_) fun _ => hnot
    rw [← Option.some.inj hc']
    exact ht.alive con c (Or.inl (hcon.resolve_right hnot)) hobj
  | trackConnection con c rounds =>
    obtain ⟨s₀, hc, hp⟩ := Option.bind_eq_some_iff.mp hp
    obtain ⟨⟨ok, s₁⟩, ht', rfl⟩ := Option.map_eq_some_iff.mp hp
    exact ht.trackConnection h (fun _ => id) hc hsafe ht'
  | resetConnection con c rounds =>
    obtain ⟨s₀, hc, hp⟩ := Option.bind_eq_some_iff.mp hp
    obtain ⟨⟨ok, s₁⟩, ht', rfl⟩ := Option.map_eq_some_iff.mp hp
    exact ht.resetConnection h (fun _ => id) hc hsafe ht'
  | processConnections readables writeables readTurns writeTurns =>
    obtain ⟨s₁, hwrite, hread⟩ := Option.bind_eq_some_iff.mp hp
    have hwritten := ht.processFds h LawfulConnection.send CandidConnection.candid_send hsafe.1
      hwrite
    exact hwritten.processFds (h.processFds LawfulConnection.send hwrite) LawfulConnection.receive
      CandidConnection.candid_receive (hsafe.2 s₁ hwrite) hread
  | processTimeout now turns => exact ht.processTimeoutFrom h hp
  | getNextServiceableConnection =>
    obtain ⟨⟨con, s₁⟩, hn, rfl⟩ := Option.map_eq_some_iff.mp hp
    obtain ⟨⟨con', m⟩, hm, hs₁⟩ := Option.bind_eq_some_iff.mp hn
    rw [← (Prod.mk.inj (Option.some.inj hs₁)).2]
    obtain ⟨lists, hlists⟩ := h.mirrors
    obtain ⟨-, hsame⟩ := hlists.getNext hm
    have hmanages : ∀ con, ({ s with manager := m } : CnxSystem C).Manages con → s.Manages con :=
      fun con ⟨item, hcon⟩ => ⟨item, (hsame.connection item).symm.trans hcon⟩
    exact ⟨fun con hcon => ht.object con (hmanages con hcon),
      fun con c hcon => ht.alive con c (hcon.imp_right (hmanages con)), ht.gone, ht.born, ht.known,
      ht.deeds, ht.future⟩

/-- If all calls are safe, no auto-destroyable connection that is dead is left after a call. -/
theorem run_tidy [CandidConnection C Io] {fdsetSize : ℕ} {ops : List (Op C Io)} {op : Op C Io}
    (hsafe : Along step (fun o op => ∀ s ∈ o, s.Safe op) (some (create fdsetSize)) (ops ++ [op]))
    (hrun : run step (some (create fdsetSize)) ops = some s) (hp : s.perform op = some s') :
    s.Tidy s' := by
  have hbefore : ∀ {watched gone : ℕ → Prop} {s : CnxSystem C}, Tended watched gone s →
      Tended s.Manages (fun con => con < s.next ∧ s.objects con = none) s := by
    intro watched gone s ht
    refine ⟨ht.object, fun con c hcon => ht.alive con c (Or.inr (hcon.elim id id)),
      fun con hgone => hgone.2, ht.born, fun con hcon => ?_, ht.deeds, ht.future⟩
    obtain hcon | hgone := hcon
    · obtain ⟨c, hobj⟩ := ht.object con hcon
      exact ht.born con c hobj
    · exact hgone.1
  obtain ⟨hops, hop, -⟩ := along_append.mp hsafe
  have hinv := run_invariant (I := fun o : Option (CnxSystem C) => ∀ s ∈ o, s.Invariant 0 ∧
    ∃ watched gone, Tended watched gone s) (fun o op ho hsafe s hs => ?_) (fun s hs => ?_) hops
  · obtain ⟨h, watched, gone, hs⟩ := hinv s hrun
    have ht := (hbefore hs).perform h (hop s hrun) hp
    have hdeeds : ∀ con o, s'.objects con = o → s.Manages con ∨ con < s.next ∧ s.objects con = none →
        s'.deeds con = fate o := by
      rintro con _ rfl hcon
      exact ht.deeds con (ht.known con hcon)
    have hnot : ∀ con, s'.objects con = none → ¬ s'.Manages con := by
      intro con hnone hcon
      obtain ⟨c, hobj⟩ := ht.object con hcon
      exact absurd (hnone.symm.trans hobj) (by simp)
    refine ⟨fun con hcon => ?_, fun con hcon => ?_, fun con hlt hobj => ?_⟩
    · obtain ⟨c, hobj⟩ := ht.object con hcon
      exact ⟨c, hobj, ht.alive con c (Or.inr hcon) hobj⟩
    · obtain ⟨c, hobj⟩ := hs.object con hcon
      have hlt := hs.born con c hobj
      refine ⟨by rw [hs.deeds con hlt, hobj]; rfl, ?_⟩
      cases hobj' : s'.objects con with
      | none => exact Or.inr ⟨rfl, hnot con hobj', hdeeds con none hobj' (Or.inl hcon)⟩
      | some c' => exact Or.inl ⟨c', rfl, ht.alive con c' (Or.inl hcon) hobj',
          hdeeds con (some c') hobj' (Or.inl hcon)⟩
    · have hobj' := ht.gone con ⟨hlt, hobj⟩
      exact ⟨hobj', hnot con hobj', by rw [hs.deeds con hlt, hobj]; rfl,
        hdeeds con none hobj' (Or.inr ⟨hlt, hobj⟩)⟩
  · obtain ⟨s₀, rfl, hs⟩ := Option.bind_eq_some_iff.mp hs
    obtain ⟨h, watched, gone, hs₀⟩ := ho s₀ rfl
    exact ⟨h.perform hs, _, _, (hbefore hs₀).perform h (hsafe s₀ rfl) hs⟩
  · obtain rfl := Option.some.inj hs
    have hnot : ∀ con, ¬ (create fdsetSize : CnxSystem C).Manages con := by
      rintro con ⟨item, hcon⟩
      simp [create, KssConnectionManager.create] at hcon
    exact ⟨create_invariant fdsetSize, fun _ => False, fun _ => False, fun con hcon =>
      absurd hcon (hnot con), fun con c _ hobj => absurd hobj (by simp [create]),
      fun con hgone => hgone.elim, fun con c hobj => absurd hobj (by simp [create]),
      fun con hcon => (hcon.elim id id).elim,
      fun con hlt => absurd hlt (Nat.not_lt_zero con), fun con _ => rfl⟩

end CnxSystem

namespace KssConnection

variable {tcp : Endpoint → ConnectionIoMode × Endpoint}
  {udp : UdpEndpoint → ConnectionIoMode × UdpEndpoint}

theorem virtual_candid (htcp : ∀ e, (tcp e).1.Reports (tcp e).2.getIoMode)
    (hudp : ∀ e, (udp e).1.Reports (udp e).2.getIoMode) : Candid (virtual tcp udp) := by
  constructor
  · intro c
    cases c <;> rfl
  · intro c
    cases c with
    | tcp fd timeout destroyable e =>
      have hdead : (tcp e).1.dead = true ↔ (tcp e).2.con.state = .dead := by
        rw [(htcp e).dead, Endpoint.getIoMode_dead, decide_eq_true_iff]
      exact hdead
    | udp fd e =>
      have hdead : (udp e).1.dead = true ↔ (udp e).2.con.state = .dead := by
        rw [(hudp e).dead, UdpEndpoint.getIoMode_dead, decide_eq_true_iff]
      exact hdead

instance : CandidConnection KssConnection ConnectionIo where
  candid_receive io := virtual_candid (·.receive_reports io.tcp) (·.receive_reports io.receives)
  candid_send io := virtual_candid (·.send_reports io.tcp) (·.send_reports io.sends)
  candid_timedOut := virtual_candid Endpoint.timedOut_reports UdpEndpoint.timedOut_reports
  candid_reset := virtual_candid Endpoint.reset_reports UdpEndpoint.reset_reports
  timedOut_writeable c hauto := by
    cases c with
    | tcp fd timeout destroyable e => exact e.timedOut_writeable
    | udp fd e => exact absurd hauto (by simp [isAutoDestroyable, autoDestroyable])

end KssConnection

/-- As long as no TCP connection dies in a fast write whose outcome goes unnoticed, none that is
dead stays with the manager. -/
theorem connectionManager_tidy {fdsetSize : ℕ} {ops : List (CnxSystem.Op KssConnection
    ConnectionIo)} {op : CnxSystem.Op KssConnection ConnectionIo} {s s' : CnxSystem KssConnection}
    (hsafe : Along CnxSystem.step (fun o op => ∀ s ∈ o, s.Safe op)
      (some (CnxSystem.create fdsetSize)) (ops ++ [op]))
    (hrun : run CnxSystem.step (some (CnxSystem.create fdsetSize)) ops = some s)
    (hp : s.perform op = some s') : s.Tidy s' :=
  CnxSystem.run_tidy hsafe hrun hp

/-- A client connects and sends a record that cannot be decoded. -/
def goneClient : List (CnxSystem.Op KssConnection ConnectionIo) :=
  [.construct (.tcp 4 30 true (.started [0x80, 0, 0, 4, 0, 0, 0, 0])), .addConnection 0 [⟨0, {}⟩]]

/-- The server waits in vain for the record. -/
theorem connectionManager_tidy_timeout :
    ∃ s s', run CnxSystem.step (some (CnxSystem.create 8)) goneClient = some s ∧
      s.perform (.processTimeout 40000000 [transferTurn 40000000 []]) = some s' ∧ s.Tidy s' := by
  obtain ⟨s, hs⟩ := Option.isSome_iff_exists.mp
    (show (run CnxSystem.step (some (CnxSystem.create 8)) goneClient).isSome = true by decide)
  obtain ⟨s', hs'⟩ := Option.isSome_iff_exists.mp (show (run CnxSystem.step
    (some (CnxSystem.create 8)) (goneClient ++ [.processTimeout 40000000
      [transferTurn 40000000 []]])).isSome = true by decide)
  rw [run_append, hs] at hs'
  have hsafe : Along CnxSystem.step (fun o op => ∀ s ∈ o, s.Safe op)
      (some (CnxSystem.create 8)) (goneClient ++ [.processTimeout 40000000
        [transferTurn 40000000 []]]) := by
    refine ⟨fun _ _ => trivial, fun s₁ hs₁ => ?_, fun _ _ => trivial, trivial⟩
    obtain rfl := Option.some.inj hs₁
    intro c hobj _ _
    obtain rfl := Option.some.inj hobj
    exact ⟨fun _ => by decide, fun hfast => absurd hfast (by decide)⟩
  exact ⟨s, s', hs, hs', connectionManager_tidy hsafe hs hs'⟩

/-- The client is gone when the server replies to the record. -/
def goneClientTurn : Turn ConnectionIo where
  io := { tcp := { outcomes := [.transfers 4, .transfers 4] } }
  rounds := [⟨1, { tcp := { outcomes := [.fails .epipe] } }⟩, ⟨1, {}⟩]
  resetRounds := []

theorem not_tidy_goneClient :
    ∃ s s', run CnxSystem.step (some (CnxSystem.create 8)) goneClient = some s ∧
      s.perform (.processConnections {4} ∅ (fun _ => goneClientTurn) fun _ => goneClientTurn) =
        some s' ∧ ¬ s.Tidy s' := by
  obtain ⟨s, hs⟩ := Option.isSome_iff_exists.mp
    (show (run CnxSystem.step (some (CnxSystem.create 8)) goneClient).isSome = true by decide)
  have hlinger : ((run CnxSystem.step (some (CnxSystem.create 8)) (goneClient ++
      [.processConnections {4} ∅ (fun _ => goneClientTurn) fun _ => goneClientTurn])).any fun s =>
        (s.manager.items 4).connection = some 0 ∧ (s.objects 0).all fun c =>
          getState c = .dead ∧ isAutoDestroyable c) = true := by
    decide
  rw [run_append, hs] at hlinger
  obtain ⟨s', hs', hdead⟩ := (Option.any_eq_true ..).mp hlinger
  obtain ⟨hmanaged, hdead⟩ := of_decide_eq_true hdead
  refine ⟨s, s', hs, hs', fun htidy => ?_⟩
  obtain ⟨c, hobj, halive⟩ := htidy.managed 0 ⟨4, hmanaged⟩
  obtain ⟨hstate, hauto⟩ := of_decide_eq_true ((Option.all_eq_true ..).mp hdead c hobj)
  exact halive hauto hstate

end AcpltKs
