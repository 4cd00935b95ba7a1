import AcpltKs.ConnectionMgr.Lingering

/-! What the connection manager preserves of one of its connections: a property that survives input,
output and resets, and timeouts as long as the connection asks for them. -/
namespace AcpltKs
open Function LinkedRings KssConnectionManager ConnectionObject

variable {C Io : Type} [ConnectionObject C Io]

/-- A member function that leads from one property to another, and tells whether the connection
needs a timeout then. -/
def TakesTo (P Q : C → Prop) (f : C → ConnectionIoMode × C) : Prop :=
  ∀ c, P c → Q (f c).2 ∧ (f c).1.needTimeout = (getIoMode (f c).2).needTimeout

/-- A property of connections that are not dead, and that the manager does not take away. -/
structure Stable (P : C → Prop) : Prop where
  alive : ∀ c, P c → getState c ≠ .dead
  receive : ∀ io, TakesTo P P fun c => receive c io
  send : ∀ io, TakesTo P P fun c => send c io
  timedOut : TakesTo (fun c => P c ∧ (getIoMode c).needTimeout = true) P timedOut
  reset : TakesTo P P reset

namespace CnxSystem

/-- As long as the manager has the connection, it has the property, and it needs a timeout if its
last I/O mode says so. -/
def Steady (P : C → Prop) (s : CnxSystem C) (con : ℕ) : Prop :=
  ∀ item c, (s.manager.items item).connection = some con → s.objects con = some c →
    P c ∧ ((s.manager.items item).lastIoMode.needTimeout = true →
      (getIoMode c).needTimeout = true)

/-- Nothing happens to the connection, unless the manager gives it up. -/
structure Bypasses (con : ℕ) (s s' : CnxSystem C) : Prop where
  object : s'.objects con = s.objects con
  item : ∀ item, (s'.manager.items item).connection = some con →
    (s.manager.items item).connection = some con ∧
      (s'.manager.items item).lastIoMode = (s.manager.items item).lastIoMode

variable {s s' s'' : CnxSystem C} {pending : ℤ} {item con con' : ℕ} {c : C} {P Q : C → Prop}
  {ioMode : ConnectionIoMode} {rounds : List (Round Io)} {ok : Bool}

omit [ConnectionObject C Io] in
theorem Bypasses.refl (con : ℕ) (s : CnxSystem C) : Bypasses con s s :=
  ⟨rfl, fun _ h => ⟨h, rfl⟩⟩

omit [ConnectionObject C Io] in
theorem Bypasses.trans (h : Bypasses con s s') (h' : Bypasses con s' s'') :
    Bypasses con s s'' := by
  refine ⟨h'.object.trans h.object, fun item hitem => ?_⟩
  obtain ⟨hitem', hlast'⟩ := h'.item item hitem
  obtain ⟨hitem'', hlast⟩ := h.item item hitem'
  exact ⟨hitem'', hlast'.trans hlast⟩

theorem Steady.bypass (h : s.Steady P con) (hb : Bypasses con s s') : s'.Steady P con := by
  intro item c hitem hobj
  obtain ⟨hitem', hlast⟩ := hb.item item hitem
  rw [hlast]
  exact h item c hitem' (hb.object ▸ hobj)

theorem steady_of_not_manages (h : ¬ s.Manages con) : s.Steady P con :=
  fun item _ hitem _ => absurd ⟨item, hitem⟩ h

theorem steady_of_gone (h : s.objects con = none) : s.Steady P con :=
  fun _ _ _ hobj => absurd (h.symm.trans hobj) (by simp)

omit [ConnectionObject C Io] in
theorem bypasses_objects (hne : con ≠ con') (o : Option C) :
    Bypasses con s { s with objects := update s.objects con' o } :=
  ⟨update_of_ne hne .., fun _ h => ⟨h, rfl⟩⟩

omit [ConnectionObject C Io] in
theorem delete_bypasses (hne : con ≠ con') : Bypasses con s (s.delete con') :=
  ⟨update_of_ne hne .., fun _ h => ⟨h, rfl⟩⟩

theorem call_bypasses {α : Type} {f : C → α × C} {a : α} (hne : con ≠ con')
    (hc : s.call con' f = some (a, s')) : Bypasses con s s' := by
  obtain ⟨c, -, -, rfl⟩ := call_eq hc
  exact bypasses_objects hne _

theorem shutDown_bypasses (hne : con ≠ con') (hs : s.shutDown con' = some s') :
    Bypasses con s s' := by
  obtain ⟨c, -, rfl⟩ := shutDown_eq hs
  exact ⟨update_of_ne hne .., fun _ h => ⟨h, rfl⟩⟩

theorem removeConnection_bypasses (hr : s.removeConnection con' = some (ok, s')) :
    Bypasses con s s' := by
  obtain ⟨c, -, rfl⟩ := removeConnection_eq hr
  obtain ⟨-, heq⟩ | ⟨-, heq⟩ := manager_removeConnection s.manager (getFd c)
  · refine ⟨rfl, fun item hitem => ?_⟩
    simp only [heq] at hitem ⊢
    exact ⟨(vacated_connection hitem).2, vacated_lastIoMode ..⟩
  · rw [heq]
    exact Bypasses.refl con s

/-- A connection that is destroyed is gone, and others do not notice. -/
theorem destroy_cases (hd : s.destroy con' = some s') :
    s'.objects con' = none ∧ ∀ con, con ≠ con' → Bypasses con s s' := by
  obtain ⟨⟨ok, s₁⟩, hremove, hd⟩ := Option.bind_eq_some_iff.mp hd
  obtain ⟨s₂, hshut, hd⟩ := Option.bind_eq_some_iff.mp hd
  obtain rfl := Option.some.inj hd
  refine ⟨update_self .., fun con hne => ?_⟩
  exact ((removeConnection_bypasses hremove).trans (shutDown_bypasses hne hshut)).trans
    (delete_bypasses hne)

theorem Steady.destroy (h : s.Steady P con) (hd : s.destroy con' = some s') :
    s'.Steady P con := by
  obtain ⟨hgone, hothers⟩ := destroy_cases hd
  by_cases hne : con = con'
  · exact steady_of_gone (hne ▸ hgone)
  · exact h.bypass (hothers con hne)

omit [ConnectionObject C Io] in
/-- To fetch a connection changes lists only, and it comes out of the table. -/
theorem getNext_cases {next : Option ℕ}
    (hn : s.getNextServiceableConnection = some (next, s')) :
    (∀ con, Bypasses con s s') ∧ ∀ con, next = some con → s'.Manages con := by
  obtain ⟨⟨next', m⟩, hm, hn⟩ := Option.bind_eq_some_iff.mp hn
  obtain ⟨rfl, rfl⟩ := Prod.mk.inj (Option.some.inj hn)
  rw [KssConnectionManager.getNextServiceableConnection] at hm
  split at hm
  · obtain ⟨rfl, rfl⟩ := Prod.mk.inj (Option.some.inj hm)
    exact ⟨fun con => Bypasses.refl con s, fun con hnone => absurd hnone (by simp)⟩
  · exact absurd hm (by simp)
  · next item _ =>
    obtain ⟨rfl, rfl⟩ := Prod.mk.inj (Option.some.inj hm)
    exact ⟨fun con => ⟨rfl, fun _ hi => ⟨hi, rfl⟩⟩, fun con hcon => ⟨item, hcon⟩⟩

section
variable [LawfulConnection C Io]

/-- Tracking an item leaves the table and the other items alone. -/
theorem Invariant.trackCnxIoMode_items (h : s.Invariant pending) (hmode : ioMode.Exclusive)
    (ht : s.trackCnxIoMode item ioMode rounds = some s') (i : ℕ) :
    (s'.manager.items i).connection = (s.manager.items i).connection ∧
      (i ≠ item → (s'.manager.items i).lastIoMode = (s.manager.items i).lastIoMode) := by
  induction rounds generalizing s ioMode with
  | nil => exact absurd ht (by simp [CnxSystem.trackCnxIoMode])
  | cons round rounds ih =>
    obtain ⟨_, _, con, c, m, hrounds, -, hobj, -, hinv, hsame, hlast, ht⟩ := h.trackRound hmode ht
    obtain ⟨rfl, rfl⟩ := List.cons.inj hrounds
    have hone : i ≠ item → (m.items i).lastIoMode = (s.manager.items i).lastIoMode :=
      fun hi => (hlast i).trans (if_neg hi)
    split_ifs at ht
    · have hsend := LawfulConnection.send (C := C) round.io
      have hcalled := hinv.object con fun c' hc' =>
        ⟨c, hobj, (congrArg getFd (Option.some.inj hc').symm).trans (hsend.getFd c)⟩
      obtain ⟨hconnection, hrest⟩ := ih hcalled (hsend.exclusive c) ht
      exact ⟨hconnection.trans (hsame.connection i), fun hi => (hrest hi).trans (hone hi)⟩
    · rw [← ht]
      exact ⟨hsame.connection i, hone⟩

theorem Invariant.trackCnxIoMode_bypasses (h : s.Invariant pending) (hmode : ioMode.Exclusive)
    (hother : (s.manager.items item).connection ≠ some con)
    (ht : s.trackCnxIoMode item ioMode rounds = some s') : Bypasses con s s' := by
  obtain ⟨_, _, con', c, _, -, hcon', hobj, -⟩ := h.trackRound hmode ht
  have hne : con ≠ con' := by
    rintro rfl
    exact hother hcon'
  refine ⟨?_, fun i hi => ?_⟩
  · rw [(h.trackCnxIoMode_affects hcon' hobj hmode ht).1.objects, update_of_ne hne]
  · obtain ⟨hconnection, hlast⟩ := h.trackCnxIoMode_items hmode ht i
    rw [hconnection] at hi
    refine ⟨hi, hlast ?_⟩
    rintro rfl
    exact hother hi

/-- Tracking a connection with an I/O mode that is up to date. -/
theorem Invariant.trackCnxIoMode_steady (h : s.Invariant pending) (hP : Stable P)
    (hcon : (s.manager.items item).connection = some con) (hobj : s.objects con = some c)
    (hc : P c) (hmode : ioMode.Exclusive)
    (htimeout : ioMode.needTimeout = (getIoMode c).needTimeout)
    (ht : s.trackCnxIoMode item ioMode rounds = some s') : s'.Steady P con := by
  induction rounds generalizing s c ioMode with
  | nil => exact absurd ht (by simp [CnxSystem.trackCnxIoMode])
  | cons round rounds ih =>
    obtain ⟨_, _, con₁, c₁, m, hrounds, hcon₁, hobj₁, -, hinv, hsame, hlast, ht⟩ :=
      h.trackRound hmode ht
    obtain ⟨rfl, rfl⟩ := List.cons.inj hrounds
    obtain rfl := Option.some.inj (hcon.symm.trans hcon₁)
    obtain rfl := Option.some.inj (hobj.symm.trans hobj₁)
    split_ifs at ht
    · have hsend := LawfulConnection.send (C := C) round.io
      have hcalled := hinv.object con fun c' hc' =>
        ⟨c, hobj, (congrArg getFd (Option.some.inj hc').symm).trans (hsend.getFd c)⟩
      obtain ⟨hsent, hneed⟩ := hP.send round.io c hc
      exact ih hcalled ((hsame.connection item).trans hcon) (update_self ..) hsent
        (hsend.exclusive c) hneed ht
    · rw [← ht]
      intro i c' hi hobj'
      obtain rfl := Option.some.inj (hobj.symm.trans hobj')
      have hitem : i = item :=
        (hinv.fd i con c hi hobj).symm.trans (h.fd item con c hcon hobj)
      refine ⟨hc, fun hneed => ?_⟩
      rw [← htimeout, ← hneed]
      simp only [hlast, if_pos hitem]

/-- A connection has its turn, and may be destroyed or reset after it. -/
theorem Invariant.serve_steady (h : s.Invariant pending) (hP : Stable P)
    (hs : s.Steady P con) {f : C → Io → ConnectionIoMode × C} (hf : ∀ io, Proper fun c => f c io)
    {turn : Turn Io} (hturn : ∀ c, (s.manager.items item).connection = some con →
      s.objects con = some c → P c → P (f c turn.io).2 ∧
        (f c turn.io).1.needTimeout = (getIoMode (f c turn.io).2).needTimeout)
    (hserve : s.serve f item turn = some s') : s'.Steady P con := by
  obtain ⟨con₁, hcon₁, hserve⟩ := Option.bind_eq_some_iff.mp hserve
  obtain ⟨⟨ioMode, s₁⟩, hcall, hserve⟩ := Option.bind_eq_some_iff.mp hserve
  obtain ⟨s₂, htrack, hrest⟩ := Option.bind_eq_some_iff.mp hserve
  have hcalled := h.call (hf turn.io).getFd hcall
  obtain ⟨c, hobj, rfl, rfl⟩ := call_eq hcall
  have hmode := (hf turn.io).exclusive c
  have htracked := (hcalled.trackCnxIoMode hmode htrack).1
  have hcon₂ := (hcalled.trackCnxIoMode_items hmode htrack item).1.trans hcon₁
  have hs₂ : s₂.Steady P con := by
    by_cases hcon : con = con₁
    · subst hcon
      obtain ⟨hc, hneed⟩ := hturn c hcon₁ hobj (hs item c hcon₁ hobj).1
      exact hcalled.trackCnxIoMode_steady hP hcon₁ (update_self ..) hc hmode hneed htrack
    · have hother : (s.manager.items item).connection ≠ some con := by
        rw [hcon₁]
        exact fun heq => hcon (Option.some.inj heq).symm
      exact hs.bypass ((bypasses_objects hcon _).trans
        (hcalled.trackCnxIoMode_bypasses hmode hother htrack))
  simp only at hrest
  split_ifs at hrest
  · obtain ⟨c₂, hobj₂, hrest⟩ := Option.bind_eq_some_iff.mp hrest
    split_ifs at hrest
    · exact hs₂.destroy hrest
    · obtain ⟨⟨ioMode', s₃⟩, hreset, hrest⟩ := Option.bind_eq_some_iff.mp hrest
      have hcalled₃ := htracked.call LawfulConnection.reset.getFd hreset
      obtain ⟨c₂', hobj₂', rfl, rfl⟩ := call_eq hreset
      obtain rfl := Option.some.inj (hobj₂.symm.trans hobj₂')
      have hmode' := LawfulConnection.reset.exclusive c₂
      by_cases hcon : con = con₁
      · subst hcon
        obtain ⟨hc, hneed⟩ := hP.reset c₂ (hs₂ item c₂ hcon₂ hobj₂).1
        exact hcalled₃.trackCnxIoMode_steady hP hcon₂ (update_self ..) hc hmode' hneed hrest
      · have hother : (s₂.manager.items item).connection ≠ some con := by
          rw [hcon₂]
          exact fun heq => hcon (Option.some.inj heq).symm
        exact hs₂.bypass ((bypasses_objects hcon _).trans
          (hcalled₃.trackCnxIoMode_bypasses hmode' hother hrest))
  · rwa [← Option.some.inj hrest]

theorem Invariant.processFds_steady (h : s.Invariant pending) (hP : Stable P)
    (hs : s.Steady P con) {f : C → Io → ConnectionIoMode × C} (hf : ∀ io, Proper fun c => f c io)
    (hturn : ∀ io, TakesTo P P fun c => f c io) {fds : Finset ℕ} {turns : ℕ → Turn Io}
    (hp : s.processFds f fds turns = some s') : s'.Steady P con := by
  have hboth := foldlM_invariant (I := fun s => s.Invariant pending ∧ s.Steady P con)
    (fun s fd s₁ hs hs₁ => ?_) ⟨h, hs⟩ hp
  · exact hboth.2
  · split_ifs at hs₁
    · exact ⟨hs.1.serve hf hs₁,
        hs.1.serve_steady hP hs.2 hf (fun c _ _ hc => hturn _ c hc) hs₁⟩
    · rwa [← Option.some.inj hs₁]

omit [LawfulConnection C Io] in
/-- What is destroyed with the item of a connection is in that item only. -/
theorem Invariant.destroy_items (h : s.Invariant pending)
    (hcon : (s.manager.items item).connection = some con) (hd : s.destroy con = some s') {i : ℕ}
    (hi : i ≠ item) : s'.manager.items i = s.manager.items i := by
  obtain ⟨⟨ok, s₁⟩, hremove, hd⟩ := Option.bind_eq_some_iff.mp hd
  obtain ⟨s₂, hshut, hd⟩ := Option.bind_eq_some_iff.mp hd
  obtain rfl := Option.some.inj hd
  obtain ⟨c, hobj, rfl⟩ := removeConnection_eq hremove
  obtain ⟨-, -, rfl⟩ := shutDown_eq hshut
  have hfd := h.fd item con c hcon hobj
  obtain ⟨-, heq⟩ | ⟨-, heq⟩ := manager_removeConnection s.manager (getFd c)
  · simp only [CnxSystem.delete, heq, KssConnectionManager.vacated]
    exact s.manager.setItem_of_ne (hfd ▸ hi) _
  · simp only [CnxSystem.delete, heq]

/-- The turn of a connection leaves the other items alone. -/
theorem Invariant.serve_items (h : s.Invariant pending) {f : C → Io → ConnectionIoMode × C}
    (hf : ∀ io, Proper fun c => f c io) {turn : Turn Io}
    (hserve : s.serve f item turn = some s') {i : ℕ} (hi : i ≠ item) :
    (s'.manager.items i).connection = (s.manager.items i).connection ∧
      (s'.manager.items i).lastIoMode = (s.manager.items i).lastIoMode := by
  obtain ⟨con, hcon, hserve⟩ := Option.bind_eq_some_iff.mp hserve
  obtain ⟨⟨ioMode, s₁⟩, hcall, hserve⟩ := Option.bind_eq_some_iff.mp hserve
  obtain ⟨s₂, htrack, hrest⟩ := Option.bind_eq_some_iff.mp hserve
  have hcalled := h.call (hf turn.io).getFd hcall
  obtain ⟨c, hobj, rfl, rfl⟩ := call_eq hcall
  have hmode := (hf turn.io).exclusive c
  have htracked := (hcalled.trackCnxIoMode hmode htrack).1
  have hcon₂ := (hcalled.trackCnxIoMode_items hmode htrack item).1.trans hcon
  obtain ⟨hconnection, hlast⟩ := hcalled.trackCnxIoMode_items hmode htrack i
  have hlast := hlast hi
  simp only at hrest
  split_ifs at hrest
  · obtain ⟨c₂, hobj₂, hrest⟩ := Option.bind_eq_some_iff.mp hrest
    split_ifs at hrest
    · rw [htracked.destroy_items hcon₂ hrest hi]
      exact ⟨hconnection, hlast⟩
    · obtain ⟨⟨ioMode', s₃⟩, hreset, hrest⟩ := Option.bind_eq_some_iff.mp hrest
      have hcalled₃ := htracked.call LawfulConnection.reset.getFd hreset
      obtain ⟨c₂', hobj₂', rfl, rfl⟩ := call_eq hreset
      obtain ⟨hconnection', hlast'⟩ := hcalled₃.trackCnxIoMode_items
        (LawfulConnection.reset.exclusive c₂') hrest i
      exact ⟨hconnection'.trans hconnection, (hlast' hi).trans hlast⟩
  · rw [← Option.some.inj hrest]
    exact ⟨hconnection, hlast⟩

/-- The loop over the active connections is at a connection that has a timeout. -/
def Due (s : CnxSystem C) (node : CnxList ⊕ ℕ) : Prop :=
  ∀ item, node = .inr item → s.manager.Managed item ∧
    (s.manager.items item).lastIoMode.needTimeout = true

omit [ConnectionObject C Io] in
/-- The active connection behind another one is due, and is not that one. -/
theorem due_next {lists : CnxList → List ℕ} (hlists : s.manager.Mirrors lists)
    (hdue : s.Due (.inr item)) :
    s.Due (s.manager.links.next (.inr item)) ∧ s.manager.links.next (.inr item) ≠ .inr item := by
  obtain ⟨l₁, l₂, hl⟩ := List.append_of_mem ((hlists.active_iff item).mpr (hdue item rfl))
  have hnext : s.manager.links.next (.inr item) = firstNode .active l₂ := by
    have hcut := (hlists.rings.cut (hl.trans (List.append_cons ..))).2.2.next
    rwa [lastNode, List.getLast?_concat] at hcut
  have hnodup : (l₁ ++ item :: l₂).Nodup := hl ▸ hlists.rings.nodup .active
  cases l₂ with
  | nil => rw [hnext]; exact ⟨fun i hi => absurd hi (by simp [firstNode]), by simp [firstNode]⟩
  | cons j l₂ =>
    have hj : firstNode CnxList.active (j :: l₂) = .inr j := rfl
    rw [hnext, hj]
    refine ⟨fun i hi => ?_, fun heq => ?_⟩
    · obtain rfl := Sum.inr.inj hi
      refine (hlists.active_iff j).mp ?_
      rw [hl]
      simp
    · obtain rfl := Sum.inr.inj heq
      have hright := (List.nodup_append.mp hnodup).2.1
      exact (List.nodup_cons.mp hright).1 List.mem_cons_self

omit [LawfulConnection C Io] in
theorem Invariant.first_due (h : s.Invariant pending) :
    s.Due (s.manager.links.next (.inl .active)) := by
  obtain ⟨lists, hlists⟩ := h.mirrors
  have hnext : s.manager.links.next (.inl .active) = firstNode .active (lists .active) :=
    (hlists.rings.cut (List.nil_append _).symm).2.2.next
  rw [hnext]
  intro item hitem
  have hmem := List.mem_of_head? (head?_back CnxList.active (lists .active))
  rw [hitem, inr_mem_back] at hmem
  exact (hlists.active_iff item).mp hmem

/-- Only a connection that asks for a timeout has one. -/
theorem Invariant.processTimeoutFrom_steady (h : s.Invariant pending) (hP : Stable P)
    (hs : s.Steady P con) {now : ℤ} {node : CnxList ⊕ ℕ} {turns : List (Turn Io)}
    (hdue : s.Due node) (hp : s.processTimeoutFrom now node turns = some s') :
    s'.Steady P con := by
  induction turns generalizing s node with
  | nil =>
    obtain (_ | _) | item := node
    · rwa [← Option.some.inj hp]
    · exact absurd hp (by simp [CnxSystem.processTimeoutFrom])
    · exact absurd hp (by simp [CnxSystem.processTimeoutFrom])
  | cons turn turns ih =>
    obtain (_ | _) | item := node
    · rwa [← Option.some.inj hp]
    · exact absurd hp (by simp [CnxSystem.processTimeoutFrom])
    · rw [CnxSystem.processTimeoutFrom] at hp
      split_ifs at hp
      · obtain ⟨s₁, hserve, hp⟩ := Option.bind_eq_some_iff.mp hp
        have hproper : Io → Proper (timedOut : C → ConnectionIoMode × C) :=
          fun _ => LawfulConnection.timedOut
        obtain ⟨lists, hlists⟩ := h.mirrors
        obtain ⟨hnext, hne⟩ := due_next hlists hdue
        refine ih (h.serve hproper hserve) (h.serve_steady hP hs hproper ?_ hserve) ?_ hp
        · intro c hcon hobj hc
          exact hP.timedOut c ⟨hc, (hs item c hcon hobj).2 (hdue item rfl).2⟩
        · intro i hi
          have hne' : i ≠ item := fun heq => hne (heq ▸ hi)
          obtain ⟨hconnection, hlast⟩ := h.serve_items hproper hserve hne'
          rw [Managed, hconnection, hlast]
          exact hnext i hi
      · rwa [← Option.some.inj hp]

omit [LawfulConnection C Io] in
/-- The second look at the state of a connection finds it alive, or destroys it, or fails. -/
theorem unlessDead_cases (hu : s.unlessDead con = some (ok, s')) :
    ok = true ∧ s' = s ∨
      ok = true ∧ s'.objects con = none ∧ (∀ con', con' ≠ con → Bypasses con' s s') ∨
      ok = false ∧ s' = s ∧ ∃ c, s.objects con = some c ∧ getState c = .dead := by
  obtain ⟨c, hobj, hu⟩ := Option.bind_eq_some_iff.mp hu
  split_ifs at hu with hstate hauto
  · obtain ⟨rfl, rfl⟩ := Prod.mk.inj (Option.some.inj hu)
    exact Or.inl ⟨rfl, rfl⟩
  · obtain ⟨s₁, hshut, hu⟩ := Option.bind_eq_some_iff.mp hu
    obtain ⟨⟨_, s₂⟩, hremove, hu⟩ := Option.bind_eq_some_iff.mp hu
    obtain ⟨rfl, rfl⟩ := Prod.mk.inj (Option.some.inj hu)
    refine Or.inr (Or.inl ⟨rfl, update_self .., fun con' hne => ?_⟩)
    exact ((shutDown_bypasses hne hshut).trans (removeConnection_bypasses hremove)).trans
      (delete_bypasses hne)
  · obtain ⟨rfl, rfl⟩ := Prod.mk.inj (Option.some.inj hu)
    exact Or.inr (Or.inr ⟨rfl, rfl, c, hobj, not_ne_iff.mp hstate⟩)

omit [LawfulConnection C Io] in
theorem unlessDead_bypasses (hne : con ≠ con') (hu : s.unlessDead con' = some (ok, s')) :
    Bypasses con s s' := by
  obtain ⟨-, rfl⟩ | ⟨-, -, hothers⟩ | ⟨-, rfl, -⟩ := unlessDead_cases hu
  · exact Bypasses.refl con s'
  · exact hothers con hne
  · exact Bypasses.refl con s'

omit [LawfulConnection C Io] in
theorem Steady.unlessDead (h : s.Steady P con) (hu : s.unlessDead con = some (ok, s')) :
    s'.Steady P con := by
  obtain ⟨-, rfl⟩ | ⟨-, hgone, -⟩ | ⟨-, rfl, -⟩ := unlessDead_cases hu
  · exact h
  · exact steady_of_gone hgone
  · exact h

/-- The user of a connection leaves the items of the others alone. -/
theorem Invariant.trackConnection_bypasses (h : s.Invariant pending) (hne : con ≠ con')
    (hother : ∀ c, s.objects con' = some c →
      (s.manager.items (getFd c)).connection ≠ some con)
    (ht : s.trackConnection con' rounds = some (ok, s')) : Bypasses con s s' := by
  obtain ⟨o, hitem, ht⟩ := Option.bind_eq_some_iff.mp ht
  cases o with
  | none =>
    rw [← (Prod.mk.inj (Option.some.inj ht)).2]
    exact Bypasses.refl con s
  | some item =>
    obtain ⟨c, hobj, hown⟩ := itemOf_eq hitem
    obtain ⟨rfl, -⟩ := hown item rfl
    obtain ⟨c', hobj', ht⟩ := Option.bind_eq_some_iff.mp ht
    obtain rfl := Option.some.inj (hobj.symm.trans hobj')
    obtain ⟨s₁, htrack, ht⟩ := Option.bind_eq_some_iff.mp ht
    obtain ⟨⟨ok', s₂⟩, hdead, ht⟩ := Option.bind_eq_some_iff.mp ht
    have htracked : Bypasses con s s₁ := by
      split_ifs at htrack
      · exact h.trackCnxIoMode_bypasses (LawfulConnection.getIoMode c) (hother c hobj) htrack
      · rw [← Option.some.inj htrack]
        exact Bypasses.refl con s
    have hchecked := htracked.trans (unlessDead_bypasses hne hdead)
    simp only at ht
    split_ifs at ht
    · rwa [← (Prod.mk.inj (Option.some.inj ht)).2]
    · obtain ⟨⟨ioMode, s₃⟩, hreset, ht⟩ := Option.bind_eq_some_iff.mp ht
      rw [← (Prod.mk.inj (Option.some.inj ht)).2]
      exact hchecked.trans (call_bypasses hne hreset)

theorem Invariant.resetConnection_bypasses (h : s.Invariant pending) (hne : con ≠ con')
    (hother : ∀ c, s.objects con' = some c →
      (s.manager.items (getFd c)).connection ≠ some con)
    (ht : s.resetConnection con' rounds = some (ok, s')) : Bypasses con s s' := by
  obtain ⟨o, hitem, ht⟩ := Option.bind_eq_some_iff.mp ht
  cases o with
  | none =>
    rw [← (Prod.mk.inj (Option.some.inj ht)).2]
    exact Bypasses.refl con s
  | some item =>
    obtain ⟨c, hobj, hown⟩ := itemOf_eq hitem
    obtain ⟨rfl, -⟩ := hown item rfl
    obtain ⟨c', hobj', ht⟩ := Option.bind_eq_some_iff.mp ht
    obtain rfl := Option.some.inj (hobj.symm.trans hobj')
    obtain ⟨s₁, htrack, ht⟩ := Option.bind_eq_some_iff.mp ht
    refine Bypasses.trans ?_ (unlessDead_bypasses hne ht)
    split_ifs at htrack
    · obtain ⟨⟨ioMode, s₂⟩, hreset, htrack⟩ := Option.bind_eq_some_iff.mp htrack
      have hcalled := h.call LawfulConnection.reset.getFd hreset
      obtain ⟨c', -, rfl, rfl⟩ := call_eq hreset
      exact (bypasses_objects hne _).trans (hcalled.trackCnxIoMode_bypasses
        (LawfulConnection.reset.exclusive c') (hother c hobj) htrack)
    · rw [← Option.some.inj htrack]
      exact Bypasses.refl con s

omit [LawfulConnection C Io] in
/-- The item of a connection that the manager has. -/
theorem Invariant.item_eq (h : s.Invariant pending) (hobj : s.objects con = some c)
    (hm : s.Manages con) : (s.manager.items (getFd c)).connection = some con := by
  obtain ⟨item, hitem⟩ := hm
  rwa [h.fd item con c hitem hobj]

/-- Tracking fails for connections only that the manager does not have. -/
theorem Invariant.trackConnection_steady (h : s.Invariant pending) (hP : Stable P)
    (hs : s.Steady P con) (ht : s.trackConnection con rounds = some (ok, s')) :
    s'.Steady P con ∧ (ok = false → ¬ s'.Manages con) := by
  obtain ⟨o, hitem, ht⟩ := Option.bind_eq_some_iff.mp ht
  cases o with
  | none =>
    rw [← (Prod.mk.inj (Option.some.inj ht)).2]
    exact ⟨hs, fun _ => not_manages_of_itemOf h hitem⟩
  | some item =>
    obtain ⟨c, hobj, hown⟩ := itemOf_eq hitem
    obtain ⟨rfl, -⟩ := hown item rfl
    obtain ⟨c', hobj', ht⟩ := Option.bind_eq_some_iff.mp ht
    obtain rfl := Option.some.inj (hobj.symm.trans hobj')
    obtain ⟨s₁, htrack, ht⟩ := Option.bind_eq_some_iff.mp ht
    obtain ⟨⟨ok', s₂⟩, hdead, hrest⟩ := Option.bind_eq_some_iff.mp ht
    have htracked : s₁.Steady P con := by
      split_ifs at htrack
      · by_cases hcon : (s.manager.items (getFd c)).connection = some con
        · exact h.trackCnxIoMode_steady hP hcon hobj (hs _ c hcon hobj).1
            (LawfulConnection.getIoMode c) rfl htrack
        · exact hs.bypass
            (h.trackCnxIoMode_bypasses (LawfulConnection.getIoMode c) hcon htrack)
      · rwa [← Option.some.inj htrack]
    obtain ⟨rfl, rfl⟩ | ⟨rfl, hgone, -⟩ | ⟨rfl, rfl, c₁, hobj₁, hstate⟩ := unlessDead_cases hdead
    · obtain ⟨rfl, rfl⟩ := Prod.mk.inj (Option.some.inj hrest)
      exact ⟨htracked, fun hok => absurd hok (by simp)⟩
    · obtain ⟨rfl, rfl⟩ := Prod.mk.inj (Option.some.inj hrest)
      exact ⟨steady_of_gone hgone, fun hok => absurd hok (by simp)⟩
    · simp only [Bool.false_eq_true, ↓reduceIte] at hrest
      obtain ⟨⟨ioMode, s₃⟩, hreset, hrest⟩ := Option.bind_eq_some_iff.mp hrest
      obtain ⟨c₂, -, -, rfl⟩ := call_eq hreset
      have hnot : ¬ s₂.Manages con := by
        rintro ⟨item, hitem⟩
        exact hP.alive c₁ (htracked item c₁ hitem hobj₁).1 hstate
      rw [← (Prod.mk.inj (Option.some.inj hrest)).2]
      exact ⟨steady_of_not_manages hnot, fun _ => hnot⟩

/-- A connection gets a new property with the reset. -/
theorem Invariant.resetConnection_steady (h : s.Invariant pending)
    (halive : ∀ c, P c → getState c ≠ .dead) (hreset : TakesTo P Q reset) (hQ : Stable Q)
    (hs : s.Steady P con) (ht : s.resetConnection con rounds = some (ok, s')) :
    s'.Steady Q con := by
  obtain ⟨o, hitem, ht⟩ := Option.bind_eq_some_iff.mp ht
  cases o with
  | none =>
    rw [← (Prod.mk.inj (Option.some.inj ht)).2]
    exact steady_of_not_manages (not_manages_of_itemOf h hitem)
  | some item =>
    obtain ⟨c, hobj, hown⟩ := itemOf_eq hitem
    obtain ⟨rfl, -⟩ := hown item rfl
    obtain ⟨c', hobj', ht⟩ := Option.bind_eq_some_iff.mp ht
    obtain rfl := Option.some.inj (hobj.symm.trans hobj')
    obtain ⟨s₁, htrack, ht⟩ := Option.bind_eq_some_iff.mp ht
    refine Steady.unlessDead ?_ ht
    by_cases hm : s.Manages con
    · have hcon := h.item_eq hobj hm
      obtain ⟨hc, -⟩ := hs _ c hcon hobj
      rw [if_pos (halive c hc)] at htrack
      obtain ⟨⟨ioMode, s₂⟩, hcall, htrack⟩ := Option.bind_eq_some_iff.mp htrack
      have hcalled := h.call LawfulConnection.reset.getFd hcall
      obtain ⟨c', hobj₁, rfl, rfl⟩ := call_eq hcall
      obtain rfl := Option.some.inj (hobj.symm.trans hobj₁)
      obtain ⟨hc', hneed⟩ := hreset c hc
      exact hcalled.trackCnxIoMode_steady hQ hcon (update_self ..) hc'
        (LawfulConnection.reset.exclusive c) hneed htrack
    · have hother : (s.manager.items (getFd c)).connection ≠ some con := fun hcon => hm ⟨_, hcon⟩
      split_ifs at htrack
      · obtain ⟨⟨ioMode, s₂⟩, hcall, htrack⟩ := Option.bind_eq_some_iff.mp htrack
        have hcalled := h.call LawfulConnection.reset.getFd hcall
        obtain ⟨c', -, rfl, rfl⟩ := call_eq hcall
        have hnot : ({ s with objects := update s.objects con (some (reset c').2) } :
            CnxSystem C).Steady Q con := steady_of_not_manages hm
        exact hnot.bypass (hcalled.trackCnxIoMode_bypasses
          (LawfulConnection.reset.exclusive c') hother htrack)
      · rw [← Option.some.inj htrack]
        exact steady_of_not_manages hm

omit [LawfulConnection C Io] in
theorem occupied_connection {m : KssConnectionManager} {i : ℕ}
    (hi : ((m.occupied item con').items i).connection = some con) :
    i = item ∧ con = con' ∨ (m.items i).connection = some con ∧
      ((m.occupied item con').items i).lastIoMode = (m.items i).lastIoMode := by
  by_cases hitem : i = item
  · rw [hitem, occupied, setItem_self] at hi
    exact Or.inl ⟨hitem, (Option.some.inj hi).symm⟩
  · rw [occupied, setItem_of_ne _ hitem] at hi ⊢
    exact Or.inr ⟨hi, rfl⟩

/-- A connection is added that has the property, or another one. -/
theorem Invariant.addConnection_steady (h : s.Invariant 0) (hP : Stable P) (hs : s.Steady P con)
    (hnew : con' = con → ∀ c, s.objects con = some c → P c)
    (ha : s.addConnection con' rounds = some (ok, s')) : s'.Steady P con := by
  obtain ⟨c, hobj, ha⟩ := Option.bind_eq_some_iff.mp ha
  rw [getConnectionItem] at ha
  by_cases hsize : getFd c < s.manager.fdsetSize
  · simp only [if_pos hsize] at ha
    by_cases hfree : (s.manager.items (getFd c)).connection.isSome = true
    · rw [if_pos hfree] at ha
      rwa [← (Prod.mk.inj (Option.some.inj ha)).2]
    · rw [if_neg hfree] at ha
      obtain ⟨s₁, htrack, ha⟩ := Option.bind_eq_some_iff.mp ha
      have hadded := h.occupied hobj hsize hfree
      have hmode := LawfulConnection.getIoMode c
      have hitem : ((s.manager.occupied (getFd c) con').items (getFd c)).connection =
          some con' := by
        rw [KssConnectionManager.occupied, setItem_self]
      have hs₁ : s₁.Steady P con := by
        by_cases hcon : con' = con
        · subst hcon
          exact hadded.trackCnxIoMode_steady hP hitem hobj (hnew rfl c hobj) hmode rfl htrack
        · have hother : Bypasses con s
              { s with manager := s.manager.occupied (getFd c) con' } :=
            ⟨rfl, fun i hi => (occupied_connection hi).resolve_left fun hown => hcon hown.2.symm⟩
          refine hs.bypass (hother.trans (hadded.trackCnxIoMode_bypasses hmode ?_ htrack))
          exact fun heq => hcon (Option.some.inj (hitem.symm.trans heq))
      rw [← (Prod.mk.inj (Option.some.inj ha)).2]
      exact hs₁
  · simp only [if_neg hsize] at ha
    rwa [← (Prod.mk.inj (Option.some.inj ha)).2]

/-- A call for another connection, which has a file descriptor of its own. -/
def Apart (s : CnxSystem C) (con : ℕ) : Op C Io → Prop
  | .change con' _ | .addConnection con' _ | .removeConnection con' => con' ≠ con
  | .trackConnection con' c _ | .resetConnection con' c _ =>
      con' ≠ con ∧ (s.manager.items (getFd c)).connection ≠ some con
  | _ => True

/-- Whatever happens to the connections takes the property from none. -/
theorem Invariant.perform_steady (h : s.Invariant 0) (hP : Stable P) (hs : s.Steady P con)
    {op : Op C Io} (hop : s.Apart con op) (hp : s.perform op = some s') : s'.Steady P con := by
  cases op with
  | construct c =>
    rw [← Option.some.inj hp]
    intro item c' hi hobj
    exact hs item c' hi ((update_of_ne (h.lt_next item con hi).ne ..).symm.trans hobj)
  | change con' c =>
    obtain ⟨old, -, -, -, rfl⟩ := change_eq hp
    exact hs.bypass (bypasses_objects (Ne.symm hop) _)
  | addConnection con' rounds =>
    obtain ⟨⟨ok, s₁⟩, ha, rfl⟩ := Option.map_eq_some_iff.mp hp
    exact h.addConnection_steady hP hs (fun heq => absurd heq hop) ha
  | removeConnection con' =>
    obtain ⟨⟨ok, s₁⟩, hr, rfl⟩ := Option.map_eq_some_iff.mp hp
    exact hs.bypass (removeConnection_bypasses hr)
  | trackConnection con' c rounds =>
    obtain ⟨s₀, hchange, hp⟩ := Option.bind_eq_some_iff.mp hp
    obtain ⟨⟨ok, s₁⟩, ht, rfl⟩ := Option.map_eq_some_iff.mp hp
    have hchanged := h.change hchange
    obtain ⟨old, -, -, -, rfl⟩ := change_eq hchange
    refine hs.bypass ((bypasses_objects (Ne.symm hop.1) _).trans
      (hchanged.trackConnection_bypasses (Ne.symm hop.1) (fun c' hobj => ?_) ht))
    have hself : update s.objects con' (some c) con' = some c := update_self ..
    obtain rfl := Option.some.inj (hself.symm.trans hobj)
    exact hop.2
  | resetConnection con' c rounds =>
    obtain ⟨s₀, hchange, hp⟩ := Option.bind_eq_some_iff.mp hp
    obtain ⟨⟨ok, s₁⟩, ht, rfl⟩ := Option.map_eq_some_iff.mp hp
    have hchanged := h.change hchange
    obtain ⟨old, -, -, -, rfl⟩ := change_eq hchange
    refine hs.bypass ((bypasses_objects (Ne.symm hop.1) _).trans
      (hchanged.resetConnection_bypasses (Ne.symm hop.1) (fun c' hobj => ?_) ht))
    have hself : update s.objects con' (some c) con' = some c := update_self ..
    obtain rfl := Option.some.inj (hself.symm.trans hobj)
    exact hop.2
  | processConnections readables writeables readTurns writeTurns =>
    obtain ⟨s₁, hwrite, hread⟩ := Option.bind_eq_some_iff.mp hp
    exact (h.processFds LawfulConnection.send hwrite).processFds_steady hP
      (h.processFds_steady hP hs LawfulConnection.send hP.send hwrite)
      LawfulConnection.receive hP.receive hread
  | processTimeout now turns => exact h.processTimeoutFrom_steady hP hs h.first_due hp
  | getNextServiceableConnection =>
    obtain ⟨⟨con', s₁⟩, hn, rfl⟩ := Option.map_eq_some_iff.mp hp
    exact hs.bypass ((getNext_cases hn).1 con)

end

end CnxSystem
end AcpltKs
