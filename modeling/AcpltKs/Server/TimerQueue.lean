import AcpltKs.Plt.PriorityQueueSearch

/-! The timer events of a server: their queue holds pointers, which are compared by the times at
which the events trigger. -/
namespace AcpltKs

/-- A time in microseconds. -/
abbrev KsTimePoint := ℤ

/-- A pointer to a timer event, which says when it triggers. -/
structure KsTimerEvent where
  address : ℕ
  triggersAt : KsTimePoint
  deriving DecidableEq

namespace KsTimerEvent

instance : Preorder KsTimerEvent where
  le e e' := e.triggersAt ≤ e'.triggersAt
  lt e e' := e.triggersAt < e'.triggersAt
  le_refl e := Int.le_refl e.triggersAt
  le_trans _ _ _ := Int.le_trans
  lt_iff_le_not_ge _ _ := Int.lt_iff_le_and_not_ge

instance : DecidableLE KsTimerEvent := fun e e' => Int.decLe e.triggersAt e'.triggersAt

instance : DecidableLT KsTimerEvent := fun e e' => Int.decLt e.triggersAt e'.triggersAt

instance : BEq KsTimerEvent := ⟨fun e e' => e.triggersAt == e'.triggersAt⟩

theorem beq_iff {e e' : KsTimerEvent} : (e == e') = true ↔ e.triggersAt = e'.triggersAt := by
  change (e.triggersAt == e'.triggersAt) = true ↔ _
  exact beq_iff_eq

instance : PltComparable KsTimerEvent where
  total e e' := Int.le_total e.triggersAt e'.triggersAt
  le_of_beq _ _ h := ⟨(beq_iff.mp h).le, (beq_iff.mp h).ge⟩

end KsTimerEvent

abbrev TimerQueue := PltPriorityQueue KsTimerEvent

namespace KsServerBase

def addTimerEvent (timerQueue : TimerQueue) (event : KsTimerEvent)
    (memory : NewArray KsTimerEvent) : Bool × TimerQueue := timerQueue.add event memory

def removeTimerEvent (timerQueue : TimerQueue) (event : KsTimerEvent) : Bool × TimerQueue :=
  timerQueue.remove event

end KsServerBase

/-- The event itself is removed, if it is in the queue, and nothing behind the queue is looked at. -/
def RemovesExactly (timerQueue : TimerQueue) (event : KsTimerEvent) : Prop :=
  let (ok, timerQueue') := KsServerBase.removeTimerEvent timerQueue event
  (ok = true ↔ event ∈ timerQueue.contents) ∧
    timerQueue'.contents = timerQueue.contents.erase event ∧
    (event ∉ timerQueue.contents → timerQueue' = timerQueue) ∧
    ∀ i ∈ timerQueue.removeInspects event, i < timerQueue.size

/-- The first event on the way of the search that triggers at the same time is the event itself, or
there is none and the event is not in the queue. -/
def FoundItself (timerQueue : TimerQueue) (event : KsTimerEvent) : Prop :=
  (∃ before after, timerQueue.onTheWay event = before ++ event :: after ∧
      ∀ e ∈ before, e.triggersAt ≠ event.triggersAt) ∨
    event ∉ timerQueue.contents ∧
      ∀ e ∈ timerQueue.onTheWay event, e.triggersAt ≠ event.triggersAt

theorem beq_false_iff {e e' : KsTimerEvent} : (e == e') = false ↔ e'.triggersAt ≠ e.triggersAt := by
  rw [← Bool.not_eq_true, KsTimerEvent.beq_iff, ne_comm]

theorem root_mem_removeInspects (timerQueue : TimerQueue) (event : KsTimerEvent) :
    0 ∈ timerQueue.removeInspects event :=
  List.mem_append_left _ List.mem_cons_self

theorem find_onTheWay {timerQueue : TimerQueue} {event found : KsTimerEvent}
    {before after : List KsTimerEvent}
    (hway : timerQueue.onTheWay event = before ++ found :: after)
    (hsame : event.triggersAt = found.triggersAt)
    (hbefore : ∀ e ∈ before, e.triggersAt ≠ event.triggersAt) :
    (timerQueue.onTheWay event).find? (event == ·) = some found :=
  List.find?_eq_some_iff_append.mpr ⟨KsTimerEvent.beq_iff.mpr hsame, before, after, hway,
    fun e he => by simpa using beq_false_iff.mpr (hbefore e he)⟩

/-- An event is removed exactly if the search finds it rather than another one of the same time. -/
theorem removesExactly_iff (timerQueue : TimerQueue) (event : KsTimerEvent) :
    RemovesExactly timerQueue event ↔
      timerQueue.size ≠ 0 ∧ FoundItself timerQueue event := by
  by_cases hempty : timerQueue.size = 0
  · refine iff_of_false (fun ⟨_, _, _, h⟩ => ?_) fun h => h.1 hempty
    exact absurd (h 0 (root_mem_removeInspects timerQueue event)) (by omega)
  have hinspects : ∀ i ∈ timerQueue.removeInspects event, i < timerQueue.size := fun i hi =>
    PltPriorityQueue.mem_removeInspects hempty hi
  unfold RemovesExactly KsServerBase.removeTimerEvent
  rw [and_iff_right hempty]
  obtain ⟨before, after, hway, hlt, hx, hbefore⟩ | ⟨hnone, hway⟩ :=
    PltPriorityQueue.locate_cases hempty event
  · obtain ⟨hok, hcontents⟩ := PltPriorityQueue.remove_of_found hlt
    generalize timerQueue.elems (timerQueue.locate event) = found at hway hx hcontents
    have hsame := KsTimerEvent.beq_iff.mp hx
    have hbefore' : ∀ e ∈ before, e.triggersAt ≠ event.triggersAt := fun e he =>
      beq_false_iff.mp (hbefore e he)
    simp only [hok, true_iff]
    constructor
    · rintro ⟨hmem, herase, -, -⟩
      have hfound : event = found := by
        rw [← Multiset.cons_erase hmem, herase] at hcontents
        exact (Multiset.cons_inj_left _).mp hcontents
      exact Or.inl ⟨before, after, by rw [hway, hfound], hbefore'⟩
    · rintro (⟨before', after', hway', hbefore''⟩ | ⟨-, hnone⟩)
      · have hfind := find_onTheWay hway hsame hbefore'
        rw [find_onTheWay hway' rfl hbefore''] at hfind
        obtain rfl := Option.some.inj hfind
        have hmem : event ∈ timerQueue.contents := by
          rw [hcontents]
          exact Multiset.mem_cons_self _ _
        exact ⟨hmem, by rw [hcontents, Multiset.erase_cons_head], fun h => absurd hmem h, hinspects⟩
      · exact absurd hsame.symm (hnone found (by rw [hway]; simp))
  · rw [PltPriorityQueue.remove_of_not_found (by omega)]
    have hway' : ∀ e ∈ timerQueue.onTheWay event, e.triggersAt ≠ event.triggersAt := fun e he =>
      beq_false_iff.mp (hway e he)
    simp only [Bool.false_eq_true, false_iff]
    constructor
    · exact fun ⟨hmem, _⟩ => Or.inr ⟨hmem, hway'⟩
    · rintro (⟨before, after, hmem, -⟩ | ⟨hmem, -⟩)
      · exact absurd rfl (hway' event (by rw [hmem]; simp))
      · exact ⟨hmem, (Multiset.erase_of_notMem hmem).symm, fun _ => trivial, hinspects⟩

/-- In a queue that is in order, it is enough that no other event triggers at the same time. -/
theorem removesExactly_of_ordered {timerQueue : TimerQueue} {event : KsTimerEvent}
    (horder : timerQueue.Ordered) (hne : timerQueue.size ≠ 0)
    (halone : ∀ e ∈ timerQueue.contents, e.triggersAt = event.triggersAt → e = event) :
    RemovesExactly timerQueue event := by
  refine (removesExactly_iff timerQueue event).mpr ⟨hne, ?_⟩
  obtain ⟨before, after, hway, hlt, hx, hbefore⟩ | ⟨hnone, hway⟩ :=
    PltPriorityQueue.locate_cases hne event
  · have hmem : timerQueue.elems (timerQueue.locate event) ∈ timerQueue.contents :=
      BinaryHeap.mem_contents.mpr ⟨_, hlt, rfl⟩
    rw [halone _ hmem (KsTimerEvent.beq_iff.mp hx).symm] at hway
    exact Or.inl ⟨before, after, hway, fun e he => beq_false_iff.mp (hbefore e he)⟩
  · obtain ⟨hlt, -⟩ | ⟨-, hall⟩ := PltPriorityQueue.locate_spec horder.1 event
    · omega
    · refine Or.inr ⟨fun hmem => ?_, fun e he => beq_false_iff.mp (hway e he)⟩
      exact beq_false_iff.mp (hall event hmem) rfl

/-- A queue into which one event has been put. -/
def oneEventQueue : TimerQueue :=
  (KsServerBase.addTimerEvent (.create (fun _ => ⟨0, 0⟩) 16 (some fun _ => ⟨0, 0⟩)) ⟨1, 5⟩ none).2

/-- Another event that triggers at the same time is removed instead. -/
theorem not_removesExactly_sameTime : ¬ RemovesExactly oneEventQueue ⟨2, 5⟩ := by
  rintro ⟨h, -⟩
  exact absurd (h.mp (by decide)) (by decide)

end AcpltKs
