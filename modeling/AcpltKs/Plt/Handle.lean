import AcpltKs.Library.GuardedRun
import Mathlib.Data.Finset.Card
import Mathlib.Data.Multiset.Count

/-! The handles of the PLT library, which count the references to the objects they are bound to. -/
namespace AcpltKs
open Function

inductive PltOwnership
  | unmanaged | malloc | new | arrayNew
  deriving DecidableEq

structure PltHandleBase where
  prep : Option ℕ
  palloc : Option ℕ
  deriving DecidableEq

/-- The kind of a tracker tells how it destroys the object. -/
structure PltAllocTracker where
  count : UInt32
  kind : PltOwnership

/-- The trackers there are, the objects handed over to trackers and those destroyed so far, and
whether all assertions held. -/
structure Tracking where
  trackers : ℕ → Option PltAllocTracker
  adopted : List (ℕ × PltOwnership)
  destroyed : List (ℕ × PltOwnership)
  asserted : Bool

namespace Tracking

/-- Assertions, preconditions and checks of the invariant -/
def assert (s : Tracking) (b : Bool) : Tracking := { s with asserted := s.asserted && b }

/-- `PltHandle_base::invariant` -/
def invariant (s : Tracking) (v : PltHandleBase) : Bool :=
  (v.prep.isNone && v.palloc.isNone) ||
    (v.prep.isSome && v.palloc.all fun a => (s.trackers a).any fun t => 0 < t.count)

/-- The greatest `unsigned` -/
def uintMax : UInt32 := 0xFFFFFFFF

def setCount (s : Tracking) (a : ℕ) (t : PltAllocTracker) (count : UInt32) : Tracking :=
  { s with trackers := update s.trackers a (some { t with count := count }) }

/-- A tracker that is gone cannot be asked, which counts as a failed assertion. -/
def retain (s : Tracking) (v : PltHandleBase) : Tracking :=
  match v.prep, v.palloc with
  | some _, some a =>
      match s.trackers a with
      | some t => s.setCount a t (t.count + 1)
      | none => s.assert false
  | _, _ => s

def addRef (s : Tracking) (v : PltHandleBase) : Tracking :=
  let s := s.assert (v.palloc.all fun a => (s.trackers a).all fun t => t.count < uintMax)
  let s := s.retain v
  s.assert (s.invariant v)

/-- The last reference takes the object with it. -/
def release (s : Tracking) (v : PltHandleBase) : Tracking × PltHandleBase :=
  match v.prep, v.palloc with
  | some p, some a =>
      match s.trackers a with
      | some t =>
          if t.count - 1 = 0 then
            ({ s with
              trackers := update s.trackers a none
              destroyed := (p, t.kind) :: s.destroyed }, ⟨none, none⟩)
          else (s.setCount a t (t.count - 1), v)
      | none => (s.assert false, v)
  | _, _ => (s, v)

def removeRef (s : Tracking) (v : PltHandleBase) : Tracking × PltHandleBase :=
  let (s, v) := s.release v
  (s.assert (s.invariant v), v)

/-- `PltHandle_base::bindTo` -/
def bindBase (s : Tracking) (v : PltHandleBase) (p a : Option ℕ) : Tracking × PltHandleBase :=
  let (s, v) := s.removeRef v
  let s := s.assert v.palloc.isNone
  let v := ⟨p, a⟩
  (s.assert (s.invariant v), v)

/-- A tracker is made for an object. -/
def adopt (s : Tracking) (p a : ℕ) (os : PltOwnership) : Tracking :=
  { s with trackers := update s.trackers a (some ⟨1, os⟩), adopted := (p, os) :: s.adopted }

/-- `PltHandle<T>::bindTo`; there may be no memory for the tracker. -/
def bindTo (s : Tracking) (v : PltHandleBase) (p : Option ℕ) (os : PltOwnership)
    (alloc : Option ℕ) : Tracking × PltHandleBase × Bool :=
  match p with
  | none =>
      let (s, v) := s.bindBase v none none
      (s, v, true)
  | some p =>
      if os = .unmanaged then
        let (s, v) := s.bindBase v (some p) none
        (s, v, true)
      else
        match alloc with
        | some a =>
            let (s, v) := (s.adopt p a os).bindBase v (some p) (some a)
            (s, v, true)
        | none => (s, v, false)

/-- The constructor that binds destroys the object if there is no memory for the tracker. -/
def construct (s : Tracking) (p : Option ℕ) (os : PltOwnership) (alloc : Option ℕ) :
    Tracking × PltHandleBase :=
  let (s, v, success) := s.bindTo ⟨none, none⟩ p os alloc
  let s := match p with
    | some p =>
        if success = false ∧ os ≠ PltOwnership.unmanaged then
          { s with adopted := (p, os) :: s.adopted, destroyed := (p, os) :: s.destroyed }
        else s
    | none => s
  (s.assert (s.invariant v), v)

/-- The copy constructor -/
def copy (s : Tracking) (h : PltHandleBase) : Tracking × PltHandleBase :=
  let v := h
  let s := if h.prep.isSome then s.addRef v else s
  (s.assert (s.invariant v), v)

end Tracking

/-- The handles there are, by their addresses. -/
structure Handles extends Tracking where
  live : Finset ℕ
  handle : ℕ → PltHandleBase

namespace Handles

def put (s : Handles) (h : ℕ) (outcome : Tracking × PltHandleBase) : Handles :=
  ⟨outcome.1, s.live, update s.handle h outcome.2⟩

/-- A handle is made where there was none. -/
def make (s : Handles) (h : ℕ) (outcome : Tracking × PltHandleBase) : Handles :=
  ⟨outcome.1, insert h s.live, update s.handle h outcome.2⟩

/-- `operator=`; the right-hand side is read again after the old object was released. -/
def assign (s : Handles) (h rhs : ℕ) : Handles :=
  let t := s.addRef (s.handle rhs)
  let s := s.put h (t.removeRef (s.handle h))
  let v := s.handle rhs
  s.put h (s.assert (s.invariant v), v)

def destroy (s : Handles) (h : ℕ) : Handles :=
  let s := s.put h (s.removeRef (s.handle h))
  { s with live := s.live.erase h }

end Handles

inductive HandleOperation
  | unbound (h : ℕ)
  | construct (h : ℕ) (p : Option ℕ) (os : PltOwnership) (alloc : Option ℕ)
  | copy (h rhs : ℕ)
  | assign (h rhs : ℕ)
  | bindTo (h : ℕ) (p : Option ℕ) (os : PltOwnership) (alloc : Option ℕ)
  | destroy (h : ℕ)

namespace Handles

def step (s : Handles) : HandleOperation → Handles
  | .unbound h => s.make h (s.assert (s.invariant ⟨none, none⟩), ⟨none, none⟩)
  | .construct h p os alloc => s.make h (s.construct p os alloc)
  | .copy h rhs => s.make h (s.copy (s.handle rhs))
  | .assign h rhs => s.assign h rhs
  | .bindTo h p os alloc =>
      let (t, v, _) := s.bindTo (s.handle h) p os alloc
      s.put h (t, v)
  | .destroy h => s.destroy h

def empty : Handles := ⟨⟨fun _ => none, [], [], true⟩, ∅, fun _ => ⟨none, none⟩⟩

end Handles

namespace Tracking

@[simp] theorem assert_trackers (s : Tracking) (b : Bool) :
    (s.assert b).trackers = s.trackers := rfl

@[simp] theorem assert_adopted (s : Tracking) (b : Bool) : (s.assert b).adopted = s.adopted := rfl

@[simp] theorem retain_adopted (s : Tracking) (v : PltHandleBase) :
    (s.retain v).adopted = s.adopted := by
  obtain ⟨_ | p, _ | a⟩ := v
  · rfl
  · rfl
  · rfl
  · cases ht : s.trackers a <;> simp only [retain, ht] <;> rfl

@[simp] theorem addRef_adopted (s : Tracking) (v : PltHandleBase) :
    (s.addRef v).adopted = s.adopted := by
  simp [addRef]

@[simp] theorem release_adopted (s : Tracking) (v : PltHandleBase) :
    (s.release v).1.adopted = s.adopted := by
  obtain ⟨_ | p, _ | a⟩ := v
  · rfl
  · rfl
  · rfl
  · cases ht : s.trackers a with
    | none => simp only [release, ht, assert_adopted]
    | some t =>
      simp only [release, ht]
      split_ifs <;> rfl

@[simp] theorem removeRef_adopted (s : Tracking) (v : PltHandleBase) :
    (s.removeRef v).1.adopted = s.adopted := release_adopted s v

@[simp] theorem bindBase_adopted (s : Tracking) (v : PltHandleBase) (p a : Option ℕ) :
    (s.bindBase v p a).1.adopted = s.adopted := removeRef_adopted s v

theorem copy_adopted (s : Tracking) (h : PltHandleBase) : (s.copy h).1.adopted = s.adopted := by
  unfold copy
  dsimp only
  split_ifs <;> simp

/-- The objects that have been handed over are managed. -/
def Managing (s : Tracking) : Prop := ∀ o ∈ s.adopted, o.2 ≠ .unmanaged

namespace Managing
variable {s s' : Tracking} {v : PltHandleBase} {p alloc : Option ℕ} {os : PltOwnership}

theorem of_adopted_eq (h : s.Managing) (heq : s'.adopted = s.adopted) : s'.Managing := by
  rwa [Managing, heq]

theorem bindTo (h : s.Managing) : (s.bindTo v p os alloc).1.Managing := by
  cases p with
  | none => exact h.of_adopted_eq (bindBase_adopted ..)
  | some p =>
    unfold Tracking.bindTo
    dsimp only
    split_ifs with hos
    · exact h.of_adopted_eq (bindBase_adopted ..)
    · cases alloc with
      | none => exact h
      | some a =>
        intro o ho
        rw [bindBase_adopted] at ho
        obtain rfl | ho := List.mem_cons.mp ho
        · exact hos
        · exact h o ho

theorem construct (h : s.Managing) : (s.construct p os alloc).1.Managing := by
  have hbind : (s.bindTo ⟨none, none⟩ p os alloc).1.Managing := h.bindTo
  cases p with
  | none => exact hbind
  | some p =>
    unfold Tracking.construct
    dsimp only
    split_ifs with hfailed
    · intro o ho
      obtain rfl | ho := List.mem_cons.mp ho
      · exact hfailed.2
      · exact hbind o ho
    · exact hbind

end Managing

@[simp] theorem assert_destroyed (s : Tracking) (b : Bool) :
    (s.assert b).destroyed = s.destroyed := rfl

@[simp] theorem assert_true (s : Tracking) : s.assert true = s := by
  unfold assert
  rw [Bool.and_true]

theorem setCount_trackers (s : Tracking) (a : ℕ) (t : PltAllocTracker) (count : UInt32) (b : ℕ) :
    (s.setCount a t count).trackers b = if b = a then some { t with count := count }
      else s.trackers b := by
  unfold setCount
  exact update_apply ..

/-- The kind of the tracker at an address. -/
def kindAt (s : Tracking) (a : ℕ) : Option PltOwnership := (s.trackers a).map (·.kind)

theorem setCount_kindAt {s : Tracking} {a : ℕ} {t : PltAllocTracker} (ht : s.trackers a = some t)
    (count : UInt32) (b : ℕ) : (s.setCount a t count).kindAt b = s.kindAt b := by
  unfold kindAt
  rw [setCount_trackers]
  split_ifs with hb
  · rw [hb, ht]
    rfl
  · rfl

/-- One of the handles makes a tracker keep the object. -/
def Holds (s : Tracking) (m : Multiset PltHandleBase) (o : ℕ × PltOwnership) : Prop :=
  ∃ a, ⟨some o.1, some a⟩ ∈ m ∧ s.kindAt a = some o.2

theorem holds_congr (s s' : Tracking) (m m' : Multiset PltHandleBase)
    (hmem : ∀ v : PltHandleBase, v.palloc ≠ none → (v ∈ m' ↔ v ∈ m))
    (hkind : ∀ a, s'.kindAt a = s.kindAt a) (o : ℕ × PltOwnership) :
    s'.Holds m' o ↔ s.Holds m o := by
  unfold Holds
  simp only [hkind]
  apply exists_congr
  intro a
  rw [hmem ⟨some o.1, some a⟩ (by simp)]

/-- The trackers count the handles `m`. Handles that share a tracker or a tracked object are equal,
so their number is that of the handles bound to the object. -/
structure Balanced (m : Multiset PltHandleBase) (s : Tracking) : Prop where
  asserted : s.asserted = true
  bound : ∀ v ∈ m, v.palloc ≠ none → v.prep ≠ none
  same : ∀ v ∈ m, ∀ w ∈ m, v.palloc ≠ none → w.palloc = v.palloc ∨ w.prep = v.prep → w = v
  counted : ∀ v ∈ m, ∀ a, v.palloc = some a →
    ∃ t, s.trackers a = some t ∧ t.count.toNat = m.count v
  kept : ∀ a t, s.trackers a = some t → ∃ v ∈ m, v.palloc = some a
  once : ∀ o, s.Holds m o → s.adopted.count o = s.destroyed.count o + 1
  gone : ∀ o, ¬ s.Holds m o → s.adopted.count o = s.destroyed.count o

namespace Balanced
variable {s : Tracking} {m : Multiset PltHandleBase} {v : PltHandleBase}

theorem invariant (h : Balanced m s) (hv : v ∈ m) : s.invariant v = true := by
  obtain ⟨prep, palloc⟩ := v
  cases palloc with
  | none => cases prep <;> rfl
  | some a =>
    obtain ⟨p, rfl⟩ := Option.ne_none_iff_exists'.mp (h.bound _ hv (by simp))
    obtain ⟨t, ht, hcount⟩ := h.counted _ hv a rfl
    have hpos : 0 < t.count := by
      rw [UInt32.lt_iff_toNat_lt, hcount]
      exact Multiset.count_pos.mpr hv
    simp [Tracking.invariant, ht, hpos]

/-- Handles without a tracker come and go unnoticed. -/
theorem cons_untracked {p : Option ℕ} (h : Balanced m s)
    (hp : ∀ v ∈ m, v.palloc ≠ none → v.prep ≠ p) : Balanced (⟨p, none⟩ ::ₘ m) s := by
  have hholds := holds_congr s s m (⟨p, none⟩ ::ₘ m) (by
    intro v hv
    rw [Multiset.mem_cons, or_iff_right]
    rintro rfl
    exact hv rfl) (fun _ => rfl)
  refine ⟨h.asserted, ?_, ?_, ?_, ?_, fun o ho => h.once o ((hholds o).mp ho),
    fun o ho => h.gone o fun hheld => ho ((hholds o).mpr hheld)⟩
  · intro v hv hpalloc
    obtain rfl | hv := Multiset.mem_cons.mp hv
    · exact absurd rfl hpalloc
    · exact h.bound v hv hpalloc
  · intro v hv w hw hpalloc hshare
    obtain rfl | hv := Multiset.mem_cons.mp hv
    · exact absurd rfl hpalloc
    · obtain rfl | hw := Multiset.mem_cons.mp hw
      · obtain heq | heq := hshare
        · exact absurd heq.symm hpalloc
        · exact absurd heq.symm (hp v hv hpalloc)
      · exact h.same v hv w hw hpalloc hshare
  · intro v hv a ha
    obtain rfl | hv := Multiset.mem_cons.mp hv
    · cases ha
    · rw [Multiset.count_cons_of_ne]
      · exact h.counted v hv a ha
      · rintro rfl
        cases ha
  · intro a t ht
    obtain ⟨v, hv, ha⟩ := h.kept a t ht
    exact ⟨v, Multiset.mem_cons_of_mem hv, ha⟩

theorem of_cons_untracked {p : Option ℕ} (h : Balanced (⟨p, none⟩ ::ₘ m) s) : Balanced m s := by
  have hholds := holds_congr s s m (⟨p, none⟩ ::ₘ m) (by
    intro v hv
    rw [Multiset.mem_cons, or_iff_right]
    rintro rfl
    exact hv rfl) (fun _ => rfl)
  refine ⟨h.asserted, ?_, ?_, ?_, ?_, fun o ho => h.once o ((hholds o).mpr ho),
    fun o ho => h.gone o fun hheld => ho ((hholds o).mp hheld)⟩
  · intro v hv
    exact h.bound v (Multiset.mem_cons_of_mem hv)
  · intro v hv w hw
    exact h.same v (Multiset.mem_cons_of_mem hv) w (Multiset.mem_cons_of_mem hw)
  · intro v hv a ha
    obtain ⟨t, ht, hcount⟩ := h.counted v (Multiset.mem_cons_of_mem hv) a ha
    refine ⟨t, ht, ?_⟩
    rw [hcount, Multiset.count_cons_of_ne]
    rintro rfl
    cases ha
  · intro a t ht
    obtain ⟨v, hv, ha⟩ := h.kept a t ht
    obtain rfl | hv := Multiset.mem_cons.mp hv
    · cases ha
    · exact ⟨v, hv, ha⟩

/-- One reference more or less to an object that stays. -/
theorem recount {a : ℕ} {t : PltAllocTracker} {m' : Multiset PltHandleBase} {count : UInt32}
    (h : Balanced m s) (ht : s.trackers a = some t) (hv : v ∈ m) (ha : v.palloc = some a)
    (hmem : ∀ w, w ∈ m' ↔ w ∈ m) (hcount : count.toNat = m'.count v)
    (hother : ∀ w, w ≠ v → m'.count w = m.count w) : Balanced m' (s.setCount a t count) := by
  have hholds := holds_congr s (s.setCount a t count) m m'
    (fun w _ => hmem w) (setCount_kindAt ht count)
  refine ⟨h.asserted, ?_, ?_, ?_, ?_, fun o ho => h.once o ((hholds o).mp ho),
    fun o ho => h.gone o fun hheld => ho ((hholds o).mpr hheld)⟩
  · simpa only [hmem] using h.bound
  · simpa only [hmem] using h.same
  · intro w hw b hb
    rw [hmem] at hw
    rw [setCount_trackers]
    by_cases hba : b = a
    · have hwv : w = v := h.same v hv w hw (by simp [ha]) (Or.inl (by rw [hb, ha, hba]))
      exact ⟨_, if_pos hba, by rw [hwv, ← hcount]⟩
    · obtain ⟨t', ht', hcount'⟩ := h.counted w hw b hb
      have hwv : w ≠ v := by
        rintro rfl
        exact hba (Option.some_inj.mp (hb.symm.trans ha))
      exact ⟨t', by rw [if_neg hba, ht'], by rw [hother w hwv, hcount']⟩
  · intro b t' ht'
    simp only [hmem]
    by_cases hba : b = a
    · exact ⟨v, hv, hba ▸ ha⟩
    · rw [setCount_trackers, if_neg hba] at ht'
      exact h.kept b t' ht'

/-- The last reference to an object goes, and the object with it. -/
theorem last {a p : ℕ} {t : PltAllocTracker} (h : Balanced (⟨some p, some a⟩ ::ₘ m) s)
    (ht : s.trackers a = some t) (hlast : (⟨some p, some a⟩ : PltHandleBase) ∉ m) :
    Balanced m { s with
      trackers := update s.trackers a none, destroyed := (p, t.kind) :: s.destroyed } := by
  have hv := Multiset.mem_cons_self (⟨some p, some a⟩ : PltHandleBase) m
  have hapart : ∀ w ∈ m, w.palloc ≠ some a ∧ w.prep ≠ some p := by
    intro w hw
    constructor <;> intro heq
    · exact hlast (h.same _ hv w (Multiset.mem_cons_of_mem hw) (by simp) (Or.inl heq) ▸ hw)
    · exact hlast (h.same _ hv w (Multiset.mem_cons_of_mem hw) (by simp) (Or.inr heq) ▸ hw)
  have hnot : ∀ b, b ≠ a → (⟨some p, some b⟩ : PltHandleBase) ∉ m :=
    fun b _ hb => (hapart _ hb).2 rfl
  have hholds : ∀ o, Holds { s with
      trackers := update s.trackers a none, destroyed := (p, t.kind) :: s.destroyed } m o ↔
      s.Holds (⟨some p, some a⟩ ::ₘ m) o ∧ o ≠ (p, t.kind) := by
    intro o
    unfold Holds kindAt
    constructor
    · rintro ⟨b, hb, hkind⟩
      have hba : b ≠ a := by
        rintro rfl
        exact (hapart _ hb).1 rfl
      dsimp only at hkind
      rw [update_of_ne hba] at hkind
      refine ⟨⟨b, Multiset.mem_cons_of_mem hb, hkind⟩, ?_⟩
      rintro rfl
      exact (hapart _ hb).2 rfl
    · rintro ⟨⟨b, hb, hkind⟩, ho⟩
      obtain heq | hold := Multiset.mem_cons.mp hb
      · obtain ⟨hprep, hpalloc⟩ := PltHandleBase.mk.inj heq
        rw [Option.some_inj] at hprep hpalloc
        rw [hpalloc, ht, Option.map_some, Option.some_inj] at hkind
        exact absurd (Prod.ext hprep hkind.symm) ho
      · have hba : b ≠ a := by
          rintro rfl
          exact (hapart _ hold).1 rfl
        refine ⟨b, hold, ?_⟩
        dsimp only
        rwa [update_of_ne hba]
  refine ⟨h.asserted, ?_, ?_, ?_, ?_, ?_, ?_⟩
  · intro w hw
    exact h.bound w (Multiset.mem_cons_of_mem hw)
  · intro w hw w' hw'
    exact h.same w (Multiset.mem_cons_of_mem hw) w' (Multiset.mem_cons_of_mem hw')
  · intro w hw b hb
    have hba : b ≠ a := by
      rintro rfl
      exact (hapart w hw).1 hb
    obtain ⟨t', ht', hcount⟩ := h.counted w (Multiset.mem_cons_of_mem hw) b hb
    refine ⟨t', (update_of_ne hba ..).trans ht', ?_⟩
    rw [hcount, Multiset.count_cons_of_ne]
    rintro rfl
    exact hlast hw
  · intro b t' ht'
    have hba : b ≠ a := by
      rintro rfl
      simp at ht'
    obtain ⟨w, hw, hwb⟩ := h.kept b t' ((update_of_ne hba ..).symm.trans ht')
    obtain rfl | hw := Multiset.mem_cons.mp hw
    · exact absurd (Option.some_inj.mp hwb).symm hba
    · exact ⟨w, hw, hwb⟩
  · intro o ho
    obtain ⟨ho, hne⟩ := (hholds o).mp ho
    rw [List.count_cons_of_ne hne.symm]
    exact h.once o ho
  · intro o ho
    by_cases heq : o = (p, t.kind)
    · subst heq
      rw [List.count_cons_self]
      apply h.once
      exact ⟨a, hv, by rw [kindAt, ht, Option.map_some]⟩
    · rw [List.count_cons_of_ne (Ne.symm heq)]
      exact h.gone o fun hheld => ho ((hholds o).mpr ⟨hheld, heq⟩)

/-- A tracker is made for an object that no handle is bound to. -/
theorem adopt {p a : ℕ} (h : Balanced m s) (hp : ∀ v ∈ m, v.prep ≠ some p)
    (ha : s.trackers a = none) (os : PltOwnership) :
    Balanced (⟨some p, some a⟩ ::ₘ m) (s.adopt p a os) := by
  have hapart : ∀ w ∈ m, w.palloc ≠ some a := by
    intro w hw heq
    obtain ⟨t, ht, -⟩ := h.counted w hw a heq
    rw [ha] at ht
    cases ht
  have hholds : ∀ o, (s.adopt p a os).Holds (⟨some p, some a⟩ ::ₘ m) o ↔
      o = (p, os) ∨ s.Holds m o := by
    intro o
    unfold Holds kindAt Tracking.adopt
    dsimp only
    constructor
    · rintro ⟨b, hb, hkind⟩
      obtain heq | hold := Multiset.mem_cons.mp hb
      · obtain ⟨hprep, hpalloc⟩ := PltHandleBase.mk.inj heq
        rw [Option.some_inj] at hprep hpalloc
        rw [hpalloc, update_self, Option.map_some, Option.some_inj] at hkind
        exact Or.inl (Prod.ext hprep hkind.symm)
      · have hba : b ≠ a := by
          rintro rfl
          exact hapart _ hold rfl
        rw [update_of_ne hba] at hkind
        exact Or.inr ⟨b, hold, hkind⟩
    · rintro (rfl | ⟨b, hb, hkind⟩)
      · exact ⟨a, Multiset.mem_cons_self _ _, by rw [update_self, Option.map_some]⟩
      · have hba : b ≠ a := by
          rintro rfl
          exact hapart _ hb rfl
        exact ⟨b, Multiset.mem_cons_of_mem hb, by rwa [update_of_ne hba]⟩
  have hfresh : ¬ s.Holds m (p, os) := by
    rintro ⟨b, hb, -⟩
    exact hp _ hb rfl
  refine ⟨h.asserted, ?_, ?_, ?_, ?_, ?_, ?_⟩
  · intro v hv hpalloc
    obtain rfl | hv := Multiset.mem_cons.mp hv
    · simp
    · exact h.bound v hv hpalloc
  · intro v hv w hw hpalloc hshare
    obtain rfl | hv := Multiset.mem_cons.mp hv
    · obtain rfl | hw := Multiset.mem_cons.mp hw
      · rfl
      · exact (hshare.elim (hapart w hw) (hp w hw)).elim
    · obtain rfl | hw := Multiset.mem_cons.mp hw
      · exact (hshare.elim (fun heq => hapart v hv heq.symm) (fun heq => hp v hv heq.symm)).elim
      · exact h.same v hv w hw hpalloc hshare
  · intro v hv b hb
    obtain rfl | hold := Multiset.mem_cons.mp hv
    · obtain rfl : a = b := Option.some_inj.mp hb
      refine ⟨⟨1, os⟩, update_self .., ?_⟩
      rw [Multiset.count_cons_self, Multiset.count_eq_zero_of_notMem fun hmem => hp _ hmem rfl]
      rfl
    · obtain ⟨t, ht, hcount⟩ := h.counted v hold b hb
      have hba : b ≠ a := by
        rintro rfl
        exact hapart v hold hb
      refine ⟨t, (update_of_ne hba ..).trans ht, ?_⟩
      rw [hcount, Multiset.count_cons_of_ne]
      rintro rfl
      exact hp _ hold rfl
  · intro b t ht
    by_cases hba : b = a
    · exact ⟨_, Multiset.mem_cons_self _ _, hba ▸ rfl⟩
    · obtain ⟨v, hv, hvb⟩ := h.kept b t ((update_of_ne hba ..).symm.trans ht)
      exact ⟨v, Multiset.mem_cons_of_mem hv, hvb⟩
  · intro o ho
    unfold Tracking.adopt
    dsimp only
    obtain rfl | ho := (hholds o).mp ho
    · rw [List.count_cons_self, h.gone _ hfresh]
    · have hne : (p, os) ≠ o := by
        rintro rfl
        exact hfresh ho
      rw [List.count_cons_of_ne hne]
      exact h.once o ho
  · intro o ho
    unfold Tracking.adopt
    dsimp only
    have hne : (p, os) ≠ o := fun heq => ho ((hholds o).mpr (Or.inl heq.symm))
    rw [List.count_cons_of_ne hne]
    exact h.gone o fun hheld => ho ((hholds o).mpr (Or.inr hheld))

/-- A reference is taken more; there are fewer than an `unsigned` can count. -/
theorem addRef (h : Balanced m s) (hv : v ∈ m)
    (hmax : ∀ a t, v.palloc = some a → s.trackers a = some t → t.count ≠ uintMax) :
    Balanced (v ::ₘ m) (s.addRef v) := by
  have hretain : Balanced (v ::ₘ m) (s.retain v) := by
    obtain ⟨prep, palloc⟩ := v
    cases palloc with
    | none =>
      have heq : s.retain ⟨prep, none⟩ = s := by cases prep <;> rfl
      rw [heq]
      apply h.cons_untracked
      intro w hw hpalloc hprep
      have hsame := h.same w hw _ hv hpalloc (Or.inr hprep.symm)
      exact hpalloc (hsame ▸ rfl)
    | some a =>
      obtain ⟨p, rfl⟩ := Option.ne_none_iff_exists'.mp (h.bound _ hv (by simp))
      obtain ⟨t, ht, hcount⟩ := h.counted _ hv a rfl
      have heq : s.retain ⟨some p, some a⟩ = s.setCount a t (t.count + 1) := by
        simp only [Tracking.retain, ht]
      rw [heq]
      apply h.recount ht hv rfl
      · intro w
        rw [Multiset.mem_cons, or_iff_right_of_imp]
        rintro rfl
        exact hv
      · have hlt : t.count.toNat ≠ 4294967295 := fun hmaxcount =>
          hmax a t rfl ht (UInt32.toNat_inj.mp hmaxcount)
        have hbound := t.count.toNat_lt
        rw [Multiset.count_cons_self, ← hcount, UInt32.toNat_add]
        exact Nat.mod_eq_of_lt (by simp; omega)
      · intro w hw
        exact Multiset.count_cons_of_ne hw m
  have hpre : (v.palloc.all fun a => (s.trackers a).all fun t => t.count < uintMax) = true := by
    simp only [Option.all_eq_true, decide_eq_true_eq]
    intro a ha t ht
    have hne := hmax a t ha ht
    have hbound := t.count.toNat_lt
    rw [UInt32.lt_iff_toNat_lt]
    have hne' : t.count.toNat ≠ uintMax.toNat := fun heq => hne (UInt32.toNat_inj.mp heq)
    have hmaxval : uintMax.toNat = 4294967295 := rfl
    omega
  unfold Tracking.addRef
  rw [hpre, assert_true]
  dsimp only
  rw [hretain.invariant (Multiset.mem_cons_self v m), assert_true]
  exact hretain

/-- A reference is dropped. The handle stays as it was unless its object went with it. -/
theorem removeRef (h : Balanced (v ::ₘ m) s) :
    Balanced m (s.removeRef v).1 ∧
      (s.removeRef v).2 = if v.palloc ≠ none ∧ v ∉ m then ⟨none, none⟩ else v := by
  have hv := Multiset.mem_cons_self v m
  have hinv := h.invariant hv
  obtain ⟨prep, palloc⟩ := v
  unfold Tracking.removeRef
  cases palloc with
  | none =>
    have heq : s.release ⟨prep, none⟩ = (s, ⟨prep, none⟩) := by cases prep <;> rfl
    simp only [heq, hinv, assert_true]
    exact ⟨h.of_cons_untracked, by simp⟩
  | some a =>
    obtain ⟨p, rfl⟩ := Option.ne_none_iff_exists'.mp (h.bound _ hv (by simp))
    obtain ⟨t, ht, hcount⟩ := h.counted _ hv a rfl
    rw [Multiset.count_cons_self] at hcount
    have hsub : (t.count - 1).toNat = m.count (⟨some p, some a⟩ : PltHandleBase) := by
      have hle : (1 : UInt32) ≤ t.count := by
        rw [UInt32.le_iff_toNat_le, hcount]
        exact Nat.le_add_left _ _
      rw [UInt32.toNat_sub_of_le _ _ hle, hcount]
      rfl
    by_cases hlast : (⟨some p, some a⟩ : PltHandleBase) ∈ m
    · have hcount' : t.count - 1 ≠ 0 := by
        intro hzero
        rw [hzero] at hsub
        exact absurd hsub.symm (Nat.ne_of_gt (Multiset.count_pos.mpr hlast))
      have heq : s.release ⟨some p, some a⟩ =
          (s.setCount a t (t.count - 1), ⟨some p, some a⟩) := by
        simp only [Tracking.release, ht, if_neg hcount']
      have hbalanced : Balanced m (s.setCount a t (t.count - 1)) := by
        apply h.recount ht hv rfl
        · intro w
          rw [Multiset.mem_cons, or_iff_right_of_imp]
          rintro rfl
          exact hlast
        · exact hsub
        · intro w hw
          exact (Multiset.count_cons_of_ne hw m).symm
      simp only [heq, hbalanced.invariant hlast, assert_true]
      exact ⟨hbalanced, by simp [hlast]⟩
    · have hcount' : t.count - 1 = 0 := by
        rw [← UInt32.toNat_inj, hsub, Multiset.count_eq_zero_of_notMem hlast]
        rfl
      have heq : s.release ⟨some p, some a⟩ = ({ s with
          trackers := update s.trackers a none, destroyed := (p, t.kind) :: s.destroyed },
          ⟨none, none⟩) := by
        simp only [Tracking.release, ht, if_pos hcount']
      rw [heq]
      refine ⟨?_, by simp [hlast]⟩
      change Balanced m (assert _ true)
      rw [assert_true]
      exact h.last ht hlast

/-- The new object is there when the old one is released, which no other handle is bound to. -/
theorem bindBase {p a : Option ℕ} (h : Balanced (v ::ₘ ⟨p, a⟩ ::ₘ m) s)
    (hsole : v.palloc ≠ none → v ∉ ⟨p, a⟩ ::ₘ m) :
    Balanced (⟨p, a⟩ ::ₘ m) (s.bindBase v p a).1 := by
  obtain ⟨hbalanced, hunbound⟩ := h.removeRef
  have hnone : (s.removeRef v).2.palloc = none := by
    rw [hunbound]
    by_cases hpalloc : v.palloc = none
    · rw [if_neg fun hboth => hboth.1 hpalloc]
      exact hpalloc
    · rw [if_pos ⟨hpalloc, hsole hpalloc⟩]
  unfold Tracking.bindBase
  simp only [hnone, Option.isNone_none, assert_true,
    hbalanced.invariant (Multiset.mem_cons_self _ _)]
  exact hbalanced

/-- Where another handle is bound to the old object as well, an assertion fails. -/
theorem bindBase_shared {p a : Option ℕ} (h : Balanced (v ::ₘ m) s) (hv : v.palloc ≠ none)
    (hshared : v ∈ m) : (s.bindBase v p a).1.asserted = false := by
  obtain ⟨-, hunbound⟩ := h.removeRef
  rw [if_neg fun hboth => hboth.2 hshared] at hunbound
  have hsome : v.palloc.isNone = false := by
    cases hpalloc : v.palloc with
    | none => exact absurd hpalloc hv
    | some a => rfl
  simp [Tracking.bindBase, hunbound, hsome, assert]

/-- An object and its tracker can be handed over: no handle is bound to it, or to a tracked object
that is to be unmanaged, and the tracker is new. -/
structure Offers (s : Tracking) (m : Multiset PltHandleBase) (p : Option ℕ) (os : PltOwnership)
    (alloc : Option ℕ) : Prop where
  untracked : p ≠ none → ∀ v ∈ m, v.palloc ≠ none → v.prep ≠ p
  unbound : p ≠ none → os ≠ .unmanaged → ∀ v ∈ m, v.prep ≠ p
  fresh : ∀ a ∈ alloc, s.trackers a = none

/-- There is memory for a tracker, or none is needed. -/
def Rebinds (p : Option ℕ) (os : PltOwnership) (alloc : Option ℕ) : Prop :=
  p = none ∨ os = .unmanaged ∨ alloc ≠ none

/-- What `bindTo` hands to the base class is counted before the old object is released. -/
theorem bindTo_eq {p alloc : Option ℕ} {os : PltOwnership} (h : Balanced m s)
    (hoffers : Offers s m p os alloc) :
    (¬ Rebinds p os alloc ∧ s.bindTo v p os alloc = (s, v, false)) ∨
      Rebinds p os alloc ∧ ∃ t a, Balanced (⟨p, a⟩ ::ₘ m) t ∧ (v ∈ m → v.palloc ≠ none →
        v ≠ ⟨p, a⟩) ∧ (s.bindTo v p os alloc).1 = (t.bindBase v p a).1 ∧
        (s.bindTo v p os alloc).2 = (⟨p, a⟩, true) := by
  cases p with
  | none =>
    refine Or.inr ⟨Or.inl rfl, s, none, h.cons_untracked ?_, ?_, rfl, rfl⟩
    · exact h.bound
    · rintro - hpalloc rfl
      exact hpalloc rfl
  | some p =>
    by_cases hos : os = .unmanaged
    · refine Or.inr ⟨Or.inr (Or.inl hos), s, none,
        h.cons_untracked (hoffers.untracked (by simp)), ?_, ?_, ?_⟩
      · rintro - hpalloc rfl
        exact hpalloc rfl
      · simp only [Tracking.bindTo, if_pos hos]
      · simp only [Tracking.bindTo, if_pos hos, Tracking.bindBase]
    · cases alloc with
      | none =>
        left
        refine ⟨?_, by simp only [Tracking.bindTo, if_neg hos]⟩
        rintro (hnone | hunmanaged | hnone)
        · cases hnone
        · exact hos hunmanaged
        · exact hnone rfl
      | some a =>
        have hfree := hoffers.unbound (by simp) hos
        refine Or.inr ⟨Or.inr (Or.inr (by simp)), s.adopt p a os, some a,
          h.adopt hfree (hoffers.fresh a rfl) os, ?_, ?_, ?_⟩
        · rintro hv - rfl
          exact hfree _ hv rfl
        · simp only [Tracking.bindTo, if_neg hos]
        · simp only [Tracking.bindTo, if_neg hos, Tracking.bindBase]

/-- Rebinding a handle that shares its old object with no other. -/
theorem bindTo {p alloc : Option ℕ} {os : PltOwnership} (h : Balanced (v ::ₘ m) s)
    (hoffers : Offers s (v ::ₘ m) p os alloc)
    (hsole : Rebinds p os alloc → v.palloc ≠ none → v ∉ m) :
    Balanced ((s.bindTo v p os alloc).2.1 ::ₘ m) (s.bindTo v p os alloc).1 := by
  obtain ⟨-, heq⟩ | ⟨hrebinds, t, a, hbalanced, hne, hstate, hhandle⟩ := h.bindTo_eq hoffers (v := v)
  · rw [heq]
    exact h
  · rw [hstate, hhandle]
    rw [Multiset.cons_swap] at hbalanced
    apply hbalanced.bindBase
    intro hpalloc hmem
    obtain heq | hmem := Multiset.mem_cons.mp hmem
    · exact hne (Multiset.mem_cons_self v m) hpalloc heq
    · exact hsole hrebinds hpalloc hmem

/-- Rebinding a handle that shares its old object. -/
theorem bindTo_shared {p alloc : Option ℕ} {os : PltOwnership} (h : Balanced (v ::ₘ m) s)
    (hoffers : Offers s (v ::ₘ m) p os alloc) (hrebinds : Rebinds p os alloc)
    (hv : v.palloc ≠ none) (hshared : v ∈ m) : (s.bindTo v p os alloc).1.asserted = false := by
  obtain ⟨hnot, -⟩ | ⟨-, t, a, hbalanced, -, hstate, -⟩ := h.bindTo_eq hoffers (v := v)
  · exact absurd hrebinds hnot
  · rw [hstate]
    rw [Multiset.cons_swap] at hbalanced
    exact hbalanced.bindBase_shared hv (Multiset.mem_cons_of_mem hshared)

/-- An object that no tracker could be made for. -/
theorem reject (h : Balanced m s) (o : ℕ × PltOwnership) :
    Balanced m { s with adopted := o :: s.adopted, destroyed := o :: s.destroyed } := by
  refine ⟨h.asserted, h.bound, h.same, h.counted, h.kept, ?_, ?_⟩
  · intro o' ho'
    have hcount := h.once o' ho'
    rw [List.count_cons, List.count_cons]
    omega
  · intro o' ho'
    have hcount := h.gone o' ho'
    rw [List.count_cons, List.count_cons]
    omega

theorem construct {p alloc : Option ℕ} {os : PltOwnership} (h : Balanced m s)
    (hoffers : Offers s m p os alloc) :
    Balanced ((s.construct p os alloc).2 ::ₘ m) (s.construct p os alloc).1 := by
  have hunbound : Balanced (⟨none, none⟩ ::ₘ m) s := h.cons_untracked h.bound
  have hoffers' : Offers s (⟨none, none⟩ ::ₘ m) p os alloc := by
    refine ⟨?_, ?_, hoffers.fresh⟩
    · intro hp w hw hpalloc
      obtain rfl | hold := Multiset.mem_cons.mp hw
      · exact absurd rfl hpalloc
      · exact hoffers.untracked hp w hold hpalloc
    · intro hp hos w hw
      obtain rfl | hold := Multiset.mem_cons.mp hw
      · exact hp.symm
      · exact hoffers.unbound hp hos w hold
  have hbind := hunbound.bindTo hoffers' (fun _ hpalloc => absurd rfl hpalloc)
  have hbound : Balanced ((s.bindTo ⟨none, none⟩ p os alloc).2.1 ::ₘ m)
      (match p with
        | some p =>
            if (s.bindTo ⟨none, none⟩ p os alloc).2.2 = false ∧ os ≠ PltOwnership.unmanaged then
              { (s.bindTo ⟨none, none⟩ p os alloc).1 with
                adopted := (p, os) :: (s.bindTo ⟨none, none⟩ p os alloc).1.adopted
                destroyed := (p, os) :: (s.bindTo ⟨none, none⟩ p os alloc).1.destroyed }
            else (s.bindTo ⟨none, none⟩ p os alloc).1
        | none => (s.bindTo ⟨none, none⟩ p os alloc).1) := by
    cases p with
    | none => exact hbind
    | some p =>
      dsimp only
      split_ifs
      · exact hbind.reject (p, os)
      · exact hbind
  have hinv := hbound.invariant (Multiset.mem_cons_self _ _)
  unfold Tracking.construct
  dsimp only
  cases p with
  | none =>
    dsimp only at hinv hbound ⊢
    rw [hinv, assert_true]
    exact hbound
  | some p =>
    dsimp only at hinv hbound ⊢
    rw [hinv, assert_true]
    exact hbound

theorem copy (h : Balanced m s) (hv : v ∈ m)
    (hmax : ∀ a t, v.palloc = some a → s.trackers a = some t → t.count ≠ uintMax) :
    Balanced ((s.copy v).2 ::ₘ m) (s.copy v).1 := by
  have hcopied : Balanced (v ::ₘ m) (if v.prep.isSome then s.addRef v else s) := by
    obtain ⟨prep, palloc⟩ := v
    cases prep with
    | none =>
      have hpalloc : palloc = none := by
        by_contra hne
        exact h.bound _ hv hne rfl
      subst hpalloc
      exact h.cons_untracked h.bound
    | some p => exact h.addRef hv hmax
  unfold Tracking.copy
  dsimp only
  rw [hcopied.invariant (Multiset.mem_cons_self v m), assert_true]
  exact hcopied

end Balanced

section
variable {s : Tracking} {v : PltHandleBase}

/-! A failed assertion is not forgotten. -/

theorem assert_failed (h : s.asserted = false) (b : Bool) : (s.assert b).asserted = false := by
  unfold assert
  rw [h, Bool.false_and]

theorem retain_failed (h : s.asserted = false) : (s.retain v).asserted = false := by
  unfold retain
  split
  · split
    · exact h
    · exact assert_failed h _
  · exact h

theorem release_failed (h : s.asserted = false) : (s.release v).1.asserted = false := by
  unfold release
  split
  · split
    · split
      · exact h
      · exact h
    · exact assert_failed h _
  · exact h

theorem removeRef_failed (h : s.asserted = false) : (s.removeRef v).1.asserted = false :=
  assert_failed (release_failed h) _

/-- There are as many references as an `unsigned` can count. -/
theorem addRef_overflow {a : ℕ} {t : PltAllocTracker} (ha : v.palloc = some a)
    (ht : s.trackers a = some t) (hmax : t.count = uintMax) : (s.addRef v).asserted = false := by
  have hpre : (v.palloc.all fun a => (s.trackers a).all fun t => t.count < uintMax) = false := by
    simp [ha, ht, hmax, uintMax]
  unfold addRef
  rw [hpre]
  apply assert_failed
  apply retain_failed
  exact Bool.and_false _

theorem copy_overflow {a : ℕ} {t : PltAllocTracker} (hv : v.prep ≠ none) (ha : v.palloc = some a)
    (ht : s.trackers a = some t) (hmax : t.count = uintMax) : (s.copy v).1.asserted = false := by
  have hsome : v.prep.isSome = true := Option.isSome_iff_ne_none.mpr hv
  unfold copy
  dsimp only
  rw [if_pos hsome]
  exact assert_failed (addRef_overflow ha ht hmax) _

end

end Tracking

namespace Handles
variable {s : Handles} {h : ℕ}

/-- The handles there are. -/
def values (s : Handles) : Multiset PltHandleBase := s.live.val.map s.handle

/-- All handles but one. -/
def others (s : Handles) (h : ℕ) : Multiset PltHandleBase := (s.live.erase h).val.map s.handle

theorem mem_values {v : PltHandleBase} : v ∈ s.values ↔ ∃ h ∈ s.live, s.handle h = v :=
  Multiset.mem_map

theorem values_eq (hh : h ∈ s.live) : s.values = s.handle h ::ₘ s.others h := by
  unfold values others
  rw [Finset.erase_val, ← Multiset.map_cons, Multiset.cons_erase hh]

theorem others_update (v : PltHandleBase) :
    (s.live.erase h).val.map (update s.handle h v) = s.others h := by
  apply Multiset.map_congr rfl
  intro g hg
  exact update_of_ne (Finset.ne_of_mem_erase hg) ..

theorem values_put (hh : h ∈ s.live) (outcome : Tracking × PltHandleBase) :
    (s.put h outcome).values = outcome.2 ::ₘ s.others h := by
  have hput : (s.put h outcome).handle h = outcome.2 := update_self ..
  rw [values_eq (s := s.put h outcome) hh, hput]
  congr 1
  exact others_update outcome.2

theorem others_put (outcome : Tracking × PltHandleBase) :
    (s.put h outcome).others h = s.others h := others_update outcome.2

theorem values_make (hh : h ∉ s.live) (outcome : Tracking × PltHandleBase) :
    (s.make h outcome).values = outcome.2 ::ₘ s.values := by
  unfold values make
  dsimp only
  rw [Finset.insert_val_of_notMem hh, Multiset.map_cons, update_self]
  congr 1
  apply Multiset.map_congr rfl
  intro g hg
  exact update_of_ne (fun heq : g = h => hh (heq ▸ Finset.mem_val.mp hg)) ..

/-- Every object is kept by as many references as handles are bound to it. -/
def Counted (s : Handles) : Prop := Tracking.Balanced s.values s.toTracking

theorem empty_counted : empty.Counted := by
  refine ⟨rfl, ?_, ?_, ?_, ?_, ?_, ?_⟩
  · intro v hv
    cases hv
  · intro v hv
    cases hv
  · intro v hv
    cases hv
  · intro a t ht
    cases ht
  · rintro o ⟨a, ha, -⟩
    cases ha
  · intro o _
    rfl

/-- Handles are made where there are none and used where they are, and objects are handed over
once. -/
def Admits (s : Handles) : HandleOperation → Prop
  | .unbound h => h ∉ s.live
  | .construct h p os alloc => h ∉ s.live ∧ Tracking.Balanced.Offers s.toTracking s.values p os alloc
  | .copy h rhs => h ∉ s.live ∧ rhs ∈ s.live
  | .assign h rhs => h ∈ s.live ∧ rhs ∈ s.live
  | .bindTo h p os alloc => h ∈ s.live ∧ Tracking.Balanced.Offers s.toTracking s.values p os alloc
  | .destroy h => h ∈ s.live

/-- A tracked object that is referred to anew has fewer references than an `unsigned` can count, and
one that a handle is rebound from has no other. -/
def Sound (s : Handles) : HandleOperation → Prop
  | .copy _ rhs | .assign _ rhs =>
      ∀ a t, (s.handle rhs).palloc = some a → s.trackers a = some t → t.count ≠ Tracking.uintMax
  | .bindTo h p os alloc => Tracking.Balanced.Rebinds p os alloc →
      ∀ a t, (s.handle h).palloc = some a → s.trackers a = some t → t.count = 1
  | _ => True

theorem Counted.step (hs : s.Counted) {op : HandleOperation} (hop : s.Admits op)
    (hsound : s.Sound op) : (s.step op).Counted := by
  cases op with
  | unbound h =>
    unfold Counted Handles.step
    rw [values_make hop]
    change Tracking.Balanced _ (s.toTracking.assert true)
    rw [Tracking.assert_true]
    exact hs.cons_untracked hs.bound
  | construct h p os alloc =>
    unfold Counted Handles.step
    rw [values_make hop.1]
    exact Tracking.Balanced.construct hs hop.2
  | copy h rhs =>
    unfold Counted Handles.step
    rw [values_make hop.1]
    exact Tracking.Balanced.copy hs (mem_values.mpr ⟨rhs, hop.2, rfl⟩) hsound
  | assign h rhs =>
    have hv := mem_values.mpr ⟨rhs, hop.2, rfl⟩
    have hadded := Tracking.Balanced.addRef hs hv hsound
    rw [values_eq hop.1, Multiset.cons_swap] at hadded
    obtain ⟨hremoved, hhandle⟩ := hadded.removeRef
    have hreread : (s.put h ((s.addRef (s.handle rhs)).removeRef (s.handle h))).handle rhs =
        s.handle rhs := by
      by_cases heq : rhs = h
      · subst heq
        refine (update_self ..).trans ?_
        rw [hhandle, if_neg fun hboth => hboth.2 (Multiset.mem_cons_self _ _)]
      · exact update_of_ne heq ..
    have hinv := hremoved.invariant (Multiset.mem_cons_self _ _)
    unfold Counted Handles.step assign
    dsimp only
    rw [hreread, values_put (s := s.put h _) hop.1, others_put]
    change Tracking.Balanced _ (Tracking.assert _ (Tracking.invariant
      ((s.addRef (s.handle rhs)).removeRef (s.handle h)).1 (s.handle rhs)))
    rw [hinv, Tracking.assert_true]
    exact hremoved
  | bindTo h p os alloc =>
    unfold Counted Handles.step
    dsimp only
    rw [values_put hop.1]
    have hbalanced : Tracking.Balanced (s.handle h ::ₘ s.others h) s.toTracking :=
      values_eq hop.1 ▸ hs
    apply hbalanced.bindTo (values_eq hop.1 ▸ hop.2)
    intro hrebinds hpalloc hmem
    obtain ⟨a, ha⟩ := Option.ne_none_iff_exists'.mp hpalloc
    obtain ⟨t, ht, hcount⟩ := hbalanced.counted _ (Multiset.mem_cons_self _ _) a ha
    rw [hsound hrebinds a t ha ht, Multiset.count_cons_self] at hcount
    have hpos := Multiset.count_pos.mpr hmem
    have hone : (1 : UInt32).toNat = 1 := rfl
    omega
  | destroy h =>
    have hbalanced : Tracking.Balanced (s.handle h ::ₘ s.others h) s.toTracking :=
      values_eq hop ▸ hs
    unfold Counted Handles.step destroy values
    dsimp only [put]
    rw [others_update]
    exact hbalanced.removeRef.1

/-- An unsound step makes an assertion fail. -/
theorem Counted.step_unsound (hs : s.Counted) {op : HandleOperation} (hop : s.Admits op)
    (hsound : ¬ s.Sound op) : (s.step op).asserted = false := by
  cases op with
  | unbound h => exact absurd trivial hsound
  | construct h p os alloc => exact absurd trivial hsound
  | destroy h => exact absurd trivial hsound
  | copy h rhs =>
    simp only [Sound, not_forall, not_not] at hsound
    obtain ⟨a, t, ha, ht, hmax⟩ := hsound
    have hprep := hs.bound _ (mem_values.mpr ⟨rhs, hop.2, rfl⟩) (ha ▸ Option.some_ne_none a)
    exact Tracking.copy_overflow hprep ha ht hmax
  | assign h rhs =>
    simp only [Sound, not_forall, not_not] at hsound
    obtain ⟨a, t, ha, ht, hmax⟩ := hsound
    apply Tracking.assert_failed
    apply Tracking.removeRef_failed
    exact Tracking.addRef_overflow ha ht hmax
  | bindTo h p os alloc =>
    simp only [Sound, not_forall] at hsound
    obtain ⟨hrebinds, a, t, ha, ht, hcount⟩ := hsound
    have hbalanced : Tracking.Balanced (s.handle h ::ₘ s.others h) s.toTracking :=
      values_eq hop.1 ▸ hs
    apply hbalanced.bindTo_shared (values_eq hop.1 ▸ hop.2) hrebinds (ha ▸ Option.some_ne_none a)
    by_contra hsole
    obtain ⟨t', ht', hcount'⟩ := hbalanced.counted _ (Multiset.mem_cons_self _ _) a ha
    obtain rfl : t = t' := Option.some_inj.mp (ht.symm.trans ht')
    rw [Multiset.count_cons_self, Multiset.count_eq_zero_of_notMem hsole] at hcount'
    exact hcount (UInt32.toNat_inj.mp hcount')

/-- Unmanaged objects are not handed over to trackers. -/
theorem managing_step (h : s.Managing) (op : HandleOperation) : (s.step op).Managing := by
  cases op with
  | unbound h' => exact h
  | construct h' p os alloc => exact Tracking.Managing.construct h
  | copy h' rhs => exact Tracking.Managing.of_adopted_eq h (Tracking.copy_adopted s.toTracking _)
  | assign h' rhs =>
    refine Tracking.Managing.of_adopted_eq h ?_
    exact (Tracking.removeRef_adopted _ _).trans (Tracking.addRef_adopted s.toTracking _)
  | bindTo h' p os alloc => exact Tracking.Managing.bindTo h
  | destroy h' => exact Tracking.Managing.of_adopted_eq h (Tracking.removeRef_adopted s.toTracking _)

/-- A handle is bound to the object, which it keeps the way it was handed over. -/
def Bound (s : Handles) (o : ℕ × PltOwnership) : Prop :=
  ∃ h ∈ s.live, ∃ a, s.handle h = ⟨some o.1, some a⟩ ∧ s.kindAt a = some o.2

/-- Each tracker counts the handles bound to its object, objects are destroyed once for each time
they were handed over as soon as no handle is bound to them, unmanaged ones never, and no assertion
fails. -/
structure Exact (s : Handles) : Prop where
  counted : ∀ h ∈ s.live, ∀ a, (s.handle h).palloc = some a → ∃ t, s.trackers a = some t ∧
    t.count.toNat = (s.live.filter fun g => (s.handle g).prep = (s.handle h).prep).card
  kept : ∀ a t, s.trackers a = some t → ∃ h ∈ s.live, (s.handle h).palloc = some a
  bound : ∀ o, s.Bound o → s.adopted.count o = s.destroyed.count o + 1
  released : ∀ o, ¬ s.Bound o → s.adopted.count o = s.destroyed.count o
  unmanaged : ∀ o ∈ s.destroyed, o ∈ s.adopted ∧ o.2 ≠ .unmanaged
  asserted : s.asserted = true

theorem bound_iff (o : ℕ × PltOwnership) : s.Bound o ↔ s.toTracking.Holds s.values o := by
  unfold Bound Tracking.Holds
  simp only [mem_values]
  constructor
  · rintro ⟨h, hh, a, hv, hkind⟩
    exact ⟨a, ⟨h, hh, hv⟩, hkind⟩
  · rintro ⟨a, ⟨h, hh, hv⟩, hkind⟩
    exact ⟨h, hh, a, hv, hkind⟩

theorem Counted.exact (hs : s.Counted) (hmanaging : s.Managing) : s.Exact := by
  have hbound : ∀ o, s.Bound o → s.adopted.count o = s.destroyed.count o + 1 := fun o ho =>
    hs.once o ((bound_iff o).mp ho)
  have hreleased : ∀ o, ¬ s.Bound o → s.adopted.count o = s.destroyed.count o := fun o ho =>
    hs.gone o fun hheld => ho ((bound_iff o).mpr hheld)
  refine ⟨?_, ?_, hbound, hreleased, ?_, hs.asserted⟩
  · intro h hh a ha
    have hv := mem_values.mpr ⟨h, hh, rfl⟩
    obtain ⟨t, ht, hcount⟩ := hs.counted _ hv a ha
    refine ⟨t, ht, ?_⟩
    rw [hcount, values, Multiset.count_map, ← Finset.filter_val, Finset.card_val]
    congr 1
    apply Finset.filter_congr
    intro g hg
    constructor
    · intro heq
      rw [heq]
    · intro heq
      have hw := mem_values.mpr ⟨g, hg, rfl⟩
      exact (hs.same _ hv _ hw (ha ▸ Option.some_ne_none a) (Or.inr heq)).symm
  · intro a t ht
    obtain ⟨v, hv, ha⟩ := hs.kept a t ht
    obtain ⟨h, hh, rfl⟩ := mem_values.mp hv
    exact ⟨h, hh, ha⟩
  · intro o ho
    have hcount := List.count_pos_iff.mpr ho
    have hadopted : o ∈ s.adopted := by
      by_cases hb : s.Bound o
      · exact List.count_pos_iff.mp (by rw [hbound o hb]; omega)
      · exact List.count_pos_iff.mp (by rwa [hreleased o hb])
    exact ⟨hadopted, hmanaging o hadopted⟩

/-- Along a run of handles from the beginning, references are counted exactly as long as no handle
is rebound that shares its object and no object has more references than can be counted. -/
theorem references_exact_iff {ops : List HandleOperation}
    (hops : GuardedRun.Along step Admits empty ops) :
    (∀ before, before <+: ops → (GuardedRun.run step empty before).Exact) ↔
      GuardedRun.Along step Sound empty ops :=
  GuardedRun.along_iff_of_admits (I := fun s => s.Counted ∧ s.Managing) (P := Exact)
    (fun _ hs => hs.1.exact hs.2)
    (fun _ op hs hop hsound => ⟨hs.1.step hop hsound, managing_step hs.2 op⟩)
    (fun _ _ hs hop hsound hexact => by
      have hfailed := hs.1.step_unsound hop hsound
      rw [hexact.asserted] at hfailed
      cases hfailed)
    ⟨empty_counted, fun _ ho => absurd ho List.not_mem_nil⟩ hops

/-- A handle is unbound while another one is bound to its object. -/
theorem not_exact_rebound :
    let ops := [.construct 0 (some 5) .new (some 8), .copy 1 0, .bindTo 0 none .new none]
    GuardedRun.Along step Admits empty ops ∧ ¬ (GuardedRun.run step empty ops).Exact := by
  refine ⟨⟨⟨by decide, ?_⟩, ⟨by decide, by decide⟩, ⟨by decide, ?_⟩, trivial⟩, ?_⟩
  · refine ⟨?_, ?_, ?_⟩
    · intro _ v hv
      cases hv
    · intro _ _ v hv
      cases hv
    · intro a _
      rfl
  · exact ⟨absurd rfl, absurd rfl, by simp⟩
  · intro hexact
    exact absurd hexact.asserted (by decide)

/-- An object is shared, given up by one handle after the other and destroyed with the last. -/
theorem references_exact_shared :
    (∀ before, before <+: [.construct 0 (some 5) .new (some 8), .copy 1 0, .assign 1 1,
        .destroy 0, .bindTo 1 none .new none] →
      (GuardedRun.run step empty before).Exact) ↔
    GuardedRun.Along step Sound empty [.construct 0 (some 5) .new (some 8), .copy 1 0,
      .assign 1 1, .destroy 0, .bindTo 1 none .new none] := by
  apply references_exact_iff
  refine ⟨⟨by decide, ?_⟩, ⟨by decide, by decide⟩, ⟨by decide, by decide⟩, ?_, ⟨by decide, ?_⟩,
    trivial⟩
  · refine ⟨?_, ?_, ?_⟩
    · intro _ v hv
      cases hv
    · intro _ _ v hv
      cases hv
    · intro a _
      rfl
  · change 0 ∈ (_ : Finset ℕ)
    decide
  · exact ⟨absurd rfl, absurd rfl, by simp⟩

end Handles

end AcpltKs
