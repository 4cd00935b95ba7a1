import Mathlib.Data.Finset.Card
import Mathlib.Order.Interval.Finset.Nat
import AcpltKs.ConnectionMgr.Basic
import AcpltKs.Library.GuardedRun

/-! The lists and sets of the connection manager mirror the connections that it manages. -/
namespace AcpltKs
open Function LinkedRings GuardedRun

/-- No connection waits to be served and has a timeout at the same time. -/
def ConnectionIoMode.Exclusive (ioMode : ConnectionIoMode) : Prop :=
  ioMode.needTimeout = true → ioMode.attention = false

namespace KssConnectionManager

def Managed (m : KssConnectionManager) (item : ℕ) : Prop := (m.items item).connection.isSome = true

instance (m : KssConnectionManager) : DecidablePred m.Managed :=
  fun _ => inferInstanceAs (Decidable (_ = true))

/-- `lists` are the two lists. An item is in one of them at most, the active connections are sorted,
and lists and sets contain what the last I/O modes say. -/
structure Mirrors (m : KssConnectionManager) (lists : CnxList → List ℕ) : Prop where
  rings : Rings m.links lists
  sorted : (lists .active).Pairwise fun i j => (m.items i).bestBefore ≤ (m.items j).bestBefore
  active_iff : ∀ i, i ∈ lists .active ↔ m.Managed i ∧ (m.items i).lastIoMode.needTimeout = true
  serviceable : ∀ i ∈ lists .serviceable, m.Managed i
  readable_iff : ∀ fd, fd ∈ m.readableFdset ↔
    m.Managed fd ∧ (m.items fd).lastIoMode.readable = true
  writeable_iff : ∀ fd, fd ∈ m.writeableFdset ↔
    m.Managed fd ∧ (m.items fd).lastIoMode.writeable = true
  lt_size : ∀ i, m.Managed i → i < m.fdsetSize

/-- The managed connections. -/
def managed (m : KssConnectionManager) : Finset ℕ := (Finset.range m.fdsetSize).filter m.Managed

/-- The table holds the same connections. -/
structure SameTable (m m' : KssConnectionManager) : Prop where
  fdsetSize : m'.fdsetSize = m.fdsetSize
  connection : ∀ i, (m'.items i).connection = (m.items i).connection
  count : m'.connectionCount = m.connectionCount

/-- Only `item` may have changed its list. -/
def Moves (item : ℕ) (lists lists' : CnxList → List ℕ) : Prop :=
  ∀ l j, j ≠ item → (j ∈ lists' l ↔ j ∈ lists l)

variable {m m' : KssConnectionManager} {lists : CnxList → List ℕ} {item : ℕ}
  {last ioMode : ConnectionIoMode}

theorem create_mirrors (fdsetSize : ℕ) : (create fdsetSize).Mirrors fun _ => [] := by
  refine ⟨Rings.empty, List.Pairwise.nil, fun i => ?_, fun i hi => absurd hi List.not_mem_nil,
    fun fd => ?_, fun fd => ?_, fun i hi => absurd hi (by simp [Managed, create])⟩ <;>
  simp [create]

theorem mem_fdSet {s : Finset ℕ} {fd fd' : ℕ} {value : Bool} :
    fd' ∈ fdSet s fd value ↔ fd' = fd ∧ value = true ∨ fd' ≠ fd ∧ fd' ∈ s := by
  cases value
  · simp [fdSet]
  · simp only [fdSet, ↓reduceIte, Finset.mem_insert, and_true]
    tauto

theorem mem_trackReadable (hlast : item ∈ m.readableFdset ↔ last.readable = true) {fd : ℕ} :
    fd ∈ (m.trackReadable item last ioMode).readableFdset ↔
      fd = item ∧ ioMode.readable = true ∨ fd ≠ item ∧ fd ∈ m.readableFdset := by
  rw [trackReadable]
  split_ifs with h
  · exact mem_fdSet
  · by_cases hfd : fd = item
    · rw [hfd, hlast, not_ne_iff.mp h]
      simp
    · simp [hfd]

theorem mem_trackWriteable (hlast : item ∈ m.writeableFdset ↔ last.writeable = true) {fd : ℕ} :
    fd ∈ (m.trackWriteable item last ioMode).writeableFdset ↔
      fd = item ∧ ioMode.writeable = true ∨ fd ≠ item ∧ fd ∈ m.writeableFdset := by
  rw [trackWriteable]
  split_ifs with h
  · exact mem_fdSet
  · by_cases hfd : fd = item
    · rw [hfd, hlast, not_ne_iff.mp h]
      simp
    · simp [hfd]

theorem Moves.trans {lists' lists'' : CnxList → List ℕ} (h : Moves item lists lists')
    (h' : Moves item lists' lists'') : Moves item lists lists'' :=
  fun l j hj => (h' l j hj).trans (h l j hj)

theorem moves_erase (lists : CnxList → List ℕ) (item : ℕ) :
    Moves item lists fun l => (lists l).erase item :=
  fun _ _ hj => List.mem_erase_of_ne hj

theorem not_mem_erase (h : Rings m.links lists) (l : CnxList) : item ∉ (lists l).erase item :=
  (h.nodup l).not_mem_erase

/-- A connection that needs attention waits to be served. -/
theorem trackAttention_lists (item : ℕ) (ioMode : ConnectionIoMode) (h : Rings m.links lists) :
    ∃ lists', Rings (m.trackAttention item ioMode).links lists' ∧ Moves item lists lists' ∧
      (lists' .active).Sublist (lists .active) ∧
      (item ∈ lists' .active ↔ item ∈ lists .active ∧ ioMode.attention = false) ∧
      (item ∈ lists' .serviceable ↔ ioMode.attention = true ∨ item ∈ lists .serviceable) := by
  rw [trackAttention]
  split_ifs with hatt
  · have hremove := h.remove item
    refine ⟨_, hremove.addAfter_head (fun l => not_mem_erase h l) .serviceable, ?_, ?_, ?_, ?_⟩
    · intro l j hj
      cases l
      · exact moves_erase lists item .active j hj
      · simp only [update_self, List.mem_cons, hj, false_or]
        exact moves_erase lists item .serviceable j hj
    · exact List.erase_sublist
    · have hnot : item ∉ (lists .active).erase item := not_mem_erase h .active
      rw [update_of_ne (by decide), hatt]
      simp [hnot]
    · rw [update_self, hatt]
      simp
  · refine ⟨lists, h, fun _ _ _ => Iff.rfl, List.Sublist.refl _, ?_, ?_⟩ <;> simp [hatt]

/-- The search comes to the place behind all that expire earlier. -/
theorem insertPoint_spec (h : Rings m.links lists) {bestBefore : ℤ} {fuel : ℕ} {l₁ l₂ : List ℕ}
    (hl : lists .active = l₁ ++ l₂) (hlate : ∀ j ∈ l₂, bestBefore < (m.items j).bestBefore)
    {n : CnxList ⊕ ℕ} (hn : m.insertPoint bestBefore fuel (lastNode .active l₁) = some n) :
    ∃ l₁' l₂', lists .active = l₁' ++ l₂' ∧ n = lastNode .active l₁' ∧
      (∀ j ∈ l₂', bestBefore < (m.items j).bestBefore) ∧
      ∀ j ∈ l₁'.getLast?, (m.items j).bestBefore ≤ bestBefore := by
  induction fuel generalizing l₁ l₂ with
  | zero => exact absurd hn (by simp [insertPoint])
  | succ fuel ih =>
    rcases List.eq_nil_or_concat' l₁ with rfl | ⟨l, j, rfl⟩
    · exact ⟨[], l₂, hl, (Option.some.inj hn).symm, hlate, by simp⟩
    · have hlast : lastNode CnxList.active (l ++ [j]) = .inr j := by
        rw [lastNode, List.getLast?_concat]
        rfl
      rw [hlast, insertPoint] at hn
      have hl' : lists .active = l ++ j :: l₂ := by rw [hl, ← List.append_cons]
      split_ifs at hn with hj
      · have hprev : m.links.prev (.inr j) = lastNode .active l := (h.cut hl').2.2.prev
        rw [hprev] at hn
        exact ih hl' (List.forall_mem_cons.mpr ⟨hj, hlate⟩) hn
      · refine ⟨l ++ [j], l₂, hl, ?_, hlate, ?_⟩
        · rw [hlast]
          exact (Option.some.inj hn).symm
        · rw [List.getLast?_concat]
          simpa using hj

/-- A time between those in front of a place and those behind it keeps a list sorted. -/
theorem sorted_insert {f : ℕ → ℤ} {l₁ l₂ : List ℕ} {x : ℕ}
    (h : (l₁ ++ l₂).Pairwise fun i j => f i ≤ f j) (hle : ∀ j ∈ l₁.getLast?, f j ≤ f x)
    (hlt : ∀ j ∈ l₂, f x < f j) : (l₁ ++ x :: l₂).Pairwise fun i j => f i ≤ f j := by
  obtain ⟨h₁, h₂, h₁₂⟩ := List.pairwise_append.mp h
  have hall : ∀ j ∈ l₁, f j ≤ f x := by
    intro j hj
    rcases List.eq_nil_or_concat' l₁ with rfl | ⟨l, k, rfl⟩
    · exact absurd hj List.not_mem_nil
    · have hk : f k ≤ f x := hle k (by rw [List.getLast?_concat]; rfl)
      obtain hj | hj := List.mem_append.mp hj
      · exact ((List.pairwise_append.mp h₁).2.2 j hj k (List.mem_singleton_self k)).trans hk
      · rwa [List.mem_singleton.mp hj]
  refine List.pairwise_append.mpr ⟨h₁, List.pairwise_cons.mpr ⟨fun j hj => (hlt j hj).le, h₂⟩,
    fun i hi j hj => ?_⟩
  obtain rfl | hj := List.mem_cons.mp hj
  · exact hall i hi
  · exact h₁₂ i hi j hj

/-- Only links and times may have changed. -/
structure Relinked (m m' : KssConnectionManager) : Prop where
  table : SameTable m m'
  lastIoMode : ∀ i, (m'.items i).lastIoMode = (m.items i).lastIoMode
  readable : m'.readableFdset = m.readableFdset
  writeable : m'.writeableFdset = m.writeableFdset

theorem Relinked.refl (m : KssConnectionManager) : Relinked m m :=
  ⟨⟨rfl, fun _ => rfl, rfl⟩, fun _ => rfl, rfl, rfl⟩

/-- Whatever an update of an item leaves alone stays the same for all items. -/
theorem setItem_field {α : Type*} (m : KssConnectionManager) (item : ℕ)
    {f : KssConnectionItem → KssConnectionItem} (g : KssConnectionItem → α)
    (h : g (f (m.items item)) = g (m.items item)) (i : ℕ) :
    g ((m.setItem item f).items i) = g (m.items i) := by
  by_cases hi : i = item
  · rw [hi, setItem_self, h]
  · rw [setItem_of_ne m hi]

/-- A connection is among the active ones as long as it needs a timeout. -/
theorem trackTimeout_lists (h : Rings m.links lists)
    (hsorted : (lists .active).Pairwise fun i j => (m.items i).bestBefore ≤ (m.items j).bestBefore)
    (hitem : item ∈ lists .active ↔ last.needTimeout = true ∧ ioMode.attention = false)
    (hmode : ioMode.Exclusive) {bestBefore : ℤ}
    (ht : m.trackTimeout item last ioMode bestBefore = some m') :
    ∃ lists', Rings m'.links lists' ∧ Moves item lists lists' ∧
      ((lists' .active).Pairwise fun i j => (m'.items i).bestBefore ≤ (m'.items j).bestBefore) ∧
      (item ∈ lists' .active ↔ ioMode.needTimeout = true) ∧
      (item ∈ lists' .serviceable ↔
        item ∈ lists .serviceable ∧ ioMode.needTimeout = false) ∧ Relinked m m' := by
  have hremove := h.remove item
  have hone : item ∈ lists .active → item ∉ lists .serviceable := fun hact hser =>
    absurd (h.eq_of_mem _ _ item hact hser) (by decide)
  rw [trackTimeout] at ht
  split_ifs at ht with hdiff hneed hatt
  · have hlast : last.needTimeout = false := by
      rw [hneed] at hdiff
      simpa using hdiff.symm
    have hout : item ∉ lists .active := by
      rw [hitem, hlast]
      simp
    have hprev : m.links.prev (.inl .active) = lastNode .active (lists .active) :=
      (h.cut (List.append_nil _).symm).2.2.prev
    have hsame : (lists .active).erase item = lists .active := List.erase_of_not_mem hout
    obtain ⟨n, hn, hm'⟩ := Option.bind_eq_some_iff.mp ht
    rw [hprev] at hn
    have hsplit : (lists .active).erase item = lists .active ++ [] := by
      rw [hsame, List.append_nil]
    obtain ⟨l₁, l₂, hl, rfl, hlate, hearly⟩ := insertPoint_spec hremove hsplit (by simp) hn
    obtain rfl := Option.some.inj hm'
    have hne : ∀ j ∈ l₁ ++ l₂, j ≠ item := by
      rintro j hj rfl
      rw [← hl] at hj
      exact not_mem_erase h .active hj
    have htimes : ∀ j, j ≠ item → ((m.setItem item fun i => { i with bestBefore }).items j) =
        m.items j := fun j hj => m.setItem_of_ne hj _
    refine ⟨_, hremove.addAfter (fun l => not_mem_erase h l) hl, ?_, ?_, ?_, ?_, ?_⟩
    · intro l j hj
      cases l
      · rw [update_self, ← hsame, hl]
        simp [hj]
      · rw [update_of_ne (by decide)]
        exact moves_erase lists item .serviceable j hj
    · rw [update_self]
      refine sorted_insert
        (f := fun i => ((m.setItem item fun i => { i with bestBefore }).items i).bestBefore)
        ?_ ?_ ?_
      · rw [← hl, hsame]
        rw [hsame] at hl
        refine hsorted.imp_of_mem fun {i j} hi hj hij => ?_
        rwa [htimes i (hne i (hl ▸ hi)), htimes j (hne j (hl ▸ hj))]
      · simpa only [setItem_self] using hearly
      · simpa only [setItem_self] using hlate
    · simp [hneed]
    · have hnot : item ∉ (lists .serviceable).erase item := not_mem_erase h .serviceable
      rw [update_of_ne (by decide), hneed]
      simp [hnot]
    · exact ⟨⟨rfl, m.setItem_field item (f := fun i => { i with bestBefore })
        KssConnectionItem.connection rfl, rfl⟩, m.setItem_field item
        (f := fun i => { i with bestBefore }) KssConnectionItem.lastIoMode rfl, rfl, rfl⟩
  · obtain rfl := Option.some.inj ht
    refine ⟨_, hremove, moves_erase lists item, hsorted.sublist List.erase_sublist, ?_, ?_,
      ⟨rfl, fun _ => rfl, rfl⟩, fun _ => rfl, rfl, rfl⟩
    · have hnot : item ∉ (lists .active).erase item := not_mem_erase h .active
      simp [hnot, hneed]
    · have hnot : item ∉ (lists .serviceable).erase item := not_mem_erase h .serviceable
      have hact : item ∈ lists .active := hitem.mpr (by simp_all)
      simp [hnot, hone hact]
  · obtain rfl := Option.some.inj ht
    refine ⟨lists, h, fun _ _ _ => Iff.rfl, hsorted, ?_, ?_, Relinked.refl m⟩
    · rw [hitem]
      simp_all
    · rw [Bool.not_eq_true] at hneed
      rw [and_iff_left hneed]
  · obtain rfl := Option.some.inj ht
    have hact : item ∈ lists .active ↔ ioMode.needTimeout = true := by
      rw [hitem, ← not_ne_iff.mp hdiff]
      exact ⟨fun h => h.1, fun h => ⟨h, hmode h⟩⟩
    refine ⟨lists, h, fun _ _ _ => Iff.rfl, hsorted, hact, ?_, Relinked.refl m⟩
    refine ⟨fun hser => ⟨hser, ?_⟩, fun hser => hser.1⟩
    rw [← Bool.not_eq_true, ← hact]
    exact fun hmem => hone hmem hser

/-- The first three parts of tracking change sets and links only. -/
structure Marked (m m₁ : KssConnectionManager) (item fd : ℕ) (last ioMode : ConnectionIoMode) :
    Prop where
  fdsetSize : m₁.fdsetSize = m.fdsetSize
  items : m₁.items = m.items
  count : m₁.connectionCount = m.connectionCount
  links : m₁.links = (m.trackAttention item ioMode).links
  readable : m₁.readableFdset = (m.trackReadable fd last ioMode).readableFdset
  writeable : m₁.writeableFdset = (m.trackWriteable fd last ioMode).writeableFdset

theorem marked (m : KssConnectionManager) (item fd : ℕ) (last ioMode : ConnectionIoMode) :
    Marked m (((m.trackReadable fd last ioMode).trackWriteable fd last ioMode).trackAttention item
      ioMode) item fd last ioMode := by
  constructor <;>
  · simp only [trackReadable, trackWriteable, trackAttention]
    split_ifs <;> rfl

/-- Tracking a connection keeps lists and sets. -/
theorem Mirrors.track (h : m.Mirrors lists) (hitem : m.Managed item) (hmode : ioMode.Exclusive)
    {bestBefore : ℤ} (ht : m.track item item ioMode bestBefore = some m') :
    (∃ lists', m'.Mirrors lists' ∧ Moves item lists lists' ∧
      (item ∈ lists' .serviceable ↔
        (ioMode.attention = true ∨ item ∈ lists .serviceable) ∧ ioMode.needTimeout = false)) ∧
      SameTable m m' ∧
      ∀ i, (m'.items i).lastIoMode = if i = item then ioMode else (m.items i).lastIoMode := by
  obtain ⟨m₂, hm₂, rfl⟩ : ∃ m₂, (((m.trackReadable item (m.items item).lastIoMode
      ioMode).trackWriteable item (m.items item).lastIoMode ioMode).trackAttention item
      ioMode).trackTimeout item (m.items item).lastIoMode ioMode bestBefore = some m₂ ∧
      (m₂.trackErrors ioMode).setItem item (fun i => { i with lastIoMode := ioMode }) = m' := by
    obtain ⟨m₂, hm₂, hm'⟩ := Option.bind_eq_some_iff.mp ht
    exact ⟨m₂, hm₂, Option.some.inj hm'⟩
  have hmarked := marked m item item (m.items item).lastIoMode ioMode
  obtain ⟨lists₁, hrings₁, hmoves₁, hsub, hatt, hser₁⟩ :=
    trackAttention_lists item ioMode h.rings
  rw [← hmarked.links] at hrings₁
  obtain ⟨lists₂, hrings₂, hmoves₂, hsorted₂, hitem₂, hser₂, hsame⟩ := trackTimeout_lists hrings₁
    (by rw [hmarked.items]; exact h.sorted.sublist hsub)
    (by rw [hatt, h.active_iff, and_iff_right hitem]) hmode hm₂
  have hmoves := hmoves₁.trans hmoves₂
  have hconnection : ∀ i, (((m₂.trackErrors ioMode).setItem item fun i =>
      { i with lastIoMode := ioMode }).items i).connection = (m.items i).connection := by
    intro i
    rw [setItem_field _ item KssConnectionItem.connection rfl i]
    exact (hsame.table.connection i).trans (by rw [hmarked.items])
  have hlast : ∀ i, (((m₂.trackErrors ioMode).setItem item fun i =>
      { i with lastIoMode := ioMode }).items i).lastIoMode =
        if i = item then ioMode else (m.items i).lastIoMode := by
    intro i
    by_cases hi : i = item
    · rw [hi, setItem_self, if_pos rfl]
    · rw [setItem_of_ne _ hi, if_neg hi]
      exact (hsame.lastIoMode i).trans (by rw [hmarked.items])
  have hmanaged : ∀ i, ((m₂.trackErrors ioMode).setItem item fun i =>
      { i with lastIoMode := ioMode }).Managed i ↔ m.Managed i := by
    intro i
    rw [Managed, hconnection, Managed]
  rw [hser₁] at hser₂
  refine ⟨⟨lists₂, ⟨hrings₂, ?_, fun i => ?_, fun i hi => ?_, fun fd => ?_, fun fd => ?_,
    fun i hi => ?_⟩, hmoves, hser₂⟩, ⟨hsame.table.fdsetSize.trans hmarked.fdsetSize, hconnection,
      hsame.table.count.trans hmarked.count⟩, hlast⟩
  · refine hsorted₂.imp fun {i j} hij => ?_
    rwa [setItem_field _ item KssConnectionItem.bestBefore rfl i,
      setItem_field _ item KssConnectionItem.bestBefore rfl j]
  · rw [hmanaged, hlast]
    by_cases hi : i = item
    · rw [hi, if_pos rfl, hitem₂, and_iff_right hitem]
    · rw [if_neg hi, hmoves _ i hi, h.active_iff]
  · rw [hmanaged]
    by_cases hne : i = item
    · rwa [hne]
    · exact h.serviceable i ((hmoves _ i hne).mp hi)
  · have hset : ((m₂.trackErrors ioMode).setItem item fun i =>
        { i with lastIoMode := ioMode }).readableFdset =
          (m.trackReadable item (m.items item).lastIoMode ioMode).readableFdset :=
      hsame.readable.trans hmarked.readable
    rw [hset, mem_trackReadable (by rw [h.readable_iff, and_iff_right hitem]), hmanaged, hlast]
    by_cases hi : fd = item
    · simp [hi, hitem]
    · simp [hi, h.readable_iff]
  · have hset : ((m₂.trackErrors ioMode).setItem item fun i =>
        { i with lastIoMode := ioMode }).writeableFdset =
          (m.trackWriteable item (m.items item).lastIoMode ioMode).writeableFdset :=
      hsame.writeable.trans hmarked.writeable
    rw [hset, mem_trackWriteable (by rw [h.writeable_iff, and_iff_right hitem]), hmanaged, hlast]
    by_cases hi : fd = item
    · simp [hi, hitem]
    · simp [hi, h.writeable_iff]
  · rw [hmanaged] at hi
    exact (h.lt_size i hi).trans_eq (hsame.table.fdsetSize.trans hmarked.fdsetSize).symm

theorem SameTable.managed (h : SameTable m m') : m'.managed = m.managed := by
  have hmanaged : ∀ i, m'.Managed i ↔ m.Managed i := fun i => by
    rw [Managed, h.connection, Managed]
  simp only [KssConnectionManager.managed, h.fdsetSize, hmanaged]

theorem SameTable.trans {m'' : KssConnectionManager} (h : SameTable m m') (h' : SameTable m' m'') :
    SameTable m m'' :=
  ⟨h'.fdsetSize.trans h.fdsetSize, fun i => (h'.connection i).trans (h.connection i),
    h'.count.trans h.count⟩

/-- The table without the connection of an item. -/
def vacated (m : KssConnectionManager) (item : ℕ) : KssConnectionManager :=
  { m.setItem item fun i => { i with connection := none } with
    links := m.links.remove (.inr item)
    readableFdset := m.readableFdset.erase item
    writeableFdset := m.writeableFdset.erase item
    connectionCount := m.connectionCount - 1 }

theorem vacated_managed (m : KssConnectionManager) (item i : ℕ) :
    (m.vacated item).Managed i ↔ i ≠ item ∧ m.Managed i := by
  by_cases hi : i = item
  · rw [hi, Managed, vacated, setItem_self]
    simp
  · rw [Managed, vacated, setItem_of_ne m hi, Managed, and_iff_right hi]

theorem vacated_lastIoMode (m : KssConnectionManager) (item i : ℕ) :
    ((m.vacated item).items i).lastIoMode = (m.items i).lastIoMode :=
  m.setItem_field item (f := fun i => { i with connection := none }) KssConnectionItem.lastIoMode
    rfl i

theorem Mirrors.vacated (h : m.Mirrors lists) (item : ℕ) :
    (m.vacated item).Mirrors fun l => (lists l).erase item := by
  have hmem : ∀ l i, i ∈ (lists l).erase item ↔ i ≠ item ∧ i ∈ lists l := by
    intro l i
    by_cases hi : i = item
    · rw [hi]
      simpa using not_mem_erase h.rings l
    · rw [List.mem_erase_of_ne hi, and_iff_right hi]
  refine ⟨h.rings.remove item, (h.sorted.sublist List.erase_sublist).imp fun {i j} hij => ?_,
    fun i => ?_, fun i hi => ?_, fun fd => ?_, fun fd => ?_, fun i hi => ?_⟩
  · rwa [KssConnectionManager.vacated,
      m.setItem_field item KssConnectionItem.bestBefore rfl i,
      m.setItem_field item KssConnectionItem.bestBefore rfl j]
  · rw [hmem, h.active_iff, vacated_managed, vacated_lastIoMode, and_assoc]
  · rw [hmem] at hi
    rw [vacated_managed]
    exact ⟨hi.1, h.serviceable i hi.2⟩
  · rw [vacated_managed, vacated_lastIoMode, KssConnectionManager.vacated, Finset.mem_erase,
      h.readable_iff, and_assoc]
  · rw [vacated_managed, vacated_lastIoMode, KssConnectionManager.vacated, Finset.mem_erase,
      h.writeable_iff, and_assoc]
  · rw [vacated_managed] at hi
    exact h.lt_size i hi.2

theorem managed_vacated (m : KssConnectionManager) (item : ℕ) :
    (m.vacated item).managed = m.managed.erase item := by
  ext i
  have hsize : (m.vacated item).fdsetSize = m.fdsetSize := rfl
  simp only [managed, hsize, Finset.mem_filter, Finset.mem_erase, vacated_managed]
  tauto

/-- The table with a new connection. -/
def occupied (m : KssConnectionManager) (item con : ℕ) : KssConnectionManager :=
  m.setItem item fun i => { i with connection := some con, lastIoMode := {} }

theorem occupied_managed (m : KssConnectionManager) (item con i : ℕ) :
    (m.occupied item con).Managed i ↔ i = item ∨ m.Managed i := by
  by_cases hi : i = item
  · rw [hi, Managed, occupied, setItem_self]
    simp
  · rw [Managed, occupied, setItem_of_ne m hi, Managed, or_iff_right hi]

theorem Mirrors.occupied (h : m.Mirrors lists) (hfree : ¬ m.Managed item)
    (hsize : item < m.fdsetSize) (con : ℕ) : (m.occupied item con).Mirrors lists := by
  have hlast : ∀ i, ((m.occupied item con).items i).lastIoMode =
      if i = item then {} else (m.items i).lastIoMode := by
    intro i
    by_cases hi : i = item
    · rw [hi, KssConnectionManager.occupied, setItem_self, if_pos rfl]
    · rw [KssConnectionManager.occupied, setItem_of_ne m hi, if_neg hi]
  have hmode : ∀ i (bit : ConnectionIoMode → Bool), bit {} = false →
      ((m.occupied item con).Managed i ∧ bit ((m.occupied item con).items i).lastIoMode = true ↔
        m.Managed i ∧ bit (m.items i).lastIoMode = true) := by
    intro i bit hbit
    rw [occupied_managed, hlast]
    by_cases hi : i = item
    · simp [hi, hfree, hbit]
    · simp [hi]
  refine ⟨h.rings, h.sorted.imp fun {i j} hij => ?_, fun i => ?_, fun i hi => ?_, fun fd => ?_,
    fun fd => ?_, fun i hi => ?_⟩
  · rwa [KssConnectionManager.occupied,
      m.setItem_field item KssConnectionItem.bestBefore rfl i,
      m.setItem_field item KssConnectionItem.bestBefore rfl j]
  · rw [h.active_iff, hmode i ConnectionIoMode.needTimeout rfl]
  · rw [occupied_managed]
    exact Or.inr (h.serviceable i hi)
  · rw [hmode fd ConnectionIoMode.readable rfl]
    exact h.readable_iff fd
  · rw [hmode fd ConnectionIoMode.writeable rfl]
    exact h.writeable_iff fd
  · obtain rfl | hi := (occupied_managed m item con i).mp hi
    · exact hsize
    · exact h.lt_size i hi

theorem managed_occupied (hsize : item < m.fdsetSize) (con : ℕ) :
    (m.occupied item con).managed = insert item m.managed := by
  ext i
  have hsize' : (m.occupied item con).fdsetSize = m.fdsetSize := rfl
  simp only [managed, hsize', Finset.mem_filter, Finset.mem_insert, occupied_managed,
    Finset.mem_range]
  constructor
  · rintro ⟨hi, rfl | hm⟩
    · exact Or.inl rfl
    · exact Or.inr ⟨hi, hm⟩
  · rintro (rfl | ⟨hi, hm⟩)
    · exact ⟨hsize, Or.inl rfl⟩
    · exact ⟨hi, Or.inr hm⟩

/-- A connection that waits to be served leaves its list. -/
theorem Mirrors.getNext (h : m.Mirrors lists) {con : Option ℕ}
    (hn : m.getNextServiceableConnection = some (con, m')) :
    (∃ lists', m'.Mirrors lists') ∧ SameTable m m' := by
  rw [getNextServiceableConnection] at hn
  have hnext : m.links.next (.inl .serviceable) = firstNode .serviceable (lists .serviceable) :=
    (h.rings.cut (List.nil_append _).symm).2.2.next
  split at hn
  · obtain ⟨-, rfl⟩ := Prod.mk.inj (Option.some.inj hn)
    exact ⟨⟨lists, h⟩, rfl, fun _ => rfl, rfl⟩
  · exact absurd hn (by simp)
  · next item hitem =>
    obtain ⟨-, rfl⟩ := Prod.mk.inj (Option.some.inj hn)
    rw [hnext] at hitem
    have hmem : item ∈ lists .serviceable := by
      have := List.mem_of_head? (head?_back CnxList.serviceable (lists .serviceable))
      rwa [hitem, inr_mem_back] at this
    have hnot : item ∉ lists .active := fun hact =>
      absurd (h.rings.eq_of_mem _ _ item hact hmem) (by decide)
    refine ⟨⟨_, h.rings.remove item, ?_, fun i => ?_, fun i hi => ?_, h.readable_iff,
      h.writeable_iff, h.lt_size⟩, rfl, fun _ => rfl, rfl⟩
    · rw [List.erase_of_not_mem hnot]
      exact h.sorted
    · rw [List.erase_of_not_mem hnot]
      exact h.active_iff i
    · exact h.serviceable i (List.mem_of_mem_erase hi)

end KssConnectionManager
end AcpltKs
