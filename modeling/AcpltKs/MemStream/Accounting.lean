import AcpltKs.Library.GuardedRun
import AcpltKs.MemStream.FragmentCount
import Mathlib.Algebra.BigOperators.Group.Finset.Basic

/-! The accounts of the fragment pool over runs of a program with several memory streams: when the
counts agree with the fragments there are. -/
namespace AcpltKs

/-- The pool with the streams there are, by their addresses, the quota that was in force when the
last fragment was allocated, and whether a null pointer was dereferenced. -/
structure MemStreams where
  pool : Pool
  live : Finset ℕ
  stream : ℕ → MemStream
  quota : ℕ
  fault : Bool

inductive PoolCall
  | controlusage (fragmentsize quota watermark freepercentage : ℕ)
  | create (i : ℕ) (info : Option ℕ)
  | putLong (i : ℕ) (w : UInt32)
  | putBytes (i : ℕ) (bs : List UInt8)
  | inline (i : ℕ) (len : ℕ)
  | read (i : ℕ) (op : ReadOp)
  | clear (i : ℕ)
  | rewind (i : ℕ) (op : XdrOp)
  | destroy (i : ℕ)
  | freegarbage

namespace MemStreams

/-- After a call, which has allocated fragments if there are more of them. -/
def after (s : MemStreams) (pool : Pool) : MemStreams :=
  { s with
    pool
    quota := if s.pool.fragmentCount < pool.fragmentCount then s.pool.fragmentQuota else s.quota }

def put (s : MemStreams) (i : ℕ) (m : Mem) : MemStreams :=
  { s.after m.1 with stream := Function.update s.stream i m.2 }

def step (s : MemStreams) : PoolCall → MemStreams
  | .controlusage fragmentsize quota watermark freepercentage =>
      s.after (xdrmemstreamControlusage s.pool fragmentsize quota watermark freepercentage).2
  | .create i info =>
      match xdrmemstreamCreate s.pool info with
      | (some t, pool) => { s.put i (pool, t) with live := insert i s.live }
      | (none, pool) => s.after pool
  | .putLong i w => s.put i (memStreamPutLong (s.pool, s.stream i) w).2
  | .putBytes i bs => s.put i (memStreamPutBytes (s.pool, s.stream i) bs).2
  | .inline i len => s.put i (memStreamInlineInt (s.pool, s.stream i) len).2
  | .read i op => s.put i (s.pool, (op.perform (s.stream i)).2.2)
  | .clear i => s.put i (xdrmemstreamClear (s.pool, s.stream i))
  | .rewind i op => s.put i (xdrmemstreamRewind (s.pool, s.stream i) op)
  | .destroy i => { s.after (memStreamDestroy (s.pool, s.stream i)) with live := s.live.erase i }
  | .freegarbage =>
      match xdrmemstreamFreegarbage s.pool with
      | some pool => s.after pool
      | none => { s with fault := true }

/-- Before anything is allocated. -/
def initial (malloc : ℕ → Option (ℕ → UInt8)) (stream : ℕ → MemStream) : MemStreams :=
  ⟨.initial malloc, ∅, stream, 2 ^ 32 - 1, false⟩

/-- All fragments are counted, up to the quota, and the free list is never exceeded. -/
structure Accounted (s : MemStreams) : Prop where
  free : s.pool.freeFragmentCount = s.pool.freeList.length
  count : s.pool.fragmentCount =
    s.pool.freeList.length + ∑ i ∈ s.live, (s.stream i).chain.count
  quota : s.pool.fragmentCount ≤ s.quota
  fault : s.fault = false

/-- The fragments of the other streams. -/
def elsewhere (s : MemStreams) (i : ℕ) : ℕ := ∑ j ∈ s.live.erase i, (s.stream j).chain.count

/-- What holds between the calls. -/
structure Steady (s : MemStreams) : Prop where
  accounted : s.Accounted
  limit : s.quota < 2 ^ 32
  quota : s.pool.fragmentQuota < 2 ^ 32
  size : 0 < s.pool.memStreamBufferSize

/-- Calls are for streams that there are, with numbers that fit their types. -/
def Admits (s : MemStreams) : PoolCall → Prop
  | .controlusage fragmentsize quota watermark freepercentage =>
      fragmentsize < 2 ^ 32 ∧ quota < 2 ^ 32 ∧ watermark < 2 ^ 32 ∧ freepercentage < 2 ^ 32
  | .create i _ => i ∉ s.live
  | .putLong i _ | .putBytes i _ | .inline i _ | .read i _ | .clear i | .rewind i _ | .destroy i =>
      i ∈ s.live
  | .freegarbage => True

/-- No fragment is asked for in vain from the heap or put in the place of others, and there are as
many free fragments as are to be freed. -/
def Sound (s : MemStreams) : PoolCall → Prop
  | .create _ info => info ≠ none → ¬ s.pool.MallocFails
  | .putLong i _ | .inline i _ => TakesSoundly (wordNeeds (s.stream i)) (s.pool, s.stream i)
  | .putBytes i bs =>
      TakesSoundly (fragmentsNeeded s.pool.memStreamBufferSize (s.stream i).handy bs.length)
        (s.pool, s.stream i)
  | .freegarbage =>
      s.pool.fragmentWatermark < s.pool.freeFragmentCount →
        (s.pool.freeFragmentCount - s.pool.fragmentWatermark) * s.pool.freePercentage % 2 ^ 32 / 100
          ≤ s.pool.freeFragmentCount
  | _ => True

variable {s : MemStreams} {pool : Pool} {m : Mem} {i : ℕ}

theorem Steady.accounts (h : s.Steady) (hi : i ∈ s.live) :
    Accounts (s.elsewhere i) (s.pool, s.stream i) := by
  refine ⟨h.accounted.free, ?_⟩
  have hcount := h.accounted.count
  rw [← Finset.add_sum_erase _ _ hi] at hcount
  unfold elsewhere
  dsimp only
  omega

theorem sum_put (s : MemStreams) (hi : i ∈ s.live) (m : Mem) :
    ∑ j ∈ s.live, ((s.put i m).stream j).chain.count = m.2.chain.count + s.elsewhere i := by
  rw [← Finset.add_sum_erase _ _ hi]
  unfold put elsewhere
  dsimp only
  rw [Function.update_self]
  congr 1
  apply Finset.sum_congr rfl
  intro j hj
  rw [Function.update_of_ne (Finset.ne_of_mem_erase hj)]

/-- Fragments are allocated within the quota in force. -/
theorem Steady.after_quota (h : s.Steady) (hgrown : s.pool.Grown pool) :
    pool.fragmentCount ≤ (s.after pool).quota ∧ (s.after pool).quota < 2 ^ 32 := by
  have hquota := h.accounted.quota
  have hbound := hgrown.bound
  unfold after
  dsimp only
  split_ifs with hlt
  · refine ⟨?_, h.quota⟩
    omega
  · exact ⟨(Nat.le_of_not_lt hlt).trans hquota, h.limit⟩

theorem Steady.put (h : s.Steady) (hi : i ∈ s.live) (hm : Accounts (s.elsewhere i) m)
    (hgrown : s.pool.Grown m.1) : (s.put i m).Steady := by
  obtain ⟨hquota, hlimit⟩ := h.after_quota hgrown
  constructor
  · constructor
    · exact hm.free
    · change m.1.fragmentCount = m.1.freeList.length +
        ∑ j ∈ s.live, ((s.put i m).stream j).chain.count
      rw [sum_put s hi, hm.count, Nat.add_assoc]
    · exact hquota
    · exact h.accounted.fault
  · exact hlimit
  · exact hgrown.quota.symm ▸ h.quota
  · exact hgrown.size.symm ▸ h.size

theorem not_accounted_put (hi : i ∈ s.live) (hm : Excess (s.elsewhere i) m) :
    ¬ (s.put i m).Accounted := by
  intro h
  have hcount : m.1.fragmentCount = m.1.freeList.length +
      ∑ j ∈ s.live, ((s.put i m).stream j).chain.count := h.count
  rw [sum_put s hi] at hcount
  unfold Excess at hm
  omega

theorem Steady.create (h : s.Steady) (hi : i ∉ s.live) {info : Option ℕ}
    (hsound : info ≠ none → ¬ s.pool.MallocFails) : (s.step (.create i info)).Steady := by
  have hsame : (s.after s.pool).Steady := by
    obtain ⟨hquota, hlimit⟩ := h.after_quota (.refl s.pool)
    exact ⟨⟨h.accounted.free, h.accounted.count, hquota, h.accounted.fault⟩, hlimit, h.quota, h.size⟩
  unfold step
  cases info with
  | none => exact hsame
  | some garbage =>
    have hmalloc := hsound (by simp)
    obtain ⟨-, f, pool, htake, hpool, hfree⟩ | ⟨-, htake⟩ | ⟨hfails, -⟩ :=
      Pool.takeFragment_outcome h.quota
    · have hgrown := Pool.takeFragment_grown h.quota
      rw [htake] at hgrown
      obtain ⟨hquota, hlimit⟩ := h.after_quota hgrown
      have hcount := h.accounted.count
      unfold xdrmemstreamCreate
      dsimp only
      rw [htake]
      dsimp only
      constructor
      · constructor
        · exact hfree h.accounted.free
        · dsimp only [MemStreams.put, after]
          rw [Finset.sum_insert hi, Function.update_self, Chain.count_on]
          have hrest : ∀ t : MemStream,
              ∑ j ∈ s.live, (Function.update s.stream i t j).chain.count =
                ∑ j ∈ s.live, (s.stream j).chain.count := by
            intro t
            apply Finset.sum_congr rfl
            intro j hj
            rw [Function.update_of_ne (ne_of_mem_of_not_mem hj hi)]
          rw [hrest]
          simp only [List.length_nil]
          omega
        · exact hquota
        · exact h.accounted.fault
      · exact hlimit
      · exact hgrown.quota.symm ▸ h.quota
      · exact hgrown.size.symm ▸ h.size
    · unfold xdrmemstreamCreate
      dsimp only
      rw [htake]
      exact hsame
    · exact absurd hfails hmalloc

theorem not_accounted_create (h : s.Steady) {garbage : ℕ} (hfails : s.pool.MallocFails) :
    ¬ (s.step (.create i (some garbage))).Accounted := by
  obtain ⟨-, f, pool, htake, -, -⟩ | ⟨hnot, -⟩ | ⟨-, pool, htake, hlist, hpool⟩ :=
    Pool.takeFragment_outcome h.quota
  · have hnone := hfails.take
    rw [htake] at hnone
    cases hnone
  · exact absurd hfails (Pool.not_mallocFails hnot)
  · have hcount := h.accounted.count
    have hstep : s.step (.create i (some garbage)) = s.after pool := by
      unfold step xdrmemstreamCreate
      dsimp only
      rw [htake]
    rw [hstep]
    intro hafter
    have hcount' : pool.fragmentCount =
        pool.freeList.length + ∑ j ∈ s.live, (s.stream j).chain.count := hafter.count
    rw [hlist] at hcount'
    omega

theorem Steady.destroy (h : s.Steady) (hi : i ∈ s.live) : (s.step (.destroy i)).Steady := by
  have hwidth : s.pool.fragmentCount < 2 ^ 32 := h.accounted.quota.trans_lt h.limit
  obtain ⟨hfree, hcount⟩ := (h.accounts hi).destroy hwidth
  have hgrown : s.pool.Grown (memStreamDestroy (s.pool, s.stream i)) := foldl_free_grown _ _
  obtain ⟨hquota, hlimit⟩ := h.after_quota hgrown
  exact ⟨⟨hfree, hcount, hquota, h.accounted.fault⟩, hlimit, hgrown.quota.symm ▸ h.quota,
    hgrown.size.symm ▸ h.size⟩

theorem Steady.clear (h : s.Steady) (hi : i ∈ s.live) : (s.step (.clear i)).Steady := by
  have hwidth : s.pool.fragmentCount < 2 ^ 32 := h.accounted.quota.trans_lt h.limit
  obtain ⟨haccounts, hgrown⟩ := (h.accounts hi).clear hwidth
  exact h.put hi haccounts hgrown

theorem Steady.rewind (h : s.Steady) (hi : i ∈ s.live) (op : XdrOp) :
    (s.step (.rewind i op)).Steady := by
  by_cases hop : op = .encode
  · obtain rfl := hop
    exact h.clear hi
  · have hpool := rewind_pool s.pool (s.stream i) hop
    have hcount := rewind_count s.pool (s.stream i) hop
    apply h.put hi
    · exact (h.accounts hi).congr hpool hcount
    · rw [hpool]
      exact .refl _

theorem Steady.read (h : s.Steady) (hi : i ∈ s.live) (op : ReadOp) :
    (s.step (.read i op)).Steady := by
  apply h.put hi
  · refine (h.accounts hi).congr rfl ?_
    unfold Chain.count
    rw [(op.perform_keeps (s.stream i)).fragments]
  · exact .refl _

theorem Steady.controlusage (h : s.Steady) {fragmentsize quota : ℕ} (hquota : quota < 2 ^ 32)
    (watermark freepercentage : ℕ) :
    (s.step (.controlusage fragmentsize quota watermark freepercentage)).Steady := by
  dsimp only [MemStreams.step, xdrmemstreamControlusage, after]
  split_ifs with hfixed hmore hmore
  · exact absurd hmore (lt_irrefl _)
  · exact ⟨⟨h.accounted.free, h.accounted.count, h.accounted.quota, h.accounted.fault⟩, h.limit,
      h.quota, h.size⟩
  · exact absurd hmore (lt_irrefl _)
  · exact ⟨⟨h.accounted.free, h.accounted.count, h.accounted.quota, h.accounted.fault⟩, h.limit,
      hquota, lt_max_of_lt_right (by decide)⟩

theorem Steady.freegarbage (h : s.Steady) (hsound : s.Sound .freegarbage) :
    (s.step .freegarbage).Steady := by
  have hcount := h.accounted.count
  unfold step xdrmemstreamFreegarbage
  split_ifs with hmark
  · have hle := toFree_le.mpr (hsound hmark)
    rw [h.accounted.free] at hle
    obtain ⟨pool, hloop, hfree, hbalance, hless, hquota, hsize⟩ :=
      freeLoop_some hle h.accounted.free (by omega)
    have hsame : ¬ s.pool.fragmentCount < pool.fragmentCount := Nat.not_lt.mpr hless
    rw [hloop]
    dsimp only [after]
    rw [if_neg hsame]
    refine ⟨⟨hfree, ?_, hless.trans h.accounted.quota, h.accounted.fault⟩, h.limit,
      hquota.symm ▸ h.quota, hsize.symm ▸ h.size⟩
    dsimp only
    omega
  · have hsame : ¬ s.pool.fragmentCount < s.pool.fragmentCount := lt_irrefl _
    dsimp only [after]
    rw [if_neg hsame]
    exact h

theorem not_accounted_freegarbage (h : s.Steady) (hbad : ¬ s.Sound .freegarbage) :
    ¬ (s.step .freegarbage).Accounted := by
  obtain ⟨hmark, hlt⟩ := Classical.not_imp.mp hbad
  rw [← toFree_le, h.accounted.free] at hlt
  have hloop := freeLoop_none (Nat.lt_of_not_le hlt)
  unfold step xdrmemstreamFreegarbage
  rw [if_pos hmark, hloop]
  intro hafter
  cases hafter.fault

/-- Up to 100 percent, no more is freed than there is. -/
theorem sound_freegarbage (hpercentage : s.pool.freePercentage ≤ 100) : s.Sound .freegarbage := by
  intro _
  have hmod := Nat.mod_le
    ((s.pool.freeFragmentCount - s.pool.fragmentWatermark) * s.pool.freePercentage) (2 ^ 32)
  have hmul :=
    Nat.mul_le_mul_left (s.pool.freeFragmentCount - s.pool.fragmentWatermark) hpercentage
  have hsub := Nat.sub_le s.pool.freeFragmentCount s.pool.fragmentWatermark
  apply Nat.div_le_of_le_mul
  omega

/-- Every sound call keeps the books. -/
theorem Steady.step (h : s.Steady) (call : PoolCall) (hadmits : s.Admits call)
    (hsound : s.Sound call) : (s.step call).Steady := by
  cases call with
  | controlusage fragmentsize quota watermark freepercentage =>
    exact h.controlusage hadmits.2.1 watermark freepercentage
  | create i info => exact h.create hadmits hsound
  | putLong i w =>
    exact h.put hadmits (((h.accounts hadmits).putLong h.quota w).1 hsound)
      (memStreamPutLong_grown (m := (s.pool, s.stream i)) h.quota w)
  | putBytes i bs =>
    exact h.put hadmits (((h.accounts hadmits).putBytesLoop h.quota h.size le_rfl).1 hsound)
      (putBytesLoop_grown (m := (s.pool, s.stream i)) _ h.quota bs)
  | inline i len =>
    exact h.put hadmits (((h.accounts hadmits).inline h.quota len).1 hsound)
      (memStreamInlineInt_grown (m := (s.pool, s.stream i)) h.quota len)
  | read i op => exact h.read hadmits op
  | clear i => exact h.clear hadmits
  | rewind i op => exact h.rewind hadmits op
  | destroy i => exact h.destroy hadmits
  | freegarbage => exact h.freegarbage hsound

/-- Every other call breaks them. -/
theorem not_accounted_step (h : s.Steady) (call : PoolCall) (hadmits : s.Admits call)
    (hbad : ¬ s.Sound call) : ¬ (s.step call).Accounted := by
  cases call with
  | create i info =>
    cases info with
    | none => exact absurd (fun hne => absurd rfl hne) hbad
    | some garbage =>
      apply not_accounted_create h
      by_contra hmalloc
      exact hbad fun _ => hmalloc
  | putLong i w =>
    exact not_accounted_put hadmits (((h.accounts hadmits).putLong h.quota w).2 hbad)
  | putBytes i bs =>
    exact not_accounted_put hadmits
      (((h.accounts hadmits).putBytesLoop h.quota h.size le_rfl).2 hbad)
  | inline i len =>
    exact not_accounted_put hadmits (((h.accounts hadmits).inline h.quota len).2 hbad)
  | freegarbage => exact not_accounted_freegarbage h hbad
  | controlusage fragmentsize quota watermark freepercentage => exact absurd trivial hbad
  | read i op => exact absurd trivial hbad
  | clear i => exact absurd trivial hbad
  | rewind i op => exact absurd trivial hbad
  | destroy i => exact absurd trivial hbad

theorem steady_initial (malloc : ℕ → Option (ℕ → UInt8)) (stream : ℕ → MemStream) :
    (initial malloc stream).Steady := by
  have hlimit : 2 ^ 32 - 1 < 2 ^ 32 := by decide
  have hsize : 0 < 8192 := by decide
  exact ⟨⟨rfl, rfl, Nat.zero_le _, rfl⟩, hlimit, hlimit, hsize⟩

/-- The fragments are accounted for all along exactly the sound runs. -/
theorem accounted_iff (malloc : ℕ → Option (ℕ → UInt8)) (stream : ℕ → MemStream)
    (calls : List PoolCall)
    (hadmits : GuardedRun.Along step Admits (initial malloc stream) calls) :
    (∀ done, done <+: calls → (GuardedRun.run step (initial malloc stream) done).Accounted) ↔
      GuardedRun.Along step Sound (initial malloc stream) calls := by
  have hI : ∀ s : MemStreams, s.Steady → s.Accounted := fun _ h => h.accounted
  have hstep : ∀ s call, Steady s → s.Admits call → s.Sound call → (s.step call).Steady :=
    fun _ call h => h.step call
  have hbreak : ∀ s call, Steady s → s.Admits call → ¬ s.Sound call → ¬ (s.step call).Accounted :=
    fun _ call h => not_accounted_step h call
  exact GuardedRun.along_iff_of_admits hI hstep hbreak (steady_initial malloc stream) hadmits

/-- A stream that is written, cleared and destroyed, with a heap that has memory. -/
theorem accounted_stream : (GuardedRun.run step (initial (fun _ => some fun _ => 0) fun _ =>
      ⟨.encode, .null ⟨0, fun _ => 0⟩ [], 0, 0, 0, 0, false⟩)
      [.create 0 (some 0), .putLong 0 7, .clear 0, .destroy 0, .freegarbage]).Accounted := by
  apply (accounted_iff _ _ [.create 0 (some 0), .putLong 0 7, .clear 0, .destroy 0, .freegarbage]
    _).mpr _ _ List.prefix_rfl
  · refine ⟨?_, ?_, ?_, ?_, trivial, trivial⟩
    · exact Finset.notMem_empty 0
    · exact Finset.mem_insert_self 0 ∅
    · exact Finset.mem_insert_self 0 ∅
    · exact Finset.mem_insert_self 0 ∅
  · refine ⟨?_, ?_, trivial, trivial, ?_, trivial⟩
    · rintro - ⟨-, -, hnone⟩
      cases hnone
    · exact ⟨fun k hk => absurd hk (Nat.not_lt_zero _), fun hne => absurd rfl hne⟩
    · exact fun _ => by decide

/-- A fragment that the heap has no memory for is counted all the same. -/
theorem not_accounted_malloc : ¬ ∀ done, done <+: [PoolCall.create 0 (some 0)] →
    (GuardedRun.run step (initial (fun _ => none) fun _ =>
      ⟨.encode, .null ⟨0, fun _ => 0⟩ [], 0, 0, 0, 0, false⟩) done).Accounted := by
  intro h
  have hcount := (h _ List.prefix_rfl).count
  revert hcount
  decide

/-- 200 percent of a free fragment. -/
example : (GuardedRun.run step (initial (fun _ => some fun _ => 0) fun _ =>
      ⟨.encode, .null ⟨0, fun _ => 0⟩ [], 0, 0, 0, 0, false⟩)
      [.controlusage 8192 10 0 200, .create 0 (some 0), .destroy 0, .freegarbage]).fault = true := by
  decide +kernel

end MemStreams

end AcpltKs
