import AcpltKs.Plt.Time
import AcpltKs.Service.Values

/-! Times and time spans as they are read from a stream, for every size of the type `long`. -/
namespace AcpltKs

/-- The conversion of an `unsigned long`, which keeps the bits. -/
def Long.ofULong (L : Long) (x : UInt32) : ℤ :=
  if x.toNat ≤ L.max then x.toNat else x.toNat - 2 * (L.max + 1)

inductive TimeClass
  | time | timeSpan

namespace TimeClass
open Timeval

/-- `KsTime::xdrDecode` and `KsTimeSpan::xdrDecode`. There is no outcome where the seconds leave the
range of their type. -/
def xdrDecode (L : Long) : TimeClass → Timeval → XdrReader (Option (Bool × Timeval))
  | time, old =>
      .long fun
        | none => .done (some (false, old))
        | some sec => .long fun
            | none => .done (some (false, old))
            | some usec =>
                .done ((Timeval.PltTime.normalize L ⟨L.ofULong sec, L.ofULong usec⟩).map (true, ·))
  | timeSpan, old =>
      .long fun
        | none => .done (some (false, old))
        | some sec => .long fun
            | none => .done (some (false, { old with tvSec := sec.toInt32.toInt }))
            | some usec => .done (some (true, ⟨sec.toInt32.toInt, usec.toInt32.toInt⟩))

def eq : TimeClass → Timeval → Timeval → Bool
  | time => Timeval.PltTime.eq
  | timeSpan => Timeval.PltTimeSpan.eq

/-- The microseconds that are transmitted. -/
def sent : TimeClass → UInt32 × UInt32 → ℤ
  | time, (sec, usec) => sec.toNat * 1000000 + usec.toNat
  | timeSpan, (sec, usec) => sec.toInt32.toInt * 1000000 + usec.toInt32.toInt

/-- Spans are in normal form when they are sent, and the seconds of a time can be represented once
it is. -/
def InRange (L : Long) : TimeClass → UInt32 × UInt32 → Prop
  | time, (sec, usec) => usec.toNat ≤ L.max ∧ (sec.toNat + usec.toNat / 1000000 : ℤ) ≤ L.max
  | timeSpan, (_, usec) => 0 ≤ usec.toInt32.toInt ∧ usec.toInt32.toInt < 1000000

section
variable {σ : Type*} [XdrSource σ]

/-- The two words that a stream has next. -/
def words (s : σ) : Option (UInt32 × UInt32) :=
  match XdrSource.getLong s with
  | (none, _) => none
  | (some sec, s) => (XdrSource.getLong s).1.map (sec, ·)

/-- An object that is read successfully is in normal form and has the value that was sent. -/
def Restored (L : Long) (c : TimeClass) (old : Timeval) (s : σ) : Prop :=
  ∃ success t, ((c.xdrDecode L old).run s).1 = some (success, t) ∧
    (success = true → t.Normalised ∧ ∀ w ∈ words s, t.value = c.sent w)

variable {L : Long} {c : TimeClass} {old : Timeval} {s : σ}

theorem run_of_words_none (old : Timeval) (h : words s = none) :
    ∃ t, ((c.xdrDecode L old).run s).1 = some (false, t) := by
  unfold words at h
  cases c <;>
  · simp only [xdrDecode, XdrReader.run]
    rcases hfirst : XdrSource.getLong s with ⟨_ | sec, s₁⟩
    · exact ⟨_, rfl⟩
    · rw [hfirst] at h
      dsimp only at h ⊢
      rw [Option.map_eq_none_iff] at h
      simp only [XdrReader.run, h]
      exact ⟨_, rfl⟩

theorem run_time (L : Long) (old : Timeval) {w : UInt32 × UInt32} (h : words s = some w) :
    ((time.xdrDecode L old).run s).1 =
      (Timeval.PltTime.normalize L ⟨L.ofULong w.1, L.ofULong w.2⟩).map (true, ·) := by
  unfold words at h
  simp only [xdrDecode, XdrReader.run]
  rcases hfirst : XdrSource.getLong s with ⟨_ | sec, s₁⟩
  · rw [hfirst] at h
    cases h
  · rw [hfirst] at h
    obtain ⟨usec, husec, rfl⟩ := Option.map_eq_some_iff.mp h
    simp only [XdrReader.run, husec]

theorem run_timeSpan (L : Long) (old : Timeval) {w : UInt32 × UInt32} (h : words s = some w) :
    ((timeSpan.xdrDecode L old).run s).1 =
      some (true, ⟨w.1.toInt32.toInt, w.2.toInt32.toInt⟩) := by
  unfold words at h
  simp only [xdrDecode, XdrReader.run]
  rcases hfirst : XdrSource.getLong s with ⟨_ | sec, s₁⟩
  · rw [hfirst] at h
    cases h
  · rw [hfirst] at h
    obtain ⟨usec, husec, rfl⟩ := Option.map_eq_some_iff.mp h
    simp only [XdrReader.run, husec]

theorem ofULong_fits (L : Long) (x : UInt32) : L.Fits (L.ofULong x) := by
  have hmax := L.max_ge
  have hx := x.toNat_lt
  unfold Long.Fits Long.ofULong
  split_ifs <;> omega

/-- Times come out right where the numbers can be represented. -/
theorem restored_time_iff {w : UInt32 × UInt32} (h : words s = some w) :
    Restored L time old s ↔ time.InRange L w := by
  obtain ⟨sec, usec⟩ := w
  have hrun := run_time L old h
  rw [Timeval.PltTime.normalize_eq (ofULong_fits L sec)] at hrun
  have hmax := L.max_ge
  have hsec := sec.toNat_lt
  have husec := usec.toNat_lt
  have hvalue : Timeval.value ⟨L.ofULong sec, L.ofULong usec⟩ = time.sent (sec, usec) ↔
      sec.toNat ≤ L.max ∧ usec.toNat ≤ L.max := by
    simp only [Timeval.value, sent, Long.ofULong]
    split_ifs <;> omega
  unfold Restored InRange
  rw [hrun, h]
  constructor
  · rintro ⟨success, t, heq, hright⟩
    obtain ⟨t', hsettled, hpair⟩ := Option.map_eq_some_iff.mp heq
    obtain ⟨rfl, rfl⟩ := Prod.mk.inj hpair
    have hsent := (settled_eq_some hsettled).2.symm.trans ((hright rfl).2 _ rfl)
    obtain ⟨-, husec'⟩ := hvalue.mp hsent
    refine ⟨husec', ?_⟩
    unfold settled at hsettled
    rw [hsent] at hsettled
    split_ifs at hsettled with hfits
    have hle := hfits.2
    simp only [sent] at hle
    omega
  · rintro ⟨husec', hle⟩
    have hsent := hvalue.mpr ⟨by omega, husec'⟩
    have hfits : L.Fits (time.sent (sec, usec) / 1000000) := by
      simp only [sent, Long.Fits]
      omega
    rw [hsent, settled, if_pos hfits]
    refine ⟨true, _, rfl, fun _ => ⟨ofValue_normalised _, ?_⟩⟩
    rintro _ ⟨⟩
    exact value_ofValue _

/-- Spans are taken as they come. -/
theorem restored_timeSpan_iff {w : UInt32 × UInt32} (h : words s = some w) :
    Restored L timeSpan old s ↔ timeSpan.InRange L w := by
  obtain ⟨sec, usec⟩ := w
  have hrun := run_timeSpan L old h
  unfold Restored InRange
  rw [hrun, h]
  constructor
  · rintro ⟨success, t, heq, hright⟩
    obtain ⟨rfl, rfl⟩ := Prod.mk.inj (Option.some_inj.mp heq)
    exact (hright rfl).1
  · intro hnormal
    refine ⟨true, _, rfl, fun _ => ⟨hnormal, ?_⟩⟩
    rintro _ ⟨⟩
    rfl

theorem restored_iff (old : Timeval) : Restored L c old s ↔ ∀ w ∈ words s, c.InRange L w := by
  cases hwords : words s with
  | none =>
    obtain ⟨t, hrun⟩ := run_of_words_none (L := L) (c := c) old hwords
    refine iff_of_true ⟨false, t, hrun, fun h => absurd h Bool.false_ne_true⟩ ?_
    rintro w ⟨⟩
  | some w =>
    have hiff : Restored L c old s ↔ c.InRange L w := by
      cases c with
      | time => exact restored_time_iff hwords
      | timeSpan => exact restored_timeSpan_iff hwords
    rw [hiff]
    constructor
    · rintro h _ ⟨⟩
      exact h
    · intro h
      exact h w rfl

/-- Objects in normal form are equal if their values are. -/
theorem eq_iff {t t' : Timeval} (h : t.Normalised) (h' : t'.Normalised) :
    c.eq t t' = true ↔ t.value = t'.value := by
  have heq := h.eq_ofValue
  have heq' := h'.eq_ofValue
  have hstruct : c.eq t t' = true ↔ t = t' := by
    obtain ⟨sec, usec⟩ := t
    obtain ⟨sec', usec'⟩ := t'
    cases c <;> simp [TimeClass.eq, Timeval.PltTime.eq, Timeval.PltTimeSpan.eq, and_comm]
  rw [hstruct]
  constructor
  · intro h
    rw [h]
  · intro hvalue
    rw [← heq, ← heq', hvalue]

/-- Two objects that are read are right, and equal if the same was sent. -/
def Faithful {σ' : Type*} [XdrSource σ'] (L : Long) (c : TimeClass) (old old' : Timeval) (s : σ)
    (s' : σ') : Prop :=
  Restored L c old s ∧ Restored L c old' s' ∧
    ∀ t t', ((c.xdrDecode L old).run s).1 = some (true, t) →
      ((c.xdrDecode L old').run s').1 = some (true, t') →
      ∀ w ∈ words s, ∀ w' ∈ words s', (c.eq t t' = true ↔ c.sent w = c.sent w')

/-- Decoded times are in normal form where the machine can represent them, decoded spans only where
they were sent that way. -/
theorem bothRestored_iff {σ' : Type*} [XdrSource σ'] (L : Long) (c : TimeClass) (old old' : Timeval)
    (s : σ) (s' : σ') : Faithful L c old old' s s' ↔
      (∀ w ∈ words s, c.InRange L w) ∧ ∀ w ∈ words s', c.InRange L w := by
  unfold Faithful
  rw [restored_iff, restored_iff]
  constructor
  · rintro ⟨h, h', -⟩
    exact ⟨h, h'⟩
  · rintro ⟨h, h'⟩
    refine ⟨h, h', ?_⟩
    intro t t' ht ht' w hw w' hw'
    obtain ⟨_, _, hrun, hright⟩ := (restored_iff (L := L) old).mpr h
    obtain ⟨_, _, hrun', hright'⟩ := (restored_iff (L := L) old').mpr h'
    obtain ⟨rfl, rfl⟩ := Prod.mk.inj (Option.some_inj.mp (ht.symm.trans hrun))
    obtain ⟨rfl, rfl⟩ := Prod.mk.inj (Option.some_inj.mp (ht'.symm.trans hrun'))
    obtain ⟨hnormal, hvalue⟩ := hright rfl
    obtain ⟨hnormal', hvalue'⟩ := hright' rfl
    rw [eq_iff hnormal hnormal', hvalue w hw, hvalue' w' hw']

end

/-- The same span as zero seconds and one and a half million microseconds, and in normal form. -/
theorem not_faithful_timeSpan :
    ¬ Faithful Long.lp64 timeSpan ⟨0, 0⟩ ⟨0, 0⟩
      (xdrmemCreate (fun i => (wireBytes [0, 1500000]).getD i 0) 8 .decode)
      (xdrmemCreate (fun i => (wireBytes [1, 500000]).getD i 0) 8 .decode) := by
  intro h
  have hrange := (restored_iff _).mp h.1 (0, 1500000) (by decide +kernel)
  exact absurd hrange.2 (by decide)

/-- A `long` of 32 bits. -/
def ilp32 : Long := ⟨2147483647, by decide⟩

theorem ofULong_ilp32 (x : UInt32) : ilp32.ofULong x = x.toInt32.toInt := by
  have hx := x.toNat_lt
  have hint : x.toInt32.toInt = x.toBitVec.toInt := rfl
  have hnat : x.toBitVec.toNat = x.toNat := rfl
  rw [hint, BitVec.toInt_eq_toNat_cond, hnat]
  unfold Long.ofULong ilp32
  dsimp only
  split_ifs <;> omega

/-- With a `long` of 32 bits, decoded times are those of the property classes. -/
theorem ksTime_xdrDecode {σ : Type*} [XdrSource σ] {s : σ} {w : UInt32 × UInt32}
    (h : words s = some w) {old t : Timeval} (old' : AcpltKs.PltTime)
    (hrun : ((time.xdrDecode ilp32 old).run s).1 = some (true, t)) :
    ((KsTime.xdrDecode old').run s).1 =
      (true, ⟨Int32.ofInt t.tvSec, Int32.ofInt t.tvUsec⟩) := by
  rw [run_time _ _ h, Timeval.PltTime.normalize_eq (ofULong_fits ilp32 w.1), ofULong_ilp32,
    ofULong_ilp32] at hrun
  obtain ⟨t', hsettled, hpair⟩ := Option.map_eq_some_iff.mp hrun
  obtain ⟨-, rfl⟩ := Prod.mk.inj hpair
  unfold settled at hsettled
  split_ifs at hsettled
  obtain rfl := Option.some_inj.mp hsettled
  unfold words at h
  simp only [KsTime.xdrDecode, XdrReader.run]
  rcases hfirst : XdrSource.getLong s with ⟨_ | sec, s₁⟩
  · rw [hfirst] at h
    cases h
  · rw [hfirst] at h
    obtain ⟨usec, husec, rfl⟩ := Option.map_eq_some_iff.mp h
    simp only [XdrReader.run, husec, AcpltKs.PltTime.normalize, ofValue, Timeval.value]
    congr 3 <;> omega

end TimeClass

end AcpltKs
