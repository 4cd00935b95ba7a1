import AcpltKs.Plt.Long

/-! Times and time spans of the PLT library: how they are brought into normal form, added,
subtracted and compared. -/
namespace AcpltKs

structure Timeval where
  tvSec : ℤ
  tvUsec : ℤ
  deriving DecidableEq

namespace Timeval

/-- The microseconds in all. -/
def value (t : Timeval) : ℤ := t.tvSec * 1000000 + t.tvUsec

/-- `PltTimeSpan::invariant` and `PltTime::invariant` -/
def Normalised (t : Timeval) : Prop := 0 ≤ t.tvUsec ∧ t.tvUsec < 1000000

instance (t : Timeval) : Decidable t.Normalised := inferInstanceAs (Decidable (_ ∧ _))

variable (L : Long)

/-- The loop for too many microseconds. -/
def carry (t : Timeval) : Option Timeval :=
  if 1000000 ≤ t.tvUsec then
    (L.checked (t.tvSec + 1)).bind fun sec => carry ⟨sec, t.tvUsec - 1000000⟩
  else some t
termination_by t.tvUsec.toNat
decreasing_by omega

/-- The loop for negative microseconds. -/
def borrow (t : Timeval) : Option Timeval :=
  if t.tvUsec < 0 then
    (L.checked (t.tvSec - 1)).bind fun sec => borrow ⟨sec, t.tvUsec + 1000000⟩
  else some t
termination_by (-t.tvUsec).toNat
decreasing_by omega

namespace PltTimeSpan

def normalize (t : Timeval) : Option Timeval := (carry L t).bind (borrow L)

def addAssign (t ts : Timeval) : Option Timeval := do
  let sec ← L.checked (t.tvSec + ts.tvSec)
  let usec ← L.checked (t.tvUsec + ts.tvUsec)
  normalize L ⟨sec, usec⟩

def subAssign (t ts : Timeval) : Option Timeval := do
  let sec ← L.checked (t.tvSec - ts.tvSec)
  let usec ← L.checked (t.tvUsec - ts.tvUsec)
  normalize L ⟨sec, usec⟩

def eq (ts1 ts2 : Timeval) : Bool := ts1.tvSec == ts2.tvSec && ts1.tvUsec == ts2.tvUsec

def ne (ts1 ts2 : Timeval) : Bool := !(eq ts1 ts2)

def lt (ts1 ts2 : Timeval) : Bool :=
  ts1.tvSec < ts2.tvSec || (ts1.tvSec == ts2.tvSec && ts1.tvUsec < ts2.tvUsec)

def gt (ts1 ts2 : Timeval) : Bool :=
  ts1.tvSec > ts2.tvSec || (ts1.tvSec == ts2.tvSec && ts1.tvUsec > ts2.tvUsec)

def le (ts1 ts2 : Timeval) : Bool :=
  ts1.tvSec < ts2.tvSec || (ts1.tvSec == ts2.tvSec && ts1.tvUsec ≤ ts2.tvUsec)

def ge (ts1 ts2 : Timeval) : Bool :=
  ts1.tvSec > ts2.tvSec || (ts1.tvSec == ts2.tvSec && ts1.tvUsec ≥ ts2.tvUsec)

end PltTimeSpan

namespace PltTime

def normalize (t : Timeval) : Option Timeval := (borrow L t).bind (carry L)

/-- The constructor -/
def construct (seconds useconds : ℤ) : Option Timeval := normalize L ⟨seconds, useconds⟩

/-- `+=` of a time, and just so of a time span -/
def addAssign (t t' : Timeval) : Option Timeval := do
  let usec ← L.checked (t.tvUsec + t'.tvUsec)
  let sec ← L.checked (t.tvSec + t'.tvSec)
  normalize L ⟨sec, usec⟩

/-- `-=` of a time, and just so of a time span -/
def subAssign (t t' : Timeval) : Option Timeval := do
  let t ← if t.tvUsec < t'.tvUsec then do
      let usec ← L.checked (t.tvUsec + 1000000)
      let sec ← L.checked (t.tvSec - 1)
      some ⟨sec, usec⟩
    else some t
  let usec ← L.checked (t.tvUsec - t'.tvUsec)
  let sec ← L.checked (t.tvSec - t'.tvSec)
  normalize L ⟨sec, usec⟩

/-- `t + ts` -/
def addSpan (t ts : Timeval) : Option Timeval := do
  let sec ← L.checked (t.tvSec + ts.tvSec)
  let usec ← L.checked (t.tvUsec + ts.tvUsec)
  construct L sec usec

/-- `ts + t` -/
def spanAdd (ts t : Timeval) : Option Timeval := do
  let sec ← L.checked (t.tvSec + ts.tvSec)
  let usec ← L.checked (t.tvUsec + ts.tvUsec)
  construct L sec usec

/-- `t - ts` -/
def subSpan (t ts : Timeval) : Option Timeval := do
  let sec ← L.checked (t.tvSec - ts.tvSec)
  let usec ← L.checked (t.tvUsec - ts.tvUsec)
  construct L sec usec

/-- `ts - t`, where the operands of the subtractions are in the order of the other operator -/
def spanSub (ts t : Timeval) : Option Timeval := do
  let sec ← L.checked (t.tvSec - ts.tvSec)
  let usec ← L.checked (t.tvUsec - ts.tvUsec)
  construct L sec usec

/-- `t1 + t2` -/
def add (t1 t2 : Timeval) : Option Timeval := addAssign L t1 t2

/-- `t1 - t2` -/
def sub (t1 t2 : Timeval) : Option Timeval := subAssign L t1 t2

def eq (t1 t2 : Timeval) : Bool := t1.tvUsec == t2.tvUsec && t1.tvSec == t2.tvSec

def le (t1 t2 : Timeval) : Bool :=
  t1.tvSec < t2.tvSec || (t1.tvSec == t2.tvSec && t1.tvUsec ≤ t2.tvUsec)

def ne (t1 t2 : Timeval) : Bool := !(eq t1 t2)

def ge (t1 t2 : Timeval) : Bool := le t2 t1

def gt (t1 t2 : Timeval) : Bool := !(le t1 t2)

def lt (t1 t2 : Timeval) : Bool := !(le t2 t1)

end PltTime

/-- The normal form of a number of microseconds. -/
def ofValue (v : ℤ) : Timeval := ⟨v / 1000000, v % 1000000⟩

theorem ofValue_normalised (v : ℤ) : (ofValue v).Normalised := by
  unfold ofValue Normalised
  constructor
  · exact Int.emod_nonneg v (by decide)
  · exact Int.emod_lt_of_pos v (by decide)

theorem value_ofValue (v : ℤ) : (ofValue v).value = v := by
  unfold ofValue value
  dsimp only
  omega

/-- What normalisation comes to, as far as the seconds can be represented. -/
def settled (v : ℤ) : Option Timeval := if L.Fits (v / 1000000) then some (ofValue v) else none

variable {L} {t a b : Timeval}

theorem Normalised.eq_ofValue (h : t.Normalised) : ofValue t.value = t := by
  obtain ⟨sec, usec⟩ := t
  obtain ⟨hlow, hhigh⟩ := h
  simp only [ofValue, value, mk.injEq]
  dsimp only at hlow hhigh
  omega

theorem settled_of_normalised (h : t.Normalised) (hfits : L.Fits t.tvSec) :
    settled L t.value = some t := by
  have hdiv : t.value / 1000000 = t.tvSec := congrArg tvSec h.eq_ofValue
  rw [settled, hdiv, if_pos hfits, h.eq_ofValue]

/-- Seconds between two that fit do as well. -/
theorem fits_between {x y z : ℤ} (hx : L.Fits x) (hz : L.Fits z) (hxy : x ≤ y) (hyz : y ≤ z) :
    L.Fits y := ⟨hx.1.trans hxy, hyz.trans hz.2⟩

theorem carry_eq (h : 0 ≤ t.tvUsec) (hfits : L.Fits t.tvSec) : carry L t = settled L t.value := by
  induction ht : t.tvUsec.toNat using Nat.strongRecOn generalizing t with
  | ind n ih =>
    obtain ⟨sec, usec⟩ := t
    dsimp only at h hfits ht
    unfold carry
    dsimp only
    by_cases hmany : 1000000 ≤ usec
    · rw [if_pos hmany]
      by_cases hnext : L.Fits (sec + 1)
      · have hvalue : value ⟨sec + 1, usec - 1000000⟩ = value ⟨sec, usec⟩ := by
          simp only [value]
          omega
        rw [Long.checked_of_fits hnext, Option.bind_some, ← hvalue]
        apply ih (usec - 1000000).toNat (by omega) _ hnext rfl
        dsimp only
        omega
      · have hlarge : ¬ L.Fits (value ⟨sec, usec⟩ / 1000000) := by
          intro hlast
          apply hnext
          apply fits_between hfits hlast (by omega)
          simp only [value]
          omega
        rw [Long.checked, if_neg hnext, Option.bind_none, settled, if_neg hlarge]
    · rw [if_neg hmany, settled_of_normalised ⟨h, by simpa using hmany⟩ hfits]

theorem borrow_eq (h : t.tvUsec < 1000000) (hfits : L.Fits t.tvSec) :
    borrow L t = settled L t.value := by
  induction ht : (-t.tvUsec).toNat using Nat.strongRecOn generalizing t with
  | ind n ih =>
    obtain ⟨sec, usec⟩ := t
    dsimp only at h hfits ht
    unfold borrow
    dsimp only
    by_cases hneg : usec < 0
    · rw [if_pos hneg]
      by_cases hnext : L.Fits (sec - 1)
      · have hvalue : value ⟨sec - 1, usec + 1000000⟩ = value ⟨sec, usec⟩ := by
          simp only [value]
          omega
        rw [Long.checked_of_fits hnext, Option.bind_some, ← hvalue]
        apply ih (-(usec + 1000000)).toNat (by omega) _ hnext rfl
        dsimp only
        omega
      · have hsmall : ¬ L.Fits (value ⟨sec, usec⟩ / 1000000) := by
          intro hlast
          apply hnext
          apply fits_between hlast hfits _ (by omega)
          simp only [value]
          omega
        rw [Long.checked, if_neg hnext, Option.bind_none, settled, if_neg hsmall]
    · rw [if_neg hneg, settled_of_normalised ⟨by simpa using hneg, h⟩ hfits]

theorem carry_of_less (h : t.tvUsec < 1000000) : carry L t = some t := by
  unfold carry
  exact if_neg (by omega)

theorem borrow_of_nonneg (h : 0 ≤ t.tvUsec) : borrow L t = some t := by
  unfold borrow
  exact if_neg (by omega)

theorem settled_eq_some {v : ℤ} (h : settled L v = some t) : t.Normalised ∧ t.value = v := by
  unfold settled at h
  split_ifs at h
  obtain rfl := Option.some_inj.mp h
  exact ⟨ofValue_normalised v, value_ofValue v⟩

theorem settled_bind_carry (v : ℤ) : (settled L v).bind (carry L) = settled L v := by
  cases h : settled L v with
  | none => rfl
  | some t => exact carry_of_less (settled_eq_some h).1.2

theorem settled_bind_borrow (v : ℤ) : (settled L v).bind (borrow L) = settled L v := by
  cases h : settled L v with
  | none => rfl
  | some t => exact borrow_of_nonneg (settled_eq_some h).1.1

theorem PltTimeSpan.normalize_eq (hfits : L.Fits t.tvSec) :
    PltTimeSpan.normalize L t = settled L t.value := by
  unfold PltTimeSpan.normalize
  by_cases h : t.tvUsec < 1000000
  · rw [carry_of_less h, Option.bind_some, borrow_eq h hfits]
  · rw [carry_eq (by omega) hfits, settled_bind_borrow]

theorem PltTime.normalize_eq (hfits : L.Fits t.tvSec) :
    PltTime.normalize L t = settled L t.value := by
  unfold PltTime.normalize
  by_cases h : t.tvUsec < 1000000
  · rw [borrow_eq h hfits, settled_bind_carry]
  · rw [borrow_of_nonneg (by omega), Option.bind_some, carry_eq (by omega) hfits]

end Timeval

/-- A time or time span that meets the invariant of its class. -/
structure NormalTimeval (L : Long) extends Timeval where
  fits : L.Fits tvSec
  normalised : toTimeval.Normalised

/-- The operators, each for the classes of its operands. -/
inductive TimeOperator
  | spanAddAssign | spanSubAssign
  | timeAddAssign | timeAddAssignSpan | timeSubAssign | timeSubAssignSpan
  | timeAddTime | timeSubTime | timeAddSpan | spanAddTime | timeSubSpan | spanSubTime

namespace TimeOperator
open Timeval

variable (L : Long)

def apply : TimeOperator → Timeval → Timeval → Option Timeval
  | spanAddAssign => Timeval.PltTimeSpan.addAssign L
  | spanSubAssign => Timeval.PltTimeSpan.subAssign L
  | timeAddAssign | timeAddAssignSpan => Timeval.PltTime.addAssign L
  | timeSubAssign | timeSubAssignSpan => Timeval.PltTime.subAssign L
  | timeAddTime => Timeval.PltTime.add L
  | timeSubTime => Timeval.PltTime.sub L
  | timeAddSpan => Timeval.PltTime.addSpan L
  | spanAddTime => Timeval.PltTime.spanAdd L
  | timeSubSpan => Timeval.PltTime.subSpan L
  | spanSubTime => Timeval.PltTime.spanSub L

/-- The operation as it is written. -/
def exact : TimeOperator → ℤ → ℤ → ℤ
  | spanAddAssign | timeAddAssign | timeAddAssignSpan | timeAddTime | timeAddSpan | spanAddTime =>
      fun v w => v + w
  | spanSubAssign | timeSubAssign | timeSubAssignSpan | timeSubTime | timeSubSpan | spanSubTime =>
      fun v w => v - w

/-- The seconds stay in the range of their type on the way. A span minus a time is computed the
wrong way round, which makes a difference unless there is none. -/
def Representable (op : TimeOperator) (a b : Timeval) : Prop :=
  match op with
  | spanAddAssign | timeAddAssign | timeAddAssignSpan | timeAddTime | timeAddSpan | spanAddTime =>
      L.Fits (a.tvSec + b.tvSec) ∧ L.Fits ((a.value + b.value) / 1000000)
  | spanSubAssign | timeSubSpan =>
      L.Fits (a.tvSec - b.tvSec) ∧ L.Fits ((a.value - b.value) / 1000000)
  | timeSubAssign | timeSubAssignSpan | timeSubTime =>
      (a.tvUsec < b.tvUsec → L.Fits (a.tvSec - 1)) ∧ L.Fits ((a.value - b.value) / 1000000)
  | spanSubTime => a.value = b.value

/-- The result is in normal form and what the operands come to exactly. -/
def Exact (op : TimeOperator) (a b : Timeval) : Prop :=
  ∃ t, op.apply L a b = some t ∧ t.Normalised ∧ t.value = op.exact a.value b.value

variable {L}

theorem exact_settled_iff {op : TimeOperator} {a b : Timeval} {P : Prop} [Decidable P] {v : ℤ}
    (h : op.apply L a b = if P then settled L v else none)
    (hv : v = op.exact a.value b.value) :
    op.Exact L a b ↔ P ∧ L.Fits (v / 1000000) := by
  unfold Exact
  rw [h, ← hv]
  constructor
  · rintro ⟨t, ht, -, -⟩
    unfold settled at ht
    split_ifs at ht with hP hfits
    exact ⟨hP, hfits⟩
  · rintro ⟨hP, hfits⟩
    rw [if_pos hP, settled, if_pos hfits]
    exact ⟨_, rfl, ofValue_normalised v, value_ofValue v⟩

end TimeOperator

namespace NormalTimeval
open Timeval TimeOperator

variable {L : Long} (a b : NormalTimeval L)

/-- Sums and differences of microseconds are always in range. -/
theorem usec_fits : L.Fits (a.tvUsec + b.tvUsec) ∧ L.Fits (a.tvUsec - b.tvUsec) ∧
    L.Fits (a.tvUsec + 1000000) ∧ L.Fits (a.tvUsec + 1000000 - b.tvUsec) := by
  obtain ⟨ha, ha'⟩ := a.normalised
  obtain ⟨hb, hb'⟩ := b.normalised
  have hmax := L.max_ge
  unfold Long.Fits
  omega

omit a b in
/-- Seconds and microseconds are computed and brought into normal form. -/
theorem checked_normalize {normalize : Timeval → Option Timeval}
    (h : ∀ t, L.Fits t.tvSec → normalize t = settled L t.value) {sec usec v : ℤ}
    (hfits : L.Fits usec) (hv : sec * 1000000 + usec = v) :
    ((L.checked sec).bind fun sec => (L.checked usec).bind fun usec => normalize ⟨sec, usec⟩) =
      if L.Fits sec then settled L v else none := by
  rw [Long.checked_of_fits hfits]
  by_cases hsec : L.Fits sec
  · rw [Long.checked_of_fits hsec, if_pos hsec, ← hv]
    exact h ⟨sec, usec⟩ hsec
  · rw [Long.checked, if_neg hsec, if_neg hsec]
    rfl

theorem spanAddAssign_eq : Timeval.PltTimeSpan.addAssign L a.toTimeval b.toTimeval =
    if L.Fits (a.tvSec + b.tvSec) then settled L (a.value + b.value) else none :=
  checked_normalize (fun _ => Timeval.PltTimeSpan.normalize_eq) (usec_fits a b).1
    (by unfold value; omega)

theorem spanSubAssign_eq : Timeval.PltTimeSpan.subAssign L a.toTimeval b.toTimeval =
    if L.Fits (a.tvSec - b.tvSec) then settled L (a.value - b.value) else none :=
  checked_normalize (fun _ => Timeval.PltTimeSpan.normalize_eq) (usec_fits a b).2.1
    (by unfold value; omega)

theorem addSpan_eq : Timeval.PltTime.addSpan L a.toTimeval b.toTimeval =
    if L.Fits (a.tvSec + b.tvSec) then settled L (a.value + b.value) else none :=
  checked_normalize (fun _ => Timeval.PltTime.normalize_eq) (usec_fits a b).1
    (by unfold value; omega)

theorem spanAdd_eq : Timeval.PltTime.spanAdd L a.toTimeval b.toTimeval =
    if L.Fits (b.tvSec + a.tvSec) then settled L (b.value + a.value) else none :=
  checked_normalize (fun _ => Timeval.PltTime.normalize_eq) (usec_fits b a).1
    (by unfold value; omega)

theorem subSpan_eq : Timeval.PltTime.subSpan L a.toTimeval b.toTimeval =
    if L.Fits (a.tvSec - b.tvSec) then settled L (a.value - b.value) else none :=
  checked_normalize (fun _ => Timeval.PltTime.normalize_eq) (usec_fits a b).2.1
    (by unfold value; omega)

/-- The difference of the operands the other way round. -/
theorem spanSub_eq : Timeval.PltTime.spanSub L a.toTimeval b.toTimeval =
    if L.Fits (b.tvSec - a.tvSec) then settled L (b.value - a.value) else none :=
  checked_normalize (fun _ => Timeval.PltTime.normalize_eq) (usec_fits b a).2.1
    (by unfold value; omega)

omit a b in
/-- The same where the microseconds are computed first. -/
theorem checked_normalize_usec_first {sec usec v : ℤ} (hfits : L.Fits usec)
    (hv : sec * 1000000 + usec = v) :
    ((L.checked usec).bind fun usec => (L.checked sec).bind fun sec =>
      Timeval.PltTime.normalize L ⟨sec, usec⟩) = if L.Fits sec then settled L v else none := by
  rw [← checked_normalize (fun _ => Timeval.PltTime.normalize_eq) hfits hv,
    Long.checked_of_fits hfits]
  rfl

theorem timeAddAssign_eq : Timeval.PltTime.addAssign L a.toTimeval b.toTimeval =
    if L.Fits (a.tvSec + b.tvSec) then settled L (a.value + b.value) else none :=
  checked_normalize_usec_first (usec_fits a b).1 (by unfold value; omega)

/-- A second is borrowed before the subtraction where it is needed, and then never again. -/
theorem timeSubAssign_eq : Timeval.PltTime.subAssign L a.toTimeval b.toTimeval =
    if a.tvUsec < b.tvUsec → L.Fits (a.tvSec - 1) then settled L (a.value - b.value)
    else none := by
  obtain ⟨ha, ha'⟩ := a.normalised
  obtain ⟨hb, hb'⟩ := b.normalised
  obtain ⟨-, hdiff, hmore, hborrowed⟩ := usec_fits a b
  have hsettle : ∀ sec, sec = (a.value - b.value) / 1000000 →
      (if L.Fits sec then settled L (a.value - b.value) else none) =
        settled L (a.value - b.value) := by
    rintro sec rfl
    unfold settled
    split_ifs <;> rfl
  unfold Timeval.PltTime.subAssign
  by_cases hless : a.tvUsec < b.tvUsec
  · rw [if_pos hless, Long.checked_of_fits hmore]
    by_cases hfits : L.Fits (a.tvSec - 1)
    · rw [if_pos fun _ => hfits, Long.checked_of_fits hfits,
        ← hsettle (a.tvSec - 1 - b.tvSec) (by unfold value; omega)]
      exact checked_normalize_usec_first hborrowed (by simp only [value]; omega)
    · rw [if_neg fun h => hfits (h hless), Long.checked, if_neg hfits]
      rfl
  · rw [if_neg hless, if_pos fun h => absurd h hless,
      ← hsettle (a.tvSec - b.tvSec) (by unfold value; omega)]
    exact checked_normalize_usec_first hdiff (by unfold value; omega)

theorem exact_iff (op : TimeOperator) :
    op.Exact L a.toTimeval b.toTimeval ↔ op.Representable L a.toTimeval b.toTimeval := by
  cases op with
  | spanAddAssign => exact exact_settled_iff (spanAddAssign_eq a b) rfl
  | spanSubAssign => exact exact_settled_iff (spanSubAssign_eq a b) rfl
  | timeAddAssign | timeAddAssignSpan | timeAddTime =>
    exact exact_settled_iff (timeAddAssign_eq a b) rfl
  | timeSubAssign | timeSubAssignSpan | timeSubTime =>
    exact exact_settled_iff (timeSubAssign_eq a b) rfl
  | timeAddSpan => exact exact_settled_iff (addSpan_eq a b) rfl
  | spanAddTime =>
    have heq := spanAdd_eq a b
    rw [Int.add_comm b.tvSec, Int.add_comm b.value] at heq
    exact exact_settled_iff heq rfl
  | timeSubSpan => exact exact_settled_iff (subSpan_eq a b) rfl
  | spanSubTime =>
    unfold Exact apply Representable
    dsimp only
    rw [spanSub_eq]
    constructor
    · rintro ⟨t, ht, -, hvalue⟩
      split_ifs at ht
      obtain ⟨-, hvalue'⟩ := settled_eq_some ht
      have hexact : t.value = a.value - b.value := hvalue
      omega
    · intro heq
      have hsame : b.tvSec = a.tvSec := by
        obtain ⟨ha, ha'⟩ := a.normalised
        obtain ⟨hb, hb'⟩ := b.normalised
        unfold value at heq
        omega
      have hzero : L.Fits 0 := by
        have hmax := L.max_ge
        unfold Long.Fits
        omega
      rw [hsame, heq, Int.sub_self, Int.sub_self, if_pos hzero]
      refine ⟨ofValue 0, if_pos hzero, ofValue_normalised 0, ?_⟩
      rw [value_ofValue]
      simp [exact]

end NormalTimeval

inductive TimeComparison
  | eq | ne | lt | gt | le | ge

namespace TimeComparison
open Timeval

def onSpans : TimeComparison → Timeval → Timeval → Bool
  | eq => Timeval.PltTimeSpan.eq
  | ne => Timeval.PltTimeSpan.ne
  | lt => Timeval.PltTimeSpan.lt
  | gt => Timeval.PltTimeSpan.gt
  | le => Timeval.PltTimeSpan.le
  | ge => Timeval.PltTimeSpan.ge

def onTimes : TimeComparison → Timeval → Timeval → Bool
  | eq => Timeval.PltTime.eq
  | ne => Timeval.PltTime.ne
  | lt => Timeval.PltTime.lt
  | gt => Timeval.PltTime.gt
  | le => Timeval.PltTime.le
  | ge => Timeval.PltTime.ge

def Rel : TimeComparison → ℤ → ℤ → Prop
  | eq => fun v w => v = w
  | ne => fun v w => v ≠ w
  | lt => fun v w => v < w
  | gt => fun v w => v > w
  | le => fun v w => v ≤ w
  | ge => fun v w => v ≥ w

variable {L : Long} (a b : NormalTimeval L)

theorem onSpans_iff (c : TimeComparison) :
    c.onSpans a.toTimeval b.toTimeval = true ↔ c.Rel a.value b.value := by
  obtain ⟨ha, ha'⟩ := a.normalised
  obtain ⟨hb, hb'⟩ := b.normalised
  cases c <;>
    simp [onSpans, Rel, Timeval.PltTimeSpan.eq, Timeval.PltTimeSpan.ne, Timeval.PltTimeSpan.lt,
      Timeval.PltTimeSpan.gt, Timeval.PltTimeSpan.le, Timeval.PltTimeSpan.ge, value] <;>
    omega

theorem onTimes_iff (c : TimeComparison) :
    c.onTimes a.toTimeval b.toTimeval = true ↔ c.Rel a.value b.value := by
  obtain ⟨ha, ha'⟩ := a.normalised
  obtain ⟨hb, hb'⟩ := b.normalised
  cases c <;>
    simp [onTimes, Rel, Timeval.PltTime.eq, Timeval.PltTime.ne, Timeval.PltTime.lt,
      Timeval.PltTime.gt, Timeval.PltTime.le, Timeval.PltTime.ge, value] <;>
    omega

end TimeComparison

/-- An operator comes to the exact result, and the comparisons are those of the values. -/
def TimeArithmetic (L : Long) (op : TimeOperator) (a b : Timeval) : Prop :=
  op.Exact L a b ∧ ∀ c : TimeComparison,
    (c.onSpans a b = true ↔ c.Rel a.value b.value) ∧
      (c.onTimes a b = true ↔ c.Rel a.value b.value)

/-- All operators are exact as far as the seconds can be represented, but for the difference of a
span and a time. -/
theorem timeArithmetic_iff {L : Long} (op : TimeOperator) (a b : NormalTimeval L) :
    TimeArithmetic L op a.toTimeval b.toTimeval ↔
      op.Representable L a.toTimeval b.toTimeval := by
  unfold TimeArithmetic
  rw [NormalTimeval.exact_iff]
  constructor
  · exact And.left
  · intro h
    exact ⟨h, fun c => ⟨c.onSpans_iff a b, c.onTimes_iff a b⟩⟩

/-- A span of five seconds minus the time two comes to minus three seconds. -/
theorem not_timeArithmetic_spanSubTime :
    Timeval.Normalised ⟨5, 0⟩ ∧ Timeval.Normalised ⟨2, 0⟩ ∧
      ¬ TimeArithmetic Long.lp64 .spanSubTime ⟨5, 0⟩ ⟨2, 0⟩ := by
  refine ⟨by decide, by decide, ?_⟩
  intro h
  have hiff := NormalTimeval.exact_iff (L := Long.lp64)
    ⟨⟨5, 0⟩, by decide, by decide⟩ ⟨⟨2, 0⟩, by decide, by decide⟩ .spanSubTime
  have hequal : Timeval.value ⟨5, 0⟩ = Timeval.value ⟨2, 0⟩ := hiff.mp h.1
  exact absurd hequal (by decide)

end AcpltKs
