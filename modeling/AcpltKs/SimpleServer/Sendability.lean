import Mathlib.Data.List.ReduceOption
import AcpltKs.Server.Requests
import AcpltKs.SimpleServer.Registers

/-! What a simple server tells its clients fits into messages, as long as this holds of what it has
been given to serve: names and texts are not too long, times are normal, and no domain has more
children than a word can count. -/
namespace AcpltKs
open Replay

/-- A string that fits into a message even if each of its characters has to be escaped. -/
def KsString.Short (s : KsString) : Prop := 3 * s.length < 2 ^ 32

instance (s : KsString) : Decidable (KsString.Short s) := inferInstanceAs (Decidable (_ < _))

instance (s : KsString) : Decidable (KsString.Sendable s) := inferInstanceAs (Decidable (_ < _))

instance (t : PltTime) : Decidable t.Sendable := inferInstanceAs (Decidable (_ ∧ _ ∧ _))

instance (v : KsValue) : Decidable v.Sendable :=
  match v with
  | .string val => inferInstanceAs (Decidable (KsString.Sendable val))
  | .time val => inferInstanceAs (Decidable val.Sendable)
  | .byteVec vals => inferInstanceAs (Decidable (vals.length < 2 ^ 32))
  | .boolVec vals => inferInstanceAs (Decidable (vals.length < 2 ^ 32))
  | .intVec vals => inferInstanceAs (Decidable (vals.length < 2 ^ 32))
  | .uintVec vals | .singleVec vals | .stateVec vals =>
      inferInstanceAs (Decidable (vals.length < 2 ^ 32))
  | .doubleVec vals => inferInstanceAs (Decidable (vals.length < 2 ^ 32))
  | .stringVec vals =>
      inferInstanceAs (Decidable (vals.length < 2 ^ 32 ∧ ∀ s ∈ vals, KsString.Sendable s))
  | .timeVec vals => inferInstanceAs (Decidable (vals.length < 2 ^ 32 ∧ ∀ t ∈ vals, t.Sendable))
  | .timeSpanVec vals => inferInstanceAs (Decidable (vals.length < 2 ^ 32))
  | .bool _ | .int _ | .uint _ | .single _ | .double _ | .timeSpan _ | .state _ | .void =>
      inferInstanceAs (Decidable True)

theorem KsString.Short.sendable {s : KsString} (h : KsString.Short s) : KsString.Sendable s := by
  unfold KsString.Short at h
  unfold KsString.Sendable
  omega

theorem length_ksStringToPercent_le (s : KsString) :
    (ksStringToPercent s).length ≤ 3 * s.length := by
  unfold ksStringToPercent
  induction s with
  | nil => simp
  | cons c s ih =>
    rw [List.flatMap_cons, List.length_append, List.length_cons]
    have hone : (if ksIsValidChar c then [c] else ksToPercent c).length ≤ 3 := by
      split_ifs
      · simp
      · simp [ksToPercent]
    omega

theorem length_cString_le (s : KsString) : (cString s).length ≤ s.length :=
  (List.takeWhile_prefix _).length_le

structure KssSimpleCommObject.Sendable (common : KssSimpleCommObject) : Prop where
  identifier : KsString.Short common.identifier
  creationTime : common.creationTime.Sendable
  comment : KsString.Sendable common.comment

instance (common : KssSimpleCommObject) : Decidable common.Sendable :=
  decidable_of_iff (KsString.Short common.identifier ∧ common.creationTime.Sendable ∧
    KsString.Sendable common.comment) ⟨fun h => ⟨h.1, h.2.1, h.2.2⟩, fun h => ⟨h.1, h.2, h.3⟩⟩

def KssRegister.Sendable (r : KssRegister) : Prop :=
  (∀ value ∈ r.value, value.Sendable) ∧ r.time.Sendable

instance (r : KssRegister) : Decidable r.Sendable := inferInstanceAs (Decidable (_ ∧ _))

namespace KssObject
variable {obj : KssObject} {env : KssEnvironment}

/-- Everything that can be told about the object fits into a message. -/
def Sendable : KssObject → Prop
  | simpleDomain common classIdentifier _ =>
      common.Sendable ∧ KsString.Sendable classIdentifier
  | simpleVariable common var | ioStatisticsVariable common var _ =>
      common.Sendable ∧ KsString.Sendable var.techUnit ∧ var.register.Sendable
  | timeNowVariable common => common.Sendable
  | simpleLinkAlias common _ aliasPath => common.Sendable ∧ KsString.Short aliasPath

instance (obj : KssObject) : Decidable obj.Sendable :=
  match obj with
  | simpleDomain .. => inferInstanceAs (Decidable (_ ∧ _))
  | simpleVariable .. | ioStatisticsVariable .. => inferInstanceAs (Decidable (_ ∧ _ ∧ _))
  | timeNowVariable common => inferInstanceAs (Decidable common.Sendable)
  | simpleLinkAlias .. => inferInstanceAs (Decidable (_ ∧ _))

theorem Sendable.common (h : obj.Sendable) : obj.common.Sendable := by
  cases obj with
  | timeNowVariable common => exact h
  | _ => exact h.1

theorem Sendable.getComment (h : obj.Sendable) : KsString.Sendable obj.getComment := by
  have hcomment := h.common.comment
  cases obj with
  | timeNowVariable common =>
    rw [KssObject.getComment, KsString.Sendable]
    decide
  | _ => exact hcomment

theorem Sendable.getTechUnit (h : obj.Sendable) : KsString.Sendable obj.getTechUnit := by
  cases obj with
  | simpleVariable common var => exact h.2.1
  | ioStatisticsVariable common var statType => exact h.2.1
  | simpleDomain => exact show (0 : ℕ) < _ by decide
  | timeNowVariable => exact show (3 : ℕ) < _ by decide
  | simpleLinkAlias => exact show (0 : ℕ) < _ by decide

theorem Sendable.getEP (h : obj.Sendable) (env : KssEnvironment) : (obj.getEP env).Sendable where
  identifier := h.common.identifier.sendable
  creationTime := h.common.creationTime
  comment := h.getComment
  variant := by
    cases obj with
    | simpleDomain common classIdentifier children => exact h.2
    | simpleLinkAlias common haliasDomain aliasPath =>
      exact ⟨show (0 : ℕ) < _ by decide, show (0 : ℕ) < _ by decide⟩
    | simpleVariable common var => exact h.getTechUnit
    | ioStatisticsVariable common var statType => exact h.getTechUnit
    | timeNowVariable common => exact h.getTechUnit

theorem Sendable.getValue (h : obj.Sendable) (henv : env.now.Sendable) {value : KsValue}
    (hvalue : obj.getValue env = some value) : value.Sendable := by
  cases obj with
  | simpleVariable common var => exact h.2.2.1 value hvalue
  | ioStatisticsVariable common var statType =>
    cases hvalue
    trivial
  | timeNowVariable common =>
    cases hvalue
    exact henv
  | _ => cases hvalue

theorem Sendable.getTime (h : obj.Sendable) (henv : env.now.Sendable) :
    (obj.getTime env).Sendable := by
  cases obj with
  | simpleVariable common var => exact h.2.2.2
  | _ => exact henv

theorem Sendable.withRegister (h : obj.Sendable) {r : KssRegister} (hr : r.Sendable) :
    (obj.withRegister r).Sendable := by
  cases obj with
  | simpleVariable common var => exact ⟨h.1, h.2.1, hr⟩
  | ioStatisticsVariable common var statType => exact ⟨h.1, h.2.1, hr⟩
  | _ => exact h

/-- What an object accepts of the sendable properties that it is offered. -/
theorem accepts_sendable {p : KsCurrProps} (hp : p.Sendable) {r : KssRegister}
    (haccepts : obj.accepts (some p) = .ok r) : r.Sendable := by
  have hvar : ∀ var : KssSimpleVariable, var.accepts (some p) = .ok r → r.Sendable := by
    intro var haccepts
    cases p with
    | domain => cases haccepts
    | var value time state =>
      obtain ⟨⟨v, rfl, hv⟩, htime⟩ := hp
      unfold KssSimpleVariable.accepts at haccepts
      dsimp only at haccepts
      split_ifs at haccepts
      cases haccepts
      refine ⟨fun value hvalue => ?_, htime⟩
      cases hvalue
      exact hv
  cases obj with
  | simpleVariable common var => exact hvar var haccepts
  | ioStatisticsVariable common var statType => exact hvar var haccepts
  | timeNowVariable common => cases p <;> cases haccepts
  | _ => cases haccepts

end KssObject

namespace KssMemory
variable {m : KssMemory} {env : KssEnvironment} {a d : ℕ} {obj : KssObject}

/-- Everything that clients can be told about the objects fits into messages. -/
structure Sendable (m : KssMemory) : Prop where
  object : ∀ {a : ℕ} {obj : KssObject}, m.objects[a]? = some obj → obj.Sendable
  handles : ∀ d, (m.handles d).length < 2 ^ 32

/-- Only the objects that there are have to be looked at. -/
theorem sendable_iff : m.Sendable ↔ (∀ obj ∈ m.objects, obj.Sendable) ∧
    ∀ d < m.objects.length, (m.handles d).length < 2 ^ 32 := by
  constructor
  · intro h
    refine ⟨fun obj hobj => ?_, fun d _ => h.handles d⟩
    obtain ⟨a, hget⟩ := List.mem_iff_getElem?.mp hobj
    exact h.object hget
  · rintro ⟨hobjects, hhandles⟩
    refine ⟨fun hobj => hobjects _ (List.mem_of_getElem? hobj), fun d => ?_⟩
    by_cases hd : d < m.objects.length
    · exact hhandles d hd
    · rw [KssMemory.handles, KssMemory.children, List.getElem?_eq_none (not_lt.mp hd)]
      decide

instance (m : KssMemory) : Decidable m.Sendable := decidable_of_iff _ sendable_iff.symm

theorem Sendable.identifierAt (h : m.Sendable) (a : ℕ) : KsString.Short (m.identifierAt a) := by
  rw [KssMemory.identifierAt]
  cases hobj : m.objects[a]? with
  | none =>
    rw [Option.elim_none, KsString.Short]
    decide
  | some obj => exact (h.object hobj).common.identifier

theorem Sendable.linkValue (h : m.Sendable) (d : ℕ) {aliasPath : KsString}
    (hpath : KsString.Short aliasPath) : (m.linkValue d aliasPath).Sendable := by
  refine ⟨?_, ?_⟩
  · rw [List.length_map]
    exact (List.reduceOption_length_le _).trans_lt (h.handles d)
  · intro s hs
    obtain ⟨a, -, rfl⟩ := List.mem_map.mp hs
    have hid := h.identifierAt a
    unfold linkEntry
    split_ifs
    · have hlen := length_cString_le (m.identifierAt a)
      have hlen' := length_cString_le (concat aliasPath [slashChar])
      have hlen'' := length_cString_le aliasPath
      have hslash := length_cString_le [slashChar]
      unfold KsString.Short at hpath hid
      simp only [KsString.Sendable, concat, List.length_append, List.length_singleton] at *
      omega
    · exact hid.sendable

/-- The properties that a variable or link has fit into a message. -/
theorem Sendable.getCurrProps (h : m.Sendable) (henv : env.now.Sendable) (hobj : obj.Sendable)
    (hok : (m.getCurrProps env obj).1 = .ok) :
    ∃ p, (m.getCurrProps env obj).2 = some p ∧ p.Sendable := by
  have hother (heq : m.getCurrProps env obj = (obj.getValue env).elim (.generic, none) fun value =>
      (.ok, some (.var (some value) (obj.getTime env) obj.getState))) :
      ∃ p, (m.getCurrProps env obj).2 = some p ∧ p.Sendable := by
    rw [heq] at hok ⊢
    cases hvalue : obj.getValue env with
    | none =>
      rw [hvalue] at hok
      exact absurd hok (show KsResultCode.generic ≠ KsResultCode.ok by decide)
    | some value => exact ⟨_, rfl, ⟨value, rfl, hobj.getValue henv hvalue⟩, hobj.getTime henv⟩
  cases obj with
  | simpleLinkAlias common haliasDomain aliasPath =>
    exact ⟨_, rfl, ⟨_, rfl, h.linkValue haliasDomain hobj.2⟩, henv⟩
  | _ =>
    refine hother ?_
    rw [KssMemory.getCurrProps]
    · cases KssObject.getValue env _ <;> rfl
    · simp

/-- Writing sendable values keeps a memory sendable. -/
theorem Sendable.assign (h : m.Sendable) {writes : List (ℕ × KssRegister)}
    (hwrites : ∀ w ∈ writes, w.2.Sendable) : (m.assign (replay m.registers writes)).Sendable where
  object := by
    intro a obj hobj
    rw [getElem?_assign_replay] at hobj
    obtain ⟨old, hold, rfl⟩ := Option.map_eq_some_iff.mp hobj
    cases hlast : lastWrite writes a with
    | none =>
      rw [Option.getD_none, KssObject.withRegister_register]
      exact h.object hold
    | some r =>
      obtain ⟨w, hw, rfl⟩ := Option.map_eq_some_iff.mp hlast
      exact (h.object hold).withRegister
        (hwrites w (List.mem_reverse.mp (List.mem_of_find?_eq_some hw)))
  handles d := by
    rw [KssMemory.handles, (m.sameTree_assign _).children]
    exact h.handles d

end KssMemory

end AcpltKs
