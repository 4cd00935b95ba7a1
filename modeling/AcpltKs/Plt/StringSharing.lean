import AcpltKs.Library.GuardedRun
import AcpltKs.Library.SharedCells
import AcpltKs.Plt.String
import Mathlib.Data.Finset.Card

/-! The representations that the strings of the PLT library share and copy before they are written
to. -/
namespace AcpltKs
open Function SharedCells

/-- The characters in memory, with what is behind them, and how many there are. -/
structure Srep where
  s : List UInt8
  len : ℕ

/-- What a C function reads; it has no outcome where no null character ends it. -/
def cStr (s : List UInt8) : Option KsString := if 0 ∈ s then some (cString s) else none

/-- `strcpy` into a buffer -/
def strcpy (buffer : List UInt8) (offset : ℕ) (cs : KsString) : List UInt8 :=
  buffer.take offset ++ (cs ++ [0]) ++ buffer.drop (offset + (cs.length + 1))

/-- The representations, the strings there are by their addresses, and whether something undefined
was done. -/
structure Strings where
  reps : ℕ → Option (Cell Srep)
  live : Finset ℕ
  p : ℕ → ℕ
  fault : Bool

/-- Characters of the caller's, or those of a string from a position on. -/
inductive CharSource
  | chars (cs : KsString)
  | within (j first : ℕ)

namespace Strings

def fail (s : Strings) : Strings := { s with fault := true }

/-- The greatest `int` -/
def intMax : ℕ := 2147483647

def retain (s : Strings) (r : ℕ) : Strings :=
  { s with
    reps := SharedCells.retain s.reps r
    fault := s.fault || !(s.reps r).any fun c => c.count < intMax }

def release (s : Strings) (r : ℕ) : Strings :=
  { s with reps := SharedCells.release s.reps r, fault := s.fault || (s.reps r).isNone }

def alloc (s : Strings) (r : ℕ) (x : Srep) : Strings :=
  { s with reps := SharedCells.alloc s.reps r x }

/-- The characters of a representation are replaced. -/
def store (s : Strings) (r : ℕ) (c : Cell Srep) (x : Srep) : Strings :=
  { s with reps := update s.reps r (some { c with content := x }) }

/-- A string, new or not, gets a representation. -/
def point (s : Strings) (i r : ℕ) : Strings :=
  { s with live := insert i s.live, p := update s.p i r }

/-- `PltString(size_t, char *)`, and what the other constructors come to -/
def own (s : Strings) (i r : ℕ) (bs : List UInt8) : Strings :=
  (s.alloc r ⟨bs ++ [0], bs.length⟩).point i r

/-- `PltString(const char *, size_t)`, where no length stands for `PLT_SIZE_T_MAX` -/
def construct (s : Strings) (i r : ℕ) (cs : KsString) (len : Option ℕ) : Strings :=
  s.own i r (len.elim cs cs.take)

/-- The copy constructor -/
def copy (s : Strings) (i j : ℕ) : Strings := (s.retain (s.p j)).point i (s.p j)

def destroy (s : Strings) (i : ℕ) : Strings :=
  let s := s.release (s.p i)
  { s with live := s.live.erase i }

/-- `operator = (const PltString &)` -/
def assign (s : Strings) (i j : ℕ) : Strings :=
  ((s.retain (s.p j)).release (s.p i)).point i (s.p j)

/-- `operator +=`; the new memory is filled in any way. -/
def append (s : Strings) (i j r : ℕ) (fill : ℕ → UInt8) : Strings :=
  match contentAt s.reps (s.p i), contentAt s.reps (s.p j) with
  | some x, some y =>
      match cStr x.s, cStr y.s with
      | some cx, some cy =>
          let len := x.len + y.len
          let buffer := (List.range (len + 1)).map fill
          let buffer := strcpy buffer 0 cx
          let buffer := strcpy buffer x.len cy
          ((s.alloc r ⟨buffer, len⟩).release (s.p i)).point i r
      | _, _ => s.fail
  | _, _ => s.fail

def cloneIfNeeded (s : Strings) (i r : ℕ) : Strings :=
  match s.reps (s.p i) with
  | some c =>
      if 1 < c.count then
        ((s.release (s.p i)).alloc r ⟨c.content.s.take (c.content.len + 1), c.content.len⟩).point i r
      else s
  | none => s.fail

/-- A character is written through `operator []`. -/
def set (s : Strings) (i k : ℕ) (c : UInt8) (r : ℕ) : Strings :=
  let s := s.cloneIfNeeded i r
  match s.reps (s.p i) with
  | some x => s.store (s.p i) x ⟨x.content.s.set k c, x.content.len⟩
  | none => s.fail

def substr (s : Strings) (i j first : ℕ) (len : Option ℕ) (r : ℕ) : Strings :=
  match contentAt s.reps (s.p j) with
  | some x =>
      if first = 0 ∧ ∀ n ∈ len, x.len ≤ n then s.copy i j
      else if first < x.len then
        match cStr (x.s.drop first) with
        | some cs => s.construct i r cs len
        | none => s.fail
      else s.own i r []
  | none => s.fail

def charsOf (s : Strings) : CharSource → Option KsString
  | .chars cs => some cs
  | .within j first => (contentAt s.reps (s.p j)).bind fun x => cStr (x.s.drop first)

/-- `PltString(const char *, const char *)`, which `operator +` calls -/
def concat (s : Strings) (i : ℕ) (p₁ p₂ : CharSource) (r : ℕ) : Strings :=
  match s.charsOf p₁, s.charsOf p₂ with
  | some c₁, some c₂ => s.own i r (c₁ ++ c₂)
  | _, _ => s.fail

/-- Do the characters belong to this representation? -/
def reads (s : Strings) (r : ℕ) : CharSource → Bool
  | .chars _ => false
  | .within j _ => s.p j == r

/-- `operator = (const char *)`; the old characters are gone before the new ones are copied. -/
def assignChars (s : Strings) (i : ℕ) (source : CharSource) (r : ℕ) : Strings :=
  match s.charsOf source, s.reps (s.p i) with
  | some cs, some c =>
      if 1 < c.count then
        ((s.release (s.p i)).alloc r ⟨cs ++ [0], cs.length⟩).point i r
      else
        { s.store (s.p i) c ⟨cs ++ [0], cs.length⟩ with
          fault := s.fault || s.reads (s.p i) source }
  | _, _ => s.fail

/-- The characters of a string. -/
def value (s : Strings) (i : ℕ) : Option KsString :=
  if i ∈ s.live then (contentAt s.reps (s.p i)).map fun x => x.s.take x.len else none

/-- What C functions see of a string. -/
def seen (s : Strings) (i : ℕ) : Option KsString :=
  (contentAt s.reps (s.p i)).bind fun x => cStr x.s

/-- `operator ==` of strings -/
def equal (s : Strings) (i j : ℕ) : Option Bool := do
  let cx ← s.seen i
  let cy ← s.seen j
  return cx == cy

/-- `operator ==` of a string and characters, or a string constructed from them -/
def equalChars (s : Strings) (i : ℕ) (cs : KsString) : Option Bool :=
  (s.seen i).map (· == cs)

def hash (s : Strings) (i : ℕ) : Option ULong := (s.seen i).map hashString

def empty : Strings := ⟨fun _ => none, ∅, fun _ => 0, false⟩

end Strings

/-- What is done with strings; new representations are put where there is none. -/
inductive StringOperation
  | create (i r : ℕ)
  | construct (i r : ℕ) (cs : KsString) (len : Option ℕ)
  | own (i r : ℕ) (bs : List UInt8)
  | concat (i : ℕ) (p₁ p₂ : CharSource) (r : ℕ)
  | copy (i j : ℕ)
  | destroy (i : ℕ)
  | assign (i j : ℕ)
  | assignChars (i : ℕ) (source : CharSource) (r : ℕ)
  | substr (i j first : ℕ) (len : Option ℕ) (r : ℕ)
  | append (i j r : ℕ) (fill : ℕ → UInt8)
  | set (i k : ℕ) (c : UInt8) (r : ℕ)

/-- `KsString::xdrDecode` of a length and characters: a string `t` is created, the temporary `u`
takes over the characters read, and the strings are assigned. -/
def StringOperation.xdrDecode (i t u r r' : ℕ) (bs : List UInt8) : List StringOperation :=
  [.create t r, .own u r' bs, .assign t u, .destroy u, .assign i t, .destroy t]

def Strings.step (s : Strings) : StringOperation → Strings
  | .create i r => s.own i r []
  | .construct i r cs len => s.construct i r cs len
  | .own i r bs => s.own i r bs
  | .concat i p₁ p₂ r => s.concat i p₁ p₂ r
  | .copy i j => s.copy i j
  | .destroy i => s.destroy i
  | .assign i j => s.assign i j
  | .assignChars i source r => s.assignChars i source r
  | .substr i j first len r => s.substr i j first len r
  | .append i j r fill => s.append i j r fill
  | .set i k c r => s.set i k c r

/-- The strings as values that belong to one variable each. -/
abbrev StringValues := ℕ → Option KsString

namespace StringValues

def charsOf (v : StringValues) : CharSource → Option KsString
  | .chars cs => some cs
  | .within j first => (v j).map (·.drop first)

/-- The operations on values. -/
def step (v : StringValues) : StringOperation → StringValues
  | .create i _ => update v i (some [])
  | .construct i _ cs len => update v i (some (len.elim cs cs.take))
  | .own i _ bs => update v i (some bs)
  | .concat i p₁ p₂ _ =>
      update v i ((v.charsOf p₁).bind fun c₁ => (v.charsOf p₂).map (c₁ ++ ·))
  | .copy i j | .assign i j => update v i (v j)
  | .destroy i => update v i none
  | .assignChars i source _ => update v i (v.charsOf source)
  | .substr i j first len _ =>
      update v i ((v j).map fun bs => len.elim (bs.drop first) (bs.drop first).take)
  | .append i j _ _ => update v i ((v i).bind fun bs => (v j).map (bs ++ ·))
  | .set i k c _ => update v i ((v i).map (·.set k c))

end StringValues

theorem cStr_terminated {bs : KsString} (hbs : 0 ∉ bs) : cStr (bs ++ [0]) = some bs := by
  unfold cStr
  rw [if_pos (by simp), cString_append hbs]
  change some (bs ++ []) = some bs
  rw [List.append_nil]

theorem strcpy_strcpy {buffer : List UInt8} {cx cy : KsString}
    (hbuffer : buffer.length = cx.length + cy.length + 1) :
    strcpy (strcpy buffer 0 cx) cx.length cy = cx ++ cy ++ [0] := by
  have hrest : (strcpy buffer 0 cx).drop (cx.length + (cy.length + 1)) = [] := by
    apply List.drop_eq_nil_of_le
    unfold strcpy
    simp only [List.take_zero, List.nil_append, List.length_append, List.length_singleton,
      List.length_drop]
    omega
  have hfirst : (strcpy buffer 0 cx).take cx.length = cx := by
    unfold strcpy
    rw [List.take_zero, List.nil_append, List.append_assoc, List.take_left]
  change (strcpy buffer 0 cx).take cx.length ++ (cy ++ [0]) ++
    (strcpy buffer 0 cx).drop (cx.length + (cy.length + 1)) = cx ++ cy ++ [0]
  rw [hrest, hfirst, List.append_nil, List.append_assoc]

namespace Strings
variable {s : Strings} {v : StringValues} {i j r : ℕ}

/-- The representations of the strings there are. -/
def refs (s : Strings) : Multiset ℕ := s.live.val.map s.p

/-- The representations of all strings but one. -/
def others (s : Strings) (i : ℕ) : Multiset ℕ := (s.live.erase i).val.map s.p

theorem refs_eq (hi : i ∈ s.live) : s.refs = s.p i ::ₘ s.others i := by
  unfold refs others
  rw [Finset.erase_val, ← Multiset.map_cons, Multiset.cons_erase hi]

theorem others_of_not_mem (hi : i ∉ s.live) : s.others i = s.refs := by
  unfold others refs
  rw [Finset.erase_eq_of_notMem hi]

theorem mem_refs (hi : i ∈ s.live) : s.p i ∈ s.refs := Multiset.mem_map_of_mem _ hi

theorem mem_others (hj : j ∈ s.live) (hji : j ≠ i) : s.p j ∈ s.others i :=
  Multiset.mem_map_of_mem _ (Finset.mem_erase.mpr ⟨hji, hj⟩)

theorem refs_point : (s.point i r).refs = r ::ₘ s.others i := by
  have hmem : i ∈ (s.point i r).live := Finset.mem_insert_self ..
  have hp : (s.point i r).p i = r := update_self ..
  rw [refs_eq hmem, hp]
  congr 1
  unfold others point
  dsimp only
  rw [Finset.erase_insert_eq_erase]
  apply Multiset.map_congr rfl
  intro j hj
  exact update_of_ne (Finset.ne_of_mem_erase hj) ..

theorem others_point : (s.point i r).others i = s.others i := by
  have hrefs := refs_point (s := s) (i := i) (r := r)
  rw [refs_eq (s := s.point i r) (Finset.mem_insert_self ..),
    show (s.point i r).p i = r from update_self ..] at hrefs
  exact Multiset.cons_inj_right r |>.mp hrefs

/-- What is released and what is new do not interfere. -/
theorem release_alloc {q : ℕ} (hq : q ≠ r) (x : Srep) :
    (s.release q).alloc r x = (s.alloc r x).release q := by
  unfold release alloc
  dsimp only
  unfold SharedCells.release SharedCells.alloc
  rw [update_of_ne hq, update_comm hq]

theorem point_self (hi : i ∈ s.live) : s.point i (s.p i) = s := by
  unfold point
  rw [Finset.insert_eq_of_mem hi, update_eq_self]

/-- The strings share their representations as counted, and each has the characters of its value,
which a null character ends. -/
structure Denotes (s : Strings) (v : StringValues) : Prop where
  fault : s.fault = false
  counted : Counted s.reps s.refs
  content : ∀ i ∈ s.live, ∃ bs, 0 ∉ bs ∧
    contentAt s.reps (s.p i) = some ⟨bs ++ [0], bs.length⟩ ∧ v i = some bs
  gone : ∀ i, i ∉ s.live → v i = none

/-- There may be one reference more to the representation of a string. -/
def Room (s : Strings) (j : ℕ) : Prop := ∀ c, s.reps (s.p j) = some c → c.count < intMax

/-- Characters that a null character ends. -/
def Readable (s : Strings) (v : StringValues) : CharSource → Prop
  | .chars cs => 0 ∉ cs
  | .within j first => j ∈ s.live ∧ ∀ bs, v j = some bs → first ≤ bs.length

/-- The characters are not those that the assignment deletes. -/
def Apart (s : Strings) (i : ℕ) (source : CharSource) : Prop :=
  s.reads (s.p i) source = true → ∀ c, s.reps (s.p i) = some c → 1 < c.count

namespace Denotes

/-- One string gets a representation, and the others keep theirs. -/
theorem point (h : Denotes s v) {t : Strings} {bs : KsString} (hfault : t.fault = false)
    (hlive : t.live = s.live) (hp : t.p = s.p) (hcounted : Counted t.reps (r ::ₘ s.others i))
    (hothers : ∀ q ∈ s.others i, contentAt t.reps q = contentAt s.reps q)
    (hcontent : contentAt t.reps r = some ⟨bs ++ [0], bs.length⟩) (hbs : 0 ∉ bs) :
    Denotes (t.point i r) (update v i (some bs)) := by
  constructor
  · exact hfault
  · rw [refs_point]
    unfold Strings.others
    rw [hlive, hp]
    exact hcounted
  · intro j hj
    by_cases hji : j = i
    · subst hji
      refine ⟨bs, hbs, ?_, update_self ..⟩
      rw [show (t.point j r).p j = r from update_self ..]
      exact hcontent
    · have hmem : j ∈ s.live := hlive ▸ Finset.mem_of_mem_insert_of_ne hj hji
      obtain ⟨bs', hbs', hold, hv⟩ := h.content j hmem
      refine ⟨bs', hbs', ?_, ?_⟩
      · rw [show (t.point i r).p j = s.p j from (update_of_ne hji ..).trans (congrFun hp j)]
        exact (hothers _ (mem_others hmem hji)).trans hold
      · rw [update_of_ne hji, hv]
  · intro j hj
    have hji : j ≠ i := by
      rintro rfl
      exact hj (Finset.mem_insert_self ..)
    rw [update_of_ne hji]
    apply h.gone
    intro hmem
    exact hj (Finset.mem_insert_of_mem (hlive ▸ hmem))

theorem own (h : Denotes s v) (hi : i ∉ s.live) (hr : s.reps r = none) {bs : KsString}
    (hbs : 0 ∉ bs) : Denotes (s.own i r bs) (update v i (some bs)) := by
  apply h.point (t := s.alloc r ⟨bs ++ [0], bs.length⟩) h.fault rfl rfl
  · rw [others_of_not_mem hi]
    exact h.counted.alloc hr _
  · intro q hq
    rw [others_of_not_mem hi] at hq
    exact (contentAt_alloc ..).trans
      (if_neg fun heq : q = r => h.counted.not_mem hr (heq ▸ hq))
  · exact (contentAt_alloc ..).trans (if_pos rfl)
  · exact hbs

theorem retain_fault (h : Denotes s v) (hj : j ∈ s.live) (hroom : Room s j) :
    (s.retain (s.p j)).fault = false := by
  obtain ⟨c, hc, -⟩ := h.counted.cell (mem_refs hj)
  unfold Strings.retain
  simp [h.fault, hc, hroom c hc]

theorem copy (h : Denotes s v) (hi : i ∉ s.live) (hj : j ∈ s.live) (hroom : Room s j) :
    Denotes (s.copy i j) (update v i (v j)) := by
  obtain ⟨bs, hbs, hcontent, hv⟩ := h.content j hj
  rw [hv]
  apply h.point (h.retain_fault hj hroom) rfl rfl
  · rw [others_of_not_mem hi]
    exact h.counted.retain (mem_refs hj)
  · intro q _
    exact contentAt_retain ..
  · exact (contentAt_retain ..).trans hcontent
  · exact hbs

theorem assign (h : Denotes s v) (hi : i ∈ s.live) (hj : j ∈ s.live) (hroom : Room s j) :
    Denotes (s.assign i j) (update v i (v j)) := by
  obtain ⟨bs, hbs, hcontent, hv⟩ := h.content j hj
  have hretained := h.counted.retain (mem_refs hj)
  rw [refs_eq hi, Multiset.cons_swap] at hretained
  have hkept : ∀ q ∈ s.p j ::ₘ s.others i,
      contentAt ((s.retain (s.p j)).release (s.p i)).reps q = contentAt s.reps q := by
    intro q hq
    exact (contentAt_release hretained hq).trans (contentAt_retain ..)
  rw [hv]
  apply h.point (t := (s.retain (s.p j)).release (s.p i)) _ rfl rfl
  · exact hretained.release
  · intro q hq
    exact hkept q (Multiset.mem_cons_of_mem hq)
  · exact (hkept _ (Multiset.mem_cons_self _ _)).trans hcontent
  · exact hbs
  · obtain ⟨c, hc, -⟩ := hretained.cell (Multiset.mem_cons_self _ _)
    have hfault := h.retain_fault hj hroom
    unfold Strings.release
    dsimp only
    rw [hfault, show (s.retain (s.p j)).reps (s.p i) = some c from hc]
    rfl

theorem destroy (h : Denotes s v) (hi : i ∈ s.live) :
    Denotes (s.destroy i) (update v i none) := by
  have hcounted := h.counted
  rw [refs_eq hi] at hcounted
  constructor
  · obtain ⟨c, hc, -⟩ := h.counted.cell (mem_refs hi)
    unfold Strings.destroy Strings.release
    simp [h.fault, hc]
  · exact hcounted.release
  · intro j hj
    obtain ⟨hji, hmem⟩ := Finset.mem_erase.mp hj
    obtain ⟨bs, hbs, hcontent, hv⟩ := h.content j hmem
    refine ⟨bs, hbs, ?_, ?_⟩
    · exact (contentAt_release hcounted (mem_others hmem hji)).trans hcontent
    · rw [update_of_ne hji, hv]
  · intro j hj
    by_cases hji : j = i
    · rw [hji, update_self]
    · rw [update_of_ne hji]
      apply h.gone
      intro hmem
      exact hj (Finset.mem_erase.mpr ⟨hji, hmem⟩)

/-- A string leaves its representation for a new one. -/
theorem replace (h : Denotes s v) (hi : i ∈ s.live) (hr : s.reps r = none) {bs : KsString}
    (hbs : 0 ∉ bs) :
    Denotes (((s.alloc r ⟨bs ++ [0], bs.length⟩).release (s.p i)).point i r)
      (update v i (some bs)) := by
  have hfresh := h.counted.not_mem hr
  have halloc := h.counted.alloc hr (⟨bs ++ [0], bs.length⟩ : Srep)
  rw [refs_eq hi] at hfresh
  rw [refs_eq hi, Multiset.cons_swap] at halloc
  have hkept : ∀ q ∈ r ::ₘ s.others i, contentAt ((s.alloc r ⟨bs ++ [0], bs.length⟩).release
      (s.p i)).reps q = if q = r then some ⟨bs ++ [0], bs.length⟩ else contentAt s.reps q := by
    intro q hq
    exact (contentAt_release halloc hq).trans (contentAt_alloc ..)
  apply h.point (t := (s.alloc r ⟨bs ++ [0], bs.length⟩).release (s.p i)) _ rfl rfl
  · exact halloc.release
  · intro q hq
    rw [hkept q (Multiset.mem_cons_of_mem hq), if_neg]
    rintro rfl
    exact hfresh (Multiset.mem_cons_of_mem hq)
  · rw [hkept r (Multiset.mem_cons_self _ _), if_pos rfl]
  · exact hbs
  · obtain ⟨c, hc, -⟩ := halloc.cell (Multiset.mem_cons_self _ _)
    unfold Strings.release
    dsimp only
    rw [show (s.alloc r ⟨bs ++ [0], bs.length⟩).reps (s.p i) = some c from hc]
    exact (Bool.or_false _).trans h.fault

theorem ne_of_fresh (h : Denotes s v) (hi : i ∈ s.live) (hr : s.reps r = none) : s.p i ≠ r := by
  rintro rfl
  exact h.counted.not_mem hr (mem_refs hi)

theorem append (h : Denotes s v) (hi : i ∈ s.live) (hj : j ∈ s.live) (hr : s.reps r = none)
    (fill : ℕ → UInt8) :
    Denotes (s.append i j r fill) (update v i ((v i).bind fun bs => (v j).map (bs ++ ·))) := by
  obtain ⟨bx, hbx, hx, hvx⟩ := h.content i hi
  obtain ⟨bz, hbz, hz, hvz⟩ := h.content j hj
  have hbs : 0 ∉ bx ++ bz := by simp [hbx, hbz]
  have hreplace := h.replace hi hr hbs
  unfold Strings.append
  rw [hx, hz, hvx, hvz]
  dsimp only
  rw [cStr_terminated hbx, cStr_terminated hbz]
  dsimp only
  rw [strcpy_strcpy (by simp), ← List.length_append]
  exact hreplace

/-- The only reference to a representation. -/
theorem sole (h : Denotes s v) (hi : i ∈ s.live) {c : Cell Srep} (hc : s.reps (s.p i) = some c)
    (hcount : ¬ 1 < c.count) : s.p i ∉ s.others i := by
  obtain ⟨c', hc', hcounted⟩ := h.counted.cell (mem_refs hi)
  obtain rfl : c = c' := Option.some_inj.mp (hc.symm.trans hc')
  rw [refs_eq hi, Multiset.count_cons_self] at hcounted
  rw [← Multiset.count_eq_zero]
  omega

/-- After it, writing to the characters of the string is no harm to others. -/
theorem cloneIfNeeded (h : Denotes s v) (hi : i ∈ s.live) (hr : s.reps r = none) :
    Denotes (s.cloneIfNeeded i r) v ∧ (s.cloneIfNeeded i r).live = s.live ∧
      (s.cloneIfNeeded i r).p i ∉ (s.cloneIfNeeded i r).others i := by
  obtain ⟨bs, hbs, hcontent, hv⟩ := h.content i hi
  obtain ⟨c, hc, hsrep⟩ := Option.map_eq_some_iff.mp hcontent
  unfold Strings.cloneIfNeeded
  rw [hc]
  dsimp only
  split_ifs with hcount
  · have hreplace := h.replace hi hr hbs
    rw [← hv, update_eq_self, ← release_alloc (h.ne_of_fresh hi hr)] at hreplace
    rw [hsrep]
    dsimp only
    rw [List.take_of_length_le (by simp)]
    refine ⟨hreplace, Finset.insert_eq_of_mem hi, ?_⟩
    rw [others_point, show (Strings.point _ i r).p i = r from update_self ..]
    intro hmem
    apply h.counted.not_mem hr
    rw [refs_eq hi]
    exact Multiset.mem_cons_of_mem hmem
  · exact ⟨h, rfl, h.sole hi hc hcount⟩

/-- The characters of a string that shares them with no other are written to. -/
theorem store (h : Denotes s v) (hi : i ∈ s.live) (hsole : s.p i ∉ s.others i) {c : Cell Srep}
    (hc : s.reps (s.p i) = some c) {bs : KsString} (hbs : 0 ∉ bs) :
    Denotes (s.store (s.p i) c ⟨bs ++ [0], bs.length⟩) (update v i (some bs)) := by
  rw [← point_self (s := s.store (s.p i) c ⟨bs ++ [0], bs.length⟩) hi]
  apply h.point (t := s.store (s.p i) c ⟨bs ++ [0], bs.length⟩) h.fault rfl rfl
  · change Counted _ (s.p i ::ₘ s.others i)
    rw [← refs_eq hi]
    exact h.counted.write hc rfl
  · intro q hq
    unfold contentAt Strings.store
    dsimp only
    rw [update_of_ne (fun heq : q = s.p i => hsole (heq ▸ hq))]
  · unfold contentAt Strings.store
    dsimp only
    rw [update_self]
    rfl
  · exact hbs

/-- A character is written, which may be the null character. -/
theorem set_eq (h : Denotes s v) (hi : i ∈ s.live) (hr : s.reps r = none) {bs : KsString}
    (hv : v i = some bs) {k : ℕ} (hk : k < bs.length) (c : UInt8) :
    ∃ t x, Denotes t v ∧ t.live = s.live ∧ t.p i ∉ t.others i ∧ t.reps (t.p i) = some x ∧
      s.set i k c r = t.store (t.p i) x ⟨bs.set k c ++ [0], (bs.set k c).length⟩ := by
  obtain ⟨hcloned, hlive, hsole⟩ := h.cloneIfNeeded hi hr
  obtain ⟨bs', -, hcontent, hv'⟩ := hcloned.content i (hlive ▸ hi)
  obtain rfl : bs = bs' := Option.some_inj.mp (hv.symm.trans hv')
  obtain ⟨x, hx, hsrep⟩ := Option.map_eq_some_iff.mp hcontent
  refine ⟨s.cloneIfNeeded i r, x, hcloned, hlive, hsole, hx, ?_⟩
  unfold Strings.set
  dsimp only
  rw [hx]
  dsimp only
  rw [hsrep, List.set_append_left k c hk, List.length_set]

theorem set (h : Denotes s v) (hi : i ∈ s.live) (hr : s.reps r = none) {k : ℕ}
    (hk : ∀ bs, v i = some bs → k < bs.length) {c : UInt8} (hc : c ≠ 0) :
    Denotes (s.set i k c r) (update v i ((v i).map (·.set k c))) := by
  obtain ⟨bs, hbs, -, hv⟩ := h.content i hi
  obtain ⟨t, x, ht, hlive, hsole, hx, heq⟩ := h.set_eq hi hr hv (hk bs hv) c
  rw [heq, hv, Option.map_some]
  apply ht.store (hlive ▸ hi) hsole hx
  intro hmem
  obtain hold | hnull := List.mem_or_eq_of_mem_set hmem
  · exact hbs hold
  · exact hc hnull.symm

theorem substr (h : Denotes s v) (hi : i ∉ s.live) (hj : j ∈ s.live) (hr : s.reps r = none)
    {first : ℕ} {len : Option ℕ}
    (hroom : ∀ bs, v j = some bs → (first = 0 ∧ ∀ n ∈ len, bs.length ≤ n) → Room s j) :
    Denotes (s.substr i j first len r) (update v i
      ((v j).map fun bs => len.elim (bs.drop first) (bs.drop first).take)) := by
  obtain ⟨bs, hbs, hcontent, hv⟩ := h.content j hj
  have hdrop : 0 ∉ bs.drop first := fun hmem => hbs (List.mem_of_mem_drop hmem)
  unfold Strings.substr
  rw [hcontent, hv, Option.map_some]
  dsimp only
  split_ifs with hwhole hfirst
  · obtain ⟨rfl, hlen⟩ := hwhole
    have hcopy := h.copy hi hj (hroom bs hv ⟨rfl, hlen⟩)
    rw [hv] at hcopy
    cases len with
    | none => exact hcopy
    | some n =>
      rw [List.drop_zero, Option.elim_some, List.take_of_length_le (hlen n rfl)]
      exact hcopy
  · rw [List.drop_append_of_le_length hfirst.le, cStr_terminated hdrop]
    apply h.own hi hr
    cases len with
    | none => exact hdrop
    | some n => exact fun hmem => hdrop (List.mem_of_mem_take hmem)
  · rw [List.drop_eq_nil_of_le (Nat.not_lt.mp hfirst)]
    have hown := h.own hi hr (List.not_mem_nil (a := 0))
    cases len with
    | none => exact hown
    | some n =>
      rw [Option.elim_some, List.take_nil]
      exact hown

theorem charsOf (h : Denotes s v) {source : CharSource} (hsource : Readable s v source) :
    ∃ cs, 0 ∉ cs ∧ s.charsOf source = some cs ∧ v.charsOf source = some cs := by
  cases source with
  | chars cs => exact ⟨cs, hsource, rfl, rfl⟩
  | within j first =>
    obtain ⟨bs, hbs, hcontent, hv⟩ := h.content j hsource.1
    have hdrop : 0 ∉ bs.drop first := fun hmem => hbs (List.mem_of_mem_drop hmem)
    refine ⟨bs.drop first, hdrop, ?_, ?_⟩
    · unfold Strings.charsOf
      dsimp only
      rw [hcontent, Option.bind_some, List.drop_append_of_le_length (hsource.2 bs hv)]
      exact cStr_terminated hdrop
    · unfold StringValues.charsOf
      dsimp only
      rw [hv, Option.map_some]

theorem concat (h : Denotes s v) (hi : i ∉ s.live) (hr : s.reps r = none) {p₁ p₂ : CharSource}
    (h₁ : Readable s v p₁) (h₂ : Readable s v p₂) :
    Denotes (s.concat i p₁ p₂ r)
      (update v i ((v.charsOf p₁).bind fun c₁ => (v.charsOf p₂).map (c₁ ++ ·))) := by
  obtain ⟨c₁, hc₁, hread₁, hv₁⟩ := h.charsOf h₁
  obtain ⟨c₂, hc₂, hread₂, hv₂⟩ := h.charsOf h₂
  unfold Strings.concat
  rw [hread₁, hread₂, hv₁, hv₂]
  exact h.own hi hr (by simp [hc₁, hc₂])

theorem assignChars (h : Denotes s v) (hi : i ∈ s.live) (hr : s.reps r = none)
    {source : CharSource} (hsource : Readable s v source) (hapart : Apart s i source) :
    Denotes (s.assignChars i source r) (update v i (v.charsOf source)) := by
  obtain ⟨cs, hcs, hread, hv⟩ := h.charsOf hsource
  obtain ⟨c, hc, -⟩ := h.counted.cell (mem_refs hi)
  unfold Strings.assignChars
  rw [hread, hc, hv]
  dsimp only
  split_ifs with hcount
  · rw [release_alloc (h.ne_of_fresh hi hr)]
    exact h.replace hi hr hcs
  · have hnot : s.reads (s.p i) source = false := by
      apply Bool.eq_false_iff.mpr
      intro hreads
      exact hcount (hapart hreads c hc)
    rw [hnot, Bool.or_false]
    exact h.store hi (h.sole hi hc hcount) hc hcs

end Denotes

/-- The two runs side by side. -/
def both (x : Strings × StringValues) (op : StringOperation) : Strings × StringValues :=
  (x.1.step op, x.2.step op)

/-- Strings are made where there are none and used where they are, new representations are put where
there is none, and characters are those of C strings or of a string. -/
def Admits (x : Strings × StringValues) : StringOperation → Prop
  | .create i r | .own i r _ => i ∉ x.1.live ∧ x.1.reps r = none
  | .construct i r cs _ => i ∉ x.1.live ∧ x.1.reps r = none ∧ 0 ∉ cs
  | .concat i p₁ p₂ r =>
      i ∉ x.1.live ∧ x.1.reps r = none ∧ Readable x.1 x.2 p₁ ∧ Readable x.1 x.2 p₂
  | .copy i j => i ∉ x.1.live ∧ j ∈ x.1.live
  | .destroy i => i ∈ x.1.live
  | .assign i j => i ∈ x.1.live ∧ j ∈ x.1.live
  | .assignChars i source r => i ∈ x.1.live ∧ x.1.reps r = none ∧ Readable x.1 x.2 source
  | .substr i j _ _ r => i ∉ x.1.live ∧ j ∈ x.1.live ∧ x.1.reps r = none
  | .append i j r _ => i ∈ x.1.live ∧ j ∈ x.1.live ∧ x.1.reps r = none
  | .set i k _ r => i ∈ x.1.live ∧ x.1.reps r = none ∧ ∀ bs, x.2 i = some bs → k < bs.length

/-- No null character gets into a string, no more references are taken than an `int` can count, and
no string is assigned characters that are its own only. -/
def Sound (x : Strings × StringValues) : StringOperation → Prop
  | .own _ _ bs => 0 ∉ bs
  | .set _ _ c _ => c ≠ 0
  | .copy _ j | .assign _ j => Room x.1 j
  | .substr _ j first len _ =>
      ∀ bs, x.2 j = some bs → (first = 0 ∧ ∀ n ∈ len, bs.length ≤ n) → Room x.1 j
  | .assignChars i source _ => Apart x.1 i source
  | _ => True

theorem Denotes.step {x : Strings × StringValues} (h : Denotes x.1 x.2) {op : StringOperation}
    (hop : Admits x op) (hsound : Sound x op) : Denotes (both x op).1 (both x op).2 := by
  cases op with
  | create i r => exact h.own hop.1 hop.2 (by simp)
  | construct i r cs len =>
    apply h.own hop.1 hop.2.1
    cases len with
    | none => exact hop.2.2
    | some n => exact fun hmem => hop.2.2 (List.mem_of_mem_take hmem)
  | own i r bs => exact h.own hop.1 hop.2 hsound
  | concat i p₁ p₂ r => exact h.concat hop.1 hop.2.1 hop.2.2.1 hop.2.2.2
  | copy i j => exact h.copy hop.1 hop.2 hsound
  | destroy i => exact h.destroy hop
  | assign i j => exact h.assign hop.1 hop.2 hsound
  | assignChars i source r => exact h.assignChars hop.1 hop.2.1 hop.2.2 hsound
  | substr i j first len r => exact h.substr hop.1 hop.2.1 hop.2.2 hsound
  | append i j r fill => exact h.append hop.1 hop.2.1 hop.2.2 fill
  | set i k c r => exact h.set hop.1 hop.2.1 hop.2.2 hsound

/-- Every string has the characters of its value, and comparisons and hash values are those of the
values. -/
structure ValueSemantics (s : Strings) (v : StringValues) : Prop where
  fault : s.fault = false
  value : ∀ i, s.value i = v i
  equal : ∀ i ∈ s.live, ∀ j ∈ s.live, s.equal i j = some (decide (v i = v j))
  equalChars : ∀ i ∈ s.live, ∀ cs, 0 ∉ cs → s.equalChars i cs = some (decide (v i = some cs))
  hash : ∀ i ∈ s.live, ∀ j ∈ s.live, v i = v j → ∃ n, s.hash i = some n ∧ s.hash j = some n

theorem Denotes.seen (h : Denotes s v) (hi : i ∈ s.live) :
    ∃ bs, s.seen i = some bs ∧ v i = some bs := by
  obtain ⟨bs, hbs, hcontent, hv⟩ := h.content i hi
  refine ⟨bs, ?_, hv⟩
  unfold Strings.seen
  rw [hcontent, Option.bind_some]
  exact cStr_terminated hbs

theorem Denotes.valueSemantics (h : Denotes s v) : ValueSemantics s v := by
  constructor
  · exact h.fault
  · intro i
    unfold value
    split_ifs with hi
    · obtain ⟨bs, -, hcontent, hv⟩ := h.content i hi
      rw [hcontent, hv, Option.map_some, List.take_left]
    · rw [h.gone i hi]
  · intro i hi j hj
    obtain ⟨bx, hx, hvx⟩ := h.seen hi
    obtain ⟨bz, hz, hvz⟩ := h.seen hj
    unfold equal
    rw [hx, hz, hvx, hvz]
    simp [Bool.beq_eq_decide_eq]
  · intro i hi cs _
    obtain ⟨bs, hs, hv⟩ := h.seen hi
    unfold equalChars
    rw [hs, hv]
    simp [Bool.beq_eq_decide_eq]
  · intro i hi j hj hequal
    obtain ⟨bx, hx, hvx⟩ := h.seen hi
    obtain ⟨bz, hz, hvz⟩ := h.seen hj
    obtain rfl : bx = bz := Option.some_inj.mp (hvx.symm.trans (hequal.trans hvz))
    refine ⟨hashString bx, ?_, ?_⟩
    · unfold hash
      rw [hx, Option.map_some]
    · unfold hash
      rw [hz, Option.map_some]

namespace ValueSemantics

theorem not_of_fault (hfault : s.fault = true) : ¬ ValueSemantics s v := by
  intro h
  rw [h.fault] at hfault
  cases hfault

/-- A null character within a string ends it for comparisons. -/
theorem not_of_null (hi : i ∈ s.live) {bs : KsString} {len : ℕ}
    (hcontent : contentAt s.reps (s.p i) = some ⟨bs ++ [0], len⟩) (hv : v i = some bs)
    (hnull : 0 ∈ bs) : ¬ ValueSemantics s v := by
  intro h
  have hequal := h.equalChars i hi (cString bs) (not_mem_cString bs)
  have hseen : s.seen i = some (cString bs) := by
    unfold Strings.seen
    rw [hcontent, Option.bind_some]
    unfold cStr
    rw [if_pos (by simp), cString_append_of_mem hnull]
  unfold Strings.equalChars at hequal
  rw [hseen, hv, Option.map_some, beq_self_eq_true, Option.some_inj, eq_comm, decide_eq_true_eq,
    Option.some_inj] at hequal
  exact not_mem_cString bs (hequal ▸ hnull)

end ValueSemantics

theorem retain_overflow (hroom : ¬ Room s j) : (s.retain (s.p j)).fault = true := by
  unfold Room at hroom
  simp only [not_forall] at hroom
  obtain ⟨c, hc, hcount⟩ := hroom
  unfold retain
  simp [hc, hcount]

theorem Denotes.step_unsound {x : Strings × StringValues} (h : Denotes x.1 x.2)
    {op : StringOperation} (hop : Admits x op) (hsound : ¬ Sound x op) :
    ¬ ValueSemantics (both x op).1 (both x op).2 := by
  cases op with
  | create i r => exact absurd trivial hsound
  | construct i r cs len => exact absurd trivial hsound
  | concat i p₁ p₂ r => exact absurd trivial hsound
  | destroy i => exact absurd trivial hsound
  | append i j r fill => exact absurd trivial hsound
  | own i r bs =>
    have hp : (both x (.own i r bs)).1.p i = r := update_self ..
    have hcontent : contentAt (both x (.own i r bs)).1.reps ((both x (.own i r bs)).1.p i) =
        some ⟨bs ++ [0], bs.length⟩ := by
      rw [hp]
      exact (contentAt_alloc ..).trans (if_pos rfl)
    exact ValueSemantics.not_of_null (Finset.mem_insert_self ..) hcontent (update_self ..)
      (not_not.mp hsound)
  | copy i j =>
    apply ValueSemantics.not_of_fault
    exact retain_overflow hsound
  | assign i j =>
    apply ValueSemantics.not_of_fault
    exact Bool.or_eq_true_iff.mpr (Or.inl (retain_overflow hsound))
  | substr i j first len r =>
    unfold Sound at hsound
    simp only [not_forall] at hsound
    obtain ⟨bs, hv, hwhole, hroom⟩ := hsound
    obtain ⟨bs', -, hcontent, hv'⟩ := h.content j hop.2.1
    obtain rfl : bs = bs' := Option.some_inj.mp (hv.symm.trans hv')
    apply ValueSemantics.not_of_fault
    unfold both Strings.step Strings.substr
    dsimp only
    rw [hcontent]
    dsimp only
    rw [if_pos hwhole]
    exact retain_overflow hroom
  | assignChars i source r =>
    unfold Sound Apart at hsound
    simp only [not_forall] at hsound
    obtain ⟨hreads, c, hc, hcount⟩ := hsound
    obtain ⟨cs, -, hread, -⟩ := h.charsOf hop.2.2
    apply ValueSemantics.not_of_fault
    unfold both Strings.step Strings.assignChars
    dsimp only
    rw [hread, hc]
    dsimp only
    rw [if_neg hcount, hreads]
    exact Bool.or_true _
  | set i k c r =>
    obtain rfl : c = 0 := not_not.mp hsound
    obtain ⟨bs, -, -, hv⟩ := h.content i hop.1
    have hk := hop.2.2 bs hv
    obtain ⟨t, y, -, hlive, -, -, heq⟩ := h.set_eq hop.1 hop.2.1 hv hk 0
    have hset : (both x (.set i k 0 r)).1 =
      t.store (t.p i) y ⟨bs.set k 0 ++ [0], (bs.set k 0).length⟩ := heq
    have hval : (both x (.set i k 0 r)).2 i = some (bs.set k 0) := by
      unfold both StringValues.step
      dsimp only
      rw [update_self, hv, Option.map_some]
    have hmem : i ∈ (both x (.set i k 0 r)).1.live := by
      rw [hset]
      exact hlive ▸ hop.1
    have hcontent : contentAt (both x (.set i k 0 r)).1.reps ((both x (.set i k 0 r)).1.p i) =
        some ⟨bs.set k 0 ++ [0], (bs.set k 0).length⟩ := by
      rw [hset]
      unfold contentAt Strings.store
      dsimp only
      rw [update_self]
      rfl
    exact ValueSemantics.not_of_null hmem hcontent hval (List.mem_set hk 0)

theorem empty_denotes : Denotes empty fun _ => none := by
  constructor
  · rfl
  · intro r
    rfl
  · intro i hi
    cases hi
  · intro i _
    rfl

/-- Along a run of strings from the beginning, they are the values that the operations on values
yield as long as no null character gets into a string, references can be counted, and no string is
assigned characters that it is about to delete. -/
theorem valueSemantics_iff {ops : List StringOperation}
    (hops : GuardedRun.Along both Admits (empty, fun _ => none) ops) :
    (∀ before, before <+: ops →
      ValueSemantics (GuardedRun.run both (empty, fun _ => none) before).1
        (GuardedRun.run both (empty, fun _ => none) before).2) ↔
      GuardedRun.Along both Sound (empty, fun _ => none) ops :=
  GuardedRun.along_iff_of_admits (I := fun x => Denotes x.1 x.2)
    (P := fun x => ValueSemantics x.1 x.2) (fun _ h => h.valueSemantics)
    (fun _ _ h hop hsound => h.step hop hsound)
    (fun _ _ h hop hsound => h.step_unsound hop hsound) empty_denotes hops

/-- A string decoded with a null character in it compares equal to what is in front of it. -/
theorem not_valueSemantics_null :
    let ops := .create 0 0 :: (StringOperation.xdrDecode 0 1 2 1 2 [97, 0, 98] ++
      [.construct 3 3 [97] none])
    let x := GuardedRun.run both (empty, fun _ => none) ops
    GuardedRun.Along both Admits (empty, fun _ => none) ops ∧
      ¬ ((∀ i, x.1.value i = x.2 i) ∧ ∀ i ∈ x.1.live, ∀ j ∈ x.1.live,
        x.1.equal i j = some (decide (x.1.value i = x.1.value j))) := by
  refine ⟨⟨⟨by decide, rfl⟩, ⟨by decide, rfl⟩, ⟨by decide, rfl⟩, ⟨by decide, by decide⟩, ?_,
    ⟨by decide, by decide⟩, ?_, ⟨by decide, rfl, by simp⟩, trivial⟩, ?_⟩
  · change 2 ∈ (_ : Finset ℕ)
    decide
  · change 1 ∈ (_ : Finset ℕ)
    decide
  · rintro ⟨-, hequal⟩
    exact absurd (hequal 0 (by decide) 3 (by decide)) (by decide)

/-- Strings share their characters, are written to and are appended to themselves. -/
theorem valueSemantics_shared :
    (∀ before, before <+: [.construct 0 0 [97, 98] none, .copy 1 0, .set 1 0 99 1,
        .append 0 0 2 (fun _ => 0), .substr 2 0 1 (some 2) 3, .assignChars 0 (.within 1 1) 4] →
      ValueSemantics (GuardedRun.run both (empty, fun _ => none) before).1
        (GuardedRun.run both (empty, fun _ => none) before).2) ↔
    GuardedRun.Along both Sound (empty, fun _ => none) [.construct 0 0 [97, 98] none, .copy 1 0,
      .set 1 0 99 1, .append 0 0 2 (fun _ => 0), .substr 2 0 1 (some 2) 3,
      .assignChars 0 (.within 1 1) 4] := by
  apply valueSemantics_iff
  refine ⟨⟨by decide, rfl, by simp⟩, ⟨by decide, by decide⟩, ⟨by decide, rfl, ?_⟩,
    ⟨by decide, by decide, rfl⟩, ⟨by decide, by decide, rfl⟩,
    ⟨by decide, rfl, ⟨by decide, ?_⟩⟩, trivial⟩
  · rintro bs hbs
    obtain rfl := Option.some_inj.mp hbs
    decide
  · rintro bs hbs
    obtain rfl := Option.some_inj.mp hbs
    decide

end Strings

namespace StringValues

/-- Decoding a string has no effect on others. -/
theorem run_xdrDecode {v : StringValues} {i t u : ℕ} (hti : t ≠ i) (hui : u ≠ i) (htu : t ≠ u)
    (ht : v t = none) (hu : v u = none) (r r' : ℕ) (bs : KsString) :
    GuardedRun.run step v (StringOperation.xdrDecode i t u r r' bs) = update v i (some bs) := by
  funext j
  unfold StringOperation.xdrDecode
  simp only [GuardedRun.run_cons, GuardedRun.run_nil, step]
  by_cases hjt : j = t
  · subst hjt
    rw [update_self, update_of_ne hti, ht]
  rw [update_of_ne hjt]
  by_cases hji : j = i
  · subst hji
    rw [update_self, update_self, update_of_ne htu, update_self, update_self]
  rw [update_of_ne hji, update_of_ne hji]
  by_cases hju : j = u
  · subst hju
    rw [update_self, hu]
  rw [update_of_ne hju, update_of_ne hjt, update_of_ne hju, update_of_ne hjt]

end StringValues

end AcpltKs
