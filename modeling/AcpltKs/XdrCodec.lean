import AcpltKs.XdrMem

/-! Objects that write themselves to an XDR stream and read themselves in again, in place or into a
new object: the rules for the parts they are put together from. -/
namespace AcpltKs
open ByteMemory

variable {α β γ : Type*}

namespace XdrReader

/-- Go on with what the decoder has come to. -/
def bind : XdrReader α → (α → XdrReader β) → XdrReader β
  | .done a, f => f a
  | .long next, f => .long fun w => (next w).bind f
  | .octets len next, f => .octets len fun bs => (next bs).bind f

/-- The decoder is handed exactly these bytes, and comes to this. -/
def Takes : XdrReader α → List UInt8 → α → Prop
  | .done a, bs, b => bs = [] ∧ a = b
  | .long next, bs, b => ∃ w cs, bs = BigEndian.encode w ++ cs ∧ (next (some w)).Takes cs b
  | .octets len next, bs, b =>
      ∃ ds cs, bs = ds ++ cs ∧ ds.length = len ∧ (next (some ds)).Takes cs b

theorem Takes.bind {r : XdrReader α} {f : α → XdrReader β} {bs cs : List UInt8} {a : α} {b : β}
    (hr : r.Takes bs a) (hf : (f a).Takes cs b) : (r.bind f).Takes (bs ++ cs) b := by
  induction r generalizing bs with
  | done a' =>
    obtain ⟨rfl, rfl⟩ := hr
    exact hf
  | long next ih =>
    obtain ⟨w, ds, rfl, hr⟩ := hr
    exact ⟨w, ds ++ cs, List.append_assoc _ _ _, ih _ hr⟩
  | octets len next ih =>
    obtain ⟨ds, es, rfl, hlen, hr⟩ := hr
    exact ⟨ds, es ++ cs, List.append_assoc _ _ _, hlen, ih _ hr⟩

theorem Takes.bind_done {r : XdrReader α} {f : α → XdrReader β} {bs : List UInt8} {a : α} {b : β}
    (hr : r.Takes bs a) (hf : f a = .done b) : (r.bind f).Takes bs b := by
  have h : (f a).Takes [] b := by
    rw [hf]
    exact ⟨rfl, rfl⟩
  simpa using hr.bind h

/-- What a memory stream holds is what the decoder is handed. -/
theorem Takes.run_mem {r : XdrReader α} {bs : List UInt8} {a : α} (h : r.Takes bs a) {x : XdrMem}
    (hroom : bs.length ≤ x.handy) (hread : read x.buffer x.pos bs.length = bs) :
    r.run x = (a, x.skip bs.length) := by
  induction r generalizing bs x with
  | done a' =>
    obtain ⟨rfl, rfl⟩ := h
    rfl
  | long next ih =>
    obtain ⟨w, cs, rfl, h⟩ := h
    rw [List.length_append, BigEndian.encode_length] at hroom hread
    rw [read_add] at hread
    obtain ⟨hw, hcs⟩ := List.append_inj hread (by simp)
    have hlong : XdrSource.getLong x = (some w, x.skip 4) := by
      have hshort : ¬ x.handy < 4 := by omega
      simp only [XdrSource.getLong, XdrMem.getLong, hshort, if_false, hw, BigEndian.decode_encode,
        XdrMem.skip]
    have hnext := ih (some w) h (x := x.skip 4) (by simp only [XdrMem.skip]; omega) hcs
    rw [run, hlong, hnext, List.length_append, BigEndian.encode_length]
    simp only [XdrMem.skip, Prod.mk.injEq, true_and, XdrMem.mk.injEq]
    omega
  | octets len next ih =>
    obtain ⟨ds, cs, rfl, rfl, h⟩ := h
    rw [List.length_append] at hroom hread
    rw [read_add] at hread
    obtain ⟨hds, hcs⟩ := List.append_inj hread (by simp)
    have hbytes : XdrSource.getBytes x ds.length = (some ds, x.skip ds.length) := by
      have hshort : ¬ x.handy < ds.length := by omega
      simp only [XdrSource.getBytes, XdrMem.getBytes, hshort, if_false, hds, XdrMem.skip]
    have hnext := ih (some ds) h (x := x.skip ds.length) (by simp only [XdrMem.skip]; omega) hcs
    rw [run, hbytes, hnext, List.length_append]
    simp only [XdrMem.skip, Prod.mk.injEq, true_and, XdrMem.mk.injEq]
    omega

/-- The decoder can come to this, if the stream hands out the right things. -/
def MayReturn : XdrReader α → α → Prop
  | .done a, b => a = b
  | .long next, b => ∃ w, (next w).MayReturn b
  | .octets _ next, b => ∃ bs, (next bs).MayReturn b

theorem mayReturn_run {σ : Type*} [XdrSource σ] (r : XdrReader α) (s : σ) :
    r.MayReturn (r.run s).1 := by
  induction r generalizing s with
  | done a => rfl
  | long next ih => exact ⟨_, ih _ _⟩
  | octets len next ih => exact ⟨_, ih _ _⟩

theorem MayReturn.of_bind {r : XdrReader α} {f : α → XdrReader β} {b : β}
    (h : (r.bind f).MayReturn b) : ∃ a, r.MayReturn a ∧ (f a).MayReturn b := by
  induction r with
  | done a => exact ⟨a, rfl, h⟩
  | long next ih =>
    obtain ⟨w, h⟩ := h
    obtain ⟨a, ha, h⟩ := ih w h
    exact ⟨a, ⟨w, ha⟩, h⟩
  | octets len next ih =>
    obtain ⟨bs, h⟩ := h
    obtain ⟨a, ha, h⟩ := ih bs h
    exact ⟨a, ⟨bs, ha⟩, h⟩

end XdrReader

namespace Payload

def nothing : Payload := ⟨[], true⟩

/-- The first part, and the second one if it is content with the first. -/
def andThen (p q : Payload) : Payload := if p.ok then ⟨p.items ++ q.items, q.ok⟩ else p

theorem andThen_of_ok {p q : Payload} (h : p.ok = true) :
    p.andThen q = ⟨p.items ++ q.items, q.ok⟩ :=
  if_pos h

theorem ok_andThen {p q : Payload} : (p.andThen q).ok = true ↔ p.ok = true ∧ q.ok = true := by
  rw [andThen]
  split_ifs with hok
  · simp [hok]
  · simp [hok]

theorem bytes_andThen {p q : Payload} (h : p.ok = true) :
    (p.andThen q).bytes = p.bytes ++ q.bytes := by
  rw [andThen_of_ok h]
  exact List.flatMap_append

end Payload

/-- Read an object in place: is it accepted, and what is it afterwards? -/
abbrev XdrDecoder (α : Type*) := α → XdrReader (Bool × α)

namespace XdrDecoder

def nothing : XdrDecoder α := fun a => .done (true, a)

/-- The first part, and the second one if the first is accepted. -/
def andThen (d e : XdrDecoder α) : XdrDecoder α := fun a =>
  (d a).bind fun
    | (true, a) => e a
    | (false, a) => .done (false, a)

/-- Read a part of an object. -/
def field (get : α → β) (set : β → α → α) (d : XdrDecoder β) : XdrDecoder α := fun a =>
  (d (get a)).bind fun p => .done (p.1, set p.2 a)

/-- Read one object and then another one. -/
def pair (d : XdrDecoder α) (e : XdrDecoder β) : XdrDecoder (α × β) :=
  (field Prod.fst (fun a p => (a, p.2)) d).andThen (field Prod.snd (fun b p => (p.1, b)) e)

/-- Read the content of an object, which `wrap` makes an object of. -/
def content (wrap : β → α) (d : XdrDecoder β) (b : β) : XdrReader (Bool × α) :=
  (d b).bind fun p => .done (p.1, wrap p.2)

end XdrDecoder

/-- Everything is sent, and from its bytes an object is read that is as it should be. -/
def Restores (p : Payload) (r : XdrReader (Bool × α)) (good : α → Prop) : Prop :=
  p.ok = true ∧ ∃ a, r.Takes p.bytes (true, a) ∧ good a

namespace Restores

variable {p q : Payload} {good : α → Prop}

theorem mono {r : XdrReader (Bool × α)} {good' : α → Prop} (h : Restores p r good)
    (himp : ∀ a, good a → good' a) : Restores p r good' := by
  obtain ⟨hok, a, htakes, ha⟩ := h
  exact ⟨hok, a, htakes, himp a ha⟩

theorem nothing {a : α} (h : good a) : Restores .nothing (XdrDecoder.nothing a) good :=
  ⟨rfl, a, ⟨rfl, rfl⟩, h⟩

theorem andThen {d e : XdrDecoder α} {a : α} {good' : α → Prop} (hd : Restores p (d a) good')
    (he : ∀ b, good' b → Restores q (e b) good) : Restores (p.andThen q) (d.andThen e a) good := by
  obtain ⟨hok, b, htakes, hb⟩ := hd
  obtain ⟨hok', c, htakes', hc⟩ := he b hb
  refine ⟨by rw [Payload.andThen_of_ok hok]; exact hok', c, ?_, hc⟩
  rw [Payload.bytes_andThen hok]
  exact htakes.bind htakes'

theorem field {get : α → β} {set : β → α → α} {d : XdrDecoder β} {a : α} {good : β → Prop}
    (h : Restores p (d (get a)) good) :
    Restores p (XdrDecoder.field get set d a) fun a' => ∃ b, good b ∧ a' = set b a := by
  obtain ⟨hok, b, htakes, hb⟩ := h
  exact ⟨hok, _, htakes.bind_done rfl, b, hb, rfl⟩

theorem pair {d : XdrDecoder α} {e : XdrDecoder β} {a : α} {b : β} {c : α × β}
    (hd : Restores p (d a) fun a' => a' = c.1) (he : Restores q (e b) fun b' => b' = c.2) :
    Restores (p.andThen q) (XdrDecoder.pair d e (a, b)) fun c' => c' = c := by
  refine hd.field.andThen fun _ => ?_
  rintro ⟨_, rfl, rfl⟩
  refine he.field.mono ?_
  rintro _ ⟨_, rfl, rfl⟩
  rfl

theorem content {d : XdrDecoder β} {a b : β} (h : Restores p (d a) fun c => c = b)
    (wrap : β → α) : Restores p (XdrDecoder.content wrap d a) fun c => c = wrap b := by
  obtain ⟨hok, _, htakes, rfl⟩ := h
  exact ⟨hok, _, htakes.bind_done rfl, rfl⟩

end Restores

section Primitives

/-- `xdr_u_long`, `xdr_enum` and, with the bits of a number, `xdr_float`. -/
def xdreULong (w : UInt32) : Payload := ⟨[.long w], true⟩

def xdrdULong : XdrDecoder UInt32 := fun old =>
  .long fun
    | none => .done (false, old)
    | some w => .done (true, w)

def xdreLong (v : Int32) : Payload := xdreULong v.toUInt32

def xdrdLong : XdrDecoder Int32 := fun old =>
  .long fun
    | none => .done (false, old)
    | some w => .done (true, w.toInt32)

def xdreBool (b : Bool) : Payload := xdreULong (if b then 1 else 0)

def xdrdBool : XdrDecoder Bool := fun old =>
  .long fun
    | none => .done (false, old)
    | some w => .done (true, w ≠ 0)

/-- The words of a double, the upper one first. -/
def upperWord (bits : UInt64) : UInt32 := UInt32.ofNat (bits.toNat / 2 ^ 32)
def lowerWord (bits : UInt64) : UInt32 := UInt32.ofNat bits.toNat

def xdreDouble (bits : UInt64) : Payload :=
  (xdreULong (upperWord bits)).andThen (xdreULong (lowerWord bits))

def xdrdDouble : XdrDecoder UInt64 := fun old =>
  .long fun
    | none => .done (false, old)
    | some upper => .long fun
        | none => .done (false, old)
        | some lower => .done (true, UInt64.ofNat (upper.toNat * 2 ^ 32 + lower.toNat))

/-- `xdr_opaque`. -/
def xdreOpaque (bs : List UInt8) : Payload := ⟨[.octets bs], true⟩

def xdrdOpaque (len : ℕ) (next : Option (List UInt8) → XdrReader α) : XdrReader α :=
  if len = 0 then next (some [])
  else .octets len fun
    | none => next none
    | some bs =>
        if (padding len).length = 0 then next (some bs)
        else .octets (padding len).length fun
          | none => next none
          | some _ => next (some bs)

theorem xdreULong_bytes (w : UInt32) : (xdreULong w).bytes = BigEndian.encode w :=
  List.append_nil _

theorem restores_uLong (w old : UInt32) :
    Restores (xdreULong w) (xdrdULong old) fun w' => w' = w :=
  ⟨rfl, w, ⟨w, [], rfl, rfl, rfl⟩, rfl⟩

theorem restores_long (v old : Int32) : Restores (xdreLong v) (xdrdLong old) fun v' => v' = v :=
  ⟨rfl, v, ⟨v.toUInt32, [], rfl, rfl, by simp⟩, rfl⟩

theorem restores_bool (b old : Bool) : Restores (xdreBool b) (xdrdBool old) fun b' => b' = b :=
  ⟨rfl, b, ⟨if b then 1 else 0, [], rfl, rfl, by cases b <;> rfl⟩, rfl⟩

theorem words_of_double (bits : UInt64) :
    UInt64.ofNat ((upperWord bits).toNat * 2 ^ 32 + (lowerWord bits).toNat) = bits := by
  have hlt := bits.toNat_lt
  apply UInt64.toNat_inj.mp
  simp only [upperWord, lowerWord, UInt32.toNat_ofNat', UInt64.toNat_ofNat']
  omega

theorem restores_double (bits old : UInt64) :
    Restores (xdreDouble bits) (xdrdDouble old) fun bits' => bits' = bits :=
  ⟨rfl, bits, ⟨upperWord bits, _, rfl, lowerWord bits, [], rfl, rfl, by rw [words_of_double]⟩, rfl⟩

/-- Opaque data is read with the zeroes that fill it up. -/
theorem takes_opaque {next : Option (List UInt8) → XdrReader α} {bs cs : List UInt8} {a : α}
    (h : (next (some bs)).Takes cs a) :
    (xdrdOpaque bs.length next).Takes ((xdreOpaque bs).bytes ++ cs) a := by
  have hbytes : (xdreOpaque bs).bytes = bs ++ padding bs.length := List.append_nil _
  rw [hbytes, xdrdOpaque]
  by_cases hempty : bs.length = 0
  · obtain rfl := List.length_eq_zero_iff.mp hempty
    simpa [padding] using h
  · rw [if_neg hempty, List.append_assoc]
    refine ⟨bs, padding bs.length ++ cs, rfl, rfl, ?_⟩
    by_cases hpad : (padding bs.length).length = 0
    · simp only [hpad, if_true]
      rwa [List.length_eq_zero_iff.mp hpad, List.nil_append]
    · simp only [hpad, if_false]
      exact ⟨padding bs.length, cs, rfl, rfl, h⟩

end Primitives

section Composites

/-- A new object, read in. -/
def xdrNew (blank : α) (dec : XdrDecoder α) : XdrReader (Option α) :=
  (dec blank).bind fun p => .done (if p.1 then some p.2 else none)

theorem Restores.xdrNew {p : Payload} {blank : α} {dec : XdrDecoder α} {good : α → Prop}
    (h : Restores p (dec blank) good) :
    ∃ a, (xdrNew blank dec).Takes p.bytes (some a) ∧ good a := by
  obtain ⟨-, a, htakes, ha⟩ := h
  exact ⟨a, htakes.bind_done rfl, ha⟩

/-- A handle sends what it is bound to, and is bound to what is read in. -/
def handleEncode (enc : α → Payload) : Option α → Payload
  | none => ⟨[], false⟩
  | some a => enc a

def handleDecode (new : XdrReader (Option α)) : XdrDecoder (Option α) := fun old =>
  new.bind fun
    | none => .done (false, old)
    | some a => .done (true, some a)

theorem restores_handle {enc : α → Payload} {new : XdrReader (Option α)} {good : α → Prop} {a : α}
    (hok : (enc a).ok = true) (h : ∃ b, new.Takes (enc a).bytes (some b) ∧ good b)
    (old : Option α) :
    Restores (handleEncode enc (some a)) (handleDecode new old) fun b =>
      ∃ c, b = some c ∧ good c := by
  obtain ⟨b, htakes, hb⟩ := h
  exact ⟨hok, some b, htakes.bind_done rfl, b, rfl, hb⟩

/-- The elements of an array, read in place one after the other. -/
def elementsEncode (enc : α → Payload) : List α → Payload
  | [] => .nothing
  | a :: l => (enc a).andThen (elementsEncode enc l)

def elementsDecode (dec : XdrDecoder α) : XdrDecoder (List α)
  | [] => .done (true, [])
  | a :: l => (dec a).bind fun
      | (true, a) => (elementsDecode dec l).bind fun p => .done (p.1, a :: p.2)
      | (false, a) => .done (false, a :: l)

def arrayEncode (enc : α → Payload) (l : List α) : Payload :=
  (xdreULong (UInt32.ofNat l.length)).andThen (elementsEncode enc l)

theorem ok_arrayEncode {enc : α → Payload} {l : List α} (h : (arrayEncode enc l).ok = true) :
    ∀ a ∈ l, (enc a).ok = true := by
  have hall : ∀ l : List α, (elementsEncode enc l).ok = true → ∀ a ∈ l, (enc a).ok = true := by
    intro l hl
    induction l with
    | nil => exact nofun
    | cons a l ih =>
      obtain ⟨ha, hl⟩ := Payload.ok_andThen.mp hl
      exact List.forall_mem_cons.mpr ⟨ha, ih hl⟩
  exact hall l (Payload.ok_andThen.mp h).2

/-- An array that has another size is replaced by a new one. -/
def arrayDecode (blank : α) (dec : XdrDecoder α) : XdrDecoder (List α) := fun old =>
  .long fun
    | none => .done (false, old)
    | some sz =>
        elementsDecode dec (if old.length ≠ sz.toNat then List.replicate sz.toNat blank else old)

theorem restores_elements {enc : α → Payload} {dec : XdrDecoder α} {good : α → α → Prop}
    {l old : List α} (h : ∀ a ∈ l, ∀ b, Restores (enc a) (dec b) (good a))
    (hlen : l.length = old.length) :
    Restores (elementsEncode enc l) (elementsDecode dec old) (List.Forall₂ good l) := by
  induction l generalizing old with
  | nil =>
    obtain rfl := List.length_eq_zero_iff.mp hlen.symm
    exact ⟨rfl, [], ⟨rfl, rfl⟩, .nil⟩
  | cons a l ih =>
    obtain ⟨b, old, rfl⟩ := List.exists_cons_of_length_eq_add_one hlen.symm
    obtain ⟨hok, a', htakes, ha⟩ := h a List.mem_cons_self b
    obtain ⟨hok', l', htakes', hl⟩ := ih (fun c hc => h c (List.mem_cons_of_mem _ hc))
      (Nat.succ.inj hlen)
    refine ⟨by rw [elementsEncode, Payload.andThen_of_ok hok]; exact hok', a' :: l', ?_,
      .cons ha hl⟩
    rw [elementsEncode, Payload.bytes_andThen hok]
    exact htakes.bind (htakes'.bind_done rfl)

theorem toNat_length {l : List α} (h : l.length < 2 ^ 32) :
    (UInt32.ofNat l.length).toNat = l.length := by
  rw [UInt32.toNat_ofNat', Nat.mod_eq_of_lt h]

theorem restores_array {enc : α → Payload} {dec : XdrDecoder α} {good : α → α → Prop} {l : List α}
    (hlen : l.length < 2 ^ 32) (h : ∀ a ∈ l, ∀ b, Restores (enc a) (dec b) (good a)) (blank : α)
    (old : List α) :
    Restores (arrayEncode enc l) (arrayDecode blank dec old) (List.Forall₂ good l) := by
  have helements : l.length = (if old.length ≠ l.length then List.replicate l.length blank
      else old).length := by
    split_ifs with hsame
    · rw [List.length_replicate]
    · exact (not_not.mp hsame).symm
  obtain ⟨hok, l', htakes, hl⟩ := restores_elements h helements
  rw [← toNat_length hlen] at htakes
  refine ⟨hok, l', ?_, hl⟩
  rw [arrayEncode, Payload.bytes_andThen rfl, xdreULong_bytes]
  exact ⟨_, _, rfl, htakes⟩

/-- The elements of a list; those of the list that is read into are flushed. -/
def listDecodeElements (new : XdrReader (Option α)) : ℕ → List α → XdrReader (Bool × List α)
  | 0, l => .done (true, l)
  | n + 1, l => new.bind fun
      | none => .done (false, l)
      | some a => listDecodeElements new n (l ++ [a])

def listDecode (new : XdrReader (Option α)) : XdrDecoder (List α) := fun old =>
  .long fun
    | none => .done (false, old)
    | some count => listDecodeElements new count.toNat []

theorem restores_listElements {enc : α → Payload} {new : XdrReader (Option α)}
    {good : α → α → Prop} {l : List α}
    (h : ∀ a ∈ l, (enc a).ok = true ∧ ∃ b, new.Takes (enc a).bytes (some b) ∧ good a b)
    (before : List α) :
    Restores (elementsEncode enc l) (listDecodeElements new l.length before) fun l' =>
      ∃ added, l' = before ++ added ∧ List.Forall₂ good l added := by
  induction l generalizing before with
  | nil => exact ⟨rfl, before, ⟨rfl, rfl⟩, [], (List.append_nil _).symm, .nil⟩
  | cons a l ih =>
    obtain ⟨hok, b, htakes, hb⟩ := h a List.mem_cons_self
    obtain ⟨hok', l', htakes', added, rfl, hl⟩ :=
      ih (fun c hc => h c (List.mem_cons_of_mem _ hc)) (before ++ [b])
    have hok'' : (elementsEncode enc (a :: l)).ok = true := by
      rw [elementsEncode, Payload.andThen_of_ok hok]
      exact hok'
    refine ⟨hok'', before ++ [b] ++ added, ?_, b :: added, List.append_assoc _ _ _, .cons hb hl⟩
    rw [elementsEncode, Payload.bytes_andThen hok]
    exact htakes.bind htakes'

theorem restores_list {enc : α → Payload} {new : XdrReader (Option α)} {good : α → α → Prop}
    {l : List α} (hlen : l.length < 2 ^ 32)
    (h : ∀ a ∈ l, (enc a).ok = true ∧ ∃ b, new.Takes (enc a).bytes (some b) ∧ good a b)
    (old : List α) :
    Restores (arrayEncode enc l) (listDecode new old) (List.Forall₂ good l) := by
  obtain ⟨hok, l', htakes, added, rfl, hl⟩ := restores_listElements h []
  rw [← toNat_length hlen] at htakes
  refine ⟨hok, _, ?_, hl⟩
  rw [arrayEncode, Payload.bytes_andThen rfl, xdreULong_bytes]
  exact ⟨_, _, rfl, htakes⟩

end Composites

section Accepted

/-- Can the decoder accept this object? -/
def XdrDecoder.Accepts (d : XdrDecoder α) (old new : α) : Prop := (d old).MayReturn (true, new)

/-- The objects that a decoder has accepted, whatever they have been read into. -/
abbrev XdrDecoder.Accepted (d : XdrDecoder α) : Type _ := {a : α // ∃ old, d.Accepts old a}

namespace XdrDecoder
variable {d e : XdrDecoder α}

theorem Accepts.of_andThen {a c : α} (h : (d.andThen e).Accepts a c) :
    ∃ b, d.Accepts a b ∧ e.Accepts b c := by
  obtain ⟨⟨_ | _, b⟩, hb, hc⟩ := XdrReader.MayReturn.of_bind h
  · exact Bool.noConfusion (congrArg Prod.fst hc)
  · exact ⟨b, hb, hc⟩

theorem Accepts.of_field {get : α → β} {set : β → α → α} {d : XdrDecoder β} {a c : α}
    (h : (field get set d).Accepts a c) : ∃ b, d.Accepts (get a) b ∧ c = set b a := by
  obtain ⟨⟨ok, b⟩, hb, hc⟩ := XdrReader.MayReturn.of_bind h
  obtain ⟨rfl, rfl⟩ := Prod.mk.inj (show (ok, set b a) = (true, c) from hc)
  exact ⟨b, hb, rfl⟩

end XdrDecoder

theorem accepts_handle {new : XdrReader (Option α)} {old o : Option α}
    (h : XdrDecoder.Accepts (handleDecode new) old o) : o.isSome = true := by
  obtain ⟨_ | a, -, ha⟩ := XdrReader.MayReturn.of_bind h
  · exact Bool.noConfusion (congrArg Prod.fst ha)
  · obtain ⟨-, rfl⟩ := Prod.mk.inj (show (true, some a) = (true, o) from ha)
    rfl

theorem accepts_elements {dec : XdrDecoder α} {old l : List α}
    (h : XdrDecoder.Accepts (elementsDecode dec) old l) : ∀ b ∈ l, ∃ a, dec.Accepts a b := by
  induction old generalizing l with
  | nil =>
    obtain rfl := (Prod.ext_iff.mp h).2
    exact fun b hb => absurd hb List.not_mem_nil
  | cons a old ih =>
    obtain ⟨⟨_ | _, b⟩, hb, hrest⟩ := XdrReader.MayReturn.of_bind h
    · exact Bool.noConfusion (congrArg Prod.fst hrest)
    · obtain ⟨⟨ok, bs⟩, hbs, hl⟩ := XdrReader.MayReturn.of_bind hrest
      obtain ⟨rfl, rfl⟩ := Prod.mk.inj (show (ok, b :: bs) = (true, l) from hl)
      intro c hc
      rcases List.mem_cons.mp hc with rfl | hc
      · exact ⟨a, hb⟩
      · exact ih hbs c hc

theorem accepts_array {blank : α} {dec : XdrDecoder α} {old l : List α}
    (h : XdrDecoder.Accepts (arrayDecode blank dec) old l) : ∀ b ∈ l, ∃ a, dec.Accepts a b := by
  obtain ⟨_ | sz, h⟩ := h
  · exact Bool.noConfusion (congrArg Prod.fst h)
  · exact accepts_elements h

end Accepted

/-- A union of classes, each with a type code, a part of its own and the part all of them have. -/
structure XdrUnion (α : Type*) where
  typeCode : α → UInt32
  encodeVariant : α → Payload
  decodeVariant : XdrDecoder α
  encodeCommon : α → Payload := fun _ => .nothing
  decodeCommon : XdrDecoder α := .nothing
  /-- A new object of each class. -/
  blanks : List α

namespace XdrUnion
variable (u : XdrUnion α)

def encode (a : α) : Payload :=
  (xdreULong (u.typeCode a)).andThen ((u.encodeVariant a).andThen (u.encodeCommon a))

def decodeParts : XdrDecoder α := u.decodeVariant.andThen u.decodeCommon

/-- An object does not change its class. -/
def decode : XdrDecoder α := fun old =>
  .long fun
    | none => .done (false, old)
    | some w => if w = u.typeCode old then u.decodeParts old else .done (false, old)

def blank (w : UInt32) : Option α := u.blanks.find? (u.typeCode · = w)

/-- The factory: the type code tells which class the new object has. -/
def new : XdrReader (Option α) :=
  .long fun
    | none => .done none
    | some w =>
        match u.blank w with
        | none => .done none
        | some a => xdrNew a u.decodeParts

/-- What is sent of the object is read into any object of its class. -/
def RestoresParts (a : α) : Prop :=
  ∀ old, u.typeCode old = u.typeCode a →
    Restores ((u.encodeVariant a).andThen (u.encodeCommon a)) (u.decodeParts old) fun b => b = a

variable {u}

theorem RestoresParts.decode {a old : α} (h : u.RestoresParts a)
    (hclass : u.typeCode old = u.typeCode a) :
    Restores (u.encode a) (u.decode old) fun b => b = a := by
  obtain ⟨hok, b, htakes, hb⟩ := h old hclass
  refine ⟨hok, b, ?_, hb⟩
  rw [encode, Payload.bytes_andThen rfl, xdreULong_bytes]
  refine ⟨_, _, rfl, ?_⟩
  simpa only [hclass, if_true] using htakes

theorem RestoresParts.new {a : α} (h : u.RestoresParts a)
    (hblank : (u.blank (u.typeCode a)).isSome = true) :
    (u.encode a).ok = true ∧ ∃ b, u.new.Takes (u.encode a).bytes (some b) ∧ b = a := by
  obtain ⟨fresh, hfresh⟩ := Option.isSome_iff_exists.mp hblank
  have hclass : u.typeCode fresh = u.typeCode a := by
    simpa using List.find?_some hfresh
  obtain ⟨b, htakes, hb⟩ := (h fresh hclass).xdrNew
  refine ⟨(h.decode hclass).1, b, ?_, hb⟩
  rw [encode, Payload.bytes_andThen rfl, xdreULong_bytes]
  refine ⟨_, _, rfl, ?_⟩
  simpa only [hfresh] using htakes

end XdrUnion

end AcpltKs
