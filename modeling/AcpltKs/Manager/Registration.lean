import AcpltKs.Library.BackPointers
import AcpltKs.Manager.Basic

/-! The manager's records of the servers stay consistent: table, domains and expiry events always
belong together. -/
namespace AcpltKs
open Function BackPointers GuardedRun

/-- Different numbers have different digits. -/
theorem fromInt_injective : Injective fromInt := by
  have hback : ∀ i, (fromInt i).map (fun b => Char.ofNat b.toNat) = Nat.toDigits 10 i := by
    intro i
    rw [fromInt, List.map_map]
    refine (List.map_congr_left fun c hc => ?_).trans (List.map_id _)
    have hdigit := Nat.isDigit_of_mem_toDigits (by omega) le_rfl hc
    have hle : c.toNat ≤ 57 := by
      simp only [Char.isDigit, Bool.and_eq_true, decide_eq_true_eq] at hdigit
      exact hdigit.2
    have hlt : c.toNat < 2 ^ 8 := by omega
    simp only [comp_apply, UInt8.toNat_ofNat_of_lt' hlt, Char.ofNat_toNat, id]
  intro i j h
  have hdigits : Nat.toDigits 10 i = Nat.toDigits 10 j := by rw [← hback, ← hback, h]
  simpa using congrArg (Nat.ofDigitChars 10 · 0) hdigits

section Tables
variable {α β : Type*} [DecidableEq α] (t : AList fun _ : α => β) (a a' : α) (b : β)

theorem lookup_insert_eq : (t.insert a b).lookup a' = if a' = a then some b else t.lookup a' := by
  split
  · next h => rw [h, AList.lookup_insert]
  · next h => exact AList.lookup_insert_ne h

theorem lookup_erase_eq : (t.erase a).lookup a' = if a' = a then none else t.lookup a' := by
  split
  · next h => rw [h, AList.lookup_erase]
  · next h => exact AList.lookup_erase_ne h

theorem keys_ne_nil_of_lookup {t : AList fun _ : α => β} {a : α} {b : β}
    (h : t.lookup a = some b) : t.keys ≠ [] := by
  have hmem : a ∈ t.keys := AList.lookup_isSome.mp (by rw [h]; rfl)
  exact List.ne_nil_of_mem hmem

end Tables

/-- The object for a version of a server below `/servers`. -/
def objectAt (tree : AList fun _ : KsString => VersionDomain) (name id : KsString) :
    Option VersionObject :=
  (tree.lookup name).bind fun ps => ps.lookup id

section Tree
variable (tree : AList fun _ : KsString => VersionDomain) (name name' id : KsString)
  (ps : VersionDomain)

theorem objectAt_insert : objectAt (tree.insert name ps) name' id =
    if name' = name then ps.lookup id else objectAt tree name' id := by
  rw [objectAt, lookup_insert_eq]
  split <;> rfl

theorem objectAt_erase : objectAt (tree.erase name) name' id =
    if name' = name then none else objectAt tree name' id := by
  rw [objectAt, lookup_erase_eq]
  split <;> rfl

theorem lookup_getD : ((tree.lookup name).getD ∅).lookup id = objectAt tree name id := by
  cases h : tree.lookup name with
  | none => rw [objectAt, h]; exact AList.lookup_empty id
  | some ps => rw [objectAt, h]; rfl

theorem objectAt_of_lookup {tree : AList fun _ : KsString => VersionDomain} {name : KsString}
    {ps : VersionDomain} (h : tree.lookup name = some ps) (id : KsString) :
    objectAt tree name id = ps.lookup id := by
  rw [objectAt, h, Option.bind_some]

end Tree

namespace KsManager

/-- The table, the domains and the events belong together. -/
structure Consistent (m : KsManager) : Prop where
  object_of_entry : ∀ name version pserver, m.serverTable.lookup (name, version) = some pserver →
    objectAt m.serversDomain name (fromInt version.toNat) = some (.registration pserver)
  entry_of_object : ∀ name id pserver,
    objectAt m.serversDomain name id = some (.registration pserver) →
      ∃ version : UInt16, id = fromInt version.toNat ∧
        m.serverTable.lookup (name, version) = some pserver
  nonempty : ∀ name ps, m.serversDomain.lookup name = some ps → ps.keys ≠ []
  event_of_entry : ∀ key pserver, m.serverTable.lookup key = some pserver →
    ∃ s pevent e, m.servers pserver = some s ∧ s.desc.key = key ∧ s.pevent = some pevent ∧
      m.events pevent = some e ∧ e.pserver = some pserver ∧ m.timerQueue.count pevent = 1
  entry_of_event : ∀ pevent e pserver, m.events pevent = some e → e.pserver = some pserver →
    ∃ key s, m.serverTable.lookup key = some pserver ∧ m.servers pserver = some s ∧
      s.pevent = some pevent
  event_of_queue : ∀ pevent ∈ m.timerQueue, (m.events pevent).isSome

/-- The event of a server object. -/
def owner (m : KsManager) (pserver : ℕ) : Option ℕ := (m.servers pserver).bind KsmServer.pevent

/-- The server of an event. -/
def ticket (m : KsManager) (pevent : ℕ) : Option (Option ℕ) :=
  (m.events pevent).map KsmExpireServerEvent.pserver

/-- What the operations keep. Only registered servers exist, references from `next` on are unused,
and below the manager's name there is nothing but its entry for itself. -/
structure Invariant (m : KsManager) : Prop where
  object_of_entry : ∀ name version pserver, m.serverTable.lookup (name, version) = some pserver →
    objectAt m.serversDomain name (fromInt version.toNat) = some (.registration pserver)
  entry_of_object : ∀ name id pserver,
    objectAt m.serversDomain name id = some (.registration pserver) →
      ∃ version : UInt16, id = fromInt version.toNat ∧
        m.serverTable.lookup (name, version) = some pserver
  nonempty : ∀ name ps, m.serversDomain.lookup name = some ps → ps.keys ≠ []
  server_of_entry : ∀ key pserver, m.serverTable.lookup key = some pserver →
    ∃ s, m.servers pserver = some s ∧ s.desc.key = key
  entry_of_server : ∀ pserver s, m.servers pserver = some s →
    m.serverTable.lookup s.desc.key = some pserver ∧ s.pevent.isSome
  linked : Linked m.owner m.ticket m.timerQueue
  server_lt : ∀ r s, m.servers r = some s → r < m.next
  event_lt : ∀ r e, m.events r = some e → r < m.next
  manager_name : ∀ name id, objectAt m.serversDomain name id = some .manager →
    name = getServerName
  other_name : ∀ name version pserver, m.serverTable.lookup (name, version) = some pserver →
    name ≠ getServerName

theorem Invariant.consistent {m : KsManager} (h : m.Invariant) : m.Consistent := by
  refine ⟨h.object_of_entry, h.entry_of_object, h.nonempty, fun key r hr => ?_,
    fun p e r hp hr => ?_, fun p hp => ?_⟩
  · obtain ⟨s, hs, hkey⟩ := h.server_of_entry key r hr
    obtain ⟨p, hp⟩ := Option.isSome_iff_exists.mp (h.entry_of_server r s hs).2
    have howner : m.owner r = some p := by rw [owner, hs, Option.bind_some, hp]
    obtain ⟨e, he, hpserver⟩ := Option.map_eq_some_iff.mp (h.linked.ticket_of_owner r p howner).1
    exact ⟨s, p, e, hs, hkey, hp, he, hpserver, h.linked.count_eq_one howner⟩
  · have howner := h.linked.owner_of_ticket r p (by rw [ticket, hp, Option.map_some, hr])
    obtain ⟨s, hs, hsp⟩ := Option.bind_eq_some_iff.mp howner
    exact ⟨s.desc.key, s, (h.entry_of_server r s hs).1, hs, hsp⟩
  · have := h.linked.ticket_of_mem p hp
    rwa [ticket, Option.isSome_map] at this

section Updates
variable {α β : Type*}

theorem update_eq_some {f : ℕ → Option α} {a q : ℕ} {v : Option α} {x : α} :
    update f a v q = some x ↔ q = a ∧ v = some x ∨ q ≠ a ∧ f q = some x := by
  by_cases hq : q = a
  · simp [hq]
  · simp [hq]

theorem bind_update (f : ℕ → Option α) (g : α → Option β) (r : ℕ) (v : Option α) :
    (fun q => (update f r v q).bind g) = update (fun q => (f q).bind g) r (v.bind g) := by
  funext q
  by_cases hq : q = r
  · rw [hq, update_self, update_self]
  · rw [update_of_ne hq, update_of_ne hq]

theorem map_update (f : ℕ → Option α) (g : α → β) (r : ℕ) (v : Option α) :
    (fun q => (update f r v q).map g) = update (fun q => (f q).map g) r (v.map g) := by
  funext q
  by_cases hq : q = r
  · rw [hq, update_self, update_self]
  · rw [update_of_ne hq, update_of_ne hq]

end Updates

variable {m : KsManager} {key : KsString × UInt16} {pserver pevent : ℕ} {s : KsmServer}
  {e : KsmExpireServerEvent}

theorem Invariant.next_unused (h : m.Invariant) :
    m.servers m.next = none ∧ m.events m.next = none := by
  constructor
  · cases hs : m.servers m.next with
    | none => rfl
    | some s => exact absurd (h.server_lt _ s hs) (lt_irrefl _)
  · cases he : m.events m.next with
    | none => rfl
    | some e => exact absurd (h.event_lt _ e he) (lt_irrefl _)

/-- Every server has its event. -/
theorem Invariant.event (h : m.Invariant) (hs : m.servers pserver = some s) :
    ∃ pevent e, s.pevent = some pevent ∧ m.events pevent = some e ∧ e.pserver = some pserver ∧
      pevent < m.next := by
  obtain ⟨p, hp⟩ := Option.isSome_iff_exists.mp (h.entry_of_server pserver s hs).2
  have howner : m.owner pserver = some p := by rw [owner, hs, Option.bind_some, hp]
  obtain ⟨e, he, hpserver⟩ :=
    Option.map_eq_some_iff.mp (h.linked.ticket_of_owner pserver p howner).1
  exact ⟨p, e, hp, he, hpserver, h.event_lt p e he⟩

/-- The manager after the registration of a server `s` that it knows, with event `e`. -/
def renewed (m : KsManager) (pserver pevent : ℕ) (s : KsmServer) (e : KsmExpireServerEvent)
    (port : UInt16) (expireAt : KsTime) : KsManager :=
  { m with
    timerQueue := m.next :: m.timerQueue
    servers := update m.servers pserver
      (some { s with port, expiresAt := expireAt, living := true, pevent := some m.next })
    events := update (update m.events pevent (some { e with pserver := none })) m.next
      (some { triggerAt := expireAt, pserver := some pserver })
    next := m.next + 1 }

theorem Invariant.renewed (h : m.Invariant) (hs : m.servers pserver = some s)
    (hpevent : s.pevent = some pevent) (he : m.events pevent = some e) (port : UInt16)
    (expireAt : KsTime) : (m.renewed pserver pevent s e port expireAt).Invariant := by
  have hself : m.owner pserver = some pevent := by rw [owner, hs, Option.bind_some, hpevent]
  refine ⟨h.object_of_entry, h.entry_of_object, h.nonempty, fun key r hr => ?_, fun r s' hr => ?_,
    ?_, fun r s' hr => ?_, fun r e' hr => ?_, h.manager_name, h.other_name⟩
  · obtain ⟨s', hs', hkey⟩ := h.server_of_entry key r hr
    by_cases hrp : r = pserver
    · subst hrp
      rw [hs, Option.some.injEq] at hs'
      exact ⟨_, update_self .., hs' ▸ hkey⟩
    · exact ⟨s', (update_of_ne hrp ..).trans hs', hkey⟩
  · obtain ⟨rfl, hr'⟩ | ⟨hrp, hr'⟩ := update_eq_some.mp hr
    · obtain rfl := Option.some.inj hr'
      exact ⟨(h.entry_of_server r s hs).1, rfl⟩
    · exact h.entry_of_server r s' hr'
  · have hgive := h.linked.give (k := m.next) (by rw [ticket, h.next_unused.2]; rfl) pserver
    have howner : (m.renewed pserver pevent s e port expireAt).owner =
        update m.owner pserver (some m.next) := bind_update ..
    have hticket : (m.renewed pserver pevent s e port expireAt).ticket =
        update (update m.ticket pevent (some none)) m.next (some (some pserver)) :=
      (map_update ..).trans (congrArg (update · m.next _) (map_update ..))
    rw [howner, hticket]
    rwa [hself] at hgive
  · obtain ⟨rfl, -⟩ | ⟨-, hr'⟩ := update_eq_some.mp hr
    · exact Nat.lt_succ_of_lt (h.server_lt r s hs)
    · exact Nat.lt_succ_of_lt (h.server_lt r s' hr')
  · obtain ⟨rfl, -⟩ | ⟨-, hr'⟩ := update_eq_some.mp hr
    · exact Nat.lt_succ_self _
    · obtain ⟨rfl, -⟩ | ⟨-, hr'⟩ := update_eq_some.mp hr'
      · exact Nat.lt_succ_of_lt (h.event_lt r e he)
      · exact Nat.lt_succ_of_lt (h.event_lt r e' hr')

/-- The manager after the registration of a server that it does not know. -/
def registered (m : KsManager) (params : KsRegistrationParams) (expireAt : KsTime) : KsManager :=
  { serverTable := m.serverTable.insert params.server.key (m.next + 1)
    serversDomain := m.serversDomain.insert (cString params.server.name)
      (((m.serversDomain.lookup (cString params.server.name)).getD ∅).insert
        (fromInt params.server.protocolVersion.toNat) (.registration (m.next + 1)))
    timerQueue := m.next :: m.timerQueue
    servers := update m.servers (m.next + 1) (some {
      desc := params.server
      port := params.port
      expiresAt := expireAt
      timeToLive := params.timeToLive
      living := true
      pevent := some m.next })
    events := update m.events m.next (some { triggerAt := expireAt, pserver := some (m.next + 1) })
    next := m.next + 1 + 1 }

theorem objectAt_registered (m : KsManager) (params : KsRegistrationParams) (expireAt : KsTime)
    (name id : KsString) : objectAt (m.registered params expireAt).serversDomain name id =
      if name = cString params.server.name ∧ id = fromInt params.server.protocolVersion.toNat then
        some (.registration (m.next + 1))
      else objectAt m.serversDomain name id := by
  rw [registered, objectAt_insert]
  by_cases hname : name = cString params.server.name
  · rw [if_pos hname, lookup_insert_eq, lookup_getD, hname]
    simp only [true_and]
  · rw [if_neg hname, if_neg fun h => hname h.1]

/-- The names and versions of two descriptions are those of their objects. -/
theorem key_eq_iff {name : KsString} {version : UInt16} {desc : KsServerDesc} :
    (name, version) = desc.key ↔
      name = cString desc.name ∧ fromInt version.toNat = fromInt desc.protocolVersion.toNat := by
  rw [KsServerDesc.key, Prod.mk.injEq, fromInt_injective.eq_iff, UInt16.toNat_inj]

theorem Invariant.registered (h : m.Invariant) {params : KsRegistrationParams}
    (hnew : m.serverTable.lookup params.server.key = none)
    (hname : cString params.server.name ≠ getServerName) (expireAt : KsTime) :
    (m.registered params expireAt).Invariant := by
  have hobject := objectAt_registered m params expireAt
  have hfree : m.servers (m.next + 1) = none := by
    cases hs : m.servers (m.next + 1) with
    | none => rfl
    | some s => exact absurd (h.server_lt _ s hs) (by omega)
  refine ⟨fun name version r hr => ?_, fun name id r hr => ?_, fun name ps hps => ?_,
    fun key r hr => ?_, fun r s hr => ?_, ?_, fun r s hr => ?_, fun r e hr => ?_,
    fun name id hid => ?_, fun name version r hr => ?_⟩
  · rw [KsManager.registered, lookup_insert_eq] at hr
    rw [hobject]
    by_cases hk : (name, version) = params.server.key
    · rw [if_pos hk] at hr
      rw [if_pos (key_eq_iff.mp hk), Option.some.inj hr]
    · rw [if_neg hk] at hr
      rw [if_neg (mt key_eq_iff.mpr hk)]
      exact h.object_of_entry name version r hr
  · rw [hobject] at hr
    split_ifs at hr with hk
    · obtain ⟨rfl, rfl⟩ := hk
      obtain rfl := VersionObject.registration.inj (Option.some.inj hr)
      exact ⟨_, rfl, AList.lookup_insert _⟩
    · obtain ⟨version, rfl, hlookup⟩ := h.entry_of_object name id r hr
      refine ⟨version, rfl, ?_⟩
      rw [KsManager.registered, lookup_insert_eq, if_neg (mt key_eq_iff.mp hk)]
      exact hlookup
  · rw [KsManager.registered, lookup_insert_eq] at hps
    split_ifs at hps with hn
    · obtain rfl := Option.some.inj hps
      exact keys_ne_nil_of_lookup (AList.lookup_insert _)
    · exact h.nonempty name ps hps
  · rw [KsManager.registered, lookup_insert_eq] at hr
    split_ifs at hr with hk
    · obtain rfl := Option.some.inj hr
      exact ⟨_, update_self .., hk.symm⟩
    · obtain ⟨s, hs, hkey⟩ := h.server_of_entry key r hr
      have hrn : r ≠ m.next + 1 := by
        have := h.server_lt r s hs
        omega
      exact ⟨s, (update_of_ne hrn ..).trans hs, hkey⟩
  · obtain ⟨rfl, hs⟩ | ⟨-, hs⟩ := update_eq_some.mp hr
    · obtain rfl := Option.some.inj hs
      exact ⟨AList.lookup_insert _, rfl⟩
    · obtain ⟨hlookup, hp⟩ := h.entry_of_server r s hs
      refine ⟨?_, hp⟩
      rw [KsManager.registered, lookup_insert_eq, if_neg, hlookup]
      rintro hk
      rw [hk, hnew] at hlookup
      exact absurd hlookup (by simp)
  · have hgive := h.linked.give (k := m.next) (by rw [ticket, h.next_unused.2]; rfl) (m.next + 1)
    have howner : (m.registered params expireAt).owner =
        update m.owner (m.next + 1) (some m.next) := bind_update ..
    have hticket : (m.registered params expireAt).ticket =
        update m.ticket m.next (some (some (m.next + 1))) := map_update ..
    have hnone : m.owner (m.next + 1) = none := by rw [owner, hfree, Option.bind_none]
    rw [howner, hticket]
    rwa [hnone] at hgive
  · obtain ⟨rfl, -⟩ | ⟨-, hs⟩ := update_eq_some.mp hr
    · exact Nat.lt_succ_self _
    · exact Nat.lt_succ_of_lt (Nat.lt_succ_of_lt (h.server_lt r s hs))
  · obtain ⟨rfl, -⟩ | ⟨-, he⟩ := update_eq_some.mp hr
    · exact Nat.lt_succ_of_lt (Nat.lt_succ_self _)
    · exact Nat.lt_succ_of_lt (Nat.lt_succ_of_lt (h.event_lt r e he))
  · rw [hobject] at hid
    split_ifs at hid
    · simp at hid
    · exact h.manager_name name id hid
  · rw [KsManager.registered, lookup_insert_eq] at hr
    split_ifs at hr with hk
    · rw [(key_eq_iff.mp hk).1]
      exact hname
    · exact h.other_name name version r hr

/-- The manager without a server `s`, whose event is `e`; `tree` is what is left below
`/servers`. -/
def removed (m : KsManager) (pserver pevent : ℕ) (s : KsmServer) (e : KsmExpireServerEvent)
    (tree : AList fun _ : KsString => VersionDomain) : KsManager :=
  { m with
    serverTable := m.serverTable.erase s.desc.key
    serversDomain := tree
    servers := update m.servers pserver none
    events := update m.events pevent (some { e with pserver := none }) }

/-- What is left below `/servers` without the object of a description. -/
structure Without (tree tree' : AList fun _ : KsString => VersionDomain) (desc : KsServerDesc) :
    Prop where
  objectAt : ∀ name id, objectAt tree' name id =
    if name = cString desc.name ∧ id = fromInt desc.protocolVersion.toNat then none
    else AcpltKs.objectAt tree name id
  nonempty : ∀ name ps, tree'.lookup name = some ps → ps.keys ≠ []

theorem Invariant.removed (h : m.Invariant) (hs : m.servers pserver = some s)
    (hpevent : s.pevent = some pevent) (he : m.events pevent = some e)
    {tree : AList fun _ : KsString => VersionDomain} (htree : Without m.serversDomain tree s.desc) :
    (m.removed pserver pevent s e tree).Invariant := by
  have hobject := htree.objectAt
  have hself : m.owner pserver = some pevent := by rw [owner, hs, Option.bind_some, hpevent]
  have hentry := (h.entry_of_server pserver s hs).1
  refine ⟨fun name version r hr => ?_, fun name id r hr => ?_, htree.nonempty,
    fun key r hr => ?_, fun r s' hr => ?_, ?_, fun r s' hr => ?_, fun r e' hr => ?_,
    fun name id hid => ?_, fun name version r hr => ?_⟩
  · rw [KsManager.removed, lookup_erase_eq] at hr
    split_ifs at hr with hk
    rw [KsManager.removed, hobject, if_neg (mt key_eq_iff.mpr hk)]
    exact h.object_of_entry name version r hr
  · rw [KsManager.removed, hobject] at hr
    split_ifs at hr with hk
    obtain ⟨version, rfl, hlookup⟩ := h.entry_of_object name id r hr
    refine ⟨version, rfl, ?_⟩
    rw [KsManager.removed, lookup_erase_eq, if_neg (mt key_eq_iff.mp hk)]
    exact hlookup
  · rw [KsManager.removed, lookup_erase_eq] at hr
    split_ifs at hr with hk
    obtain ⟨s', hs', hkey⟩ := h.server_of_entry key r hr
    have hrp : r ≠ pserver := by
      rintro rfl
      rw [hs, Option.some.injEq] at hs'
      exact hk (hs' ▸ hkey.symm)
    exact ⟨s', (update_of_ne hrp ..).trans hs', hkey⟩
  · obtain ⟨-, hs'⟩ | ⟨hrp, hs'⟩ := update_eq_some.mp hr
    · exact absurd hs' (by simp)
    · obtain ⟨hlookup, hp⟩ := h.entry_of_server r s' hs'
      refine ⟨?_, hp⟩
      rw [KsManager.removed, lookup_erase_eq, if_neg, hlookup]
      intro hk
      rw [hk, hentry, Option.some.injEq] at hlookup
      exact hrp hlookup.symm
  · have hremove := h.linked.remove pserver
    have howner : (m.removed pserver pevent s e tree).owner = update m.owner pserver none :=
      bind_update ..
    have hticket : (m.removed pserver pevent s e tree).ticket =
        update m.ticket pevent (some none) := map_update ..
    rw [howner, hticket]
    rwa [hself] at hremove
  · obtain ⟨-, hs'⟩ | ⟨-, hs'⟩ := update_eq_some.mp hr
    · exact absurd hs' (by simp)
    · exact h.server_lt r s' hs'
  · obtain ⟨rfl, -⟩ | ⟨-, he'⟩ := update_eq_some.mp hr
    · exact h.event_lt r e he
    · exact h.event_lt r e' he'
  · rw [KsManager.removed, hobject] at hid
    split_ifs at hid
    exact h.manager_name name id hid
  · rw [KsManager.removed, lookup_erase_eq] at hr
    split_ifs at hr
    exact h.other_name name version r hr

/-- The manager after a server `s` has been marked dead by its event `e`. -/
def dying (m : KsManager) (pserver pevent : ℕ) (s : KsmServer) (e : KsmExpireServerEvent)
    (now : KsTime) : KsManager :=
  { m with
    timerQueue := pevent :: m.timerQueue.erase pevent
    servers := update m.servers pserver (some { s with living := false })
    events := update m.events pevent (some { e with triggerAt := now.after s.timeToLive }) }

theorem Invariant.dying (h : m.Invariant) (hs : m.servers pserver = some s)
    (he : m.events pevent = some e) (hmem : pevent ∈ m.timerQueue) (now : KsTime) :
    (m.dying pserver pevent s e now).Invariant := by
  refine ⟨h.object_of_entry, h.entry_of_object, h.nonempty, fun key r hr => ?_, fun r s' hr => ?_,
    ?_, fun r s' hr => ?_, fun r e' hr => ?_, h.manager_name, h.other_name⟩
  · obtain ⟨s', hs', hkey⟩ := h.server_of_entry key r hr
    by_cases hrp : r = pserver
    · subst hrp
      rw [hs, Option.some.injEq] at hs'
      exact ⟨_, update_self .., hs' ▸ hkey⟩
    · exact ⟨s', (update_of_ne hrp ..).trans hs', hkey⟩
  · obtain ⟨rfl, hr'⟩ | ⟨-, hr'⟩ := update_eq_some.mp hr
    · obtain rfl := Option.some.inj hr'
      exact h.entry_of_server r s hs
    · exact h.entry_of_server r s' hr'
  · have howner : (m.dying pserver pevent s e now).owner = m.owner := by
      refine (bind_update ..).trans (update_eq_iff.mpr ⟨?_, fun _ _ => rfl⟩)
      rw [owner, hs]
      rfl
    have hticket : (m.dying pserver pevent s e now).ticket = m.ticket := by
      refine (map_update ..).trans (update_eq_iff.mpr ⟨?_, fun _ _ => rfl⟩)
      rw [ticket, he]
      rfl
    rw [howner, hticket]
    exact h.linked.perm (List.perm_cons_erase hmem).symm
  · obtain ⟨rfl, -⟩ | ⟨-, hr'⟩ := update_eq_some.mp hr
    · exact h.server_lt r s hs
    · exact h.server_lt r s' hr'
  · obtain ⟨rfl, -⟩ | ⟨-, hr'⟩ := update_eq_some.mp hr
    · exact h.event_lt r e he
    · exact h.event_lt r e' hr'

/-- The manager without an event. -/
def discarded (m : KsManager) (pevent : ℕ) : KsManager :=
  { m with timerQueue := m.timerQueue.erase pevent, events := update m.events pevent none }

theorem Invariant.discarded (h : m.Invariant) (he : m.events pevent = some e)
    (hpserver : e.pserver = none) : (m.discarded pevent).Invariant := by
  refine ⟨h.object_of_entry, h.entry_of_object, h.nonempty, h.server_of_entry, h.entry_of_server,
    ?_, h.server_lt, fun r e' hr => ?_, h.manager_name, h.other_name⟩
  · have hdiscard := h.linked.discard (k := pevent) (by rw [ticket, he, Option.map_some, hpserver])
    have hticket : (m.discarded pevent).ticket = update m.ticket pevent none := map_update ..
    rw [hticket]
    exact hdiscard
  · obtain ⟨-, hr'⟩ | ⟨-, hr'⟩ := update_eq_some.mp hr
    · exact absurd hr' (by simp)
    · exact h.event_lt r e' hr'

theorem destroy_registration (m : KsManager) (r : ℕ) :
    m.destroy [.registration r] = { m with servers := update m.servers r none } := by
  have hservers : (fun q => if VersionObject.registration q ∈ [VersionObject.registration r] then
      none else m.servers q) = update m.servers r none := by
    funext q
    by_cases hq : q = r
    · simp [hq]
    · simp [hq]
  rw [destroy, hservers]

/-- The only version of a server goes with its domain. -/
theorem Without.erase {tree : AList fun _ : KsString => VersionDomain} {desc : KsServerDesc}
    {ps : VersionDomain} {o : VersionObject}
    (hnonempty : ∀ name ps, tree.lookup name = some ps → ps.keys ≠ [])
    (hps : tree.lookup (cString desc.name) = some ps)
    (hentries : ps.entries = [⟨fromInt desc.protocolVersion.toNat, o⟩]) :
    Without tree (tree.erase (cString desc.name)) desc := by
  refine ⟨fun name id => ?_, fun name ps' hps' => ?_⟩
  · rw [objectAt_erase]
    by_cases hname : name = cString desc.name
    · by_cases hid : id = fromInt desc.protocolVersion.toNat
      · rw [if_pos hname, if_pos ⟨hname, hid⟩]
      · rw [if_pos hname, if_neg fun h => hid h.2, hname, objectAt_of_lookup hps, eq_comm,
          AList.lookup_eq_none, AList.mem_keys, AList.keys, hentries]
        simpa [List.keys] using hid
    · rw [if_neg hname, if_neg fun h => hname h.1]
  · rw [lookup_erase_eq] at hps'
    split_ifs at hps'
    exact hnonempty name ps' hps'

/-- One of several versions of a server is taken out of its domain. -/
theorem Without.insert {tree : AList fun _ : KsString => VersionDomain} {desc : KsServerDesc}
    {ps : VersionDomain} (hnonempty : ∀ name ps, tree.lookup name = some ps → ps.keys ≠ [])
    (hps : tree.lookup (cString desc.name) = some ps)
    (hid : fromInt desc.protocolVersion.toNat ∈ ps.keys) (hlength : ps.keys.length ≠ 1) :
    Without tree (tree.insert (cString desc.name) (ps.erase (fromInt desc.protocolVersion.toNat)))
      desc := by
  refine ⟨fun name id => ?_, fun name ps' hps' => ?_⟩
  · rw [objectAt_insert]
    by_cases hname : name = cString desc.name
    · rw [if_pos hname, lookup_erase_eq, hname, objectAt_of_lookup hps]
      simp only [true_and]
    · rw [if_neg hname, if_neg fun h => hname h.1]
  · rw [lookup_insert_eq] at hps'
    split_ifs at hps'
    · obtain rfl := Option.some.inj hps'
      have hpos := List.length_pos_of_mem hid
      refine List.ne_nil_of_length_pos ?_
      rw [AList.keys_erase, @List.length_erase_of_mem _ instBEqOfDecidableEq _ _ _ hid]
      omega
    · exact hnonempty name ps' hps'

/-- What `removeServer` does to a server with an event and an object. -/
theorem removeServer_eq (hs : m.servers pserver = some s) (hpevent : s.pevent = some pevent)
    (he : m.events pevent = some e)
    (hobject : objectAt m.serversDomain (cString s.desc.name)
      (fromInt s.desc.protocolVersion.toNat) = some (.registration pserver))
    (hnonempty : ∀ name ps, m.serversDomain.lookup name = some ps → ps.keys ≠ []) :
    ∃ tree, Without m.serversDomain tree s.desc ∧
      m.removeServer pserver = some (m.removed pserver pevent s e tree) := by
  obtain ⟨ps, hps, hid⟩ := Option.bind_eq_some_iff.mp hobject
  have hmem : fromInt s.desc.protocolVersion.toNat ∈ ps.keys :=
    AList.lookup_isSome.mp (by rw [hid]; rfl)
  by_cases hlength : ps.keys.length = 1
  · obtain ⟨x, hx⟩ := List.length_eq_one_iff.mp (by simpa [AList.keys, List.keys] using hlength)
    have hentries :
        ps.entries = [⟨fromInt s.desc.protocolVersion.toNat, .registration pserver⟩] := by
      have := AList.mem_lookup_iff.mp (Option.mem_def.mpr hid)
      rw [hx, List.mem_singleton] at this
      rw [hx, this]
    refine ⟨_, .erase hnonempty hps hentries, ?_⟩
    simp only [removeServer, inactivate, setEvent, hs, hpevent, he, hps, hlength, hentries,
      Option.bind_eq_bind, Option.bind_some, Option.map_some, ↓reduceIte, List.map_cons,
      List.map_nil, destroy_registration, removed]
  · refine ⟨_, .insert hnonempty hps hmem hlength, ?_⟩
    simp only [removeServer, inactivate, setEvent, hs, hpevent, he, hps, hlength, hid,
      Option.bind_eq_bind, Option.bind_some, Option.map_some, ↓reduceIte, Option.toList_some,
      destroy_registration, removed]

/-- Only proper names other than the manager's own are registered. -/
def Accepts (params : KsRegistrationParams) : Prop :=
  isValidManagerName params.server.name = true ∧ ¬ params.server.protocolVersion < 1 ∧
    cString params.server.name ≠ getServerName

/-- For a server that is not registered, there is no object. -/
theorem Invariant.objectAt_eq_none (h : m.Invariant) {desc : KsServerDesc}
    (hlookup : m.serverTable.lookup desc.key = none) (hname : cString desc.name ≠ getServerName) :
    objectAt m.serversDomain (cString desc.name) (fromInt desc.protocolVersion.toNat) = none := by
  cases hobject : objectAt m.serversDomain (cString desc.name)
      (fromInt desc.protocolVersion.toNat) with
  | none => rfl
  | some o =>
    cases o with
    | manager => exact absurd (h.manager_name _ _ hobject) hname
    | registration r =>
      obtain ⟨version, hversion, hentry⟩ := h.entry_of_object _ _ r hobject
      rw [key_eq_iff.mpr ⟨rfl, hversion.symm⟩, hlookup] at hentry
      exact absurd hentry (by simp)

/-- A request is refused, renews a registration or makes a new one. -/
theorem registerServer_cases (h : m.Invariant) (now : KsTime) (params : KsRegistrationParams) :
    ¬ Accepts params ∧ m.registerServer {} now params = some (.badParam, m) ∨
    Accepts params ∧
      ((∃ pserver pevent s e, m.serverTable.lookup params.server.key = some pserver ∧
          m.servers pserver = some s ∧ s.pevent = some pevent ∧ m.events pevent = some e ∧
          m.registerServer {} now params = some (.ok, m.renewed pserver pevent s e params.port
            (now.after params.timeToLive))) ∨
        m.serverTable.lookup params.server.key = none ∧
          m.registerServer {} now params =
            some (.ok, m.registered params (now.after params.timeToLive))) := by
  by_cases hvalid : (!isValidManagerName params.server.name ||
      decide (params.server.protocolVersion < 1)) = true
  · refine Or.inl ⟨fun hacc => ?_, if_pos hvalid⟩
    rw [Bool.or_eq_true, Bool.not_eq_true', decide_eq_true_eq] at hvalid
    exact hvalid.elim (fun hbad => by simp [hacc.1] at hbad) hacc.2.1
  by_cases hname : cString params.server.name = getServerName
  · exact Or.inl ⟨fun hacc => hacc.2.2 hname, by rw [registerServer, if_neg hvalid, if_pos hname]⟩
  have haccepts : Accepts params := by
    rw [Bool.or_eq_true, not_or, Bool.not_eq_true', Bool.not_eq_false, decide_eq_true_eq] at hvalid
    exact ⟨hvalid.1, hvalid.2, hname⟩
  refine Or.inr ⟨haccepts, ?_⟩
  cases hlookup : m.serverTable.lookup params.server.key with
  | some pserver =>
    obtain ⟨s, hs, -⟩ := h.server_of_entry _ _ hlookup
    obtain ⟨pevent, e, hpevent, he, -, hlt⟩ := h.event hs
    refine Or.inl ⟨pserver, pevent, s, e, rfl, hs, hpevent, he, ?_⟩
    have hne : pevent ≠ m.next := Nat.ne_of_lt hlt
    rw [registerServer, if_neg hvalid, if_neg hname]
    simp only [newEvent, addTimerEvent, hlookup, renewServer, setServer, inactivate, setEvent,
      connect, hs, hpevent, he, update_self, update_of_ne hne, update_of_ne hne.symm, update_idem,
      Option.bind_eq_bind, Option.bind_some, Option.map_some, Bool.not_true, Bool.false_eq_true,
      ↓reduceIte, renewed, update_comm hne]
  | none =>
    refine Or.inr ⟨rfl, ?_⟩
    have hid : ((m.serversDomain.lookup (cString params.server.name)).getD ∅).lookup
        (fromInt params.server.protocolVersion.toNat) = none := by
      rw [lookup_getD]
      exact h.objectAt_eq_none hlookup hname
    rw [registerServer, if_neg hvalid, if_neg hname]
    simp only [newEvent, addTimerEvent, hlookup, newServer, addToDomain, setServer, setEvent, hid,
      connect, update_self, update_idem, Option.isNone_none, Bool.and_self, Bool.and_false,
      Option.bind_eq_bind, Option.bind_some, Option.map_some, Bool.not_true, Bool.false_eq_true,
      ↓reduceIte, registered]

/-- Removing a registered server. -/
theorem Invariant.removeServer (h : m.Invariant) (hs : m.servers pserver = some s) :
    ∃ pevent e tree, s.pevent = some pevent ∧ m.events pevent = some e ∧
      m.removeServer pserver = some (m.removed pserver pevent s e tree) ∧
      (m.removed pserver pevent s e tree).Invariant := by
  obtain ⟨pevent, e, hpevent, he, -⟩ := h.event hs
  obtain ⟨tree, htree, hremove⟩ := removeServer_eq hs hpevent he
    (h.object_of_entry _ _ pserver (h.entry_of_server pserver s hs).1) h.nonempty
  exact ⟨pevent, e, tree, hpevent, he, hremove, h.removed hs hpevent he htree⟩

/-- A request to unregister changes nothing or removes the server. -/
theorem unregisterServer_cases (h : m.Invariant) (server : KsServerDesc) :
    (∃ result, m.unregisterServer server = some (result, m)) ∨
    ∃ pserver pevent s e tree, m.serverTable.lookup server.key = some pserver ∧
      m.servers pserver = some s ∧ s.pevent = some pevent ∧ m.events pevent = some e ∧
      m.unregisterServer server = some (.ok, m.removed pserver pevent s e tree) ∧
      (m.removed pserver pevent s e tree).Invariant := by
  by_cases hname : cString server.name = getServerName
  · exact Or.inl ⟨.badParam, if_pos hname⟩
  cases hlookup : m.serverTable.lookup server.key with
  | none =>
    refine Or.inl ⟨.serverUnknown, ?_⟩
    rw [unregisterServer, if_neg hname, hlookup]
  | some r =>
    obtain ⟨s, hs, -⟩ := h.server_of_entry _ r hlookup
    obtain ⟨p, e, tree, hp, he, hremove, hinv⟩ := h.removeServer hs
    refine Or.inr ⟨r, p, s, e, tree, rfl, hs, hp, he, ?_, hinv⟩
    rw [unregisterServer, if_neg hname, hlookup]
    simp only [hremove, Option.map_some]

/-- The trigger of a queued event: it is inactive, its server dies, or its server is removed. -/
theorem trigger_cases (h : m.Invariant) (now : KsTime) (hmem : pevent ∈ m.timerQueue) :
    ∃ e, m.events pevent = some e ∧
      (e.pserver = none ∧ m.perform (.trigger {} now pevent) = some (m.discarded pevent) ∨
      ∃ pserver s, e.pserver = some pserver ∧ m.servers pserver = some s ∧ s.pevent = some pevent ∧
        (s.living = true ∧
            m.perform (.trigger {} now pevent) = some (m.dying pserver pevent s e now) ∨
          ∃ tree, Without m.serversDomain tree s.desc ∧ m.perform (.trigger {} now pevent) =
            some ((m.removed pserver pevent s e tree).discarded pevent))) := by
  obtain ⟨e, he⟩ : ∃ e, m.events pevent = some e := by
    have := h.linked.ticket_of_mem pevent hmem
    rwa [ticket, Option.isSome_map, Option.isSome_iff_exists] at this
  refine ⟨e, he, ?_⟩
  rw [perform, if_pos hmem]
  cases hr : e.pserver with
  | none =>
    refine Or.inl ⟨rfl, ?_⟩
    simp only [trigger, he, hr, Option.bind_eq_bind, Option.bind_some, deleteEvent, discarded]
  | some r =>
    have howner := h.linked.owner_of_ticket r pevent (by rw [ticket, he, Option.map_some, hr])
    obtain ⟨s, hs, hsp⟩ := Option.bind_eq_some_iff.mp howner
    refine Or.inr ⟨r, s, rfl, hs, hsp, ?_⟩
    by_cases hliving : s.living = true
    · refine Or.inl ⟨hliving, ?_⟩
      simp only [trigger, he, hr, hs, hliving, setServer, setEvent, addTimerEvent,
        Option.bind_eq_bind, Option.bind_some, Option.map_some, ↓reduceIte, dying]
    · obtain ⟨tree, htree, hremove⟩ := removeServer_eq
        (m := { m with timerQueue := m.timerQueue.erase pevent }) hs hsp he
        (h.object_of_entry _ _ r (h.entry_of_server r s hs).1) h.nonempty
      refine Or.inr ⟨tree, htree, ?_⟩
      simp only [trigger, he, hr, hs, hliving, hremove, Option.bind_eq_bind, Option.bind_some,
        ↓reduceIte, Bool.false_eq_true, removed, deleteEvent, discarded]

/-- The allocations that an operation needs succeed. -/
def Op.Allocates : Op → Prop
  | .register mem _ _ => mem = {}
  | .trigger mem _ _ => mem = {}
  | .unregister _ => True

/-- No operation accesses an object that has been destroyed, and all keep the invariant. -/
theorem Invariant.perform (h : m.Invariant) {op : Op} (hop : op.Allocates) :
    ∃ m', m.perform op = some m' ∧ m'.Invariant := by
  cases op with
  | register mem now params =>
    obtain rfl : mem = {} := hop
    obtain ⟨-, hreg⟩ | ⟨hacc, ⟨r, p, s, e, -, hs, hp, he, hreg⟩ | ⟨hnew, hreg⟩⟩ :=
      registerServer_cases h now params
    · exact ⟨m, by rw [KsManager.perform, hreg]; rfl, h⟩
    · exact ⟨_, by rw [KsManager.perform, hreg]; rfl, h.renewed hs hp he _ _⟩
    · exact ⟨_, by rw [KsManager.perform, hreg]; rfl, h.registered hnew hacc.2.2 _⟩
  | unregister server =>
    obtain ⟨result, hun⟩ | ⟨r, p, s, e, tree, -, -, -, -, hun, hinv⟩ :=
      unregisterServer_cases h server
    · exact ⟨m, by rw [KsManager.perform, hun]; rfl, h⟩
    · exact ⟨_, by rw [KsManager.perform, hun]; rfl, hinv⟩
  | trigger mem now p =>
    obtain rfl : mem = {} := hop
    by_cases hmem : p ∈ m.timerQueue
    · obtain ⟨e, he, ⟨hr, htrigger⟩ | ⟨r, s, -, hs, hsp, ⟨-, htrigger⟩ | ⟨tree, htree, htrigger⟩⟩⟩ :=
        trigger_cases h now hmem
      · exact ⟨_, htrigger, h.discarded he hr⟩
      · exact ⟨_, htrigger, h.dying hs he hmem now⟩
      · exact ⟨_, htrigger, (h.removed hs hsp he htree).discarded (update_self ..) rfl⟩
    · exact ⟨m, by rw [KsManager.perform, if_neg hmem], h⟩

theorem create_invariant : create.Invariant := by
  have htree : ∀ name id o, objectAt create.serversDomain name id = some o →
      o = .manager ∧ name = getServerName := by
    intro name id o ho
    obtain ⟨ps, hps, hid⟩ := Option.bind_eq_some_iff.mp ho
    rw [create, ← AList.insert_empty, lookup_insert_eq] at hps
    split_ifs at hps with hname
    · obtain rfl := Option.some.inj hps
      rw [← AList.insert_empty, lookup_insert_eq] at hid
      split_ifs at hid
      · exact ⟨(Option.some.inj hid).symm, hname⟩
      · simp at hid
    · simp at hps
  refine ⟨fun name version r hr => ?_, fun name id r hr => ?_, fun name ps hps => ?_,
    fun key r hr => ?_, fun r s hr => ?_, ⟨fun i k hi => ?_, fun i k hk => ?_, fun k hk => ?_, ?_⟩,
    fun r s hr => ?_, fun r e hr => ?_, fun name id hid => (htree name id _ hid).2,
    fun name version r hr => ?_⟩
  · exact absurd hr (by simp [create])
  · exact absurd (htree name id _ hr).1 (by simp)
  · rw [create, ← AList.insert_empty, lookup_insert_eq] at hps
    split_ifs at hps
    · obtain rfl := Option.some.inj hps
      simp
    · simp at hps
  · exact absurd hr (by simp [create])
  · exact absurd hr (by simp [create])
  · exact absurd hi (by simp [create, owner])
  · exact absurd hk (by simp [create, ticket])
  · exact absurd hk (by simp [create])
  · exact List.nodup_nil
  · exact absurd hr (by simp [create])
  · exact absurd hr (by simp [create])
  · exact absurd hr (by simp [create])

end KsManager

/-- In every order of requests and triggers, and as long as there is memory, the manager never
accesses an object that has been destroyed, and its records stay consistent. -/
theorem manager_consistent {ops : List KsManager.Op} (h : ∀ op ∈ ops, op.Allocates) :
    ∃ m, run KsManager.step (some .create) ops = some m ∧ m.Consistent := by
  have hstep : ∀ (s : Option KsManager) (op : KsManager.Op), (∃ m, s = some m ∧ m.Invariant) →
      op.Allocates → ∃ m, KsManager.step s op = some m ∧ m.Invariant := by
    rintro s op ⟨m, rfl, hinv⟩ hop
    obtain ⟨m', hperform, hinv'⟩ := hinv.perform hop
    exact ⟨m', by rw [KsManager.step, Option.bind_some, hperform], hinv'⟩
  obtain ⟨m, hm, hinv⟩ := run_invariant
    (I := fun s : Option KsManager => ∃ m, s = some m ∧ m.Invariant) hstep
    ⟨.create, rfl, KsManager.create_invariant⟩ (Along.of_forall _ h)
  exact ⟨m, hm, hinv.consistent⟩

/-- Two versions of a server are registered, one of them twice; the other expires. -/
theorem manager_consistent_twoVersions :
    ∃ m, run KsManager.step (some .create)
      [.register {} 0 ⟨⟨[65], 1⟩, 7, 20⟩, .register {} 1 ⟨⟨[65], 2⟩, 8, 20⟩,
        .register {} 5 ⟨⟨[65], 2⟩, 8, 20⟩, .trigger {} 20 0, .trigger {} 21 2, .trigger {} 40 0,
        .unregister ⟨[65], 2⟩] = some m ∧ m.Consistent :=
  manager_consistent (by simp [KsManager.Op.Allocates])

end AcpltKs
