import AcpltKs.Manager.Failures
import AcpltKs.Plt.HashTableMap

/-! The search for the highest version of a server goes through the hash table of the manager. The
manager is run here with that hash table, beside the finite map that it stands for. -/
namespace AcpltKs
open GuardedRun

/-- Descriptions are compared, and hashed, by what they describe. -/
instance : PltKey KsServerDesc where
  beq d d' := decide (d.key = d'.key)
  hash d := (hashString d.name ^^^ d.protocolVersion.toUInt64).toNat

theorem desc_beq_iff {d d' : KsServerDesc} : (d == d') = true ↔ d.key = d'.key := decide_eq_true_iff

instance : LawfulPltKey KsServerDesc where
  refl _ := desc_beq_iff.mpr rfl
  symm _ _ h := desc_beq_iff.mpr (desc_beq_iff.mp h).symm
  trans _ _ _ h h' := desc_beq_iff.mpr ((desc_beq_iff.mp h).trans (desc_beq_iff.mp h'))
  hash_eq d d' h := by
    obtain ⟨hname, hversion⟩ := Prod.mk.inj (desc_beq_iff.mp h)
    simp only [PltKey.hash, hashString, hname, hversion]

/-- A manager with its hash table. The finite map of the manager records what is put there. -/
structure HashedManager where
  manager : KsManager
  table : PltHashTable KsServerDesc ℕ

namespace KsManager
variable {m m' : KsManager} {pserver pevent : ℕ}

theorem setServer_table {f : KsmServer → KsmServer} (hset : m.setServer pserver f = some m') :
    m'.serverTable = m.serverTable := by
  obtain ⟨s, -, rfl⟩ := Option.map_eq_some_iff.mp hset
  rfl

theorem inactivate_table (hinactivate : m.inactivate pserver = some m') :
    m'.serverTable = m.serverTable := by
  obtain ⟨s, -, hset⟩ := Option.bind_eq_some_iff.mp hinactivate
  obtain ⟨p, -, hset⟩ := Option.bind_eq_some_iff.mp hset
  obtain ⟨e, -, rfl⟩ := Option.map_eq_some_iff.mp hset
  rfl

theorem renewServer_table {port : UInt16} {expireAt : KsTime} {result : KsResult}
    (hrenew : m.renewServer pserver pevent port expireAt = some (result, m')) :
    m'.serverTable = m.serverTable := by
  obtain ⟨m₁, hset, hrest⟩ := Option.bind_eq_some_iff.mp hrenew
  obtain ⟨m₂, hinactivate, hrest⟩ := Option.bind_eq_some_iff.mp hrest
  obtain ⟨m₃, hconnect, heq⟩ := Option.bind_eq_some_iff.mp hrest
  obtain ⟨-, rfl⟩ := Prod.mk.inj (Option.some.inj heq)
  exact (connect_tables hconnect).1.trans ((inactivate_table hinactivate).trans
    (setServer_table hset))

/-- The objects below `/servers` are created without the table. -/
theorem addToDomain_table {mem : Memory} {desc : KsServerDesc} {result : KsResult}
    (hadd : m.addToDomain mem desc pserver pevent = some (result, m')) :
    m'.serverTable = m.serverTable := by
  have hconnected : ∀ {m₁ : KsManager}, m₁.serverTable = m.serverTable →
      (m₁.connect pserver pevent).bind (fun m => some (KsResult.ok, m)) = some (result, m') →
      m'.serverTable = m.serverTable := by
    intro m₁ htable hconnect
    obtain ⟨m₂, hm₂, heq⟩ := Option.bind_eq_some_iff.mp hconnect
    obtain ⟨-, rfl⟩ := Prod.mk.inj (Option.some.inj heq)
    exact (connect_tables hm₂).1.trans htable
  rw [addToDomain] at hadd
  dsimp only at hadd
  split at hadd
  · obtain ⟨-, rfl⟩ := Prod.mk.inj (Option.some.inj hadd)
    rfl
  split at hadd
  · refine hconnected ?_ hadd
    rfl
  have hdelete : (if mem.serverHandle = true then m.deleteServer pserver else m).serverTable =
      m.serverTable := by
    split <;> rfl
  split at hadd
  · obtain ⟨-, rfl⟩ := Prod.mk.inj (Option.some.inj hadd)
    exact hdelete
  · exact hconnected hdelete hadd

end KsManager

namespace HashedManager

/-- The hash table has the default capacity and load limits. -/
def create : Option HashedManager :=
  (PltHashTable.create 11 (8 / 10) (4 / 10)).map fun table => ⟨.create, table⟩

/-- Nothing for an access to an object that has been destroyed, or if the table is searched without
an end. -/
def registerServer (h : HashedManager) (mem : Memory) (now : KsTime)
    (params : KsRegistrationParams) : Option (KsResult × HashedManager) :=
  if !isValidManagerName params.server.name || params.server.protocolVersion < 1 then
    some (.badParam, h)
  else if cString params.server.name = getServerName then some (.badParam, h)
  else
    let expireAt := now.after params.timeToLive
    if !mem.event then some (.generic, h)
    else
      let (pevent, m) := h.manager.newEvent { triggerAt := expireAt, pserver := none }
      if !mem.queue then some (.generic, ⟨m.deleteEvent pevent, h.table⟩)
      else do
        let m := m.addTimerEvent pevent
        let found ← h.table.query params.server
        match found with
        | some pserver =>
            let r ← m.renewServer pserver pevent params.port expireAt
            some (r.1, ⟨r.2, h.table⟩)
        | none =>
            if !mem.server then some (.generic, ⟨m, h.table⟩)
            else
              let (pserver, m) := m.newServer {
                desc := params.server
                port := params.port
                expiresAt := expireAt
                timeToLive := params.timeToLive
                living := true
                pevent := none }
              let (added, table) ←
                if mem.table then h.table.add params.server pserver else some (false, h.table)
              if !added then some (.generic, ⟨m.deleteServer pserver, table⟩)
              else
                let m := { m with serverTable := m.serverTable.insert params.server.key pserver }
                let r ← m.addToDomain mem params.server pserver pevent
                some (r.1, ⟨r.2, table⟩)

def removeServer (h : HashedManager) (pserver : ℕ) : Option HashedManager := do
  let s ← h.manager.servers pserver
  let (_, table) ← h.table.remove s.desc
  let m ← h.manager.removeServer pserver
  some ⟨m, table⟩

def unregisterServer (h : HashedManager) (server : KsServerDesc) :
    Option (KsResult × HashedManager) :=
  if cString server.name = getServerName then some (.badParam, h)
  else do
    let found ← h.table.query server
    match found with
    | some pserver => (h.removeServer pserver).map fun h => (.ok, h)
    | none => some (.serverUnknown, h)

def trigger (h : HashedManager) (mem : Memory) (now : KsTime) (pevent : ℕ) :
    Option HashedManager := do
  let e ← h.manager.events pevent
  match e.pserver with
  | none => some ⟨h.manager.deleteEvent pevent, h.table⟩
  | some pserver =>
      let s ← h.manager.servers pserver
      if s.living then
        let m ← h.manager.setServer pserver fun s => { s with living := false }
        let m ← m.setEvent pevent fun e => { e with triggerAt := now.after s.timeToLive }
        some ⟨if mem.queue then m.addTimerEvent pevent else m, h.table⟩
      else
        let h ← h.removeServer pserver
        some ⟨h.manager.deleteEvent pevent, h.table⟩

def perform (h : HashedManager) : KsManager.Op → Option HashedManager
  | .register mem now params => (h.registerServer mem now params).map Prod.snd
  | .unregister server => (h.unregisterServer server).map Prod.snd
  | .trigger mem now pevent =>
      if pevent ∈ h.manager.timerQueue then
        ({ h with manager := { h.manager with
            timerQueue := h.manager.timerQueue.erase pevent } } : HashedManager).trigger
          mem now pevent
      else some h

def step (h : Option HashedManager) (op : KsManager.Op) : Option HashedManager :=
  h.bind (·.perform op)

/-- The iterator goes through the table, and the best match so far is kept. -/
def getServer (h : HashedManager) (port : UInt16) (reqdesc : KsServerDesc) :
    Option (Except KsResult KsGetServerResult) :=
  if reqdesc.protocolVersion < 1 then some (.error .badParam)
  else if cString reqdesc.name = getServerName then
    some (.ok {
      server := ⟨getServerName, UInt16.ofNat protocolVersion⟩
      port
      expiresAt := 1000000 * Long.lp64.max
      living := true })
  else do
    let best ← h.table.iterate.foldlM
      (fun best it => h.manager.betterMatch reqdesc best ⟨it.1.key, it.2⟩) (0, none)
    match best.2 with
    | some s => some (.ok {
        server := s.desc
        port := s.port
        expiresAt := s.expiresAt
        living := s.living })
    | none => some (.error .serverUnknown)

/-- The server that is registered under a description, as the table tells. -/
def registered (h : HashedManager) (desc : KsServerDesc) : Option KsmServer :=
  (h.table.query desc).bind fun found => found.bind h.manager.servers

/-- The registered server of that name with the highest version among those not lower than the
requested one. -/
structure Highest (h : HashedManager) (reqdesc : KsServerDesc) (s : KsmServer) : Prop where
  registered : h.registered s.desc = some s
  name : cString s.desc.name = cString reqdesc.name
  version : reqdesc.protocolVersion ≤ s.desc.protocolVersion
  highest : ∀ desc s', h.registered desc = some s' → cString desc.name = cString reqdesc.name →
    desc.protocolVersion ≤ s.desc.protocolVersion ∨
      desc.protocolVersion < reqdesc.protocolVersion

/-- What a request for a server must report. -/
structure Finds (h : HashedManager) (port : UInt16) (reqdesc : KsServerDesc) : Prop where
  found : ∀ result, h.getServer port reqdesc = some (.ok result) ↔
    ∃ s, h.Highest reqdesc s ∧ result = ⟨s.desc, s.port, s.expiresAt, s.living⟩
  unknown : h.getServer port reqdesc = some (.error .serverUnknown) ↔
    ∀ desc s, h.registered desc = some s → cString desc.name = cString reqdesc.name →
      desc.protocolVersion < reqdesc.protocolVersion

/-- The hash table represents the finite map. -/
def InStep (h : HashedManager) : Prop :=
  h.table.Represents fun desc => h.manager.serverTable.lookup desc.key

section InStep
variable {h : HashedManager}

theorem InStep.query (hstep : h.InStep) (desc : KsServerDesc) :
    h.table.query desc = some (h.manager.serverTable.lookup desc.key) := by
  obtain ⟨t', hperform, -⟩ := PltHashTable.Represents.perform hstep (.query desc)
    (fun _ hop => nomatch hop)
  obtain ⟨found, hfound, heq⟩ := Option.map_eq_some_iff.mp hperform
  simp only [PltHashTable.Op.onMap, Prod.mk.injEq, PltHashTable.Result.value.injEq] at heq
  rw [hfound, heq.1]

theorem InStep.add (hstep : h.InStep) {desc : KsServerDesc}
    (hnew : h.manager.serverTable.lookup desc.key = none) (pserver : ℕ) :
    ∃ table, h.table.add desc pserver = some (!h.table.exhausted, table) ∧
      table.Represents fun desc' => (if h.table.exhausted then h.manager.serverTable
        else h.manager.serverTable.insert desc.key pserver).lookup desc'.key := by
  obtain ⟨table, hadd, hrep⟩ := PltHashTable.Represents.add hstep desc pserver
  simp only [hnew, Option.isSome_none, Bool.false_eq_true, false_or, decide_not,
    Bool.decide_eq_true] at hadd hrep
  refine ⟨table, hadd, ?_⟩
  by_cases hex : h.table.exhausted = true
  · rw [if_pos hex] at hrep ⊢
    exact hrep
  · rw [if_neg hex] at hrep ⊢
    convert hrep using 1
    funext desc'
    simp only [lookup_insert_eq, PltHashTable.setKey, desc_beq_iff, eq_comm (a := desc.key)]

theorem InStep.remove (hstep : h.InStep) (desc : KsServerDesc) :
    ∃ found table, h.table.remove desc = some (found, table) ∧
      table.Represents fun desc' => (h.manager.serverTable.erase desc.key).lookup desc'.key := by
  obtain ⟨t', hperform, hrep⟩ := PltHashTable.Represents.perform hstep (.remove desc)
    (fun _ hop => nomatch hop)
  obtain ⟨r, hremove, heq⟩ := Option.map_eq_some_iff.mp hperform
  obtain ⟨-, rfl⟩ := Prod.mk.inj heq
  refine ⟨r.1, r.2, hremove, ?_⟩
  convert hrep using 1
  funext desc'
  simp only [lookup_erase_eq, PltHashTable.Op.onMap, PltHashTable.eraseKey, desc_beq_iff,
    eq_comm (a := desc.key)]

/-- What the manager with the finite map is told about the room in the table. -/
def room (h : HashedManager) (mem : Memory) : Memory :=
  { mem with table := mem.table && !h.table.exhausted }

/-- The room in the table matters to nothing else. -/
theorem addToDomain_room (m : KsManager) (mem : Memory) (desc : KsServerDesc)
    (pserver pevent : ℕ) :
    m.addToDomain (h.room mem) desc pserver pevent = m.addToDomain mem desc pserver pevent := rfl

theorem InStep.registerServer (hstep : h.InStep) {mem : Memory} {now : KsTime}
    {params : KsRegistrationParams} {result : KsResult} {m : KsManager}
    (hreg : h.manager.registerServer (h.room mem) now params = some (result, m)) :
    ∃ table, h.registerServer mem now params = some (result, ⟨m, table⟩) ∧
      InStep ⟨m, table⟩ := by
  rw [KsManager.registerServer] at hreg
  rw [HashedManager.registerServer]
  by_cases hvalid : (!isValidManagerName params.server.name ||
      params.server.protocolVersion < 1) = true
  · rw [if_pos hvalid] at hreg ⊢
    obtain ⟨rfl, rfl⟩ := Prod.mk.inj (Option.some.inj hreg)
    exact ⟨h.table, rfl, hstep⟩
  rw [if_neg hvalid] at hreg ⊢
  by_cases hown : cString params.server.name = getServerName
  · rw [if_pos hown] at hreg ⊢
    obtain ⟨rfl, rfl⟩ := Prod.mk.inj (Option.some.inj hreg)
    exact ⟨h.table, rfl, hstep⟩
  rw [if_neg hown] at hreg ⊢
  simp only [addToDomain_room] at hreg
  dsimp only [room, KsManager.newEvent, KsManager.addTimerEvent, KsManager.newServer] at hreg ⊢
  cases hevent : mem.event with
  | false =>
    simp only [hevent, Bool.not_false, ↓reduceIte, Option.some.injEq, Prod.mk.injEq] at hreg ⊢
    obtain ⟨rfl, rfl⟩ := hreg
    exact ⟨h.table, ⟨rfl, rfl⟩, hstep⟩
  | true =>
  simp only [hevent, Bool.not_true, Bool.false_eq_true, ↓reduceIte] at hreg ⊢
  cases hqueue : mem.queue with
  | false =>
    simp only [hqueue, Bool.not_false, ↓reduceIte, Option.some.injEq, Prod.mk.injEq] at hreg ⊢
    obtain ⟨rfl, rfl⟩ := hreg
    exact ⟨h.table, ⟨rfl, rfl⟩, hstep⟩
  | true =>
  simp only [hqueue, Bool.not_true, Bool.false_eq_true, ↓reduceIte, hstep.query,
    Option.bind_eq_bind, Option.bind_some] at hreg ⊢
  cases hlookup : h.manager.serverTable.lookup params.server.key with
  | some pserver =>
    simp only [hlookup] at hreg ⊢
    rw [hreg]
    refine ⟨h.table, rfl, ?_⟩
    rw [InStep, KsManager.renewServer_table hreg]
    exact hstep
  | none =>
  obtain ⟨table, hadd, hrep⟩ := hstep.add hlookup (h.manager.next + 1)
  simp only [hlookup] at hreg ⊢
  cases hserver : mem.server with
  | false =>
    simp only [hserver, Bool.not_false, ↓reduceIte, Option.some.injEq, Prod.mk.injEq] at hreg ⊢
    obtain ⟨rfl, rfl⟩ := hreg
    exact ⟨h.table, ⟨rfl, rfl⟩, hstep⟩
  | true =>
  simp only [hserver, Bool.not_true, Bool.false_eq_true, ↓reduceIte] at hreg ⊢
  cases htable : mem.table with
  | false =>
    simp only [htable, Bool.false_and, Bool.not_false, ↓reduceIte, Bool.false_eq_true,
      Option.some.injEq, Prod.mk.injEq] at hreg ⊢
    obtain ⟨rfl, rfl⟩ := hreg
    exact ⟨h.table, ⟨rfl, rfl⟩, hstep⟩
  | true =>
  cases hex : h.table.exhausted with
  | true =>
    simp only [hex, htable, Bool.not_true, Bool.and_false, Bool.not_false, ↓reduceIte, hadd,
      Option.bind_some, Option.some.injEq, Prod.mk.injEq] at hreg hrep ⊢
    obtain ⟨rfl, rfl⟩ := hreg
    exact ⟨table, ⟨rfl, rfl⟩, hrep⟩
  | false =>
    simp only [hex, htable, Bool.not_false, Bool.and_self, Bool.not_true, Bool.false_eq_true,
      ↓reduceIte, hadd, Option.bind_some] at hreg hrep ⊢
    rw [hreg]
    refine ⟨table, rfl, ?_⟩
    rw [InStep, KsManager.addToDomain_table hreg]
    exact hrep

theorem InStep.removeServer (hstep : h.InStep) {pserver : ℕ} {m : KsManager}
    (hremove : h.manager.removeServer pserver = some m) :
    ∃ table, h.removeServer pserver = some ⟨m, table⟩ ∧ InStep ⟨m, table⟩ := by
  have hremove' := hremove
  obtain ⟨s, hs, hrest⟩ := Option.bind_eq_some_iff.mp hremove'
  obtain ⟨found, table, htable, hrep⟩ := hstep.remove s.desc
  refine ⟨table, ?_, ?_⟩
  · rw [HashedManager.removeServer, hs, Option.bind_eq_bind, Option.bind_some, htable, hremove]
    rfl
  · obtain ⟨m₁, hinactivate, hrest⟩ := Option.bind_eq_some_iff.mp hrest
    obtain ⟨ps, -, hrest⟩ := Option.bind_eq_some_iff.mp hrest
    have hm : m.serverTable = m₁.serverTable := by
      dsimp only at hrest
      split at hrest
      · obtain rfl := Option.some.inj hrest
        rfl
      · obtain rfl := Option.some.inj hrest
        rfl
    rw [InStep, hm, KsManager.inactivate_table hinactivate]
    exact hrep

theorem InStep.unregisterServer (hstep : h.InStep) {server : KsServerDesc} {result : KsResult}
    {m : KsManager} (hun : h.manager.unregisterServer server = some (result, m)) :
    ∃ table, h.unregisterServer server = some (result, ⟨m, table⟩) ∧ InStep ⟨m, table⟩ := by
  rw [KsManager.unregisterServer] at hun
  rw [HashedManager.unregisterServer, hstep.query]
  by_cases hown : cString server.name = getServerName
  · rw [if_pos hown] at hun ⊢
    obtain ⟨rfl, rfl⟩ := Prod.mk.inj (Option.some.inj hun)
    exact ⟨h.table, rfl, hstep⟩
  rw [if_neg hown] at hun ⊢
  cases hlookup : h.manager.serverTable.lookup server.key with
  | none =>
    rw [hlookup] at hun
    obtain ⟨rfl, rfl⟩ := Prod.mk.inj (Option.some.inj hun)
    exact ⟨h.table, rfl, hstep⟩
  | some pserver =>
    rw [hlookup] at hun
    obtain ⟨m', hremove, heq⟩ := Option.map_eq_some_iff.mp hun
    obtain ⟨rfl, rfl⟩ := Prod.mk.inj heq
    obtain ⟨table, htable, hstep'⟩ := hstep.removeServer hremove
    exact ⟨table, Option.map_eq_some_iff.mpr ⟨_, htable, rfl⟩, hstep'⟩

theorem InStep.trigger (hstep : h.InStep) {mem : Memory} {now : KsTime} {pevent : ℕ}
    {m : KsManager} (htrigger : h.manager.trigger mem now pevent = some m) :
    ∃ table, h.trigger mem now pevent = some ⟨m, table⟩ ∧ InStep ⟨m, table⟩ := by
  obtain ⟨e, he, hrest⟩ := Option.bind_eq_some_iff.mp htrigger
  rw [HashedManager.trigger, he, Option.bind_eq_bind, Option.bind_some]
  cases hpserver : e.pserver with
  | none =>
    rw [hpserver] at hrest
    obtain rfl := Option.some.inj hrest
    exact ⟨h.table, rfl, hstep⟩
  | some pserver =>
    rw [hpserver] at hrest
    obtain ⟨s, hs, hrest⟩ := Option.bind_eq_some_iff.mp hrest
    simp only [hs, Option.bind_eq_bind, Option.bind_some]
    by_cases hliving : s.living = true
    · rw [if_pos hliving] at hrest ⊢
      obtain ⟨m₁, hm₁, hrest⟩ := Option.bind_eq_some_iff.mp hrest
      obtain ⟨m₂, hm₂, hrest⟩ := Option.bind_eq_some_iff.mp hrest
      obtain rfl := Option.some.inj hrest
      rw [hm₁, Option.bind_some, hm₂, Option.bind_some]
      refine ⟨h.table, rfl, ?_⟩
      obtain ⟨s', -, rfl⟩ := Option.map_eq_some_iff.mp hm₁
      obtain ⟨e', -, rfl⟩ := Option.map_eq_some_iff.mp hm₂
      rw [InStep]
      split <;> exact hstep
    · rw [if_neg hliving] at hrest ⊢
      obtain ⟨m₁, hremove, hrest⟩ := Option.bind_eq_some_iff.mp hrest
      obtain rfl := Option.some.inj hrest
      obtain ⟨table, htable, hstep'⟩ := hstep.removeServer hremove
      exact ⟨table, by rw [htable, Option.bind_some], hstep'⟩

/-- What happens to the manager with the finite map; the table may have no room. -/
def told (h : HashedManager) : KsManager.Op → KsManager.Op
  | .register mem now params => .register (h.room mem) now params
  | .unregister server => .unregister server
  | .trigger mem now pevent => .trigger mem now pevent

theorem InStep.perform (hstep : h.InStep) {op : KsManager.Op} {m : KsManager}
    (hperform : h.manager.perform (h.told op) = some m) :
    ∃ table, h.perform op = some ⟨m, table⟩ ∧ InStep ⟨m, table⟩ := by
  cases op with
  | register mem now params =>
    obtain ⟨r, hreg, rfl⟩ := Option.map_eq_some_iff.mp hperform
    obtain ⟨table, htable, hstep'⟩ := hstep.registerServer hreg
    exact ⟨table, by rw [HashedManager.perform, htable, Option.map_some], hstep'⟩
  | unregister server =>
    obtain ⟨r, hun, rfl⟩ := Option.map_eq_some_iff.mp hperform
    obtain ⟨table, htable, hstep'⟩ := hstep.unregisterServer hun
    exact ⟨table, by rw [HashedManager.perform, htable, Option.map_some], hstep'⟩
  | trigger mem now pevent =>
    rw [told, KsManager.perform] at hperform
    rw [HashedManager.perform]
    split at hperform
    · next hmem =>
      rw [if_pos hmem]
      exact InStep.trigger (h := ⟨{ h.manager with
        timerQueue := h.manager.timerQueue.erase pevent }, h.table⟩) hstep hperform
    · next hmem =>
      rw [if_neg hmem]
      obtain rfl := Option.some.inj hperform
      exact ⟨h.table, rfl, hstep⟩

end InStep

/-- The iterator has passed `done`, and `best` is the best match among those. -/
structure BestOf (h : HashedManager) (reqdesc : KsServerDesc) (done : List (KsServerDesc × ℕ))
    (best : UInt16 × Option KsmServer) : Prop where
  bound : ∀ it ∈ done, ∀ s, h.manager.servers it.2 = some s →
    cString s.desc.name = cString reqdesc.name →
      s.desc.protocolVersion ≤ best.1 ∨ s.desc.protocolVersion < reqdesc.protocolVersion
  found : ∀ s, best.2 = some s → (∃ it ∈ done, h.manager.servers it.2 = some s) ∧
    cString s.desc.name = cString reqdesc.name ∧
    reqdesc.protocolVersion ≤ s.desc.protocolVersion ∧ best.1 = s.desc.protocolVersion
  start : best.2 = none → best.1 = 0

section Search
variable {h : HashedManager} {reqdesc : KsServerDesc} {done rest : List (KsServerDesc × ℕ)}
  {best : UInt16 × Option KsmServer}

theorem BestOf.next (hbest : h.BestOf reqdesc done best) {it : KsServerDesc × ℕ} {s : KsmServer}
    (hs : h.manager.servers it.2 = some s) :
    ∃ best', h.manager.betterMatch reqdesc best ⟨it.1.key, it.2⟩ = some best' ∧
      h.BestOf reqdesc (done ++ [it]) best' := by
  have hseen : ∀ s', (∃ it' ∈ done, h.manager.servers it'.2 = some s') →
      ∃ it' ∈ done ++ [it], h.manager.servers it'.2 = some s' :=
    fun s' hs' => hs'.imp fun it' hit' => ⟨List.mem_append_left _ hit'.1, hit'.2⟩
  simp only [KsManager.betterMatch, hs, Option.bind_eq_bind, Option.bind_some]
  split
  · next hbetter =>
    obtain ⟨hversion, hname, hlt⟩ := hbetter
    refine ⟨_, rfl, fun it' hit' s' hs' hname' => ?_, fun s' hs' => ?_, fun hnone => nomatch hnone⟩
    · obtain hit' | hit' := List.mem_append.mp hit'
      · exact (hbest.bound it' hit' s' hs' hname').imp_left fun hle =>
          UInt16.le_of_lt (UInt16.lt_of_le_of_lt hle hlt)
      · obtain rfl := List.mem_singleton.mp hit'
        obtain rfl := Option.some.inj (hs.symm.trans hs')
        exact Or.inl (UInt16.le_refl _)
    · obtain rfl := Option.some.inj hs'
      exact ⟨⟨it, List.mem_append_right _ (List.mem_singleton_self it), hs⟩, hname, hversion, rfl⟩
  · next hworse =>
    refine ⟨_, rfl, fun it' hit' s' hs' hname' => ?_, fun s' hs' => ?_, hbest.start⟩
    · obtain hit' | hit' := List.mem_append.mp hit'
      · exact hbest.bound it' hit' s' hs' hname'
      · obtain rfl := List.mem_singleton.mp hit'
        obtain rfl := Option.some.inj (hs.symm.trans hs')
        by_contra hnot
        push Not at hnot
        exact hworse ⟨UInt16.not_lt.mp hnot.2, hname', UInt16.not_le.mp hnot.1⟩
    · obtain ⟨hold, hrest⟩ := hbest.found s' hs'
      exact ⟨hseen s' hold, hrest⟩

theorem BestOf.all (hbest : h.BestOf reqdesc done best)
    (hall : ∀ it ∈ rest, ∃ s, h.manager.servers it.2 = some s) :
    ∃ best', rest.foldlM (fun best it => h.manager.betterMatch reqdesc best ⟨it.1.key, it.2⟩) best =
      some best' ∧ h.BestOf reqdesc (done ++ rest) best' := by
  induction rest generalizing done best with
  | nil => exact ⟨best, rfl, by rwa [List.append_nil]⟩
  | cons it rest ih =>
    obtain ⟨s, hs⟩ := hall it List.mem_cons_self
    obtain ⟨best', hbetter, hbest'⟩ := hbest.next hs
    obtain ⟨best'', hfold, hbest''⟩ := ih hbest' fun it' hit' =>
      hall it' (List.mem_cons_of_mem it hit')
    refine ⟨best'', ?_, by rwa [List.append_assoc] at hbest''⟩
    rw [List.foldlM_cons, hbetter]
    exact hfold

theorem InStep.registered_iff (hstep : h.InStep) {desc : KsServerDesc} {s : KsmServer} :
    h.registered desc = some s ↔
      ∃ it ∈ h.table.iterate, it.1.key = desc.key ∧ h.manager.servers it.2 = some s := by
  have hiter := hstep.maps.iterates hstep.sound.valid
  simp only [registered, hstep.query, Option.bind_some, Option.bind_eq_some_iff]
  constructor
  · rintro ⟨pserver, hlookup, hs⟩
    obtain ⟨it, hit, hkey, rfl⟩ := (hiter.complete desc pserver).mp hlookup
    exact ⟨it, hit, desc_beq_iff.mp hkey, hs⟩
  · rintro ⟨it, hit, hkey, hs⟩
    exact ⟨it.2, (hiter.complete desc it.2).mpr ⟨it, hit, desc_beq_iff.mpr hkey, rfl⟩, hs⟩

/-- Every association of the table leads to a server, which has the description that is the key. -/
theorem InStep.server_of_iterate (hstep : h.InStep) (hsane : h.manager.Sane)
    {it : KsServerDesc × ℕ} (hit : it ∈ h.table.iterate) :
    ∃ s, h.manager.servers it.2 = some s ∧ s.desc.key = it.1.key := by
  have hiter := hstep.maps.iterates hstep.sound.valid
  obtain ⟨lost, hinv⟩ := hsane
  exact hinv.server_of_entry it.1.key it.2
    ((hiter.complete it.1 it.2).mpr ⟨it, hit, desc_beq_iff.mpr rfl, rfl⟩)

theorem InStep.bound (hstep : h.InStep) (hsane : h.manager.Sane)
    (hbest : h.BestOf reqdesc h.table.iterate best) {desc : KsServerDesc} {s : KsmServer}
    (hdesc : h.registered desc = some s) (hname : cString desc.name = cString reqdesc.name) :
    desc.protocolVersion ≤ best.1 ∨ desc.protocolVersion < reqdesc.protocolVersion := by
  obtain ⟨it, hit, hkey, hs⟩ := hstep.registered_iff.mp hdesc
  obtain ⟨s', hs', hkey'⟩ := hstep.server_of_iterate hsane hit
  obtain rfl := Option.some.inj (hs.symm.trans hs')
  obtain ⟨hname', hversion⟩ := Prod.mk.inj (hkey'.trans hkey)
  rw [← hversion]
  exact hbest.bound it hit s hs (hname'.trans hname)

theorem InStep.highest (hstep : h.InStep) (hsane : h.manager.Sane)
    (hbest : h.BestOf reqdesc h.table.iterate best) {s : KsmServer} (hs : best.2 = some s) :
    h.Highest reqdesc s := by
  obtain ⟨⟨it, hit, hserver⟩, hname, hversion, heq⟩ := hbest.found s hs
  obtain ⟨s', hs', hkey⟩ := hstep.server_of_iterate hsane hit
  obtain rfl := Option.some.inj (hserver.symm.trans hs')
  refine ⟨hstep.registered_iff.mpr ⟨it, hit, hkey.symm, hserver⟩, hname, hversion,
    fun desc s' hdesc hname' => ?_⟩
  rw [← heq]
  exact hstep.bound hsane hbest hdesc hname'

/-- There is at most one highest version. -/
theorem InStep.highest_unique (hstep : h.InStep) {s s' : KsmServer} (hs : h.Highest reqdesc s)
    (hs' : h.Highest reqdesc s') : s = s' := by
  have hle := (hs.highest s'.desc s' hs'.registered hs'.name).resolve_right
    (UInt16.not_lt.mpr hs'.version)
  have hge := (hs'.highest s.desc s hs.registered hs.name).resolve_right
    (UInt16.not_lt.mpr hs.version)
  have hkey : s.desc.key = s'.desc.key :=
    Prod.ext (hs.name.trans hs'.name.symm) (UInt16.le_antisymm hge hle)
  have hsame : h.registered s.desc = some s' := by
    rw [hstep.registered_iff, hkey]
    exact hstep.registered_iff.mp hs'.registered
  exact Option.some.inj (hs.registered.symm.trans hsame)

theorem InStep.finds (hstep : h.InStep) (hsane : h.manager.Sane) (port : UInt16)
    (hversion : 1 ≤ reqdesc.protocolVersion) (hname : cString reqdesc.name ≠ getServerName) :
    h.Finds port reqdesc := by
  have hstart : h.BestOf reqdesc [] (0, none) :=
    ⟨fun _ hit => (nomatch hit), fun _ hs => (nomatch hs), fun _ => rfl⟩
  have hservers : ∀ it ∈ h.table.iterate, ∃ s, h.manager.servers it.2 = some s :=
    fun it hit => (hstep.server_of_iterate hsane hit).imp fun _ hs => hs.1
  obtain ⟨best, hfold, hbest⟩ := hstart.all hservers
  rw [List.nil_append] at hbest
  cases hfound : best.2 with
  | some s =>
    have hget : h.getServer port reqdesc =
        some (.ok ⟨s.desc, s.port, s.expiresAt, s.living⟩) := by
      simp only [getServer, if_neg (UInt16.not_lt.mpr hversion), if_neg hname, hfold,
        Option.bind_eq_bind, Option.bind_some, hfound]
    have hhighest := hstep.highest hsane hbest hfound
    refine ⟨fun result => ?_, ?_⟩
    · rw [hget]
      constructor
      · intro heq
        exact ⟨s, hhighest, (Except.ok.inj (Option.some.inj heq)).symm⟩
      · rintro ⟨s', hs', rfl⟩
        rw [hstep.highest_unique hhighest hs']
    · rw [hget]
      refine ⟨fun heq => (nomatch heq), fun hnone => ?_⟩
      exact absurd (hnone s.desc s hhighest.registered hhighest.name)
        (UInt16.not_lt.mpr hhighest.version)
  | none =>
    have hget : h.getServer port reqdesc = some (.error .serverUnknown) := by
      simp only [getServer, if_neg (UInt16.not_lt.mpr hversion), if_neg hname, hfold,
        Option.bind_eq_bind, Option.bind_some, hfound]
    have hall : ∀ desc s, h.registered desc = some s →
        cString desc.name = cString reqdesc.name →
          desc.protocolVersion < reqdesc.protocolVersion := by
      intro desc s hdesc hname'
      obtain hle | hlt := hstep.bound hsane hbest hdesc hname'
      · rw [hbest.start hfound] at hle
        exact UInt16.lt_of_lt_of_le (UInt16.lt_of_le_of_lt hle (by decide)) hversion
      · exact hlt
    refine ⟨fun result => ?_, ?_⟩
    · rw [hget]
      refine ⟨fun heq => (nomatch heq), ?_⟩
      rintro ⟨s, hs, -⟩
      exact absurd (hall s.desc s hs.registered hs.name) (UInt16.not_lt.mpr hs.version)
    · rw [hget]
      exact ⟨fun _ => hall, fun _ => rfl⟩

end Search

/-- Registrations that have got their place in the table are completed as long as the table may
have no room. -/
theorem completes_told {h : HashedManager} {op : KsManager.Op} (hop : op.Completes h.manager) :
    (h.told op).Completes h.manager := by
  cases op with
  | register mem now params =>
    intro haccepts hlookup hevent hqueue hserver htable
    exact hop haccepts hlookup hevent hqueue hserver (Bool.and_eq_true_iff.mp htable).1
  | unregister server => exact hop
  | trigger mem now pevent => exact hop

/-- The manager and its table after a run. -/
theorem inStep_of_along {ops : List KsManager.Op}
    (hops : Along step (fun s op => ∀ h ∈ s, op.Completes h.manager) create ops) :
    ∃ h, run step create ops = some h ∧ h.InStep ∧ h.manager.Sane := by
  have hstep : ∀ (s : Option HashedManager) (op : KsManager.Op),
      (∃ h, s = some h ∧ h.InStep ∧ h.manager.Sane) → (∀ h ∈ s, op.Completes h.manager) →
        ∃ h, step s op = some h ∧ h.InStep ∧ h.manager.Sane := by
    rintro s op ⟨h, rfl, hin, hsane⟩ hop
    obtain ⟨m, hperform, hsane'⟩ := hsane.perform (completes_told (hop h rfl))
    obtain ⟨table, htable, hin'⟩ := hin.perform hperform
    exact ⟨⟨m, table⟩, by rw [step, Option.bind_some, htable], hin', hsane'⟩
  refine run_invariant (I := fun s => ∃ h, s = some h ∧ h.InStep ∧ h.manager.Sane) hstep ?_ hops
  obtain ⟨table, hcreate, hsound, -⟩ := PltHashTable.create_spec (K := KsServerDesc) (V := ℕ) 11
    (show (0 : ℚ) < 4 / 10 by norm_num) (show (4 / 10 : ℚ) < 8 / 10 by norm_num) (by norm_num)
  obtain ⟨hsound, hentries, -, hmedwater⟩ := hsound (by norm_num)
  refine ⟨⟨.create, table⟩, by rw [create, hcreate, Option.map_some], ⟨hsound, ?_, ?_⟩,
    KsManager.create_sane⟩
  · rw [hmedwater]
    norm_num
  · intro desc pserver
    simp [hentries, KsManager.create]

end HashedManager

/-- In every run in which each registration that gets its place in the table is completed, the
manager finds the highest version that is not lower than the requested one, if there is one. -/
theorem getServer_finds {ops : List KsManager.Op}
    (hops : Along HashedManager.step (fun s op => ∀ h ∈ s, op.Completes h.manager)
      HashedManager.create ops) :
    ∃ h, run HashedManager.step HashedManager.create ops = some h ∧ ∀ port reqdesc,
      1 ≤ reqdesc.protocolVersion → cString reqdesc.name ≠ getServerName →
        h.Finds port reqdesc := by
  obtain ⟨h, hrun, hstep, hsane⟩ := HashedManager.inStep_of_along hops
  exact ⟨h, hrun, fun port _ hversion hname => hstep.finds hsane port hversion hname⟩

/-- Two versions of a server are registered, and one of them expires. -/
theorem getServer_finds_twoVersions :
    ∃ h, run HashedManager.step HashedManager.create
      [.register {} 0 ⟨⟨[65], 1⟩, 7, 20⟩, .register {} 1 ⟨⟨[65], 2⟩, 8, 20⟩,
        .trigger {} 20 0, .unregister ⟨[65], 2⟩] = some h ∧ ∀ port reqdesc,
      1 ≤ reqdesc.protocolVersion → cString reqdesc.name ≠ getServerName →
        h.Finds port reqdesc := by
  refine getServer_finds ⟨?_, ?_, fun _ _ => trivial, fun _ _ => trivial, trivial⟩
  · rintro h - - - - - - -
    exact ⟨fun _ => ⟨rfl, rfl, rfl⟩, rfl, rfl⟩
  · rintro h - - - - - - -
    exact ⟨fun _ => ⟨rfl, rfl, rfl⟩, rfl, rfl⟩

/-- A server that did not get into its domain has been destroyed, but the table still leads to it,
and the search does not get past it. -/
theorem not_finds_destroyed :
    ∃ h, run HashedManager.step HashedManager.create
      [.register { serverChild := false } 0 ⟨⟨[65], 1⟩, 7, 20⟩,
        .register {} 0 ⟨⟨[65], 65535⟩, 8, 20⟩] = some h ∧ ¬ h.Finds 9 ⟨[65], 65535⟩ := by
  have hlost : (run HashedManager.step HashedManager.create
      [.register { serverChild := false } 0 ⟨⟨[65], 1⟩, 7, 20⟩,
        .register {} 0 ⟨⟨[65], 65535⟩, 8, 20⟩]).map (fun h =>
        ((h.getServer 9 ⟨[65], 65535⟩).isNone,
          (h.registered ⟨[65], 65535⟩).map fun s => (s.desc.name, s.desc.protocolVersion))) =
      some (true, some ([65], 65535)) := by decide +kernel
  obtain ⟨h, hrun, heq⟩ := Option.map_eq_some_iff.mp hlost
  obtain ⟨hnone, hregistered⟩ := Prod.mk.inj heq
  obtain ⟨s, hs, hkey⟩ := Option.map_eq_some_iff.mp hregistered
  obtain ⟨hname, hversion⟩ := Prod.mk.inj hkey
  have hdesc : s.desc = ⟨[65], 65535⟩ := by
    rw [← hname, ← hversion]
  have hhighest : h.Highest ⟨[65], 65535⟩ s := by
    refine ⟨hdesc ▸ hs, hdesc ▸ rfl, hversion ▸ UInt16.le_refl _, fun desc s' _ _ => Or.inl ?_⟩
    rw [hversion, UInt16.le_iff_toNat_le]
    exact Nat.le_of_lt_succ desc.protocolVersion.toNat_lt
  refine ⟨h, hrun, fun hfinds => ?_⟩
  rw [(hfinds.found _).mpr ⟨s, hhighest, rfl⟩] at hnone
  exact Bool.false_ne_true hnone

end AcpltKs
