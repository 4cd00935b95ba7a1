import Mathlib.Algebra.Order.Group.Int
import AcpltKs.Manager.Registration

/-! A server registers again and again with the manager. It never loses its registration exactly
when it registers for more than ten seconds. -/
namespace AcpltKs
open Function GuardedRun

/-- Seconds. -/
def MIN_TTL : ℕ := 10

/-- The seconds from one registration to the next. -/
def reregisterPeriod (ttl : ℕ) : ℕ := max (ttl / 4 * 3) MIN_TTL

theorem reregisterPeriod_lt_iff {ttl : ℕ} : reregisterPeriod ttl < ttl ↔ 10 < ttl := by
  rw [reregisterPeriod, MIN_TTL]
  omega

theorem KsTime.le_after (now : KsTime) (secs : ℕ) : now ≤ now.after secs := by
  have h : (0 : ℤ) ≤ 1000000 * secs := by omega
  exact Int.le_add_of_nonneg_right h

theorem KsTime.after_le_after (now : KsTime) {secs secs' : ℕ} (h : secs ≤ secs') :
    now.after secs ≤ now.after secs' := by
  have h' : (1000000 * secs : ℤ) ≤ 1000000 * secs' := by omega
  exact Int.add_le_add_left h' now

theorem KsTime.after_lt_after (now : KsTime) {secs secs' : ℕ} (h : secs < secs') :
    now.after secs < now.after secs' := by
  have h' : (1000000 * secs : ℤ) < 1000000 * secs' := by omega
  exact Int.add_lt_add_left h' now

theorem KsTime.zero_add (secs : ℕ) :
    (0 : KsTime) + ((1000000 * secs : ℕ) : ℤ) = KsTime.after 0 secs := by
  rw [KsTime.after, Int.natCast_mul]
  rfl

/-- A host with the manager and a server that registers with it. -/
structure Site where
  now : KsTime
  manager : KsManager
  reregisterAt : KsTime
  registered : Bool

/-- What happens on the host: time goes by, the event of the server or one of the manager triggers,
or the manager gets a request from another server. -/
inductive Happening where
  | wait (microseconds : ℕ)
  | reregister
  | expire (pevent : ℕ)
  | register (params : KsRegistrationParams)
  | unregister (server : KsServerDesc)

namespace Site

/-- Before the server has registered for the first time. -/
def start (now : KsTime) (delay : ℕ) : Site where
  now := now
  manager := .create
  reregisterAt := now + delay
  registered := false

/-- One happening. The server with these parameters tries to register again after a while. -/
def next (params : KsRegistrationParams) (w : Site) : Happening → Option Site
  | .wait microseconds => some { w with now := w.now + microseconds }
  | .reregister => do
      let (result, manager) ← w.manager.registerServer {} w.now params
      if result = .ok then
        some { w with
          manager
          reregisterAt := w.now.after (reregisterPeriod params.timeToLive)
          registered := true }
      else some { w with manager, reregisterAt := w.now.after MIN_TTL }
  | .expire pevent => do
      let manager ← w.manager.perform (.trigger {} w.now pevent)
      some { w with manager }
  | .register other => do
      let manager ← w.manager.perform (.register {} w.now other)
      some { w with manager }
  | .unregister other => do
      let manager ← w.manager.perform (.unregister other)
      some { w with manager }

def step (params : KsRegistrationParams) (w : Option Site) (h : Happening) : Option Site :=
  w.bind (·.next params h)

/-- Events trigger at their trigger times, and nobody else registers or unregisters the server. -/
def Timely (params : KsRegistrationParams) (w : Site) : Happening → Prop
  | .wait microseconds => w.now + microseconds ≤ w.reregisterAt ∧
      ∀ pevent ∈ w.manager.timerQueue, ∀ e ∈ w.manager.events pevent,
        w.now + microseconds ≤ e.triggerAt
  | .reregister => w.now = w.reregisterAt
  | .expire pevent => pevent ∈ w.manager.timerQueue ∧
      ∀ e ∈ w.manager.events pevent, w.now = e.triggerAt
  | .register other => w.registered = true → other.server.key ≠ params.server.key
  | .unregister other => w.registered = true → other.key ≠ params.server.key

/-- There is no server of this name with a higher version. -/
def Highest (m : KsManager) (server : KsServerDesc) : Prop :=
  ∀ version pserver, m.serverTable.lookup (cString server.name, version) = some pserver →
    version ≤ server.protocolVersion

/-- The manager reports the server as a living one. -/
def Reports (m : KsManager) (params : KsRegistrationParams) : Prop :=
  ∀ port, ∃ result, m.getServer port params.server = some (.ok result) ∧
    result.server.key = params.server.key ∧ result.port = params.port ∧ result.living = true

end Site

/-- At every moment after the first registration, the manager reports the server. -/
def KeepsRegistered (params : KsRegistrationParams) : Prop :=
  ∀ now delay happenings,
    Along (Site.step params) (fun w h => ∀ s ∈ w, s.Timely params h) (some (.start now delay))
      happenings →
    ∃ w, run (Site.step params) (some (.start now delay)) happenings = some w ∧
      (w.registered = true → Site.Highest w.manager params.server → Site.Reports w.manager params)

namespace KsManager
variable {m : KsManager}

/-- A server is in the table, and its event triggers after `t`. -/
def LivesPast (m : KsManager) (params : KsRegistrationParams) (t : KsTime) : Prop :=
  ∃ pserver s pevent e, m.serverTable.lookup params.server.key = some pserver ∧
    m.servers pserver = some s ∧ s.port = params.port ∧ s.living = true ∧
    s.pevent = some pevent ∧ m.events pevent = some e ∧ t < e.triggerAt

section Search
variable {s : KsmServer} {reqdesc : KsServerDesc} {own : (_ : KsString × UInt16) × ℕ}

/-- Every entry has its server, and none of the name has a higher version than `s`. -/
structure Competitor (m : KsManager) (s : KsmServer) (own entry : (_ : KsString × UInt16) × ℕ)
    (s' : KsmServer) : Prop where
  server : m.servers entry.2 = some s'
  le : cString s'.desc.name = cString s.desc.name → s'.desc.protocolVersion ≤ s.desc.protocolVersion
  eq_own : s'.desc.key = s.desc.key → entry = own

theorem betterMatch_own (hs : m.servers own.2 = some s)
    (hname : cString s.desc.name = cString reqdesc.name)
    (hversion : reqdesc.protocolVersion ≤ s.desc.protocolVersion)
    {best : UInt16 × Option KsmServer} (hbest : best.1 < s.desc.protocolVersion) :
    m.betterMatch reqdesc best own = some (s.desc.protocolVersion, some s) := by
  rw [betterMatch, hs]
  exact if_pos ⟨hversion, hname, hbest⟩

/-- Once the highest version has been found, the search keeps it. -/
theorem betterMatch_found {entry : (_ : KsString × UInt16) × ℕ} {s' : KsmServer}
    (hentry : m.Competitor s own entry s') (hname : cString s.desc.name = cString reqdesc.name) :
    m.betterMatch reqdesc (s.desc.protocolVersion, some s) entry =
      some (s.desc.protocolVersion, some s) := by
  rw [betterMatch, hentry.server]
  refine if_neg fun h => ?_
  exact absurd (hentry.le (h.2.1.trans hname.symm)) (UInt16.not_le.mpr h.2.2)

/-- Until the highest version has been found, the best one so far is a lower one. -/
theorem betterMatch_other {entry : (_ : KsString × UInt16) × ℕ} {s' : KsmServer}
    (hentry : m.Competitor s own entry s') (hname : cString s.desc.name = cString reqdesc.name)
    (hne : entry ≠ own) {best : UInt16 × Option KsmServer}
    (hbest : best.1 < s.desc.protocolVersion) :
    ∃ best', m.betterMatch reqdesc best entry = some best' ∧ best'.1 < s.desc.protocolVersion := by
  rw [betterMatch, hentry.server]
  by_cases hmatch : s'.desc.protocolVersion ≥ reqdesc.protocolVersion ∧
      cString s'.desc.name = cString reqdesc.name ∧ best.1 < s'.desc.protocolVersion
  · refine ⟨_, if_pos hmatch,
      UInt16.lt_of_le_of_ne (hentry.le (hmatch.2.1.trans hname.symm)) fun h => ?_⟩
    exact hne (hentry.eq_own (Prod.ext (hmatch.2.1.trans hname.symm) h))
  · exact ⟨best, if_neg hmatch, hbest⟩

theorem foldlM_found {entries : List ((_ : KsString × UInt16) × ℕ)}
    (hentries : ∀ entry ∈ entries, ∃ s', m.Competitor s own entry s')
    (hname : cString s.desc.name = cString reqdesc.name) :
    entries.foldlM (m.betterMatch reqdesc) (s.desc.protocolVersion, some s) =
      some (s.desc.protocolVersion, some s) := by
  induction entries with
  | nil => rfl
  | cons entry entries ih =>
    obtain ⟨s', hs'⟩ := hentries entry List.mem_cons_self
    rw [List.foldlM_cons, betterMatch_found hs' hname, Option.bind_eq_bind, Option.bind_some]
    exact ih fun x hx => hentries x (List.mem_cons_of_mem entry hx)

/-- The search finds the highest version. -/
theorem foldlM_own {entries : List ((_ : KsString × UInt16) × ℕ)} (hown : own ∈ entries)
    (hs : m.servers own.2 = some s)
    (hentries : ∀ entry ∈ entries, ∃ s', m.Competitor s own entry s')
    (hname : cString s.desc.name = cString reqdesc.name)
    (hversion : reqdesc.protocolVersion ≤ s.desc.protocolVersion)
    {best : UInt16 × Option KsmServer} (hbest : best.1 < s.desc.protocolVersion) :
    entries.foldlM (m.betterMatch reqdesc) best = some (s.desc.protocolVersion, some s) := by
  induction entries generalizing best with
  | nil => exact absurd hown List.not_mem_nil
  | cons entry entries ih =>
    have hrest : ∀ x ∈ entries, ∃ s', m.Competitor s own x s' :=
      fun x hx => hentries x (List.mem_cons_of_mem entry hx)
    by_cases heq : entry = own
    · subst heq
      rw [List.foldlM_cons, betterMatch_own hs hname hversion hbest, Option.bind_eq_bind,
        Option.bind_some]
      exact foldlM_found hrest hname
    · obtain ⟨s', hs'⟩ := hentries entry List.mem_cons_self
      obtain ⟨best', hstep, hbest'⟩ := betterMatch_other hs' hname heq hbest
      rw [List.foldlM_cons, hstep, Option.bind_eq_bind, Option.bind_some]
      exact ih ((List.mem_cons.mp hown).resolve_left (Ne.symm heq)) hrest hbest'

end Search

/-- A registered server with the highest version is reported. -/
theorem Invariant.reports (h : m.Invariant) {params : KsRegistrationParams} {t : KsTime}
    (hlives : m.LivesPast params t) (haccepts : Accepts params)
    (hhighest : Site.Highest m params.server) : Site.Reports m params := by
  obtain ⟨r, s, p, e, hlookup, hs, hport, hliving, -⟩ := hlives
  intro port
  have hkey : s.desc.key = params.server.key := by
    obtain ⟨s', hs', hkey⟩ := h.server_of_entry _ r hlookup
    rwa [Option.some.inj (hs.symm.trans hs')]
  have hname : cString s.desc.name = cString params.server.name := congrArg Prod.fst hkey
  have hversion : s.desc.protocolVersion = params.server.protocolVersion := congrArg Prod.snd hkey
  have hsearch : m.serverTable.entries.foldlM (m.betterMatch params.server) (0, none) =
      some (s.desc.protocolVersion, some s) := by
    have hown : (⟨params.server.key, r⟩ : (_ : KsString × UInt16) × ℕ) ∈ m.serverTable.entries :=
      AList.mem_lookup_iff.mp (Option.mem_def.mpr hlookup)
    refine foldlM_own hown hs ?_ hname (hversion ▸ UInt16.le_refl _) ?_
    · rintro ⟨key, r'⟩ hentry
      have hlookup' : m.serverTable.lookup key = some r' := AList.mem_lookup_iff.mpr hentry
      obtain ⟨s', hs', rfl⟩ := h.server_of_entry key r' hlookup'
      refine ⟨s', hs', fun hname' => ?_, fun hkey' => ?_⟩
      · rw [hversion]
        refine hhighest s'.desc.protocolVersion r' ?_
        rw [← hname, ← hname']
        exact hlookup'
      · rw [hkey', hkey, hlookup, Option.some.injEq] at hlookup'
        rw [hkey', hkey, hlookup']
    · rw [hversion]
      have := haccepts.2.1
      rw [UInt16.lt_iff_toNat_lt] at this ⊢
      simp only [UInt16.reduceToNat] at this ⊢
      omega
  refine ⟨⟨s.desc, s.port, s.expiresAt, s.living⟩, ?_, hkey, hport, hliving⟩
  rw [getServer, if_neg haccepts.2.1, if_neg haccepts.2.2, hsearch, Option.bind_eq_bind,
    Option.bind_some]

/-- Different servers have different events. -/
theorem Invariant.eq_of_event (h : m.Invariant) {pserver pserver' pevent : ℕ} {s s' : KsmServer}
    (hs : m.servers pserver = some s) (hs' : m.servers pserver' = some s')
    (hp : s.pevent = some pevent) (hp' : s'.pevent = some pevent) : pserver = pserver' := by
  have htick := (h.linked.ticket_of_owner pserver pevent
    (by rw [owner, hs, Option.bind_some, hp])).1
  rw [(h.linked.ticket_of_owner pserver' pevent (by rw [owner, hs', Option.bind_some, hp'])).1]
    at htick
  exact (Option.some.inj (Option.some.inj htick)).symm

section Frames
variable {params : KsRegistrationParams} {t : KsTime}

/-- What keeps entry, server and event of a server keeps it living. -/
theorem LivesPast.frame (hlives : m.LivesPast params t) {m' : KsManager}
    (hkeep : ∀ r s p e, m.serverTable.lookup params.server.key = some r → m.servers r = some s →
      s.pevent = some p → m.events p = some e → t < e.triggerAt →
      m'.serverTable.lookup params.server.key = some r ∧ m'.servers r = some s ∧
        m'.events p = some e) : m'.LivesPast params t := by
  obtain ⟨r, s, p, e, hlookup, hs, hport, hliving, hp, he, ht⟩ := hlives
  obtain ⟨hlookup', hs', he'⟩ := hkeep r s p e hlookup hs hp he ht
  exact ⟨r, s, p, e, hlookup', hs', hport, hliving, hp, he', ht⟩

/-- The registration of another server. -/
theorem LivesPast.register (hlives : m.LivesPast params t) (h : m.Invariant) (now : KsTime)
    {other : KsRegistrationParams} (hne : other.server.key ≠ params.server.key) :
    ∃ m', m.perform (.register {} now other) = some m' ∧ m'.LivesPast params t := by
  obtain ⟨-, hreg⟩ | ⟨-, ⟨r', p', s', e', hlookup', hs', hp', he', hreg⟩ | ⟨-, hreg⟩⟩ :=
    registerServer_cases h now other
  · exact ⟨m, by rw [perform, hreg]; rfl, hlives⟩
  · refine ⟨_, by rw [perform, hreg]; rfl, hlives.frame fun r s p e hlookup hs hp he _ => ?_⟩
    have hr : r ≠ r' := by
      rintro rfl
      obtain ⟨x, hx, hkey⟩ := h.server_of_entry _ r hlookup
      obtain ⟨y, hy, hkey'⟩ := h.server_of_entry _ r hlookup'
      obtain rfl := Option.some.inj (hx.symm.trans hy)
      exact hne (hkey'.symm.trans hkey)
    have hp : p ≠ p' := by
      rintro rfl
      exact hr (h.eq_of_event hs hs' hp hp')
    have hnext : p ≠ m.next := Nat.ne_of_lt (h.event_lt p e he)
    exact ⟨hlookup, (update_of_ne hr ..).trans hs,
      (update_of_ne hnext ..).trans ((update_of_ne hp ..).trans he)⟩
  · refine ⟨_, by rw [perform, hreg]; rfl, hlives.frame fun r s p e hlookup hs hp he _ => ?_⟩
    have hr : r ≠ m.next + 1 := by
      have := h.server_lt r s hs
      omega
    have hnext : p ≠ m.next := Nat.ne_of_lt (h.event_lt p e he)
    exact ⟨(AList.lookup_insert_ne hne.symm).trans hlookup, (update_of_ne hr ..).trans hs,
      (update_of_ne hnext ..).trans he⟩

/-- Removing another server. -/
theorem LivesPast.removed (hlives : m.LivesPast params t) (h : m.Invariant) {r' p' : ℕ}
    {s' : KsmServer} {e' : KsmExpireServerEvent} (hs' : m.servers r' = some s')
    (hp' : s'.pevent = some p') (hne : s'.desc.key ≠ params.server.key)
    (tree : AList fun _ : KsString => VersionDomain) :
    (m.removed r' p' s' e' tree).LivesPast params t := by
  refine hlives.frame fun r s p e hlookup hs hp he _ => ?_
  have hr : r ≠ r' := by
    rintro rfl
    obtain ⟨x, hx, hkey⟩ := h.server_of_entry _ r hlookup
    obtain rfl := Option.some.inj (hx.symm.trans hs')
    exact hne hkey
  have hp : p ≠ p' := by
    rintro rfl
    exact hr (h.eq_of_event hs hs' hp hp')
  exact ⟨(AList.lookup_erase_ne hne.symm).trans hlookup, (update_of_ne hr ..).trans hs,
    (update_of_ne hp ..).trans he⟩

theorem LivesPast.unregister (hlives : m.LivesPast params t) (h : m.Invariant)
    {other : KsServerDesc} (hne : other.key ≠ params.server.key) :
    ∃ m', m.perform (.unregister other) = some m' ∧ m'.LivesPast params t := by
  obtain ⟨result, hun⟩ | ⟨r', p', s', e', tree, hlookup', hs', hp', he', hun, -⟩ :=
    unregisterServer_cases h other
  · exact ⟨m, by rw [perform, hun]; rfl, hlives⟩
  · refine ⟨_, by rw [perform, hun]; rfl, hlives.removed h hs' hp' ?_ tree⟩
    obtain ⟨x, hx, hkey⟩ := h.server_of_entry _ r' hlookup'
    obtain rfl := Option.some.inj (hx.symm.trans hs')
    rwa [hkey]

/-- The trigger of another event. -/
theorem LivesPast.discarded (hlives : m.LivesPast params t) {p' : ℕ}
    (hearly : ∀ e ∈ m.events p', e.triggerAt ≤ t) : (m.discarded p').LivesPast params t := by
  refine hlives.frame fun r s p e hlookup hs hp he ht => ⟨hlookup, hs, ?_⟩
  have hp : p ≠ p' := by
    rintro rfl
    exact absurd ht (Int.not_lt.mpr (hearly e he))
  exact (update_of_ne hp ..).trans he

theorem LivesPast.trigger (hlives : m.LivesPast params t) (h : m.Invariant) (now : KsTime)
    {p' : ℕ} (hmem : p' ∈ m.timerQueue) (hearly : ∀ e ∈ m.events p', e.triggerAt ≤ t) :
    ∃ m', m.perform (.trigger {} now p') = some m' ∧ m'.LivesPast params t := by
  obtain ⟨e', he', ⟨-, htrigger⟩ | ⟨r', s', hr', hs', hp', hcases⟩⟩ := trigger_cases h now hmem
  · exact ⟨_, htrigger, hlives.discarded hearly⟩
  obtain ⟨-, htrigger⟩ | ⟨tree, -, htrigger⟩ := hcases
  · refine ⟨_, htrigger, hlives.frame fun r s p e hlookup hs hp he ht => ?_⟩
    have hpne : p ≠ p' := by
      rintro rfl
      exact absurd ht (Int.not_lt.mpr (hearly e he))
    have hr : r ≠ r' := by
      rintro rfl
      obtain rfl := Option.some.inj (hs.symm.trans hs')
      exact hpne (Option.some.inj (hp.symm.trans hp'))
    exact ⟨hlookup, (update_of_ne hr ..).trans hs, (update_of_ne hpne ..).trans he⟩
  · refine ⟨_, htrigger, (hlives.removed h hs' hp' ?_ tree).discarded ?_⟩
    · obtain ⟨r, s, p, e, hlookup, hs, -, -, hp, he, ht⟩ := hlives
      intro hkey
      have hentry := (h.entry_of_server r' s' hs').1
      rw [hkey, hlookup, Option.some.injEq] at hentry
      obtain rfl := hentry
      obtain rfl := Option.some.inj (hs.symm.trans hs')
      obtain rfl := Option.some.inj (hp.symm.trans hp')
      exact absurd ht (Int.not_lt.mpr (hearly e he))
    · intro e he
      obtain ⟨-, he⟩ | ⟨hne, -⟩ := update_eq_some.mp he
      · obtain rfl := Option.some.inj he
        exact hearly e' he'
      · exact absurd rfl hne

end Frames

/-- A server that registers lives until its time is over. -/
theorem Invariant.registers (h : m.Invariant) {params : KsRegistrationParams}
    (haccepts : Accepts params) {now t : KsTime} (ht : t < now.after params.timeToLive) :
    ∃ m', m.registerServer {} now params = some (.ok, m') ∧ m'.Invariant ∧
      m'.LivesPast params t := by
  obtain ⟨hnot, -⟩ | ⟨-, ⟨r, p, s, e, hlookup, hs, hp, he, hreg⟩ | ⟨hnew, hreg⟩⟩ :=
    registerServer_cases h now params
  · exact absurd haccepts hnot
  · exact ⟨_, hreg, h.renewed hs hp he .., r, _, m.next, _, hlookup, update_self .., rfl, rfl, rfl,
      update_self .., ht⟩
  · exact ⟨_, hreg, h.registered hnew haccepts.2.2 _, m.next + 1, _, m.next, _,
      AList.lookup_insert _, update_self .., rfl, rfl, rfl, update_self .., ht⟩

end KsManager

namespace Site
open KsManager
variable {params : KsRegistrationParams} {w : Site}

/-- The server registers again before its event triggers. -/
structure Invariant (params : KsRegistrationParams) (w : Site) : Prop where
  manager : w.manager.Invariant
  le : w.now ≤ w.reregisterAt
  accepts : w.registered = true → Accepts params
  lives : w.registered = true → w.manager.LivesPast params w.reregisterAt

theorem start_invariant (now : KsTime) (delay : ℕ) : (start now delay).Invariant params := by
  refine ⟨create_invariant, ?_, fun h => absurd h (by simp [start]),
    fun h => absurd h (by simp [start])⟩
  exact Int.le_add_of_nonneg_right (Int.natCast_nonneg delay)

/-- Requests of others and triggers of events leave the server alone. -/
theorem Invariant.other (h : w.Invariant params) {op : KsManager.Op} (hop : op.Allocates)
    (hlives : ∀ t, w.registered = true → t ≥ w.now → w.manager.LivesPast params t →
      ∃ m', w.manager.perform op = some m' ∧ m'.LivesPast params t) :
    ∃ m', w.manager.perform op = some m' ∧ ({ w with manager := m' } : Site).Invariant params := by
  obtain ⟨m', hperform, hinv⟩ := h.manager.perform hop
  refine ⟨m', hperform, hinv, h.le, h.accepts, fun hreg => ?_⟩
  obtain ⟨m'', hperform', hlives'⟩ := hlives w.reregisterAt hreg h.le (h.lives hreg)
  rwa [Option.some.inj (hperform.symm.trans hperform')]

theorem Invariant.next (h : w.Invariant params)
    (hlong : Accepts params → 10 < params.timeToLive) {happening : Happening}
    (htimely : w.Timely params happening) :
    ∃ w', w.next params happening = some w' ∧ w'.Invariant params := by
  cases happening with
  | wait microseconds => exact ⟨_, rfl, h.manager, htimely.1, h.accepts, h.lives⟩
  | reregister =>
    by_cases haccepts : Accepts params
    · obtain ⟨m', hreg, hinv, hlives⟩ := h.manager.registers haccepts
        (t := w.now.after (reregisterPeriod params.timeToLive))
        (w.now.after_lt_after (reregisterPeriod_lt_iff.mpr (hlong haccepts)))
      refine ⟨{ w with
        manager := m'
        reregisterAt := w.now.after (reregisterPeriod params.timeToLive)
        registered := true }, ?_, hinv, w.now.le_after _, fun _ => haccepts, fun _ => hlives⟩
      simp only [Site.next, hreg, Option.bind_eq_bind, Option.bind_some, ↓reduceIte]
    · obtain ⟨-, hreg⟩ | ⟨hacc, -⟩ := registerServer_cases h.manager w.now params
      · refine ⟨{ w with reregisterAt := w.now.after MIN_TTL }, ?_, h.manager,
          w.now.le_after _, h.accepts,
          fun hregistered => absurd (h.accepts hregistered) haccepts⟩
        simp only [Site.next, hreg, Option.bind_eq_bind, Option.bind_some, reduceCtorEq,
          ↓reduceIte]
      · exact absurd hacc haccepts
  | expire pevent =>
    have hop : KsManager.Op.Allocates (.trigger {} w.now pevent) := rfl
    obtain ⟨m', hperform, hinv⟩ := h.other hop
      fun t _ ht hlives => hlives.trigger h.manager w.now htimely.1
        fun e he => (htimely.2 e he) ▸ ht
    exact ⟨_, by simp only [Site.next, hperform, Option.bind_eq_bind, Option.bind_some], hinv⟩
  | register other =>
    have hop : KsManager.Op.Allocates (.register {} w.now other) := rfl
    obtain ⟨m', hperform, hinv⟩ := h.other hop
      fun t hreg _ hlives => hlives.register h.manager w.now (htimely hreg)
    exact ⟨_, by simp only [Site.next, hperform, Option.bind_eq_bind, Option.bind_some], hinv⟩
  | unregister other =>
    have hop : KsManager.Op.Allocates (.unregister other) := trivial
    obtain ⟨m', hperform, hinv⟩ := h.other hop
      fun t hreg _ hlives => hlives.unregister h.manager (htimely hreg)
    exact ⟨_, by simp only [Site.next, hperform, Option.bind_eq_bind, Option.bind_some], hinv⟩

/-- The registration object of the first server. -/
def firstServer (params : KsRegistrationParams) (expireAt : KsTime) : KsmServer where
  desc := params.server
  port := params.port
  expiresAt := expireAt
  timeToLive := params.timeToLive
  living := true
  pevent := some 0

/-- The manager after the first registration. -/
theorem create_registers (haccepts : Accepts params) (now : KsTime) :
    KsManager.create.registerServer {} now params =
      some (.ok, KsManager.create.registered params (now.after params.timeToLive)) := by
  obtain ⟨hnot, -⟩ | ⟨-, ⟨r, p, s, e, -, hs, -⟩ | ⟨-, hreg⟩⟩ :=
    registerServer_cases create_invariant now params
  · exact absurd haccepts hnot
  · exact absurd hs (by simp [create])
  · exact hreg

/-- The manager after the event of the first server. -/
theorem registered_expires (params : KsRegistrationParams) (expireAt now : KsTime) :
    (KsManager.create.registered params expireAt).perform (.trigger {} now 0) =
      some ((KsManager.create.registered params expireAt).dying 1 0 (firstServer params expireAt)
        { triggerAt := expireAt, pserver := some 1 } now) := by
  have hmem : 0 ∈ (KsManager.create.registered params expireAt).timerQueue := List.mem_cons_self
  have he : (KsManager.create.registered params expireAt).events 0 =
      some { triggerAt := expireAt, pserver := some 1 } := rfl
  have hs : (KsManager.create.registered params expireAt).servers 1 =
      some (firstServer params expireAt) := rfl
  rw [perform, if_pos hmem]
  simp only [trigger, he, hs, setServer, setEvent, addTimerEvent, Option.bind_eq_bind,
    Option.bind_some, Option.map_some, firstServer, ↓reduceIte, dying]

theorem dying_not_reports (haccepts : Accepts params) (expireAt now : KsTime)
    (e : KsmExpireServerEvent) :
    ¬ Reports ((KsManager.create.registered params expireAt).dying 1 0
      (firstServer params expireAt) e now) params := by
  intro hreports
  obtain ⟨result, hresult, -, -, hliving⟩ := hreports 0
  have hpos : (0 : UInt16) < params.server.protocolVersion := by
    have := haccepts.2.1
    rw [UInt16.lt_iff_toNat_lt] at this ⊢
    simp only [UInt16.reduceToNat] at this ⊢
    omega
  have hsearch : ((KsManager.create.registered params expireAt).dying 1 0
      (firstServer params expireAt) e now).betterMatch params.server (0, none)
        ⟨params.server.key, 1⟩ = some (params.server.protocolVersion,
          some { firstServer params expireAt with living := false }) :=
    betterMatch_own (s := { firstServer params expireAt with living := false }) rfl rfl
      (UInt16.le_refl _) hpos
  have hentries : ((KsManager.create.registered params expireAt).dying 1 0
      (firstServer params expireAt) e now).serverTable.entries = [⟨params.server.key, 1⟩] := rfl
  rw [getServer, if_neg haccepts.2.1, if_neg haccepts.2.2, hentries, List.foldlM_cons, hsearch]
    at hresult
  simp only [Option.bind_eq_bind, Option.bind_some, List.foldlM_nil, Option.pure_def,
    Option.some.injEq, Except.ok.injEq] at hresult
  rw [← hresult] at hliving
  exact absurd hliving (by simp)

/-- The site at time `now` after the first registration at time 0, if nothing else happens. -/
def afterFirst (params : KsRegistrationParams) (now : KsTime) : Site where
  now := now
  manager := KsManager.create.registered params (KsTime.after 0 params.timeToLive)
  reregisterAt := KsTime.after 0 MIN_TTL
  registered := true

theorem step_reregister (haccepts : Accepts params) (hshort : params.timeToLive ≤ 10) :
    step params (some (start 0 0)) .reregister = some (afterFirst params 0) := by
  have hperiod : reregisterPeriod params.timeToLive = MIN_TTL := by
    rw [reregisterPeriod, MIN_TTL]
    omega
  have hreg : (start 0 0).manager.registerServer {} (start 0 0).now params = _ :=
    create_registers haccepts 0
  simp only [step, Option.bind_some, Site.next, hreg, Option.bind_eq_bind, ↓reduceIte, hperiod]
  rfl

theorem step_wait (params : KsRegistrationParams) :
    step params (some (afterFirst params 0)) (.wait (1000000 * params.timeToLive)) =
      some (afterFirst params (KsTime.after 0 params.timeToLive)) := by
  simp only [step, Option.bind_some, Site.next, afterFirst, KsTime.zero_add]

theorem step_expire (params : KsRegistrationParams) (now : KsTime) :
    step params (some (afterFirst params now)) (.expire 0) = some { afterFirst params now with
      manager := (KsManager.create.registered params (KsTime.after 0 params.timeToLive)).dying 1 0
        (firstServer params (KsTime.after 0 params.timeToLive))
        { triggerAt := KsTime.after 0 params.timeToLive, pserver := some 1 } now } := by
  have hexpires := registered_expires params (KsTime.after 0 params.timeToLive) now
  simp only [step, Option.bind_some, Site.next, afterFirst, hexpires, Option.bind_eq_bind]

/-- There is only one server. -/
theorem afterFirst_highest (params : KsRegistrationParams) (now : KsTime) :
    Highest (afterFirst params now).manager params.server := by
  intro version r hr
  rw [afterFirst, KsManager.registered, lookup_insert_eq] at hr
  split_ifs at hr with hkey
  · obtain rfl : version = params.server.protocolVersion := congrArg Prod.snd hkey
    exact UInt16.le_refl _
  · exact absurd hr (by simp [create])

/-- A server that does not register for long enough dies before it registers again. -/
theorem expires (haccepts : Accepts params) (hshort : params.timeToLive ≤ 10) :
    Along (step params) (fun w h => ∀ s ∈ w, s.Timely params h) (some (start 0 0))
        [.reregister, .wait (1000000 * params.timeToLive), .expire 0] ∧
      ∃ w, run (step params) (some (start 0 0))
          [.reregister, .wait (1000000 * params.timeToLive), .expire 0] = some w ∧
        w.registered = true ∧ Highest w.manager params.server ∧ ¬ Reports w.manager params := by
  have hreregister := step_reregister haccepts hshort
  have hwait := step_wait params
  have hevent : ∀ now, ∀ p ∈ (afterFirst params now).manager.timerQueue,
      ∀ e ∈ (afterFirst params now).manager.events p,
        e.triggerAt = KsTime.after 0 params.timeToLive := by
    intro now p hp e he
    obtain rfl := List.mem_singleton.mp hp
    exact (Option.some.inj he) ▸ rfl
  constructor
  · simp only [Along, hreregister, hwait, Option.mem_some_iff, forall_eq', Timely, and_true]
    refine ⟨rfl, ⟨?_, fun p hp e he => ?_⟩, List.mem_singleton_self 0, fun e he => ?_⟩
    · exact (KsTime.zero_add _).trans_le (KsTime.after_le_after 0 hshort)
    · exact ((KsTime.zero_add _).trans (hevent 0 p hp e he).symm).le
    · exact (hevent 0 0 (List.mem_singleton_self 0) e he).symm
  · rw [run_cons, hreregister, run_cons, hwait, run_cons, step_expire, run_nil]
    exact ⟨_, rfl, rfl, afterFirst_highest params 0, dying_not_reports haccepts _ _ _⟩

end Site

theorem not_keepsRegistered {params : KsRegistrationParams} (haccepts : KsManager.Accepts params)
    (hshort : params.timeToLive ≤ 10) : ¬ KeepsRegistered params := by
  intro hkeeps
  obtain ⟨halong, w, hrun, hregistered, hhighest, hnot⟩ := Site.expires haccepts hshort
  obtain ⟨w', hrun', hreports⟩ := hkeeps 0 0 _ halong
  obtain rfl := Option.some.inj (hrun.symm.trans hrun')
  exact hnot (hreports hregistered hhighest)

/-- A server never loses its registration exactly if it registers for more than ten seconds, or for
a name that the manager does not accept. -/
theorem keepsRegistered_iff (params : KsRegistrationParams) :
    KeepsRegistered params ↔ (KsManager.Accepts params → 10 < params.timeToLive) := by
  constructor
  · intro hkeeps haccepts
    by_contra hshort
    exact not_keepsRegistered haccepts (Nat.not_lt.mp hshort) hkeeps
  · intro hlong now delay happenings halong
    have hstep : ∀ (w : Option Site) (h : Happening), (∃ s, w = some s ∧ s.Invariant params) →
        (∀ s ∈ w, s.Timely params h) →
        ∃ s, Site.step params w h = some s ∧ s.Invariant params := by
      rintro w h ⟨s, rfl, hinv⟩ htimely
      obtain ⟨s', hnext, hinv'⟩ := hinv.next hlong (htimely s rfl)
      exact ⟨s', by rw [Site.step, Option.bind_some, hnext], hinv'⟩
    obtain ⟨w, hrun, hinv⟩ := run_invariant
      (I := fun w : Option Site => ∃ s, w = some s ∧ s.Invariant params) hstep
      ⟨_, rfl, Site.start_invariant now delay⟩ halong
    exact ⟨w, hrun, fun hregistered => hinv.manager.reports (hinv.lives hregistered)
      (hinv.accepts hregistered)⟩

/-- A server that registers for five seconds comes back only after ten. -/
theorem not_keepsRegistered_fiveSeconds : ¬ KeepsRegistered ⟨⟨[65], 1⟩, 7, 5⟩ :=
  not_keepsRegistered (by unfold KsManager.Accepts; decide) (by decide)

end AcpltKs
