import AcpltKs.Client.Snapshots
import AcpltKs.Library.EventLog

/-! A client and its servers at work: whatever the application asks of its variables and packages
comes to an end, and what they are told is coherent. -/
namespace AcpltKs
open AnsweringMachines EventLog Grouping Replay
open KscPackageBase KsSimpleServer KssLink KssMemory

/-- The variables of a bucket are those of its server, and there are not too many of them. -/
structure KscExchange.Fits (vars : KscMemory) (e : KscExchange) : Prop where
  server : ∀ var ∈ e.setVars ++ e.getVars, (vars var).server = e.server
  setVars : e.setVars.length < 2 ^ 32
  getVars : e.getVars.length < 2 ^ 32

section Buckets
variable {vars vars' : KscMemory} {e : KscExchange}

theorem KscExchange.Fits.kept (h : e.Fits vars) (hkept : ∀ var, (vars var).Kept (vars' var)) :
    e.Fits vars' :=
  ⟨fun var hvar => (hkept var).server.trans (h.server var hvar), h.setVars, h.getVars⟩

theorem KscExchange.Fits.getSimpleUpdate (h : e.Fits vars) :
    (KscTransaction.getSimpleUpdate vars e).Serves vars where
  server var hvar := h.server var (List.mem_append_right _ hvar)
  setVars := show 0 < 2 ^ 32 by norm_num
  getVars := h.getVars

theorem KscExchange.Fits.setSimpleUpdate (h : e.Fits vars) :
    (KscTransaction.setSimpleUpdate vars e).Serves vars where
  server var hvar :=
    h.server var (List.mem_append_left _ ((List.mem_append.mp hvar).resolve_right nofun))
  setVars := h.setVars
  getVars := show 0 < 2 ^ 32 by norm_num

theorem KscExchange.Fits.doSimpleExchange (h : e.Fits vars) :
    (KscTransaction.doSimpleExchange vars e).Serves vars :=
  ⟨h.server, h.setVars, h.getVars⟩

/-- The variables of a grouping are under the keys of their servers, and there are not too many of
them. -/
def FitsGroups (vars : KscMemory) (ps : Multiset (KscSorter.Key × KscVariableHandle)) : Prop :=
  ps.card < 2 ^ 32 ∧ ∀ p ∈ ps, (vars p.2).server = p.1.server

theorem fitsGroups_zero (vars : KscMemory) : FitsGroups vars 0 := ⟨by norm_num, nofun⟩

theorem fitsGroups_placed (client : KscClient) {pkg : KscPackage} (dirtyOnly : Bool)
    (avmDefault : Option KscAvModule) (hpkg : pkg.entries.length < 2 ^ 32) :
    FitsGroups client.vars (client.placed pkg dirtyOnly avmDefault) := by
  constructor
  · rw [KscClient.placed, KscClient.placedEntries, Multiset.coe_card, List.length_map]
    exact (List.length_filter_le ..).trans_lt hpkg
  · intro p hp
    rw [KscClient.placed, KscClient.placedEntries, Multiset.mem_coe] at hp
    obtain ⟨e, -, rfl⟩ := List.mem_map.mp hp
    rfl

theorem fits_of_joined {es : List KscExchange}
    {ps qs : Multiset (KscSorter.Key × KscVariableHandle)}
    (h : Joined (es.map KscExchange.content) ps qs) (hps : FitsGroups vars ps)
    (hqs : FitsGroups vars qs) : ∀ e ∈ es, e.Fits vars := by
  intro e he
  obtain ⟨hgetVars, hget⟩ := h.left_part (List.mem_map_of_mem he)
  obtain ⟨hsetVars, hset⟩ := h.right_part (List.mem_map_of_mem he)
  refine ⟨fun var hvar => ?_, hsetVars.trans_lt hqs.1, hgetVars.trans_lt hps.1⟩
  obtain hvar | hvar := List.mem_append.mp hvar
  · exact hqs.2 _ (hset var hvar)
  · exact hps.2 _ (hget var hvar)

theorem length_entries_withModule (avModule : Option KscAvModule) (pkg : KscPackage) :
    (KscExchangePackage.withModule avModule pkg).entries.length = pkg.entries.length := by
  obtain ⟨avModule', vars, pkgs⟩ := pkg
  unfold KscExchangePackage.withModule
  split_ifs
  · simp [KscPackage.setAvModule, KscPackage.entries]
  · rfl

end Buckets

/-- What an application may ask for: values that can be sent, and packages that are not too big. -/
def KscAction.Proper : KscAction → Prop
  | .setCurrProps _ cp => cp.register.Sendable
  | .getUpdate pkg | .setUpdate pkg _ => pkg.entries.length < 2 ^ 32
  | .doExchange _ getPkg setPkg _ => (∀ pkg ∈ getPkg, pkg.entries.length < 2 ^ 32) ∧
      ∀ pkg ∈ setPkg, pkg.entries.length < 2 ^ 32
  | _ => True

section Runs
variable {σ τ W : Type*} [XdrSource σ] [XdrSource τ] {P : σ → List UInt8 → Prop}
  {Q : τ → List UInt8 → Prop}

/-- A request comes to an end, in its result or in a failure. -/
theorem KssLink.Sound.concluded {link : KssLink σ τ} (h : link.Sound P Q)
    (net : KscNetwork W KsServiceParams KsServiceResult) {req : ClientRequest} {w : Linked W}
    (hparams : req.params.xdrEncode.ok = true → req.params.Sendable)
    (hresult : req.result.serviceId = req.params.serviceId) (hfit : Fit w.memory)
    (hfates : ∀ fate ∈ w.fates, fate.Timely) (s : KscServer) :
    ∃ ok result s' w', KscServer.request (link.network net) (s, w) req =
        some ((ok, result), (s', w')) ∧ (∀ fate ∈ w'.fates, fate.Timely) ∧ Fit w'.memory ∧
      Concluded link.circumstances req.params w.memory w'.memory
        (if ok then .ok result else .error s'.lastResult) := by
  obtain ⟨ok, result, s', w', hrequest, hfates', hprogress, hachieved, hfailed⟩ :=
    @Sound.request_spec _ _ W _ _ P Q link net w h req hparams hresult hfit hfates s
  refine ⟨ok, result, s', w', hrequest, hfates', hprogress.fit hfit hparams, ?_⟩
  cases ok with
  | true => exact hachieved rfl
  | false => exact ⟨hfailed rfl, hprogress⟩

/-- What is known of the servers, and what the variables have been told, is right. -/
structure Coherent (links : KscServerBase → KssLink σ τ) (start : KscServerBase → Option KssMemory)
    (sys : KscSystem W) : Prop where
  fates : ∀ server, ∀ fate ∈ sys.fates server, fate.Timely
  fit : ∀ server, Fit (sys.memories server)
  accounted : ∀ server, Accounted (links server).circumstances server sys.log (start server)
    (sys.memories server)
  vars : ∀ var, (sys.vars var).Proper
  log : Always (fun before e => Snapshot (links e.server).circumstances (start e.server) before e)
    sys.log

variable {links : KscServerBase → KssLink σ τ} {start : KscServerBase → Option KssMemory}
  {net : KscNetwork W KsServiceParams KsServiceResult}
  {qsort : List KscVariableHandle → List KscVariableHandle} {sys : KscSystem W}

section Steps
variable (hlinks : ∀ server, (links server).Sound P Q)
include hlinks

/-- A request leads to a system that is coherent again. -/
theorem Coherent.transact (h : Coherent links start sys) {t : KscTransaction}
    (ht : t.Truthful (links t.server).circumstances (start t.server) sys.vars) :
    ∃ ok sys', KscSystem.transact links net t sys = some (ok, sys') ∧ Coherent links start sys' ∧
      ∀ var, (sys.vars var).Kept (sys'.vars var) := by
  obtain ⟨ok, result, s, w, hrequest, hfates, hfit, hconcluded⟩ :=
    @Sound.concluded _ _ W _ _ P Q _ (hlinks t.server) net t.request (sys.linked t.server)
      ht.params ht.result (h.fit t.server) (h.fates t.server) (sys.servers t.server)
  generalize houtcome : (if ok then Except.ok result else .error s.lastResult : KscOutcome) =
    outcome at hconcluded
  obtain ⟨told, vars, hfinish, hkept, hsnapshot, haccounted⟩ :=
    ht.tells sys.log _ _ _ (h.accounted t.server) hconcluded
  refine ⟨told, { sys.become t.server s w with
    vars := vars, log := sys.log ++ [t.event outcome sys.vars vars] }, ?_, ⟨?_, ?_, ?_,
    fun var => (h.vars var).kept (hkept var), always_concat.mpr ⟨h.log, hsnapshot⟩⟩, hkept⟩
  · simp only [KscSystem.transact, hrequest, Option.bind_some, houtcome, hfinish, Option.map_some]
  · exact (Function.forall_update_iff sys.fates fun _ fates => ∀ fate ∈ fates, fate.Timely).mpr
      ⟨hfates, fun server _ => h.fates server⟩
  · exact (Function.forall_update_iff sys.memories fun _ memory => Fit memory).mpr
      ⟨hfit, fun server _ => h.fit server⟩
  · refine (Function.forall_update_iff sys.memories fun server memory => Accounted
      (links server).circumstances server (sys.log ++ [t.event outcome sys.vars vars])
      (start server) memory).mpr ⟨haccounted, fun server hserver => ?_⟩
    exact (h.accounted server).other (Ne.symm hserver)

/-- One request after the other. -/
theorem Coherent.transactAll (h : Coherent links start sys)
    {transaction : KscMemory → KscExchange → KscTransaction}
    (ht : ∀ vars e, (∀ var, (vars var).Proper) → e.Fits vars →
      (transaction vars e).Truthful (links (transaction vars e).server).circumstances
        (start (transaction vars e).server) vars)
    {es : List KscExchange} (hes : ∀ e ∈ es, e.Fits sys.vars) :
    ∃ ok sys', KscSystem.transactAll links net transaction es sys = some (ok, sys') ∧
      Coherent links start sys' := by
  induction es generalizing sys with
  | nil => exact ⟨true, sys, rfl, h⟩
  | cons e es ih =>
    obtain ⟨he, hes⟩ := List.forall_mem_cons.mp hes
    obtain ⟨ok, sys₁, hfirst, h₁, hkept⟩ := h.transact hlinks (ht sys.vars e h.vars he)
    obtain ⟨ok', sys', hrest, h'⟩ := ih h₁ fun e he => (hes e he).kept hkept
    refine ⟨ok && ok', sys', ?_, h'⟩
    rw [KscSystem.transactAll, hfirst, Option.bind_some, hrest]
    rfl

/-- A package is broken down into requests, one for every bucket. -/
theorem Coherent.updatePackage (h : Coherent links start sys) (pkg : KscPackage) (dirtyOnly : Bool)
    {exchange : KscSorterBucket → List KscVariableHandle → KscExchange}
    {transaction : KscMemory → KscExchange → KscTransaction}
    (ht : ∀ vars e, (∀ var, (vars var).Proper) → e.Fits vars →
      (transaction vars e).Truthful (links (transaction vars e).server).circumstances
        (start (transaction vars e).server) vars)
    (hes : ∀ s : KscSorter, s.Holds ((sys.client net).placed pkg dirtyOnly none)
      (keys ((sys.client net).placed pkg dirtyOnly none)) →
        ∀ e ∈ s.buckets.map fun p => exchange p.2 p.2.vars, e.Fits sys.vars) :
    ∃ ok sys', ((KscSorter.create (sys.client net) pkg dirtyOnly none).bind fun sorter =>
        if sorter.valid then (sorter.exchanges exchange).bind fun exchanges =>
          KscSystem.transactAll links net transaction exchanges sys
        else some (false, sys)) = some (ok, sys') ∧ Coherent links start sys' := by
  obtain ⟨s, hcreate, hholds, -⟩ := KscSorter.create_holds (sys.client net) pkg dirtyOnly none
  rw [hcreate, Option.bind_some]
  cases hvalid : s.valid with
  | false => exact ⟨false, sys, rfl, h⟩
  | true =>
    rw [if_pos rfl, (hholds hvalid).exchanges, Option.bind_some]
    exact h.transactAll hlinks ht (hes s (hholds hvalid))

variable (hstart : ∀ server, ∀ m ∈ start server, m.Sound) (hsort : ∀ l, (qsort l).Perm l)
include hstart hsort

theorem Coherent.getUpdate (h : Coherent links start sys) {pkg : KscPackage}
    (hpkg : pkg.entries.length < 2 ^ 32) :
    ∃ ok sys', sys.getUpdate links net qsort pkg = some (ok, sys') ∧ Coherent links start sys' := by
  refine h.updatePackage hlinks pkg false (fun vars e hproper he =>
    (KscTransaction.getSimpleUpdate_reads vars e).truthful he.getSimpleUpdate hproper (hstart _))
      fun s hholds => ?_
  refine fits_of_joined ?_ (fitsGroups_placed (sys.client net) false none hpkg) (fitsGroups_zero _)
  rw [List.map_map]
  exact hholds.joined hsort

theorem Coherent.setUpdate (h : Coherent links start sys) {pkg : KscPackage}
    (hpkg : pkg.entries.length < 2 ^ 32) (force : Bool) :
    ∃ ok sys', sys.setUpdate links net qsort pkg force = some (ok, sys') ∧
      Coherent links start sys' := by
  refine h.updatePackage hlinks pkg (!force) (fun vars e hproper he =>
    (KscTransaction.setSimpleUpdate_writes vars e).truthful he.setSimpleUpdate hproper (hstart _))
      fun s hholds => ?_
  refine fits_of_joined ?_ (fitsGroups_zero _)
    (fitsGroups_placed (sys.client net) (!force) none hpkg)
  have hjoined := (hholds.joined hsort).swap
  rw [List.map_map] at hjoined ⊢
  exact hjoined

/-- The variables of two packages are exchanged. -/
theorem Coherent.doExchange (h : Coherent links start sys) (avModule : Option KscAvModule)
    {getPkg setPkg : Option KscPackage} (hget : ∀ pkg ∈ getPkg, pkg.entries.length < 2 ^ 32)
    (hset : ∀ pkg ∈ setPkg, pkg.entries.length < 2 ^ 32) (force : Bool) :
    ∃ ok sys', sys.doExchange links net qsort avModule getPkg setPkg force = some (ok, sys') ∧
      Coherent links start sys' := by
  cases getPkg with
  | none =>
    cases setPkg with
    | none => exact ⟨true, sys, rfl, h⟩
    | some setPkg =>
      refine h.setUpdate hlinks hstart hsort ?_ force
      rw [length_entries_withModule]
      exact hset setPkg rfl
  | some getPkg =>
    cases setPkg with
    | none =>
      refine h.getUpdate hlinks hstart hsort ?_
      rw [length_entries_withModule]
      exact hget getPkg rfl
    | some setPkg =>
      obtain ⟨g, hgcreate, hgholds, -⟩ := KscSorter.create_holds (sys.client net) getPkg false
        (getPkg.avModule.or avModule)
      obtain ⟨s, hscreate, hsholds, -⟩ := KscSorter.create_holds (sys.client net) setPkg (!force)
        (setPkg.avModule.or avModule)
      by_cases hvalid : (g.valid && s.valid) = true
      · obtain ⟨hgvalid, hsvalid⟩ := Bool.and_eq_true_iff.mp hvalid
        obtain ⟨es, hmerge, hjoined⟩ :=
          KscExchangePackage.mergeLoop_spec (hgholds hgvalid) (hsholds hsvalid) rfl
        have hsorted := hjoined.sorted hsort
        have hes := @fits_of_joined sys.vars (es.map fun e =>
          { e with getVars := qsort e.getVars, setVars := qsort e.setVars }) _ _
          (by rwa [List.map_map] at hsorted ⊢)
          (fitsGroups_placed (sys.client net) false (getPkg.avModule.or avModule) (hget _ rfl))
          (fitsGroups_placed (sys.client net) (!force) (setPkg.avModule.or avModule) (hset _ rfl))
        obtain ⟨ok, sys', hall, h'⟩ := @Coherent.transactAll _ _ _ _ _ P Q _ _ net _ hlinks h
          KscTransaction.doSimpleExchange (fun vars e hproper he =>
            KscTransaction.doSimpleExchange_truthful he.doSimpleExchange hproper) _ hes
        refine ⟨ok, sys', ?_, h'⟩
        simp only [KscSystem.doExchange, hgcreate, hscreate, Option.bind_some,
          KscSystem.exchangeBoth, hvalid, if_true, KscExchangePackage.mergeSorters, hmerge, hall]
      · refine ⟨false, sys, ?_, h⟩
        simp only [KscSystem.doExchange, hgcreate, hscreate, Option.bind_some,
          KscSystem.exchangeBoth, if_neg hvalid]

/-- Whatever the application asks for comes to an end. -/
theorem Coherent.perform (h : Coherent links start sys) {action : KscAction}
    (haction : action.Proper) :
    ∃ ok sys', sys.perform links net qsort action = some (ok, sys') ∧
      Coherent links start sys' := by
  cases action with
  | setCurrProps var cp =>
    refine ⟨true, _, rfl, ⟨h.fates, h.fit, h.accounted, ?_, h.log⟩⟩
    refine (Function.forall_update_iff sys.vars fun _ v => v.Proper).mpr
      ⟨?_, fun var _ => h.vars var⟩
    exact ⟨(h.vars var).plain, (h.vars var).short, haction⟩
  | getVariable var =>
    have hserves : (KscTransaction.getVariable sys.vars var).Serves sys.vars :=
      ⟨fun var' hvar => by rw [List.mem_singleton.mp hvar]; rfl, show 0 < 2 ^ 32 by norm_num,
        show 1 < 2 ^ 32 by norm_num⟩
    obtain ⟨ok, sys', htransact, h', -⟩ := h.transact hlinks
      ((KscTransaction.getVariable_reads sys.vars var).truthful hserves h.vars (hstart _))
    exact ⟨ok, sys', (if_pos (h.vars var).plain.valid).trans htransact, h'⟩
  | setVariable var =>
    have hserves : (KscTransaction.setVariable sys.vars var).Serves sys.vars :=
      ⟨fun var' hvar => by rw [List.mem_singleton.mp hvar]; rfl, show 1 < 2 ^ 32 by norm_num,
        show 0 < 2 ^ 32 by norm_num⟩
    obtain ⟨ok, sys', htransact, h', -⟩ := h.transact hlinks
      ((KscTransaction.setVariable_writes sys.vars var).truthful hserves h.vars (hstart _))
    exact ⟨ok, sys', (if_pos (h.vars var).plain.valid).trans htransact, h'⟩
  | getUpdate pkg => exact h.getUpdate hlinks hstart hsort haction
  | setUpdate pkg force => exact h.setUpdate hlinks hstart hsort haction force
  | doExchange avModule getPkg setPkg force =>
    exact h.doExchange hlinks hstart hsort avModule haction.1 haction.2 force

end Steps

end Runs
end AcpltKs
