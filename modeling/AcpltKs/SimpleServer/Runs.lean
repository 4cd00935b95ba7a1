import AcpltKs.Library.GuardedRun
import AcpltKs.SimpleServer.Registers
import AcpltKs.SimpleServer.Tree

/-! A simple server at work: the application makes objects, arranges them and uses its variables,
while clients call the services. -/
namespace AcpltKs
open Function (update)
open GuardedRun LabelledGraphs Replay

def KssObject.modifyVar (f : KssSimpleVariable → KssSimpleVariable) : KssObject → KssObject
  | simpleVariable common var => simpleVariable common (f var)
  | ioStatisticsVariable common var statType => ioStatisticsVariable common (f var) statType
  | obj => obj

def KssObject.isSimpleVariable : KssObject → Bool
  | simpleVariable .. => true
  | _ => false

namespace KssMemory
variable {m m' : KssMemory} {a d : ℕ} {obj : KssObject}

/-- The application does something to one of its variables. -/
def access (m : KssMemory) (a : ℕ) (f : KssSimpleVariable → KssSimpleVariable) : KssMemory :=
  ⟨m.objects.modify a (KssObject.modifyVar f)⟩

theorem sameTree_access (m : KssMemory) (a : ℕ) (f : KssSimpleVariable → KssSimpleVariable) :
    m.SameTree (m.access a f) := by
  have hget : ∀ b, (m.access a f).objects[b]? =
      (m.objects[b]?).map fun obj => if a = b then obj.modifyVar f else obj :=
    fun b => List.getElem?_modify ..
  refine ⟨List.length_modify .., fun b => ?_, fun b => ?_, fun b => ?_⟩
  · rw [children, hget, children]
    rcases m.objects[b]? with _ | (_ | _ | _ | _ | _) <;>
      by_cases h : a = b <;> simp [h, KssObject.modifyVar]
  · rw [container, hget, container]
    rcases m.objects[b]? with _ | (_ | _ | _ | _ | _) <;>
      by_cases h : a = b <;> simp [h, KssObject.modifyVar]
  · rw [identifierAt, hget, identifierAt]
    rcases m.objects[b]? with _ | (_ | _ | _ | _ | _) <;>
      by_cases h : a = b <;> simp [h, KssObject.modifyVar, KssObject.getIdentifier, KssObject.common]

end KssMemory

namespace KsSimpleServer
variable {m m' : KssMemory} {ids : List KsString} {a : ℕ}

/-- What happens in a server. -/
inductive Event where
  | make (new : NewObject)
  | access (a : ℕ) (f : KssSimpleVariable → KssSimpleVariable)
  | addCommObject (env : KssEnvironment) (dompath : KsPath) (ho : ℕ)
  | removeCommObject (env : KssEnvironment) (dompath : KsPath) (id : KsString)
  | call (call : ClientCall)

/-- The memory afterwards; nothing if the server does not get through. -/
def react (m : KssMemory) : Event → Option KssMemory
  | .make new => (m.make new).map Prod.snd
  | .access a f => some (m.access a f)
  | .addCommObject env dompath ho => (addCommObject m env dompath ho).map Prod.snd
  | .removeCommObject env dompath id => (removeCommObject m env dompath id).map Prod.snd
  | .call call => (serve m call).map Prod.snd

/-- A step of the server; one that it does not get through changes nothing. -/
def step (m : KssMemory) (event : Event) : KssMemory := (react m event).getD m

/-- A child is taken out of a domain that the names pass, and the child is the next one on their
way. -/
def CutsOff (m : KssMemory) (ids : List KsString) : Event → Prop
  | .removeCommObject env dompath id => ∃ d, domainAt m env dompath = some d ∧
      Meets m.edge (m.StepTo d id) 0 ids
  | _ => False

theorem addCommObject_unbound {env : KssEnvironment} {dompath : KsPath} {ho : ℕ}
    (hobj : m.objects[ho]? = none) :
    ((addCommObject m env dompath ho).map Prod.snd).getD m = m := by
  unfold addCommObject
  split
  · rfl
  · split
    · rw [hobj]
      rfl
    · rfl

/-- What a step does to the tree: nothing that names tell, or one name in one domain comes to an
object that it did not lead to, or ceases to lead to one. -/
theorem step_cases (h : m.Sound) (event : Event) :
    (step m event).Sound ∧
      (((∀ ids, (step m event).find ids = m.find ids) ∧
          ∀ ids a, m.find ids = some a → ¬ CutsOff m ids event) ∨
        (∃ d id ho, m.childOf d id = none ∧ m.Renames (step m event) d id (some ho) ∧
          ∀ ids, ¬ CutsOff m ids event) ∨
        ∃ d id, m.Renames (step m event) d id none ∧
          ∀ ids, CutsOff m ids event ↔ Meets m.edge (m.StepTo d id) 0 ids) := by
  have hidle : ∀ event, (∀ ids, ¬ CutsOff m ids event) → step m event = m →
      (step m event).Sound ∧ ((∀ ids, (step m event).find ids = m.find ids) ∧
        ∀ ids a, m.find ids = some a → ¬ CutsOff m ids event) := by
    intro event hcut hstep
    rw [hstep]
    exact ⟨h, fun _ => rfl, fun ids _ _ => hcut ids⟩
  cases event with
  | make new =>
    cases hmake : m.make new with
    | none =>
      obtain ⟨hsound, hsame⟩ := hidle (.make new) (fun _ hcut => hcut) (by
        simp [step, react, hmake])
      exact ⟨hsound, Or.inl hsame⟩
    | some r =>
      have hmake' : m.make new = some (r.1, r.2) := hmake
      obtain ⟨hsound, hfind⟩ := h.make hmake'
      have hstep : step m (.make new) = r.2 := by simp [step, react, hmake]
      rw [hstep]
      exact ⟨hsound, Or.inl ⟨hfind, fun _ _ _ hcut => hcut⟩⟩
  | access a f =>
    have htree := m.sameTree_access a f
    exact ⟨htree.sound h, Or.inl ⟨htree.find_eq, fun _ _ _ hcut => hcut⟩⟩
  | call call =>
    cases hserve : serve m call with
    | none =>
      obtain ⟨hsound, hsame⟩ := hidle (.call call) (fun _ hcut => hcut) (by
        simp [step, react, hserve])
      exact ⟨hsound, Or.inl hsame⟩
    | some r =>
      have hstep : step m (.call call) = r.2 := by simp [step, react, hserve]
      rw [← m.assign_registers] at hserve
      obtain ⟨hassign, -⟩ := serve_assign h m.registers hserve
      rw [hstep, hassign]
      have htree := m.sameTree_assign (replay m.registers (writes m call))
      exact ⟨htree.sound h, Or.inl ⟨htree.find_eq, fun _ _ _ hcut => hcut⟩⟩
  | addCommObject env dompath ho =>
    cases hobj : m.objects[ho]? with
    | none =>
      obtain ⟨hsound, hsame⟩ := hidle (.addCommObject env dompath ho) (fun _ hcut => hcut)
        (addCommObject_unbound hobj)
      exact ⟨hsound, Or.inl hsame⟩
    | some obj =>
      obtain ⟨added, m', hadd, hsound, hcases⟩ := addCommObject_spec h env dompath hobj
      have hstep : step m (.addCommObject env dompath ho) = m' := by simp [step, react, hadd]
      rw [hstep]
      refine ⟨hsound, ?_⟩
      obtain ⟨-, hsame, -⟩ | ⟨-, d, children, -, hnone, -, hrenames⟩ := hcases
      · exact Or.inl ⟨hsame.find_eq, fun _ _ _ hcut => hcut⟩
      · exact Or.inr (Or.inl ⟨d, _, ho, hnone, hrenames, fun _ hcut => hcut⟩)
  | removeCommObject env dompath id =>
    obtain ⟨removed, m', hremove, hsound, hcases⟩ := removeCommObject_spec h env dompath id
    have hstep : step m (.removeCommObject env dompath id) = m' := by simp [step, react, hremove]
    rw [hstep]
    refine ⟨hsound, ?_⟩
    obtain ⟨-, hsame, hnone⟩ | ⟨-, d, children, htable, -, hrenames⟩ := hcases
    · refine Or.inl ⟨hsame.find_eq, ?_⟩
      rintro ids a hfind ⟨d, hd, hmeets⟩
      have hno : m.find ids = none := KssMemory.find_of_meets hmeets fun b id' hb => by
        obtain ⟨children, hchildren⟩ := Option.isSome_iff_exists.mp (h.links b d hb.1)
        rw [h.edge_of_step hb, hnone d children ⟨hd, hchildren⟩]
      exact absurd (hno.symm.trans hfind) (by simp)
    · refine Or.inr (Or.inr ⟨d, id, hrenames, fun ids => ⟨?_, fun hmeets => ⟨d, htable.1, hmeets⟩⟩⟩)
      rintro ⟨d', hd', hmeets⟩
      obtain rfl := Option.some.inj (htable.1.symm.trans hd')
      exact hmeets

/-- A name goes on to lead to its object exactly if a step does not cut it off. -/
theorem find_step (h : m.Sound) (hfind : m.find ids = some a) (event : Event) :
    (step m event).find ids = some a ↔ ¬ CutsOff m ids event := by
  obtain ⟨-, ⟨hsame, hcut⟩ | ⟨d, id, ho, hnone, hrenames, hcut⟩ | ⟨d, id, hrenames, hcut⟩⟩ :=
    step_cases h event
  · exact iff_of_true (by rw [hsame, hfind]) (hcut ids a hfind)
  · refine iff_of_true ?_ (hcut ids)
    rw [hrenames.find_eq, hfind]
    intro hmeets
    have hno := KssMemory.find_of_meets hmeets fun b id' hb => by rw [h.edge_of_step hb, hnone]
    exact absurd (hno.symm.trans hfind) (by simp)
  · rw [hcut]
    constructor
    · intro hstill hmeets
      have hmeets' := (meets_iff fun b id' hb => hrenames.edge_eq hb).mpr hmeets
      have hno := KssMemory.find_of_meets hmeets' fun b id' hb => hrenames.edge_step hb
      exact absurd (hno.symm.trans hstill) (by simp)
    · intro hnot
      rw [hrenames.find_eq hnot, hfind]

/-- In every run, a name leads to the same object all along if and only if at no step a child on its
way is taken out, whatever else is added, removed, read and written. -/
theorem find_run_iff (h : m.Sound) (hfind : m.find ids = some a) (events : List Event) :
    (∀ before, before <+: events → (run step m before).find ids = some a) ↔
      Along step (fun m event => ¬ CutsOff m ids event) m events :=
  along_iff (I := fun m : KssMemory => m.Sound ∧ m.find ids = some a) (fun _ hI => hI.2)
    (fun _ event hI hcut => ⟨(step_cases hI.1 event).1, (find_step hI.1 hI.2 event).mpr hcut⟩)
    (fun _ event hI hcut hstill => hcut ((find_step hI.1 hI.2 event).mp hstill)) ⟨h, hfind⟩

/-- Every memory that a server comes to is sound. -/
theorem run_sound {env : KssEnvironment} (h : create env = some m) (events : List Event) :
    (run step m events).Sound :=
  run_invariant_of_step (I := KssMemory.Sound) (fun _ event hm => (step_cases hm event).1) events
    (KssMemory.create_sound h)

/-- A variable `p` is made and put into the root domain. -/
def pumpEvents : List Event :=
  [.make (.simpleVariable ⟨[112], ⟨0, 0⟩, [], 0⟩ (.create ⟨0, 0⟩)),
    .addCommObject ⟨⟨0, 0⟩, fun _ => 0⟩ ⟨[47], true, [some 1, none], 0, 0, 0⟩ 1]

/-- A client that may do everything writes to `/p`. -/
def setPump : ClientCall :=
  ⟨⟨⟨0, 0⟩, fun _ => 0⟩, ⟨fun _ => true, fun _ => true, fun _ => true⟩,
    .setVar true ⟨[⟨[47, 112], some (.var (some (.int 7)) ⟨1, 0⟩ KsState.good)⟩]⟩ ⟨0, [0]⟩⟩

/-- What the server is like that has come to have a variable `p`. -/
theorem exists_pump : ∃ m₀ m, create ⟨⟨0, 0⟩, fun _ => 0⟩ = some m₀ ∧ m = run step m₀ pumpEvents ∧
    m.Sound ∧ m.find [[112]] = some 1 := by
  obtain ⟨m₀, hcreate⟩ : ∃ m₀, create ⟨⟨0, 0⟩, fun _ => 0⟩ = some m₀ := by
    obtain ⟨children, hchildren, -⟩ := KssMemory.represents_create
    exact ⟨_, by rw [create, hchildren]; rfl⟩
  have hfind : (create ⟨⟨0, 0⟩, fun _ => 0⟩).map (fun m₀ =>
      (run step m₀ pumpEvents).find [[112]]) = some (some 1) := by decide +kernel
  rw [hcreate, Option.map_some, Option.some.injEq] at hfind
  exact ⟨m₀, _, hcreate, rfl, run_sound hcreate pumpEvents, hfind⟩

/-- The variable `p` is written to. -/
theorem find_run_iff_pump : ∃ m : KssMemory, m.Sound ∧ m.find [[112]] = some 1 ∧
    ((∀ before, before <+: [Event.call setPump] → (run step m before).find [[112]] = some 1) ↔
      Along step (fun m event => ¬ CutsOff m [[112]] event) m [.call setPump]) := by
  obtain ⟨m₀, m, -, -, hsound, hfind⟩ := exists_pump
  exact ⟨m, hsound, hfind, find_run_iff hsound hfind [.call setPump]⟩

section Clients
variable {cells : ℕ → KssRegister} {calls : List ClientCall} {replies : List ServiceReply}
  {env : KssEnvironment} {ticket : KsAvTicket}

/-- Whatever clients call and in which order, the results of a write do not depend on the other
calls, the objects and their names stay, and every variable holds what was accepted for it last. -/
theorem serveAll_registers (h : m.Sound) (hserve : serveAll m calls = some (replies, m')) :
    List.Forall₂ (Settled m) calls replies ∧ ∀ a, m'.objects[a]? =
      (m.objects[a]?).map fun obj : KssObject =>
        obj.withRegister ((lastWrite (calls.flatMap (writes m)) a).getD obj.register) := by
  rw [← m.assign_registers] at hserve
  obtain ⟨rfl, hsettled⟩ := serveAll_assign h _ hserve
  exact ⟨hsettled, m.getElem?_assign_replay _⟩

/-- The variable `p` holds what has been written to it. -/
theorem serveAll_registers_pump : ∃ (m m' : KssMemory) (replies : List ServiceReply), m.Sound ∧
    serveAll m [setPump] = some (replies, m') ∧ List.Forall₂ (Settled m) [setPump] replies ∧
      m'.objects[1]? = (m.objects[1]?).map fun obj : KssObject =>
        obj.withRegister ⟨some (.int 7), ⟨1, 0⟩, KsState.good⟩ := by
  obtain ⟨m₀, m, hcreate, rfl, hsound, -⟩ := exists_pump
  have hserve : (create ⟨⟨0, 0⟩, fun _ => 0⟩).map (fun m₀ =>
      ((serveAll (run step m₀ pumpEvents) [setPump]).isSome,
        lastWrite ([setPump].flatMap (writes (run step m₀ pumpEvents))) 1)) =
          some (true, some ⟨some (.int 7), ⟨1, 0⟩, KsState.good⟩) := by decide +kernel
  rw [hcreate, Option.map_some, Option.some.injEq] at hserve
  obtain ⟨hserve, hlast⟩ := Prod.mk.inj hserve
  obtain ⟨⟨replies, m'⟩, hserve⟩ := Option.isSome_iff_exists.mp hserve
  obtain ⟨hsettled, hobjects⟩ := serveAll_registers hsound hserve
  exact ⟨_, m', replies, hsound, hserve, hsettled, by rw [hobjects, hlast]; rfl⟩

/-- What is read of a register. -/
def registerItem (r : KssRegister) : KsGetVarItemResult :=
  match r.value with
  | some value => ⟨.ok, some (.var (some value) r.time r.state)⟩
  | none => ⟨.generic, none⟩

theorem getVarItems_getElem? {root : KssHandle} {paths : List (KsPath × KsResultCode)}
    {items items' : List KsGetVarItemResult}
    (hget : getVarItems root ticket paths items = some items') {i : ℕ} {path : KsPath}
    (hpath : paths[i]? = some (path, .ok)) :
    ∃ item, items'[i]? = some (getVarItem root ticket path item) := by
  induction paths generalizing items items' i with
  | nil => exact absurd hpath (by simp)
  | cons r paths ih =>
    obtain ⟨path', pathres⟩ := r
    cases items with
    | nil => exact absurd hget (by simp [getVarItems])
    | cons item items =>
      obtain ⟨rest, hrest, hsome⟩ := Option.bind_eq_some_iff.mp hget
      obtain rfl := Option.some.inj hsome
      cases i with
      | zero =>
        obtain ⟨rfl, rfl⟩ := Prod.mk.inj (Option.some.inj hpath)
        exact ⟨item, by simp⟩
      | succ i => exact ih hrest hpath

/-- After any calls of any clients, reading a variable returns what was accepted for it last, or what
it held before. -/
theorem getVar_lastWrite (h : m.Sound) (hserve : serveAll m calls = some (replies, m'))
    {params : KsGetVarParams} {result r : KsGetVarResult}
    (hget : getVar (⟨m', env, 0⟩ : KssHandle) ticket true params result = some r)
    {paths : List (KsPath × KsResultCode)} {i : ℕ} {path : KsPath}
    (hpaths : KsPath.resolvePaths params.identifiers = some paths)
    (hpath : paths[i]? = some (path, .ok)) (hread : ticket.canReadVar path.toPltString = true)
    (hfind : m.find (path.components.map cString) = some a) {common : KssSimpleCommObject}
    {var : KssSimpleVariable} (hobj : m.objects[a]? = some (.simpleVariable common var)) :
    r.items[i]? = some (registerItem
      ((lastWrite (calls.flatMap (writes m)) a).getD var.register)) := by
  obtain ⟨rfl, -⟩ := serveAll_assign h m.registers (by rwa [m.assign_registers])
  have hobject := m.getElem?_assign_replay (calls.flatMap (writes m)) a
  rw [hobj, Option.map_some, KssObject.register, KssObject.withRegister] at hobject
  have htree := m.sameTree_assign (replay m.registers (calls.flatMap (writes m)))
  generalize m.assign (replay m.registers (calls.flatMap (writes m))) = m' at *
  generalize (lastWrite (calls.flatMap (writes m)) a).getD var.register = reg at *
  rw [getVar, if_pos rfl] at hget
  obtain ⟨paths', hpaths', hget⟩ := Option.bind_eq_some_iff.mp hget
  obtain rfl := Option.some.inj (hpaths.symm.trans hpaths')
  obtain ⟨items, hitems, hget⟩ := Option.bind_eq_some_iff.mp hget
  obtain rfl := Option.some.inj hget
  obtain ⟨item, hitem⟩ := getVarItems_getElem? hitems hpath
  have hproper := KsPath.resolvePaths_proper hpaths _ (List.mem_of_getElem? hpath) rfl
  have hlookup := (htree.sound h).getChildByPath_eq env hproper
  rw [htree.find_eq, hfind] at hlookup
  have hhas : hasCurrProps (⟨m', env, a⟩ : KssHandle) := by
    refine Or.inl ?_
    simp only [KssCommObject.typeCode, KssMemory.typeCodeAt, hobject]
    rfl
  have hread : KssCommObject.getCurrProps (⟨m', env, a⟩ : KssHandle) =
      ((registerItem reg).result, (registerItem reg).item) := by
    simp only [KssCommObject.getCurrProps, KssHandle.object, hobject, Option.elim_some,
      KssMemory.getCurrProps, KssObject.getValue, registerItem, KssSimpleVariable.withRegister]
    cases reg.value <;> rfl
  rw [hitem]
  simp [getVarItem, *]

/-- What has been written to `p` is read. -/
theorem getVar_lastWrite_pump : ∃ (m m' : KssMemory) (replies : List ServiceReply)
    (r : KsGetVarResult), m.Sound ∧ serveAll m [setPump] = some (replies, m') ∧
      getVar (⟨m', ⟨⟨0, 0⟩, fun _ => 0⟩, 0⟩ : KssHandle)
        ⟨fun _ => true, fun _ => true, fun _ => true⟩ true ⟨[[47, 112]]⟩
          ⟨KsResult.blank, [.blank]⟩ = some r ∧
      r.items[0]? = some ⟨.ok, some (.var (some (.int 7)) ⟨1, 0⟩ KsState.good)⟩ := by
  obtain ⟨m₀, m, hcreate, rfl, hsound, hfind⟩ := exists_pump
  have hserve : (create ⟨⟨0, 0⟩, fun _ => 0⟩).map (fun m₀ =>
      ((serveAll (run step m₀ pumpEvents) [setPump]).map fun r =>
        (getVar (⟨r.2, ⟨⟨0, 0⟩, fun _ => 0⟩, 0⟩ : KssHandle)
          ⟨fun _ => true, fun _ => true, fun _ => true⟩ true ⟨[[47, 112]]⟩
            ⟨KsResult.blank, [.blank]⟩).isSome,
        lastWrite ([setPump].flatMap (writes (run step m₀ pumpEvents))) 1)) =
          some (some true, some ⟨some (.int 7), ⟨1, 0⟩, KsState.good⟩) := by decide +kernel
  have hobj : (create ⟨⟨0, 0⟩, fun _ => 0⟩).map (fun m₀ =>
      ((run step m₀ pumpEvents).objects[1]?).map KssObject.isSimpleVariable) =
        some (some true) := by decide +kernel
  rw [hcreate, Option.map_some, Option.some.injEq] at hserve hobj
  obtain ⟨hserve, hlast⟩ := Prod.mk.inj hserve
  obtain ⟨⟨replies, m'⟩, hserve, hget⟩ := Option.map_eq_some_iff.mp hserve
  obtain ⟨r, hget⟩ := Option.isSome_iff_exists.mp hget
  obtain ⟨obj, hobj, hvar⟩ := Option.map_eq_some_iff.mp hobj
  cases obj with
  | simpleVariable common var =>
    have hitem := getVar_lastWrite (i := 0) hsound hserve hget rfl rfl rfl hfind hobj
    rw [hlast] at hitem
    exact ⟨_, m', replies, r, hsound, hserve, hget, hitem⟩
  | _ => exact absurd hvar (by simp [KssObject.isSimpleVariable])

end Clients

end KsSimpleServer
end AcpltKs
