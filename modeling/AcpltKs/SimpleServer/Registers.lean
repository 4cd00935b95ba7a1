import AcpltKs.SimpleServer.Services

/-! The variables of a simple server are registers: calls of clients change nothing but what the
registers hold, and which of them are written to is settled before the first call. -/
namespace AcpltKs
open Function (update)
open LabelledGraphs Replay

namespace KssMemory
variable {m : KssMemory} {cells : ℕ → KssRegister} {a d : ℕ} {obj : KssObject}

/-- The memory with these contents of its registers. -/
def assign (m : KssMemory) (cells : ℕ → KssRegister) : KssMemory :=
  ⟨m.objects.mapIdx fun a obj => obj.withRegister (cells a)⟩

def registers (m : KssMemory) (a : ℕ) : KssRegister :=
  (m.objects[a]?).elim ⟨none, ⟨0, 0⟩, 0⟩ KssObject.register

theorem getElem?_assign (m : KssMemory) (cells : ℕ → KssRegister) (a : ℕ) :
    (m.assign cells).objects[a]? = (m.objects[a]?).map (·.withRegister (cells a)) :=
  List.getElem?_mapIdx

theorem assign_registers (m : KssMemory) : m.assign m.registers = m := by
  refine congrArg KssMemory.mk (List.ext_getElem? fun a => ?_)
  rw [List.getElem?_mapIdx]
  cases hobj : m.objects[a]? with
  | none => rfl
  | some obj => simp [registers, hobj, KssObject.withRegister_register]

theorem getElem?_assign_replay (m : KssMemory) (writes : List (ℕ × KssRegister)) (a : ℕ) :
    (m.assign (replay m.registers writes)).objects[a]? = (m.objects[a]?).map fun obj : KssObject =>
      obj.withRegister ((lastWrite writes a).getD obj.register) := by
  rw [getElem?_assign, replay_apply, registers]
  cases m.objects[a]? <;> rfl

theorem write_assign (hobj : m.objects[a]? = some obj) (r : KssRegister) :
    (m.assign cells).write a (obj.withRegister r) = m.assign (update cells a r) := by
  refine congrArg KssMemory.mk (List.ext_getElem? fun b => ?_)
  rw [List.getElem?_set, getElem?_assign]
  by_cases hb : a = b
  · subst hb
    have hlt : a < (m.assign cells).objects.length := by
      have hsome := getElem?_assign m cells a
      rw [hobj] at hsome
      exact (List.getElem?_eq_some_iff.mp hsome).1
    rw [if_pos rfl, if_pos hlt, List.getElem?_mapIdx, hobj]
    simp
  · rw [if_neg hb, List.getElem?_mapIdx, Function.update_of_ne (Ne.symm hb)]

theorem sameTree_assign (m : KssMemory) (cells : ℕ → KssRegister) :
    m.SameTree (m.assign cells) where
  length := List.length_mapIdx
  children d := by
    rw [children, getElem?_assign, children]
    rcases m.objects[d]? with _ | (_ | _ | _ | _ | _) <;> rfl
  container a := by
    rw [container, getElem?_assign, container]
    rcases m.objects[a]? with _ | (_ | _ | _ | _ | _) <;> rfl
  identifierAt a := by
    rw [identifierAt, getElem?_assign, identifierAt]
    rcases m.objects[a]? with _ | (_ | _ | _ | _ | _) <;> rfl

theorem typeCodeAt_assign (m : KssMemory) (cells : ℕ → KssRegister) (a : ℕ) :
    (m.assign cells).typeCodeAt a = m.typeCodeAt a := by
  rw [typeCodeAt, getElem?_assign, typeCodeAt]
  rcases m.objects[a]? with _ | (_ | _ | _ | _ | _) <;> rfl

end KssMemory

namespace KsPath

/-- The paths of a request without errors can be looked up. -/
theorem resolvePaths_proper {ids : List KsString} {paths : List (KsPath × KsResultCode)}
    (h : resolvePaths ids = some paths) :
    ∀ r ∈ paths, r.2 = KsResultCode.ok → r.1.Proper := by
  rintro ⟨path, res⟩ hmem rfl
  obtain ⟨i, hi⟩ := List.mem_iff_getElem?.mp hmem
  obtain ⟨p, skipped, pieces, -, hsplits, -, hdecode⟩ := resolvedPath_of_resolvePaths h hi
  obtain ⟨decoded, -, hparses, -⟩ := hsplits.decodePercents hdecode
  exact ⟨hparses.valid, by rw [hparses.first]; exact Nat.zero_le _⟩

theorem length_resolveEach {context : KsPath} {ids : List KsString}
    {paths : List (KsPath × KsResultCode)} (h : resolveEach context ids = some paths) :
    paths.length = ids.length := by
  induction ids generalizing context paths with
  | nil =>
    rw [← Option.some.inj h]
    rfl
  | cons id ids ih =>
    obtain ⟨⟨path, res⟩, -, h⟩ := Option.bind_eq_some_iff.mp h
    obtain ⟨rest, hrest, h⟩ := Option.bind_eq_some_iff.mp h
    rw [← Option.some.inj h, List.length_cons, List.length_cons, ih hrest]

theorem length_resolvePaths {ids : List KsString} {paths : List (KsPath × KsResultCode)}
    (h : resolvePaths ids = some paths) : paths.length = ids.length := by
  obtain ⟨resolved, hresolved, rfl⟩ := resolvePaths_eq_some.mp h
  rw [List.length_map, length_resolveEach hresolved]

end KsPath

namespace KssMemory
variable {m : KssMemory} {cells : ℕ → KssRegister} {ticket : KsAvTicket} {env : KssEnvironment}

/-- Which register an item of a request is written to, and what, or which error it gets. -/
def verdict (m : KssMemory) (ticket : KsAvTicket) :
    (KsPath × KsResultCode) × Option KsCurrProps → Except KsResultCode (ℕ × KssRegister)
  | ((path, pathres), props) =>
      if pathres ≠ .ok then .error pathres
      else if ticket.canWriteVar path.toPltString = false then .error .noAccess
      else
        match m.find (path.components.map cString) with
        | none => .error .badPath
        | some a => ((m.objects[a]?).elim (.error .badPath) (·.accepts props)).map (a, ·)

/-- The result of an item. -/
def resultOf : Except KsResultCode (ℕ × KssRegister) → KsResultCode
  | .ok _ => .ok
  | .error res => res

/-- What is written for the items of a request. -/
def accepted (m : KssMemory) (ticket : KsAvTicket)
    (items : List ((KsPath × KsResultCode) × Option KsCurrProps)) : List (ℕ × KssRegister) :=
  items.filterMap fun item => (m.verdict ticket item).toOption

/-- An item is written to the register that the verdict names, or it gets its error. -/
theorem Sound.setVarItem_eq (h : m.Sound) (env : KssEnvironment) {path : KsPath}
    (hp : path.Proper) (props : Option KsCurrProps) :
    ∃ changed, KsSimpleServer.setVarItem (⟨m.assign cells, env, 0⟩ : KssHandle) ticket path props =
        (resultOf (m.verdict ticket ((path, .ok), props)), changed) ∧
      (changed.map KssHandle.memory).getD (m.assign cells) =
        m.assign (replay cells (m.verdict ticket ((path, .ok), props)).toOption.toList) := by
  have htree := m.sameTree_assign cells
  have hlookup := (htree.sound h).getChildByPath_eq env hp
  rw [htree.find_eq] at hlookup
  simp only [KsSimpleServer.setVarItem, verdict, hlookup]
  cases hwrite : ticket.canWriteVar path.toPltString with
  | false => exact ⟨none, rfl, rfl⟩
  | true =>
    cases hfind : m.find (path.components.map cString) with
    | none => exact ⟨none, rfl, rfl⟩
    | some a =>
      obtain ⟨obj, hobj⟩ := h.object_of_find hfind
      have hobj' : (⟨m.assign cells, env, a⟩ : KssHandle).object =
          some (obj.withRegister (cells a)) := by
        rw [KssHandle.object, getElem?_assign, hobj]
        rfl
      have htype : KssCommObject.typeCode (⟨m.assign cells, env, a⟩ : KssHandle) =
          obj.typeCode := by
        simp only [KssCommObject.typeCode, typeCodeAt_assign]
        simp [typeCodeAt, hobj]
      simp only [Option.map_some, KsSimpleServer.hasCurrProps, htype, KssCommObject.setCurrProps,
        hobj', hobj, Option.elim_some]
      have hsame : (m.assign cells).write a (obj.withRegister (cells a)) = m.assign cells := by
        rw [write_assign hobj, Function.update_eq_self]
      obtain ⟨hnot, haccepts⟩ | ⟨hhas, hset⟩ :=
        (obj.withRegister (cells a)).setCurrProps_cases props
      · rw [KssObject.typeCode_withRegister] at hnot
        rw [KssObject.accepts_withRegister] at haccepts
        simp only [haccepts, if_neg hnot]
        exact ⟨none, rfl, rfl⟩
      · rw [KssObject.typeCode_withRegister] at hhas
        simp only [KssObject.accepts_withRegister, KssObject.withRegister_withRegister] at hset
        simp only [if_pos hhas]
        cases haccepts : obj.accepts props with
        | error res =>
          rw [haccepts] at hset
          exact ⟨some ⟨(m.assign cells).write a (obj.withRegister (cells a)), env, a⟩,
            by rw [hset]; rfl, hsame⟩
        | ok r =>
          rw [haccepts] at hset
          exact ⟨some ⟨(m.assign cells).write a (obj.withRegister r), env, a⟩,
            by rw [hset]; rfl, write_assign hobj r⟩

theorem Sound.setVarItems_eq (h : m.Sound)
    {items : List ((KsPath × KsResultCode) × Option KsCurrProps)}
    (hproper : ∀ item ∈ items, item.1.2 = KsResultCode.ok → item.1.1.Proper)
    (cells : ℕ → KssRegister) {results results' : List KsResultCode} {m' : KssMemory}
    (hset : KsSimpleServer.setVarItems env ticket items results (m.assign cells) =
      some (results', m')) :
    results' = items.map (fun item => resultOf (m.verdict ticket item)) ++
        results.drop items.length ∧
      m' = m.assign (replay cells (m.accepted ticket items)) := by
  induction items generalizing cells results results' with
  | nil =>
    cases hset
    exact ⟨rfl, rfl⟩
  | cons item items ih =>
    obtain ⟨⟨path, pathres⟩, props⟩ := item
    cases results with
    | nil => cases hset
    | cons result results =>
      obtain ⟨hproper, hrest⟩ := List.forall_mem_cons.mp hproper
      have hitem : KsSimpleServer.setVarRound (m.assign cells) env ticket ((path, pathres), props) =
          (resultOf (m.verdict ticket ((path, pathres), props)),
            m.assign (replay cells (m.verdict ticket ((path, pathres), props)).toOption.toList)) := by
        rw [KsSimpleServer.setVarRound]
        by_cases hok : pathres = KsResultCode.ok
        · subst hok
          obtain ⟨changed, hitem, hmemory⟩ :=
            @Sound.setVarItem_eq m cells ticket h env path (hproper rfl) props
          rw [if_pos rfl, hitem]
          exact Prod.ext rfl hmemory
        · have hverdict : m.verdict ticket ((path, pathres), props) = .error pathres := by
            simp [verdict, hok]
          rw [if_neg hok, hverdict]
          rfl
      rw [KsSimpleServer.setVarItems, hitem] at hset
      obtain ⟨⟨rest, m''⟩, hset', hsome⟩ := Option.bind_eq_some_iff.mp hset
      cases hsome
      obtain ⟨rfl, rfl⟩ := ih hrest _ hset'
      refine ⟨rfl, ?_⟩
      rw [← replay_append]
      congr 2
      simp only [accepted, List.filterMap_cons]
      cases (m.verdict ticket ((path, pathres), props)).toOption <;> rfl

end KssMemory

namespace KsSimpleServer
variable {m m' : KssMemory} {cells : ℕ → KssRegister} {call : ClientCall}
  {calls : List ClientCall} {replies : List ServiceReply} {reply : ServiceReply} {a : ℕ}

/-- The items of a request to write, with their paths. -/
def setItems (params : KsSetVarParams) : List ((KsPath × KsResultCode) × Option KsCurrProps) :=
  ((KsPath.resolvePaths (params.items.map KsSetVarItem.pathAndName)).getD []).zip
    (params.items.map KsSetVarItem.currProps)

/-- What a call writes to the registers of the memory. -/
def writes (m : KssMemory) (call : ClientCall) : List (ℕ × KssRegister) :=
  match call.service with
  | .setVar true params _ => m.accepted call.ticket (setItems params)
  | _ => []

/-- The results of a call that writes are settled by what the memory is like without its
registers. -/
def Settled (m : KssMemory) (call : ClientCall) : ServiceReply → Prop
  | .setVar r => ∀ params result, call.service = .setVar true params result →
      r.result = .ok ∧ r.results = (setItems params).map (fun item =>
        KssMemory.resultOf (m.verdict call.ticket item)) ++
          result.results.drop params.items.length
  | _ => True

/-- One call writes what it writes to the registers, and reads do not write. -/
theorem serve_assign (h : m.Sound) (cells : ℕ → KssRegister)
    (hserve : serve (m.assign cells) call = some (reply, m')) :
    m' = m.assign (replay cells (writes m call)) ∧ Settled m call reply := by
  obtain ⟨env, ticket, service⟩ := call
  cases service with
  | getVar room params result =>
    obtain ⟨r, -, hsome⟩ := Option.map_eq_some_iff.mp hserve
    cases hsome
    exact ⟨rfl, trivial⟩
  | getEP params result =>
    obtain ⟨r, -, hsome⟩ := Option.map_eq_some_iff.mp hserve
    cases hsome
    exact ⟨rfl, trivial⟩
  | setVar room params result =>
    obtain ⟨⟨r, m''⟩, hset, hsome⟩ := Option.map_eq_some_iff.mp hserve
    cases hsome
    cases room with
    | false =>
      cases hset
      exact ⟨rfl, by rintro _ _ ⟨⟩⟩
    | true =>
      rw [setVar, if_pos rfl] at hset
      obtain ⟨paths, hpaths, hset⟩ := Option.bind_eq_some_iff.mp hset
      obtain ⟨⟨results, m''⟩, hset, hsome⟩ := Option.bind_eq_some_iff.mp hset
      cases hsome
      have hitems : setItems params = paths.zip (params.items.map KsSetVarItem.currProps) := by
        rw [setItems, hpaths, Option.getD_some]
      have hlength : (setItems params).length = params.items.length := by
        rw [hitems, List.length_zip, KsPath.length_resolvePaths hpaths]
        simp
      have hproper : ∀ item ∈ setItems params, item.1.2 = KsResultCode.ok → item.1.1.Proper := by
        intro item hitem
        rw [hitems] at hitem
        exact KsPath.resolvePaths_proper hpaths item.1 (List.of_mem_zip hitem).1
      rw [← hitems] at hset
      obtain ⟨rfl, rfl⟩ := h.setVarItems_eq hproper cells hset
      refine ⟨rfl, ?_⟩
      rintro _ _ ⟨⟩
      exact ⟨rfl, by rw [hlength]⟩

/-- The calls of a run, each with what it is answered. -/
theorem serveAll_assign (h : m.Sound) (cells : ℕ → KssRegister)
    (hserve : serveAll (m.assign cells) calls = some (replies, m')) :
    m' = m.assign (replay cells (calls.flatMap (writes m))) ∧
      List.Forall₂ (Settled m) calls replies := by
  induction calls generalizing cells replies with
  | nil =>
    cases hserve
    exact ⟨rfl, .nil⟩
  | cons call calls ih =>
    obtain ⟨⟨reply, m₁⟩, hfirst, hserve⟩ := Option.bind_eq_some_iff.mp hserve
    obtain ⟨⟨rest, m₂⟩, hrest, hsome⟩ := Option.bind_eq_some_iff.mp hserve
    cases hsome
    obtain ⟨rfl, hsettled⟩ := serve_assign h cells hfirst
    obtain ⟨rfl, hothers⟩ := ih _ hrest
    exact ⟨by rw [List.flatMap_cons, replay_append], .cons hsettled hothers⟩

end KsSimpleServer
end AcpltKs
