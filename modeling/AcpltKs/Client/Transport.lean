import AcpltKs.InterServer.Basic
import AcpltKs.Package.Basic

/-! Servers as a client sees them: how the transport to one is created and destroyed. The network,
the managers and the servers behind it may answer whatever they like. -/
namespace AcpltKs

def ksMinProtocolVersion : ℕ := 1

/-- How a call of the RPC library ends. -/
inductive ClntStat where
  | success
  | cantEncodeArgs
  | cantDecodeRes
  | cantSend
  | cantRecv
  | timedOut
  | versMismatch
  | authError
  | progUnavail
  | progVersMismatch
  | procUnavail
  | cantDecodeArgs
  | systemError
  | unknownHost
  | pmapFailure
  | progNotRegistered
  | failed
  | unknownProto
  deriving DecidableEq

/-- A transport of the RPC library, known by its address. -/
structure ClntHandle where
  address : ℕ
  deriving DecidableEq

/-- What negotiates access for one module and one server. One without any access control is always
there. -/
inductive KscNegotiator where
  | avNone
  | object (address : ℕ)
  deriving DecidableEq

/-- The reply to the request for a server. -/
structure KscServerInfo where
  result : KsResultCode
  reply : KsGetServerResult

/-- What the client calls. All of it may depend on what has happened before, and is free to return
anything. -/
structure KscNetwork (W P R : Type*) where
  inetAddr : KsString → UInt32
  /-- The addresses of a host; there are none if the lookup fails. -/
  getHostByName : KsString → W → List UInt32 × W
  clntTcpCreate : (addr : UInt32) → (port : UInt16) → (prog : UInt32) → (version : ℕ) → W →
    Except ClntStat ClntHandle × W
  clntUdpCreate : (addr : UInt32) → (port : UInt16) → (prog : UInt32) → (version : ℕ) → W →
    Except ClntStat ClntHandle × W
  clntDestroy : ClntHandle → W → W
  /-- The call of `KS_GETSERVER`; whatever the outcome, the reply may have been written to. -/
  callManager : ClntHandle → KsServerDesc → KscServerInfo → W → ClntStat × KscServerInfo × W
  /-- The call of a service with a negotiator, the parameters and the result to write to. -/
  callServer : ClntHandle → (service : UInt32) → KscNegotiator → P → R → W → ClntStat × R × W
  sleep : W → W
  clientAvModule : W → Option KscAvModule
  getNegotiator : KscAvModule → W → Option KscNegotiator × W
  /-- Whether there is memory for one more entry in the table of negotiators. -/
  addNegotiator : W → Bool × W

structure KscServer where
  hostName : KsString
  serverDesc : KsServerDesc
  serverInfo : KscServerInfo
  clientTransport : Option ClntHandle
  tries : ℕ
  lastIp : UInt32
  negTable : List (KscAvModule × Option KscNegotiator)
  avModule : Option KscAvModule
  lastResult : KsResultCode

def colonChar : UInt8 := 58

def inaddrNone : UInt32 := 0xFFFFFFFF
def inaddrAny : UInt32 := 0

/-- `strtol` to the base 10: the number at the beginning, and what is behind it. -/
def strtol (s : KsString) : ℤ × KsString :=
  let t : KsString := s.dropWhile fun c => c = 32 || (9 ≤ c && c ≤ 13)
  let unsigned : KsString := match t with
    | 43 :: t | 45 :: t => t
    | t => t
  let digits : KsString := unsigned.takeWhile fun c => 48 ≤ c && c ≤ 57
  let value : ℤ := digits.foldl (fun value c => 10 * value + (c.toNat - 48 : ℕ)) 0
  let value := if t.head? = some 45 then -value else value
  if digits = [] then (0, s)
  else (max (-9223372036854775808) (min 9223372036854775807 value), unsigned.drop digits.length)

/-- The name of the host, without the port of the manager behind a colon. -/
def hostPart (hostName : KsString) : Option KsString :=
  if colonChar ∈ cString hostName then
    let part := (cString hostName).takeWhile (· ≠ colonChar)
    if part = [] then none else some part
  else some hostName

/-- The port of the manager in a host name, which is 0 if the portmapper has to be asked. A number
that cannot be read or is out of range has no port. -/
def managerPort (hostName : KsString) : Option UInt16 :=
  if colonChar ∈ cString hostName then
    let number := ((cString hostName).dropWhile (· ≠ colonChar)).tail
    let (portNo, rest) := strtol number
    if number ≠ [] ∧ rest = [] then
      if 0 < portNo ∧ portNo ≤ 65535 then some (UInt16.ofNat portNo.toNat) else none
    else none
  else some 0

namespace KscServer
variable {W P R : Type*} (net : KscNetwork W P R)

/-- An address as it is written with dots; an empty name has none. -/
def dottedAddr (dnsName : KsString) : UInt32 :=
  if dnsName ≠ [] then net.inetAddr (cString dnsName) else inaddrNone

/-- The address of the host. A host with two addresses is not tried twice in a row at the same
one. -/
def getHostAddr (s : KscServer) (w : W) : Option UInt32 × KscServer × W :=
  match hostPart s.hostName with
  | none => (none, s, w)
  | some dnsName =>
      let ip := dottedAddr net dnsName
      if ip = inaddrNone ∨ ip = inaddrAny then
        let (ips, w) := net.getHostByName (cString dnsName) w
        match ips with
        | [] => (none, s, w)
        | [ip] => (some ip, { s with lastIp := ip }, w)
        | ip₀ :: ip₁ :: _ =>
            let ip := if ip₀ = s.lastIp then ip₁ else ip₀
            (some ip, { s with lastIp := ip }, w)
      else (some ip, { s with lastIp := ip }, w)

/-- A manager is asked by TCP if its port is known. -/
def managerTransport (addr : UInt32) (port : UInt16) (version : ℕ) (w : W) :
    Except ClntStat ClntHandle × W :=
  if port ≠ 0 then net.clntTcpCreate addr port ksRpcProgramNumber version w
  else net.clntUdpCreate addr port ksRpcProgramNumber version w

/-- What it means that there is no transport to the manager. -/
def resultAfterCreate : ClntStat → KsResultCode
  | .progNotRegistered | .progUnavail | .progVersMismatch => .noManager
  | _ => .cantContact

/-- Ask the manager with a protocol version, and with lower ones as long as it does not know the
version. -/
def getServerDescFrom (addr : UInt32) (port : UInt16) : ℕ → KscServer → W → Bool × KscServer × W
  | 0, s, w => (false, { s with lastResult := .cantContact }, w)
  | version + 1, s, w =>
      match managerTransport net addr port (version + 1) w with
      | (.error stat, w) => (false, { s with lastResult := resultAfterCreate stat }, w)
      | (.ok transport, w) =>
          let (errcode, info, w) := net.callManager transport s.serverDesc s.serverInfo w
          let w := net.clntDestroy transport w
          let s := { s with serverInfo := info }
          if errcode = .success then (true, { s with lastResult := .ok }, w)
          else if errcode ≠ .progVersMismatch then
            (false, { s with lastResult := .cantContact }, w)
          else if version ≥ ksMinProtocolVersion then getServerDescFrom addr port version s w
          else (false, { s with lastResult := .cantContact }, w)

def getServerDesc (addr : UInt32) (port : UInt16) (s : KscServer) (w : W) : Bool × KscServer × W :=
  getServerDescFrom net addr port ksProtocolVersion.toNat s w

def destroyTransport (s : KscServer) (w : W) : KscServer × W :=
  let w := match s.clientTransport with
    | some transport => net.clntDestroy transport w
    | none => w
  ({ s with clientTransport := none, negTable := [] }, w)

/-- Find the server and connect to it. -/
def createTransport (s : KscServer) (w : W) : Bool × KscServer × W :=
  let (s, w) := s.destroyTransport net w
  let (hostAddr, s, w) := s.getHostAddr net w
  match hostAddr, managerPort s.hostName with
  | none, _ => (false, { s with lastResult := .hostUnknown }, w)
  | some _, none => (false, { s with lastResult := .malformedPath }, w)
  | some addr, some port =>
      let (found, s, w) := getServerDesc net addr port s w
      if !found then (false, s, w)
      else if s.serverInfo.result ≠ .ok then (false, { s with lastResult := .serverUnknown }, w)
      else
        let version := s.serverInfo.reply.server.protocolVersion
        let s := { s with serverDesc.protocolVersion := version }
        match net.clntTcpCreate addr s.serverInfo.reply.port ksRpcProgramNumber version.toNat w with
        | (.error _, w) => (false, { s with lastResult := .cantContact }, w)
        | (.ok transport, w) =>
            (true, { s with clientTransport := some transport, lastResult := .ok }, w)

variable {net} {s s' : KscServer} {w w' : W}

@[simp] theorem destroyTransport_eq (s : KscServer) (w : W) :
    (s.destroyTransport net w).1 = { s with clientTransport := none, negTable := [] } := rfl

theorem getHostAddr_changes {ip : Option UInt32} (h : s.getHostAddr net w = (ip, s', w')) :
    ∃ lastIp, s' = { s with lastIp } := by
  unfold getHostAddr at h
  dsimp only at h
  split at h
  · cases h
    exact ⟨_, rfl⟩
  · split_ifs at h
    · split at h
      · cases h
        exact ⟨_, rfl⟩
      · cases h
        exact ⟨_, rfl⟩
      · cases h
        exact ⟨_, rfl⟩
    · cases h
      exact ⟨_, rfl⟩

theorem resultAfterCreate_ne_ok (stat : ClntStat) : resultAfterCreate stat ≠ .ok := by
  cases stat <;> decide

/-- Whether the manager has answered or not, only the reply and the last result change, and a
failure is one in the last result. -/
theorem getServerDescFrom_changes {addr : UInt32} {port : UInt16} {version : ℕ} {found : Bool}
    (h : getServerDescFrom net addr port version s w = (found, s', w')) :
    ∃ info result, s' = { s with serverInfo := info, lastResult := result } ∧
      (found = false → result ≠ .ok) := by
  induction version generalizing s w with
  | zero =>
    cases h
    exact ⟨_, _, rfl, fun _ => by decide⟩
  | succ version ih =>
    unfold getServerDescFrom at h
    split at h
    · cases h
      exact ⟨_, _, rfl, fun _ => resultAfterCreate_ne_ok _⟩
    · dsimp only at h
      split_ifs at h
      · cases h
        exact ⟨_, _, rfl, nofun⟩
      · cases h
        exact ⟨_, _, rfl, fun _ => by decide⟩
      · obtain ⟨info, result, hs, hfailed⟩ := ih h
        exact ⟨info, result, hs, hfailed⟩
      · cases h
        exact ⟨_, _, rfl, fun _ => by decide⟩

/-- There is a transport afterwards if the last result is fine, and none otherwise. -/
theorem createTransport_changes {created : Bool}
    (h : s.createTransport net w = (created, s', w')) :
    s'.tries = s.tries ∧ s'.clientTransport.isSome = created ∧
      (s'.lastResult = .ok ↔ created = true) := by
  unfold createTransport at h
  rcases hhost : getHostAddr net (s.destroyTransport net w).1 (s.destroyTransport net w).2 with
    ⟨hostAddr, s₁, w₁⟩
  obtain ⟨lastIp, rfl⟩ := getHostAddr_changes hhost
  dsimp only at h
  rw [hhost] at h
  dsimp only at h
  split at h
  · cases h
    exact ⟨rfl, rfl, by dsimp only; decide⟩
  · cases h
    exact ⟨rfl, rfl, by dsimp only; decide⟩
  · rename_i addr port _
    rcases hdesc : getServerDesc net addr port
      { (s.destroyTransport net w).1 with lastIp := lastIp } w₁ with ⟨found, s₂, w₂⟩
    obtain ⟨info, result, rfl, hfailed⟩ := getServerDescFrom_changes hdesc
    rw [hdesc] at h
    dsimp only at h
    cases found with
    | false =>
      cases h
      exact ⟨rfl, rfl, by simpa using hfailed rfl⟩
    | true =>
      simp only [Bool.not_true, Bool.false_eq_true, ↓reduceIte] at h
      split_ifs at h
      · cases h
        exact ⟨rfl, rfl, by dsimp only; decide⟩
      · split at h
        · cases h
          exact ⟨rfl, rfl, by dsimp only; decide⟩
        · cases h
          exact ⟨rfl, rfl, by dsimp only; decide⟩

end KscServer
end AcpltKs
