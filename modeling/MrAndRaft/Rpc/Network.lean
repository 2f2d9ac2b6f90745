import Mathlib.Logic.Function.Basic
import MrAndRaft.Lib.History

/-! The simulated network.  A goroutine of the network takes a request, another one runs its
handler, and a reply goes back only if the server that ran it is still there. -/

namespace MrAndRaft.Labrpc

abbrev Name := List Char

structure Method where
  name : Name
  exported : Bool
  numIn : Nat
  replyIsPtr : Bool
  numOut : Nat

structure Service where
  name : Name
  rcvr : Nat
  methods : List Name

def makeService (name : Name) (rcvr : Nat) (methods : List Method) : Service where
  name
  rcvr
  methods := (methods.filter fun m =>
    m.exported && m.numIn == 3 && m.replyIsPtr && m.numOut == 0).map Method.name

structure Server where
  services : Name → Option Service
  count : BitVec 64

def makeServer : Server := ⟨fun _ => none, 0⟩

def Server.addService (rs : Server) (svc : Service) : Server :=
  { rs with services := Function.update rs.services svc.name (some svc) }

/-- The parts before and after the last dot; `none` is a panic. -/
def splitMethod : Name → Option (Name × Name)
  | [] => none
  | ch :: rest =>
    match splitMethod rest with
    | some (service, method) => some (ch :: service, method)
    | none => if ch = '.' then some ([], rest) else none

/-- The receiver `dispatch` calls; `none` is a panic or a `log.Fatalf`. -/
def Server.dispatch (rs : Server) (svcMeth : Name) : Option Nat :=
  match splitMethod svcMeth with
  | none => none
  | some (serviceName, methodName) =>
    match rs.services serviceName with
    | none => none
    | some svc => if methodName ∈ svc.methods then some svc.rcvr else none

/-- What `readEndnameInfo` returned for a connection that is enabled.  A server is a
pointer, too: its place among all servers made so far. -/
structure Info (S : Type) where
  servername : S
  server : Nat
  reliable : Bool
  longreordering : Bool
  deriving DecidableEq

/-- Where `Call` and `processReq` are; the message `none` is `{false, nil}`. -/
inductive Phase (S R : Type) where
  | sending
  | received
  | accepted (info : Info S)
  | waiting (info : Info S)
  | finished (info : Info S) (reply : Option R)
  | replying (msg : Option R)
  | returned (msg : Option R)
  deriving DecidableEq

/-- Where the goroutine is that runs the handler.  A handler may have written its reply and
not have returned; one that has returned waits to send on `ech`. -/
inductive Handler (R : Type) where
  | none
  | spawned (server : Nat)
  | running (server rcvr : Nat)
  | replied (server rcvr : Nat) (reply : R)
  | returned (server rcvr : Nat) (reply : R)
  | ended (server rcvr : Nat) (reply : R)
  deriving DecidableEq

structure Pending (E S Q R : Type) where
  endname : E
  svcMeth : Name
  args : Q
  phase : Phase S R := .sending
  handler : Handler R := .none

structure Switch (E S : Type) where
  reliable : Bool
  longReordering : Bool
  ends : E → Bool
  enabled : E → Bool
  servers : S → Option Nat
  connections : E → Option S
  done : Bool

/-- Every call ever made and every server ever made; `listening` until the goroutine that
receives from `endCh` has seen `done`. -/
structure Traffic (E S Q R : Type) where
  listening : Bool
  count : BitVec 32
  bytes : BitVec 64
  pool : List Server
  calls : List (Pending E S Q R)

structure Network (E S Q R : Type) where
  switch : Switch E S
  traffic : Traffic E S Q R

structure Wire (Q R : Type) where
  argsLen : Q → Nat
  replyLen : R → Nat

inductive Fate where
  | dropped
  | delayed
  | delivered
  deriving DecidableEq, Repr

inductive Move (R : Type) where
  | giveUp
  | receive
  | readEndnameInfo
  | dropRequest
  | execute
  | dispatch
  | handle (reply : R)
  | handlerReturns
  | collect
  | poll
  | drain
  | check (fate : Fate)
  | reply

inductive Admin (E S : Type) where
  | reliable (yes : Bool)
  | longReordering (yes : Bool)
  | makeEnd (endname : E)
  | addServer (servername : S) (rs : Nat)
  | deleteServer (servername : S)
  | connect (endname : E) (servername : S)
  | enable (endname : E) (enabled : Bool)
  | cleanup

def Admin.valid {E S : Type} (made : Nat) : Admin E S → Bool
  | .addServer _ rs => rs < made
  | _ => true

inductive Event (E S Q R : Type) where
  | call (endname : E) (svcMeth : Name) (args : Q)
  | move (k : Nat) (m : Move R)
  | stop
  | makeServer
  | addService (rs : Nat) (svc : Service)
  | admin (a : Admin E S)

/-- `fatal` ends the program: `log.Fatalf` or a panic. -/
inductive Fault where
  | disabled
  | fatal
  deriving DecidableEq, Repr

namespace Switch

variable {E S R : Type}

def make : Switch E S where
  reliable := true
  longReordering := false
  ends _ := false
  enabled _ := false
  servers _ := none
  connections _ := none
  done := false

/-- What `processReq` does next; without an enabled connection to a server a timer answers. -/
def readEndnameInfo (sw : Switch E S) (endname : E) : Phase S R :=
  match sw.enabled endname, sw.connections endname with
  | true, some servername =>
    match sw.servers servername with
    | some server => .accepted ⟨servername, server, sw.reliable, sw.longReordering⟩
    | none => .replying none
  | _, _ => .replying none

def isServerDead [DecidableEq S] (sw : Switch E S) (endname : E) (info : Info S) : Bool :=
  !sw.enabled endname || sw.servers info.servername ≠ some info.server

def admin [DecidableEq E] [DecidableEq S] (sw : Switch E S) : Admin E S → Except Fault (Switch E S)
  | .reliable yes => .ok { sw with reliable := yes }
  | .longReordering yes => .ok { sw with longReordering := yes }
  | .makeEnd e =>
    if sw.ends e then .error .fatal
    else .ok { sw with
      ends := Function.update sw.ends e true
      enabled := Function.update sw.enabled e false
      connections := Function.update sw.connections e none }
  | .addServer name rs => .ok { sw with servers := Function.update sw.servers name (some rs) }
  | .deleteServer name => .ok { sw with servers := Function.update sw.servers name none }
  | .connect e name =>
    .ok { sw with connections := Function.update sw.connections e (some name) }
  | .enable e enabled => .ok { sw with enabled := Function.update sw.enabled e enabled }
  -- `close` of a closed channel panics
  | .cleanup => if sw.done then .error .fatal else .ok { sw with done := true }

end Switch

def Fate.message {S R : Type} (info : Info S) (reply : R) : Fate → Except Fault (Option R)
  | .dropped => if info.reliable then .error .disabled else .ok none
  | .delayed => if info.longreordering then .ok (some reply) else .error .disabled
  | .delivered => .ok (some reply)

variable {E S Q R : Type}

def Pending.move [DecidableEq S] (sw : Switch E S) (t : Traffic E S Q R) (c : Pending E S Q R)
    (m : Move R) : Except Fault (Pending E S Q R) :=
  match m, c.phase, c.handler with
  | .giveUp, .sending, _ =>
    if sw.done then .ok { c with phase := .returned none } else .error .disabled
  | .receive, .sending, _ =>
    if t.listening then .ok { c with phase := .received } else .error .disabled
  | .readEndnameInfo, .received, _ => .ok { c with phase := sw.readEndnameInfo c.endname }
  | .dropRequest, .accepted info, _ =>
    if info.reliable then .error .disabled else .ok { c with phase := .replying none }
  | .execute, .accepted info, _ =>
    .ok { c with phase := .waiting info, handler := .spawned info.server }
  | .dispatch, _, .spawned j =>
    match t.pool[j]? with
    | none => .error .fatal
    | some rs =>
      match rs.dispatch c.svcMeth with
      | none => .error .fatal
      | some rcvr => .ok { c with handler := .running j rcvr }
  | .handle r, _, .running j rcvr => .ok { c with handler := .replied j rcvr r }
  | .handlerReturns, _, .replied j rcvr r => .ok { c with handler := .returned j rcvr r }
  | .collect, .waiting info, .returned j rcvr r =>
    .ok { c with phase := .finished info (some r), handler := .ended j rcvr r }
  | .poll, .waiting info, _ =>
    if sw.isServerDead c.endname info then .ok { c with phase := .finished info none } else .ok c
  -- while `processReq` waits it is the one that receives from `ech`
  | .drain, .waiting _, _ => .error .disabled
  | .drain, _, .returned j rcvr r => .ok { c with handler := .ended j rcvr r }
  | .check _, .finished _ none, _ => .ok { c with phase := .replying none }
  | .check fate, .finished info (some r), _ =>
    if sw.isServerDead c.endname info then .ok { c with phase := .replying none }
    else (fate.message info r).map fun msg => { c with phase := .replying msg }
  | .reply, .replying msg, _ => .ok { c with phase := .returned msg }
  | _, _, _ => .error .disabled

def Traffic.tally (wire : Wire Q R) (t : Traffic E S Q R) (c : Pending E S Q R) (m : Move R) :
    Traffic E S Q R :=
  match m, c.phase, c.handler with
  | .receive, _, _ =>
    { t with count := t.count + 1, bytes := t.bytes + .ofNat 64 (wire.argsLen c.args) }
  | .dispatch, _, .spawned j =>
    { t with pool := t.pool.modify j fun rs => { rs with count := rs.count + 1 } }
  | .reply, .replying (some r), _ => { t with bytes := t.bytes + .ofNat 64 (wire.replyLen r) }
  | _, _, _ => t

def Traffic.move [DecidableEq S] (wire : Wire Q R) (sw : Switch E S) (t : Traffic E S Q R)
    (k : Nat) (m : Move R) : Except Fault (Traffic E S Q R) :=
  match t.calls[k]? with
  | none => .error .disabled
  | some c => (c.move sw t m).map fun c' => { t.tally wire c m with calls := t.calls.set k c' }

def Traffic.make : Traffic E S Q R where
  listening := true
  count := 0
  bytes := 0
  pool := []
  calls := []

def Traffic.call (t : Traffic E S Q R) (endname : E) (svcMeth : Name) (args : Q) :
    Traffic E S Q R :=
  { t with calls := t.calls ++ [{ endname, svcMeth, args }] }

namespace Network

def makeNetwork : Network E S Q R := ⟨.make, .make⟩

def step [DecidableEq E] [DecidableEq S] (wire : Wire Q R) (s : Network E S Q R) :
    Event E S Q R → Except Fault (Network E S Q R)
  | .call e svcMeth args =>
    if s.switch.ends e then .ok { s with traffic := s.traffic.call e svcMeth args }
    else .error .disabled
  | .move k m => (s.traffic.move wire s.switch k m).map fun traffic => { s with traffic }
  | .stop =>
    if s.switch.done then .ok { s with traffic := { s.traffic with listening := false } }
    else .error .disabled
  | .makeServer =>
    .ok { s with traffic := { s.traffic with pool := s.traffic.pool ++ [Labrpc.makeServer] } }
  | .addService rs svc =>
    .ok { s with traffic := { s.traffic with
      pool := s.traffic.pool.modify rs (·.addService svc) } }
  | .admin a =>
    if a.valid s.traffic.pool.length then (s.switch.admin a).map fun switch => { s with switch }
    else .error .disabled

end Network

end MrAndRaft.Labrpc
