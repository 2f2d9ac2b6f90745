import MrAndRaft.Lib.Remote
import MrAndRaft.Rpc.Operations

/-! Programs deployed on the simulated network: the instances, their persisters, the network and
the test that starts and crashes them, all of them running at once. -/

namespace MrAndRaft.Labrpc

structure Wiring (Q : Type) where
  svcMeth : Q → Name
  service : Name
  methods : List Method

structure World (n : Nat) (σ Q R D : Type) where
  config : Config n
  traffic : Traffic (Nat × Fin n) (Fin n) Q R
  states : List σ
  /-- Of every persister ever made; `none` has no state in it. -/
  contents : List (Option D)
  /-- The callers that have gone on with the reply. -/
  accepted : Nat → Bool
  /-- What is left of the operation the test is in. -/
  todo : List (Command n)

namespace World

inductive Event (n : Nat) (A R : Type) where
  | op (o : Op n)
  | command
  | stop
  | net (k : Nat) (m : Move R)
  | act (j : Nat) (a : A)
  | handle (k : Nat)
  | release (k : Nat)
  | accept (j k : Nat)

variable {n : Nat} {σ Q R D A : Type}

def init : World n σ Q R D where
  config := .init
  traffic := .make
  states := []
  contents := []
  accepted _ := false
  todo := []

/-- The moves a program has no part in. -/
def internal : Move R → Bool
  | .handle _ => false
  | .handlerReturns => false
  | _ => true

def savedState (w : World n σ Q R D) (i : Fin n) : Option D :=
  (w.config.saved i).bind fun p => w.contents.getD p none

def data (b : Remote.Behaviour (Fin n) σ Q R D A) (wiring : Wiring Q) (w : World n σ Q R D) :
    Command n → World n σ Q R D
  | .copySaved i =>
    if w.config.saved i = none then w
    else { w with contents := w.contents ++ [w.savedState i] }
  | .renewSaved i =>
    if w.config.saved i = none then w
    else { w with contents := w.contents ++ [w.savedState i] }
  | .makePersister i => { w with contents := w.contents ++ [w.savedState i] }
  | .make i =>
    { w with
      states := w.states ++ [b.boot i (w.savedState i)]
      traffic := { w.traffic with pool := w.traffic.pool ++
        [makeServer.addService (makeService wiring.service w.states.length wiring.methods)] } }
  | _ => w

def callAll (wiring : Wiring Q) (t : Traffic (Nat × Fin n) (Fin n) Q R) (ends : Nat)
    (reqs : List (Fin n × Q)) : Traffic (Nat × Fin n) (Fin n) Q R :=
  { t with calls := t.calls ++ reqs.map fun (j, q) =>
      { endname := (ends, j), svcMeth := wiring.svcMeth q, args := q } }

def saveRaftState (contents : List (Option D)) (persister : Nat) : Option D → List (Option D)
  | none => contents
  | some d => contents.set persister (some d)

/-- A step of one of the many goroutines; `none` if there is no such step. -/
def step (b : Remote.Behaviour (Fin n) σ Q R D A) (wiring : Wiring Q) (wire : Wire Q R)
    (w : World n σ Q R D) : Event n A R → Option (World n σ Q R D)
  | .op o => if w.todo.isEmpty && o.allowed w.config then some { w with todo := o.commands } else none
  | .command =>
    match w.todo with
    | [] => none
    | cmd :: rest => do
      let config ← (w.config.run cmd).toOption
      return { w.data b wiring cmd with config, todo := rest }
  | .stop =>
    if w.config.switch.done then some { w with traffic := { w.traffic with listening := false } }
    else none
  | .net k m => do
    if internal m then
      let traffic ← (w.traffic.move wire w.config.switch k m).toOption
      return { w with traffic }
    else none
  | .act j a => do
    let inst ← w.config.instances[j]?
    let st ← w.states[j]?
    let (st', d, reqs) ← b.act inst.name st a
    return { w with
      states := w.states.set j st'
      contents := saveRaftState w.contents inst.persister d
      traffic := callAll wiring w.traffic inst.ends reqs }
  | .handle k => do
    let c ← w.traffic.calls[k]?
    let .running _ i := c.handler | none
    let inst ← w.config.instances[i]?
    let st ← w.states[i]?
    let (st', r) ← b.handle inst.name st c.args
    let traffic ← (w.traffic.move wire w.config.switch k (.handle r)).toOption
    return { w with states := w.states.set i st', traffic }
  | .release k => do
    let c ← w.traffic.calls[k]?
    let .replied _ i r := c.handler | none
    let inst ← w.config.instances[i]?
    let st ← w.states[i]?
    let st' ← b.release inst.name st c.args r
    let traffic ← (w.traffic.move wire w.config.switch k .handlerReturns).toOption
    return { w with states := w.states.set i st', traffic }
  -- the caller is the instance the end was made for
  | .accept j k => do
    let c ← w.traffic.calls[k]?
    let .returned (some r) := c.phase | none
    let inst ← w.config.instances[j]?
    let st ← w.states[j]?
    if inst.ends = c.endname.1 && !w.accepted k then
      let (st', reqs) ← b.accept inst.name st c.endname.2 c.args r
      return { w with
        states := w.states.set j st'
        accepted := Function.update w.accepted k true
        traffic := callAll wiring w.traffic inst.ends reqs }
    else none

end World

end MrAndRaft.Labrpc
