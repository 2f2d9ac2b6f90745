import Mathlib.Data.List.FinRange
import MrAndRaft.Lib.Program
import MrAndRaft.Rpc.Network

/-! The harness that starts peers, crashes them and cuts them off.  An instance that was crashed
cannot be killed: it keeps its ends and its persister, which must no longer matter. -/

namespace MrAndRaft.Labrpc

/-- What a Raft object was made with.  Persisters, end names and objects are counted as they are
made; `randstring` is taken never to repeat itself, and `ends` stands for the set of names drawn
for the object with that number. -/
structure Instance (n : Nat) where
  name : Fin n
  persister : Nat
  ends : Nat
  deriving DecidableEq

structure Config (n : Nat) where
  switch : Switch (Nat × Fin n) (Fin n)
  connected : Fin n → Bool
  /-- `endnames[i][j]` is the pair of what is found here and `j`. -/
  endnames : Fin n → Option Nat
  saved : Fin n → Option Nat
  rafts : Fin n → Option Nat
  persisters : Nat
  instances : List (Instance n)

/-- The steps of `connect`, `disconnect`, `crash1` and `start1` that others can run between. -/
inductive Command (n : Nat) where
  | setConnected (i : Fin n) (yes : Bool)
  | enableOutgoing (i j : Fin n)
  | enableIncoming (i j : Fin n)
  | disableOutgoing (i j : Fin n)
  | disableIncoming (i j : Fin n)
  | deleteServer (i : Fin n)
  | copySaved (i : Fin n)
  | kill (i : Fin n)
  | renewSaved (i : Fin n)
  | drawEndnames (i : Fin n)
  | makeEnd (i j : Fin n)
  | connectEnd (i j : Fin n)
  | makePersister (i : Fin n)
  | make (i : Fin n)
  | addServer (i : Fin n)
  | admin (a : Admin (Nat × Fin n) (Fin n))

namespace Config

variable {n : Nat}

def init : Config n where
  switch := .make
  connected _ := false
  endnames _ := none
  saved _ := none
  rafts _ := none
  persisters := 0
  instances := []

def admin (c : Config n) (a : Admin (Nat × Fin n) (Fin n)) : Except Fault (Config n) :=
  (c.switch.admin a).map fun switch => { c with switch }

def newSaved (c : Config n) (i : Fin n) : Config n :=
  { c with
    saved := Function.update c.saved i (some c.persisters)
    persisters := c.persisters + 1 }

/-- Indexing a nil slice panics. -/
def endname (c : Config n) (i j : Fin n) : Except Fault (Nat × Fin n) :=
  match c.endnames i with
  | some g => .ok (g, j)
  | none => .error .fatal

def run (c : Config n) : Command n → Except Fault (Config n)
  | .setConnected i yes => .ok { c with connected := Function.update c.connected i yes }
  | .enableOutgoing i j =>
    if c.connected j then (c.endname i j).bind fun e => c.admin (.enable e true) else .ok c
  | .enableIncoming i j =>
    if c.connected j then (c.endname j i).bind fun e => c.admin (.enable e true) else .ok c
  | .disableOutgoing i j =>
    match c.endnames i with
    | some g => c.admin (.enable (g, j) false)
    | none => .ok c
  | .disableIncoming i j =>
    match c.endnames j with
    | some g => c.admin (.enable (g, i) false)
    | none => .ok c
  | .deleteServer i => c.admin (.deleteServer i)
  | .copySaved i => .ok (if c.saved i = none then c else c.newSaved i)
  | .kill i => .ok { c with rafts := Function.update c.rafts i none }
  | .renewSaved i => .ok (if c.saved i = none then c else c.newSaved i)
  | .drawEndnames i =>
    .ok { c with endnames := Function.update c.endnames i (some c.instances.length) }
  | .makeEnd i j => (c.endname i j).bind fun e => c.admin (.makeEnd e)
  | .connectEnd i j => (c.endname i j).bind fun e => c.admin (.connect e j)
  | .makePersister i => .ok (c.newSaved i)
  | .make i =>
    match c.saved i, c.endnames i with
    | some persister, some ends =>
      .ok { c with
        rafts := Function.update c.rafts i (some c.instances.length)
        instances := c.instances ++ [⟨i, persister, ends⟩] }
    | _, _ => .error .fatal
  -- the server that was made together with the object
  | .addServer i =>
    match c.rafts i with
    | some rf => c.admin (.addServer i rf)
    | none => .error .fatal
  | .admin a => c.admin a

end Config

inductive Op (n : Nat) where
  | connect (i : Fin n)
  | disconnect (i : Fin n)
  | crash1 (i : Fin n)
  | start1 (i : Fin n)
  | setunreliable (unrel : Bool)
  | setlongreordering (longrel : Bool)
  | cleanup

variable {n : Nat}

def connect (i : Fin n) : List (Command n) :=
  .setConnected i true ::
    ((List.finRange n).map (.enableOutgoing i) ++ (List.finRange n).map (.enableIncoming i))

def disconnect (i : Fin n) : List (Command n) :=
  .setConnected i false ::
    ((List.finRange n).map (.disableOutgoing i) ++ (List.finRange n).map (.disableIncoming i))

def crash1 (i : Fin n) : List (Command n) :=
  disconnect i ++ [.deleteServer i, .copySaved i, .kill i, .renewSaved i]

def start1 (i : Fin n) : List (Command n) :=
  crash1 i ++ (.drawEndnames i ::
    ((List.finRange n).flatMap (fun j => [.makeEnd i j, .connectEnd i j]) ++
      [.makePersister i, .make i, .addServer i]))

def Op.commands : Op n → List (Command n)
  | .connect i => Labrpc.connect i
  | .disconnect i => Labrpc.disconnect i
  | .crash1 i => Labrpc.crash1 i
  | .start1 i => Labrpc.start1 i
  | .setunreliable unrel => [.admin (.reliable !unrel)]
  | .setlongreordering longrel => [.admin (.longReordering longrel)]
  | .cleanup => [.admin .cleanup]

/-- The tests connect only what they have started and not crashed since. -/
def Op.allowed (c : Config n) : Op n → Bool
  | .connect i => (c.rafts i).isSome
  | _ => true

end MrAndRaft.Labrpc
