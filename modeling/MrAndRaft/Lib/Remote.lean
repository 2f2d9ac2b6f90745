import Mathlib.Logic.Function.Basic
import MrAndRaft.Lib.History

/-! Nodes that call one another, crash, and boot again from what they have saved.  A request is
handled at most once, and its reply is lost if the node crashes while the handler still waits. -/

namespace Remote

structure Behaviour (N σ Q R D A : Type) where
  boot : N → Option D → σ
  act : N → σ → A → Option (σ × Option D × List (N × Q))
  handle : N → σ → Q → Option (σ × R)
  release : N → σ → Q → R → Option σ
  accept : N → σ → N → Q → R → Option (σ × List (N × Q))

inductive Stage (R : Type) where
  | sent
  | handled (reply : R)
  | returned (reply : R)
  | received (reply : R)
  | lost

def Stage.serverCrash {R : Type} : Stage R → Stage R
  | .handled _ => .lost
  | st => st

/-- `orphan` once the caller has crashed. -/
structure Call (N Q R : Type) where
  src : N
  dst : N
  req : Q
  stage : Stage R := .sent
  orphan : Bool := false

structure State (N σ Q R D : Type) where
  node : N → σ
  stored : N → Option D
  calls : List (Call N Q R)

inductive Event (N A : Type) where
  | act (i : N) (a : A)
  | handle (k : Nat)
  | release (k : Nat)
  | accept (k : Nat)
  | crash (i : N)

variable {N σ Q R D A : Type} [DecidableEq N]

def Call.crash (i : N) (c : Call N Q R) : Call N Q R :=
  { c with
    stage := if c.dst = i then c.stage.serverCrash else c.stage
    orphan := c.orphan || c.src = i }

namespace State

def init (b : Behaviour N σ Q R D A) : State N σ Q R D where
  node i := b.boot i none
  stored _ := none
  calls := []

def setNode (s : State N σ Q R D) (i : N) (st : σ) : State N σ Q R D :=
  { s with node := Function.update s.node i st }

def save (s : State N σ Q R D) (i : N) : Option D → State N σ Q R D
  | none => s
  | some d => { s with stored := Function.update s.stored i (some d) }

def send (s : State N σ Q R D) (i : N) (reqs : List (N × Q)) : State N σ Q R D :=
  { s with calls := s.calls ++ reqs.map fun (j, q) => { src := i, dst := j, req := q } }

omit [DecidableEq N] in
@[simp]
theorem send_nil (s : State N σ Q R D) (i : N) : s.send i [] = s := by
  simp [send]

def setStage (s : State N σ Q R D) (k : Nat) (c : Call N Q R) (stage : Stage R) :
    State N σ Q R D :=
  { s with calls := s.calls.set k { c with stage } }

def crash (b : Behaviour N σ Q R D A) (s : State N σ Q R D) (i : N) : State N σ Q R D where
  node := Function.update s.node i (b.boot i (s.stored i))
  stored := s.stored
  calls := s.calls.map (Call.crash i)

end State

inductive Step (b : Behaviour N σ Q R D A) :
    State N σ Q R D → Event N A → State N σ Q R D → Prop
  | act {s i a st d reqs} :
      b.act i (s.node i) a = some (st, d, reqs) →
      Step b s (.act i a) (((s.setNode i st).save i d).send i reqs)
  | handle {s k c st r} :
      s.calls[k]? = some c → c.stage = .sent →
      b.handle c.dst (s.node c.dst) c.req = some (st, r) →
      Step b s (.handle k) ((s.setNode c.dst st).setStage k c (.handled r))
  | release {s k c st r} :
      s.calls[k]? = some c → c.stage = .handled r →
      b.release c.dst (s.node c.dst) c.req r = some st →
      Step b s (.release k) ((s.setNode c.dst st).setStage k c (.returned r))
  | accept {s k c st r reqs} :
      s.calls[k]? = some c → c.stage = .returned r → c.orphan = false →
      b.accept c.src (s.node c.src) c.dst c.req r = some (st, reqs) →
      Step b s (.accept k)
        (((s.setNode c.src st).setStage k c (.received r)).send c.src reqs)
  | crash {s i} : Step b s (.crash i) (s.crash b i)

abbrev Run (b : Behaviour N σ Q R D A) (τ : List (State N σ Q R D)) : Prop :=
  History.Run (State.init b) (Step b) τ

end Remote
