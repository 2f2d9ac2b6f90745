import Mathlib.Data.List.Basic
import MrAndRaft.Lib.History

/-! The coordinator: it hands out the map tasks, then the reduce tasks, and takes a
task back when its worker has not reported in time.  A result of `none` is an index out
of range. -/

namespace MrAndRaft.MapReduce

abbrev Bytes := List UInt8

inductive Status where
  | unstarted
  | inProgress
  | completed
  deriving DecidableEq, Repr

inductive TaskType where
  | map
  | reduce
  deriving DecidableEq, Repr

structure Task where
  num : Nat
  status : Status
  filename : Bytes
  deriving DecidableEq, Repr

structure Coordinator where
  mapTasks : List Task
  reduceTasks : List Task
  mapsLeft : Int
  reducesLeft : Int
  nReduce : Nat
  deriving DecidableEq, Repr

/-- The defaults are Go's zero values; `none` is the empty `TaskType`. -/
structure GetTaskReply where
  fileName : Bytes := []
  taskType : Option TaskType := none
  nReduce : Nat := 0
  id : Nat := 0
  nMap : Nat := 0
  done : Bool := false
  deriving DecidableEq, Repr

structure MarkCompleteArgs where
  id : Nat
  taskType : Option TaskType
  deriving DecidableEq, Repr

namespace Coordinator

def tasks (c : Coordinator) : TaskType → List Task
  | .map => c.mapTasks
  | .reduce => c.reduceTasks

def left (c : Coordinator) : TaskType → Int
  | .map => c.mapsLeft
  | .reduce => c.reducesLeft

def setStatus (c : Coordinator) (ty : TaskType) (i : Nat) (status : Status) : Coordinator :=
  let update := fun tasks : List Task => tasks.modify i ({ · with status })
  match ty with
  | .map => { c with mapTasks := update c.mapTasks }
  | .reduce => { c with reduceTasks := update c.reduceTasks }

def decrement (c : Coordinator) : TaskType → Coordinator
  | .map => { c with mapsLeft := c.mapsLeft - 1 }
  | .reduce => { c with reducesLeft := c.reducesLeft - 1 }

def handOut (c : Coordinator) (ty : TaskType) : Option (Coordinator × Task) := do
  let i ← (c.tasks ty).findIdx? (·.status = .unstarted)
  let task ← (c.tasks ty)[i]?
  return (c.setStatus ty i .inProgress, task)

/-- The second result is set when a task is handed out: the arguments of the
`DetectStraggler` goroutine that is started for it. -/
def getTask (c : Coordinator) : Coordinator × GetTaskReply × Option (Nat × TaskType) :=
  if c.mapsLeft ≠ 0 then
    match c.handOut .map with
    | none => (c, {}, none)
    | some (c, task) =>
      (c, { fileName := task.filename, taskType := some .map, nReduce := c.nReduce, id := task.num },
        some (task.num, .map))
  else if c.reducesLeft = 0 then
    (c, { done := true }, none)
  else
    match c.handOut .reduce with
    | none => (c, {}, none)
    | some (c, task) =>
      (c, { taskType := some .reduce, id := task.num, nMap := c.mapTasks.length },
        some (task.num, .reduce))

def detectStraggler (idx : Nat) (taskType : TaskType) (c : Coordinator) : Option Coordinator := do
  let task ← (c.tasks taskType)[idx]?
  if task.status = .inProgress then
    return c.setStatus taskType idx .unstarted
  else
    return c

def markComplete (args : MarkCompleteArgs) (c : Coordinator) : Option Coordinator :=
  match args.taskType with
  | none => some c
  | some ty => do
    let task ← (c.tasks ty)[args.id]?
    if task.status = .inProgress then
      return (c.setStatus ty args.id .completed).decrement ty
    else
      return c

def done (c : Coordinator) : Bool := c.reducesLeft = 0

def make (files : List Bytes) (nReduce : Nat) : Coordinator where
  mapTasks := files.mapIdx fun i file => ⟨i, .unstarted, file⟩
  reduceTasks := (List.range nReduce).map fun i => ⟨i, .unstarted, []⟩
  mapsLeft := files.length
  reducesLeft := nReduce
  nReduce := nReduce

end Coordinator

/-- A goroutine in the `time.Sleep` of `DetectStraggler`; `reply` is the position of the
reply that handed the task out. -/
structure Timer where
  idx : Nat
  taskType : TaskType
  reply : Nat
  deriving DecidableEq, Repr

structure Job where
  coordinator : Coordinator
  replies : List GetTaskReply
  timers : List Timer
  deriving DecidableEq, Repr

/-- `markComplete k` reports the task of reply `k`, and `detectStraggler k` is timer `k`
going off. -/
inductive Job.Event where
  | getTask
  | markComplete (k : Nat)
  | detectStraggler (k : Nat)
  deriving DecidableEq, Repr

inductive Job.Fault where
  | disabled
  | outOfRange
  deriving DecidableEq, Repr

namespace Job

def init (files : List Bytes) (nReduce : Nat) : Job := ⟨.make files nReduce, [], []⟩

def setCoordinator (s : Job) : Option Coordinator → Except Fault Job
  | none => .error .outOfRange
  | some coordinator => .ok { s with coordinator }

def step (s : Job) : Event → Except Fault Job
  | .getTask =>
    let (coordinator, reply, straggler) := s.coordinator.getTask
    .ok {
      coordinator
      replies := s.replies ++ [reply]
      timers := s.timers ++ straggler.toList.map fun (idx, ty) => ⟨idx, ty, s.replies.length⟩ }
  | .markComplete k =>
    match s.replies[k]? with
    | none => .error .disabled
    | some r => s.setCoordinator (s.coordinator.markComplete ⟨r.id, r.taskType⟩)
  | .detectStraggler k =>
    match s.timers[k]? with
    | none => .error .disabled
    | some t =>
      { s with timers := s.timers.eraseIdx k }.setCoordinator
        (s.coordinator.detectStraggler t.idx t.taskType)

def Run (files : List Bytes) (nReduce : Nat) (σ : List Job) : Prop :=
  History.Run (init files nReduce) (fun s e s' => s.step e = .ok s') σ

end Job

end MrAndRaft.MapReduce
