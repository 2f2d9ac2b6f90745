import Mathlib.Logic.Relation
import MrAndRaft.Lib.History
import MrAndRaft.Lock.Server

/-! One server's apply path: the Raft peer sends committed entries on `applyCh` while
it holds `rf.mu`, and the lock server's loop takes `rf.mu` in `rf.GetState`. -/

namespace MrAndRaft.RaftLock

variable {K ID : Type}

/-- Where `applyOpsLoop` is.  From `asking` on it holds `ls.mu`, which nobody else
holds while waiting for something. -/
inductive Loop (K ID : Type) where
  | waiting
  | received (msg : ApplyMsg (Op K ID))
  | asking (msg : ApplyMsg (Op K ID))
  | giving (owner : ID)

def Loop.inGetState : Loop K ID → Bool
  | .asking _ | .giving _ => true
  | .waiting | .received _ => false

/-- `committing` is `some` while a commit holds `rf.mu`: the entries it has not sent yet. -/
structure Host (K ID : Type) where
  server : LockServer K ID
  isLeader : Bool
  committing : Option (List (ApplyMsg (Op K ID)))
  applyCh : List (ApplyMsg (Op K ID))
  loop : Loop K ID

inductive Move where
  | send
  | unlock
  | receive
  | take
  | getState
  deriving DecidableEq, Repr

inductive HostAction (K ID : Type) where
  | elect (isLeader : Bool)
  | commit (msgs : List (ApplyMsg (Op K ID)))
  | move (m : Move)

inductive Blocked where
  | rfMu
  | channel
  | elsewhere
  deriving DecidableEq, Repr

/-- `make(chan raft.ApplyMsg, 1)` -/
def applyChCapacity : Nat := 1

def LockServer.asks (ls : LockServer K ID) (msg : ApplyMsg (Op K ID)) : Bool :=
  msg.commandValid && ls.isNew msg.command

theorem LockServer.asks_applyMsg [DecidableEq K] [DecidableEq ID] [Inhabited ID]
    {ls : LockServer K ID} {msg : ApplyMsg (Op K ID)} (isLeader : Bool) (h : ¬ ls.asks msg) :
    (ls.applyMsg isLeader msg).1.asks = ls.asks := by
  funext msg'
  cases hvalid : msg.commandValid with
  | false => rw [applyMsg_of_invalid isLeader ls hvalid]
  | true =>
    have hnew : ls.isNew msg.command = false := by simpa [asks, hvalid] using h
    have hskip : (ls.applyMsg isLeader msg).1 = ls.sendResult msg.commandIndex msg.command := by
      simp [applyMsg, hvalid, hnew]
    rw [hskip]
    rfl

namespace Host

def init : Host K ID := ⟨.start, false, none, [], .waiting⟩

/-- The number of messages from the first one on that makes the loop ask for `rf.mu`. -/
def backlog (h : Host K ID) (unsent : List (ApplyMsg (Op K ID))) : Nat :=
  match h.loop with
  | .waiting => ((h.applyCh ++ unsent).dropWhile fun msg => !h.server.asks msg).length
  | .received msg => ((msg :: h.applyCh ++ unsent).dropWhile fun msg => !h.server.asks msg).length
  | .asking _ | .giving _ => (h.applyCh ++ unsent).length + 1

variable [DecidableEq K] [DecidableEq ID] [Inhabited ID]

def step (h : Host K ID) : HostAction K ID → Except Blocked (Host K ID)
  | .elect isLeader =>
    if h.committing.isSome then .error .rfMu else .ok { h with isLeader }
  | .commit msgs =>
    if h.committing.isSome then .error .rfMu else .ok { h with committing := some msgs }
  | .move .send =>
    match h.committing with
    | some (msg :: msgs) =>
      if h.applyCh.length < applyChCapacity then
        .ok { h with committing := some msgs, applyCh := h.applyCh ++ [msg] }
      else .error .channel
    | _ => .error .elsewhere
  | .move .unlock =>
    match h.committing with
    | some [] => .ok { h with committing := none }
    | _ => .error .elsewhere
  | .move .receive =>
    match h.loop, h.applyCh with
    | .waiting, msg :: msgs => .ok { h with loop := .received msg, applyCh := msgs }
    | .waiting, [] => .error .channel
    | _, _ => .error .elsewhere
  | .move .take =>
    match h.loop with
    | .received msg =>
      if h.server.asks msg then .ok { h with loop := .asking msg }
      else .ok { h with server := (h.server.applyMsg h.isLeader msg).1, loop := .waiting }
    | _ => .error .elsewhere
  | .move .getState =>
    match h.loop with
    | .asking msg =>
      if h.committing.isSome then .error .rfMu
      else
        let (server, _, owner) := h.server.applyMsg h.isLeader msg
        .ok { h with server, loop := owner.elim .waiting .giving }
    | .giving _ => if h.committing.isSome then .error .rfMu else .ok { h with loop := .waiting }
    | _ => .error .elsewhere

def Run (ok : Host K ID → HostAction K ID → Prop) (σ : List (Host K ID)) : Prop :=
  History.Run init (fun h a h' => ok h a ∧ h.step a = .ok h') σ

def Stuck (h : Host K ID) : Prop :=
  (h.committing.getD [] ≠ [] ∨ h.loop ≠ .waiting) ∧ ∀ m, (h.step (.move m)).isOk = false

theorem stuck_of_inGetState {h : Host K ID} (hsend : h.committing.getD [] ≠ [])
    (hfull : applyChCapacity ≤ h.applyCh.length) (hloop : h.loop.inGetState = true) :
    h.Stuck := by
  obtain ⟨server, isLeader, committing, applyCh, loop⟩ := h
  refine ⟨.inl hsend, fun m => ?_⟩
  cases committing with
  | none => simp at hsend
  | some msgs =>
    cases msgs with
    | nil => simp at hsend
    | cons msg msgs =>
      cases loop <;> simp [Loop.inGetState] at hloop <;> cases m <;>
        simp [step, Except.isOk, Except.toBool, Nat.not_lt.mpr hfull]

inductive Moved (h : Host K ID) : Host K ID → Prop
  | send {msg msgs} : h.committing = some (msg :: msgs) → h.applyCh.length < applyChCapacity →
      Moved h { h with committing := some msgs, applyCh := h.applyCh ++ [msg] }
  | unlock : h.committing = some [] → Moved h { h with committing := none }
  | receive {msg msgs} : h.loop = .waiting → h.applyCh = msg :: msgs →
      Moved h { h with loop := .received msg, applyCh := msgs }
  | ask {msg} : h.loop = .received msg → h.server.asks msg →
      Moved h { h with loop := .asking msg }
  | skip {msg} : h.loop = .received msg → ¬ h.server.asks msg →
      Moved h { h with server := (h.server.applyMsg h.isLeader msg).1, loop := .waiting }
  | answer {server loop} : h.committing = none → Moved h { h with server, loop }

theorem step_move {h h' : Host K ID} {m : Move} (hs : h.step (.move m) = .ok h') :
    h.Moved h' := by
  cases m with
  | send =>
    simp only [step] at hs
    split at hs
    · rename_i hmsgs
      split at hs <;> cases hs
      exact .send hmsgs ‹_›
    · cases hs
  | unlock =>
    simp only [step] at hs
    split at hs <;> cases hs
    exact .unlock ‹_›
  | receive =>
    simp only [step] at hs
    split at hs <;> cases hs
    exact .receive ‹_› ‹_›
  | take =>
    simp only [step] at hs
    split at hs
    · rename_i hloop
      split at hs <;> cases hs
      · exact .ask hloop ‹_›
      · exact .skip hloop ‹_›
    · cases hs
  | getState =>
    simp only [step] at hs
    split at hs
    · split at hs <;> cases hs
      exact .answer (Option.not_isSome_iff_eq_none.mp ‹_›)
    · split at hs <;> cases hs
      exact .answer (Option.not_isSome_iff_eq_none.mp ‹_›)
    · cases hs

namespace Moved

variable {h h' : Host K ID}

theorem room (hm : h.Moved h') (hroom : h.applyCh.length ≤ applyChCapacity) :
    h'.applyCh.length ≤ applyChCapacity := by
  cases hm with
  | send _ hlt =>
    rw [List.length_append]
    exact hlt
  | receive _ hch =>
    rw [hch] at hroom
    exact Nat.le_of_succ_le hroom
  | _ => exact hroom

theorem backlog {msgs' : List (ApplyMsg (Op K ID))} (hm : h.Moved h')
    (hmsgs' : h'.committing = some msgs') :
    ∃ msgs, h.committing = some msgs ∧ h'.backlog msgs' = h.backlog msgs := by
  cases hm with
  | send hsend =>
    cases hmsgs'
    exact ⟨_, hsend, by simp [Host.backlog]⟩
  | unlock => cases hmsgs'
  | receive hloop hch => exact ⟨msgs', hmsgs', by simp [Host.backlog, hloop, hch]⟩
  | ask hloop hasks => exact ⟨msgs', hmsgs', by simp [Host.backlog, hloop, hasks]⟩
  | skip hloop hasks =>
    refine ⟨msgs', hmsgs', ?_⟩
    simp [Host.backlog, hloop, LockServer.asks_applyMsg h.isLeader hasks, hasks]
  | answer hfree =>
    rw [hfree] at hmsgs'
    cases hmsgs'

end Moved

/-- A commit leaves at most one message for the loop and one for the channel, from
the first one on that makes the loop ask for `rf.mu`. -/
def Short (h : Host K ID) : HostAction K ID → Prop
  | .commit msgs => h.backlog msgs ≤ applyChCapacity + 1
  | _ => True

structure Ok (h : Host K ID) : Prop where
  room : h.applyCh.length ≤ applyChCapacity
  short : ∀ msgs, h.committing = some msgs → h.backlog msgs ≤ applyChCapacity + 1

theorem Ok.step {h h' : Host K ID} {a : HostAction K ID} (hok : h.Ok) (hshort : h.Short a)
    (hs : h.step a = .ok h') : h'.Ok := by
  cases a with
  | elect isLeader =>
    simp only [Host.step] at hs
    split at hs <;> cases hs
    exact ⟨hok.room, hok.short⟩
  | commit msgs =>
    simp only [Host.step] at hs
    split at hs <;> cases hs
    refine ⟨hok.room, fun msgs' hmsgs' => ?_⟩
    cases hmsgs'
    exact hshort
  | move m =>
    have hm := step_move hs
    refine ⟨hm.room hok.room, fun msgs' hmsgs' => ?_⟩
    obtain ⟨msgs, hmsgs, heq⟩ := hm.backlog hmsgs'
    rw [heq]
    exact hok.short msgs hmsgs

theorem Ok.not_stuck {h : Host K ID} (hok : h.Ok) : ¬ h.Stuck := by
  rintro ⟨hpending, hmove⟩
  have hsend := hmove .send
  have hunlock := hmove .unlock
  have hreceive := hmove .receive
  have htake := hmove .take
  have hgetState := hmove .getState
  have hshort := hok.short
  obtain ⟨server, isLeader, committing, applyCh, loop⟩ := h
  cases loop with
  | received msg =>
    simp only [Host.step] at htake
    split at htake <;> cases htake
  | waiting =>
    cases committing with
    | none => simp at hpending
    | some msgs =>
      cases msgs with
      | nil => cases hunlock
      | cons msg msgs =>
        cases applyCh with
        | nil => cases hsend
        | cons => cases hreceive
  | _ =>
    cases committing with
    | none => cases hgetState
    | some msgs =>
      cases msgs with
      | nil => cases hunlock
      | cons msg msgs =>
        cases applyCh with
        | nil => cases hsend
        | cons =>
          have := hshort _ rfl
          simp [backlog, applyChCapacity] at this

instance (h : Host K ID) : (a : HostAction K ID) → Decidable (h.Short a)
  | .commit msgs => inferInstanceAs (Decidable (h.backlog msgs ≤ applyChCapacity + 1))
  | .elect _ | .move _ => isTrue trivial

def work (h : Host K ID) : Nat :=
  3 * (h.committing.getD []).length + 2 * h.applyCh.length +
    match h.loop with
    | .received _ => 1
    | _ => 0

theorem Moved.work_lt {h h' : Host K ID} (hm : h.Moved h') (hheld : h.committing.getD [] ≠ []) :
    h'.work < h.work := by
  cases hm with
  | send hsend =>
    simp [work, hsend]
    omega
  | unlock hnil => simp [hnil] at hheld
  | receive hloop hch =>
    simp [work, hloop, hch]
    omega
  | ask hloop => simp [work, hloop]
  | skip hloop => simp [work, hloop]
  | answer hfree => simp [hfree] at hheld

omit [DecidableEq K] [DecidableEq ID] [Inhabited ID] in
theorem committing_ne_nil {h : Host K ID} {msgs : List (ApplyMsg (Op K ID))}
    (hroom : h.applyCh.length ≤ applyChCapacity) (hlong : applyChCapacity + 1 < h.backlog msgs) :
    msgs ≠ [] := by
  rintro rfl
  have hdrop := (List.dropWhile_suffix (l := h.applyCh) fun msg => !h.server.asks msg).length_le
  unfold backlog at hlong
  split at hlong
  · simp at hlong
    omega
  · rename_i msg _
    have := (List.dropWhile_suffix (l := msg :: h.applyCh) fun msg => !h.server.asks msg).length_le
    simp at hlong this
    omega
  · simp at hlong
    omega
  · simp at hlong
    omega

theorem Moved.held {h h' : Host K ID} (hm : h.Moved h') (hheld : h.committing.getD [] ≠ []) :
    ∃ msgs', h'.committing = some msgs' := by
  obtain ⟨msgs, hmsgs⟩ : ∃ msgs, h.committing = some msgs := by
    cases hc : h.committing with
    | none => simp [hc] at hheld
    | some msgs => exact ⟨msgs, rfl⟩
  cases hm with
  | send => exact ⟨_, rfl⟩
  | unlock hnil => simp [hnil] at hheld
  | answer hfree => simp [hfree] at hheld
  | _ => exact ⟨msgs, hmsgs⟩

/-- The bound is exact: past it the two routines end up stuck. -/
theorem stuck_of_long {h : Host K ID} {msgs : List (ApplyMsg (Op K ID))}
    (hroom : h.applyCh.length ≤ applyChCapacity) (hmsgs : h.committing = some msgs)
    (hlong : applyChCapacity + 1 < h.backlog msgs) :
    ∃ h', Relation.ReflTransGen (fun a b => ∃ m, a.step (.move m) = .ok b) h h' ∧ h'.Stuck := by
  induction hw : h.work using Nat.strong_induction_on generalizing h msgs with
  | _ w ih =>
    have hheld : h.committing.getD [] ≠ [] := by
      rw [hmsgs]
      exact committing_ne_nil hroom hlong
    by_cases hmove : ∃ m h', h.step (.move m) = .ok h'
    · obtain ⟨m, h', hs⟩ := hmove
      have hm := step_move hs
      obtain ⟨msgs', hmsgs'⟩ := hm.held hheld
      obtain ⟨msgs'', hmsgs'', heq⟩ := hm.backlog hmsgs'
      rw [hmsgs] at hmsgs''
      cases hmsgs''
      rw [← heq] at hlong
      obtain ⟨h'', hrun, hstuck⟩ :=
        ih h'.work (hw ▸ hm.work_lt hheld) (hm.room hroom) hmsgs' hlong rfl
      exact ⟨h'', .head ⟨m, hs⟩ hrun, hstuck⟩
    · refine ⟨h, .refl, .inl hheld, fun m => ?_⟩
      cases hs : h.step (.move m) with
      | ok h' => exact absurd ⟨m, h', hs⟩ hmove
      | error => rfl

theorem exists_run (ok : Host K ID → HostAction K ID → Prop) [∀ h a, Decidable (ok h a)]
    (P : Host K ID → Prop) [DecidablePred P] (as : List (HostAction K ID))
    (h : (History.exec (fun h a => decide (ok h a)) step init as).any fun h => decide (P h)) :
    ∃ h σ, Run ok (h :: σ) ∧ P h :=
  History.exists_run ok P as h

theorem no_deadlock {σ : List (Host K ID)} (h : Run Short σ) : ∀ s ∈ σ, ¬ s.Stuck := by
  have hok : ∀ s ∈ σ, s.Ok := by
    refine History.Run.forall_mem h ⟨by simp [init], by simp [init]⟩ ?_
    intro s a s' hok hs
    exact hok.step hs.1 hs.2
  intro s hs
  exact (hok s hs).not_stuck

end Host

section Traces

def locked (client : Nat) : ApplyMsg (Op Nat Nat) := ⟨true, ⟨.lockOp, 0, client, 1⟩, client⟩

def applying (msgs : List (ApplyMsg (Op Nat Nat))) : List (HostAction Nat Nat) :=
  [.commit msgs, .move .send, .move .receive, .move .take, .move .send]

theorem no_deadlock_twoCommitted : ∃ (h : Host Nat Nat) (σ : List (Host Nat Nat)),
    Host.Run Host.Short (h :: σ) ∧ h.loop.inGetState ∧ h.committing = some [] ∧
      ∀ s ∈ h :: σ, ¬ s.Stuck := by
  obtain ⟨h, σ, hrun, hloop, hcommit⟩ := Host.exists_run Host.Short
    (fun h => h.loop.inGetState ∧ h.committing = some []) (applying [locked 1, locked 2])
    (by decide)
  exact ⟨h, σ, hrun, hloop, hcommit, Host.no_deadlock hrun⟩

theorem deadlock_threeCommitted : ∃ (h : Host Nat Nat) (σ : List (Host Nat Nat)),
    Host.Run (fun _ _ => True) (h :: σ) ∧ h.Stuck := by
  obtain ⟨h, σ, hrun, hsend, hfull, hloop⟩ := Host.exists_run (fun _ _ => True)
    (fun h => h.committing.getD [] ≠ [] ∧ applyChCapacity ≤ h.applyCh.length ∧ h.loop.inGetState)
    (applying [locked 1, locked 2, locked 3]) (by decide)
  exact ⟨h, σ, hrun, Host.stuck_of_inGetState hsend hfull hloop⟩

end Traces

end MrAndRaft.RaftLock
