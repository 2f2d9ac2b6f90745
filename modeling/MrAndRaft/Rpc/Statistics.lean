import Mathlib.Algebra.BigOperators.Group.List.Basic
import Mathlib.Algebra.GroupWithZero.Nat
import MrAndRaft.Rpc.Progress

/-! What `rpcCount`, `rpcTotal` and `bytesTotal` report. -/

namespace MrAndRaft.Labrpc

variable {E S Q R : Type}

namespace Pending

def taken (c : Pending E S Q R) : Nat :=
  match c.phase with
  | .sending => 0
  | _ => 1

def dispatchedTo (j : Nat) (c : Pending E S Q R) : Nat :=
  if c.handler.rcvr.isSome ∧ c.handler.server = some j then 1 else 0

def bytes (wire : Wire Q R) (c : Pending E S Q R) : Nat :=
  c.taken * wire.argsLen c.args +
    match c.phase with
    | .returned (some r) => wire.replyLen r
    | _ => 0

end Pending

def Traffic.total (t : Traffic E S Q R) (f : Pending E S Q R → Nat) : Nat :=
  (t.calls.map f).sum

section

variable [DecidableEq S] {sw : Switch E S} {t : Traffic E S Q R} {c c' : Pending E S Q R}
  {m : Move R} {wire : Wire Q R}

omit [DecidableEq S] in
theorem sum_map_set {l : List (Pending E S Q R)} {k : Nat} (f : Pending E S Q R → Nat)
    (c' : Pending E S Q R) (h : l[k]? = some c) :
    ((l.set k c').map f).sum + f c = (l.map f).sum + f c' := by
  induction l generalizing k with
  | nil => simp at h
  | cons a l ih =>
    cases k with
    | zero =>
      obtain rfl : a = c := by simpa using h
      simp only [List.set_cons_zero, List.map_cons, List.sum_cons]
      omega
    | succ k =>
      have := ih (k := k) (by simpa using h)
      simp only [List.set_cons_succ, List.map_cons, List.sum_cons]
      omega

omit [DecidableEq S] in
/-- A counter that moves with one summand keeps up with the sum, whatever it has lost by
wrapping around. -/
theorem counter_set {l : List (Pending E S Q R)} {k w : Nat} {f : Pending E S Q R → Nat}
    {n n' : BitVec w} (h : l[k]? = some c) (hn : n = .ofNat w (l.map f).sum)
    (hmove : n' + .ofNat w (f c) = n + .ofNat w (f c')) :
    n' = .ofNat w ((l.set k c').map f).sum := by
  refine (BitVec.add_left_inj (.ofNat w (f c))).mp (hmove.trans ?_)
  rw [hn, ← BitVec.ofNat_add, ← BitVec.ofNat_add, sum_map_set f c' h]

theorem Pending.taken_move (wire : Wire Q R) (hm : c.move sw t m = .ok c') (hdone : sw.done = false) :
    (t.tally wire c m).count + .ofNat 32 c.taken = t.count + .ofNat 32 c'.taken := by
  obtain ⟨e, svcMeth, args, ph, h⟩ := c
  obtain ⟨e', svcMeth', args', ph', h'⟩ := c'
  obtain ⟨rfl, rfl, rfl, hmoved⟩ := Pending.move_ok hm
  simp only at hmoved
  cases hmoved with
  | giveUp hd => simp [hdone] at hd
  | receive => simp [Traffic.tally, Pending.taken]
  | @reply msg => cases msg <;> rfl
  | _ => rfl

theorem Pending.bytes_move (wire : Wire Q R) (hm : c.move sw t m = .ok c') (hdone : sw.done = false) :
    (t.tally wire c m).bytes + .ofNat 64 (c.bytes wire) = t.bytes + .ofNat 64 (c'.bytes wire) := by
  obtain ⟨e, svcMeth, args, ph, h⟩ := c
  obtain ⟨e', svcMeth', args', ph', h'⟩ := c'
  obtain ⟨rfl, rfl, rfl, hmoved⟩ := Pending.move_ok hm
  simp only at hmoved
  cases hmoved with
  | giveUp hd => simp [hdone] at hd
  | receive => simp [Traffic.tally, Pending.bytes, Pending.taken]
  | @reply msg =>
    cases msg with
    | none => rfl
    | some r =>
      simp only [Traffic.tally, Pending.bytes, Pending.taken, BitVec.ofNat_add]
      ac_rfl
  | _ => rfl

theorem Pending.dispatchedTo_move (hm : c.move sw t m = .ok c')
    (hp : Paired c.phase c.handler) {j : Nat} {rs : Server}
    (hrs : (t.tally wire c m).pool[j]? = some rs) :
    ∃ rs₀, t.pool[j]? = some rs₀ ∧
      rs.count + .ofNat 64 (c.dispatchedTo j) = rs₀.count + .ofNat 64 (c'.dispatchedTo j) := by
  obtain ⟨e, svcMeth, args, ph, h⟩ := c
  obtain ⟨e', svcMeth', args', ph', h'⟩ := c'
  obtain ⟨rfl, rfl, rfl, hmoved⟩ := Pending.move_ok hm
  simp only at hmoved
  cases hmoved with
  | @dispatch _ j' _ i =>
    simp only [Traffic.tally, List.getElem?_modify] at hrs
    obtain ⟨rs₀, hrs₀, rfl⟩ := Option.map_eq_some_iff.mp hrs
    refine ⟨rs₀, hrs₀, ?_⟩
    by_cases hj : j' = j <;> simp [hj, Pending.dispatchedTo, Handler.rcvr, Handler.server]
  | @reply msg =>
    cases msg with
    | none => exact ⟨rs, hrs, rfl⟩
    | some r => exact ⟨rs, hrs, rfl⟩
  | execute =>
    obtain rfl : h = .none := hp
    exact ⟨rs, hrs, rfl⟩
  | _ => exact ⟨rs, hrs, rfl⟩

end

section

variable [DecidableEq E] [DecidableEq S] {wire : Wire Q R} {s s' : Network E S Q R}
  {σ : List (Network E S Q R)}

structure Network.Tallied (wire : Wire Q R) (s : Network E S Q R) : Prop where
  served : ∀ (j : Nat) (rs : Server), s.traffic.pool[j]? = some rs →
    rs.count = .ofNat 64 (s.traffic.total (Pending.dispatchedTo j))
  count : s.switch.done = false → s.traffic.count = .ofNat 32 (s.traffic.total Pending.taken)
  bytes : s.switch.done = false →
    s.traffic.bytes = .ofNat 64 (s.traffic.total (Pending.bytes wire))

omit [DecidableEq E] [DecidableEq S] in
@[simp] theorem Traffic.total_call (t : Traffic E S Q R) (f : Pending E S Q R → Nat) (e : E)
    (svcMeth : Name) (args : Q) :
    (t.call e svcMeth args).total f = t.total f + f { endname := e, svcMeth, args } := by
  simp [Traffic.call, Traffic.total]

theorem Network.Run.total_dispatchedTo_eq_zero (hrun : Network.Run wire (s :: σ)) {j : Nat}
    (hj : s.traffic.pool.length ≤ j) : s.traffic.total (Pending.dispatchedTo j) = 0 := by
  refine List.sum_eq_zero fun x hx => ?_
  obtain ⟨c, hc, rfl⟩ := List.mem_map.mp hx
  obtain ⟨k, hk⟩ := List.mem_iff_getElem?.mp hc
  refine if_neg fun h => ?_
  exact absurd (hrun.server_made hk h.2) (by omega)

theorem Network.Tallied.step {ev : Event E S Q R} (hrun : Network.Run wire (s :: σ))
    (ht : s.Tallied wire) (h : s.step wire ev = .ok s') : s'.Tallied wire := by
  cases Network.step_ok h with
  | call =>
    refine ⟨fun j rs hrs => ?_, fun hdone => ?_, fun hdone => ?_⟩
    · simpa [Pending.dispatchedTo, Handler.rcvr] using ht.served j rs hrs
    · exact (ht.count hdone).trans (by simp [Pending.taken])
    · exact (ht.bytes hdone).trans (by simp [Pending.bytes, Pending.taken])
  | @move k m c c' hc hm =>
    refine ⟨fun j rs hrs => ?_, fun hdone => ?_, fun hdone => ?_⟩
    · obtain ⟨rs₀, hrs₀, hcount⟩ := Pending.dispatchedTo_move hm (hrun.traced hc).paired hrs
      exact counter_set hc (ht.served j rs₀ hrs₀) hcount
    · exact counter_set hc (ht.count hdone) (Pending.taken_move wire hm hdone)
    · exact counter_set hc (ht.bytes hdone) (Pending.bytes_move wire hm hdone)
  | stop => exact ⟨ht.served, ht.count, ht.bytes⟩
  | makeServer =>
    refine ⟨fun j rs hrs => ?_, ht.count, ht.bytes⟩
    rcases Position.of_concat hrs with hrs | ⟨rfl, rfl⟩
    · exact ht.served j rs hrs
    · exact congrArg (BitVec.ofNat 64) (hrun.total_dispatchedTo_eq_zero le_rfl).symm
  | addService =>
    refine ⟨fun j rs hrs => ?_, ht.count, ht.bytes⟩
    simp only [List.getElem?_modify] at hrs
    obtain ⟨rs₀, hrs₀, rfl⟩ := Option.map_eq_some_iff.mp hrs
    refine Eq.trans ?_ (ht.served j rs₀ hrs₀)
    split <;> rfl
  | @admin _ sw hvalid hadmin =>
    have hold (hdone : sw.done = false) : s.switch.done = false := by
      by_contra h
      exact Bool.eq_false_iff.mp hdone (Switch.admin_done hadmin (by simpa using h))
    exact ⟨ht.served, fun hdone => ht.count (hold hdone), fun hdone => ht.bytes (hold hdone)⟩

end

end MrAndRaft.Labrpc
