import Mathlib.Order.BooleanAlgebra.Set
import MrAndRaft.Bank.Sequential

/-! No deadlock: `bankLock` is the gate.  Whoever waits for the mutex of an account while
holding another mutex holds `bankLock`, and whoever holds `bankLock` waits only for
threads that will not wait. -/

namespace MrAndRaft.Banking

open Locking

variable {M R R' : Type}

def Call.known : Call M → Set Int
  | .createAccount _ => ∅
  | .transfer sender receiver _ _ => {sender, receiver}
  | .deposit id _ | .withdraw id _ | .getBalance id | .depositAndCompare id _ _ => {id}

def Call.own : Call M → Set Int
  | .createAccount id => {id}
  | _ => ∅

def Exists (account : Option M) : Prop := account.isSome

section Safe

variable {known own : Set Int} {hold : Set LockId} {id : Int}

theorem safe_lookup {next : Op M R} (hid : id ∈ known)
    (h : next.Safe .bankLock Exists known own hold) :
    (lookup id next).Safe .bankLock Exists known own hold := by
  intro account hknown _
  cases account with
  | none => cases hknown hid
  | some balance => exact h

theorem safe_load {next : M → Op M R} (hid : id ∈ known)
    (h : ∀ balance, (next balance).Safe .bankLock Exists known own hold) :
    (load id next).Safe .bankLock Exists known own hold := by
  intro account hknown _
  cases account with
  | none => cases hknown hid
  | some balance => exact h balance

theorem safe_store {next : Op M R} {balance : M} (hid : id ∈ known ∨ id ∈ own)
    (h : next.Safe .bankLock Exists known (own \ {id}) hold) :
    (store id balance next).Safe .bankLock Exists known own hold :=
  ⟨rfl, hid, h⟩

end Safe

section Programs

variable {known own : Set Int}

theorem safe_deposit [Add M] {id : Int} (hid : id ∈ known) (amount : M) {f : Unit → Op M R}
    (hf : (f ()).Safe .bankLock Exists known (own \ {id}) ∅) :
    ((deposit id amount).bind f).Safe .bankLock Exists known own ∅ := by
  simp only [deposit, Prog.bind, bind_lookup, bind_load, bind_store]
  refine ⟨by simp, by simp, safe_lookup hid ⟨by simp, by simp, by simp, safe_load hid fun b =>
    safe_store (.inl hid) ⟨by simp, ?_⟩⟩⟩
  simpa using hf

theorem safe_getBalance {id : Int} (hid : id ∈ known) {f : M → Op M R}
    (hf : ∀ balance, (f balance).Safe .bankLock Exists known own ∅) :
    ((getBalance id).bind f).Safe .bankLock Exists known own ∅ := by
  simp only [getBalance, Prog.bind, bind_lookup, bind_load]
  refine safe_lookup hid ⟨by simp, by simp, safe_load hid fun b => ⟨by simp, ?_⟩⟩
  simpa using hf b

variable [Zero M] [Add M] [Sub M] [LE M] [DecidableLE M]

theorem safe_createAccount (id : Int) :
    (Call.createAccount id : Call M).program.Safe .bankLock Exists known {id} ∅ := by
  refine ⟨by simp, by simp, fun account _ hown => ?_⟩
  have hnone : account = none := by simpa [Exists] using hown rfl
  subst hnone
  exact safe_store (.inr rfl) ⟨by simp, by simp [Prog.bind, Prog.Safe]⟩

theorem safe_withdraw {id : Int} (hid : id ∈ known) (amount : M) :
    (Call.withdraw id amount).program.Safe .bankLock Exists known own ∅ := by
  simp only [Call.program, withdraw, Prog.bind, bind_lookup, bind_load]
  refine ⟨by simp, by simp, safe_lookup hid ⟨by simp, by simp, by simp, safe_load hid fun b => ?_⟩⟩
  split
  · simp only [bind_load, bind_store, Prog.bind]
    exact safe_load hid fun b => safe_store (.inl hid) ⟨by simp, by simp [Prog.Safe]⟩
  · exact ⟨by simp, by simp [Prog.bind, Prog.Safe]⟩

theorem safe_transfer {sender receiver : Int} (hs : sender ∈ known) (hr : receiver ∈ known)
    (hne : sender ≠ receiver) (amount : M) (allowOverdraw : Bool) :
    (Call.transfer sender receiver amount allowOverdraw).program.Safe .bankLock Exists known own ∅ := by
  simp only [Call.program, transfer, Prog.bind, bind_lookup, bind_load]
  refine ⟨by simp, by simp, safe_lookup hs (safe_lookup hr (safe_lookup hr ?_))⟩
  refine ⟨by simp, by simp, by simp [Ne.symm hne], by simp, by simp, safe_load hs fun b => ?_⟩
  -- both branches release the two mutexes that are left
  have hempty : ((insert (LockId.account receiver) (insert (LockId.account sender)
      (insert LockId.bankLock ∅)) \ {LockId.bankLock}) \ {LockId.account sender}) \
        {LockId.account receiver} = (∅ : Set LockId) := by
    ext l
    cases l with
    | bankLock => simp
    | account id =>
      simp only [Set.mem_sdiff, Set.mem_insert_iff, Set.mem_singleton_iff]
      grind
  split
  · simp only [bind_load, bind_store, Prog.bind]
    refine safe_load hs fun b => safe_store (.inl hs) (safe_load hr fun b => safe_store (.inl hr) ?_)
    exact ⟨by simp, by simp [Ne.symm hne], hempty⟩
  · exact ⟨by simp, by simp [Ne.symm hne], hempty⟩

end Programs

section Admissible

variable [Zero M] [Add M] [Sub M] [LE M] [DecidableLE M] {s : Bank M} {c : Call M}

theorem Admissible.safe (h : Admissible s c) :
    c.program.Safe .bankLock Exists c.known c.own ∅ := by
  cases c with
  | createAccount id => exact safe_createAccount id
  | deposit id amount => exact safe_deposit (by rfl) amount (by simp [Prog.Safe])
  | withdraw id amount => exact safe_withdraw (by rfl) amount
  | transfer sender receiver amount allowOverdraw =>
    exact safe_transfer (.inl rfl) (.inr rfl) h.2.2 amount allowOverdraw
  | getBalance id => exact safe_getBalance (by rfl) fun _ => rfl
  | depositAndCompare id amount threshold =>
    rw [Call.program, depositAndCompare, Prog.bind_assoc]
    refine safe_deposit (by rfl) amount ?_
    rw [Prog.bind_assoc]
    exact safe_getBalance (by rfl) fun _ => rfl

omit [Zero M] [Add M] [Sub M] [LE M] [DecidableLE M] in
theorem Admissible.known (h : Admissible s c) : ∀ id ∈ c.known, Exists (s.machine.store id) := by
  cases c with
  | createAccount id => exact fun _ hid => hid.elim
  | transfer sender receiver amount allowOverdraw =>
    rintro id (rfl | rfl)
    · exact h.1
    · exact h.2.1
  | deposit | withdraw | getBalance | depositAndCompare =>
    rintro id rfl
    exact h

omit [Zero M] [Add M] [Sub M] [LE M] [DecidableLE M] in
theorem Admissible.own (h : Admissible s c) : ∀ id ∈ c.own, ¬ Exists (s.machine.store id) := by
  cases c with
  | createAccount id =>
    rintro _ rfl
    simp [Exists, h.1]
  | deposit | withdraw | transfer | getBalance | depositAndCompare => exact fun _ hid => hid.elim

omit [Zero M] [Add M] [Sub M] [LE M] [DecidableLE M] in
theorem Call.mem_own {id : Int} : id ∈ c.own ↔ c = .createAccount id := by
  cases c <;> simp [Call.own, eq_comm]

omit [Zero M] [Add M] [Sub M] [LE M] [DecidableLE M] in
theorem Admissible.apart {c' : Call M} (h : Admissible s c) (hc' : c' ∈ s.calls) :
    Disjoint c'.own c.own := by
  refine Set.disjoint_left.mpr fun id hid' hid => ?_
  rw [Call.mem_own] at hid hid'
  subst hid hid'
  exact h.2 hc'

theorem Admissible.alone_eq {accounts : Accounts M} (h : Admissible (init accounts) c) :
    ∃ r accounts', Effect accounts c r accounts' ∧
      c.program.alone (fun _ => false) accounts = (.returned r, fun _ => false, accounts') := by
  have htaken : ∀ l, (fun _ : LockId => false) l = true ↔ l ∈ (∅ : Set LockId) := by simp
  obtain ⟨r, hr, halone⟩ := h.safe.alone_eq h.known h.own htaken
  exact ⟨r, _, effect_of_eval (Prod.ext hr rfl), halone⟩

end Admissible

section Run

def knownAt (cs : List (Call M)) (k : Nat) : Set Int := (cs[k]?).elim ∅ Call.known

def ownAt (cs : List (Call M)) (k : Nat) : Set Int := (cs[k]?).elim ∅ Call.own

/-- `cs` are the calls made so far and any that come after them, so that a new call does
not change what is said of the others. -/
structure Bank.Ok (s : Bank M) : Prop where
  length : s.machine.threads.length = s.calls.length
  machine : ∀ cs, s.calls <+: cs → s.machine.Ok .bankLock Exists (knownAt cs) (ownAt cs)

variable {s s' : Bank M} {c : Call M} {cs : List (Call M)}

theorem getElem?_of_invoke (h : s.calls ++ [c] <+: cs) : cs[s.calls.length]? = some c := by
  obtain ⟨rest, rfl⟩ := h
  simp

theorem getElem?_of_lt {k : Nat} (h : s.calls <+: cs) (hk : k < s.calls.length) :
    ∃ c ∈ s.calls, cs[k]? = some c := by
  obtain ⟨rest, rfl⟩ := h
  refine ⟨s.calls[k], List.getElem_mem hk, ?_⟩
  rw [List.getElem?_append_left hk, List.getElem?_eq_getElem hk]

theorem knownAt_of_invoke (hlen : s.machine.threads.length = s.calls.length)
    (h : s.calls ++ [c] <+: cs) : knownAt cs s.machine.threads.length = c.known := by
  rw [knownAt, hlen, getElem?_of_invoke h]
  rfl

theorem ownAt_of_invoke (hlen : s.machine.threads.length = s.calls.length)
    (h : s.calls ++ [c] <+: cs) : ownAt cs s.machine.threads.length = c.own := by
  rw [ownAt, hlen, getElem?_of_invoke h]
  rfl

theorem apart_of_invoke (hlen : s.machine.threads.length = s.calls.length) (hc : Admissible s c)
    (hcs : s.calls ++ [c] <+: cs) :
    ∀ k < s.machine.threads.length, Disjoint (ownAt cs k) (ownAt cs s.machine.threads.length) := by
  intro k hk
  obtain ⟨c', hmem, hc'⟩ := getElem?_of_lt ((List.prefix_append _ _).trans hcs) (hlen ▸ hk)
  rw [ownAt_of_invoke hlen hcs, ownAt, hc']
  exact hc.apart hmem

theorem init_ok (accounts : Accounts M) : (init accounts).Ok where
  length := rfl
  machine cs _ := ⟨by simp [init], by simp [init], by simp [init], by simp [init]⟩

variable [Zero M] [Add M] [Sub M] [LE M] [DecidableLE M]

inductive Bank.Stepped (s : Bank M) : Event M → Bank M → Prop
  | invoke {c : Call M} : Stepped s (.invoke c) ⟨s.machine.spawn c.program, s.calls ++ [c]⟩
  | step {k : Nat} {machine : Machine LockId Int (Option M) (Result M)} :
      s.machine.step k = .ok machine → Stepped s (.step k) ⟨machine, s.calls⟩

theorem Bank.step_cases {e : Event M} (h : s.step e = .ok s') : s.Stepped e s' := by
  cases e with
  | invoke c =>
    cases h
    exact .invoke
  | step k =>
    rw [Bank.step] at h
    split at h
    · cases h
    · cases h
      exact .step ‹_›

theorem Bank.Ok.step {e : Event M} (h : s.Ok) (hallowed : e.Allowed (Admissible s))
    (hstep : s.step e = .ok s') : s'.Ok := by
  cases Bank.step_cases hstep with
  | @invoke c =>
    have hc : Admissible s c := hallowed
    refine ⟨by simp [Machine.spawn, h.length], fun cs hcs => ?_⟩
    refine (h.machine cs ((List.prefix_append _ _).trans hcs)).spawn ?_ ?_ ?_
      (apart_of_invoke h.length hc hcs)
    · rw [knownAt_of_invoke h.length hcs, ownAt_of_invoke h.length hcs]
      exact hc.safe
    · rw [knownAt_of_invoke h.length hcs]
      exact hc.known
    · rw [ownAt_of_invoke h.length hcs]
      exact hc.own
  | step hm =>
    refine ⟨?_, fun cs hcs => (h.machine cs hcs).step hm⟩
    cases Machine.step_cases hm <;> simpa using h.length

theorem Run.bank_ok {accounts : Accounts M} {σ : List (Bank M)} (h : Run accounts Admissible σ) :
    ∀ s ∈ σ, s.Ok :=
  History.Run.forall_mem h (init_ok accounts) fun _ _ _ hs hstep => hs.step hstep.1 hstep.2

theorem Run.deadlock_free {accounts : Accounts M} {σ : List (Bank M)}
    (h : Run accounts Admissible σ) (hs : s ∈ σ) (hunfinished : none ∈ s.results) :
    ∃ k s', s.step (.step k) = .ok s' := by
  obtain ⟨p, hp, hret⟩ := List.mem_map.mp hunfinished
  obtain ⟨k, hk⟩ := List.mem_iff_getElem?.mp hp
  have hok := (h.bank_ok s hs).machine s.calls List.prefix_rfl
  obtain ⟨j, m', hm⟩ := hok.exists_step hk fun r hr => by simp [hr, Prog.result?] at hret
  exact ⟨j, ⟨m', s.calls⟩, by simp [Bank.step, hm]⟩

theorem exists_run (accounts : Accounts M) (ok : Bank M → Call M → Prop)
    [∀ s, DecidablePred (ok s)] (P : Bank M → Prop) [DecidablePred P] (es : List (Event M))
    (h : (History.exec (fun s e => decide (e.Allowed (ok s))) Bank.step (init accounts) es).any
      fun s => decide (P s)) : ∃ s σ, Run accounts ok (s :: σ) ∧ P s := by
  unfold Run
  exact History.exists_run _ P es h

end Run

def twoAccounts : Accounts Int := fun id => if id = 1 ∨ id = 2 then some 10 else none

theorem deadlock_free_opposite : ∃ s σ, Run twoAccounts Admissible (s :: σ) ∧ none ∈ s.results ∧
    ∃ k s', s.step (.step k) = .ok s' := by
  obtain ⟨s, σ, h, hs⟩ := exists_run twoAccounts Admissible (fun s => none ∈ s.results)
    [.invoke (.transfer 1 2 5 false), .invoke (.transfer 2 1 5 false), .invoke (.withdraw 2 3),
      .step 0, .step 0, .step 0, .step 0, .step 0] (by decide)
  exact ⟨s, σ, h, hs, Run.deadlock_free h List.mem_cons_self hs⟩

end MrAndRaft.Banking
