import MrAndRaft.Bank.Deadlock

/-! How a call ends that is made by itself while every mutex is free.  An error is a panic,
and all of them but that of `GetBalance` come between `Lock` and `Unlock`. -/

namespace MrAndRaft.Banking

open Locking

variable {M R : Type}

section Lookup

variable {id : Int} {accounts : Accounts M} {taken : LockId → Bool} {next : Op M R}

theorem alone_lookup_none (h : accounts id = none) :
    (lookup id next).alone taken accounts = (.panicked, taken, accounts) := by
  simp [lookup, Prog.alone, h]

theorem alone_lookup_some (h : (accounts id).isSome) :
    (lookup id next).alone taken accounts = next.alone taken accounts := by
  obtain ⟨balance, hid⟩ := Option.isSome_iff_exists.mp h
  simp [lookup, Prog.alone, hid]

end Lookup

/-- The arguments that leave no mutex taken: a new number for a new account, accounts that
exist for the other calls, and two different ones for a transfer.  `GetBalance` panics
before it has locked anything. -/
def Call.Proper (accounts : Accounts M) : Call M → Prop
  | .createAccount id => accounts id = none
  | .deposit id _ | .withdraw id _ | .depositAndCompare id _ _ => (accounts id).isSome
  | .transfer sender receiver _ _ =>
    (accounts sender).isSome ∧ (accounts receiver).isSome ∧ sender ≠ receiver
  | .getBalance _ => True

variable [Zero M] [Add M] [Sub M] [LE M] [DecidableLE M] {accounts : Accounts M} {c : Call M}

inductive Ending (accounts : Accounts M) (c : Call M) :
    Outcome (Result M) × (LockId → Bool) × Accounts M → Prop
  | returned {r : Result M} {accounts' : Accounts M} : c.Proper accounts →
      Effect accounts c r accounts' →
      Ending accounts c (.returned r, fun _ => false, accounts')
  | panicked : c.Proper accounts → Ending accounts c (.panicked, fun _ => false, accounts)
  | stuck {outcome : Outcome (Result M)} {taken : LockId → Bool} : ¬ c.Proper accounts →
      (∀ r, outcome ≠ .returned r) → taken .bankLock = true →
      Ending accounts c (outcome, taken, accounts)

theorem endsAs_alone {s : Bank M} (h : ∀ l, s.machine.owner l = none) (c : Call M) :
    (s.machine.spawn c.program).EndsAs s.machine.threads.length
      (c.program.alone (fun _ => false) s.machine.store) := by
  have htaken : taken (s.machine.spawn c.program).owner = fun _ => false := by
    funext l
    simp [taken, Machine.spawn, h]
  have hp : (s.machine.spawn c.program).threads[s.machine.threads.length]? = some c.program := by
    simp [Machine.spawn]
  exact htaken ▸ Machine.endsAs_alone hp

theorem Ending.of_admissible (h : Admissible (init accounts) c) (hc : c.Proper accounts) :
    Ending accounts c (c.program.alone (fun _ => false) accounts) := by
  obtain ⟨r, accounts', heffect, halone⟩ := h.alone_eq
  rw [halone]
  exact .returned hc heffect

abbrev bankLocked : LockId → Bool := Function.update (fun _ => false) .bankLock true

theorem Ending.of_panic (hc : ¬ c.Proper accounts)
    (h : c.program.alone (fun _ => false) accounts = (.panicked, bankLocked, accounts)) :
    Ending accounts c (c.program.alone (fun _ => false) accounts) := by
  rw [h]
  exact .stuck hc (by simp) (by simp [bankLocked])

theorem Call.ending (accounts : Accounts M) (c : Call M) :
    Ending accounts c (c.program.alone (fun _ => false) accounts) := by
  cases c with
  | createAccount id =>
    cases hid : accounts id with
    | none => exact .of_admissible (by simp [Admissible, init, hid]) hid
    | some balance =>
      refine .of_panic (by simp [Call.Proper, hid]) ?_
      simp [Call.program, Banking.createAccount, Prog.bind, Prog.alone, hid]
  | deposit id amount | withdraw id amount | depositAndCompare id amount =>
    cases hid : accounts id with
    | none =>
      refine .of_panic (by simp [Call.Proper, hid]) ?_
      simp [Call.program, Banking.deposit, Banking.withdraw, Banking.depositAndCompare, Prog.bind,
        Prog.alone, alone_lookup_none hid]
    | some balance => exact .of_admissible (by simp [Admissible, init, hid]) (by simp [Call.Proper, hid])
  | getBalance id =>
    cases hid : accounts id with
    | none =>
      have halone : (Call.getBalance id : Call M).program.alone (fun _ => false) accounts =
          (.panicked, fun _ => false, accounts) := by
        simp [Call.program, Banking.getBalance, alone_lookup_none hid]
      rw [halone]
      exact .panicked trivial
    | some balance => exact .of_admissible (by simp [Admissible, init, hid]) trivial
  | transfer sender receiver amount allowOverdraw =>
    by_cases hs : (accounts sender).isSome
    · by_cases hr : (accounts receiver).isSome
      · by_cases hne : sender = receiver
        · -- the second `Lock` is of the mutex that the first one took
          subst hne
          have halone : (Call.transfer sender sender amount allowOverdraw).program.alone
              (fun _ => false) accounts =
                (.blocked, Function.update bankLocked (.account sender) true, accounts) := by
            simp [Call.program, Banking.transfer, Prog.bind, Prog.alone, alone_lookup_some hs]
          rw [halone]
          exact .stuck (by simp [Call.Proper]) (by simp) (by simp [bankLocked])
        · exact .of_admissible ⟨hs, hr, hne⟩ ⟨hs, hr, hne⟩
      · refine .of_panic (fun h => hr h.2.1) ?_
        simp [Call.program, Banking.transfer, Prog.bind, Prog.alone, alone_lookup_some hs,
          alone_lookup_none (Option.not_isSome_iff_eq_none.mp hr)]
    · refine .of_panic (fun h => hs h.1) ?_
      simp [Call.program, Banking.transfer, Prog.bind, Prog.alone,
        alone_lookup_none (Option.not_isSome_iff_eq_none.mp hs)]

theorem alone_of_bankLock {taken : LockId → Bool} (h : taken .bankLock = true)
    (hc : ∀ id, c ≠ .getBalance id) (accounts : Accounts M) :
    c.program.alone taken accounts = (.blocked, taken, accounts) := by
  cases c with
  | getBalance id => exact absurd rfl (hc id)
  | createAccount | deposit | withdraw | transfer | depositAndCompare => exact if_pos h

theorem blocked_of_not_proper {c' : Call M} (hc : ¬ c.Proper accounts)
    (hc' : ∀ id, c' ≠ .getBalance id) {outcome : Outcome (Result M)} {taken : LockId → Bool}
    {accounts' : Accounts M}
    (h : c.program.alone (fun _ => false) accounts = (outcome, taken, accounts')) :
    c'.program.alone taken accounts' = (.blocked, taken, accounts') := by
  have hending := h ▸ c.ending accounts
  cases hending with
  | returned hproper | panicked hproper => exact absurd hproper hc
  | stuck _ _ htaken => exact alone_of_bankLock htaken hc' accounts

/-- The call ended, by returning or by a panic, with every mutex free, and a panic left the
accounts as they were, so that all later calls do what they would have done without it. -/
structure Recovered (accounts : Accounts M)
    (ending : Outcome (Result M) × (LockId → Bool) × Accounts M) : Prop where
  ended : ending.1 = .panicked ∨ ∃ r, ending.1 = .returned r
  free : ∀ l, ending.2.1 l = false
  unchanged : ending.1 = .panicked → ending.2.2 = accounts
  later : ending.1 = .panicked → ∀ c : Call M,
    c.program.alone ending.2.1 ending.2.2 = c.program.alone (fun _ => false) accounts

theorem not_recovered_of_bankLock
    {ending : Outcome (Result M) × (LockId → Bool) × Accounts M}
    (h : ending.2.1 .bankLock = true) : ¬ Recovered accounts ending :=
  fun hrecovered => absurd (h.symm.trans (hrecovered.free .bankLock)) (by simp)

theorem recovered_iff_proper (accounts : Accounts M) (c : Call M) :
    Recovered accounts (c.program.alone (fun _ => false) accounts) ↔ c.Proper accounts := by
  have hending := c.ending accounts
  generalize c.program.alone (fun _ => false) accounts = ending at hending ⊢
  cases hending with
  | returned hc => exact ⟨fun _ => hc, fun _ => ⟨.inr ⟨_, rfl⟩, by simp, by simp, by simp⟩⟩
  | panicked hc => exact ⟨fun _ => hc, fun _ => ⟨.inl rfl, by simp, by simp, by simp⟩⟩
  | stuck hc _ htaken =>
    exact ⟨fun h => absurd h (not_recovered_of_bankLock htaken), fun h => absurd h hc⟩

theorem bank_left_locked :
    ¬ Recovered twoAccounts ((Call.createAccount 1).program.alone (fun _ => false) twoAccounts) ∧
    ¬ Recovered twoAccounts ((Call.deposit 3 5).program.alone (fun _ => false) twoAccounts) ∧
    ¬ Recovered twoAccounts ((Call.withdraw 3 5).program.alone (fun _ => false) twoAccounts) ∧
    ¬ Recovered twoAccounts
      ((Call.transfer 3 1 5 false).program.alone (fun _ => false) twoAccounts) ∧
    ¬ Recovered twoAccounts
      ((Call.transfer 1 3 5 false).program.alone (fun _ => false) twoAccounts) ∧
    ¬ Recovered twoAccounts
      ((Call.transfer 1 1 5 false).program.alone (fun _ => false) twoAccounts) ∧
    ((Call.deposit 2 5).program.alone
      ((Call.createAccount 1).program.alone (fun _ => false) twoAccounts).2.1
      ((Call.createAccount 1).program.alone (fun _ => false) twoAccounts).2.2).1 = .blocked := by
  refine ⟨?_, ?_, ?_, ?_, ?_, ?_, by decide⟩ <;>
    exact not_recovered_of_bankLock (by decide)

end MrAndRaft.Banking
