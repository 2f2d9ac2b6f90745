import Mathlib.Algebra.BigOperators.Group.Finset.Piecewise
import Mathlib.Algebra.Ring.Int.Defs
import MrAndRaft.Bank.Operations

/-! What each call does to the accounts when no other call is running. -/

namespace MrAndRaft.Banking

open Locking

variable {M R R' : Type}

@[simp] theorem bind_lookup (id : Int) (next : Op M R) (f : R → Op M R') :
    (lookup id next).bind f = lookup id (next.bind f) :=
  congrArg (Prog.read id) (funext fun account => by cases account <;> rfl)

@[simp] theorem bind_load (id : Int) (next : M → Op M R) (f : R → Op M R') :
    (load id next).bind f = load id fun balance => (next balance).bind f :=
  congrArg (Prog.read id) (funext fun account => by cases account <;> rfl)

@[simp] theorem bind_store (id : Int) (balance : M) (next : Op M R) (f : R → Op M R') :
    (store id balance next).bind f = store id balance (next.bind f) := rfl

section Eval

variable {id : Int} {accounts accounts' : Accounts M} {r : R}

@[simp] theorem eval_lookup {next : Op M R} :
    (lookup id next).eval accounts = (some r, accounts') ↔
      (accounts id).isSome ∧ next.eval accounts = (some r, accounts') := by
  rw [lookup, Prog.eval]
  cases accounts id <;> simp [Prog.eval]

@[simp] theorem eval_load {next : M → Op M R} :
    (load id next).eval accounts = (some r, accounts') ↔
      ∃ balance, accounts id = some balance ∧ (next balance).eval accounts = (some r, accounts') := by
  rw [load, Prog.eval]
  cases accounts id <;> simp [Prog.eval]

@[simp] theorem eval_store {balance : M} {next : Op M R} :
    (store id balance next).eval accounts =
      next.eval (Function.update accounts id (some balance)) := rfl

end Eval

variable [Zero M] [Add M] [Sub M] [LE M] [DecidableLE M]

/-- The effect of a call that returns.  The balance of a receiver is read after that of
the sender is written. -/
inductive Effect (accounts : Accounts M) : Call M → Result M → Accounts M → Prop
  | createAccount {id : Int} : accounts id = none →
      Effect accounts (.createAccount id) .done (Function.update accounts id (some 0))
  | deposit {id : Int} {amount balance : M} : accounts id = some balance →
      Effect accounts (.deposit id amount) .done
        (Function.update accounts id (some (balance + amount)))
  | withdraw {id : Int} {amount balance : M} : accounts id = some balance → amount ≤ balance →
      Effect accounts (.withdraw id amount) (.bool true)
        (Function.update accounts id (some (balance - amount)))
  | withdrawRefused {id : Int} {amount balance : M} : accounts id = some balance →
      ¬ amount ≤ balance → Effect accounts (.withdraw id amount) (.bool false) accounts
  | transfer {sender receiver : Int} {amount balance balance' : M} {allowOverdraw : Bool} :
      accounts sender = some balance → amount ≤ balance ∨ allowOverdraw →
      Function.update accounts sender (some (balance - amount)) receiver = some balance' →
      Effect accounts (.transfer sender receiver amount allowOverdraw) (.bool true)
        (Function.update (Function.update accounts sender (some (balance - amount))) receiver
          (some (balance' + amount)))
  | transferRefused {sender receiver : Int} {amount balance : M} {allowOverdraw : Bool} :
      accounts sender = some balance → ¬ (amount ≤ balance ∨ allowOverdraw) →
      Effect accounts (.transfer sender receiver amount allowOverdraw) (.bool false) accounts
  | getBalance {id : Int} {balance : M} : accounts id = some balance →
      Effect accounts (.getBalance id) (.balance balance) accounts
  | depositAndCompare {id : Int} {amount threshold balance : M} : accounts id = some balance →
      Effect accounts (.depositAndCompare id amount threshold)
        (.bool (threshold ≤ balance + amount))
        (Function.update accounts id (some (balance + amount)))

theorem effect_of_eval {accounts accounts' : Accounts M} {c : Call M} {r : Result M}
    (h : c.program.eval accounts = (some r, accounts')) : Effect accounts c r accounts' := by
  cases c with
  | createAccount id =>
    simp only [Call.program, createAccount, Prog.bind, Prog.eval] at h
    split at h
    · cases h
    · cases h
      have hid : ¬ (accounts id).isSome := ‹_›
      exact .createAccount (by simpa using hid)
  | deposit id amount =>
    simp only [Call.program, deposit, Prog.bind, bind_lookup, bind_load, bind_store, Prog.eval,
      eval_lookup, eval_load, eval_store, Prod.mk.injEq, Option.some.injEq] at h
    obtain ⟨-, balance, hid, rfl, rfl⟩ := h
    exact .deposit hid
  | withdraw id amount =>
    simp only [Call.program, withdraw, Prog.bind, bind_lookup, bind_load, Prog.eval, eval_lookup,
      eval_load] at h
    obtain ⟨-, balance, hid, h⟩ := h
    split at h
    · simp only [bind_load, bind_store, Prog.bind, Prog.eval, eval_load, eval_store, hid,
        Option.some.injEq, Prod.mk.injEq] at h
      obtain ⟨_, rfl, rfl, rfl⟩ := h
      exact .withdraw hid ‹_›
    · cases h
      exact .withdrawRefused hid ‹_›
  | transfer sender receiver amount allowOverdraw =>
    simp only [Call.program, transfer, Prog.bind, bind_lookup, bind_load, Prog.eval, eval_lookup,
      eval_load] at h
    obtain ⟨-, -, -, balance, hs, h⟩ := h
    split at h
    · simp only [bind_load, bind_store, Prog.bind, Prog.eval, eval_load, eval_store, hs,
        Option.some.injEq, Prod.mk.injEq] at h
      obtain ⟨_, rfl, balance', hr, rfl, rfl⟩ := h
      exact .transfer hs ‹_› hr
    · cases h
      exact .transferRefused hs ‹_›
  | getBalance id =>
    simp only [Call.program, getBalance, Prog.bind, bind_lookup, bind_load, Prog.eval, eval_lookup,
      eval_load, Prod.mk.injEq, Option.some.injEq] at h
    obtain ⟨-, balance, hid, rfl, rfl⟩ := h
    exact .getBalance hid
  | depositAndCompare id amount threshold =>
    simp only [Call.program, depositAndCompare, deposit, getBalance, Prog.bind, bind_lookup,
      bind_load, bind_store, Prog.eval, eval_lookup, eval_load, eval_store, Prod.mk.injEq,
      Option.some.injEq, Function.update_self] at h
    obtain ⟨-, balance, hid, -, _, rfl, rfl, rfl⟩ := h
    exact .depositAndCompare hid

theorem Effect.preserves {P : Accounts M → Prop} {accounts accounts' : Accounts M} {c : Call M}
    {r : Result M} (h : Effect accounts c r accounts')
    (hwrite : ∀ s id balance, P s → P (Function.update s id (some balance))) (hP : P accounts) :
    P accounts' := by
  cases h with
  | createAccount | deposit | withdraw | depositAndCompare => exact hwrite _ _ _ hP
  | transfer => exact hwrite _ _ _ (hwrite _ _ _ hP)
  | withdrawRefused | transferRefused | getBalance => exact hP

theorem Effect.isSome {accounts accounts' : Accounts M} {c : Call M} {r : Result M} {id : Int}
    (h : Effect accounts c r accounts') (hid : (accounts id).isSome) : (accounts' id).isSome := by
  refine h.preserves (P := fun s => (s id).isSome) (fun s i balance hs => ?_) hid
  by_cases hi : id = i
  · simp [hi]
  · simpa [hi] using hs

section Totals

open Finset

def total (ids : Finset Int) (accounts : Accounts Int) : Int := ∑ id ∈ ids, (accounts id).getD 0

def Call.deposited : Call Int → Int
  | .deposit _ amount | .depositAndCompare _ amount _ => amount
  | _ => 0

def withdrawn : Call Int × Result Int → Int
  | (.withdraw _ amount, .bool true) => amount
  | _ => 0

variable {ids : Finset Int} {accounts accounts' : Accounts Int} {c : Call Int} {r : Result Int}

theorem total_update {id : Int} (hid : id ∈ ids) (balance : Int) :
    total ids (Function.update accounts id (some balance)) =
      total ids accounts - (accounts id).getD 0 + balance := by
  have hrest : ∀ i ∈ ids \ {id},
      (Function.update accounts id (some balance) i).getD 0 = (accounts i).getD 0 := by
    intro i hi
    have hne : i ≠ id := by simpa using (mem_sdiff.mp hi).2
    rw [Function.update_of_ne hne]
  rw [total, total, sum_eq_sum_sdiff_singleton_add hid, sum_congr rfl hrest,
    sum_eq_sum_sdiff_singleton_add hid fun i => (accounts i).getD 0, Function.update_self]
  simp

theorem Effect.total_eq (h : Effect accounts c r accounts')
    (hids : ∀ id, (accounts' id).isSome → id ∈ ids) :
    total ids accounts' = total ids accounts + c.deposited - withdrawn (c, r) := by
  cases h with
  | createAccount hid =>
    rw [total_update (hids _ (by simp)), hid]
    simp [Call.deposited, withdrawn]
  | deposit hid | withdraw hid | depositAndCompare hid =>
    rw [total_update (hids _ (by simp)), hid]
    simp only [Call.deposited, withdrawn, Option.getD_some]
    omega
  | @transfer sender receiver amount balance balance' _ hs _ hr =>
    rw [total_update (hids receiver (by simp)), hr, total_update (hids sender _), hs]
    · simp only [Call.deposited, withdrawn, Option.getD_some]
      omega
    · by_cases hsr : sender = receiver <;> simp [hsr]
  | withdrawRefused | transferRefused | getBalance => simp [Call.deposited, withdrawn]

def Call.Additive : Call Int → Prop
  | .deposit _ _ => True
  | .transfer _ _ _ allowOverdraw => allowOverdraw
  | _ => False

def Call.credit (id : Int) : Call Int → Int
  | .deposit id' amount => if id' = id then amount else 0
  | .transfer sender receiver amount _ =>
    (if receiver = id then amount else 0) - if sender = id then amount else 0
  | _ => 0

theorem Effect.credit_eq (h : Effect accounts c r accounts') (hc : c.Additive) (id : Int) :
    accounts' id = (accounts id).map (· + c.credit id) := by
  cases h with
  | @deposit id' amount balance hid =>
    by_cases h : id' = id
    · subst h
      simp [hid, Call.credit]
    · simp [Call.credit, h, Ne.symm h]
  | @transfer sender receiver amount balance balance' _ hs _ hr =>
    by_cases h : receiver = id
    · subst h
      by_cases h : sender = receiver
      · subst h
        obtain rfl : balance - amount = balance' := by simpa using hr
        simp [hs, Call.credit]
      · rw [Function.update_of_ne (Ne.symm h)] at hr
        simp [hr, Call.credit, h]
    · by_cases h' : sender = id
      · subst h'
        simp [hs, Call.credit, h, Ne.symm h, sub_eq_add_neg]
      · simp [Call.credit, h, h', Ne.symm h, Ne.symm h']
  | transferRefused _ hrefused => exact absurd (.inr hc) hrefused
  | createAccount | withdraw | withdrawRefused | getBalance | depositAndCompare => exact hc.elim

end Totals

end MrAndRaft.Banking
