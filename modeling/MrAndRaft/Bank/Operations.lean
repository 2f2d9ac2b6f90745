import MrAndRaft.Lib.History
import MrAndRaft.Lib.Locking

/-! The bank: every operation as the mutexes it takes and the balances it reads and
writes, and any number of calls at a time. -/

namespace MrAndRaft.Banking

open Locking

inductive LockId where
  | bankLock
  | account (accountID : Int)
  deriving DecidableEq, Repr

/-- The balance of each account in the map; `none` is a missing entry, a nil pointer. -/
abbrev Accounts (M : Type) := Int → Option M

abbrev Op (M R : Type) := Prog LockId Int (Option M) R

variable {M R : Type}

def lookup (accountID : Int) (next : Op M R) : Op M R :=
  .read accountID fun account =>
    match account with
    | none => .panic
    | some _ => next

def load (accountID : Int) (next : M → Op M R) : Op M R :=
  .read accountID fun account =>
    match account with
    | none => .panic
    | some balance => next balance

def store (accountID : Int) (balance : M) (next : Op M R) : Op M R :=
  .write accountID (some balance) next

section Operations

variable [Zero M] [Add M] [Sub M] [LE M] [DecidableLE M]

def createAccount (accountID : Int) : Op M Unit :=
  .acquire .bankLock <|
  .read accountID fun account =>
    if account.isSome then .panic
    else
      store accountID 0 <|
      .release .bankLock <|
      .ret ()

/-- The check for nil comes after the pointer was used. -/
def deposit (accountID : Int) (amount : M) : Op M Unit :=
  .acquire .bankLock <|
  lookup accountID <|
  .acquire (.account accountID) <|
  .release .bankLock <|
  load accountID fun balance =>
  store accountID (balance + amount) <|
  .release (.account accountID) <|
  .ret ()

def withdraw (accountID : Int) (amount : M) : Op M Bool :=
  .acquire .bankLock <|
  lookup accountID <|
  .release .bankLock <|
  .acquire (.account accountID) <|
  load accountID fun balance =>
    if amount ≤ balance then
      load accountID fun balance =>
      store accountID (balance - amount) <|
      .release (.account accountID) <|
      .ret true
    else
      .release (.account accountID) <|
      .ret false

def transfer (sender receiver : Int) (amount : M) (allowOverdraw : Bool) : Op M Bool :=
  .acquire .bankLock <|
  lookup sender <|
  lookup receiver <|
  lookup receiver <|
  .acquire (.account sender) <|
  .acquire (.account receiver) <|
  .release .bankLock <|
  load sender fun balance =>
    if amount ≤ balance ∨ allowOverdraw then
      load sender fun balance =>
      store sender (balance - amount) <|
      load receiver fun balance =>
      store receiver (balance + amount) <|
      .release (.account sender) <|
      .release (.account receiver) <|
      .ret true
    else
      .release (.account sender) <|
      .release (.account receiver) <|
      .ret false

/-- The entry of the map is read without `bankLock`. -/
def getBalance (accountID : Int) : Op M M :=
  lookup accountID <|
  .acquire (.account accountID) <|
  load accountID fun balance =>
  .release (.account accountID) <|
  .ret balance

def depositAndCompare (accountId : Int) (amount compareThreshold : M) : Op M Bool :=
  (deposit accountId amount).bind fun _ =>
  (getBalance accountId).bind fun balance =>
  .ret (compareThreshold ≤ balance)

end Operations

inductive Call (M : Type) where
  | createAccount (accountID : Int)
  | deposit (accountID : Int) (amount : M)
  | withdraw (accountID : Int) (amount : M)
  | transfer (sender receiver : Int) (amount : M) (allowOverdraw : Bool)
  | getBalance (accountID : Int)
  | depositAndCompare (accountId : Int) (amount compareThreshold : M)
  deriving DecidableEq, Repr

inductive Result (M : Type) where
  | done
  | bool (b : Bool)
  | balance (balance : M)
  deriving DecidableEq, Repr

structure Bank (M : Type) where
  machine : Machine LockId Int (Option M) (Result M)
  calls : List (Call M)

inductive Event (M : Type) where
  | invoke (c : Call M)
  | step (k : Nat)
  deriving DecidableEq, Repr

def Event.Allowed (ok : Call M → Prop) : Event M → Prop
  | .invoke c => ok c
  | .step _ => True

instance (ok : Call M → Prop) [DecidablePred ok] : DecidablePred (Event.Allowed ok)
  | .invoke c => inferInstanceAs (Decidable (ok c))
  | .step _ => inferInstanceAs (Decidable True)

theorem Event.Allowed.mono {ok ok' : Call M → Prop} {e : Event M} (h : e.Allowed ok)
    (himp : ∀ c, ok c → ok' c) : e.Allowed ok' := by
  cases e with
  | invoke c => exact himp c h
  | step k => trivial

def Bank.results (s : Bank M) : List (Option (Result M)) := s.machine.threads.map Prog.result?

def init (accounts : Accounts M) : Bank M := ⟨⟨accounts, fun _ => none, []⟩, []⟩

section Run

variable [Zero M] [Add M] [Sub M] [LE M] [DecidableLE M]

def Call.program : Call M → Op M (Result M)
  | .createAccount id => (Banking.createAccount id).bind fun _ => .ret .done
  | .deposit id amount => (Banking.deposit id amount).bind fun _ => .ret .done
  | .withdraw id amount => (Banking.withdraw id amount).bind fun b => .ret (.bool b)
  | .transfer sender receiver amount allowOverdraw =>
    (Banking.transfer sender receiver amount allowOverdraw).bind fun b => .ret (.bool b)
  | .getBalance id => (Banking.getBalance id).bind fun b => .ret (.balance b)
  | .depositAndCompare id amount threshold =>
    (Banking.depositAndCompare id amount threshold).bind fun b => .ret (.bool b)

def Bank.step (s : Bank M) : Event M → Except Halt (Bank M)
  | .invoke c => .ok ⟨s.machine.spawn c.program, s.calls ++ [c]⟩
  | .step k =>
    match s.machine.step k with
    | .error h => .error h
    | .ok machine => .ok { s with machine }

def Admissible (s : Bank M) : Call M → Prop
  | .createAccount id => s.machine.store id = none ∧ .createAccount id ∉ s.calls
  | .transfer sender receiver _ _ =>
    (s.machine.store sender).isSome ∧ (s.machine.store receiver).isSome ∧ sender ≠ receiver
  | .deposit id _ | .withdraw id _ | .getBalance id | .depositAndCompare id _ _ =>
    (s.machine.store id).isSome

instance [DecidableEq M] (s : Bank M) : DecidablePred (Admissible s)
  | .createAccount _ => inferInstanceAs (Decidable (_ ∧ _))
  | .transfer _ _ _ _ => inferInstanceAs (Decidable (_ ∧ _ ∧ _))
  | .deposit _ _ | .withdraw _ _ | .getBalance _ | .depositAndCompare _ _ _ =>
    inferInstanceAs (Decidable (_ = true))

def Run (accounts : Accounts M) (ok : Bank M → Call M → Prop) (σ : List (Bank M)) : Prop :=
  History.Run (init accounts) (fun s e s' => e.Allowed (ok s) ∧ s.step e = .ok s') σ

end Run

end MrAndRaft.Banking
