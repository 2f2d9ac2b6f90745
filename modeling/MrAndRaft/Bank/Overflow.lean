import Mathlib.Algebra.Order.BigOperators.Group.Finset
import Mathlib.Data.Set.Finite.Basic
import MrAndRaft.Bank.Failures

/-! Calls made one after another on a new bank, with the balances as the 64-bit integers of
the source.  As long as no sum exceeds the word, they do what they would do to unbounded
integers, and there nobody is overdrawn and no money is lost. -/

namespace MrAndRaft.Banking

open Locking

variable {M N : Type}

section Ledger

structure Ledger (M : Type) where
  taken : LockId → Bool
  accounts : Accounts M
  calls : List (Call M × Outcome (Result M))

def bankInit : Ledger M := ⟨fun _ => false, fun _ => none, []⟩

def returned (calls : List (Call M × Outcome (Result M))) : List (Call M × Result M) :=
  calls.filterMap fun (c, outcome) =>
    match outcome with
    | .returned r => some (c, r)
    | .panicked | .blocked | .fatal => none

theorem returned_concat (calls : List (Call M × Outcome (Result M))) (c : Call M) (r : Result M) :
    returned (calls ++ [(c, .returned r)]) = returned calls ++ [(c, r)] := by
  simp [returned]

theorem returned_concat_of_ne (calls : List (Call M × Outcome (Result M))) (c : Call M)
    {outcome : Outcome (Result M)} (h : ∀ r, outcome ≠ .returned r) :
    returned (calls ++ [(c, outcome)]) = returned calls := by
  cases outcome with
  | returned r => exact absurd rfl (h r)
  | panicked | blocked | fatal => simp [returned]

variable [Zero M] [Add M] [Sub M] [LE M] [DecidableLE M]

def Ledger.call (d : Ledger M) (c : Call M) : Ledger M :=
  let (outcome, taken, accounts) := c.program.alone d.taken d.accounts
  ⟨taken, accounts, d.calls ++ [(c, outcome)]⟩

def Ledger.Run (ok : Ledger M → Call M → Prop) (σ : List (Ledger M)) : Prop :=
  History.Run bankInit (fun d c d' => ok d c ∧ d.call c = d') σ

theorem Ledger.exists_run (ok : Ledger M → Call M → Prop) [∀ d c, Decidable (ok d c)]
    (P : Ledger M → Prop) [DecidablePred P] (cs : List (Call M))
    (h : (History.exec (fun d c => decide (ok d c))
      (fun d c => (.ok (d.call c) : Except Halt (Ledger M))) bankInit cs).any
        fun d => decide (P d)) :
    ∃ d σ, Ledger.Run ok (d :: σ) ∧ P d := by
  obtain ⟨d, σ, hrun, hd⟩ := History.exists_run ok P cs h
  exact ⟨d, σ, hrun.mono fun _ _ _ hstep => ⟨hstep.1, Except.ok.inj hstep.2⟩, hd⟩

/-- Every mutex is free, or `bankLock` has been taken for good. -/
def Regular (taken : LockId → Bool) : Prop := taken = (fun _ => false) ∨ taken .bankLock = true

inductive Ledger.Called (d : Ledger M) (c : Call M) : Ledger M → Prop
  | returned {r : Result M} {accounts : Accounts M} : Effect d.accounts c r accounts →
      Called d c ⟨fun _ => false, accounts, d.calls ++ [(c, .returned r)]⟩
  | failed {outcome : Outcome (Result M)} {taken : LockId → Bool} :
      (∀ r, outcome ≠ .returned r) → Regular taken →
      Called d c ⟨taken, d.accounts, d.calls ++ [(c, outcome)]⟩

theorem Ledger.call_cases {d : Ledger M} {c : Call M} (h : Regular d.taken)
    (hc : ∀ id, c ≠ .getBalance id) : d.Called c (d.call c) := by
  obtain ⟨taken, accounts, calls⟩ := d
  rw [Ledger.call]
  rcases h with h | h
  · subst h
    have hending := c.ending accounts
    generalize c.program.alone (fun _ => false) accounts = ending at hending ⊢
    cases hending with
    | returned _ heffect => exact .returned heffect
    | panicked => exact .failed (by simp) (.inl rfl)
    | stuck _ houtcome htaken => exact .failed houtcome (.inr htaken)
  · rw [alone_of_bankLock h hc]
    exact .failed (by simp) (.inr h)

end Ledger

section Plain

variable [Zero M] [LE M]

def Call.Plain : Call M → Prop
  | .createAccount _ => True
  | .deposit _ amount | .withdraw _ amount => 0 ≤ amount
  | .transfer sender receiver amount allowOverdraw =>
    0 ≤ amount ∧ allowOverdraw = false ∧ sender ≠ receiver
  | .getBalance _ | .depositAndCompare _ _ _ => False

instance [DecidableLE M] : DecidablePred (Call.Plain (M := M))
  | .createAccount _ => inferInstanceAs (Decidable True)
  | .deposit _ _ | .withdraw _ _ => inferInstanceAs (Decidable (_ ≤ _))
  | .transfer _ _ _ _ => inferInstanceAs (Decidable (_ ∧ _ ∧ _))
  | .getBalance _ | .depositAndCompare _ _ _ => inferInstanceAs (Decidable False)

theorem Call.Plain.ne_getBalance {c : Call M} (h : c.Plain) (id : Int) : c ≠ .getBalance id := by
  rintro rfl
  exact h

end Plain

def Solvent (accounts : Accounts Int) : Prop := ∀ id, ∀ balance ∈ accounts id, 0 ≤ balance

theorem Solvent.update {accounts : Accounts Int} (h : Solvent accounts) (id : Int) {balance : Int}
    (hbalance : 0 ≤ balance) : Solvent (Function.update accounts id (some balance)) := by
  intro i b hb
  by_cases hi : i = id
  · subst hi
    obtain rfl : balance = b := by simpa using hb
    exact hbalance
  · rw [Function.update_of_ne hi] at hb
    exact h i b hb

theorem Effect.solvent {accounts accounts' : Accounts Int} {c : Call Int} {r : Result Int}
    (h : Effect accounts c r accounts') (hc : c.Plain) (hsolvent : Solvent accounts) :
    Solvent accounts' := by
  cases h with
  | createAccount => exact hsolvent.update _ le_rfl
  | deposit hid => exact hsolvent.update _ (Int.add_nonneg (hsolvent _ _ hid) hc)
  | withdraw _ hle => exact hsolvent.update _ (Int.sub_nonneg.mpr hle)
  | @transfer sender receiver amount balance balance' _ _ hle hr =>
    obtain ⟨hamount, rfl, -⟩ := hc
    have hle : amount ≤ balance := hle.resolve_right (by simp)
    have hsender := hsolvent.update sender (Int.sub_nonneg.mpr hle)
    exact hsender.update _ (Int.add_nonneg (hsender _ _ hr) hamount)
  | withdrawRefused | transferRefused => exact hsolvent
  | getBalance | depositAndCompare => exact hc.elim

section Words

def Call.map (f : M → N) : Call M → Call N
  | .createAccount id => .createAccount id
  | .deposit id amount => .deposit id (f amount)
  | .withdraw id amount => .withdraw id (f amount)
  | .transfer sender receiver amount allowOverdraw =>
    .transfer sender receiver (f amount) allowOverdraw
  | .getBalance id => .getBalance id
  | .depositAndCompare id amount threshold => .depositAndCompare id (f amount) (f threshold)

def Result.map (f : M → N) : Result M → Result N
  | .done => .done
  | .bool b => .bool b
  | .balance b => .balance (f b)

def value (accounts : Accounts Int64) : Accounts Int := fun id => (accounts id).map Int64.toInt

def CanHold (account : Option Int64) (amount : Int64) : Prop :=
  ∀ balance ∈ account, balance.toInt + amount.toInt < 2 ^ 63

def Fits (accounts : Accounts Int64) : Call Int64 → Prop
  | .deposit id amount => CanHold (accounts id) amount
  | .transfer sender receiver amount _ =>
    ∀ balance ∈ accounts sender, amount ≤ balance → CanHold (accounts receiver) amount
  | .createAccount _ | .withdraw _ _ | .getBalance _ | .depositAndCompare _ _ _ => True

-- the instance for options is named, or else all words are tried
instance (account : Option Int64) (amount : Int64) : Decidable (CanHold account amount) :=
  Option.decidableForallMem account

instance (accounts : Accounts Int64) : DecidablePred (Fits accounts)
  | .deposit id amount => inferInstanceAs (Decidable (CanHold (accounts id) amount))
  | .transfer sender _ _ _ => Option.decidableForallMem (accounts sender)
  | .createAccount _ | .withdraw _ _ | .getBalance _ | .depositAndCompare _ _ _ =>
    inferInstanceAs (Decidable True)

theorem value_eq_some {accounts : Accounts Int64} {id : Int} {balance : Int64}
    (h : accounts id = some balance) : value accounts id = some balance.toInt := by
  simp [value, h]

theorem value_update (accounts : Accounts Int64) (id : Int) (balance : Int64) :
    value (Function.update accounts id (some balance)) =
      Function.update (value accounts) id (some balance.toInt) := by
  funext i
  by_cases hi : i = id
  · subst hi
    simp [value]
  · simp [value, hi]

theorem toInt_add_of_lt {a b : Int64} (ha : 0 ≤ a.toInt) (hb : 0 ≤ b.toInt)
    (h : a.toInt + b.toInt < 2 ^ 63) : (a + b).toInt = a.toInt + b.toInt := by
  rw [Int64.toInt_add]
  exact Int.bmod_eq_of_le (by omega) (by omega)

theorem toInt_sub_of_le {a b : Int64} (hb : 0 ≤ b.toInt) (h : b ≤ a) :
    (a - b).toInt = a.toInt - b.toInt := by
  have hle := Int64.le_iff_toInt_le.mp h
  have hlt := a.toInt_lt
  rw [Int64.toInt_sub]
  exact Int.bmod_eq_of_le (by omega) (by omega)

theorem toInt_nonneg {a : Int64} (h : 0 ≤ a) : 0 ≤ a.toInt := by
  simpa using Int64.le_iff_toInt_le.mp h

theorem Call.Plain.map_toInt {c : Call Int64} (h : c.Plain) : (c.map Int64.toInt).Plain := by
  cases c with
  | createAccount => trivial
  | deposit | withdraw => exact toInt_nonneg h
  | transfer => exact ⟨toInt_nonneg h.1, h.2⟩
  | getBalance | depositAndCompare => exact h.elim

theorem Effect.map_toInt {accounts accounts' : Accounts Int64} {c : Call Int64} {r : Result Int64}
    (h : Effect accounts c r accounts') (hc : c.Plain) (hfits : Fits accounts c)
    (hsolvent : Solvent (value accounts)) :
    Effect (value accounts) (c.map Int64.toInt) (r.map Int64.toInt)
      (value accounts') := by
  have hnonneg : ∀ {id : Int} {balance : Int64}, accounts id = some balance → 0 ≤ balance.toInt :=
    fun hid => hsolvent _ _ (value_eq_some hid)
  cases h with
  | createAccount hid =>
    rw [value_update]
    exact .createAccount (by simp [value, hid])
  | deposit hid =>
    rw [value_update, toInt_add_of_lt (hnonneg hid) (toInt_nonneg hc) (hfits _ hid)]
    exact .deposit (value_eq_some hid)
  | withdraw hid hle =>
    rw [value_update, toInt_sub_of_le (toInt_nonneg hc) hle]
    exact .withdraw (value_eq_some hid) (Int64.le_iff_toInt_le.mp hle)
  | withdrawRefused hid hle =>
    exact .withdrawRefused (value_eq_some hid) (mt Int64.le_iff_toInt_le.mpr hle)
  | @transfer sender receiver amount balance balance' allowOverdraw hs hle hr =>
    obtain ⟨hamount, rfl, hne⟩ := hc
    have hle : amount ≤ balance := hle.resolve_right (by simp)
    rw [Function.update_of_ne (Ne.symm hne)] at hr
    rw [value_update, value_update, toInt_sub_of_le (toInt_nonneg hamount) hle,
      toInt_add_of_lt (hnonneg hr) (toInt_nonneg hamount) (hfits _ hs hle _ hr)]
    refine .transfer (value_eq_some hs) (.inl (Int64.le_iff_toInt_le.mp hle)) ?_
    rw [Function.update_of_ne (Ne.symm hne)]
    exact value_eq_some hr
  | transferRefused hs hle =>
    refine .transferRefused (value_eq_some hs) (mt (Or.imp_left Int64.le_iff_toInt_le.mpr) hle)
  | getBalance | depositAndCompare => exact hc.elim

end Words

section Run

def sumReturned (f : Call Int × Result Int → Int)
    (calls : List (Call Int64 × Outcome (Result Int64))) : Int :=
  ((returned calls).map fun (c, r) => f (c.map Int64.toInt, r.map Int64.toInt)).sum

def deposits : List (Call Int64 × Outcome (Result Int64)) → Int :=
  sumReturned fun e => e.1.deposited

def withdrawals : List (Call Int64 × Outcome (Result Int64)) → Int := sumReturned withdrawn

section Sum

variable (f : Call Int × Result Int → Int) (calls : List (Call Int64 × Outcome (Result Int64)))
  (c : Call Int64)

theorem sumReturned_concat (r : Result Int64) :
    sumReturned f (calls ++ [(c, .returned r)]) =
      sumReturned f calls + f (c.map Int64.toInt, r.map Int64.toInt) := by
  simp [sumReturned, returned_concat]

theorem sumReturned_concat_of_ne {outcome : Outcome (Result Int64)}
    (h : ∀ r, outcome ≠ .returned r) :
    sumReturned f (calls ++ [(c, outcome)]) = sumReturned f calls := by
  rw [sumReturned, returned_concat_of_ne _ _ h, sumReturned]

end Sum

theorem Effect.finite [Zero M] [Add M] [Sub M] [LE M] [DecidableLE M]
    {accounts accounts' : Accounts M} {c : Call M} {r : Result M}
    (h : Effect accounts c r accounts') (hfinite : {id | (accounts id).isSome}.Finite) :
    {id | (accounts' id).isSome}.Finite := by
  refine h.preserves (P := fun s => {id | (s id).isSome}.Finite) (fun s id balance hs => ?_) hfinite
  refine (hs.insert id).subset fun i hi => ?_
  by_cases hid : i = id
  · exact .inl hid
  · exact .inr (by simpa [hid] using hi)

/-- The invariant: the accounts are finitely many, nobody is overdrawn, and what they hold is
what was paid in and not taken out. -/
structure Ledger.Balanced (d : Ledger Int64) : Prop where
  regular : Regular d.taken
  finite : {id | (d.accounts id).isSome}.Finite
  solvent : Solvent (value d.accounts)
  total_eq : ∀ ids : Finset Int, (∀ id, (d.accounts id).isSome → id ∈ ids) →
    total ids (value d.accounts) = deposits d.calls - withdrawals d.calls
  withdrawals_nonneg : 0 ≤ withdrawals d.calls

theorem bankInit_balanced : (bankInit : Ledger Int64).Balanced where
  regular := .inl rfl
  finite := by simp [bankInit]
  solvent id balance h := by cases h
  total_eq ids _ := by simp [bankInit, total, value, deposits, withdrawals, sumReturned, returned]
  withdrawals_nonneg := by simp [bankInit, withdrawals, sumReturned, returned]

theorem withdrawn_nonneg {c : Call Int} (hc : c.Plain) (r : Result Int) : 0 ≤ withdrawn (c, r) := by
  unfold withdrawn
  split
  · rename_i heq
    cases heq
    exact hc
  · rfl

theorem Ledger.Balanced.call {d : Ledger Int64} {c : Call Int64} (h : d.Balanced) (hc : c.Plain)
    (hfits : Fits d.accounts c) : (d.call c).Balanced := by
  have hcalled := Ledger.call_cases h.regular hc.ne_getBalance
  generalize d.call c = d' at hcalled ⊢
  cases hcalled with
  | @returned r accounts heffect =>
    have hvalue := heffect.map_toInt hc hfits h.solvent
    refine ⟨.inl rfl, heffect.finite h.finite, hvalue.solvent hc.map_toInt h.solvent,
      fun ids hids => ?_, ?_⟩
    · have htotal := h.total_eq ids fun id hid => hids id (heffect.isSome hid)
      have hdeposits : deposits (d.calls ++ [(c, .returned r)]) =
          deposits d.calls + (c.map Int64.toInt).deposited := sumReturned_concat _ _ _ _
      rw [hvalue.total_eq (by simpa [value] using hids), htotal, hdeposits, withdrawals,
        sumReturned_concat]
      omega
    · rw [withdrawals, sumReturned_concat]
      exact Int.add_nonneg h.withdrawals_nonneg (withdrawn_nonneg hc.map_toInt _)
  | failed houtcome hregular =>
    refine ⟨hregular, h.finite, h.solvent, fun ids hids => ?_, ?_⟩
    · rw [h.total_eq ids hids, deposits, withdrawals, sumReturned_concat_of_ne _ _ _ houtcome,
        sumReturned_concat_of_ne _ _ _ houtcome]
    · rw [withdrawals, sumReturned_concat_of_ne _ _ _ houtcome]
      exact h.withdrawals_nonneg

theorem Ledger.Run.balanced {ok : Ledger Int64 → Call Int64 → Prop} {σ : List (Ledger Int64)}
    (h : Ledger.Run ok σ) (hok : ∀ d c, d.Balanced → ok d c → c.Plain ∧ Fits d.accounts c) :
    ∀ d ∈ σ, d.Balanced := by
  refine h.forall_mem bankInit_balanced fun d c d' hd hstep => ?_
  obtain ⟨hc, rfl⟩ := hstep
  obtain ⟨hplain, hfits⟩ := hok d c hd hc
  exact hd.call hplain hfits

def Ledger.Sound (d : Ledger Int64) : Prop :=
  Solvent (value d.accounts) ∧
    ∃ ids : Finset Int, (∀ id, id ∈ ids ↔ (d.accounts id).isSome) ∧
      total ids (value d.accounts) = deposits d.calls - withdrawals d.calls

theorem Ledger.Balanced.sound {d : Ledger Int64} (h : d.Balanced) : d.Sound :=
  ⟨h.solvent, h.finite.toFinset, by simp, h.total_eq _ (by simp)⟩

theorem Ledger.Run.no_overdraft {σ : List (Ledger Int64)}
    (h : Ledger.Run (fun d c => c.Plain ∧ Fits d.accounts c) σ) : ∀ d ∈ σ, d.Sound :=
  fun d hd => (h.balanced (fun _ _ _ hok => hok) d hd).sound

theorem no_overdraft_duplicate :
    ∃ d σ, Ledger.Run (fun d c => c.Plain ∧ Fits d.accounts c) (d :: σ) ∧
      (d.accounts 1 = some 70 ∧ d.accounts 2 = some 20 ∧ deposits d.calls = 100 ∧
        withdrawals d.calls = 10) ∧ d.Sound := by
  obtain ⟨d, σ, h, hd⟩ := Ledger.exists_run (fun d c => c.Plain ∧ Fits d.accounts c)
    (fun d => d.accounts 1 = some 70 ∧ d.accounts 2 = some 20 ∧ deposits d.calls = 100 ∧
      withdrawals d.calls = 10)
    [.createAccount 1, .createAccount 2, .deposit 1 100, .transfer 1 2 30 false, .withdraw 2 50,
      .withdraw 2 10, .createAccount 2, .deposit 1 5] (by decide +kernel)
  exact ⟨d, σ, h, hd, Ledger.Run.no_overdraft h d List.mem_cons_self⟩

/-- One more than the greatest balance is the least one, by a deposit and by a transfer. -/
theorem overdraft_by_overflow :
    (∃ d σ, Ledger.Run (fun _ c => c.Plain) (d :: σ) ∧ ¬ Solvent (value d.accounts) ∧
      total {1} (value d.accounts) = -2 ^ 63 ∧ deposits d.calls = 2 ^ 63 ∧
      withdrawals d.calls = 0) ∧
    ∃ d σ, Ledger.Run (fun _ c => c.Plain) (d :: σ) ∧ ¬ Solvent (value d.accounts) ∧
      total {1, 2} (value d.accounts) = -2 ^ 63 ∧ deposits d.calls = 2 ^ 63 ∧
      withdrawals d.calls = 0 := by
  have hnot : ∀ {accounts : Accounts Int}, accounts 1 = some (-2 ^ 63) → ¬ Solvent accounts :=
    fun h hsolvent => absurd (hsolvent 1 _ h) (by decide)
  constructor
  · obtain ⟨d, σ, h, hd, hrest⟩ := Ledger.exists_run (fun _ (c : Call Int64) => c.Plain)
      (fun d => value d.accounts 1 = some (-2 ^ 63) ∧ total {1} (value d.accounts) = -2 ^ 63 ∧
        deposits d.calls = 2 ^ 63 ∧ withdrawals d.calls = 0)
      [.createAccount 1, .deposit 1 9223372036854775807, .deposit 1 1] (by decide +kernel)
    exact ⟨d, σ, h, hnot hd, hrest⟩
  · obtain ⟨d, σ, h, hd, hrest⟩ := Ledger.exists_run (fun _ (c : Call Int64) => c.Plain)
      (fun d => value d.accounts 1 = some (-2 ^ 63) ∧ total {1, 2} (value d.accounts) = -2 ^ 63 ∧
        deposits d.calls = 2 ^ 63 ∧ withdrawals d.calls = 0)
      [.createAccount 1, .createAccount 2, .deposit 1 9223372036854775807, .deposit 2 1,
        .transfer 2 1 1 false] (by decide +kernel)
    exact ⟨d, σ, h, hnot hd, hrest⟩

section Bounds

variable {ids : Finset Int} {accounts : Accounts Int}

theorem Solvent.getD_nonneg (h : Solvent accounts) (id : Int) : 0 ≤ (accounts id).getD 0 := by
  cases hid : accounts id with
  | none => simp
  | some balance => exact h id balance hid

theorem Solvent.le_total (h : Solvent accounts) {id balance : Int} (hmem : id ∈ ids)
    (hid : accounts id = some balance) : balance ≤ total ids accounts := by
  have hle := Finset.single_le_sum (fun i _ => h.getD_nonneg i) hmem
  rw [hid] at hle
  exact hle

theorem Solvent.add_le_total (h : Solvent accounts) {id id' balance balance' : Int}
    (hmem : id ∈ ids) (hid : accounts id = some balance) (hmem' : id' ∈ ids)
    (hid' : accounts id' = some balance') (hne : id ≠ id') :
    balance + balance' ≤ total ids accounts := by
  have hle := Finset.add_le_sum (fun i _ => h.getD_nonneg i) hmem hmem' hne
  rw [hid, hid'] at hle
  exact hle

end Bounds

theorem Ledger.Balanced.fits {d : Ledger Int64} {c : Call Int64} (h : d.Balanced) (hc : c.Plain)
    (hlt : deposits d.calls + (c.map Int64.toInt).deposited < 2 ^ 63) : Fits d.accounts c := by
  have hmem : ∀ {id : Int} {balance : Int64}, d.accounts id = some balance →
      id ∈ h.finite.toFinset := by
    intro id balance hid
    simp [hid]
  have htotal := h.total_eq h.finite.toFinset (by simp)
  have hwithdrawals := h.withdrawals_nonneg
  cases c with
  | deposit id amount =>
    intro balance hid
    have hle := h.solvent.le_total (hmem hid) (value_eq_some hid)
    have hlt : deposits d.calls + amount.toInt < 2 ^ 63 := hlt
    omega
  | transfer sender receiver amount allowOverdraw =>
    intro balance hs hle balance' hr
    have hsum := h.solvent.add_le_total (hmem hs) (value_eq_some hs) (hmem hr) (value_eq_some hr)
      hc.2.2
    have hle := Int64.le_iff_toInt_le.mp hle
    have hlt : deposits d.calls + 0 < 2 ^ 63 := hlt
    omega
  | createAccount | withdraw | getBalance | depositAndCompare => trivial

theorem Ledger.Run.sound_of_deposits_lt {σ : List (Ledger Int64)}
    (h : Ledger.Run (fun d c => c.Plain ∧
      deposits d.calls + (c.map Int64.toInt).deposited < 2 ^ 63) σ) : ∀ d ∈ σ, d.Sound :=
  fun d hd => (h.balanced (fun _ _ hd hok => ⟨hok.1, hd.fits hok.1 hok.2⟩) d hd).sound

end Run

end MrAndRaft.Banking
