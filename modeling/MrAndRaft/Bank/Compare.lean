import MrAndRaft.Bank.Atomicity

/-! `DepositAndCompare` deposits in one critical section and reads the balance in another.
It is as if each call had run by itself when it wrote the balance, as long as nobody else
deposits into the account before it has read it back. -/

namespace MrAndRaft.Banking

open Locking

variable {M R : Type} [Add M] [LE M] [DecidableLE M]

section Stages

variable (id : Int) (amount threshold : M)

def compare : Op M (Result M) :=
  lookup id <|
  .acquire (.account id) <|
  load id fun balance =>
  .release (.account id) <|
  .ret (.bool (threshold ≤ balance))

def add (balance : M) : Op M (Result M) :=
  store id (balance + amount) <|
  .release (.account id) <|
  compare id threshold

/-- Where a call is, on an account that holds `balance`.  The last index is what it will
return, from the deposit on. -/
inductive Stage (balance : M) : Op M (Result M) → Option (Result M) → Prop
  | start : Stage balance (.acquire .bankLock <| lookup id <| .acquire (.account id) <|
      .release .bankLock <| load id (add id amount threshold)) none
  | looking : Stage balance (lookup id <| .acquire (.account id) <|
      .release .bankLock <| load id (add id amount threshold)) none
  | locking : Stage balance (.acquire (.account id) <|
      .release .bankLock <| load id (add id amount threshold)) none
  | locked : Stage balance (.release .bankLock <| load id (add id amount threshold)) none
  | loading : Stage balance (load id (add id amount threshold)) none
  | adding : Stage balance (add id amount threshold balance) none
  | added : Stage balance (.release (.account id) (compare id threshold))
      (some (.bool (threshold ≤ balance)))
  | lookingAgain : Stage balance (compare id threshold) (some (.bool (threshold ≤ balance)))
  | waiting : Stage balance (.acquire (.account id) <| load id fun balance =>
      .release (.account id) <| .ret (.bool (threshold ≤ balance)))
      (some (.bool (threshold ≤ balance)))
  | reading : Stage balance (load id fun balance =>
      .release (.account id) <| .ret (.bool (threshold ≤ balance)))
      (some (.bool (threshold ≤ balance)))
  | compared (r : Result M) : Stage balance (.release (.account id) (.ret r)) (some r)
  | returned (r : Result M) : Stage balance (.ret r) (some r)

end Stages

section Stage

variable {id : Int} {amount threshold balance : M} {p p' : Op M (Result M)}
  {st : Option (Result M)} {accounts : Accounts M}

theorem Stage.next (h : Stage id amount threshold balance p st)
    (hid : accounts id = some balance) (hp : p.next accounts = some p') :
    p.effect accounts = accounts ∧ Stage id amount threshold balance p' st ∨
      p = add id amount threshold balance ∧ st = none ∧
        p' = .release (.account id) (compare id threshold) ∧
        p.effect accounts = Function.update accounts id (some (balance + amount)) := by
  cases h with
  | adding =>
    cases hp
    exact .inr ⟨rfl, rfl, rfl, rfl⟩
  | start =>
    cases hp
    exact .inl ⟨rfl, .looking⟩
  | looking =>
    simp only [lookup, Prog.next, hid, Option.some.injEq] at hp
    exact .inl ⟨rfl, hp ▸ .locking⟩
  | locking =>
    cases hp
    exact .inl ⟨rfl, .locked⟩
  | locked =>
    cases hp
    exact .inl ⟨rfl, .loading⟩
  | loading =>
    simp only [load, Prog.next, hid, Option.some.injEq] at hp
    exact .inl ⟨rfl, hp ▸ .adding⟩
  | added =>
    cases hp
    exact .inl ⟨rfl, .lookingAgain⟩
  | lookingAgain =>
    simp only [compare, lookup, Prog.next, hid, Option.some.injEq] at hp
    exact .inl ⟨rfl, hp ▸ .waiting⟩
  | waiting =>
    cases hp
    exact .inl ⟨rfl, .reading⟩
  | reading =>
    simp only [load, Prog.next, hid, Option.some.injEq] at hp
    exact .inl ⟨rfl, hp ▸ .compared _⟩
  | compared r =>
    cases hp
    exact .inl ⟨rfl, .returned r⟩
  | returned => cases hp

variable [Zero M]

def uses (id : Int) : Op M R → Bool
  | .ret _ | .panic => false
  | .acquire _ p | .release _ p => uses id p
  | .read a p => a = id || uses id (p (some 0))
  | .write a _ p => a = id || uses id p

def writes (id : Int) : Op M R → Bool
  | .ret _ | .panic => false
  | .acquire _ p | .release _ p => writes id p
  | .read _ p => writes id (p (some 0))
  | .write a _ p => a = id || writes id p

def comparing (id : Int) (p : Op M R) : Bool := uses id p && !writes id p

theorem Stage.deposited (h : Stage id amount threshold balance p st)
    (hadding : p ≠ add id amount threshold balance) (hcomparing : comparing id p = false)
    (balance' : M) : Stage id amount threshold balance' p st := by
  cases h with
  | adding => exact absurd rfl hadding
  | start => exact .start
  | looking => exact .looking
  | locking => exact .locking
  | locked => exact .locked
  | loading => exact .loading
  | compared r => exact .compared r
  | returned r => exact .returned r
  | added | lookingAgain | waiting | reading =>
    simp [comparing, uses, writes, compare, lookup, load] at hcomparing

end Stage

variable [Zero M] [Sub M]

theorem program_depositAndCompare (id : Int) (amount threshold : M) :
    (Call.depositAndCompare id amount threshold).program =
      .acquire .bankLock (lookup id <| .acquire (.account id) <|
        .release .bankLock <| load id (add id amount threshold)) := by
  simp only [Call.program, depositAndCompare, deposit, getBalance, Prog.bind, bind_lookup, bind_load,
    bind_store]
  rfl

theorem Effect.depositAndCompare_inv {accounts accounts' : Accounts M} {id : Int}
    {amount threshold : M} {r : Result M}
    (h : Effect accounts (.depositAndCompare id amount threshold) r accounts') :
    ∃ balance, accounts id = some balance ∧ r = .bool (threshold ≤ balance + amount) ∧
      accounts' = Function.update accounts id (some (balance + amount)) := by
  cases h with
  | depositAndCompare hid => exact ⟨_, hid, rfl, rfl⟩

theorem alone_depositAndCompare {accounts : Accounts M} {id : Int} {balance : M}
    (hid : accounts id = some balance) (amount threshold : M) :
    (Call.depositAndCompare id amount threshold).program.alone (fun _ => false) accounts =
      (.returned (.bool (threshold ≤ balance + amount)), fun _ => false,
        Function.update accounts id (some (balance + amount))) := by
  have hadmissible : Admissible (init accounts) (.depositAndCompare id amount threshold) := by
    simp [Admissible, init, hid]
  obtain ⟨r, accounts', heffect, halone⟩ := hadmissible.alone_eq
  obtain ⟨balance', hid', rfl, haccounts⟩ := heffect.depositAndCompare_inv
  obtain rfl := Option.some.inj (hid.symm.trans hid')
  exact halone.trans (congrArg (fun accounts' => (_, _, accounts')) haccounts)

section Run

def Call.Compares : Call M → Prop
  | .depositAndCompare _ _ _ => True
  | _ => False

instance : DecidablePred (Call.Compares (M := M))
  | .depositAndCompare _ _ _ => inferInstanceAs (Decidable True)
  | .createAccount _ | .deposit _ _ | .withdraw _ _ | .transfer _ _ _ _ | .getBalance _ =>
    inferInstanceAs (Decidable False)

def AdmissibleCompare (s : Bank M) (c : Call M) : Prop := Admissible s c ∧ c.Compares

instance [DecidableEq M] (s : Bank M) : DecidablePred (AdmissibleCompare s) :=
  fun c => inferInstanceAs (Decidable (Admissible s c ∧ c.Compares))

def target : Op M R → Option Int
  | .write id _ _ => some id
  | _ => none

/-- Nobody deposits into an account whose balance another call is about to read back. -/
def Undisturbed (s : Bank M) : Event M → Prop
  | .invoke _ => True
  | .step k => ∀ id ∈ (s.machine.threads[k]?).bind target, ∀ j < s.machine.threads.length, j ≠ k →
      (s.machine.threads[j]?).any (comparing id) = false

instance (s : Bank M) : DecidablePred (Undisturbed s)
  | .invoke _ => inferInstanceAs (Decidable True)
  | .step _ => inferInstanceAs (Decidable (∀ id ∈ _, _))

def UndisturbedRun (accounts : Accounts M) (σ : List (Bank M)) : Prop :=
  History.Run (init accounts)
    (fun s e s' => (e.Allowed (AdmissibleCompare s) ∧ Undisturbed s e) ∧ s.step e = .ok s') σ

theorem exists_undisturbedRun [DecidableEq M] (accounts : Accounts M) (P : Bank M → Prop)
    [DecidablePred P] (es : List (Event M))
    (h : (History.exec (fun s e => decide (e.Allowed (AdmissibleCompare s) ∧ Undisturbed s e))
      Bank.step (init accounts) es).any fun s => decide (P s)) :
    ∃ s σ, UndisturbedRun accounts (s :: σ) ∧ P s := by
  unfold UndisturbedRun
  exact History.exists_run _ P es h

variable {accounts : Accounts M} {s s' : Bank M} {e : Event M} {k : Nat}
  {order : List (Nat × Result M)}

/-- `order` are the calls that have made their deposit, in the order in which they did. -/
structure Bank.Deposited (accounts : Accounts M) (order : List (Nat × Result M)) (s : Bank M) :
    Prop where
  serial : ∀ cs, s.calls <+: cs → Serial (originAt cs) accounts order s.machine.store
  nodup : (order.map Prod.fst).Nodup
  lt : ∀ e ∈ order, e.1 < s.machine.threads.length
  stage : ∀ (k : Nat) (p : Op M (Result M)), s.machine.threads[k]? = some p →
    ∃ id amount threshold balance st, s.calls[k]? = some (.depositAndCompare id amount threshold) ∧
      s.machine.store id = some balance ∧ Stage id amount threshold balance p st ∧
      ∀ r, (k, r) ∈ order ↔ st = some r

theorem init_deposited (accounts : Accounts M) : (init accounts).Deposited accounts [] :=
  ⟨fun _ _ => .nil, .nil, by simp, by simp [init]⟩

omit [Zero M] [Sub M] in
theorem Bank.Ok.owner_of_add (h : s.Ok) {id : Int} {amount threshold balance : M}
    (hp : s.machine.threads[k]? = some (add id amount threshold balance)) :
    s.machine.owner (.account id) = some k :=
  ((h.machine s.calls List.prefix_rfl).safe k _ hp).2.2.1

theorem Bank.Deposited.invoke (h : s.Deposited accounts order) (hok : s.Ok) {id : Int}
    {amount threshold : M} (hid : (s.machine.store id).isSome) :
    Bank.Deposited accounts order
      ⟨s.machine.spawn (Call.depositAndCompare id amount threshold).program,
        s.calls ++ [.depositAndCompare id amount threshold]⟩ where
  serial cs hcs := h.serial cs ((List.prefix_append _ _).trans hcs)
  nodup := h.nodup
  lt e he := by
    have := h.lt e he
    simp only [Machine.spawn, List.length_append]
    omega
  stage k p hp := by
    rcases Machine.getElem?_spawn_cases hp with hp | ⟨rfl, rfl⟩
    · obtain ⟨id', amount', threshold', balance, st, hcall, hrest⟩ := h.stage k p hp
      have hlt := (List.getElem?_eq_some_iff.mp hcall).1
      exact ⟨id', amount', threshold', balance, st,
        by rw [List.getElem?_append_left hlt, hcall], hrest⟩
    · obtain ⟨balance, hbalance⟩ := Option.isSome_iff_exists.mp hid
      refine ⟨id, amount, threshold, balance, none, by simp [hok.length], hbalance,
        program_depositAndCompare id amount threshold ▸ .start, fun r => ?_⟩
      simp only [reduceCtorEq, iff_false]
      intro hmem
      exact absurd (h.lt _ hmem) (by simp)

theorem Bank.Deposited.quiet (h : s.Deposited accounts order)
    {machine : Machine LockId Int (Option M) (Result M)} {p' : Op M (Result M)} {id : Int}
    {amount threshold balance : M} {st : Option (Result M)}
    (hcall : s.calls[k]? = some (.depositAndCompare id amount threshold))
    (hbalance : s.machine.store id = some balance) (horder : ∀ r, (k, r) ∈ order ↔ st = some r)
    (hthreads : machine.threads = s.machine.threads.set k p')
    (hstore : machine.store = s.machine.store) (hst : Stage id amount threshold balance p' st) :
    Bank.Deposited accounts order ⟨machine, s.calls⟩ where
  serial cs hcs := hstore ▸ h.serial cs hcs
  nodup := h.nodup
  lt e he := by simpa [hthreads] using h.lt e he
  stage j q hq := by
    rw [hstore]
    rcases Position.of_set (hthreads ▸ hq) with ⟨rfl, rfl⟩ | ⟨-, hq⟩
    · exact ⟨id, amount, threshold, balance, st, hcall, hbalance, hst, horder⟩
    · exact h.stage j q hq

/-- The other calls do not see the deposit: on the same account, none is about to write, since
it would hold the mutex of the account, too, and none is about to read the balance back. -/
theorem Bank.Deposited.beside (h : s.Deposited accounts order) (hok : s.Ok) {id : Int}
    {amount threshold balance : M} {j : Nat} {q : Op M (Result M)}
    (hp : s.machine.threads[k]? = some (add id amount threshold balance))
    (hbalance : s.machine.store id = some balance) (hund : Undisturbed s (.step k)) (hjk : j ≠ k)
    (hq : s.machine.threads[j]? = some q) :
    ∃ id' amount' threshold' balance' st,
      s.calls[j]? = some (.depositAndCompare id' amount' threshold') ∧
      Function.update s.machine.store id (some (balance + amount)) id' = some balance' ∧
      Stage id' amount' threshold' balance' q st ∧ ∀ r, (j, r) ∈ order ↔ st = some r := by
  obtain ⟨id', amount', threshold', balance', st, hcall, hbalance', hst, horder⟩ := h.stage j q hq
  by_cases hid : id' = id
  · subst hid
    have hsame : some balance' = some balance := hbalance'.symm.trans hbalance
    cases hsame
    have hadding : q ≠ add id' amount' threshold' balance := by
      rintro rfl
      exact hjk (Option.some.inj ((hok.owner_of_add hq).symm.trans (hok.owner_of_add hp)))
    have hcomparing : comparing id' q = false := by
      have htarget : id' ∈ (s.machine.threads[k]?).bind target := by simp [hp, add, store, target]
      simpa [hq] using hund id' htarget j (List.getElem?_eq_some_iff.mp hq).1 hjk
    exact ⟨id', amount', threshold', balance + amount, st, hcall, by simp,
      hst.deposited hadding hcomparing _, horder⟩
  · exact ⟨id', amount', threshold', balance', st, hcall, by simp [hid, hbalance'], hst, horder⟩

theorem Bank.Deposited.deposit (h : s.Deposited accounts order) (hok : s.Ok)
    {machine : Machine LockId Int (Option M) (Result M)} {id : Int} {amount threshold balance : M}
    (hcall : s.calls[k]? = some (.depositAndCompare id amount threshold))
    (hp : s.machine.threads[k]? = some (add id amount threshold balance))
    (hbalance : s.machine.store id = some balance) (hnew : ∀ r, (k, r) ∉ order)
    (hthreads : machine.threads =
      s.machine.threads.set k (.release (.account id) (compare id threshold)))
    (hstore : machine.store = Function.update s.machine.store id (some (balance + amount)))
    (hund : Undisturbed s (.step k)) :
    Bank.Deposited accounts (order ++ [(k, .bool (threshold ≤ balance + amount))])
      ⟨machine, s.calls⟩ where
  serial cs hcs := by
    refine .snoc (h.serial cs hcs) ?_
    rw [originAt, Prefix.getElem? hcs hcall, hstore]
    exact alone_depositAndCompare hbalance amount threshold
  nodup := by
    rw [List.map_append, List.map_singleton, ← List.concat_eq_append]
    refine List.Nodup.concat (fun hk => ?_) h.nodup
    obtain ⟨e, he, rfl⟩ := List.mem_map.mp hk
    exact hnew e.2 he
  lt e he := by
    rcases List.mem_append.mp he with he | he
    · simpa [hthreads] using h.lt e he
    · rw [List.mem_singleton.mp he, hthreads, List.length_set]
      exact (List.getElem?_eq_some_iff.mp hp).1
  stage j q hq := by
    rw [hstore]
    rcases Position.of_set (hthreads ▸ hq) with ⟨rfl, rfl⟩ | ⟨hjk, hq⟩
    · refine ⟨id, amount, threshold, balance + amount, _, hcall, by simp, .added, fun r => ?_⟩
      simp [hnew r, eq_comm]
    · obtain ⟨id', amount', threshold', balance', st, hcall', hbalance', hst, horder⟩ :=
        h.beside hok hp hbalance hund hjk hq
      exact ⟨id', amount', threshold', balance', st, hcall', hbalance', hst,
        fun r => by simp [horder, hjk]⟩

theorem Bank.Deposited.step (h : s.Deposited accounts order) (hok : s.Ok)
    (hallowed : e.Allowed (AdmissibleCompare s)) (hund : Undisturbed s e)
    (hstep : s.step e = .ok s') : ∃ order', s'.Deposited accounts order' := by
  cases Bank.step_cases hstep with
  | @invoke c =>
    obtain ⟨hadmissible, hc⟩ : AdmissibleCompare s c := hallowed
    cases c with
    | depositAndCompare id amount threshold => exact ⟨order, h.invoke hok hadmissible⟩
    | createAccount | deposit | withdraw | transfer | getBalance => exact hc.elim
  | step hm =>
    obtain ⟨p, p', hp, hnext, hthreads, hstore⟩ := Machine.step_next hm
    obtain ⟨id, amount, threshold, balance, st, hcall, hbalance, hst, horder⟩ := h.stage _ p hp
    rcases hst.next hbalance hnext with ⟨hquiet, hst'⟩ | ⟨rfl, rfl, rfl, hwrite⟩
    · exact ⟨order, h.quiet hcall hbalance horder hthreads (hstore.trans hquiet) hst'⟩
    · exact ⟨_, h.deposit hok hcall hp hbalance (by simp [horder]) hthreads (hstore.trans hwrite) hund⟩

theorem UndisturbedRun.deposited {σ : List (Bank M)} (h : UndisturbedRun accounts σ) :
    ∀ s ∈ σ, s.Ok ∧ ∃ order, s.Deposited accounts order := by
  refine History.Run.forall_mem h ⟨init_ok accounts, [], init_deposited accounts⟩ ?_
  rintro s e s' ⟨hok, order, hs⟩ ⟨⟨hallowed, hund⟩, hstep⟩
  exact ⟨hok.step (hallowed.mono fun _ hc => hc.1) hstep, hs.step hok hallowed hund hstep⟩

theorem Bank.Deposited.mem_of_ret (h : s.Deposited accounts order) {r : Result M}
    (hp : s.machine.threads[k]? = some (.ret r)) (r' : Result M) : (k, r') ∈ order ↔ r' = r := by
  obtain ⟨id, amount, threshold, balance, st, -, -, hst, horder⟩ := h.stage k _ hp
  cases hst with
  | returned => simp [horder, eq_comm]

theorem UndisturbedRun.length_results {σ : List (Bank M)} {rs : List (Result M)}
    (h : UndisturbedRun accounts σ) (hs : s ∈ σ) (hrs : s.results = rs.map some) :
    s.calls.length = rs.length := by
  rw [← (h.deposited s hs).1.length, threads_of_results hrs, List.length_map]

theorem UndisturbedRun.exists_serial {σ : List (Bank M)} {rs : List (Result M)}
    (h : UndisturbedRun accounts σ) (hs : s ∈ σ) (hrs : s.results = rs.map some) :
    ∃ order, order.Perm (s.calls.zip rs) ∧ Serial Call.program accounts order s.machine.store := by
  obtain ⟨hok, order, hdeposited⟩ := h.deposited s hs
  have hthreads := threads_of_results hrs
  have hlen := h.length_results hs hrs
  have hret : ∀ k (hk : k < rs.length) r, (k, r) ∈ order ↔ r = rs[k] := fun k hk r =>
    hdeposited.mem_of_ret (by simp [hthreads, hk]) r
  have hlt : ∀ e ∈ order, e.1 < rs.length := fun e he => by
    simpa [hthreads] using hdeposited.lt e he
  refine exists_serial_of_order (hdeposited.serial s.calls List.prefix_rfl) hlen ?_ ?_
  · refine (List.perm_ext_iff_of_nodup hdeposited.nodup List.nodup_range).mpr fun k => ?_
    rw [hlen, List.mem_range]
    constructor
    · intro hk
      obtain ⟨e, he, rfl⟩ := List.mem_map.mp hk
      exact hlt e he
    · intro hk
      exact List.mem_map.mpr ⟨(k, rs[k]), (hret k hk _).mpr rfl, rfl⟩
  · intro e he
    rw [List.getElem?_eq_getElem (hlt e he), (hret e.1 (hlt e he) e.2).mp he]

theorem UndisturbedRun.compares {σ : List (Bank M)} (h : UndisturbedRun accounts σ) :
    ∀ s ∈ σ, ∀ c ∈ s.calls, ∃ id amount threshold, c = .depositAndCompare id amount threshold := by
  intro s hs c hc
  obtain ⟨hok, order, hdeposited⟩ := h.deposited s hs
  obtain ⟨k, hk, rfl⟩ := List.getElem_of_mem hc
  have hp := List.getElem?_eq_getElem (hok.length ▸ hk)
  obtain ⟨id, amount, threshold, -, -, hcall, -⟩ := hdeposited.stage k _ hp
  exact ⟨id, amount, threshold, Option.some.inj ((List.getElem?_eq_getElem hk).symm.trans hcall)⟩

theorem serial_depositAndCompare {accounts' : Accounts M} {before after : List (Call M × Result M)}
    {id : Int} {amount threshold : M} {r : Result M}
    (h : Serial Call.program accounts
      (before ++ (.depositAndCompare id amount threshold, r) :: after) accounts') :
    ∃ accounts₁ balance, Serial Call.program accounts before accounts₁ ∧
      accounts₁ id = some balance ∧ r = .bool (threshold ≤ balance + amount) := by
  obtain ⟨accounts₁, _, hbefore, halone⟩ := h.of_append
  obtain ⟨balance, hid, hr, -⟩ :=
    (effect_of_eval (Prog.eval_of_alone halone)).depositAndCompare_inv
  exact ⟨accounts₁, balance, hbefore, hid, hr⟩

theorem serial_first_depositAndCompare {accounts' : Accounts M} {after : List (Call M × Result M)}
    {id : Int} {amount threshold : M} {r : Result M}
    (h : Serial Call.program accounts ((.depositAndCompare id amount threshold, r) :: after)
      accounts') : ∃ balance, accounts id = some balance ∧ r = .bool (threshold ≤ balance + amount) := by
  rw [← List.nil_append (_ :: after)] at h
  obtain ⟨accounts₁, balance, hbefore, hid, hr⟩ := serial_depositAndCompare h
  rw [hbefore.nil_inv] at hid
  exact ⟨balance, hid, hr⟩

theorem results_perm_of_serial {accounts₁ accounts₂ : Accounts M} {cs cs' : List (Call M)}
    {rs rs' : List (Result M)} {order order' : List (Call M × Result M)} {c : Call M}
    (hc : ∀ c' ∈ cs, c' = c) (hperm : cs'.Perm cs) (hlen : cs.length = rs.length)
    (hlen' : cs'.length = rs'.length) (horder : order.Perm (cs.zip rs))
    (horder' : order'.Perm (cs'.zip rs')) (h : Serial Call.program accounts order accounts₁)
    (h' : Serial Call.program accounts order' accounts₂) : rs'.Perm rs := by
  have hcalls : (order.map Prod.fst).Perm cs := by
    simpa [List.map_fst_zip hlen.le] using horder.map Prod.fst
  have hcalls' : (order'.map Prod.fst).Perm cs := by
    refine List.Perm.trans ?_ hperm
    simpa [List.map_fst_zip hlen'.le] using horder'.map Prod.fst
  rw [List.eq_replicate_of_mem hc] at hcalls hcalls'
  obtain ⟨rfl, -⟩ := h.unique h' ((List.perm_replicate.mp hcalls').trans
    (List.perm_replicate.mp hcalls).symm)
  have hresults : (order'.map Prod.snd).Perm rs := by
    simpa [List.map_snd_zip hlen.ge] using horder.map Prod.snd
  have hresults' : (order'.map Prod.snd).Perm rs' := by
    simpa [List.map_snd_zip hlen'.ge] using horder'.map Prod.snd
  exact hresults'.symm.trans hresults

/-- As long as nobody deposits between the two critical sections of another call, the calls
are atomic: each returns whether its own deposit, made after those before it in the order,
reaches its threshold.  Equal calls are then refused equally often. -/
theorem UndisturbedRun.compare_atomic [DecidableEq M] {σ : List (Bank M)} {rs : List (Result M)}
    (h : UndisturbedRun accounts σ) (hs : s ∈ σ) (hrs : s.results = rs.map some) :
    (∃ order, order.Perm (s.calls.zip rs) ∧
      Serial Call.program accounts order s.machine.store ∧
      ∀ before c r after, order = before ++ (c, r) :: after →
        ∃ id amount threshold accounts₁ balance, c = .depositAndCompare id amount threshold ∧
          Serial Call.program accounts before accounts₁ ∧ accounts₁ id = some balance ∧
          r = .bool (threshold ≤ balance + amount)) ∧
    ∀ c, (∀ c' ∈ s.calls, c' = c) → ∀ (σ' : List (Bank M)) (s' : Bank M) (rs' : List (Result M)),
      UndisturbedRun accounts σ' → s' ∈ σ' → s'.results = rs'.map some → s'.calls.Perm s.calls →
        rs'.count (.bool false) = rs.count (.bool false) := by
  obtain ⟨order, horder, hserial⟩ := h.exists_serial hs hrs
  refine ⟨⟨order, horder, hserial, ?_⟩, ?_⟩
  · rintro before c r after rfl
    have hc := (List.of_mem_zip (horder.mem_iff.mp (by simp : (c, r) ∈ _))).1
    obtain ⟨id, amount, threshold, rfl⟩ := h.compares s hs c hc
    obtain ⟨accounts₁, balance, hbefore, hid, hr⟩ := serial_depositAndCompare hserial
    exact ⟨id, amount, threshold, accounts₁, balance, rfl, hbefore, hid, hr⟩
  · intro c hc σ' s' rs' h' hs' hrs' hperm
    obtain ⟨order', horder', hserial'⟩ := h'.exists_serial hs' hrs'
    exact (results_perm_of_serial hc hperm (h.length_results hs hrs) (h'.length_results hs' hrs')
      horder horder' hserial hserial').count_eq _

end Run

def oneAccount : Accounts Int := fun id => if id = 1 then some 0 else none

theorem compare_atomic_pair : ∃ s σ, UndisturbedRun oneAccount (s :: σ) ∧
    s.calls = [.depositAndCompare 1 10 20, .depositAndCompare 1 10 20] ∧
      (∃ order : List (Call Int × Result Int), order.Perm
        [(.depositAndCompare 1 10 20, .bool false), (.depositAndCompare 1 10 20, .bool true)] ∧
          Serial Call.program oneAccount order s.machine.store) ∧
      ∀ (σ' : List (Bank Int)) (s' : Bank Int) (rs' : List (Result Int)),
        UndisturbedRun oneAccount σ' → s' ∈ σ' → s'.results = rs'.map some →
          s'.calls.Perm s.calls → rs'.count (.bool false) = 1 := by
  obtain ⟨s, σ, h, hcalls, hrs⟩ := exists_undisturbedRun oneAccount
    (fun s => s.calls = [.depositAndCompare 1 10 20, .depositAndCompare 1 10 20] ∧
      s.results = [.bool false, .bool true].map some)
    (List.flatten [[.invoke (.depositAndCompare 1 10 20), .invoke (.depositAndCompare 1 10 20)],
      List.replicate 7 (.step 0), List.replicate 2 (.step 1), List.replicate 4 (.step 0),
      List.replicate 9 (.step 1)])
    (by decide +kernel)
  obtain ⟨⟨order, horder, hserial, -⟩, hcount⟩ :=
    UndisturbedRun.compare_atomic h List.mem_cons_self hrs
  refine ⟨s, σ, h, hcalls, ⟨order, ?_, hserial⟩, hcount (.depositAndCompare 1 10 20) ?_⟩
  · simpa [hcalls] using horder
  · simp [hcalls]

/-- Both deposits come before both reads, so both calls are accepted; one at a time, the first
would see its own deposit only. -/
theorem compare_not_atomic : ∃ s σ, Run oneAccount AdmissibleCompare (s :: σ) ∧
    s.calls = [.depositAndCompare 1 10 20, .depositAndCompare 1 10 20] ∧
      s.results = [some (.bool true), some (.bool true)] ∧
      ¬ ∃ (order : List (Call Int × Result Int)) (accounts' : Accounts Int), order.Perm
        [(.depositAndCompare 1 10 20, .bool true), (.depositAndCompare 1 10 20, .bool true)] ∧
          Serial Call.program oneAccount order accounts' := by
  obtain ⟨s, σ, h, hcalls, hrs⟩ := exists_run oneAccount AdmissibleCompare
    (fun s => s.calls = [.depositAndCompare 1 10 20, .depositAndCompare 1 10 20] ∧
      s.results = [some (.bool true), some (.bool true)])
    (List.flatten [[.invoke (.depositAndCompare 1 10 20), .invoke (.depositAndCompare 1 10 20)],
      List.replicate 7 (.step 0), List.replicate 7 (.step 1), List.replicate 4 (.step 0),
      List.replicate 4 (.step 1)])
    (by decide +kernel)
  refine ⟨s, σ, h, hcalls, hrs, ?_⟩
  rintro ⟨order, accounts', horder, hserial⟩
  have hboth := List.perm_replicate.mp (show order.Perm (List.replicate 2 _) from horder)
  rw [hboth] at hserial
  obtain ⟨balance, hid, hr⟩ := serial_first_depositAndCompare hserial
  obtain rfl : 0 = balance := Option.some.inj hid
  simp at hr

end MrAndRaft.Banking
