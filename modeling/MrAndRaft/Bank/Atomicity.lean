import MrAndRaft.Lib.Sections
import MrAndRaft.Bank.Deadlock

/-! Every call but `DepositAndCompare` takes effect when it takes its last mutex, so any
number of calls at a time do what the same calls do one at a time. -/

namespace MrAndRaft.Banking

open Locking

variable {M R : Type}

section Section

variable {known own : Set Int} {hold : Set LockId} {id : Int}

theorem not_free_lookup [Zero M] {next : Op M R} (h : ¬ next.Free) : ¬ (lookup id next).Free :=
  fun hfree => h (hfree (some 0))

theorem free_load (id : Int) {next : M → Op M R} (h : ∀ balance, (next balance).Free) :
    (load id next).Free := by
  intro account
  cases account with
  | none => trivial
  | some balance => exact h balance

theorem section_lookup [Zero M] {next : Op M R} (hid : id ∈ known) (hfree : ¬ next.Free)
    (h : next.Section LockId.account Exists known own hold) :
    (lookup id next).Section LockId.account Exists known own hold := by
  refine ⟨fun hall => absurd (hall (some 0)) hfree, fun _ => ⟨hid, some 0, rfl, ?_, h⟩⟩
  intro account haccount
  cases account with
  | none => cases haccount
  | some balance => rfl

theorem section_load {next : M → Op M R} (hid : id ∈ known) (hheld : .account id ∈ hold)
    (hfree : ∀ balance, (next balance).Free)
    (h : ∀ balance, (next balance).Section LockId.account Exists known own hold) :
    (load id next).Section LockId.account Exists known own hold := by
  refine ⟨fun _ => ⟨.inr ⟨hid, hheld⟩, fun account => ?_⟩, fun hnot => absurd (free_load id hfree) hnot⟩
  cases account with
  | none => trivial
  | some balance => exact h balance

theorem section_store {next : Op M R} {balance : M} (hfree : next.Free)
    (hid : id ∈ own ∨ id ∈ known ∧ .account id ∈ hold)
    (h : next.Section LockId.account Exists known (own \ {id}) hold) :
    (store id balance next).Section LockId.account Exists known own hold :=
  ⟨hfree, rfl, hid, h⟩

end Section

section Programs

variable [Zero M] [Add M] [Sub M] [LE M] [DecidableLE M]

def Call.Whole : Call M → Prop
  | .depositAndCompare _ _ _ => False
  | _ => True

instance : DecidablePred (Call.Whole (M := M))
  | .depositAndCompare _ _ _ => inferInstanceAs (Decidable False)
  | .createAccount _ | .deposit _ _ | .withdraw _ _ | .transfer _ _ _ _ | .getBalance _ =>
    inferInstanceAs (Decidable True)

theorem section_createAccount (id : Int) :
    (Call.createAccount id : Call M).program.Section LockId.account Exists ∅ {id} ∅ := by
  refine ⟨fun _ => ⟨.inl rfl, fun account => ?_⟩, fun hnot => absurd (fun account => ?_) hnot⟩
  · cases account with
    | none => exact section_store trivial (.inl rfl) trivial
    | some balance => trivial
  · cases account <;> trivial

variable {known own : Set Int}

theorem section_deposit {id : Int} (hid : id ∈ known) (amount : M) :
    (Call.deposit id amount).program.Section LockId.account Exists known own ∅ := by
  simp only [Call.program, deposit, Prog.bind, bind_lookup, bind_load, bind_store]
  have hheld : LockId.account id ∈ (insert (.account id) (insert .bankLock ∅) : Set LockId) \
      {.bankLock} := by simp
  refine section_lookup hid (fun hfree => hfree) (section_load hid hheld (fun _ => trivial) fun b => ?_)
  exact section_store trivial (.inr ⟨hid, hheld⟩) trivial

theorem section_getBalance {id : Int} (hid : id ∈ known) :
    (Call.getBalance id : Call M).program.Section LockId.account Exists known own ∅ := by
  simp only [Call.program, getBalance, Prog.bind, bind_lookup, bind_load]
  exact section_lookup hid (fun hfree => hfree)
    (section_load hid (by simp) (fun _ => trivial) fun _ => trivial)

theorem section_withdraw {id : Int} (hid : id ∈ known) (amount : M) :
    (Call.withdraw id amount).program.Section LockId.account Exists known own ∅ := by
  simp only [Call.program, withdraw, Prog.bind, bind_lookup, bind_load]
  refine section_lookup hid (fun hfree => hfree) (section_load hid (by simp) (fun b => ?_) fun b => ?_)
  · split
    · simp only [bind_load, bind_store, Prog.bind]
      exact free_load id fun _ => trivial
    · trivial
  · split
    · simp only [bind_load, bind_store, Prog.bind]
      exact section_load hid (by simp) (fun _ => trivial) fun _ =>
        section_store trivial (.inr ⟨hid, by simp⟩) trivial
    · trivial

theorem section_transfer {sender receiver : Int} (hs : sender ∈ known) (hr : receiver ∈ known)
    (amount : M) (allowOverdraw : Bool) :
    (Call.transfer sender receiver amount allowOverdraw).program.Section LockId.account Exists
      known own ∅ := by
  simp only [Call.program, transfer, Prog.bind, bind_lookup, bind_load]
  refine section_lookup hs (not_free_lookup (not_free_lookup fun hfree => hfree))
    (section_lookup hr (not_free_lookup fun hfree => hfree) (section_lookup hr (fun hfree => hfree) ?_))
  refine section_load hs (by simp) (fun b => ?_) fun b => ?_
  · split
    · simp only [bind_load, bind_store, Prog.bind]
      exact free_load sender fun _ => free_load receiver fun _ => trivial
    · trivial
  · split
    · simp only [bind_load, bind_store, Prog.bind]
      refine section_load hs (by simp) (fun _ => free_load receiver fun _ => trivial) fun _ => ?_
      refine section_store (free_load receiver fun _ => trivial) (.inr ⟨hs, by simp⟩) ?_
      exact section_load hr (by simp) (fun _ => trivial) fun _ =>
        section_store trivial (.inr ⟨hr, by simp⟩) trivial
    · trivial

theorem section_of_whole {c : Call M} (h : c.Whole) :
    c.program.Section LockId.account Exists c.known c.own ∅ := by
  cases c with
  | createAccount id => exact section_createAccount id
  | deposit id amount => exact section_deposit (by rfl) amount
  | withdraw id amount => exact section_withdraw (by rfl) amount
  | transfer sender receiver amount allowOverdraw =>
    exact section_transfer (.inl rfl) (.inr rfl) amount allowOverdraw
  | getBalance id => exact section_getBalance (by rfl)
  | depositAndCompare => exact h.elim

theorem program_not_free (c : Call M) : ¬ c.program.Free := by
  cases c with
  | getBalance id =>
    simp only [Call.program, getBalance, bind_lookup]
    exact not_free_lookup fun hfree => hfree
  | createAccount | deposit | withdraw | transfer | depositAndCompare => exact fun hfree => hfree

end Programs

section Run

variable [Zero M] [Add M] [Sub M] [LE M] [DecidableLE M] {accounts : Accounts M} {s s' : Bank M}

def AdmissibleWhole (s : Bank M) (c : Call M) : Prop := Admissible s c ∧ c.Whole

instance [DecidableEq M] (s : Bank M) : DecidablePred (AdmissibleWhole s) :=
  fun c => inferInstanceAs (Decidable (Admissible s c ∧ c.Whole))

def originAt (cs : List (Call M)) (k : Nat) : Op M (Result M) := (cs[k]?).elim .panic Call.program

/-- The calls past their last mutex can be put in an order that explains what they do. -/
structure Bank.Linear (accounts : Accounts M) (s : Bank M) : Prop extends s.Ok where
  lin : ∀ cs, s.calls <+: cs → ∃ order abs, s.machine.Lin .bankLock LockId.account Exists
    (knownAt cs) (ownAt cs) (originAt cs) accounts order abs

theorem init_linear (accounts : Accounts M) : (init accounts).Linear accounts where
  toOk := init_ok accounts
  lin cs hcs := by
    refine ⟨[], accounts, ⟨(init_ok accounts).machine cs hcs, by simp [init]⟩, by simp [init],
      by simp [init], by simp [init], by simp [init], fun _ _ => rfl, .nil, by simp, by simp⟩

theorem Bank.Linear.step {e : Event M} (h : s.Linear accounts)
    (hallowed : e.Allowed (AdmissibleWhole s)) (hstep : s.step e = .ok s') : s'.Linear accounts := by
  refine ⟨h.toOk.step (hallowed.mono fun _ hc => hc.1) hstep, fun cs hcs => ?_⟩
  cases Bank.step_cases hstep with
  | @invoke c =>
    have hc : Admissible s c := hallowed.1
    obtain ⟨order, abs, hlin⟩ := h.lin cs ((List.prefix_append _ _).trans hcs)
    have hknown := knownAt_of_invoke h.length hcs
    have hown := ownAt_of_invoke h.length hcs
    have horigin : originAt cs s.machine.threads.length = c.program := by
      rw [originAt, h.length, getElem?_of_invoke hcs]
      rfl
    refine ⟨order, abs, hlin.spawn horigin ?_ ?_ (program_not_free c) ?_ ?_
      (apart_of_invoke h.length hc hcs)⟩
    · rw [hknown, hown]
      exact hc.safe
    · rw [hknown, hown]
      exact section_of_whole hallowed.2
    · rw [hknown]
      exact hc.known
    · rw [hown]
      exact hc.own
  | step hm =>
    obtain ⟨order, abs, hlin⟩ := h.lin cs hcs
    exact hlin.step hm

theorem Run.linear {σ : List (Bank M)} (h : Run accounts AdmissibleWhole σ) :
    ∀ s ∈ σ, s.Linear accounts :=
  History.Run.forall_mem h (init_linear accounts) fun _ _ _ hs hstep => hs.step hstep.1 hstep.2

omit [Zero M] [Add M] [Sub M] [LE M] [DecidableLE M] in
theorem threads_of_results {rs : List (Result M)} (h : s.results = rs.map some) :
    s.machine.threads = rs.map .ret := by
  refine List.ext_getElem? fun k => ?_
  have hk : (s.machine.threads[k]?).map Prog.result? = (rs[k]?).map some := by
    rw [← List.getElem?_map, ← List.getElem?_map]
    exact congrArg (·[k]?) h
  rw [List.getElem?_map]
  cases hp : s.machine.threads[k]? with
  | none => simpa [hp, eq_comm] using hk
  | some p =>
    cases hr : rs[k]? with
    | none => simp [hp, hr] at hk
    | some r =>
      simp only [hp, hr, Option.map_some, Option.some.injEq, Prog.result?_eq_some] at hk
      simp [hk]

theorem filterMap_range_getElem? {α : Type} (l : List α) :
    (List.range l.length).filterMap (l[·]?) = l := by
  induction l with
  | nil => rfl
  | cons a l ih => simpa [List.range_succ_eq_map, List.filterMap_map, Function.comp_def] using ih

theorem serial_calls {cs : List (Call M)} {rs : List (Result M)} {accounts' : Accounts M}
    {order : List (Nat × Result M)} (h : Serial (originAt cs) accounts order accounts')
    (horder : ∀ e ∈ order, ∃ c, cs[e.1]? = some c ∧ rs[e.1]? = some e.2) :
    Serial Call.program accounts (order.filterMap fun e => (cs.zip rs)[e.1]?) accounts' := by
  induction h with
  | nil => exact .nil
  | @snoc order s' s'' k r _ halone ih =>
    obtain ⟨c, hc, hr⟩ := horder (k, r) (by simp)
    have hzip : (cs.zip rs)[k]? = some (c, r) := by simp [List.getElem?_zip_eq_some, hc, hr]
    rw [List.filterMap_append, List.filterMap_cons, hzip]
    refine .snoc (ih fun e he => horder e (List.mem_append_left _ he)) ?_
    simpa [originAt, hc] using halone

theorem Bank.Linear.length_results {rs : List (Result M)} (h : s.Linear accounts)
    (hrs : s.results = rs.map some) : s.calls.length = rs.length := by
  rw [← h.length, threads_of_results hrs, List.length_map]

theorem exists_serial_of_order {cs : List (Call M)} {rs : List (Result M)}
    {accounts' : Accounts M} {order : List (Nat × Result M)}
    (h : Serial (originAt cs) accounts order accounts') (hlen : cs.length = rs.length)
    (hperm : (order.map Prod.fst).Perm (List.range cs.length))
    (hret : ∀ e ∈ order, rs[e.1]? = some e.2) :
    ∃ order', order'.Perm (cs.zip rs) ∧ Serial Call.program accounts order' accounts' := by
  refine ⟨order.filterMap fun e => (cs.zip rs)[e.1]?, ?_, serial_calls h fun e he => ?_⟩
  · have hzip : (cs.zip rs).length = cs.length := by simp [hlen]
    have := hperm.filterMap fun k => (cs.zip rs)[k]?
    rwa [List.filterMap_map, ← hzip, filterMap_range_getElem?] at this
  · have hr := hret e he
    have hlt : e.1 < cs.length := by
      rw [hlen]
      exact (List.getElem?_eq_some_iff.mp hr).1
    exact ⟨cs[e.1], List.getElem?_eq_getElem hlt, hr⟩

theorem Run.exists_serial {σ : List (Bank M)} {rs : List (Result M)}
    (h : Run accounts AdmissibleWhole σ) (hs : s ∈ σ) (hrs : s.results = rs.map some) :
    ∃ order, order.Perm (s.calls.zip rs) ∧ Serial Call.program accounts order s.machine.store := by
  have hlinear := h.linear s hs
  have hthreads := threads_of_results hrs
  obtain ⟨order, abs, hlin⟩ := hlinear.lin s.calls List.prefix_rfl
  obtain ⟨hserial, hperm, hret⟩ := hlin.finished fun k hk => by
    rw [hthreads, List.length_map] at hk
    exact ⟨rs[k], by simp [hthreads, hk]⟩
  refine exists_serial_of_order hserial (hlinear.length_results hrs) (hlinear.length ▸ hperm) ?_
  intro e he
  simpa [hthreads] using hret e he

end Run

section Totals

variable {accounts accounts' : Accounts Int} {order : List (Call Int × Result Int)}

theorem serial_total {ids : Finset Int} (h : Serial Call.program accounts order accounts')
    (hids : ∀ id, (accounts' id).isSome → id ∈ ids) :
    total ids accounts' = total ids accounts + (order.map fun e => e.1.deposited).sum -
      (order.map withdrawn).sum := by
  induction h with
  | nil => simp
  | snoc _ halone ih =>
    have heffect := effect_of_eval (Prog.eval_of_alone halone)
    rw [heffect.total_eq hids, ih fun id hid => hids id (heffect.isSome hid)]
    simp only [List.map_append, List.map_singleton, List.sum_append, List.sum_singleton]
    omega

theorem serial_credit (h : Serial Call.program accounts order accounts')
    (hadditive : ∀ e ∈ order, e.1.Additive) (id : Int) :
    accounts' id = (accounts id).map (· + (order.map fun e => e.1.credit id).sum) := by
  induction h with
  | nil => simp
  | @snoc order _ _ c r _ halone ih =>
    have heffect := effect_of_eval (Prog.eval_of_alone halone)
    rw [heffect.credit_eq (hadditive (c, r) (by simp)),
      ih fun e he => hadditive e (List.mem_append_left _ he), Option.map_map]
    simp [Function.comp_def, add_assoc]

theorem sum_calls {cs : List (Call Int)} {rs : List (Result Int)} (h : order.Perm (cs.zip rs))
    (hlen : cs.length = rs.length) (f : Call Int → Int) :
    (order.map fun e => f e.1).sum = (cs.map f).sum := by
  calc (order.map fun e => f e.1).sum = ((cs.zip rs).map fun e => f e.1).sum := (h.map _).sum_eq
    _ = (((cs.zip rs).map Prod.fst).map f).sum := by rw [List.map_map, Function.comp_def]
    _ = (cs.map f).sum := by rw [List.map_fst_zip hlen.le]

end Totals

theorem store_eq_of_additive {accounts : Accounts Int} {σ σ' : List (Bank Int)} {s s' : Bank Int}
    {rs rs' : List (Result Int)} (h : Run accounts AdmissibleWhole σ) (hs : s ∈ σ)
    (hrs : s.results = rs.map some) (h' : Run accounts AdmissibleWhole σ') (hs' : s' ∈ σ')
    (hrs' : s'.results = rs'.map some) (hperm : s'.calls.Perm s.calls)
    (hadditive : ∀ c ∈ s.calls, c.Additive) : s'.machine.store = s.machine.store := by
  -- the balance of an account is its first one and what the calls bring, in any order
  have hbalance : ∀ {σ : List (Bank Int)} {s : Bank Int} {rs : List (Result Int)},
      Run accounts AdmissibleWhole σ → s ∈ σ → s.results = rs.map some →
        (∀ c ∈ s.calls, c.Additive) → ∀ id, s.machine.store id =
          (accounts id).map (· + (s.calls.map (Call.credit id)).sum) := by
    intro σ s rs h hs hrs hadditive id
    obtain ⟨order, horder, hserial⟩ := h.exists_serial hs hrs
    have hlen := (h.linear s hs).length_results hrs
    rw [serial_credit hserial, sum_calls horder hlen]
    intro e he
    exact hadditive _ (List.of_mem_zip (horder.mem_iff.mp he)).1
  funext id
  rw [hbalance h hs hrs hadditive, hbalance h' hs' hrs' fun c hc => hadditive c (hperm.mem_iff.mp hc),
    (hperm.map (Call.credit id)).sum_eq]

/-- Any number of calls at a time end as some order of them one at a time.  So the accounts
hold what was deposited and not withdrawn, and calls that do not look at the balances end
in the same accounts whatever the order of steps. -/
theorem Run.atomic {accounts : Accounts Int} {σ : List (Bank Int)} {s : Bank Int}
    {rs : List (Result Int)} (h : Run accounts AdmissibleWhole σ) (hs : s ∈ σ)
    (hrs : s.results = rs.map some) :
    (∃ order, order.Perm (s.calls.zip rs) ∧ Serial Call.program accounts order s.machine.store) ∧
      (∀ ids : Finset Int, (∀ id, (s.machine.store id).isSome → id ∈ ids) →
        total ids s.machine.store = total ids accounts + (s.calls.map Call.deposited).sum -
          ((s.calls.zip rs).map withdrawn).sum) ∧
      ((∀ c ∈ s.calls, c.Additive) →
        ∀ (σ' : List (Bank Int)) (s' : Bank Int) (rs' : List (Result Int)),
          Run accounts AdmissibleWhole σ' → s' ∈ σ' → s'.results = rs'.map some →
            s'.calls.Perm s.calls → s'.machine.store = s.machine.store) := by
  refine ⟨h.exists_serial hs hrs, fun ids hids => ?_, fun hadditive σ' s' rs' h' hs' hrs' hperm =>
    store_eq_of_additive h hs hrs h' hs' hrs' hperm hadditive⟩
  obtain ⟨order, horder, hserial⟩ := h.exists_serial hs hrs
  have hlen := (h.linear s hs).length_results hrs
  rw [serial_total hserial hids, sum_calls horder hlen, (horder.map withdrawn).sum_eq]

theorem atomic_interleaved : ∃ s σ s' σ', Run twoAccounts AdmissibleWhole (s :: σ) ∧
    Run twoAccounts AdmissibleWhole (s' :: σ') ∧ s.calls = [.deposit 1 5, .transfer 2 1 20 true] ∧
      (∃ order : List (Call Int × Result Int),
        order.Perm [(.deposit 1 5, .done), (.transfer 2 1 20 true, .bool true)] ∧
          Serial Call.program twoAccounts order s.machine.store) ∧
        s'.machine.store = s.machine.store := by
  obtain ⟨s, σ, h, hcalls, hrs⟩ := exists_run twoAccounts AdmissibleWhole
    (fun s => s.calls = [.deposit 1 5, .transfer 2 1 20 true] ∧
      s.results = [.done, .bool true].map some)
    (List.flatten [[.invoke (.deposit 1 5), .invoke (.transfer 2 1 20 true)],
      List.replicate 4 (.step 0), List.replicate 5 (.step 1), List.replicate 3 (.step 0),
      List.replicate 9 (.step 1)])
    (by decide +kernel)
  obtain ⟨s', σ', h', hcalls', hrs'⟩ := exists_run twoAccounts AdmissibleWhole
    (fun s => s.calls = [.transfer 2 1 20 true, .deposit 1 5] ∧
      s.results = [.bool true, .done].map some)
    (List.flatten [[.invoke (.transfer 2 1 20 true)], List.replicate 7 (.step 0),
      [.invoke (.deposit 1 5)], List.replicate 2 (.step 1), List.replicate 7 (.step 0),
      List.replicate 5 (.step 1)])
    (by decide +kernel)
  obtain ⟨hserial, -, hsame⟩ := Run.atomic h List.mem_cons_self hrs
  refine ⟨s, σ, s', σ', h, h', hcalls, ?_, hsame ?_ _ s' _ h' List.mem_cons_self hrs' ?_⟩
  · simpa [hcalls] using hserial
  · simp [hcalls, Call.Additive]
  · rw [hcalls, hcalls']
    exact .swap _ _ _

end MrAndRaft.Banking
