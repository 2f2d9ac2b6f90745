import Mathlib.Data.Set.BooleanAlgebra
import Mathlib.Data.Set.Insert
import Mathlib.Logic.Function.Basic
import Mathlib.Logic.Relation
import Mathlib.Order.CompletePartialOrder
import MrAndRaft.Lib.Prefix

/-! Threads that share cells and mutexes.  A mutex does not know who holds it: the owner is
there for the proofs, and a thread may release what another one took. -/

namespace Locking

inductive Prog (L A V R : Type) where
  | ret (r : R)
  | panic
  | acquire (l : L) (next : Prog L A V R)
  | release (l : L) (next : Prog L A V R)
  | read (a : A) (next : V → Prog L A V R)
  | write (a : A) (v : V) (next : Prog L A V R)

/-- How a program that runs alone ends; `fatal` is the release of a mutex that is free. -/
inductive Outcome (R : Type) where
  | returned (r : R)
  | panicked
  | blocked
  | fatal
  deriving DecidableEq, Repr

variable {L A V R R' : Type}

namespace Prog

def bind : Prog L A V R → (R → Prog L A V R') → Prog L A V R'
  | .ret r, f => f r
  | .panic, _ => .panic
  | .acquire l p, f => .acquire l (p.bind f)
  | .release l p, f => .release l (p.bind f)
  | .read a p, f => .read a fun v => (p v).bind f
  | .write a v p, f => .write a v (p.bind f)

theorem bind_assoc {R'' : Type} (p : Prog L A V R) (f : R → Prog L A V R')
    (g : R' → Prog L A V R'') : (p.bind f).bind g = p.bind fun r => (f r).bind g := by
  induction p with
  | ret r => rfl
  | panic => rfl
  | acquire l p ih => simp [bind, ih]
  | release l p ih => simp [bind, ih]
  | read a p ih => simp [bind, ih]
  | write a v p ih => simp [bind, ih]

def result? : Prog L A V R → Option R
  | .ret r => some r
  | _ => none

theorem result?_eq_some {p : Prog L A V R} {r : R} : p.result? = some r ↔ p = .ret r := by
  cases p <;> simp [result?]

variable [DecidableEq L] [DecidableEq A]

def alone : Prog L A V R → (L → Bool) → (A → V) → Outcome R × (L → Bool) × (A → V)
  | .ret r, taken, s => (.returned r, taken, s)
  | .panic, taken, s => (.panicked, taken, s)
  | .acquire l p, taken, s =>
    if taken l then (.blocked, taken, s) else p.alone (Function.update taken l true) s
  | .release l p, taken, s =>
    if taken l then p.alone (Function.update taken l false) s else (.fatal, taken, s)
  | .read a p, taken, s => (p (s a)).alone taken s
  | .write a v p, taken, s => p.alone taken (Function.update s a v)

/-- What a program does to the cells; `none` is a panic. -/
def eval : Prog L A V R → (A → V) → Option R × (A → V)
  | .ret r, s => (some r, s)
  | .panic, s => (none, s)
  | .acquire _ p, s => p.eval s
  | .release _ p, s => p.eval s
  | .read a p, s => (p (s a)).eval s
  | .write a v p, s => p.eval (Function.update s a v)

theorem eval_of_alone {p : Prog L A V R} {taken taken' : L → Bool} {s s' : A → V} {r : R}
    (h : p.alone taken s = (.returned r, taken', s')) : p.eval s = (some r, s') := by
  induction p generalizing taken s with
  | ret r' =>
    cases h
    rfl
  | panic => cases h
  | acquire l p ih =>
    rw [alone] at h
    split at h
    · cases h
    · exact ih h
  | release l p ih =>
    rw [alone] at h
    split at h
    · exact ih h
    · cases h
  | read a p ih => exact ih (s a) h
  | write a v p ih => exact ih h

end Prog

def held (owner : L → Option Nat) (k : Nat) : Set L := {l | owner l = some k}

def taken (owner : L → Option Nat) (l : L) : Bool := (owner l).isSome

theorem taken_update [DecidableEq L] (owner : L → Option Nat) (l : L) (o : Option Nat) :
    taken (Function.update owner l o) = Function.update (taken owner) l o.isSome := by
  funext x
  by_cases hx : x = l <;> simp [taken, hx]

structure Machine (L A V R : Type) where
  store : A → V
  owner : L → Option Nat
  threads : List (Prog L A V R)

inductive Halt where
  | finished
  | blocked
  | fatal
  deriving DecidableEq, Repr

namespace Machine

variable [DecidableEq L] [DecidableEq A]

def step (m : Machine L A V R) (k : Nat) : Except Halt (Machine L A V R) :=
  match m.threads[k]? with
  | none | some (.ret _) | some .panic => .error .finished
  | some (.acquire l p) =>
    if m.owner l = none then
      .ok { m with owner := Function.update m.owner l (some k), threads := m.threads.set k p }
    else .error .blocked
  | some (.release l p) =>
    if m.owner l = none then .error .fatal
    else .ok { m with owner := Function.update m.owner l none, threads := m.threads.set k p }
  | some (.read a p) => .ok { m with threads := m.threads.set k (p (m.store a)) }
  | some (.write a v p) =>
    .ok { m with store := Function.update m.store a v, threads := m.threads.set k p }

def spawn (m : Machine L A V R) (p : Prog L A V R) : Machine L A V R :=
  { m with threads := m.threads ++ [p] }

variable {m m' : Machine L A V R} {k : Nat}

inductive Stepped (m : Machine L A V R) (k : Nat) : Machine L A V R → Prop
  | acquire {l : L} {p : Prog L A V R} : m.threads[k]? = some (.acquire l p) → m.owner l = none →
      Stepped m k ⟨m.store, Function.update m.owner l (some k), m.threads.set k p⟩
  | release {l : L} {p : Prog L A V R} : m.threads[k]? = some (.release l p) → m.owner l ≠ none →
      Stepped m k ⟨m.store, Function.update m.owner l none, m.threads.set k p⟩
  | read {a : A} {p : V → Prog L A V R} : m.threads[k]? = some (.read a p) →
      Stepped m k ⟨m.store, m.owner, m.threads.set k (p (m.store a))⟩
  | write {a : A} {v : V} {p : Prog L A V R} : m.threads[k]? = some (.write a v p) →
      Stepped m k ⟨Function.update m.store a v, m.owner, m.threads.set k p⟩

theorem step_cases (h : m.step k = .ok m') : Stepped m k m' := by
  unfold step at h
  split at h
  · cases h
  · cases h
  · cases h
  · split at h
    · cases h
      exact .acquire ‹_› ‹_›
    · cases h
  · split at h
    · cases h
    · cases h
      exact .release ‹_› ‹_›
  · cases h
    exact .read ‹_›
  · cases h
    exact .write ‹_›

def Stopped (m : Machine L A V R) (k : Nat) : Outcome R → Prop
  | .returned r => m.threads[k]? = some (.ret r)
  | .panicked => m.threads[k]? = some .panic
  | .blocked => m.step k = .error .blocked
  | .fatal => m.step k = .error .fatal

def EndsAs (m : Machine L A V R) (k : Nat) (ending : Outcome R × (L → Bool) × (A → V)) : Prop :=
  ∃ m', Relation.ReflTransGen (fun m m' => m.step k = .ok m') m m' ∧
    m'.Stopped k ending.1 ∧ taken m'.owner = ending.2.1 ∧ m'.store = ending.2.2

variable {p : Prog L A V R} {ending : Outcome R × (L → Bool) × (A → V)}

theorem EndsAs.of_step (hstep : m.step k = .ok m') (h : m'.EndsAs k ending) : m.EndsAs k ending := by
  obtain ⟨m'', hsteps, hend⟩ := h
  exact ⟨m'', .head hstep hsteps, hend⟩

theorem endsAs_alone (hp : m.threads[k]? = some p) :
    m.EndsAs k (p.alone (taken m.owner) m.store) := by
  obtain ⟨store, owner, threads⟩ := m
  have hset : ∀ q, (threads.set k q)[k]? = some q :=
    fun q => List.getElem?_set_self (List.getElem?_eq_some_iff.mp hp).1
  induction p generalizing store owner threads with
  | ret r | panic => exact ⟨_, .refl, hp, rfl, rfl⟩
  | acquire l p ih =>
    rw [Prog.alone]
    cases hl : owner l with
    | none =>
      have hend := ih store (Function.update owner l (some k)) (threads.set k p) (hset p)
        (by simp [hset])
      rw [taken_update] at hend
      rw [if_neg (by simp [taken, hl])]
      exact .of_step (by simp [step, hp, hl]) hend
    | some j =>
      rw [if_pos (by simp [taken, hl])]
      exact ⟨_, .refl, by simp [Stopped, step, hp, hl], rfl, rfl⟩
  | release l p ih =>
    rw [Prog.alone]
    cases hl : owner l with
    | none =>
      rw [if_neg (by simp [taken, hl])]
      exact ⟨_, .refl, by simp [Stopped, step, hp, hl], rfl, rfl⟩
    | some j =>
      have hend := ih store (Function.update owner l none) (threads.set k p) (hset p) (by simp [hset])
      rw [taken_update] at hend
      rw [if_pos (by simp [taken, hl])]
      exact .of_step (by simp [step, hp, hl]) hend
  | read a p ih =>
    have hend := ih (store a) store owner (threads.set k (p (store a))) (hset _) (by simp [hset])
    exact .of_step (by simp [step, hp]) hend
  | write a v p ih =>
    have hend := ih (Function.update store a v) owner (threads.set k p) (hset p) (by simp [hset])
    exact .of_step (by simp [step, hp]) hend

end Machine

namespace Prog

def next (s : A → V) : Prog L A V R → Option (Prog L A V R)
  | .ret _ | .panic => none
  | .acquire _ p | .release _ p => some p
  | .read a p => some (p (s a))
  | .write _ _ p => some p

def effect [DecidableEq A] (s : A → V) : Prog L A V R → A → V
  | .write a v _ => Function.update s a v
  | _ => s

end Prog

theorem Machine.step_next [DecidableEq L] [DecidableEq A] {m m' : Machine L A V R} {k : Nat}
    (h : m.step k = .ok m') :
    ∃ p p', m.threads[k]? = some p ∧ p.next m.store = some p' ∧ m'.threads = m.threads.set k p' ∧
      m'.store = p.effect m.store := by
  cases step_cases h with
  | acquire hp | release hp | read hp | write hp => exact ⟨_, _, hp, rfl, rfl, rfl⟩

section Safe

variable (gate : L) (ok : V → Prop)

/-- A program that neither panics nor returns with a mutex, and that waits for a second
mutex only while it holds the gate.  `held` are the mutexes it has, `known` the cells it
knows to be `ok`, and `own` those that it alone may make `ok` and has not yet. -/
def Prog.Safe (known : Set A) : Set A → Set L → Prog L A V R → Prop
  | _, held, .ret _ => held = ∅
  | _, _, .panic => False
  | own, held, .acquire l p =>
    l ∉ held ∧ (held = ∅ ∨ gate ∈ held) ∧ p.Safe known own (insert l held)
  | own, held, .release l p => l ∈ held ∧ p.Safe known own (held \ {l})
  | own, held, .read a p => ∀ v, (a ∈ known → ok v) → (a ∈ own → ¬ ok v) → (p v).Safe known own held
  | own, held, .write a v p => ok v ∧ (a ∈ known ∨ a ∈ own) ∧ p.Safe known (own \ {a}) held

def fresh (own : Nat → Set A) (s : A → V) (k : Nat) : Set A := {a | a ∈ own k ∧ ¬ ok (s a)}

variable {ok} in
theorem fresh_eq_own {own : Nat → Set A} {s : A → V} {k : Nat} (h : ∀ a ∈ own k, ¬ ok (s a)) :
    fresh ok own s k = own k :=
  Set.ext fun a => ⟨fun ha => ha.1, fun ha => ⟨ha, h a ha⟩⟩

variable {gate ok} in
theorem Prog.Safe.alone_eq [DecidableEq L] [DecidableEq A] {known own : Set A} {hold : Set L}
    {p : Prog L A V R} {taken : L → Bool} {s : A → V} (h : p.Safe gate ok known own hold)
    (hknown : ∀ a ∈ known, ok (s a)) (hown : ∀ a ∈ own, ¬ ok (s a))
    (htaken : ∀ l, taken l = true ↔ l ∈ hold) :
    ∃ r, (p.eval s).1 = some r ∧ p.alone taken s = (.returned r, fun _ => false, (p.eval s).2) := by
  induction p generalizing own hold taken s with
  | ret r =>
    obtain rfl : hold = ∅ := h
    refine ⟨r, rfl, ?_⟩
    have : taken = fun _ => false := funext fun l => by simpa using htaken l
    rw [this]
    rfl
  | panic => exact h.elim
  | acquire l p ih =>
    obtain ⟨hl, -, h⟩ := h
    have htaken' : ∀ x, Function.update taken l true x = true ↔ x ∈ insert l hold := by
      intro x
      by_cases hx : x = l <;> simp [hx, htaken]
    obtain ⟨r, hr, halone⟩ := ih h hknown hown htaken'
    refine ⟨r, hr, ?_⟩
    rw [alone, if_neg (by simpa [htaken] using hl), halone]
    rfl
  | release l p ih =>
    obtain ⟨hl, h⟩ := h
    have htaken' : ∀ x, Function.update taken l false x = true ↔ x ∈ hold \ {l} := by
      intro x
      by_cases hx : x = l <;> simp [hx, htaken]
    obtain ⟨r, hr, halone⟩ := ih h hknown hown htaken'
    refine ⟨r, hr, ?_⟩
    rw [alone, if_pos ((htaken l).mpr hl), halone]
    rfl
  | read a p ih => exact ih (s a) (h (s a) (hknown a) (hown a)) hknown hown htaken
  | write a v p ih =>
    obtain ⟨hv, -, h⟩ := h
    refine ih h (fun x hx => ?_) (fun x hx => ?_) htaken
    · by_cases hxa : x = a
      · simpa [hxa] using hv
      · simpa [hxa] using hknown x hx
    · have hxa : x ≠ a := hx.2
      simpa [hxa] using hown x hx.1

namespace Machine

structure Ok (known own : Nat → Set A) (m : Machine L A V R) : Prop where
  safe : ∀ (k : Nat) (p : Prog L A V R), m.threads[k]? = some p →
    p.Safe gate ok (known k) (fresh ok own m.store k) (held m.owner k)
  known_ok : ∀ k < m.threads.length, ∀ a ∈ known k, ok (m.store a)
  apart : ∀ j < m.threads.length, ∀ k < m.threads.length, j ≠ k → Disjoint (own j) (own k)
  owner : ∀ l k, m.owner l = some k → k < m.threads.length

variable {gate ok} {known own : Nat → Set A} {m m' : Machine L A V R} {j k : Nat} {l : L}
  {p : Prog L A V R}

section

variable [DecidableEq L]

theorem held_acquire (h : m.owner l = none) (j : Nat) :
    held (Function.update m.owner l (some k)) j =
      if j = k then insert l (held m.owner k) else held m.owner j := by
  ext x
  by_cases hx : x = l
  · subst hx
    by_cases hjk : j = k
    · simp [held, hjk]
    · simp [held, hjk, Ne.symm hjk, h]
  · by_cases hjk : j = k <;> simp [held, hx, hjk]

theorem held_release (h : m.owner l = some k) (j : Nat) :
    held (Function.update m.owner l none) j =
      if j = k then held m.owner k \ {l} else held m.owner j := by
  ext x
  by_cases hx : x = l
  · subst hx
    by_cases hjk : j = k
    · simp [held, hjk]
    · simp [held, hjk, h, Ne.symm hjk]
  · by_cases hjk : j = k <;> simp [held, hx, hjk]

end

section

variable [DecidableEq A]

theorem Ok.fresh_write {a : A} {v : V} (h : m.Ok gate ok known own)
    (hp : m.threads[k]? = some (.write a v p)) (hj : j < m.threads.length) :
    fresh ok own (Function.update m.store a v) j =
      if j = k then fresh ok own m.store k \ {a} else fresh ok own m.store j := by
  have hk : k < m.threads.length := (List.getElem?_eq_some_iff.mp hp).1
  obtain ⟨hv, ha, -⟩ := h.safe k _ hp
  ext x
  by_cases hx : x = a
  · subst hx
    have hx' : x ∉ fresh ok own (Function.update m.store x v) j := by
      simp [fresh, hv]
    by_cases hjk : j = k
    · subst hjk
      simpa using hx'
    · -- the cell was `ok` before, or belongs to `k`
      have : x ∉ fresh ok own m.store j := by
        rintro ⟨hown, hnot⟩
        rcases ha with hknown | ⟨hown', -⟩
        · exact hnot (h.known_ok k hk x hknown)
        · exact Set.disjoint_left.mp (h.apart j hj k hk hjk) hown hown'
      simp [hx', hjk, this]
  · by_cases hjk : j = k <;> simp [fresh, hx, hjk]

end

variable [DecidableEq L] [DecidableEq A]

theorem Ok.forall_threads {Q : Nat → Set A → Set L → Prog L A V R → Prop}
    (h : m.Ok gate ok known own) (hstep : m.step k = .ok m')
    (hQ : ∀ (j : Nat) (p : Prog L A V R), m.threads[j]? = some p →
      Q j (fresh ok own m.store j) (held m.owner j) p)
    (hacquire : ∀ {cells hold l p}, Q k cells hold (.acquire l p) → Q k cells (insert l hold) p)
    (hrelease : ∀ {cells hold l p}, Q k cells hold (.release l p) → Q k cells (hold \ {l}) p)
    (hread : ∀ {a p}, m.threads[k]? = some (.read a p) →
      Q k (fresh ok own m.store k) (held m.owner k) (p (m.store a)))
    (hwrite : ∀ {cells hold a v p}, Q k cells hold (.write a v p) → Q k (cells \ {a}) hold p) :
    ∀ (j : Nat) (p : Prog L A V R), m'.threads[j]? = some p →
      Q j (fresh ok own m'.store j) (held m'.owner j) p := by
  intro j q hq
  cases step_cases hstep with
  | @acquire l p hp hfree =>
    rw [held_acquire hfree]
    rcases Position.of_set hq with ⟨rfl, rfl⟩ | ⟨hjk, hq⟩
    · rw [if_pos rfl]
      exact hacquire (hQ j _ hp)
    · rw [if_neg hjk]
      exact hQ j q hq
  | @release l p hp hne =>
    rw [held_release (h.safe k _ hp).1]
    rcases Position.of_set hq with ⟨rfl, rfl⟩ | ⟨hjk, hq⟩
    · rw [if_pos rfl]
      exact hrelease (hQ j _ hp)
    · rw [if_neg hjk]
      exact hQ j q hq
  | @read a p hp =>
    rcases Position.of_set hq with ⟨rfl, rfl⟩ | ⟨hjk, hq⟩
    · exact hread hp
    · exact hQ j q hq
  | @write a v p hp =>
    have hj : j < m.threads.length := by
      simpa using (List.getElem?_eq_some_iff.mp hq).1
    rw [h.fresh_write hp hj]
    rcases Position.of_set hq with ⟨rfl, rfl⟩ | ⟨hjk, hq⟩
    · rw [if_pos rfl]
      exact hwrite (hQ j _ hp)
    · rw [if_neg hjk]
      exact hQ j q hq

theorem Ok.step (h : m.Ok gate ok known own) (hstep : m.step k = .ok m') :
    m'.Ok gate ok known own := by
  have hsafe := h.forall_threads hstep h.safe (fun hs => hs.2.2) (fun hs => hs.2)
    (fun hp => h.safe k _ hp _ (h.known_ok k (List.getElem?_eq_some_iff.mp hp).1 _) fun ha => ha.2)
    (fun hs => hs.2.2)
  cases step_cases hstep with
  | @acquire l p hp hfree =>
    refine ⟨hsafe, by simpa using h.known_ok, by simpa using h.apart, fun l' j hl' => ?_⟩
    rw [List.length_set]
    by_cases hll : l' = l
    · subst hll
      obtain rfl : k = j := by simpa using hl'
      exact (List.getElem?_eq_some_iff.mp hp).1
    · exact h.owner l' j (by simpa [hll] using hl')
  | @release l p hp hne =>
    refine ⟨hsafe, by simpa using h.known_ok, by simpa using h.apart, fun l' j hl' => ?_⟩
    rw [List.length_set]
    by_cases hll : l' = l
    · simp [hll] at hl'
    · exact h.owner l' j (by simpa [hll] using hl')
  | read =>
    exact ⟨hsafe, by simpa using h.known_ok, by simpa using h.apart, by simpa using h.owner⟩
  | @write a v p hp =>
    refine ⟨hsafe, fun j hj x hx => ?_, by simpa using h.apart, by simpa using h.owner⟩
    by_cases hxa : x = a
    · subst hxa
      simpa using (h.safe k _ hp).1
    · simpa [hxa] using h.known_ok j (by simpa using hj) x hx

omit [DecidableEq L] [DecidableEq A] in
theorem getElem?_spawn_cases {p q : Prog L A V R} (h : (m.spawn p).threads[j]? = some q) :
    m.threads[j]? = some q ∨ j = m.threads.length ∧ q = p :=
  Position.of_concat h

omit [DecidableEq L] [DecidableEq A] in
theorem Ok.held_length (h : m.Ok gate ok known own) : held m.owner m.threads.length = ∅ :=
  Set.eq_empty_of_forall_notMem fun l hl => absurd (h.owner l _ hl) (Nat.lt_irrefl _)

omit [DecidableEq L] [DecidableEq A] in
theorem Ok.spawn (h : m.Ok gate ok known own)
    (hsafe : p.Safe gate ok (known m.threads.length) (own m.threads.length) ∅)
    (hknown : ∀ a ∈ known m.threads.length, ok (m.store a))
    (hown : ∀ a ∈ own m.threads.length, ¬ ok (m.store a))
    (hapart : ∀ k < m.threads.length, Disjoint (own k) (own m.threads.length)) :
    (m.spawn p).Ok gate ok known own := by
  have hlen : (m.spawn p).threads.length = m.threads.length + 1 := by simp [Machine.spawn]
  refine ⟨fun k q hq => ?_, fun k hk a ha => ?_, fun j hj k hk hjk => ?_, fun l k hl => ?_⟩
  · rcases getElem?_spawn_cases hq with hq | ⟨rfl, rfl⟩
    · exact h.safe k q hq
    · change q.Safe gate ok _ (fresh ok own m.store _) (held m.owner _)
      rw [h.held_length, fresh_eq_own hown]
      exact hsafe
  · rcases Nat.lt_succ_iff_lt_or_eq.mp (hlen ▸ hk) with hk | rfl
    · exact h.known_ok k hk a ha
    · exact hknown a ha
  · rcases Nat.lt_succ_iff_lt_or_eq.mp (hlen ▸ hj) with hj | rfl <;>
      rcases Nat.lt_succ_iff_lt_or_eq.mp (hlen ▸ hk) with hk | rfl
    · exact h.apart j hj k hk hjk
    · exact hapart j hj
    · exact (hapart k hk).symm
    · exact absurd rfl hjk
  · rw [hlen]
    exact Nat.lt_succ_of_lt (h.owner l k hl)

theorem Ok.blocked_cases (h : m.Ok gate ok known own) (hp : m.threads[k]? = some p)
    (hstuck : ∀ m', m.step k ≠ .ok m') :
    (∃ r, p = .ret r) ∨ ∃ l q j, p = .acquire l q ∧ m.owner l = some j := by
  have hsafe := h.safe k p hp
  cases p with
  | ret r => exact .inl ⟨r, rfl⟩
  | panic => exact hsafe.elim
  | acquire l q =>
    cases hl : m.owner l with
    | none =>
      refine absurd ?_ (hstuck ⟨m.store, Function.update m.owner l (some k), m.threads.set k q⟩)
      simp [Machine.step, hp, hl]
    | some j => exact .inr ⟨l, q, j, rfl, hl⟩
  | release l q =>
    have hl : m.owner l = some k := hsafe.1
    refine absurd ?_ (hstuck ⟨m.store, Function.update m.owner l none, m.threads.set k q⟩)
    simp [Machine.step, hp, hl]
  | read a q =>
    refine absurd ?_ (hstuck ⟨m.store, m.owner, m.threads.set k (q (m.store a))⟩)
    simp [Machine.step, hp]
  | write a v q =>
    refine absurd ?_ (hstuck ⟨Function.update m.store a v, m.owner, m.threads.set k q⟩)
    simp [Machine.step, hp]

theorem Ok.exists_step (h : m.Ok gate ok known own) (hp : m.threads[k]? = some p)
    (hret : ∀ r, p ≠ .ret r) : ∃ j m', m.step j = .ok m' := by
  by_contra hstuck
  have hstuck : ∀ j m', m.step j ≠ .ok m' := fun j m' hj => hstuck ⟨j, m', hj⟩
  -- whoever holds a mutex waits in turn, and so holds the gate
  have hholds : ∀ j l, m.owner l = some j →
      ∃ l' i, l' ∉ held m.owner j ∧ m.owner gate = some j ∧ m.owner l' = some i := by
    intro j l hl
    obtain ⟨q, hq⟩ : ∃ q, m.threads[j]? = some q :=
      ⟨_, List.getElem?_eq_getElem (h.owner l j hl)⟩
    have hne : held m.owner j ≠ ∅ := Set.nonempty_iff_ne_empty.mp ⟨l, hl⟩
    rcases h.blocked_cases hq (hstuck j) with ⟨r, rfl⟩ | ⟨l', q', i, rfl, hi⟩
    · exact absurd (h.safe j _ hq) hne
    · obtain ⟨hl', hgate, -⟩ := h.safe j _ hq
      exact ⟨l', i, hl', hgate.resolve_left hne, hi⟩
  rcases h.blocked_cases hp (hstuck k) with ⟨r, rfl⟩ | ⟨l, q, j, rfl, hj⟩
  · exact hret r rfl
  · obtain ⟨l', i, hl', hgate, hi⟩ := hholds j l hj
    obtain ⟨-, -, -, hgate', -⟩ := hholds i l' hi
    obtain rfl : j = i := Option.some.inj (hgate.symm.trans hgate')
    exact hl' hi

end Machine

end Safe

end Locking
