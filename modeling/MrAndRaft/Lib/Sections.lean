import Mathlib.Data.List.Nodup
import MrAndRaft.Lib.Locking

/-! Calls that touch shared cells only after their last mutex is taken: whatever the
threads do, it is as if each call had run by itself at that moment. -/

namespace Locking

variable {L A V R : Type}

namespace Prog

def Free : Prog L A V R → Prop
  | .ret _ => True
  | .panic => True
  | .acquire _ _ => False
  | .release _ p => p.Free
  | .read _ p => ∀ v, (p v).Free
  | .write _ _ p => p.Free

def Touches (a : A) : Prog L A V R → Prop
  | .ret _ => False
  | .panic => False
  | .acquire _ p => p.Touches a
  | .release _ p => p.Touches a
  | .read b p => a = b ∨ ∃ v, (p v).Touches a
  | .write b _ p => a = b ∨ p.Touches a

/-- Up to the last mutex the program only looks whether cells are `ok`, and it goes on in
the same way whatever they hold.  From then on it touches its own cells, and known cells
while it holds their guards. -/
def Section (guard : A → L) (ok : V → Prop) (known : Set A) : Set A → Set L → Prog L A V R → Prop
  | _, _, .ret _ => True
  | _, _, .panic => True
  | own, held, .acquire l p => p.Section guard ok known own (insert l held)
  | own, held, .release l p => p.Section guard ok known own (held \ {l})
  | own, held, .read a p =>
    ((∀ v, (p v).Free) → (a ∈ own ∨ a ∈ known ∧ guard a ∈ held) ∧
      ∀ v, (p v).Section guard ok known own held) ∧
    ((¬ ∀ v, (p v).Free) → a ∈ known ∧ ∃ v, ok v ∧ (∀ v', ok v' → p v' = p v) ∧
      (p v).Section guard ok known own held)
  | own, held, .write a v p => p.Free ∧ ok v ∧ (a ∈ own ∨ a ∈ known ∧ guard a ∈ held) ∧
      p.Section guard ok known (own \ {a}) held

variable [DecidableEq A] {p : Prog L A V R} {s s' : A → V} {a : A}

theorem eval_untouched (h : ¬ p.Touches a) (s : A → V) : (p.eval s).2 a = s a := by
  induction p generalizing s with
  | ret r | panic => rfl
  | acquire l p ih | release l p ih => exact ih h s
  | read b p ih => exact ih (s b) (fun htouch => h (.inr ⟨s b, htouch⟩)) s
  | write b v p ih =>
    have hab : a ≠ b := fun hab => h (.inl hab)
    rw [eval, ih (fun htouch => h (.inr htouch)), Function.update_of_ne hab]

theorem eval_congr (h : ∀ a, p.Touches a → s a = s' a) :
    (p.eval s).1 = (p.eval s').1 ∧ ∀ a, p.Touches a → (p.eval s).2 a = (p.eval s').2 a := by
  -- a cell that is not touched any more keeps its value on both sides
  have hrest : ∀ {q : Prog L A V R} {t t' : A → V} {a : A}, t a = t' a →
      (∀ a, q.Touches a → (q.eval t).2 a = (q.eval t').2 a) → (q.eval t).2 a = (q.eval t').2 a := by
    intro q t t' a ha hq
    by_cases htouch : q.Touches a
    · exact hq a htouch
    · rw [eval_untouched htouch, eval_untouched htouch, ha]
  induction p generalizing s s' with
  | ret r | panic => exact ⟨rfl, h⟩
  | acquire l p ih | release l p ih => exact ih h
  | read b p ih =>
    have hb : s b = s' b := h b (.inl rfl)
    obtain ⟨hr, hcells⟩ := ih (s b) fun a ha => h a (.inr ⟨s b, ha⟩)
    rw [eval, eval, ← hb]
    exact ⟨hr, fun a ha => hrest (h a ha) hcells⟩
  | write b v p ih =>
    have hupdate : ∀ a, a = b ∨ p.Touches a →
        Function.update s b v a = Function.update s' b v a := by
      intro a ha
      by_cases hab : a = b
      · simp [hab]
      · simpa [hab] using h a ha
    obtain ⟨hr, hcells⟩ := ih fun a ha => hupdate a (.inr ha)
    rw [eval, eval]
    exact ⟨hr, fun a ha => hrest (hupdate a ha) hcells⟩

omit [DecidableEq A] in
theorem Section.touches {guard : A → L} {ok : V → Prop} {known own : Set A} {hold : Set L}
    (hfree : p.Free) (h : p.Section guard ok known own hold) (ha : p.Touches a) :
    a ∈ own ∨ a ∈ known ∧ guard a ∈ hold := by
  induction p generalizing own hold with
  | ret r | panic => exact ha.elim
  | acquire l p => exact hfree.elim
  | release l p ih => exact (ih hfree h ha).imp_right fun h => ⟨h.1, h.2.1⟩
  | read b p ih =>
    obtain ⟨hb, h⟩ := h.1 hfree
    rcases ha with rfl | ⟨v, ha⟩
    · exact hb
    · exact ih v (hfree v) (h v) ha
  | write b v p ih =>
    obtain ⟨-, -, hb, h⟩ := h
    rcases ha with rfl | ha
    · exact hb
    · exact (ih hfree h ha).imp_left fun h => h.1

theorem Section.eval_ok {guard : A → L} {ok : V → Prop} {known own : Set A} {hold : Set L}
    (hfree : p.Free) (h : p.Section guard ok known own hold) (ha : ok (s a)) :
    ok ((p.eval s).2 a) := by
  induction p generalizing own hold s with
  | ret r | panic => exact ha
  | acquire l p => exact hfree.elim
  | release l p ih => exact ih hfree h ha
  | read b p ih => exact ih (s b) (hfree _) ((h.1 hfree).2 _) ha
  | write b v p ih =>
    obtain ⟨-, hv, -, h⟩ := h
    refine ih hfree h ?_
    by_cases hab : a = b
    · simpa [hab] using hv
    · simpa [hab] using ha

end Prog

inductive Serial [DecidableEq L] [DecidableEq A] {C : Type} (prog : C → Prog L A V R) (s : A → V) :
    List (C × R) → (A → V) → Prop
  | nil : Serial prog s [] s
  | snoc {order : List (C × R)} {s' s'' : A → V} {c : C} {r : R} : Serial prog s order s' →
      (prog c).alone (fun _ => false) s' = (.returned r, fun _ => false, s'') →
      Serial prog s (order ++ [(c, r)]) s''

section Serial

variable [DecidableEq L] [DecidableEq A] {C : Type} {prog : C → Prog L A V R} {s s' s'' : A → V}
  {order order' : List (C × R)}

theorem Serial.nil_inv (h : Serial prog s [] s') : s' = s := by
  generalize hnil : ([] : List (C × R)) = calls at h
  cases h with
  | nil => rfl
  | snoc => simp at hnil

theorem Serial.snoc_inv {c : C} {r : R} (h : Serial prog s (order ++ [(c, r)]) s'') :
    ∃ s', Serial prog s order s' ∧
      (prog c).alone (fun _ => false) s' = (.returned r, fun _ => false, s'') := by
  generalize hcalls : order ++ [(c, r)] = calls at h
  cases h with
  | nil => simp at hcalls
  | snoc h halone =>
    obtain ⟨rfl, hcr⟩ := List.append_inj' hcalls rfl
    cases hcr
    exact ⟨_, h, halone⟩

theorem Serial.of_append {before after : List (C × R)} {c : C} {r : R}
    (h : Serial prog s (before ++ (c, r) :: after) s'') :
    ∃ s₁ s₂, Serial prog s before s₁ ∧
      (prog c).alone (fun _ => false) s₁ = (.returned r, fun _ => false, s₂) := by
  induction after using List.reverseRecOn generalizing s'' with
  | nil =>
    obtain ⟨s₁, h, halone⟩ := h.snoc_inv
    exact ⟨s₁, s'', h, halone⟩
  | append_singleton after e ih =>
    rw [← List.cons_append, ← List.append_assoc] at h
    obtain ⟨s', h, -⟩ := h.snoc_inv
    exact ih h

theorem Serial.unique (h : Serial prog s order s') (h' : Serial prog s order' s'')
    (hcalls : order'.map Prod.fst = order.map Prod.fst) : order' = order ∧ s'' = s' := by
  induction h generalizing order' s'' with
  | nil =>
    obtain rfl : order' = [] := by simpa using hcalls
    exact ⟨rfl, h'.nil_inv⟩
  | snoc _ halone ih =>
    cases h' with
    | nil => simp at hcalls
    | snoc h' halone' =>
      simp only [List.map_append, List.map_cons, List.map_nil] at hcalls
      obtain ⟨hbefore, hc⟩ := List.append_inj' hcalls rfl
      obtain ⟨rfl, rfl⟩ := ih h' hbefore
      cases hc
      cases halone.symm.trans halone'
      exact ⟨rfl, rfl⟩

end Serial

namespace Machine

section

variable (gate : L) (guard : A → L) (ok : V → Prop) (known own : Nat → Set A)

structure Sectioned (m : Machine L A V R) : Prop extends m.Ok gate ok known own where
  sec : ∀ (k : Nat) (p : Prog L A V R), m.threads[k]? = some p →
    p.Section guard ok (known k) (fresh ok own m.store k) (held m.owner k)

end

variable {gate : L} {guard : A → L} {ok : V → Prop} {known own : Nat → Set A}
  {m m' : Machine L A V R} {j k : Nat} {p q : Prog L A V R} {a : A}

theorem Sectioned.untouched (h : m.Sectioned gate guard ok known own) (hp : m.threads[j]? = some p)
    (hq : m.threads[k]? = some q) (hpfree : p.Free) (hqfree : q.Free) (hpa : p.Touches a)
    (hqa : q.Touches a) : j = k := by
  by_contra hjk
  have hj : j < m.threads.length := (List.getElem?_eq_some_iff.mp hp).1
  have hk : k < m.threads.length := (List.getElem?_eq_some_iff.mp hq).1
  rcases (h.sec j p hp).touches hpfree hpa with ⟨hown, hnot⟩ | ⟨hknown, hguard⟩ <;>
    rcases (h.sec k q hq).touches hqfree hqa with ⟨hown', hnot'⟩ | ⟨hknown', hguard'⟩
  · exact Set.disjoint_left.mp (h.toOk.apart j hj k hk hjk) hown hown'
  · exact hnot (h.known_ok k hk a hknown')
  · exact hnot' (h.known_ok j hj a hknown)
  · exact hjk (Option.some.inj (hguard.symm.trans hguard'))

variable [DecidableEq L] [DecidableEq A]

theorem Sectioned.step (h : m.Sectioned gate guard ok known own) (hstep : m.step k = .ok m') :
    m'.Sectioned gate guard ok known own := by
  refine ⟨h.toOk.step hstep, h.forall_threads hstep h.sec (fun hs => hs) (fun hs => hs)
    (fun {a p} hp => ?_) (fun hs => hs.2.2.2)⟩
  obtain ⟨hbody, hlook⟩ := h.sec k _ hp
  by_cases hfree : ∀ v, (p v).Free
  · exact (hbody hfree).2 _
  · obtain ⟨hknown, v, hv, heq, hsec⟩ := hlook hfree
    have hk : k < m.threads.length := (List.getElem?_eq_some_iff.mp hp).1
    rw [heq _ (h.known_ok k hk a hknown)]
    exact hsec

omit [DecidableEq L] [DecidableEq A] in
theorem Sectioned.spawn (h : m.Sectioned gate guard ok known own)
    (hok : (m.spawn p).Ok gate ok known own)
    (hsec : p.Section guard ok (known m.threads.length) (fresh ok own m.store m.threads.length) ∅) :
    (m.spawn p).Sectioned gate guard ok known own := by
  refine ⟨hok, fun k q hq => ?_⟩
  rcases getElem?_spawn_cases hq with hq | ⟨rfl, rfl⟩
  · exact h.sec k q hq
  · change q.Section guard ok _ _ (held m.owner _)
    rw [h.held_length]
    exact hsec

theorem Stepped.body (h : Stepped m k m') (hp : m.threads[k]? = some p) (hfree : p.Free) :
    ∃ p', m'.threads = m.threads.set k p' ∧ p'.Free ∧ p'.eval m'.store = p.eval m.store ∧
      (∀ a, p'.Touches a → p.Touches a) ∧ ∀ a, ¬ p.Touches a → m'.store a = m.store a := by
  cases h with
  | acquire hq =>
    obtain rfl := Option.some.inj (hp.symm.trans hq)
    exact hfree.elim
  | @release l p' hq =>
    obtain rfl := Option.some.inj (hp.symm.trans hq)
    exact ⟨p', rfl, hfree, rfl, fun _ ha => ha, fun _ _ => rfl⟩
  | @read a p' hq =>
    obtain rfl := Option.some.inj (hp.symm.trans hq)
    exact ⟨p' (m.store a), rfl, hfree _, rfl, fun _ ha => .inr ⟨_, ha⟩, fun _ _ => rfl⟩
  | @write a v p' hq =>
    obtain rfl := Option.some.inj (hp.symm.trans hq)
    refine ⟨p', rfl, hfree, rfl, fun _ ha => .inr ha, fun b hb => ?_⟩
    exact Function.update_of_ne (fun hba => hb (.inl hba)) _ _

theorem Stepped.waiting (h : Stepped m k m') (hm : m.Sectioned gate guard ok known own)
    (hp : m.threads[k]? = some p) (hfree : ¬ p.Free) :
    ∃ p', m'.threads = m.threads.set k p' ∧ m'.store = m.store ∧
      ∀ s, (∀ a ∈ known k, ok (s a)) → p'.eval s = p.eval s := by
  cases h with
  | @acquire l p' hq | @release l p' hq =>
    obtain rfl := Option.some.inj (hp.symm.trans hq)
    exact ⟨p', rfl, rfl, fun _ _ => rfl⟩
  | @read a p' hq =>
    obtain rfl := Option.some.inj (hp.symm.trans hq)
    obtain ⟨hknown, v, -, heq, -⟩ := (hm.sec k _ hp).2 hfree
    have hk : k < m.threads.length := (List.getElem?_eq_some_iff.mp hp).1
    refine ⟨p' (m.store a), rfl, rfl, fun s hs => ?_⟩
    rw [Prog.eval, heq _ (hs a hknown), heq _ (hm.known_ok k hk a hknown)]
  | @write a v p' hq =>
    obtain rfl := Option.some.inj (hp.symm.trans hq)
    exact absurd (hm.sec k _ hp).1 hfree

section

variable (gate : L) (guard : A → L) (ok : V → Prop) (known own : Nat → Set A)
  (origin : Nat → Prog L A V R) (s₀ : A → V)

/-- `abs` holds what the cells would hold if every call past its last mutex were over, and
`order` are these calls in the order in which they got there. -/
structure Lin (order : List (Nat × R)) (abs : A → V) (m : Machine L A V R) : Prop
    extends m.Sectioned gate guard ok known own where
  origin_safe : ∀ k < m.threads.length, (origin k).Safe gate ok (known k) (own k) ∅
  waiting : ∀ (k : Nat) (p : Prog L A V R), m.threads[k]? = some p → ¬ p.Free →
    (∀ a ∈ own k, ¬ ok (m.store a)) ∧
      ∀ s, (∀ a ∈ known k, ok (s a)) → p.eval s = (origin k).eval s
  result : ∀ (k : Nat) (p : Prog L A V R), m.threads[k]? = some p → p.Free →
    ∃ r, (p.eval m.store).1 = some r ∧ (k, r) ∈ order
  pending : ∀ (k : Nat) (p : Prog L A V R), m.threads[k]? = some p → p.Free →
    ∀ a, p.Touches a → abs a = (p.eval m.store).2 a
  settled : ∀ a, (∀ (k : Nat) (p : Prog L A V R), m.threads[k]? = some p → p.Free →
    ¬ p.Touches a) → abs a = m.store a
  serial : Serial origin s₀ order abs
  nodup : (order.map Prod.fst).Nodup
  committed : ∀ e ∈ order, ∃ p, m.threads[e.1]? = some p ∧ p.Free

end

variable {origin : Nat → Prog L A V R} {s₀ abs : A → V} {order : List (Nat × R)}

theorem Lin.abs_ok (h : m.Lin gate guard ok known own origin s₀ order abs) (ha : ok (m.store a)) :
    ok (abs a) := by
  by_cases htouch : ∃ (k : Nat) (p : Prog L A V R), m.threads[k]? = some p ∧ p.Free ∧ p.Touches a
  · obtain ⟨k, p, hp, hfree, hpa⟩ := htouch
    rw [h.pending k p hp hfree a hpa]
    exact (h.sec k p hp).eval_ok hfree ha
  · rw [h.settled a fun k p hp hfree hpa => htouch ⟨k, p, hp, hfree, hpa⟩]
    exact ha

theorem Lin.not_touches (h : m.Lin gate guard ok known own origin s₀ order abs)
    (hp : m.threads[k]? = some p) (hfree : p.Free) (hq : m.threads[j]? = some q) (hq' : ¬ q.Free)
    (ha : a ∈ own j) : ¬ p.Touches a := by
  intro hpa
  have hj : j < m.threads.length := (List.getElem?_eq_some_iff.mp hq).1
  have hk : k < m.threads.length := (List.getElem?_eq_some_iff.mp hp).1
  have hjk : j ≠ k := by
    rintro rfl
    exact hq' (Option.some.inj (hp.symm.trans hq) ▸ hfree)
  rcases (h.sec k p hp).touches hfree hpa with ⟨hown, -⟩ | ⟨hknown, -⟩
  · exact Set.disjoint_left.mp (h.toOk.apart j hj k hk hjk) ha hown
  · exact (h.waiting j q hq hq').1 a ha (h.known_ok k hk a hknown)

theorem Lin.alone_abs (h : m.Lin gate guard ok known own origin s₀ order abs)
    (hp : m.threads[k]? = some p) (hfree : ¬ p.Free) :
    ∃ r, (p.eval abs).1 = some r ∧
      (origin k).alone (fun _ => false) abs = (.returned r, fun _ => false, (p.eval abs).2) := by
  have hk : k < m.threads.length := (List.getElem?_eq_some_iff.mp hp).1
  obtain ⟨hown, horigin⟩ := h.waiting k p hp hfree
  have hknown : ∀ a ∈ known k, ok (abs a) := fun a ha => h.abs_ok (h.known_ok k hk a ha)
  have hnot : ∀ a ∈ own k, ¬ ok (abs a) := by
    intro a ha
    rw [h.settled a fun j q hq hqfree => h.not_touches hq hqfree hp hfree ha]
    exact hown a ha
  have htaken : ∀ l, (fun _ : L => false) l = true ↔ l ∈ (∅ : Set L) := by simp
  rw [horigin abs hknown]
  exact (h.origin_safe k hk).alone_eq hknown hnot htaken

theorem Lin.body (h : m.Lin gate guard ok known own origin s₀ order abs)
    (hstep : m.step k = .ok m') (hp : m.threads[k]? = some p) (hfree : p.Free) :
    m'.Lin gate guard ok known own origin s₀ order abs := by
  obtain ⟨p', hthreads, hfree', heval, htouch, hstore⟩ := (step_cases hstep).body hp hfree
  have hlen : m'.threads.length = m.threads.length := by rw [hthreads, List.length_set]
  have hk : k < m.threads.length := (List.getElem?_eq_some_iff.mp hp).1
  -- the other calls past their last mutex see the cells they touch unchanged
  have hsame : ∀ {j : Nat} {q : Prog L A V R}, j ≠ k → m.threads[j]? = some q → q.Free →
      ∀ a, q.Touches a → m'.store a = m.store a := by
    intro j q hjk hq hqfree a hqa
    exact hstore a fun hpa => hjk (h.untouched hq hp hqfree hfree hqa hpa)
  refine ⟨h.toSectioned.step hstep, by simpa [hlen] using h.origin_safe, fun j q hq hnot => ?_,
    fun j q hq hqfree => ?_, fun j q hq hqfree a hqa => ?_, fun a ha => ?_, h.serial, h.nodup,
    fun e he => ?_⟩
  · rcases Position.of_set (hthreads ▸ hq) with ⟨rfl, rfl⟩ | ⟨hjk, hq⟩
    · exact absurd hfree' hnot
    · obtain ⟨hown, horigin⟩ := h.waiting j q hq hnot
      refine ⟨fun a ha => ?_, horigin⟩
      rw [hstore a (h.not_touches hp hfree hq hnot ha)]
      exact hown a ha
  · rcases Position.of_set (hthreads ▸ hq) with ⟨rfl, rfl⟩ | ⟨hjk, hq⟩
    · rw [heval]
      exact h.result j p hp hfree
    · rw [(Prog.eval_congr (hsame hjk hq hqfree)).1]
      exact h.result j q hq hqfree
  · rcases Position.of_set (hthreads ▸ hq) with ⟨rfl, rfl⟩ | ⟨hjk, hq⟩
    · rw [heval]
      exact h.pending j p hp hfree a (htouch a hqa)
    · rw [(Prog.eval_congr (hsame hjk hq hqfree)).2 a hqa]
      exact h.pending j q hq hqfree a hqa
  · have hp' : m'.threads[k]? = some p' := by rw [hthreads, List.getElem?_set_self hk]
    by_cases hpa : p.Touches a
    · rw [h.pending k p hp hfree a hpa, ← heval, Prog.eval_untouched (ha k p' hp' hfree')]
    · rw [hstore a hpa]
      refine h.settled a fun j q hq hqfree hqa => ?_
      by_cases hjk : j = k
      · subst hjk
        exact hpa (Option.some.inj (hp.symm.trans hq) ▸ hqa)
      · refine ha j q ?_ hqfree hqa
        rw [hthreads, List.getElem?_set_ne (Ne.symm hjk)]
        exact hq
  · obtain ⟨q, hq, hqfree⟩ := h.committed e he
    rw [hthreads]
    by_cases hek : e.1 = k
    · exact ⟨p', by rw [hek, List.getElem?_set_self hk], hfree'⟩
    · exact ⟨q, by rw [List.getElem?_set_ne (Ne.symm hek), hq], hqfree⟩

theorem Lin.wait (h : m.Lin gate guard ok known own origin s₀ order abs)
    (hstep : m.step k = .ok m') {p' : Prog L A V R} (hp : m.threads[k]? = some p)
    (hfree : ¬ p.Free) (hthreads : m'.threads = m.threads.set k p') (hstore : m'.store = m.store)
    (heval : ∀ s, (∀ a ∈ known k, ok (s a)) → p'.eval s = p.eval s) (hfree' : ¬ p'.Free) :
    m'.Lin gate guard ok known own origin s₀ order abs := by
  have hlen : m'.threads.length = m.threads.length := by rw [hthreads, List.length_set]
  -- the calls past their last mutex are the same ones
  have hcases : ∀ {j : Nat} {q : Prog L A V R}, q.Free →
      (m'.threads[j]? = some q ↔ m.threads[j]? = some q) := by
    intro j q hqfree
    rw [hthreads]
    by_cases hjk : k = j
    · subst hjk
      have hk : k < m.threads.length := (List.getElem?_eq_some_iff.mp hp).1
      rw [List.getElem?_set_self hk, hp, Option.some.injEq, Option.some.injEq]
      exact ⟨fun hq => absurd (hq ▸ hqfree) hfree', fun hq => absurd (hq ▸ hqfree) hfree⟩
    · rw [List.getElem?_set_ne hjk]
  refine ⟨h.toSectioned.step hstep, by simpa [hlen] using h.origin_safe, fun j q hq hnot => ?_,
    fun j q hq hqfree => ?_, fun j q hq hqfree => ?_, fun a ha => ?_, h.serial, h.nodup,
    fun e he => ?_⟩
  · rw [hstore]
    rcases Position.of_set (hthreads ▸ hq) with ⟨rfl, rfl⟩ | ⟨hjk, hq⟩
    · obtain ⟨hown, horigin⟩ := h.waiting j p hp hfree
      exact ⟨hown, fun s hs => (heval s hs).trans (horigin s hs)⟩
    · exact h.waiting j q hq hnot
  · rw [hstore]
    exact h.result j q ((hcases hqfree).mp hq) hqfree
  · rw [hstore]
    exact h.pending j q ((hcases hqfree).mp hq) hqfree
  · rw [hstore]
    exact h.settled a fun j q hq hqfree => ha j q ((hcases hqfree).mpr hq) hqfree
  · obtain ⟨q, hq, hqfree⟩ := h.committed e he
    exact ⟨q, (hcases hqfree).mpr hq, hqfree⟩

theorem Lin.commit (h : m.Lin gate guard ok known own origin s₀ order abs)
    (hstep : m.step k = .ok m') {p' : Prog L A V R} (hp : m.threads[k]? = some p)
    (hfree : ¬ p.Free) (hthreads : m'.threads = m.threads.set k p') (hstore : m'.store = m.store)
    (heval : ∀ s, (∀ a ∈ known k, ok (s a)) → p'.eval s = p.eval s) (hfree' : p'.Free) :
    ∃ r, m'.Lin gate guard ok known own origin s₀ (order ++ [(k, r)]) (p'.eval abs).2 := by
  have hk : k < m.threads.length := (List.getElem?_eq_some_iff.mp hp).1
  have hlen : m'.threads.length = m.threads.length := by rw [hthreads, List.length_set]
  have hm' := h.toSectioned.step hstep
  have hp' : m'.threads[k]? = some p' := by rw [hthreads, List.getElem?_set_self hk]
  -- a call that was past its last mutex is another thread's, and is so still
  have hother : ∀ {j : Nat} {q : Prog L A V R}, m.threads[j]? = some q → q.Free →
      j ≠ k ∧ m'.threads[j]? = some q := by
    intro j q hq hqfree
    have hjk : j ≠ k := by
      rintro rfl
      exact hfree (Option.some.inj (hp.symm.trans hq) ▸ hqfree)
    exact ⟨hjk, by rw [hthreads, List.getElem?_set_ne (Ne.symm hjk), hq]⟩
  have hagree : ∀ a, p'.Touches a → abs a = m.store a := by
    intro a ha
    refine h.settled a fun j q hq hqfree hqa => ?_
    obtain ⟨hjk, hq'⟩ := hother hq hqfree
    exact hjk (hm'.untouched hq' hp' hqfree hfree' hqa ha)
  have hknown : ∀ a ∈ known k, ok (abs a) := fun a ha => h.abs_ok (h.known_ok k hk a ha)
  obtain ⟨r, hr, halone⟩ := h.alone_abs hp hfree
  rw [← heval abs hknown] at hr halone
  obtain ⟨hresult, hcells⟩ := Prog.eval_congr hagree
  refine ⟨r, hm', by simpa [hlen] using h.origin_safe, fun j q hq hqnot => ?_,
    fun j q hq hqfree => ?_, fun j q hq hqfree a hqa => ?_, fun a ha => ?_, .snoc h.serial halone,
    ?_, fun e he => ?_⟩
  · rw [hstore]
    rcases Position.of_set (hthreads ▸ hq) with ⟨rfl, rfl⟩ | ⟨-, hq⟩
    · exact absurd hfree' hqnot
    · exact h.waiting j q hq hqnot
  · rw [hstore]
    rcases Position.of_set (hthreads ▸ hq) with ⟨rfl, rfl⟩ | ⟨-, hq⟩
    · exact ⟨r, hresult ▸ hr, by simp⟩
    · obtain ⟨r', hr', hmem⟩ := h.result j q hq hqfree
      exact ⟨r', hr', List.mem_append_left _ hmem⟩
  · rw [hstore]
    rcases Position.of_set (hthreads ▸ hq) with ⟨rfl, rfl⟩ | ⟨hjk, hq'⟩
    · exact hcells a hqa
    · rw [Prog.eval_untouched fun ha => hjk (hm'.untouched hq hp' hqfree hfree' hqa ha)]
      exact h.pending j q hq' hqfree a hqa
  · rw [hstore, Prog.eval_untouched (ha k p' hp' hfree')]
    exact h.settled a fun j q hq hqfree => ha j q (hother hq hqfree).2 hqfree
  · rw [List.map_append, List.map_singleton, List.nodup_append]
    refine ⟨h.nodup, by simp, ?_⟩
    intro j hj i hi hji
    obtain ⟨e, he, rfl⟩ := List.mem_map.mp hj
    obtain ⟨q, hq, hqfree⟩ := h.committed e he
    exact (hother hq hqfree).1 (hji.trans (List.mem_singleton.mp hi))
  · rcases List.mem_append.mp he with he | he
    · obtain ⟨q, hq, hqfree⟩ := h.committed e he
      exact ⟨q, (hother hq hqfree).2, hqfree⟩
    · obtain rfl := List.mem_singleton.mp he
      exact ⟨p', hp', hfree'⟩

theorem Lin.step (h : m.Lin gate guard ok known own origin s₀ order abs)
    (hstep : m.step k = .ok m') :
    ∃ order' abs', m'.Lin gate guard ok known own origin s₀ order' abs' := by
  obtain ⟨p, hp⟩ : ∃ p, m.threads[k]? = some p := by
    cases step_cases hstep <;> exact ⟨_, ‹_›⟩
  by_cases hfree : p.Free
  · exact ⟨order, abs, h.body hstep hp hfree⟩
  · obtain ⟨p', hthreads, hstore, heval⟩ := (step_cases hstep).waiting h.toSectioned hp hfree
    by_cases hfree' : p'.Free
    · obtain ⟨r, hcommit⟩ := h.commit hstep hp hfree hthreads hstore heval hfree'
      exact ⟨_, _, hcommit⟩
    · exact ⟨order, abs, h.wait hstep hp hfree hthreads hstore heval hfree'⟩

theorem Lin.spawn (h : m.Lin gate guard ok known own origin s₀ order abs)
    (hp : origin m.threads.length = p)
    (hsafe : p.Safe gate ok (known m.threads.length) (own m.threads.length) ∅)
    (hsec : p.Section guard ok (known m.threads.length) (own m.threads.length) ∅)
    (hfree : ¬ p.Free) (hknown : ∀ a ∈ known m.threads.length, ok (m.store a))
    (hown : ∀ a ∈ own m.threads.length, ¬ ok (m.store a))
    (hapart : ∀ k < m.threads.length, Disjoint (own k) (own m.threads.length)) :
    (m.spawn p).Lin gate guard ok known own origin s₀ order abs := by
  have hold : ∀ {j : Nat} {q : Prog L A V R}, (m.spawn p).threads[j]? = some q → q.Free →
      m.threads[j]? = some q := by
    intro j q hq hqfree
    rcases getElem?_spawn_cases hq with hq | ⟨-, rfl⟩
    · exact hq
    · exact absurd hqfree hfree
  have hnew : ∀ {j : Nat} {q : Prog L A V R}, m.threads[j]? = some q →
      (m.spawn p).threads[j]? = some q := by
    intro j q hq
    rw [Machine.spawn, List.getElem?_append_left (List.getElem?_eq_some_iff.mp hq).1, hq]
  refine ⟨h.toSectioned.spawn (h.toOk.spawn hsafe hknown hown hapart) (by rwa [fresh_eq_own hown]),
    fun k hk => ?_, fun j q hq hqnot => ?_, fun j q hq hqfree => h.result j q (hold hq hqfree) hqfree,
    fun j q hq hqfree => h.pending j q (hold hq hqfree) hqfree,
    fun a ha => h.settled a fun j q hq hqfree => ha j q (hnew hq) hqfree, h.serial, h.nodup,
    fun e he => ?_⟩
  · have hlen : (m.spawn p).threads.length = m.threads.length + 1 := by simp [Machine.spawn]
    rcases Nat.lt_succ_iff_lt_or_eq.mp (hlen ▸ hk) with hk | rfl
    · exact h.origin_safe k hk
    · exact hp ▸ hsafe
  · rcases getElem?_spawn_cases hq with hq | ⟨rfl, rfl⟩
    · exact h.waiting j q hq hqnot
    · exact ⟨hown, fun s _ => by rw [hp]⟩
  · obtain ⟨q, hq, hqfree⟩ := h.committed e he
    exact ⟨q, hnew hq, hqfree⟩

theorem Lin.finished (h : m.Lin gate guard ok known own origin s₀ order abs)
    (hret : ∀ k < m.threads.length, ∃ r, m.threads[k]? = some (.ret r)) :
    Serial origin s₀ order m.store ∧ (order.map Prod.fst).Perm (List.range m.threads.length) ∧
      ∀ e ∈ order, m.threads[e.1]? = some (.ret e.2) := by
  have habs : abs = m.store := by
    funext a
    refine h.settled a fun k p hp _ ha => ?_
    obtain ⟨r, hr⟩ := hret k (List.getElem?_eq_some_iff.mp hp).1
    obtain rfl := Option.some.inj (hp.symm.trans hr)
    exact ha
  have hmem : ∀ k r, m.threads[k]? = some (.ret r) → (k, r) ∈ order := by
    intro k r hr
    obtain ⟨r', hr', hmem⟩ := h.result k _ hr trivial
    exact Option.some.inj hr' ▸ hmem
  refine ⟨habs ▸ h.serial, (List.perm_ext_iff_of_nodup h.nodup List.nodup_range).mpr fun k => ?_,
    fun e he => ?_⟩
  · rw [List.mem_range]
    constructor
    · intro hk
      obtain ⟨e, he, rfl⟩ := List.mem_map.mp hk
      obtain ⟨q, hq, -⟩ := h.committed e he
      exact (List.getElem?_eq_some_iff.mp hq).1
    · intro hk
      obtain ⟨r, hr⟩ := hret k hk
      exact List.mem_map.mpr ⟨(k, r), hmem k r hr, rfl⟩
  · obtain ⟨q, hq, -⟩ := h.committed e he
    obtain ⟨r, hr⟩ := hret e.1 (List.getElem?_eq_some_iff.mp hq).1
    have heq : (e.1, r) = e := List.inj_on_of_nodup_map h.nodup (hmem e.1 r hr) he rfl
    rw [hr, ← heq]

end Machine

end Locking
