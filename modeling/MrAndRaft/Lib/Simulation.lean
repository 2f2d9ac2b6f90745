import MrAndRaft.Lib.History

/-! Some steps of a run are seen from outside.  What is seen of it are the moves of a
simpler machine, if every step is either one of its moves or nothing to it. -/

namespace History

variable {S E L A ε : Type*}

def observe (fire : S → E → Except ε S) (label : S → E → Option L) (p : S × List L) (e : E) :
    Except ε (S × List L) :=
  (fire p.1 e).map fun s => (s, p.2 ++ (label p.1 e).toList)

inductive Moves (init : A) (takes : A → L → Prop) (next : A → L → A) : List L → A → Prop
  | nil : Moves init takes next [] init
  | snoc {ls : List L} {a : A} {l : L} :
      Moves init takes next ls a → takes a l → Moves init takes next (ls ++ [l]) (next a l)

variable {init : A} {takes : A → L → Prop} {next : A → L → A} {ls : List L} {a a' : A}

theorem Moves.eq_foldl (h : Moves init takes next ls a) : a = ls.foldl next init := by
  induction h with
  | nil => rfl
  | snoc _ _ ih => rw [List.foldl_append, ← ih, List.foldl_cons, List.foldl_nil]

theorem Moves.unique (h : Moves init takes next ls a) (h' : Moves init takes next ls a') : a = a' :=
  h.eq_foldl.trans h'.eq_foldl.symm

/-- What is seen of a step is a move, or nothing has happened. -/
def Matches (takes : A → L → Prop) (next : A → L → A) (R : A → Prop) (a : A) : Option L → Prop
  | none => R a
  | some l => takes a l ∧ R (next a l)

theorem Matches.imp {R R' : A → Prop} {l : Option L} (h : Matches takes next R a l)
    (hR : ∀ a, R a → R' a) : Matches takes next R' a l := by
  cases l with
  | none => exact hR a h
  | some l => exact ⟨h.1, hR _ h.2⟩

theorem Run.simulates {R : A → S → Prop} {ok : S → E → Prop} {fire : S → E → Except ε S}
    {label : S → E → Option L} {s₀ : S} {σ : List (S × List L)}
    (h : Run (s₀, []) (fun p e p' => ok p.1 e ∧ observe fire label p e = .ok p') σ) (h0 : R init s₀)
    (hs : ∀ a s e s', R a s → ok s e → fire s e = .ok s' →
      Matches takes next (R · s') a (label s e)) :
    ∀ p ∈ σ, ∃ a, Moves init takes next p.2 a ∧ R a p.1 := by
  refine h.forall_mem ⟨init, .nil, h0⟩ ?_
  rintro ⟨s, ls⟩ e p' ⟨a, hmoves, hR⟩ ⟨hok, hfire⟩
  cases hs' : fire s e with
  | error x => simp [observe, hs', Except.map] at hfire
  | ok s' =>
    obtain rfl : (s', ls ++ (label s e).toList) = p' := by
      simpa [observe, hs', Except.map] using hfire
    have hmatch := hs a s e s' hR hok hs'
    cases hl : label s e with
    | none =>
      rw [hl] at hmatch
      exact ⟨a, by simpa using hmoves, hmatch⟩
    | some l =>
      rw [hl] at hmatch
      exact ⟨next a l, hmoves.snoc hmatch.1, hmatch.2⟩

theorem Run.refines {E' : Type*} {init' : A} {step : S → E → S → Prop} {step' : A → E' → A → Prop}
    {R : S → A → Prop} {s₀ s : S} {σ : List S} (h : Run s₀ step (s :: σ)) (h0 : R s₀ init')
    (hs : ∀ s e s' a, R s a → step s e s' → R s' a ∨ ∃ e' a', step' a e' a' ∧ R s' a') :
    ∃ a τ, Run init' step' (a :: τ) ∧ R s a ∧ (∀ t ∈ σ, ∃ b ∈ a :: τ, R t b) ∧
      ∀ b ∈ a :: τ, ∃ t ∈ s :: σ, R t b := by
  generalize hρ : s :: σ = ρ at h
  induction h generalizing s σ with
  | init =>
    cases hρ
    exact ⟨init', [], .init, h0, by simp, by simpa using h0⟩
  | @step t s' υ e hrun hstep ih =>
    cases hρ
    obtain ⟨a, τ, hτ, ha, hall, hback⟩ := ih rfl
    have hall' : ∀ r ∈ t :: υ, ∃ b ∈ a :: τ, R r b :=
      List.forall_mem_cons.mpr ⟨⟨a, List.mem_cons_self, ha⟩, hall⟩
    have hback' : ∀ b ∈ a :: τ, ∃ r ∈ s' :: t :: υ, R r b := fun b hb =>
      (hback b hb).imp fun _ hr => ⟨List.mem_cons_of_mem _ hr.1, hr.2⟩
    rcases hs _ _ _ a ha hstep with ha' | ⟨e', a', hstep', ha'⟩
    · exact ⟨a, τ, hτ, ha', hall', hback'⟩
    · refine ⟨a', a :: τ, .step hτ hstep', ha', fun r hr => ?_, ?_⟩
      · obtain ⟨b, hb, hR⟩ := hall' r hr
        exact ⟨b, List.mem_cons_of_mem _ hb, hR⟩
      · exact List.forall_mem_cons.mpr ⟨⟨s', List.mem_cons_self, ha'⟩, hback'⟩

end History
