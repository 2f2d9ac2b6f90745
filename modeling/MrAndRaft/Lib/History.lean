import Mathlib.Data.List.Infix

/-! Runs of a transition system, kept as the list of the states visited so far.
A fact that was true at some earlier moment is a fact about a member of that
list, so it survives every later step. -/

universe u v

namespace History

variable {S : Type u} {E : Type v}

/-- `Run init step σ`: the states of `σ`, latest first, are a run from `init`. -/
inductive Run (init : S) (step : S → E → S → Prop) : List S → Prop
  | init : Run init step [init]
  | step {s s' : S} {σ : List S} {e : E} :
      Run init step (s :: σ) → step s e s' → Run init step (s' :: s :: σ)

namespace Run

variable {init : S} {step : S → E → S → Prop} {σ τ : List S}

theorem mono {step' : S → E → S → Prop} (h : Run init step σ)
    (hs : ∀ s e s', step s e s' → step' s e s') : Run init step' σ := by
  induction h with
  | init => exact .init
  | step _ hstep ih => exact .step ih (hs _ _ _ hstep)

theorem of_suffix (h : Run init step σ) (hτ : τ <:+ σ) (hne : τ ≠ []) : Run init step τ := by
  induction h with
  | init =>
    rcases List.suffix_cons_iff.mp hτ with rfl | hnil
    · exact .init
    · exact absurd (List.suffix_nil.mp hnil) hne
  | step hrun hstep ih =>
    rcases List.suffix_cons_iff.mp hτ with rfl | hsuf
    · exact .step hrun hstep
    · exact ih hsuf

theorem within (h : Run init step σ) :
    Run init (fun s e s' => step s e s' ∧ s ∈ σ ∧ s' ∈ σ) σ := by
  induction h with
  | init => exact .init
  | step hrun hstep ih =>
    refine .step (ih.mono fun s e s' hs => ?_) ⟨hstep, by simp, by simp⟩
    exact ⟨hs.1, List.mem_cons_of_mem _ hs.2.1, List.mem_cons_of_mem _ hs.2.2⟩

theorem map {S' E' : Type*} {step' : S' → E' → S' → Prop} (f : S → S') (h : Run init step σ)
    (hs : ∀ s e s', s ∈ σ → s' ∈ σ → step s e s' → ∃ e', step' (f s) e' (f s')) :
    Run (f init) step' (σ.map f) := by
  induction h with
  | init => exact .init
  | step hrun hstep ih =>
    have ih := ih fun s e s' hmem hmem' => hs s e s' (.tail _ hmem) (.tail _ hmem')
    obtain ⟨e', hstep'⟩ := hs _ _ _ (.tail _ (.head _)) (.head _) hstep
    exact .step ih hstep'

theorem forall_mem {I : S → Prop} (h : Run init step σ) (h0 : I init)
    (hs : ∀ s e s', I s → step s e s' → I s') : ∀ s ∈ σ, I s := by
  induction h with
  | init => simpa using h0
  | step _ hstep ih =>
    intro t ht
    rcases List.mem_cons.mp ht with rfl | ht
    · exact hs _ _ _ (ih _ List.mem_cons_self) hstep
    · exact ih t ht

/-- Strong induction: a step may use the invariant at every state visited so far. -/
theorem forall_mem_of_history {I : S → Prop} (h : Run init step σ) (h0 : I init)
    (hs : ∀ s e s' τ, s' :: s :: τ <:+ σ → Run init step (s :: τ) → (∀ t ∈ s :: τ, I t) →
      step s e s' → I s') : ∀ s ∈ σ, I s := by
  induction h with
  | init => simpa using h0
  | step hrun hstep ih =>
    have ih := ih fun s e s' τ hτ => hs s e s' τ (hτ.trans (List.suffix_cons _ _))
    intro t ht
    rcases List.mem_cons.mp ht with rfl | ht
    · exact hs _ _ _ _ List.suffix_rfl hrun ih hstep
    · exact ih t ht

theorem pairwise {R : S → S → Prop} (h : Run init step σ)
    (htrans : ∀ {a b c}, R a b → R b c → R a c)
    (hs : ∀ s e s', step s e s' → R s s') :
    σ.Pairwise (fun later earlier => R earlier later) := by
  induction h with
  | init => exact List.pairwise_singleton _ _
  | step _ hstep ih =>
    refine List.pairwise_cons.mpr ⟨fun t ht => ?_, ih⟩
    rcases List.mem_cons.mp ht with rfl | ht
    · exact hs _ _ _ hstep
    · exact htrans ((List.pairwise_cons.mp ih).1 t ht) (hs _ _ _ hstep)

end Run

theorem exists_suffix_of_mem {s : S} {σ : List S} (h : s ∈ σ) : ∃ τ, s :: τ <:+ σ := by
  obtain ⟨ρ, τ, rfl⟩ := List.append_of_mem h
  exact ⟨τ, List.suffix_append _ _⟩

/-- A visited state belongs to the history of another one or comes after it. -/
theorem mem_or_later {R : S → S → Prop} {σ τ : List S} {s t : S}
    (h : σ.Pairwise (fun later earlier => R earlier later)) (hτ : s :: τ <:+ σ) (ht : t ∈ σ) :
    t ∈ s :: τ ∨ R s t := by
  obtain ⟨ρ, rfl⟩ := hτ
  rcases List.mem_append.mp ht with ht | ht
  · exact .inr ((List.pairwise_append.mp h).2.2 t ht s List.mem_cons_self)
  · exact .inl ht

theorem comparable {R : S → S → Prop} {σ : List S} (hrefl : ∀ s, R s s)
    (h : σ.Pairwise (fun later earlier => R earlier later)) {s t : S}
    (hs : s ∈ σ) (ht : t ∈ σ) : R s t ∨ R t s := by
  induction σ with
  | nil => cases hs
  | cons a σ ih =>
    obtain ⟨ha, hσ⟩ := List.pairwise_cons.mp h
    rcases List.mem_cons.mp hs with rfl | hs' <;> rcases List.mem_cons.mp ht with rfl | ht'
    · exact .inl (hrefl _)
    · exact .inr (ha t ht')
    · exact .inl (ha s hs')
    · exact ih hσ hs' ht'

def exec {ε : Type*} (guard : S → E → Bool) (fire : S → E → Except ε S) (s : S) :
    List E → Option S
  | [] => some s
  | e :: es =>
    if guard s e then
      match fire s e with
      | .ok s' => exec guard fire s' es
      | .error _ => none
    else none

theorem exec_run {ε : Type*} {guard : S → E → Bool} {fire : S → E → Except ε S}
    {init s t : S} {step : S → E → S → Prop} {σ : List S} {es : List E}
    (hs : ∀ s e s', guard s e → fire s e = .ok s' → step s e s')
    (hrun : Run init step (s :: σ)) (h : exec guard fire s es = some t) :
    ∃ τ, Run init step (t :: τ) := by
  induction es generalizing s σ with
  | nil =>
    cases h
    exact ⟨σ, hrun⟩
  | cons e es ih =>
    rw [exec] at h
    split at h
    · rename_i hg
      cases hf : fire s e with
      | error x => simp [hf] at h
      | ok s' =>
        rw [hf] at h
        exact ih (.step hrun (hs s e s' hg hf)) h
    · cases h

theorem exists_run {ε : Type*} {init : S} {fire : S → E → Except ε S} (ok : S → E → Prop)
    [∀ s e, Decidable (ok s e)] (P : S → Prop) [DecidablePred P] (es : List E)
    (h : (exec (fun s e => decide (ok s e)) fire init es).any fun s => decide (P s)) :
    ∃ s σ, Run init (fun s e s' => ok s e ∧ fire s e = .ok s') (s :: σ) ∧ P s := by
  cases hs : exec (fun s e => decide (ok s e)) fire init es with
  | none => simp [hs] at h
  | some s =>
    have hstep : ∀ s e s', decide (ok s e) → fire s e = .ok s' → ok s e ∧ fire s e = .ok s' :=
      fun _ _ _ hg hf => ⟨of_decide_eq_true hg, hf⟩
    obtain ⟨σ, hrun⟩ := exec_run hstep .init hs
    exact ⟨s, σ, hrun, by simpa [hs] using h⟩

def trace (fire : S → E → Option S) (s : S) (σ : List S) : List E → Option (List S)
  | [] => some (s :: σ)
  | e :: es => (fire s e).bind fun s' => trace fire s' (s :: σ) es

theorem trace_run {fire : S → E → Option S} {step : S → E → S → Prop} {init s : S} {σ τ : List S}
    {es : List E} (hs : ∀ s e s', fire s e = some s' → step s e s') (hrun : Run init step (s :: σ))
    (h : trace fire s σ es = some τ) : Run init step τ := by
  induction es generalizing s σ with
  | nil =>
    cases h
    exact hrun
  | cons e es ih =>
    obtain ⟨s', hf, h⟩ := Option.bind_eq_some_iff.mp h
    exact ih (.step hrun (hs s e s' hf)) h

theorem exists_trace (fire : S → E → Option S) {step : S → E → S → Prop}
    (hs : ∀ s e s', fire s e = some s' → step s e s') (init : S) (P : List S → Prop)
    [DecidablePred P] (es : List E) (h : (trace fire init [] es).any fun σ => decide (P σ)) :
    ∃ s σ, Run init step (s :: σ) ∧ P (s :: σ) := by
  cases hσ : trace fire init [] es with
  | none => simp [hσ] at h
  | some σ =>
    have hrun := trace_run hs .init hσ
    cases σ with
    | nil => cases hrun
    | cons s σ => exact ⟨s, σ, hrun, by simpa [hσ] using h⟩

theorem toOption_eq_some {ε α : Type*} {x : Except ε α} {a : α} (h : x.toOption = some a) :
    x = .ok a := by
  cases x with
  | error => cases h
  | ok => simpa [Except.toOption] using h

section Extension

variable {S E : Type*} {init s : S} {step : S → E → S → Prop} {σ : List S} {P Q : S → Prop}

def CanReach (init : S) (step : S → E → S → Prop) (σ : List S) (P : S → Prop) : Prop :=
  ∃ s τ, Run init step (s :: τ) ∧ σ <:+ s :: τ ∧ P s

namespace CanReach

theorem here (h : Run init step (s :: σ)) (hs : P s) : CanReach init step (s :: σ) P :=
  ⟨s, σ, h, List.suffix_rfl, hs⟩

theorem of_cons (h : CanReach init step (s :: σ) P) : CanReach init step σ P := by
  obtain ⟨t, τ, hrun, hsuf, ht⟩ := h
  exact ⟨t, τ, hrun, (List.suffix_cons _ _).trans hsuf, ht⟩

theorem imp (h : CanReach init step σ P) (hPQ : ∀ s, P s → Q s) : CanReach init step σ Q := by
  obtain ⟨s, τ, hrun, hsuf, hs⟩ := h
  exact ⟨s, τ, hrun, hsuf, hPQ s hs⟩

theorem trans (h : CanReach init step σ P)
    (hnext : ∀ s τ, Run init step (s :: τ) → P s → CanReach init step (s :: τ) Q) :
    CanReach init step σ Q := by
  obtain ⟨s, τ, hrun, hsuf, hs⟩ := h
  obtain ⟨t, υ, hrun', hsuf', ht⟩ := hnext s τ hrun hs
  exact ⟨t, υ, hrun', hsuf.trans hsuf', ht⟩

end CanReach

end Extension

end History
