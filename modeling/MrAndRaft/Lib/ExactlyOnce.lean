import Mathlib.Logic.Function.Basic
import Mathlib.Order.Lattice

/-! A receiver that takes a request only if its number exceeds the last one taken
from the same client. -/

namespace ExactlyOnce

structure Receiver (S C R : Type) where
  state : S
  last : C → Option R

variable {S A C R : Type} [LinearOrder R]

section

variable (client : A → C) (number : A → R)

def IsNew (last : C → Option R) (a : A) : Prop := ∀ r ∈ last (client a), r < number a

instance (last : C → Option R) (a : A) : Decidable (IsNew client number last a) :=
  inferInstanceAs (Decidable (∀ r ∈ last (client a), r < number a))

variable [DecidableEq C]

def receive (apply : S → A → S) (x : Receiver S C R) (a : A) : Receiver S C R :=
  if IsNew client number x.last a then
    ⟨apply x.state a, Function.update x.last (client a) (some (number a))⟩
  else x

/-- The requests that are not in `seen`, each at its first occurrence. -/
def firsts (seen : List (C × R)) : List A → List A
  | [] => []
  | a :: as =>
    if (client a, number a) ∈ seen then firsts seen as
    else a :: firsts ((client a, number a) :: seen) as

def Ascending (as : List A) : Prop :=
  (firsts client number [] as).Pairwise fun a b => client a = client b → number a < number b

end

structure Tracks (seen : List (C × R)) (last : C → Option R) : Prop where
  unseen : ∀ c, last c = none → ∀ r, (c, r) ∉ seen
  latest : ∀ c r, last c = some r → (c, r) ∈ seen ∧ ∀ r', (c, r') ∈ seen → r' ≤ r

variable {client : A → C} {number : A → R} {seen : List (C × R)} {last : C → Option R} {a : A}

theorem Tracks.isNew (h : Tracks seen last)
    (hlt : ∀ r, (client a, r) ∈ seen → r < number a) : IsNew client number last a := by
  intro r hr
  apply hlt
  exact (h.latest _ r hr).1

theorem Tracks.not_isNew (h : Tracks seen last) (hmem : (client a, number a) ∈ seen) :
    ¬ IsNew client number last a := by
  intro hnew
  cases hr : last (client a) with
  | none => exact h.unseen _ hr _ hmem
  | some r => exact absurd (hnew r hr) ((h.latest _ r hr).2 _ hmem).not_gt

variable [DecidableEq C]

theorem Tracks.cons (h : Tracks seen last)
    (hlt : ∀ r, (client a, r) ∈ seen → r < number a) :
    Tracks ((client a, number a) :: seen)
      (Function.update last (client a) (some (number a))) := by
  constructor
  · intro c hc r hr
    by_cases hca : c = client a
    · simp [hca] at hc
    · rw [Function.update_of_ne hca] at hc
      simp only [List.mem_cons, Prod.mk.injEq, hca, false_and, false_or] at hr
      exact h.unseen c hc r hr
  · intro c r hc
    by_cases hca : c = client a
    · subst hca
      simp only [Function.update_self, Option.some.injEq] at hc
      subst hc
      refine ⟨List.mem_cons_self, fun r' hr' => ?_⟩
      rcases List.mem_cons.mp hr' with heq | hr'
      · exact (Prod.mk.inj heq).2.le
      · exact (hlt r' hr').le
    · rw [Function.update_of_ne hca] at hc
      simpa [hca] using h.latest c r hc

theorem last_foldl_receive (apply : S → A → S) (as : List A) (x : Receiver S C R) {c : C} {r : R}
    (h : (as.foldl (receive client number apply) x).last c = some r) :
    x.last c = some r ∨ ∃ a ∈ as, client a = c ∧ number a = r := by
  induction as generalizing x with
  | nil => exact .inl h
  | cons a as ih =>
    rcases ih _ h with hx | ⟨b, hb, hbc, hbr⟩
    · rw [receive] at hx
      split at hx
      · dsimp only at hx
        by_cases hca : c = client a
        · subst hca
          rw [Function.update_self] at hx
          exact .inr ⟨a, List.mem_cons_self, rfl, Option.some.inj hx⟩
        · rw [Function.update_of_ne hca] at hx
          exact .inl hx
      · exact .inl hx
    · exact .inr ⟨b, List.mem_cons_of_mem _ hb, hbc, hbr⟩

theorem foldl_receive (apply : S → A → S) (as : List A) (x : Receiver S C R)
    (h : Tracks seen x.last)
    (hasc : (firsts client number seen as).Pairwise fun a b =>
      client a = client b → number a < number b)
    (hlt : ∀ a ∈ firsts client number seen as, ∀ r, (client a, r) ∈ seen → r < number a) :
    (as.foldl (receive client number apply) x).state =
      (firsts client number seen as).foldl apply x.state := by
  induction as generalizing seen x with
  | nil => rfl
  | cons a as ih =>
    rw [List.foldl_cons, receive]
    by_cases hmem : (client a, number a) ∈ seen
    · rw [firsts, if_pos hmem] at hasc hlt ⊢
      rw [if_neg (h.not_isNew hmem)]
      exact ih x h hasc hlt
    · rw [firsts, if_neg hmem] at hasc hlt ⊢
      obtain ⟨hhead, htail⟩ := List.pairwise_cons.mp hasc
      have hnow := hlt a List.mem_cons_self
      rw [if_pos (h.isNew hnow), List.foldl_cons]
      apply ih _ (h.cons hnow) htail
      intro b hb r hr
      rcases List.mem_cons.mp hr with heq | hr
      · obtain ⟨hclient, rfl⟩ := Prod.mk.inj heq
        exact hhead b hb hclient.symm
      · exact hlt b (List.mem_cons_of_mem _ hb) r hr

/-- Dropping by number has the effect of applying each request once, at its first
occurrence. -/
theorem foldl_receive_eq (apply : S → A → S) {as : List A} (s : S)
    (h : Ascending client number as) :
    (as.foldl (receive client number apply) ⟨s, fun _ => none⟩).state =
      (firsts client number [] as).foldl apply s := by
  apply foldl_receive apply as ⟨s, fun _ => none⟩ _ h
  · simp
  · constructor <;> simp

end ExactlyOnce
