import Mathlib.Data.Fintype.Fin
import Mathlib.Order.Bounds.Basic
import Mathlib.Order.Interval.Set.Defs

/-! Majorities of a finite set of voters, and a counter that follows them: it jumps to the greatest
element of a set, and stays where it is when the set has none from there on. -/

namespace Quorum

variable {α : Type*} [Fintype α] [DecidableEq α]

def Majority (A : Finset α) : Prop := Fintype.card α < 2 * A.card

theorem Majority.meet {A B : Finset α} (hA : Majority A) (hB : Majority B) :
    ∃ x, x ∈ A ∧ x ∈ B := by
  have hcard : (Finset.univ : Finset α).card < A.card + B.card := by
    unfold Majority at hA hB
    rw [Finset.card_univ]
    omega
  obtain ⟨x, hx⟩ := Finset.inter_nonempty_of_card_lt_card_add_card
    (Finset.subset_univ A) (Finset.subset_univ B) hcard
  exact ⟨x, Finset.mem_inter.mp hx⟩

theorem majority_of_half_lt {n : Nat} {A : Finset (Fin n)} (h : n / 2 < A.card) : Majority A := by
  unfold Majority
  rw [Fintype.card_fin]
  omega

theorem card_filter_get {β : Type*} (l : List β) (p : β → Bool) :
    (Finset.univ.filter fun i : Fin l.length => p (l.get i)).card = l.countP p := by
  induction l with
  | nil => simp
  | cons b l ih =>
    have h := Fin.card_filter_univ_succ fun i : Fin (l.length + 1) => p ((b :: l).get i) = true
    rw [List.countP_cons, ← ih]
    refine h.trans ?_
    cases hb : p b <;> simp [hb]

theorem exists_card_eq_countP {n : Nat} (l : List Nat) (p : Nat → Bool) (hl : l.length = n) :
    ∃ A : Finset (Fin n), A.card = l.countP p ∧ ∀ i ∈ A, ∃ m, l[i.val]? = some m ∧ p m := by
  subst hl
  refine ⟨Finset.univ.filter fun i => p (l.get i), card_filter_get l p, fun i hi => ?_⟩
  exact ⟨l.get i, by simp, (Finset.mem_filter.mp hi).2⟩

end Quorum

namespace MrAndRaft

variable {α : Type} [LinearOrder α] {P Q : Set α} {a b c x : α}

inductive GreatestFrom (P : Set α) (a b : α) : Prop where
  | greatest : IsGreatest (P ∩ Set.Ici a) b → GreatestFrom P a b
  | stays : (∀ x ∈ P, x < a) → b = a → GreatestFrom P a b

namespace GreatestFrom

theorem le (h : GreatestFrom P a b) : a ≤ b := by
  cases h with
  | greatest h => exact h.1.2
  | stays _ heq => exact heq.ge

theorem le_of_mem (h : GreatestFrom P a b) (hx : x ∈ P) : x ≤ b := by
  cases h with
  | greatest h =>
    by_cases hax : a ≤ x
    · exact h.2 ⟨hx, hax⟩
    · exact (not_le.mp hax).le.trans h.1.2
  | stays hlt heq => exact (hlt x hx).le.trans heq.ge

theorem unique (h : GreatestFrom P a b) (h' : GreatestFrom P a c) : b = c := by
  cases h with
  | greatest h =>
    cases h' with
    | greatest h' => exact h.unique h'
    | stays hlt _ => exact absurd (hlt b h.1.1) (not_lt.mpr h.1.2)
  | stays hlt heq =>
    cases h' with
    | greatest h' => exact absurd (hlt c h'.1.1) (not_lt.mpr h'.1.2)
    | stays _ heq' => exact heq.trans heq'.symm

theorem trans (h : GreatestFrom P a b) (hsub : P ⊆ Q) (h' : GreatestFrom Q b c) :
    GreatestFrom Q a c := by
  cases h with
  | stays _ heq => exact heq ▸ h'
  | greatest h =>
    cases h' with
    | greatest h' =>
      refine .greatest ⟨⟨h'.1.1, h.1.2.trans h'.1.2⟩, fun x hx => ?_⟩
      exact GreatestFrom.le_of_mem (.greatest h') hx.1
    | stays hlt _ => exact absurd (hlt b (hsub h.1.1)) (lt_irrefl b)

end GreatestFrom

end MrAndRaft
