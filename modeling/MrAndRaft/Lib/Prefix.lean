import Mathlib.Data.List.Infix

/-! Prefixes of lists, what splicing one list onto another keeps of them, and where an
element of a changed list comes from. -/

universe u

namespace Prefix

variable {α : Type u} {P L log : List α}

theorem getElem? {i : Nat} {a : α} (h : P <+: L) (hi : P[i]? = some a) : L[i]? = some a := by
  obtain ⟨R, rfl⟩ := h
  obtain ⟨hlt, -⟩ := List.getElem?_eq_some_iff.mp hi
  rw [List.getElem?_append_left hlt, hi]

theorem getElem?_eq {i : Nat} (h : P <+: L) (hi : i < P.length) : L[i]? = P[i]? := by
  obtain ⟨R, rfl⟩ := h
  exact List.getElem?_append_left hi

theorem of_le {Q : List α} (hP : P <+: L) (hQ : Q <+: L) (h : P.length ≤ Q.length) : P <+: Q :=
  List.prefix_of_prefix_length_le hP hQ h

theorem of_comparable {Q R : List α} (hP : P <+: L) (hQ : Q <+: R) (hLR : L <+: R ∨ R <+: L)
    (h : P.length ≤ Q.length) : P <+: Q := by
  rcases hLR with hLR | hLR
  · exact of_le (hP.trans hLR) hQ h
  · exact of_le hP (hQ.trans hLR) h

theorem take_eq {k : Nat} (h : P <+: L) (hk : k ≤ P.length) : L.take k = P.take k := by
  obtain ⟨R, rfl⟩ := h
  rw [List.take_append_of_le_length hk]

theorem exists_longest {Ls : List (List α)} (h : ∀ L ∈ Ls, ∀ R ∈ Ls, L <+: R ∨ R <+: L) :
    ∃ P, (P = [] ∨ P ∈ Ls) ∧ ∀ L ∈ Ls, L <+: P := by
  induction Ls with
  | nil => exact ⟨[], .inl rfl, by simp⟩
  | cons L Ls ih =>
    obtain ⟨P, hP, hall⟩ := ih fun L hL R hR => h L (.tail _ hL) R (.tail _ hR)
    have hLP : L <+: P ∨ P <+: L := by
      rcases hP with rfl | hP
      · exact .inr List.nil_prefix
      · exact h L (.head _) P (.tail _ hP)
    rcases hLP with hLP | hPL
    · exact ⟨P, hP.imp_right (.tail _), List.forall_mem_cons.mpr ⟨hLP, hall⟩⟩
    · refine ⟨L, .inr (.head _), List.forall_mem_cons.mpr ⟨List.prefix_rfl, fun R hR => ?_⟩⟩
      exact (hall R hR).trans hPL

theorem length_le_of_ne {k : Nat} (hlog : P <+: log) (hL : P <+: L) (h : log[k]? ≠ L[k]?) :
    P.length ≤ k := by
  by_contra hk
  exact h ((getElem?_eq hlog (by omega)).trans (getElem?_eq hL (by omega)).symm)

theorem rel_last {R : α → α → Prop} (hrefl : ∀ a, R a a) (h : L.Pairwise R) {i : Nat} {a b : α}
    (ha : L[i]? = some a) (hb : L[L.length - 1]? = some b) : R a b := by
  obtain ⟨hi, rfl⟩ := List.getElem?_eq_some_iff.mp ha
  obtain ⟨hj, rfl⟩ := List.getElem?_eq_some_iff.mp hb
  rcases Nat.lt_or_eq_of_le (Nat.le_sub_one_of_lt hi) with hlt | heq
  · exact List.pairwise_iff_getElem.mp h i _ hi hj hlt
  · simp only [heq]
    exact hrefl _

end Prefix

namespace Position

variable {α : Type u} {l r : List α} {i k : Nat} {a b : α}

theorem of_append (h : (l ++ r)[i]? = some b) : l[i]? = some b ∨ l.length ≤ i ∧ b ∈ r := by
  rcases Nat.lt_or_ge i l.length with hi | hi
  · rw [List.getElem?_append_left hi] at h
    exact .inl h
  · rw [List.getElem?_append_right hi] at h
    exact .inr ⟨hi, List.mem_of_getElem? h⟩

theorem of_concat (h : (l ++ [a])[i]? = some b) : l[i]? = some b ∨ i = l.length ∧ b = a := by
  refine (of_append h).imp_right fun ⟨hi, hb⟩ => ⟨?_, List.mem_singleton.mp hb⟩
  have hlt := (List.getElem?_eq_some_iff.mp h).1
  rw [List.length_append, List.length_singleton] at hlt
  omega

theorem of_set (h : (l.set k a)[i]? = some b) : i = k ∧ b = a ∨ i ≠ k ∧ l[i]? = some b := by
  by_cases hik : i = k
  · subst hik
    obtain ⟨hlt, hb⟩ := List.getElem?_eq_some_iff.mp h
    exact .inl ⟨rfl, by simpa using hb.symm⟩
  · rw [List.getElem?_set_ne (Ne.symm hik)] at h
    exact .inr ⟨hik, h⟩

end Position
