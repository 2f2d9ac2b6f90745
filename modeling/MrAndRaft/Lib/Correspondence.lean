import Mathlib.Data.List.Forall2
import MrAndRaft.Lib.Prefix

/-! Two lists that grow and change together.  An element of the first stands for one of the
second, at a place that is remembered, or for none. -/

variable {α β : Type*}

/-- The element at `k` stands for the one at `ι k`. -/
structure Correspondence (ι : Nat → Option Nat) (Linked : Nat → α → β → Prop)
    (Alone : Nat → α → Prop) (as : List α) (bs : List β) : Prop where
  injective : ∀ k k' m, ι k = some m → ι k' = some m → k = k'
  linked : ∀ (k : Nat) (a : α) (m : Nat), as[k]? = some a → ι k = some m →
    ∃ b, bs[m]? = some b ∧ Linked k a b
  alone : ∀ (k : Nat) (a : α), as[k]? = some a → ι k = none → Alone k a

namespace Correspondence

variable {ι : Nat → Option Nat} {Linked Linked' : Nat → α → β → Prop}
  {Alone Alone' : Nat → α → Prop} {as as' : List α} {bs bs' : List β} {k m : Nat} {a a' : α}
  {b b' : β}

theorem empty (bs : List β) : Correspondence (fun _ => none) Linked Alone [] bs :=
  ⟨by simp, by simp, by simp⟩

theorem imp (h : Correspondence ι Linked Alone as bs)
    (hl : ∀ k a b, as[k]? = some a → Linked k a b → Linked' k a b)
    (ha : ∀ k a, as[k]? = some a → Alone k a → Alone' k a) :
    Correspondence ι Linked' Alone' as bs where
  injective := h.injective
  linked k a m hk hm := by
    obtain ⟨b, hb, hlink⟩ := h.linked k a m hk hm
    exact ⟨b, hb, hl k a b hk hlink⟩
  alone k a hk hnone := ha k a hk (h.alone k a hk hnone)

theorem set (h : Correspondence ι Linked Alone as bs) (hk : ι k = some m) (hm : bs[m]? = some b)
    (hlink : Linked' k a' b') (hl : ∀ k' a b, k' ≠ k → Linked k' a b → Linked' k' a b) :
    Correspondence ι Linked' Alone (as.set k a') (bs.set m b') where
  injective := h.injective
  linked k' a m' hk' hm' := by
    rcases Position.of_set hk' with ⟨rfl, rfl⟩ | ⟨hne, hk'⟩
    · cases hk.symm.trans hm'
      exact ⟨b', List.getElem?_set_self (List.getElem?_eq_some_iff.mp hm).1, hlink⟩
    · obtain ⟨b₁, hb₁, hlink₁⟩ := h.linked k' a m' hk' hm'
      have hmm : m ≠ m' := by
        rintro rfl
        exact hne (h.injective _ _ m hm' hk)
      exact ⟨b₁, by rw [List.getElem?_set_ne hmm, hb₁], hl k' a b₁ hne hlink₁⟩
  alone k' a hk' hnone := by
    rcases Position.of_set hk' with ⟨rfl, rfl⟩ | ⟨-, hk'⟩
    · exact absurd (hk.symm.trans hnone) (by simp)
    · exact h.alone k' a hk' hnone

theorem set_right (h : Correspondence ι Linked Alone as bs) (hk : as[k]? = some a)
    (hι : ι k = some m) (hm : bs[m]? = some b) (hlink : Linked' k a b')
    (hl : ∀ k' a b, k' ≠ k → Linked k' a b → Linked' k' a b) :
    Correspondence ι Linked' Alone as (bs.set m b') := by
  have hset := h.set hι hm hlink hl
  obtain ⟨hlt, rfl⟩ := List.getElem?_eq_some_iff.mp hk
  rwa [List.set_getElem_self hlt] at hset

/-- The second changes where nothing stands for it, or as the link allows. -/
theorem right (h : Correspondence ι Linked Alone as bs)
    (hb : ∀ (k m : Nat) (a : α) (b : β), as[k]? = some a → ι k = some m → bs[m]? = some b →
      Linked k a b → ∃ b', bs'[m]? = some b' ∧ Linked' k a b') :
    Correspondence ι Linked' Alone as bs' where
  injective := h.injective
  linked k a m hk hm := by
    obtain ⟨b, hbm, hlink⟩ := h.linked k a m hk hm
    exact hb k m a b hk hm hbm hlink
  alone := h.alone

theorem set_left (h : Correspondence ι Linked Alone as bs) (hk : as[k]? = some a)
    (hlink : ∀ b, Linked k a b → Linked k a' b) (halone : Alone k a → Alone k a') :
    Correspondence ι Linked Alone (as.set k a') bs where
  injective := h.injective
  linked k' a₁ m hk' hm := by
    rcases Position.of_set hk' with ⟨rfl, rfl⟩ | ⟨-, hk'⟩
    · obtain ⟨b, hb, hl⟩ := h.linked _ a m hk hm
      exact ⟨b, hb, hlink b hl⟩
    · exact h.linked k' a₁ m hk' hm
  alone k' a₁ hk' hnone := by
    rcases Position.of_set hk' with ⟨rfl, rfl⟩ | ⟨-, hk'⟩
    · exact halone (h.alone _ a hk hnone)
    · exact h.alone k' a₁ hk' hnone

theorem map {γ δ : Type*} {Linked' : Nat → γ → δ → Prop} {Alone' : Nat → γ → Prop} {f : α → γ}
    {g : β → δ} (h : Correspondence ι Linked Alone as bs)
    (hl : ∀ k a b, as[k]? = some a → Linked k a b → Linked' k (f a) (g b))
    (ha : ∀ k a, as[k]? = some a → Alone k a → Alone' k (f a)) :
    Correspondence ι Linked' Alone' (as.map f) (bs.map g) where
  injective := h.injective
  linked k c m hk hm := by
    rw [List.getElem?_map] at hk
    obtain ⟨a, hka, rfl⟩ := Option.map_eq_some_iff.mp hk
    obtain ⟨b, hb, hlink⟩ := h.linked k a m hka hm
    exact ⟨g b, by simp [hb], hl k a b hka hlink⟩
  alone k c hk hnone := by
    rw [List.getElem?_map] at hk
    obtain ⟨a, hka, rfl⟩ := Option.map_eq_some_iff.mp hk
    exact ha k a hka (h.alone k a hka hnone)

theorem map_right {δ : Type*} {Linked' : Nat → α → δ → Prop} {g : β → δ}
    (h : Correspondence ι Linked Alone as bs)
    (hl : ∀ k a b, as[k]? = some a → Linked k a b → Linked' k a (g b)) :
    Correspondence ι Linked' Alone as (bs.map g) := by
  simpa using h.map (f := id) (g := g) hl fun _ _ _ h => h

theorem append_left (h : Correspondence ι Linked Alone as bs)
    (halone : ∀ k, ∀ a ∈ as', Alone k a) :
    ∃ ι', Correspondence ι' Linked Alone (as ++ as') bs ∧
      ∀ k m, ι' k = some m → k < as.length ∧ ι k = some m := by
  refine ⟨fun k => if k < as.length then ι k else none, ⟨?_, ?_, ?_⟩, by simp⟩
  · intro k k' m hk hk'
    simp only [Option.ite_none_right_eq_some] at hk hk'
    exact h.injective k k' m hk.2 hk'.2
  · intro k a m hk hm
    split at hm
    · rename_i hlt
      exact h.linked k a m (by rwa [List.getElem?_append_left hlt] at hk) hm
    · cases hm
  · intro k a hk hnone
    rcases Position.of_append hk with hk | ⟨-, ha⟩
    · rw [if_pos (List.getElem?_eq_some_iff.mp hk).1] at hnone
      exact h.alone k a hk hnone
    · exact halone k a ha

theorem link (h : Correspondence ι Linked Alone as bs) (hm : bs[m]? = some b)
    (hfree : ∀ k < as.length, ι k ≠ some m) (hlink : ∀ k, Linked k a b) :
    ∃ ι', Correspondence ι' Linked Alone (as ++ [a]) bs ∧
      ∀ k m', ι' k = some m' → (k < as.length ∧ ι k = some m') ∨ m' = m := by
  have hcases {k m'} (hk : (if k < as.length then ι k else if k = as.length then some m else none) =
      some m') : k < as.length ∧ ι k = some m' ∨ k = as.length ∧ m' = m := by
    split at hk
    · exact .inl ⟨‹_›, hk⟩
    · simp only [Option.ite_none_right_eq_some, Option.some.injEq] at hk
      exact .inr ⟨hk.1, hk.2.symm⟩
  refine ⟨fun k => if k < as.length then ι k else if k = as.length then some m else none,
    ⟨?_, ?_, ?_⟩, fun k m' hk => (hcases hk).imp_right (·.2)⟩
  · intro k k' m' hk hk'
    rcases hcases hk with ⟨hlt, hk⟩ | ⟨hlen, rfl⟩ <;>
      rcases hcases hk' with ⟨hlt', hk'⟩ | ⟨hlen', hm'⟩
    · exact h.injective k k' m' hk hk'
    · exact absurd (hm' ▸ hk) (hfree k hlt)
    · exact absurd hk' (hfree k' hlt')
    · exact hlen.trans hlen'.symm
  · intro k a' m' hk hm'
    rcases hcases hm' with ⟨hlt, hm'⟩ | ⟨rfl, rfl⟩
    · exact h.linked k a' m' (by rwa [List.getElem?_append_left hlt] at hk) hm'
    · rw [List.getElem?_concat_length] at hk
      cases hk
      exact ⟨b, hm, hlink _⟩
  · intro k a' hk hnone
    rcases Position.of_concat hk with hk | ⟨rfl, rfl⟩
    · rw [if_pos (List.getElem?_eq_some_iff.mp hk).1] at hnone
      exact h.alone k a' hk hnone
    · simp at hnone

theorem exists_of_forall₂ {P : α → β → Prop} (h : List.Forall₂ P as bs) (hk : as[k]? = some a) :
    ∃ b, bs[k]? = some b ∧ P a b := by
  induction h generalizing k with
  | nil => simp at hk
  | cons hab _ ih =>
    cases k with
    | zero =>
      cases hk
      exact ⟨_, rfl, hab⟩
    | succ k => exact ih hk

theorem forall₂_eraseIdx {P : α → β → Prop} {i : Nat} (h : List.Forall₂ P as bs) (hbs : bs.Nodup)
    (hi : bs[i]? = some b) :
    List.Forall₂ (fun a b' => b' ≠ b ∧ P a b') (as.eraseIdx i) (bs.eraseIdx i) := by
  induction h generalizing i with
  | nil => simp at hi
  | @cons a b₀ as bs hab hrest ih =>
    obtain ⟨hb₀, hbs⟩ := List.nodup_cons.mp hbs
    cases i with
    | zero =>
      obtain rfl : b₀ = b := Option.some.inj hi
      have hne : ∀ b' ∈ bs, b' ≠ b₀ := fun b' hb' heq => hb₀ (heq ▸ hb')
      exact ((List.forall₂_and_left bs as).mpr ⟨hne, hrest.flip⟩).flip
    | succ i =>
      refine .cons ⟨?_, hab⟩ (ih hbs hi)
      rintro rfl
      exact hb₀ (List.mem_of_getElem? hi)

theorem append (h : Correspondence ι Linked Alone as bs)
    (hnew : ∀ k, List.Forall₂ (Linked k) as' bs') :
    ∃ ι', Correspondence ι' Linked Alone (as ++ as') (bs ++ bs') := by
  refine ⟨fun k => if k < as.length then ι k else some (bs.length + (k - as.length)), ?_, ?_, ?_⟩
  · intro k k' m hk hk'
    have hold {k} (hlt : k < as.length) (hk : ι k = some m) : m < bs.length := by
      obtain ⟨b, hb, -⟩ := h.linked k _ m (List.getElem?_eq_getElem hlt) hk
      exact (List.getElem?_eq_some_iff.mp hb).1
    split at hk <;> split at hk'
    · exact h.injective k k' m hk hk'
    · have := hold ‹_› hk
      have := Option.some.inj hk'
      omega
    · have := hold ‹_› hk'
      have := Option.some.inj hk
      omega
    · have := Option.some.inj hk
      have := Option.some.inj hk'
      omega
  · intro k a m hk hm
    split at hm
    · rename_i hlt
      rw [List.getElem?_append_left hlt] at hk
      obtain ⟨b, hb, hlink⟩ := h.linked k a m hk hm
      exact ⟨b, by rw [List.getElem?_append_left (List.getElem?_eq_some_iff.mp hb).1, hb], hlink⟩
    · rename_i hge
      obtain rfl := Option.some.inj hm
      rw [List.getElem?_append_right (by omega)] at hk
      obtain ⟨b, hb, hlink⟩ := exists_of_forall₂ (hnew k) hk
      refine ⟨b, ?_, hlink⟩
      rw [List.getElem?_append_right (by omega), Nat.add_sub_cancel_left, hb]
  · intro k a hk hnone
    split at hnone
    · rename_i hlt
      exact h.alone k a (by rwa [List.getElem?_append_left hlt] at hk) hnone
    · cases hnone

end Correspondence
