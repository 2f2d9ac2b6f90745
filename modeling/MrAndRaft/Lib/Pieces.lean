import Mathlib.Algebra.BigOperators.Group.Finset.Piecewise
import Mathlib.Data.Finset.Basic
import Mathlib.Data.Multiset.Bind
import Mathlib.Data.Multiset.Dedup

/-! Lists cut into pieces: where a key changes, and after a separator. -/

universe u v

namespace Pieces

section Runs

variable {α : Type u} {κ : Type v} [DecidableEq κ] (key : α → κ) (lt : κ → κ → Prop)

/-- `acc` is the run read so far, with key `k`. -/
def runsFrom (k : κ) (acc : List α) : List α → List (κ × List α)
  | [] => [(k, acc)]
  | x :: xs =>
    if key x = k then runsFrom k (acc ++ [x]) xs else (k, acc) :: runsFrom (key x) [x] xs

def runs : List α → List (κ × List α)
  | [] => []
  | x :: xs => runsFrom key (key x) [x] xs

def byKey (xs : List α) : Multiset (κ × List α) :=
  (xs.map key).toFinset.val.map fun k => (k, xs.filter (key · = k))

variable {key} {lt} {k : κ} {acc xs : List α}

theorem map_filter_cons (x : α) (s : Finset κ) :
    ((s.erase (key x)).val.map fun k => (k, (x :: xs).filter (key · = k))) =
      (s.erase (key x)).val.map fun k => (k, xs.filter (key · = k)) := by
  refine Multiset.map_congr rfl fun k hk => ?_
  have hne : key x ≠ k := Ne.symm (Finset.ne_of_mem_erase (Finset.mem_val.mp hk))
  simp [hne]

theorem byKey_cons (x : α) :
    byKey key (x :: xs) = (key x, x :: xs.filter (key · = key x)) ::ₘ
      ((xs.map key).toFinset.erase (key x)).val.map fun k => (k, xs.filter (key · = k)) := by
  have hkeys : ((x :: xs).map key).toFinset.val =
      key x ::ₘ ((xs.map key).toFinset.erase (key x)).val := by
    rw [← Finset.insert_val_of_notMem (Finset.notMem_erase _ _), ← Finset.erase_insert_eq_erase,
      Finset.insert_erase (Finset.mem_insert_self _ _), List.map_cons, List.toFinset_cons]
  rw [byKey, hkeys, Multiset.map_cons, map_filter_cons]
  simp

theorem map_byKey_perm {β : Type*} {f : κ → List α → β} {ys : List α}
    (hf : ∀ k g g', g.Perm g' → f k g = f k g') (h : xs.Perm ys) :
    (byKey key xs).map (fun p => f p.1 p.2) = (byKey key ys).map fun p => f p.1 p.2 := by
  rw [byKey, byKey, Multiset.map_map, Multiset.map_map,
    List.toFinset_eq_of_perm _ _ (h.map key)]
  exact Multiset.map_congr rfl fun k _ => hf k _ _ (h.filter _)

theorem byKey_filter (p : κ → Prop) [DecidablePred p] (xs : List α) :
    byKey key (xs.filter fun x => p (key x)) = (byKey key xs).filter fun q => p q.1 := by
  have hkeys : ((xs.filter fun x => p (key x)).map key).toFinset = (xs.map key).toFinset.filter p := by
    ext k
    simp only [List.mem_toFinset, List.mem_map, List.mem_filter, decide_eq_true_eq, Finset.mem_filter]
    constructor
    · rintro ⟨x, ⟨hx, hp⟩, rfl⟩
      exact ⟨⟨x, hx, rfl⟩, hp⟩
    · rintro ⟨⟨x, hx, rfl⟩, hp⟩
      exact ⟨x, ⟨hx, hp⟩, rfl⟩
  rw [byKey, byKey, Multiset.filter_map, hkeys, Finset.filter_val]
  refine Multiset.map_congr rfl fun k hk => ?_
  have hp : p k := (Multiset.mem_filter.mp hk).2
  rw [List.filter_filter]
  refine congrArg (Prod.mk k) (List.filter_congr fun x _ => ?_)
  by_cases hx : key x = k
  · simp [hx, hp]
  · simp [hx]

variable [Std.Trichotomous lt]

theorem runsFrom_eq (hk : ∀ x ∈ xs, ¬ lt (key x) k)
    (hxs : xs.Pairwise fun x y => ¬ lt (key y) (key x)) :
    (runsFrom key k acc xs : Multiset (κ × List α)) =
      (k, acc ++ xs.filter (key · = k)) ::ₘ
        ((xs.map key).toFinset.erase k).val.map fun k' => (k', xs.filter (key · = k')) := by
  induction xs generalizing k acc with
  | nil => simp [runsFrom]
  | cons x xs ih =>
    obtain ⟨hx, hxs⟩ := List.pairwise_cons.mp hxs
    by_cases hkx : key x = k
    · subst hkx
      rw [runsFrom, if_pos rfl, ih hx hxs, map_filter_cons]
      simp
    · -- every later key is above `k`, so the run of `k` is over
      have hlt : lt k (key x) := by
        rcases trichotomous_of lt k (key x) with h | h | h
        · exact h
        · exact absurd h.symm hkx
        · exact absurd h (hk x List.mem_cons_self)
      have hne : ∀ y ∈ x :: xs, key y ≠ k := by
        rintro y hy rfl
        rcases List.mem_cons.mp hy with rfl | hy
        · exact hkx rfl
        · exact hx y hy hlt
      have hnone : (x :: xs).filter (key · = k) = [] := by
        rw [List.filter_eq_nil_iff]
        intro y hy
        simpa using hne y hy
      have hkeys : k ∉ ((x :: xs).map key).toFinset := by
        rw [List.mem_toFinset, List.mem_map]
        rintro ⟨y, hy, hyk⟩
        exact hne y hy hyk
      rw [runsFrom, if_neg hkx, hnone, List.append_nil, ← Multiset.cons_coe, ih hx hxs,
        Finset.erase_eq_of_notMem hkeys]
      exact congrArg _ (byKey_cons x).symm

theorem runs_eq (hxs : xs.Pairwise fun x y => ¬ lt (key y) (key x)) :
    (runs key xs : Multiset (κ × List α)) = byKey key xs := by
  cases xs with
  | nil => rfl
  | cons x xs =>
    obtain ⟨hx, hxs⟩ := List.pairwise_cons.mp hxs
    rw [runs, runsFrom_eq hx hxs, byKey_cons]
    rfl

end Runs

theorem bind_filter {α : Type u} {n : Nat} {h : α → Nat} {m : Multiset α} (hlt : ∀ a ∈ m, h a < n) :
    ((Multiset.range n).bind fun r => m.filter fun a => h a = r) = m := by
  classical
  ext a
  rw [Multiset.count_bind]
  by_cases ha : a ∈ m
  · have hmem : h a ∈ Finset.range n := Finset.mem_range.mpr (hlt a ha)
    simp only [Multiset.count_filter]
    exact (Finset.sum_ite_eq (Finset.range n) (h a) fun _ => m.count a).trans (if_pos hmem)
  · have hnone : ∀ r, (m.filter fun a => h a = r).count a = 0 := by
      intro r
      rw [Multiset.count_eq_zero]
      exact fun hr => ha (Multiset.mem_of_mem_filter hr)
    simp [hnone, Multiset.count_eq_zero_of_notMem ha]

section Lines

variable {B : Type u} [DecidableEq B] (nl : B)

def linesFrom (acc : List B) : List B → List (List B)
  | [] => if acc = [] then [] else [acc]
  | b :: bs => if b = nl then acc :: linesFrom [] bs else linesFrom (acc ++ [b]) bs

/-- The lines of a text; what follows the last separator is a line if there is any. -/
def lines : List B → List (List B) := linesFrom nl []

variable {nl}

theorem linesFrom_append (acc bs cs : List B) :
    linesFrom nl acc (bs ++ [nl] ++ cs) = linesFrom nl acc (bs ++ [nl]) ++ lines nl cs := by
  induction bs generalizing acc with
  | nil => simp [linesFrom, lines]
  | cons b bs ih =>
    by_cases hb : b = nl
    · simpa [linesFrom, hb] using ih []
    · simpa [linesFrom, hb] using ih (acc ++ [b])

theorem lines_flatten {texts : List (List B)} (h : ∀ t ∈ texts, ∃ bs, t = bs ++ [nl]) :
    lines nl texts.flatten = texts.flatMap (lines nl) := by
  induction texts with
  | nil => rfl
  | cons t texts ih =>
    obtain ⟨bs, rfl⟩ := h t List.mem_cons_self
    rw [List.flatten_cons, lines, linesFrom_append, ih fun t ht => h t (List.mem_cons_of_mem _ ht)]
    rfl

end Lines

end Pieces
