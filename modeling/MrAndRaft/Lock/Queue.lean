import Mathlib.Data.List.Induction
import Mathlib.Data.Nat.Find
import MrAndRaft.Lib.Prefix
import MrAndRaft.Lock.Store

/-! The lock store against its history: for every key a queue of the clients whose
last `unlock` came before a `lock`, in the order of the first such `lock`. -/

namespace MrAndRaft.RaftLock

inductive StoreCall (K ID : Type) where
  | lock (key : K) (id : ID)
  | unlock (key : K) (id : ID)
  deriving DecidableEq, Repr

variable {K ID : Type}

@[simp] def StoreCall.key : StoreCall K ID → K
  | .lock key _ => key
  | .unlock key _ => key

def Requested (history : List (StoreCall K ID)) (key : K) (id : ID) (i : Nat) : Prop :=
  history[i]? = some (.lock key id) ∧ ∀ j, i < j → history[j]? ≠ some (.unlock key id)

/-- Call `i` is the first `lock` of the key after the client's latest `unlock` of it. -/
def QueuedAt (history : List (StoreCall K ID)) (key : K) (id : ID) (i : Nat) : Prop :=
  Requested history key id i ∧ ∀ j < i, ¬ Requested history key id j

section History

variable {history : List (StoreCall K ID)} {c : StoreCall K ID} {key : K} {id : ID} {i : Nat}

theorem Requested.lt_length (h : Requested history key id i) : i < history.length :=
  (List.getElem?_eq_some_iff.mp h.1).1

theorem requested_concat : Requested (history ++ [c]) key id i ↔
    c ≠ .unlock key id ∧ (Requested history key id i ∨ i = history.length ∧ c = .lock key id) := by
  constructor
  · rintro ⟨hlock, hkept⟩
    have hne : c ≠ .unlock key id := by
      rintro rfl
      rcases Position.of_concat hlock with hlock | ⟨-, hlock⟩
      · exact hkept history.length (List.getElem?_eq_some_iff.mp hlock).1 List.getElem?_concat_length
      · cases hlock
    refine ⟨hne, (Position.of_concat hlock).imp (fun hlock => ⟨hlock, fun j hj hunlock => ?_⟩)
      fun ⟨hi, hc⟩ => ⟨hi, hc.symm⟩⟩
    exact hkept j hj (Prefix.getElem? (List.prefix_append _ _) hunlock)
  · rintro ⟨hne, ⟨hlock, hkept⟩ | ⟨rfl, rfl⟩⟩
    · refine ⟨Prefix.getElem? (List.prefix_append _ _) hlock, fun j hj hunlock => ?_⟩
      rcases Position.of_concat hunlock with hunlock | ⟨-, hunlock⟩
      · exact hkept j hj hunlock
      · exact hne hunlock.symm
    · refine ⟨List.getElem?_concat_length, fun j hj hunlock => ?_⟩
      have hlt := (List.getElem?_eq_some_iff.mp hunlock).1
      rw [List.length_append, List.length_singleton] at hlt
      omega

theorem QueuedAt.concat (h : QueuedAt history key id i) (hc : c ≠ .unlock key id) :
    QueuedAt (history ++ [c]) key id i := by
  refine ⟨requested_concat.mpr ⟨hc, .inl h.1⟩, fun j hj hreq => ?_⟩
  rcases (requested_concat.mp hreq).2 with hreq | ⟨rfl, -⟩
  · exact h.2 j hj hreq
  · exact absurd (hj.trans h.1.lt_length) (Nat.lt_irrefl _)

theorem queuedAt_length (h : ∀ i, ¬ Requested history key id i) :
    QueuedAt (history ++ [.lock key id]) key id history.length := by
  refine ⟨requested_concat.mpr ⟨by simp, .inr ⟨rfl, rfl⟩⟩, fun j hj hreq => ?_⟩
  rcases (requested_concat.mp hreq).2 with hreq | ⟨rfl, -⟩
  · exact h j hreq
  · exact absurd hj (Nat.lt_irrefl _)

theorem exists_queuedAt (h : ∃ i, Requested history key id i) : ∃ i, QueuedAt history key id i := by
  classical
  exact ⟨Nat.find h, Nat.find_spec h, fun _ hj => Nat.find_min h hj⟩

end History

/-- The clients of a key: those that have asked for it since they last gave it up, in the
order in which they did. -/
structure Queue (history : List (StoreCall K ID)) (key : K) (ids : List ID) : Prop where
  nodup : ids.Nodup
  mem : ∀ id, id ∈ ids ↔ ∃ i, Requested history key id i
  order : ids.Pairwise fun a b =>
    ∃ i j, QueuedAt history key a i ∧ QueuedAt history key b j ∧ i < j

namespace Queue

variable {history : List (StoreCall K ID)} {c : StoreCall K ID} {key : K} {id : ID} {ids : List ID}

theorem nil (key : K) : Queue ([] : List (StoreCall K ID)) key [] :=
  ⟨.nil, by simp [Requested], .nil⟩

theorem order_concat (h : Queue history key ids) (hc : ∀ a ∈ ids, c ≠ .unlock key a) :
    ids.Pairwise fun a b =>
      ∃ i j, QueuedAt (history ++ [c]) key a i ∧ QueuedAt (history ++ [c]) key b j ∧ i < j := by
  refine h.order.imp_of_mem fun ha hb => ?_
  rintro ⟨i, j, hi, hj, hij⟩
  exact ⟨i, j, hi.concat (hc _ ha), hj.concat (hc _ hb), hij⟩

theorem other (h : Queue history key ids) (hc : c.key ≠ key) : Queue (history ++ [c]) key ids := by
  have hunlock : ∀ a, c ≠ .unlock key a := by
    rintro a rfl
    exact hc rfl
  have hlock : ∀ a, c ≠ .lock key a := by
    rintro a rfl
    exact hc rfl
  refine ⟨h.nodup, fun a => ?_, h.order_concat fun a _ => hunlock a⟩
  simp [requested_concat, h.mem, hunlock a, hlock a]

theorem lockAgain (h : Queue history key ids) (hid : id ∈ ids) :
    Queue (history ++ [.lock key id]) key ids := by
  refine ⟨h.nodup, fun a => ?_, h.order_concat fun a _ => by simp⟩
  rw [h.mem]
  constructor
  · rintro ⟨i, hi⟩
    exact ⟨i, requested_concat.mpr ⟨by simp, .inl hi⟩⟩
  · rintro ⟨i, hi⟩
    rcases (requested_concat.mp hi).2 with hi | ⟨-, heq⟩
    · exact ⟨i, hi⟩
    · cases heq
      exact (h.mem id).mp hid

theorem lockFirst (h : Queue history key ids) (hid : id ∉ ids) :
    Queue (history ++ [.lock key id]) key (ids ++ [id]) := by
  have hnew : ∀ i, ¬ Requested history key id i := fun i hi => hid ((h.mem id).mpr ⟨i, hi⟩)
  refine ⟨?_, fun a => ?_, ?_⟩
  · exact List.nodup_append.mpr ⟨h.nodup, by simp, by
      rintro a ha b hb rfl
      exact hid (List.mem_singleton.mp hb ▸ ha)⟩
  · rw [List.mem_append, List.mem_singleton, h.mem]
    constructor
    · rintro (⟨i, hi⟩ | rfl)
      · exact ⟨i, requested_concat.mpr ⟨by simp, .inl hi⟩⟩
      · exact ⟨_, (queuedAt_length hnew).1⟩
    · rintro ⟨i, hi⟩
      rcases (requested_concat.mp hi).2 with hi | ⟨-, heq⟩
      · exact .inl ⟨i, hi⟩
      · cases heq
        exact .inr rfl
  · refine List.pairwise_append.mpr ⟨h.order_concat fun a _ => by simp, by simp, fun a ha b hb => ?_⟩
    obtain rfl := List.mem_singleton.mp hb
    obtain ⟨i, hi⟩ := exists_queuedAt ((h.mem a).mp ha)
    exact ⟨i, history.length, hi.concat (by simp), queuedAt_length hnew, hi.1.lt_length⟩

theorem unlock [DecidableEq ID] (h : Queue history key ids) (id : ID) :
    Queue (history ++ [.unlock key id]) key (ids.filter (id ≠ ·)) := by
  have hkept : ∀ a, id ≠ a → StoreCall.unlock key id ≠ .unlock key a := by
    rintro a hne heq
    cases heq
    exact hne rfl
  refine ⟨h.nodup.filter _, fun a => ?_, ?_⟩
  · rw [List.mem_filter, decide_eq_true_iff, h.mem]
    constructor
    · rintro ⟨⟨i, hi⟩, hne⟩
      exact ⟨i, requested_concat.mpr ⟨hkept a hne, .inl hi⟩⟩
    · rintro ⟨i, hi⟩
      obtain ⟨hne, hi | ⟨-, heq⟩⟩ := requested_concat.mp hi
      · exact ⟨⟨i, hi⟩, fun heq => hne (heq ▸ rfl)⟩
      · cases heq
  · refine (h.order.filter _).imp_of_mem fun ha hb => ?_
    rintro ⟨i, j, hi, hj, hij⟩
    have hne : ∀ {a}, a ∈ ids.filter (id ≠ ·) → id ≠ a := fun ha =>
      of_decide_eq_true (List.mem_filter.mp ha).2
    exact ⟨i, j, hi.concat (hkept _ (hne ha)), hj.concat (hkept _ (hne hb)), hij⟩

end Queue

namespace LockStore

variable [DecidableEq K] [DecidableEq ID]

def call (store : LockStore K ID) : StoreCall K ID → LockStore K ID
  | .lock key id => store.lock key id
  | .unlock key id => store.unlock key id

def after (history : List (StoreCall K ID)) : LockStore K ID := history.foldl call empty

theorem after_concat (history : List (StoreCall K ID)) (c : StoreCall K ID) :
    after (history ++ [c]) = (after history).call c := by
  simp [after]

theorem ids_call_of_ne (store : LockStore K ID) {c : StoreCall K ID} {key : K} (h : c.key ≠ key) :
    (store.call c).ids key = store.ids key := by
  cases c with
  | lock key' id =>
    have hne : key ≠ key' := Ne.symm h
    simp [call, hne]
  | unlock key' id =>
    have hne : key ≠ key' := Ne.symm h
    simp [call, hne]

theorem queue_call {store : LockStore K ID} {history : List (StoreCall K ID)} {key : K}
    (h : Queue history key (store.ids key)) (c : StoreCall K ID) :
    Queue (history ++ [c]) key ((store.call c).ids key) := by
  by_cases hc : c.key = key
  · subst hc
    cases c with
    | lock key id =>
      rw [StoreCall.key] at h ⊢
      by_cases hid : id ∈ store.ids key
      · simpa [call, hid] using h.lockAgain hid
      · simpa [call, hid] using h.lockFirst hid
    | unlock key id =>
      rw [StoreCall.key] at h ⊢
      simpa [call] using h.unlock id
  · rw [ids_call_of_ne store hc]
    exact h.other hc

theorem queue_after (history : List (StoreCall K ID)) (key : K) :
    Queue history key ((after history).ids key) := by
  induction history using List.reverseRecOn with
  | nil => exact Queue.nil key
  | append_singleton history c ih =>
    rw [after_concat]
    exact queue_call ih c

theorem ids_call_congr {store store' : LockStore K ID} {key : K}
    (h : store.ids key = store'.ids key) (c : StoreCall K ID) :
    (store.call c).ids key = (store'.call c).ids key := by
  cases c with
  | lock key' id => by_cases hk : key = key' <;> simp_all [call]
  | unlock key' id => by_cases hk : key = key' <;> simp_all [call]

theorem ids_after_filter (history : List (StoreCall K ID)) (key : K) :
    (after (history.filter (·.key = key))).ids key = (after history).ids key := by
  induction history using List.reverseRecOn with
  | nil => rfl
  | append_singleton history c ih =>
    rw [List.filter_append, after_concat]
    by_cases hc : c.key = key
    · simp only [hc, decide_true, List.filter_cons_of_pos, List.filter_nil, after_concat]
      exact ids_call_congr ih c
    · simp only [hc, decide_false, Bool.false_eq_true, not_false_eq_true, List.filter_cons_of_neg,
        List.filter_nil, List.append_nil, ids_call_of_ne _ hc]
      exact ih

theorem after_fifo [Inhabited ID] (history : List (StoreCall K ID)) (key : K) :
    Queue history key ((after history).ids key) ∧
    (after history).map key =
      (if (after history).ids key = [] then none else some ((after history).ids key)) ∧
    (after history).map key ≠ some [] ∧
    (∀ id ids, (after history).ids key = id :: ids →
      (after history).getLockOwner key = (id, true)) ∧
    ((after history).ids key = [] → (after history).getLockOwner key = (default, false)) ∧
    (after history).map key = (after (history.filter (·.key = key))).map key := by
  refine ⟨queue_after history key, map_eq _ key, (after history).nonempty key, ?_, ?_, ?_⟩
  · intro id ids h
    simp [getLockOwner_eq, h]
  · intro h
    simp [getLockOwner_eq, h]
  · rw [map_eq, map_eq, ids_after_filter]

end LockStore

end MrAndRaft.RaftLock
