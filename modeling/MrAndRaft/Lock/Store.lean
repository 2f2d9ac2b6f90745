import Mathlib.Data.List.Basic
import Mathlib.Logic.Function.Basic

/-! The lock store: for every key, the clients that asked for it, in order.  The
first one owns the lock. -/

namespace MrAndRaft.RaftLock

/-- A Go map of slices; an absent key is `none`. -/
abbrev MultiMap (K V : Type) := K → Option (List V)

namespace MultiMap

variable {K V : Type} [DecidableEq K] (m : MultiMap K V)

omit [DecidableEq K] in
def get (key : K) : List V := (m key).getD []

def put (key : K) (val : V) : MultiMap K V :=
  Function.update m key (some (m.get key ++ [val]))

def cleanEmpty (key : K) : MultiMap K V :=
  match m key with
  | some [] => Function.update m key none
  | _ => m

def filter (key : K) (keepWhenTrue : V → Bool) : MultiMap K V :=
  cleanEmpty (Function.update m key (some ((m.get key).filter keepWhenTrue))) key

@[simp] theorem get_put (key key' : K) (val : V) :
    (m.put key val).get key' = if key' = key then m.get key ++ [val] else m.get key' := by
  by_cases h : key' = key
  · subst h
    simp [put, get]
  · simp [put, get, h]

theorem cleanEmpty_of_nil {key : K} (h : m key = some []) :
    m.cleanEmpty key = Function.update m key none := by
  simp [cleanEmpty, h]

theorem cleanEmpty_of_ne_nil {key : K} (h : m key ≠ some []) : m.cleanEmpty key = m := by
  unfold cleanEmpty
  split
  · contradiction
  · rfl

@[simp] theorem get_cleanEmpty (key key' : K) : (m.cleanEmpty key).get key' = m.get key' := by
  by_cases hm : m key = some []
  · rw [cleanEmpty_of_nil m hm]
    by_cases h : key' = key
    · subst h
      simp [get, hm]
    · simp [get, h]
  · rw [cleanEmpty_of_ne_nil m hm]

@[simp] theorem get_filter (key key' : K) (keep : V → Bool) :
    (m.filter key keep).get key' =
      if key' = key then (m.get key).filter keep else m.get key' := by
  rw [filter, get_cleanEmpty]
  by_cases h : key' = key
  · subst h
    simp [get]
  · simp [get, h]

theorem put_ne_nil {key' : K} (key : K) (val : V) (h : m key' ≠ some []) :
    m.put key val key' ≠ some [] := by
  by_cases hk : key' = key
  · subst hk
    simp [put]
  · simpa [put, hk] using h

theorem cleanEmpty_ne_nil {key key' : K} (h : key' ≠ key → m key' ≠ some []) :
    m.cleanEmpty key key' ≠ some [] := by
  by_cases hm : m key = some []
  · rw [cleanEmpty_of_nil m hm]
    by_cases hk : key' = key
    · subst hk
      simp
    · simpa [hk] using h hk
  · rw [cleanEmpty_of_ne_nil m hm]
    by_cases hk : key' = key
    · rwa [hk]
    · exact h hk

theorem filter_ne_nil {key' : K} (key : K) (keep : V → Bool) (h : m key' ≠ some []) :
    m.filter key keep key' ≠ some [] := by
  apply cleanEmpty_ne_nil
  intro hk
  rwa [Function.update_of_ne hk]

end MultiMap

/-- A key is present only with at least one client, which `cleanEmpty` is there for. -/
@[ext] structure LockStore (K ID : Type) where
  map : MultiMap K ID
  nonempty : ∀ key, map key ≠ some []

namespace LockStore

variable {K ID : Type}

def empty : LockStore K ID := ⟨fun _ => none, by simp⟩

def ids (store : LockStore K ID) (key : K) : List ID := store.map.get key

theorem map_eq (store : LockStore K ID) (key : K) :
    store.map key = if store.ids key = [] then none else some (store.ids key) := by
  have hne := store.nonempty key
  unfold ids MultiMap.get
  cases h : store.map key with
  | none => simp
  | some l =>
    rw [h] at hne
    simp_all

section

variable [Inhabited ID] (store : LockStore K ID)

/-- `ids[0]` is in range by the store's invariant; `default` is the zero value of
an absent owner. -/
def getLockOwner (key : K) : ID × Bool :=
  match h : store.map key with
  | some (id :: _) => (id, true)
  | some [] => absurd h (store.nonempty key)
  | none => (default, false)

theorem getLockOwner_eq (key : K) :
    store.getLockOwner key = ((store.ids key).headD default, !(store.ids key).isEmpty) := by
  unfold getLockOwner ids MultiMap.get
  split
  · rename_i h
    simp [h]
  · rename_i h
    exact absurd h (store.nonempty key)
  · rename_i h
    simp [h]

end

variable [DecidableEq K] [DecidableEq ID] (store : LockStore K ID)

def lock (key : K) (id : ID) : LockStore K ID :=
  let sameValDoesntExist := !(store.map.get key).any fun elem => id = elem
  if sameValDoesntExist then
    ⟨store.map.put key id, fun _ => store.map.put_ne_nil _ _ (store.nonempty _)⟩
  else store

def unlock (key : K) (id : ID) : LockStore K ID :=
  ⟨store.map.filter key fun elem => id ≠ elem,
    fun _ => store.map.filter_ne_nil _ _ (store.nonempty _)⟩

@[simp] theorem ids_lock (key key' : K) (id : ID) :
    (store.lock key id).ids key' =
      if key' = key ∧ id ∉ store.ids key then store.ids key ++ [id] else store.ids key' := by
  by_cases hid : id ∈ store.ids key
  · have hany : ((store.map.get key).any fun elem => id = elem) = true :=
      List.any_eq_true.mpr ⟨id, hid, by simp⟩
    rw [lock, hany]
    simp [hid]
  · have hany : ((store.map.get key).any fun elem => id = elem) = false := by
      apply List.any_eq_false.mpr
      rintro elem helem hid'
      exact hid (of_decide_eq_true hid' ▸ helem)
    rw [lock, hany]
    simp only [hid, not_false_eq_true, and_true]
    exact store.map.get_put key key' id

@[simp] theorem ids_unlock (key key' : K) (id : ID) :
    (store.unlock key id).ids key' =
      if key' = key then (store.ids key).filter (id ≠ ·) else store.ids key' :=
  store.map.get_filter key key' _

theorem head?_lock {key' : K} {id' : ID} (key : K) (id : ID)
    (h : (store.ids key').head? = some id') :
    ((store.lock key id).ids key').head? = some id' := by
  rw [ids_lock]
  split
  · rename_i hk
    rw [← hk.1, List.head?_append, h]
    rfl
  · exact h

theorem head?_unlock_of_ne {key' key : K} (hne : key' ≠ key) (id : ID) :
    ((store.unlock key id).ids key').head? = (store.ids key').head? := by
  simp [hne]

end LockStore

end MrAndRaft.RaftLock
