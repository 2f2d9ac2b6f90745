import MrAndRaft.Lib.Prefix
import MrAndRaft.Lib.Simulation
import Mathlib.Data.List.Nodup

/-! Items are gathered in batches.  A tick closes the batch that is open and opens the
next one.  An item belongs to one batch, and has a key that no other item of its batch has. -/

namespace Batching

variable {α κ : Type*}

inductive Label (α : Type*)
  | accept (a : α)
  | tick
  deriving DecidableEq

structure Batches (α : Type*) where
  closed : List (List α)
  current : List α

namespace Batches

def empty : Batches α := ⟨[], []⟩

def all (b : Batches α) : List (List α) := b.closed ++ [b.current]

def next (b : Batches α) : Label α → Batches α
  | .accept a => { b with current := b.current ++ [a] }
  | .tick => ⟨b.closed ++ [b.current], []⟩

def Takes (batch : α → Int) (key : α → κ) (b : Batches α) : Label α → Prop
  | .accept a => batch a = b.closed.length ∧ key a ∉ b.current.map key
  | .tick => True

end Batches

def accepted (ls : List (Label α)) : List α :=
  ls.flatMap fun
    | .accept a => [a]
    | .tick => []

variable {batch : α → Int} {key : α → κ} {ls : List (Label α)} {b : Batches α}

theorem flatten_all (h : History.Moves .empty (Batches.Takes batch key) .next ls b) :
    b.all.flatten = accepted ls := by
  induction h with
  | nil => rfl
  | @snoc ls b l _ _ ih =>
    rw [accepted, List.flatMap_append, ← accepted, ← ih]
    cases l <;> simp [Batches.all, Batches.next]

def ticks (ls : List (Label α)) : Nat :=
  ls.countP fun
    | .accept _ => false
    | .tick => true

theorem length_closed (h : History.Moves .empty (Batches.Takes batch key) .next ls b) :
    b.closed.length = ticks ls := by
  induction h with
  | nil => rfl
  | @snoc ls b l _ _ ih =>
    rw [ticks, List.countP_append, ← ticks, ← ih]
    cases l <;> simp [Batches.next]

def Whole (batch : α → Int) (key : α → κ) (i : Nat) (items : List α) : Prop :=
  (∀ a ∈ items, batch a = i) ∧ (items.map key).Nodup

theorem Whole.nil (batch : α → Int) (key : α → κ) (i : Nat) : Whole batch key i [] :=
  ⟨by simp, .nil⟩

theorem Whole.accept {i : Nat} {items : List α} {a : α} (h : Whole batch key i items)
    (hbatch : batch a = i) (hkey : key a ∉ items.map key) : Whole batch key i (items ++ [a]) := by
  refine ⟨fun a' ha' => ?_, ?_⟩
  · rcases List.mem_append.mp ha' with ha' | ha'
    · exact h.1 a' ha'
    · rw [List.mem_singleton.mp ha', hbatch]
  · rw [List.map_append, List.map_singleton, ← List.concat_eq_append]
    exact List.Nodup.concat hkey h.2

theorem whole_all (h : History.Moves .empty (Batches.Takes batch key) .next ls b) :
    ∀ i items, b.all[i]? = some items → Whole batch key i items := by
  induction h with
  | nil =>
    intro i items hi
    rcases Position.of_concat hi with hi | ⟨-, rfl⟩
    · simp [Batches.empty] at hi
    · exact .nil batch key i
  | @snoc ls b l _ htakes ih =>
    intro i items hi
    cases l with
    | accept a =>
      rcases Position.of_concat hi with hi | ⟨rfl, rfl⟩
      · exact ih i items (Prefix.getElem? (List.prefix_append _ _) hi)
      · exact (ih _ b.current List.getElem?_concat_length).accept htakes.1 htakes.2
    | tick =>
      rcases Position.of_concat hi with hi | ⟨-, rfl⟩
      · exact ih i items hi
      · exact .nil batch key i

end Batching
