import Mathlib.Data.List.Basic

/-! Straight-line programs run one command at a time among others.  Every state on the way is
seen, so a triple says what holds before each command and not only at the end. -/

namespace Program

variable {S C α ε : Type*} (run : S → C → Except ε S) (ok : S → C → Prop)

def Along (Q : S → Prop) : List C → S → Prop
  | [], s => Q s
  | c :: cs, s => ok s c ∧ ∀ s', run s c = .ok s' → Along Q cs s'

def Triple (P : S → Prop) (cs : List C) (Q : S → Prop) : Prop :=
  ∀ s, P s → Along run ok Q cs s

variable {run ok} {P Q Q' T : S → Prop} {c : C} {cs ds : List C}

theorem Along.imp {s : S} (h : Along run ok Q cs s) (hQ : ∀ s, Q s → Q' s) :
    Along run ok Q' cs s := by
  induction cs generalizing s with
  | nil => exact hQ s h
  | cons c cs ih => exact ⟨h.1, fun s' hs' => ih (h.2 s' hs')⟩

theorem Along.append {s : S} (h : Along run ok (Along run ok Q ds) cs s) :
    Along run ok Q (cs ++ ds) s := by
  induction cs generalizing s with
  | nil => exact h
  | cons c cs ih => exact ⟨h.1, fun s' hs' => ih (h.2 s' hs')⟩

theorem Along.now {I : S → Prop} {s : S} (h : Along run ok Q cs s) (hok : ∀ s c, ok s c → I s)
    (hQ : ∀ s, Q s → I s) : I s := by
  cases cs with
  | nil => exact hQ s h
  | cons c cs => exact hok s c h.1

namespace Triple

theorem nil : Triple run ok Q [] Q := fun _ h => h

theorem single (hok : ∀ s, P s → ok s c) (hrun : ∀ s s', P s → run s c = .ok s' → Q s') :
    Triple run ok P [c] Q :=
  fun s hs => ⟨hok s hs, fun s' hs' => hrun s s' hs hs'⟩

theorem append (h : Triple run ok P cs T) (h' : Triple run ok T ds Q) :
    Triple run ok P (cs ++ ds) Q :=
  fun s hs => ((h s hs).imp h').append

theorem cons (h : Triple run ok P [c] T) (h' : Triple run ok T ds Q) :
    Triple run ok P (c :: ds) Q :=
  append h h'

theorem imp {P' : S → Prop} (h : Triple run ok P cs Q) (hP : ∀ s, P' s → P s)
    (hQ : ∀ s, Q s → Q' s) : Triple run ok P' cs Q' :=
  fun s hs => (h s (hP s hs)).imp hQ

/-- A loop over a list: `I` is kept by the body of every element and says what was done so far. -/
theorem flatMap {body : α → List C} (I : List α → S → Prop) {l : List α}
    (h : ∀ done a, Triple run ok (I done) (body a) (I (done ++ [a]))) :
    Triple run ok (I []) (l.flatMap body) (I l) := by
  suffices h' : ∀ l' done, Triple run ok (I done) (List.flatMap body l') (I (done ++ l')) from h' l []
  intro l'
  induction l' with
  | nil =>
    intro done
    simpa using nil
  | cons a l' ih =>
    intro done
    have := ih (done ++ [a])
    rw [List.append_assoc] at this
    exact append (h done a) this

theorem map {body : α → C} (I : List α → S → Prop) {l : List α}
    (h : ∀ done a, Triple run ok (I done) [body a] (I (done ++ [a]))) :
    Triple run ok (I []) (l.map body) (I l) := by
  rw [← List.flatMap_singleton' (l.map body), List.flatMap_map]
  exact flatMap I h

end Triple

end Program
