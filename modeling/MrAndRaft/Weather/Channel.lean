import MrAndRaft.Weather.Stations

/-! `channelAggregator`.  A goroutine that has its report waits until the main loop receives
it; the variables belong to the main loop alone. -/

namespace MrAndRaft.Weather

open Batching History

namespace Channel

inductive Pc
  | asking
  | sending (report : WeatherReport)
  | done
  deriving DecidableEq, Repr

inductive Main
  | launching (i : Nat)
  | select
  | sending (e : Emission)
  | returned
  deriving DecidableEq, Repr

structure State where
  acc : Accumulator
  main : Main
  goroutines : List (Goroutine Pc)
  out : List Emission

def init : State := ⟨.init, .launching 0, [], []⟩

inductive Event
  | launch
  | reply (j : Nat) (report : WeatherReport)
  | receive (j : Nat)
  | tick
  | send
  | quit

end Channel

def channelAggregator (k : Int) (s : Channel.State) : Channel.Event → Except Unit Channel.State
  | .launch =>
    match s.main with
    | .launching i =>
      if (i : Int) < k then
        .ok { s with
          main := .launching (i + 1)
          goroutines := s.goroutines ++ [⟨⟨i, s.acc.batch⟩, .asking⟩] }
      else .ok { s with main := .select }
    | _ => .error ()
  | .reply j report =>
    match s.goroutines[j]? with
    | some ⟨request, .asking⟩ =>
      .ok { s with goroutines := s.goroutines.set j ⟨request, .sending report⟩ }
    | _ => .error ()
  | .receive j =>
    match s.main, s.goroutines[j]? with
    | .select, some ⟨request, .sending report⟩ =>
      .ok { s with acc := s.acc.add report, goroutines := s.goroutines.set j ⟨request, .done⟩ }
    | _, _ => .error ()
  | .tick =>
    match s.main with
    | .select => .ok { s with main := .sending s.acc.emission }
    | _ => .error ()
  | .send =>
    match s.main with
    | .sending e => .ok { s with main := .launching 0, acc := s.acc.reset, out := s.out ++ [e] }
    | _ => .error ()
  | .quit =>
    match s.main with
    | .select => .ok { s with main := .returned }
    | _ => .error ()

namespace Channel

/-- `getWeatherData` returns a report for the batch it was asked for. -/
def AsAsked (s : State) : Event → Prop
  | .reply j report => ∀ g ∈ s.goroutines[j]?, report.batch = g.request.batch
  | _ => True

instance (s : State) : DecidablePred (AsAsked s)
  | .reply _ _ => inferInstanceAs (Decidable (∀ g ∈ _, _))
  | .launch | .receive _ | .tick | .send | .quit => inferInstanceAs (Decidable True)

/-- What the batch machine sees: the ticks, and the replies that are counted. -/
def label (s : State) : Event → Option (Label Reply)
  | .receive j =>
    match s.goroutines[j]? with
    | some ⟨request, .sending report⟩ => counted s.acc request report
    | _ => none
  | .tick => some .tick
  | _ => none

def Run (k : Int) (σ : List (State × List (Label Reply))) : Prop :=
  History.Run (init, [])
    (fun p e p' => AsAsked p.1 e ∧ observe (channelAggregator k) label p e = .ok p') σ

theorem exists_run (k : Int) (P : State × List (Label Reply) → Prop) [DecidablePred P]
    (es : List Event)
    (h : (exec (fun p e => decide (AsAsked p.1 e)) (observe (channelAggregator k) label) (init, [])
      es).any fun p => decide (P p)) : ∃ p σ, Run k (p :: σ) ∧ P p := by
  unfold Run
  exact History.exists_run _ P es h

def State.pending (s : State) : List Emission :=
  match s.main with
  | .sending e => [e]
  | _ => []

section Step

variable {k : Int} {s s' : State}

inductive Step (k : Int) (s : State) : Event → State → Prop
  | launch {i : Nat} : s.main = .launching i → (i : Int) < k →
      Step k s .launch { s with
        main := .launching (i + 1)
        goroutines := s.goroutines ++ [⟨⟨i, s.acc.batch⟩, .asking⟩] }
  | launched {i : Nat} : s.main = .launching i → Step k s .launch { s with main := .select }
  | reply {j : Nat} {request : Request} {report : WeatherReport} :
      s.goroutines[j]? = some ⟨request, .asking⟩ →
      Step k s (.reply j report)
        { s with goroutines := s.goroutines.set j ⟨request, .sending report⟩ }
  | receive {j : Nat} {request : Request} {report : WeatherReport} :
      s.main = .select → s.goroutines[j]? = some ⟨request, .sending report⟩ →
      Step k s (.receive j)
        { s with acc := s.acc.add report, goroutines := s.goroutines.set j ⟨request, .done⟩ }
  | tick : s.main = .select → Step k s .tick { s with main := .sending s.acc.emission }
  | send {e : Emission} : s.main = .sending e →
      Step k s .send { s with main := .launching 0, acc := s.acc.reset, out := s.out ++ [e] }
  | quit : s.main = .select → Step k s .quit { s with main := .returned }

theorem step_cases {e : Event} (h : channelAggregator k s e = .ok s') : Step k s e s' := by
  revert h
  -- one constructor for each branch that is not an error
  fun_cases channelAggregator k s e
  all_goals (intro h; cases h)
  all_goals constructor <;> assumption

end Step

section Refinement

variable {k : Int} {s s' : State} {b : Batches Reply} {e : Event}

def Pc.carries : Pc → Option WeatherReport
  | .sending report => some report
  | .asking | .done => none

def Main.phase (k : Int) : Main → Phase
  | .launching i => .gathering i
  | .select | .returned => .gathering k.toNat
  | .sending e => .sending e

def Refines (k : Int) (b : Batches Reply) (s : State) : Prop :=
  Follows k Pc.carries (· = .done) (s.main.phase k) s.acc s.out s.goroutines b

theorem label_receive {j : Nat} {request : Request} {report : WeatherReport}
    (hg : s.goroutines[j]? = some ⟨request, .sending report⟩) :
    label s (.receive j) = counted s.acc request report := by
  simp only [label, hg]

theorem Refines.step (h : Refines k b s) (hasked : AsAsked s e)
    (hstep : channelAggregator k s e = .ok s') :
    Matches Takes .next (Refines k · s') b (label s e) := by
  obtain ⟨acc, main, goroutines, out⟩ := s
  cases step_cases hstep with
  | launch hmain hi =>
    obtain rfl : main = _ := hmain
    exact Follows.launch h hi rfl
  | launched hmain =>
    obtain rfl : main = _ := hmain
    exact Follows.launched h
  | reply hg =>
    refine Follows.move h hg _ (by simp) fun report' hreport => ?_
    obtain rfl := Option.some.inj hreport
    exact hasked _ hg
  | receive hmain hg =>
    obtain rfl : main = _ := hmain
    rw [label_receive hg]
    exact Follows.add h hg rfl (by simp) rfl rfl
  | tick hmain =>
    obtain rfl : main = _ := hmain
    exact ⟨trivial, Follows.average h⟩
  | send hmain =>
    obtain rfl : main = _ := hmain
    exact (Follows.send h).reset
  | quit hmain =>
    obtain rfl : main = _ := hmain
    exact h

theorem Run.refines {σ : List (State × List (Label Reply))} (h : Run k σ) :
    ∀ p ∈ σ, ∃ b, Moves .empty Takes .next p.2 b ∧ Refines k b p.1 :=
  History.Run.simulates h (Follows.init k Pc.carries (· = .done)) fun _ _ _ _ hR hok hstep =>
    hR.step hok hstep

theorem Refines.out_eq (h : Refines k b s) : s.out ++ s.pending = emissions b.closed := by
  obtain ⟨acc, main, goroutines, out⟩ := s
  have hagrees := h.agrees
  cases main with
  | launching | select | returned => simpa [State.pending] using hagrees.2
  | sending e => exact hagrees.2.2

end Refinement

end Channel

end MrAndRaft.Weather
