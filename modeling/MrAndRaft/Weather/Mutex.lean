import MrAndRaft.Weather.Channel

/-! `mutexAggregator`.  Every goroutine adds its report to the variables itself, and so has to
hold the mutex `m`, as the main loop has to from the average of one batch to the last call for
the next.  It and `channelAggregator` are the same batch machine. -/

namespace MrAndRaft.Weather

open Batching History

namespace Mutex

inductive Pc
  | asking
  | locking (report : WeatherReport)
  | comparing (report : WeatherReport)
  | unlocking
  | done
  deriving DecidableEq, Repr

/-- Where the main loop is.  The calls for the first batch are made without the mutex. -/
inductive Main
  | starting (i : Nat)
  | select
  | locking
  | averaging
  | sending (e : Emission)
  | resetting
  | launching (i : Nat)
  | unlocking
  | returned
  deriving DecidableEq, Repr

structure State where
  acc : Accumulator
  locked : Bool
  main : Main
  goroutines : List (Goroutine Pc)
  out : List Emission

def init : State := ⟨.init, false, .starting 0, [], []⟩

inductive Event
  | launch
  | reply (j : Nat) (report : WeatherReport)
  | lock (j : Nat)
  | compare (j : Nat)
  | unlock (j : Nat)
  | tick
  | lockMain
  | average
  | send
  | reset
  | unlockMain
  | quit

end Mutex

def mutexAggregator (k : Int) (s : Mutex.State) : Mutex.Event → Except Unit Mutex.State
  | .launch =>
    match s.main with
    | .starting i =>
      if (i : Int) < k then
        .ok { s with
          main := .starting (i + 1)
          goroutines := s.goroutines ++ [⟨⟨i, s.acc.batch⟩, .asking⟩] }
      else .ok { s with main := .select }
    | .launching i =>
      if (i : Int) < k then
        .ok { s with
          main := .launching (i + 1)
          goroutines := s.goroutines ++ [⟨⟨i, s.acc.batch⟩, .asking⟩] }
      else .ok { s with main := .unlocking }
    | _ => .error ()
  | .reply j report =>
    match s.goroutines[j]? with
    | some ⟨request, .asking⟩ =>
      .ok { s with goroutines := s.goroutines.set j ⟨request, .locking report⟩ }
    | _ => .error ()
  | .lock j =>
    match s.locked, s.goroutines[j]? with
    | false, some ⟨request, .locking report⟩ =>
      .ok { s with
        locked := true
        goroutines := s.goroutines.set j ⟨request, .comparing report⟩ }
    | _, _ => .error ()
  | .compare j =>
    match s.goroutines[j]? with
    | some ⟨request, .comparing report⟩ =>
      .ok { s with
        acc := s.acc.add report
        goroutines := s.goroutines.set j ⟨request, .unlocking⟩ }
    | _ => .error ()
  | .unlock j =>
    match s.goroutines[j]? with
    | some ⟨request, .unlocking⟩ =>
      .ok { s with locked := false, goroutines := s.goroutines.set j ⟨request, .done⟩ }
    | _ => .error ()
  | .tick =>
    match s.main with
    | .select => .ok { s with main := .locking }
    | _ => .error ()
  | .lockMain =>
    match s.locked, s.main with
    | false, .locking => .ok { s with locked := true, main := .averaging }
    | _, _ => .error ()
  | .average =>
    match s.main with
    | .averaging => .ok { s with main := .sending s.acc.emission }
    | _ => .error ()
  | .send =>
    match s.main with
    | .sending e => .ok { s with main := .resetting, out := s.out ++ [e] }
    | _ => .error ()
  | .reset =>
    match s.main with
    | .resetting => .ok { s with main := .launching 0, acc := s.acc.reset }
    | _ => .error ()
  | .unlockMain =>
    match s.main with
    | .unlocking => .ok { s with locked := false, main := .select }
    | _ => .error ()
  | .quit =>
    match s.main with
    | .select => .ok { s with main := .returned }
    | _ => .error ()

namespace Mutex

def AsAsked (s : State) : Event → Prop
  | .reply j report => ∀ g ∈ s.goroutines[j]?, report.batch = g.request.batch
  | _ => True

instance (s : State) : DecidablePred (AsAsked s)
  | .reply _ _ => inferInstanceAs (Decidable (∀ g ∈ _, _))
  | .launch | .lock _ | .compare _ | .unlock _ | .tick | .lockMain | .average | .send | .reset
  | .unlockMain | .quit => inferInstanceAs (Decidable True)

/-- What the batch machine sees: the ticks, once they have the mutex, and the replies that are
counted. -/
def label (s : State) : Event → Option (Label Reply)
  | .compare j =>
    match s.goroutines[j]? with
    | some ⟨request, .comparing report⟩ => counted s.acc request report
    | _ => none
  | .average => some .tick
  | _ => none

def Run (k : Int) (σ : List (State × List (Label Reply))) : Prop :=
  History.Run (init, [])
    (fun p e p' => AsAsked p.1 e ∧ observe (mutexAggregator k) label p e = .ok p') σ

theorem exists_run (k : Int) (P : State × List (Label Reply) → Prop) [DecidablePred P]
    (es : List Event)
    (h : (exec (fun p e => decide (AsAsked p.1 e)) (observe (mutexAggregator k) label) (init, [])
      es).any fun p => decide (P p)) : ∃ p σ, Run k (p :: σ) ∧ P p := by
  unfold Run
  exact History.exists_run _ P es h

def State.pending (s : State) : List Emission :=
  match s.main with
  | .sending e => [e]
  | _ => []

section Step

variable {k : Int} {s s' : State}

inductive Step (k : Int) (s : State) : Event → State → Prop
  | start {i : Nat} : s.main = .starting i → (i : Int) < k →
      Step k s .launch { s with
        main := .starting (i + 1)
        goroutines := s.goroutines ++ [⟨⟨i, s.acc.batch⟩, .asking⟩] }
  | started {i : Nat} : s.main = .starting i → Step k s .launch { s with main := .select }
  | launch {i : Nat} : s.main = .launching i → (i : Int) < k →
      Step k s .launch { s with
        main := .launching (i + 1)
        goroutines := s.goroutines ++ [⟨⟨i, s.acc.batch⟩, .asking⟩] }
  | launched {i : Nat} : s.main = .launching i → Step k s .launch { s with main := .unlocking }
  | reply {j : Nat} {request : Request} {report : WeatherReport} :
      s.goroutines[j]? = some ⟨request, .asking⟩ →
      Step k s (.reply j report)
        { s with goroutines := s.goroutines.set j ⟨request, .locking report⟩ }
  | lock {j : Nat} {request : Request} {report : WeatherReport} :
      s.locked = false → s.goroutines[j]? = some ⟨request, .locking report⟩ →
      Step k s (.lock j) { s with
        locked := true
        goroutines := s.goroutines.set j ⟨request, .comparing report⟩ }
  | compare {j : Nat} {request : Request} {report : WeatherReport} :
      s.goroutines[j]? = some ⟨request, .comparing report⟩ →
      Step k s (.compare j) { s with
        acc := s.acc.add report
        goroutines := s.goroutines.set j ⟨request, .unlocking⟩ }
  | unlock {j : Nat} {request : Request} : s.goroutines[j]? = some ⟨request, .unlocking⟩ →
      Step k s (.unlock j)
        { s with locked := false, goroutines := s.goroutines.set j ⟨request, .done⟩ }
  | tick : s.main = .select → Step k s .tick { s with main := .locking }
  | lockMain : s.locked = false → s.main = .locking →
      Step k s .lockMain { s with locked := true, main := .averaging }
  | average : s.main = .averaging → Step k s .average { s with main := .sending s.acc.emission }
  | send {e : Emission} : s.main = .sending e →
      Step k s .send { s with main := .resetting, out := s.out ++ [e] }
  | reset : s.main = .resetting →
      Step k s .reset { s with main := .launching 0, acc := s.acc.reset }
  | unlockMain : s.main = .unlocking →
      Step k s .unlockMain { s with locked := false, main := .select }
  | quit : s.main = .select → Step k s .quit { s with main := .returned }

theorem step_cases {e : Event} (h : mutexAggregator k s e = .ok s') : Step k s e s' := by
  revert h
  -- one constructor for each branch that is not an error
  fun_cases mutexAggregator k s e
  all_goals (intro h; cases h)
  all_goals constructor <;> assumption

end Step

section Refinement

variable {k : Int} {s s' : State} {b : Batches Reply} {e : Event} {gs : List (Goroutine Pc)} {j : Nat}
  {g : Goroutine Pc}

def Pc.carries : Pc → Option WeatherReport
  | .locking report | .comparing report => some report
  | .asking | .unlocking | .done => none

def Pc.compared : Pc → Bool
  | .unlocking | .done => true
  | .asking | .locking _ | .comparing _ => false

def Pc.holds : Pc → Bool
  | .comparing _ | .unlocking => true
  | .asking | .locking _ | .done => false

def Main.holds : Main → Bool
  | .averaging | .sending _ | .resetting | .launching _ | .unlocking => true
  | .starting _ | .select | .locking | .returned => false

def Main.phase (k : Int) : Main → Phase
  | .starting i | .launching i => .gathering i
  | .select | .locking | .averaging | .unlocking | .returned => .gathering k.toNat
  | .sending e => .sending e
  | .resetting => .sent

def holding (gs : List (Goroutine Pc)) : Nat := gs.countP fun g => g.pc.holds

structure Refines (k : Int) (b : Batches Reply) (s : State) : Prop where
  follows : Follows k Pc.carries (·.compared = true) (s.main.phase k) s.acc s.out s.goroutines b
  exclusive : s.main.holds.toNat + holding s.goroutines = s.locked.toNat

theorem holding_pos (hg : gs[j]? = some g) (hholds : g.pc.holds = true) : 0 < holding gs :=
  List.countP_pos_iff.mpr ⟨g, List.mem_of_getElem? hg, hholds⟩

theorem holding_set {request : Request} {pc : Pc} (hg : gs[j]? = some ⟨request, pc⟩) (pc' : Pc) :
    holding (gs.set j ⟨request, pc'⟩) + pc.holds.toNat = holding gs + pc'.holds.toNat := by
  have hpos := holding_pos hg
  obtain ⟨hj, hget⟩ := List.getElem?_eq_some_iff.mp hg
  rw [holding, List.countP_set hj, ← holding, hget]
  cases hold : pc.holds with
  | false => cases pc'.holds <;> rfl
  | true =>
    have := hpos hold
    cases pc'.holds <;> simp <;> omega

theorem holding_launch (gs : List (Goroutine Pc)) (request : Request) :
    holding (gs ++ [⟨request, .asking⟩]) = holding gs := by
  simp [holding, List.countP_append, Pc.holds]

theorem Refines.exclusive_step (h : Refines k b s) (hstep : mutexAggregator k s e = .ok s') :
    s'.main.holds.toNat + holding s'.goroutines = s'.locked.toNat := by
  have hle := s.locked.toNat_le
  have hexclusive := h.exclusive
  cases step_cases hstep with
  | start hmain | launch hmain =>
    rw [hmain] at hexclusive
    rw [holding_launch]
    exact hexclusive
  | started hmain | launched hmain | tick hmain | average hmain | send hmain | reset hmain
  | quit hmain =>
    rw [hmain] at hexclusive
    exact hexclusive
  | lockMain hlocked hmain =>
    rw [hmain, hlocked] at hexclusive
    exact congrArg (1 + ·) (Nat.eq_zero_of_add_eq_zero_left hexclusive)
  | unlockMain hmain =>
    rw [hmain] at hexclusive
    have : 1 + holding s.goroutines = s.locked.toNat := hexclusive
    show 0 + holding s.goroutines = 0
    omega
  | @reply _ _ report hg =>
    have : holding (s.goroutines.set _ _) + 0 = holding s.goroutines + 0 :=
      holding_set hg (.locking report)
    exact (congrArg _ this).trans hexclusive
  | @lock _ _ report hlocked hg =>
    have : holding (s.goroutines.set _ _) + 0 = holding s.goroutines + 1 :=
      holding_set hg (.comparing report)
    rw [hlocked, Bool.toNat_false] at hexclusive
    show s.main.holds.toNat + holding (s.goroutines.set _ _) = 1
    omega
  | compare hg =>
    have : holding (s.goroutines.set _ _) + 1 = holding s.goroutines + 1 :=
      holding_set hg .unlocking
    exact (congrArg _ (Nat.add_right_cancel this)).trans hexclusive
  | unlock hg =>
    have : holding (s.goroutines.set _ _) + 1 = holding s.goroutines + 0 := holding_set hg .done
    show s.main.holds.toNat + holding (s.goroutines.set _ _) = 0
    omega

/-- A report is compared while a batch is open: the main loop does not hold the mutex. -/
theorem Refines.phase_eq (h : Refines k b s) (hg : s.goroutines[j]? = some g)
    (hholds : g.pc.holds = true) : ∃ i, s.main.phase k = .gathering i := by
  have hpos := holding_pos hg hholds
  have hle := s.locked.toNat_le
  have hexclusive := h.exclusive
  have hmain : s.main.holds.toNat = 0 := by omega
  cases hs : s.main with
  | starting i => exact ⟨i, rfl⟩
  | select | locking | returned => exact ⟨k.toNat, rfl⟩
  | averaging | sending | resetting | launching | unlocking =>
    rw [hs] at hmain
    cases hmain

theorem label_compare {request : Request} {report : WeatherReport}
    (hg : s.goroutines[j]? = some ⟨request, .comparing report⟩) :
    label s (.compare j) = counted s.acc request report := by
  simp only [label, hg]

theorem Refines.follows_step (h : Refines k b s) (hasked : AsAsked s e)
    (hstep : mutexAggregator k s e = .ok s') :
    Matches Takes .next (Follows k Pc.carries (·.compared = true) (s'.main.phase k) s'.acc s'.out
      s'.goroutines) b (label s e) := by
  have hfollows := h.follows
  cases step_cases hstep with
  | start hmain hi | launch hmain hi =>
    rw [hmain] at hfollows
    exact hfollows.launch hi rfl
  | started hmain | launched hmain =>
    rw [hmain] at hfollows
    exact hfollows.launched
  | reply hg =>
    refine hfollows.move hg _ (by simp [Pc.compared]) fun report' hreport => ?_
    obtain rfl := Option.some.inj hreport
    exact hasked _ hg
  | lock hlocked hg =>
    exact hfollows.move hg _ (by simp [Pc.compared])
      (hfollows.asAsked _ (List.mem_of_getElem? hg))
  | compare hg =>
    obtain ⟨i, hi⟩ := h.phase_eq hg rfl
    rw [label_compare hg]
    show Matches _ _ (Follows _ _ _ (s.main.phase k) _ _ _) _ _
    rw [hi] at hfollows ⊢
    exact hfollows.add hg rfl (by simp [Pc.compared]) rfl rfl
  | unlock hg => exact hfollows.move hg _ (fun _ => rfl) (by simp [Pc.carries])
  | tick hmain | lockMain hlocked hmain | unlockMain hmain | quit hmain =>
    rw [hmain] at hfollows
    exact hfollows
  | average hmain =>
    rw [hmain] at hfollows
    exact ⟨trivial, hfollows.average⟩
  | send hmain =>
    rw [hmain] at hfollows
    exact hfollows.send
  | reset hmain =>
    rw [hmain] at hfollows
    exact hfollows.reset

theorem Run.refines {σ : List (State × List (Label Reply))} (h : Run k σ) :
    ∀ p ∈ σ, ∃ b, Moves .empty Takes .next p.2 b ∧ Refines k b p.1 := by
  refine History.Run.simulates h ⟨Follows.init k Pc.carries (·.compared = true), rfl⟩ ?_
  intro b s e s' hR hok hstep
  exact (hR.follows_step hok hstep).imp fun _ hfollows => ⟨hfollows, hR.exclusive_step hstep⟩

theorem Refines.out_eq (h : Refines k b s) : s.out ++ s.pending = emissions b.closed := by
  obtain ⟨acc, locked, main, goroutines, out⟩ := s
  have hagrees := h.follows.agrees
  cases main with
  | sending e => exact hagrees.2.2
  | resetting => simpa [State.pending] using hagrees.2.2
  | starting | select | locking | averaging | launching | unlocking | returned =>
    simpa [State.pending] using hagrees.2

end Refinement

end Mutex

theorem getElem?_emissions {closed : List (List Reply)} {i : Nat} {replies : List Reply}
    (h : closed[i]? = some replies) :
    (emissions closed)[i]? = some ⟨(replies.map Reply.value).sum, replies.length, i⟩ := by
  simp [emissions, h]

/-- For any number of stations and any order of replies and ticks, both aggregators make the
moves of the batch machine and report on the batches it closes.  The batch machine keeps all
replies that are counted; those between two ticks are replies to the calls for that batch, no
two of one station, and the report is on their sum and number.  So the same replies and ticks
make the same reports. -/
theorem aggregators_refine (k : Int) :
    (∀ σ, Channel.Run k σ → ∀ p ∈ σ, ∃ b, Moves .empty Takes .next p.2 b ∧
      p.1.out ++ p.1.pending = emissions b.closed) ∧
    (∀ σ, Mutex.Run k σ → ∀ p ∈ σ, ∃ b, Moves .empty Takes .next p.2 b ∧
      p.1.out ++ p.1.pending = emissions b.closed) ∧
    (∀ ls b, Moves .empty Takes .next ls b →
      b.all.flatten = accepted ls ∧ (emissions b.closed).length = ticks ls ∧
      (∀ (i : Nat) replies, b.all[i]? = some replies →
        (∀ reply ∈ replies, reply.batch = i) ∧ (replies.map Reply.station).Nodup) ∧
      ∀ (i : Nat) replies, b.closed[i]? = some replies → ∃ e, (emissions b.closed)[i]? = some e ∧
        e.batch = i ∧ e.total = (replies.map Reply.value).sum ∧ e.count = replies.length ∧
        e.value = if replies.length = 0 then none
          else some ((replies.map Reply.value).sum / replies.length)) ∧
    ∀ σ σ', Channel.Run k σ → Mutex.Run k σ' → ∀ p ∈ σ, ∀ p' ∈ σ', p.2 = p'.2 →
      p.1.out ++ p.1.pending = p'.1.out ++ p'.1.pending := by
  refine ⟨fun σ h p hp => ?_, fun σ h p hp => ?_, fun ls b h => ⟨flatten_all h, ?_, whole_all h, ?_⟩, ?_⟩
  · obtain ⟨b, hmoves, hrefines⟩ := h.refines p hp
    exact ⟨b, hmoves, hrefines.out_eq⟩
  · obtain ⟨b, hmoves, hrefines⟩ := h.refines p hp
    exact ⟨b, hmoves, hrefines.out_eq⟩
  · rw [emissions, List.length_mapIdx, length_closed h]
  · intro i replies hi
    exact ⟨_, getElem?_emissions hi, rfl, rfl, rfl, rfl⟩
  · intro σ σ' h h' p hp p' hp' hlabels
    obtain ⟨b, hmoves, hrefines⟩ := h.refines p hp
    obtain ⟨b', hmoves', hrefines'⟩ := h'.refines p' hp'
    rw [hrefines.out_eq, hrefines'.out_eq, hmoves.unique (hlabels ▸ hmoves')]

theorem aggregators_refine_late : ∃ s σ s' σ' ls, Channel.Run 2 ((s, ls) :: σ) ∧
    Mutex.Run 2 ((s', ls) :: σ') ∧
    ls = [.accept ⟨⟨0, 0⟩, 10⟩, .tick, .accept ⟨⟨0, 1⟩, 7⟩, .tick] ∧
    s.out = [⟨10, 1, 0⟩, ⟨7, 1, 1⟩] ∧ s.out ++ s.pending = s'.out ++ s'.pending := by
  obtain ⟨⟨s, ls⟩, σ, h, hls, hout⟩ := Channel.exists_run 2
    (fun p => p.2 = [.accept ⟨⟨0, 0⟩, 10⟩, .tick, .accept ⟨⟨0, 1⟩, 7⟩, .tick] ∧
      p.1.out = [⟨10, 1, 0⟩, ⟨7, 1, 1⟩])
    [.launch, .launch, .launch, .reply 0 ⟨10, 0, 0⟩, .receive 0, .tick, .send, .launch, .launch,
      .launch, .reply 1 ⟨99, 1, 0⟩, .receive 1, .reply 2 ⟨7, 0, 1⟩, .receive 2, .tick, .send]
    (by decide +kernel)
  obtain ⟨⟨s', ls'⟩, σ', h', hls'⟩ := Mutex.exists_run 2
    (fun p => p.2 = [.accept ⟨⟨0, 0⟩, 10⟩, .tick, .accept ⟨⟨0, 1⟩, 7⟩, .tick])
    [.launch, .launch, .launch, .reply 0 ⟨10, 0, 0⟩, .lock 0, .compare 0, .unlock 0, .tick,
      .lockMain, .average, .send, .reset, .launch, .launch, .launch, .reply 1 ⟨99, 1, 0⟩,
      .unlockMain, .lock 1, .compare 1, .unlock 1, .reply 2 ⟨7, 0, 1⟩, .tick, .lock 2, .compare 2,
      .unlock 2, .lockMain, .average]
    (by decide +kernel)
  obtain rfl : ls = ls' := hls.trans hls'.symm
  exact ⟨s, σ, s', σ', ls, h, h', hls, hout,
    (aggregators_refine 2).2.2.2 _ _ h h' _ List.mem_cons_self _ List.mem_cons_self rfl⟩

end MrAndRaft.Weather
