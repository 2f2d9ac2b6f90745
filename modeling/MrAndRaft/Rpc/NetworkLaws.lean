import MrAndRaft.Lib.Prefix
import MrAndRaft.Rpc.Network

/-! What a move can do to a call, and what therefore holds of every call. -/

namespace MrAndRaft.Labrpc

variable {E S Q R : Type}

namespace Handler

def server : Handler R → Option Nat
  | .none => .none
  | .spawned j => some j
  | .running j _ => some j
  | .replied j _ _ => some j
  | .returned j _ _ => some j
  | .ended j _ _ => some j

def rcvr : Handler R → Option Nat
  | .none => .none
  | .spawned _ => .none
  | .running _ i => some i
  | .replied _ i _ => some i
  | .returned _ i _ => some i
  | .ended _ i _ => some i

def steps : Handler R → Nat
  | .none => 4
  | .spawned _ => 4
  | .running _ _ => 3
  | .replied _ _ _ => 2
  | .returned _ _ _ => 1
  | .ended _ _ _ => 0

end Handler

namespace Phase

def info : Phase S R → Option (Info S)
  | .accepted info => some info
  | .waiting info => some info
  | .finished info _ => some info
  | _ => none

def message : Phase S R → Option (Option R)
  | .replying msg => some msg
  | .returned msg => some msg
  | _ => none

def steps : Phase S R → Nat
  | .sending => 6
  | .received => 5
  | .accepted _ => 4
  | .waiting _ => 3
  | .finished _ _ => 2
  | .replying _ => 1
  | .returned _ => 0

end Phase

inductive Moved [DecidableEq S] (sw : Switch E S) (t : Traffic E S Q R) (e : E) (svcMeth : Name) :
    Phase S R → Handler R → Move R → Phase S R → Handler R → Prop
  | giveUp {h} : sw.done → Moved sw t e svcMeth .sending h .giveUp (.returned none) h
  | receive {h} : t.listening → Moved sw t e svcMeth .sending h .receive .received h
  | accept {h name j} :
      sw.enabled e → sw.connections e = some name → sw.servers name = some j →
      Moved sw t e svcMeth .received h .readEndnameInfo
        (.accepted ⟨name, j, sw.reliable, sw.longReordering⟩) h
  | refuse {h} :
      (∀ name j, sw.enabled e → sw.connections e = some name → sw.servers name ≠ some j) →
      Moved sw t e svcMeth .received h .readEndnameInfo (.replying none) h
  | dropRequest {info h} :
      info.reliable = false → Moved sw t e svcMeth (.accepted info) h .dropRequest (.replying none) h
  | execute {info h} :
      Moved sw t e svcMeth (.accepted info) h .execute (.waiting info) (.spawned info.server)
  | dispatch {ph j rs i} :
      t.pool[j]? = some rs → rs.dispatch svcMeth = some i →
      Moved sw t e svcMeth ph (.spawned j) .dispatch ph (.running j i)
  | handle {ph j i r} : Moved sw t e svcMeth ph (.running j i) (.handle r) ph (.replied j i r)
  | handlerReturns {ph j i r} :
      Moved sw t e svcMeth ph (.replied j i r) .handlerReturns ph (.returned j i r)
  | collect {info j i r} :
      Moved sw t e svcMeth (.waiting info) (.returned j i r) .collect (.finished info (some r))
        (.ended j i r)
  | dead {info h} :
      sw.isServerDead e info → Moved sw t e svcMeth (.waiting info) h .poll (.finished info none) h
  | alive {info h} :
      sw.isServerDead e info = false → Moved sw t e svcMeth (.waiting info) h .poll (.waiting info) h
  | drain {ph j i r} :
      (∀ info, ph ≠ .waiting info) →
      Moved sw t e svcMeth ph (.returned j i r) .drain ph (.ended j i r)
  | checkNone {info h fate} :
      Moved sw t e svcMeth (.finished info none) h (.check fate) (.replying none) h
  | checkDead {info r h fate} :
      sw.isServerDead e info →
      Moved sw t e svcMeth (.finished info (some r)) h (.check fate) (.replying none) h
  | dropReply {info r h} :
      info.reliable = false →
      Moved sw t e svcMeth (.finished info (some r)) h (.check .dropped) (.replying none) h
  | checkPassed {info r h fate} :
      sw.isServerDead e info = false →
      Moved sw t e svcMeth (.finished info (some r)) h (.check fate) (.replying (some r)) h
  | reply {msg h} : Moved sw t e svcMeth (.replying msg) h .reply (.returned msg) h

section

variable [DecidableEq S] {sw : Switch E S} {t : Traffic E S Q R} {c c' : Pending E S Q R}
  {m : Move R} {k : Nat}

omit [DecidableEq S] in
theorem Switch.readEndnameInfo_cases (sw : Switch E S) (e : E) :
    (∃ name j, sw.enabled e ∧ sw.connections e = some name ∧ sw.servers name = some j ∧
      sw.readEndnameInfo (R := R) e = .accepted ⟨name, j, sw.reliable, sw.longReordering⟩) ∨
    ((∀ name j, sw.enabled e → sw.connections e = some name → sw.servers name ≠ some j) ∧
      sw.readEndnameInfo (R := R) e = .replying none) := by
  unfold Switch.readEndnameInfo
  cases hen : sw.enabled e with
  | false => exact .inr ⟨by simp, rfl⟩
  | true =>
    cases hconn : sw.connections e with
    | none => exact .inr ⟨by simp, rfl⟩
    | some name =>
      cases hsrv : sw.servers name with
      | none => exact .inr ⟨by rintro _ j _ ⟨⟩; simp [hsrv], by simp [hsrv]⟩
      | some j => exact .inl ⟨name, j, rfl, rfl, hsrv, by simp [hsrv]⟩

theorem Switch.isServerDead_eq_false {e : E} {info : Info S} :
    sw.isServerDead e info = false ↔
      sw.enabled e ∧ sw.servers info.servername = some info.server := by
  simp [Switch.isServerDead]

omit [DecidableEq S] in
theorem Fate.message_ok {fate : Fate} {info : Info S} {r : R} {msg : Option R}
    (h : fate.message info r = .ok msg) :
    (fate = .dropped ∧ msg = none ∧ info.reliable = false) ∨ msg = some r := by
  cases fate with
  | dropped => cases hrel : info.reliable <;> simp_all [Fate.message]
  | delayed => cases hlong : info.longreordering <;> simp_all [Fate.message]
  | delivered => simp_all [Fate.message]

theorem Pending.move_ok (h : c.move sw t m = .ok c') :
    c'.endname = c.endname ∧ c'.svcMeth = c.svcMeth ∧ c'.args = c.args ∧
      Moved sw t c.endname c.svcMeth c.phase c.handler m c'.phase c'.handler := by
  obtain ⟨e, svcMeth, args, ph, hd⟩ := c
  simp only [Pending.move] at h
  split at h
  case h_1 =>
    split at h <;> cases h
    exact ⟨rfl, rfl, rfl, .giveUp ‹_›⟩
  case h_2 =>
    split at h <;> cases h
    exact ⟨rfl, rfl, rfl, .receive ‹_›⟩
  case h_3 =>
    cases h
    refine ⟨rfl, rfl, rfl, ?_⟩
    rcases sw.readEndnameInfo_cases (R := R) e with ⟨name, j, hen, hconn, hsrv, heq⟩ | ⟨hno, heq⟩
    · simp only [heq]
      exact .accept hen hconn hsrv
    · simp only [heq]
      exact .refuse hno
  case h_4 =>
    split at h <;> cases h
    exact ⟨rfl, rfl, rfl, .dropRequest (Bool.eq_false_iff.mpr ‹_›)⟩
  case h_5 =>
    cases h
    exact ⟨rfl, rfl, rfl, .execute⟩
  case h_6 =>
    split at h
    · cases h
    · split at h <;> cases h
      exact ⟨rfl, rfl, rfl, .dispatch ‹_› ‹_›⟩
  case h_10 =>
    split at h <;> cases h
    · exact ⟨rfl, rfl, rfl, .dead ‹_›⟩
    · exact ⟨rfl, rfl, rfl, .alive (Bool.eq_false_iff.mpr ‹_›)⟩
  case h_12 =>
    cases h
    exact ⟨rfl, rfl, rfl, .drain ‹_›⟩
  case h_14 _ fate info r =>
    split at h
    · cases h
      exact ⟨rfl, rfl, rfl, .checkDead ‹_›⟩
    · rename_i halive
      cases hmsg : fate.message info r with
      | error x => simp [hmsg, Except.map] at h
      | ok msg =>
        rw [hmsg] at h
        cases h
        refine ⟨rfl, rfl, rfl, ?_⟩
        rcases Fate.message_ok hmsg with ⟨rfl, rfl, hrel⟩ | rfl
        · exact .dropReply hrel
        · exact .checkPassed (Bool.eq_false_iff.mpr halive)
  all_goals cases h
  all_goals exact ⟨rfl, rfl, rfl, by constructor⟩

theorem Pending.move_handle {j i : Nat} {r : R} (h : c.handler = .running j i) :
    c.move sw t (.handle r) = .ok { c with handler := .replied j i r } := by
  obtain ⟨e, svcMeth, args, ph, hd⟩ := c
  cases h
  cases ph <;> rfl

theorem Pending.move_handlerReturns {j i : Nat} {r : R} (h : c.handler = .replied j i r) :
    c.move sw t .handlerReturns = .ok { c with handler := .returned j i r } := by
  obtain ⟨e, svcMeth, args, ph, hd⟩ := c
  cases h
  cases ph <;> rfl

theorem Traffic.move_ok {wire : Wire Q R} {t' : Traffic E S Q R}
    (h : t.move wire sw k m = .ok t') :
    ∃ c c', t.calls[k]? = some c ∧ c.move sw t m = .ok c' ∧
      t' = { t.tally wire c m with calls := t.calls.set k c' } := by
  unfold Traffic.move at h
  split at h
  · cases h
  · rename_i c hc
    cases hmove : c.move sw t m with
    | error x => simp [hmove, Except.map] at h
    | ok c' =>
      rw [hmove] at h
      cases h
      exact ⟨c, c', hc, hmove, rfl⟩

end

theorem Server.dispatch_congr {rs rs' : Server} (h : rs.services = rs'.services)
    (svcMeth : Name) : rs.dispatch svcMeth = rs'.dispatch svcMeth := by
  simp only [Server.dispatch, h]

theorem Traffic.exists_of_tally {wire : Wire Q R} {t : Traffic E S Q R} {c : Pending E S Q R} {m : Move R} {j : Nat}
    {rs : Server} (h : (t.tally wire c m).pool[j]? = some rs) :
    ∃ rs₀, t.pool[j]? = some rs₀ ∧ rs₀.services = rs.services := by
  unfold Traffic.tally at h
  split at h
  · exact ⟨rs, h, rfl⟩
  · rw [List.getElem?_modify] at h
    obtain ⟨rs₀, hrs₀, rfl⟩ := Option.map_eq_some_iff.mp h
    refine ⟨rs₀, hrs₀, ?_⟩
    split <;> rfl
  · exact ⟨rs, h, rfl⟩
  · exact ⟨rs, h, rfl⟩

theorem Traffic.tally_pool_length {wire : Wire Q R} (t : Traffic E S Q R) (c : Pending E S Q R) (m : Move R) :
    (t.tally wire c m).pool.length = t.pool.length := by
  unfold Traffic.tally
  split <;> simp

theorem Moved.returned [DecidableEq S] {sw : Switch E S} {t : Traffic E S Q R} {e : E}
    {svcMeth : Name} {ph' : Phase S R} {h h' : Handler R} {m : Move R} {msg : Option R}
    (hm : Moved sw t e svcMeth (.returned msg) h m ph' h') : ph' = .returned msg := by
  cases hm <;> rfl

/-- Where the handler can be while `Call` and `processReq` are there. -/
def Paired : Phase S R → Handler R → Prop
  | .sending, h => h = .none
  | .received, h => h = .none
  | .accepted _, h => h = .none
  | .waiting info, h => h.server = some info.server ∧ 0 < h.steps
  | .finished info none, h => h.server = some info.server
  | .finished info (some r), h => ∃ i, h = .ended info.server i r
  | .replying none, _ => True
  | .replying (some r), h => ∃ j i, h = .ended j i r
  | .returned none, _ => True
  | .returned (some r), h => ∃ j i, h = .ended j i r

theorem Paired.advance {ph : Phase S R} {h h' : Handler R} (hp : Paired ph h) (hne : h ≠ .none)
    (hpos : 0 < h.steps) (hsrv : h'.server = h.server)
    (hw : ∀ info, ph = .waiting info → 0 < h'.steps) : Paired ph h' := by
  cases ph with
  | sending | received | accepted => exact absurd hp hne
  | waiting info => exact ⟨hsrv.trans hp.1, hw info rfl⟩
  | finished info reply =>
    cases reply with
    | none => exact hsrv.trans hp
    | some r =>
      obtain ⟨i, rfl⟩ := hp
      simp [Handler.steps] at hpos
  | replying msg | returned msg =>
    cases msg with
    | none => trivial
    | some r =>
      obtain ⟨j, i, rfl⟩ := hp
      simp [Handler.steps] at hpos

theorem Moved.paired [DecidableEq S] {sw : Switch E S} {t : Traffic E S Q R} {e : E}
    {svcMeth : Name} {ph ph' : Phase S R} {h h' : Handler R} {m : Move R}
    (hm : Moved sw t e svcMeth ph h m ph' h') (hp : Paired ph h) : Paired ph' h' := by
  cases hm with
  | giveUp | refuse | dropRequest | checkNone | checkDead | dropReply => trivial
  | receive | accept | alive => exact hp
  | execute => simp [Paired, Handler.server, Handler.steps]
  | dead => exact hp.1
  | collect => simp_all [Paired, Handler.server]
  | checkPassed => exact ⟨_, hp⟩
  | @reply msg _ =>
    cases msg with
    | none => trivial
    | some r => exact hp
  | dispatch | handle | handlerReturns =>
    exact hp.advance (by simp) (by simp [Handler.steps]) rfl fun _ _ => by simp [Handler.steps]
  | drain hw => exact hp.advance (by simp) (by simp [Handler.steps]) rfl fun info h => (hw info h).elim

section

variable [DecidableEq E] [DecidableEq S] {wire : Wire Q R}

inductive Network.Stepped (wire : Wire Q R) (s : Network E S Q R) :
    Event E S Q R → Network E S Q R → Prop
  | call {e svcMeth args} :
      s.switch.ends e →
      Stepped wire s (.call e svcMeth args) ⟨s.switch, s.traffic.call e svcMeth args⟩
  | move {k m c c'} :
      s.traffic.calls[k]? = some c → c.move s.switch s.traffic m = .ok c' →
      Stepped wire s (.move k m)
        ⟨s.switch, { s.traffic.tally wire c m with calls := s.traffic.calls.set k c' }⟩
  | stop : s.switch.done → Stepped wire s .stop ⟨s.switch, { s.traffic with listening := false }⟩
  | makeServer :
      Stepped wire s .makeServer
        ⟨s.switch, { s.traffic with pool := s.traffic.pool ++ [Labrpc.makeServer] }⟩
  | addService {rs svc} :
      Stepped wire s (.addService rs svc)
        ⟨s.switch, { s.traffic with pool := s.traffic.pool.modify rs (·.addService svc) }⟩
  | admin {a sw} :
      a.valid s.traffic.pool.length → s.switch.admin a = .ok sw →
      Stepped wire s (.admin a) ⟨sw, s.traffic⟩

theorem Network.step_ok {s s' : Network E S Q R} {ev : Event E S Q R}
    (h : s.step wire ev = .ok s') : s.Stepped wire ev s' := by
  cases ev with
  | call e svcMeth args =>
    simp only [Network.step] at h
    split at h <;> cases h
    exact .call ‹_›
  | move k m =>
    cases hmove : s.traffic.move wire s.switch k m with
    | error x => simp [Network.step, hmove, Except.map] at h
    | ok t =>
      obtain rfl : { s with traffic := t } = s' := by
        simpa [Network.step, hmove, Except.map] using h
      obtain ⟨c, c', hc, hcmove, rfl⟩ := Traffic.move_ok hmove
      exact .move hc hcmove
  | stop =>
    simp only [Network.step] at h
    split at h <;> cases h
    exact .stop ‹_›
  | makeServer =>
    cases h
    exact .makeServer
  | addService rs svc =>
    cases h
    exact .addService
  | admin a =>
    simp only [Network.step] at h
    split at h
    · rename_i hvalid
      cases hadmin : s.switch.admin a with
      | error x => simp [hadmin, Except.map] at h
      | ok sw =>
        rw [hadmin] at h
        cases h
        exact .admin hvalid hadmin
    · cases h

abbrev Network.Run (wire : Wire Q R) (σ : List (Network E S Q R)) : Prop :=
  History.Run Network.makeNetwork (fun s e s' => s.step wire e = .ok s') σ

/-- What holds of a call when it is made, is kept by its moves and is never unsaid by later
states holds of every call. -/
theorem Network.Run.forall_calls {P : List (Network E S Q R) → Nat → Pending E S Q R → Prop}
    {s : Network E S Q R} {σ : List (Network E S Q R)} (hrun : Network.Run wire (s :: σ))
    (hmono : ∀ s σ k c, P σ k c → P (s :: σ) k c)
    (hnew : ∀ σ k e svcMeth args, P σ k { endname := e, svcMeth, args })
    (hmove : ∀ s s' σ k m c c', Network.Run wire (s :: σ) → P (s :: σ) k c →
      s.traffic.calls[k]? = some c → s'.traffic.calls[k]? = some c' →
      c.move s.switch s.traffic m = .ok c' → P (s' :: s :: σ) k c') :
    ∀ k c, s.traffic.calls[k]? = some c → P (s :: σ) k c := by
  generalize hτ : s :: σ = τ at hrun ⊢
  induction hrun generalizing s σ with
  | init =>
    cases hτ
    simp [Network.makeNetwork, Traffic.make]
  | @step s₀ s' σ₀ ev hrun hstep ih =>
    cases hτ
    intro k c hc
    have hold {k c} (hc : s₀.traffic.calls[k]? = some c) : P (s' :: s₀ :: σ₀) k c :=
      hmono _ _ _ _ (ih rfl k c hc)
    cases Network.step_ok hstep with
    | call =>
      rcases Position.of_concat hc with hc | ⟨rfl, rfl⟩
      · exact hold hc
      · exact hnew _ _ _ _ _
    | move hc₀ hm =>
      rcases Position.of_set hc with ⟨rfl, rfl⟩ | ⟨_, hc'⟩
      · exact hmove _ _ _ _ _ _ _ hrun (ih rfl _ _ hc₀) hc₀ hc hm
      · exact hold hc'
    | stop | makeServer | addService | admin => exact hold hc

end

end MrAndRaft.Labrpc
