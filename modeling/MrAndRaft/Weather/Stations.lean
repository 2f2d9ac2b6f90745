import MrAndRaft.Lib.Batches
import Mathlib.Algebra.Field.Rat

/-! What the two weather aggregators have in common: the calls they make for a batch, the
variables they gather the replies in, and what they report.  Temperatures are exact numbers. -/

namespace MrAndRaft.Weather

open Batching History

structure WeatherReport where
  value : Rat
  id : Int
  batch : Int
  deriving DecidableEq, Repr

@[ext]
structure Request where
  station : Nat
  batch : Int
  deriving DecidableEq, Repr

structure Goroutine (P : Type) where
  request : Request
  pc : P
  deriving DecidableEq, Repr

structure Emission where
  total : Rat
  count : Nat
  batch : Int
  deriving DecidableEq, Repr

/-- `total / float64(count)`, which is NaN if there was no reply. -/
def Emission.value (e : Emission) : Option Rat :=
  if e.count = 0 then none else some (e.total / e.count)

structure Accumulator where
  batch : Int
  total : Rat
  count : Nat
  deriving DecidableEq, Repr

namespace Accumulator

def init : Accumulator := ⟨0, 0, 0⟩

def add (a : Accumulator) (report : WeatherReport) : Accumulator :=
  if report.batch = a.batch then { a with total := a.total + report.value, count := a.count + 1 }
  else a

def emission (a : Accumulator) : Emission := ⟨a.total, a.count, a.batch⟩

def reset (a : Accumulator) : Accumulator := ⟨a.batch + 1, 0, 0⟩

end Accumulator

section Machine

structure Reply where
  request : Request
  value : Rat
  deriving DecidableEq, Repr

def Reply.station (reply : Reply) : Nat := reply.request.station

def Reply.batch (reply : Reply) : Int := reply.request.batch

/-- The batch machine counts one reply of each station, while the batch it was asked for is
open. -/
def Takes : Batches Reply → Label Reply → Prop := Batches.Takes Reply.batch Reply.station

def emissions (closed : List (List Reply)) : List Emission :=
  closed.mapIdx fun i replies => ⟨(replies.map Reply.value).sum, replies.length, i⟩

theorem emissions_concat (closed : List (List Reply)) (replies : List Reply) :
    emissions (closed ++ [replies]) =
      emissions closed ++ [⟨(replies.map Reply.value).sum, replies.length, closed.length⟩] := by
  simp [emissions]

def counted (a : Accumulator) (request : Request) (report : WeatherReport) :
    Option (Label Reply) :=
  if report.batch = a.batch then some (.accept ⟨request, report.value⟩) else none

end Machine

/-- Where an aggregator is: it has made the first calls for the batch that is open, or it
reports on the batch before. -/
inductive Phase
  | gathering (launched : Nat)
  | sending (e : Emission)
  | sent

def Phase.launched : Phase → Nat
  | .gathering launched => launched
  | .sending _ | .sent => 0

def Phase.Agrees (a : Accumulator) (out : List Emission) (b : Batches Reply) : Phase → Prop
  | .gathering _ => a = ⟨b.closed.length, (b.current.map Reply.value).sum, b.current.length⟩ ∧
      out = emissions b.closed
  | .sending e => a.batch + 1 = b.closed.length ∧ b.current = [] ∧ out ++ [e] = emissions b.closed
  | .sent => a.batch + 1 = b.closed.length ∧ b.current = [] ∧ out = emissions b.closed

/-- An aggregator follows the batch machine.  `carries` is the report that a goroutine has got
and not brought yet, and `done` says that it has brought it. -/
structure Follows {P : Type} (k : Int) (carries : P → Option WeatherReport) (done : P → Prop)
    (phase : Phase) (a : Accumulator) (out : List Emission) (gs : List (Goroutine P))
    (b : Batches Reply) : Prop where
  nodup : (gs.map Goroutine.request).Nodup
  asked : ∀ r ∈ gs.map Goroutine.request, (r.station : Int) < k ∧
    (r.batch < b.closed.length ∨ r.batch = b.closed.length ∧ r.station < phase.launched)
  current : ∀ reply ∈ b.current, reply.batch = b.closed.length ∧
    ∃ (j : Nat) (g : Goroutine P), gs[j]? = some g ∧ g.request = reply.request ∧ done g.pc
  asAsked : ∀ g ∈ gs, ∀ report ∈ carries g.pc, report.batch = g.request.batch
  agrees : phase.Agrees a out b

namespace Follows

variable {P : Type} {k : Int} {carries : P → Option WeatherReport} {done : P → Prop} {phase : Phase}
  {a : Accumulator} {out : List Emission} {gs : List (Goroutine P)} {b : Batches Reply} {i j : Nat} {g : Goroutine P}
  {pc : P} {e : Emission}

theorem init (k : Int) (carries : P → Option WeatherReport) (done : P → Prop) :
    Follows k carries done (.gathering 0) .init [] [] .empty :=
  ⟨.nil, by simp, by simp [Batches.empty], by simp, rfl, rfl⟩

theorem batch_eq (h : Follows k carries done (.gathering i) a out gs b) : a.batch = b.closed.length := by
  rw [h.agrees.1]

theorem launch (h : Follows k carries done (.gathering i) a out gs b) (hi : (i : Int) < k)
    (hpc : carries pc = none) :
    Follows k carries done (.gathering (i + 1)) a out (gs ++ [⟨⟨i, a.batch⟩, pc⟩]) b where
  nodup := by
    rw [List.map_append, List.map_singleton, ← List.concat_eq_append]
    refine List.Nodup.concat (fun hmem => ?_) h.nodup
    have hlaunched := (h.asked _ hmem).2
    simp [h.batch_eq, Phase.launched] at hlaunched
  asked r hr := by
    rw [List.map_append, List.map_singleton, List.mem_append, List.mem_singleton] at hr
    rcases hr with hr | rfl
    · obtain ⟨hstation, hbatch⟩ := h.asked r hr
      exact ⟨hstation, hbatch.imp_right fun ⟨hb, hl⟩ => ⟨hb, Nat.lt_succ_of_lt hl⟩⟩
    · exact ⟨hi, .inr ⟨h.batch_eq, Nat.lt_succ_self i⟩⟩
  current reply hreply := by
    obtain ⟨hbatch, j, g, hg, hrest⟩ := h.current reply hreply
    exact ⟨hbatch, j, g, Prefix.getElem? (List.prefix_append _ _) hg, hrest⟩
  asAsked g hg := by
    rcases List.mem_append.mp hg with hg | hg
    · exact h.asAsked g hg
    · simp [List.mem_singleton.mp hg, hpc]
  agrees := h.agrees

theorem launched (h : Follows k carries done (.gathering i) a out gs b) :
    Follows k carries done (.gathering k.toNat) a out gs b where
  nodup := h.nodup
  asked r hr := by
    obtain ⟨hstation, hbatch⟩ := h.asked r hr
    exact ⟨hstation, hbatch.imp_right fun ⟨hb, _⟩ => ⟨hb, by simp only [Phase.launched]; omega⟩⟩
  current := h.current
  asAsked := h.asAsked
  agrees := h.agrees

theorem map_request_set (hg : gs[j]? = some g) (pc : P) :
    (gs.set j ⟨g.request, pc⟩).map Goroutine.request = gs.map Goroutine.request := by
  have hrequest : (gs.map Goroutine.request)[j]? = some g.request := by rw [List.getElem?_map, hg]; rfl
  rw [List.map_set, (List.getElem?_eq_some_iff.mp hrequest).2.symm, List.set_getElem_self]

theorem move (h : Follows k carries done phase a out gs b) (hg : gs[j]? = some g) (pc : P)
    (hdone : done g.pc → done pc) (hcarries : ∀ report ∈ carries pc, report.batch = g.request.batch) :
    Follows k carries done phase a out (gs.set j ⟨g.request, pc⟩) b where
  nodup := by
    rw [map_request_set hg]
    exact h.nodup
  asked := by
    rw [map_request_set hg]
    exact h.asked
  current reply hreply := by
    obtain ⟨hbatch, j', g', hg', hrequest, hd⟩ := h.current reply hreply
    refine ⟨hbatch, j', ?_⟩
    by_cases hj : j' = j
    · subst hj
      obtain rfl := Option.some.inj (hg.symm.trans hg')
      exact ⟨⟨g.request, pc⟩, List.getElem?_set_self (List.getElem?_eq_some_iff.mp hg).1, hrequest,
        hdone hd⟩
    · exact ⟨g', by rw [List.getElem?_set_ne (Ne.symm hj), hg'], hrequest, hd⟩
  asAsked g' hg' := by
    rcases List.mem_or_eq_of_mem_set hg' with hg' | rfl
    · exact h.asAsked g' hg'
    · exact hcarries
  agrees := h.agrees

theorem add {report : WeatherReport} (h : Follows k carries done (.gathering i) a out gs b)
    (hg : gs[j]? = some g) (hreport : carries g.pc = some report) (hnew : ¬ done g.pc)
    (hdone : done pc) (hcarries : carries pc = none) :
    Matches Takes .next
      (Follows k carries done (.gathering i) (a.add report) out (gs.set j ⟨g.request, pc⟩)) b
      (counted a g.request report) := by
  have hmove := h.move hg pc (fun hd => absurd hd hnew) (by simp [hcarries])
  unfold counted
  split
  case isFalse hne =>
    rw [Accumulator.add, if_neg hne]
    exact hmove
  case isTrue heq =>
    have hbatch : g.request.batch = b.closed.length := by
      rw [← h.asAsked g (List.mem_of_getElem? hg) report hreport, heq, h.batch_eq]
    refine ⟨⟨hbatch, fun hmem => ?_⟩, hmove.nodup, hmove.asked, ?_, hmove.asAsked, ?_⟩
    · -- the same station for the same batch is the same goroutine
      obtain ⟨reply, hreply, hstation⟩ := List.mem_map.mp hmem
      obtain ⟨hreplyBatch, j', g', hg', hrequest, hd⟩ := h.current reply hreply
      have hsame : g'.request = g.request := by
        rw [hrequest]
        exact Request.ext hstation (hreplyBatch.trans hbatch.symm)
      have hgg := List.inj_on_of_nodup_map h.nodup (List.mem_of_getElem? hg')
        (List.mem_of_getElem? hg) hsame
      exact hnew (hgg ▸ hd)
    · intro reply hreply
      rcases List.mem_append.mp hreply with hreply | hreply
      · exact hmove.current reply hreply
      · rw [List.mem_singleton.mp hreply]
        exact ⟨hbatch, j, _, List.getElem?_set_self (List.getElem?_eq_some_iff.mp hg).1, rfl, hdone⟩
    · obtain ⟨rfl, rfl⟩ := h.agrees
      rw [Accumulator.add, if_pos heq]
      simp [Phase.Agrees, Batches.next]

theorem average (h : Follows k carries done (.gathering i) a out gs b) :
    Follows k carries done (.sending a.emission) a out gs (b.next .tick) where
  nodup := h.nodup
  asked r hr := by
    obtain ⟨hstation, hbatch⟩ := h.asked r hr
    refine ⟨hstation, .inl ?_⟩
    simp only [Batches.next, List.length_append, List.length_singleton]
    omega
  current := by simp [Batches.next]
  asAsked := h.asAsked
  agrees := by
    obtain ⟨rfl, rfl⟩ := h.agrees
    simp [Phase.Agrees, Batches.next, emissions_concat, Accumulator.emission]

theorem send (h : Follows k carries done (.sending e) a out gs b) :
    Follows k carries done .sent a (out ++ [e]) gs b :=
  ⟨h.nodup, h.asked, h.current, h.asAsked, h.agrees⟩

theorem reset (h : Follows k carries done .sent a out gs b) :
    Follows k carries done (.gathering 0) a.reset out gs b where
  nodup := h.nodup
  asked := h.asked
  current := h.current
  asAsked := h.asAsked
  agrees := by
    obtain ⟨hbatch, hcurrent, hout⟩ := h.agrees
    exact ⟨by simp [Accumulator.reset, hbatch, hcurrent], hout⟩

end Follows

end MrAndRaft.Weather
