import MrAndRaft.MapReduce.Equivalence
import MrAndRaft.MapReduce.Finality

/-! A job from its first `GetTask` to `Done`: what is in the output files then, and that no crash
keeps the coordinator from getting there. -/

namespace MrAndRaft.MapReduce

variable {app : App} {std : Stdlib} {fs₀ : Files} {files : List Bytes} {nReduce : Nat}

namespace Job

variable {s : Job} {σ : List Job}

theorem Run.remaining_of_done (hn : 1 ≤ nReduce) (h : Run files nReduce σ) (hs : s ∈ σ)
    (hdone : s.coordinator.done = true) (ty : TaskType) : s.coordinator.remaining ty = 0 := by
  have hok := h.ok s hs
  have hreduce : s.coordinator.remaining .reduce = 0 := by
    have hleft := hok.left .reduce
    rw [Coordinator.left, done_reducesLeft (.inl hdone)] at hleft
    omega
  cases ty with
  | reduce => exact hreduce
  | map =>
    -- some reduce task is completed, so the map phase is over
    have hpos : 0 < (s.coordinator.tasks .reduce).length := by
      rw [Coordinator.tasks, h.length_reduceTasks hs]
      exact hn
    have hst := Coordinator.status_of_getElem? (List.getElem?_eq_getElem hpos)
    refine hok.phase 0 _ hst ?_
    rw [Coordinator.completed_of_remaining hreduce hst]
    decide

theorem Run.completed_of_done (hn : 1 ≤ nReduce) (h : Run files nReduce σ) (hs : s ∈ σ)
    (hdone : s.coordinator.done = true) {ty : TaskType} {i : Nat}
    (hi : i < ((Coordinator.make files nReduce).tasks ty).length) :
    s.coordinator.status ty i = some .completed := by
  rw [← h.length_tasks hs ty] at hi
  have hst := Coordinator.status_of_getElem? (List.getElem?_eq_getElem hi)
  rwa [Coordinator.completed_of_remaining (h.remaining_of_done hn hs hdone ty) hst] at hst

end Job

namespace System

open Schedule

variable {s : System} {σ : List System}

theorem Run.outputs_perm (hn : 1 ≤ nReduce) (hvalid : app.Utf8On fs₀ files)
    (hreduce : app.Unordered) (hsep : Separate files nReduce)
    (h : Run app std fs₀ files nReduce HandsOutFree σ) (hs : s ∈ σ)
    (hdone : s.job.coordinator.done = true) :
    (∀ i < files.length, Readable fs₀ files i) ∧ (distributedLines s.pool.fs nReduce).Perm
      (Pieces.lines nl (outputs app (std.sort (allEmitted app fs₀ files))).flatten) := by
  obtain ⟨τ, hτ⟩ := h.job s hs
  have hok := (Run.forall_ok hsep h s hs).pool
  have hcomplete (ty : TaskType) (i : Nat)
      (hi : i < ((Coordinator.make files nReduce).tasks ty).length) :
      Complete app std fs₀ files nReduce s.pool.fs ty i :=
    hok.complete ty i (hτ.completed_of_done hn List.mem_cons_self hdone hi)
  have hmap : ∀ i < files.length, Readable fs₀ files i := fun i hi =>
    (hcomplete .map i (by simpa [Coordinator.make, Coordinator.tasks] using hi)).1
  have hout : ∀ r ∈ List.range nReduce, Pieces.lines nl ((s.pool.fs (outName r)).getD []) =
      Pieces.lines nl (reduceLines app std fs₀ files nReduce r).flatten := by
    intro r hr
    have hr := hcomplete .reduce r (by simpa [Coordinator.make, Coordinator.tasks] using hr)
    rw [Complete] at hr
    rw [hr, Option.getD_some]
  refine ⟨hmap, ?_⟩
  rw [distributedLines, List.flatMap_congr hout]
  exact reduceLines_perm_on hn hvalid hreduce

theorem done_output (hn : 1 ≤ nReduce) (hvalid : app.Utf8On fs₀ files) (hreduce : app.Unordered)
    (hsep : Separate files nReduce) (h : Run app std fs₀ files nReduce HandsOutFree σ) (hs : s ∈ σ)
    (hdone : s.job.coordinator.done = true) :
    (distributedLines s.pool.fs nReduce).Perm (sequentialLines app std fs₀ files) := by
  obtain ⟨hread, hperm⟩ := Run.outputs_perm hn hvalid hreduce hsep h hs hdone
  rwa [sequentialLines_eq hread]

theorem done_output_crashed : ∃ s σ, Run countApp .json oneFile [[97]] 1 HandsOutFree (s :: σ) ∧
    s.job.coordinator.done = true ∧ distributedLines s.pool.fs 1 = [[120, 32, 49]] ∧
      (distributedLines s.pool.fs 1).Perm (sequentialLines countApp .json oneFile [[97]]) := by
  obtain ⟨s, σ, h, hdone, hlines⟩ := exists_run HandsOutFree
    (fun s => s.job.coordinator.done = true ∧ distributedLines s.pool.fs 1 = [[120, 32, 49]])
    crashed (by decide +kernel)
  have hvalid : countApp.Utf8On oneFile [[97]] := by
    intro f hf c hc kv hkv
    obtain rfl := List.mem_singleton.mp hf
    obtain rfl : [120] = c := Option.some.inj hc
    obtain rfl := List.mem_singleton.mp hkv
    exact ⟨⟨['x'], by decide⟩, ⟨['1'], by decide⟩⟩
  have hreduce : countApp.Unordered := fun _ _ _ h => congrArg itoa h.length_eq
  exact ⟨s, σ, h, hdone, hlines,
    done_output (le_refl 1) hvalid hreduce (by decide) h List.mem_cons_self hdone⟩

end System

end MrAndRaft.MapReduce
