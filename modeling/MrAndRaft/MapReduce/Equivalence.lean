import MrAndRaft.Lib.History
import MrAndRaft.MapReduce.Pool

/-! The workers together compute what `mrsequential` computes: the same lines, spread over
the output files. -/

namespace MrAndRaft.MapReduce

variable {app : App} {std : Stdlib} {fs₀ fs : Files} {files : List Bytes} {nReduce : Nat}

def nl : UInt8 := ('\n').toUInt8

def App.Utf8 (app : App) : Prop :=
  ∀ f c, ∀ kv ∈ app.mapf f c, ValidUtf8 kv.key ∧ ValidUtf8 kv.value

def App.Utf8On (app : App) (fs : Files) (files : List Bytes) : Prop :=
  ∀ f ∈ files, ∀ c, fs f = some c → ∀ kv ∈ app.mapf f c, ValidUtf8 kv.key ∧ ValidUtf8 kv.value

def App.Unordered (app : App) : Prop :=
  ∀ key values values', values.Perm values' → app.reducef key values = app.reducef key values'

def allEmitted (app : App) (fs : Files) (files : List Bytes) : List KeyValue :=
  files.flatMap fun f => ((fs f).map (app.mapf f)).getD []

theorem decodeLoop_flatMap {kva : List KeyValue} {n : Nat}
    (hvalid : ∀ kv ∈ kva, ValidUtf8 kv.key ∧ ValidUtf8 kv.value)
    (hn : (kva.flatMap std.encode).length ≤ n) : decodeLoop std n (kva.flatMap std.encode) = kva := by
  have hnil : std.decode [] = none := by
    cases h : std.decode [] with
    | none => rfl
    | some x => exact absurd (std.decode_shorter [] x.1 x.2 h) (Nat.not_lt_zero _)
  induction kva generalizing n with
  | nil => cases n <;> simp [decodeLoop, hnil]
  | cons kv kva ih =>
    obtain ⟨hkey, hvalue⟩ := hvalid kv List.mem_cons_self
    have hdecode := std.decode_encode kv (kva.flatMap std.encode) hkey hvalue
    have hshorter := std.decode_shorter _ _ _ hdecode
    rw [List.flatMap_cons] at hn ⊢
    cases n with
    | zero => omega
    | succ n =>
      rw [decodeLoop, hdecode]
      exact congrArg (kv :: ·) (ih (fun kv h => hvalid kv (List.mem_cons_of_mem _ h)) (by omega))

theorem decodeAll_bucket {kva : List KeyValue}
    (hvalid : ∀ kv ∈ kva, ValidUtf8 kv.key ∧ ValidUtf8 kv.value) (r : Nat) :
    decodeAll std (bucket std nReduce kva r) = kva.filter fun kv => ihash kv.key % nReduce = r :=
  decodeLoop_flatMap (fun kv h => hvalid kv (List.mem_filter.mp h).1) (le_refl _)

theorem flatMap_emitted (app : App) (fs : Files) (files : List Bytes) :
    (List.range files.length).flatMap (emitted app fs files) = allEmitted app fs files := by
  induction files with
  | nil => rfl
  | cons f files ih =>
    rw [List.length_cons, List.range_succ_eq_map, List.flatMap_cons, List.flatMap_map]
    exact congrArg (_ ++ ·) ih

theorem gathered_eq (hvalid : app.Utf8On fs₀ files) (r : Nat) :
    gathered app std fs₀ files nReduce files.length r =
      (allEmitted app fs₀ files).filter fun kv => ihash kv.key % nReduce = r := by
  have hemitted : ∀ i, ∀ kv ∈ emitted app fs₀ files i, ValidUtf8 kv.key ∧ ValidUtf8 kv.value := by
    intro i kv hkv
    simp only [emitted] at hkv
    split at hkv
    · cases hkv
    · rename_i f hf
      cases hc : fs₀ f with
      | none => simp [hc] at hkv
      | some c => exact hvalid f (List.mem_of_getElem? hf) c hc kv (by simpa [hc] using hkv)
  simp only [gathered, decodeAll_bucket (hemitted _), ← flatMap_emitted, List.filter_flatMap]

theorem mapInputs_eq (h : ∀ f ∈ files, (fs f).isSome) (intermediate : List KeyValue) :
    mapInputs app fs intermediate files = .ok (intermediate ++ allEmitted app fs files) := by
  induction files generalizing intermediate with
  | nil => simp [mapInputs, allEmitted]
  | cons f files ih =>
    obtain ⟨c, hc⟩ := Option.isSome_iff_exists.mp (h f List.mem_cons_self)
    rw [mapInputs, hc]
    simp only
    rw [ih fun f hf => h f (List.mem_cons_of_mem _ hf)]
    simp [allEmitted, hc]

theorem printAll_self (fs : Files) (name : Bytes) (lines : List Bytes) :
    printAll fs name lines name = some lines.flatten := by
  have hloop : ∀ (written : Bytes) (fs : Files), fs name = some written →
      (lines.foldl (fun (fs, offset) line => (fs.writeAt name offset line, offset + line.length))
        (fs, written.length)).1 name = some (written ++ lines.flatten) := by
    induction lines with
    | nil => simp
    | cons line lines ih =>
      intro written fs hfs
      have := ih (written ++ line) (fs.writeAt name written.length line)
        (FileSystem.writeAt_end hfs line)
      simpa using this
  exact hloop [] (fs.create name) FileSystem.create_self

theorem lines_outputs (xs : List KeyValue) :
    Pieces.lines nl (outputs app xs).flatten = (outputs app xs).flatMap (Pieces.lines nl) := by
  refine Pieces.lines_flatten fun t ht => ?_
  obtain ⟨p, -, rfl⟩ := List.mem_map.mp ht
  exact ⟨_, rfl⟩

theorem outputs_sort (hreduce : app.Unordered) (xs : List KeyValue) :
    (outputs app (std.sort xs) : Multiset Bytes) = (Pieces.byKey KeyValue.key xs).map fun p =>
      line p.1 (app.reducef p.1 (p.2.map KeyValue.value)) := by
  have hperm : (Pieces.byKey KeyValue.key (std.sort xs)).map (fun p =>
      line p.1 (app.reducef p.1 (p.2.map KeyValue.value))) = _ :=
    Pieces.map_byKey_perm (f := fun key group => line key (app.reducef key (group.map KeyValue.value)))
      (fun key g g' h => congrArg (line key) (hreduce key _ _ (h.map _))) (std.sort_perm xs)
  rw [← hperm, ← Pieces.runs_eq (std.sort_sorted xs), Multiset.map_coe]
  rfl

theorem reduceLines_perm_on (hn : 1 ≤ nReduce) (hvalid : app.Utf8On fs₀ files)
    (hreduce : app.Unordered) :
    ((List.range nReduce).flatMap fun r =>
      Pieces.lines nl (reduceLines app std fs₀ files nReduce r).flatten).Perm
      (Pieces.lines nl (outputs app (std.sort (allEmitted app fs₀ files))).flatten) := by
  have hkeys : ∀ r, Pieces.byKey KeyValue.key
      ((allEmitted app fs₀ files).filter fun kv => ihash kv.key % nReduce = r) =
        (Pieces.byKey KeyValue.key (allEmitted app fs₀ files)).filter
          fun p => ihash p.1 % nReduce = r :=
    fun r => Pieces.byKey_filter (fun key => ihash key % nReduce = r) _
  have hwhole : ((Multiset.range nReduce).bind fun r =>
      (reduceLines app std fs₀ files nReduce r : Multiset Bytes)) =
        outputs app (std.sort (allEmitted app fs₀ files)) := by
    simp only [reduceLines, gathered_eq hvalid, outputs_sort hreduce, hkeys]
    rw [← Multiset.map_bind, Pieces.bind_filter fun p _ => Nat.mod_lt _ hn]
  have hlines : ∀ r, Pieces.lines nl (reduceLines app std fs₀ files nReduce r).flatten =
      (reduceLines app std fs₀ files nReduce r).flatMap (Pieces.lines nl) :=
    fun r => lines_outputs _
  rw [← Multiset.coe_eq_coe, lines_outputs, ← Multiset.coe_bind, ← Multiset.coe_bind, ← hwhole,
    Multiset.bind_assoc]
  simp only [hlines, ← Multiset.coe_bind]
  rfl

theorem reduceLines_perm (hn : 1 ≤ nReduce) (hvalid : app.Utf8) (hreduce : app.Unordered) :
    ((List.range nReduce).flatMap fun r =>
      Pieces.lines nl (reduceLines app std fs₀ files nReduce r).flatten).Perm
      (Pieces.lines nl (outputs app (std.sort (allEmitted app fs₀ files))).flatten) :=
  reduceLines_perm_on hn (fun f _ c _ => hvalid f c) hreduce

/-- Workers without a coordinator; `settled` are the tasks that ran to completion. -/
structure Schedule where
  pool : Pool
  settled : List (TaskType × Nat)

inductive Schedule.Event where
  | start (ty : TaskType) (i : Nat)
  | fileOp (k n : Nat)
  | finish (k : Nat)
  deriving DecidableEq, Repr

namespace Schedule

def Started (s : Schedule) (ty : TaskType) (i : Nat) : Prop :=
  ∃ r ∈ s.pool.attempts.map Attempt.reply, r.taskType = some ty ∧ r.id = i

def Startable (files : List Bytes) (s : Schedule) (ty : TaskType) (i : Nat) : Prop :=
  ¬ s.Started ty i ∧ (ty = .reduce → ∀ m < files.length, (.map, m) ∈ s.settled)

instance (s : Schedule) (ty : TaskType) (i : Nat) : Decidable (s.Started ty i) :=
  inferInstanceAs (Decidable (∃ r ∈ s.pool.attempts.map Attempt.reply, _ ∧ _))

instance (s : Schedule) (ty : TaskType) (i : Nat) : Decidable (Startable files s ty i) :=
  inferInstanceAs (Decidable (_ ∧ (_ → ∀ m < files.length, _)))

def step (app : App) (std : Stdlib) (files : List Bytes) (nReduce : Nat) (s : Schedule) :
    Event → Except Job.Fault Schedule
  | .start ty i =>
    match assignment files nReduce ty i with
    | none => .error .outOfRange
    | some reply =>
      if Startable files s ty i then .ok { s with pool := s.pool.start reply }
      else .error .disabled
  | .fileOp k n => .ok { s with pool := s.pool.fileOp app std k n }
  | .finish k =>
    match s.pool.attempts[k]? with
    | some ⟨reply, .finished⟩ =>
      .ok ⟨s.pool.setPhase k .dead,
        (reply.taskType.toList.map fun ty => (ty, reply.id)) ++ s.settled⟩
    | _ => .error .disabled

def Run (app : App) (std : Stdlib) (fs : Files) (files : List Bytes) (nReduce : Nat)
    (σ : List Schedule) : Prop :=
  History.Run ⟨⟨fs, []⟩, []⟩ (fun s e s' => s.step app std files nReduce e = .ok s') σ

def Done (files : List Bytes) (nReduce : Nat) (s : Schedule) : Prop :=
  (∀ i < files.length, (.map, i) ∈ s.settled) ∧ ∀ r < nReduce, (.reduce, r) ∈ s.settled

structure Ok (app : App) (std : Stdlib) (fs₀ : Files) (files : List Bytes) (nReduce : Nat)
    (s : Schedule) : Prop where
  started : ∀ ty i, (ty, i) ∈ s.settled → s.Started ty i
  pool : Pool.Ok app std fs₀ files nReduce (fun ty i => (ty, i) ∈ s.settled) s.pool
  unread : ∀ t f, ¬ s.Started .map t → files[t]? = some f → s.pool.fs f = fs₀ f

variable {s s' : Schedule} {e : Event} {σ : List Schedule}

theorem Started.start {ty : TaskType} {i : Nat} {reply : GetTaskReply} (h : s.Started ty i) :
    Started { s with pool := s.pool.start reply } ty i := by
  obtain ⟨r, hr, hat⟩ := h
  refine ⟨r, ?_, hat⟩
  rw [Pool.start, List.map_append]
  exact List.mem_append_left _ hr

theorem Ok.unread_fileOp (hsep : Unshared files nReduce) (h : s.Ok app std fs₀ files nReduce)
    (k n : Nat) {t : Nat} {f : Bytes} (ht : ¬ s.Started .map t) (hf : files[t]? = some f) :
    (s.pool.fileOp app std k n).fs f = fs₀ f := by
  obtain ⟨hlt, -⟩ := List.getElem?_eq_some_iff.mp hf
  refine (h.pool.fileOp_fs k n fun a ha ty i hw hown => ?_).trans (h.unread t f ht hf)
  cases ty with
  | map =>
    obtain ⟨j, hj, rfl⟩ := hown
    obtain rfl := hsep t hlt i (lt_of_assignment hw.assigned) j hj hf
    exact ht ⟨a.reply, List.mem_map_of_mem (List.mem_of_getElem? ha),
      Attempt.at_of_assignment hw.assigned⟩
  | reduce => exact ht (h.started .map t (hw.maps rfl t hlt))

theorem Ok.step (hsep : Unshared files nReduce) (h : s.Ok app std fs₀ files nReduce)
    (hstep : s.step app std files nReduce e = .ok s') : s'.Ok app std fs₀ files nReduce := by
  cases e with
  | start ty i =>
    simp only [Schedule.step] at hstep
    split at hstep
    · cases hstep
    · rename_i reply hreply
      split at hstep
      · rename_i hstart
        cases hstep
        refine ⟨fun ty i hs => (h.started ty i hs).start, ?_,
          fun t f ht => h.unread t f fun hs => ht hs.start⟩
        refine h.pool.start hreply (fun hs => hstart.1 (h.started ty i hs)) hstart.2 ?_ ?_
        · intro a ha _ hat
          exact hstart.1 ⟨a.reply, List.mem_map_of_mem ha, hat⟩
        · rintro rfl f
          exact h.unread i f hstart.1
      · cases hstep
  | fileOp k n =>
    cases hstep
    have hsame : ∀ ty i, Started { s with pool := s.pool.fileOp app std k n } ty i ↔
        s.Started ty i := fun ty i => by rw [Started, Pool.map_reply_fileOp, Started]
    refine ⟨fun ty i hs => (hsame ty i).mpr (h.started ty i hs), h.pool.fileOp hsep k n, ?_⟩
    exact fun t f ht => h.unread_fileOp hsep k n fun hs => ht ((hsame .map t).mpr hs)
  | finish k =>
    simp only [Schedule.step] at hstep
    split at hstep
    · rename_i reply ha
      cases hstep
      have hunread : ∀ settled t f, ¬ Started ⟨s.pool.setPhase k .dead, settled⟩ .map t →
          files[t]? = some f → s.pool.fs f = fs₀ f := by
        intro settled t f ht
        rw [Started, Pool.map_reply_setPhase] at ht
        exact h.unread t f ht
      cases hty : reply.taskType with
      | none =>
        refine ⟨fun ty i hs => ?_, h.pool.kill k, hunread _⟩
        rw [Started, Pool.map_reply_setPhase]
        exact h.started ty i hs
      | some ty =>
        refine ⟨fun ty' i' hs => ?_, ?_, hunread _⟩
        · rw [Started, Pool.map_reply_setPhase]
          rcases List.mem_cons.mp hs with heq | hs
          · cases heq
            exact ⟨reply, List.mem_map_of_mem (List.mem_of_getElem? ha), hty, rfl⟩
          · exact h.started ty' i' hs
        · refine (h.pool.settle ha rfl ⟨hty, rfl⟩).congr fun ty' i' => ?_
          simp [or_comm]
    · cases hstep

theorem Run.forall_ok (hsep : Unshared files nReduce)
    (h : Run app std fs₀ files nReduce σ) : ∀ s ∈ σ, s.Ok app std fs₀ files nReduce := by
  refine History.Run.forall_mem h
    ⟨nofun, (Pool.Ok.init fs₀).congr fun ty i => ?_, fun _ _ _ _ => rfl⟩ ?_
  · simp
  · intro s e s' hs hstep
    exact hs.step hsep hstep

def sequentialLines (app : App) (std : Stdlib) (fs : Files) (files : List Bytes) : List Bytes :=
  match mrsequential app std fs files with
  | .error _ => []
  | .ok fs => Pieces.lines nl ((fs (outName 0)).getD [])

def distributedLines (fs : Files) (nReduce : Nat) : List Bytes :=
  (List.range nReduce).flatMap fun r => Pieces.lines nl ((fs (outName r)).getD [])

theorem sequentialLines_eq (h : ∀ i < files.length, Readable fs₀ files i) :
    sequentialLines app std fs₀ files =
      Pieces.lines nl (outputs app (std.sort (allEmitted app fs₀ files))).flatten := by
  have hsome : ∀ f ∈ files, (fs₀ f).isSome := by
    intro f hf
    obtain ⟨i, hi, rfl⟩ := List.getElem_of_mem hf
    have := h i hi
    simpa [Readable, hi] using this
  by_cases hfiles : files = []
  · subst hfiles
    have hsort : std.sort (allEmitted app fs₀ []) = [] := (std.sort_perm []).eq_nil
    rw [hsort]
    rfl
  · have hrun : mrsequential app std fs₀ files =
        .ok (printAll fs₀ (outName 0) (outputs app (std.sort (allEmitted app fs₀ files)))) := by
      simp [mrsequential, hfiles, mapInputs_eq hsome, bind, Except.bind, pure, Except.pure]
    rw [sequentialLines, hrun]
    simp only [printAll_self, Option.getD_some]

theorem distributedLines_perm (hn : 1 ≤ nReduce) (hvalid : app.Utf8) (hreduce : app.Unordered)
    (hsep : Unshared files nReduce) (h : Run app std fs₀ files nReduce σ) (hs : s ∈ σ)
    (hdone : s.Done files nReduce) :
    (distributedLines s.pool.fs nReduce).Perm (sequentialLines app std fs₀ files) := by
  have hok := (Run.forall_ok hsep h s hs).pool
  have hout : ∀ r ∈ List.range nReduce, Pieces.lines nl ((s.pool.fs (outName r)).getD []) =
      Pieces.lines nl (reduceLines app std fs₀ files nReduce r).flatten := by
    intro r hr
    have hr := hok.complete .reduce r (hdone.2 r (List.mem_range.mp hr))
    rw [Complete] at hr
    rw [hr, Option.getD_some]
  rw [distributedLines, List.flatMap_congr hout,
    sequentialLines_eq fun i hi => (hok.complete .map i (hdone.1 i hi)).1]
  exact reduceLines_perm hn hvalid hreduce

def presenceApp : App where
  mapf _ content := if content = [] then [] else [⟨[97], [49]⟩]
  reducef _ values := itoa values.length

theorem presenceApp_utf8 : presenceApp.Utf8 := by
  have ha : ValidUtf8 [97] := ⟨['a'], by decide⟩
  have h1 : ValidUtf8 [49] := ⟨['1'], by decide⟩
  intro f c kv hkv
  by_cases hc : c = []
  · simp [presenceApp, hc] at hkv
  · simp only [presenceApp, hc, if_false, List.mem_singleton] at hkv
    exact hkv ▸ ⟨ha, h1⟩

theorem presenceApp_unordered : presenceApp.Unordered := by
  intro key values values' h
  exact congrArg itoa h.length_eq

def twoFiles (first second : Bytes) : Files :=
  Function.update (Function.update (fun _ => none) first (some [])) second (some [98])

theorem exists_run (fs : Files) (files : List Bytes) (nReduce : Nat) (P : Schedule → Prop)
    [DecidablePred P] (es : List Event)
    (h : (History.exec (fun _ _ => true) (step presenceApp .json files nReduce)
      ⟨⟨fs, []⟩, []⟩ es).any fun s => decide (P s)) :
    ∃ s σ, Run presenceApp .json fs files nReduce (s :: σ) ∧ P s := by
  obtain ⟨s, σ, hrun, hs⟩ := History.exists_run (fun _ _ => True) P es (by simpa using h)
  exact ⟨s, σ, hrun.mono fun _ _ _ hs => hs.2, hs⟩

instance : Decidable (s.Done files nReduce) :=
  inferInstanceAs (Decidable ((∀ i < files.length, _) ∧ ∀ r < nReduce, _))

def interleaved : List Event :=
  List.flatten [[.start .map 1, .start .map 0],
    List.flatten (List.replicate 8 [.fileOp 0 0, .fileOp 1 0]),
    [.finish 1, .finish 0, .start .reduce 0], List.replicate 10 (.fileOp 2 99), [.finish 2]]

/-- The second input is `mr-1-0`, a file of its own task. -/
theorem distributedLines_perm_interleaved : ∃ s σ,
    Run presenceApp .json (twoFiles [120] (intermediateName 1 0)) [[120], intermediateName 1 0] 1
      (s :: σ) ∧ s.Done [[120], intermediateName 1 0] 1 ∧
      distributedLines s.pool.fs 1 = [[97, 32, 49]] ∧
      (distributedLines s.pool.fs 1).Perm (sequentialLines presenceApp .json
        (twoFiles [120] (intermediateName 1 0)) [[120], intermediateName 1 0]) := by
  obtain ⟨s, σ, h, hdone, hlines⟩ := exists_run (twoFiles [120] (intermediateName 1 0))
    [[120], intermediateName 1 0] 1
    (fun s => s.Done [[120], intermediateName 1 0] 1 ∧
      distributedLines s.pool.fs 1 = [[97, 32, 49]]) interleaved (by decide +kernel)
  exact ⟨s, σ, h, hdone, hlines, distributedLines_perm (le_refl 1) presenceApp_utf8
    presenceApp_unordered (by decide) h List.mem_cons_self hdone⟩

/-- The second input is `mr-0-0`, which the first map task empties. -/
def oneAfterTheOther : List Event :=
  List.flatten [[.start .map 0], List.replicate 8 (.fileOp 0 0), [.finish 0, .start .map 1],
    List.replicate 8 (.fileOp 1 0), [.finish 1, .start .reduce 0],
    List.replicate 10 (.fileOp 2 99), [.finish 2]]

theorem input_overwritten : presenceApp.Utf8 ∧ presenceApp.Unordered ∧ ∃ s σ,
    Run presenceApp .json (twoFiles [120] (intermediateName 0 0)) [[120], intermediateName 0 0] 1
      (s :: σ) ∧ s.Done [[120], intermediateName 0 0] 1 ∧
      ¬ (distributedLines s.pool.fs 1).Perm (sequentialLines presenceApp .json
        (twoFiles [120] (intermediateName 0 0)) [[120], intermediateName 0 0]) :=
  ⟨presenceApp_utf8, presenceApp_unordered,
    exists_run _ _ 1 _ oneAfterTheOther (by decide +kernel)⟩

end Schedule

end MrAndRaft.MapReduce
