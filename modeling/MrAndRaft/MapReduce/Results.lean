import MrAndRaft.MapReduce.Worker

/-! What each task has to write, and how far a worker has come with it. -/

namespace MrAndRaft.MapReduce

section Names

variable {i i' j j' r r' : Nat}

theorem toNat_toUInt8_of_isDigit {c : Char} (h : c.isDigit) : c.toUInt8.toNat = c.toNat := by
  rw [Char.isDigit_iff_toNat] at h
  have hc : c.toNat ≤ 57 := h.2
  rw [Char.toUInt8, UInt32.toNat_toUInt8]
  exact Nat.mod_eq_of_lt (by change c.toNat < 256; omega)

theorem isDigit_of_mem {c : Char} (h : c ∈ Nat.toDigits 10 i) : c.isDigit :=
  Nat.isDigit_of_mem_toDigits (by decide) (by decide) h

theorem itoa_injective : Function.Injective itoa := by
  have hback : ∀ n, (itoa n).map (fun b => Char.ofNat b.toNat) = Nat.toDigits 10 n := by
    intro n
    rw [itoa, List.map_map]
    conv_rhs => rw [← List.map_id (Nat.toDigits 10 n)]
    refine List.map_congr_left fun c hc => ?_
    rw [Function.comp_apply, toNat_toUInt8_of_isDigit (isDigit_of_mem hc), Char.ofNat_toNat, id]
  intro m n h
  have hdigits : Nat.toDigits 10 m = Nat.toDigits 10 n := by
    rw [← hback, h, hback]
  have hm : Nat.ofDigitChars 10 (Nat.toDigits 10 m) 0 = m := Nat.ofDigitChars_ten_toDigits
  rw [← hm, hdigits, Nat.ofDigitChars_ten_toDigits]

theorem toNat_le_of_mem_itoa {b : UInt8} (h : b ∈ itoa i) : 48 ≤ b.toNat ∧ b.toNat ≤ 57 := by
  obtain ⟨c, hc, rfl⟩ := List.mem_map.mp h
  have hdigit := isDigit_of_mem hc
  rw [toNat_toUInt8_of_isDigit hdigit]
  exact Char.isDigit_iff_toNat.mp hdigit

theorem intermediateName_inj : intermediateName i j = intermediateName i' j' ↔ i = i' ∧ j = j' := by
  have hhyphen : ∀ n, ('-').toUInt8 ∉ itoa n := by
    intro n h
    exact absurd (toNat_le_of_mem_itoa h).1 (by decide)
  constructor
  · intro h
    rw [intermediateName, intermediateName, List.append_assoc, List.append_assoc, List.append_assoc,
      List.append_assoc, List.append_cancel_left_eq] at h
    obtain ⟨hi, -, hj⟩ := (List.append_cons_inj_of_notMem (hhyphen i) (hhyphen j)).mp h
    exact ⟨itoa_injective hi, itoa_injective hj⟩
  · rintro ⟨rfl, rfl⟩
    rfl

theorem outName_inj : outName r = outName r' ↔ r = r' := by
  rw [outName, outName, List.append_cancel_left_eq, itoa_injective.eq_iff]

theorem intermediateName_ne_outName : intermediateName i j ≠ outName r := by
  intro h
  cases hi : itoa i with
  | nil => exact Nat.toDigits_ne_nil (List.map_eq_nil_iff.mp hi)
  | cons b bs =>
    simp [intermediateName, outName, hi] at h
    have := toNat_le_of_mem_itoa (i := i) (b := b) (by simp [hi])
    rw [h.1] at this
    exact absurd this.2 (by decide)

end Names

section Tasks

variable (app : App) (std : Stdlib) (fs₀ : Files) (files : List Bytes) (nReduce : Nat)

def emitted (i : Nat) : List KeyValue :=
  match files[i]? with
  | none => []
  | some f => ((fs₀ f).map (app.mapf f)).getD []

def Readable (i : Nat) : Prop := (files[i]?.bind fs₀).isSome

def bucket (kva : List KeyValue) (j : Nat) : Bytes :=
  (kva.filter fun kv => ihash kv.key % nReduce = j).flatMap std.encode

def gathered (m r : Nat) : List KeyValue :=
  (List.range m).flatMap fun i => decodeAll std (bucket std nReduce (emitted app fs₀ files i) r)

def reduceLines (r : Nat) : List Bytes :=
  outputs app (std.sort (gathered app std fs₀ files nReduce files.length r))

/-- The files of a task hold its whole result; a map task without input has none. -/
def Complete (fs : Files) : TaskType → Nat → Prop
  | .map, i => Readable fs₀ files i ∧ ∀ j < nReduce,
      fs (intermediateName i j) = some (bucket std nReduce (emitted app fs₀ files i) j)
  | .reduce, r => fs (outName r) = some (reduceLines app std fs₀ files nReduce r).flatten

def Owns : TaskType → Nat → Bytes → Prop
  | .map, i, name => ∃ j < nReduce, name = intermediateName i j
  | .reduce, r, name => name = outName r

def assignment : TaskType → Nat → Option GetTaskReply
  | .map, i => files[i]?.map fun f =>
      { fileName := f, taskType := some .map, nReduce := nReduce, id := i }
  | .reduce, r =>
      if r < nReduce then some { taskType := some .reduce, id := r, nMap := files.length } else none

/-- How far a worker has come with a task, in terms of the task, of the files that only this
worker is writing, and of its input as long as it reads it. -/
inductive Progress (fs : Files) : TaskType → Nat → Phase → Prop
  | openInput {i f} : files[i]? = some f → fs f = fs₀ f → Progress fs .map i .openInput
  | readInput {i f c content} : files[i]? = some f → fs f = fs₀ f → fs₀ f = some c →
      content <+: c → Progress fs .map i (.readInput content)
  | create {i n} : Readable fs₀ files i → (∀ j < n, j < nReduce → fs (intermediateName i j) = some []) →
      Progress fs .map i (.create (emitted app fs₀ files i) n)
  | openPartition {i kva} (written : List KeyValue) : Readable fs₀ files i →
      emitted app fs₀ files i = written ++ kva →
      (∀ j < nReduce, fs (intermediateName i j) = some (bucket std nReduce written j)) →
      Progress fs .map i (.openPartition kva)
  | appendTo {i kv kva} (written : List KeyValue) : nReduce ≠ 0 → Readable fs₀ files i →
      emitted app fs₀ files i = written ++ kv :: kva →
      (∀ j < nReduce, fs (intermediateName i j) = some (bucket std nReduce written j)) →
      Progress fs .map i (.appendTo kv kva)
  | openBucket {r m} : m ≤ files.length →
      Progress fs .reduce r (.openBucket m (gathered app std fs₀ files nReduce m r))
  | readBucket {r m content} : m < files.length →
      content <+: bucket std nReduce (emitted app fs₀ files m) r →
      Progress fs .reduce r (.readBucket m content (gathered app std fs₀ files nReduce m r))
  | createOut {r} : Progress fs .reduce r
      (.createOut (std.sort (gathered app std fs₀ files nReduce files.length r)))
  | print {r lines} (written : List Bytes) :
      reduceLines app std fs₀ files nReduce r = written ++ lines →
      fs (outName r) = some written.flatten →
      Progress fs .reduce r (.print written.flatten.length lines)
  | finished {ty i} : Complete app std fs₀ files nReduce fs ty i → Progress fs ty i .finished

variable {app std fs₀ files nReduce} {fs fs' : Files} {ty ty' : TaskType} {i i' : Nat} {name : Bytes}

instance : Decidable (Complete app std fs₀ files nReduce fs ty i) :=
  match ty with
  | .map => inferInstanceAs (Decidable (_ = true ∧ ∀ j < nReduce, _ = _))
  | .reduce => inferInstanceAs (Decidable (_ = _))

theorem Owns.inj (h : Owns nReduce ty i name) (h' : Owns nReduce ty' i' name) :
    ty = ty' ∧ i = i' := by
  cases ty with
  | map =>
    obtain ⟨j, -, rfl⟩ := h
    cases ty' with
    | map =>
      obtain ⟨j', -, hname⟩ := h'
      exact ⟨rfl, (intermediateName_inj.mp hname).1⟩
    | reduce => exact absurd h' intermediateName_ne_outName
  | reduce =>
    cases ty' with
    | map =>
      obtain ⟨j', -, hname⟩ := h'
      exact absurd (hname.symm.trans h) intermediateName_ne_outName
    | reduce => exact ⟨rfl, outName_inj.mp (h.symm.trans h')⟩

theorem Complete.frame (h : Complete app std fs₀ files nReduce fs ty i)
    (hfs : ∀ name, Owns nReduce ty i name → fs' name = fs name) :
    Complete app std fs₀ files nReduce fs' ty i := by
  cases ty with
  | map =>
    refine ⟨h.1, fun j hj => ?_⟩
    rw [hfs _ ⟨j, hj, rfl⟩]
    exact h.2 j hj
  | reduce => exact (hfs _ rfl).trans h

theorem Complete.eq (h : Complete app std fs₀ files nReduce fs ty i)
    (h' : Complete app std fs₀ files nReduce fs' ty i) (hname : Owns nReduce ty i name) :
    fs name = fs' name := by
  cases ty with
  | map =>
    obtain ⟨j, hj, rfl⟩ := hname
    exact (h.2 j hj).trans (h'.2 j hj).symm
  | reduce =>
    obtain rfl := hname
    exact h.trans h'.symm

theorem Progress.frame {phase : Phase} (h : Progress app std fs₀ files nReduce fs ty i phase)
    (hfs : ∀ name, Owns nReduce ty i name → fs' name = fs name)
    (hin : ty = .map → ∀ f, files[i]? = some f → fs' f = fs f) :
    Progress app std fs₀ files nReduce fs' ty i phase := by
  cases h with
  | openInput hf hsame => exact .openInput hf ((hin rfl _ hf).trans hsame)
  | readInput hf hsame hc hcontent =>
    exact .readInput hf ((hin rfl _ hf).trans hsame) hc hcontent
  | create hin h => exact .create hin fun j hj hlt => (hfs _ ⟨j, hlt, rfl⟩).trans (h j hj hlt)
  | openPartition written hin hkva h =>
    exact .openPartition written hin hkva fun j hj => (hfs _ ⟨j, hj, rfl⟩).trans (h j hj)
  | appendTo written h0 hin hkva h =>
    exact .appendTo written h0 hin hkva fun j hj => (hfs _ ⟨j, hj, rfl⟩).trans (h j hj)
  | openBucket hm => exact .openBucket hm
  | readBucket hm hcontent => exact .readBucket hm hcontent
  | createOut => exact .createOut
  | print written hlines h => exact .print written hlines ((hfs _ rfl).trans h)
  | finished h => exact .finished (h.frame hfs)

theorem Progress.start {reply : GetTaskReply} (h : assignment files nReduce ty i = some reply)
    (hin : ty = .map → ∀ f, files[i]? = some f → fs f = fs₀ f) :
    Progress app std fs₀ files nReduce fs ty i (Attempt.start reply).phase := by
  cases ty with
  | map =>
    obtain ⟨f, hf, rfl⟩ := Option.map_eq_some_iff.mp h
    exact .openInput hf (hin rfl f hf)
  | reduce =>
    obtain ⟨-, hreply⟩ := Option.ite_none_right_eq_some.mp h
    obtain rfl := Option.some.inj hreply
    exact .openBucket (Nat.zero_le _)

theorem bucket_append (kva : List KeyValue) (kv : KeyValue) (j : Nat) :
    bucket std nReduce (kva ++ [kv]) j =
      bucket std nReduce kva j ++ if ihash kv.key % nReduce = j then std.encode kv else [] := by
  rw [bucket, List.filter_append, List.flatMap_append]
  by_cases h : ihash kv.key % nReduce = j <;> simp [h, bucket]

theorem gathered_succ (m r : Nat) : gathered app std fs₀ files nReduce (m + 1) r =
    gathered app std fs₀ files nReduce m r ++
      decodeAll std (bucket std nReduce (emitted app fs₀ files m) r) := by
  rw [gathered, List.range_succ, List.flatMap_append]
  simp [gathered]

def Proceeds (app : App) (std : Stdlib) (fs₀ : Files) (files : List Bytes) (nReduce : Nat) (fs : Files)
    (ty : TaskType) (i : Nat) (next : Files × Phase) : Prop :=
  (next.2 = .dead ∨ Progress app std fs₀ files nReduce next.1 ty i next.2) ∧
    ∀ name, ¬ Owns nReduce ty i name → next.1 name = fs name

theorem proceeds_of_read {phase : Phase}
    (h : phase = .dead ∨ Progress app std fs₀ files nReduce fs ty i phase) :
    Proceeds app std fs₀ files nReduce fs ty i (fs, phase) :=
  ⟨h, fun _ _ => rfl⟩

theorem proceeds_of_write {phase : Phase} (hown : Owns nReduce ty i name)
    (hsame : FileSystem.SameBut name fs fs')
    (h : Progress app std fs₀ files nReduce fs' ty i phase) :
    Proceeds app std fs₀ files nReduce fs ty i (fs', phase) := by
  refine ⟨.inr h, fun name' hname' => hsame name' ?_⟩
  rintro rfl
  exact hname' hown

theorem Progress.mapOp {f : Bytes} {phase : Phase} (hf : files[i]? = some f)
    (h : Progress app std fs₀ files nReduce fs .map i phase) (n : Nat) :
    Proceeds app std fs₀ files nReduce fs .map i (Attempt.fileOp app std n fs
      ⟨{ fileName := f, taskType := some .map, nReduce := nReduce, id := i }, phase⟩) := by
  cases h with
  | @openInput _ f' hf' hfs =>
    obtain rfl : f' = f := Option.some.inj (hf'.symm.trans hf)
    refine proceeds_of_read ?_
    cases hc : fs f' with
    | none => exact .inl rfl
    | some c => exact .inr (.readInput hf hfs (hfs.symm.trans hc) List.nil_prefix)
  | @readInput _ f' c content hf' hfs hc hcontent =>
    obtain rfl : f' = f := Option.some.inj (hf'.symm.trans hf)
    refine proceeds_of_read (.inr ?_)
    have hread : fs f' = some c := hfs.trans hc
    by_cases hchunk : fs.read f' content.length n = []
    · obtain rfl := FileSystem.eq_of_read_nil hread hcontent hchunk
      have hemitted : app.mapf f' content = emitted app fs₀ files i := by
        simp [emitted, hf, hc]
      simp only [hchunk, if_true, hemitted]
      exact .create (by simp [Readable, hf, hc]) nofun
    · simp only [hchunk, if_false]
      exact .readInput hf hfs hc (FileSystem.read_append_prefix hread hcontent n)
  | @create _ m hin h =>
    by_cases hm : m < nReduce
    · have hown : Owns nReduce .map i (intermediateName i m) := ⟨m, hm, rfl⟩
      simp only [Attempt.fileOp, hm, if_true]
      refine proceeds_of_write hown FileSystem.sameBut_create (.create hin fun j hj hlt => ?_)
      by_cases hjm : j = m
      · subst hjm
        exact FileSystem.create_self
      · rw [FileSystem.sameBut_create _ (by simp [intermediateName_inj, hjm])]
        exact h j (by omega) hlt
    · simp only [Attempt.fileOp, hm, if_false]
      refine proceeds_of_read (.inr (.openPartition [] hin rfl fun j hj => ?_))
      exact h j (by omega) hj
  | @openPartition _ kva written hin hkva h =>
    cases kva with
    | nil =>
      refine proceeds_of_read (.inr (.finished ⟨hin, fun j hj => ?_⟩))
      rw [hkva, List.append_nil]
      exact h j hj
    | cons kv kva =>
      by_cases h0 : nReduce = 0
      · simp only [Attempt.fileOp, h0, if_true]
        exact proceeds_of_read (.inl rfl)
      · simp only [Attempt.fileOp, h0, if_false]
        refine proceeds_of_write ⟨_, Nat.mod_lt _ (by omega), rfl⟩ FileSystem.sameBut_openAppend
          (.appendTo written h0 hin hkva fun j hj => ?_)
        by_cases hjp : j = ihash kv.key % nReduce
        · rw [hjp] at hj ⊢
          exact FileSystem.openAppend_self (h _ hj)
        · rw [FileSystem.sameBut_openAppend _ (by simp [intermediateName_inj, hjp])]
          exact h j hj
  | @appendTo _ kv kva written h0 hin hkva h =>
    refine proceeds_of_write ⟨_, Nat.mod_lt _ (by omega), rfl⟩ (FileSystem.sameBut_append _)
      (.openPartition (written ++ [kv]) hin (by simpa using hkva) fun j hj => ?_)
    rw [bucket_append]
    by_cases hjp : j = ihash kv.key % nReduce
    · rw [hjp] at hj ⊢
      rw [FileSystem.append_self (h _ hj), if_pos rfl]
    · rw [FileSystem.sameBut_append _ _ (by simp [intermediateName_inj, hjp]), h j hj,
        if_neg (Ne.symm hjp), List.append_nil]
  | finished h => exact proceeds_of_read (.inr (.finished h))

theorem Progress.reduceOp {r : Nat} {phase : Phase} (hr : r < nReduce)
    (hmaps : ∀ m < files.length, Complete app std fs₀ files nReduce fs .map m)
    (h : Progress app std fs₀ files nReduce fs .reduce r phase) (n : Nat) :
    Proceeds app std fs₀ files nReduce fs .reduce r (Attempt.fileOp app std n fs
      ⟨{ taskType := some .reduce, id := r, nMap := files.length }, phase⟩) := by
  cases h with
  | @openBucket _ m hm =>
    by_cases hlt : m < files.length
    · simp only [Attempt.fileOp, hlt, if_true]
      refine proceeds_of_read (.inr ?_)
      rw [(hmaps m hlt).2 r hr]
      exact .readBucket hlt List.nil_prefix
    · obtain rfl : m = files.length := by omega
      simp only [Attempt.fileOp, hlt, if_false]
      exact proceeds_of_read (.inr .createOut)
  | @readBucket _ m content hm hcontent =>
    refine proceeds_of_read (.inr ?_)
    have hread := (hmaps m hm).2 r hr
    by_cases hchunk : fs.read (intermediateName m r) content.length n = []
    · obtain rfl := FileSystem.eq_of_read_nil hread hcontent hchunk
      simp only [hchunk, if_true, ← gathered_succ]
      exact .openBucket hm
    · simp only [hchunk, if_false]
      exact .readBucket hm (FileSystem.read_append_prefix hread hcontent n)
  | createOut =>
    exact proceeds_of_write rfl FileSystem.sameBut_create (.print [] rfl FileSystem.create_self)
  | @print _ lines written hlines h =>
    cases lines with
    | nil =>
      refine proceeds_of_read (.inr (.finished ?_))
      rw [Complete, hlines, List.append_nil]
      exact h
    | cons line lines =>
      refine proceeds_of_write rfl (FileSystem.sameBut_writeAt _ _) ?_
      have hwritten : written.flatten.length + line.length = (written ++ [line]).flatten.length := by
        simp
      rw [hwritten]
      refine .print (written ++ [line]) (by simpa using hlines) ?_
      rw [FileSystem.writeAt_end h]
      simp
  | finished h => exact proceeds_of_read (.inr (.finished h))

theorem Progress.fileOp {a : Attempt} (ha : assignment files nReduce ty i = some a.reply)
    (h : Progress app std fs₀ files nReduce fs ty i a.phase)
    (hmaps : ty = .reduce → ∀ m < files.length, Complete app std fs₀ files nReduce fs .map m)
    (n : Nat) : Proceeds app std fs₀ files nReduce fs ty i (a.fileOp app std n fs) := by
  obtain ⟨reply, phase⟩ := a
  cases ty with
  | map =>
    obtain ⟨f, hf, rfl⟩ := Option.map_eq_some_iff.mp ha
    exact h.mapOp hf n
  | reduce =>
    obtain ⟨hr, hreply⟩ := Option.ite_none_right_eq_some.mp ha
    obtain rfl := Option.some.inj hreply
    exact h.reduceOp hr (hmaps rfl) n

end Tasks

end MrAndRaft.MapReduce
