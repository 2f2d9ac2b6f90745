import Mathlib.Data.List.Sort
import Mathlib.Data.Nat.Basic
import Mathlib.Data.UInt
import MrAndRaft.Lib.FileSystem
import MrAndRaft.Lib.Json
import MrAndRaft.Lib.Pieces
import MrAndRaft.MapReduce.Coordinator

/-! Workers: `DoMap` and `DoReduce` as sequences of file operations, any number of them
at a time in one directory, and the sequential program they are compared with. -/

namespace MrAndRaft.MapReduce

structure KeyValue where
  key : Bytes
  value : Bytes
  deriving DecidableEq, Repr

def ValidUtf8 (b : Bytes) : Prop := ∃ cs : List Char, b = cs.utf8Encode.data.toList

structure App where
  mapf : Bytes → Bytes → List KeyValue
  reducef : Bytes → List Bytes → Bytes

/-- What is used of `encoding/json` and `sort`.  `decode` takes the bytes not read yet
and leaves the bytes after the value and the newline that ends it; a sort need not be
stable. -/
structure Stdlib where
  encode : KeyValue → Bytes
  decode : Bytes → Option (KeyValue × Bytes)
  sort : List KeyValue → List KeyValue
  decode_encode : ∀ kv rest, ValidUtf8 kv.key → ValidUtf8 kv.value →
    decode (encode kv ++ rest) = some (kv, rest)
  decode_shorter : ∀ b kv rest, decode b = some (kv, rest) → rest.length < b.length
  sort_perm : ∀ kvs, (sort kvs).Perm kvs
  sort_sorted : ∀ kvs, (sort kvs).Pairwise fun a b => ¬ b.key < a.key

namespace Stdlib

/-- `{"Key":"` -/
def keyToken : Bytes := ['\x7b', '"', 'K', 'e', 'y', '"', ':', '"'].map Char.toUInt8

def valueToken : Bytes := [',', '"', 'V', 'a', 'l', 'u', 'e', '"', ':', '"'].map Char.toUInt8

def endToken : Bytes := ['\x7d', '\n'].map Char.toUInt8

/-- What `Encode` writes, a `Decode` for that, and the insertion sort that `sort.Sort` is on a few
elements. -/
def json : Stdlib where
  encode kv := keyToken ++ (Json.escape kv.key ++ 34 ::
    (valueToken ++ (Json.escape kv.value ++ 34 :: endToken)))
  decode b := do
    let key ← Json.readString (← Json.expect keyToken b)
    let value ← Json.readString (← Json.expect valueToken key.2)
    return (⟨key.1, value.1⟩, ← Json.expect endToken value.2)
  sort := List.insertionSort fun a b => a.key ≤ b.key
  decode_encode kv rest _ _ := by
    simp [Json.expect_append, Json.readString_escape]
  decode_shorter b kv rest h := by
    simp only [Option.bind_eq_bind, Option.bind_eq_some_iff, pure, Option.some.injEq,
      Prod.mk.injEq] at h
    obtain ⟨b₁, h₁, key, h₂, b₃, h₃, value, h₄, b₅, h₅, -, rfl⟩ := h
    have := Json.expect_le h₁
    have := Json.readString_shorter h₂
    have := Json.expect_le h₃
    have := Json.readString_shorter h₄
    have := Json.expect_le h₅
    omega
  sort_perm kvs := List.perm_insertionSort _ kvs
  sort_sorted kvs := by
    have : Std.Total fun a b : KeyValue => a.key ≤ b.key := ⟨fun a b => List.le_total a.key b.key⟩
    have : IsTrans KeyValue fun a b => a.key ≤ b.key := ⟨fun _ _ _ => List.le_trans⟩
    exact List.pairwise_insertionSort _ kvs

end Stdlib

/-- FNV-1a with 32 bits. -/
def fnv32a (b : Bytes) : UInt32 :=
  b.foldl (fun h c => (h ^^^ c.toUInt32) * 16777619) 2166136261

def ihash (key : Bytes) : Nat := (fnv32a key &&& 0x7fffffff).toNat

def itoa (n : Nat) : Bytes := (Nat.toDigits 10 n).map Char.toUInt8

def intermediateName (i j : Nat) : Bytes :=
  ['m', 'r', '-'].map Char.toUInt8 ++ itoa i ++ ['-'].map Char.toUInt8 ++ itoa j

def outName (r : Nat) : Bytes :=
  ['m', 'r', '-', 'o', 'u', 't', '-'].map Char.toUInt8 ++ itoa r

/-- `Decode` until it fails; each value takes at least one byte. -/
def decodeLoop (std : Stdlib) : Nat → Bytes → List KeyValue
  | 0, _ => []
  | n + 1, b =>
    match std.decode b with
    | none => []
    | some (kv, rest) => kv :: decodeLoop std n rest

def decodeAll (std : Stdlib) (b : Bytes) : List KeyValue := decodeLoop std b.length b

def line (key output : Bytes) : Bytes :=
  key ++ [' '].map Char.toUInt8 ++ output ++ ['\n'].map Char.toUInt8

def outputs (app : App) (intermediate : List KeyValue) : List Bytes :=
  (Pieces.runs KeyValue.key intermediate).map fun (key, group) =>
    line key (app.reducef key (group.map KeyValue.value))

abbrev Files := FileSystem Bytes UInt8

/-- The next file operation of a worker: the first five are those of `DoMap`, then four
of `DoReduce`.  A worker that is `finished` has sent `MarkComplete`; one that is `dead`
has crashed, has been answered or had nothing to do. -/
inductive Phase where
  | openInput
  | readInput (content : Bytes)
  | create (kva : List KeyValue) (i : Nat)
  | openPartition (kva : List KeyValue)
  | appendTo (kv : KeyValue) (kva : List KeyValue)
  | openBucket (i : Nat) (intermediate : List KeyValue)
  | readBucket (i : Nat) (content : Bytes) (intermediate : List KeyValue)
  | createOut (intermediate : List KeyValue)
  | print (offset : Nat) (lines : List Bytes)
  | finished
  | dead
  deriving DecidableEq, Repr

structure Attempt where
  reply : GetTaskReply
  phase : Phase
  deriving DecidableEq, Repr

def Attempt.start (reply : GetTaskReply) : Attempt where
  reply := reply
  phase :=
    match reply.taskType with
    | some .map => .openInput
    | some .reduce => .openBucket 0 []
    | none => .dead

/-- One file operation; a read takes at most `n + 1` bytes.  `log.Fatal` and a division by
zero end the worker.  What `Decode` returns depends only on the bytes that are read, so
a bucket is decoded once its end is reached. -/
def Attempt.fileOp (app : App) (std : Stdlib) (n : Nat) (fs : Files) (a : Attempt) :
    Files × Phase :=
  let ⟨fileName, _, nReduce, id, nMap, _⟩ := a.reply
  match a.phase with
  | .openInput => (fs, if (fs fileName).isSome then .readInput [] else .dead)
  | .readInput content =>
    let chunk := fs.read fileName content.length n
    (fs, if chunk = [] then .create (app.mapf fileName content) 0 else .readInput (content ++ chunk))
  | .create kva i =>
    if i < nReduce then (fs.create (intermediateName id i), .create kva (i + 1))
    else (fs, .openPartition kva)
  | .openPartition [] => (fs, .finished)
  | .openPartition (kv :: kva) =>
    if nReduce = 0 then (fs, .dead)
    else (fs.openAppend (intermediateName id (ihash kv.key % nReduce)), .appendTo kv kva)
  | .appendTo kv kva =>
    (fs.append (intermediateName id (ihash kv.key % nReduce)) (std.encode kv), .openPartition kva)
  | .openBucket i intermediate =>
    if i < nMap then
      (fs, if (fs (intermediateName i id)).isSome then .readBucket i [] intermediate else .dead)
    else (fs, .createOut (std.sort intermediate))
  | .readBucket i content intermediate =>
    let chunk := fs.read (intermediateName i id) content.length n
    (fs, if chunk = [] then .openBucket (i + 1) (intermediate ++ decodeAll std content)
      else .readBucket i (content ++ chunk) intermediate)
  | .createOut intermediate => (fs.create (outName id), .print 0 (outputs app intermediate))
  | .print _ [] => (fs, .finished)
  | .print offset (line :: lines) =>
    (fs.writeAt (outName id) offset line, .print (offset + line.length) lines)
  | .finished => (fs, .finished)
  | .dead => (fs, .dead)

structure Pool where
  fs : Files
  attempts : List Attempt

namespace Pool

def start (p : Pool) (reply : GetTaskReply) : Pool :=
  { p with attempts := p.attempts ++ [.start reply] }

def setPhase (p : Pool) (k : Nat) (phase : Phase) : Pool :=
  { p with attempts := p.attempts.modify k ({ · with phase }) }

def fileOp (app : App) (std : Stdlib) (p : Pool) (k n : Nat) : Pool :=
  match p.attempts[k]? with
  | none => p
  | some a =>
    let next := a.fileOp app std n p.fs
    { p.setPhase k next.2 with fs := next.1 }

end Pool

inductive Fatal where
  | usage
  | cannotOpen (filename : Bytes)
  deriving DecidableEq, Repr

def printAll (fs : Files) (name : Bytes) (lines : List Bytes) : Files :=
  (lines.foldl (fun (fs, offset) line => (fs.writeAt name offset line, offset + line.length))
    (fs.create name, 0)).1

def mapInputs (app : App) (fs : Files) (intermediate : List KeyValue) :
    List Bytes → Except Fatal (List KeyValue)
  | [] => .ok intermediate
  | filename :: files =>
    match fs filename with
    | none => .error (.cannotOpen filename)
    | some content => mapInputs app fs (intermediate ++ app.mapf filename content) files

def mrsequential (app : App) (std : Stdlib) (fs : Files) (files : List Bytes) :
    Except Fatal Files := do
  if files = [] then throw .usage
  let intermediate ← mapInputs app fs [] files
  return printAll fs (outName 0) (outputs app (std.sort intermediate))

end MrAndRaft.MapReduce
