import Mathlib.Data.List.Basic
import Mathlib.Data.List.Infix
import Mathlib.Logic.Function.Basic

/-! Files as names with contents, and the operations that programs interleave on them:
one `create`, `read` or write is one step. -/

universe u v

/-- `none` is a file that does not exist. -/
abbrev FileSystem (P : Type u) (B : Type v) : Type (max u v) := P → Option (List B)

namespace FileSystem

variable {P : Type u} {B : Type v} [DecidableEq P] {fs : FileSystem P B} {p q : P} {c buf : List B}

def create (fs : FileSystem P B) (p : P) : FileSystem P B := Function.update fs p (some [])

def openAppend (fs : FileSystem P B) (p : P) : FileSystem P B :=
  Function.update fs p (some ((fs p).getD []))

def append (fs : FileSystem P B) (p : P) (bs : List B) : FileSystem P B :=
  Function.update fs p (some ((fs p).getD [] ++ bs))

/-- A write at the offset of its handle; a gap before it is filled with zeros. -/
def writeAt [Zero B] (fs : FileSystem P B) (p : P) (off : Nat) (bs : List B) : FileSystem P B :=
  let c := (fs p).getD []
  Function.update fs p
    (some (c.take off ++ List.replicate (off - c.length) 0 ++ bs ++ c.drop (off + bs.length)))

/-- A read of at most `n + 1` bytes at an offset; nothing is read only at the end. -/
def read (fs : FileSystem P B) (p : P) (off n : Nat) : List B :=
  (((fs p).getD []).drop off).take (n + 1)

def SameBut (p : P) (fs fs' : FileSystem P B) : Prop := ∀ q, q ≠ p → fs' q = fs q

theorem sameBut_create : SameBut p fs (fs.create p) :=
  fun _ h => Function.update_of_ne h _ _

theorem sameBut_openAppend : SameBut p fs (fs.openAppend p) :=
  fun _ h => Function.update_of_ne h _ _

theorem sameBut_append (bs : List B) : SameBut p fs (fs.append p bs) :=
  fun _ h => Function.update_of_ne h _ _

theorem sameBut_writeAt [Zero B] (off : Nat) (bs : List B) : SameBut p fs (fs.writeAt p off bs) :=
  fun _ h => Function.update_of_ne h _ _

@[simp] theorem create_self : fs.create p p = some [] := Function.update_self _ _ _

theorem openAppend_self (h : fs p = some c) : fs.openAppend p p = some c := by
  rw [openAppend, Function.update_self, h, Option.getD_some]

theorem append_self (h : fs p = some c) (bs : List B) : fs.append p bs p = some (c ++ bs) := by
  rw [append, Function.update_self, h, Option.getD_some]

theorem writeAt_end [Zero B] (h : fs p = some c) (bs : List B) :
    fs.writeAt p c.length bs p = some (c ++ bs) := by
  simp [writeAt, h]

omit [DecidableEq P] in
theorem read_append_prefix (h : fs p = some c) (hbuf : buf <+: c) (n : Nat) :
    buf ++ fs.read p buf.length n <+: c := by
  obtain ⟨rest, rfl⟩ := hbuf
  rw [read, h, Option.getD_some, List.drop_left]
  exact (List.prefix_append_right_inj buf).mpr (List.take_prefix _ _)

omit [DecidableEq P] in
theorem eq_of_read_nil (h : fs p = some c) (hbuf : buf <+: c) {n : Nat}
    (hnil : fs.read p buf.length n = []) : buf = c := by
  obtain ⟨rest, rfl⟩ := hbuf
  rw [read, h, Option.getD_some, List.drop_left] at hnil
  simpa using hnil

end FileSystem
