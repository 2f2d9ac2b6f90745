import Mathlib.Data.List.Basic
import Mathlib.Data.UInt

/-! JSON strings as bytes: what a writer makes of a string of valid UTF-8 that is to stand between
quotes, and a reader of that.  34 is the quote, 92 the backslash and 117 the `u` after it. -/

namespace Json

def hexDigit (n : Nat) : UInt8 := .ofNat (if n < 10 then 48 + n else 87 + n)

def hexValue (c : UInt8) : Option Nat :=
  if 48 ≤ c ∧ c ≤ 57 then some (c.toNat - 48)
  else if 97 ≤ c ∧ c ≤ 102 then some (c.toNat - 87)
  else none

def escapeLetter (c : UInt8) : Option UInt8 :=
  if c = 34 ∨ c = 92 then some c
  else if c = 10 then some 110
  else if c = 13 then some 114
  else if c = 9 then some 116
  else none

def unescapeLetter (c : UInt8) : Option UInt8 :=
  if c = 34 ∨ c = 92 ∨ c = 47 then some c
  else if c = 98 then some 8
  else if c = 102 then some 12
  else if c = 110 then some 10
  else if c = 114 then some 13
  else if c = 116 then some 9
  else none

/-- Control characters, `<`, `>` and `&` are written as `\u00XX`. -/
def escapeByte (c : UInt8) : List UInt8 :=
  match escapeLetter c with
  | some e => [92, e]
  | none =>
    if c < 32 ∨ c = 60 ∨ c = 62 ∨ c = 38 then
      [92, 117, 48, 48, hexDigit (c.toNat / 16), hexDigit (c.toNat % 16)]
    else [c]

/-- U+2028 and U+2029, which JavaScript takes for the end of a line, are escaped as well. -/
def escape : List UInt8 → List UInt8
  | 226 :: 128 :: 168 :: s => [92, 117, 50, 48, 50, 56] ++ escape s
  | 226 :: 128 :: 169 :: s => [92, 117, 50, 48, 50, 57] ++ escape s
  | c :: s => escapeByte c ++ escape s
  | [] => []

/-- The UTF-8 of `\uXXXX`; a surrogate is refused. -/
def codePoint (a b c d : UInt8) : Option (List UInt8) := do
  let n := 4096 * (← hexValue a) + 256 * (← hexValue b) + 16 * (← hexValue c) + (← hexValue d)
  if n < 128 then return [.ofNat n]
  else if n < 2048 then return [.ofNat (192 + n / 64), .ofNat (128 + n % 64)]
  else if 55296 ≤ n ∧ n < 57344 then none
  else return [.ofNat (224 + n / 4096), .ofNat (128 + n / 64 % 64), .ofNat (128 + n % 64)]

def readString : List UInt8 → Option (List UInt8 × List UInt8)
  | [] => none
  | 34 :: rest => some ([], rest)
  | 92 :: 117 :: a :: b :: c :: d :: rest =>
    (codePoint a b c d).bind fun piece =>
      (readString rest).map fun (s, rest) => (piece ++ s, rest)
  | 92 :: e :: rest =>
    (unescapeLetter e).bind fun c => (readString rest).map fun (s, rest) => (c :: s, rest)
  | c :: rest => (readString rest).map fun (s, rest) => (c :: s, rest)

theorem unescapeLetter_escapeLetter {c e : UInt8} (h : escapeLetter c = some e) :
    unescapeLetter e = some c ∧ e ≠ 117 := by
  unfold escapeLetter at h
  split_ifs at h with h1
  · cases h
    rcases h1 with rfl | rfl <;> decide
  all_goals subst c; cases h; decide

theorem codePoint_ascii : ∀ n < 128,
    codePoint 48 48 (hexDigit (n / 16)) (hexDigit (n % 16)) = some [.ofNat n] := by
  decide

theorem readString_letter {c e : UInt8} (h : escapeLetter c = some e) (b : List UInt8) :
    readString (92 :: e :: b) = (readString b).map fun (s, rest) => (c :: s, rest) := by
  obtain ⟨hc, he⟩ := unescapeLetter_escapeLetter h
  rw [readString.eq_4]
  · simp [hc]
  · intro _ _ _ _ _ hu
    exact absurd hu he

theorem readString_escapeByte (c : UInt8) (b : List UInt8) :
    readString (escapeByte c ++ b) = (readString b).map fun (s, rest) => (c :: s, rest) := by
  unfold escapeByte
  cases h : escapeLetter c with
  | some e => exact readString_letter h b
  | none =>
    dsimp only
    split
    · rename_i hc
      have hlt : c.toNat < 128 := by
        rcases hc with hc | rfl | rfl | rfl
        · have := UInt8.lt_iff_toNat_lt.mp hc
          have : (32 : UInt8).toNat = 32 := rfl
          omega
        all_goals decide
      simp [readString, codePoint_ascii _ hlt]
    · have h34 : c ≠ 34 := by
        rintro rfl
        simp [escapeLetter] at h
      have h92 : c ≠ 92 := by
        rintro rfl
        simp [escapeLetter] at h
      rw [List.singleton_append, readString]
      · simpa using h34
      · simp [h92]
      · simp [h92]

theorem readString_escape (s rest : List UInt8) :
    readString (escape s ++ 34 :: rest) = some (s, rest) := by
  fun_induction escape s with
  | case1 s ih =>
    simp [readString, ih, show codePoint 50 48 50 56 = some [226, 128, 168] by decide]
  | case2 s ih =>
    simp [readString, ih, show codePoint 50 48 50 57 = some [226, 128, 169] by decide]
  | case3 c s _ _ ih => rw [List.append_assoc, readString_escapeByte, ih, Option.map_some]
  | case4 => rfl

theorem readString_shorter {b s rest : List UInt8} (h : readString b = some (s, rest)) :
    rest.length < b.length := by
  fun_induction readString b generalizing s with
  | case1 => cases h
  | case2 =>
    cases h
    simp
  | case3 a b c d rest' ih =>
    obtain ⟨piece, -, h⟩ := Option.bind_eq_some_iff.mp h
    obtain ⟨⟨s', r⟩, hr, h⟩ := Option.map_eq_some_iff.mp h
    cases h
    have := ih hr
    simp only [List.length_cons]
    omega
  | case4 e rest' _ ih =>
    obtain ⟨c, -, h⟩ := Option.bind_eq_some_iff.mp h
    obtain ⟨⟨s', r⟩, hr, h⟩ := Option.map_eq_some_iff.mp h
    cases h
    have := ih hr
    simp only [List.length_cons]
    omega
  | case5 c rest' _ _ _ ih =>
    obtain ⟨⟨s', r⟩, hr, h⟩ := Option.map_eq_some_iff.mp h
    cases h
    have := ih hr
    simp only [List.length_cons]
    omega

def expect (token b : List UInt8) : Option (List UInt8) :=
  if token <+: b then some (b.drop token.length) else none

theorem expect_append (token b : List UInt8) : expect token (token ++ b) = some b := by
  simp [expect]

theorem expect_le {token b rest : List UInt8} (h : expect token b = some rest) :
    rest.length ≤ b.length := by
  simp only [expect, Option.ite_none_right_eq_some, Option.some.injEq] at h
  simp [← h.2]

end Json
