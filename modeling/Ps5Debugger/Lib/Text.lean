import Mathlib

/-!
# Text as the Java library reads it

Which characters are white space and digits, and what number a text is in base 16 or 10. A decimal number is
read back from its text (`toIntegerOrNull_decimalText`).
-/

namespace Lib

/-- The characters of a list are looked at one after the other, not all the characters that there are. -/
instance decidableForallMemChar (l : List Char) (p : Char → Prop) [DecidablePred p] : Decidable (∀ c ∈ l, p c) :=
  List.decidableBAll p l

/-- `Character.isWhitespace` or `Character.isSpaceChar` -/
def isWhitespace (c : Char) : Bool :=
  let n := c.toNat
  (9 ≤ n && n ≤ 13) || (28 ≤ n && n ≤ 32) || n == 0xa0 || n == 0x1680 || (0x2000 ≤ n && n ≤ 0x200a) ||
    n == 0x2028 || n == 0x2029 || n == 0x202f || n == 0x205f || n == 0x3000

/-- `trim()` -/
def trim (text : List Char) : List Char := (text.dropWhile isWhitespace).rdropWhile isWhitespace

/-- `removePrefix` -/
def removePrefix (pre text : List Char) : List Char := if pre.isPrefixOf text then text.drop pre.length else text

/-- `\s` in a regular expression. -/
def isRegexSpace (c : Char) : Bool := c ∈ [' ', '\t', '\n', '\x0b', '\x0c', '\r']

/-- The zeros of the decimal digits. -/
def decimalZeros : List Nat :=
  [0x30, 0x660, 0x6f0, 0x7c0, 0x966, 0x9e6, 0xa66, 0xae6, 0xb66, 0xbe6, 0xc66, 0xce6, 0xd66, 0xde6, 0xe50, 0xed0,
    0xf20, 0x1040, 0x1090, 0x17e0, 0x1810, 0x1946, 0x19d0, 0x1a80, 0x1a90, 0x1b50, 0x1bb0, 0x1c40, 0x1c50, 0xa620,
    0xa8d0, 0xa900, 0xa9d0, 0xa9f0, 0xaa50, 0xabf0, 0xff10]

/-- `Character.isDigit` and the value of the digit -/
def decimalDigit (c : Char) : Option Nat :=
  (decimalZeros.find? fun z => z ≤ c.toNat ∧ c.toNat < z + 10).map fun z => c.toNat - z

/-- `Character.digit(c, 16)`; the letters may be wide ones. -/
def hexDigit (c : Char) : Option Nat :=
  (decimalDigit c).or
    (([0x41, 0x61, 0xff21, 0xff41].find? fun a => a ≤ c.toNat ∧ c.toNat < a + 6).map fun a => c.toNat - a + 10)

/-- The number that digits are, up to a limit. -/
def hexMagnitude (digits : List Char) (limit : Nat) : Option Nat :=
  if digits = [] then none
  else
    match digits.mapM hexDigit with
    | some ds =>
      let n := ds.foldl (fun n d => 16 * n + d) 0
      if n ≤ limit then some n else none
    | none => none

/-- `toIntOrNull(16)` -/
def toIntOrNull16 : List Char → Option Int
  | [] => none
  | c :: cs =>
    if c = '-' then (hexMagnitude cs 0x80000000).map fun n => -(n : Int)
    else if c = '+' then (hexMagnitude cs 0x7fffffff).map Int.ofNat
    else (hexMagnitude (c :: cs) 0x7fffffff).map Int.ofNat

/-- `toLongOrNull(16)` -/
def toLongOrNull16 : List Char → Option Int
  | [] => none
  | c :: cs =>
    if c = '-' then (hexMagnitude cs (2 ^ 63)).map fun n : Nat => -(n : Int)
    else if c = '+' then (hexMagnitude cs (2 ^ 63 - 1)).map Int.ofNat
    else (hexMagnitude (c :: cs) (2 ^ 63 - 1)).map Int.ofNat

/-! ## Decimal numbers -/

/-- The number that digits are, up to a limit. -/
def decimalMagnitude (digits : List Char) (limit : Nat) : Option Nat :=
  if digits = [] then none
  else
    match digits.mapM decimalDigit with
    | some ds =>
      let n := ds.foldl (fun n d => 10 * n + d) 0
      if n ≤ limit then some n else none
    | none => none

/-- `toLongOrNull()` for 64 bits, `toIntOrNull()` for 32. -/
def toIntegerOrNull (bits : Nat) : List Char → Option Int
  | [] => none
  | c :: cs =>
    if c = '-' then (decimalMagnitude cs (2 ^ (bits - 1))).map fun n : Nat => -(n : Int)
    else if c = '+' then (decimalMagnitude cs (2 ^ (bits - 1) - 1)).map Int.ofNat
    else (decimalMagnitude (c :: cs) (2 ^ (bits - 1) - 1)).map Int.ofNat

/-- `toString()` -/
def decimalText (n : Int) : List Char :=
  if n < 0 then '-' :: Nat.toDigits 10 n.natAbs else Nat.toDigits 10 n.natAbs

theorem decimalDigit_of_isDigit {c : Char} (h : c.isDigit = true) : decimalDigit c = some (c.toNat - '0'.toNat) := by
  have hrange : 0x30 ≤ c.toNat ∧ c.toNat < 0x30 + 10 := by
    obtain ⟨hlo, hhi⟩ := Char.isDigit_iff_toNat.mp h
    exact ⟨hlo, Nat.lt_succ_of_le hhi⟩
  rw [decimalDigit, decimalZeros, List.find?_cons_of_pos (by simpa using hrange)]
  rfl

theorem mapM_eq_some {α β : Type} {f : α → Option β} {g : α → β} {l : List α} (h : ∀ a ∈ l, f a = some (g a)) :
    l.mapM f = some (l.map g) := by
  induction l with
  | nil => rfl
  | cons a l ih =>
    rw [List.mapM_cons, h a List.mem_cons_self, ih fun b hb => h b (List.mem_cons_of_mem a hb)]
    rfl

theorem mapM_eq_none {α β : Type} {f : α → Option β} {l : List α} {a : α} (ha : a ∈ l) (h : f a = none) :
    l.mapM f = none := by
  induction l with
  | nil => cases ha
  | cons b l ih =>
    rw [List.mapM_cons]
    rcases List.mem_cons.mp ha with rfl | ha
    · rw [h]
      rfl
    · cases hb : f b with
      | none => rfl
      | some x =>
        rw [ih ha]
        rfl

theorem decimalMagnitude_toDigits {n limit : Nat} (h : n ≤ limit) :
    decimalMagnitude (Nat.toDigits 10 n) limit = some n := by
  have hdigits : (Nat.toDigits 10 n).mapM decimalDigit = some ((Nat.toDigits 10 n).map fun c => c.toNat - '0'.toNat) :=
    mapM_eq_some fun c hc => decimalDigit_of_isDigit (Nat.isDigit_of_mem_toDigits (by decide) (by decide) hc)
  have hvalue : ((Nat.toDigits 10 n).map fun c => c.toNat - '0'.toNat).foldl (fun n d => 10 * n + d) 0 = n := by
    rw [List.foldl_map]
    exact Nat.ofDigitChars_ten_toDigits
  rw [decimalMagnitude, if_neg Nat.toDigits_ne_nil, hdigits]
  simp only [hvalue, if_pos h]

/-- A number is read back from its text. -/
theorem toIntegerOrNull_decimalText {bits : Nat} {n : Int} (hlo : -(2 ^ (bits - 1) : Nat) ≤ n)
    (hhi : n < (2 ^ (bits - 1) : Nat)) : toIntegerOrNull bits (decimalText n) = some n := by
  rw [decimalText]
  split
  · rename_i hneg
    rw [toIntegerOrNull, if_pos rfl, decimalMagnitude_toDigits (by omega), Option.map_some]
    exact congrArg some (by omega)
  · obtain ⟨c, cs, hcs⟩ := List.exists_cons_of_ne_nil (Nat.toDigits_ne_nil (n := n.natAbs) (b := 10))
    have hdigit : c.isDigit = true :=
      Nat.isDigit_of_mem_toDigits (by decide) (by decide) (hcs ▸ List.mem_cons_self)
    have hminus : c ≠ '-' := by rintro rfl; cases hdigit
    have hplus : c ≠ '+' := by rintro rfl; cases hdigit
    rw [hcs, toIntegerOrNull, if_neg hminus, if_neg hplus, ← hcs, decimalMagnitude_toDigits (by omega), Option.map_some]
    exact congrArg some (Int.natAbs_of_nonneg (by omega))

/-- The characters of a number. -/
theorem exists_of_mem_toDigits {b n : Nat} (hb : 1 < b) {c : Char} (h : c ∈ Nat.toDigits b n) :
    ∃ d < b, c = d.digitChar := by
  induction n using Nat.base_induction b hb with
  | single m hm =>
    rw [Nat.toDigits_of_lt_base hm, List.mem_singleton] at h
    exact ⟨m, hm, h⟩
  | digit m k hk hm ih =>
    rw [← Nat.toDigits_append_toDigits hb hm hk, List.mem_append, Nat.toDigits_of_lt_base hk, List.mem_singleton] at h
    rcases h with h | h
    · exact ih h
    · exact ⟨k, hk, h⟩

end Lib
