import Mathlib.Data.List.TakeWhile
import Ps5Debugger.ClientScan
import Ps5Debugger.Watchlist

/-!
# The values of the watchlist as texts

`parseValueBytes` (`WatchListUtils.kt`) shows the memory of a watch item as a text, and `valueToBytes` makes the
bytes of a text again, which are then written to the memory.

An integer goes through its decimal text, a byte array through the hexadecimal texts of its bytes, and a string
through characters: a byte is read as the character with its number, and a character is written in UTF-8. A
byte above 0x7F then becomes two bytes. `value_writes_back_iff` says which memory comes back unchanged; for
strings that is ASCII, and the one endless text that is its own encoding.
-/

namespace Ps5Debugger

open Lib ScannerView

namespace WatchListUtils

/-- The texts of floating point numbers: how they are shown and read, and which bytes of an unknown type are
shown as one. -/
structure Floats where
  floatText : BitVec 32 → Text
  doubleText : BitVec 64 → Text
  toFloat : Text → Option (BitVec 32)
  toDouble : Text → Option (BitVec 64)
  isUsual : BitVec 32 → Bool

def typeSizeBytes (item : WatchItem) : Nat :=
  match item.byteLength with
  | some n => (max n.toInt 1).toNat
  | none => typeSize item.type

/-! ## Showing -/

/-- A signed integer of `n` bytes at the front, which throws if there are fewer. -/
def readInteger (n : Nat) (bytes : List Byte) : Option Int :=
  if n ≤ bytes.length then some (BitVec.ofNat (8 * n) (leNat n bytes)).toInt else none

/-- The bits of `n` bytes at the front. -/
def readBits (n : Nat) (bytes : List Byte) : Option (BitVec (8 * n)) :=
  if n ≤ bytes.length then some (BitVec.ofNat (8 * n) (leNat n bytes)) else none

/-- The character with the number of the byte. -/
def latinChar (b : Byte) : Char := Char.ofNat b.toNat

/-- `it.toUByte().toString(16).padStart(2, '0').uppercase()` -/
def hexText (b : Byte) : Text := ((Nat.toDigits 16 b.toNat).leftpad 2 '0').map Char.toUpper

def parseValueBytes (fl : Floats) (bytes : List Byte) (type : String) : Option Text :=
  if bytes = [] then some ['?', '?']
  else
    match type with
    | "Byte" => (readInteger 1 bytes).map decimalText
    | "Int16" => (readInteger 2 bytes).map decimalText
    | "Int32" => (readInteger 4 bytes).map decimalText
    | "Int64" => (readInteger 8 bytes).map decimalText
    | "Float" => (readBits 4 bytes).map fl.floatText
    | "Double" => (readBits 8 bytes).map fl.doubleText
    | "Unknown" =>
      if bytes.length ≥ 4 then
        (readBits 4 bytes).map fun bits =>
          if fl.isUsual bits then
            decimalText bits.toInt ++ " (Float: ".toList ++ fl.floatText bits ++ [')']
          else decimalText bits.toInt
      else if bytes.length ≥ 2 then (readInteger 2 bytes).map decimalText
      else (readInteger 1 bytes).map decimalText
    | "String" => some ((bytes.takeWhile (· ≠ 0)).map latinChar)
    | "ByteArray" => some ([' '].intercalate (bytes.map hexText))
    | _ => some ['?', '?']

/-! ## Reading back -/

/-- `bytes` with other bytes written to its front, which throws if there is no room. -/
def writeFront (size : Nat) (front : List Byte) : Option (List Byte) :=
  if front.length ≤ size then some (front ++ List.replicate (size - front.length) 0) else none

/-- `System.arraycopy(front, 0, bytes, 0, minOf(front.size, size))` -/
def copyFront (size : Nat) (front : List Byte) : List Byte :=
  front.take size ++ List.replicate (size - front.length) 0

/-- An integer of `n` bytes from its text, which throws if it is none or out of range. -/
def writeInteger (n size : Nat) (valueStr : Text) : Option (List Byte) :=
  (toIntegerOrNull (8 * n) valueStr).bind fun v => writeFront size (leBytes n (BitVec.ofInt (8 * n) v).toNat)

/-- `toInt(16).toByte()` -/
def hexByteOf (token : Text) : Option Byte := (toIntOrNull16 token).map (BitVec.ofInt 8)

def valueToBytes (fl : Floats) (valueStr : Text) (item : WatchItem) : Option (List Byte) :=
  let size := typeSizeBytes item
  match item.type with
  | "Byte" => writeInteger 1 size valueStr
  | "Int16" => writeInteger 2 size valueStr
  | "Int32" => writeInteger 4 size valueStr
  | "Int64" => writeInteger 8 size valueStr
  | "Float" => (fl.toFloat valueStr).bind fun v => writeFront size (leBytes 4 v.toNat)
  | "Double" => (fl.toDouble valueStr).bind fun v => writeFront size (leBytes 8 v.toNat)
  | "String" => some (copyFront size (encodeToByteArray valueStr))
  | "ByteArray" => ((valueStr.splitOn ' ').mapM hexByteOf).map (copyFront size)
  | _ => some (List.replicate size 0)

variable {fl : Floats} {item : WatchItem} {b t : List Byte} {n size : Nat}

/-! ## Integers -/

/-- An integer comes back from its text, whatever follows it in the memory. -/
theorem writeInteger_readInteger (hb : n ≤ b.length) (hsize : n ≤ size) :
    ∃ text r, (readInteger n b).map decimalText = some text ∧ writeInteger n size text = some r ∧
      r.take n = b.take n := by
  have hlt : leNat n b < 2 ^ (8 * n) := by
    have := leNat_lt n b
    rwa [show (256 : Nat) = 2 ^ 8 from rfl, ← Nat.pow_mul] at this
  have hlo := BitVec.le_toInt (BitVec.ofNat (8 * n) (leNat n b))
  have hhi := BitVec.toInt_lt (x := BitVec.ofNat (8 * n) (leNat n b))
  have htext : toIntegerOrNull (8 * n) (decimalText (BitVec.ofNat (8 * n) (leNat n b)).toInt) =
      some (BitVec.ofNat (8 * n) (leNat n b)).toInt :=
    toIntegerOrNull_decimalText (by exact_mod_cast hlo) (by exact_mod_cast hhi)
  have hbytes : leBytes n (leNat n b) = b.take n := by
    rw [← leNat_take]
    exact leBytes_leNat n _ (by rw [List.length_take, Nat.min_eq_left hb])
  refine ⟨decimalText (BitVec.ofNat (8 * n) (leNat n b)).toInt, b.take n ++ List.replicate (size - n) 0, ?_, ?_, ?_⟩
  · rw [readInteger, if_pos hb, Option.map_some]
  · rw [writeInteger, htext, Option.bind_some, BitVec.ofInt_toInt, BitVec.toNat_ofNat, Nat.mod_eq_of_lt hlt, hbytes,
      writeFront, List.length_take, Nat.min_eq_left hb, if_pos hsize]
  · rw [List.take_append_of_le_length (by rw [List.length_take, Nat.min_eq_left hb]), List.take_take, Nat.min_self]

/-! ## Byte arrays -/

theorem hexText_spec (x : Byte) : hexByteOf (hexText x) = some x ∧ ' ' ∉ hexText x := by
  revert x
  decide

/-- A byte array comes back from its text. -/
theorem mapM_hexText (hb : b ≠ []) : (([' '].intercalate (b.map hexText)).splitOn ' ').mapM hexByteOf = some b := by
  rw [List.splitOn_intercalate]
  · rw [List.mapM_map]
    have h := mapM_eq_some (f := fun x => hexByteOf (hexText x)) (g := id) (l := b) fun x _ => (hexText_spec x).1
    rwa [List.map_id] at h
  · intro l hl
    obtain ⟨x, -, rfl⟩ := List.mem_map.mp hl
    exact (hexText_spec x).2
  · simpa using hb

/-! ## Strings -/

/-- The UTF-8 bytes of the character that stands for a byte. -/
def utf8Latin (x : Byte) : List Byte :=
  if x.toNat < 0x80 then [x] else [0xC0#8 ||| (x >>> 6), 0x80#8 ||| (x &&& 0x3F)]

theorem utf8Latin_spec (x : Byte) :
    (String.utf8EncodeChar (latinChar x)).map UInt8.toBitVec = utf8Latin x := by
  revert x
  decide

theorem encodeToByteArray_latin (b : List Byte) : encodeToByteArray (b.map latinChar) = b.flatMap utf8Latin := by
  rw [encodeToByteArray, String.toUTF8, String.toByteArray_ofList, List.utf8Encode, List.data_toByteArray,
    List.toList_toArray,
    List.flatMap_map, List.map_flatMap]
  exact List.flatMap_congr fun x _ => utf8Latin_spec x

theorem encode_ascii (h : ∀ x ∈ b, x.toNat < 0x80) : b.flatMap utf8Latin = b := by
  induction b with
  | nil => rfl
  | cons x b ih =>
    obtain ⟨hx, hb⟩ := List.forall_mem_cons.mp h
    rw [List.flatMap_cons, ih hb, utf8Latin, if_pos hx]
    rfl

/-- A byte above 0x7F becomes two such bytes, of which the first is its own only for 0xC3. -/
theorem utf8Latin_high (x : Byte) (hx : 0x80 ≤ x.toNat) :
    ∃ y z, utf8Latin x = [y, z] ∧ 0x80 ≤ y.toNat ∧ 0x80 ≤ z.toNat ∧ (y = x → x = 0xC3) := by
  refine ⟨_, _, if_neg (Nat.not_lt.mpr hx), ?_⟩
  revert x
  decide

theorem utf8Latin_ne_nil (x : Byte) : utf8Latin x ≠ [] := by
  rw [utf8Latin]
  split <;> exact List.cons_ne_nil _ _

theorem utf8Latin_zero_notMem {x : Byte} (hx : x ≠ 0) : (0 : Byte) ∉ utf8Latin x := by
  revert x
  decide

theorem prefix_encode (h : b <+: t) : b.flatMap utf8Latin <+: t.flatMap utf8Latin := by
  obtain ⟨rest, rfl⟩ := h
  exact ⟨rest.flatMap utf8Latin, List.flatMap_append.symm⟩

theorem length_le_encode (b : List Byte) : b.length ≤ (b.flatMap utf8Latin).length := by
  induction b with
  | nil => exact Nat.zero_le _
  | cons x b ih =>
    have := List.length_pos_iff.mpr (utf8Latin_ne_nil x)
    rw [List.flatMap_cons, List.length_append, List.length_cons]
    omega

/-- The bytes that begin with 0xC3 and are the encoding of themselves: each of these is the encoding of the one
before and goes on with it. -/
def selfEncoded : Nat → List Byte
  | 0 => [0xC3]
  | n + 1 => (selfEncoded n).flatMap utf8Latin

theorem selfEncoded_high : ∀ n : Nat, ∀ x ∈ selfEncoded n, 0x80 ≤ x.toNat
  | 0, x, hx => by
    rw [List.mem_singleton.mp hx]
    decide
  | n + 1, x, hx => by
    obtain ⟨x', hx', hx⟩ := List.mem_flatMap.mp hx
    obtain ⟨y, z, hyz, hy, hz, -⟩ := utf8Latin_high x' (selfEncoded_high n x' hx')
    rw [hyz] at hx
    rcases List.mem_cons.mp hx with rfl | hx
    · exact hy
    · exact List.mem_singleton.mp hx ▸ hz

theorem length_encode_high (h : ∀ x ∈ b, 0x80 ≤ x.toNat) : (b.flatMap utf8Latin).length = 2 * b.length := by
  induction b with
  | nil => rfl
  | cons x b ih =>
    obtain ⟨hx, hb⟩ := List.forall_mem_cons.mp h
    obtain ⟨y, z, hyz, -⟩ := utf8Latin_high x hx
    rw [List.flatMap_cons, List.length_append, hyz, ih hb, List.length_cons, List.length_cons, List.length_cons,
      List.length_nil]
    omega

theorem lt_length_selfEncoded : ∀ n : Nat, n < (selfEncoded n).length
  | 0 => Nat.one_pos
  | n + 1 => by
    have := lt_length_selfEncoded n
    rw [selfEncoded, length_encode_high (selfEncoded_high n)]
    omega

theorem prefix_selfEncoded_succ : ∀ n : Nat, selfEncoded n <+: selfEncoded (n + 1)
  | 0 => ⟨[0x83], by decide⟩
  | n + 1 => prefix_encode (prefix_selfEncoded_succ n)

/-- Bytes from 0xC3 on that their encoding begins with. -/
theorem prefix_selfEncoded (h : (0xC3 :: t) <+: (0xC3 :: t).flatMap utf8Latin) (n : Nat) :
    (0xC3 :: t) <+: selfEncoded n ∨ selfEncoded n <+: (0xC3 :: t) := by
  induction n with
  | zero => exact .inr ⟨t, rfl⟩
  | succ n ih =>
    rcases ih with ih | ih
    · exact .inl (ih.trans (prefix_selfEncoded_succ n))
    · -- both are in front of the encoding
      exact List.prefix_or_prefix_of_prefix h (prefix_encode ih)

/-- Bytes above 0x7F at the front come back exactly if they are in front of the text that encodes itself. -/
theorem prefix_encode_iff {x : Byte} (hx : 0x80 ≤ x.toNat) :
    (x :: t) <+: (x :: t).flatMap utf8Latin ↔ ∃ n, (x :: t) <+: selfEncoded n := by
  constructor
  · intro h
    obtain ⟨y, z, hyz, -, -, hy⟩ := utf8Latin_high x hx
    have hhead := h
    rw [List.flatMap_cons, hyz] at hhead
    obtain rfl : x = 0xC3 := hy (List.cons_prefix_cons.mp hhead).1.symm
    refine ⟨(0xC3 :: t : List Byte).length, (prefix_selfEncoded h _).resolve_right fun hlong => ?_⟩
    have := hlong.length_le
    have := lt_length_selfEncoded (0xC3 :: t : List Byte).length
    omega
  · rintro ⟨n, hn⟩
    exact List.prefix_of_prefix_length_le (hn.trans (prefix_selfEncoded_succ n)) (prefix_encode hn)
      (length_le_encode _)

/-- Bytes before the first one above 0x7F do not matter. -/
theorem prefix_encode_dropWhile (b : List Byte) :
    b <+: b.flatMap utf8Latin ↔ b.dropWhile (·.toNat < 0x80) <+: (b.dropWhile (·.toNat < 0x80)).flatMap utf8Latin := by
  induction b with
  | nil => rfl
  | cons x b ih =>
    by_cases hx : x.toNat < 0x80
    · rw [List.dropWhile_cons_of_pos (by simpa using hx), ← ih, List.flatMap_cons, utf8Latin, if_pos hx,
        List.singleton_append, List.cons_prefix_cons, and_iff_right rfl]
    · rw [List.dropWhile_cons_of_neg (by simpa using hx)]

/-- Bytes that are all ASCII if their encoding is not longer. -/
theorem ascii_of_length_encode (h : (b.flatMap utf8Latin).length ≤ b.length) : ∀ x ∈ b, x.toNat < 0x80 := by
  induction b with
  | nil => exact fun _ => nofun
  | cons x b ih =>
    rw [List.flatMap_cons, List.length_append, List.length_cons] at h
    have hrest := length_le_encode b
    have hx : x.toNat < 0x80 := by
      by_contra hx
      rw [utf8Latin, if_neg hx, List.length_cons, List.length_singleton] at h
      omega
    have := List.length_pos_iff.mpr (utf8Latin_ne_nil x)
    exact List.forall_mem_cons.mpr ⟨hx, ih (by omega)⟩

/-- The bytes of a string before its end. -/
def textBytes (b : List Byte) : List Byte := b.takeWhile (· ≠ 0)

theorem textBytes_ne_zero : ∀ x ∈ textBytes b, x ≠ 0 := fun _ hx => by
  have h := List.mem_takeWhile_imp hx
  exact of_decide_eq_true h

theorem zero_notMem_encode : (0 : Byte) ∉ (textBytes b).flatMap utf8Latin := fun hzero => by
  obtain ⟨x, hx, hx0⟩ := List.mem_flatMap.mp hzero
  exact utf8Latin_zero_notMem (textBytes_ne_zero x hx) hx0

/-- A string with an end comes back exactly if it is ASCII. -/
theorem ended_string_iff (h : textBytes b ≠ b) :
    (copyFront b.length ((textBytes b).flatMap utf8Latin)).take ((textBytes b).length + 1) =
      b.take ((textBytes b).length + 1) ↔ ∀ x ∈ textBytes b, x.toNat < 0x80 := by
  have hsplit : textBytes b ++ b.dropWhile (· ≠ 0) = b := List.takeWhile_append_dropWhile
  obtain ⟨z, rest, hrest⟩ : ∃ z rest, b.dropWhile (· ≠ 0) = z :: rest := by
    refine List.exists_cons_of_ne_nil fun hnil => h ?_
    rwa [hnil, List.append_nil] at hsplit
  have hz : z = 0 := by
    have hhead := List.head?_dropWhile_not (fun x : Byte => decide (x ≠ 0)) b
    rw [hrest] at hhead
    simpa using hhead
  subst hz
  rw [hrest] at hsplit
  have hlen : (textBytes b).length < b.length := by
    have := congrArg List.length hsplit
    rw [List.length_append, List.length_cons] at this
    omega
  have hb : b.take ((textBytes b).length + 1) = textBytes b ++ [0] := by
    have htake : (textBytes b ++ 0 :: rest).take ((textBytes b).length + 1) = _ := List.take_append
    rw [List.take_of_length_le (Nat.le_succ _), Nat.add_sub_cancel_left, hsplit] at htake
    exact htake
  rw [hb, copyFront]
  constructor
  · intro heq
    refine ascii_of_length_encode ?_
    by_contra hlong
    rw [List.take_append_of_le_length (by rw [List.length_take]; omega), List.take_take,
      Nat.min_eq_left (by omega)] at heq
    have hmem : (0 : Byte) ∈ textBytes b ++ [0] := List.mem_append_right _ (List.mem_singleton.mpr rfl)
    rw [← heq] at hmem
    exact zero_notMem_encode (List.mem_of_mem_take hmem)
  · intro hascii
    rw [encode_ascii hascii, List.take_of_length_le hlen.le, List.take_append,
      List.take_of_length_le (Nat.le_succ _), Nat.add_sub_cancel_left,
      show b.length - (textBytes b).length = b.length - (textBytes b).length - 1 + 1 by omega, List.replicate_succ]
    rfl

/-- A string without an end comes back exactly if its encoding begins with it. -/
theorem endless_string_iff (b : List Byte) : copyFront b.length (b.flatMap utf8Latin) = b ↔
    b <+: b.flatMap utf8Latin := by
  have hlen := length_le_encode b
  rw [copyFront, Nat.sub_eq_zero_of_le hlen, List.replicate_zero, List.append_nil]
  exact ⟨fun h => List.prefix_iff_eq_take.mpr h.symm, fun h => (List.prefix_iff_eq_take.mp h).symm⟩

/-- The string is ASCII up to its end; or it has none and goes on, from its first byte above 0x7F, with the bytes
C3 83 C2 83 C3 82 ... that are the encoding of themselves. -/
def Plain (b : List Byte) : Prop :=
  (∀ x ∈ textBytes b, x.toNat < 0x80) ∨
    textBytes b = b ∧ ∃ n, b.dropWhile (·.toNat < 0x80) <+: selfEncoded n

theorem prefix_encode_iff_plain (h : textBytes b = b) : b <+: b.flatMap utf8Latin ↔ Plain b := by
  rw [prefix_encode_dropWhile, Plain, h, and_iff_right rfl]
  cases hdrop : b.dropWhile (·.toNat < 0x80) with
  | nil =>
    refine ⟨fun _ => .inr ⟨0, List.nil_prefix⟩, fun _ => List.nil_prefix⟩
  | cons x t =>
    have hx : ¬ x.toNat < 0x80 := by
      have hhead := List.head?_dropWhile_not (fun x : Byte => decide (x.toNat < 0x80)) b
      rw [hdrop] at hhead
      simpa using hhead
    rw [prefix_encode_iff (Nat.not_lt.mp hx)]
    refine ⟨.inr, fun h => h.resolve_left fun hascii => hx ?_⟩
    exact hascii x ((List.dropWhile_sublist _).subset (hdrop ▸ List.mem_cons_self))

/-! ## Back in the memory -/

/-- How many bytes of the memory count: those of the type, a string up to its end. -/
def shownBytes (type : String) (b : List Byte) : Nat :=
  if type = "String" then (textBytes b).length + 1 else if type = "ByteArray" then b.length else typeSize type

/-- What is shown of the memory is written back as it was. -/
def WritesBack (fl : Floats) (item : WatchItem) (b : List Byte) : Prop :=
  ∃ text r, parseValueBytes fl b item.type = some text ∧ valueToBytes fl text item = some r ∧
    r.take (shownBytes item.type b) = b.take (shownBytes item.type b)

theorem string_writes_back_iff (htype : item.type = "String") (hb : b.length = typeSizeBytes item) (hne : b ≠ []) :
    WritesBack fl item b ↔ Plain b := by
  have hparse : parseValueBytes fl b item.type = some ((textBytes b).map latinChar) := by
    rw [htype, parseValueBytes, if_neg hne]
    rfl
  have hvalue : valueToBytes fl ((textBytes b).map latinChar) item =
      some (copyFront b.length ((textBytes b).flatMap utf8Latin)) := by
    rw [valueToBytes, htype, ← encodeToByteArray_latin, hb]
    rfl
  have hshown : shownBytes item.type b = (textBytes b).length + 1 := if_pos htype
  have hiff : WritesBack fl item b ↔ (copyFront b.length ((textBytes b).flatMap utf8Latin)).take
      ((textBytes b).length + 1) = b.take ((textBytes b).length + 1) := by
    rw [WritesBack, hparse, hshown]
    constructor
    · rintro ⟨text, r, htext, hr, heq⟩
      cases htext
      rw [hvalue] at hr
      cases hr
      exact heq
    · exact fun heq => ⟨_, _, rfl, hvalue, heq⟩
  rw [hiff]
  by_cases hend : textBytes b = b
  · have hr : (copyFront b.length (b.flatMap utf8Latin)).length ≤ b.length + 1 := by
      rw [copyFront, List.length_append, List.length_take, List.length_replicate]
      omega
    rw [hend, List.take_of_length_le hr, List.take_of_length_le (Nat.le_succ _), endless_string_iff,
      prefix_encode_iff_plain hend]
  · rw [ended_string_iff hend, Plain]
    exact ⟨.inl, fun h => h.resolve_right fun hplain => hend hplain.1⟩

theorem le_typeSizeBytes (hlen : ∀ n ∈ item.byteLength, (typeSize item.type : Int) ≤ n.toInt) :
    typeSize item.type ≤ typeSizeBytes item := by
  rw [typeSizeBytes]
  cases h : item.byteLength with
  | none => exact le_rfl
  | some n =>
    have := hlen n h
    simp only
    omega

/-- Numbers come back whatever they are. -/
theorem integer_writes_back (hlen : ∀ n ∈ item.byteLength, (typeSize item.type : Int) ≤ n.toInt)
    (hb : b.length = typeSizeBytes item) (hne : b ≠ [])
    (htype : item.type = "Byte" ∨ item.type = "Int16" ∨ item.type = "Int32" ∨ item.type = "Int64") :
    WritesBack fl item b := by
  have hsize := le_typeSizeBytes hlen
  have hfit : typeSize item.type ≤ b.length := hsize.trans hb.ge
  obtain ⟨text, r, htext, hr, heq⟩ := writeInteger_readInteger hfit hsize
  refine ⟨text, r, ?_, ?_, ?_⟩
  · rcases htype with h | h | h | h <;> rw [h] at htext ⊢ <;> rw [parseValueBytes, if_neg hne] <;> exact htext
  · rw [valueToBytes]
    rcases htype with h | h | h | h <;> rw [h] at hr ⊢ <;> exact hr
  · have hshown : shownBytes item.type b = typeSize item.type := by
      rcases htype with h | h | h | h <;> rw [h] <;> rfl
    rw [hshown, heq]

theorem byteArray_writes_back (htype : item.type = "ByteArray") (hb : b.length = typeSizeBytes item) (hne : b ≠ []) :
    WritesBack fl item b := by
  refine ⟨[' '].intercalate (b.map hexText), b, ?_, ?_, rfl⟩
  · rw [htype, parseValueBytes, if_neg hne]
  · have hcopy : copyFront (typeSizeBytes item) b = b := by
      rw [copyFront, ← hb, List.take_length, Nat.sub_self, List.replicate_zero, List.append_nil]
    rw [valueToBytes, htype]
    simp only
    rw [mapM_hexText hne, Option.map_some, hcopy]

/-- What is shown of an integer or a byte array is written back as it was; and of a string exactly if it is
plain. -/
theorem value_writes_back_iff (fl : Floats) (item : WatchItem) (b : List Byte)
    (htype : item.type ∈ ["Byte", "Int16", "Int32", "Int64", "ByteArray", "String"])
    (hlen : ∀ n ∈ item.byteLength, (typeSize item.type : Int) ≤ n.toInt) (hb : b.length = typeSizeBytes item) :
    WritesBack fl item b ↔ (item.type = "String" → Plain b) := by
  have hne : b ≠ [] := by
    have hpos : 0 < typeSize item.type := by
      simp only [List.mem_cons, List.not_mem_nil, or_false] at htype
      rcases htype with h | h | h | h | h | h <;> rw [h] <;> decide
    have := le_typeSizeBytes hlen
    exact List.ne_nil_of_length_pos (by omega)
  by_cases hstring : item.type = "String"
  · rw [string_writes_back_iff hstring hb hne, imp_iff_right hstring]
  · refine iff_of_true ?_ fun h => absurd h hstring
    by_cases harray : item.type = "ByteArray"
    · exact byteArray_writes_back harray hb hne
    · simp only [List.mem_cons, List.not_mem_nil, or_false] at htype
      exact integer_writes_back hlen hb hne (by tauto)

/-- Floats are not looked at here. -/
def noFloats : Floats where
  floatText _ := []
  doubleText _ := []
  toFloat _ := none
  toDouble _ := none
  isUsual _ := false

/-- A negative number with bytes behind it. -/
theorem value_writes_back_int16 :
    WritesBack noFloats { label := "hp", address := 0x1000, type := "Int16", byteLength := some 3 } [0xFE,
      0xFF, 0xE9] := by
  refine (value_writes_back_iff noFloats { label := "hp", address := 0x1000, type := "Int16", byteLength := some 3 }
    [0xFE, 0xFF, 0xE9] (by decide) ?_ rfl).mpr fun h => absurd h (by decide)
  intro n hn
  obtain rfl : 3 = n := Option.mem_some.mp hn
  decide

/-- The byte of an é comes back as two. -/
theorem value_not_written_back :
    ¬ ∀ (fl : Floats) (item : WatchItem) (b : List Byte),
      item.type ∈ ["Byte", "Int16", "Int32", "Int64", "ByteArray", "String"] →
      (∀ n ∈ item.byteLength, (typeSize item.type : Int) ≤ n.toInt) → b.length = typeSizeBytes item →
      WritesBack fl item b := by
  intro h
  obtain ⟨text, r, htext, hr, heq⟩ := h noFloats { label := "name", address := 0x1000, type := "String" }
    (0xE9 :: List.replicate 31 0) (by decide) nofun rfl
  obtain rfl : text = [latinChar 0xE9] := by
    cases htext
    rfl
  cases hr
  revert heq
  decide

end WatchListUtils

end Ps5Debugger
