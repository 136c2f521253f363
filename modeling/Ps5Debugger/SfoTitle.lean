import Ps5Debugger.ClientScan
import Ps5Debugger.Lib.IntArrays
import Ps5Debugger.Lib.Records
import Ps5Debugger.Lib.Utf8
import Ps5Debugger.SfoLookup

/-!
# The title of an application

`SfoUtil.getTitleName` reads the `TITLE` out of the file in which `sfo_get_string` (`console.c`) looks up
strings. It computes in `Int`, and an index outside the array ends the lookup with no title: that is where
the two part, at a key that lies behind the file, at one that no zero ends, and at a number of entries
that is negative as an `Int`.
-/

namespace Ps5Debugger

open Lib

namespace SfoUtil

open ScannerView (Text)

/-- `readShortLE` -/
def readShortLE (bytes : List Byte) (offset : Int) : Option Int := int16At bytes offset

/-- `readIntLE` -/
def readIntLE (bytes : List Byte) (offset : Int) : Option Int := int32At bytes offset

/-- `len` in `getString`; every pass but the last reads another byte of the array. -/
def stringLen (bytes : List Byte) (offset maxLen : Int) : Nat → Int → Option Int
  | 0, _ => none
  | passes + 1, len =>
    if wrap32 (offset + len) < bytes.length ∧ len < maxLen then do
      let b ← byteAt bytes (wrap32 (offset + len))
      if b ≠ 0 then stringLen bytes offset maxLen passes (wrap32 (len + 1)) else some len
    else some len

/-- `bytes.decodeToString(startIndex, endIndex)` -/
def decodeToString (malformed : List Byte → Nat) (bytes : List Byte) (startIndex endIndex : Int) : Option Text :=
  if 0 ≤ startIndex ∧ startIndex ≤ endIndex ∧ endIndex ≤ bytes.length then
    some (Utf8.decode malformed ((bytes.take endIndex.toNat).drop startIndex.toNat))
  else none

/-- `getString` -/
def getString (malformed : List Byte → Nat) (bytes : List Byte) (offset maxLen : Int) : Option Text := do
  let len ← stringLen bytes offset maxLen (bytes.length + 1) 0
  decodeToString malformed bytes offset (wrap32 (offset + len))

/-- `trimEnd { it <= ' ' || it == '\u0000' }` -/
def trimEnd (s : Text) : Text := s.rdropWhile fun c => c ≤ ' ' ∨ c = '\u0000'

/-- The passes of the loop over the entries that are left, from `i` on; behind it, and after an exception, no title
is returned. -/
def findTitle (malformed : List Byte → Nat) (bytes : List Byte) (keyOffset dataOffset : Int) :
    Nat → Int → Option Text
  | 0, _ => none
  | left + 1, i => do
    let entryOffset := wrap32 (0x14 + wrap32 (i * 16))
    let nameOffset := wrap32 (keyOffset + (← readShortLE bytes entryOffset) % 2 ^ 16)
    let dataLen ← readIntLE bytes (wrap32 (entryOffset + 4))
    let dataOff := wrap32 (dataOffset + (← readIntLE bytes (wrap32 (entryOffset + 12))))
    let keyName ← getString malformed bytes nameOffset 256
    if keyName = "TITLE".toList then return trimEnd (← getString malformed bytes dataOff dataLen)
    else findTitle malformed bytes keyOffset dataOffset left (i + 1)

/-- `getTitleName` -/
def getTitleName (malformed : List Byte → Nat) (bytes : List Byte) : Option Text :=
  if bytes.length < 20 then none
  else if bytes.take 4 ≠ [0, 0x50, 0x53, 0x46] then none
  else do
    let keyOffset ← readIntLE bytes 0x08
    let dataOffset ← readIntLE bytes 0x0C
    let count ← readIntLE bytes 0x10
    findTitle malformed bytes keyOffset dataOffset count.toNat 0

/-! ## Inside the array -/

section Inside

/-- The bytes of a string in the array: up to a zero, to the end, or as many as are asked for. -/
def run (bytes : List Byte) (off : Nat) (maxLen : Int) : List Byte :=
  slice (ofList bytes) off (strlen (ofList bytes) (min maxLen.toNat (bytes.length - off)) off)

variable {malformed : List Byte → Nat} {bytes : List Byte} {off i : Nat}

variable (hsize : bytes.length < 2 ^ 31)

include hsize

theorem readShortLE_eq (h : off + 2 ≤ bytes.length) :
    readShortLE bytes off = some ((leNat 2 (slice (ofList bytes) off 2) : Int).bmod (2 ^ 16)) := int16At_eq hsize h

theorem readIntLE_eq (h : off + 4 ≤ bytes.length) :
    readIntLE bytes off = some (wrap32 (leNat 4 (slice (ofList bytes) off 4))) := int32At_eq hsize h

/-- The loop of `getString` stays in the array. -/
theorem stringLen_eq {maxLen : Int} {len passes : Nat} (hlen : off + len ≤ bytes.length)
    (hpasses : bytes.length < off + len + passes) :
    stringLen bytes off maxLen passes len = some ((len +
      strlen (ofList bytes) (min (maxLen - len).toNat (bytes.length - (off + len))) (off + len) : Nat) : Int) := by
  induction passes generalizing len with
  | zero => omega
  | succ passes ih =>
    have hint : wrap32 (off + len) = (off + len : Nat) := wrap32_eq_self (by omega) (by omega)
    rw [stringLen, hint]
    split
    · rename_i hmore
      have hmost : min (maxLen - len).toNat (bytes.length - (off + len)) =
          min (maxLen - (len + 1 : Nat)).toNat (bytes.length - (off + (len + 1))) + 1 := by omega
      have hnext : wrap32 ((len : Int) + 1) = (len + 1 : Nat) := wrap32_eq_self (by omega) (by omega)
      rw [byteAt_of_lt (by omega), hmost, strlen]
      by_cases hbyte : ofList bytes (off + len) = 0
      · simp [hbyte]
      · simp only [Option.bind_eq_bind, Option.bind_some, ne_eq, hbyte, not_false_eq_true, if_true, if_false, hnext]
        have hrest : stringLen bytes off maxLen passes (len + 1 : Nat) = _ := ih (by omega) (by omega)
        rw [hrest, Nat.add_right_comm, ← Nat.add_assoc]
        rfl
    · rename_i hdone
      have hmost : min (maxLen - len).toNat (bytes.length - (off + len)) = 0 := by omega
      rw [hmost, strlen, Nat.add_zero]

omit hsize in
theorem decodeToString_eq {len : Nat} (h : off + len ≤ bytes.length) :
    decodeToString malformed bytes off (off + len : Nat) =
      some (Utf8.decode malformed (slice (ofList bytes) off len)) := by
  rw [decodeToString, if_pos ⟨by omega, by omega, by omega⟩, Int.toNat_natCast, Int.toNat_natCast, List.drop_take,
    Nat.add_sub_cancel_left, slice_ofList_eq h]

/-- A string that begins in the array is read. -/
theorem getString_eq (maxLen : Int) (h : off ≤ bytes.length) :
    getString malformed bytes off maxLen = some (Utf8.decode malformed (run bytes off maxLen)) := by
  have hlen : stringLen bytes off maxLen (bytes.length + 1) (0 : Nat) = _ := stringLen_eq hsize h (by omega)
  have hle := (strlen_eq_iff.mp (rfl : strlen (ofList bytes) (min maxLen.toNat (bytes.length - off)) off = _)).1
  simp only [Nat.cast_zero, Int.sub_zero, Nat.add_zero, Nat.zero_add] at hlen
  rw [run, getString, hlen]
  generalize strlen (ofList bytes) (min maxLen.toNat (bytes.length - off)) off = len at hle
  have hint : wrap32 ((off : Int) + (len : Nat)) = (off + len : Nat) := wrap32_eq_self (by omega) (by omega)
  rw [Option.bind_eq_bind, Option.bind_some, hint]
  exact decodeToString_eq (by omega)

omit hsize in
/-- One that begins outside is not. -/
theorem getString_eq_none {offset : Int} (maxLen : Int) (h : ¬ (0 ≤ offset ∧ offset ≤ bytes.length)) :
    getString malformed bytes offset maxLen = none := by
  rw [getString]
  cases stringLen bytes offset maxLen (bytes.length + 1) 0 with
  | none => rfl
  | some len => exact if_neg fun hin => h ⟨hin.1, hin.2.1.trans hin.2.2⟩

end Inside

/-! ## Keys -/

section Keys

open Sfo

variable {malformed : List Byte → Nat} {bytes : List Byte} {i : Nat}

/-- The key `TITLE`. -/
def title : List Byte := [0x54, 0x49, 0x54, 0x4C, 0x45]

/-- The array ends with a key `TITLE` that no zero ends. -/
def TitleAtEnd (bytes : List Byte) (i : Nat) : Prop :=
  keyAbs (ofList bytes) i + 5 = bytes.length ∧ slice (ofList bytes) (keyAbs (ofList bytes) i) 5 = title

instance (bytes : List Byte) (i : Nat) : Decidable (TitleAtEnd bytes i) := inferInstanceAs (Decidable (_ ∧ _))

theorem title_ne_zero : 0 ∉ title := by decide

theorem encode_title : Utf8.encode "TITLE".toList = title := by decide

/-- A string in the array is `TITLE` iff that is an entry's key, or what the array ends with. -/
theorem run_eq_title_iff (hkey : keyAbs (ofList bytes) i ≤ bytes.length) :
    run bytes (keyAbs (ofList bytes) i) 256 = title ↔
      key (ofList bytes) bytes.length i = some title ∨ TitleAtEnd bytes i := by
  rw [key_eq_some_iff title_ne_zero, TitleAtEnd]
  have hlength : title.length = 5 := rfl
  have hmost : (256 : Int).toNat = 256 := rfl
  rw [run, hlength, hmost]
  constructor
  · intro hrun
    have hlen := congrArg List.length hrun
    rw [length_slice, hlength] at hlen
    rw [hlen] at hrun
    obtain ⟨hle, -, hstop⟩ := strlen_eq_iff.mp hlen
    by_cases hend : keyAbs (ofList bytes) i + 5 = bytes.length
    · exact .inr ⟨hend, hrun⟩
    · exact .inl ⟨by omega, hrun, hstop (by omega)⟩
  · intro h
    have hslice : slice (ofList bytes) (keyAbs (ofList bytes) i) 5 = title := by
      obtain ⟨-, hslice, -⟩ | ⟨-, hslice⟩ := h <;> exact hslice
    have hlen : strlen (ofList bytes) (min 256 (bytes.length - keyAbs (ofList bytes) i))
      (keyAbs (ofList bytes) i) = 5 := by
      refine strlen_eq_iff.mpr ⟨by omega, fun k hk hzero => title_ne_zero ?_, fun hlt => ?_⟩
      · rw [← hslice, ← hzero]
        exact List.mem_map.mpr ⟨k, List.mem_range.mpr hk, rfl⟩
      · obtain ⟨-, -, hstop⟩ | ⟨hend, -⟩ := h
        · exact hstop
        · omega
    rw [hlen, hslice]

/-! ## Entries -/

/-- What is returned at an entry whose key is read as `TITLE`. -/
def titleAt (malformed : List Byte → Nat) (bytes : List Byte) (i : Nat) : Option Text :=
  (getString malformed bytes (wrap32 (dataAbs (ofList bytes) i)) (wrap32 (paramLen (ofList bytes) i))).map trimEnd

/-- The key of an entry begins in the array, and is not what the array ends with. -/
def Passed (bytes : List Byte) (i : Nat) : Prop :=
  keyAbs (ofList bytes) i ≤ bytes.length ∧ ¬ TitleAtEnd bytes i

instance (bytes : List Byte) (i : Nat) : Decidable (Passed bytes i) := inferInstanceAs (Decidable (_ ∧ _))

/-- The loop over the entries, with the tables of the file. -/
def findFrom (malformed : List Byte → Nat) (bytes : List Byte) (left i : Nat) : Option Text :=
  findTitle malformed bytes (wrap32 (leNat 4 (slice (ofList bytes) 8 4))) (wrap32 (leNat 4 (slice (ofList bytes) 12 4)))
    left i

variable (hsize : bytes.length < 2 ^ 31)

include hsize

theorem findFrom_succ {left : Nat} (hin : eoff i + 16 ≤ bytes.length) :
    findFrom malformed bytes (left + 1) i =
      (getString malformed bytes (wrap32 (keyAbs (ofList bytes) i)) 256).bind fun keyName =>
        if keyName = "TITLE".toList then titleAt malformed bytes i else findFrom malformed bytes left (i + 1) := by
  have hentry : wrap32 (0x14 + wrap32 ((i : Int) * 16)) = (eoff i : Nat) := by
    rw [eoff] at hin ⊢
    rw [wrap32_eq_self (n := (i : Int) * 16) (by omega) (by omega), wrap32_eq_self (by omega) (by omega)]
    push_cast
    rfl
  have hfield {k : Nat} (hk : k ≤ 12) : wrap32 ((eoff i : Int) + k) = (eoff i + k : Nat) :=
    wrap32_eq_self (by omega) (by omega)
  have hlen := hfield (show 4 ≤ 12 by decide)
  have hdata := hfield (show 12 ≤ 12 by decide)
  rw [Nat.cast_ofNat] at hlen hdata
  rw [findFrom, findTitle, hentry, hlen, hdata, readShortLE_eq hsize (by omega), readIntLE_eq hsize (by omega),
    readIntLE_eq hsize (by omega)]
  have hname : wrap32 (wrap32 (leNat 4 (slice (ofList bytes) 8 4)) +
      (leNat 2 (slice (ofList bytes) (eoff i) 2) : Int).bmod (2 ^ 16) % 2 ^ 16) = wrap32 (keyAbs (ofList bytes) i) := by
    have hshort : ((leNat 2 (slice (ofList bytes) (eoff i) 2) : Int).bmod (2 ^ 16)) % 2 ^ 16 =
        leNat 2 (slice (ofList bytes) (eoff i) 2) := by
      have hlt := leNat_lt 2 (slice (ofList bytes) (eoff i) 2)
      exact Int.bmod_emod.trans (Int.emod_eq_of_lt (by omega) (by omega))
    rw [hshort, keyAbs, Nat.cast_add, wrap32, wrap32, wrap32, Int.bmod_add_bmod]
  have hoff : wrap32 (wrap32 (leNat 4 (slice (ofList bytes) 12 4)) +
      wrap32 (leNat 4 (slice (ofList bytes) (eoff i + 12) 4))) = wrap32 (dataAbs (ofList bytes) i) := by
    rw [wrap32_add_wrap32, dataAbs, Nat.cast_add]
  rw [Option.bind_eq_bind, Option.bind_some, Option.bind_some, Option.bind_some, hname, hoff]
  refine Option.bind_congr fun keyName _ => ?_
  split
  · rw [titleAt, Option.map_eq_bind]
    rfl
  · rw [findFrom, Nat.cast_add, Nat.cast_one]

/-- The loop ends with no title at a key behind the array. -/
theorem findFrom_outside {left : Nat} (hin : eoff i + 16 ≤ bytes.length)
    (htable : leNat 4 (slice (ofList bytes) 8 4) ≤ bytes.length) (hkey : bytes.length < keyAbs (ofList bytes) i) :
    findFrom malformed bytes (left + 1) i = none := by
  have hoff := leNat_lt 2 (slice (ofList bytes) (eoff i) 2)
  have hlt : keyAbs (ofList bytes) i < 2 ^ 31 + 2 ^ 16 := by
    rw [keyAbs]
    omega
  have houtside : ¬ (0 ≤ wrap32 (keyAbs (ofList bytes) i) ∧ wrap32 (keyAbs (ofList bytes) i) ≤ bytes.length) := by
    by_cases hint : keyAbs (ofList bytes) i < 2 ^ 31
    · rw [wrap32_eq_self (by omega) (by omega)]
      omega
    · have hwrap : wrap32 (keyAbs (ofList bytes) i) = keyAbs (ofList bytes) i - 2 ^ 32 :=
        wrap32_of_le (by omega) (by omega)
      omega
  rw [findFrom_succ hsize hin, getString_eq_none 256 houtside]
  rfl

/-- It stops at a key that is read as `TITLE`. -/
theorem findFrom_title {left : Nat} (hin : eoff i + 16 ≤ bytes.length)
    (hkey : keyAbs (ofList bytes) i ≤ bytes.length)
    (htitle : key (ofList bytes) bytes.length i = some title ∨ TitleAtEnd bytes i) :
    findFrom malformed bytes (left + 1) i = titleAt malformed bytes i := by
  have hrun := (run_eq_title_iff hkey).mpr htitle
  rw [findFrom_succ hsize hin, wrap32_eq_self (by omega) (by omega), getString_eq hsize 256 hkey, hrun,
    Option.bind_some,
    ← encode_title, Utf8.decode_encode, if_pos rfl]

/-- It goes on behind any other. -/
theorem findFrom_passed {left : Nat} (hin : eoff i + 16 ≤ bytes.length) (hpass : Passed bytes i)
    (hother : key (ofList bytes) bytes.length i ≠ some title) :
    findFrom malformed bytes (left + 1) i = findFrom malformed bytes left (i + 1) := by
  obtain ⟨hkey, hend⟩ := hpass
  have hrun : run bytes (keyAbs (ofList bytes) i) 256 ≠ Utf8.encode "TITLE".toList := by
    rw [encode_title]
    exact fun h => ((run_eq_title_iff hkey).mp h).elim hother hend
  have hname : Utf8.decode malformed (run bytes (keyAbs (ofList bytes) i) 256) ≠ "TITLE".toList :=
    mt (Utf8.decode_eq_iff (by decide)).mp hrun
  rw [findFrom_succ hsize hin, wrap32_eq_self (by omega) (by omega), getString_eq hsize 256 hkey, Option.bind_some,
    if_neg hname]

/-- It comes to an entry if it passes all before. -/
theorem findFrom_add {left n : Nat} (hin : ∀ j < n, eoff j + 16 ≤ bytes.length) (hpass : ∀ j < n, Passed bytes j)
    (hother : ∀ j < n, key (ofList bytes) bytes.length j ≠ some title) :
    findFrom malformed bytes (left + n) 0 = findFrom malformed bytes left n := by
  induction n generalizing left with
  | zero => rfl
  | succ n ih =>
    have hn := Nat.lt_succ_self n
    rw [← Nat.add_assoc, Nat.add_right_comm, ih (fun j hj => hin j (by omega)) (fun j hj => hpass j (by omega))
      fun j hj => hother j (by omega)]
    exact findFrom_passed hsize (hin n hn) (hpass n hn) (hother n hn)

/-- The value of an entry whose data are inside, a text and zeros behind it. -/
theorem titleAt_eq {s : Text} (hin : dataAbs (ofList bytes) i + paramLen (ofList bytes) i ≤ bytes.length)
    (hvalue : stripNul (data (ofList bytes) i) = Utf8.encode s) (hnul : 0 ∉ Utf8.encode s) :
    titleAt malformed bytes i = some (trimEnd s) := by
  have hrun : run bytes (dataAbs (ofList bytes) i) (paramLen (ofList bytes) i) = Utf8.encode s := by
    have hmost : min (paramLen (ofList bytes) i : Int).toNat (bytes.length - dataAbs (ofList bytes) i) =
        paramLen (ofList bytes) i := by omega
    rw [run, hmost, strlen_value hvalue hnul, slice_value hvalue]
  rw [titleAt, wrap32_eq_self (by omega) (by omega), wrap32_eq_self (by omega) (by omega),
    getString_eq hsize _ (by omega),
    hrun, Utf8.decode_encode, Option.map_some]

/-! ## Agreement -/

/-- `getTitleName` takes another entry for the one with the title, and finds the same there. -/
def FoundEarlier (malformed : List Byte → Nat) (bytes : List Byte) (s : Text) (i : Nat) : Prop :=
  ∃ k < i, TitleAtEnd bytes k ∧ (∀ j < k, Passed bytes j) ∧ titleAt malformed bytes k = some s

/-- With a `TITLE` in the file, the loop returns what is at the first entry that it does not pass. -/
theorem findFrom_iff {s : Text} {left : Nat} (hfirst : FirstEntry (ofList bytes) bytes.length title i)
    (htable : leNat 4 (slice (ofList bytes) 8 4) ≤ bytes.length) :
    findFrom malformed bytes (left + 1 + i) 0 = some s ↔
      (∀ j < i, Passed bytes j) ∧ titleAt malformed bytes i = some s ∨ FoundEarlier malformed bytes s i := by
  have hinside : ∀ j ≤ i, eoff j + 16 ≤ bytes.length := by
    intro j hj
    have := hfirst.inside
    rw [eoff] at this ⊢
    omega
  by_cases hpass : ∀ j < i, Passed bytes j
  · have hkey := ((key_eq_some_iff title_ne_zero).mp hfirst.key).1
    rw [findFrom_add hsize (fun j hj => hinside j hj.le) hpass hfirst.first,
      findFrom_title hsize hfirst.inside (by omega) (.inl hfirst.key)]
    refine ⟨fun h => .inl ⟨hpass, h⟩, ?_⟩
    rintro (⟨-, h⟩ | ⟨k, hk, hend, -⟩)
    · exact h
    · exact absurd hend (hpass k hk).2
  · -- the first entry that is not passed ends the loop
    push Not at hpass
    obtain ⟨hk, hstop⟩ := Nat.find_spec hpass
    have hbefore : ∀ j < Nat.find hpass, Passed bytes j := fun j hj =>
      not_not.mp fun h => Nat.find_min hpass hj ⟨by omega, h⟩
    generalize Nat.find hpass = k at hk hstop hbefore
    have hleft : left + 1 + i = left + (i - k) + 1 + k := by omega
    rw [hleft, findFrom_add hsize (fun j hj => hinside j (by omega)) hbefore fun j hj => hfirst.first j (by omega)]
    by_cases hend : TitleAtEnd bytes k
    · have hkey : keyAbs (ofList bytes) k ≤ bytes.length := by
        have := hend.1
        omega
      rw [findFrom_title hsize (hinside k hk.le) hkey (.inr hend)]
      refine ⟨fun h => .inr ⟨k, hk, hend, hbefore, h⟩, ?_⟩
      rintro (⟨hall, -⟩ | ⟨m, hm, hendm, hbeforem, h⟩)
      · exact absurd (hall k hk) hstop
      · -- both are the first that is not passed
        obtain hlt | rfl | hlt := Nat.lt_trichotomy k m
        · exact absurd (hbeforem k hlt) hstop
        · exact h
        · exact absurd hendm (hbefore m hlt).2
    · have hkey : bytes.length < keyAbs (ofList bytes) k := Nat.lt_of_not_le fun h => hstop ⟨h, hend⟩
      rw [findFrom_outside hsize (hinside k hk.le) htable hkey]
      refine iff_of_false nofun ?_
      rintro (⟨hall, -⟩ | ⟨m, hm, hendm, hbeforem, -⟩)
      · exact hstop (hall k hk)
      · obtain hlt | rfl | hlt := Nat.lt_trichotomy k m
        · exact hstop (hbeforem k hlt)
        · exact hend hendm
        · exact (hbefore m hlt).2 hendm

omit hsize in
/-- A value is not trimmed iff it does not end with a space or a control character. -/
theorem trimEnd_eq_self_iff {s : Text} : trimEnd s = s ↔ ∀ c ∈ s.getLast?, ' ' < c := by
  have hchar (c : Char) : ¬ (decide (c ≤ ' ' ∨ c = '\u0000') = true) ↔ ' ' < c := by
    rw [decide_eq_true_eq, not_or, Char.not_le]
    refine and_iff_left_of_imp fun hlt heq => ?_
    rw [heq] at hlt
    exact absurd hlt (by decide)
  rw [trimEnd, List.rdropWhile_eq_self_iff]
  constructor
  · intro h c hc
    obtain ⟨hne, rfl⟩ := List.mem_getLast?_eq_getLast hc
    exact (hchar _).mp (h hne)
  · intro h hne
    exact (hchar _).mpr (h _ (List.getLast?_eq_some_getLast hne))

end Keys

/-! ## Lookups -/

open Sfo in
/-- Lookups in C stay in the file and find the first entry with the key. A title that one finds is the one that the
client shows iff there are not too many entries, no key before begins behind the file or is a `TITLE` at its end
with another value, and the value ends with no control character. -/
theorem lookups_agree_iff (malformed : List Byte → Nat) :
    (∀ (sfo : Buf) (sfo_len out_max : Nat) (want_key : List Byte), 0 ∉ want_key →
      (sfoGetString sfo sfo_len want_key out_max).Within sfo_len ∧
        ∀ out, (sfoGetString sfo sfo_len want_key out_max).val = (0, out) →
          ∃ i, FirstEntry sfo sfo_len want_key i ∧ dataAbs sfo i + paramLen sfo i ≤ sfo_len ∧
            out = stripNul ((data sfo i).take (out_max - 1))) ∧
      ∀ (bytes : List Byte) (out_max i : Nat) (s : Text), bytes.length < 2 ^ 31 →
        (sfoGetString (ofList bytes) bytes.length title out_max).val = (0, Utf8.encode s) →
        FirstEntry (ofList bytes) bytes.length title i → (stripNul (data (ofList bytes) i)).length < out_max →
        0 ∉ Utf8.encode s →
        (getTitleName malformed bytes = some s ↔ nentries (ofList bytes) < 2 ^ 31 ∧
          ((∀ j < i, Passed bytes j) ∧ (∀ c ∈ s.getLast?, ' ' < c) ∨ FoundEarlier malformed bytes s i)) := by
  refine ⟨fun sfo sfo_len out_max want_key hwant => ?_,
    fun bytes out_max i s hsize hfound hfirst huncut hnul => ?_⟩
  · obtain ⟨hwithin, hresult⟩ := sfoGetString_spec sfo sfo_len out_max hwant
    refine ⟨hwithin, fun out hout => ?_⟩
    rw [hout] at hresult
    exact (hresult rfl).2
  · obtain ⟨-, hresult⟩ := sfoGetString_spec (ofList bytes) bytes.length out_max title_ne_zero
    rw [hfound] at hresult
    obtain ⟨⟨hlong, hmagic, htable, hdataTable⟩, e, he, hdata, hout⟩ := hresult rfl
    obtain rfl := hfirst.unique he
    have hvalue : stripNul (data (ofList bytes) i) = Utf8.encode s := by
      rw [← stripNul_take huncut]
      exact hout.symm
    have htake : bytes.take 4 = [0, 0x50, 0x53, 0x46] := by
      rw [← hmagic, slice_ofList_eq (by omega), List.drop_zero]
    have hkeys : readIntLE bytes (8 : Nat) = _ := readIntLE_eq hsize (by omega)
    have hdatas : readIntLE bytes (12 : Nat) = _ := readIntLE_eq hsize (by omega)
    have hcount : readIntLE bytes (16 : Nat) = _ := readIntLE_eq hsize (by omega)
    rw [Nat.cast_ofNat] at hkeys hdatas hcount
    have hloop : getTitleName malformed bytes =
        findFrom malformed bytes (wrap32 (nentries (ofList bytes))).toNat 0 := by
      rw [getTitleName, if_neg (by omega), if_neg (not_not.mpr htake), hkeys, hdatas, hcount,
        Option.bind_eq_bind, Option.bind_some, Option.bind_some, Option.bind_some, findFrom, nentries, Nat.cast_zero]
    have hlt := hfirst.lt
    have hbound : nentries (ofList bytes) < 2 ^ 32 := leNat_lt 4 _
    rw [hloop]
    by_cases hfew : nentries (ofList bytes) < 2 ^ 31
    · have hentries : (wrap32 (nentries (ofList bytes))).toNat = nentries (ofList bytes) - i - 1 + 1 + i := by
        rw [wrap32_eq_self (by omega) (by omega)]
        omega
      rw [hentries, findFrom_iff hsize hfirst htable, titleAt_eq hsize hdata hvalue hnul, Option.some_inj,
        trimEnd_eq_self_iff, and_iff_right hfew]
    · -- as an `Int` the number of entries is negative
      have hwrap : wrap32 (nentries (ofList bytes)) = nentries (ofList bytes) - 2 ^ 32 :=
        wrap32_of_le (by omega) (by omega)
      have hneg : wrap32 (nentries (ofList bytes)) ≤ 0 := by
        rw [hwrap]
        omega
      rw [Int.toNat_of_nonpos hneg]
      exact iff_of_false nofun fun h => hfew h.1

/-- An entry in the table of a file: the offset of its key, the length and the offset of its data. -/
def entry (key_off param_len data_off : Nat) : List Byte :=
  leBytes 2 key_off ++ leBytes 2 0x204 ++ leBytes 4 param_len ++ leBytes 4 param_len ++ leBytes 4 data_off

/-- A file with a key and a value behind its table. -/
def file (table : List (List Byte)) : List Byte :=
  [0, 0x50, 0x53, 0x46] ++ leBytes 4 0x101 ++ leBytes 4 (20 + 16 * table.length) ++
    leBytes 4 (26 + 16 * table.length) ++
    leBytes 4 table.length ++ table.flatten ++ title ++ [0, 0x41, 0x42, 0]

open Sfo in
theorem lookups_agree_title : getTitleName (fun _ => 1) (file [entry 0 3 0]) = some "AB".toList := by
  have hagree := (lookups_agree_iff fun _ => 1).2 (file [entry 0 3 0]) 64 0 "AB".toList (by decide) (by decide)
    ⟨by decide, by decide, by decide, nofun⟩ (by decide) (by decide)
  refine hagree.mpr ⟨by decide, .inl ⟨nofun, ?_⟩⟩
  have hlast : "AB".toList.getLast? = some 'B' := by decide
  intro c hc
  rw [hlast] at hc
  rw [← Option.mem_some.mp hc]
  decide

/-- The key of the first entry lies behind the file. -/
def farKey : List Byte := file [entry 60000 3 0, entry 0 3 0]

/-- The value of the second entry is found in C, and no title is shown. -/
theorem lookups_disagree :
    (Sfo.sfoGetString (ofList farKey) farKey.length title 64).val = (0, Utf8.encode "AB".toList) ∧
      getTitleName (fun _ => 1) farKey = none :=
  ⟨by decide, by decide⟩

end SfoUtil

end Ps5Debugger
