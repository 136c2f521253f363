import Mathlib.Data.List.DropRight
import Ps5Debugger.Lib.Reads

/-!
# Looking up a string in an SFO file

`sfo_get_string` (`console.c`) goes through the table of a `param.sfo` that was read into memory. Offsets,
lengths and the number of entries come from the file; it compares unsigned sums of them with the length of
the file, passes an entry whose key does not fit and fails at one whose data do not.
-/

namespace Ps5Debugger

open Lib

/-! ## The file -/

namespace Sfo

variable {sfo : Buf} {sfo_len out_max i : Nat} {want_key : List Byte}

/-- `nentries` -/
def nentries (sfo : Buf) : Nat := leNat 4 (slice sfo 16 4)

/-- `eoff` -/
def eoff (i : Nat) : Nat := 20 + i * 16

/-- `key_abs` -/
def keyAbs (sfo : Buf) (i : Nat) : Nat := leNat 4 (slice sfo 8 4) + leNat 2 (slice sfo (eoff i) 2)

/-- `param_len` -/
def paramLen (sfo : Buf) (i : Nat) : Nat := leNat 4 (slice sfo (eoff i + 4) 4)

/-- `data_abs` -/
def dataAbs (sfo : Buf) (i : Nat) : Nat := leNat 4 (slice sfo 12 4) + leNat 4 (slice sfo (eoff i + 12) 4)

/-- The data of an entry. -/
def data (sfo : Buf) (i : Nat) : List Byte := slice sfo (dataAbs sfo i) (paramLen sfo i)

/-- The key of an entry, a string that ends in the file. -/
def key (sfo : Buf) (sfo_len i : Nat) : Option (List Byte) :=
  let len := strlen sfo (sfo_len - keyAbs sfo i) (keyAbs sfo i)
  if keyAbs sfo i + len < sfo_len then some (slice sfo (keyAbs sfo i) len) else none

/-- The first entry of the table with a key. -/
structure FirstEntry (sfo : Buf) (sfo_len : Nat) (want_key : List Byte) (i : Nat) : Prop where
  lt : i < nentries sfo
  inside : eoff i + 16 ≤ sfo_len
  key : key sfo sfo_len i = some want_key
  first : ∀ j < i, Sfo.key sfo sfo_len j ≠ some want_key

/-- Without the zeros at the end. -/
def stripNul (l : List Byte) : List Byte := l.rdropWhile (· = 0)

/-! ## `sfo_get_string` -/

/-- `memcmp`, `memcpy` -/
def bytesAt (sfo : Buf) (off len : Nat) : Reads (List Byte) := ⟨slice sfo off len, [⟨off, len⟩]⟩

/-- Whether the key of an entry is compared and equal. The sums are of type `size_t` and do not wrap around. -/
def keyMatches (sfo : Buf) (sfo_len key_abs : Nat) (want_key : List Byte) : Reads Bool :=
  if key_abs + want_key.length + 1 > sfo_len then return false
  else do
    let front ← bytesAt sfo key_abs want_key.length
    if front ≠ want_key then return false
    else do
      let stop ← Reads.load sfo (key_abs + want_key.length) 1
      return stop = 0

/-- `while (copy > 0 && out[copy - 1] == '\0') copy--` -/
def stripCopy (out : List Byte) : Nat → Nat
  | 0 => 0
  | copy + 1 => if out[copy]? = some 0 then stripCopy out copy else copy + 1

/-- `out` for the data of the entry -/
def copyOut (sfo : Buf) (sfo_len data_abs param_len out_max : Nat) : Reads (Int × List Byte) :=
  if data_abs + param_len > sfo_len then return (-1, [])
  else do
    let copy := if param_len ≥ out_max then out_max - 1 else param_len
    let out ← bytesAt sfo data_abs copy
    return (0, out.take (stripCopy out copy))

/-- The passes that are left of the loop over the entries, from `i` on. -/
def findEntry (sfo : Buf) (sfo_len key_table data_table : Nat) (want_key : List Byte) (out_max : Nat) :
    Nat → Nat → Reads (Int × List Byte)
  | 0, _ => return (-2, [])
  | left + 1, i =>
    if eoff i + 16 > sfo_len then return (-1, [])
    else do
      let key_off ← Reads.load sfo (eoff i) 2
      let param_len ← Reads.load sfo (eoff i + 4) 4
      let data_off ← Reads.load sfo (eoff i + 12) 4
      let found ← keyMatches sfo sfo_len (key_table + key_off) want_key
      if found then copyOut sfo sfo_len (data_table + data_off) param_len out_max
      else findEntry sfo sfo_len key_table data_table want_key out_max left (i + 1)

/-- `sfo_get_string`: what it returns, and the string in `out`. -/
def sfoGetString (sfo : Buf) (sfo_len : Nat) (want_key : List Byte) (out_max : Nat) : Reads (Int × List Byte) :=
  if out_max = 0 then return (-1, [])
  else if sfo_len < 20 then return (-1, [])
  else do
    let magic ← bytesAt sfo 0 4
    if magic ≠ [0, 0x50, 0x53, 0x46] then return (-1, [])
    else do
      let key_table ← Reads.load sfo 8 4
      let data_table ← Reads.load sfo 12 4
      let nentries ← Reads.load sfo 16 4
      if key_table > sfo_len then return (-1, [])
      else if data_table > sfo_len then return (-1, [])
      else findEntry sfo sfo_len key_table data_table want_key out_max nentries 0

/-! ## What it reads and finds -/

@[simp] theorem within_bytesAt {off len l : Nat} : (bytesAt sfo off len).Within l ↔ off + len ≤ l := by
  simp [bytesAt, Reads.Within]

@[simp] theorem val_bytesAt (sfo : Buf) (off len : Nat) : (bytesAt sfo off len).val = slice sfo off len := rfl

@[simp] theorem val_load (sfo : Buf) (off size : Nat) :
    (Reads.load sfo off size).val = leNat size (slice sfo off size) := rfl

theorem byte_eq_zero_iff {q : Nat} : leNat 1 (slice sfo q 1) = 0 ↔ sfo q = 0 := by
  rw [slice, List.range_one, List.map_singleton, leNat, leNat, List.headD_cons, Nat.mul_zero, Nat.add_zero,
    Nat.add_zero]
  exact ⟨fun h => BitVec.eq_of_toNat_eq h, fun h => h ▸ rfl⟩

/-- The key of an entry is a string iff the string and a zero are at its place in the file. -/
theorem key_eq_some_iff (hwant : 0 ∉ want_key) :
    key sfo sfo_len i = some want_key ↔ keyAbs sfo i + want_key.length < sfo_len ∧
      slice sfo (keyAbs sfo i) want_key.length = want_key ∧ sfo (keyAbs sfo i + want_key.length) = 0 := by
  constructor
  · intro h
    rw [key, Option.ite_none_right_eq_some, Option.some_inj] at h
    obtain ⟨hin, hslice⟩ := h
    obtain ⟨hle, -, hstop⟩ := strlen_eq_iff.mp (rfl : strlen sfo (sfo_len - keyAbs sfo i) (keyAbs sfo i) = _)
    rw [← hslice, length_slice]
    exact ⟨hin, rfl, hstop (by omega)⟩
  · rintro ⟨hin, hslice, hstop⟩
    have hlen : strlen sfo (sfo_len - keyAbs sfo i) (keyAbs sfo i) = want_key.length := by
      refine strlen_eq_iff.mpr ⟨by omega, fun k hk hzero => hwant ?_, fun _ => hstop⟩
      have hmem : sfo (keyAbs sfo i + k) ∈ slice sfo (keyAbs sfo i) want_key.length :=
        List.mem_map.mpr ⟨k, List.mem_range.mpr hk, rfl⟩
      rwa [hslice, hzero] at hmem
    rw [key, hlen, if_pos hin, hslice]

/-- Keys are compared inside the file, and the comparison is right. -/
theorem keyMatches_spec (hwant : 0 ∉ want_key) :
    (keyMatches sfo sfo_len (keyAbs sfo i) want_key).Within sfo_len ∧
      ((keyMatches sfo sfo_len (keyAbs sfo i) want_key).val = true ↔ key sfo sfo_len i = some want_key) := by
  rw [key_eq_some_iff hwant, keyMatches]
  split
  · exact ⟨Reads.within_pure _, iff_of_false (by simp) fun h => by omega⟩
  · rename_i hfits
    by_cases hsame : slice sfo (keyAbs sfo i) want_key.length = want_key
    · simp only [Reads.within_bind, within_bytesAt, Reads.within_load, Reads.within_pure, Reads.val_bind, val_bytesAt,
        val_load, Reads.val_pure, hsame, ne_eq, not_true_eq_false, if_false, decide_eq_true_eq, byte_eq_zero_iff]
      exact ⟨⟨by omega, by omega, trivial⟩, fun hzero => ⟨by omega, trivial, hzero⟩, fun h => h.2.2⟩
    · simp only [Reads.within_bind, within_bytesAt, Reads.within_pure, Reads.val_bind, val_bytesAt, Reads.val_pure,
        hsame, ne_eq, not_false_eq_true, if_true]
      exact ⟨⟨by omega, trivial⟩, iff_of_false Bool.false_ne_true fun h => h.2.1⟩

/-- The loop over the copied bytes leaves out the zeros at their end. -/
theorem take_stripCopy (out : List Byte) : out.take (stripCopy out out.length) = stripNul out := by
  induction out using List.reverseRecOn with
  | nil => rfl
  | append_singleton out x ih =>
    rw [List.length_append, List.length_singleton, stripCopy, List.getElem?_concat_length, stripNul,
      List.rdropWhile_concat]
    simp only [Option.some_inj, decide_eq_true_eq]
    split
    · have hfront : ∀ n ≤ out.length, (out ++ [x]).take (stripCopy (out ++ [x]) n) = out.take (stripCopy out n) := by
        intro n hn
        induction n with
        | zero => rfl
        | succ n ihn =>
          rw [stripCopy, stripCopy, List.getElem?_append_left (by omega)]
          split
          · exact ihn (by omega)
          · exact List.take_append_of_le_length hn
      rw [hfront _ (Nat.le_refl _), ih, stripNul]
    · exact List.take_of_length_le (by simp)

/-- The data of an entry are copied from inside the file, cut and without the zeros at their end. -/
theorem copyOut_spec (sfo : Buf) (sfo_len i out_max : Nat) :
    (copyOut sfo sfo_len (dataAbs sfo i) (paramLen sfo i) out_max).Within sfo_len ∧
      ((copyOut sfo sfo_len (dataAbs sfo i) (paramLen sfo i) out_max).val.1 = 0 →
        dataAbs sfo i + paramLen sfo i ≤ sfo_len ∧
          (copyOut sfo sfo_len (dataAbs sfo i) (paramLen sfo i) out_max).val.2 =
            stripNul ((data sfo i).take (out_max - 1))) := by
  rw [copyOut]
  split
  · exact ⟨Reads.within_pure _, fun h => by simp at h⟩
  · rename_i hin
    have hcopy : (data sfo i).take (out_max - 1) = slice sfo (dataAbs sfo i)
        (if paramLen sfo i ≥ out_max then out_max - 1 else paramLen sfo i) := by
      rw [data, take_slice]
      congr 1
      split <;> omega
    have hle : (if paramLen sfo i ≥ out_max then out_max - 1 else paramLen sfo i) ≤ paramLen sfo i := by
      split <;> omega
    simp only [Reads.within_bind, within_bytesAt, Reads.within_pure, Reads.val_bind, val_bytesAt, Reads.val_pure]
    refine ⟨⟨by omega, trivial⟩, fun _ => ⟨by omega, ?_⟩⟩
    rw [hcopy, ← take_stripCopy, length_slice]

/-- The loop stays in the file, and its value is that of the first entry with the key. -/
theorem findEntry_spec (sfo : Buf) (sfo_len out_max : Nat) (hwant : 0 ∉ want_key) {left : Nat}
    (hcount : i + left = nentries sfo)
    (hbefore : ∀ j < i, key sfo sfo_len j ≠ some want_key) :
    let got := findEntry sfo sfo_len (leNat 4 (slice sfo 8 4)) (leNat 4 (slice sfo 12 4)) want_key out_max left i
    got.Within sfo_len ∧ (got.val.1 = 0 → ∃ e, FirstEntry sfo sfo_len want_key e ∧
      dataAbs sfo e + paramLen sfo e ≤ sfo_len ∧ got.val.2 = stripNul ((data sfo e).take (out_max - 1))) := by
  induction left generalizing i with
  | zero => exact ⟨Reads.within_pure _, fun h => by simp [findEntry] at h⟩
  | succ left ih =>
    rw [findEntry]
    split
    · exact ⟨Reads.within_pure _, fun h => by simp at h⟩
    · rename_i hin
      have hkeyAbs : leNat 4 (slice sfo 8 4) + leNat 2 (slice sfo (eoff i) 2) = keyAbs sfo i := rfl
      have hdataAbs : leNat 4 (slice sfo 12 4) + leNat 4 (slice sfo (eoff i + 12) 4) = dataAbs sfo i := rfl
      have hparamLen : leNat 4 (slice sfo (eoff i + 4) 4) = paramLen sfo i := rfl
      have hkey : (keyMatches sfo sfo_len (keyAbs sfo i) want_key).Within sfo_len ∧ _ := keyMatches_spec hwant
      obtain ⟨hwithin, hfound⟩ := hkey
      obtain ⟨hcopy, hdata⟩ := copyOut_spec sfo sfo_len i out_max
      simp only [Reads.within_bind, Reads.within_load, Reads.val_bind, val_load, hkeyAbs, hdataAbs, hparamLen]
      by_cases hmatch : (keyMatches sfo sfo_len (keyAbs sfo i) want_key).val = true
      · simp only [hmatch, if_true]
        refine ⟨⟨by omega, by omega, by omega, hwithin, hcopy⟩, fun hzero => ?_⟩
        exact ⟨i, ⟨by omega, by omega, hfound.mp hmatch, hbefore⟩, hdata hzero⟩
      · simp only [hmatch]
        have hnext : ∀ j < i + 1, key sfo sfo_len j ≠ some want_key := by
          intro j hj
          rcases Nat.lt_succ_iff_lt_or_eq.mp hj with hlt | rfl
          · exact hbefore j hlt
          · exact fun h => hmatch (hfound.mpr h)
        obtain ⟨hrest, hresult⟩ := ih (by omega) hnext
        exact ⟨⟨by omega, by omega, by omega, hwithin, hrest⟩, hresult⟩

/-- `sfo_get_string` reads inside the file only, and finds the data of the first entry with the key. -/
theorem sfoGetString_spec (sfo : Buf) (sfo_len out_max : Nat) (hwant : 0 ∉ want_key) :
    let got := sfoGetString sfo sfo_len want_key out_max
    got.Within sfo_len ∧ (got.val.1 = 0 → (20 ≤ sfo_len ∧ slice sfo 0 4 = [0, 0x50, 0x53, 0x46] ∧
      leNat 4 (slice sfo 8 4) ≤ sfo_len ∧ leNat 4 (slice sfo 12 4) ≤ sfo_len) ∧
      ∃ e, FirstEntry sfo sfo_len want_key e ∧ dataAbs sfo e + paramLen sfo e ≤ sfo_len ∧
        got.val.2 = stripNul ((data sfo e).take (out_max - 1))) := by
  rw [sfoGetString]
  split
  · exact ⟨Reads.within_pure _, fun h => by simp at h⟩
  split
  · exact ⟨Reads.within_pure _, fun h => by simp at h⟩
  rename_i hlong
  by_cases hmagic : slice sfo 0 4 = [0, 0x50, 0x53, 0x46]
  · simp only [Reads.within_bind, within_bytesAt, Reads.val_bind, val_bytesAt, hmagic, ne_eq,
    not_true_eq_false, if_false,
      Reads.within_load, val_load]
    by_cases hkeys : leNat 4 (slice sfo 8 4) > sfo_len
    · simp only [hkeys, if_true]
      exact ⟨⟨by omega, by omega, by omega, by omega, Reads.within_pure _⟩, fun h => by simp at h⟩
    by_cases hdata : leNat 4 (slice sfo 12 4) > sfo_len
    · simp only [hkeys, hdata, if_true, if_false]
      exact ⟨⟨by omega, by omega, by omega, by omega, Reads.within_pure _⟩, fun h => by simp at h⟩
    simp only [hkeys, hdata, if_false]
    obtain ⟨hwithin, hresult⟩ := findEntry_spec sfo sfo_len out_max hwant (Nat.zero_add (nentries sfo))
      fun _ h => absurd h (Nat.not_lt_zero _)
    exact ⟨⟨by omega, by omega, by omega, by omega, hwithin⟩, fun hzero =>
      ⟨⟨by omega, trivial, by omega, by omega⟩, hresult hzero⟩⟩
  · simp only [Reads.within_bind, within_bytesAt, Reads.val_bind, val_bytesAt, hmagic, ne_eq,
    not_false_eq_true, if_true]
    exact ⟨⟨by omega, Reads.within_pure _⟩, fun h => by simp at h⟩

/-! ## Values -/

/-- Behind what is left there are zeros only. -/
theorem exists_eq_stripNul_append (l : List Byte) : ∃ n, l = stripNul l ++ List.replicate n 0 := by
  refine ⟨(l.rtakeWhile (· = 0)).length, ?_⟩
  have hzeros : l.rtakeWhile (· = 0) = List.replicate (l.rtakeWhile (· = 0)).length 0 :=
    List.eq_replicate_of_mem fun x hx => by simpa using List.mem_rtakeWhile_imp hx
  rw [← hzeros]
  exact List.rdropWhile_append_rtakeWhile.symm

theorem stripNul_append_zeros (l : List Byte) (n : Nat) : stripNul (l ++ List.replicate n 0) = stripNul l := by
  induction n with
  | zero => rw [List.replicate_zero, List.append_nil]
  | succ n ih =>
    rw [List.replicate_succ', ← List.append_assoc, stripNul, List.rdropWhile_concat]
    exact (if_pos rfl).trans ih

/-- A value that is shorter than `out_max` is not cut. -/
theorem stripNul_take {l : List Byte} (h : (stripNul l).length < out_max) :
    stripNul (l.take (out_max - 1)) = stripNul l := by
  obtain ⟨n, hl⟩ := exists_eq_stripNul_append l
  rw [hl, stripNul_append_zeros, List.take_append, List.take_of_length_le (by omega), List.take_replicate,
    stripNul_append_zeros]

/-- The data of an entry begin with its value. -/
theorem slice_value {v : List Byte} (hvalue : stripNul (data sfo i) = v) :
    slice sfo (dataAbs sfo i) v.length = v := by
  obtain ⟨n, hdata⟩ := exists_eq_stripNul_append (data sfo i)
  have hlen := congrArg List.length hdata
  rw [hvalue, data, List.length_append, length_slice] at hlen
  have hfront := congrArg (List.take v.length) hdata
  rwa [hvalue, List.take_left, data, take_slice, Nat.min_eq_left (by omega)] at hfront

/-- A value without zeros is the string there. -/
theorem strlen_value {v : List Byte} (hvalue : stripNul (data sfo i) = v) (hnul : 0 ∉ v) :
    strlen sfo (paramLen sfo i) (dataAbs sfo i) = v.length := by
  obtain ⟨n, hdata⟩ := exists_eq_stripNul_append (data sfo i)
  have hlen := congrArg List.length hdata
  rw [hvalue, data, List.length_append, length_slice] at hlen
  refine strlen_eq_iff.mpr ⟨by omega, fun k hk hzero => hnul ?_, fun hlt => ?_⟩
  · rw [← slice_value hvalue, ← hzero]
    exact List.mem_map.mpr ⟨k, List.mem_range.mpr hk, rfl⟩
  · have hbyte : (data sfo i)[v.length]? = some (0 : Byte) := by
      rw [hdata, hvalue, List.getElem?_append_right (Nat.le_refl _), Nat.sub_self, List.getElem?_replicate]
      rw [List.length_replicate] at hlen
      rw [if_pos (by omega)]
    rw [data, getElem?_slice, if_pos hlt] at hbyte
    exact Option.some_inj.mp hbyte

/-- There is one first entry with a key. -/
theorem FirstEntry.unique {j : Nat} (hi : FirstEntry sfo sfo_len want_key i) (hj : FirstEntry sfo sfo_len want_key j) :
    i = j := by
  obtain hlt | heq | hlt := Nat.lt_trichotomy i j
  · exact absurd hi.key (hj.first i hlt)
  · exact heq
  · exact absurd hj.key (hi.first j hlt)

end Sfo

end Ps5Debugger
