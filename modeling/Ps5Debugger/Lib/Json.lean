import Ps5Debugger.Lib.Bytes

/-!
# JSON text

Values and the bytes they are written as: without blanks, with a backslash before quotes and backslashes and
before nothing else, and numbers without a sign. Bytes below the blank have no place in a string, so a string
carries that it has none (`Str`).

`parse` reads a text back. It accepts the texts of values and no others (`parse_eq_some_iff`).
-/

namespace Lib

/-- The bytes of a text of ASCII characters. -/
def ascii (s : List Char) : List Byte := s.map fun c => BitVec.ofNat 8 c.toNat

namespace Json

/-! ## Values and their text -/

def quote : Byte := 0x22
def backslash : Byte := 0x5c
def comma : Byte := 0x2c
def colon : Byte := 0x3a

/-- A string: bytes that can stand between quotes. -/
abbrev Str : Type := { s : List Byte // ∀ c ∈ s, 0x20 ≤ c.toNat }

inductive Value : Type where
  | num (n : Nat)
  | str (s : Str)
  | arr (items : List Value)
  | obj (members : List (Str × Value))

/-- A byte that has a backslash before it. -/
def Escaped (c : Byte) : Prop := c = quote ∨ c = backslash

instance (c : Byte) : Decidable (Escaped c) := inferInstanceAs (Decidable (_ ∨ _))

def escape (c : Byte) : List Byte := if Escaped c then [backslash, c] else [c]

def Str.text (s : Str) : List Byte := quote :: (s.1.flatMap escape ++ [quote])

/-- A number in base 10. -/
def digits (n : Nat) : List Byte := ascii (Nat.toDigits 10 n)

/-- A list with commas before its items, the first apart. -/
def listed {α : Type} (text : α → List Byte) : Bool → List α → List Byte
  | _, [] => []
  | first, a :: as => (if first then [] else [comma]) ++ (text a ++ listed text false as)

theorem listed_map {α β : Type} {text : α → List Byte} {text' : β → List Byte} {f : α → β} {as : List α}
    (h : ∀ a ∈ as, text' (f a) = text a) (first : Bool) : listed text' first (as.map f) = listed text first as := by
  induction as generalizing first with
  | nil => rfl
  | cons a as ih =>
    obtain ⟨ha, has⟩ := List.forall_mem_cons.mp h
    rw [List.map_cons, listed, listed, ha, ih has]

mutual

def Value.text : Value → List Byte
  | .num n => digits n
  | .str s => s.text
  | .arr vs => 0x5b :: (itemsText true vs ++ [0x5d])
  | .obj ms => 0x7b :: (membersText true ms ++ [0x7d])

def itemsText : Bool → List Value → List Byte
  | _, [] => []
  | first, v :: vs => (if first then [] else [comma]) ++ (v.text ++ itemsText false vs)

def membersText : Bool → List (Str × Value) → List Byte
  | _, [] => []
  | first, m :: ms => (if first then [] else [comma]) ++ (memberText m ++ membersText false ms)

def memberText : Str × Value → List Byte
  | (k, v) => k.text ++ colon :: v.text

end

theorem itemsText_eq (first : Bool) (vs : List Value) : itemsText first vs = listed Value.text first vs := by
  induction vs generalizing first with
  | nil => rw [itemsText, listed]
  | cons v vs ih => rw [itemsText, listed, ih]

theorem membersText_eq (first : Bool) (ms : List (Str × Value)) :
    membersText first ms = listed memberText first ms := by
  induction ms generalizing first with
  | nil => rw [membersText, listed]
  | cons m ms ih => rw [membersText, listed, ih]

theorem text_arr (vs : List Value) : (Value.arr vs).text = 0x5b :: (listed Value.text true vs ++ [0x5d]) := by
  rw [Value.text, itemsText_eq]

theorem text_obj (ms : List (Str × Value)) : (Value.obj ms).text = 0x7b :: (listed memberText true ms ++ [0x7d]) := by
  rw [Value.text, membersText_eq]

theorem Str.length_le_text (s : Str) : s.1.length ≤ s.text.length := by
  have hescape : ∀ l : List Byte, l.length ≤ (l.flatMap escape).length := by
    intro l
    induction l with
    | nil => exact Nat.le_refl 0
    | cons c l ih =>
      have hpos : 1 ≤ (escape c).length := by
        rw [escape]
        split
        · exact Nat.le_succ 1
        · exact Nat.le_refl 1
      rw [List.flatMap_cons, List.length_append, List.length_cons]
      omega
  have hle := hescape s.1
  rw [Str.text, List.length_cons, List.length_append]
  omega

/-! ## Reading -/

/-- What is behind a byte. -/
def expect (c : Byte) : List Byte → Option (List Byte)
  | [] => none
  | d :: t => if d = c then some t else none

/-- A string, behind its first quote. -/
def readStr : List Byte → Option (Str × List Byte)
  | [] => none
  | c :: t =>
    if c = quote then some (⟨[], nofun⟩, t)
    else if c = backslash then
      match t with
      | [] => none
      | e :: t =>
        if h : Escaped e then
          (readStr t).map fun r =>
            (⟨e :: r.1.1, List.forall_mem_cons.mpr ⟨by rcases h with rfl | rfl <;> decide, r.1.2⟩⟩, r.2)
        else none
    else if h : 0x20 ≤ c.toNat then
      (readStr t).map fun r => (⟨c :: r.1.1, List.forall_mem_cons.mpr ⟨h, r.1.2⟩⟩, r.2)
    else none

def isDigit (c : Byte) : Bool := 0x30 ≤ c.toNat && c.toNat ≤ 0x39

/-- A number is read as it is written: without zeros in front. -/
def readNum (t : List Byte) : Option (Nat × List Byte) :=
  let ds := t.takeWhile isDigit
  let n := ds.foldl (fun n d => 10 * n + (d.toNat - 0x30)) 0
  if digits n = ds then some (n, t.dropWhile isDigit) else none

/-- The items of a list up to its end, with commas between them. -/
def readItems {α : Type} (item : List Byte → Option (α × List Byte)) (close : Byte) :
    Bool → Nat → List Byte → Option (List α × List Byte)
  | _, 0, _ => none
  | first, fuel + 1, t =>
    match expect close t with
    | some t => some ([], t)
    | none =>
      ((if first then some t else expect comma t).bind item).bind fun a =>
        (readItems item close false fuel a.2).map fun as => (a.1 :: as.1, as.2)

/-- A member of an object: a name, a colon and a value. -/
def readMember (value : List Byte → Option (Value × List Byte)) (t : List Byte) : Option ((Str × Value) × List Byte) :=
  ((expect quote t).bind readStr).bind fun k =>
    ((expect colon k.2).bind value).map fun v => ((k.1, v.1), v.2)

/-- A value that stands in front of a text, with what is behind it. -/
def readValue : Nat → List Byte → Option (Value × List Byte)
  | 0, _ => none
  | _, [] => none
  | fuel + 1, c :: t =>
    if c = 0x5b then (readItems (readValue fuel) 0x5d true (t.length + 1) t).map fun r => (.arr r.1, r.2)
    else if c = 0x7b then (readItems (readMember (readValue fuel)) 0x7d true (t.length + 1) t).map fun r =>
      (.obj r.1, r.2)
    else if c = quote then (readStr t).map fun r => (.str r.1, r.2)
    else (readNum (c :: t)).map fun r => (.num r.1, r.2)

/-- The value that a text is. -/
def parse (t : List Byte) : Option Value :=
  match readValue t.length t with
  | some (v, []) => some v
  | _ => none

/-! ## What is read was written -/

theorem expect_eq_some {c : Byte} {t rest : List Byte} (h : expect c t = some rest) : t = c :: rest := by
  cases t with
  | nil => cases h
  | cons d t =>
    rw [expect] at h
    split at h
    · next hd =>
      rw [hd, Option.some.inj h]
    · cases h

theorem escape_of_not {c : Byte} (h : ¬ Escaped c) : escape c = [c] := if_neg h

theorem escape_of {c : Byte} (h : Escaped c) : escape c = [backslash, c] := if_pos h

theorem eq_of_readStr {t rest : List Byte} {s : Str} (h : readStr t = some (s, rest)) :
    t = s.1.flatMap escape ++ quote :: rest := by
  fun_induction readStr t generalizing s with
  | case1 => cases h
  | case2 t =>
    cases h
    rfl
  | case3 => cases h
  | case4 e t he _ ih =>
    obtain ⟨r, hr, hs⟩ := Option.map_eq_some_iff.mp h
    cases hs
    rw [List.flatMap_cons, escape_of he, ih hr]
    rfl
  | case5 => cases h
  | case6 c t hq hb hc ih =>
    obtain ⟨r, hr, hs⟩ := Option.map_eq_some_iff.mp h
    cases hs
    rw [List.flatMap_cons, escape_of_not (fun he => he.elim hq hb), ih hr]
    rfl
  | case7 c t hq hb hc => cases h

theorem eq_of_readNum {t rest : List Byte} {n : Nat} (h : readNum t = some (n, rest)) : t = digits n ++ rest := by
  rw [readNum] at h
  split at h
  · next hds =>
    cases h
    rw [hds, List.takeWhile_append_dropWhile]
  · cases h

section Items

variable {α : Type} {item : List Byte → Option (α × List Byte)} {text : α → List Byte} {close : Byte}

/-- The items of a list were written, when each item that is read was. -/
theorem eq_of_readItems (hitem : ∀ t a rest, item t = some (a, rest) → t = text a ++ rest) {first : Bool} {fuel : Nat}
    {t rest : List Byte} {as : List α} (h : readItems item close first fuel t = some (as, rest)) :
    t = listed text first as ++ close :: rest := by
  induction fuel generalizing first t as with
  | zero => cases h
  | succ fuel ih =>
    rw [readItems] at h
    split at h
    · next t' ht =>
      cases h
      exact expect_eq_some ht
    · obtain ⟨⟨a, t₁⟩, ha, h⟩ := Option.bind_eq_some_iff.mp h
      obtain ⟨⟨bs, t₂⟩, hmore, has⟩ := Option.map_eq_some_iff.mp h
      cases has
      obtain ⟨t₀, hsep, hread⟩ := Option.bind_eq_some_iff.mp ha
      have ht : t = (if first then [] else [comma]) ++ t₀ := by
        cases first with
        | true => exact Option.some.inj hsep
        | false => exact expect_eq_some hsep
      have hrest : t₁ = listed text false bs ++ close :: t₂ := ih hmore
      rw [ht, hitem _ _ _ hread, hrest, listed]
      simp only [List.append_assoc]

end Items

theorem eq_of_readMember {value : List Byte → Option (Value × List Byte)}
    (hvalue : ∀ t v rest, value t = some (v, rest) → t = v.text ++ rest) {t rest : List Byte} {m : Str × Value}
    (h : readMember value t = some (m, rest)) : t = memberText m ++ rest := by
  obtain ⟨⟨k, t₁⟩, hk, h⟩ := Option.bind_eq_some_iff.mp h
  obtain ⟨⟨v, t₂⟩, hv, hm⟩ := Option.map_eq_some_iff.mp h
  cases hm
  obtain ⟨t₀, hquote, hstr⟩ := Option.bind_eq_some_iff.mp hk
  obtain ⟨t₃, hcolon, hread⟩ := Option.bind_eq_some_iff.mp hv
  have hrest : t₁ = colon :: t₃ := expect_eq_some hcolon
  rw [expect_eq_some hquote, eq_of_readStr hstr, hrest, hvalue _ _ _ hread, memberText, Str.text]
  simp only [List.cons_append, List.append_assoc, List.nil_append]

theorem eq_of_readValue {fuel : Nat} {t rest : List Byte} {v : Value} (h : readValue fuel t = some (v, rest)) :
    t = v.text ++ rest := by
  induction fuel generalizing t v rest with
  | zero => cases h
  | succ fuel ih =>
    cases t with
    | nil => cases h
    | cons c t =>
      rw [readValue] at h
      split at h
      · next hc =>
        obtain ⟨r, hr, hv⟩ := Option.map_eq_some_iff.mp h
        cases hv
        rw [text_arr, hc, eq_of_readItems (fun _ _ _ => ih) hr]
        simp only [List.cons_append, List.append_assoc, List.nil_append]
      · split at h
        · next hc =>
          obtain ⟨r, hr, hv⟩ := Option.map_eq_some_iff.mp h
          cases hv
          rw [text_obj, hc, eq_of_readItems (fun _ _ _ => eq_of_readMember fun _ _ _ => ih) hr]
          simp only [List.cons_append, List.append_assoc, List.nil_append]
        · split at h
          · next hc =>
            obtain ⟨r, hr, hv⟩ := Option.map_eq_some_iff.mp h
            cases hv
            rw [Value.text, Str.text, hc, eq_of_readStr hr]
            simp only [List.cons_append, List.append_assoc, List.nil_append]
          · obtain ⟨r, hr, hv⟩ := Option.map_eq_some_iff.mp h
            cases hv
            rw [Value.text]
            exact eq_of_readNum hr

/-! ## What is written is read -/

/-- What follows a number does not continue it. -/
def Stops (t : List Byte) : Prop := ∀ c ∈ t.head?, isDigit c = false

theorem expect_cons (c : Byte) (t : List Byte) : expect c (c :: t) = some t := if_pos rfl

theorem expect_of_ne {c d : Byte} (h : d ≠ c) (t : List Byte) : expect c (d :: t) = none := if_neg h

theorem readStr_escaped {c : Byte} (h : Escaped c) {t rest : List Byte} {s : List Byte} {hs : ∀ c ∈ s, 0x20 ≤ c.toNat}
    {hcs : ∀ d ∈ c :: s, 0x20 ≤ d.toNat} (ht : readStr t = some (⟨s, hs⟩, rest)) :
    readStr (backslash :: c :: t) = some (⟨c :: s, hcs⟩, rest) := by
  rw [readStr.eq_def]
  simp only [if_neg (show backslash ≠ quote by decide), if_true, dif_pos h, ht, Option.map_some]

theorem readStr_plain {c : Byte} (h : ¬ Escaped c) {t rest : List Byte} {s : List Byte} {hs : ∀ c ∈ s, 0x20 ≤ c.toNat}
    {hcs : ∀ d ∈ c :: s, 0x20 ≤ d.toNat} (ht : readStr t = some (⟨s, hs⟩, rest)) :
    readStr (c :: t) = some (⟨c :: s, hcs⟩, rest) := by
  have hquote : c ≠ quote := fun hc => h (Or.inl hc)
  have hbackslash : c ≠ backslash := fun hc => h (Or.inr hc)
  have hc : 0x20 ≤ c.toNat := hcs c List.mem_cons_self
  rw [readStr.eq_def]
  simp only [if_neg hquote, if_neg hbackslash, dif_pos hc, ht, Option.map_some]

theorem readStr_text (s : Str) (rest : List Byte) : readStr (s.1.flatMap escape ++ quote :: rest) = some (s, rest) := by
  obtain ⟨l, hl⟩ := s
  induction l with
  | nil =>
    show readStr (quote :: rest) = _
    rw [readStr.eq_def]
    exact if_pos rfl
  | cons c l ih =>
    have hread := ih (List.forall_mem_cons.mp hl).2
    by_cases hc : Escaped c
    · have htext : (c :: l).flatMap escape ++ quote :: rest =
          backslash :: c :: (l.flatMap escape ++ quote :: rest) := by
        rw [List.flatMap_cons, escape_of hc]
        rfl
      exact (congrArg readStr htext).trans (readStr_escaped hc hread)
    · have htext : (c :: l).flatMap escape ++ quote :: rest = c :: (l.flatMap escape ++ quote :: rest) := by
        rw [List.flatMap_cons, escape_of_not hc]
        rfl
      exact (congrArg readStr htext).trans (readStr_plain hc hread)

/-- A digit as a byte. -/
theorem toNat_digit {n : Nat} {c : Char} (h : c ∈ Nat.toDigits 10 n) :
    (BitVec.ofNat 8 c.toNat).toNat = c.toNat ∧ 0x30 ≤ c.toNat ∧ c.toNat ≤ 0x39 := by
  obtain ⟨hlo, hhi⟩ := Char.isDigit_iff_toNat.mp (Nat.isDigit_of_mem_toDigits (by decide) (by decide) h)
  refine ⟨?_, hlo, hhi⟩
  rw [BitVec.toNat_ofNat, Nat.mod_eq_of_lt (Nat.lt_of_le_of_lt hhi (by decide))]

theorem isDigit_of_mem_digits {n : Nat} {c : Byte} (h : c ∈ digits n) : isDigit c = true := by
  obtain ⟨d, hd, rfl⟩ := List.mem_map.mp h
  obtain ⟨heq, hlo, hhi⟩ := toNat_digit hd
  rw [isDigit, heq, Bool.and_eq_true, decide_eq_true_eq, decide_eq_true_eq]
  exact ⟨hlo, hhi⟩

theorem foldl_digits (n : Nat) : (digits n).foldl (fun n d => 10 * n + (d.toNat - 0x30)) 0 = n := by
  have hstep : ∀ l : List Char, (∀ c ∈ l, c ∈ Nat.toDigits 10 n) → ∀ k,
      (ascii l).foldl (fun n d => 10 * n + (d.toNat - 0x30)) k = Nat.ofDigitChars 10 l k := by
    intro l
    induction l with
    | nil => exact fun _ _ => rfl
    | cons c l ih =>
      intro hl k
      obtain ⟨hc, hl'⟩ := List.forall_mem_cons.mp hl
      rw [Nat.ofDigitChars_cons, ← ih hl', ascii, List.map_cons, List.foldl_cons, (toNat_digit hc).1]
      rfl
  rw [digits, hstep _ (fun _ h => h), Nat.ofDigitChars_ten_toDigits]

theorem readNum_digits {n : Nat} {rest : List Byte} (hrest : Stops rest) :
    readNum (digits n ++ rest) = some (n, rest) := by
  have hdigits : ∀ c ∈ digits n, isDigit c = true := fun _ => isDigit_of_mem_digits
  have htake : rest.takeWhile isDigit = [] := by
    cases rest with
    | nil => rfl
    | cons c t => exact List.takeWhile_cons_of_neg (by rw [hrest c rfl]; exact Bool.false_ne_true)
  have hdrop : rest.dropWhile isDigit = rest := by
    have happend := List.takeWhile_append_dropWhile (p := isDigit) (l := rest)
    rwa [htake, List.nil_append] at happend
  rw [readNum, List.takeWhile_append_of_pos hdigits, List.dropWhile_append_of_pos hdigits, htake, hdrop,
    List.append_nil]
  simp only [foldl_digits, if_true]

section Items

variable {α : Type} {item : List Byte → Option (α × List Byte)} {text : α → List Byte} {close : Byte}

theorem stops_listed (hclose : isDigit close = false) (as : List α) (rest : List Byte) :
    Stops (listed text false as ++ close :: rest) := by
  cases as with
  | nil =>
    rintro c ⟨⟩
    exact hclose
  | cons a as =>
    rintro c ⟨⟩
    rfl

/-- The items of a list are read, when each of them is. -/
theorem readItems_listed (hclose : isDigit close = false) (hcomma : comma ≠ close) {as : List α}
    (hhead : ∀ a ∈ as, ∃ c t, text a = c :: t ∧ c ≠ close)
    (hitem : ∀ a ∈ as, ∀ rest, Stops rest → item (text a ++ rest) = some (a, rest)) {first : Bool} {fuel : Nat}
    (hfuel : as.length < fuel) (rest : List Byte) :
    readItems item close first fuel (listed text first as ++ close :: rest) = some (as, rest) := by
  induction as generalizing first fuel with
  | nil =>
    obtain ⟨fuel, rfl⟩ := Nat.exists_eq_succ_of_ne_zero (Nat.ne_of_gt hfuel)
    rw [listed, List.nil_append, readItems, expect_cons]
  | cons a as ih =>
    obtain ⟨fuel, rfl⟩ := Nat.exists_eq_succ_of_ne_zero (Nat.ne_of_gt (Nat.zero_lt_of_lt hfuel))
    obtain ⟨⟨c, t, htext, hc⟩, hhead'⟩ := List.forall_mem_cons.mp hhead
    obtain ⟨hread, hitem'⟩ := List.forall_mem_cons.mp hitem
    have hmore : readItems item close false fuel (listed text false as ++ close :: rest) = some (as, rest) :=
      ih hhead' hitem' (Nat.lt_of_succ_lt_succ hfuel)
    have hthis := hread _ (@stops_listed _ text _ hclose as rest)
    cases first with
    | true =>
      have hnone : expect close (text a ++ (listed text false as ++ close :: rest)) = none := by
        rw [htext]
        exact expect_of_ne hc _
      rw [listed, if_pos rfl, List.nil_append, List.append_assoc, readItems, hnone]
      simp only [if_pos, Option.bind_some, hthis, hmore, Option.map_some]
    | false =>
      have hcons : listed text false (a :: as) ++ close :: rest =
          comma :: (text a ++ (listed text false as ++ close :: rest)) := by
        rw [listed, if_neg Bool.false_ne_true, List.append_assoc, List.append_assoc]
        rfl
      rw [hcons]
      rw [readItems, expect_of_ne hcomma, expect_cons]
      simp only [if_neg Bool.false_ne_true, Option.bind_some, hthis, hmore, Option.map_some]

theorem length_le_listed {a : α} {as : List α} (ha : a ∈ as) (first : Bool) :
    (text a).length ≤ (listed text first as).length := by
  induction as generalizing first with
  | nil => cases ha
  | cons b as ih =>
    rw [listed, List.length_append, List.length_append]
    rcases List.mem_cons.mp ha with rfl | ha
    · omega
    · have := ih ha false
      omega

theorem length_le_length_listed {as : List α} (hhead : ∀ a ∈ as, ∃ c t, text a = c :: t ∧ c ≠ close) (first : Bool) :
    as.length ≤ (listed text first as).length := by
  induction as generalizing first with
  | nil => exact Nat.zero_le _
  | cons a as ih =>
    obtain ⟨⟨c, t, htext, -⟩, hhead'⟩ := List.forall_mem_cons.mp hhead
    have hmore := ih hhead' false
    rw [listed, List.length_append, List.length_append, htext, List.length_cons, List.length_cons]
    omega

end Items

theorem digits_head (n : Nat) : ∃ c t, digits n = c :: t ∧ isDigit c = true := by
  obtain ⟨c, t, ht⟩ := List.exists_cons_of_ne_nil (l := digits n) (by simp [digits, ascii, Nat.toDigits_ne_nil])
  exact ⟨c, t, ht, isDigit_of_mem_digits (n := n) (ht ▸ List.mem_cons_self)⟩

/-- No value starts as a list ends. -/
theorem text_head (v : Value) : ∃ c t, v.text = c :: t ∧ c ≠ 0x5d ∧ c ≠ 0x7d := by
  cases v with
  | num n =>
    obtain ⟨c, t, ht, hc⟩ := digits_head n
    refine ⟨c, t, by rw [Value.text, ht], ?_, ?_⟩ <;> rintro rfl <;> cases hc
  | str s => exact ⟨quote, _, by rw [Value.text, Str.text], by decide, by decide⟩
  | arr vs => exact ⟨0x5b, _, text_arr vs, by decide, by decide⟩
  | obj ms => exact ⟨0x7b, _, text_obj ms, by decide, by decide⟩

theorem memberText_head (m : Str × Value) : ∃ c t, memberText m = c :: t ∧ c ≠ 0x7d :=
  ⟨quote, _, by rw [memberText, Str.text, List.cons_append], by decide⟩

theorem readMember_text {value : List Byte → Option (Value × List Byte)} {m : Str × Value} {rest : List Byte}
    (hvalue : value (m.2.text ++ rest) = some (m.2, rest)) :
    readMember value (memberText m ++ rest) = some (m, rest) := by
  obtain ⟨k, v⟩ := m
  have htext : memberText (k, v) ++ rest = quote :: (k.1.flatMap escape ++ quote :: (colon :: (v.text ++ rest))) := by
    rw [memberText, Str.text]
    simp only [List.cons_append, List.append_assoc, List.nil_append]
  rw [htext, readMember, expect_cons, Option.bind_some, readStr_text, Option.bind_some, expect_cons, Option.bind_some,
    hvalue, Option.map_some]

/-- What starts with a digit is a number. -/
theorem readValue_num {fuel n : Nat} {rest : List Byte} (hrest : Stops rest) :
    readValue (fuel + 1) (digits n ++ rest) = some (.num n, rest) := by
  obtain ⟨c, t, ht, hc⟩ := digits_head n
  have harr : c ≠ 0x5b := by rintro rfl; cases hc
  have hobj : c ≠ 0x7b := by rintro rfl; cases hc
  have hstr : c ≠ quote := by rintro rfl; cases hc
  rw [ht, List.cons_append, readValue, if_neg harr, if_neg hobj, if_neg hstr, ← List.cons_append, ← ht,
    readNum_digits hrest, Option.map_some]

/-- A value is read from its text. -/
theorem readValue_text {fuel : Nat} {v : Value} {rest : List Byte} (hfuel : v.text.length ≤ fuel) (hrest : Stops rest) :
    readValue fuel (v.text ++ rest) = some (v, rest) := by
  induction fuel generalizing v rest with
  | zero =>
    obtain ⟨c, t, ht, -⟩ := text_head v
    rw [ht] at hfuel
    cases hfuel
  | succ fuel ih =>
    cases v with
    | num n =>
      rw [Value.text]
      exact readValue_num hrest
    | str s =>
      have htext : (Value.str s).text ++ rest = quote :: (s.1.flatMap escape ++ quote :: rest) := by
        rw [Value.text, Str.text, List.cons_append, List.append_assoc]
        rfl
      rw [htext, readValue, if_neg (by decide), if_neg (by decide), if_pos rfl, readStr_text, Option.map_some]
    | arr vs =>
      have htext : (Value.arr vs).text ++ rest = 0x5b :: (listed Value.text true vs ++ 0x5d :: rest) := by
        rw [text_arr, List.cons_append, List.append_assoc]
        rfl
      have hhead : ∀ v ∈ vs, ∃ c t, v.text = c :: t ∧ c ≠ 0x5d := fun v _ =>
        let ⟨c, t, ht, hc, _⟩ := text_head v
        ⟨c, t, ht, hc⟩
      have hitem : ∀ v ∈ vs, ∀ rest, Stops rest → readValue fuel (v.text ++ rest) = some (v, rest) := by
        intro v hv rest hstops
        refine ih ?_ hstops
        have hle : v.text.length ≤ (listed Value.text true vs).length := length_le_listed hv true
        rw [text_arr, List.length_cons, List.length_append] at hfuel
        omega
      have hlen := length_le_length_listed hhead true
      rw [htext, readValue, if_pos rfl, readItems_listed rfl (by decide) hhead hitem
        (by rw [List.length_append]; omega), Option.map_some]
    | obj ms =>
      have htext : (Value.obj ms).text ++ rest = 0x7b :: (listed memberText true ms ++ 0x7d :: rest) := by
        rw [text_obj, List.cons_append, List.append_assoc]
        rfl
      have hitem : ∀ m ∈ ms, ∀ rest, Stops rest → 
          readMember (readValue fuel) (memberText m ++ rest) = some (m, rest) := by
        intro m hm rest hstops
        refine readMember_text (ih ?_ hstops)
        have hle : (memberText m).length ≤ (listed memberText true ms).length := length_le_listed hm true
        have hmember : m.2.text.length ≤ (memberText m).length := by
          rw [memberText, List.length_append, List.length_cons]
          omega
        rw [text_obj, List.length_cons, List.length_append] at hfuel
        omega
      have hlen := length_le_length_listed (fun m (_ : m ∈ ms) => memberText_head m) true
      rw [htext, readValue, if_neg (by decide), if_pos rfl, readItems_listed rfl (by decide)
        (fun m _ => memberText_head m) hitem (by rw [List.length_append]; omega), Option.map_some]

/-- The texts that are read are those that are written, and each is read as what was written. -/
theorem parse_eq_some_iff {t : List Byte} {v : Value} : parse t = some v ↔ t = v.text := by
  constructor
  · intro h
    rw [parse] at h
    split at h
    · next w hread =>
      cases h
      rw [eq_of_readValue hread, List.append_nil]
    · cases h
  · rintro rfl
    have hread : readValue v.text.length (v.text ++ []) = some (v, []) := readValue_text (Nat.le_refl _) nofun
    rw [List.append_nil] at hread
    rw [parse, hread]

end Json

end Lib
