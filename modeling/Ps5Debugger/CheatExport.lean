import Ps5Debugger.FrozenCheats

/-!
# Exported cheats

`exportCheatsToPs5` writes the bytes of a cheat as `cleanHexForExport` makes them of its text, and the application
itself writes what `parseHexBytes` makes of the same text (`CheatManager.kt`). The one takes prefixes and
separators out of the whole text, the other splits it and puts a zero in front of an odd token.

`decode_cleanHexForExport_iff` says for which texts these are the same bytes.
-/

namespace Ps5Debugger

open Lib

namespace CheatManager

/-! ## The exported text -/

/-- `replace(old, "")`, where `old` are two characters. -/
def removePairs (old : Char → Char → Bool) : List Char → List Char
  | c :: c' :: cs => if old c c' then removePairs old cs else c :: removePairs old (c' :: cs)
  | cs => cs

/-- `uppercase()`. The letters of other scripts have capitals too, but are in no number. -/
def uppercaseChar (c : Char) : Char :=
  if 0x61 ≤ c.toNat ∧ c.toNat < 0x7b ∨ 0xff41 ≤ c.toNat ∧ c.toNat < 0xff5b then Char.ofNat (c.toNat - 0x20) else c

/-- `"0x"`, ignoring case. -/
def isPrefixPair (c c' : Char) : Bool := c = '0' && (c' = 'x' || c' = 'X')

def removePrefixes (text : List Char) : List Char :=
  removePairs (fun c c' => c = '0' && c' = 'X') (removePairs isPrefixPair text)

def isKept (c : Char) : Bool := c ≠ ' ' && c ≠ ',' && c ≠ '-'

def cleanHexForExport (hexStr : Option String) : String :=
  match hexStr with
  | none => ""
  | some hexStr =>
    let cleaned := (removePrefixes hexStr.toList).filter isKept
    String.ofList (cleaned.map uppercaseChar)

/-- The bytes of a text that is nothing but digits, two for each byte. -/
def decodeHex (text : List Char) : Option (List UInt8) :=
  if text.length % 2 = 0 ∧ ∀ c ∈ text, (hexDigit c).isSome then hexBytes text else none

variable {text a b token cur : List Char} {bytes : List UInt8} {c s : Char}

/-! ## Pairs of digits -/

theorem hexBytes_append : ∀ {a : List Char}, a.length % 2 = 0 → ∀ b : List Char,
    hexBytes (a ++ b) = (hexBytes a).bind fun x => (hexBytes b).map fun y => x ++ y
  | [], _, b => by simp [hexBytes]
  | [_], h, _ => by simp at h
  | c :: c' :: a, h, b => by
    have ih := hexBytes_append (a := a) (by rw [List.length_cons, List.length_cons] at h; omega) b
    simp only [List.cons_append, hexBytes, ih]
    cases hexByte c c' <;> cases hexBytes a <;> cases hexBytes b <;> rfl

theorem length_hexBytes : ∀ {a : List Char} {bytes : List UInt8}, hexBytes a = some bytes → bytes.length = a.length / 2
  | [], _, h => by cases h; rfl
  | [_], _, h => by cases h; rw [List.length_singleton]; rfl
  | c :: c' :: a, bytes, h => by
    rw [hexBytes] at h
    obtain ⟨x, -, h⟩ := Option.bind_eq_some_iff.mp h
    obtain ⟨y, hy, h⟩ := Option.bind_eq_some_iff.mp h
    cases h
    rw [List.length_cons, length_hexBytes hy, List.length_cons, List.length_cons]
    omega

theorem hexMagnitude_digits {limit n : Nat} (h : hexMagnitude a limit = some n) : ∀ c ∈ a, (hexDigit c).isSome := by
  intro c hc
  rw [hexMagnitude] at h
  split at h
  · cases h
  · split at h
    · rename_i ds hds
      by_contra hnone
      rw [Option.not_isSome_iff_eq_none] at hnone
      exact absurd hds (by rw [mapM_eq_none hc hnone]; nofun)
    · cases h

/-- Two characters that are a number are digits, but for a plus in front. -/
theorem hexByte_digits {c c' : Char} {x : UInt8} (h : hexByte c c' = some x) (hc : c ≠ '-') :
    ((hexDigit c).isSome ∨ c = '+') ∧ (hexDigit c').isSome := by
  obtain ⟨n, hn, -⟩ := Option.map_eq_some_iff.mp h
  rw [toIntOrNull16, if_neg hc] at hn
  split at hn
  · rename_i hplus
    obtain ⟨m, hm, -⟩ := Option.map_eq_some_iff.mp hn
    exact ⟨.inr hplus, hexMagnitude_digits hm _ List.mem_cons_self⟩
  · obtain ⟨m, hm, -⟩ := Option.map_eq_some_iff.mp hn
    exact ⟨.inl (hexMagnitude_digits hm _ List.mem_cons_self),
      hexMagnitude_digits hm _ (List.mem_cons_of_mem _ List.mem_cons_self)⟩

theorem hexBytes_digits : ∀ {a : List Char} {bytes : List UInt8}, hexBytes a = some bytes → '-' ∉ a →
    a.length % 2 = 0 → ∀ c ∈ a, (hexDigit c).isSome ∨ c = '+'
  | [], _, _, _, _ => nofun
  | [_], _, _, _, h => by simp at h
  | c :: c' :: a, bytes, h, hminus, hlen => by
    rw [hexBytes] at h
    obtain ⟨x, hx, h⟩ := Option.bind_eq_some_iff.mp h
    obtain ⟨y, hy, -⟩ := Option.bind_eq_some_iff.mp h
    have hpair := hexByte_digits hx fun hc => hminus (hc ▸ List.mem_cons_self)
    have hrest := hexBytes_digits hy (fun h => hminus (List.mem_cons_of_mem _ (List.mem_cons_of_mem _ h)))
      (by rw [List.length_cons, List.length_cons] at hlen; omega)
    exact List.forall_mem_cons.mpr ⟨hpair.1, List.forall_mem_cons.mpr ⟨.inl hpair.2, hrest⟩⟩

/-- Capitals are digits of the same value. -/
theorem hexDigit_uppercaseChar (c : Char) : hexDigit (uppercaseChar c) = hexDigit c := by
  have hlow : ∀ n < 26, hexDigit (uppercaseChar (Char.ofNat (0x61 + n))) = hexDigit (Char.ofNat (0x61 + n)) ∧
      hexDigit (uppercaseChar (Char.ofNat (0xff41 + n))) = hexDigit (Char.ofNat (0xff41 + n)) := by decide
  have hofNat : Char.ofNat c.toNat = c := Char.ofNat_toNat c
  by_cases h : 0x61 ≤ c.toNat ∧ c.toNat < 0x7b ∨ 0xff41 ≤ c.toNat ∧ c.toNat < 0xff5b
  · rcases h with ⟨hlo, hhi⟩ | ⟨hlo, hhi⟩
    · have := (hlow (c.toNat - 0x61) (by omega)).1
      rwa [Nat.add_sub_cancel' hlo, hofNat] at this
    · have := (hlow (c.toNat - 0xff41) (by omega)).2
      rwa [Nat.add_sub_cancel' hlo, hofNat] at this
  · rw [uppercaseChar, if_neg h]

theorem hexByte_uppercaseChar {c c' : Char} (hc : (hexDigit c).isSome) :
    hexByte (uppercaseChar c) (uppercaseChar c') = hexByte c c' := by
  have sign : ∀ d : Char, (hexDigit d).isSome → d ≠ '-' ∧ d ≠ '+' := by
    rintro d hd
    constructor <;> (rintro rfl; revert hd; decide)
  obtain ⟨hminus, hplus⟩ := sign c hc
  obtain ⟨hminus', hplus'⟩ := sign (uppercaseChar c) (by rwa [hexDigit_uppercaseChar])
  rw [hexByte, hexByte, toIntOrNull16, toIntOrNull16, if_neg hminus, if_neg hplus, if_neg hminus', if_neg hplus',
    hexMagnitude, hexMagnitude, if_neg (List.cons_ne_nil _ _), if_neg (List.cons_ne_nil _ _)]
  simp only [List.mapM_cons, hexDigit_uppercaseChar]

theorem hexBytes_uppercase : ∀ {a : List Char}, (∀ c ∈ a, (hexDigit c).isSome) →
    hexBytes (a.map uppercaseChar) = hexBytes a
  | [], _ => rfl
  | [_], _ => rfl
  | c :: c' :: a, h => by
    rw [List.map_cons, List.map_cons, hexBytes, hexBytes, hexByte_uppercaseChar (h c List.mem_cons_self),
      hexBytes_uppercase fun d hd => h d (List.mem_cons_of_mem _ (List.mem_cons_of_mem _ hd))]

theorem decodeHex_uppercase (a : List Char) : decodeHex (a.map uppercaseChar) = decodeHex a := by
  rw [decodeHex, decodeHex, List.length_map]
  simp only [List.forall_mem_map, hexDigit_uppercaseChar]
  split
  · rename_i h
    exact hexBytes_uppercase h.2
  · rfl

/-! ## Prefixes -/

theorem removePairs_append {old : Char → Char → Bool} (hs : ∀ d, old d s = false ∧ old s d = false) :
    ∀ a b : List Char, removePairs old (a ++ s :: b) = removePairs old a ++ s :: removePairs old b
  | [], [] => rfl
  | [], d :: b => by
    rw [List.nil_append, removePairs, (hs d).2]
    rfl
  | [c], b => by
    have ih := removePairs_append hs [] b
    rw [List.singleton_append, removePairs, (hs c).1]
    simp only [Bool.false_eq_true, if_false]
    rw [← List.nil_append (s :: b), ih]
    rfl
  | c :: c' :: a, b => by
    have ih := removePairs_append hs (c' :: a) b
    have ih' := removePairs_append hs a b
    simp only [List.cons_append, removePairs]
    split
    · exact ih'
    · rw [← List.cons_append, ih]
      rfl

theorem removePairs_eq_self {old : Char → Char → Bool} : ∀ {a : List Char}, (∀ c c', c' ∈ a → old c c' = false) →
    removePairs old a = a
  | [], _ => rfl
  | [_], _ => rfl
  | c :: c' :: a, h => by
    rw [removePairs, h c c' (List.mem_cons_of_mem _ List.mem_cons_self),
      removePairs_eq_self (a := c' :: a) fun d d' hd => h d d' (List.mem_cons_of_mem _ hd)]
    rfl

theorem removePairs_removePrefix {old : Char → Char → Bool} (h : old c s = true) (a : List Char) :
    removePairs old (removePrefix [c, s] a) = removePairs old a := by
  rw [removePrefix]
  split
  · rename_i hprefix
    obtain ⟨rest, rfl⟩ := List.isPrefixOf_iff_prefix.mp hprefix
    rw [List.drop_left, List.cons_append, List.singleton_append, removePairs, if_pos h]
  · rfl

/-- A token without its prefixes, as it is read. -/
def body (token : List Char) : List Char := removePrefix ['0', 'X'] (removePrefix ['0', 'x'] token)

theorem removePrefixes_append (hs : s ∉ ['0', 'x', 'X']) (a b : List Char) :
    removePrefixes (a ++ s :: b) = removePrefixes a ++ s :: removePrefixes b := by
  simp only [List.mem_cons, List.not_mem_nil, or_false, not_or] at hs
  have hpair : ∀ d, isPrefixPair d s = false ∧ isPrefixPair s d = false := fun d => by simp [isPrefixPair, hs]
  have hcapital : ∀ d : Char, (d = '0' && s = 'X') = false ∧ (s = '0' && d = 'X') = false := fun d => by simp [hs]
  rw [removePrefixes, removePairs_append hpair, removePairs_append hcapital]
  rfl

theorem removePrefixes_token (h : ∀ c ∈ body token, (hexDigit c).isSome ∨ c = '+') :
    removePrefixes token = body token := by
  have hx : ∀ c ∈ body token, c ≠ 'x' ∧ c ≠ 'X' := by
    intro c hc
    have := h c hc
    constructor <;> (rintro rfl; revert this; decide)
  have hpairs : removePairs isPrefixPair token = body token := by
    rw [← removePairs_removePrefix (c := '0') (s := 'x') rfl, ← removePairs_removePrefix (c := '0') (s := 'X') rfl]
    exact removePairs_eq_self fun c c' hc' => by simp [isPrefixPair, hx c' hc']
  rw [removePrefixes, hpairs]
  exact removePairs_eq_self fun c c' hc' => by simp [hx c' hc']

theorem mem_removePrefix {pre : List Char} (hc : c ∉ pre) : c ∈ removePrefix pre a ↔ c ∈ a := by
  rw [removePrefix]
  split
  · rename_i hprefix
    obtain ⟨rest, rfl⟩ := List.isPrefixOf_iff_prefix.mp hprefix
    rw [List.drop_left, List.mem_append, or_iff_right hc]
  · rfl

theorem mem_body (hc : c ∉ ['0', 'x', 'X']) : c ∈ body token ↔ c ∈ token := by
  simp only [List.mem_cons, List.not_mem_nil, or_false, not_or] at hc
  rw [body, mem_removePrefix (by simp [hc]), mem_removePrefix (by simp [hc])]

theorem length_removePrefix (x y : Char) (a : List Char) : (removePrefix [x, y] a).length % 2 = a.length % 2 := by
  rw [removePrefix]
  split
  · rename_i hprefix
    obtain ⟨rest, rfl⟩ := List.isPrefixOf_iff_prefix.mp hprefix
    rw [List.drop_left, List.length_append]
    exact (Nat.add_mod_left 2 _).symm
  · rfl

theorem length_body (token : List Char) : (body token).length % 2 = token.length % 2 := by
  rw [body, length_removePrefix, length_removePrefix]

/-! ## One token -/

/-- What is read of a token: digits, of which an odd number gets a zero in front. -/
theorem parseToken_spec (h : parseToken token = some bytes) (hminus : '-' ∉ token) :
    (∀ c ∈ body token, (hexDigit c).isSome ∨ c = '+') ∧ bytes.length = ((body token).length + 1) / 2 ∧
      (token.length % 2 = 0 → hexBytes (body token) = some bytes) := by
  have hbody : '-' ∉ body token := fun h => hminus ((mem_body (by decide)).mp h)
  have hlen := length_body token
  rw [parseToken] at h
  change (if (body token).length % 2 ≠ 0 then hexBytes ('0' :: body token) else hexBytes (body token)) = some bytes at h
  split at h
  · rename_i hodd
    have hdigits := hexBytes_digits h (by simpa using hbody) (by rw [List.length_cons]; omega)
    refine ⟨fun c hc => hdigits c (List.mem_cons_of_mem _ hc), ?_, fun heven => absurd (hlen.trans heven) hodd⟩
    rw [length_hexBytes h, List.length_cons]
  · rename_i heven
    rw [Ne, not_not] at heven
    refine ⟨hexBytes_digits h hbody heven, ?_, fun _ => h⟩
    rw [length_hexBytes h]
    omega

/-! ## The tokens of a text -/

theorem flatten_split (cur text : List Char) :
    (split cur text).flatten = cur ++ text.filter fun c => !isSeparator c := by
  induction text generalizing cur with
  | nil => rw [split, List.flatten_singleton, List.filter_nil, List.append_nil]
  | cons c text ih =>
    rw [split]
    split
    · rename_i hc
      rw [List.flatten_cons, ih, List.nil_append, List.filter_cons_of_neg (by simpa using hc)]
    · rename_i hc
      rw [ih, List.filter_cons_of_pos (by simpa using hc), List.append_assoc, List.singleton_append]

theorem mem_split : (∃ token ∈ split [] text, c ∈ token) ↔ c ∈ text ∧ isSeparator c = false := by
  rw [← List.mem_flatten, flatten_split, List.nil_append, List.mem_filter, Bool.not_eq_true']

theorem split_append (hs : isSeparator s = true) (a b cur : List Char) :
    split cur (a ++ s :: b) = split cur a ++ split [] b := by
  induction a generalizing cur with
  | nil =>
    rw [List.nil_append, split, split, if_pos hs]
    rfl
  | cons c a ih =>
    rw [List.cons_append, split, split, ih, ih]
    split <;> rfl

/-- The tokens that have characters. -/
def tokens (text : List Char) : List (List Char) := (split [] text).filter (· ≠ [])

theorem tokens_append (hs : isSeparator s = true) (a b : List Char) :
    tokens (a ++ s :: b) = tokens a ++ tokens b := by
  rw [tokens, split_append hs, List.filter_append]
  rfl

theorem mem_tokens : (∃ token ∈ tokens text, c ∈ token) ↔ c ∈ text ∧ isSeparator c = false := by
  rw [← mem_split]
  constructor
  · rintro ⟨token, htoken, hc⟩
    exact ⟨token, List.mem_of_mem_filter htoken, hc⟩
  · rintro ⟨token, htoken, hc⟩
    exact ⟨token, List.mem_filter.mpr ⟨htoken, by simpa using List.ne_nil_of_mem hc⟩, hc⟩

/-- The only white space are blanks. -/
def OnlyBlanks (text : List Char) : Prop := ∀ c ∈ text, isWhitespace c = true → c = ' '

theorem tokens_dropWhile (h : OnlyBlanks text) : tokens (text.dropWhile isWhitespace) = tokens text := by
  induction text with
  | nil => rfl
  | cons c text ih =>
    by_cases hc : isWhitespace c = true
    · obtain rfl := h c List.mem_cons_self hc
      rw [List.dropWhile_cons_of_pos hc, ih fun d hd => h d (List.mem_cons_of_mem _ hd)]
      exact (tokens_append (s := ' ') (by decide) [] text).symm
    · rw [List.dropWhile_cons_of_neg hc]

theorem tokens_rdropWhile (h : OnlyBlanks text) : tokens (text.rdropWhile isWhitespace) = tokens text := by
  induction text using List.reverseRecOn with
  | nil => rfl
  | append_singleton text c ih =>
    by_cases hc : isWhitespace c = true
    · obtain rfl := h c (List.mem_append_right _ (List.mem_singleton.mpr rfl)) hc
      rw [List.rdropWhile_concat_pos _ _ _ hc, ih fun d hd => h d (List.mem_append_left _ hd),
        tokens_append (s := ' ') (by decide)]
      exact (List.append_nil _).symm
    · rw [List.rdropWhile_concat_neg _ _ _ hc]

theorem onlyBlanks_dropWhile (h : OnlyBlanks text) : OnlyBlanks (text.dropWhile isWhitespace) :=
  fun c hc => h c ((List.dropWhile_sublist _).subset hc)

theorem isSeparator_of_isWhitespace (h : OnlyBlanks text) (hc : c ∈ text) (hw : isWhitespace c = true) :
    isSeparator c = true := by
  rw [h c hc hw]
  decide

/-- The tokens that are read, where the only white space are blanks. -/
theorem parseHexBytes_tokens {hexStr : String} (h : OnlyBlanks hexStr.toList) :
    parseHexBytes hexStr = ((tokens hexStr.toList).mapM parseToken).map List.flatten := by
  have hfilter : ∀ {clean : List Char}, OnlyBlanks clean →
      (split [] clean).filter (fun token => !token.all isWhitespace) = tokens clean := by
    intro clean hclean
    refine List.filter_congr fun token htoken => ?_
    cases token with
    | nil => rfl
    | cons d token =>
      obtain ⟨hd, hsep⟩ := mem_split.mp ⟨_, htoken, List.mem_cons_self⟩
      have hd : isWhitespace d = false := by
        by_contra hw
        rw [Bool.not_eq_false] at hw
        rw [isSeparator_of_isWhitespace hclean hd hw] at hsep
        cases hsep
      rw [List.all_cons, hd]
      rfl
  have hdrop := onlyBlanks_dropWhile h
  rw [parseHexBytes, trim, hfilter fun c hc => hdrop c ((List.rdropWhile_prefix _ _).subset hc),
    tokens_rdropWhile hdrop, tokens_dropWhile h]

/-! ## The text token by token -/

theorem isWhitespace_of_isRegexSpace (h : isRegexSpace c = true) : isWhitespace c = true := by
  have hall : ∀ c ∈ [' ', '\t', '\n', '\x0b', '\x0c', '\r'], isWhitespace c = true := by decide
  exact hall c (of_decide_eq_true h)

theorem isSeparator_of_not_isKept (h : isKept c = false) : isSeparator c = true := by
  simp only [isKept, Bool.and_eq_false_iff, decide_eq_false_iff_not, not_not] at h
  rcases h with (rfl | rfl) | rfl <;> decide

theorem not_isKept_of_isSeparator (hblank : isWhitespace c = true → c = ' ') (h : isSeparator c = true) :
    isKept c = false := by
  simp only [isSeparator, Bool.or_eq_true, decide_eq_true_eq] at h
  rcases h with (h | rfl) | rfl
  · rw [hblank (isWhitespace_of_isRegexSpace h)]
    rfl
  · rfl
  · rfl

theorem separator_notMem (h : isSeparator c = true) : c ∉ ['0', 'x', 'X'] := by
  have hall : ∀ c ∈ ['0', 'x', 'X'], isSeparator c = false := by decide
  intro hc
  rw [hall c hc] at h
  cases h

/-- White space other than a blank stays. -/
theorem mem_cleaned (hs : isWhitespace s = true) (hblank : s ≠ ' ') (h : s ∈ text) :
    s ∈ (removePrefixes text).filter isKept := by
  have hall : ∀ d ∈ ['0', 'x', 'X', ',', '-'], isWhitespace d = false := by decide
  have hne : ∀ d ∈ ['0', 'x', 'X', ',', '-'], s ≠ d := by
    rintro d hd rfl
    rw [hall s hd] at hs
    cases hs
  have hkept : isKept s = true := by
    rw [isKept, decide_eq_true hblank, decide_eq_true (hne ',' (by decide)), decide_eq_true (hne '-' (by decide))]
    rfl
  have hprefix : s ∉ ['0', 'x', 'X'] := fun hd => hne s ((List.sublist_append_left ['0', 'x', 'X'] [',',
    '-']).subset hd) rfl
  obtain ⟨l, r, rfl⟩ := List.append_of_mem h
  rw [removePrefixes_append hprefix]
  exact List.mem_filter.mpr ⟨List.mem_append_right _ List.mem_cons_self, hkept⟩

theorem filter_isKept_body (h : ∀ c ∈ token, isSeparator c = false) : (body token).filter isKept = body token := by
  refine List.filter_eq_self.mpr fun c hc => ?_
  by_contra hkept
  rw [Bool.not_eq_true] at hkept
  have hsep := isSeparator_of_not_isKept hkept
  rw [h c ((mem_body (separator_notMem hsep)).mp hc)] at hsep
  cases hsep

/-- The text is cleaned token by token. -/
theorem cleaned_eq_flatMap (hblanks : OnlyBlanks text)
    (htokens : ∀ token ∈ split cur text, removePrefixes token = body token) :
    (removePrefixes (cur ++ text)).filter isKept = (split cur text).flatMap fun token =>
    (body token).filter isKept := by
  induction text generalizing cur with
  | nil =>
    rw [split] at htokens ⊢
    rw [List.append_nil, htokens cur (List.mem_singleton.mpr rfl), List.flatMap_singleton]
  | cons c text ih =>
    have hrest : OnlyBlanks text := fun d hd => hblanks d (List.mem_cons_of_mem _ hd)
    rw [split] at htokens ⊢
    split
    · rename_i hc
      rw [if_pos hc] at htokens
      obtain ⟨hcur, htokens⟩ := List.forall_mem_cons.mp htokens
      have ih := ih hrest htokens
      rw [List.nil_append] at ih
      have hdrop := not_isKept_of_isSeparator (hblanks c List.mem_cons_self) hc
      rw [List.flatMap_cons, ← ih, removePrefixes_append (separator_notMem hc), List.filter_append, hcur,
        List.filter_cons_of_neg (by rw [hdrop]; nofun)]
    · rename_i hc
      rw [if_neg hc] at htokens
      rw [← ih hrest htokens, List.append_assoc, List.singleton_append]

/-- Tokens of digits make up the text that is exported. -/
theorem cleaned_tokens (hblanks : OnlyBlanks text)
    (hdigits : ∀ token ∈ tokens text, ∀ c ∈ body token, (hexDigit c).isSome ∨ c = '+') :
    (removePrefixes text).filter isKept = (tokens text).flatMap body := by
  have hsplit : ∀ token ∈ split [] text, removePrefixes token = body token ∧ (body token).filter isKept =
    body token := by
    intro token htoken
    refine ⟨?_, filter_isKept_body fun c hc => (mem_split.mp ⟨token, htoken, hc⟩).2⟩
    cases token with
    | nil => rfl
    | cons d token => exact removePrefixes_token (hdigits _ (List.mem_filter.mpr ⟨htoken, by simp⟩))
  have hempty : ∀ l : List (List Char), (l.filter (· ≠ [])).flatMap body = l.flatMap body := by
    intro l
    induction l with
    | nil => rfl
    | cons token l ih =>
      cases token with
      | nil =>
        rw [List.filter_cons_of_neg (by simp), ih]
        rfl
      | cons d token => rw [List.filter_cons_of_pos (by simp), List.flatMap_cons, List.flatMap_cons, ih]
  rw [← List.nil_append text, cleaned_eq_flatMap hblanks fun token htoken => (hsplit token htoken).1, List.nil_append,
    tokens, hempty]
  exact List.flatMap_congr fun token htoken => (hsplit token htoken).2

/-- White space is no digit. -/
theorem hexDigit_of_isWhitespace (h : isWhitespace c = true) : hexDigit c = none := by
  have hall : ∀ n ∈ List.range' 9 5 ++ List.range' 28 5 ++ List.range' 0x2000 11 ++
      [0xa0, 0x1680, 0x2028, 0x2029, 0x202f, 0x205f, 0x3000], hexDigit (Char.ofNat n) = none := by decide
  have hmem : c.toNat ∈ List.range' 9 5 ++ List.range' 28 5 ++ List.range' 0x2000 11 ++
      [0xa0, 0x1680, 0x2028, 0x2029, 0x202f, 0x205f, 0x3000] := by
    simp only [isWhitespace, Bool.or_eq_true, Bool.and_eq_true, decide_eq_true_eq, beq_iff_eq] at h
    simp only [List.mem_append, List.mem_range'_1, List.mem_cons, List.not_mem_nil, or_false]
    omega
  rw [← Char.ofNat_toNat c]
  exact hall _ hmem

/-- Tokens that are read have digits in their bodies, of which there are not more than the bytes have; and as many
only if every token has an even number. -/
theorem mapM_parseToken_spec {toks : List (List Char)} {bss : List (List UInt8)} (h : toks.mapM parseToken = some bss)
    (hminus : ∀ token ∈ toks, '-' ∉ token) :
    (∀ c ∈ toks.flatMap body, (hexDigit c).isSome ∨ c = '+') ∧ (toks.flatMap body).length ≤ 2 * bss.flatten.length ∧
      (2 * bss.flatten.length ≤ (toks.flatMap body).length → ∀ token ∈ toks, token.length % 2 = 0) ∧
      ((∀ token ∈ toks, token.length % 2 = 0) → hexBytes (toks.flatMap body) = some bss.flatten) := by
  induction toks generalizing bss with
  | nil =>
    cases h
    exact ⟨nofun, Nat.zero_le _, fun _ => nofun, fun _ => rfl⟩
  | cons token toks ih =>
    rw [List.mapM_cons] at h
    obtain ⟨bs, hbs, h⟩ := Option.bind_eq_some_iff.mp h
    obtain ⟨bss, hbss, h⟩ := Option.bind_eq_some_iff.mp h
    cases h
    obtain ⟨hm, hminus⟩ := List.forall_mem_cons.mp hminus
    obtain ⟨hdigits, hlen, hread⟩ := parseToken_spec hbs hm
    obtain ⟨hdigits', hlen', heven', hread'⟩ := ih hbss hminus
    have hparity := length_body token
    have htotal : ((token :: toks).flatMap body).length = (body token).length + (toks.flatMap body).length := by
      rw [List.flatMap_cons, List.length_append]
    have hbytes : (bs :: bss).flatten.length = bs.length + bss.flatten.length := by
      rw [List.flatten_cons, List.length_append]
    refine ⟨?_, by omega, fun hle => ?_, fun heven => ?_⟩
    · rw [List.flatMap_cons]
      exact fun c hc => (List.mem_append.mp hc).elim (hdigits c) (hdigits' c)
    · exact List.forall_mem_cons.mpr ⟨by omega, heven' (by omega)⟩
    · obtain ⟨htoken, htoks⟩ := List.forall_mem_cons.mp heven
      rw [List.flatMap_cons, hexBytes_append (hparity.trans htoken), hread htoken, hread' htoks]
      rfl

/-- The bytes of the tokens are those of their digits together. -/
theorem decodeHex_tokens_iff {toks : List (List Char)} {bss : List (List UInt8)} (h : toks.mapM parseToken = some bss)
    (hminus : ∀ token ∈ toks, '-' ∉ token) :
    decodeHex (toks.flatMap body) = some bss.flatten ↔
      (∀ token ∈ toks, '+' ∉ token) ∧ ∀ token ∈ toks, token.length % 2 = 0 := by
  obtain ⟨hdigits, hlen, heven, hread⟩ := mapM_parseToken_spec h hminus
  have hplus : ∀ token, '+' ∈ body token ↔ '+' ∈ token := fun _ => mem_body (by decide)
  rw [decodeHex]
  constructor
  · intro hdecode
    split at hdecode
    · rename_i hall
      refine ⟨fun token htoken hc => ?_, heven ?_⟩
      · have := hall.2 '+' (List.mem_flatMap.mpr ⟨token, htoken, (hplus token).mpr hc⟩)
        revert this
        decide
      · have := length_hexBytes hdecode
        omega
    · cases hdecode
  · rintro ⟨hsign, htokens⟩
    have hread := hread htokens
    have hbytes := length_hexBytes hread
    rw [if_pos]
    · exact hread
    · refine ⟨by omega, fun c hc => (hdigits c hc).resolve_right ?_⟩
      rintro rfl
      obtain ⟨token, htoken, hc⟩ := List.mem_flatMap.mp hc
      exact hsign token htoken ((hplus token).mp hc)

/-! ## Both texts -/

/-- The white space is blanks, no number has a sign, and every token has an even number of characters. -/
def WholeBytes (text : List Char) : Prop :=
  OnlyBlanks text ∧ '+' ∉ text ∧ ∀ token ∈ tokens text, token.length % 2 = 0

/-- What is exported of a text that can be read are the bytes that the application writes, exactly if the tokens of
the text are whole bytes. -/
theorem decode_cleanHexForExport_iff (hexStr : String) (bytes : List UInt8) (h : parseHexBytes hexStr = some bytes) :
    decodeHex (cleanHexForExport (some hexStr)).toList = some bytes ↔ WholeBytes hexStr.toList := by
  rw [cleanHexForExport, String.toList_ofList, decodeHex_uppercase]
  by_cases hblanks : OnlyBlanks hexStr.toList
  · rw [parseHexBytes_tokens hblanks] at h
    obtain ⟨bss, hbss, rfl⟩ := Option.map_eq_some_iff.mp h
    have hsep : ∀ token ∈ tokens hexStr.toList, ∀ c ∈ token, c ∈ hexStr.toList ∧ isSeparator c = false :=
      fun token htoken c hc => mem_tokens.mp ⟨token, htoken, hc⟩
    have hminus : ∀ token ∈ tokens hexStr.toList, '-' ∉ token := fun token htoken hc => by
      have := (hsep token htoken '-' hc).2
      revert this
      decide
    have hdigits := (mapM_parseToken_spec hbss hminus).1
    have hclean := cleaned_tokens hblanks fun token htoken c hc =>
      hdigits c (List.mem_flatMap.mpr ⟨token, htoken, hc⟩)
    rw [hclean, decodeHex_tokens_iff hbss hminus, WholeBytes, and_iff_right hblanks]
    refine and_congr_left fun _ => ⟨fun hsign hc => ?_, fun hsign token htoken hc => hsign (hsep token htoken _ hc).1⟩
    obtain ⟨token, htoken, hc⟩ := mem_tokens.mpr ⟨hc, by decide⟩
    exact hsign token htoken hc
  · refine iff_of_false ?_ fun hwhole => hblanks hwhole.1
    simp only [OnlyBlanks, not_forall] at hblanks
    obtain ⟨c, hc, hw, hblank⟩ := hblanks
    rw [decodeHex]
    split
    · rename_i hall
      have hdigit := hall.2 c (mem_cleaned hw hblank hc)
      rw [hexDigit_of_isWhitespace hw] at hdigit
      cases hdigit
    · nofun

/-- Bytes with all the separators and a prefix. -/
theorem decode_cleanHexForExport_bytes :
    parseHexBytes "0x90 0f,1F-c3" = some [0x90, 0x0f, 0x1f, 0xc3] ∧
      decodeHex (cleanHexForExport (some "0x90 0f,1F-c3")).toList = some [0x90, 0x0f, 0x1f, 0xc3] := by
  have hread : parseHexBytes "0x90 0f,1F-c3" = some [0x90, 0x0f, 0x1f, 0xc3] := by decide
  refine ⟨hread, (decode_cleanHexForExport_iff _ _ hread).mpr ⟨?_, ?_, ?_⟩⟩
  · unfold OnlyBlanks
    decide
  · decide
  · decide

/-- Two bytes become one. -/
theorem decode_cleanHexForExport_odd :
    ¬ ∀ (hexStr : String) (bytes : List UInt8), parseHexBytes hexStr = some bytes →
      decodeHex (cleanHexForExport (some hexStr)).toList = some bytes := by
  intro h
  have := h "1 2" [1, 2] (by decide)
  revert this
  decide

end CheatManager

end Ps5Debugger
