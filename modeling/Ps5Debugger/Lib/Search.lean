import Mathlib.Data.List.Basic

/-!
# Searching a text

`after` is what stands behind the first occurrence of a word, `upTo` what stands before a character, and
`closing` the text up to the bracket that closes an open one.

A text is seen as its pieces between quotes (`quoted`). A word in quotes is found where it is a piece
(`after_quoted`), so a search for it is a search in the list of pieces.
-/

namespace Lib

/-! ## Words and characters -/

/-- What stands behind the first occurrence of `key`. -/
def after (key : List Char) : List Char → Option (List Char)
  | [] => if key = [] then some [] else none
  | c :: cs => if key.isPrefixOf (c :: cs) then some ((c :: cs).drop key.length) else after key cs

/-- What stands before the first `c`, if there is one. -/
def upTo (c : Char) (text : List Char) : Option (List Char) :=
  if c ∈ text then some (text.takeWhile (· ≠ c)) else none

theorem after_front {key rest : List Char} (hne : key ≠ []) : after key (key ++ rest) = some rest := by
  obtain ⟨c, cs, rfl⟩ := List.exists_cons_of_ne_nil hne
  have hpre : (c :: cs).isPrefixOf (c :: (cs ++ rest)) = true :=
    List.isPrefixOf_iff_prefix.mpr (List.prefix_append _ rest)
  have hdrop : (c :: cs ++ rest).drop (c :: cs).length = rest := List.drop_left
  rw [List.cons_append, after, if_pos hpre]
  exact congrArg some hdrop

/-- A word is not found where its first character is not. -/
theorem after_append {c : Char} {key t : List Char} (ht : c ∉ t) (rest : List Char) :
    after (c :: key) (t ++ rest) = after (c :: key) rest := by
  induction t with
  | nil => rfl
  | cons d t ih =>
    have hne : c ≠ d := fun h => ht (h ▸ List.mem_cons_self)
    have hpre : ¬ (c :: key).isPrefixOf (d :: (t ++ rest)) = true := by
      rw [List.isPrefixOf_iff_prefix, List.cons_prefix_cons]
      exact fun h => hne h.1
    rw [List.cons_append, after, if_neg hpre]
    exact ih fun h => ht (List.mem_cons_of_mem d h)

theorem after_char {c : Char} {t : List Char} (ht : c ∉ t) (rest : List Char) :
    after [c] (t ++ c :: rest) = some rest :=
  (after_append ht _).trans (after_front (List.cons_ne_nil c []))

theorem upTo_append {c : Char} {t : List Char} (ht : c ∉ t) (rest : List Char) : upTo c (t ++ c :: rest) = some t := by
  rw [upTo, if_pos (List.mem_append_right t List.mem_cons_self), List.takeWhile_append_of_pos,
    List.takeWhile_cons_of_neg,
    List.append_nil]
  · simp
  · intro d hd
    exact decide_eq_true fun h => ht (h ▸ hd)

/-! ## Brackets -/

section Brackets

variable (o k : Char)

/-- How many brackets are open behind a character; with none open nothing is opened any more. -/
def depthBehind : Nat → Char → Nat
  | 0, _ => 0
  | d + 1, c => if c = o then d + 2 else if c = k then d else d + 1

/-- How many brackets are open behind a text. -/
def level (d : Nat) (text : List Char) : Nat := text.foldl (depthBehind o k) d

/-- The text up to where no bracket is open any more, and what stands behind that. -/
def closing : Nat → List Char → List Char × List Char
  | 0, cs => ([], cs)
  | _ + 1, [] => ([], [])
  | d + 1, c :: cs =>
    let r := closing (depthBehind o k (d + 1) c) cs
    (c :: r.1, r.2)

variable {o k}

theorem level_append (d : Nat) (s t : List Char) : level o k d (s ++ t) = level o k (level o k d s) t :=
  List.foldl_append

theorem level_zero (t : List Char) : level o k 0 t = 0 := by
  induction t with
  | nil => rfl
  | cons c t ih => exact ih

theorem level_of_notMem {t : List Char} (ho : o ∉ t) (hk : k ∉ t) (d : Nat) : level o k d t = d := by
  induction t with
  | nil => rfl
  | cons c t ih =>
    obtain ⟨hoc, ho⟩ := List.ne_and_not_mem_of_not_mem_cons ho
    obtain ⟨hkc, hk⟩ := List.ne_and_not_mem_of_not_mem_cons hk
    have hstep : depthBehind o k d c = d := by
      cases d with
      | zero => rfl
      | succ d => rw [depthBehind, if_neg (Ne.symm hoc), if_neg (Ne.symm hkc)]
    exact (congrArg (fun n => level o k n t) hstep).trans (ih ho hk)

/-- A text behind which a bracket is still open belongs to what the bracket holds. -/
theorem closing_append {d : Nat} {s : List Char} (h : level o k d s ≠ 0) (rest : List Char) :
    closing o k d (s ++ rest) =
      (s ++ (closing o k (level o k d s) rest).1, (closing o k (level o k d s) rest).2) := by
  induction s generalizing d with
  | nil => rfl
  | cons c s ih =>
    cases d with
    | zero => exact absurd (level_zero (c :: s)) h
    | succ d =>
      rw [List.cons_append, closing, ih h]
      rfl

/-- The bracket that closes the only open one. -/
theorem closing_one (hne : o ≠ k) {s : List Char} (h : level o k 1 s = 1) (rest : List Char) :
    closing o k 1 (s ++ k :: rest) = (s ++ [k], rest) := by
  have hk : depthBehind o k 1 k = 0 := by rw [depthBehind, if_neg (Ne.symm hne), if_pos rfl]
  rw [closing_append (by omega), h, closing, hk, closing]

theorem length_closing (d : Nat) (cs : List Char) : (closing o k d cs).2.length ≤ cs.length := by
  induction cs generalizing d with
  | nil => cases d <;> exact Nat.le_refl 0
  | cons c cs ih =>
    cases d with
    | zero => exact Nat.le_refl _
    | succ d => exact Nat.le_succ_of_le (ih _)

end Brackets

/-! ## Pieces between quotes -/

/-- The pieces, each behind a quote. -/
def quoted (pieces : List (List Char)) : List Char := pieces.flatMap ('"' :: ·)

@[simp] theorem quoted_nil : quoted [] = [] := rfl

@[simp] theorem quoted_cons (p : List Char) (ps : List (List Char)) : quoted (p :: ps) = '"' :: (p ++ quoted ps) := rfl

@[simp] theorem quoted_append (ps qs : List (List Char)) : quoted (ps ++ qs) = quoted ps ++ quoted qs :=
  List.flatMap_append

/-- The pieces behind the first one that is the word and has a quote behind it. -/
def behindPiece (word : List Char) : List (List Char) → Option (List Char × List (List Char))
  | p :: p' :: ps => if p = word then some (p', ps) else behindPiece word (p' :: ps)
  | _ => none

theorem behindPiece_append {word : List Char} {ps : List (List Char)} (hps : word ∉ ps) (qs : List (List Char)) :
    behindPiece word (ps ++ qs) = behindPiece word qs := by
  induction ps with
  | nil => rfl
  | cons p ps ih =>
    obtain ⟨hne, hps⟩ := List.ne_and_not_mem_of_not_mem_cons hps
    rw [List.cons_append]
    cases hrest : ps ++ qs with
    | nil =>
      obtain ⟨rfl, rfl⟩ := List.append_eq_nil_iff.mp hrest
      rfl
    | cons p' ps' => rw [behindPiece, if_neg (Ne.symm hne), ← hrest, ih hps]

theorem behindPiece_cons (word next : List Char) (ps : List (List Char)) :
    behindPiece word (word :: next :: ps) = some (next, ps) :=
  if_pos rfl

/-- A word in quotes is found where it is a piece. -/
theorem after_quoted {word : List Char} (hword : '"' ∉ word) {ps : List (List Char)} (hps : ∀ p ∈ ps, '"' ∉ p)
    {t : List Char} (ht : '"' ∉ t) :
    after ('"' :: (word ++ ['"'])) (t ++ quoted ps) = (behindPiece word ps).map fun r => r.1 ++ quoted r.2 := by
  induction ps generalizing t with
  | nil =>
    rw [after_append ht]
    rfl
  | cons p ps ih =>
    have hp := hps p List.mem_cons_self
    have hrest := ih (fun q hq => hps q (List.mem_cons_of_mem p hq)) hp
    rw [after_append ht, quoted_cons]
    cases ps with
    | nil =>
      have hpre : ¬ ('"' :: (word ++ ['"'])).isPrefixOf ('"' :: (p ++ quoted [])) = true := by
        rw [List.isPrefixOf_iff_prefix, List.cons_prefix_cons, quoted_nil, List.append_nil]
        exact fun h => hp (h.2.subset (List.mem_append_right word List.mem_cons_self))
      rw [after, if_neg hpre, hrest]
      rfl
    | cons p' ps =>
      by_cases heq : p = word
      · subst heq
        have htext : '"' :: (p ++ quoted (p' :: ps)) = ('"' :: (p ++ ['"'])) ++ (p' ++ quoted ps) := by simp
        rw [htext, after_front (List.cons_ne_nil _ _), behindPiece_cons]
        rfl
      · have hpre : ¬ ('"' :: (word ++ ['"'])).isPrefixOf ('"' :: (p ++ quoted (p' :: ps))) = true := by
          rw [List.isPrefixOf_iff_prefix, List.cons_prefix_cons]
          rintro ⟨-, behind, h⟩
          rw [List.append_assoc, quoted_cons] at h
          have hup := congrArg (upTo '"') h
          rw [List.singleton_append, upTo_append hword, upTo_append hp] at hup
          exact heq (Option.some.inj hup).symm
        rw [after, if_neg hpre, hrest, behindPiece, if_neg heq]

end Lib
