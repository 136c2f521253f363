import Mathlib

/-!
# Lists in the order of a key

A list that is sorted by a key and has the repeats of a key dropped has of each key the first member of the list
(`find?_ordered`), in ascending order, and so a binary search finds every key (`search_iff`).
-/

namespace Lib

variable {α κ : Type} {key : α → κ} {l : List α} {a b : α} {k : κ}

namespace Ordered

/-! ## Binary search -/

section Search

variable [LE κ] [LT κ] [DecidableLT κ]

/-- The search between `low` and `high`, not with `high`. -/
def search (l : List α) (key : α → κ) (k : κ) (low high : Nat) (hhigh : high ≤ l.length) : Bool :=
  if h : low < high then
    if key l[(low + (high - 1)) / 2] < k then search l key k ((low + (high - 1)) / 2 + 1) high hhigh
    else if k < key l[(low + (high - 1)) / 2] then search l key k low ((low + (high - 1)) / 2) (by omega)
    else true
  else false
termination_by high - low
decreasing_by all_goals omega

variable [Std.IsLinearOrder κ] [Std.LawfulOrderLT κ]

/-- A search finds what stands between its bounds. -/
theorem search_iff_between (hsorted : l.Pairwise fun a b => key a ≤ key b) {low high : Nat} {hhigh : high ≤ l.length} :
    search l key k low high hhigh = true ↔ ∃ i, ∃ h : i < l.length, low ≤ i ∧ i < high ∧ key l[i] = k := by
  have hle {i j : Nat} (hi : i < l.length) (hj : j < l.length) (hij : i ≤ j) : key l[i] ≤ key l[j] := by
    rcases Nat.eq_or_lt_of_le hij with rfl | hlt
    · exact Std.le_refl _
    · exact List.pairwise_iff_getElem.mp hsorted i j hi hj hlt
  fun_induction search l key k low high hhigh with
  | case1 low high hhigh hlt hless ih =>
    refine ih.trans ?_
    constructor
    · rintro ⟨i, hi, hlo, hhi, heq⟩
      exact ⟨i, hi, by omega, hhi, heq⟩
    · rintro ⟨i, hi, hlo, hhi, rfl⟩
      refine ⟨i, hi, ?_, hhi, rfl⟩
      by_contra hbelow
      exact Std.not_lt.mpr (hle hi (by omega) (by omega)) hless
  | case2 low high hhigh hlt hless hgreater ih =>
    refine ih.trans ?_
    constructor
    · rintro ⟨i, hi, hlo, hhi, heq⟩
      exact ⟨i, hi, hlo, by omega, heq⟩
    · rintro ⟨i, hi, hlo, hhi, rfl⟩
      refine ⟨i, hi, hlo, ?_, rfl⟩
      by_contra habove
      exact Std.not_lt.mpr (hle (by omega) hi (by omega)) hgreater
  | case3 low high hhigh hlt hless hgreater =>
    refine iff_of_true rfl ⟨(low + (high - 1)) / 2, by omega, by omega, by omega, ?_⟩
    exact Std.le_antisymm (Std.not_lt.mp hgreater) (Std.not_lt.mp hless)
  | case4 low high hhigh hno => exact iff_of_false Bool.false_ne_true fun ⟨i, _, hlo, hhi, _⟩ => hno (by omega)

theorem search_iff (hsorted : l.Pairwise fun a b => key a ≤ key b) :
    search l key k 0 l.length (Nat.le_refl _) = true ↔ ∃ a ∈ l, key a = k := by
  rw [search_iff_between hsorted]
  constructor
  · rintro ⟨i, hi, -, -, heq⟩
    exact ⟨l[i], List.getElem_mem hi, heq⟩
  · rintro ⟨a, ha, heq⟩
    obtain ⟨i, hi, rfl⟩ := List.mem_iff_getElem.mp ha
    exact ⟨i, hi, Nat.zero_le i, hi, heq⟩

end Search

/-! ## The first of each key, in order -/

section Repeats

variable [DecidableEq κ] {prev : Option κ}

theorem find?_key_cons (a : α) (l : List α) :
    (a :: l).find? (key · = k) = if key a = k then some a else l.find? (key · = k) := by
  rw [List.find?_cons]
  by_cases hkey : key a = k <;> simp [hkey]

/-- A member that has the key of the one before is dropped. -/
def dropRepeats (key : α → κ) : Option κ → List α → List α
  | _, [] => []
  | prev, a :: l => if some (key a) = prev then dropRepeats key prev l else a :: dropRepeats key (some (key a)) l

theorem dropRepeats_sublist : (dropRepeats key prev l).Sublist l := by
  induction l generalizing prev with
  | nil => exact .slnil
  | cons a l ih =>
    rw [dropRepeats]
    split
    · exact ih.cons a
    · exact ih.cons_cons a

/-- The first of a key stays. -/
theorem find?_dropRepeats (hprev : prev ≠ some k) :
    (dropRepeats key prev l).find? (key · = k) = l.find? (key · = k) := by
  induction l generalizing prev with
  | nil => rfl
  | cons a l ih =>
    rw [dropRepeats, find?_key_cons]
    by_cases hkey : key a = k
    · rw [if_neg (fun heq : some (key a) = prev => hprev (by rw [← heq, hkey])), find?_key_cons, if_pos hkey,
        if_pos hkey]
    · rw [if_neg hkey]
      split
      · exact ih hprev
      · rw [find?_key_cons, if_neg hkey]
        exact ih fun heq => hkey (Option.some.inj heq)

section Order

variable [LE κ] [LT κ] [Std.IsLinearOrder κ] [Std.LawfulOrderLT κ]

theorem lt_of_mem_dropRepeats (hsorted : l.Pairwise fun a b => key a ≤ key b) (hle : ∀ b ∈ l, k ≤ key b)
    (ha : a ∈ dropRepeats key (some k) l) : k < key a := by
  induction l with
  | nil => cases ha
  | cons b l ih =>
    rw [dropRepeats] at ha
    split at ha
    · exact ih (List.pairwise_cons.mp hsorted).2 (fun c hc => hle c (List.mem_cons_of_mem _ hc)) ha
    · rename_i hne
      have hlt : k < key b := by
        refine Std.not_le.mp fun hge => hne (congrArg some ?_)
        exact Std.le_antisymm hge (hle b List.mem_cons_self)
      rcases List.mem_cons.mp ha with rfl | ha
      · exact hlt
      · exact Std.lt_of_lt_of_le hlt ((List.pairwise_cons.mp hsorted).1 a (dropRepeats_sublist.subset ha))

theorem pairwise_dropRepeats (hsorted : l.Pairwise fun a b => key a ≤ key b) :
    (dropRepeats key prev l).Pairwise fun a b => key a < key b := by
  induction l generalizing prev with
  | nil => exact .nil
  | cons a l ih =>
    obtain ⟨hle, htail⟩ := List.pairwise_cons.mp hsorted
    rw [dropRepeats]
    split
    · exact ih htail
    · exact .cons (fun b hb => lt_of_mem_dropRepeats htail hle hb) (ih htail)

end Order

variable [LE κ] [DecidableLE κ]

/-- Sorted, with the repeats of a key dropped. -/
def ordered (key : α → κ) (l : List α) : List α :=
  dropRepeats key none (l.insertionSort fun a b => key a ≤ key b)

variable [Std.IsLinearOrder κ]

omit [DecidableEq κ] in
theorem pairwise_sorted (l : List α) :
    (l.insertionSort fun a b => key a ≤ key b).Pairwise fun a b => key a ≤ key b := by
  have htotal : Std.Total fun a b : α => key a ≤ key b := ⟨fun a b => Std.le_total⟩
  have htrans : IsTrans α fun a b => key a ≤ key b := ⟨fun a b c => Std.le_trans⟩
  exact List.pairwise_insertionSort _ l

/-- The sort is stable. -/
theorem find?_sorted (l : List α) :
    (l.insertionSort fun a b => key a ≤ key b).find? (key · = k) = l.find? (key · = k) := by
  induction l with
  | nil => rfl
  | cons a l ih =>
    have hsort : (a :: l).insertionSort (fun a b => key a ≤ key b) =
        (l.insertionSort fun a b => key a ≤ key b).orderedInsert (fun a b => key a ≤ key b) a := rfl
    rw [hsort, find?_key_cons, ← ih, List.orderedInsert_eq_take_drop]
    generalize l.insertionSort (fun a b => key a ≤ key b) = sorted
    rw [List.find?_append, find?_key_cons]
    by_cases hkey : key a = k
    · subst hkey
      -- what stands in front has a smaller key
      rw [List.find?_eq_none.mpr, Option.none_or, if_pos rfl, if_pos rfl]
      intro b hb heq
      have hless : ¬ key a ≤ key b := by simpa using List.mem_takeWhile_imp hb
      exact hless ((of_decide_eq_true heq) ▸ Std.le_refl _)
    · rw [if_neg hkey, if_neg hkey, ← List.find?_append, List.takeWhile_append_dropWhile]

theorem find?_ordered (l : List α) (k : κ) : (ordered key l).find? (key · = k) = l.find? (key · = k) := by
  rw [ordered, find?_dropRepeats (Option.some_ne_none k).symm, find?_sorted]

theorem mem_keys_ordered (l : List α) (k : κ) : k ∈ (ordered key l).map key ↔ k ∈ l.map key := by
  have hiff (l : List α) : k ∈ l.map key ↔ (l.find? (key · = k)).isSome = true := by
    rw [List.find?_isSome, List.mem_map]
    simp
  rw [hiff, hiff, find?_ordered]

theorem pairwise_ordered [LT κ] [Std.LawfulOrderLT κ] (l : List α) : (ordered key l).Pairwise fun a b => key a < key b :=
  pairwise_dropRepeats (pairwise_sorted l)

end Repeats

end Ordered

end Lib
