import Mathlib.Data.List.Basic
import Mathlib.Data.List.Range
import Mathlib.Logic.Function.Basic

/-!
# Lists side by side in one array

How C keeps several lists in one allocation: each list has an offset and room for so many
entries, and an entry is appended by writing behind the last one. `Holds` says which lists an
array holds; `Holds.push` is the append, which needs the ranges to be apart. Offsets that are
the running totals of the sizes (`prefixSum`) always are.
-/

namespace Lib

variable {ι α : Type}

/-- `data` holds the list `lists i` from `off i` on. -/
def Holds (data : Nat → α) (off : ι → Nat) (lists : ι → List α) : Prop :=
  ∀ i, ∀ k < (lists i).length, (lists i)[k]? = some (data (off i + k))

/-- The ranges of `size i` entries from `off i` on do not meet. -/
def Apart (off size : ι → Nat) : Prop :=
  ∀ i j, i ≠ j → ∀ k < size i, ∀ l < size j, off i + k ≠ off j + l

/-- An array holds empty lists, whatever is in it. -/
theorem holds_nil (data : Nat → α) (off : ι → Nat) : Holds data off fun _ => [] :=
  fun _ k h => absurd h (Nat.not_lt_zero k)

/-- Writing behind the end of a list appends to it, and leaves the others. -/
theorem Holds.push [DecidableEq ι] {data : Nat → α} {off size : ι → Nat} {lists : ι → List α}
    (h : Holds data off lists) (hapart : Apart off size) (hle : ∀ i, (lists i).length ≤ size i)
    (i : ι) (hroom : (lists i).length < size i) (a : α) :
    Holds (Function.update data (off i + (lists i).length) a) off
      (Function.update lists i (lists i ++ [a])) := by
  intro j k hk
  by_cases hji : j = i
  · subst hji
    rw [Function.update_self] at hk ⊢
    rw [List.length_append, List.length_singleton] at hk
    rcases Nat.lt_or_ge k (lists j).length with hlt | hge
    · rw [List.getElem?_append_left hlt, h j k hlt, Function.update_of_ne (by omega)]
    · obtain rfl : k = (lists j).length := by omega
      rw [List.getElem?_concat_length, Function.update_self]
  · rw [Function.update_of_ne hji] at hk ⊢
    have hne := hapart j i hji k (Nat.lt_of_lt_of_le hk (hle j)) _ hroom
    rw [Function.update_of_ne hne, h j k hk]

/-- Reading a list back. -/
theorem Holds.map_range' {data : Nat → α} {off : ι → Nat} {lists : ι → List α}
    (h : Holds data off lists) (i : ι) :
    (List.range' (off i) (lists i).length).map data = lists i := by
  refine List.ext_getElem (by rw [List.length_map, List.length_range']) fun k hk hk' => ?_
  rw [List.getElem_map, List.getElem_range', Nat.one_mul]
  have hget := h i k hk'
  rw [List.getElem?_eq_getElem hk'] at hget
  exact (Option.some.inj hget).symm

/-! ## Running totals -/

/-- The total of the first `i` sizes. -/
def prefixSum (size : Nat → Nat) : Nat → Nat
  | 0 => 0
  | i + 1 => prefixSum size i + size i

theorem prefixSum_add_le {size : Nat → Nat} {i j : Nat} (hij : i < j) :
    prefixSum size i + size i ≤ prefixSum size j := by
  induction j with
  | zero => exact absurd hij (Nat.not_lt_zero i)
  | succ j ih =>
    rw [prefixSum]
    rcases Nat.lt_or_eq_of_le (Nat.le_of_lt_succ hij) with hlt | rfl
    · exact Nat.le_trans (ih hlt) (Nat.le_add_right ..)
    · exact Nat.le_refl _

theorem prefixSum_mono {size : Nat → Nat} {i j : Nat} (hij : i ≤ j) :
    prefixSum size i ≤ prefixSum size j := by
  rcases Nat.lt_or_eq_of_le hij with hlt | rfl
  · exact Nat.le_trans (Nat.le_add_right ..) (prefixSum_add_le hlt)
  · exact Nat.le_refl _

/-- Ranges at running totals are apart. -/
theorem prefixSum_apart (size : Nat → Nat) : Apart (prefixSum size) size := by
  intro i j hij k hk l hl
  rcases Nat.lt_or_gt_of_ne hij with hlt | hgt
  · have hle := @prefixSum_add_le size i j hlt
    omega
  · have hle := @prefixSum_add_le size j i hgt
    omega

end Lib
