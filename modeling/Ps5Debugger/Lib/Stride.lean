import Mathlib.Data.List.Basic
import Mathlib.Data.List.Range
import Mathlib.Tactic.Ring
import Mathlib.Tactic.Linarith

/-!
# Strided offsets

The offsets a loop `for (j = 0; j <= limit; j += step)` visits, as a list, and how
such lists concatenate: a loop over `[0, limit]` is a loop over the multiples below
`A` followed by the loop over `[0, limit - A]` moved up by `A`, exactly when `A` is
itself a multiple of the step. `sliced_iff` says when slices of one size, each with a grid
of its own, have the places of the whole.
-/

namespace Lib

/-- The values of `j` in `for (j = 0; j <= limit; j += step)`. -/
def strideUpTo (step limit : Nat) : List Nat := (List.range (limit / step + 1)).map (· * step)

theorem mem_strideUpTo {step limit x : Nat} (hs : 0 < step) :
    x ∈ strideUpTo step limit ↔ step ∣ x ∧ x ≤ limit := by
  simp only [strideUpTo, List.mem_map, List.mem_range]
  constructor
  · rintro ⟨k, hk, rfl⟩
    refine ⟨Nat.dvd_mul_left step k, ?_⟩
    exact (Nat.le_div_iff_mul_le hs).mp (by omega)
  · rintro ⟨⟨k, rfl⟩, hx⟩
    refine ⟨k, ?_, Nat.mul_comm k step⟩
    have : k ≤ limit / step := (Nat.le_div_iff_mul_le hs).mpr (by rwa [Nat.mul_comm])
    omega

/-- The loop stays below its limit, whatever the step. -/
theorem le_of_mem_strideUpTo {step limit x : Nat} (h : x ∈ strideUpTo step limit) : x ≤ limit := by
  obtain ⟨k, hk, rfl⟩ := List.mem_map.mp h
  have hle : k ≤ limit / step := Nat.lt_succ_iff.mp (List.mem_range.mp hk)
  exact Nat.le_trans (Nat.mul_le_mul_right step hle) (Nat.div_mul_le_self limit step)

/-- The loop starts at zero, so it never comes away empty. -/
theorem zero_mem_strideUpTo (step limit : Nat) : 0 ∈ strideUpTo step limit :=
  List.mem_map.mpr ⟨0, List.mem_range.mpr (Nat.succ_pos _), Nat.zero_mul step⟩

/-- Below one step the loop visits zero only. -/
theorem strideUpTo_of_lt {step limit : Nat} (h : limit < step) : strideUpTo step limit = [0] := by
  simp [strideUpTo, Nat.div_eq_of_lt h]

/-- Limits with the same quotient give the same loop. -/
theorem strideUpTo_congr {step limit limit' : Nat} (h : limit / step = limit' / step) :
    strideUpTo step limit = strideUpTo step limit' := by
  rw [strideUpTo, strideUpTo, h]

/-- Cutting a strided loop at a multiple `m * step` of the step. -/
theorem strideUpTo_split {step limit first m : Nat} (hs : 0 < step)
    (hm : first / step + 1 = m) (hle : m * step ≤ limit) :
    strideUpTo step limit =
      strideUpTo step first ++ (strideUpTo step (limit - m * step)).map (m * step + ·) := by
  have hquot : limit / step + 1 = m + ((limit - m * step) / step + 1) := by
    have hsub := Nat.sub_mul_div limit step m
    have hge : m ≤ limit / step := (Nat.le_div_iff_mul_le hs).mpr hle
    rw [Nat.mul_comm step m] at hsub
    omega
  rw [strideUpTo, strideUpTo, strideUpTo, hquot, hm, List.range_add, List.map_append,
    List.map_map, List.map_map]
  congr 1
  apply List.map_congr_left
  intro k _
  simp only [Function.comp_apply]
  ring

/-- A stretch of `len` that is cut into slices of `size`, each with a grid of its own, has the places of its own grid
exactly if it is one slice, or the slice has whole steps (or no place behind the first cut) and no value of `v` lies
across a cut. -/
theorem sliced_iff {step v len size : Nat} (hlen : 0 < len) (hsize : 0 < size) :
    (∀ o, (∃ i j, o = i * size + j * step ∧ i * size < len ∧ j * step + v ≤ size ∧ i * size + j * step + v ≤ len) ↔
      ∃ k, o = k * step ∧ k * step + v ≤ len) ↔
      len ≤ size ∨ ((step ∣ size ∨ len < size + v) ∧ ∀ k, k * step + v ≤ len → k * step % size + v ≤ size) := by
  constructor
  · intro h
    by_cases hlong : len ≤ size
    · exact .inl hlong
    refine .inr ⟨?_, fun k hk => ?_⟩
    · by_contra hcut
      obtain ⟨hstep, hroom⟩ := not_or.mp hcut
      by_cases hv : v ≤ size
      · -- the second slice begins with a place that is on no step
        obtain ⟨k, hk, -⟩ := (h size).mp ⟨1, 0, by omega, by omega, by omega, by omega⟩
        exact hstep ⟨k, by rw [hk, Nat.mul_comm]⟩
      · obtain ⟨i, j, -, -, hj, -⟩ := (h 0).mpr ⟨0, by omega, by omega⟩
        omega
    · obtain ⟨i, j, heq, -, hj, -⟩ := (h (k * step)).mpr ⟨k, rfl, hk⟩
      rw [heq, Nat.mul_add_mod']
      have := Nat.mod_le (j * step) size
      omega
  · intro h o
    constructor
    · rintro ⟨i, j, rfl, hi, hj, hroom⟩
      have hfirst : len < size + v ∨ len ≤ size → i = 0 := by
        intro hshort
        by_contra hpos
        have := Nat.le_mul_of_pos_left size (Nat.pos_of_ne_zero hpos)
        omega
      rcases h with hshort | ⟨⟨m, rfl⟩ | hshort, -⟩
      · obtain rfl := hfirst (.inr hshort)
        exact ⟨j, by omega, by omega⟩
      · have hk : i * (step * m) + j * step = (i * m + j) * step := by ring
        exact ⟨i * m + j, hk, hk ▸ hroom⟩
      · obtain rfl := hfirst (.inl hshort)
        exact ⟨j, by omega, by omega⟩
    · rintro ⟨k, rfl, hroom⟩
      have hfirst : k * step + v ≤ size → ∃ i j, k * step = i * size + j * step ∧ i * size < len ∧
          j * step + v ≤ size ∧ i * size + j * step + v ≤ len :=
        fun hfit => ⟨0, k, by omega, by omega, hfit, by omega⟩
      rcases h with hshort | ⟨hdiv | hshort, hcross⟩
      · exact hfirst (by omega)
      · have hcross := hcross k hroom
        have hsplit := Nat.div_add_mod' (k * step) size
        obtain ⟨j, hj⟩ : step ∣ k * step % size := (Nat.dvd_mod_iff hdiv).mpr (Nat.dvd_mul_left step k)
        rw [Nat.mul_comm step j] at hj
        rw [hj] at hcross hsplit
        by_cases hin : k * step / size * size < len
        · exact ⟨_, j, hsplit.symm, hin, hcross, by omega⟩
        · -- nothing, at the very end, which is the end of the slice before
          obtain ⟨m, rfl⟩ := hdiv
          obtain ⟨i, hi⟩ : ∃ i, k * step / (step * m) = i + 1 :=
            Nat.exists_eq_succ_of_ne_zero (by rintro hzero; rw [hzero] at hin; omega)
          rw [hi, Nat.succ_mul] at hsplit hin
          exact ⟨i, m, by rw [Nat.mul_comm m]; omega, by omega, by rw [Nat.mul_comm m]; omega, by
            rw [Nat.mul_comm m]; omega⟩
      · refine hfirst ?_
        have := hcross k hroom
        rwa [Nat.mod_eq_of_lt (by omega)] at this

end Lib
