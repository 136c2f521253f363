import Ps5Debugger.FirstScan

/-!
# The chunk walk of a first scan

What the chunk loop does to the comparison grid, as arithmetic on offsets. The region has
`L` bytes, values have `v`, positions are `step` apart, a chunk has at most `c`.

* A full chunk moves the walk on by `chunkStride`: the whole chunk when `v ≤ step`, the
  chunk less the overlap `v - step` otherwise. The next chunk restarts the grid there, so
  the grids of successive chunks join into one exactly when the step divides the stride.
* The last chunk may be shorter than a value. It always is when `step < v`: the overlap
  itself is left over. `compared` keeps those comparisons; `inRegion` filters them out.
-/

namespace Ps5Debugger

open Lib

/-- The sizes a first scan works with. A value of more than a megabyte is rejected, so a
chunk holds at least one value, and takes up more than half of the megabyte. -/
structure Geometry where
  v : Nat
  step : Nat
  v_pos : 0 < v
  v_le : v ≤ 0x100000
  step_pos : 0 < step
  step_le : step ≤ 0x100000

namespace Geometry

variable (g : Geometry)

/-- The chunk size. -/
def c : Nat := chunkSizeFor g.v

theorem c_le : g.c ≤ 0x100000 := by
  rw [c, chunkSizeFor]
  split
  · exact Nat.div_mul_le_self _ _
  · exact Nat.le_refl _

theorem dvd_c : g.v ∣ g.c := by
  rw [c, chunkSizeFor]
  split
  · exact Nat.dvd_mul_left _ _
  · next h => exact Nat.dvd_of_mod_eq_zero (by omega)

theorem le_c : g.v ≤ g.c ∧ 0x80000 < g.c := by
  have hv := g.v_le
  have hpos := g.v_pos
  rw [c, chunkSizeFor]
  split
  · have hmod := Nat.mod_lt 0x100000 hpos
    have hdiv := Nat.div_add_mod 0x100000 g.v
    have hone : 1 * g.v ≤ 0x100000 / g.v * g.v :=
      Nat.mul_le_mul_right g.v ((Nat.one_le_div_iff hpos).mpr hv)
    rw [Nat.mul_comm] at hdiv
    omega
  · omega

/-- How far a full chunk moves the walk. -/
def stride : Nat := if g.v ≤ g.step then g.c else g.c - g.v + g.step

/-! ## One step of the walk -/

/-- `advance` without machine arithmetic: the whole chunk, or the chunk less the overlap. -/
theorem chunkAdvance_eq {n : Nat} (hn : n ≤ 0x100000) :
    chunkAdvance g.v g.step n =
      if g.step < g.v ∧ g.v - g.step < n then n - (g.v - g.step) else n := by
  have hv := g.v_le
  have hs := g.step_le
  have hsp := g.step_pos
  rw [chunkAdvance]
  by_cases hborrow : n + g.step < g.v
  · rw [u64_of_lt (by omega), subU64_of_lt hborrow (by omega)]
    split <;> split <;> omega
  · rw [u64_of_lt (by omega), subU64_of_le (by omega) (by omega)]
    split <;> split <;> omega

theorem chunkAdvance_full : chunkAdvance g.v g.step g.c = g.stride := by
  have hc := g.c_le
  have hc' := g.le_c
  have hv := g.v_le
  have hs := g.step_pos
  rw [chunkAdvance_eq g hc, stride]
  split <;> split <;> omega

/-- The walk from offset `off` with `rem` bytes to go, cut at its first chunk. -/
theorem scanChunks_succ {fuel off rem : Nat} (hrem : 0 < rem) :
    scanChunks g.c g.v g.step (fuel + 1) off rem =
      if rem ≤ g.c then
        (off, rem) :: scanChunks g.c g.v g.step fuel (off + chunkAdvance g.v g.step rem)
          (rem - chunkAdvance g.v g.step rem)
      else (off, g.c) :: scanChunks g.c g.v g.step fuel (off + g.stride) (rem - g.stride) := by
  rw [scanChunks, if_neg (by omega)]
  by_cases hle : rem ≤ g.c
  · rw [if_pos hle, if_neg (by omega : ¬ rem > g.c)]
    have hcond : (if rem > chunkAdvance g.v g.step rem then rem - chunkAdvance g.v g.step rem else 0)
        = rem - chunkAdvance g.v g.step rem := by split <;> omega
    simp only [hcond]
  · rw [if_neg hle, if_pos (by omega : rem > g.c)]
    have hcond : (if rem > g.stride then rem - g.stride else 0) = rem - g.stride := by
      split <;> omega
    simp only [chunkAdvance_full, hcond]

theorem scanChunks_zero (fuel off : Nat) : scanChunks g.c g.v g.step fuel off 0 = [] := by
  cases fuel <;> rfl

theorem stride_bounds : 0 < g.stride ∧ g.stride ≤ g.c ∧ g.c ≤ g.stride + g.v := by
  have hv := g.v_le
  have hs := g.step_pos
  have hc := g.le_c
  rw [stride]
  split <;> omega

/-- The last chunk of the walk leaves the overlap over, or nothing. -/
theorem last_remainder {rem : Nat} (hrem : rem ≤ g.c) :
    rem - chunkAdvance g.v g.step rem =
      if g.step < g.v ∧ g.v - g.step < rem then g.v - g.step else 0 := by
  have hc := g.c_le
  rw [chunkAdvance_eq g (by omega)]
  split <;> omega

theorem chunkAdvance_pos {rem : Nat} (hpos : 0 < rem) (hrem : rem ≤ g.c) :
    0 < chunkAdvance g.v g.step rem := by
  have hc := g.c_le
  rw [chunkAdvance_eq g (by omega)]
  split <;> omega

/-- Fuel beyond the remaining length changes nothing. -/
theorem scanChunks_fuel : ∀ (fuel fuel' off rem : Nat), rem ≤ fuel → rem ≤ fuel' →
    scanChunks g.c g.v g.step fuel off rem = scanChunks g.c g.v g.step fuel' off rem := by
  intro fuel
  induction fuel with
  | zero =>
    intro fuel' off rem hf _
    obtain rfl : rem = 0 := by omega
    rw [scanChunks_zero, scanChunks_zero]
  | succ fuel ih =>
    intro fuel' off rem hf hf'
    rcases Nat.eq_zero_or_pos rem with rfl | hpos
    · rw [scanChunks_zero, scanChunks_zero]
    · obtain ⟨fuel'', rfl⟩ : ∃ n, fuel' = n + 1 := ⟨fuel' - 1, by omega⟩
      rw [scanChunks_succ g hpos, scanChunks_succ g hpos]
      have hstride := g.stride_bounds
      by_cases hle : rem ≤ g.c
      · have := chunkAdvance_pos g hpos hle
        rw [if_pos hle, if_pos hle, ih fuel'' _ _ (by omega) (by omega)]
      · rw [if_neg hle, if_neg hle, ih fuel'' _ _ (by omega) (by omega)]

/-! ## Short chunks -/

/-- Every chunk holds at least one value. -/
def NoShort (fuel off rem : Nat) : Prop :=
  ∀ ch ∈ scanChunks g.c g.v g.step fuel off rem, g.v ≤ ch.2

/-- With windows wider than the step the overlap is always left over as a short chunk. -/
theorem exists_short_of_overlap (hs : g.step < g.v) : ∀ (fuel off rem : Nat), rem ≤ fuel →
    0 < rem → ∃ ch ∈ scanChunks g.c g.v g.step fuel off rem, ch.2 < g.v := by
  intro fuel
  induction fuel with
  | zero => intro off rem hf hpos; omega
  | succ fuel ih =>
    intro off rem hf hpos
    have hstride := g.stride_bounds
    have hc := g.le_c
    have hv := g.v_le
    have hstep := g.step_pos
    rw [scanChunks_succ g hpos]
    by_cases hle : rem ≤ g.c
    · rw [if_pos hle, last_remainder g hle]
      by_cases hrem : g.v - g.step < rem
      · -- the overlap `v - step` remains, and is itself the next chunk
        rw [if_pos ⟨hs, hrem⟩]
        obtain ⟨ch, hch, hlt⟩ := ih (off + chunkAdvance g.v g.step rem) (g.v - g.step)
          (by omega) (by omega)
        exact ⟨ch, List.mem_cons_of_mem _ hch, hlt⟩
      · exact ⟨(off, rem), List.mem_cons_self .., by omega⟩
    · rw [if_neg hle]
      have hlt : g.stride < rem := by omega
      obtain ⟨ch, hch, hlt⟩ := ih (off + g.stride) (rem - g.stride) (by omega) (by omega)
      exact ⟨ch, List.mem_cons_of_mem _ hch, hlt⟩

/-- Without overlap the chunks are full ones and the remainder of the region. -/
theorem noShort_iff_of_le (hs : g.v ≤ g.step) : ∀ (fuel off rem : Nat), rem ≤ fuel →
    (g.NoShort fuel off rem ↔ rem % g.c = 0 ∨ g.v ≤ rem % g.c) := by
  intro fuel
  induction fuel with
  | zero =>
    intro off rem hf
    obtain rfl : rem = 0 := by omega
    simp [NoShort, scanChunks]
  | succ fuel ih =>
    intro off rem hf
    have hc := g.le_c
    have hv := g.v_le
    rcases Nat.eq_zero_or_pos rem with rfl | hpos
    · simp [NoShort, scanChunks_zero]
    · rw [NoShort, scanChunks_succ g hpos]
      by_cases hle : rem ≤ g.c
      · rw [if_pos hle, last_remainder g hle, if_neg (by omega), scanChunks_zero]
        simp only [List.mem_singleton, forall_eq]
        rcases Nat.lt_or_ge rem g.c with hlt | hge
        · rw [Nat.mod_eq_of_lt hlt]
          omega
        · obtain rfl : rem = g.c := by omega
          rw [Nat.mod_self]
          omega
      · have hfull : g.stride = g.c := if_pos hs
        have hmod : rem % g.c = (rem - g.c) % g.c := Nat.mod_eq_sub_mod (by omega)
        rw [if_neg hle, hfull, hmod, ← ih (off + g.c) (rem - g.c) (by omega), NoShort]
        simp only [List.mem_cons, forall_eq_or_imp]
        exact ⟨fun h => h.2, fun h => ⟨by omega, h⟩⟩

/-- **When a first scan of `L` bytes has no short chunk.** -/
theorem noShort_iff (L : Nat) : g.NoShort L 0 L ↔
    L = 0 ∨ (g.v ≤ g.step ∧ (L % g.c = 0 ∨ g.v ≤ L % g.c)) := by
  rcases Nat.eq_zero_or_pos L with rfl | hpos
  · simp [NoShort, scanChunks]
  · rcases Nat.lt_or_ge g.step g.v with hs | hs
    · constructor
      · intro h
        obtain ⟨ch, hch, hlt⟩ := g.exists_short_of_overlap hs L 0 L (Nat.le_refl L) hpos
        have := h ch hch
        omega
      · omega
    · rw [noShort_iff_of_le g hs L 0 L (Nat.le_refl L)]
      omega

/-- A chunk never runs past the region, and a short one ends with it. -/
theorem scanChunks_bounds : ∀ (fuel off rem : Nat),
    ∀ ch ∈ scanChunks g.c g.v g.step fuel off rem,
      0 < ch.2 ∧ off ≤ ch.1 ∧ ch.1 + ch.2 ≤ off + rem ∧
        (ch.2 < g.v → ch.1 + ch.2 = off + rem) := by
  intro fuel
  induction fuel with
  | zero => intro off rem ch hch; simp [scanChunks] at hch
  | succ fuel ih =>
    intro off rem ch hch
    have hc := g.le_c
    have hv := g.v_le
    rcases Nat.eq_zero_or_pos rem with rfl | hpos
    · simp [scanChunks_zero] at hch
    · rw [scanChunks_succ g hpos] at hch
      by_cases hle : rem ≤ g.c
      · rw [if_pos hle] at hch
        rcases List.mem_cons.mp hch with rfl | hch
        · exact ⟨hpos, Nat.le_refl _, Nat.le_refl _, fun _ => rfl⟩
        · have hadv : chunkAdvance g.v g.step rem ≤ rem := by
            have := g.c_le
            rw [chunkAdvance_eq g (by omega)]
            split <;> omega
          obtain ⟨h1, h2, h3, h4⟩ := ih _ _ ch hch
          exact ⟨h1, by omega, by omega, fun h => by have := h4 h; omega⟩
      · rw [if_neg hle] at hch
        have hstride := g.stride_bounds
        rcases List.mem_cons.mp hch with rfl | hch
        · exact ⟨by simp only; omega, Nat.le_refl _, by simp only; omega, fun h => by simp only at h; omega⟩
        · obtain ⟨h1, h2, h3, h4⟩ := ih _ _ ch hch
          exact ⟨h1, by omega, by omega, fun h => by have := h4 h; omega⟩

/-! ## The compared offsets -/

/-- `limit` of the scalar loop. -/
def limit (n : Nat) : Nat := if n ≥ g.v then n - g.v else 0

/-- The offsets compared in a list of chunks. -/
def compared (chunks : List (Nat × Nat)) : List Nat :=
  chunks.flatMap fun ch => (strideUpTo g.step (g.limit ch.2)).map (ch.1 + ·)

/-- The offsets of a region at which a whole value fits. -/
def inRegion (L : Nat) (o : Nat) : Bool := o + g.v ≤ L

/-- The global grid: `{ k * step : k * step + v ≤ L }`, ascending. -/
def grid (L : Nat) : List Nat := if g.v ≤ L then strideUpTo g.step (L - g.v) else []

theorem mem_grid {L o : Nat} : o ∈ g.grid L ↔ g.step ∣ o ∧ o + g.v ≤ L := by
  rw [grid]
  split
  · rw [mem_strideUpTo g.step_pos]
    omega
  · simp only [List.not_mem_nil, false_iff, not_and]
    omega

theorem compared_cons (ch : Nat × Nat) (chunks : List (Nat × Nat)) :
    g.compared (ch :: chunks) =
      (strideUpTo g.step (g.limit ch.2)).map (ch.1 + ·) ++ g.compared chunks := by
  rw [compared, List.flatMap_cons, compared]

/-- Where no value is left, nothing compared is in the region. -/
theorem filter_compared_nil {fuel off rem L : Nat} (hL : off + rem = L) (hrem : rem < g.v) :
    (g.compared (scanChunks g.c g.v g.step fuel off rem)).filter (g.inRegion L) = [] := by
  rw [List.filter_eq_nil_iff]
  intro o ho
  obtain ⟨ch, hch, hmem⟩ := List.mem_flatMap.mp ho
  obtain ⟨j, -, rfl⟩ := List.mem_map.mp hmem
  obtain ⟨-, hoff, -, -⟩ := g.scanChunks_bounds fuel off rem ch hch
  simp only [inRegion, decide_eq_true_eq]
  omega

/-- The comparisons of a chunk that holds a value are all in the region. -/
theorem filter_chunk {off n L : Nat} (hv : g.v ≤ n) (hn : off + n ≤ L) :
    ((strideUpTo g.step (g.limit n)).map (off + ·)).filter (g.inRegion L) =
      (strideUpTo g.step (n - g.v)).map (off + ·) := by
  rw [limit, if_pos hv, List.filter_eq_self]
  intro o ho
  obtain ⟨j, hj, rfl⟩ := List.mem_map.mp ho
  have := ((mem_strideUpTo g.step_pos).mp hj).2
  simp only [inRegion, decide_eq_true_eq]
  omega

/-- The last chunk of a walk: the rest of the region, on a grid of its own. -/
theorem filter_compared_last {fuel off rem L : Nat} (hf : rem ≤ fuel) (hL : off + rem = L)
    (hle : rem ≤ g.c) :
    (g.compared (scanChunks g.c g.v g.step fuel off rem)).filter (g.inRegion L) =
      (g.grid rem).map (off + ·) := by
  rw [grid]
  rcases Nat.lt_or_ge rem g.v with hlt | hge
  · rw [filter_compared_nil g hL hlt, if_neg (by omega), List.map_nil]
  · have hpos : 0 < rem := Nat.lt_of_lt_of_le g.v_pos hge
    obtain ⟨fuel, rfl⟩ : ∃ n, fuel = n + 1 := ⟨fuel - 1, by omega⟩
    have hadv := chunkAdvance_pos g hpos hle
    have hrest := last_remainder g hle
    have hstep := g.step_pos
    have hvpos := g.v_pos
    have hadv_le : chunkAdvance g.v g.step rem ≤ rem := by
      have := g.c_le
      rw [chunkAdvance_eq g (by omega)]
      split <;> omega
    rw [scanChunks_succ g hpos, if_pos hle, compared_cons, List.filter_append,
      filter_chunk g hge (by omega), if_pos hge,
      filter_compared_nil g (by omega) (by rw [hrest]; split <;> omega), List.append_nil]

/-- A full chunk: its own grid, then the walk from one stride further. -/
theorem filter_compared_full (fuel : Nat) {off rem L : Nat} (hL : off + rem = L) (hlt : g.c < rem) :
    (g.compared (scanChunks g.c g.v g.step (fuel + 1) off rem)).filter (g.inRegion L) =
      (strideUpTo g.step (g.c - g.v)).map (off + ·) ++
        (g.compared (scanChunks g.c g.v g.step fuel (off + g.stride) (rem - g.stride))).filter
          (g.inRegion L) := by
  have hc := g.le_c
  have hv := g.v_le
  rw [scanChunks_succ g (by omega), if_neg (by omega), compared_cons, List.filter_append,
    filter_chunk g (by omega) (by omega)]

/-- When the step divides the stride, the grid of a full chunk ends one step before it. -/
theorem quotient_of_dvd (hd : g.step ∣ g.stride) :
    (g.c - g.v) / g.step + 1 = g.stride / g.step := by
  have hc := g.le_c
  have hv := g.v_le
  have hvp := g.v_pos
  have hs := g.step_pos
  have hbound := g.stride_bounds
  obtain ⟨m, hm⟩ := hd
  obtain ⟨k, rfl⟩ : ∃ k, m = k + 1 := by
    refine ⟨m - 1, ?_⟩
    rcases Nat.eq_zero_or_pos m with rfl | h
    · omega
    · omega
  have hlast : k * g.step ≤ g.c - g.v ∧ g.c - g.v < k * g.step + g.step := by
    rw [Nat.mul_succ, Nat.mul_comm] at hm
    rw [stride] at hm
    split at hm <;> omega
  have hdiv : (g.c - g.v) / g.step = k := by
    rw [Nat.div_eq_iff g.step_pos]
    omega
  rw [hm, Nat.mul_div_cancel_left _ g.step_pos, hdiv]

/-- **Aligned strides**: the comparisons of all chunks in the region are the grid. -/
theorem filter_compared_of_dvd (hd : g.step ∣ g.stride) : ∀ (fuel off rem L : Nat), rem ≤ fuel →
    off + rem = L →
    (g.compared (scanChunks g.c g.v g.step fuel off rem)).filter (g.inRegion L) =
      (g.grid rem).map (off + ·) := by
  intro fuel
  induction fuel with
  | zero =>
    intro off rem L hf hL
    exact filter_compared_last g hf hL (by omega)
  | succ fuel ih =>
    intro off rem L hf hL
    rcases Nat.lt_or_ge g.c rem with hlt | hle
    · have hstride := g.stride_bounds
      have hc := g.le_c
      have hv := g.v_le
      have hquot := g.quotient_of_dvd hd
      have hmul : g.stride / g.step * g.step = g.stride := Nat.div_mul_cancel hd
      rw [filter_compared_full g fuel hL hlt, ih _ _ L (by omega) (by omega), grid, grid]
      rw [if_pos (by omega : g.v ≤ rem)]
      split
      · next hrest =>
        rw [@strideUpTo_split g.step (rem - g.v) (g.c - g.v) _ g.step_pos hquot (by omega),
          List.map_append, List.map_map, hmul, show rem - g.stride - g.v = rem - g.v - g.stride by omega]
        congr 1
        apply List.map_congr_left
        intro j _
        simp only [Function.comp_apply]
        omega
      · next hrest =>
        -- too little is left for another value: the quotients agree
        rw [List.map_nil, List.append_nil]
        congr 1
        apply strideUpTo_congr
        have hlow : (g.c - g.v) / g.step ≤ (rem - g.v) / g.step :=
          Nat.div_le_div_right (by omega)
        have hhigh : (rem - g.v) / g.step < g.stride / g.step :=
          (Nat.div_lt_iff_lt_mul g.step_pos).mpr (by omega)
        omega
    · exact filter_compared_last g hf hL hle

/-- When the per-chunk grids make up the one global grid. -/
def OneGrid (L : Nat) : Prop :=
  L ≤ g.c ∨ g.step ∣ g.stride ∨
    (L < g.stride + g.v ∧ (L - g.v) / g.step = (g.c - g.v) / g.step)

/-- **The compared in-region offsets are the global grid exactly under `OneGrid`.** -/
theorem filter_compared_iff (L : Nat) :
    (g.compared (scanChunks g.c g.v g.step L 0 L)).filter (g.inRegion L) = g.grid L ↔
      g.OneGrid L := by
  have hshift : ∀ l : List Nat, l.map (0 + ·) = l := by simp
  have hc := g.le_c
  have hv := g.v_le
  have hstride := g.stride_bounds
  constructor
  · intro h
    by_contra hno
    rw [OneGrid] at hno
    push Not at hno
    obtain ⟨hlt, hd, hend⟩ := hno
    obtain ⟨fuel, hfuel⟩ : ∃ n, L = n + 1 := ⟨L - 1, by omega⟩
    have hcut := filter_compared_full g fuel (Nat.zero_add L) hlt
    rw [← hfuel, h, hshift, Nat.zero_add, grid, if_pos (by omega)] at hcut
    rcases Nat.lt_or_ge L (g.stride + g.v) with hshort | hlong
    · rw [filter_compared_nil g (by omega) (by omega), List.append_nil] at hcut
      have hlen := congrArg List.length hcut
      simp only [strideUpTo, List.length_map, List.length_range] at hlen
      exact hend hshort (by omega)
    · -- the second chunk compares at the stride, which is off the grid
      have hmem : g.stride ∈ strideUpTo g.step (L - g.v) := by
        rw [hcut]
        apply List.mem_append_right
        rw [List.mem_filter]
        refine ⟨?_, by simp only [inRegion, decide_eq_true_eq]; omega⟩
        obtain ⟨fuel', rfl⟩ : ∃ n, fuel = n + 1 := ⟨fuel - 1, by omega⟩
        rw [scanChunks_succ g (by omega)]
        split <;>
          exact List.mem_append_left _ (List.mem_map.mpr ⟨0, zero_mem_strideUpTo _ _, rfl⟩)
      exact hd ((mem_strideUpTo g.step_pos).mp hmem).1
  · rintro (hle | hd | ⟨hlt, hquot⟩)
    · rw [filter_compared_last g (Nat.le_refl L) (Nat.zero_add L) hle, hshift]
    · rw [filter_compared_of_dvd g hd L 0 L L (Nat.le_refl L) (Nat.zero_add L), hshift]
    · rcases Nat.lt_or_ge g.c L with hcL | hle
      · obtain ⟨fuel, hfuel⟩ : ∃ n, L = n + 1 := ⟨L - 1, by omega⟩
        have hcut := filter_compared_full g fuel (Nat.zero_add L) hcL
        have hnil : (g.compared (scanChunks g.c g.v g.step fuel (0 + g.stride)
            (L - g.stride))).filter (g.inRegion L) = [] :=
          filter_compared_nil g (by omega) (by omega)
        rw [← hfuel, hshift, hnil, List.append_nil] at hcut
        rw [hcut, grid, if_pos (by omega), strideUpTo_congr hquot]
      · rw [filter_compared_last g (Nat.le_refl L) (Nat.zero_add L) hle, hshift]

end Geometry

end Ps5Debugger
