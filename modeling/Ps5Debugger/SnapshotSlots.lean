import Ps5Debugger.Snapshot

/-!
# The slots of a snapshot

Slots are numbered through the segments. The table that `fs_snapshot_create` builds and the
binary search of `fs_slot_addr` come down to one list, `slotAddrs`: slot `i` is at its `i`-th
address (`slotAddr_eq`).

A layout (`SnapLayout`) is a request with non-overlapping slots: `step ≥ v`, disjoint
segments, no address wrap. Its slots are then disjoint (`SnapLayout.slots_disjoint`), and
ascending when its segments are (`SnapLayout.slots_ascend`).
-/

namespace Ps5Debugger

open Lib

/-! ## The segment table -/

/-- The addresses of the slots, segment by segment. -/
def slotAddrs (v step : Nat) (segs : List SnapSegment) : List Nat :=
  segs.flatMap fun g => (List.range (segSlots v step g.length.toNat)).map (g.address.toNat + · * step)

theorem segSlots_le {v step : Nat} (g : SnapSegment) :
    segSlots v step g.length.toNat ≤ 2 ^ 32 := by
  have hlt := g.length.toNat_lt
  rw [segSlots]
  split
  · have := Nat.div_le_self (g.length.toNat - v) step
    omega
  · omega

/-- The reference for the slots: the addresses `seg.addr + k * step` with
`k * step + v ≤ seg.length`, segment by segment. -/
def refSlots (v step : Nat) (segs : List SnapSegment) : List Nat :=
  segs.flatMap fun g => ((List.range (g.length.toNat + 1)).filter fun k =>
    k * step + v ≤ g.length.toNat).map (g.address.toNat + · * step)

/-- The number of slots of a segment, by what a slot is. -/
theorem lt_segSlots_iff {v step len k : Nat} (hs : 0 < step) :
    k < segSlots v step len ↔ k * step + v ≤ len := by
  rw [segSlots]
  split
  · next hv =>
    rw [Nat.lt_succ_iff, Nat.le_div_iff_mul_le hs]
    omega
  · next hv =>
    constructor
    · intro h
      cases h
    · intro h
      omega

theorem slotAddrs_eq_refSlots {v step : Nat} (hv : 0 < v) (hs : 0 < step) (segs : List SnapSegment) :
    slotAddrs v step segs = refSlots v step segs := by
  have hcount : ∀ len, (List.range (len + 1)).filter (fun k => k * step + v ≤ len) =
      List.range (segSlots v step len) := by
    intro len
    have hle : segSlots v step len ≤ len + 1 := by
      rw [segSlots]
      split
      · have := Nat.div_le_self (len - v) step
        omega
      · omega
    obtain ⟨d, hd⟩ := Nat.exists_eq_add_of_le hle
    rw [hd, List.range_add, List.filter_append]
    have hfirst : (List.range (segSlots v step len)).filter (fun k => k * step + v ≤ len) =
        List.range (segSlots v step len) :=
      List.filter_eq_self.mpr fun k hk =>
        decide_eq_true ((lt_segSlots_iff hs).mp (List.mem_range.mp hk))
    have hrest : ((List.range d).map (segSlots v step len + ·)).filter (fun k => k * step + v ≤ len) =
        [] := by
      refine List.filter_eq_nil_iff.mpr fun k hk => ?_
      obtain ⟨j, -, rfl⟩ := List.mem_map.mp hk
      rw [decide_eq_true_eq, ← lt_segSlots_iff hs]
      omega
    rw [hfirst, hrest, List.append_nil]
  rw [slotAddrs, refSlots]
  simp only [hcount]

theorem slotAddrs_cons (v step : Nat) (g : SnapSegment) (gs : List SnapSegment) :
    slotAddrs v step (g :: gs) =
      (List.range (segSlots v step g.length.toNat)).map (g.address.toNat + · * step) ++
        slotAddrs v step gs := by
  rw [slotAddrs, List.flatMap_cons, ← slotAddrs]

theorem length_slotAddrs_cons (v step : Nat) (g : SnapSegment) (gs : List SnapSegment) :
    (slotAddrs v step (g :: gs)).length =
      segSlots v step g.length.toNat + (slotAddrs v step gs).length := by
  rw [slotAddrs_cons, List.length_append, List.length_map, List.length_range]

/-- At most 2^32 slots for each segment. -/
theorem length_slotAddrs_le {v step : Nat} (segs : List SnapSegment) :
    (slotAddrs v step segs).length ≤ segs.length * 2 ^ 32 := by
  induction segs with
  | nil => exact Nat.zero_le _
  | cons g gs ih =>
    have hg := @segSlots_le v step g
    rw [length_slotAddrs_cons, List.length_cons]
    omega

/-- The running total does not wrap, so it counts the slots. -/
theorem slotTotal_eq {v step : Nat} (segs : List SnapSegment) : ∀ start : Nat,
    start + (slotAddrs v step segs).length < 2 ^ 64 →
    slotTotal v step start segs = start + (slotAddrs v step segs).length := by
  induction segs with
  | nil => intro start _; rfl
  | cons g gs ih =>
    intro start h
    rw [length_slotAddrs_cons] at h ⊢
    rw [slotTotal, u64_of_lt (by omega), ih _ (by omega), Nat.add_assoc]

/-- Entry `r` of the table: where its slots start, and which addresses they have. -/
theorem buildSegments_get {v step : Nat} (segs : List SnapSegment) : ∀ (start r : Nat),
    start + (slotAddrs v step segs).length < 2 ^ 64 → r < segs.length →
    ∃ g ∈ segs, (buildSegments v step start segs)[r]? =
        some ⟨g.address.toNat, start + (slotAddrs v step (segs.take r)).length,
          segSlots v step g.length.toNat⟩ ∧
      segs[r]? = some g := by
  induction segs with
  | nil => intro start r _ hr; simp at hr
  | cons g gs ih =>
    intro start r h hr
    rw [length_slotAddrs_cons] at h
    cases r with
    | zero => exact ⟨g, List.mem_cons_self .., by simp [buildSegments, slotAddrs], rfl⟩
    | succ r =>
      obtain ⟨g', hg', hget, hseg⟩ := ih (start + segSlots v step g.length.toNat) r (by omega)
        (by simpa using hr)
      refine ⟨g', List.mem_cons_of_mem _ hg', ?_, by simpa using hseg⟩
      rw [buildSegments, List.getElem?_cons_succ, u64_of_lt (by omega), hget, List.take_succ_cons,
        length_slotAddrs_cons,
        Nat.add_assoc]

theorem length_buildSegments {v step : Nat} (segs : List SnapSegment) : ∀ start : Nat,
    (buildSegments v step start segs).length = segs.length := by
  induction segs with
  | nil => intro start; rfl
  | cons g gs ih => intro start; rw [buildSegments, List.length_cons, ih, List.length_cons]

/-- The binary search ends at the last entry that starts at or before `i`. -/
theorem searchSegment_spec {seg : List FsSegment} {i : Nat} : ∀ (fuel lo hi : Nat), lo < hi →
    hi ≤ lo + fuel + 1 → (seg.getD lo default).slotStart ≤ i →
    (hi = seg.length ∨ i < (seg.getD hi default).slotStart) →
    (seg.getD (searchSegment seg i fuel lo hi) default).slotStart ≤ i ∧
      lo ≤ searchSegment seg i fuel lo hi ∧ searchSegment seg i fuel lo hi < hi ∧
      (searchSegment seg i fuel lo hi + 1 = seg.length ∨
        i < (seg.getD (searchSegment seg i fuel lo hi + 1) default).slotStart) := by
  intro fuel
  induction fuel with
  | zero =>
    intro lo hi hlt hf hlo hhi
    obtain rfl : hi = lo + 1 := by omega
    exact ⟨hlo, Nat.le_refl _, hlt, hhi⟩
  | succ fuel ih =>
    intro lo hi hlt hf hlo hhi
    rw [searchSegment]
    by_cases hmore : lo + 1 < hi
    · rw [if_pos hmore]
      simp only
      by_cases hmid : (seg.getD ((lo + hi) / 2) default).slotStart ≤ i
      · rw [if_pos hmid]
        obtain ⟨h1, h2, h3, h4⟩ := ih ((lo + hi) / 2) hi (by omega) (by omega) hmid hhi
        exact ⟨h1, by omega, h3, h4⟩
      · rw [if_neg hmid]
        obtain ⟨h1, h2, h3, h4⟩ := ih lo ((lo + hi) / 2) (by omega) (by omega) hlo (.inr (by omega))
        exact ⟨h1, h2, by omega, h4⟩
    · rw [if_neg hmore]
      obtain rfl : hi = lo + 1 := by omega
      exact ⟨hlo, Nat.le_refl _, hlt, hhi⟩

/-- A slot of the `r`-th segment, by its number within the segment. -/
theorem slotAddrs_getD {v step : Nat} (segs : List SnapSegment) : ∀ {r k : Nat} {g : SnapSegment},
    segs[r]? = some g → k < segSlots v step g.length.toNat →
    (slotAddrs v step segs)[(slotAddrs v step (segs.take r)).length + k]? =
      some (g.address.toNat + k * step) := by
  induction segs with
  | nil => intro r k g h; simp at h
  | cons g' gs ih =>
    intro r k g h hk
    cases r with
    | zero =>
      obtain rfl : g' = g := by simpa using h
      rw [List.take_zero, slotAddrs_cons, List.getElem?_append_left (by simpa [slotAddrs] using hk)]
      simp [slotAddrs, hk]
    | succ r =>
      rw [List.take_succ_cons, length_slotAddrs_cons, slotAddrs_cons, Nat.add_assoc,
        List.getElem?_append_right (by simp), List.length_map, List.length_range,
        Nat.add_sub_cancel_left]
      exact ih (by simpa using h) hk

theorem length_slotAddrs_take_succ {v step : Nat} (segs : List SnapSegment) :
    ∀ {r : Nat} {g : SnapSegment}, segs[r]? = some g →
    (slotAddrs v step (segs.take (r + 1))).length =
      (slotAddrs v step (segs.take r)).length + segSlots v step g.length.toNat := by
  intro r g h
  rw [List.take_add_one, h, slotAddrs, slotAddrs, List.flatMap_append, List.length_append]
  simp

/-- The binary search ends at the segment that has the slot. -/
theorem searchSegment_slot {v step : Nat} {segs : List SnapSegment} {i : Nat}
    (hlen : (slotAddrs v step segs).length < 2 ^ 64) (hi : i < (slotAddrs v step segs).length) :
    ∃ r g, searchSegment (buildSegments v step 0 segs) i segs.length 0 segs.length = r ∧ segs[r]? = some g ∧
      (buildSegments v step 0 segs)[r]? = some
        ⟨g.address.toNat, (slotAddrs v step (segs.take r)).length, segSlots v step g.length.toNat⟩ ∧
      (slotAddrs v step (segs.take r)).length ≤ i ∧
        i < (slotAddrs v step (segs.take r)).length + segSlots v step g.length.toNat := by
  have hpos : 0 < segs.length := by
    cases segs with
    | nil => simp [slotAddrs] at hi
    | cons g gs => simp
  -- what entry `r` of the table says
  have hentry : ∀ r < segs.length, ∃ g : SnapSegment, segs[r]? = some g ∧
      (buildSegments v step 0 segs)[r]? = some
        ⟨g.address.toNat, (slotAddrs v step (segs.take r)).length, segSlots v step g.length.toNat⟩ := by
    intro r hr
    obtain ⟨g, -, hget, hseg⟩ := @buildSegments_get v step segs 0 r (by omega) hr
    rw [Nat.zero_add] at hget
    exact ⟨g, hseg, hget⟩
  obtain ⟨g₀, -, h₀⟩ := hentry 0 hpos
  obtain ⟨hstart, -, hlt, hnext⟩ := @searchSegment_spec (buildSegments v step 0 segs) i segs.length 0
    segs.length hpos (by omega) (by rw [List.getD_eq_getElem?_getD, h₀]; exact Nat.zero_le _)
    (.inl (length_buildSegments segs 0).symm)
  generalize searchSegment (buildSegments v step 0 segs) i segs.length 0 segs.length = r at *
  obtain ⟨g, hseg, hr⟩ := hentry r hlt
  have hnum := @length_slotAddrs_take_succ v step segs r g hseg
  rw [List.getD_eq_getElem?_getD, hr, Option.getD_some] at hstart
  refine ⟨r, g, rfl, hseg, hr, hstart, ?_⟩
  -- slot `i` belongs to segment `r`
  rw [← hnum]
  rcases hnext with hend | hnext
  · rw [length_buildSegments] at hend
    rwa [hend, List.take_length]
  · rcases Nat.lt_or_ge (r + 1) segs.length with hlt' | hge
    · obtain ⟨g', -, hr'⟩ := hentry (r + 1) hlt'
      rwa [List.getD_eq_getElem?_getD, hr', Option.getD_some] at hnext
    · rwa [List.take_of_length_le hge]

/-- **`fs_slot_addr` is the list of slot addresses.** -/
theorem slotAddr_eq {v step : Nat} {segs : List SnapSegment} {i : Nat}
    (hlen : (slotAddrs v step segs).length < 2 ^ 64) (hi : i < (slotAddrs v step segs).length) :
    slotAddr (buildSegments v step 0 segs) step i = u64 ((slotAddrs v step segs).getD i 0) := by
  obtain ⟨r, g, hsearch, hseg, hget, hstart, hlast⟩ := searchSegment_slot hlen hi
  rw [slotAddr, length_buildSegments, hsearch, List.getD_eq_getElem?_getD, hget, Option.getD_some]
  simp only at hstart ⊢
  obtain ⟨k, rfl⟩ := Nat.exists_eq_add_of_le hstart
  rw [Nat.add_sub_cancel_left, List.getD_eq_getElem?_getD, slotAddrs_getD segs hseg (by omega),
    Option.getD_some]

/-! ## Layouts -/

/-- The bytes of a segment. -/
def SnapSegment.Has (g : SnapSegment) (x : Nat) : Prop :=
  g.address.toNat ≤ x ∧ x < g.address.toNat + g.length.toNat

/-- A request of non-overlapping slots: disjoint segments, at most `TS_SNAP_MAX_SEGS`, whose
addresses do not wrap. -/
structure SnapLayout where
  v : Nat
  step : Nat
  segs : List SnapSegment
  v_pos : 0 < v
  v_le : v ≤ 8
  v_le_step : v ≤ step
  nseg_le : segs.length ≤ 2 ^ 20
  no_wrap : ∀ g ∈ segs, g.address.toNat + g.length.toNat < 2 ^ 64
  disjoint : segs.Pairwise fun g h => ∀ x, g.Has x → ¬h.Has x

namespace SnapLayout

variable (L : SnapLayout)

/-- Segments in the order of their addresses. -/
def Ascending : Prop := L.segs.Pairwise fun g h => g.address.toNat ≤ h.address.toNat

/-- The number of slots. -/
def slotCount : Nat := (slotAddrs L.v L.step L.segs).length

/-- The address of slot `i`. -/
def addr (i : Nat) : Nat := (slotAddrs L.v L.step L.segs).getD i 0

theorem slotCount_lt : L.slotCount < 2 ^ 53 := by
  have h1 := @length_slotAddrs_le L.v L.step L.segs
  have h2 := L.nseg_le
  rw [slotCount]
  omega

/-- A slot lies inside its segment. -/
theorem mem_segSlots {g : SnapSegment} {a : Nat}
    (h : a ∈ (List.range (segSlots L.v L.step g.length.toNat)).map (g.address.toNat + · * L.step)) :
    g.address.toNat ≤ a ∧ a + L.v ≤ g.address.toNat + g.length.toNat := by
  obtain ⟨k, hk, rfl⟩ := List.mem_map.mp h
  have hk := List.mem_range.mp hk
  have hstep : 0 < L.step := Nat.lt_of_lt_of_le L.v_pos L.v_le_step
  rw [segSlots] at hk
  split at hk
  · have hle : k * L.step ≤ g.length.toNat - L.v := (Nat.le_div_iff_mul_le hstep).mp (by omega)
    omega
  · omega

theorem mem_slotAddrs {a : Nat} (h : a ∈ slotAddrs L.v L.step L.segs) :
    ∃ g ∈ L.segs, g.address.toNat ≤ a ∧ a + L.v ≤ g.address.toNat + g.length.toNat := by
  obtain ⟨g, hg, ha⟩ := List.mem_flatMap.mp h
  exact ⟨g, hg, L.mem_segSlots ha⟩

variable {L}

theorem addr_mem {i : Nat} (hi : i < L.slotCount) : L.addr i ∈ slotAddrs L.v L.step L.segs := by
  rw [addr, List.getD_eq_getElem?_getD, List.getElem?_eq_getElem hi, Option.getD_some]
  exact List.getElem_mem hi

theorem addr_lt {i : Nat} (hi : i < L.slotCount) : L.addr i + L.v < 2 ^ 64 := by
  obtain ⟨g, hg, -, hle⟩ := L.mem_slotAddrs (addr_mem hi)
  exact Nat.lt_of_le_of_lt hle (L.no_wrap g hg)

/-- Slots of one segment follow one another. -/
theorem segSlots_pairwise (L : SnapLayout) (g : SnapSegment) :
    ((List.range (segSlots L.v L.step g.length.toNat)).map (g.address.toNat + · * L.step)).Pairwise
      fun a b => a + L.v ≤ b := by
  refine List.pairwise_map.mpr (List.pairwise_lt_range.imp fun {k l} hkl => ?_)
  have hmul : (k + 1) * L.step ≤ l * L.step := Nat.mul_le_mul_right _ hkl
  have hstep := L.v_le_step
  rw [Nat.succ_mul] at hmul
  omega

/-- A relation between the slots of different segments, along the list. -/
theorem addr_pairwise {R : Nat → Nat → Prop} (hin : ∀ a b, a + L.v ≤ b → R a b)
    (hout : L.segs.Pairwise fun g h => ∀ a b, g.address.toNat ≤ a →
      a + L.v ≤ g.address.toNat + g.length.toNat → h.address.toNat ≤ b →
      b + L.v ≤ h.address.toNat + h.length.toNat → R a b)
    {i j : Nat} (hij : i < j) (hj : j < L.slotCount) : R (L.addr i) (L.addr j) := by
  have hpair : (slotAddrs L.v L.step L.segs).Pairwise R := by
    refine List.pairwise_flatMap.mpr ⟨fun g _ => (L.segSlots_pairwise g).imp (hin _ _), ?_⟩
    refine hout.imp fun {g h} hgh a ha b hb => ?_
    obtain ⟨ha1, ha2⟩ := L.mem_segSlots ha
    obtain ⟨hb1, hb2⟩ := L.mem_segSlots hb
    exact hgh a b ha1 ha2 hb1 hb2
  have hi : i < L.slotCount := Nat.lt_trans hij hj
  rw [addr, addr, List.getD_eq_getElem?_getD, List.getD_eq_getElem?_getD, List.getElem?_eq_getElem hi,
    List.getElem?_eq_getElem hj, Option.getD_some, Option.getD_some]
  exact List.pairwise_iff_getElem.mp hpair i j hi hj hij

/-- Slots do not overlap. -/
theorem slots_disjoint {i j : Nat} (hij : i < j) (hj : j < L.slotCount) :
    L.addr i + L.v ≤ L.addr j ∨ L.addr j + L.v ≤ L.addr i := by
  refine addr_pairwise (R := fun a b => a + L.v ≤ b ∨ b + L.v ≤ a) (fun a b h => .inl h)
    (L.disjoint.imp fun {g h} hgh => ?_) hij hj
  intro a b ha1 ha2 hb1 hb2
  have hv := L.v_pos
  -- of two overlapping slots the later address lies in both
  have hx := hgh (max a b)
  simp only [SnapSegment.Has] at hx
  omega

/-- The slots of ascending segments ascend. -/
theorem slots_ascend (hasc : L.Ascending) {i j : Nat} (hij : i < j) (hj : j < L.slotCount) :
    L.addr i + L.v ≤ L.addr j := by
  refine addr_pairwise (R := fun a b => a + L.v ≤ b) (fun a b h => h)
    ((L.disjoint.and hasc).imp fun {g h} hgh => ?_) hij hj
  intro a b ha1 ha2 hb1 hb2
  have hv := L.v_pos
  -- the first byte of the later segment is not in the earlier one
  have hx := hgh.1 h.address.toNat
  have hle := hgh.2
  simp only [SnapSegment.Has] at hx
  omega

end SnapLayout

/-- A session over the slots of a layout. -/
structure SnapSession.Over (L : SnapLayout) (s : SnapSession) : Prop where
  seg : s.seg = buildSegments L.v L.step 0 L.segs
  slotCount : s.slotCount = slotTotal L.v L.step 0 L.segs
  stride : s.stride = L.step
  valueLength : s.valueLength = L.v

namespace SnapSession.Over

variable {L : SnapLayout} {s : SnapSession}

theorem slotCount_eq (h : s.Over L) : s.slotCount = L.slotCount := by
  have hlt : L.slotCount < 2 ^ 53 := L.slotCount_lt
  rw [SnapLayout.slotCount] at hlt
  rw [h.slotCount, slotTotal_eq L.segs 0 (by omega), Nat.zero_add, SnapLayout.slotCount]

theorem addr_eq (h : s.Over L) {i : Nat} (hi : i < s.slotCount) : s.addr i = L.addr i := by
  rw [h.slotCount_eq] at hi
  have hlt : L.slotCount < 2 ^ 53 := L.slotCount_lt
  have haddr : L.addr i + L.v < 2 ^ 64 := SnapLayout.addr_lt hi
  rw [SnapLayout.slotCount] at hlt hi
  rw [SnapSession.addr, h.seg, h.stride, slotAddr_eq (by omega) hi]
  exact u64_of_lt (Nat.lt_of_le_of_lt (Nat.le_add_right _ _) haddr)

end SnapSession.Over

end Ps5Debugger
