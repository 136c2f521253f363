import Ps5Debugger.SnapshotRescan

/-!
# The order of the segments

The extension loop of `fs_snapshot_rescan` takes slots into a window by their number and sets
`covered_end` to the end of the slot it took last. The window serves its slots exactly when
each slot it takes in lies past the ones before it, measured from the window's start; the
loop does not check that, and START does not sort the segments. `WindowOrder` names the
layouts for which it comes out right whatever slots are alive (`rescan_any_order_iff`);
ascending segments are among them (`windowOrder_of_ascending`).
-/

namespace Ps5Debugger

open Lib

/-! ## Which windows there can be -/

/-- What a window that starts at slot `i` and took slot `j` last reads. -/
def windowSize (a : Nat → Nat) (v i j : Nat) : Nat := subU64 (u64 (a j + v)) (a i)

/-- The extension loop takes slot `k` into a window that starts at slot `i` and took slot `j`
last. -/
def Extends (a : Nat → Nat) (v i j k : Nat) : Prop :=
  windowExtends v (a i) (u64 (a j + v)) (a k) = true

/-- Slot `j` can be the last of a window that starts at slot `i`: the extension loop gets
there when the right slots are alive. -/
inductive Reach (a : Nat → Nat) (v n i : Nat) : Nat → Prop
  | start : i < n → Reach a v n i i
  | step {j k : Nat} : Reach a v n i j → j < k → k < n → Extends a v i j k → Reach a v n i k

/-- Every window moves forward with each slot it takes in, and fits `bl_buf`. -/
structure Advances (a : Nat → Nat) (v n : Nat) : Prop where
  forward : ∀ i j k, Reach a v n i j → j < k → k < n → Extends a v i j k →
    windowSize a v i j < windowSize a v i k
  fits : ∀ i j, Reach a v n i j → (j - i + 1) * v ≤ blBufSize

section Slots

variable {a : Nat → Nat} {v n : Nat}

theorem extends_iff {i j k : Nat} : Extends a v i j k ↔
    a k ≤ u64 (a j + v) + rescanGapMax ∧ windowSize a v i k ≤ rescanWinCap := by
  rw [Extends, windowExtends, windowSize]
  by_cases hgap : a k > u64 (a j + v)
  · simp only [if_pos hgap]
    split
    · next hgt => exact ⟨fun h => absurd h (by simp), fun h => by omega⟩
    · next hle =>
      simp only [Bool.not_eq_true', decide_eq_false_iff_not, Nat.not_lt]
      exact ⟨fun h => ⟨by omega, h⟩, fun h => h.2⟩
  · simp only [if_neg hgap, rescanGapMax]
    simp only [Nat.not_lt_zero, if_false, Bool.not_eq_true', decide_eq_false_iff_not, Nat.not_lt]
    exact ⟨fun h => ⟨by omega, h⟩, fun h => h.2⟩

theorem Reach.lt {i j : Nat} (h : Reach a v n i j) : i ≤ j ∧ j < n := by
  induction h with
  | start hi => exact ⟨Nat.le_refl _, hi⟩
  | step _ hjk hk _ ih => exact ⟨Nat.le_trans ih.1 (Nat.le_of_lt hjk), hk⟩

theorem windowSize_self {i : Nat} (hi : a i + v < 2 ^ 64) : windowSize a v i i = v := by
  rw [windowSize, u64_of_lt hi, subU64_of_le (Nat.le_add_right _ _) hi, Nat.add_sub_cancel_left]

theorem windowSize_le (a : Nat → Nat) (v i j : Nat) :
    windowSize a v i j ≤ subU64 (a j) (a i) + v := by
  rw [windowSize, subU64, subU64, u64]
  omega

/-- A slot inside the window is covered by it. -/
theorem offset_of_windowSize {i k : Nat} (hi : a i + v < 2 ^ 64) (hk : a k + v < 2 ^ 64)
    (hge : v ≤ windowSize a v i k) : subU64 (a k) (a i) + v = windowSize a v i k := by
  rw [windowSize, u64_of_lt hk] at *
  rw [subU64] at *
  rw [subU64]
  omega

/-- The last slot a window takes in is one it can reach. -/
theorem takeGroup_reach {i : Nat} (back : List Nat) : ∀ {j : Nat}, Reach a v n i j →
    (j :: back).Pairwise (· < ·) → (∀ x ∈ back, x < n) →
    Reach a v n i ((takeGroup a v (a i) (u64 (a j + v)) back).getLastD j) := by
  induction back with
  | nil => intro j hj _ _; exact hj
  | cons k back ih =>
    intro j hj hsorted hlt
    rw [takeGroup]
    split
    · next hext =>
      obtain ⟨hjk, hsorted'⟩ := List.pairwise_cons.mp hsorted
      rw [List.getLastD_cons]
      exact ih (hj.step (hjk k (List.mem_cons_self ..)) (hlt k (List.mem_cons_self ..)) hext) hsorted'
        fun x hx => hlt x (List.mem_cons_of_mem _ hx)
    · exact hj

/-- The slots a window takes in, when windows advance. -/
theorem takeGroup_advances (hadv : Advances a v n) {i : Nat} (back : List Nat) : ∀ {j : Nat},
    Reach a v n i j → (j :: back).Pairwise (· < ·) → (∀ x ∈ back, x < n) →
    windowSize a v i j ≤ windowSize a v i ((takeGroup a v (a i) (u64 (a j + v)) back).getLastD j) ∧
    ∀ k ∈ takeGroup a v (a i) (u64 (a j + v)) back, windowSize a v i j < windowSize a v i k ∧
      windowSize a v i k ≤ windowSize a v i ((takeGroup a v (a i) (u64 (a j + v)) back).getLastD j) := by
  induction back with
  | nil => intro j hj _ _; exact ⟨Nat.le_refl _, fun k hk => by cases hk⟩
  | cons k back ih =>
    intro j hj hsorted hlt
    rw [takeGroup]
    split
    · next hext =>
      obtain ⟨hjk, hsorted'⟩ := List.pairwise_cons.mp hsorted
      have hkn := hlt k (List.mem_cons_self ..)
      have hjk := hjk k (List.mem_cons_self ..)
      have hstep := hadv.forward i j k hj hjk hkn hext
      obtain ⟨h2, h3⟩ := ih (hj.step hjk hkn hext) hsorted' fun x hx => hlt x (List.mem_cons_of_mem _ hx)
      rw [List.getLastD_cons]
      refine ⟨Nat.le_trans (Nat.le_of_lt hstep) h2, fun x hx => ?_⟩
      rcases List.mem_cons.mp hx with rfl | hx
      · exact ⟨hstep, h2⟩
      · exact ⟨Nat.lt_trans hstep (h3 x hx).1, (h3 x hx).2⟩
    · exact ⟨Nat.le_refl _, fun k hk => by cases hk⟩

/-- Reads stay within the buffer. -/
theorem Reach.size_le {i j : Nat} (h : Reach a v n i j) (hi : a i + v < 2 ^ 64)
    (hv : v ≤ rescanWinCap) : windowSize a v i j ≤ rescanWinCap := by
  cases h with
  | start _ => rwa [windowSize_self hi]
  | step _ _ _ hext => exact (extends_iff.mp hext).2

/-- Where windows advance they serve their slots. -/
theorem serves_of_advances (hadv : Advances a v n) (hlt : ∀ k < n, a k + v < 2 ^ 64)
    (hv : v ≤ rescanWinCap) {i : Nat} {back : List Nat} (hsorted : (i :: back).Pairwise (· < ·))
    (hmem : ∀ x ∈ i :: back, x < n) : Serves a v i (groupAfter a v i back) := by
  have hin := hmem i (List.mem_cons_self ..)
  have hback : ∀ x ∈ back, x < n := fun x hx => hmem x (List.mem_cons_of_mem _ hx)
  have hreach : Reach a v n i ((groupAfter a v i back).getLastD i) :=
    takeGroup_reach back (.start hin) hsorted hback
  obtain ⟨hle, hall⟩ := takeGroup_advances hadv back (.start hin) hsorted hback
  have hsub : ∀ k ∈ groupAfter a v i back, k < n := fun k hk => by
    obtain ⟨tail, htail⟩ := takeGroup_prefix a v (a i) back (u64 (a i + v))
    rw [htail] at hback
    exact hback k (List.mem_append_left _ hk)
  rw [windowSize_self (hlt i hin)] at hle hall
  refine ⟨hreach.size_le (hlt i hin) hv, fun k hk => ?_, hadv.fits i _ hreach⟩
  rcases List.mem_cons.mp hk with rfl | hk
  · rw [offset_of_windowSize (hlt k hin) (hlt k hin) (Nat.le_of_eq (windowSize_self (hlt k hin)).symm),
      windowSize_self (hlt k hin)]
    exact hle
  · obtain ⟨h1, h2⟩ := hall k hk
    rw [offset_of_windowSize (hlt i hin) (hlt k (hsub k hk)) (Nat.le_of_lt h1)]
    exact h2

end Slots

/-! ## Layouts -/

/-- Layouts on which every window of every rescan comes out right. -/
structure WindowOrder (L : SnapLayout) : Prop where
  /-- no slot ends where a slot with a smaller number starts -/
  no_abut : ∀ i k, i < k → k < L.slotCount → L.addr k + L.v ≠ L.addr i
  /-- no slot lies between two with smaller numbers that one window bridges -/
  no_back : ∀ i j k, i < j → j < k → k < L.slotCount → L.addr i < L.addr k → L.addr k < L.addr j →
    L.addr i + L.v + rescanGapMax < L.addr j
  /-- no two slots go backwards at the bottom of the address space behind one at its top -/
  no_wrap : ∀ i j k, i < j → j < k → k < L.slotCount → L.addr k < L.addr j →
    L.addr i + rescanWinCap < L.addr j + L.v + 2 ^ 64
  /-- no window bridges more slot numbers than `bl_buf` has values -/
  fits : ∀ i j, Reach L.addr L.v L.slotCount i j → (j - i + 1) * L.v ≤ blBufSize

namespace SnapLayout

variable {L : SnapLayout}

/-- The size of a window, without the wrap of `uint64_t`. -/
theorem windowSize_cases {i k : Nat} (hi : i < L.slotCount) (hk : k < L.slotCount) :
    L.addr i ≤ L.addr k + L.v ∧ windowSize L.addr L.v i k + L.addr i = L.addr k + L.v ∨
      L.addr k + L.v < L.addr i ∧ windowSize L.addr L.v i k + L.addr i = 2 ^ 64 + (L.addr k + L.v) := by
  have h1 : L.addr i + L.v < 2 ^ 64 := addr_lt hi
  have h2 : L.addr k + L.v < 2 ^ 64 := addr_lt hk
  rw [windowSize, u64_of_lt h2]
  rcases Nat.lt_or_ge (L.addr k + L.v) (L.addr i) with hlt | hge
  · rw [subU64_of_lt hlt (by omega)]
    exact .inr ⟨hlt, by omega⟩
  · rw [subU64_of_le hge h2]
    exact .inl ⟨hge, by omega⟩

theorem extends_iff {i j k : Nat} (hj : j < L.slotCount) : Extends L.addr L.v i j k ↔
    L.addr k ≤ L.addr j + L.v + rescanGapMax ∧ windowSize L.addr L.v i k ≤ rescanWinCap := by
  rw [Ps5Debugger.extends_iff, u64_of_lt (addr_lt hj)]

/-- A chain of slots from `i` to `j` leaves no address between them unbridged. -/
def Bridged (L : SnapLayout) (i j : Nat) : Prop :=
  L.addr i ≤ L.addr j → ∀ x, L.addr i ≤ x → x < L.addr j →
    ∃ p q, p < q ∧ q ≤ j ∧ L.addr p ≤ x ∧ x < L.addr q ∧ L.addr q ≤ L.addr p + L.v + rescanGapMax

/-- Taking in one more slot. -/
theorem forward_of_order (h : WindowOrder L) {i j k : Nat} (hij : i ≤ j) (hjk : j < k)
    (hk : k < L.slotCount) (hsize : L.v ≤ windowSize L.addr L.v i j)
    (hcap : windowSize L.addr L.v i j ≤ rescanWinCap) (hbridge : L.Bridged i j)
    (hext : Extends L.addr L.v i j k) :
    windowSize L.addr L.v i j < windowSize L.addr L.v i k ∧ L.Bridged i k := by
  have hj : j < L.slotCount := Nat.lt_trans hjk hk
  have hi : i < L.slotCount := Nat.lt_of_le_of_lt hij hj
  obtain ⟨hgap, hcapk⟩ := (extends_iff hj).mp hext
  have hik := slots_disjoint (Nat.lt_of_le_of_lt hij hjk) hk
  have hjk' := slots_disjoint hjk hk
  have habut := h.no_abut i k (Nat.lt_of_le_of_lt hij hjk) hk
  have hilt : L.addr i + L.v < 2 ^ 64 := addr_lt hi
  have hjlt : L.addr j + L.v < 2 ^ 64 := addr_lt hj
  have hklt : L.addr k + L.v < 2 ^ 64 := addr_lt hk
  have hv := L.v_pos
  have hsj := windowSize_cases hi hj
  have hsk := windowSize_cases hi hk
  generalize windowSize L.addr L.v i j = sizej at *
  generalize windowSize L.addr L.v i k = sizek at *
  have hcapval : rescanWinCap = 0x100000 := rfl
  have hgapval : rescanGapMax = 0x8000 := rfl
  have hforward : sizej < sizek := by
    rcases Nat.lt_or_ge (L.addr k) (L.addr i) with hki | hki
    · -- slot `k` comes below the start of the window
      rcases Nat.eq_or_lt_of_le hij with rfl | hij'
      · omega
      · have hwrap := h.no_wrap i j k hij' hjk hk
        omega
    · rcases Nat.lt_or_ge (L.addr k) (L.addr j) with hkj | hkj
      · rcases Nat.lt_or_ge (L.addr j) (L.addr i) with hji | hji
        · omega
        · -- slot `k` comes between the start of the window and its last slot
          obtain ⟨p, q, hpq, hqj, hp, hq, hpq'⟩ := hbridge hji (L.addr k) hki hkj
          have hqk : q < k := Nat.lt_of_le_of_lt hqj hjk
          have hpk := slots_disjoint (Nat.lt_trans hpq hqk) hk
          have hback := h.no_back p q k hpq hqk hk (by omega) hq
          omega
      · omega
  refine ⟨hforward, fun hle x hx hxk => ?_⟩
  -- the chain now ends with the step from `j` to `k`
  have hji : L.addr i ≤ L.addr j := by omega
  rcases Nat.lt_or_ge x (L.addr j) with hxj | hxj
  · obtain ⟨p, q, hpq, hqj, hrest⟩ := hbridge hji x hx hxj
    exact ⟨p, q, hpq, Nat.le_trans hqj (Nat.le_of_lt hjk), hrest⟩
  · exact ⟨j, k, hjk, Nat.le_refl _, hxj, hxk, hgap⟩

/-- Every window that can arise is within bounds and bridged. -/
theorem reach_of_order (h : WindowOrder L) {i j : Nat} (hreach : Reach L.addr L.v L.slotCount i j) :
    L.v ≤ windowSize L.addr L.v i j ∧ windowSize L.addr L.v i j ≤ rescanWinCap ∧ L.Bridged i j := by
  induction hreach with
  | start hi =>
    have hle := L.v_le
    rw [windowSize_self (addr_lt hi)]
    refine ⟨Nat.le_refl _, by rw [rescanWinCap]; omega, fun _ x h1 h2 => ?_⟩
    exact absurd h1 (Nat.not_le.mpr h2)
  | step hj hjk hk hext ih =>
    obtain ⟨hsize, hcap, hbridge⟩ := ih
    obtain ⟨hforward, hbridge'⟩ := forward_of_order h hj.lt.1 hjk hk hsize hcap hbridge hext
    exact ⟨by omega, ((extends_iff hj.lt.2).mp hext).2, hbridge'⟩

/-- The named layouts are those on which windows advance. -/
theorem advances_iff : Advances L.addr L.v L.slotCount ↔ WindowOrder L := by
  constructor
  · intro h
    have hcap : rescanWinCap = 0x100000 := rfl
    have hgap : rescanGapMax = 0x8000 := rfl
    have hv := L.v_le
    have hpos := L.v_pos
    refine ⟨fun i k hik hk habut => ?_, fun i j k hij hjk hk h1 h2 => ?_, fun i j k hij hjk hk h1 => ?_,
      h.fits⟩
    · -- slot `k` moves the end of the window back to its start
      have hi : i < L.slotCount := Nat.lt_trans hik hk
      have hsize := windowSize_cases hi hk
      have hforward := h.forward i i k (.start hi) hik hk
        ((extends_iff hi).mpr ⟨by omega, by omega⟩)
      omega
    · by_contra hnear
      have hj : j < L.slotCount := Nat.lt_trans hjk hk
      have hi : i < L.slotCount := Nat.lt_trans hij hj
      have hsj := windowSize_cases hi hj
      have hsk := windowSize_cases hi hk
      have hreach : Reach L.addr L.v L.slotCount i j :=
        .step (.start hi) hij hj ((extends_iff hi).mpr ⟨by omega, by omega⟩)
      have hforward := h.forward i j k hreach hjk hk ((extends_iff hj).mpr ⟨by omega, by omega⟩)
      omega
    · by_contra hnear
      have hj : j < L.slotCount := Nat.lt_trans hjk hk
      have hi : i < L.slotCount := Nat.lt_trans hij hj
      have hilt : L.addr i + L.v < 2 ^ 64 := addr_lt hi
      have hsj := windowSize_cases hi hj
      have hsk := windowSize_cases hi hk
      have hreach : Reach L.addr L.v L.slotCount i j :=
        .step (.start hi) hij hj ((extends_iff hi).mpr ⟨by omega, by omega⟩)
      have hforward := h.forward i j k hreach hjk hk ((extends_iff hj).mpr ⟨by omega, by omega⟩)
      omega
  · intro h
    refine ⟨fun i j k hreach hjk hk hext => ?_, h.fits⟩
    obtain ⟨hsize, hcap, hbridge⟩ := reach_of_order h hreach
    exact (forward_of_order h hreach.lt.1 hjk hk hsize hcap hbridge hext).1

/-- Ascending slots leave room for those between them. -/
theorem addr_add_mul_le (hasc : L.Ascending) {i : Nat} : ∀ d, i + d < L.slotCount →
    L.addr i + d * L.v ≤ L.addr (i + d) := by
  intro d
  induction d with
  | zero => intro _; simp
  | succ d ih =>
    intro hd
    have hstep := slots_ascend hasc (show i + d < i + (d + 1) by omega) hd
    have hih := ih (by omega)
    rw [Nat.succ_mul]
    omega

/-- Ascending segments are in order. -/
theorem windowOrder_of_ascending (hasc : L.Ascending) : WindowOrder L := by
  have hpos := L.v_pos
  refine ⟨fun i k hik hk => ?_, fun i j k hij hjk hk _ h2 => ?_, fun i j k hij hjk hk h1 => ?_,
    fun i j hreach => ?_⟩
  · have := slots_ascend hasc hik hk
    omega
  · have := slots_ascend hasc hjk hk
    omega
  · have := slots_ascend hasc hjk hk
    omega
  · obtain ⟨hij, hj⟩ := hreach.lt
    obtain ⟨d, rfl⟩ := Nat.exists_eq_add_of_le hij
    have hi : i < L.slotCount := Nat.lt_of_le_of_lt hij hj
    have hsize := hreach.size_le (addr_lt hi) (by have := L.v_le; rw [rescanWinCap]; omega)
    have hroom := addr_add_mul_le hasc d hj
    have hcases := windowSize_cases hi hj
    rw [rescanWinCap] at hsize
    rw [Nat.add_sub_cancel_left, Nat.succ_mul, blBufSize]
    omega

end SnapLayout

/-! ## Rescans of a layout -/

/-- A rescan did what it should: every window is within bounds and covers its live slots, the
bytes shown for a live slot are those at its address, and the survivors with their stored and
previous values are those of the per-slot reference. -/
structure RescanCorrect {mem : Memory} (actx : Option (AliasEngine mem))
    (cmp : List Byte → List Byte → Bool) (s : SnapSession) (memBuf blBuf : Buf) : Prop where
  windows : ∀ w ∈ (snapScan actx cmp s memBuf blBuf).windows, WindowOk s w
  reads : ∀ k ∈ s.live, ∃ w ∈ (snapScan actx cmp s memBuf blBuf).windows, w.i ≤ k ∧ k ≤ w.last ∧
    ∀ scratch : Buf, slice (view (rescanWindowRead actx w.start w.readSize scratch).1
      (subU64 (s.addr k) w.start)) 0 s.valueLength = s.fresh mem k
  records : (snapRescan actx cmp s memBuf blBuf).records =
    s.records.filterMap (Rec.recount mem s.valueLength s.hasPrev cmp)
  survivors : (snapRescan actx cmp s memBuf blBuf).survivorCount =
    (snapRescan actx cmp s memBuf blBuf).records.length

theorem Reach.congr {a b : Nat → Nat} {v n i j : Nat} (hab : ∀ k < n, a k = b k)
    (h : Reach a v n i j) : Reach b v n i j := by
  induction h with
  | start hi => exact .start hi
  | step hj hjk hk hext ih =>
    obtain ⟨hij, hjn⟩ := hj.lt
    refine ih.step hjk hk ?_
    rwa [Extends, ← hab _ (Nat.lt_of_le_of_lt hij hjn), ← hab _ hjn, ← hab _ hk]

theorem Advances.congr {a b : Nat → Nat} {v n : Nat} (hab : ∀ k < n, a k = b k)
    (h : Advances a v n) : Advances b v n := by
  have hba : ∀ k < n, b k = a k := fun k hk => (hab k hk).symm
  refine ⟨fun i j k hreach hjk hk hext => ?_, fun i j hreach => h.fits i j (hreach.congr hba)⟩
  obtain ⟨hij, hj⟩ := hreach.lt
  have hi := Nat.lt_of_le_of_lt hij hj
  have hforward := h.forward i j k (hreach.congr hba) hjk hk
    (by rwa [Extends, hab i hi, hab j hj, hab k hk])
  rwa [windowSize, windowSize, hab i hi, hab j hj, hab k hk] at hforward

/-- On a layout in order the windows of a rescan serve their slots. -/
theorem SnapSession.Over.serves {L : SnapLayout} {s : SnapSession} (h : s.Over L) (horder : WindowOrder L) :
    ∀ i back, (i :: back) <:+ s.live →
      Serves s.addr s.valueLength i (groupAfter s.addr s.valueLength i back) := by
  intro i back hsuf
  have hn := h.slotCount_eq
  have haddr : ∀ k < L.slotCount, L.addr k = s.addr k := fun k hk => (h.addr_eq (hn ▸ hk)).symm
  have hadv := (SnapLayout.advances_iff.mpr horder).congr haddr
  rw [h.valueLength]
  refine serves_of_advances hadv (fun k hk => ?_) ?_ ?_ fun x hx => ?_
  · rw [← haddr k hk]
    exact SnapLayout.addr_lt hk
  · have := L.v_le
    rw [rescanWinCap]
    omega
  · exact (setFrom_pairwise s.bitmap 0 s.slotCount).sublist hsuf.sublist
  · rw [← hn]
    exact (mem_setFrom.mp (hsuf.subset hx)).2.1

/-- Rescans of a layout in order are correct. -/
theorem rescanCorrect_of_order {L : SnapLayout} {s : SnapSession} (h : s.Over L) (horder : WindowOrder L)
    {mem : Memory} (actx : Option (AliasEngine mem)) (cmp : List Byte → List Byte → Bool)
    (memBuf blBuf : Buf) : RescanCorrect actx cmp s memBuf blBuf := by
  have hserve := h.serves horder
  have hinv : ScanInv mem cmp s s.live (snapScan actx cmp s memBuf blBuf) :=
    snapScan_inv actx memBuf blBuf hserve
  obtain ⟨hrecords, hcount, -⟩ := records_snapRescan actx cmp s memBuf blBuf hserve
  refine ⟨hinv.windows, fun k hk => ?_, hrecords, hcount⟩
  obtain ⟨w, hw, h1, h2⟩ := hinv.served k hk
  have hok := hinv.windows w hw
  have hcov := hok.covers k h1 h2 (mem_setFrom.mp hk).2.2
  refine ⟨w, hw, h1, h2, fun scratch => ?_⟩
  rw [hok.start] at hcov ⊢
  exact window_fresh actx w.readSize scratch s hcov

/-! ### Every window there can be arises -/

theorem takeGroup_extend {a : Nat → Nat} {v i j k : Nat} (hext : Extends a v i j k) (tail : List Nat) :
    takeGroup a v (a i) (u64 (a j + v)) (k :: tail) = k :: takeGroup a v (a i) (u64 (a k + v)) tail := by
  have hext' : windowExtends v (a i) (u64 (a j + v)) (a k) = true := hext
  rw [takeGroup, if_pos hext']

/-- A chain of slots with one more behind it. -/
theorem chain_snoc {i j k : Nat} {mid : List Nat} (hsorted : (i :: mid).Pairwise (· < ·))
    (hle : ∀ x ∈ i :: mid, x ≤ j) (hjk : j < k) :
    (i :: (mid ++ [k])).Pairwise (· < ·) ∧ ∀ x ∈ i :: (mid ++ [k]), x ≤ k := by
  rw [← List.cons_append]
  refine ⟨List.pairwise_append.mpr ⟨hsorted, List.pairwise_singleton .., fun x hx y hy => ?_⟩,
    fun x hx => ?_⟩
  · rw [List.mem_singleton.mp hy]
    exact Nat.lt_of_le_of_lt (hle x hx) hjk
  · rcases List.mem_append.mp hx with hx | hx
    · exact Nat.le_of_lt (Nat.lt_of_le_of_lt (hle x hx) hjk)
    · exact Nat.le_of_eq (List.mem_singleton.mp hx)

/-- The live slots that lead a window from slot `i` to slot `j`. -/
theorem Reach.chain {a : Nat → Nat} {v n i j : Nat} (h : Reach a v n i j) :
    ∃ mid : List Nat, (i :: mid).Pairwise (· < ·) ∧ (∀ x ∈ i :: mid, x ≤ j) ∧ mid.getLastD i = j ∧
      ∀ tail, groupAfter a v i (mid ++ tail) = mid ++ takeGroup a v (a i) (u64 (a j + v)) tail := by
  induction h with
  | start _ =>
    exact ⟨[], List.pairwise_singleton .., fun x hx => Nat.le_of_eq (List.mem_singleton.mp hx), rfl,
      fun tail => rfl⟩
  | @step j k hj hjk hk hext ih =>
    obtain ⟨mid, hsorted, hle, hlast, hgroup⟩ := ih
    obtain ⟨hsorted', hle'⟩ := chain_snoc hsorted hle hjk
    refine ⟨mid ++ [k], hsorted', hle', List.getLastD_concat, fun tail => ?_⟩
    rw [List.append_assoc, hgroup, List.singleton_append, takeGroup_extend hext, List.append_assoc,
      List.singleton_append]

/-- A session over a layout with the given slots alive and its whole baseline in the file. -/
def SnapLayout.session (L : SnapLayout) (live : List Nat) : SnapSession where
  bitmap := ((List.range L.slotCount).filter (· ∉ live)).foldl clearBit fun _ => 0xFF
  slotCount := slotTotal L.v L.step 0 L.segs
  survivorCount := live.length
  stride := L.step
  store := ⟨fun _ => 0, 0, fun _ => 0⟩
  firstFile := fun _ => 0
  hasFirst := false
  prevFile := fun _ => 0
  hasPrev := false
  seg := buildSegments L.v L.step 0 L.segs
  valueLength := L.v

theorem SnapLayout.session_over (L : SnapLayout) (live : List Nat) : (L.session live).Over L :=
  ⟨rfl, rfl, rfl, rfl⟩

theorem SnapLayout.session_live {L : SnapLayout} {live : List Nat} (hsorted : live.Pairwise (· < ·))
    (hlt : ∀ x ∈ live, x < L.slotCount) : (L.session live).live = live := by
  have hperm : (L.session live).live.Perm live := by
    refine (List.perm_ext_iff_of_nodup ((setFrom_pairwise ..).imp Nat.ne_of_lt)
      (hsorted.imp Nat.ne_of_lt)).mpr fun x => ?_
    have hbit : bit (L.session live).bitmap x =
        decide (x ∉ (List.range L.slotCount).filter (· ∉ live)) := by
      rw [SnapLayout.session, bit_foldl_clearBit, bit_ones, Bool.true_and]
    refine mem_setFrom.trans ?_
    rw [hbit, (L.session_over live).slotCount_eq]
    have hx := hlt x
    by_cases hmem : x ∈ live
    · simp [hmem, hx hmem]
    · simp [hmem]
  exact hperm.eq_of_pairwise (fun x y _ _ h1 h2 => absurd h1 (Nat.lt_asymm h2))
    (setFrom_pairwise ..) hsorted

/-- The trace only grows. -/
theorem windows_snapLoop {mem : Memory} (actx : Option (AliasEngine mem))
    (cmp : List Byte → List Byte → Bool) : ∀ (fuel i : Nat) (sc : SnapScan),
    ∀ w ∈ sc.windows, w ∈ (snapLoop actx cmp fuel i sc).windows := by
  intro fuel
  induction fuel with
  | zero => intro i sc w hw; exact hw
  | succ fuel ih =>
    intro i sc w hw
    rw [snapLoop]
    split
    · exact ih _ _ w (List.mem_append_left _ hw)
    · exact hw

/-- The first window of a rescan. -/
theorem first_window {mem : Memory} (actx : Option (AliasEngine mem))
    (cmp : List Byte → List Byte → Bool) {s : SnapSession} (memBuf blBuf : Buf) {i : Nat}
    {rest : List Nat} (hlive : s.live = i :: rest) :
    ∃ w ∈ (snapScan actx cmp s memBuf blBuf).windows, w.i = i ∧ w.start = s.addr i ∧
      w.last = (groupAfter s.addr s.valueLength i rest).getLastD i ∧
      w.readSize = windowSize s.addr s.valueLength i w.last ∧
      w.blLen = (w.last - i + 1) * s.valueLength ∧
      w.buffered = decide (i * s.valueLength + w.blLen > s.store.ramBytes) := by
  obtain ⟨hnext, hin, hrest⟩ := nextSet_of_cons hlive
  have hwin := windowAt_eq s hrest
  rw [snapScan, hnext, snapLoop, if_pos hin]
  refine ⟨_, windows_snapLoop actx cmp _ _ _ _ (List.mem_append_right _ (List.mem_singleton_self _)), rfl,
    rfl, ?_, ?_, rfl, rfl⟩
  · exact congrArg Prod.snd hwin
  · simp only [hwin]
    rfl

/-- What a correct rescan says about the window over a chain of live slots. -/
theorem chain_window {L : SnapLayout} {cmp : List Byte → List Byte → Bool} {i : Nat} {mid : List Nat}
    (hsorted : (i :: mid).Pairwise (· < ·)) (hlt : ∀ x ∈ i :: mid, x < L.slotCount)
    (hle : ∀ x ∈ i :: mid, x ≤ mid.getLastD i) (hgroup : groupAfter (L.session []).addr L.v i mid = mid)
    (h : RescanCorrect (none : Option (AliasEngine fun _ => 0)) cmp (L.session (i :: mid)) (fun _ => 0)
      fun _ => 0) :
    (∀ j ∈ i :: mid, subU64 ((L.session []).addr j) ((L.session []).addr i) + L.v ≤
        windowSize (L.session []).addr L.v i (mid.getLastD i)) ∧
      (mid.getLastD i - i + 1) * L.v ≤ blBufSize := by
  have hlive := SnapLayout.session_live hsorted hlt
  obtain ⟨w, hw, hi, hstart, hlast, hsize, hlen, hbuf⟩ := first_window
    (none : Option (AliasEngine fun _ => 0)) cmp (fun _ => 0) (fun _ => 0) hlive
  have hlast' : w.last = mid.getLastD i := by
    rw [hlast]
    exact congrArg (fun l => List.getLastD l i) hgroup
  have hlen' : w.blLen = (mid.getLastD i - i + 1) * L.v := by
    rw [hlen, hlast']
    rfl
  have hok := h.windows w hw
  refine ⟨fun j hj => ?_, ?_⟩
  · have hij : i ≤ j := by
      rcases List.mem_cons.mp hj with rfl | hj
      · exact Nat.le_refl _
      · exact Nat.le_of_lt ((List.pairwise_cons.mp hsorted).1 j hj)
    have hmem : j ∈ (L.session (i :: mid)).live := by rwa [hlive]
    have hcov := hok.covers j (by rwa [hi]) (by rw [hlast']; exact hle j hj) (mem_setFrom.mp hmem).2.2
    rw [hstart, hsize, hlast'] at hcov
    exact hcov
  · rw [← hlen']
    refine hok.fits ?_
    -- nothing of the baseline is in RAM
    rw [hbuf, hlen', decide_eq_true_eq]
    have hpos : 0 < (mid.getLastD i - i + 1) * L.v := Nat.mul_pos (Nat.succ_pos _) L.v_pos
    exact Nat.lt_of_lt_of_le hpos (Nat.le_add_left _ _)

/-- **Rescans are correct whatever slots are alive exactly on the layouts in order.** -/
theorem rescan_any_order_iff (L : SnapLayout) :
    (∀ s : SnapSession, s.Over L → ∀ (mem : Memory) (actx : Option (AliasEngine mem))
      (cmp : List Byte → List Byte → Bool) (memBuf blBuf : Buf),
      RescanCorrect actx cmp s memBuf blBuf) ↔ WindowOrder L := by
  constructor
  · intro h
    have haddr : ∀ k < L.slotCount, (L.session []).addr k = L.addr k := fun k hk =>
      (L.session_over []).addr_eq (by rwa [(L.session_over []).slotCount_eq])
    have hcorrect := fun live : List Nat => h (L.session live) (L.session_over live) (fun _ => 0) none
      (fun _ _ => true) (fun _ => 0) fun _ => 0
    refine SnapLayout.advances_iff.mp (Advances.congr haddr ⟨fun i j k hreach hjk hk hext => ?_,
      fun i j hreach => ?_⟩)
    · -- a session where the chain to `j` and slot `k` are alive
      obtain ⟨hij, hj⟩ := hreach.lt
      have hi := Nat.lt_of_le_of_lt hij hj
      obtain ⟨mid, hsorted, hle, hlast, hgroup⟩ := hreach.chain
      obtain ⟨hsorted', hle'⟩ := chain_snoc hsorted hle hjk
      have hend : (mid ++ [k]).getLastD i = k := List.getLastD_concat
      have hall := hgroup [k]
      rw [takeGroup_extend hext, takeGroup] at hall
      obtain ⟨hcov, -⟩ := chain_window hsorted' (fun x hx => Nat.lt_of_le_of_lt (hle' x hx) hk)
        (fun x hx => by rw [hend]; exact hle' x hx) hall (hcorrect _)
      have hjmem : j ∈ i :: (mid ++ [k]) := by
        rw [← List.cons_append, ← hlast]
        exact List.mem_append_left _ List.getLastD_mem_cons
      have hcovj := hcov j hjmem
      rw [hend] at hcovj
      -- slot `j` is covered, and is not slot `k`
      have hle := windowSize_le (L.session []).addr L.v i j
      have hdisj := SnapLayout.slots_disjoint hjk hk
      have hv := L.v_pos
      have hsj := SnapLayout.windowSize_cases hi hj
      have hsk := SnapLayout.windowSize_cases hi hk
      have hcongr : ∀ x < L.slotCount, windowSize (L.session []).addr L.v i x = windowSize L.addr L.v i x :=
        fun x hx => by rw [windowSize, windowSize, haddr i hi, haddr x hx]
      have hjle : windowSize L.addr L.v i j ≤ windowSize L.addr L.v i k := by
        rw [← hcongr j hj, ← hcongr k hk]
        exact Nat.le_trans hle hcovj
      have hilt : L.addr i + L.v < 2 ^ 64 := SnapLayout.addr_lt hi
      have hklt : L.addr k + L.v < 2 ^ 64 := SnapLayout.addr_lt hk
      have hjlt : L.addr j + L.v < 2 ^ 64 := SnapLayout.addr_lt hj
      rw [hcongr j hj, hcongr k hk]
      omega
    · obtain ⟨mid, hsorted, hle, rfl, hgroup⟩ := hreach.chain
      have hlt : ∀ x ∈ i :: mid, x < L.slotCount := fun x hx => Nat.lt_of_le_of_lt (hle x hx) hreach.lt.2
      have hall := hgroup []
      rw [List.append_nil, takeGroup, List.append_nil] at hall
      exact (chain_window hsorted hlt hle hall (hcorrect _)).2
  · intro horder s hs mem actx cmp memBuf blBuf
    exact rescanCorrect_of_order hs horder actx cmp memBuf blBuf

/-- Two adjacent segments of four bytes, the upper one first. -/
def descendingPair : SnapLayout where
  v := 4
  step := 4
  segs := [⟨0x1000, 4⟩, ⟨0xFFC, 4⟩]
  v_pos := by decide
  v_le := by decide
  v_le_step := by decide
  nseg_le := by decide
  no_wrap := by decide
  disjoint := by
    refine List.pairwise_pair.mpr fun x hx hx' => ?_
    obtain ⟨h1, -⟩ := hx
    obtain ⟨-, h2⟩ := hx'
    exact absurd (Nat.lt_of_le_of_lt h1 h2) (by decide)

/-- Their snapshot, zeros included. -/
def descendingReq : SnapReq := ⟨4, 4, descendingPair.segs, true, false, false⟩

/-- An environment where every allocation succeeds and the baseline fits in RAM. -/
def roomyEnv : SnapEnv where
  chunkSize := 0x1000000
  packBuf := true
  ramThresh := 0x1000
  segAlloc := true
  bitmapAlloc := true
  ramAlloc := true
  snapOpen := true
  firstOpen := true
  prevOpen := true
  readBuf := fun _ => 0
  packInit := fun _ => 0
  ramInit := fun _ => 0
  fileInit := fun _ => 0
  firstInit := fun _ => 0
  prevInit := fun _ => 0

/-- A COUNT of the values that did not change. -/
def unchangedPass : CountPass := ⟨.unchangedValue, .u32, 4, none, none, none⟩

/-- On the descending pair the rescan reads a window of zero bytes for both slots, and drops
both although neither changed. -/
theorem descending_rescan_reads_nothing :
    ∃ s, snapCreate (fun _ => 1) descendingReq roomyEnv = some s ∧ s.Over descendingPair ∧
      (snapScan (none : Option (AliasEngine fun _ => 1)) unchangedPass.residentCompare s (fun _ => 0)
        fun _ => 0).windows.map RescanWindow.readSize = [0] ∧
      (snapRescan (none : Option (AliasEngine fun _ => 1)) unchangedPass.residentCompare s (fun _ => 0)
        fun _ => 0).survivorCount = 0 ∧
      s.records.filterMap (Rec.recount (fun _ => 1) 4 false unchangedPass.residentCompare) = s.records ∧
      ¬RescanCorrect (none : Option (AliasEngine fun _ => 1)) unchangedPass.residentCompare s (fun _ => 0)
        fun _ => 0 := by
  refine ⟨_, rfl, ⟨rfl, rfl, rfl, rfl⟩, by decide +kernel, by decide +kernel, by decide +kernel,
    fun h => ?_⟩
  have hcount := h.survivors
  rw [h.records] at hcount
  exact absurd hcount (by decide +kernel)

end Ps5Debugger
