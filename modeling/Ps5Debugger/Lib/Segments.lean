import Mathlib.Data.List.Sort
import Mathlib.Data.Int.Order.Basic

/-!
# Segments of addresses

Segments that do not meet, in the order of their addresses (`Ordered`), and the addresses in them from a base on,
one after the other (`addressesFrom`). Sorting segments that do not meet puts them in order
(`Ordered.of_sorted`). Segments with a gap between neighbours are `Normalised`: what they cover can be written in
no other way.
-/

namespace Lib

/-- The addresses from `start` to before `stop`. -/
structure Segment where
  start : Int
  stop : Int
deriving DecidableEq

/-- `a` lies in the segment. -/
def Segment.Has (s : Segment) (a : Int) : Prop := s.start ≤ a ∧ a < s.stop

instance Segment.instDecidableHas (s : Segment) (a : Int) : Decidable (s.Has a) := inferInstanceAs (Decidable (_ ∧ _))

/-- `a` lies in one of the segments. -/
def Covered (ss : List Segment) (a : Int) : Prop := ∃ s ∈ ss, s.Has a

instance Covered.instDecidable (ss : List Segment) (a : Int) : Decidable (Covered ss a) :=
  inferInstanceAs (Decidable (∃ s ∈ ss, _))

/-- Two segments that do not meet. -/
def Segment.Apart (s t : Segment) : Prop := s.stop ≤ t.start ∨ t.stop ≤ s.start

theorem Segment.Apart.symm {s t : Segment} (h : s.Apart t) : t.Apart s := Or.symm h

/-- Segments that are not empty, each behind those before it. -/
structure Ordered (ss : List Segment) : Prop where
  nonempty : ∀ s ∈ ss, s.start < s.stop
  sorted : ss.Pairwise fun s t => s.stop ≤ t.start

variable {ss : List Segment} {s : Segment} {a base : Int}

theorem Ordered.tail (h : Ordered (s :: ss)) : Ordered ss :=
  ⟨fun t ht => h.nonempty t (List.mem_cons_of_mem _ ht), h.sorted.of_cons⟩

theorem Ordered.head_lt (h : Ordered (s :: ss)) : s.start < s.stop := h.nonempty s List.mem_cons_self

theorem Ordered.le_start (h : Ordered (s :: ss)) {t : Segment} (ht : t ∈ ss) : s.stop ≤ t.start :=
  List.rel_of_pairwise_cons h.sorted ht

/-- Segments that do not meet are in order when their starts are. -/
theorem Ordered.of_sorted (hnonempty : ∀ s ∈ ss, s.start < s.stop) (hapart : ss.Pairwise Segment.Apart)
    (hsorted : ss.Pairwise fun s t => s.start ≤ t.start) : Ordered ss := by
  refine ⟨hnonempty, (hapart.and hsorted).imp_of_mem ?_⟩
  rintro s t hs ht ⟨hst | hts, hle⟩
  · exact hst
  · have := hnonempty t ht
    omega

theorem covered_cons : Covered (s :: ss) a ↔ s.Has a ∨ Covered ss a := by
  rw [Covered, List.exists_mem_cons_iff]
  rfl

/-- No segment ends behind the last. -/
theorem Ordered.stop_le_getLast (h : Ordered ss) (hne : ss ≠ []) {t : Segment} (ht : t ∈ ss) :
    t.stop ≤ (ss.getLast hne).stop := by
  induction ss with
  | nil => exact absurd rfl hne
  | cons s ss ih =>
    rcases List.mem_cons.mp ht with rfl | ht
    · cases ss with
      | nil => exact Int.le_refl _
      | cons s' ss' =>
        have hlast := List.getLast_mem (List.cons_ne_nil s' ss')
        have := h.le_start hlast
        have := h.tail.nonempty _ hlast
        rw [List.getLast_cons (List.cons_ne_nil s' ss')]
        omega
    · have hss := List.ne_nil_of_mem ht
      rw [List.getLast_cons hss]
      exact ih h.tail hss ht

/-- What no segment ends behind lies in none. -/
theorem not_covered_past (h : ∀ t ∈ ss, t.stop ≤ a) : ¬ Covered ss a := by
  rintro ⟨t, ht, -, hlt⟩
  have := h t ht
  omega

/-! ## Segments with gaps between them -/

/-- Segments that are not empty, in order, with at least an address between one and the next. -/
structure Normalised (ss : List Segment) : Prop where
  nonempty : ∀ s ∈ ss, s.start < s.stop
  gaps : ss.Pairwise fun s t => s.stop < t.start

theorem normalised_nil : Normalised [] := ⟨nofun, .nil⟩

theorem normalised_cons : Normalised (s :: ss) ↔ s.start < s.stop ∧ (∀ t ∈ ss, s.stop < t.start) ∧ Normalised ss := by
  constructor
  · rintro ⟨hne, hgaps⟩
    obtain ⟨hs, hss⟩ := List.forall_mem_cons.mp hne
    exact ⟨hs, fun t ht => List.rel_of_pairwise_cons hgaps ht, hss, hgaps.of_cons⟩
  · rintro ⟨hs, hgap, hss⟩
    exact ⟨List.forall_mem_cons.mpr ⟨hs, hss.nonempty⟩, List.pairwise_cons.mpr ⟨hgap, hss.gaps⟩⟩

/-! ## The addresses from a base on -/

/-- The addresses from `lo` to before `hi`. -/
def interval (lo hi : Int) : List Int := (List.range (hi - lo).toNat).map fun i : Nat => lo + (i : Int)

theorem interval_empty {lo hi : Int} (h : hi ≤ lo) : interval lo hi = [] := by
  have h0 : (hi - lo).toNat = 0 := by omega
  rw [interval, h0]
  rfl

theorem interval_cons {lo hi : Int} (h : lo < hi) : interval lo hi = lo :: interval (lo + 1) hi := by
  obtain ⟨n, hn⟩ : ∃ n, (hi - lo).toNat = n + 1 := ⟨(hi - lo).toNat - 1, by omega⟩
  have hn' : (hi - (lo + 1)).toNat = n := by omega
  rw [interval, interval, hn, hn', List.range_succ_eq_map, List.map_cons, List.map_map]
  refine congrArg₂ List.cons (by simp) (List.map_congr_left fun i _ => ?_)
  simp only [Function.comp_apply, Nat.succ_eq_add_one]
  omega

/-- The addresses in the segments that are not below `base`. -/
def addressesFrom (ss : List Segment) (base : Int) : List Int :=
  ss.flatMap fun s => interval (max s.start base) s.stop

theorem addressesFrom_cons :
    addressesFrom (s :: ss) base = interval (max s.start base) s.stop ++ addressesFrom ss base :=
  rfl

/-- Two bases with nothing between them that lies in a segment. -/
theorem addressesFrom_congr {base' : Int}
    (h : ∀ s ∈ ss, (s.stop ≤ base ∧ s.stop ≤ base') ∨ (base ≤ s.start ∧ base' ≤ s.start)) :
    addressesFrom ss base = addressesFrom ss base' := by
  induction ss with
  | nil => rfl
  | cons s ss ih =>
    rw [addressesFrom_cons, addressesFrom_cons, ih fun t ht => h t (List.mem_cons_of_mem _ ht)]
    congr 1
    rcases h s List.mem_cons_self with ⟨hb, hb'⟩ | ⟨hb, hb'⟩
    · rw [interval_empty (by omega), interval_empty (by omega)]
    · rw [max_eq_left hb, max_eq_left hb']

/-- A base in a segment comes first, and then those behind it. -/
theorem addressesFrom_of_covered (h : Ordered ss) (hcov : Covered ss base) :
    addressesFrom ss base = base :: addressesFrom ss (base + 1) := by
  induction ss with
  | nil => exact absurd hcov nofun
  | cons s ss ih =>
    rw [addressesFrom_cons, addressesFrom_cons]
    rcases covered_cons.mp hcov with ⟨hstart, hstop⟩ | htail
    · have hrest : addressesFrom ss base = addressesFrom ss (base + 1) := addressesFrom_congr fun t ht => by
        have := h.le_start ht
        exact .inr ⟨by omega, by omega⟩
      rw [max_eq_right hstart, interval_cons hstop, max_eq_right (by omega), hrest]
      rfl
    · obtain ⟨t, ht, hstart, hstop⟩ := id htail
      have := h.le_start ht
      rw [interval_empty (by omega), interval_empty (by omega), ih h.tail htail]
      rfl

theorem mem_interval {lo hi : Int} : a ∈ interval lo hi ↔ lo ≤ a ∧ a < hi := by
  rw [interval, List.mem_map]
  constructor
  · rintro ⟨i, hi, rfl⟩
    have := List.mem_range.mp hi
    omega
  · rintro ⟨hlo, hhi⟩
    exact ⟨(a - lo).toNat, List.mem_range.mpr (by omega), by omega⟩

theorem mem_addressesFrom : a ∈ addressesFrom ss base ↔ Covered ss a ∧ base ≤ a := by
  rw [addressesFrom, List.mem_flatMap]
  constructor
  · rintro ⟨s, hs, ha⟩
    obtain ⟨hlo, hhi⟩ := mem_interval.mp ha
    exact ⟨⟨s, hs, by omega, hhi⟩, by omega⟩
  · rintro ⟨⟨s, hs, hlo, hhi⟩, hbase⟩
    exact ⟨s, hs, mem_interval.mpr ⟨by omega, hhi⟩⟩

/-- Past all segments there is nothing. -/
theorem addressesFrom_past (h : ∀ s ∈ ss, s.stop ≤ base) : addressesFrom ss base = [] := by
  induction ss with
  | nil => rfl
  | cons s ss ih =>
    have := h s List.mem_cons_self
    rw [addressesFrom_cons, interval_empty (by omega), ih fun t ht => h t (List.mem_cons_of_mem _ ht)]
    rfl

end Lib
