import Mathlib

/-!
# Coalescing intervals

Half-open intervals with a tag, met in ascending order. `push` puts one more behind the last, or
lengthens the last when the two touch and carry the same tag; `coalesce` does so for a list. The
result covers what the list covered, with the same tags, and cannot be made shorter: intervals
that touch have different tags.
-/

namespace Lib

variable {α τ : Type} [LinearOrder α] [DecidableEq τ]

/-- A half-open interval with a tag. -/
structure Run (α τ : Type) where
  lo : α
  hi : α
  tag : τ
deriving DecidableEq, Repr

namespace Run

variable {a b c r : Run α τ} {x : α} {t : τ}

/-- `x` lies in the interval. -/
def Has (r : Run α τ) (x : α) : Prop := r.lo ≤ x ∧ x < r.hi

instance (r : Run α τ) (x : α) : Decidable (r.Has x) := inferInstanceAs (Decidable (_ ∧ _))

/-- One interval ends before the other starts. -/
def Before (a b : Run α τ) : Prop := a.hi ≤ b.lo

end Run

open Run

/-- Intervals that are not empty, each before the next ones. -/
structure Ascending (l : List (Run α τ)) : Prop where
  proper : ∀ r ∈ l, r.lo < r.hi
  before : l.Pairwise Before

/-- Intervals that touch have different tags. -/
def Maximal (l : List (Run α τ)) : Prop := l.Pairwise fun a b => a.hi = b.lo → a.tag ≠ b.tag

/-- Some interval with the tag `t` covers `x`. -/
def Covers (l : List (Run α τ)) (x : α) (t : τ) : Prop := ∃ r ∈ l, r.Has x ∧ r.tag = t

omit [DecidableEq τ] in
/-- Disjointness: a point lies in one interval only. -/
theorem unique_of_before {l : List (Run α τ)} (h : l.Pairwise Before) {a b : Run α τ} {x : α}
    (ha : a ∈ l) (hb : b ∈ l) (hxa : a.Has x) (hxb : b.Has x) : a = b := by
  induction l with
  | nil => cases ha
  | cons r l ih =>
    obtain ⟨hr, hl⟩ := List.pairwise_cons.mp h
    rcases List.mem_cons.mp ha with rfl | hal
    · rcases List.mem_cons.mp hb with rfl | hbl
      · rfl
      · exact absurd (lt_of_lt_of_le hxa.2 (hr b hbl)) (not_lt.mpr hxb.1)
    · rcases List.mem_cons.mp hb with rfl | hbl
      · exact absurd (lt_of_lt_of_le hxb.2 (hr a hal)) (not_lt.mpr hxa.1)
      · exact ih hl hal hbl

/-! ## One more interval -/

/-- The intervals so far, the last one first, and one more. -/
def push : List (Run α τ) → Run α τ → List (Run α τ)
  | [], r => [r]
  | c :: rest, r => if r.lo = c.hi ∧ r.tag = c.tag then ⟨c.lo, r.hi, c.tag⟩ :: rest else r :: c :: rest

theorem push_touch {c r : Run α τ} (rest : List (Run α τ)) (h : r.lo = c.hi ∧ r.tag = c.tag) :
    push (c :: rest) r = ⟨c.lo, r.hi, c.tag⟩ :: rest := if_pos h

theorem push_apart {c r : Run α τ} (rest : List (Run α τ)) (h : ¬ (r.lo = c.hi ∧ r.tag = c.tag)) :
    push (c :: rest) r = r :: c :: rest := if_neg h

/-- A list in ascending order, coalesced. -/
def coalesce (l : List (Run α τ)) : List (Run α τ) := (l.foldl push []).reverse

/-- What is known of the intervals so far, the last one first. -/
structure PushInv (acc : List (Run α τ)) : Prop where
  ascending : Ascending acc.reverse
  maximal : Maximal acc.reverse

omit [DecidableEq τ] in
theorem Ascending.reverse_cons {c : Run α τ} {rest : List (Run α τ)} :
    Ascending (c :: rest).reverse ↔ Ascending rest.reverse ∧ c.lo < c.hi ∧ ∀ a ∈ rest, a.Before c := by
  rw [List.reverse_cons]
  constructor
  · rintro ⟨hproper, hbefore⟩
    obtain ⟨hrest, -, hlast⟩ := List.pairwise_append.mp hbefore
    exact ⟨⟨fun r hr => hproper r (by simp [hr]), hrest⟩, hproper c (by simp),
      fun a ha => hlast a (by simp [ha]) c (by simp)⟩
  · rintro ⟨⟨hproper, hbefore⟩, hc, hlast⟩
    refine ⟨?_, List.pairwise_append.mpr ⟨hbefore, List.pairwise_singleton _ _, ?_⟩⟩
    · intro r hr
      rcases List.mem_append.mp hr with hr | hr
      · exact hproper r hr
      · obtain rfl := List.mem_singleton.mp hr
        exact hc
    · intro a ha b hb
      obtain rfl := List.mem_singleton.mp hb
      exact hlast a (List.mem_reverse.mp ha)

omit [LinearOrder α] [DecidableEq τ] in
theorem Maximal.reverse_cons {c : Run α τ} {rest : List (Run α τ)} :
    Maximal (c :: rest).reverse ↔
      Maximal rest.reverse ∧ ∀ a ∈ rest, a.hi = c.lo → a.tag ≠ c.tag := by
  rw [List.reverse_cons]
  constructor
  · intro h
    obtain ⟨hrest, -, hlast⟩ := List.pairwise_append.mp h
    exact ⟨hrest, fun a ha => hlast a (by simp [ha]) c (by simp)⟩
  · rintro ⟨hrest, hlast⟩
    refine List.pairwise_append.mpr ⟨hrest, List.pairwise_singleton _ _, ?_⟩
    intro a ha b hb
    obtain rfl := List.mem_singleton.mp hb
    exact hlast a (List.mem_reverse.mp ha)

theorem PushInv.push {acc : List (Run α τ)} {r : Run α τ} (h : PushInv acc) (hr : r.lo < r.hi)
    (hafter : ∀ a ∈ acc, a.Before r) : PushInv (push acc r) := by
  cases acc with
  | nil =>
    exact ⟨Ascending.reverse_cons.mpr ⟨⟨by simp, .nil⟩, hr, by simp⟩,
      Maximal.reverse_cons.mpr ⟨.nil, by simp⟩⟩
  | cons c rest =>
    obtain ⟨hasc, hc, hlast⟩ := Ascending.reverse_cons.mp h.ascending
    obtain ⟨hmax, htag⟩ := Maximal.reverse_cons.mp h.maximal
    have hcr : c.Before r := hafter c List.mem_cons_self
    rw [Lib.push]
    split
    · next htouch =>
      -- the last interval grows at its end only
      have hlen : c.lo < r.hi := lt_of_lt_of_le hc (le_trans hcr hr.le)
      exact ⟨Ascending.reverse_cons.mpr ⟨hasc, hlen, hlast⟩, Maximal.reverse_cons.mpr ⟨hmax, htag⟩⟩
    · next hapart =>
      refine ⟨Ascending.reverse_cons.mpr ⟨h.ascending, hr, hafter⟩,
        Maximal.reverse_cons.mpr ⟨h.maximal, fun a ha => ?_⟩⟩
      rcases List.mem_cons.mp ha with rfl | ha
      · exact fun hlo ht => hapart ⟨hlo.symm, ht.symm⟩
      · -- what lies further back cannot touch
        have hlt : a.hi < r.lo := lt_of_le_of_lt (hlast a ha) (lt_of_lt_of_le hc hcr)
        exact fun hlo => absurd hlo hlt.ne

/-- The new interval is covered, and nothing is lost. -/
theorem covers_push {acc : List (Run α τ)} {r : Run α τ} {x : α} {t : τ} (hr : r.lo < r.hi)
    (hproper : ∀ a ∈ acc, a.lo < a.hi) :
    Covers (push acc r) x t ↔ Covers acc x t ∨ r.Has x ∧ r.tag = t := by
  cases acc with
  | nil => simp [push, Covers]
  | cons c rest =>
    have hc := hproper c List.mem_cons_self
    rw [push]
    split
    · next htouch =>
      obtain ⟨hlo, htag⟩ := htouch
      simp only [Covers, List.mem_cons, exists_eq_or_imp, Has]
      constructor
      · rintro (⟨⟨hxlo, hxhi⟩, ht⟩ | hrest)
        · rcases lt_or_ge x c.hi with hx | hx
          · exact .inl (.inl ⟨⟨hxlo, hx⟩, ht⟩)
          · exact .inr ⟨⟨hlo.trans_le hx, hxhi⟩, htag.trans ht⟩
        · exact .inl (.inr hrest)
      · rintro ((⟨⟨hxlo, hxhi⟩, ht⟩ | hrest) | ⟨⟨hxlo, hxhi⟩, ht⟩)
        · exact .inl ⟨⟨hxlo, lt_trans hxhi (hlo ▸ hr)⟩, ht⟩
        · exact .inr hrest
        · exact .inl ⟨⟨le_trans hc.le (hlo ▸ hxlo), hxhi⟩, htag ▸ ht⟩
    · simp only [Covers, List.mem_cons, exists_eq_or_imp]
      exact or_comm

/-- An interval behind all others so far stays behind. -/
theorem before_push {acc : List (Run α τ)} {r s : Run α τ} (hacc : ∀ a ∈ acc, a.Before s)
    (hr : r.Before s) : ∀ a ∈ push acc r, a.Before s := by
  intro a ha
  cases acc with
  | nil =>
    obtain rfl := List.mem_singleton.mp ha
    exact hr
  | cons c rest =>
    rw [push] at ha
    split at ha
    · rcases List.mem_cons.mp ha with rfl | ha
      · exact hr
      · exact hacc a (List.mem_cons_of_mem c ha)
    · rcases List.mem_cons.mp ha with rfl | ha
      · exact hr
      · exact hacc a ha

/-! ## A whole list -/

theorem PushInv.foldl {l : List (Run α τ)} (hl : Ascending l) :
    ∀ {acc : List (Run α τ)}, PushInv acc → (∀ a ∈ acc, ∀ r ∈ l, a.Before r) →
      PushInv (l.foldl Lib.push acc) ∧
        ∀ x t, Covers (l.foldl Lib.push acc) x t ↔ Covers acc x t ∨ Covers l x t := by
  induction l with
  | nil =>
    intro acc h _
    exact ⟨h, fun x t => by simp [Covers]⟩
  | cons r l ih =>
    intro acc h hafter
    obtain ⟨hr, hbefore⟩ := List.pairwise_cons.mp hl.before
    have hproper := hl.proper r List.mem_cons_self
    have hpush := h.push hproper fun a ha => hafter a ha r List.mem_cons_self
    have hrest : Ascending l := ⟨fun s hs => hl.proper s (List.mem_cons_of_mem r hs), hbefore⟩
    obtain ⟨hinv, hcover⟩ := ih hrest hpush fun a ha s hs =>
      before_push (fun b hb => hafter b hb s (List.mem_cons_of_mem r hs)) (hr s hs) a ha
    refine ⟨hinv, fun x t => ?_⟩
    have hacc : ∀ a ∈ acc, a.lo < a.hi := fun a ha => h.ascending.proper a (List.mem_reverse.mpr ha)
    rw [List.foldl_cons, hcover, covers_push hproper hacc, or_assoc]
    simp [Covers]

/-- **Coalescing** keeps the order and what is covered, and leaves no two intervals that could be
one. -/
theorem coalesce_spec {l : List (Run α τ)} (hl : Ascending l) :
    Ascending (coalesce l) ∧ Maximal (coalesce l) ∧
      ∀ x t, Covers (coalesce l) x t ↔ Covers l x t := by
  have hempty : PushInv ([] : List (Run α τ)) := ⟨⟨by simp, .nil⟩, .nil⟩
  obtain ⟨hinv, hcover⟩ := PushInv.foldl hl hempty (by simp)
  refine ⟨hinv.ascending, hinv.maximal, fun x t => ?_⟩
  have hreverse : Covers (coalesce l) x t ↔ Covers (l.foldl push []) x t := by simp [Covers, coalesce]
  rw [hreverse, hcover]
  simp [Covers]

/-! ## Intervals on a grid -/

section Grid

variable {τ : Type} {count w base : Nat} {f : Nat → List (Run Nat τ)}

/-- The intervals of each cell of a grid lie in the cell. -/
def InCells (count w base : Nat) (f : Nat → List (Run Nat τ)) : Prop :=
  ∀ i < count, ∀ r ∈ f i, base + i * w ≤ r.lo ∧ r.hi ≤ base + i * w + w

theorem ascending_cells (hcells : InCells count w base f) (hf : ∀ i < count, Ascending (f i)) :
    Ascending ((List.range count).flatMap f) := by
  constructor
  · intro r hr
    obtain ⟨i, hi, hr⟩ := List.mem_flatMap.mp hr
    exact (hf i (List.mem_range.mp hi)).proper r hr
  · refine List.pairwise_flatMap.mpr ⟨fun i hi => (hf i (List.mem_range.mp hi)).before, ?_⟩
    refine List.pairwise_lt_range.imp_of_mem ?_
    intro i j hi hj hij a ha b hb
    obtain ⟨-, hhi⟩ := hcells i (List.mem_range.mp hi) a ha
    obtain ⟨hlo, -⟩ := hcells j (List.mem_range.mp hj) b hb
    have hmul : (i + 1) * w ≤ j * w := Nat.mul_le_mul_right w hij
    rw [Nat.succ_mul] at hmul
    exact le_trans hhi (le_trans (by omega) hlo)

/-- A point is covered by the intervals of its own cell only. -/
theorem covers_cells (hcells : InCells count w base f) {i x : Nat} {t : τ} (hi : i < count)
    (hlo : base + i * w ≤ x) (hhi : x < base + i * w + w) :
    Covers ((List.range count).flatMap f) x t ↔ Covers (f i) x t := by
  constructor
  · rintro ⟨r, hr, hx, ht⟩
    obtain ⟨j, hj, hr⟩ := List.mem_flatMap.mp hr
    obtain ⟨hrlo, hrhi⟩ := hcells j (List.mem_range.mp hj) r hr
    obtain ⟨hxlo, hxhi⟩ := hx
    have hij : i = j := by
      rcases lt_trichotomy i j with h | h | h
      · have hmul : (i + 1) * w ≤ j * w := Nat.mul_le_mul_right w h
        rw [Nat.succ_mul] at hmul
        omega
      · exact h
      · have hmul : (j + 1) * w ≤ i * w := Nat.mul_le_mul_right w h
        rw [Nat.succ_mul] at hmul
        omega
    exact ⟨r, hij ▸ hr, ⟨hxlo, hxhi⟩, ht⟩
  · rintro ⟨r, hr, hx, ht⟩
    exact ⟨r, List.mem_flatMap.mpr ⟨i, List.mem_range.mpr hi, hr⟩, hx, ht⟩

end Grid

end Lib
