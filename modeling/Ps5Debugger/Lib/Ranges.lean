import Mathlib.Data.List.Basic
import Mathlib.Data.List.Perm.Basic

/-!
# Ranges of memory

What an allocator keeps true: the ranges it knows of, handed out or not, do not meet and lie in
mapped memory (`Packed`). An allocator changes the list of ranges by taking the front off one
(`packed_split`), by moving one (`Packed.perm`) or by forgetting some (`Packed.sublist`); the
operating system adds a range that nothing was mapped in (`Packed.map_fresh`) or takes one away
(`packed_unmap`).
-/

namespace Lib

/-- The addresses from `start` on, `size` of them. -/
structure Range where
  start : Nat
  size : Nat
deriving DecidableEq, Repr

/-- `x` lies in the range. -/
def Range.Has (r : Range) (x : Nat) : Prop := r.start ≤ x ∧ x < r.start + r.size

instance (r : Range) (x : Nat) : Decidable (r.Has x) := inferInstanceAs (Decidable (_ ∧ _))

/-- Two ranges that do not meet. -/
def Separate (r s : Range) : Prop := ∀ x, r.Has x → ¬ s.Has x

theorem Separate.symm {r s : Range} (h : Separate r s) : Separate s r := fun x hs hr => h x hr hs

/-- Every address of the range is mapped. -/
def Inside (mapped : Nat → Bool) (r : Range) : Prop := ∀ x, r.Has x → mapped x = true

/-- Mapped memory with one more range. -/
def mapRange (mapped : Nat → Bool) (r : Range) : Nat → Bool := fun x => mapped x || decide (r.Has x)

/-- Mapped memory without a range. -/
def unmapRange (mapped : Nat → Bool) (r : Range) : Nat → Bool := fun x => mapped x && !decide (r.Has x)

theorem mapRange_iff {mapped : Nat → Bool} {r : Range} {x : Nat} :
    mapRange mapped r x = true ↔ mapped x = true ∨ r.Has x := by
  simp [mapRange]

theorem unmapRange_iff {mapped : Nat → Bool} {r : Range} {x : Nat} :
    unmapRange mapped r x = true ↔ mapped x = true ∧ ¬ r.Has x := by
  simp [unmapRange]

/-- Ranges that do not meet and are mapped. -/
structure Packed (mapped : Nat → Bool) (l : List Range) : Prop where
  separate : l.Pairwise Separate
  inside : ∀ r ∈ l, Inside mapped r

variable {mapped mapped' : Nat → Bool} {l l' : List Range} {r : Range}

theorem Packed.perm (h : Packed mapped l) (hp : l.Perm l') : Packed mapped l' :=
  ⟨(hp.pairwise_iff Separate.symm).mp h.separate, fun r hr => h.inside r (hp.mem_iff.mpr hr)⟩

theorem packed_perm (hp : l.Perm l') : Packed mapped l ↔ Packed mapped l' :=
  ⟨fun h => h.perm hp, fun h => h.perm hp.symm⟩

theorem Packed.sublist (h : Packed mapped l) (hs : l'.Sublist l) : Packed mapped l' :=
  ⟨h.separate.sublist hs, fun r hr => h.inside r (hs.subset hr)⟩

theorem packed_nil (mapped : Nat → Bool) : Packed mapped [] := ⟨.nil, by simp⟩

theorem packed_cons :
    Packed mapped (r :: l) ↔ Inside mapped r ∧ (∀ s ∈ l, Separate r s) ∧ Packed mapped l := by
  constructor
  · rintro ⟨hsep, hin⟩
    obtain ⟨hr, hl⟩ := List.pairwise_cons.mp hsep
    exact ⟨hin r List.mem_cons_self, hr, hl, fun s hs => hin s (List.mem_cons_of_mem r hs)⟩
  · rintro ⟨hr, hsep, hl⟩
    refine ⟨List.pairwise_cons.mpr ⟨hsep, hl.separate⟩, fun s hs => ?_⟩
    rcases List.mem_cons.mp hs with rfl | hs
    · exact hr
    · exact hl.inside s hs

theorem Packed.of_cons (h : Packed mapped (r :: l)) : Packed mapped l := (packed_cons.mp h).2.2

/-- An empty range can be left out. -/
theorem packed_empty (hr : r.size = 0) : Packed mapped (r :: l) ↔ Packed mapped l := by
  have hno : ∀ x, ¬ r.Has x := by
    rintro x ⟨hlo, hhi⟩
    omega
  rw [packed_cons]
  exact ⟨fun h => h.2.2, fun h => ⟨fun x hx => absurd hx (hno x), fun s _ x hx => absurd hx (hno x), h⟩⟩

theorem packed_append_empty (h : Packed mapped l) (hl : ∀ r ∈ l', r.size = 0) : Packed mapped (l ++ l') := by
  refine Packed.perm ?_ List.perm_append_comm
  induction l' with
  | nil => exact h
  | cons r l' ih =>
    rw [List.cons_append, packed_empty (hl r List.mem_cons_self)]
    exact ih fun t ht => hl t (List.mem_cons_of_mem r ht)

/-- A range, cut in two. -/
theorem packed_split {a n k : Nat} :
    Packed mapped (⟨a, n + k⟩ :: l) ↔ Packed mapped (⟨a, n⟩ :: ⟨a + n, k⟩ :: l) := by
  have hhas : ∀ x, (⟨a, n + k⟩ : Range).Has x ↔ (⟨a, n⟩ : Range).Has x ∨ (⟨a + n, k⟩ : Range).Has x := by
    intro x
    simp only [Range.Has]
    omega
  have hapart : Separate ⟨a, n⟩ ⟨a + n, k⟩ := by
    rintro x ⟨_, hhi⟩ ⟨hlo, _⟩
    simp only at hhi hlo
    omega
  simp only [packed_cons, List.mem_cons, forall_eq_or_imp, Inside, Separate, hhas]
  constructor
  · rintro ⟨hin, hsep, hl⟩
    exact ⟨fun x hx => hin x (.inl hx), ⟨hapart, fun s hs x hx => hsep s hs x (.inl hx)⟩,
      fun x hx => hin x (.inr hx), fun s hs x hx => hsep s hs x (.inr hx), hl⟩
  · rintro ⟨hin, ⟨-, hsep⟩, hin', hsep', hl⟩
    exact ⟨fun x hx => hx.elim (hin x) (hin' x),
      fun s hs x hx => hx.elim (hsep s hs x) (hsep' s hs x), hl⟩

/-- More memory is mapped. -/
theorem Packed.mono (h : Packed mapped l) (hm : ∀ x, mapped x = true → mapped' x = true) :
    Packed mapped' l :=
  ⟨h.separate, fun r hr x hx => hm x (h.inside r hr x hx)⟩

/-- A range in which nothing was mapped meets no range that is. -/
theorem Packed.map_fresh (h : Packed mapped l) (hfresh : ∀ x, r.Has x → mapped x = false) :
    Packed (mapRange mapped r) (r :: l) := by
  refine packed_cons.mpr ⟨fun x hx => mapRange_iff.mpr (.inr hx), fun s hs x hx hsx => ?_,
    h.mono fun x hx => mapRange_iff.mpr (.inl hx)⟩
  have := h.inside s hs x hsx
  rw [hfresh x hx] at this
  cases this

/-- Unmapping a range is harmless exactly when no range meets it. -/
theorem packed_unmap (h : Packed mapped l) :
    Packed (unmapRange mapped r) l ↔ ∀ s ∈ l, Separate r s := by
  constructor
  · intro hu s hs x hx hsx
    exact (unmapRange_iff.mp (hu.inside s hs x hsx)).2 hx
  · intro hsep
    exact ⟨h.separate, fun s hs x hx =>
      unmapRange_iff.mpr ⟨h.inside s hs x hx, fun hrx => hsep s hs x hrx hx⟩⟩

end Lib
