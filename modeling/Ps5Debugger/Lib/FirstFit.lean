import Mathlib

/-!
# First fit

Members are placed one after the other, each on the first track on which it clashes with nothing that is there. Members
on one track do not clash (`apart_placeAll`), and a member is not on a lower track because one that was placed before it, and
clashes with it, is there (`blocked_placeAll`).
-/

namespace Lib

namespace FirstFit

variable {α : Type} (clash : α → α → Bool)

/-- Nothing on the track clashes with the member. -/
def Fits (placed : List (α × Nat)) (a : α) (track : Nat) : Prop := ∀ p ∈ placed, p.2 = track → clash a p.1 = false

instance (placed : List (α × Nat)) (a : α) (track : Nat) : Decidable (Fits clash placed a track) :=
  inferInstanceAs (Decidable (∀ p ∈ placed, p.2 = track → clash a p.1 = false))

/-- Above all tracks there is room. -/
theorem exists_fits (placed : List (α × Nat)) (a : α) : ∃ track, Fits clash placed a track := by
  obtain ⟨top, htop⟩ : ∃ n, n ∉ placed.map (·.2) :=
    (Infinite.exists_notMem_finset (placed.map (·.2)).toFinset).imp fun n hn => by simpa using hn
  exact ⟨top, fun p hp heq => absurd (List.mem_map.mpr ⟨p, hp, heq⟩) htop⟩

/-- The tracks are tried from the lowest. -/
def firstFit (placed : List (α × Nat)) (a : α) : Nat := Nat.find (exists_fits clash placed a)

theorem fits_firstFit (placed : List (α × Nat)) (a : α) : Fits clash placed a (firstFit clash placed a) :=
  Nat.find_spec (exists_fits clash placed a)

theorem exists_of_lt_firstFit {placed : List (α × Nat)} {a : α} {track : Nat} (h : track < firstFit clash placed a) :
    ∃ p ∈ placed, p.2 = track ∧ clash a p.1 = true := by
  have hno : ¬ Fits clash placed a track := Nat.find_min (exists_fits clash placed a) h
  rw [Fits] at hno
  push Not at hno
  obtain ⟨p, hp, heq, hclash⟩ := hno
  exact ⟨p, hp, heq, by simpa using hclash⟩

/-- None clashes with another one on its track. -/
def Apart (placed : List (α × Nat)) : Prop :=
  ∀ p ∈ placed, ∀ q ∈ placed, p.1 ≠ q.1 → clash p.1 q.1 = true → p.2 ≠ q.2

variable [DecidableEq α]

/-- A member that is placed again is no longer where it was. -/
def place (placed : List (α × Nat)) (a : α) : List (α × Nat) :=
  (a, firstFit clash placed a) :: placed.filter (·.1 ≠ a)

def placeAll (l : List α) : List (α × Nat) := l.foldl (place clash) []

variable {clash} {placed : List (α × Nat)} {a b : α} {l : List α}

theorem mem_place {p : α × Nat} :
    p ∈ place clash placed a ↔ p = (a, firstFit clash placed a) ∨ p ∈ placed ∧ p.1 ≠ a := by
  rw [place, List.mem_cons, List.mem_filter, decide_eq_true_iff]

theorem nodup_place (h : (placed.map (·.1)).Nodup) : ((place clash placed a).map (·.1)).Nodup := by
  rw [place, List.map_cons, List.nodup_cons]
  refine ⟨fun hmem => ?_, h.sublist (List.filter_sublist.map _)⟩
  obtain ⟨p, hp, heq⟩ := List.mem_map.mp hmem
  exact of_decide_eq_true (List.mem_filter.mp hp).2 heq

theorem nodup_placeAll (l : List α) : ((placeAll clash l).map (·.1)).Nodup := by
  induction l using List.reverseRecOn with
  | nil => exact .nil
  | append_singleton l a ih =>
    rw [placeAll, List.foldl_append]
    exact nodup_place ih

theorem apart_place (hsymm : ∀ a b, clash a b = clash b a) (h : Apart clash placed) :
    Apart clash (place clash placed a) := by
  intro p hp q hq hne hclash
  have hfits := fits_firstFit clash placed a
  rcases mem_place.mp hp with rfl | ⟨hp, -⟩
  · rcases mem_place.mp hq with rfl | ⟨hq, -⟩
    · exact absurd rfl hne
    · intro heq
      exact Bool.false_ne_true ((hfits q hq heq.symm).symm.trans hclash)
  · rcases mem_place.mp hq with rfl | ⟨hq, -⟩
    · intro heq
      rw [hsymm] at hclash
      exact Bool.false_ne_true ((hfits p hp heq).symm.trans hclash)
    · exact h p hp q hq hne hclash

theorem apart_placeAll (hsymm : ∀ a b, clash a b = clash b a) (l : List α) : Apart clash (placeAll clash l) := by
  induction l using List.reverseRecOn with
  | nil => exact fun p hp => absurd hp List.not_mem_nil
  | append_singleton l a ih =>
    rw [placeAll, List.foldl_append]
    exact apart_place hsymm ih

theorem mem_map_placeAll : b ∈ (placeAll clash l).map (·.1) ↔ b ∈ l := by
  induction l using List.reverseRecOn with
  | nil => rfl
  | append_singleton l a ih =>
    rw [placeAll, List.foldl_append, List.foldl_cons, List.foldl_nil, List.mem_append, List.mem_singleton, ← ih,
      ← placeAll]
    simp only [List.mem_map, mem_place]
    constructor
    · rintro ⟨p, rfl | ⟨hp, -⟩, rfl⟩
      · exact .inr rfl
      · exact .inl ⟨p, hp, rfl⟩
    · rintro (⟨p, hp, rfl⟩ | rfl)
      · by_cases heq : p.1 = a
        · exact ⟨_, .inl rfl, heq.symm⟩
        · exact ⟨p, .inr ⟨hp, heq⟩, rfl⟩
      · exact ⟨_, .inl rfl, rfl⟩

/-- What is placed stays, until it is placed again. -/
theorem mem_foldl_of_not_mem {p : α × Nat} (hno : p.1 ∉ l) (hp : p ∈ placed) : p ∈ l.foldl (place clash) placed := by
  induction l generalizing placed with
  | nil => exact hp
  | cons a l ih =>
    obtain ⟨hne, hno⟩ := List.ne_and_not_mem_of_not_mem_cons hno
    exact ih hno (mem_place.mpr (.inr ⟨hp, hne⟩))

/-- **Why a member is not lower**: on each track below it there is one that clashes with it and came before it. -/
theorem blocked_placeAll (hnodup : l.Nodup) {before after : List α} (hl : l = before ++ a :: after) {track n : Nat}
    (ha : (a, n) ∈ placeAll clash l) (hlt : track < n) :
    ∃ b ∈ before, clash a b = true ∧ (b, track) ∈ placeAll clash l := by
  subst hl
  obtain ⟨-, htail, hdisjoint⟩ := List.nodup_append.mp hnodup
  obtain ⟨hno, -⟩ := List.nodup_cons.mp htail
  have hkeys := @nodup_placeAll _ clash _ (before ++ a :: after)
  have hall : placeAll clash (before ++ a :: after) =
      after.foldl (place clash) (place clash (placeAll clash before) a) := by
    rw [placeAll, List.foldl_append, List.foldl_cons, placeAll]
  rw [hall] at ha hkeys ⊢
  have hself : (a, firstFit clash (placeAll clash before) a) ∈
      after.foldl (place clash) (place clash (placeAll clash before) a) :=
    mem_foldl_of_not_mem hno (mem_place.mpr (.inl rfl))
  obtain rfl : n = firstFit clash (placeAll clash before) a :=
    (Prod.ext_iff.mp (List.inj_on_of_nodup_map hkeys ha hself rfl)).2
  obtain ⟨p, hp, rfl, hclash⟩ := exists_of_lt_firstFit clash hlt
  have hmem : p.1 ∈ before := mem_map_placeAll.mp (List.mem_map_of_mem hp)
  have hlater (x : α) (hx : x ∈ a :: after) : p.1 ≠ x := fun heq => hdisjoint p.1 hmem x hx heq
  refine ⟨p.1, hmem, hclash, mem_foldl_of_not_mem (fun hx => hlater _ (List.mem_cons_of_mem _ hx) rfl) ?_⟩
  exact mem_place.mpr (.inr ⟨hp, hlater a List.mem_cons_self⟩)

end FirstFit

end Lib
