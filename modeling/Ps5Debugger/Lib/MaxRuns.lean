import Mathlib.Data.List.Basic
import Mathlib.Order.Basic
import Mathlib.Order.Nat

/-!
# Maximal runs

A scan of a list for the runs of members with a property, which gives out something at the end of each run
(`scanRuns`). What it gives out is what belongs to the maximal runs (`mem_scanRuns`), and these lie apart
(`MaxRun.apart`).
-/

namespace Lib

variable {α β : Type} {inRun : α → Bool} {emit : Nat → Nat → Option α → List β} {l pre : List α} {b : β}
  {i s s' e e' : Nat}

/-- What is given out at the end of the run that started at `start`, if there is one. -/
def endRun (emit : Nat → Nat → Option α → List β) (i : Nat) (next : Option α) : Option Nat → List β
  | some s => emit s i next
  | none => []

/-- A scan behind `i` members, in a run that started at `start` if there is one. At the end of a run `emit` gets where
it starts and ends, and the member behind it. -/
def scanRuns (inRun : α → Bool) (emit : Nat → Nat → Option α → List β) (i : Nat) (start : Option Nat) : List α → List β
  | [] => endRun emit i none start
  | a :: l =>
    if inRun a then scanRuns inRun emit (i + 1) (some (start.getD i)) l
    else endRun emit i (some a) start ++ scanRuns inRun emit (i + 1) none l

/-- A member with the property is there. -/
def HasAt (inRun : α → Bool) (l : List α) (i : Nat) : Prop := ∃ a, l[i]? = some a ∧ inRun a = true

/-- The members from `s` up to `e` have the property, and those at both sides do not. -/
structure MaxRun (inRun : α → Bool) (l : List α) (s e : Nat) : Prop where
  lt : s < e
  all : ∀ i, s ≤ i → i < e → HasAt inRun l i
  before : ∀ i, i + 1 = s → ¬ HasAt inRun l i
  after : ¬ HasAt inRun l e

namespace MaxRun

theorem le_length (h : MaxRun inRun l s e) : e ≤ l.length := by
  have hlt := h.lt
  obtain ⟨a, ha, -⟩ := h.all (e - 1) (by omega) (by omega)
  obtain ⟨hin, -⟩ := List.getElem?_eq_some_iff.mp ha
  omega

theorem end_eq (h : MaxRun inRun l s e) (h' : MaxRun inRun l s e') : e = e' := by
  rcases Nat.lt_trichotomy e e' with hlt | heq | hlt
  · exact absurd (h'.all e (le_of_lt h.lt) hlt) h.after
  · exact heq
  · exact absurd (h.all e' (le_of_lt h'.lt) hlt) h'.after

/-- Two maximal runs are the same, or something lies between them. -/
theorem apart (h : MaxRun inRun l s e) (h' : MaxRun inRun l s' e') : s = s' ∧ e = e' ∨ e < s' ∨ e' < s := by
  have hmix {s e s' e' : Nat} (h : MaxRun inRun l s e) (h' : MaxRun inRun l s' e') (hlt : s < s') : e < s' := by
    by_contra hle
    have hbefore := h'.before (s' - 1) (by omega)
    exact hbefore (h.all _ (by omega) (by omega))
  rcases Nat.lt_trichotomy s s' with hlt | rfl | hlt
  · exact .inr (.inl (hmix h h' hlt))
  · exact .inl ⟨rfl, h.end_eq h'⟩
  · exact .inr (.inr (hmix h' h hlt))

end MaxRun

/-- Behind a member without the property: the run that ends there, and the runs that start later. -/
theorem exists_run_iff {start : Option Nat} (hstart : ∀ s, start = some s → s < i)
    (hall : ∀ k, start.getD i ≤ k → k < i → HasAt inRun l k) (hbefore : ∀ k, k + 1 = start.getD i → ¬ HasAt inRun l k)
    (hno : ¬ HasAt inRun l i) :
    (∃ s e, MaxRun inRun l s e ∧ start.getD i ≤ s ∧ b ∈ emit s e l[e]?) ↔
      b ∈ endRun emit i l[i]? start ∨ ∃ s e, MaxRun inRun l s e ∧ i + 1 ≤ s ∧ b ∈ emit s e l[e]? := by
  cases start with
  | none =>
    rw [endRun, or_iff_right List.not_mem_nil, Option.getD_none]
    constructor
    · rintro ⟨s, e, hrun, hle, hb⟩
      rcases Nat.eq_or_lt_of_le hle with rfl | hlt
      · exact absurd (hrun.all i (le_refl _) hrun.lt) hno
      · exact ⟨s, e, hrun, hlt, hb⟩
    · rintro ⟨s, e, hrun, hle, hb⟩
      exact ⟨s, e, hrun, Nat.le_of_succ_le hle, hb⟩
  | some s =>
    have hrun : MaxRun inRun l s i := ⟨hstart s rfl, hall, hbefore, hno⟩
    rw [endRun, Option.getD_some]
    constructor
    · rintro ⟨s', e, hrun', hle, hb⟩
      have hlt' := hrun'.lt
      rcases hrun.apart hrun' with ⟨rfl, rfl⟩ | hsep | hsep
      · exact .inl hb
      · exact .inr ⟨s', e, hrun', hsep, hb⟩
      · omega
    · rintro (hb | ⟨s', e, hrun', hle, hb⟩)
      · exact ⟨s, i, hrun, le_refl _, hb⟩
      · have := hrun.lt
        exact ⟨s', e, hrun', by omega, hb⟩

/-- What the scan gives out behind some members: what belongs to the maximal runs from the one it is in. -/
theorem mem_scanRuns_from {start : Option Nat} (hi : i = pre.length) (hstart : ∀ s, start = some s → s < i)
    (hall : ∀ k, start.getD i ≤ k → k < i → HasAt inRun (pre ++ l) k)
    (hbefore : ∀ k, k + 1 = start.getD i → ¬ HasAt inRun (pre ++ l) k) :
    b ∈ scanRuns inRun emit i start l ↔
      ∃ s e, MaxRun inRun (pre ++ l) s e ∧ start.getD i ≤ s ∧ b ∈ emit s e (pre ++ l)[e]? := by
  induction l generalizing pre i start with
  | nil =>
    have hnone : (pre ++ [])[i]? = none := by rw [List.append_nil, hi, List.getElem?_eq_none (le_refl _)]
    have hend : ¬ HasAt inRun (pre ++ []) i := by
      rintro ⟨a, ha, -⟩
      rw [hnone] at ha
      cases ha
    have hlater : ¬ ∃ s e, MaxRun inRun (pre ++ []) s e ∧ i + 1 ≤ s ∧ b ∈ emit s e (pre ++ [])[e]? := by
      rintro ⟨s, e, hrun, hle, -⟩
      have hlen := hrun.le_length
      have hlt := hrun.lt
      rw [List.append_nil, ← hi] at hlen
      omega
    rw [scanRuns, exists_run_iff hstart hall hbefore hend, hnone, or_iff_left hlater]
  | cons a l ih =>
    have hget : (pre ++ a :: l)[i]? = some a := by rw [hi]; simp
    have happend : pre ++ a :: l = (pre ++ [a]) ++ l := by rw [List.append_assoc, List.singleton_append]
    rw [scanRuns]
    by_cases ha : inRun a = true
    · -- the run goes on, or starts here
      have hle : start.getD i ≤ i := by
        cases start with
        | none => exact le_refl _
        | some s => exact le_of_lt (hstart s rfl)
      have hrest := @ih (pre ++ [a]) (i + 1) (some (start.getD i)) (by simp [hi])
        (fun s hs => by obtain rfl := Option.some.inj hs; omega)
        (fun k hlo hhi => by
          rw [← happend]
          rcases Nat.lt_succ_iff_lt_or_eq.mp hhi with hlt | rfl
          · exact hall k hlo hlt
          · exact ⟨a, hget, ha⟩)
        (fun k hk => happend ▸ hbefore k hk)
      rw [← happend, Option.getD_some] at hrest
      rw [if_pos ha]
      exact hrest
    · -- a run that was there ends here
      have hno : ¬ HasAt inRun (pre ++ a :: l) i := by
        rintro ⟨a', ha', hin⟩
        rw [hget] at ha'
        obtain rfl := Option.some.inj ha'
        exact ha hin
      have hrest := @ih (pre ++ [a]) (i + 1) none (by simp [hi]) nofun
        (fun k hlo hhi => absurd hhi (Nat.not_lt.mpr hlo))
        (fun k hk => by rw [← happend, Nat.succ.inj hk]; exact hno)
      rw [← happend, Option.getD_none] at hrest
      rw [if_neg ha, List.mem_append, hrest, exists_run_iff hstart hall hbefore hno, hget]

theorem mem_scanRuns :
    b ∈ scanRuns inRun emit 0 none l ↔ ∃ s e, MaxRun inRun l s e ∧ b ∈ emit s e l[e]? := by
  have h := @mem_scanRuns_from _ _ inRun emit l [] b 0 none rfl nofun (fun k _ hlt => absurd hlt (Nat.not_lt_zero k))
    (fun k hk => absurd hk (Nat.succ_ne_zero k))
  simpa only [List.nil_append, Option.getD_none, Nat.zero_le, true_and] using h

end Lib
