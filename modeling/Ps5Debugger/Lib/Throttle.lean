import Mathlib.Data.List.Basic

/-!
# Throttled sequences

`throttle step next` lets a number of an ascending sequence through when it has reached `next`, and waits for `step`
more from there. What it lets through is paced, and no paced choice from the sequence is longer
(`Paced.length_le_throttle`).
-/

namespace Lib

def throttle (step : Nat) : Nat → List Nat → List Nat
  | _, [] => []
  | next, i :: rest => if next ≤ i then i :: throttle step (i + step) rest else throttle step next rest

/-- Each number is at least `step` behind the one before, and the first at least at `next`. -/
def Paced (step : Nat) : Nat → List Nat → Prop
  | _, [] => True
  | next, i :: rest => next ≤ i ∧ Paced step (i + step) rest

variable {step next n : Nat} {l c : List Nat}

theorem Paced.mono {next' : Nat} (h : Paced step next c) (hle : next' ≤ next) : Paced step next' c := by
  cases c with
  | nil => trivial
  | cons i c => exact ⟨Nat.le_trans hle h.1, h.2⟩

theorem Paced.take (h : Paced step next c) (k : Nat) : Paced step next (c.take k) := by
  induction c generalizing next k with
  | nil => rw [List.take_nil]; trivial
  | cons i c ih =>
    cases k with
    | zero => trivial
    | succ k => exact ⟨h.1, ih h.2 k⟩

theorem throttle_sublist : (throttle step next l).Sublist l := by
  induction l generalizing next with
  | nil => exact List.Sublist.slnil
  | cons i l ih =>
    rw [throttle]
    split
    · exact ih.cons_cons i
    · exact ih.cons i

theorem paced_throttle : Paced step next (throttle step next l) := by
  induction l generalizing next with
  | nil => trivial
  | cons i l ih =>
    rw [throttle]
    split
    · rename_i hle
      exact ⟨hle, ih⟩
    · exact ih

/-- Letting through what comes first leaves most room for the rest. -/
theorem Paced.length_le_throttle (hc : Paced step next c) (hl : l.Pairwise (· < ·)) (hsub : c.Sublist l) :
    c.length ≤ (throttle step next l).length := by
  induction l generalizing next c with
  | nil =>
    rw [List.sublist_nil.mp hsub]
    exact Nat.le_refl _
  | cons i l ih =>
    obtain ⟨hbehind, hl'⟩ := List.pairwise_cons.mp hl
    rw [throttle]
    cases hsub with
    | cons _ hsub =>
      split
      · cases c with
        | nil => exact Nat.zero_le _
        | cons j c =>
          have hij := hbehind j (hsub.subset List.mem_cons_self)
          have := ih (hc.2.mono (show i + step ≤ j + step by omega)) hl' ((List.sublist_cons_self j c).trans hsub)
          rw [List.length_cons, List.length_cons]
          omega
      · exact ih hc hl' hsub
    | cons_cons _ hsub =>
      rw [if_pos hc.1, List.length_cons, List.length_cons]
      exact Nat.succ_le_succ (ih hc.2 hl' hsub)

/-- A throttle lets through more than `k` numbers when as many can be chosen. -/
theorem length_throttle_le_iff {k : Nat} (hl : l.Pairwise (· < ·)) :
    (throttle step next l).length ≤ k ↔ ¬ ∃ c : List Nat, c.Sublist l ∧ c.length = k + 1 ∧ Paced step next c := by
  constructor
  · rintro hle ⟨c, hsub, hlen, hc⟩
    have := hc.length_le_throttle hl hsub
    omega
  · intro hno
    by_contra hlt
    refine hno ⟨(throttle step next l).take (k + 1), (List.take_sublist _ _).trans throttle_sublist, ?_,
      paced_throttle.take _⟩
    rw [List.length_take]
    omega

end Lib
