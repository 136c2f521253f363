import Mathlib

/-!
# Sorting by exchanging

The sort with two loops: a pass takes one place and exchanges what is there with each later item that is smaller.
After the pass the place holds a smallest item; the items are the same ones. The sort is not stable.
-/

namespace Lib

variable {α β : Type} [LinearOrder β] {key : α → β}

/-- A pass: what the place holds in the end, and the items behind it. -/
def exchange (key : α → β) (a : α) : List α → α × List α
  | [] => (a, [])
  | b :: bs =>
    if key b < key a then ((exchange key b bs).1, a :: (exchange key b bs).2)
    else ((exchange key a bs).1, b :: (exchange key a bs).2)

/-- So many passes, for the places from the first on. -/
def exchangePasses (key : α → β) : Nat → List α → List α
  | 0, l => l
  | _, [] => []
  | n + 1, a :: as => (exchange key a as).1 :: exchangePasses key n (exchange key a as).2

/-- There is no pass for the last place. -/
def exchangeSort (key : α → β) (l : List α) : List α := exchangePasses key (l.length - 1) l

/-- A pass keeps the items. -/
theorem exchange_perm (a : α) (l : List α) : ((exchange key a l).1 :: (exchange key a l).2).Perm (a :: l) := by
  induction l generalizing a with
  | nil => exact List.Perm.refl _
  | cons b bs ih =>
    rw [exchange]
    split
    · exact (List.Perm.swap a _ _).trans ((ih b).cons a)
    · exact ((List.Perm.swap b _ _).trans ((ih a).cons b)).trans (List.Perm.swap a b bs)

/-- After a pass the place holds a smallest item. -/
theorem exchange_le (a : α) (l : List α) : ∀ b ∈ a :: l, key (exchange key a l).1 ≤ key b := by
  induction l generalizing a with
  | nil => simp [exchange]
  | cons b bs ih =>
    rw [exchange]
    split
    · next hlt =>
      obtain ⟨hb, hbs⟩ := List.forall_mem_cons.mp (ih b)
      exact List.forall_mem_cons.mpr ⟨hb.trans hlt.le, List.forall_mem_cons.mpr ⟨hb, hbs⟩⟩
    · next hnot =>
      obtain ⟨ha, hbs⟩ := List.forall_mem_cons.mp (ih a)
      exact List.forall_mem_cons.mpr ⟨ha, List.forall_mem_cons.mpr ⟨ha.trans (le_of_not_gt hnot), hbs⟩⟩

theorem length_exchange (a : α) (l : List α) : (exchange key a l).2.length = l.length :=
  Nat.succ_inj.mp (exchange_perm a l).length_eq

theorem exchangePasses_perm (n : Nat) (l : List α) : (exchangePasses key n l).Perm l := by
  induction n generalizing l with
  | zero => exact List.Perm.refl l
  | succ n ih =>
    cases l with
    | nil => exact List.Perm.refl _
    | cons a as => exact ((ih _).cons _).trans (exchange_perm a as)

theorem exchangeSort_perm (l : List α) : (exchangeSort key l).Perm l := exchangePasses_perm _ l

theorem exchangePasses_pairwise {n : Nat} {l : List α} (h : l.length ≤ n + 1) :
    (exchangePasses key n l).Pairwise fun a b => key a ≤ key b := by
  induction n generalizing l with
  | zero =>
    rw [exchangePasses]
    match l, h with
    | [], _ => exact List.Pairwise.nil
    | [a], _ => exact List.pairwise_singleton _ a
  | succ n ih =>
    cases l with
    | nil => exact List.Pairwise.nil
    | cons a as =>
      rw [exchangePasses, List.pairwise_cons]
      constructor
      · intro b hb
        have hrest : b ∈ (exchange key a as).2 := (exchangePasses_perm n _).mem_iff.mp hb
        exact exchange_le a as b ((exchange_perm a as).mem_iff.mp (List.mem_cons_of_mem _ hrest))
      · exact ih (by rw [length_exchange]; exact Nat.le_of_succ_le_succ h)

/-- The items come in the order of their keys. -/
theorem exchangeSort_pairwise (l : List α) : (exchangeSort key l).Pairwise fun a b => key a ≤ key b :=
  exchangePasses_pairwise (by omega)

end Lib
