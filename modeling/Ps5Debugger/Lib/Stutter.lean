import Mathlib.Data.List.Induction
import Mathlib.Data.List.Nodup
import Mathlib.Order.Basic

/-!
# Lists that grow by what is new at the end

A list that takes an element only if it does not already end with it (`pushNew`). What is pushed one after the
other is in the list once each exactly if nothing comes back after something else (`nodup_pushAll_iff`), as in a
list that is in order (`noReturn_of_sorted`).
-/

namespace Lib

variable {α : Type*} {l m : List α} {a b : α}

/-- Nothing comes back after something else. -/
def NoReturn (l : List α) : Prop := ∀ a b, a ≠ b → ¬ [a, b, a].Sublist l

theorem NoReturn.sublist (h : NoReturn l) (hsub : m.Sublist l) : NoReturn m :=
  fun a b hab hreturn => h a b hab (hreturn.trans hsub)

theorem noReturn_of_sorted [PartialOrder α] (h : l.Pairwise (· ≤ ·)) : NoReturn l := by
  intro a b hab hreturn
  have hsorted := h.sublist hreturn
  simp only [List.pairwise_cons, List.mem_cons, List.not_mem_nil, or_false] at hsorted
  exact hab (le_antisymm (hsorted.1 b (.inl rfl)) (hsorted.2.1 a rfl))

theorem concat_sublist_concat (h : (m ++ [b]).Sublist (l ++ [a])) :
    (m ++ [b]).Sublist l ∨ b = a ∧ m.Sublist l := by
  obtain ⟨s, t, hst, hs, ht⟩ := List.sublist_append_iff.mp h
  rcases List.sublist_singleton.mp ht with rfl | rfl
  · rw [List.append_nil] at hst
    exact .inl (hst ▸ hs)
  · obtain ⟨rfl, hba⟩ := List.append_inj' hst rfl
    exact .inr ⟨List.singleton_inj.mp hba, hs⟩

/-- A last element that is the one before it changes nothing, and another must be new. -/
theorem noReturn_concat : NoReturn (l ++ [a]) ↔ NoReturn l ∧ (l.getLast? = some a ∨ a ∉ l) := by
  constructor
  · intro h
    refine ⟨h.sublist (List.sublist_append_left l [a]), ?_⟩
    by_contra hback
    obtain ⟨hlast, hmem⟩ := not_or.mp hback
    rw [not_not] at hmem
    obtain ⟨front, c, rfl⟩ := (List.eq_nil_or_concat' l).resolve_left (List.ne_nil_of_mem hmem)
    have hac : a ≠ c := fun hac => hlast (by rw [hac, List.getLast?_concat])
    have hfront : a ∈ front := (List.mem_append.mp hmem).resolve_right fun hc => hac (List.mem_singleton.mp hc)
    exact h a c hac (((List.singleton_sublist.mpr hfront).append (List.Sublist.refl [c])).append
      (List.Sublist.refl [a]))
  · rintro ⟨h, hback⟩ c b hcb hreturn
    -- what comes back comes back with the last element
    obtain ⟨rfl, hpair⟩ := (concat_sublist_concat (m := [c, b]) hreturn).resolve_left (h c b hcb)
    rcases hback with hlast | hnew
    · obtain ⟨front, rfl⟩ := List.getLast?_eq_some_iff.mp hlast
      have hfront := (concat_sublist_concat (m := [c]) hpair).resolve_right fun hb => hcb hb.1.symm
      exact h c b hcb (hfront.append (List.Sublist.refl [c]))
    · exact hnew (hpair.subset List.mem_cons_self)

variable [DecidableEq α]

/-- The list with one more element, if it does not end with it. -/
def pushNew (l : List α) (a : α) : List α := if l.getLast? = some a then l else l ++ [a]

/-- All of a list pushed, one after the other. -/
def pushAll (l : List α) : List α := l.foldl pushNew []

theorem pushAll_concat (l : List α) (a : α) : pushAll (l ++ [a]) = pushNew (pushAll l) a := by
  rw [pushAll, List.foldl_append]
  rfl

theorem getLast?_pushAll (l : List α) : (pushAll l).getLast? = l.getLast? := by
  induction l using List.reverseRecOn with
  | nil => rfl
  | append_singleton l a =>
    rw [pushAll_concat, pushNew, List.getLast?_concat]
    split
    · assumption
    · exact List.getLast?_concat

theorem mem_pushAll : a ∈ pushAll l ↔ a ∈ l := by
  induction l using List.reverseRecOn with
  | nil => rfl
  | append_singleton l b ih =>
    rw [pushAll_concat, pushNew, List.mem_append, ← ih, List.mem_singleton]
    split
    · rename_i hlast
      exact ⟨.inl, fun h => h.elim id fun hb => hb ▸ List.mem_of_getLast? hlast⟩
    · rw [List.mem_append, List.mem_singleton]

/-- Each is in the list once exactly if nothing comes back. -/
theorem nodup_pushAll_iff : (pushAll l).Nodup ↔ NoReturn l := by
  induction l using List.reverseRecOn with
  | nil => exact ⟨fun _ _ _ _ hreturn => (List.cons_ne_nil _ _ (List.sublist_nil.mp hreturn)).elim, fun _ => .nil⟩
  | append_singleton l a ih =>
    rw [pushAll_concat, pushNew, noReturn_concat, ← ih, getLast?_pushAll]
    split
    · rename_i hlast
      rw [and_iff_left (.inl hlast)]
    · rename_i hlast
      rw [List.nodup_append, or_iff_right hlast, ← mem_pushAll]
      refine and_congr_right fun _ => ⟨fun h ha => h.2 a ha a (List.mem_singleton.mpr rfl) rfl, fun ha => ?_⟩
      refine ⟨List.nodup_singleton a, fun b hb c hc hbc => ha ?_⟩
      rwa [← List.mem_singleton.mp hc, ← hbc]

end Lib
