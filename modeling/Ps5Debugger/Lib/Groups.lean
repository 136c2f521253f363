import Mathlib.Data.List.Nodup
import Mathlib.Data.List.Perm.Basic
import Mathlib.Logic.Function.Basic

/-!
# Grouping by a key

A map from keys to lists, and the keys in the order in which they came (`Grouped`); `add` puts a member into
the list of its key. `Groups g key l` says what has been put in: each key that occurs in `l`, once, with the
members of `l` that have it. So the groups together are `l` again (`Groups.perm`), and no two of them share a
member.
-/

namespace Lib

variable {κ α : Type} [DecidableEq κ]

structure Grouped (κ α : Type) where
  groups : κ → Option (List α)
  order : List κ

namespace Grouped

def empty : Grouped κ α := ⟨fun _ => none, []⟩

/-- `getOrPut(k) { order.add(k); mutableListOf() }.add(a)` -/
def add (g : Grouped κ α) (k : κ) (a : α) : Grouped κ α :=
  match g.groups k with
  | some list => ⟨Function.update g.groups k (some (list ++ [a])), g.order⟩
  | none => ⟨Function.update g.groups k (some [a]), g.order ++ [k]⟩

end Grouped

/-- The members of a list by their keys. -/
structure Groups (g : Grouped κ α) (key : α → κ) (l : List α) : Prop where
  nodup : g.order.Nodup
  mem_order : ∀ k, k ∈ g.order ↔ ∃ a ∈ l, key a = k
  groups : ∀ k, g.groups k = if k ∈ g.order then some (l.filter fun a => key a = k) else none

variable {g : Grouped κ α} {key : α → κ} {l : List α}

theorem groups_empty : Groups (Grouped.empty : Grouped κ α) key [] where
  nodup := .nil
  mem_order _ := ⟨nofun, nofun⟩
  groups _ := rfl

theorem Groups.add (h : Groups g key l) (a : α) : Groups (g.add (key a) a) key (l ++ [a]) := by
  have hfilter (k : κ) : (l ++ [a]).filter (fun b => key b = k) =
      if key a = k then l.filter (fun b => key b = k) ++ [a] else l.filter fun b => key b = k := by
    rw [List.filter_append, List.filter_singleton]
    split <;> simp_all
  by_cases hin : key a ∈ g.order
  · have hgroup := h.groups (key a)
    rw [if_pos hin] at hgroup
    rw [Grouped.add, hgroup]
    refine ⟨h.nodup, fun k => ?_, fun k => ?_⟩
    · rw [h.mem_order]
      constructor
      · rintro ⟨b, hb, rfl⟩
        exact ⟨b, List.mem_append_left _ hb, rfl⟩
      · rintro ⟨b, hb, rfl⟩
        rcases List.mem_append.mp hb with hb | hb
        · exact ⟨b, hb, rfl⟩
        · rw [List.mem_singleton.mp hb]
          exact (h.mem_order _).mp hin
    · dsimp only
      rw [hfilter]
      by_cases hk : key a = k
      · subst hk
        rw [Function.update_self, if_pos hin, if_pos rfl]
      · rw [Function.update_of_ne (Ne.symm hk), if_neg hk, h.groups]
  · have hgroup := h.groups (key a)
    rw [if_neg hin] at hgroup
    have hnone : l.filter (fun b => key b = key a) = [] := by
      refine List.filter_eq_nil_iff.mpr fun b hb heq => hin ?_
      exact (h.mem_order _).mpr ⟨b, hb, of_decide_eq_true heq⟩
    rw [Grouped.add, hgroup]
    refine ⟨List.nodup_append.mpr ⟨h.nodup, List.nodup_singleton _, ?_⟩, fun k => ?_, fun k => ?_⟩
    · rintro k hk k' hk' rfl
      exact hin (List.mem_singleton.mp hk' ▸ hk)
    · dsimp only
      rw [List.mem_append, h.mem_order, List.mem_singleton]
      constructor
      · rintro (⟨b, hb, rfl⟩ | rfl)
        · exact ⟨b, List.mem_append_left _ hb, rfl⟩
        · exact ⟨a, List.mem_append_right _ (List.mem_singleton.mpr rfl), rfl⟩
      · rintro ⟨b, hb, rfl⟩
        rcases List.mem_append.mp hb with hb | hb
        · exact .inl ⟨b, hb, rfl⟩
        · exact .inr (by rw [List.mem_singleton.mp hb])
    · dsimp only
      rw [hfilter]
      by_cases hk : key a = k
      · subst hk
        rw [Function.update_self, if_pos (List.mem_append_right _ (List.mem_singleton.mpr rfl)), if_pos rfl, hnone,
          List.nil_append]
      · have hmem : k ∈ g.order ++ [key a] ↔ k ∈ g.order := by
          rw [List.mem_append, List.mem_singleton]
          exact or_iff_left fun heq => hk heq.symm
        rw [Function.update_of_ne (Ne.symm hk), if_neg hk, h.groups]
        exact if_congr hmem.symm rfl rfl

/-- The group of a key that occurs. -/
theorem Groups.of_mem (h : Groups g key l) {k : κ} (hk : k ∈ g.order) :
    g.groups k = some (l.filter fun a => key a = k) := by
  rw [h.groups, if_pos hk]

/-- The lists of different keys, one after the other, hold every member whose key is among them. -/
theorem flatMap_filter_perm {ks : List κ} (hks : ks.Nodup) :
    (ks.flatMap fun k => l.filter fun a => key a = k).Perm (l.filter fun a => key a ∈ ks) := by
  induction ks with
  | nil =>
    rw [List.flatMap_nil, List.filter_eq_nil_iff.mpr]
    exact fun _ _ h => absurd (of_decide_eq_true h) List.not_mem_nil
  | cons k ks ih =>
    obtain ⟨hno, hks⟩ := List.nodup_cons.mp hks
    rw [List.flatMap_cons]
    refine ((ih hks).append_left _).trans ?_
    have hk : (l.filter fun a => key a ∈ k :: ks).filter (fun a => key a = k) = l.filter fun a => key a = k := by
      rw [List.filter_filter]
      refine List.filter_congr fun a _ => ?_
      by_cases ha : key a = k <;> simp [ha]
    have hrest : (l.filter fun a => key a ∈ k :: ks).filter (fun a => !decide (key a = k)) =
        l.filter fun a => key a ∈ ks := by
      rw [List.filter_filter]
      refine List.filter_congr fun a _ => ?_
      by_cases ha : key a = k
      · simp [ha, hno]
      · simp [ha]
    rw [← hk, ← hrest]
    exact List.filter_append_perm _ _

/-- The groups together are the list. -/
theorem Groups.perm (h : Groups g key l) : (g.order.flatMap fun k => l.filter fun a => key a = k).Perm l := by
  have hall : l.filter (fun a => key a ∈ g.order) = l :=
    List.filter_eq_self.mpr fun a ha => decide_eq_true ((h.mem_order _).mpr ⟨a, ha, rfl⟩)
  exact (flatMap_filter_perm h.nodup).trans (.of_eq hall)

end Lib
