import Mathlib.Data.List.Basic
import Mathlib.Logic.Relation

/-!
# What a search of a graph finds

A graph by the list of its edges, and a search that goes over it breadth first: the nodes that are seen, and those of
them whose edges are still to be followed. What is found are the nodes that a path leads to (`mem_search`).
-/

namespace Lib

variable {α : Type} [DecidableEq α] {edges : List (α × α)} {seen q : List α} {u x y : α}

/-- The ends of the edges from a node. -/
def targetsOf (edges : List (α × α)) (u : α) : List α := (edges.filter fun e => e.1 = u).map (·.2)

/-- Those that are not seen yet, each once. -/
def unseen (seen : List α) : List α → List α
  | [] => []
  | t :: ts => if t ∈ seen then unseen seen ts else t :: unseen (t :: seen) ts

theorem mem_targetsOf : y ∈ targetsOf edges u ↔ (u, y) ∈ edges := by
  rw [targetsOf, List.mem_map]
  constructor
  · rintro ⟨e, he, rfl⟩
    obtain ⟨hmem, hfrom⟩ := List.mem_filter.mp he
    obtain rfl := of_decide_eq_true hfrom
    exact hmem
  · intro hmem
    exact ⟨_, List.mem_filter.mpr ⟨hmem, decide_eq_true rfl⟩, rfl⟩

theorem mem_unseen {ts : List α} : y ∈ unseen seen ts ↔ y ∈ ts ∧ y ∉ seen := by
  induction ts generalizing seen with
  | nil => simp [unseen]
  | cons t ts ih =>
    rw [unseen]
    split
    · rename_i ht
      rw [ih, List.mem_cons]
      constructor
      · rintro ⟨hmem, hno⟩
        exact ⟨.inr hmem, hno⟩
      · rintro ⟨rfl | hmem, hno⟩
        · exact absurd ht hno
        · exact ⟨hmem, hno⟩
    · rename_i ht
      rw [List.mem_cons, List.mem_cons, ih, List.mem_cons, not_or]
      by_cases heq : y = t
      · simp [heq, ht]
      · simp [heq]

/-- The edges that still lead to a node that is not seen. -/
def openEdges (edges : List (α × α)) (seen : List α) : List (α × α) := edges.filter fun e => e.2 ∉ seen

theorem openEdges_lt (h : unseen seen (targetsOf edges u) ≠ []) :
    (openEdges edges (unseen seen (targetsOf edges u) ++ seen)).length < (openEdges edges seen).length := by
  obtain ⟨t, ht⟩ := List.exists_mem_of_ne_nil _ h
  obtain ⟨hmem, hno⟩ := mem_unseen.mp ht
  have hsub : openEdges edges (unseen seen (targetsOf edges u) ++ seen) =
      (openEdges edges seen).filter fun e => e.2 ∉ unseen seen (targetsOf edges u) := by
    rw [openEdges, openEdges, List.filter_filter]
    refine List.filter_congr fun e _ => ?_
    simp only [List.mem_append, not_or, Bool.decide_and]
  rw [hsub, List.length_filter_lt_length_iff_exists]
  refine ⟨(u, t), List.mem_filter.mpr ⟨mem_targetsOf.mp hmem, decide_eq_true hno⟩, ?_⟩
  simpa using ht

/-- Nodes whose edges are not followed yet wait in a queue. -/
def search (edges : List (α × α)) (seen : List α) : List α → List α
  | [] => seen
  | u :: q => search edges (unseen seen (targetsOf edges u) ++ seen) (q ++ unseen seen (targetsOf edges u))
termination_by q => ((openEdges edges seen).length, q.length)
decreasing_by
  by_cases h : unseen seen (targetsOf edges u) = []
  · rw [h, List.nil_append, List.append_nil]
    exact Prod.Lex.right _ (Nat.lt_succ_self _)
  · exact Prod.Lex.left _ _ (openEdges_lt h)

/-- What waits is seen, and of what is seen the edges lead to what is seen, unless it waits. -/
structure Frontier (edges : List (α × α)) (seen q : List α) : Prop where
  waits : ∀ x ∈ q, x ∈ seen
  followed : ∀ x ∈ seen, x ∉ q → ∀ y, (x, y) ∈ edges → y ∈ seen

theorem Frontier.next (h : Frontier edges seen (u :: q)) :
    Frontier edges (unseen seen (targetsOf edges u) ++ seen) (q ++ unseen seen (targetsOf edges u)) := by
  refine ⟨fun x hx => ?_, fun x hx hno y hedge => ?_⟩
  · rcases List.mem_append.mp hx with hx | hx
    · exact List.mem_append_right _ (h.waits x (List.mem_cons_of_mem _ hx))
    · exact List.mem_append_left _ hx
  · rw [List.mem_append, not_or] at hno
    have hseen : x ∈ seen := (List.mem_append.mp hx).resolve_left hno.2
    by_cases hy : y ∈ seen
    · exact List.mem_append_right _ hy
    · by_cases hu : x = u
      · subst hu
        exact List.mem_append_left _ (mem_unseen.mpr ⟨mem_targetsOf.mpr hedge, hy⟩)
      · refine absurd (h.followed x hseen (fun hq => ?_) y hedge) hy
        exact (List.mem_cons.mp hq).elim hu hno.1

theorem mem_search (h : Frontier edges seen q) :
    y ∈ search edges seen q ↔ ∃ x ∈ seen, Relation.ReflTransGen (fun a b => (a, b) ∈ edges) x y := by
  induction seen, q using search.induct edges with
  | case1 seen =>
    rw [search]
    constructor
    · intro hy
      exact ⟨y, hy, .refl⟩
    · rintro ⟨x, hx, hpath⟩
      -- what is seen is closed now
      induction hpath with
      | refl => exact hx
      | tail _ hedge ih => exact h.followed _ ih (List.not_mem_nil) _ hedge
  | case2 seen u q ih =>
    rw [search, ih h.next]
    have hu : u ∈ seen := h.waits u (List.mem_cons_self ..)
    constructor
    · rintro ⟨x, hx, hpath⟩
      rcases List.mem_append.mp hx with hx | hx
      · exact ⟨u, hu, .head (mem_targetsOf.mp (mem_unseen.mp hx).1) hpath⟩
      · exact ⟨x, hx, hpath⟩
    · rintro ⟨x, hx, hpath⟩
      exact ⟨x, List.mem_append_right _ hx, hpath⟩

/-- A search from one node. -/
theorem mem_search_from {s : α} :
    y ∈ search edges [s] [s] ↔ Relation.ReflTransGen (fun a b => (a, b) ∈ edges) s y := by
  rw [mem_search ⟨fun x hx => hx, fun x hx hno => absurd hx hno⟩]
  constructor
  · rintro ⟨x, hx, hpath⟩
    obtain rfl := List.mem_singleton.mp hx
    exact hpath
  · intro hpath
    exact ⟨s, List.mem_singleton.mpr rfl, hpath⟩

end Lib
