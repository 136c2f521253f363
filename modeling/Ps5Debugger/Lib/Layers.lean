import Mathlib
import Ps5Debugger.Lib.Closure

/-!
# The layers of a graph

A search breadth first that ranks what it finds: a node is one below the node that it is found from. The nodes wait in a
queue, first in, first out, and so the rank of a node is the length of a shortest path to it (`rank_layers`).
-/

namespace Lib

variable {α : Type} {edges : List (α × α)} {s u v x y : α}

/-- A path of so many edges. -/
inductive Path (edges : List (α × α)) (s : α) : Nat → α → Prop where
  | here : Path edges s 0 s
  | step {n : Nat} {x y : α} : Path edges s n x → (x, y) ∈ edges → Path edges s (n + 1) y

/-- The node is as many edges away, by a shortest path. -/
def Away (edges : List (α × α)) (s v : α) (n : Nat) : Prop := Path edges s n v ∧ ∀ m, Path edges s m v → n ≤ m

theorem exists_path (h : Relation.ReflTransGen (fun a b => (a, b) ∈ edges) s v) : ∃ n, Path edges s n v := by
  induction h with
  | refl => exact ⟨0, .here⟩
  | tail _ hedge ih =>
    obtain ⟨n, hpath⟩ := ih
    exact ⟨n + 1, hpath.step hedge⟩

namespace Away

variable {n m : Nat}

theorem unique (h : Away edges s v n) (h' : Away edges s v m) : n = m :=
  Nat.le_antisymm (h.2 m h'.1) (h'.2 n h.1)

theorem start : Away edges s s 0 := ⟨.here, fun m _ => Nat.zero_le m⟩

theorem eq_start (h : Away edges s v 0) : v = s := by
  cases h.1
  rfl

/-- An edge leads down by one at most. -/
theorem le_succ (h : Away edges s x n) (h' : Away edges s y m) (hedge : (x, y) ∈ edges) : m ≤ n + 1 :=
  h'.2 _ (h.1.step hedge)

/-- And some edge does. -/
theorem exists_above (h : Away edges s y (n + 1)) : ∃ x, Away edges s x n ∧ (x, y) ∈ edges := by
  obtain ⟨hpath, hmin⟩ := h
  cases hpath with
  | step hx hedge => exact ⟨_, ⟨hx, fun m hm => Nat.le_of_succ_le_succ (hmin _ (hm.step hedge))⟩, hedge⟩

end Away

variable {seen q : List α} {rank rank₀ : α → Nat}

/-- What waits is ranked upwards, and its ranks are those of the first that waits and of the one below. -/
structure Waiting (seen : List α) (rank : α → Nat) (u : α) (q : List α) : Prop where
  sorted : (u :: q).Pairwise fun x y => rank x ≤ rank y
  band : ∀ x ∈ seen, rank x ≤ rank u + 1

/-- Who is seen is ranked by a path, and whose edges have been followed leads to what is seen, one below at most. -/
structure Ranked (edges : List (α × α)) (s : α) (rank₀ : α → Nat) (seen : List α) (rank : α → Nat) (q : List α) :
    Prop where
  start : s ∈ seen ∧ rank s = 0
  path : ∀ x ∈ seen, Path edges s (rank x) x
  rest : ∀ x, x ∉ seen → rank x = rank₀ x
  waits : ∀ x ∈ q, x ∈ seen
  followed : ∀ x ∈ seen, x ∉ q → ∀ y, (x, y) ∈ edges → y ∈ seen ∧ rank y ≤ rank x + 1

/-- When nothing waits any more, no path is shorter than a rank. -/
theorem Ranked.le_of_path (h : Ranked edges s rank₀ seen rank []) {n : Nat} (hpath : Path edges s n v) :
    v ∈ seen ∧ rank v ≤ n := by
  induction hpath with
  | here => exact ⟨h.start.1, Nat.le_of_eq h.start.2⟩
  | step _ hedge ih =>
    obtain ⟨hseen, hle⟩ := h.followed _ ih.1 List.not_mem_nil _ hedge
    exact ⟨hseen, hle.trans (Nat.succ_le_succ ih.2)⟩

variable [DecidableEq α]

/-- What is found from a node. -/
abbrev foundFrom (edges : List (α × α)) (seen : List α) (u : α) : List α := unseen seen (targetsOf edges u)

/-- It goes one below. -/
def below (edges : List (α × α)) (seen : List α) (rank : α → Nat) (u : α) : α → Nat :=
  fun v => if v ∈ foundFrom edges seen u then rank u + 1 else rank v

/-- The nodes of the queue one after the other: what is new is seen, ranked, and waits in turn. -/
def layers (edges : List (α × α)) (seen : List α) (rank : α → Nat) : List α → α → Nat
  | [] => rank
  | u :: q => layers edges (foundFrom edges seen u ++ seen) (below edges seen rank u) (q ++ foundFrom edges seen u)
termination_by q => ((openEdges edges seen).length, q.length)
decreasing_by
  by_cases h : foundFrom edges seen u = []
  · rw [h, List.nil_append, List.append_nil]
    exact Prod.Lex.right _ (Nat.lt_succ_self _)
  · exact Prod.Lex.left _ _ (openEdges_lt h)

theorem below_of_seen (h : v ∈ seen) : below edges seen rank u v = rank v :=
  if_neg fun hfound => (mem_unseen.mp hfound).2 h

theorem below_of_found (h : v ∈ foundFrom edges seen u) : below edges seen rank u v = rank u + 1 := if_pos h

theorem Ranked.next (h : Ranked edges s rank₀ seen rank (u :: q)) (hwait : Waiting seen rank u q) :
    Ranked edges s rank₀ (foundFrom edges seen u ++ seen) (below edges seen rank u)
      (q ++ foundFrom edges seen u) where
  start := ⟨List.mem_append_right _ h.start.1, (below_of_seen h.start.1).trans h.start.2⟩
  path x hx := by
    rcases List.mem_append.mp hx with hfound | hseen
    · rw [below_of_found hfound]
      exact (h.path u (h.waits u List.mem_cons_self)).step (mem_targetsOf.mp (mem_unseen.mp hfound).1)
    · rw [below_of_seen hseen]
      exact h.path x hseen
  rest x hx := by
    rw [List.mem_append, not_or] at hx
    rw [below, if_neg hx.1]
    exact h.rest x hx.2
  waits x hx := by
    rcases List.mem_append.mp hx with hq | hfound
    · exact List.mem_append_right _ (h.waits x (List.mem_cons_of_mem _ hq))
    · exact List.mem_append_left _ hfound
  followed x hx hno y hedge := by
    rw [List.mem_append, not_or] at hno
    have hseen : x ∈ seen := (List.mem_append.mp hx).resolve_left hno.2
    rw [below_of_seen hseen]
    by_cases hu : x = u
    · subst hu
      by_cases hy : y ∈ seen
      · rw [below_of_seen hy]
        exact ⟨List.mem_append_right _ hy, hwait.band y hy⟩
      · have hfound : y ∈ foundFrom edges seen x := mem_unseen.mpr ⟨mem_targetsOf.mpr hedge, hy⟩
        exact ⟨List.mem_append_left _ hfound, Nat.le_of_eq (below_of_found hfound)⟩
    · obtain ⟨hy, hle⟩ := h.followed x hseen (fun hq => (List.mem_cons.mp hq).elim hu hno.1) y hedge
      exact ⟨List.mem_append_right _ hy, (below_of_seen hy).symm ▸ hle⟩

theorem pairwise_below (hwait : Waiting seen rank u q) (hq : ∀ x ∈ u :: q, x ∈ seen) :
    (q ++ foundFrom edges seen u).Pairwise fun x y => below edges seen rank u x ≤ below edges seen rank u y := by
  have hseen (x : α) (hx : x ∈ q) : below edges seen rank u x = rank x :=
    below_of_seen (hq x (List.mem_cons_of_mem _ hx))
  refine List.pairwise_append.mpr ⟨?_, ?_, ?_⟩
  · refine (List.pairwise_cons.mp hwait.sorted).2.imp_of_mem fun hx hy hle => ?_
    rwa [hseen _ hx, hseen _ hy]
  · refine List.pairwise_of_forall_mem_list fun x hx y hy => ?_
    rw [below_of_found hx, below_of_found hy]
  · intro x hx y hy
    rw [hseen x hx, below_of_found hy]
    exact hwait.band x (hq x (List.mem_cons_of_mem _ hx))

/-- Whoever comes next is not above. -/
theorem Waiting.next {next : α} {rest : List α} (hwait : Waiting seen rank u q) (hq : ∀ x ∈ u :: q, x ∈ seen)
    (hnext : q ++ foundFrom edges seen u = next :: rest) :
    Waiting (foundFrom edges seen u ++ seen) (below edges seen rank u) next rest := by
  refine ⟨hnext ▸ pairwise_below hwait hq, ?_⟩
  have hle : rank u ≤ below edges seen rank u next := by
    cases q with
    | nil =>
      have hfound : next ∈ foundFrom edges seen u := by
        rw [List.nil_append] at hnext
        exact hnext ▸ List.mem_cons_self
      rw [below_of_found hfound]
      exact Nat.le_succ _
    | cons first q =>
      obtain ⟨rfl, -⟩ := List.cons.inj hnext
      rw [below_of_seen (hq _ (by simp))]
      exact (List.pairwise_cons.mp hwait.sorted).1 _ List.mem_cons_self
  intro x hx
  rcases List.mem_append.mp hx with hfound | hseen
  · rw [below_of_found hfound]
    exact Nat.succ_le_succ hle
  · rw [below_of_seen hseen]
    exact (hwait.band x hseen).trans (Nat.succ_le_succ hle)

theorem Ranked.layers (h : Ranked edges s rank₀ seen rank q)
    (hwait : ∀ u rest, q = u :: rest → Waiting seen rank u rest) :
    ((∃ n, Path edges s n v) → Away edges s v (layers edges seen rank q v)) ∧
      ((¬ ∃ n, Path edges s n v) → Lib.layers edges seen rank q v = rank₀ v) := by
  induction seen, rank, q using layers.induct edges with
  | case1 seen rank =>
    rw [Lib.layers]
    refine ⟨fun ⟨n, hpath⟩ => ⟨h.path v (h.le_of_path hpath).1, fun m hm => (h.le_of_path hm).2⟩, fun hno => ?_⟩
    exact h.rest v fun hseen => hno ⟨_, h.path v hseen⟩
  | case2 seen rank u q ih =>
    rw [Lib.layers]
    have hu : Waiting seen rank u q := hwait u q rfl
    exact ih (h.next hu) fun next rest hnext => hu.next h.waits hnext

/-- **The rank is the length of a shortest path**, for what a path leads to; what none leads to keeps its rank. -/
theorem rank_layers (s v : α) (hstart : rank s = 0) :
    ((∃ n, Path edges s n v) → Away edges s v (layers edges [s] rank [s] v)) ∧
      ((¬ ∃ n, Path edges s n v) → layers edges [s] rank [s] v = rank v) := by
  have hself (x : α) (hx : x ∈ [s]) : x = s := List.mem_singleton.mp hx
  have h : Ranked edges s rank [s] rank [s] := by
    refine ⟨⟨List.mem_singleton_self s, hstart⟩, fun x hx => ?_, fun _ _ => rfl, fun _ hx => hx,
      fun x hx hno => absurd hx hno⟩
    rw [hself x hx, hstart]
    exact .here
  refine h.layers fun u rest heq => ?_
  obtain ⟨rfl, rfl⟩ := List.cons.inj heq
  exact ⟨List.pairwise_singleton _ _, fun x hx => (hself x hx) ▸ Nat.le_succ _⟩

end Lib
