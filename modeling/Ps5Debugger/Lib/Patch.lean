import Mathlib.Data.List.FinRange
import Mathlib.Data.List.Nodup
import Mathlib.Logic.Function.Basic

/-!
# Patched memories

A memory with holes, written one cell at a time: a write to a hole does nothing. `Patched` says
that a memory is some original with a fixed value laid over the cells of a table, each entry of
which remembers what it covered. Covering a free cell and uncovering one keep it
(`Patched.arm`, `Patched.disarm`), and with the table empty the original is back
(`Patched.eq_base`).
-/

namespace Lib

variable {α β ι : Type}

/-! ## Writes -/

section Writes

variable [DecidableEq α]

/-- A write; a hole stays a hole. -/
def poke (mem : α → Option β) (a : α) (b : β) : α → Option β :=
  if (mem a).isSome then Function.update mem a (some b) else mem

/-- A read into a destination that keeps its value when there is nothing to read. -/
def peek (mem : α → Option β) (a : α) (dst : β) : β := (mem a).getD dst

/-- Writes in the order they are made. -/
def pokeAll (mem : α → Option β) (ws : List (α × β)) : α → Option β :=
  ws.foldl (fun m w => poke m w.1 w.2) mem

theorem poke_self (mem : α → Option β) (a : α) (b : β) :
    poke mem a b a = (mem a).map fun _ => b := by
  unfold poke
  split
  · rename_i h
    obtain ⟨b', hb'⟩ := Option.isSome_iff_exists.mp h
    rw [Function.update_self, hb', Option.map_some]
  · rename_i h
    rw [Option.not_isSome_iff_eq_none.mp h, Option.map_none]

theorem poke_ne (mem : α → Option β) {a x : α} (b : β) (h : x ≠ a) : poke mem a b x = mem x := by
  unfold poke
  split
  · exact Function.update_of_ne h _ _
  · rfl

theorem isSome_poke (mem : α → Option β) (a x : α) (b : β) :
    (poke mem a b x).isSome = (mem x).isSome := by
  by_cases hx : x = a
  · rw [hx, poke_self, Option.isSome_map]
  · rw [poke_ne mem b hx]

theorem poke_poke (mem : α → Option β) (a : α) (b b' : β) :
    poke (poke mem a b) a b' = poke mem a b' := by
  funext x
  by_cases hx : x = a
  · rw [hx, poke_self, poke_self, poke_self, Option.map_map]; rfl
  · rw [poke_ne _ _ hx, poke_ne _ _ hx, poke_ne _ _ hx]

theorem poke_eq_self {mem : α → Option β} {a : α} {b : β} (h : mem a = some b) :
    poke mem a b = mem := by
  rw [poke, h]
  exact Function.update_eq_self_iff.mpr h.symm

theorem pokeAll_of_notMem {ws : List (α × β)} {x : α} (h : x ∉ ws.map Prod.fst) :
    ∀ mem : α → Option β, pokeAll mem ws x = mem x := by
  induction ws with
  | nil => intro mem; rfl
  | cons w ws ih =>
    intro mem
    obtain ⟨hw, hws⟩ : x ≠ w.1 ∧ x ∉ ws.map Prod.fst := by simpa using h
    exact (ih hws _).trans (poke_ne mem w.2 hw)

/-- Writes to different cells do not disturb each other. -/
theorem pokeAll_of_mem {ws : List (α × β)} (hws : (ws.map Prod.fst).Nodup) {a : α} {b : β}
    (h : (a, b) ∈ ws) : ∀ mem : α → Option β, pokeAll mem ws a = (mem a).map fun _ => b := by
  induction ws with
  | nil => cases h
  | cons w ws ih =>
    intro mem
    obtain ⟨hw, hnd⟩ := List.nodup_cons.mp hws
    rcases List.mem_cons.mp h with rfl | h
    · exact (pokeAll_of_notMem hw _).trans (poke_self mem a b)
    · have ha : a ≠ w.1 := fun e => hw (e ▸ List.mem_map_of_mem h)
      exact (ih hnd h _).trans (congrArg _ (poke_ne mem w.2 ha))

end Writes

/-! ## Patch tables -/

/-- `mem` is `base` with `v` over the cells of the table, each entry holding what was there. -/
structure Patched (v : β) (base mem : α → Option β) (table : ι → Option (α × β)) : Prop where
  /-- no cell is covered twice -/
  inj : ∀ {i j : ι} {a : α} {b b' : β}, table i = some (a, b) → table j = some (a, b') → i = j
  /-- an entry holds the original value -/
  saved : ∀ {i : ι} {a : α} {b : β}, table i = some (a, b) → base a = some b
  /-- a covered cell shows the patch -/
  covered : ∀ {i : ι} {a : α} {b : β}, table i = some (a, b) → mem a = some v
  /-- every other cell shows the original -/
  free : ∀ {x : α}, (∀ i b, table i ≠ some (x, b)) → mem x = base x

variable {v : β} {base mem : α → Option β} {table : ι → Option (α × β)}

theorem Patched.empty (v : β) (base : α → Option β) {table : ι → Option (α × β)}
    (h : ∀ i, table i = none) : Patched v base base table where
  inj := fun hi => absurd hi (by simp [h])
  saved := fun hi => absurd hi (by simp [h])
  covered := fun hi => absurd hi (by simp [h])
  free := fun _ => rfl

theorem Patched.eq_base (h : Patched v base mem table) (hempty : ∀ i, table i = none) :
    mem = base := by
  funext x
  exact h.free fun i b => by simp [hempty]

variable [DecidableEq α]

/-- Uncovering a cell and covering it again. -/
theorem Patched.step_over (h : Patched v base mem table) {i : ι} {a : α} {b : β}
    (hi : table i = some (a, b)) : pokeAll mem [(a, b), (a, v)] = mem :=
  (poke_poke mem a b v).trans (poke_eq_self (h.covered hi))

variable [DecidableEq ι]

/-- Covering a cell no entry covers, with an entry that is not in use. -/
theorem Patched.arm (h : Patched v base mem table) {i : ι} (hi : table i = none) {a : α} {b : β}
    (ha : ∀ j b, table j ≠ some (a, b)) (hb : mem a = some b) :
    Patched v base (poke mem a v) (Function.update table i (some (a, b))) := by
  have old : ∀ {j x y}, Function.update table i (some (a, b)) j = some (x, y) →
      (j = i ∧ x = a ∧ y = b) ∨ (j ≠ i ∧ x ≠ a ∧ table j = some (x, y)) := by
    intro j x y hj
    by_cases hji : j = i
    · rw [hji, Function.update_self] at hj
      cases hj
      exact .inl ⟨hji, rfl, rfl⟩
    · rw [Function.update_of_ne hji] at hj
      exact .inr ⟨hji, fun e => ha j y (e ▸ hj), hj⟩
  refine ⟨?_, ?_, ?_, ?_⟩
  · intro j k x y y' hj hk
    rcases old hj with ⟨hji, hx, _⟩ | ⟨_, hx, hj⟩
    · rcases old hk with ⟨hki, _, _⟩ | ⟨_, hx', _⟩
      · exact hji.trans hki.symm
      · exact absurd hx hx'
    · rcases old hk with ⟨_, hx', _⟩ | ⟨_, _, hk⟩
      · exact absurd hx' hx
      · exact h.inj hj hk
  · intro j x y hj
    rcases old hj with ⟨rfl, rfl, rfl⟩ | ⟨_, _, hj⟩
    · exact (h.free ha).symm.trans hb
    · exact h.saved hj
  · intro j x y hj
    rcases old hj with ⟨rfl, rfl, rfl⟩ | ⟨_, hx, hj⟩
    · rw [poke_self, hb, Option.map_some]
    · rw [poke_ne mem v hx]; exact h.covered hj
  · intro x hx
    have hxa : x ≠ a := by
      rintro rfl
      exact hx i b (Function.update_self i _ table)
    rw [poke_ne mem v hxa]
    refine h.free fun j y hj => hx j y ?_
    have hji : j ≠ i := by
      rintro rfl
      rw [hi] at hj
      cases hj
    rw [Function.update_of_ne hji]
    exact hj

/-- Uncovering the cell of an entry. -/
theorem Patched.disarm (h : Patched v base mem table) {i : ι} {a : α} {b : β}
    (hi : table i = some (a, b)) :
    Patched v base (poke mem a b) (Function.update table i none) := by
  have old : ∀ {j x y}, Function.update table i none j = some (x, y) →
      x ≠ a ∧ table j = some (x, y) := by
    intro j x y hj
    have hji : j ≠ i := by
      rintro rfl
      rw [Function.update_self] at hj
      cases hj
    rw [Function.update_of_ne hji] at hj
    exact ⟨fun e => hji (h.inj (e ▸ hj) hi), hj⟩
  refine ⟨?_, ?_, ?_, ?_⟩
  · intro j k x y y' hj hk
    exact h.inj (old hj).2 (old hk).2
  · intro j x y hj
    exact h.saved (old hj).2
  · intro j x y hj
    obtain ⟨hx, hj⟩ := old hj
    rw [poke_ne mem b hx]
    exact h.covered hj
  · intro x hx
    by_cases hxa : x = a
    · rw [hxa, poke_self, h.covered hi, h.saved hi, Option.map_some]
    · rw [poke_ne mem b hxa]
      refine h.free fun j y hj => hx j y ?_
      have hji : j ≠ i := by
        rintro rfl
        rw [hi] at hj
        cases hj
        exact hxa rfl
      rw [Function.update_of_ne hji]
      exact hj

/-! ## Loops that stop at the first failure -/

/-- In an increasing list, the elements a loop reaches are those with no failure up to them. -/
theorem mem_takeWhile_iff {n : Nat} {p : Fin n → Bool} {l : List (Fin n)} (hl : l.Pairwise (· < ·))
    {i : Fin n} : i ∈ l.takeWhile p ↔ i ∈ l ∧ ∀ j ∈ l, j ≤ i → p j = true := by
  induction l with
  | nil => simp
  | cons x l ih =>
    obtain ⟨hx, hl⟩ := List.pairwise_cons.mp hl
    by_cases hp : p x = true
    · rw [List.takeWhile_cons_of_pos hp, List.mem_cons, ih hl, List.mem_cons]
      constructor
      · rintro (rfl | ⟨hi, hall⟩)
        · refine ⟨.inl rfl, fun j hj hji => ?_⟩
          rcases List.mem_cons.mp hj with rfl | hj
          · exact hp
          · exact absurd (hx j hj) (not_lt.mpr hji)
        · refine ⟨.inr hi, fun j hj hji => ?_⟩
          rcases List.mem_cons.mp hj with rfl | hj
          · exact hp
          · exact hall j hj hji
      · rintro ⟨rfl | hi, hall⟩
        · exact .inl rfl
        · exact .inr ⟨hi, fun j hj => hall j (List.mem_cons_of_mem x hj)⟩
    · rw [List.takeWhile_cons_of_neg hp]
      refine ⟨fun h => (List.not_mem_nil h).elim, fun ⟨hi, hall⟩ => absurd (hall x ?_ ?_) hp⟩
      · exact List.mem_cons_self
      · rcases List.mem_cons.mp hi with rfl | hi
        · exact le_refl _
        · exact (hx i hi).le

theorem mem_takeWhile_finRange {n : Nat} {p : Fin n → Bool} {i : Fin n} :
    i ∈ (List.finRange n).takeWhile p ↔ ∀ j ≤ i, p j = true := by
  rw [mem_takeWhile_iff (List.pairwise_lt_finRange n)]
  simp [List.mem_finRange]

/-- In an increasing list, a search finds the least element it looks for. -/
theorem find?_eq_some_iff_of_pairwise {n : Nat} {p : Fin n → Bool} {l : List (Fin n)} (hl : l.Pairwise (· < ·))
    {i : Fin n} : l.find? p = some i ↔ i ∈ l ∧ p i = true ∧ ∀ j ∈ l, j < i → p j = false := by
  rw [List.find?_eq_some_iff_append]
  constructor
  · rintro ⟨hi, pre, post, rfl, hpre⟩
    refine ⟨by simp, hi, fun j hj hji => ?_⟩
    have hsplit := List.pairwise_append.mp hl
    rcases List.mem_append.mp hj with hj | hj
    · simpa using hpre j hj
    · rcases List.mem_cons.mp hj with rfl | hj
      · exact absurd hji (lt_irrefl j)
      · exact absurd hji (lt_asymm ((List.pairwise_cons.mp hsplit.2.1).1 j hj))
  · rintro ⟨hi, hp, hless⟩
    obtain ⟨pre, post, rfl⟩ := List.append_of_mem hi
    have hsplit := List.pairwise_append.mp hl
    refine ⟨hp, pre, post, rfl, fun j hj => ?_⟩
    simpa using hless j (List.mem_append_left _ hj) (hsplit.2.2 j hj i List.mem_cons_self)

/-- The first elements of an increasing list of all numbers. -/
theorem mem_take_takeWhile_finRange {n m : Nat} {p : Fin n → Bool} {i : Fin n} :
    i ∈ ((List.finRange n).takeWhile p).take m ↔ i.val < m ∧ ∀ j ≤ i, p j = true := by
  rw [← mem_takeWhile_finRange]
  have hpre := List.takeWhile_prefix p (l := List.finRange n)
  have hget : ∀ k (hk : k < ((List.finRange n).takeWhile p).length),
      (((List.finRange n).takeWhile p)[k]).val = k := by
    intro k hk
    rw [hpre.getElem hk, List.getElem_finRange]
    rfl
  constructor
  · intro hi
    refine ⟨?_, List.mem_of_mem_take hi⟩
    obtain ⟨k, hk, rfl⟩ := List.getElem_of_mem hi
    rw [List.getElem_take, hget]
    rw [List.length_take] at hk
    omega
  · rintro ⟨hm, hi⟩
    obtain ⟨k, hk, rfl⟩ := List.getElem_of_mem hi
    rw [hget] at hm
    rw [List.mem_take_iff_getElem]
    exact ⟨k, by omega, rfl⟩

end Lib
