import Mathlib.Data.Fintype.Card
import Mathlib.Data.List.Nodup
import Ps5Debugger.Lib.Loop

/-!
# Linked lists

A list of nodes that each tell the next one, up to a last that tells none. Going along the links finds the
first node that is looked for, and a finite list has no node twice.
-/

namespace Lib

variable {α : Type} [DecidableEq α] {next : α → α} {nil a : α} {l l' : List α} {p : α → Bool}

/-- The nodes from `a` on. -/
def Linked (next : α → α) (nil : α) : α → List α → Prop
  | a, [] => a = nil
  | a, x :: l => a = x ∧ x ≠ nil ∧ Linked next nil (next x) l

instance decidableLinked : (a : α) → (l : List α) → Decidable (Linked next nil a l)
  | a, [] => inferInstanceAs (Decidable (a = nil))
  | a, x :: l =>
    have := decidableLinked (next x) l
    inferInstanceAs (Decidable (a = x ∧ x ≠ nil ∧ Linked next nil (next x) l))

/-- A pass of a search along the links. -/
def follow (next : α → α) (nil : α) (p : α → Bool) (a : α) : α ⊕ α :=
  if a = nil then .inr nil else if p a then .inr a else .inl (next a)

theorem follow_nil : follow next nil p nil = .inr nil := if_pos rfl

theorem follow_hit (hne : a ≠ nil) (hp : p a = true) : follow next nil p a = .inr a := (if_neg hne).trans (if_pos hp)

theorem follow_miss (hne : a ≠ nil) (hp : p a = false) : follow next nil p a = .inl (next a) :=
  (if_neg hne).trans (if_neg (Bool.eq_false_iff.mp hp))

/-- The search finds the first node. -/
theorem loop_follow (h : Linked next nil a l) {fuel : Nat} (hfuel : l.length < fuel) :
    loop (follow next nil p) fuel a = some ((l.find? p).getD nil) := by
  induction l generalizing a fuel with
  | nil =>
    obtain rfl : a = nil := h
    cases fuel with
    | zero => cases hfuel
    | succ fuel => rw [loop_leave follow_nil, List.find?_nil, Option.getD_none]
  | cons x l ih =>
    obtain ⟨rfl, hne, hrest⟩ := h
    cases fuel with
    | zero => cases hfuel
    | succ fuel =>
      rw [List.find?_cons]
      cases hp : p a with
      | true => exact loop_leave (follow_hit hne hp)
      | false =>
        rw [loop_next (follow_miss hne hp)]
        exact ih hrest (Nat.lt_of_succ_lt_succ hfuel)

/-- What a search returns is nothing, or what was looked for, along whatever it went. -/
theorem follow_found {fuel : Nat} {r : α} (h : loop (follow next nil p) fuel a = some r) (hr : r ≠ nil) :
    p r = true := by
  induction fuel generalizing a with
  | zero => cases h
  | succ fuel ih =>
    by_cases hnil : a = nil
    · rw [hnil, loop_leave follow_nil] at h
      exact absurd (Option.some_inj.mp h).symm hr
    · cases hp : p a with
      | true =>
        rw [loop_leave (follow_hit hnil hp)] at h
        exact Option.some_inj.mp h ▸ hp
      | false =>
        rw [loop_next (follow_miss hnil hp)] at h
        exact ih h

omit [DecidableEq α] in
theorem Linked.ne_nil (h : Linked next nil a l) : nil ∉ l := by
  induction l generalizing a with
  | nil => exact List.not_mem_nil
  | cons x l ih =>
    obtain ⟨-, hne, hrest⟩ := h
    rw [List.mem_cons, not_or]
    exact ⟨hne.symm, ih hrest⟩

omit [DecidableEq α] in
theorem Linked.unique (h : Linked next nil a l) (h' : Linked next nil a l') : l = l' := by
  induction l generalizing a l' with
  | nil =>
    obtain rfl : a = nil := h
    cases l' with
    | nil => rfl
    | cons y l' => exact absurd h'.1.symm h'.2.1
  | cons x l ih =>
    obtain ⟨rfl, hne, hrest⟩ := h
    cases l' with
    | nil => exact absurd h' hne
    | cons y l' =>
      obtain ⟨rfl, -, hrest'⟩ := h'
      rw [ih hrest hrest']

omit [DecidableEq α] in
theorem Linked.from_mem {x : α} (h : Linked next nil a l) (hx : x ∈ l) :
    ∃ rest, Linked next nil x rest ∧ rest.length ≤ l.length := by
  induction l generalizing a with
  | nil => cases hx
  | cons y l ih =>
    obtain ⟨rfl, hne, hrest⟩ := h
    rcases List.mem_cons.mp hx with rfl | hx
    · exact ⟨x :: l, ⟨rfl, hne, hrest⟩, le_rfl⟩
    · obtain ⟨rest, hlinked, hle⟩ := ih hrest hx
      exact ⟨rest, hlinked, hle.trans (Nat.le_succ _)⟩

omit [DecidableEq α] in
/-- A node that came again would make the list go on for ever. -/
theorem Linked.nodup (h : Linked next nil a l) : l.Nodup := by
  induction l generalizing a with
  | nil => exact List.nodup_nil
  | cons x l ih =>
    have hwhole := h
    obtain ⟨rfl, -, hrest⟩ := h
    refine List.nodup_cons.mpr ⟨fun hmem => ?_, ih hrest⟩
    obtain ⟨rest, hlinked, hle⟩ := hrest.from_mem hmem
    rw [← hwhole.unique hlinked, List.length_cons] at hle
    omega

omit [DecidableEq α] in
/-- There are fewer nodes than values. -/
theorem Linked.length_lt [Fintype α] (h : Linked next nil a l) : l.length < Fintype.card α := by
  have hnodup : (nil :: l).Nodup := List.nodup_cons.mpr ⟨h.ne_nil, h.nodup⟩
  have hle := hnodup.length_le_card
  rwa [List.length_cons] at hle

end Lib
