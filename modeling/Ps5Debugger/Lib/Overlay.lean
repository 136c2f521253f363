import Mathlib.Data.List.Basic

/-!
# Lists laid over a list

Runs of elements that are copied into a list one after the other. What is there in the end comes from a run
that covers the place, and from the list where none does.
-/

namespace Lib

variable {α : Type} {dest src : List α} {off q : Nat} {ws : List (Nat × List α)}

/-- A run in place of as many elements. -/
def overlay (dest : List α) (off : Nat) (src : List α) : List α := dest.take off ++ src ++ dest.drop (off + src.length)

/-- Runs in the order they are copied. -/
def overlayAll (dest : List α) (ws : List (Nat × List α)) : List α := ws.foldl (fun d w => overlay d w.1 w.2) dest

/-- A run has an element for the place. -/
def Overlays (w : Nat × List α) (q : Nat) : Prop := w.1 ≤ q ∧ q < w.1 + w.2.length

theorem length_overlay (h : off + src.length ≤ dest.length) : (overlay dest off src).length = dest.length := by
  rw [overlay, List.length_append, List.length_append, List.length_take, List.length_drop]
  omega

theorem getElem?_overlay_inside (h : off + src.length ≤ dest.length) (hq : Overlays (off, src) q) :
    (overlay dest off src)[q]? = src[q - off]? := by
  obtain ⟨hle, hlt⟩ := hq
  have hfront : (dest.take off).length = off := List.length_take_of_le (by omega)
  rw [overlay, List.getElem?_append_left (by rw [List.length_append, hfront]; exact hlt),
    List.getElem?_append_right (by rw [hfront]; exact hle), hfront]

theorem getElem?_overlay_outside (h : off + src.length ≤ dest.length) (hq : ¬ Overlays (off, src) q) :
    (overlay dest off src)[q]? = dest[q]? := by
  have hfront : (dest.take off).length = off := List.length_take_of_le (by omega)
  by_cases hlt : q < off
  · rw [overlay, List.append_assoc, List.getElem?_append_left (by omega), List.getElem?_take_of_lt hlt]
  · have hle : off + src.length ≤ q := Nat.le_of_not_lt fun h' => hq ⟨Nat.le_of_not_lt hlt, h'⟩
    rw [overlay, List.getElem?_append_right (by rw [List.length_append, hfront]; exact hle), List.length_append, hfront,
      List.getElem?_drop, Nat.add_sub_cancel' hle]

theorem length_overlayAll (h : ∀ w ∈ ws, w.1 + w.2.length ≤ dest.length) :
    (overlayAll dest ws).length = dest.length := by
  induction ws generalizing dest with
  | nil => rfl
  | cons w ws ih =>
    obtain ⟨hw, hws⟩ := List.forall_mem_cons.mp h
    have hlen := length_overlay hw
    rw [← hlen] at hws ⊢
    exact ih hws

/-- A place is covered by a run that is found there, or keeps what it had. -/
theorem getElem?_overlayAll (h : ∀ w ∈ ws, w.1 + w.2.length ≤ dest.length) (q : Nat) :
    (∃ w ∈ ws, Overlays w q ∧ (overlayAll dest ws)[q]? = w.2[q - w.1]?) ∨
      ((∀ w ∈ ws, ¬ Overlays w q) ∧ (overlayAll dest ws)[q]? = dest[q]?) := by
  induction ws generalizing dest with
  | nil => exact .inr ⟨nofun, rfl⟩
  | cons w ws ih =>
    obtain ⟨hw, hws⟩ := List.forall_mem_cons.mp h
    rw [← length_overlay hw] at hws
    obtain ⟨v, hv, hover, heq⟩ | ⟨hnone, heq⟩ := ih hws
    · exact .inl ⟨v, List.mem_cons_of_mem w hv, hover, heq⟩
    · -- none of the later runs covers the place
      by_cases hover : Overlays w q
      · exact .inl ⟨w, List.mem_cons_self, hover, heq.trans (getElem?_overlay_inside hw hover)⟩
      · exact .inr ⟨List.forall_mem_cons.mpr ⟨hover, hnone⟩, heq.trans (getElem?_overlay_outside hw hover)⟩

end Lib
