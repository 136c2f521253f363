import Ps5Debugger.Lib.Bytes

/-!
# Copies in a row

Copies that are made one after the other. A place has what the last copy that covers it has for it
(`copies_last`), and what was there before where none does (`copies_of_not_covers`).
-/

namespace Lib

/-- `len` bytes of `src`, copied to `off`. -/
structure Copy where
  off : Nat
  src : Buf
  len : Nat

/-- The places that a copy changes. -/
def Copy.Covers (c : Copy) (x : Nat) : Prop := c.off ≤ x ∧ x < c.off + c.len

/-- The copies in the order in which they are made. -/
def copies (mem : Buf) (cs : List Copy) : Buf := cs.foldl (fun m c => blit m c.off c.src c.len) mem

variable {α : Type} {mem : Buf} {cs cs' : List Copy} {c : Copy} {x : Nat}

theorem copies_append : copies mem (cs ++ cs') = copies (copies mem cs) cs' := List.foldl_append

theorem copies_flatMap (f : α → List Copy) (l : List α) :
    l.foldl (fun m a => copies m (f a)) mem = copies mem (l.flatMap f) := by
  induction l generalizing mem with
  | nil => rfl
  | cons a l ih => rw [List.foldl_cons, ih, List.flatMap_cons, copies_append]

theorem copies_map (f : α → Copy) (l : List α) :
    l.foldl (fun m a => copies m [f a]) mem = copies mem (l.map f) := by
  rw [copies, List.foldl_map]
  rfl

theorem copies_of_not_covers (h : ∀ c ∈ cs, ¬ c.Covers x) : copies mem cs x = mem x := by
  induction cs generalizing mem with
  | nil => rfl
  | cons c cs ih =>
    obtain ⟨hc, hcs⟩ := List.forall_mem_cons.mp h
    exact (ih hcs).trans (if_neg hc)

theorem copies_last (hc : c.Covers x) (h : ∀ c' ∈ cs', ¬ c'.Covers x) :
    copies mem (cs ++ c :: cs') x = c.src (x - c.off) := by
  rw [copies_append]
  exact (copies_of_not_covers h).trans (if_pos hc)

end Lib
