import Mathlib.Data.List.Chain
import Mathlib.Data.List.Nodup

/-!
# Cutting a list into blocks

A list is cut before each member that starts a block (`blocks`). The blocks are the list again, none is empty, and what
starts a block is the first of its block (`mem_tail_blocks`, `exists_block_of_lead`).
-/

namespace Lib

variable {α : Type} {lead : α → Bool} {cur l : List α} {b : List α} {a : α}

/-- The blocks of a list behind the members of the current block. -/
def blocksFrom (lead : α → Bool) : List α → List α → List (List α)
  | cur, [] => if cur.isEmpty then [] else [cur]
  | cur, a :: l =>
    if cur.isEmpty = false ∧ lead a = true then cur :: blocksFrom lead [a] l else blocksFrom lead (cur ++ [a]) l

def blocks (lead : α → Bool) (l : List α) : List (List α) := blocksFrom lead [] l

theorem flatten_blocksFrom : (blocksFrom lead cur l).flatten = cur ++ l := by
  induction l generalizing cur with
  | nil =>
    rw [blocksFrom, List.append_nil]
    split
    · rename_i hcur
      rw [List.isEmpty_iff.mp hcur]
      rfl
    · rw [List.flatten_singleton]
  | cons a l ih =>
    rw [blocksFrom]
    split
    · rw [List.flatten_cons, ih, List.singleton_append]
    · rw [ih, List.append_assoc, List.singleton_append]

theorem ne_nil_of_mem_blocksFrom (h : b ∈ blocksFrom lead cur l) : b ≠ [] := by
  induction l generalizing cur with
  | nil =>
    rw [blocksFrom] at h
    split at h
    · cases h
    · rename_i hcur
      obtain rfl := List.mem_singleton.mp h
      rintro rfl
      exact hcur rfl
  | cons a l ih =>
    rw [blocksFrom] at h
    split at h
    · rename_i hcut
      rcases List.mem_cons.mp h with rfl | h
      · rintro rfl
        exact absurd hcut.1 Bool.noConfusion
      · exact ih h
    · exact ih h

theorem mem_tail_blocksFrom (hcur : ∀ a ∈ cur.tail, lead a = false) (h : b ∈ blocksFrom lead cur l) (ha : a ∈ b.tail) :
    lead a = false := by
  induction l generalizing cur with
  | nil =>
    rw [blocksFrom] at h
    split at h
    · cases h
    · obtain rfl := List.mem_singleton.mp h
      exact hcur a ha
  | cons a' l ih =>
    rw [blocksFrom] at h
    split at h
    · rcases List.mem_cons.mp h with rfl | h
      · exact hcur a ha
      · exact ih (fun x hx => absurd hx List.not_mem_nil) h
    · rename_i hcut
      refine ih (fun x hx => ?_) h
      cases cur with
      | nil => cases hx
      | cons c cur =>
        rw [List.cons_append, List.tail_cons, List.mem_append, List.mem_singleton] at hx
        rcases hx with hx | rfl
        · exact hcur x hx
        · exact Bool.eq_false_iff.mpr fun hlead => hcut ⟨rfl, hlead⟩

theorem flatten_blocks : (blocks lead l).flatten = l := flatten_blocksFrom

theorem ne_nil_of_mem_blocks (h : b ∈ blocks lead l) : b ≠ [] := ne_nil_of_mem_blocksFrom h

/-- Behind the first of its block nothing starts a block. -/
theorem mem_tail_blocks (h : b ∈ blocks lead l) (ha : a ∈ b.tail) : lead a = false :=
  mem_tail_blocksFrom (fun _ hx => absurd hx List.not_mem_nil) h ha

theorem mem_of_mem_blocks (h : b ∈ blocks lead l) (ha : a ∈ b) : a ∈ l := by
  rw [← @flatten_blocks _ lead l]
  exact List.mem_flatten.mpr ⟨b, h, ha⟩

theorem exists_block (ha : a ∈ l) : ∃ b ∈ blocks lead l, a ∈ b := by
  rw [← @flatten_blocks _ lead l] at ha
  exact List.mem_flatten.mp ha

/-- What starts a block has one. -/
theorem exists_block_of_lead (ha : a ∈ l) (hlead : lead a = true) : ∃ rest, a :: rest ∈ blocks lead l := by
  obtain ⟨b, hb, hmem⟩ := @exists_block _ lead l a ha
  cases b with
  | nil => cases hmem
  | cons c rest =>
    rcases List.mem_cons.mp hmem with rfl | hmem
    · exact ⟨rest, hb⟩
    · rw [mem_tail_blocks hb hmem] at hlead
      cases hlead

theorem infix_of_mem_blocks (h : b ∈ blocks lead l) : b <:+: l := by
  obtain ⟨pre, post, heq⟩ := List.append_of_mem h
  rw [← @flatten_blocks _ lead l, heq, List.flatten_append, List.flatten_cons, ← List.append_assoc]
  exact List.infix_append _ _ _

/-- The first block starts with the first of the list. -/
theorem head_blocks (hl : l ≠ []) : ∃ rest, (blocks lead l).head? = some (l.head hl :: rest) := by
  have hflat := @flatten_blocks _ lead l
  cases hblocks : blocks lead l with
  | nil =>
    rw [hblocks] at hflat
    exact absurd hflat.symm hl
  | cons b bs =>
    have hb : b ≠ [] := ne_nil_of_mem_blocks (hblocks ▸ List.mem_cons_self ..)
    obtain ⟨c, rest, rfl⟩ := List.exists_cons_of_ne_nil hb
    rw [hblocks, List.flatten_cons, List.cons_append] at hflat
    subst hflat
    exact ⟨rest, rfl⟩

/-- In a chain, inside a block each member comes from the one before, and the first of a block from the last of the one
before. -/
theorem chain_blocks {R : α → α → Prop} (h : l.IsChain R) :
    (∀ b ∈ blocks lead l, b.IsChain R) ∧
      (blocks lead l).IsChain fun b b' => ∀ᵉ (x ∈ b.getLast?) (y ∈ b'.head?), R x y := by
  have hno : [] ∉ blocks lead l := fun hmem => ne_nil_of_mem_blocks hmem rfl
  rw [← @flatten_blocks _ lead l] at h
  exact (List.isChain_flatten hno).mp h

end Lib
