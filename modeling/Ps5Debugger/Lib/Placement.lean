import Mathlib

/-!
# Blocks that are written one after the other

Each block has a place where it should stand. The writer fills up to that place before it writes the block, and
it never goes back: a block whose place was passed stands right behind the one before it. Where the blocks
stand (`placements`), what is in the file then (`getElem?_foldl_appendBlock`), and when a place is not passed
(`endPos_le_iff`).
-/

namespace Lib

/-! ## Where a byte comes from -/

/-- Where a byte of a file comes from: it is always the same, or the copy of what is at an address. -/
inductive Origin (α β : Type) where
  | fixed (b : β)
  | copied (a : α)

section Origins

variable {α β : Type} {x y : β} {P : (α → β) → Prop}

def Origin.read (memory : α → β) : Origin α β → β
  | .fixed b => b
  | .copied a => memory a

/-- Memories of two values tell a copy from everything else. -/
theorem forall_read_iff [DecidableEq α] (hxy : x ≠ y)
    (hP : ∀ memory, (∀ a, memory a = x ∨ memory a = y) → P memory) (c : Option (Origin α β)) (a : α) :
    (∀ memory, P memory → c.map (Origin.read memory) = some (memory a)) ↔ c = some (.copied a) := by
  constructor
  · intro h
    have hx := h (fun _ => x) (hP _ fun _ => .inl rfl)
    have hy := h (fun _ => y) (hP _ fun _ => .inr rfl)
    match c with
    | none => cases hx
    | some (.fixed b) => exact absurd ((Option.some.inj hx).symm.trans (Option.some.inj hy)) hxy
    | some (.copied a') =>
      -- the memory that has the one value at this address only
      have heq := h (fun a' => if a' = a then y else x) (hP _ fun a' => by split <;> simp)
      simp only [Option.map_some, Origin.read, if_true, Option.some_inj] at heq
      split at heq
      · rename_i h'
        rw [h']
      · exact absurd heq hxy
  · rintro rfl memory _
    rfl

end Origins

section Blocks

variable {β γ δ : Type} (gap : Nat → β → Nat) (data : β → List γ) (fill : γ)

/-- A block behind what is there. -/
def appendBlock (out : List γ) (b : β) : List γ := out ++ List.replicate (gap out.length b) fill ++ data b

/-- The blocks with the places where they stand. -/
def placements : Nat → List β → List (Nat × β)
  | _, [] => []
  | pos, b :: bs => (pos + gap pos b, b) :: placements (pos + gap pos b + (data b).length) bs

/-- The place behind the blocks. -/
def endPos : Nat → List β → Nat
  | pos, [] => pos
  | pos, b :: bs => endPos (pos + gap pos b + (data b).length) bs

/-- The length of all blocks. -/
def totalLength (bs : List β) : Nat := (bs.map fun b => (data b).length).sum

variable {gap data fill} {out : List γ} {b : β} {bs : List β} {c : γ} {pos q : Nat} {p p' : Nat × β}

@[simp] theorem length_appendBlock : (appendBlock gap data fill out b).length =
    out.length + gap out.length b + (data b).length := by
  rw [appendBlock, List.length_append, List.length_append, List.length_replicate]

/-! ## What is in the file -/

theorem prefix_foldl_appendBlock (bs : List β) (out : List γ) : out <+: bs.foldl (appendBlock gap data fill) out := by
  induction bs generalizing out with
  | nil => exact List.prefix_refl out
  | cons b bs ih =>
    refine List.IsPrefix.trans ?_ (ih (appendBlock gap data fill out b))
    rw [appendBlock, List.append_assoc]
    exact List.prefix_append _ _

theorem getElem?_appendBlock_iff (hc : c ≠ fill) : (appendBlock gap data fill out b)[q]? = some c ↔
    out[q]? = some c ∨ ∃ m, q = out.length + gap out.length b + m ∧ (data b)[m]? = some c := by
  have hfront : (out ++ List.replicate (gap out.length b) fill).length = out.length + gap out.length b := by
    rw [List.length_append, List.length_replicate]
  rw [appendBlock]
  by_cases hq : q < out.length + gap out.length b
  · -- in what was there, or in what was filled up
    rw [List.getElem?_append_left (by rw [hfront]; exact hq), List.getElem?_append]
    have hno : ¬ ∃ m, q = out.length + gap out.length b + m ∧ (data b)[m]? = some c := by
      rintro ⟨m, rfl, -⟩
      omega
    rw [or_iff_left hno]
    split
    · exact Iff.rfl
    · rename_i hge
      rw [List.getElem?_replicate, List.getElem?_eq_none (Nat.le_of_not_lt hge)]
      refine iff_of_false ?_ nofun
      split
      · exact fun h => hc (Option.some.inj h).symm
      · nofun
  · obtain ⟨m, rfl⟩ := Nat.exists_eq_add_of_le (Nat.le_of_not_lt hq)
    rw [List.getElem?_append_right (by rw [hfront]; exact Nat.le_add_right _ _), hfront, Nat.add_sub_cancel_left,
      List.getElem?_eq_none (show out.length ≤ out.length + gap out.length b + m by omega)]
    constructor
    · exact fun h => .inr ⟨m, rfl, h⟩
    · rintro (h | ⟨m', hm, h⟩)
      · cases h
      · rwa [Nat.add_left_cancel hm]

/-- Apart from what fills the gaps, the file has what was there and the blocks at their places. -/
theorem getElem?_foldl_appendBlock (hc : c ≠ fill) : (bs.foldl (appendBlock gap data fill) out)[q]? = some c ↔
    out[q]? = some c ∨ ∃ p ∈ placements gap data out.length bs, ∃ m, q = p.1 + m ∧ (data p.2)[m]? = some c := by
  induction bs generalizing out with
  | nil =>
    refine (or_iff_left ?_).symm
    rintro ⟨p, hp, -⟩
    cases hp
  | cons b bs ih =>
    rw [List.foldl_cons, ih, getElem?_appendBlock_iff hc, length_appendBlock, placements]
    simp only [List.mem_cons, exists_eq_or_imp, or_assoc]

/-- The places depend on the lengths only. -/
theorem map_foldl_appendBlock (f : γ → δ) : (bs.foldl (appendBlock gap data fill) out).map f =
    bs.foldl (appendBlock gap (fun b => (data b).map f) (f fill)) (out.map f) := by
  induction bs generalizing out with
  | nil => rfl
  | cons b bs ih => simp only [List.foldl_cons, ih, appendBlock, List.map_append, List.map_replicate, List.length_map]

/-! ## Where the blocks stand -/

theorem map_snd_placements : (placements gap data pos bs).map Prod.snd = bs := by
  induction bs generalizing pos with
  | nil => rfl
  | cons b bs ih => rw [placements, List.map_cons, ih]

theorem le_of_mem_placements (hp : p ∈ placements gap data pos bs) : pos ≤ p.1 := by
  induction bs generalizing pos with
  | nil => cases hp
  | cons b bs ih =>
    rcases List.mem_cons.mp hp with rfl | hp
    · exact Nat.le_add_right _ _
    · have hle := ih hp
      omega

/-- A block ends before the next one. -/
theorem pairwise_placements : (placements gap data pos bs).Pairwise fun p p' => p.1 + (data p.2).length ≤ p'.1 := by
  induction bs generalizing pos with
  | nil => exact .nil
  | cons b bs ih => exact .cons (fun p' hp' => le_of_mem_placements hp') ih

theorem mem_placements_iff : p ∈ placements gap data pos bs ↔ ∃ before after, bs = before ++ p.2 :: after ∧
    p.1 = endPos gap data pos before + gap (endPos gap data pos before) p.2 := by
  induction bs generalizing pos with
  | nil =>
    refine iff_of_false nofun ?_
    rintro ⟨before, after, h, -⟩
    cases before <;> cases h
  | cons b bs ih =>
    rw [placements, List.mem_cons, ih]
    constructor
    · rintro (rfl | ⟨before, after, rfl, hp⟩)
      · exact ⟨[], bs, rfl, rfl⟩
      · exact ⟨b :: before, after, rfl, hp⟩
    · rintro ⟨before, after, hbs, hp⟩
      cases before with
      | nil =>
        obtain ⟨rfl, rfl⟩ := List.cons.inj hbs
        exact .inl (Prod.ext hp rfl)
      | cons b' before =>
        obtain ⟨rfl, rfl⟩ := List.cons.inj hbs
        exact .inr ⟨before, after, rfl, hp⟩

/-- Two blocks of a file are one, or one of them ends before the other. -/
theorem placements_trichotomy {R : β → β → Prop} (hR : bs.Pairwise R) (hp : p ∈ placements gap data pos bs)
    (hp' : p' ∈ placements gap data pos bs) : p = p' ∨ (p.1 + (data p.2).length ≤ p'.1 ∧ R p.2 p'.2) ∨
      (p'.1 + (data p'.2).length ≤ p.1 ∧ R p'.2 p.2) := by
  have hsnd : (placements gap data pos bs).Pairwise fun p p' => R p.2 p'.2 := by
    rw [← List.pairwise_map, map_snd_placements]
    exact hR
  have hboth := pairwise_placements.and hsnd
  refine List.Pairwise.forall_of_forall_of_flip (R := fun p p' => p = p' ∨ (p.1 + (data p.2).length ≤ p'.1 ∧
    R p.2 p'.2) ∨ (p'.1 + (data p'.2).length ≤ p.1 ∧ R p'.2 p.2)) (fun p _ => .inl rfl) ?_ ?_ hp hp'
  · exact hboth.imp fun h => .inr (.inl h)
  · exact hboth.imp fun h => .inr (.inr h)

/-! ## Places that are not passed -/

/-- The gap goes up to the place of a block, as far as places count. -/
def Forward (gap : Nat → β → Nat) (target : β → Int) (bound : Nat) : Prop :=
  ∀ pos b, pos < bound → gap pos b = (target b - pos).toNat

variable {target : β → Int} {bound : Nat} {last : Int}

/-- The blocks end before a place when they do so from the start, and from the place of each of them. -/
theorem endPos_le_iff (h : Forward gap target bound) (hlast : last < bound) : endPos gap data pos bs ≤ last ↔
    pos + totalLength data bs ≤ last ∧ ∀ b l, (b :: l) <:+ bs → target b + totalLength data (b :: l) ≤ last := by
  induction bs generalizing pos with
  | nil =>
    refine (and_iff_left ?_).symm
    intro b l hl
    cases List.suffix_nil.mp hl
  | cons b bs ih =>
    rw [endPos, ih]
    have hsum : totalLength data (b :: bs) = (data b).length + totalLength data bs := by
      rw [totalLength, totalLength, List.map_cons, List.sum_cons]
    by_cases hpos : pos < bound
    · have hgap := h pos b hpos
      constructor
      · rintro ⟨hle, hall⟩
        refine ⟨by omega, fun b' l hl => ?_⟩
        rcases List.suffix_cons_iff.mp hl with heq | hl
        · obtain ⟨rfl, rfl⟩ := List.cons.inj heq
          omega
        · exact hall b' l hl
      · rintro ⟨hle, hall⟩
        have hb := hall b bs (List.suffix_refl _)
        exact ⟨by omega, fun b' l hl => hall b' l (hl.trans (List.suffix_cons b bs))⟩
    · -- the start is behind the place already
      exact iff_of_false (fun h => by omega) fun h => by omega

/-- A block stands at its place exactly when that was not passed. -/
theorem at_target_iff (h : Forward gap target bound) (hb : target b < bound) :
    ((pos + gap pos b : Nat) : Int) = target b ↔ (pos : Int) ≤ target b := by
  constructor
  · omega
  · intro hle
    have hgap := h pos b (by omega)
    omega

/-- No block stands before its place. -/
theorem target_le (h : Forward gap target bound) (hb : target b < bound) :
    target b ≤ ((pos + gap pos b : Nat) : Int) := by
  by_cases hpos : pos < bound
  · have hgap := h pos b hpos
    omega
  · omega

end Blocks

end Lib
