import Ps5Debugger.Lib.Bytes

/-!
# Moves between two layouts

The same fields at different offsets of two buffers: a move loads an unsigned word from one and stores it in the
other, narrowed or widened to the width of the place. Moves whose places do not meet give each place its own
word (`runMoves_inside`) and leave the bytes between the places alone (`runMoves_outside`), so that moves there
and back keep what the narrower of the two places holds.
-/

namespace Lib

/-- A word from the source to a place of the destination. -/
structure Move where
  dst : Nat
  width : Nat
  src : Nat
  srcWidth : Nat
  deriving DecidableEq

/-- What is stored of a word that was loaded. -/
theorem getD_leBytes_leNat : ∀ (w v : Nat) (p : List Byte) {j : Nat}, j < w →
    (leBytes w (leNat v p)).getD j 0 = if j < v then p.getD j 0 else 0
  | w + 1, 0, p, j, hj => by
    rw [if_neg (Nat.not_lt_zero j), leNat, leBytes]
    cases j with
    | zero => rfl
    | succ j =>
      have ih := getD_leBytes_leNat w 0 p (Nat.lt_of_succ_lt_succ hj)
      rw [if_neg (Nat.not_lt_zero j), leNat] at ih
      rw [List.getD_cons_succ, Nat.zero_div, ih]
  | w + 1, v + 1, p, j, hj => by
    have hbyte : (p.headD 0).toNat < 256 := (p.headD 0).isLt
    have hrest : ((p.headD 0).toNat + 256 * leNat v p.tail) / 256 = leNat v p.tail := by omega
    rw [leNat, leBytes, hrest]
    cases j with
    | zero =>
      rw [List.getD_cons_zero, if_pos (Nat.succ_pos v)]
      have hhead : p.headD 0 = p.getD 0 0 := by cases p <;> rfl
      apply BitVec.eq_of_toNat_eq
      rw [BitVec.toNat_ofNat, ← hhead]
      omega
    | succ j =>
      have htail : p.tail.getD j 0 = p.getD (j + 1) 0 := by cases p <;> simp
      rw [List.getD_cons_succ, getD_leBytes_leNat w v p.tail (Nat.lt_of_succ_lt_succ hj), htail]
      exact if_congr (by omega) rfl rfl

namespace Move

/-- `*(uintW_t *)(dst + d) = (uintW_t)*(uintV_t *)(src + s)` -/
def run (m : Move) (dst src : Buf) : Buf :=
  blit dst m.dst (ofList (leBytes m.width (leNat m.srcWidth (slice src m.src m.srcWidth)))) m.width

/-- The place has the byte. -/
def Covers (m : Move) (x : Nat) : Prop := m.dst ≤ x ∧ x < m.dst + m.width

instance (m : Move) (x : Nat) : Decidable (m.Covers x) := inferInstanceAs (Decidable (_ ∧ _))

/-- The places of two moves do not meet. -/
def Apart (m m' : Move) : Prop := m.dst + m.width ≤ m'.dst ∨ m'.dst + m'.width ≤ m.dst

instance (m m' : Move) : Decidable (m.Apart m') := inferInstanceAs (Decidable (_ ∨ _))

/-- The move in the other direction. -/
def back (m : Move) : Move := ⟨m.src, m.srcWidth, m.dst, m.width⟩

variable {m : Move} {dst src : Buf} {x j : Nat}

theorem run_inside (hj : j < m.width) : m.run dst src (m.dst + j) = if j < m.srcWidth then src (m.src + j) else 0 := by
  rw [run, blit_inside hj, ofList, getD_leBytes_leNat _ _ _ hj]
  by_cases hsrc : j < m.srcWidth
  · rw [if_pos hsrc, if_pos hsrc, getD_slice hsrc]
  · rw [if_neg hsrc, if_neg hsrc]

theorem run_outside (h : ¬ m.Covers x) : m.run dst src x = dst x := by
  rw [Covers] at h
  exact blit_outside (by omega)

end Move

/-- Moves one after the other. -/
def runMoves (ms : List Move) (dst src : Buf) : Buf := ms.foldl (fun dst m => m.run dst src) dst

variable {ms : List Move} {m : Move} {dst src : Buf} {x j : Nat}

theorem runMoves_outside (h : ∀ m ∈ ms, ¬ m.Covers x) : runMoves ms dst src x = dst x := by
  induction ms generalizing dst with
  | nil => rfl
  | cons m ms ih =>
    have hrest := @ih (m.run dst src) fun m' hm' => h m' (List.mem_cons_of_mem m hm')
    exact hrest.trans (Move.run_outside (h m List.mem_cons_self))

/-- Each place has its own word. -/
theorem runMoves_inside (h : ms.Pairwise Move.Apart) (hm : m ∈ ms) (hj : j < m.width) :
    runMoves ms dst src (m.dst + j) = if j < m.srcWidth then src (m.src + j) else 0 := by
  induction ms generalizing dst with
  | nil => cases hm
  | cons m' ms ih =>
    obtain ⟨hapart, hrest⟩ := List.pairwise_cons.mp h
    rcases List.mem_cons.mp hm with rfl | hm
    · -- the later moves have other places
      have houtside : ∀ m' ∈ ms, ¬ m'.Covers (m.dst + j) := by
        intro m' hm' hcovers
        have hne := hapart m' hm'
        rw [Move.Apart] at hne
        rw [Move.Covers] at hcovers
        omega
      exact (runMoves_outside houtside).trans (Move.run_inside hj)
    · exact ih hrest hm

/-- What was moved into another layout comes back. -/
theorem runMoves_back (h : ms.Pairwise Move.Apart) (hback : (ms.map Move.back).Pairwise Move.Apart) (hm : m ∈ ms)
    (hj : j < m.width) (hwide : m.width ≤ m.srcWidth) (dst' : Buf) :
    runMoves ms dst' (runMoves (ms.map Move.back) dst src) (m.dst + j) = src (m.dst + j) := by
  have hmem : m.back ∈ ms.map Move.back := List.mem_map_of_mem hm
  rw [runMoves_inside h hm hj, if_pos (hj.trans_le hwide)]
  have hthere := @runMoves_inside _ _ dst src j hback hmem (hj.trans_le hwide)
  exact hthere.trans (if_pos hj)

/-- What was moved from a layout is put back as it was, without the bytes that the other one had no room for. -/
theorem runMoves_back_self (h : ms.Pairwise Move.Apart) (hback : (ms.map Move.back).Pairwise Move.Apart) (hm : m ∈ ms)
    (hj : j < m.srcWidth) (dst' : Buf) :
    runMoves (ms.map Move.back) src (runMoves ms dst' src) (m.src + j) = if j < m.width then src (m.src + j) else 0 := by
  have hmem : m.back ∈ ms.map Move.back := List.mem_map_of_mem hm
  refine (runMoves_inside hback hmem hj).trans ?_
  by_cases hroom : j < m.width
  · have hput := @runMoves_inside _ _ dst' src j h hm hroom
    rw [if_pos hroom]
    exact (if_pos hroom).trans (hput.trans (if_pos hj))
  · rw [if_neg hroom]
    exact if_neg hroom

end Lib
