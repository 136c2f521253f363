import Mathlib.Data.BitVec
import Mathlib.Logic.Function.Basic

/-!
# Writes to places

A write of bytes from an address on, where each address stands for a place and two of them may stand for the same one:
the bytes go to the places of their addresses, one after the other (`putAll`). Two writes of which the second goes on
where the first ends are one (`putAll_append`). A write of which only some bytes arrived is `PartlyPut` done; the whole
write covers what had arrived (`PartlyPut.putAll_eq`).
-/

namespace Lib

variable {P α : Type} {w : Nat} {place : BitVec w → P}

namespace Places

/-- The memory after a write of `bs` from `a` on. -/
def putAll [DecidableEq P] (place : BitVec w → P) (m : P → α) (a : BitVec w) : List α → P → α
  | [] => m
  | b :: bs => putAll place (Function.update m (place a) b) (a + 1) bs

/-- The memory `m'` is `m` with some of the bytes of a write. -/
def PartlyPut (place : BitVec w → P) (m : P → α) (a : BitVec w) (bs : List α) (m' : P → α) : Prop :=
  ∀ q, m' q = m q ∨ ∃ i, place (a + BitVec.ofNat w i) = q ∧ bs[i]? = some (m' q)

variable {m m' m'' : P → α} {a : BitVec w} {bs cs : List α}

theorem add_ofNat_succ (a : BitVec w) (n : Nat) : a + BitVec.ofNat w (n + 1) = a + 1 + BitVec.ofNat w n := by
  rw [BitVec.add_assoc, Nat.add_comm, BitVec.ofNat_add]
  rfl

theorem PartlyPut.refl : PartlyPut place m a bs m := fun _ => .inl rfl

/-- Parts of two writes of which the second goes on where the first ends. -/
theorem PartlyPut.append (h : PartlyPut place m a bs m')
    (h' : PartlyPut place m' (a + BitVec.ofNat w bs.length) cs m'') :
    PartlyPut place m a (bs ++ cs) m'' := by
  intro q
  rcases h' q with hq | ⟨i, hplace, hbyte⟩
  · rw [hq]
    rcases h q with hq | ⟨i, hplace, hbyte⟩
    · exact .inl hq
    · refine .inr ⟨i, hplace, ?_⟩
      rwa [List.getElem?_append_left (List.getElem?_eq_some_iff.mp hbyte).1]
  · refine .inr ⟨bs.length + i, ?_, ?_⟩
    · rw [BitVec.ofNat_add, ← BitVec.add_assoc]
      exact hplace
    · rw [List.getElem?_append_right (Nat.le_add_right _ _), Nat.add_sub_cancel_left]
      exact hbyte

/-- Two tries at one write. -/
theorem PartlyPut.trans (h : PartlyPut place m a bs m') (h' : PartlyPut place m' a bs m'') :
    PartlyPut place m a bs m'' := by
  intro q
  rcases h' q with hq | hq
  · rw [hq]
    exact h q
  · exact .inr hq

variable [DecidableEq P]

theorem putAll_append :
    putAll place (putAll place m a bs) (a + BitVec.ofNat w bs.length) cs = putAll place m a (bs ++ cs) := by
  induction bs generalizing m a with
  | nil => rw [putAll, List.nil_append, List.length_nil, BitVec.add_zero]
  | cons b bs ih => rw [List.cons_append, putAll, putAll, List.length_cons, add_ofNat_succ, ih]

theorem partly_putAll : PartlyPut place m a bs (putAll place m a bs) := by
  induction bs generalizing m a with
  | nil => exact .refl
  | cons b bs ih =>
    have hone : PartlyPut place m a [b] (Function.update m (place a) b) := by
      intro q
      by_cases hq : q = place a
      · exact .inr ⟨0, by rw [hq, BitVec.add_zero], by rw [hq, Function.update_self]; rfl⟩
      · exact .inl (Function.update_of_ne hq b m)
    exact hone.append ih

/-- Memories that agree but where the write goes. -/
theorem putAll_congr (h : ∀ q, (∀ i < bs.length, place (a + BitVec.ofNat w i) ≠ q) → m' q = m q) :
    putAll place m' a bs = putAll place m a bs := by
  induction bs generalizing m m' a with
  | nil => exact funext fun q => h q fun i hi => absurd hi (Nat.not_lt_zero i)
  | cons b bs ih =>
    rw [putAll, putAll]
    refine ih fun q hq => ?_
    by_cases hfirst : q = place a
    · rw [hfirst, Function.update_self, Function.update_self]
    · rw [Function.update_of_ne hfirst, Function.update_of_ne hfirst]
      refine h q fun i hi => ?_
      cases i with
      | zero =>
        rw [BitVec.add_zero]
        exact Ne.symm hfirst
      | succ i =>
        rw [add_ofNat_succ]
        exact hq i (Nat.lt_of_succ_lt_succ hi)

/-- The whole write covers what had arrived of it. -/
theorem PartlyPut.putAll_eq (h : PartlyPut place m a bs m') : putAll place m' a bs = putAll place m a bs := by
  refine putAll_congr fun q hq => (h q).resolve_right ?_
  rintro ⟨i, hplace, hbyte⟩
  exact hq i (List.getElem?_eq_some_iff.mp hbyte).1 hplace

end Places

end Lib
