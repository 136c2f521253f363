import Mathlib.Data.BitVec

/-!
# Flat writes

A write of bytes to the places from an address on, in a memory whose addresses wrap. `flatWrite_append`: two writes
of which the second goes on where the first ends are one. A write of which only some bytes arrived is `Partly` done;
the whole write covers them (`Partly.flatWrite_eq`).
-/

namespace Lib

variable {α : Type} {w : Nat}

/-- The memory after a write of `bs` from `a` on. -/
def flatWrite (m : BitVec w → α) (a : BitVec w) (bs : List α) : BitVec w → α := fun x => bs.getD (x - a).toNat (m x)

/-- The memory `m'` is `m` with some of the bytes of a write. -/
def Partly (m : BitVec w → α) (a : BitVec w) (bs : List α) (m' : BitVec w → α) : Prop :=
  ∀ x, m' x = m x ∨ m' x = flatWrite m a bs x

variable {m m' m'' : BitVec w → α} {a : BitVec w} {bs cs : List α}

theorem flatWrite_of_lt {x : BitVec w} (h : (x - a).toNat < bs.length) : flatWrite m a bs x = bs[(x - a).toNat] := by
  rw [flatWrite, List.getD_eq_getElem?_getD, List.getElem?_eq_getElem h, Option.getD_some]

theorem flatWrite_of_le {x : BitVec w} (h : bs.length ≤ (x - a).toNat) : flatWrite m a bs x = m x := by
  rw [flatWrite, List.getD_eq_getElem?_getD, List.getElem?_eq_none h, Option.getD_none]

theorem flatWrite_nil : flatWrite m a [] = m := funext fun _ => flatWrite_of_le (Nat.zero_le _)

/-- How far a place is behind the end of the first `n`. -/
theorem toNat_sub_add {x : BitVec w} {n : Nat} (hn : n ≤ 2 ^ w) :
    (x - (a + BitVec.ofNat w n)).toNat =
      if n ≤ (x - a).toNat then (x - a).toNat - n else (x - a).toNat + 2 ^ w - n := by
  have hlt := (x - a).isLt
  rw [← BitVec.sub_sub, BitVec.toNat_sub, BitVec.toNat_ofNat]
  rcases Nat.lt_or_eq_of_le hn with hn | rfl
  · rw [Nat.mod_eq_of_lt hn]
    split
    · rename_i hle
      have hsum : 2 ^ w - n + (x - a).toNat = 2 ^ w + ((x - a).toNat - n) := by omega
      rw [hsum, Nat.add_mod_left, Nat.mod_eq_of_lt (by omega)]
    · rw [Nat.mod_eq_of_lt (by omega)]
      omega
  · rw [Nat.mod_self, if_neg (by omega), Nat.sub_zero, Nat.add_mod_left, Nat.mod_eq_of_lt hlt]
    omega

/-- A write that goes on where another ends. -/
theorem flatWrite_append (h : bs.length + cs.length ≤ 2 ^ w) :
    flatWrite (flatWrite m a bs) (a + BitVec.ofNat w bs.length) cs = flatWrite m a (bs ++ cs) := by
  funext x
  have hlt := (x - a).isLt
  have hfar := @toNat_sub_add w a x bs.length (by omega)
  by_cases hle : bs.length ≤ (x - a).toNat
  · rw [if_pos hle] at hfar
    rw [flatWrite, flatWrite_of_le hle, flatWrite, hfar, List.getD_eq_getElem?_getD, List.getD_eq_getElem?_getD,
      List.getElem?_append_right hle]
  · rw [if_neg hle] at hfar
    have happ : (x - a).toNat < (bs ++ cs).length := by
      rw [List.length_append]
      omega
    rw [flatWrite_of_le (by omega), flatWrite_of_lt (by omega), flatWrite_of_lt happ, List.getElem_append_left]

theorem partly_flatWrite : Partly m a bs (flatWrite m a bs) := fun _ => .inr rfl

/-- The whole write covers what had arrived of it. -/
theorem Partly.flatWrite_eq (h : Partly m a bs m') : flatWrite m' a bs = flatWrite m a bs := by
  funext x
  by_cases hlt : (x - a).toNat < bs.length
  · rw [flatWrite_of_lt hlt, flatWrite_of_lt hlt]
  · have hle := Nat.le_of_not_lt hlt
    rw [flatWrite_of_le hle, flatWrite_of_le hle]
    rcases h x with hx | hx
    · exact hx
    · rw [hx, flatWrite_of_le hle]

end Lib
