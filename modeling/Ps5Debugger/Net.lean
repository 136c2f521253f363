import Ps5Debugger.Lib.Bytes
import Mathlib.Tactic.IntervalCases

/-!
# Receiving from a client, and the words sent to it

`net_recv_all` (`net.c`), over the bytes a client still has to send before it closes the
connection. A receive that fails has stored what there was. `net_send_int32` sends a word with its
neighbouring bits swapped.
-/

namespace Ps5Debugger

open Lib

/-- `bitswap32`, the same function on both sides. -/
def bitswap32 (x : UInt32) : UInt32 :=
  (x >>> (1 : UInt32) &&& 0x55555555) ||| (x <<< (1 : UInt32) &&& 0xAAAAAAAA)

theorem bitswap32_bitswap32 (x : UInt32) : bitswap32 (bitswap32 x) = x := by
  have hone : UInt32.toBitVec 1 % 32 = 1#32 := by decide
  have hodd : UInt32.toBitVec 0x55555555 = 0x55555555#32 := rfl
  have heven : UInt32.toBitVec 0xAAAAAAAA = 0xAAAAAAAA#32 := rfl
  apply UInt32.toBitVec_inj.mp
  unfold bitswap32
  simp only [UInt32.toBitVec_or, UInt32.toBitVec_and, UInt32.toBitVec_shiftLeft, UInt32.toBitVec_shiftRight]
  rw [hone, hodd, heven]
  ext i hi
  interval_cases i <;> simp

/-- What `net_send_int32` sends. -/
def statusBytes (value : UInt32) : List Byte := leBytes 4 (bitswap32 value).toNat

/-- The longest chunk of one receive. -/
def NET_MAX_LENGTH : Int := 8192

/-- `recv(fd, p, chunk, MSG_WAITALL)` with the chunk for `left` bytes to go: less than that only
when the client has closed. -/
def recvChunk (s : List Byte) (left : Int) : List Byte :=
  s.take (if left > NET_MAX_LENGTH then NET_MAX_LENGTH else left).toNat

/-- What `net_recv_all` stored, whether it returned 0, and what is left to receive. -/
structure Recv where
  got : List Byte
  ok : Bool
  rest : List Byte

/-- `net_recv_all(fd, buf, left, 1)`; a length that is not positive receives nothing. -/
def netRecvAll (s : List Byte) (left : Int) : Recv :=
  if left > 0 then
    if _hn : recvChunk s left = [] then ⟨[], false, s⟩
    else
      let r := netRecvAll (s.drop (recvChunk s left).length) (left - (recvChunk s left).length)
      { r with got := recvChunk s left ++ r.got }
  else ⟨[], true, s⟩
termination_by left.toNat
decreasing_by
  have hpos : 0 < (recvChunk s left).length := List.length_pos_iff.mpr ‹_›
  omega

/-- A chunk is some of the bytes to go, and empty only at the end. -/
theorem recvChunk_spec (s : List Byte) {left : Int} (hleft : left > 0) :
    ∃ n ≤ left.toNat, recvChunk s left = s.take n ∧ n ≤ s.length ∧ (n = 0 → s = []) := by
  have hchunk : 0 < (if left > NET_MAX_LENGTH then NET_MAX_LENGTH else left).toNat ∧
      (if left > NET_MAX_LENGTH then NET_MAX_LENGTH else left).toNat ≤ left.toNat := by
    by_cases hbig : left > NET_MAX_LENGTH
    · rw [if_pos hbig]
      exact ⟨by decide, Int.toNat_le_toNat (le_of_lt hbig)⟩
    · rw [if_neg hbig]
      omega
  obtain ⟨hpos, hle⟩ := hchunk
  refine ⟨min (if left > NET_MAX_LENGTH then NET_MAX_LENGTH else left).toNat s.length, ?_, ?_, ?_, ?_⟩
  · exact (min_le_left _ _).trans hle
  · rw [recvChunk, List.take_eq_take_min]
  · exact min_le_right _ _
  · intro hzero
    exact List.eq_nil_of_length_eq_zero (by omega)

/-- **The loop receives one stretch of the stream**, and fails when the stream is shorter. -/
theorem netRecvAll_eq (s : List Byte) (left : Int) :
    netRecvAll s left = ⟨s.take left.toNat, left.toNat ≤ s.length, s.drop left.toNat⟩ := by
  induction hm : left.toNat using Nat.strong_induction_on generalizing s left with
  | _ m ih =>
    subst hm
    rw [netRecvAll]
    by_cases hleft : left > 0
    · obtain ⟨n, hn, hchunk, hns, hend⟩ := recvChunk_spec s hleft
      rw [if_pos hleft]
      by_cases hzero : n = 0
      · -- nothing came: the stream is at its end
        have hs := hend hzero
        subst hs
        rw [dif_pos (by rw [hchunk]; simp)]
        simp [hleft]
      · have hlen : (recvChunk s left).length = n := by rw [hchunk, List.length_take, min_eq_left hns]
        have hrest : (left - (n : Int)).toNat = left.toNat - n := by omega
        rw [dif_neg (by rw [hchunk]; exact List.ne_nil_of_length_pos (by rw [List.length_take]; omega)),
          hlen, ih _ (by omega) (s.drop n) (left - n) rfl, hchunk, hrest]
        simp only [List.length_drop, List.drop_drop, Recv.mk.injEq, decide_eq_decide]
        refine ⟨?_, by omega, by congr 1; omega⟩
        rw [← List.take_add]
        congr 1
        omega
    · have hzero : left.toNat = 0 := by omega
      rw [if_neg hleft, hzero]
      simp

/-- A 32-bit length as the `int` that `net_recv_all` takes: from `2^31` on it is negative. -/
theorem toNat_int (n : UInt32) : n.toInt32.toInt.toNat = if n.toNat < 2 ^ 31 then n.toNat else 0 := by
  show n.toBitVec.toInt.toNat = _
  have hlt := n.toNat_lt
  rw [BitVec.toInt_eq_toNat_cond, UInt32.toNat_toBitVec]
  by_cases h : n.toNat < 2 ^ 31
  · rw [if_pos (by omega), if_pos h, Int.toNat_natCast]
  · rw [if_neg (by omega), if_neg h]
    omega

/-- A prefix of known length. -/
theorem netRecvAll_append {p s : List Byte} {left : Int} (h : left = p.length) :
    netRecvAll (p ++ s) left = ⟨p, true, s⟩ := by
  have hlen : left.toNat = p.length := by omega
  rw [netRecvAll_eq, hlen]
  simp

end Ps5Debugger
