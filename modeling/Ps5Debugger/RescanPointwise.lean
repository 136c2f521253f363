import Ps5Debugger.Rescan

/-!
# When rescans are pointwise

The reference for a rescan is pointwise: each candidate on its own, compared with the fresh
bytes at its own address. Both handlers look through a cached window instead, and a handler whose window
shows memory at every candidate is the reference.
-/

namespace Ps5Debugger

open Lib

/-- The fresh bytes at an address. -/
def freshAt (mem : Memory) (v a : Nat) : List Byte := slice (readMem mem a) 0 v

/-- The reference: the candidates whose fresh bytes match, in order, with those bytes. -/
def pointwise (mem : Memory) (base : Nat) (p : CountPass) (es : List Entry) : List ScanRecord :=
  (es.filter fun e => p.compare (freshAt mem p.valueLength (base + e.offset)) (p.prevFor e.prev)).map
    fun e => ⟨e.offset, freshAt mem p.valueLength (base + e.offset)⟩

theorem zip_map_self {α β : Type} (f : α → β) (l : List α) : l.zip (l.map f) = l.map fun a => (a, f a) := by
  have hboth := @List.zip_map' _ _ _ id f l
  rwa [List.map_id] at hboth

/-- A rescan that is served memory is the pointwise one. -/
theorem zip_filter_pointwise (mem : Memory) (base : Nat) (p : CountPass)
    (cmp : List Byte → Option (List Byte) → Bool)
    (hcmp : ∀ w own, cmp w (p.prevFor own) = p.compare w (p.prevFor own)) (es : List Entry) :
    ((es.zip (es.map fun e => freshAt mem p.valueLength (base + e.offset))).filter
        fun x => cmp x.2 (p.prevFor x.1.prev)).map (fun x => (⟨x.1.offset, x.2⟩ : ScanRecord)) =
      pointwise mem base p es := by
  rw [zip_map_self, List.filter_map, List.map_map, pointwise]
  simp only [Function.comp_def, hcmp]

/-- Memory as one buffer, the addresses wrapped. -/
theorem readMem_eq_zero (mem : Memory) (a i : Nat) : readMem mem a i = readMem mem 0 (a + i) := by
  rw [readMem, readMem, Nat.zero_add]

theorem slice_readMem_zero (mem : Memory) (a n : Nat) :
    slice (readMem mem 0) a n = slice (readMem mem a) 0 n :=
  slice_eq_iff.mpr fun i _ => by rw [readMem_eq_zero mem a, Nat.zero_add]

/-- Candidates of a chunk, at addresses that do not wrap. -/
theorem map_candidateAddr {base v : Nat} {es : List Entry} (hes : ∀ e ∈ es, base + e.offset + v < 2 ^ 64) :
    es.map (candidateAddr base) = es.map fun e => base + e.offset := by
  apply List.map_congr_left
  intro e he
  have := hes e he
  exact u64_of_lt (by omega)

/-- What a compare type does not need it does not look at. -/
theorem compareValues_unused {ct : CmpType} {scan scan' : List Byte} {prev prev' : Option (List Byte)}
    (hscan : ct.needsValue = true → scan = scan')
    (hprev : ct.needsPrevious = true ∨ ct = .valueBetween → prev = prev') (vt : ValType) (n : Nat)
    (mem : List Byte) (mask : Option (List Byte)) :
    compareValues ct vt n scan mem prev mask = compareValues ct vt n scan' mem prev' mask := by
  cases ct <;> simp only [CmpType.needsValue, CmpType.needsPrevious, reduceCtorEq, or_false, or_true,
    or_self, true_implies, Bool.false_eq_true, false_implies] at hscan hprev <;>
    (try subst hscan) <;> (try subst hprev) <;>
    first | rfl | (cases prev <;> rfl)

/-- What the prologue of the handlers makes of the value length. -/
theorem prepareCount_length {cp : ScanCountPacket} {data maskData : List Byte} {p : CountPass}
    (hp : prepareCount cp data maskData = some p) :
    p.valueLength ≤ 0x1000 ∧ (sizeOfValueType p.vt ≠ 0 → p.valueLength = sizeOfValueType p.vt) := by
  rw [prepareCount] at hp
  split at hp
  · cases hp
  · dsimp only at hp
    split at hp
    · cases hp
    · next hlen =>
      obtain rfl := Option.some.inj hp
      exact ⟨by simp only; omega, fun hsize => if_neg hsize⟩

end Ps5Debugger
