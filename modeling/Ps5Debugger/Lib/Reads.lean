import Ps5Debugger.Lib.Bytes
import Ps5Debugger.Lib.Ranges

/-!
# Computations that take down what they read

A computation over a buffer with the ranges it reads for its result. `Within` says that all of them lie
in the front of the buffer; it goes through the structure of the computation (`within_bind`,
`within_forUpTo`), with the values that were read on the way.
-/

namespace Lib

/-- A result, and the ranges that were read for it. -/
structure Reads (α : Type) where
  val : α
  ranges : List Range

namespace Reads

variable {α β σ : Type} {n l : Nat}

instance : Monad Reads where
  pure a := ⟨a, []⟩
  bind x f := ⟨(f x.val).val, x.ranges ++ (f x.val).ranges⟩

/-- A number of `size` bytes. -/
def load (b : Buf) (off size : Nat) : Reads Nat := ⟨leNat size (slice b off size), [⟨off, size⟩]⟩

/-- `for (i = 0; i < n; i++)` -/
def forUpTo : Nat → (Nat → σ → Reads σ) → σ → Reads σ
  | 0, _, s => pure s
  | n + 1, body, s => forUpTo n body s >>= body n

/-- All that is read lies in the first `l` bytes. -/
def Within (l : Nat) (x : Reads α) : Prop := ∀ r ∈ x.ranges, r.start + r.size ≤ l

/-! ## Values -/

@[simp] theorem val_pure (a : α) : (pure a : Reads α).val = a := rfl

@[simp] theorem val_bind (x : Reads α) (f : α → Reads β) : (x >>= f).val = (f x.val).val := rfl

/-- What a loop gathers is what its passes give. -/
theorem gathers_forUpTo {body : Nat → σ → Reads σ} {has : σ → α → Prop} {gives : Nat → α → Prop}
    (hbody : ∀ i s a, has (body i s).val a ↔ has s a ∨ gives i a) (s : σ) (a : α) :
    has (forUpTo n body s).val a ↔ has s a ∨ ∃ i < n, gives i a := by
  induction n with
  | zero => exact ⟨.inl, fun h => h.elim id fun ⟨i, hi, _⟩ => absurd hi (Nat.not_lt_zero i)⟩
  | succ n ih =>
    rw [forUpTo, val_bind, hbody, ih]
    constructor
    · rintro ((hs | ⟨i, hi, hgives⟩) | hgives)
      · exact .inl hs
      · exact .inr ⟨i, Nat.lt_succ_of_lt hi, hgives⟩
      · exact .inr ⟨n, Nat.lt_succ_self n, hgives⟩
    · rintro (hs | ⟨i, hi, hgives⟩)
      · exact .inl (.inl hs)
      · rcases Nat.lt_succ_iff_lt_or_eq.mp hi with hlt | rfl
        · exact .inl (.inr ⟨i, hlt, hgives⟩)
        · exact .inr hgives

/-! ## Ranges -/

@[simp] theorem within_pure (a : α) : (pure a : Reads α).Within l := nofun

@[simp] theorem within_load {b : Buf} {off size : Nat} : (load b off size).Within l ↔ off + size ≤ l := by
  simp [Within, load]

@[simp] theorem within_bind {x : Reads α} {f : α → Reads β} :
    (x >>= f).Within l ↔ x.Within l ∧ (f x.val).Within l :=
  List.forall_mem_append

/-- A loop reads what its passes read, each from where the passes before have come to. -/
theorem within_forUpTo {body : Nat → σ → Reads σ} {s : σ} :
    (forUpTo n body s).Within l ↔ ∀ i < n, (body i (forUpTo i body s).val).Within l := by
  induction n with
  | zero => exact iff_of_true (within_pure s) fun i hi => absurd hi (Nat.not_lt_zero i)
  | succ n ih => rw [forUpTo, within_bind, ih, Nat.forall_lt_succ_right]

end Reads

/-! ## Strings -/

/-- The number of bytes before the first zero, of at most so many. -/
def strlen (b : Buf) : Nat → Nat → Nat
  | 0, _ => 0
  | most + 1, off => if b off = 0 then 0 else strlen b most (off + 1) + 1

theorem strlen_lt_iff {b : Buf} {most off k : Nat} (hk : k ≤ most) :
    strlen b most off < k ↔ ∃ q, off ≤ q ∧ q < off + k ∧ b q = 0 := by
  induction most generalizing off k with
  | zero =>
    obtain rfl : k = 0 := by omega
    exact iff_of_false (Nat.not_lt_zero _) fun ⟨q, hle, hlt, _⟩ => by omega
  | succ most ih =>
    rw [strlen]
    by_cases hzero : b off = 0
    · rw [if_pos hzero]
      exact ⟨fun hpos => ⟨off, Nat.le_refl off, by omega, hzero⟩, fun ⟨q, hle, hlt, _⟩ => by omega⟩
    · rw [if_neg hzero]
      cases k with
      | zero => exact iff_of_false (by omega) fun ⟨q, hle, hlt, _⟩ => by omega
      | succ k =>
        rw [Nat.add_lt_add_iff_right, ih (Nat.le_of_succ_le_succ hk)]
        constructor
        · rintro ⟨q, hle, hlt, hq⟩
          exact ⟨q, by omega, by omega, hq⟩
        · rintro ⟨q, hle, hlt, hq⟩
          have hne : q ≠ off := by
            rintro rfl
            exact hzero hq
          exact ⟨q, by omega, by omega, hq⟩

/-- The bytes of a string are followed by a zero, or are as many as can be. -/
theorem strlen_eq_iff {b : Buf} {most off n : Nat} :
    strlen b most off = n ↔ n ≤ most ∧ (∀ i < n, b (off + i) ≠ 0) ∧ (n < most → b (off + n) = 0) := by
  induction most generalizing off n with
  | zero =>
    rw [strlen]
    constructor
    · rintro rfl
      exact ⟨Nat.le_refl 0, nofun, nofun⟩
    · rintro ⟨hle, -, -⟩
      exact (Nat.le_zero.mp hle).symm
  | succ most ih =>
    rw [strlen]
    split
    · rename_i hzero
      constructor
      · rintro rfl
        exact ⟨Nat.zero_le _, nofun, fun _ => hzero⟩
      · rintro ⟨-, hbytes, -⟩
        cases n with
        | zero => rfl
        | succ n => exact absurd hzero (hbytes 0 (Nat.zero_lt_succ n))
    · rename_i hbyte
      cases n with
      | zero => exact iff_of_false nofun fun ⟨_, _, hstop⟩ => hbyte (hstop (Nat.zero_lt_succ most))
      | succ n =>
        have hnext (i : Nat) : off + 1 + i = off + (i + 1) := by omega
        rw [Nat.add_right_cancel_iff, ih, Nat.add_le_add_iff_right, Nat.add_lt_add_iff_right,
          ← Nat.and_forall_add_one (p := fun i => i < n + 1 → b (off + i) ≠ 0)]
        simp only [hnext, Nat.add_lt_add_iff_right]
        exact ⟨fun ⟨hle, hbytes, hstop⟩ => ⟨hle, ⟨fun _ => hbyte, hbytes⟩, hstop⟩,
          fun ⟨hle, ⟨_, hbytes⟩, hstop⟩ => ⟨hle, hbytes, hstop⟩⟩

end Lib
