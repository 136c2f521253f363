import Mathlib.Data.List.Induction
import Mathlib.Logic.Function.Basic

/-!
# Words made of fields

A 64-bit word some of whose bits are divided among owners: owner `i` has the bits of `mask i`, no
bit has two owners, and the other bits belong to nobody. `setField` replaces the bits of one owner.
`Assembled` says what a word holds owner by owner; a word that is assembled from given values is
unique, `assemble` computes it, and replacing one field is replacing one value (`Assembled.set`).
-/

namespace Lib

/-! ## Bits of a word -/

def wordBit (w : UInt64) (n : Nat) : Bool := w.toBitVec.getLsbD n

section Bits

variable (a b : UInt64) (n : Nat)

@[simp] theorem wordBit_and : wordBit (a &&& b) n = (wordBit a n && wordBit b n) := by
  rw [wordBit, UInt64.toBitVec_and, BitVec.getLsbD_and]
  rfl

@[simp] theorem wordBit_or : wordBit (a ||| b) n = (wordBit a n || wordBit b n) := by
  rw [wordBit, UInt64.toBitVec_or, BitVec.getLsbD_or]
  rfl

@[simp] theorem wordBit_zero : wordBit 0 n = false := by simp [wordBit]

theorem wordBit_not (hn : n < 64) : wordBit (~~~a) n = !wordBit a n := by
  rw [wordBit, UInt64.toBitVec_not, BitVec.getLsbD_not, decide_eq_true hn, Bool.true_and]
  rfl

end Bits

theorem word_ext_iff {a b : UInt64} : a = b ↔ ∀ n < 64, wordBit a n = wordBit b n := by
  rw [← UInt64.toBitVec_inj]
  exact BitVec.eq_of_getLsbD_eq_iff

theorem or_and_distrib (a b m : UInt64) : (a ||| b) &&& m = (a &&& m) ||| (b &&& m) := by
  rw [word_ext_iff]
  intro n _
  simp only [wordBit_and, wordBit_or, Bool.and_or_distrib_right]

/-- A shifted word has no bits below. -/
theorem shiftLeft_and_mask (v k m : UInt64) : (v <<< k) &&& m = (v <<< k) &&& (((-1) <<< k) &&& m) := by
  have hk : v <<< k = (v <<< k) &&& ((-1) <<< k) := by
    rw [← UInt64.shiftLeft_and, UInt64.and_neg_one]
  rw [← UInt64.and_assoc, ← hk]

/-- `b` has no bit outside `m`. -/
theorem within_iff {b m : UInt64} : b &&& ~~~m = 0 ↔
    ∀ n < 64, wordBit b n = true → wordBit m n = true := by
  rw [word_ext_iff]
  refine forall₂_congr fun n hn => ?_
  rw [wordBit_and, wordBit_not m n hn, wordBit_zero]
  cases wordBit b n <;> cases wordBit m n <;> decide

/-! ## Replacing a field -/

/-- The bits of `m` are cleared and those of `f` set. -/
def setField (d m f : UInt64) : UInt64 := (d &&& ~~~m) ||| f

theorem wordBit_setField (d m f : UInt64) {n : Nat} (hn : n < 64) :
    wordBit (setField d m f) n = ((wordBit d n && !wordBit m n) || wordBit f n) := by
  rw [setField, wordBit_or, wordBit_and, wordBit_not m n hn]

/-- **What a value too wide for its field does.** It acts as the value `f` that fits exactly when
it agrees with `f` on the field and its bits outside are set already. -/
theorem setField_eq_iff {d m b f : UInt64} (hf : f &&& ~~~m = 0) :
    setField d m b = setField d m f ↔ b &&& m = f ∧ (b &&& ~~~m) &&& ~~~d = 0 := by
  rw [within_iff] at hf
  rw [word_ext_iff, word_ext_iff, word_ext_iff, ← forall₂_and]
  refine forall₂_congr fun n hn => ?_
  have hfn := hf n hn
  rw [wordBit_setField _ _ _ hn, wordBit_setField _ _ _ hn, wordBit_and, wordBit_and, wordBit_and,
    wordBit_not _ _ hn, wordBit_not _ _ hn, wordBit_zero]
  revert hfn
  cases wordBit d n <;> cases wordBit m n <;> cases wordBit b n <;> cases wordBit f n <;> decide

/-- Replacing a field changes nothing exactly when the field holds the value already. -/
theorem setField_self_iff {d m b : UInt64} :
    setField d m b = d ↔ b &&& m = d &&& m ∧ (b &&& ~~~m) &&& ~~~d = 0 := by
  have hf : (d &&& m) &&& ~~~m = 0 := by
    rw [within_iff]
    intro n _ h
    rw [wordBit_and, Bool.and_eq_true] at h
    exact h.2
  have hself : setField d m (d &&& m) = d := by
    rw [word_ext_iff]
    intro n hn
    rw [wordBit_setField _ _ _ hn, wordBit_and]
    cases wordBit d n <;> cases wordBit m n <;> rfl
  rw [← setField_eq_iff hf, hself]

/-! ## Words by owner -/

variable {ι : Type} {mask : ι → UInt64} {init w v : UInt64} {vals : ι → Option UInt64}

/-- The word `w` holds the value given for each owner, and everywhere else what `init` does. -/
structure Assembled (mask : ι → UInt64) (init : UInt64) (vals : ι → Option UInt64) (w : UInt64) :
    Prop where
  field : ∀ i, w &&& mask i = (vals i).getD (init &&& mask i)
  rest : ∀ n < 64, (∀ i, wordBit (mask i) n = false) → wordBit w n = wordBit init n

theorem Assembled.none (mask : ι → UInt64) (init : UInt64) : Assembled mask init (fun _ => none) init :=
  ⟨fun _ => rfl, fun _ _ _ => rfl⟩

/-- The values decide the word. -/
theorem Assembled.unique (h : Assembled mask init vals w) (h' : Assembled mask init vals v) : w = v := by
  rw [word_ext_iff]
  intro n hn
  by_cases hall : ∀ i, wordBit (mask i) n = false
  · rw [h.rest n hn hall, h'.rest n hn hall]
  · obtain ⟨i, hi⟩ := not_forall.mp hall
    rw [Bool.not_eq_false] at hi
    have hfield := congrArg (wordBit · n) ((h.field i).trans (h'.field i).symm)
    simpa only [wordBit_and, hi, Bool.and_true] using hfield

/-- The fields of the owners in `is` are replaced one after another. -/
def assemble (mask : ι → UInt64) (init : UInt64) (vals : ι → Option UInt64) (is : List ι) : UInt64 :=
  is.foldl (fun w i => match vals i with
    | some f => setField w (mask i) f
    | none => w) init

section Set

variable [DecidableEq ι] (hdisj : ∀ i j, i ≠ j → mask i &&& mask j = 0)

include hdisj

/-- Replacing the field of `i` replaces the value of `i`. -/
theorem Assembled.set (h : Assembled mask init vals w) {i : ι} {f : UInt64} (hf : f &&& ~~~mask i = 0) :
    Assembled mask init (Function.update vals i (some f)) (setField w (mask i) f) := by
  rw [within_iff] at hf
  refine ⟨fun j => ?_, fun n hn hall => ?_⟩
  · by_cases hji : j = i
    · subst hji
      rw [Function.update_self, Option.getD_some, word_ext_iff]
      intro n hn
      have hfn := hf n hn
      rw [wordBit_and, wordBit_setField _ _ _ hn]
      revert hfn
      cases wordBit w n <;> cases wordBit (mask j) n <;> cases wordBit f n <;> decide
    · rw [Function.update_of_ne hji, ← h.field j, word_ext_iff]
      intro n hn
      have hfn := hf n hn
      -- a bit of `j` is not one of `i`
      have hij := word_ext_iff.mp (hdisj i j (Ne.symm hji)) n hn
      rw [wordBit_and, wordBit_zero] at hij
      rw [wordBit_and, wordBit_and, wordBit_setField _ _ _ hn]
      revert hfn hij
      cases wordBit w n <;> cases wordBit (mask i) n <;> cases wordBit (mask j) n <;>
        cases wordBit f n <;> decide
  · rw [← h.rest n hn hall, wordBit_setField _ _ _ hn, hall i]
    have hfn : wordBit f n = false := by
      by_contra hne
      exact absurd (hf n hn (by simpa using hne)) (by simp [hall i])
    simp [hfn]

/-- The word that is computed from the values is the word assembled from them. -/
theorem assembled_assemble (hvals : ∀ i f, vals i = some f → f &&& ~~~mask i = 0) {is : List ι}
    (hall : ∀ i, i ∈ is) : Assembled mask init vals (assemble mask init vals is) := by
  have hprefix : Assembled mask init (fun i => if i ∈ is then vals i else none)
      (assemble mask init vals is) := by
    clear hall
    induction is using List.reverseRecOn with
    | nil => simpa [assemble] using Assembled.none mask init
    | append_singleton is i ih =>
      have hstep : assemble mask init vals (is ++ [i]) = match vals i with
          | some f => setField (assemble mask init vals is) (mask i) f
          | none => assemble mask init vals is := by
        rw [assemble, List.foldl_append]
        rfl
      rw [hstep]
      cases hi : vals i with
      | none =>
        convert ih using 2 with j
        by_cases hj : j = i
        · subst hj
          simp [hi]
        · simp [hj]
      | some f =>
        convert ih.set hdisj (hvals i f hi) using 1
        funext j
        by_cases hj : j = i
        · subst hj
          simp [hi]
        · simp [hj]
  convert hprefix using 2 with i
  rw [if_pos (hall i)]

end Set

end Lib
