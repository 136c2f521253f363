import Mathlib

/-!
# Caches of a few slots

Values under keys in a fixed number of slots, which are filled one after the other. A slot without a value
is free. A value is checked before it is used, and its slot cleared if it does not pass.
-/

namespace Lib

variable {κ α : Type} [Zero α] {n : Nat}

structure SlotCache (κ α : Type) (n : Nat) where
  slots : Fin n → κ × α
  next : Fin n

namespace SlotCache

variable {c : SlotCache κ α n} {key key' : κ} {a a' : α} {valid : α → Bool}

/-- A slot has the value under the key. -/
def Holds (c : SlotCache κ α n) (key : κ) (a : α) : Prop := a ≠ 0 ∧ ∃ i, c.slots i = (key, a)

/-- The next slot gets a value. -/
def put [NeZero n] (c : SlotCache κ α n) (key : κ) (a : α) : SlotCache κ α n :=
  ⟨Function.update c.slots c.next (key, a), c.next + 1⟩

theorem holds_put [NeZero n] (h : (c.put key' a').Holds key a) : (key = key' ∧ a = a') ∨ c.Holds key a := by
  obtain ⟨hne, i, hi⟩ := h
  change Function.update c.slots c.next (key', a') i = (key, a) at hi
  by_cases hnext : i = c.next
  · rw [hnext, Function.update_self] at hi
    cases hi
    exact .inl ⟨rfl, rfl⟩
  · rw [Function.update_of_ne hnext] at hi
    exact .inr ⟨hne, i, hi⟩

/-! ## Clearing -/

section Clear

variable [Zero κ]

def clear (c : SlotCache κ α n) (i : Fin n) : SlotCache κ α n := { c with slots := Function.update c.slots i 0 }

/-- Free slots only. -/
def flush (c : SlotCache κ α n) : SlotCache κ α n := { c with slots := fun _ => 0 }

theorem not_holds_flush : ¬ c.flush.Holds key a := by
  rintro ⟨hne, i, hi⟩
  exact hne (congrArg Prod.snd hi).symm

theorem holds_clear {i : Fin n} (h : (c.clear i).Holds key a) : c.Holds key a := by
  obtain ⟨hne, j, hj⟩ := h
  change Function.update c.slots i 0 j = (key, a) at hj
  by_cases hij : j = i
  · rw [hij, Function.update_self] at hj
    exact absurd (congrArg Prod.snd hj).symm hne
  · rw [Function.update_of_ne hij] at hj
    exact ⟨hne, j, hj⟩

variable [DecidableEq κ]

/-- The slots of a key are cleared. -/
def drop (c : SlotCache κ α n) (key : κ) : SlotCache κ α n :=
  { c with slots := fun i => if (c.slots i).1 = key then 0 else c.slots i }

theorem holds_drop (h : (c.drop key').Holds key a) : key ≠ key' ∧ c.Holds key a := by
  obtain ⟨hne, i, hi⟩ := h
  change (if (c.slots i).1 = key' then 0 else c.slots i) = (key, a) at hi
  split at hi
  · exact absurd (congrArg Prod.snd hi).symm hne
  · rename_i hkey
    rw [hi] at hkey
    exact ⟨hkey, hne, i, hi⟩

end Clear

/-! ## Looking up -/

variable [DecidableEq κ] [DecidableEq α]

/-- The first slot of a key. -/
def find (c : SlotCache κ α n) (key : κ) : Option (Fin n) :=
  (List.finRange n).find? fun i => (c.slots i).1 = key ∧ (c.slots i).2 ≠ 0

theorem slots_of_find {i : Fin n} (h : c.find key = some i) : (c.slots i).1 = key ∧ (c.slots i).2 ≠ 0 := by
  have hslot := List.find?_some h
  exact of_decide_eq_true hslot

theorem holds_of_find {i : Fin n} (h : c.find key = some i) : c.Holds key (c.slots i).2 := by
  obtain ⟨hkey, hne⟩ := slots_of_find h
  exact ⟨hne, i, Prod.ext hkey rfl⟩

/-- The value in the first slot of a key if it passes; if it does not, the slot is cleared. -/
def check [Zero κ] (c : SlotCache κ α n) (key : κ) (valid : α → Bool) : Option α × SlotCache κ α n :=
  match c.find key with
  | some i => if valid (c.slots i).2 then (some (c.slots i).2, c) else (none, c.clear i)
  | none => (none, c)

variable [Zero κ]

theorem holds_check (h : (c.check key' valid).2.Holds key a) : c.Holds key a := by
  rw [check] at h
  split at h
  · split at h
    · exact h
    · exact holds_clear h
  · exact h

/-- A value that is found is held and passes. -/
theorem check_spec (h : (c.check key valid).1 = some a) : c.Holds key a ∧ valid a = true := by
  rw [check] at h
  split at h
  · rename_i i hi
    split at h
    · rename_i hvalid
      obtain rfl := Option.some_inj.mp h
      exact ⟨holds_of_find hi, hvalid⟩
    · cases h
  · cases h

/-! ## One slot a key -/

/-- No key has a value in two slots. -/
def Single (c : SlotCache κ α n) : Prop :=
  ∀ i j, (c.slots i).1 = (c.slots j).1 → (c.slots i).2 ≠ 0 → (c.slots j).2 ≠ 0 → i = j

omit [DecidableEq κ] [DecidableEq α] [Zero κ] in
theorem Single.put [NeZero n] (h : c.Single) (hfree : ∀ b, ¬ c.Holds key b) : (c.put key a).Single := by
  intro i j hkey hi hj
  change (Function.update c.slots c.next (key, a) i).1 = (Function.update c.slots c.next (key, a) j).1 at hkey
  change (Function.update c.slots c.next (key, a) i).2 ≠ 0 at hi
  change (Function.update c.slots c.next (key, a) j).2 ≠ 0 at hj
  by_cases hin : i = c.next <;> by_cases hjn : j = c.next
  · rw [hin, hjn]
  · rw [hin, Function.update_self, Function.update_of_ne hjn] at hkey
    rw [Function.update_of_ne hjn] at hj
    exact absurd ⟨hj, j, Prod.ext hkey.symm rfl⟩ (hfree _)
  · rw [hjn, Function.update_self, Function.update_of_ne hin] at hkey
    rw [Function.update_of_ne hin] at hi
    exact absurd ⟨hi, i, Prod.ext hkey rfl⟩ (hfree _)
  · rw [Function.update_of_ne hin, Function.update_of_ne hjn] at hkey
    rw [Function.update_of_ne hin] at hi
    rw [Function.update_of_ne hjn] at hj
    exact h i j hkey hi hj

omit [DecidableEq κ] [DecidableEq α] in
theorem Single.clear (h : c.Single) (k : Fin n) : (c.clear k).Single := by
  intro i j hkey hi hj
  change (Function.update c.slots k 0 i).1 = (Function.update c.slots k 0 j).1 at hkey
  change (Function.update c.slots k 0 i).2 ≠ 0 at hi
  change (Function.update c.slots k 0 j).2 ≠ 0 at hj
  have hik : i ≠ k := by
    rintro rfl
    rw [Function.update_self] at hi
    exact hi rfl
  have hjk : j ≠ k := by
    rintro rfl
    rw [Function.update_self] at hj
    exact hj rfl
  rw [Function.update_of_ne hik, Function.update_of_ne hjk] at hkey
  rw [Function.update_of_ne hik] at hi
  rw [Function.update_of_ne hjk] at hj
  exact h i j hkey hi hj

omit [DecidableEq κ] [DecidableEq α] in
theorem single_flush : c.flush.Single := by
  intro i j _ hi
  exact absurd rfl hi

theorem Single.check (h : c.Single) : (c.check key valid).2.Single := by
  rw [SlotCache.check]
  split
  · split
    · exact h
    · exact h.clear _
  · exact h

/-- What does not pass is not held any more. -/
theorem Single.not_holds_check (h : c.Single) (hnone : (c.check key valid).1 = none) :
    ∀ b, ¬ (c.check key valid).2.Holds key b := by
  rw [SlotCache.check] at hnone ⊢
  split at hnone
  · rename_i i hi
    split at hnone
    · cases hnone
    · rename_i hvalid
      rw [if_neg hvalid]
      rintro b ⟨hne, j, hj⟩
      change Function.update c.slots i 0 j = (key, b) at hj
      by_cases hij : j = i
      · rw [hij, Function.update_self] at hj
        exact hne (congrArg Prod.snd hj).symm
      · rw [Function.update_of_ne hij] at hj
        obtain ⟨hkey, hval⟩ := slots_of_find hi
        exact hij (h j i (by rw [hj, hkey]) (by rw [hj]; exact hne) hval)
  · rename_i hfind
    rintro b ⟨hne, j, hj⟩
    have hslot := List.find?_eq_none.mp hfind j (List.mem_finRange j)
    rw [hj] at hslot
    exact hslot (decide_eq_true ⟨rfl, hne⟩)

/-- What was found stays where it is. -/
theorem find_of_check (h : (c.check key valid).1 = some a) :
    (c.check key valid).2 = c ∧ ∃ i, c.find key = some i ∧ (c.slots i).2 = a := by
  rw [check] at h ⊢
  split at h
  · rename_i i hi
    split at h
    · rename_i hvalid
      rw [if_pos hvalid]
      exact ⟨rfl, i, hi, Option.some_inj.mp h⟩
    · cases h
  · cases h

omit [Zero κ] in
/-- What is put under a key that is not held is found there. -/
theorem find_put [NeZero n] (hfree : ∀ b, ¬ c.Holds key b) (hne : a ≠ 0) :
    (c.put key a).find key = some c.next ∧ ((c.put key a).slots c.next).2 = a := by
  have hnext : (c.put key a).slots c.next = (key, a) := Function.update_self _ _ _
  refine ⟨?_, congrArg Prod.snd hnext⟩
  cases hfind : (c.put key a).find key with
  | none =>
    have hslot := List.find?_eq_none.mp hfind c.next (List.mem_finRange _)
    rw [hnext] at hslot
    exact absurd (decide_eq_true ⟨rfl, hne⟩) hslot
  | some i =>
    obtain ⟨hkey, hval⟩ := slots_of_find hfind
    by_cases hi : i = c.next
    · rw [hi]
    · have hold : (c.put key a).slots i = c.slots i := Function.update_of_ne hi _ _
      rw [hold] at hkey hval
      exact absurd ⟨hval, i, Prod.ext hkey rfl⟩ (hfree _)

theorem check_of_find {i : Fin n} (hfind : c.find key = some i) (hvalid : valid (c.slots i).2 = true) :
    c.check key valid = (some (c.slots i).2, c) := by
  rw [check, hfind]
  exact if_pos hvalid

end SlotCache

end Lib
