import Mathlib.Data.List.Nodup

/-!
# The first of each key

`distinctBy` keeps, of the members of a list that have the same key, the first one.
-/

namespace Lib

variable {α κ : Type} [DecidableEq κ] {key : α → κ} {l : List α} {a b : α}

def distinctBy (key : α → κ) : List α → List α
  | [] => []
  | a :: l => a :: (distinctBy key l).filter (key · ≠ key a)

theorem distinctBy_nil : distinctBy key [] = [] := rfl

theorem distinctBy_cons : distinctBy key (a :: l) = a :: (distinctBy key l).filter (key · ≠ key a) := rfl

theorem distinctBy_sublist : (distinctBy key l).Sublist l := by
  induction l with
  | nil => exact .slnil
  | cons a l ih => exact (List.filter_sublist.trans ih).cons_cons a

/-- Nothing is dropped where no two keys are the same. -/
theorem distinctBy_of_nodup (h : (l.map key).Nodup) : distinctBy key l = l := by
  induction l with
  | nil => rfl
  | cons a l ih =>
    obtain ⟨hno, htail⟩ := List.nodup_cons.mp h
    rw [distinctBy_cons, ih htail, List.filter_eq_self.mpr]
    intro b hb
    exact decide_eq_true fun heq => hno (heq ▸ List.mem_map_of_mem hb)

/-- Nothing is lost where the members of a key are the same. -/
theorem mem_distinctBy (hinj : ∀ a ∈ l, ∀ b ∈ l, key a = key b → a = b) : a ∈ distinctBy key l ↔ a ∈ l := by
  refine ⟨fun ha => distinctBy_sublist.subset ha, fun ha => ?_⟩
  induction l with
  | nil => cases ha
  | cons c l ih =>
    rw [distinctBy_cons, List.mem_cons]
    by_cases hkey : key a = key c
    · exact .inl (hinj a ha c (List.mem_cons_self ..) hkey)
    · have hmem : a ∈ l := (List.mem_cons.mp ha).resolve_left fun heq => hkey (heq ▸ rfl)
      have hrest := ih (fun x hx y hy => hinj x (List.mem_cons_of_mem _ hx) y (List.mem_cons_of_mem _ hy)) hmem
      exact .inr (List.mem_filter.mpr ⟨hrest, decide_eq_true hkey⟩)

theorem nodup_distinctBy : ((distinctBy key l).map key).Nodup := by
  induction l with
  | nil => exact .nil
  | cons a l ih =>
    rw [distinctBy_cons, List.map_cons, List.nodup_cons]
    refine ⟨fun hmem => ?_, ih.sublist (List.filter_sublist.map key)⟩
    obtain ⟨b, hb, heq⟩ := List.mem_map.mp hmem
    exact of_decide_eq_true (List.mem_filter.mp hb).2 heq

/-- Of the second of two lists what is left has a key that the first does not have. -/
theorem distinctBy_append {l' : List α} :
    distinctBy key (l ++ l') = distinctBy key l ++ (distinctBy key l').filter fun a => key a ∉ l.map key := by
  induction l with
  | nil =>
    rw [List.nil_append, distinctBy_nil, List.nil_append, List.filter_eq_self.mpr]
    exact fun _ _ => decide_eq_true List.not_mem_nil
  | cons a l ih =>
    rw [List.cons_append, distinctBy_cons, distinctBy_cons, ih, List.filter_append, List.filter_filter, List.cons_append]
    congr 2
    refine List.filter_congr fun b _ => ?_
    rw [← Bool.decide_and, decide_eq_decide, List.map_cons, List.mem_cons, not_or]

theorem mem_keys_distinctBy {k : κ} : k ∈ (distinctBy key l).map key ↔ k ∈ l.map key := by
  induction l with
  | nil => rfl
  | cons a l ih =>
    rw [distinctBy_cons, List.map_cons, List.map_cons, List.mem_cons, List.mem_cons, ← ih]
    simp only [List.mem_map, List.mem_filter, decide_eq_true_iff]
    constructor
    · rintro (heq | ⟨b, ⟨hb, -⟩, heq⟩)
      · exact .inl heq
      · exact .inr ⟨b, hb, heq⟩
    · rintro (heq | ⟨b, hb, rfl⟩)
      · exact .inl heq
      · by_cases hkey : key b = key a
        · exact .inl hkey
        · exact .inr ⟨b, ⟨hb, hkey⟩, rfl⟩

/-- The first so many that are distinct can be told from the first so many of a part. -/
theorem take_distinctBy_append (n : Nat) (l l' : List α) :
    (distinctBy key ((distinctBy key l).take n ++ l')).take n = (distinctBy key (l ++ l')).take n := by
  have htake : distinctBy key ((distinctBy key l).take n) = (distinctBy key l).take n :=
    distinctBy_of_nodup (nodup_distinctBy.sublist ((List.take_sublist _ _).map key))
  rw [distinctBy_append, distinctBy_append, htake]
  rcases Nat.le_total (distinctBy key l).length n with hle | hge
  · -- nothing is cut off
    rw [List.take_of_length_le hle]
    refine congrArg (fun rest => (distinctBy key l ++ rest).take n) (List.filter_congr fun a _ => ?_)
    rw [decide_eq_decide, mem_keys_distinctBy]
  · rw [List.take_append_of_le_length (by rw [List.length_take]; omega), List.take_append_of_le_length hge,
      List.take_take, Nat.min_self]

end Lib
