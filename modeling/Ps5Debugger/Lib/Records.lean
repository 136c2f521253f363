import Ps5Debugger.Lib.Bytes

/-!
# Records of one length, one after the other

A file of records, `l.flatMap f` with all `f x` of length `n`: skipping and cutting at record
boundaries is skipping and cutting the list, and the bytes of record `k` are a slice.
-/

namespace Lib

variable {α : Type} {f : α → List Byte} {n : Nat}

theorem length_records : ∀ {l : List α}, (∀ x ∈ l, (f x).length = n) → (l.flatMap f).length = l.length * n
  | [], _ => by simp
  | x :: l, h => by
    have hx := h x List.mem_cons_self
    have hl := length_records fun y hy => h y (List.mem_cons_of_mem x hy)
    rw [List.flatMap_cons, List.length_append, hx, hl, List.length_cons]
    ring

theorem drop_records : ∀ {l : List α}, (∀ x ∈ l, (f x).length = n) → ∀ i,
    (l.flatMap f).drop (i * n) = (l.drop i).flatMap f
  | _, _, 0 => by rw [Nat.zero_mul, List.drop_zero, List.drop_zero]
  | [], _, i + 1 => by rw [List.flatMap_nil, List.drop_nil, List.drop_nil, List.flatMap_nil]
  | x :: l, h, i + 1 => by
    have hx := h x List.mem_cons_self
    have hl := drop_records (fun y hy => h y (List.mem_cons_of_mem x hy)) i
    rw [List.flatMap_cons, List.drop_succ_cons, ← hl, Nat.succ_mul, Nat.add_comm, ← hx,
      List.drop_length_add_append]

theorem take_records : ∀ {l : List α}, (∀ x ∈ l, (f x).length = n) → ∀ i,
    (l.flatMap f).take (i * n) = (l.take i).flatMap f
  | _, _, 0 => by rw [Nat.zero_mul, List.take_zero, List.take_zero, List.flatMap_nil]
  | [], _, i + 1 => by rw [List.flatMap_nil, List.take_nil, List.take_nil, List.flatMap_nil]
  | x :: l, h, i + 1 => by
    have hx := h x List.mem_cons_self
    have hl := take_records (fun y hy => h y (List.mem_cons_of_mem x hy)) i
    rw [List.flatMap_cons, List.take_succ_cons, List.flatMap_cons, ← hl, Nat.succ_mul, Nat.add_comm, ← hx,
      List.take_length_add_append]

/-- A range of a list of bytes, cut out of it. -/
theorem slice_ofList_eq {l : List Byte} {off len : Nat} (h : off + len ≤ l.length) :
    slice (ofList l) off len = (l.drop off).take len := by
  apply List.ext_getElem?
  intro i
  rw [getElem?_slice, List.getElem?_take, List.getElem?_drop]
  split
  · next hi =>
    rw [ofList, List.getD_eq_getElem?_getD, List.getElem?_eq_getElem (by omega), Option.getD_some]
  · rfl

/-- The bytes of record `k`. -/
theorem slice_records {l : List α} (h : ∀ x ∈ l, (f x).length = n) {k : Nat} {x : α} (hx : l[k]? = some x) :
    slice (ofList (l.flatMap f)) (k * n) n = f x := by
  obtain ⟨hk, rfl⟩ := List.getElem?_eq_some_iff.mp hx
  have hn := h _ (List.getElem_mem hk)
  have hroom : (k + 1) * n ≤ l.length * n := Nat.mul_le_mul_right n hk
  rw [Nat.succ_mul] at hroom
  rw [slice_ofList_eq (by rw [length_records h]; exact hroom), drop_records h, List.drop_eq_getElem_cons hk,
    List.flatMap_cons, ← hn, List.take_left]

end Lib
