import Ps5Debugger.Aob

/-!
# The first-byte dispatch

`aob_build_dispatch` is a counting sort: it counts the patterns of each first byte, turns the
counts into offsets, and scatters the pattern numbers behind them. The invariant of the scatter
loop is `DispatchInv`: the two index arrays hold the numbers seen so far, by first byte. What
the search uses of it is that a position tests every pattern whose first byte fits, once
(`mem_tested`, `tested_nodup`).
-/

namespace Ps5Debugger

open Lib

/-- The numbers of the patterns whose `first_fixed` is `key`, in order. -/
def keyed (xs : List (AobPat × Nat)) (key : Option Byte) : List Nat :=
  (xs.filter fun x => x.1.firstFixed == key).map Prod.snd

theorem keyed_concat (xs : List (AobPat × Nat)) (x : AobPat × Nat) (key : Option Byte) :
    keyed (xs ++ [x]) key = keyed xs key ++ if x.1.firstFixed = key then [x.2] else [] := by
  rw [keyed, List.filter_append, List.map_append, ← keyed]
  by_cases h : x.1.firstFixed = key
  · simp [h]
  · simp [h]

theorem keyed_concat_self {xs : List (AobPat × Nat)} {x : AobPat × Nat} {key : Option Byte}
    (h : x.1.firstFixed = key) : keyed (xs ++ [x]) key = keyed xs key ++ [x.2] := by
  rw [keyed_concat, if_pos h]

theorem keyed_concat_ne {xs : List (AobPat × Nat)} {x : AobPat × Nat} {key : Option Byte}
    (h : x.1.firstFixed ≠ key) : keyed (xs ++ [x]) key = keyed xs key := by
  rw [keyed_concat, if_neg h, List.append_nil]

/-! ## Counting -/

theorem bump_self (c : Nat → Nat) (b : Byte) : bump c b b.toNat = c b.toNat + 1 :=
  Function.update_self ..

theorem bump_ne (c : Nat → Nat) {b b' : Byte} (h : b' ≠ b) : bump c b b'.toNat = c b'.toNat :=
  Function.update_of_ne (fun heq => h (BitVec.eq_of_toNat_eq heq)) ..

/-- `bcount` counts the patterns of each first byte. -/
theorem aobBcount_eq (xs : List (AobPat × Nat)) (b : Byte) :
    aobBcount (xs.map Prod.fst) b.toNat = (keyed xs (some b)).length := by
  induction xs using List.reverseRecOn with
  | nil => rfl
  | append_singleton xs x ih =>
    rw [aobBcount, List.map_append, List.foldl_append, ← aobBcount, List.map_singleton,
      List.foldl_cons, List.foldl_nil]
    cases hx : x.1.firstFixed with
    | none => rw [keyed_concat_ne (by rw [hx]; exact nofun), ← ih]
    | some b' =>
      by_cases hb : b = b'
      · subst hb
        rw [keyed_concat_self hx, List.length_append, ← ih]
        exact bump_self ..
      · rw [keyed_concat_ne (by rw [hx]; exact fun h => hb (Option.some.inj h).symm), ← ih]
        exact bump_ne _ hb

/-! ## Scattering -/

/-- What the scatter loop keeps after the patterns `xs`, for buckets of `size b` entries. -/
structure DispatchInv (size : Nat → Nat) (xs : List (AobPat × Nat)) (st : DispatchFill) : Prop where
  cursor : ∀ b : Byte, st.cursor b.toNat = prefixSum size b.toNat + (keyed xs (some b)).length
  bidx : Holds st.bidx (fun b : Byte => prefixSum size b.toNat) fun b => keyed xs (some b)
  widx : Holds st.widx (fun _ : Unit => 0) fun _ => keyed xs none
  wildCount : st.wildCount = (keyed xs none).length

theorem buckets_apart (size : Nat → Nat) :
    Apart (fun b : Byte => prefixSum size b.toNat) fun b => size b.toNat :=
  fun _ _ hne => prefixSum_apart size _ _ fun heq => hne (BitVec.eq_of_toNat_eq heq)

/-- A pattern that starts with a wildcard. -/
theorem DispatchInv.wild {size : Nat → Nat} {xs : List (AobPat × Nat)} {st : DispatchFill}
    (h : DispatchInv size xs st) {x : AobPat × Nat} (hx : x.1.firstFixed = none) :
    DispatchInv size (xs ++ [x]) (dispatchPat st x) := by
  have hsome : ∀ b : Byte, keyed (xs ++ [x]) (some b) = keyed xs (some b) := fun b =>
    keyed_concat_ne (by rw [hx]; exact nofun)
  have hnone : keyed (xs ++ [x]) none = keyed xs none ++ [x.2] := keyed_concat_self hx
  have hlen : (keyed xs none ++ [x.2]).length = (keyed xs none).length + 1 := List.length_append
  simp only [dispatchPat, hx]
  refine ⟨fun b => ?_, ?_, ?_, ?_⟩
  · rw [hsome]
    exact h.cursor b
  · simp only [hsome]
    exact h.bidx
  · -- there is one list of wildcards, so nothing to be apart from
    have hpush := h.widx.push (fun i j hij => absurd rfl hij)
      (fun _ => Nat.le_succ (keyed xs none).length) () (Nat.lt_succ_self _) x.2
    rw [Nat.zero_add, ← h.wildCount] at hpush
    convert hpush using 1
    funext u
    rw [Function.update_self, hnone]
  · simp only
    rw [hnone, hlen, h.wildCount]

/-- A pattern that starts with byte `b`. -/
theorem DispatchInv.bucket {size : Nat → Nat} {xs : List (AobPat × Nat)} {st : DispatchFill}
    (h : DispatchInv size xs st) (hle : ∀ b : Byte, (keyed xs (some b)).length ≤ size b.toNat)
    {x : AobPat × Nat} {b : Byte} (hx : x.1.firstFixed = some b)
    (hroom : (keyed xs (some b)).length < size b.toNat) :
    DispatchInv size (xs ++ [x]) (dispatchPat st x) := by
  have hself : keyed (xs ++ [x]) (some b) = keyed xs (some b) ++ [x.2] := keyed_concat_self hx
  have hother : ∀ b', b' ≠ b → keyed (xs ++ [x]) (some b') = keyed xs (some b') := fun b' hb =>
    keyed_concat_ne (by rw [hx]; exact fun heq => hb (Option.some.inj heq).symm)
  have hnone : keyed (xs ++ [x]) none = keyed xs none :=
    keyed_concat_ne (by rw [hx]; exact nofun)
  simp only [dispatchPat, hx]
  refine ⟨fun b' => ?_, ?_, ?_, ?_⟩
  · simp only
    by_cases hb : b' = b
    · rw [hb, bump_self, h.cursor, hself, List.length_append, List.length_singleton, Nat.add_assoc]
    · rw [bump_ne _ hb, h.cursor, hother b' hb]
  · have hpush := h.bidx.push (buckets_apart size) hle b hroom x.2
    rw [← h.cursor] at hpush
    convert hpush using 1
    funext b'
    by_cases hb : b' = b
    · rw [hb, Function.update_self, hself]
    · rw [Function.update_of_ne hb, hother b' hb]
  · rw [hnone]
    exact h.widx
  · rw [hnone]
    exact h.wildCount

theorem length_keyed_le (xs : List (AobPat × Nat)) (x : AobPat × Nat) (key : Option Byte) :
    (keyed xs key).length ≤ (keyed (xs ++ [x]) key).length := by
  rw [keyed_concat, List.length_append]
  exact Nat.le_add_right ..

/-- All patterns. -/
theorem dispatchInv_foldl {size : Nat → Nat} {bidx widx : Nat → Nat} (xs : List (AobPat × Nat)) :
    (∀ b : Byte, (keyed xs (some b)).length ≤ size b.toNat) →
      DispatchInv size xs (xs.foldl dispatchPat ⟨prefixSum size, bidx, widx, 0⟩) := by
  induction xs using List.reverseRecOn with
  | nil => intro _; exact ⟨fun _ => rfl, holds_nil bidx _, holds_nil widx _, rfl⟩
  | append_singleton xs x ih =>
    intro hle
    rw [List.foldl_append, List.foldl_cons, List.foldl_nil]
    have hle' : ∀ b : Byte, (keyed xs (some b)).length ≤ size b.toNat := fun b =>
      Nat.le_trans (length_keyed_le xs x _) (hle b)
    cases hx : x.1.firstFixed with
    | none => exact (ih hle').wild hx
    | some b =>
      refine (ih hle').bucket hle' hx ?_
      have hroom := hle b
      rw [keyed_concat_self hx, List.length_append] at hroom
      exact hroom

/-! ## What a position tests -/

section Tested

variable (pats : List AobPat) (bidx widx : Nat → Nat)

theorem dispatchInv_build : DispatchInv (aobBcount pats) pats.zipIdx
    (pats.zipIdx.foldl dispatchPat ⟨prefixSum (aobBcount pats), bidx, widx, 0⟩) := by
  refine dispatchInv_foldl pats.zipIdx fun b => ?_
  rw [← aobBcount_eq, List.zipIdx_map_fst]

/-- A bucket. -/
theorem bucket_eq (b : Byte) :
    (List.range' ((aobBuildDispatch pats bidx widx).boff b.toNat)
        ((aobBuildDispatch pats bidx widx).boff (b.toNat + 1) -
          (aobBuildDispatch pats bidx widx).boff b.toNat)).map (aobBuildDispatch pats bidx widx).bidx =
      keyed pats.zipIdx (some b) := by
  have hsize : (aobBuildDispatch pats bidx widx).boff (b.toNat + 1) -
      (aobBuildDispatch pats bidx widx).boff b.toNat = (keyed pats.zipIdx (some b)).length := by
    rw [← aobBcount_eq, List.zipIdx_map_fst]
    exact Nat.add_sub_cancel_left ..
  rw [hsize]
  exact (dispatchInv_build pats bidx widx).bidx.map_range' b

/-- The wildcards. -/
theorem wilds_eq :
    (List.range (aobBuildDispatch pats bidx widx).wildCount).map (aobBuildDispatch pats bidx widx).widx =
      keyed pats.zipIdx none := by
  have hinv := dispatchInv_build pats bidx widx
  have hcount : (aobBuildDispatch pats bidx widx).wildCount = (keyed pats.zipIdx none).length :=
    hinv.wildCount
  rw [hcount, List.range_eq_range']
  exact hinv.widx.map_range' ()

end Tested

/-- The patterns tested at a position with byte `b`. -/
def tested (pats : List AobPat) (b : Byte) : List Nat :=
  keyed pats.zipIdx (some b) ++ keyed pats.zipIdx none

theorem mem_keyed {pats : List AobPat} {key : Option Byte} {pi : Nat} :
    pi ∈ keyed pats.zipIdx key ↔ ∃ h : pi < pats.length, (pats.get ⟨pi, h⟩).firstFixed = key := by
  constructor
  · intro h
    obtain ⟨⟨p, i⟩, hx, rfl⟩ := List.mem_map.mp h
    obtain ⟨hmem, hkey⟩ := List.mem_filter.mp hx
    obtain ⟨hlt, heq⟩ := List.getElem?_eq_some_iff.mp (List.mem_zipIdx_iff_getElem?.mp hmem)
    refine ⟨hlt, ?_⟩
    rw [List.get_eq_getElem, heq]
    exact beq_iff_eq.mp hkey
  · rintro ⟨hlt, hkey⟩
    refine List.mem_map.mpr ⟨(pats.get ⟨pi, hlt⟩, pi), List.mem_filter.mpr ⟨?_, beq_iff_eq.mpr hkey⟩, rfl⟩
    exact List.mem_zipIdx_iff_getElem?.mpr (List.getElem?_eq_getElem hlt)

/-- A position tests the patterns whose first byte fits or does not matter. -/
theorem mem_tested {pats : List AobPat} {b : Byte} {pi : Nat} :
    pi ∈ tested pats b ↔ ∃ h : pi < pats.length,
      ((pats.get ⟨pi, h⟩).firstFixed = some b ∨ (pats.get ⟨pi, h⟩).firstFixed = none) := by
  rw [tested, List.mem_append, mem_keyed, mem_keyed]
  constructor
  · rintro (⟨h, hkey⟩ | ⟨h, hkey⟩)
    · exact ⟨h, .inl hkey⟩
    · exact ⟨h, .inr hkey⟩
  · rintro ⟨h, hkey | hkey⟩
    · exact .inl ⟨h, hkey⟩
    · exact .inr ⟨h, hkey⟩

theorem keyed_nodup (pats : List AobPat) (key : Option Byte) : (keyed pats.zipIdx key).Nodup := by
  have hsub : (keyed pats.zipIdx key).Sublist (pats.zipIdx.map Prod.snd) :=
    List.filter_sublist.map Prod.snd
  rw [List.zipIdx_map_snd] at hsub
  exact hsub.nodup List.nodup_range'

/-- It tests none twice. -/
theorem tested_nodup (pats : List AobPat) (b : Byte) : (tested pats b).Nodup := by
  refine List.nodup_append.mpr ⟨keyed_nodup .., keyed_nodup .., fun i hi j hj hij => ?_⟩
  subst hij
  obtain ⟨h, hkey⟩ := mem_keyed.mp hi
  obtain ⟨h', hkey'⟩ := mem_keyed.mp hj
  exact nomatch hkey.symm.trans hkey'

end Ps5Debugger
