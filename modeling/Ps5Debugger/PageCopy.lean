import Ps5Debugger.PageLeaves

/-!
# Reading and writing through the page walk

`proc_ptwalk_read` and `proc_ptwalk_write` copy a range leaf by leaf. One pass of either loop is a
chunk: the bytes up to the end of the leaf or of the range, which are contiguous in physical memory
(`ptwChunk_spec`). From there each loop is followed with an invariant on the bytes done so far.

A write changes the memory that the next pass walks. The tables a walk reads are `walkTables`; as
long as no chunk falls into them, every pass sees the translation of the memory at the start.
-/

namespace Ps5Debugger

open Lib

/-! ## The model -/

/-- One pass of either loop: where the next bytes are and how many, or `none` for the error
return. -/
def ptwChunk (m : PhysMem) (cr3 curVa rest : Nat) : Option (Nat × Nat) :=
  match ptwWalkLeaf m cr3 curVa with
  | .error _ => none
  | .ok (e, lvl) =>
    match ptwPageSize lvl with
    | none => none
    | some pageSize =>
      let offInPage := curVa &&& (pageSize - 1)
      let phys := leafPhys e pageSize curVa
      let avail := pageSize - offInPage
      let n := if rest > avail then avail else rest
      if ptwPhysBound ≤ phys ∨ phys + n > ptwPhysBound then none else some (phys, n)

/-- The loop of `proc_ptwalk_read`, with what is in the destination already. Every pass copies at
least one byte, so `len` passes are enough. -/
def ptwalkReadLoop (m : PhysMem) (cr3 va len : Nat) : Nat → Nat → List Byte → Option (List Byte)
  | 0, done, out => if done < len then none else some out
  | fuel + 1, done, out =>
    if done < len then
      match ptwChunk m cr3 (u64 (va + done)) (len - done) with
      | none => none
      | some (phys, n) =>
        match m.copyout phys n with
        | none => none
        | some bytes => ptwalkReadLoop m cr3 va len fuel (done + n) (out ++ bytes)
    else some out

/-- `proc_ptwalk_read(pid, va, len, dst)`: the bytes, or `none` for the error return. -/
def procPtwalkRead (m : PhysMem) (pm : Pmaps) (pid va len : Nat) (dstOk : Bool) : Option (List Byte) :=
  if !dstOk || len == 0 then none
  else
    match pm.cr3 pid with
    | none => none
    | some cr3 => ptwalkReadLoop m cr3 va len len 0 []

/-- The loop of `proc_ptwalk_write`: whether it succeeds, and the memory it leaves behind. -/
def ptwalkWriteLoop (cr3 va : Nat) (src : List Byte) : Nat → Nat → PhysMem → Bool × PhysMem
  | 0, done, m => (!decide (done < src.length), m)
  | fuel + 1, done, m =>
    if done < src.length then
      match ptwChunk m cr3 (u64 (va + done)) (src.length - done) with
      | none => (false, m)
      | some (phys, n) =>
        match m.copyin phys ((src.drop done).take n) with
        | none => (false, m)
        | some m' => ptwalkWriteLoop cr3 va src fuel (done + n) m'
    else (true, m)

/-- `proc_ptwalk_write(pid, va, len, src)`, with the bytes that `src` points to. -/
def procPtwalkWrite (m : PhysMem) (pm : Pmaps) (pid va : Nat) (src : Option (List Byte)) :
    Bool × PhysMem :=
  match src with
  | none => (false, m)
  | some src =>
    if src.length == 0 then (false, m)
    else
      match pm.cr3 pid with
      | none => (false, m)
      | some cr3 => ptwalkWriteLoop cr3 va src src.length 0 m

/-! ## One page, one leaf -/

variable {m : PhysMem} {cr3 va x y : Nat}

/-- The bits of an address that a leaf leaves to the offset. -/
def pageShift (level : Nat) : Nat := 39 - level * 9

theorem ptwPageSize_eq {level : Nat} (h : level = 3 ∨ level = 2 ∨ level = 1) :
    ptwPageSize level = some (2 ^ pageShift level) := by
  rcases h with rfl | rfl | rfl <;> rfl

/-- Addresses of one page have the same indices down to the level of its leaf. -/
theorem ptwIndex_page {level l : Nat} (h : x / 2 ^ pageShift level = y / 2 ^ pageShift level) (hl : l ≤ level) :
    ptwIndex x l = ptwIndex y l := by
  have hpow : 2 ^ (39 - l * 9) = 2 ^ pageShift level * 2 ^ (39 - l * 9 - pageShift level) := by
    rw [← Nat.pow_add, Nat.add_sub_cancel' (by rw [pageShift]; omega)]
  rw [ptwIndex_eq, ptwIndex_eq, hpow, ← Nat.div_div_eq_div_mul, ← Nat.div_div_eq_div_mul, h]

/-- A walk that succeeds: the entry it reads is the leaf, or leads to the next table. -/
theorem walkLeafFrom_ok_iff {left table e level : Nat} :
    ptwWalkLeafFrom m x (left + 1) table = .ok (e, level) ↔
      ¬ ptwPhysBound ≤ table ∧ ∃ e', m.read64 (table + ptwIndex x (3 - left) * 8) = some e' ∧
        ptePresent e' = true ∧
        if 3 - left = 3 ∨ pteHuge (3 - left) e' = true then e' = e ∧ level = 3 - left
        else ptwWalkLeafFrom m x left (e' &&& ptwPhysMask) = .ok (e, level) := by
  rw [ptwWalkLeafFrom]
  split
  · next hb => simp [hb]
  · next hb =>
    cases m.read64 (table + ptwIndex x (3 - left) * 8) with
    | none => simp
    | some e' =>
      simp only [Option.some.injEq, exists_eq_left', hb, not_false_eq_true, true_and]
      cases ptePresent e' with
      | false => simp
      | true =>
        simp only [Bool.not_true, Bool.false_eq_true, if_false, true_and]
        by_cases hlast : 3 - left = 3
        · rw [if_pos hlast, if_pos (.inl hlast), hlast, Except.ok.injEq, Prod.mk.injEq, eq_comm (a := level)]
        rw [if_neg hlast]
        by_cases hhuge : pteHuge (3 - left) e' = true
        · rw [if_pos hhuge, if_pos (.inr hhuge), Except.ok.injEq, Prod.mk.injEq, eq_comm (a := level)]
        · rw [if_neg hhuge, if_neg (not_or.mpr ⟨hlast, hhuge⟩)]

/-- Addresses of one page have the same leaf. -/
theorem walkLeafFrom_page {left table e level : Nat} (hleft : left ≤ 4)
    (h : ptwWalkLeafFrom m x left table = .ok (e, level))
    (hpage : x / 2 ^ pageShift level = y / 2 ^ pageShift level) :
    ptwWalkLeafFrom m y left table = .ok (e, level) ∧ 4 - left ≤ level := by
  induction left generalizing table with
  | zero => cases h
  | succ left ih =>
    obtain ⟨hb, e', hread, hpresent, hrest⟩ := walkLeafFrom_ok_iff.mp h
    by_cases hstop : 3 - left = 3 ∨ pteHuge (3 - left) e' = true
    · rw [if_pos hstop] at hrest
      obtain ⟨rfl, rfl⟩ := hrest
      refine ⟨walkLeafFrom_ok_iff.mpr ⟨hb, e', ?_, hpresent, ?_⟩, by omega⟩
      · rw [← ptwIndex_page hpage (le_refl _)]
        exact hread
      · rw [if_pos hstop]
        exact ⟨rfl, rfl⟩
    · rw [if_neg hstop] at hrest
      obtain ⟨hwalk, hle⟩ := ih (by omega) hrest
      refine ⟨walkLeafFrom_ok_iff.mpr ⟨hb, e', ?_, hpresent, ?_⟩, by omega⟩
      · rw [← ptwIndex_page hpage (by omega)]
        exact hread
      · rw [if_neg hstop]
        exact hwalk

theorem leafPhys_add {n e i : Nat} (hn : n ≤ 64) (h : x % 2 ^ n + i < 2 ^ n) :
    leafPhys e (2 ^ n) (x + i) = leafPhys e (2 ^ n) x + i := by
  have hmod : (x + i) % 2 ^ n = x % 2 ^ n + i := by
    rw [← Nat.mod_add_mod, Nat.mod_eq_of_lt h]
  rw [leafPhys_eq hn, leafPhys_eq hn, hmod, Nat.add_assoc]

/-! ## One chunk -/

/-- What a chunk is: a walk to a leaf, and as much of the range as the leaf holds, below the bound. -/
theorem ptwChunk_ok {e level : Nat} (rest : Nat) (h : ptwWalkLeaf m cr3 x = .ok (e, level)) :
    ∃ n phys, n = min rest (2 ^ pageShift level - x % 2 ^ pageShift level) ∧
      (∀ i, x % 2 ^ pageShift level + i < 2 ^ pageShift level → walkPhys m cr3 (x + i) = some (phys + i)) ∧
      ptwChunk m cr3 x rest =
        if ptwPhysBound ≤ phys ∨ phys + n > ptwPhysBound then none else some (phys, n) := by
  obtain ⟨hpresent, hlevel⟩ := walkLeafFrom_ok h
  have hsize := ptwPageSize_eq hlevel
  have hshift : pageShift level ≤ 64 := by rw [pageShift]; omega
  refine ⟨_, leafPhys e (2 ^ pageShift level) x, rfl, fun i hi => ?_, ?_⟩
  · have hdiv : x / 2 ^ pageShift level = (x + i) / 2 ^ pageShift level := by
      have hpos := Nat.two_pow_pos (pageShift level)
      have hsplit := Nat.div_add_mod' x (2 ^ pageShift level)
      refine (Nat.div_eq_of_lt_le (by omega) ?_).symm
      rw [Nat.succ_mul]
      omega
    obtain ⟨hwalk, -⟩ := walkLeafFrom_page (le_refl 4) h hdiv
    rw [walkPhys, ptwWalkLeaf, hwalk]
    dsimp only
    rw [hsize, Option.map_some, leafPhys_add hshift hi]
  · have hn : (if rest > 2 ^ pageShift level - x % 2 ^ pageShift level then
        2 ^ pageShift level - x % 2 ^ pageShift level else rest) =
        min rest (2 ^ pageShift level - x % 2 ^ pageShift level) := by
      split <;> omega
    rw [ptwChunk, h]
    dsimp only
    rw [hsize]
    dsimp only
    rw [and_low, hn]

/-- **One pass.** A chunk is not empty, and its bytes are translated one by one. -/
theorem ptwChunk_some {rest phys n : Nat} (hrest : 0 < rest)
    (h : ptwChunk m cr3 x rest = some (phys, n)) :
    0 < n ∧ n ≤ rest ∧
      ∀ i < n, walkPhys m cr3 (x + i) = some (phys + i) ∧ phys + i < ptwPhysBound := by
  cases hwalk : ptwWalkLeaf m cr3 x with
  | error r =>
    rw [ptwChunk, hwalk] at h
    cases h
  | ok r =>
    obtain ⟨e, level⟩ := r
    obtain ⟨n', phys', hn, htrans, hchunk⟩ := ptwChunk_ok rest hwalk
    have hmod := Nat.mod_lt x (Nat.two_pow_pos (pageShift level))
    rw [h] at hchunk
    split at hchunk
    · cases hchunk
    next hbound =>
    obtain ⟨rfl, rfl⟩ := Prod.mk.inj (Option.some.inj hchunk)
    refine ⟨by omega, by omega, fun i hi => ⟨htrans i (by omega), by omega⟩⟩

/-- A pass fails at a byte that is not translated, or not below the bound. -/
theorem ptwChunk_none {rest : Nat} (hrest : 0 < rest) (h : ptwChunk m cr3 x rest = none) :
    ∃ i < rest, ∀ p, walkPhys m cr3 (x + i) = some p → ptwPhysBound ≤ p := by
  cases hwalk : ptwWalkLeaf m cr3 x with
  | error r =>
    refine ⟨0, hrest, fun p hp => ?_⟩
    rw [walkPhys, Nat.add_zero, hwalk] at hp
    cases hp
  | ok r =>
    obtain ⟨e, level⟩ := r
    obtain ⟨n, phys, hn, htrans, hchunk⟩ := ptwChunk_ok rest hwalk
    have hmod := Nat.mod_lt x (Nat.two_pow_pos (pageShift level))
    rw [h] at hchunk
    split at hchunk
    · next hbound =>
      -- the first byte at or past the bound
      refine ⟨ptwPhysBound - phys, by omega, fun p hp => ?_⟩
      rw [htrans _ (by omega)] at hp
      obtain rfl := Option.some.inj hp
      omega
    · cases hchunk

/-! ## The range -/

/-- Every byte of the range is translated, to below the bound. -/
def Mapped (m : PhysMem) (cr3 va len : Nat) : Prop :=
  ∀ i < len, ∃ p, walkPhys m cr3 (va + i) = some p ∧ p < ptwPhysBound

/-- The kernel copies reach the bytes of the range. -/
def Reached (m : PhysMem) (cr3 va len : Nat) : Prop :=
  ∀ i < len, ∀ p, walkPhys m cr3 (va + i) = some p → p < ptwPhysBound → m.reachable (p / 0x1000) = true

variable {len : Nat}

/-- The pass at `done` goes through when the range is mapped. -/
theorem Mapped.chunk (hmap : Mapped m cr3 va len) {done : Nat} (hdone : done < len) :
    ∃ phys n, ptwChunk m cr3 (va + done) (len - done) = some (phys, n) := by
  cases hchunk : ptwChunk m cr3 (va + done) (len - done) with
  | some r => exact ⟨r.1, r.2, rfl⟩
  | none =>
    obtain ⟨i, hi, hfail⟩ := ptwChunk_none (by omega) hchunk
    obtain ⟨p, hp, hlt⟩ := hmap (done + i) (by omega)
    rw [← Nat.add_assoc] at hp
    have := hfail p hp
    omega

theorem Reached.chunk (hreach : Reached m cr3 va len) {done phys n : Nat} (hdone : done < len)
    (hchunk : ptwChunk m cr3 (va + done) (len - done) = some (phys, n)) : m.reaches phys n = true := by
  obtain ⟨-, hn, htrans⟩ := ptwChunk_some (by omega) hchunk
  rw [PhysMem.reaches, List.all_eq_true]
  intro i hi
  obtain ⟨hp, hlt⟩ := htrans i (List.mem_range.mp hi)
  rw [Nat.add_assoc] at hp
  exact hreach (done + i) (by have := List.mem_range.mp hi; omega) _ hp hlt

/-! ## Reads -/

/-- The destination after `done` bytes. -/
structure ReadSoFar (m : PhysMem) (cr3 va done : Nat) (out : List Byte) : Prop where
  length : out.length = done
  byte : ∀ i < done, ∃ p, walkPhys m cr3 (va + i) = some p ∧ p < ptwPhysBound ∧ out[i]? = some (m.byte p)

theorem ReadSoFar.chunk {done phys n : Nat} {out : List Byte} (h : ReadSoFar m cr3 va done out)
    (htrans : ∀ i < n, walkPhys m cr3 (va + done + i) = some (phys + i) ∧ phys + i < ptwPhysBound) :
    ReadSoFar m cr3 va (done + n) (out ++ slice m.byte phys n) := by
  refine ⟨by rw [List.length_append, h.length, length_slice], fun i hi => ?_⟩
  rcases Nat.lt_or_ge i done with hlt | hge
  · obtain ⟨p, hp, hbound, hbyte⟩ := h.byte i hlt
    refine ⟨p, hp, hbound, ?_⟩
    rw [List.getElem?_append_left (by rw [h.length]; exact hlt)]
    exact hbyte
  · obtain ⟨k, rfl⟩ := Nat.exists_eq_add_of_le hge
    obtain ⟨hp, hbound⟩ := htrans k (by omega)
    refine ⟨phys + k, by rw [← Nat.add_assoc]; exact hp, hbound, ?_⟩
    rw [List.getElem?_append_right (by rw [h.length]; omega), h.length, Nat.add_sub_cancel_left,
      getElem?_slice, if_pos (by omega)]

/-- What a read that succeeds has read. -/
theorem readLoop_sound (hwrap : va + len ≤ 2 ^ 64) {fuel : Nat} : ∀ {done : Nat} {out out' : List Byte},
    done ≤ len → ReadSoFar m cr3 va done out → ptwalkReadLoop m cr3 va len fuel done out = some out' →
      ReadSoFar m cr3 va len out' := by
  induction fuel with
  | zero =>
    intro done out out' hdone h hloop
    rw [ptwalkReadLoop] at hloop
    split at hloop
    · cases hloop
    · obtain rfl := Option.some.inj hloop
      obtain rfl : done = len := by omega
      exact h
  | succ fuel ih =>
    intro done out out' hdone h hloop
    rw [ptwalkReadLoop] at hloop
    split at hloop
    · next hlt =>
      rw [u64_of_lt (by omega)] at hloop
      split at hloop
      · cases hloop
      next phys n hchunk =>
      obtain ⟨-, hn, htrans⟩ := ptwChunk_some (by omega) hchunk
      rw [PhysMem.copyout] at hloop
      split at hloop
      · cases hloop
      next bytes hcopy =>
      split at hcopy
      · obtain rfl := Option.some.inj hcopy
        exact ih (by omega) (h.chunk htrans) hloop
      · cases hcopy
    · obtain rfl := Option.some.inj hloop
      obtain rfl : done = len := by omega
      exact h

/-- A read of a mapped range succeeds. -/
theorem readLoop_complete (hwrap : va + len ≤ 2 ^ 64) (hmap : Mapped m cr3 va len)
    (hreach : Reached m cr3 va len) {fuel : Nat} : ∀ {done : Nat} {out : List Byte},
    len - done ≤ fuel → ∃ out', ptwalkReadLoop m cr3 va len fuel done out = some out' := by
  induction fuel with
  | zero =>
    intro done out hfuel
    exact ⟨out, by rw [ptwalkReadLoop, if_neg (by omega)]⟩
  | succ fuel ih =>
    intro done out hfuel
    rw [ptwalkReadLoop]
    split
    · next hlt =>
      obtain ⟨phys, n, hchunk⟩ := hmap.chunk hlt
      obtain ⟨hn, -, -⟩ := ptwChunk_some (by omega) hchunk
      rw [u64_of_lt (by omega), hchunk]
      dsimp only
      rw [PhysMem.copyout, hreach.chunk hlt hchunk, if_pos rfl]
      exact ih (by omega)
    · exact ⟨out, rfl⟩

end Ps5Debugger
