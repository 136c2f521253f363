import Ps5Debugger.PageCopy

/-!
# Writing through the page walk

What a walk depends on is the bytes of the tables it visits (`walkLeaf_congr`). The writes of
`proc_ptwalk_write` that stay clear of them leave every translation of the range as it was, so the
passes write the bytes of the translation at the start, one chunk after the other
(`WriteSoFar.chunk`): a byte that several addresses share ends up with the last one's value.
-/

namespace Ps5Debugger

open Lib

variable {m m' : PhysMem} {cr3 va x len : Nat}

/-! ## What a walk reads -/

/-- The tables that a walk from a table visits. -/
def walkTablesFrom (m : PhysMem) (va : Nat) : Nat → Nat → List Nat
  | 0, _ => []
  | left + 1, table =>
    if ptwPhysBound ≤ table then []
    else
      table :: match m.read64 (table + ptwIndex va (3 - left) * 8) with
        | none => []
        | some e =>
          if !ptePresent e || 3 - left == 3 || pteHuge (3 - left) e then []
          else walkTablesFrom m va left (e &&& ptwPhysMask)

/-- The tables of the walk for an address. -/
def walkTables (m : PhysMem) (cr3 va : Nat) : List Nat := walkTablesFrom m va 4 (cr3 &&& ptwPhysMask)

/-- `m'` has the bytes of `m` in the tables `ts`. -/
def SameTables (m m' : PhysMem) (ts : List Nat) : Prop :=
  ∀ t ∈ ts, ∀ a, t ≤ a → a < t + 0x1000 → m'.byte a = m.byte a

theorem read64_congr (hreach : m'.reachable = m.reachable) {a : Nat}
    (h : ∀ i < 8, m'.byte (a + i) = m.byte (a + i)) : m'.read64 a = m.read64 a := by
  have hreaches : m'.reaches a 8 = m.reaches a 8 := by rw [PhysMem.reaches, PhysMem.reaches, hreach]
  rw [PhysMem.read64, PhysMem.read64, PhysMem.copyout, PhysMem.copyout, hreaches, slice_eq_iff.mpr h]

theorem walkLeafFrom_congr (hreach : m'.reachable = m.reachable) (left : Nat) : ∀ {table : Nat},
    SameTables m m' (walkTablesFrom m x left table) →
      ptwWalkLeafFrom m' x left table = ptwWalkLeafFrom m x left table := by
  induction left with
  | zero => intro table _; rfl
  | succ left ih =>
    intro table hsame
    rw [walkTablesFrom] at hsame
    rw [ptwWalkLeafFrom, ptwWalkLeafFrom]
    split
    · rfl
    next hb =>
    rw [if_neg hb] at hsame
    have hidx := ptwIndex_lt x (3 - left)
    have hread : m'.read64 (table + ptwIndex x (3 - left) * 8) = m.read64 (table + ptwIndex x (3 - left) * 8) :=
      read64_congr hreach fun i hi => hsame table List.mem_cons_self _ (by omega) (by omega)
    rw [hread]
    cases he : m.read64 (table + ptwIndex x (3 - left) * 8) with
    | none => rfl
    | some e =>
      dsimp only
      split
      · rfl
      next hpresent =>
      split
      · rfl
      next hlast =>
      split
      · rfl
      next hhuge =>
      refine ih fun t ht => hsame t (List.mem_cons_of_mem table ?_)
      rw [he]
      dsimp only
      rw [if_neg (by simp_all)]
      exact ht

/-- A walk depends on its tables only. -/
theorem walkLeaf_congr (hreach : m'.reachable = m.reachable)
    (hsame : SameTables m m' (walkTables m cr3 x)) : ptwWalkLeaf m' cr3 x = ptwWalkLeaf m cr3 x :=
  walkLeafFrom_congr hreach 4 hsame

theorem walkPhys_congr (h : ptwWalkLeaf m' cr3 x = ptwWalkLeaf m cr3 x) :
    walkPhys m' cr3 x = walkPhys m cr3 x := by
  rw [walkPhys, walkPhys, h]

theorem ptwChunk_congr (h : ptwWalkLeaf m' cr3 x = ptwWalkLeaf m cr3 x) (rest : Nat) :
    ptwChunk m' cr3 x rest = ptwChunk m cr3 x rest := by
  rw [ptwChunk, ptwChunk, h]

/-! ## Writes -/

/-- No byte of the range lies in a table of the range's walks. -/
def ClearOfTables (m : PhysMem) (cr3 va len : Nat) : Prop :=
  ∀ i < len, ∀ p, walkPhys m cr3 (va + i) = some p → p < ptwPhysBound →
    ∀ j < len, ∀ t ∈ walkTables m cr3 (va + j), ¬ (t ≤ p ∧ p < t + 0x1000)

/-- The memory after `done` bytes of `src`, from the memory `m`. -/
structure WriteSoFar (m : PhysMem) (cr3 va : Nat) (src : List Byte) (done : Nat) (m' : PhysMem) : Prop where
  reachable : m'.reachable = m.reachable
  mapped : Mapped m cr3 va done
  frame : ∀ p, (∀ i < done, walkPhys m cr3 (va + i) ≠ some p) → m'.byte p = m.byte p
  byte : ∀ i < done, ∀ p, walkPhys m cr3 (va + i) = some p →
    (∀ j, i < j → j < done → walkPhys m cr3 (va + j) ≠ some p) → src[i]? = some (m'.byte p)

/-- Nothing that was written lies in a table. -/
theorem WriteSoFar.sameTables {src : List Byte} {done : Nat} (h : WriteSoFar m cr3 va src done m')
    (hdone : done ≤ len) (hclear : ClearOfTables m cr3 va len) {j : Nat} (hj : j < len) :
    SameTables m m' (walkTables m cr3 (va + j)) := by
  intro t ht a hlo hhi
  refine h.frame a fun i hi hp => ?_
  obtain ⟨p, hp', hbound⟩ := h.mapped i hi
  rw [hp] at hp'
  obtain rfl := Option.some.inj hp'
  exact hclear i (by omega) a hp hbound j hj t ht ⟨hlo, hhi⟩

/-- One more chunk. -/
theorem WriteSoFar.chunk {src : List Byte} {done phys n : Nat} (h : WriteSoFar m cr3 va src done m')
    (hn : done + n ≤ src.length)
    (htrans : ∀ i < n, walkPhys m cr3 (va + done + i) = some (phys + i) ∧ phys + i < ptwPhysBound)
    {m'' : PhysMem} (hcopy : m'.copyin phys ((src.drop done).take n) = some m'') :
    WriteSoFar m cr3 va src (done + n) m'' := by
  have hlen : ((src.drop done).take n).length = n := by
    rw [List.length_take, List.length_drop]
    omega
  rw [PhysMem.copyin, hlen] at hcopy
  split at hcopy
  swap
  · cases hcopy
  obtain rfl := Option.some.inj hcopy
  have htrans' : ∀ i < n, walkPhys m cr3 (va + (done + i)) = some (phys + i) := by
    intro i hi
    rw [← Nat.add_assoc]
    exact (htrans i hi).1
  refine ⟨h.reachable, fun i hi => ?_, fun p hp => ?_, fun i hi p hp hlast => ?_⟩
  · rcases Nat.lt_or_ge i done with hlt | hge
    · exact h.mapped i hlt
    · obtain ⟨k, rfl⟩ := Nat.exists_eq_add_of_le hge
      exact ⟨phys + k, htrans' k (by omega), (htrans k (by omega)).2⟩
  · have hout : p < phys ∨ phys + n ≤ p := by
      by_contra hin
      obtain ⟨k, rfl⟩ := Nat.exists_eq_add_of_le (show phys ≤ p by omega)
      exact hp (done + k) (by omega) (htrans' k (by omega))
    exact (blit_outside hout).trans (h.frame p fun i hi => hp i (by omega))
  · rcases Nat.lt_or_ge i done with hlt | hge
    · -- no later chunk hits the byte, this one included
      have hout : p < phys ∨ phys + n ≤ p := by
        by_contra hin
        obtain ⟨k, rfl⟩ := Nat.exists_eq_add_of_le (show phys ≤ p by omega)
        exact hlast (done + k) (by omega) (by omega) (htrans' k (by omega))
      refine (h.byte i hlt p hp fun j hij hj => hlast j hij (by omega)).trans ?_
      exact congrArg some (blit_outside hout).symm
    · obtain ⟨k, rfl⟩ := Nat.exists_eq_add_of_le hge
      rw [htrans' k (by omega)] at hp
      obtain rfl := Option.some.inj hp
      have hin : blit m'.byte phys (ofList ((src.drop done).take n)) n (phys + k) =
          ofList ((src.drop done).take n) k := blit_inside (by omega)
      have hbyte : (src.drop done)[k]? = some (((src.drop done).take n).getD k 0) := by
        rw [List.getD_eq_getElem?_getD, List.getElem?_take_of_lt (by omega), List.getElem?_drop,
          List.getElem?_eq_getElem (by omega), Option.getD_some]
      rw [← List.getElem?_drop, hbyte]
      exact congrArg some hin.symm

variable {src : List Byte}

/-- The pass at `done` is the pass on the memory at the start. -/
theorem WriteSoFar.ptwChunk_eq {done : Nat} (h : WriteSoFar m cr3 va src done m')
    (hclear : ClearOfTables m cr3 va src.length) (hwrap : va + src.length ≤ 2 ^ 64)
    (hdone : done < src.length) :
    ptwChunk m' cr3 (u64 (va + done)) (src.length - done) = ptwChunk m cr3 (va + done) (src.length - done) := by
  rw [u64_of_lt (by omega)]
  exact ptwChunk_congr (walkLeaf_congr h.reachable (h.sameTables (by omega) hclear hdone)) _

/-- What a write that succeeds has written. -/
theorem writeLoop_sound (hwrap : va + src.length ≤ 2 ^ 64) (hclear : ClearOfTables m cr3 va src.length)
    {fuel : Nat} : ∀ {done : Nat} {m' : PhysMem}, done ≤ src.length → WriteSoFar m cr3 va src done m' →
      (ptwalkWriteLoop cr3 va src fuel done m').1 = true →
        WriteSoFar m cr3 va src src.length (ptwalkWriteLoop cr3 va src fuel done m').2 := by
  induction fuel with
  | zero =>
    intro done m' hdone h hloop
    rw [ptwalkWriteLoop] at hloop ⊢
    obtain rfl : done = src.length := by
      simp at hloop
      omega
    exact h
  | succ fuel ih =>
    intro done m' hdone h hloop
    rw [ptwalkWriteLoop] at hloop ⊢
    split at hloop
    · next hlt =>
      rw [if_pos hlt, h.ptwChunk_eq hclear hwrap hlt] at *
      cases hchunk : ptwChunk m cr3 (va + done) (src.length - done) with
      | none =>
        rw [hchunk] at hloop
        cases hloop
      | some r =>
        obtain ⟨phys, n⟩ := r
        obtain ⟨-, hn, htrans⟩ := ptwChunk_some (by omega) hchunk
        rw [hchunk] at hloop
        dsimp only at hloop ⊢
        cases hcopy : m'.copyin phys ((src.drop done).take n) with
        | none =>
          rw [hcopy] at hloop
          cases hloop
        | some m'' =>
          rw [hcopy] at hloop
          exact ih (by omega) (h.chunk (by omega) htrans hcopy) hloop
    · next hge =>
      rw [if_neg hge]
      obtain rfl : done = src.length := by omega
      exact h

/-- A write to a mapped range succeeds. -/
theorem writeLoop_complete (hwrap : va + src.length ≤ 2 ^ 64) (hclear : ClearOfTables m cr3 va src.length)
    (hmap : Mapped m cr3 va src.length) (hreach : Reached m cr3 va src.length) {fuel : Nat} :
    ∀ {done : Nat} {m' : PhysMem}, src.length - done ≤ fuel → WriteSoFar m cr3 va src done m' →
      (ptwalkWriteLoop cr3 va src fuel done m').1 = true := by
  induction fuel with
  | zero =>
    intro done m' hfuel _
    rw [ptwalkWriteLoop]
    simp
    omega
  | succ fuel ih =>
    intro done m' hfuel h
    rw [ptwalkWriteLoop]
    split
    · next hlt =>
      obtain ⟨phys, n, hchunk⟩ := hmap.chunk hlt
      obtain ⟨hpos, hn, htrans⟩ := ptwChunk_some (by omega) hchunk
      have hlen : ((src.drop done).take n).length = n := by
        rw [List.length_take, List.length_drop]
        omega
      have hreaches : m'.reaches phys n = true := by
        rw [PhysMem.reaches, h.reachable]
        exact hreach.chunk hlt hchunk
      obtain ⟨m'', hcopy⟩ : ∃ m'', m'.copyin phys ((src.drop done).take n) = some m'' := by
        rw [PhysMem.copyin, hlen, hreaches, if_pos rfl]
        exact ⟨_, rfl⟩
      rw [h.ptwChunk_eq hclear hwrap hlt, hchunk]
      dsimp only
      rw [hcopy]
      exact ih (by omega) (h.chunk (by omega) htrans hcopy)
    · rfl

theorem WriteSoFar.start (m : PhysMem) (cr3 va : Nat) (src : List Byte) : WriteSoFar m cr3 va src 0 m where
  reachable := rfl
  mapped := fun i hi => absurd hi (Nat.not_lt_zero i)
  frame := fun _ _ => rfl
  byte := fun i hi => absurd hi (Nat.not_lt_zero i)

/-! ## The entry points -/

variable {pm : Pmaps} {pid : Nat}

theorem procPtwalkRead_eq (hcr3 : pm.cr3 pid = some cr3) (hlen : 0 < len) :
    procPtwalkRead m pm pid va len true = ptwalkReadLoop m cr3 va len len 0 [] := by
  rw [procPtwalkRead, if_neg (by simp; omega), hcr3]

theorem procPtwalkWrite_eq (hcr3 : pm.cr3 pid = some cr3) (hlen : 0 < src.length) :
    procPtwalkWrite m pm pid va (some src) = ptwalkWriteLoop cr3 va src src.length 0 m := by
  rw [procPtwalkWrite, if_neg (by simp; exact List.ne_nil_of_length_pos hlen), hcr3]

theorem ReadSoFar.start (m : PhysMem) (cr3 va : Nat) : ReadSoFar m cr3 va 0 [] :=
  ⟨rfl, fun i hi => absurd hi (Nat.not_lt_zero i)⟩

/-- A read of a mapped range. -/
theorem procPtwalkRead_mapped (hcr3 : pm.cr3 pid = some cr3) (hlen : 0 < len) (hwrap : va + len ≤ 2 ^ 64)
    (hmap : Mapped m cr3 va len) (hreach : Reached m cr3 va len) :
    ∃ out, procPtwalkRead m pm pid va len true = some out ∧ ReadSoFar m cr3 va len out := by
  rw [procPtwalkRead_eq hcr3 hlen]
  obtain ⟨out, hout⟩ : ∃ out, ptwalkReadLoop m cr3 va len len 0 [] = some out :=
    readLoop_complete hwrap hmap hreach (le_refl (len - 0))
  exact ⟨out, hout, readLoop_sound hwrap (Nat.zero_le len) (.start m cr3 va) hout⟩

/-- A read that is not all mapped fails. -/
theorem procPtwalkRead_unmapped (hcr3 : pm.cr3 pid = some cr3) (hlen : 0 < len) (hwrap : va + len ≤ 2 ^ 64)
    (hmap : ¬ Mapped m cr3 va len) : procPtwalkRead m pm pid va len true = none := by
  rw [procPtwalkRead_eq hcr3 hlen, Option.eq_none_iff_forall_ne_some]
  intro out hout
  refine hmap fun i hi => ?_
  obtain ⟨p, hp, hbound, -⟩ :=
    (readLoop_sound hwrap (Nat.zero_le len) (.start m cr3 va) hout).byte i hi
  exact ⟨p, hp, hbound⟩

/-- After the write, the range is translated as before. -/
theorem WriteSoFar.walkPhys_eq (h : WriteSoFar m cr3 va src src.length m')
    (hclear : ClearOfTables m cr3 va src.length) {i : Nat} (hi : i < src.length) :
    walkPhys m' cr3 (va + i) = walkPhys m cr3 (va + i) :=
  walkPhys_congr (walkLeaf_congr h.reachable (h.sameTables (le_refl _) hclear hi))

/-- Reading back a write to a range without shared frames. -/
theorem WriteSoFar.read_back (h : WriteSoFar m cr3 va src src.length m') (hcr3 : pm.cr3 pid = some cr3)
    (hlen : 0 < src.length) (hwrap : va + src.length ≤ 2 ^ 64)
    (hclear : ClearOfTables m cr3 va src.length) (hreach : Reached m cr3 va src.length)
    (hinj : ∀ i < src.length, ∀ j < src.length, walkPhys m cr3 (va + i) = walkPhys m cr3 (va + j) → i = j) :
    procPtwalkRead m' pm pid va src.length true = some src := by
  have hmap' : Mapped m' cr3 va src.length := by
    intro i hi
    rw [h.walkPhys_eq hclear hi]
    exact h.mapped i hi
  have hreach' : Reached m' cr3 va src.length := by
    intro i hi p hp
    rw [h.walkPhys_eq hclear hi] at hp
    rw [h.reachable]
    exact hreach i hi p hp
  obtain ⟨out, hout, hlength, hbyte⟩ := procPtwalkRead_mapped hcr3 hlen hwrap hmap' hreach'
  rw [hout]
  refine congrArg some (List.ext_getElem? fun i => ?_)
  rcases Nat.lt_or_ge i src.length with hi | hi
  · obtain ⟨p, hp, -, hout⟩ := hbyte i hi
    rw [h.walkPhys_eq hclear hi] at hp
    rw [hout, h.byte i hi p hp]
    intro j hij hj hp'
    exact absurd (hinj i hi j hj (hp.trans hp'.symm)) (by omega)
  · rw [List.getElem?_eq_none (by omega), List.getElem?_eq_none hi]

/-- **Page-walk reads and writes are pointwise.** For every page table and every range that is not
empty and does not wrap: if the range is mapped below the bound, to frames that the kernel copies reach,
a read returns the bytes of the translation, a write that stays clear of the walk's tables changes those
bytes only, the last one winning where two addresses share a byte, and reading back an injectively mapped
write returns it; if some byte is not mapped below the bound, both fail. -/
theorem ptwalk_pointwise (hcr3 : pm.cr3 pid = some cr3) (hlen : 0 < src.length)
    (hwrap : va + src.length ≤ 2 ^ 64) :
    (Mapped m cr3 va src.length → Reached m cr3 va src.length →
      ∃ out, procPtwalkRead m pm pid va src.length true = some out ∧ out.length = src.length ∧
        ∀ i < src.length, ∃ p, walkPhys m cr3 (va + i) = some p ∧ out[i]? = some (m.byte p)) ∧
    (Mapped m cr3 va src.length → Reached m cr3 va src.length → ClearOfTables m cr3 va src.length →
      ∃ m', procPtwalkWrite m pm pid va (some src) = (true, m') ∧
        (∀ p, (∀ i < src.length, walkPhys m cr3 (va + i) ≠ some p) → m'.byte p = m.byte p) ∧
        (∀ i < src.length, ∀ p, walkPhys m cr3 (va + i) = some p →
          (∀ j, i < j → j < src.length → walkPhys m cr3 (va + j) ≠ some p) → src[i]? = some (m'.byte p)) ∧
        ((∀ i < src.length, ∀ j < src.length,
            walkPhys m cr3 (va + i) = walkPhys m cr3 (va + j) → i = j) →
          procPtwalkRead m' pm pid va src.length true = some src)) ∧
    (¬ Mapped m cr3 va src.length →
      procPtwalkRead m pm pid va src.length true = none ∧
        (ClearOfTables m cr3 va src.length → (procPtwalkWrite m pm pid va (some src)).1 = false)) := by
  refine ⟨fun hmap hreach => ?_, fun hmap hreach hclear => ?_, fun hmap => ⟨?_, fun hclear => ?_⟩⟩
  · obtain ⟨out, hout, hlength, hbyte⟩ := procPtwalkRead_mapped hcr3 hlen hwrap hmap hreach
    refine ⟨out, hout, hlength, fun i hi => ?_⟩
    obtain ⟨p, hp, -, hb⟩ := hbyte i hi
    exact ⟨p, hp, hb⟩
  · have hok := writeLoop_complete hwrap hclear hmap hreach (le_refl (src.length - 0)) (.start m cr3 va src)
    have hdone := writeLoop_sound hwrap hclear (Nat.zero_le _) (.start m cr3 va src) hok
    rw [procPtwalkWrite_eq hcr3 hlen]
    exact ⟨_, Prod.ext hok rfl, hdone.frame, hdone.byte,
      hdone.read_back hcr3 hlen hwrap hclear hreach⟩
  · exact procPtwalkRead_unmapped hcr3 hlen hwrap hmap
  · rw [procPtwalkWrite_eq hcr3 hlen, Bool.eq_false_iff]
    intro hok
    exact hmap (writeLoop_sound hwrap hclear (Nat.zero_le _) (.start m cr3 va src) hok).mapped

/-- One page of 1 GiB. -/
def oneLeafMem : PhysMem := (twoTablesMem true).toPhysMem

theorem ptwalk_pointwise_oneLeafMem :
    uncachedPmaps.cr3 1 = some 0x1000 ∧
      ∃ m', procPtwalkWrite oneLeafMem uncachedPmaps 1 0x5000 (some [0xAB]) = (true, m') ∧
        m'.byte 0x5000 = 0xAB := by
  have hcr3 : uncachedPmaps.cr3 1 = some 0x1000 := by decide
  have hphys : walkPhys oneLeafMem 0x1000 (0x5000 + 0) = some 0x5000 := by decide
  have hzero : ∀ {i : Nat}, i < 1 → i = 0 := fun h => Nat.lt_one_iff.mp h
  have hmap : Mapped oneLeafMem 0x1000 0x5000 1 := by
    intro i hi
    rw [hzero hi]
    exact ⟨0x5000, hphys, by decide⟩
  have hclear : ClearOfTables oneLeafMem 0x1000 0x5000 1 := by
    intro i hi p hp _ j hj t ht
    rw [hzero hi, hphys] at hp
    rw [hzero hj, show walkTables oneLeafMem 0x1000 (0x5000 + 0) = [0x1000, 0x2000] by decide] at ht
    obtain rfl := Option.some.inj hp
    rcases List.mem_pair.mp ht with rfl | rfl <;> omega
  obtain ⟨m', hwrite, -, hbyte, -⟩ :=
    (ptwalk_pointwise hcr3 (show 0 < [(0xAB : Byte)].length by decide) (by decide)).2.1 hmap
      (fun _ _ _ _ _ => Bool.or_true _) hclear
  refine ⟨hcr3, m', hwrite, ?_⟩
  have h := hbyte 0 (by decide) 0x5000 hphys fun j hj hj' => absurd hj' (by simp; omega)
  exact (Option.some.inj h).symm

/-- The empty range is mapped, and refused. -/
theorem ptwalk_empty_range :
    uncachedPmaps.cr3 1 = some 0x1000 ∧ Mapped oneLeafMem 0x1000 0x5000 0 ∧
      procPtwalkRead oneLeafMem uncachedPmaps 1 0x5000 0 true = none ∧
      (procPtwalkWrite oneLeafMem uncachedPmaps 1 0x5000 (some [])).1 = false :=
  ⟨by decide, fun i hi => absurd hi (Nat.not_lt_zero i), rfl, rfl⟩

end Ps5Debugger
