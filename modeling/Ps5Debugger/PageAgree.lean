import Ps5Debugger.PageWalk

/-!
# The walks agree

All translations of an address follow the same entries, so each is determined by the leaf that
`ptw_walk_leaf` finds: `ptw_vtophys` puts the address together with `|` where the others add, and
the span resolver stops one level above and lets the caller index the leaf table. One difference is
deliberate: `scan_alias_map` refuses a leaf with the cache-disable bit. Where its copy of the leaf
table is dropped it indexes the table it copied before.
-/

namespace Ps5Debugger

open Lib

variable {k : KernelMem} {m : PhysMem} {cr3 va : Nat} {spanPt : Nat → Nat}

/-! ## The address of a leaf -/

/-- The frame of a leaf with pages of `2 ^ n` bytes, and the offset in it. -/
theorem leafPhys_eq {n : Nat} (hn : n ≤ 64) (e va : Nat) :
    leafPhys e (2 ^ n) va = (e &&& ptwPhysMask) / 2 ^ n * 2 ^ n + va % 2 ^ n := by
  have hlt : e &&& ptwPhysMask < 2 ^ 64 := Nat.lt_of_le_of_lt Nat.and_le_right (by decide)
  rw [leafPhys, andNot_low hlt hn, and_low]

/-- Frame and offset share no bit. -/
theorem leafPhys_or {n : Nat} (hn : n ≤ 64) (e va : Nat) :
    andNot (e &&& ptwPhysMask) (2 ^ n - 1) ||| (va &&& (2 ^ n - 1)) = leafPhys e (2 ^ n) va := by
  have hlt : e &&& ptwPhysMask < 2 ^ 64 := Nat.lt_of_le_of_lt Nat.and_le_right (by decide)
  rw [leafPhys_eq hn, andNot_low hlt hn, and_low, mul_two_pow_or (Nat.mod_lt _ (Nat.two_pow_pos n))]

/-- A 4 KiB frame is all of the masked entry. -/
theorem leafPhys_page (e va : Nat) : leafPhys e 0x1000 va = (e &&& ptwPhysMask) + va % 0x1000 := by
  have hframe : (e &&& ptwPhysMask) / 0x1000 * 0x1000 = e &&& ptwPhysMask := by
    rw [and_physMask, Nat.mul_div_cancel _ (by decide)]
  have h : leafPhys e 0x1000 va = (e &&& ptwPhysMask) / 0x1000 * 0x1000 + va % 0x1000 :=
    leafPhys_eq (n := 12) (by omega) e va
  rw [h, hframe]

theorem pteHuge_cases {level e : Nat} (h : pteHuge level e = true) : level = 1 ∨ level = 2 := by
  rw [pteHuge, Bool.and_eq_true, Bool.or_eq_true, beq_iff_eq, beq_iff_eq] at h
  exact h.1

/-- What is known of the leaf that ends a walk. -/
theorem walkLeafFrom_ok {left table e level : Nat}
    (h : ptwWalkLeafFrom m va left table = .ok (e, level)) :
    ptePresent e = true ∧ (level = 3 ∨ level = 2 ∨ level = 1) := by
  induction left generalizing table with
  | zero => cases h
  | succ left ih =>
    rw [ptwWalkLeafFrom] at h
    split at h
    · cases h
    split at h
    · cases h
    split at h
    · cases h
    next hp =>
    rw [Bool.not_eq_true', Bool.not_eq_false] at hp
    split at h
    · cases h
      exact ⟨hp, .inl rfl⟩
    split at h
    · next hhuge =>
      cases h
      rcases pteHuge_cases hhuge with h1 | h2
      · exact ⟨hp, .inr (.inr h1)⟩
      · exact ⟨hp, .inr (.inl h2)⟩
    · exact ih h

/-! ## `ptw_vtophys` -/

/-- The address of the leaf a walk ends with. -/
def leafResult (va : Nat) : Except (Nat × Int) (Nat × Nat) → Option Nat
  | .error _ => none
  | .ok (e, level) => (ptwPageSize level).map fun pageSize => leafPhys e pageSize va

theorem walkPhys_eq : walkPhys m cr3 va = leafResult va (ptwWalkLeaf m cr3 va) := by
  rw [walkPhys]
  split <;> next h => rw [h]; rfl

theorem vtophysFrom_eq (left table : Nat) :
    ptwVtophysFrom m va left table = (leafResult va (ptwWalkLeafFrom m va left table)).getD 0 := by
  induction left generalizing table with
  | zero => rfl
  | succ left ih =>
    rw [ptwVtophysFrom, ptwWalkLeafFrom]
    split
    · rfl
    split
    · rfl
    split
    · rfl
    split
    · next e _ _ _ =>
      have hpage := leafPhys_page e va
      have hframe : (e &&& ptwPhysMask) ||| (va &&& 0xFFF) = (e &&& ptwPhysMask) + va % 0x1000 := by
        rw [and_physMask]
        exact (congrArg _ (and_low va 12)).trans (mul_two_pow_or (n := 12) (Nat.mod_lt _ (by decide)))
      rw [hframe, ← hpage]
      rfl
    split
    · next e _ _ _ hhuge =>
      rcases pteHuge_cases hhuge with h1 | h2
      · rw [h1, if_pos rfl, leafPhys_or (by omega)]
        rfl
      · rw [h2, if_neg (by omega), leafPhys_or (by omega)]
        rfl
    · exact ih _

/-! ## The span resolver -/

/-- What the aliasing engine makes of a leaf: it refuses one that must not be cached. -/
def aliasResult (va : Nat) : Except (Nat × Int) (Nat × Nat) → Option Nat
  | .error _ => none
  | .ok (e, level) => if ptePCD e then none else leafResult va (.ok (e, level))

section Span

variable (va) in
/-- The span around an address has the address's indices in the upper tables. -/
theorem ptwIndex_span {level : Nat} (hlevel : level ≤ 2) :
    ptwIndex (va / 0x200000 * 0x200000) level = ptwIndex va level := by
  rw [ptwIndex_eq, ptwIndex_eq]
  exact congrArg (· % 512) (div_mul_div_two_pow (m := 21) (by omega))

theorem page_shift (va : Nat) : (va / 0x1000 * 0x1000) >>> 12 = va >>> 12 := by
  rw [Nat.shiftRight_eq_div_pow, Nat.shiftRight_eq_div_pow]
  exact Nat.mul_div_cancel _ (Nat.two_pow_pos 12)

/-- Page and span of an address. -/
theorem page_of (hva : va < 2 ^ 64) : andNot va 0xFFF = va / 0x1000 * 0x1000 := andNot_low (n := 12) hva (by omega)

theorem span_of (hva : va < 2 ^ 64) : andNot (andNot va 0xFFF) 0x1FFFFF = va / 0x200000 * 0x200000 := by
  have hlt : va / 0x1000 * 0x1000 < 2 ^ 64 := by omega
  have hspan : andNot (va / 0x1000 * 0x1000) 0x1FFFFF = va / 0x1000 * 0x1000 / 0x200000 * 0x200000 :=
    andNot_low (n := 21) hlt (by omega)
  rw [page_of hva, hspan]
  omega

/-- Indexing a copy of the leaf table, against the last step of the walk. -/
theorem aliasFrom_leaf (va p : Nat)
    (hread : ∀ table, spanResolveFrom k.toPhysMem (va / 0x200000 * 0x200000) 0 (p * 0x1000) = some (.leaf table) →
      k.dropped (table / 0x1000) = false) :
    ((spanResolveFrom k.toPhysMem (va / 0x200000 * 0x200000) 0 (p * 0x1000)).bind
        (aliasPage k spanPt (va / 0x1000 * 0x1000) (va / 0x200000 * 0x200000))).map (· + va % 0x1000) =
      aliasResult va (ptwWalkLeafFrom k.toPhysMem va 1 (p * 0x1000)) := by
  revert hread
  unfold spanResolveFrom ptwWalkLeafFrom
  by_cases hb : ptwPhysBound ≤ p * 0x1000
  · rw [if_pos hb, if_pos hb]
    exact fun _ => rfl
  rw [if_neg hb, if_neg hb]
  intro hread
  -- the walk reads the entry, the engine a copy of the table around it
  have hidx : (va / 0x1000 * 0x1000) >>> 12 &&& 0x1FF = ptwIndex va 3 :=
    congrArg (· &&& 0x1FF) (page_shift va)
  simp only [Nat.sub_zero, Option.bind_some, aliasPage, hidx,
    PhysMem.read64_table (ptwIndex_lt va 3), KernelMem.copyTableInto_eq (hread _ rfl)]
  obtain ⟨hno, hyes⟩ := PhysMem.copyTable_eq (m := k.toPhysMem) p
  cases hreach : k.reachable p with
  | false => rw [hno hreach]; rfl
  | true =>
    obtain ⟨tab, htab, hentry⟩ := hyes hreach
    rw [htab]
    have hsize : ptwPageSize 3 = some 0x1000 := rfl
    simp only [Option.bind_some, hentry _ (ptwIndex_lt va 3), if_true]
    split
    · rfl
    rw [aliasResult]
    split
    · rfl
    · rw [leafResult, hsize, Option.map_some, Option.map_some, leafPhys_page]

/-- Resolving the span from a table and finding the page in it, against the walk from that table. -/
theorem aliasFrom_eq {left : Nat} (hleft : left ≤ 3) (p : Nat)
    (hread : ∀ table, spanResolveFrom k.toPhysMem (va / 0x200000 * 0x200000) left (p * 0x1000) = some (.leaf table) →
      k.dropped (table / 0x1000) = false) :
    ((spanResolveFrom k.toPhysMem (va / 0x200000 * 0x200000) left (p * 0x1000)).bind
        (aliasPage k spanPt (va / 0x1000 * 0x1000) (va / 0x200000 * 0x200000))).map (· + va % 0x1000) =
      aliasResult va (ptwWalkLeafFrom k.toPhysMem va (left + 1) (p * 0x1000)) := by
  induction left generalizing p with
  | zero => exact aliasFrom_leaf va p hread
  | succ left ih =>
    revert hread
    rw [spanResolveFrom, ptwWalkLeafFrom]
    split
    · exact fun _ => rfl
    have hlevel : 3 - (left + 1) = 2 - left := by omega
    rw [hlevel, ptwIndex_span va (by omega)]
    cases k.read64 (p * 0x1000 + ptwIndex va (2 - left) * 8) with
    | none => exact fun _ => rfl
    | some e =>
      dsimp only
      split
      · exact fun _ => rfl
      have hupper : ¬ 2 - left = 3 := by omega
      rw [if_neg hupper]
      split
      · next hhuge =>
        intro _
        rw [Option.bind_some, aliasPage, aliasResult]
        split
        · rfl
        · have hlt : e &&& ptwPhysMask < 2 ^ 64 := Nat.lt_of_le_of_lt Nat.and_le_right (by decide)
          rcases pteHuge_cases hhuge with h1 | h2
          · have hphys := leafPhys_eq (n := 30) (by omega) e va
            have hsize : ptwPageSize 1 = some (2 ^ 30) := rfl
            rw [h1, if_pos rfl, andNot_low hlt (by omega), and_low, leafResult, hsize]
            refine congrArg some (Eq.trans ?_ hphys.symm)
            dsimp only
            omega
          · have hphys := leafPhys_eq (n := 21) (by omega) e va
            have hsize : ptwPageSize 2 = some (2 ^ 21) := rfl
            rw [h2, if_neg (by omega), andNot_low hlt (by omega), and_low, leafResult, hsize]
            refine congrArg some (Eq.trans ?_ hphys.symm)
            dsimp only
            omega
      · rw [and_physMask]
        exact ih (by omega) _

end Span

/-! ## Agreement -/

variable {pm : Pmaps} {pid : Nat}

/-- The copy of the leaf table around an address is not dropped. -/
def LeafTableRead (k : KernelMem) (cr3 va : Nat) : Prop :=
  ∀ table, spanResolve k.toPhysMem cr3 (andNot (andNot va 0xFFF) 0x1FFFFF) = some (.leaf table) →
    k.dropped (table / 0x1000) = false

/-- What the aliasing engine finds is what the walk finds, uncached leaves apart. -/
theorem scanAliasPhys_eq (hcr3 : pm.cr3 pid = some cr3) (hva : va < 2 ^ 64) (hread : LeafTableRead k cr3 va) :
    scanAliasPhys k pm spanPt pid va = aliasResult va (ptwWalkLeaf k.toPhysMem cr3 va) := by
  rw [LeafTableRead, span_of hva, spanResolve, and_physMask] at hread
  have hlow : va &&& 0xFFF = va % 0x1000 := and_low va 12
  rw [scanAliasPhys, scanAliasTranslate, procPtwalkSpanResolve, hcr3, span_of hva, page_of hva, hlow,
    ptwWalkLeaf, and_physMask]
  dsimp only
  rw [spanResolve, and_physMask]
  exact aliasFrom_eq (by omega : 3 ≤ 3) _ hread

/-- The probe finds what the read and write loops find. -/
theorem probe_phys (hcr3 : pm.cr3 pid = some cr3) :
    (procPtwalkProbe m pm pid va).map PageProbe.phys = walkPhys m cr3 va := by
  rw [procPtwalkProbe, hcr3, walkPhys]
  dsimp only
  cases hwalk : ptwWalkLeaf m cr3 va with
  | error r => rfl
  | ok r =>
    obtain ⟨e, level⟩ := r
    obtain ⟨hpresent, hlevel⟩ := walkLeafFrom_ok hwalk
    dsimp only
    rw [hpresent]
    rcases hlevel with rfl | rfl | rfl <;> rfl

/-- The leaf of an address has the cache-disable bit. -/
def leafUncached (m : PhysMem) (cr3 va : Nat) : Bool :=
  match ptwWalkLeaf m cr3 va with
  | .error _ => false
  | .ok (e, _) => ptePCD e

/-- **All page-table walks agree.** For every memory and every address of a process whose page table
the callers accept, the read and write loops, the probe and `ptw_vtophys` fail together or find the
same address, and `scan_alias_map` finds it too unless the leaf must not be cached, which it
refuses, if its copy of the leaf table is not dropped. -/
theorem page_walks_agree (hcr3 : pm.cr3 pid = some cr3) (hva : va < 2 ^ 64) :
    (procPtwalkProbe k.toPhysMem pm pid va).map PageProbe.phys = walkPhys k.toPhysMem cr3 va ∧
      ptwVtophys k.toPhysMem cr3 va = (walkPhys k.toPhysMem cr3 va).getD 0 ∧
      (LeafTableRead k cr3 va → scanAliasPhys k pm spanPt pid va =
        if leafUncached k.toPhysMem cr3 va then none else walkPhys k.toPhysMem cr3 va) := by
  refine ⟨probe_phys hcr3, ?_, ?_⟩
  · rw [walkPhys_eq]
    exact vtophysFrom_eq 4 _
  · intro hread
    rw [scanAliasPhys_eq hcr3 hva hread, leafUncached, walkPhys_eq]
    cases ptwWalkLeaf k.toPhysMem cr3 va with
    | error r => rfl
    | ok r => rfl

/-- A table whose entries all point to itself, with the cache-disable bit. -/
def uncachedMem : KernelMem where
  byte := fun a => if a % 8 = 0 then 0x11 else if a % 8 = 1 then 0x10 else 0
  reachable := fun _ => true
  dropped := fun _ => false

def uncachedPmaps : Pmaps where
  dmap := 0xFFFF800000000000
  pair := fun _ => some (0xFFFF800000001000, 0x1000)

theorem page_walks_agree_uncached :
    uncachedPmaps.cr3 1 = some 0x1000 ∧
      scanAliasPhys uncachedMem uncachedPmaps (fun _ => 0) 1 0 =
        if leafUncached uncachedMem.toPhysMem 0x1000 0 then none else walkPhys uncachedMem.toPhysMem 0x1000 0 :=
  ⟨by decide, (page_walks_agree (by decide) (by decide)).2.2 fun _ _ => rfl⟩

/-- A cache-disabled page has an address for every walk but the aliasing engine's. -/
theorem uncached_page_refused :
    uncachedPmaps.cr3 1 = some 0x1000 ∧
      (procPtwalkProbe uncachedMem.toPhysMem uncachedPmaps 1 0).map PageProbe.phys = some 0x1000 ∧
      walkPhys uncachedMem.toPhysMem 0x1000 0 = some 0x1000 ∧ ptwVtophys uncachedMem.toPhysMem 0x1000 0 = 0x1000 ∧
      scanAliasPhys uncachedMem uncachedPmaps (fun _ => 0) 1 0 = none := by
  refine ⟨by decide, by decide, by decide, by decide, ?_⟩
  rw [scanAliasPhys_eq (by decide : uncachedPmaps.cr3 1 = some 0x1000) (by decide) fun _ _ => rfl]
  decide

end Ps5Debugger
