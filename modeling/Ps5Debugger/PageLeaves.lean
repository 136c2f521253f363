import Ps5Debugger.PageEnum

/-!
# The enumeration is the walk, pointwise

The leaves of a table lie inside the addresses the table stands for, in ascending order
(`leafRuns_within`, `leafRuns_ascending`), and an address lies in a leaf exactly when the walk for
it ends with that leaf (`covers_leafRuns`). Both are inductions on the levels. With the coalescing of
the accumulator this gives what `ptw_enumerate` returns, if no copy of a table is dropped.
-/

namespace Ps5Debugger

open Lib

variable {m : PhysMem} {mem : KernelMem}

/-! ## Where the leaves lie -/

/-- How far one entry of a table reaches. -/
def reach (left : Nat) : Nat := 2 ^ (12 + 9 * left)

theorem reach_pos (left : Nat) : 0 < reach left := Nat.two_pow_pos _

theorem reach_succ (left : Nat) : reach (left + 1) = 512 * reach left := by
  rw [reach, reach, show 12 + 9 * (left + 1) = 9 + (12 + 9 * left) by omega, Nat.pow_add]

/-- The leaves below one entry `e` that stands for the addresses from `va` on. -/
def entryRuns (m : PhysMem) (left e va : Nat) : List Leaf :=
  if !ptePresent e then []
  else if left = 0 ∨ pteHuge (3 - left) e then [⟨va, va + reach left, e⟩]
  else leafRuns m left 512 (e &&& ptwPhysMask) va

/-- A table is empty for the walks, or a list of entries. -/
theorem leafRuns_cases (left count p va : Nat) :
    (leafRuns m (left + 1) count (p * 0x1000) va = [] ∧
        (ptwPhysBound ≤ p * 0x1000 ∨ m.reachable p = false)) ∨
      (¬ ptwPhysBound ≤ p * 0x1000 ∧ m.reachable p = true ∧
        ∃ tab : Nat → Nat, (∀ i < 512, tab i = m.entry (p * 0x1000) i) ∧
          leafRuns m (left + 1) count (p * 0x1000) va =
            (List.range count).flatMap fun i => entryRuns m left (tab i) (va + i * reach left)) := by
  by_cases hb : ptwPhysBound ≤ p * 0x1000
  · exact .inl ⟨leafRuns_bound hb left count, .inl hb⟩
  obtain ⟨hno, hyes⟩ := PhysMem.copyTable_eq (m := m) p
  cases hreach : m.reachable p with
  | false => exact .inl ⟨leafRuns_unread (hno hreach) left count, .inr rfl⟩
  | true =>
    obtain ⟨tab, htab, hentry⟩ := hyes hreach
    exact .inr ⟨hb, rfl, tab, hentry, leafRuns_table hb htab left count⟩

/-- An entry's addresses are among its table's. -/
theorem within_entry {count i va w lo hi : Nat} (hcount : i < count) (hlo : va + i * w ≤ lo)
    (hr : lo < hi) (hhi : hi ≤ va + i * w + w) : va ≤ lo ∧ lo < hi ∧ hi ≤ va + count * w := by
  have hmul : (i + 1) * w ≤ count * w := Nat.mul_le_mul_right w hcount
  rw [Nat.succ_mul] at hmul
  omega

/-- The leaves of an entry, when those of the next table are known to lie in it. -/
theorem entryRuns_within {left e va : Nat} {r : Leaf} (h : r ∈ entryRuns m left e va)
    (hnext : ∀ p, r ∈ leafRuns m left 512 (p * 0x1000) va →
      va ≤ r.lo ∧ r.lo < r.hi ∧ r.hi ≤ va + reach left) :
    va ≤ r.lo ∧ r.lo < r.hi ∧ r.hi ≤ va + reach left := by
  rw [entryRuns] at h
  split at h
  · cases h
  split at h
  · obtain rfl := List.mem_singleton.mp h
    have := reach_pos left
    exact ⟨le_refl _, by dsimp only; omega, le_refl _⟩
  · rw [and_physMask] at h
    exact hnext _ h

/-- The leaves of a table lie in the addresses the table stands for. -/
theorem leafRuns_within (left : Nat) : ∀ {count p va : Nat} {r : Leaf},
    r ∈ leafRuns m (left + 1) count (p * 0x1000) va →
      va ≤ r.lo ∧ r.lo < r.hi ∧ r.hi ≤ va + count * reach left := by
  induction left with
  | zero =>
    intro count p va r h
    obtain ⟨hnil, -⟩ | ⟨-, -, tab, -, hl⟩ := leafRuns_cases (m := m) 0 count p va
    · rw [hnil] at h
      cases h
    · rw [hl] at h
      obtain ⟨i, hi, h⟩ := List.mem_flatMap.mp h
      obtain ⟨hlo, hr, hhi⟩ := entryRuns_within h fun p h => by cases h
      exact within_entry (List.mem_range.mp hi) hlo hr hhi
  | succ left ih =>
    intro count p va r h
    obtain ⟨hnil, -⟩ | ⟨-, -, tab, -, hl⟩ := leafRuns_cases (m := m) (left + 1) count p va
    · rw [hnil] at h
      cases h
    · rw [hl] at h
      obtain ⟨i, hi, h⟩ := List.mem_flatMap.mp h
      obtain ⟨hlo, hr, hhi⟩ := entryRuns_within h fun p h => by
        have hnext := ih h
        rwa [← reach_succ] at hnext
      exact within_entry (List.mem_range.mp hi) hlo hr hhi

/-- Each entry's leaves lie in the entry's own addresses. -/
theorem entryRuns_cells (left count : Nat) (tab : Nat → Nat) (va : Nat) :
    InCells count (reach left) va fun i => entryRuns m left (tab i) (va + i * reach left) := by
  intro i hi r hr
  obtain ⟨hlo, -, hhi⟩ := entryRuns_within hr fun p h => by
    cases left with
    | zero => cases h
    | succ left =>
      have hnext := leafRuns_within left h
      rwa [← reach_succ] at hnext
  exact ⟨hlo, hhi⟩

theorem leafRuns_ascending (left : Nat) : ∀ count p va : Nat,
    Ascending (leafRuns m left count (p * 0x1000) va) := by
  induction left with
  | zero => exact fun _ _ _ => ⟨by simp [leafRuns], .nil⟩
  | succ left ih =>
    intro count p va
    obtain ⟨hnil, -⟩ | ⟨-, -, tab, -, hl⟩ := leafRuns_cases (m := m) left count p va
    · rw [hnil]
      exact ⟨by simp, .nil⟩
    · rw [hl]
      refine ascending_cells (entryRuns_cells left count tab va) fun i _ => ?_
      rw [entryRuns]
      split
      · exact ⟨by simp, .nil⟩
      split
      · have := reach_pos left
        exact ⟨by simpa using this, List.pairwise_singleton _ _⟩
      · rw [and_physMask]
        exact ih 512 _ _

/-! ## The walk ends in the leaf around the address -/

/-- One step of the walk. -/
theorem walkLeafFrom_succ {left p x : Nat} (hleft : left ≤ 3) (hb : ¬ ptwPhysBound ≤ p * 0x1000)
    (hreach : m.reachable p = true) :
    ptwWalkLeafFrom m x (left + 1) (p * 0x1000) =
      let e := m.entry (p * 0x1000) (ptwIndex x (3 - left))
      if !ptePresent e then .error (e, ((3 - left : Nat) : Int))
      else if left = 0 then .ok (e, 3)
      else if pteHuge (3 - left) e then .ok (e, 3 - left)
      else ptwWalkLeafFrom m x left (e &&& ptwPhysMask) := by
  have hlevel : 3 - left = 3 ↔ left = 0 := by omega
  rw [ptwWalkLeafFrom, if_neg hb, PhysMem.read64_table (ptwIndex_lt x _), hreach, if_pos rfl]
  simp only [hlevel]

theorem walkLeafFrom_stuck {p : Nat} (left x : Nat) (h : ptwPhysBound ≤ p * 0x1000 ∨ m.reachable p = false) :
    ∃ r, ptwWalkLeafFrom m x (left + 1) (p * 0x1000) = .error r := by
  rw [ptwWalkLeafFrom]
  split
  · exact ⟨_, rfl⟩
  · next hb =>
    rw [PhysMem.read64_table (ptwIndex_lt x _), h.resolve_left hb]
    exact ⟨_, rfl⟩

/-- The index of an address in the table that stands for `512` entries from `va` on. -/
theorem ptwIndex_of_entry {left va i x : Nat} (hleft : left ≤ 3) (hva : va % reach (left + 1) = 0)
    (hi : i < 512) (hlo : va + i * reach left ≤ x) (hhi : x < va + i * reach left + reach left) :
    ptwIndex x (3 - left) = i := by
  have hshift : 39 - (3 - left) * 9 = 12 + 9 * left := by omega
  obtain ⟨q, hq⟩ := Nat.dvd_of_mod_eq_zero hva
  have hdiv : x / reach left = q * 512 + i := by
    rw [reach_succ] at hq
    refine Nat.div_eq_of_lt_le ?_ ?_
    · calc (q * 512 + i) * reach left = 512 * reach left * q + i * reach left := by ring
        _ ≤ x := by rw [← hq]; exact hlo
    · calc x < va + i * reach left + reach left := hhi
        _ = (q * 512 + i + 1) * reach left := by rw [hq]; ring
  rw [ptwIndex_eq, hshift]
  change x / reach left % 512 = i
  rw [hdiv]
  omega

/-- Below one entry, when the next level is known. -/
theorem covers_entry {left e va x t : Nat} (hlo : va ≤ x) (hhi : x < va + reach left)
    (hpresent : ptePresent e = true)
    (hnext : left ≠ 0 → (Covers (leafRuns m left 512 (e &&& ptwPhysMask) va) x t ↔
      ∃ level, ptwWalkLeafFrom m x left (e &&& ptwPhysMask) = .ok (t, level))) :
    Covers (entryRuns m left e va) x t ↔
      ∃ level, (if left = 0 then .ok (e, 3)
        else if pteHuge (3 - left) e then .ok (e, 3 - left)
        else ptwWalkLeafFrom m x left (e &&& ptwPhysMask)) = Except.ok (t, level) := by
  have hleaf : Covers [(⟨va, va + reach left, e⟩ : Leaf)] x t ↔ e = t := by
    simp [Covers, Run.Has, hlo, hhi]
  rw [entryRuns, hpresent, Bool.not_true, if_neg Bool.false_ne_true]
  by_cases hzero : left = 0
  · rw [if_pos (.inl hzero), if_pos hzero, hleaf]
    simp
  by_cases hhuge : pteHuge (3 - left) e = true
  · rw [if_pos (.inr hhuge), if_neg hzero, if_pos hhuge, hleaf]
    simp
  · rw [if_neg (not_or.mpr ⟨hzero, hhuge⟩), if_neg hzero, if_neg hhuge]
    exact hnext hzero

/-- Below a table, when the next level is known. -/
theorem covers_table {left count p va x e : Nat} (hleft : left ≤ 3)
    (hnext : ∀ q va' : Nat, left ≠ 0 → va' % reach left = 0 → va' ≤ x → x < va' + reach left →
      (Covers (leafRuns m left 512 (q * 0x1000) va') x e ↔
        ∃ level, ptwWalkLeafFrom m x left (q * 0x1000) = .ok (e, level)))
    (hcount : count ≤ 512) (hva : va % reach (left + 1) = 0) (hlo : va ≤ x)
    (hhi : x < va + count * reach left) :
    Covers (leafRuns m (left + 1) count (p * 0x1000) va) x e ↔
      ∃ level, ptwWalkLeafFrom m x (left + 1) (p * 0x1000) = .ok (e, level) := by
  obtain ⟨hnil, hstuck⟩ | ⟨hb, hreach, tab, hentry, hl⟩ := leafRuns_cases (m := m) left count p va
  · obtain ⟨r, hr⟩ := walkLeafFrom_stuck left x hstuck
    rw [hnil, hr]
    simp [Covers]
  -- the entry around the address
  obtain ⟨i, hi, hxlo, hxhi⟩ : ∃ i < count, va + i * reach left ≤ x ∧ x < va + i * reach left + reach left := by
    have hmod := Nat.mod_lt (x - va) (reach_pos left)
    have hsplit := Nat.div_add_mod' (x - va) (reach left)
    refine ⟨(x - va) / reach left, ?_, by omega, by omega⟩
    exact (Nat.div_lt_iff_lt_mul (reach_pos left)).mpr (by omega)
  have hidx := ptwIndex_of_entry hleft hva (by omega) hxlo hxhi
  rw [hl, covers_cells (entryRuns_cells left count tab va) hi hxlo hxhi, hentry i (by omega),
    walkLeafFrom_succ hleft hb hreach, hidx]
  dsimp only
  cases hpresent : ptePresent (m.entry (p * 0x1000) i) with
  | false =>
    rw [entryRuns, hpresent]
    simp [Covers]
  | true =>
    rw [Bool.not_true, if_neg Bool.false_ne_true]
    refine covers_entry hxlo hxhi hpresent fun hzero => ?_
    rw [and_physMask]
    refine hnext _ _ hzero ?_ hxlo hxhi
    obtain ⟨q, hq⟩ := Nat.dvd_of_mod_eq_zero hva
    rw [hq, reach_succ, Nat.mul_right_comm, Nat.add_mul_mod_self_right, Nat.mul_mod_left]

/-- **The leaves are what the walks find.** -/
theorem covers_leafRuns (left : Nat) (hleft : left ≤ 3) : ∀ {count p va x e : Nat}, count ≤ 512 →
    va % reach (left + 1) = 0 → va ≤ x → x < va + count * reach left →
      (Covers (leafRuns m (left + 1) count (p * 0x1000) va) x e ↔
        ∃ level, ptwWalkLeafFrom m x (left + 1) (p * 0x1000) = .ok (e, level)) := by
  induction left with
  | zero =>
    intro count p va x e
    exact covers_table hleft fun q va' hzero => absurd rfl hzero
  | succ left ih =>
    intro count p va x e
    refine covers_table hleft fun q va' _ hva' hlo hhi => ?_
    rw [reach_succ] at hhi
    exact ih (by omega) (le_refl 512) hva' hlo hhi

/-! ## What the enumeration returns -/

theorem protRuns_ascending (cr3 : Nat) :
    Ascending ((leafRuns m 4 256 (cr3 &&& ptwPhysMask) 0).map protRun) := by
  rw [and_physMask]
  obtain ⟨hproper, hbefore⟩ := leafRuns_ascending (m := m) 4 256 (cr3 / 2 ^ 12 % 2 ^ 40) 0
  refine ⟨?_, List.pairwise_map.mpr hbefore⟩
  intro r hr
  obtain ⟨l, hl, rfl⟩ := List.mem_map.mp hr
  exact hproper l hl

/-- An address of the lower half lies in an entry with protection `prot` exactly when its walk ends
with a leaf of that protection. -/
theorem covers_ptwEnumerate {allocs : Option PtwTables} {cr3 : Nat} {ents : List VmMapEntry}
    (hread : TablesRead mem 4 256 (cr3 &&& ptwPhysMask)) (h : ptwEnumerate mem allocs cr3 = some ents)
    (hroom : ents.length < ptwMaxEntries) {va prot : Nat} (hva : va < 2 ^ 47) :
    (∃ e ∈ ents, (e.start ≤ va ∧ va < e.stop) ∧ e.prot = prot) ↔
      ∃ pte level, ptwWalkLeaf mem.toPhysMem cr3 va = .ok (pte, level) ∧ ptwPteProt pte = prot := by
  have hents : (∃ e ∈ ents, (e.start ≤ va ∧ va < e.stop) ∧ e.prot = prot) ↔
      Covers (ents.map VmMapEntry.run) va prot := by
    simp [Covers, Run.Has, VmMapEntry.run]
  obtain ⟨-, -, hcover⟩ := coalesce_spec (protRuns_ascending (m := mem.toPhysMem) cr3)
  have hleaf : ∀ pte, Covers (leafRuns mem.toPhysMem 4 256 (cr3 &&& ptwPhysMask) 0) va pte ↔
      ∃ level, ptwWalkLeaf mem.toPhysMem cr3 va = .ok (pte, level) := by
    intro pte
    rw [ptwWalkLeaf, and_physMask]
    refine covers_leafRuns 3 (le_refl 3) (by omega) (Nat.zero_mod _) (Nat.zero_le va) ?_
    rw [Nat.zero_add, reach]
    omega
  rw [hents, runs_ptwEnumerate hread h hroom, hcover]
  constructor
  · rintro ⟨r, hr, hx, ht⟩
    obtain ⟨l, hl, rfl⟩ := List.mem_map.mp hr
    obtain ⟨level, hwalk⟩ := (hleaf l.tag).mp ⟨l, hl, hx, rfl⟩
    exact ⟨l.tag, level, hwalk, ht⟩
  · rintro ⟨pte, level, hwalk, hprot⟩
    obtain ⟨l, hl, hx, rfl⟩ := (hleaf pte).mpr ⟨level, hwalk⟩
    exact ⟨protRun l, List.mem_map_of_mem hl, hx, hprot⟩

/-- **Enumeration is pointwise translation**, if no copy of a table that the loops come to is dropped. When
`ptw_enumerate` returns fewer entries than it has room for, an address of the lower half lies in an
entry exactly when its walk succeeds, the entry has the protection of its leaf, and the entries are
disjoint, ascending and as long as can be. -/
theorem ptwEnumerate_pointwise {allocs : Option PtwTables} {cr3 : Nat} {ents : List VmMapEntry}
    (hread : TablesRead mem 4 256 (cr3 &&& ptwPhysMask)) (h : ptwEnumerate mem allocs cr3 = some ents)
    (hroom : ents.length < 16384) :
    (∀ va < 2 ^ 47, (∃ e ∈ ents, e.start ≤ va ∧ va < e.stop) ↔
        ∃ pte level, ptwWalkLeaf mem.toPhysMem cr3 va = .ok (pte, level)) ∧
      (∀ va < 2 ^ 47, ∀ e ∈ ents, e.start ≤ va → va < e.stop →
        ∀ pte level, ptwWalkLeaf mem.toPhysMem cr3 va = .ok (pte, level) → e.prot = ptwPteProt pte) ∧
      (∀ e ∈ ents, e.start < e.stop) ∧
      ents.Pairwise (fun a b => a.start < b.start ∧ a.stop ≤ b.start) ∧
      ents.Pairwise (fun a b => a.stop = b.start → a.prot ≠ b.prot) := by
  obtain ⟨hasc, hmax, -⟩ := coalesce_spec (protRuns_ascending (m := mem.toPhysMem) cr3)
  rw [← runs_ptwEnumerate hread h hroom] at hasc hmax
  have hproper : ∀ e ∈ ents, e.start < e.stop :=
    fun e he => hasc.proper e.run (List.mem_map_of_mem he)
  refine ⟨fun va hva => ?_, fun va hva e he hlo hhi pte level hwalk => ?_, hproper, ?_, List.pairwise_map.mp hmax⟩
  · constructor
    · rintro ⟨e, he, hx⟩
      obtain ⟨pte, level, hwalk, -⟩ := (covers_ptwEnumerate hread h hroom hva).mp ⟨e, he, hx, rfl⟩
      exact ⟨pte, level, hwalk⟩
    · rintro ⟨pte, level, hwalk⟩
      obtain ⟨e, he, hx, -⟩ := (covers_ptwEnumerate hread h hroom hva).mpr ⟨pte, level, hwalk, rfl⟩
      exact ⟨e, he, hx⟩
  · obtain ⟨pte', level', hwalk', hprot⟩ := (covers_ptwEnumerate hread h hroom hva).mp ⟨e, he, ⟨hlo, hhi⟩, rfl⟩
    rw [hwalk] at hwalk'
    cases hwalk'
    exact hprot.symm
  · refine (List.pairwise_map.mp hasc.before).imp_of_mem ?_
    intro a b ha _ hab
    exact ⟨lt_of_lt_of_le (hproper a ha) hab, hab⟩

/-- Nothing is dropped at all. -/
theorem tablesRead_of_forall (h : ∀ p, mem.dropped p = false) : ∀ left count table, TablesRead mem left count table
  | 0, _, _ => trivial
  | left + 1, _, _ => fun _ => ⟨h _, fun _ _ _ _ _ _ => tablesRead_of_forall h left _ _⟩

/-! A top table with two entries. The table of the first one has a 1 GiB page, readable, writable and executable;
that of the second is empty, and its copy is dropped unless `r` says that it is reached. -/

def twoTablesMem (r : Bool) : KernelMem where
  byte := fun a =>
    if a = 0x1000 ∨ a = 0x1008 then 0x01 else if a = 0x1001 then 0x20 else if a = 0x1009 then 0x30
    else if a = 0x2000 then 0x83 else 0
  reachable := fun p => p != 3 || r
  dropped := fun p => p == 3 && !r

def zeroTables : PtwTables := ⟨fun _ => 0, fun _ => 0, fun _ => 0, fun _ => 0⟩

section TwoTables

variable {r : Bool}

theorem twoTablesMem_entry {p i : Nat} (hi : 3 ≤ p + i) (hi' : i < 512) :
    (twoTablesMem r).entry (p * 0x1000) i = 0 := by
  refine (leNat_inj 8 _ []).mpr fun j hj => ?_
  rw [getD_slice hj, twoTablesMem]
  dsimp only
  rw [if_neg (by omega), if_neg (by omega), if_neg (by omega), if_neg (by omega)]
  rfl

/-- A copy of one of its tables: the first entries, and nothing behind them. -/
theorem twoTablesMem_copy {p : Nat} (h : (twoTablesMem r).reachable p = true) (buf : Nat → Nat) :
    ∃ tab, (twoTablesMem r).copyTableInto buf (p * 0x1000) = some tab ∧
      (∀ i < 512, tab i = (twoTablesMem r).entry (p * 0x1000) i) ∧
      ∀ i < 512, 3 - p ≤ i → ptePresent (tab i) = false := by
  obtain ⟨tab, htab, hentry⟩ := (PhysMem.copyTable_eq (m := (twoTablesMem r).toPhysMem) p).2 h
  refine ⟨tab, by rw [KernelMem.copyTableInto, htab, Option.some_or], hentry, fun i hi hle => ?_⟩
  rw [hentry i hi, twoTablesMem_entry (by omega) hi]
  rfl

theorem PtwState.emit_pdpt (s : PtwState) (start stop pte : Nat) : (s.emit start stop pte).pdpt = s.pdpt := rfl

/-- A loop whose later entries are absent. -/
theorem ptwLoop_head {count n : Nat} {body : PtwState → Nat → PtwState} (hn : n ≤ count)
    (h : ∀ i < count, n ≤ i → ∀ s, body s i = s) (s : PtwState) : ptwLoop count body s = ptwLoop n body s := by
  induction count, hn using Nat.le_induction with
  | base => rfl
  | succ count hle ih =>
    have hprev := ih fun i hi => h i (by omega)
    rw [ptwLoop, ptwLoop] at hprev ⊢
    rw [List.range_succ, List.foldl_append, hprev, List.foldl_cons, List.foldl_nil]
    split
    · exact h count (by omega) hle _
    · rfl

/-- The loop over a directory-pointer table with one page. -/
theorem enumPdpt_page {tab : Nat → Nat} (h0 : tab 0 = 0x83) (h : ∀ j < 512, 1 ≤ j → ptePresent (tab j) = false)
    (i : Nat) {s : PtwState} (hs : s.ents.length < ptwMaxEntries) :
    enumPdpt (twoTablesMem r) tab i s = s.emit (i <<< 39 ||| 0) ((i <<< 39 ||| 0) + 2 ^ 30) 0x83 := by
  have hpresent : ptePresent 0x83 = true := by decide
  have hps : ptePS 0x83 = true := by decide
  rw [enumPdpt, ptwLoop_head (n := 1) (by omega) fun j hj hle s => by dsimp only; rw [h j hj hle]; rfl, ptwLoop]
  simp only [List.range_one, List.foldl_cons, List.foldl_nil, if_pos hs, h0, hpresent, hps]
  rfl

/-- With the second table the loops find one page, without it they find the page of the first one again. -/
theorem ptwEnumerate_twoTables :
    ptwEnumerate (twoTablesMem r) (some zeroTables) 0x1000 =
      some (⟨"(aux)", 0, 2 ^ 30, 0, 7⟩ :: if r then [] else [⟨"(aux)", 2 ^ 39, 2 ^ 39 + 2 ^ 30, 0, 7⟩]) := by
  have hcr3 : (0x1000 : Nat) &&& ptwPhysMask = 1 * 0x1000 := by decide
  have hfirst : (0x2001 : Nat) &&& ptwPhysMask = 2 * 0x1000 := by decide
  have hsecond : (0x3001 : Nat) &&& ptwPhysMask = 3 * 0x1000 := by decide
  have hpresent : ptePresent 0x2001 = true ∧ ptePresent 0x3001 = true := by decide
  obtain ⟨pml4, hpml4, hentry, habsent⟩ := twoTablesMem_copy (r := r) (p := 1) rfl zeroTables.pml4
  have h0 : pml4 0 = 0x2001 := (hentry 0 (by omega)).trans (by cases r <;> decide)
  have h1 : pml4 1 = 0x3001 := (hentry 1 (by omega)).trans (by cases r <;> decide)
  obtain ⟨pdpt, hpdpt, hpage, hrest⟩ := twoTablesMem_copy (r := r) (p := 2) rfl zeroTables.pdpt
  have hleaf : pdpt 0 = 0x83 := (hpage 0 (by omega)).trans (by cases r <;> decide)
  have hloop : (enumPml4 (twoTablesMem r) pml4 { zeroTables with pml4 }).toPtwCoal =
      if r then ptwCoalEmit {} 0 (2 ^ 30) 0x83
      else ptwCoalEmit (ptwCoalEmit {} 0 (2 ^ 30) 0x83) (2 ^ 39) (2 ^ 39 + 2 ^ 30) 0x83 := by
    have hstart : ({ zeroTables with pml4 } : PtwState).ents.length < ptwMaxEntries := (by decide : 0 < ptwMaxEntries)
    have hbound : ¬ ptwPhysBound ≤ 2 * 0x1000 ∧ ¬ ptwPhysBound ≤ 3 * 0x1000 := by decide
    rw [enumPml4, ptwLoop_head (n := 2) (by omega) fun i hi hle s => by dsimp only; rw [habsent i (by omega) hle]; rfl,
      ptwLoop, show List.range 2 = [0, 1] from rfl]
    simp only [List.foldl_cons, List.foldl_nil, if_pos hstart, h0, h1, hpresent, hfirst, hsecond, hpdpt,
      Bool.not_true, Bool.false_eq_true, if_false, hbound, Option.elim_some]
    rw [enumPdpt_page hleaf hrest 0 (by exact hstart), if_pos (by exact hstart)]
    rw [PtwState.emit_pdpt]
    dsimp only
    cases r with
    | true =>
      obtain ⟨tab, htab, -, hempty⟩ := twoTablesMem_copy (r := true) (p := 3) rfl pdpt
      rw [htab, Option.elim_some, enumPdpt, ptwLoop_head (n := 0) (Nat.zero_le _) fun j hj hle s => by
        dsimp only; rw [hempty j hj hle]; rfl]
      rfl
    | false =>
      have hunread := (PhysMem.copyTable_eq (m := (twoTablesMem false).toPhysMem) 3).1 rfl
      have hdropped : (twoTablesMem false).copyTableInto pdpt (3 * 0x1000) = some pdpt := by
        rw [KernelMem.copyTableInto, hunread]
        rfl
      rw [hdropped, Option.elim_some, enumPdpt_page hleaf hrest 1 (by exact hstart)]
      rfl
  rw [ptwEnumerate, Option.bind_some]
  dsimp only
  rw [hcr3, if_neg (by decide), hpml4, Option.bind_some, hloop]
  cases r <;> rfl

end TwoTables

theorem ptwEnumerate_pointwise_twoTables :
    ptwEnumerate (twoTablesMem true) (some zeroTables) 0x1000 = some [⟨"(aux)", 0, 2 ^ 30, 0, 7⟩] ∧
      ∀ va < 2 ^ 47, (∃ e ∈ [(⟨"(aux)", 0, 2 ^ 30, 0, 7⟩ : VmMapEntry)], e.start ≤ va ∧ va < e.stop) ↔
        ∃ pte level, ptwWalkLeaf (twoTablesMem true).toPhysMem 0x1000 va = .ok (pte, level) :=
  ⟨ptwEnumerate_twoTables (r := true), (ptwEnumerate_pointwise
    (@tablesRead_of_forall (twoTablesMem true) (fun _ => Bool.and_false _) _ _ _)
    (ptwEnumerate_twoTables (r := true)) (by decide)).1⟩

/-- Where the second table is dropped an entry has the page of the first one again, and no walk finds it. -/
theorem stale_table_enumerated :
    ∃ ents, ptwEnumerate (twoTablesMem false) (some zeroTables) 0x1000 = some ents ∧ ents.length < 16384 ∧
      (∃ e ∈ ents, e.start ≤ 2 ^ 39 ∧ 2 ^ 39 < e.stop) ∧
      ∀ pte level, ptwWalkLeaf (twoTablesMem false).toPhysMem 0x1000 (2 ^ 39) ≠ .ok (pte, level) := by
  refine ⟨_, ptwEnumerate_twoTables, by decide, ?_, fun pte level h => ?_⟩
  · exact ⟨⟨"(aux)", 2 ^ 39, 2 ^ 39 + 2 ^ 30, 0, 7⟩, by simp, by decide⟩
  · rw [show ptwWalkLeaf (twoTablesMem false).toPhysMem 0x1000 (2 ^ 39) = .error (0, 1) by decide] at h
    cases h

end Ps5Debugger
