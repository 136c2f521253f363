import Ps5Debugger.PageAgree
import Ps5Debugger.Lib.Runs

/-!
# Enumerating a page table

`ptw_enumerate` walks all tables of the lower half of an address space with four nested loops and
feeds every leaf to one accumulator, which joins leaves that touch and have the same protection.
The loops are cut off when the accumulator is full. Each level has one buffer for its tables, and
where the copy of a table is dropped the loop goes over the one before.

If no copy is dropped (`TablesRead`), what the loops visit is `leafRuns`, level by level; as long as
there is room, the accumulator is the coalescing fold over it, so the entries are its maximal runs.
That a leaf is visited exactly when `ptw_walk_leaf` finds it is an induction on the levels
(`covers_leafRuns`).
-/

namespace Ps5Debugger

open Lib

/-! ## The model -/

/-- `struct proc_vm_map_entry` -/
structure VmMapEntry where
  name : String
  start : Nat
  stop : Nat
  offset : Nat
  prot : Nat
deriving DecidableEq, Repr

/-- `ptw_pte_prot(pte)` -/
def ptwPteProt (pte : Nat) : Nat :=
  let prot := 1
  let prot := if pteRW pte then prot ||| 2 else prot
  if !pteNX pte then prot ||| 4 else prot

/-- `PTW_MAX_ENTRIES` -/
def ptwMaxEntries : Nat := 16384

/-- `struct ptw_coal`: the entries written so far (`ents` and `n`), and the one being built. -/
structure PtwCoal where
  ents : List VmMapEntry := []
  haveCur : Bool := false
  curStart : Nat := 0
  curEnd : Nat := 0
  curProt : Nat := 0

/-- `ptw_coal_flush(c)` -/
def ptwCoalFlush (c : PtwCoal) : PtwCoal :=
  if !c.haveCur || decide (ptwMaxEntries ≤ c.ents.length) then c
  else { c with ents := c.ents ++ [⟨"(aux)", c.curStart, c.curEnd, 0, c.curProt⟩] }

/-- `ptw_coal_emit(c, start, end, pte)` -/
def ptwCoalEmit (c : PtwCoal) (start stop pte : Nat) : PtwCoal :=
  let prot := ptwPteProt pte
  if c.haveCur && start == c.curEnd && prot == c.curProt then { c with curEnd := stop }
  else
    { ptwCoalFlush c with haveCur := true, curStart := start, curEnd := stop, curProt := prot }

/-- The buffers of the tables. -/
structure PtwTables where
  pml4 : Nat → Nat
  pdpt : Nat → Nat
  pd : Nat → Nat
  pt : Nat → Nat

/-- What the loops change. -/
structure PtwState extends PtwCoal, PtwTables

def PtwState.emit (s : PtwState) (start stop pte : Nat) : PtwState :=
  { s with toPtwCoal := ptwCoalEmit s.toPtwCoal start stop pte }

/-- `for (int i = 0; i < count && c.n < PTW_MAX_ENTRIES; i++)`: once the accumulator is full nothing
changes any more. -/
def ptwLoop (count : Nat) (body : PtwState → Nat → PtwState) (s : PtwState) : PtwState :=
  (List.range count).foldl (fun s i => if s.ents.length < ptwMaxEntries then body s i else s) s

/-- The loop over a leaf table. -/
def enumPt (pt : Nat → Nat) (va2 : Nat) : PtwState → PtwState :=
  ptwLoop 512 fun s m =>
    let e1 := pt m
    if !ptePresent e1 then s
    else
      let va1 := va2 ||| m <<< 12
      s.emit va1 (va1 + 0x1000) e1

/-- The loop over a page directory. -/
def enumPd (mem : KernelMem) (pd : Nat → Nat) (va3 : Nat) : PtwState → PtwState :=
  ptwLoop 512 fun s k =>
    let e2 := pd k
    if !ptePresent e2 then s
    else
      let va2 := va3 ||| k <<< 21
      if ptePS e2 then s.emit va2 (va2 + 2 ^ 21) e2
      else
        let p1 := e2 &&& ptwPhysMask
        if ptwPhysBound ≤ p1 then s
        else (mem.copyTableInto s.pt p1).elim s fun pt => enumPt pt va2 { s with pt }

/-- The loop over a directory-pointer table. -/
def enumPdpt (mem : KernelMem) (pdpt : Nat → Nat) (i : Nat) : PtwState → PtwState :=
  ptwLoop 512 fun s j =>
    let e3 := pdpt j
    if !ptePresent e3 then s
    else
      let va3 := i <<< 39 ||| j <<< 30
      if ptePS e3 then s.emit va3 (va3 + 2 ^ 30) e3
      else
        let p2 := e3 &&& ptwPhysMask
        if ptwPhysBound ≤ p2 then s
        else (mem.copyTableInto s.pd p2).elim s fun pd => enumPd mem pd va3 { s with pd }

/-- The loop over the lower half of the top table (`PTW_USER_PML4_LIMIT`). -/
def enumPml4 (mem : KernelMem) (pml4 : Nat → Nat) : PtwState → PtwState :=
  ptwLoop 256 fun s i =>
    let e4 := pml4 i
    if !ptePresent e4 then s
    else
      let p3 := e4 &&& ptwPhysMask
      if ptwPhysBound ≤ p3 then s
      else (mem.copyTableInto s.pdpt p3).elim s fun pdpt => enumPdpt mem pdpt i { s with pdpt }

/-- `ptw_enumerate(cr3, &out, &count)`, with what its allocations give (the buffers with what is in them, or `none`
if one fails): the entries, or `none` for the error return. -/
def ptwEnumerate (mem : KernelMem) (allocs : Option PtwTables) (cr3 : Nat) : Option (List VmMapEntry) :=
  allocs.bind fun tables =>
    let pml4Phys := cr3 &&& ptwPhysMask
    if ptwPhysBound ≤ pml4Phys then none
    else
      (mem.copyTableInto tables.pml4 pml4Phys).bind fun pml4 =>
        let c := ptwCoalFlush (enumPml4 mem pml4 { tables with pml4 }).toPtwCoal
        if c.ents.length = 0 then none else some c.ents

/-! ## The leaves, level by level -/

/-- A leaf and the addresses it maps. -/
abbrev Leaf : Type := Run Nat Nat

/-- The leaves below the first `count` entries of a table, for the addresses from `va` on: `left` is
the number of levels from the table down. -/
def leafRuns (m : PhysMem) : Nat → Nat → Nat → Nat → List Leaf
  | 0, _, _, _ => []
  | left + 1, count, table, va =>
    if ptwPhysBound ≤ table then []
    else
      (m.copyTable table).elim [] fun tab =>
        (List.range count).flatMap fun i =>
          let e := tab i
          let va := va + i * 2 ^ (12 + 9 * left)
          if !ptePresent e then []
          else if left = 0 ∨ pteHuge (3 - left) e then [⟨va, va + 2 ^ (12 + 9 * left), e⟩]
          else leafRuns m left 512 (e &&& ptwPhysMask) va

/-- The accumulator after some leaves, as far as there is room. -/
def emitAll (l : List Leaf) (c : PtwCoal) : PtwCoal :=
  l.foldl (fun c r => if c.ents.length < ptwMaxEntries then ptwCoalEmit c r.lo r.hi r.tag else c) c

theorem emitAll_append (l l' : List Leaf) (c : PtwCoal) :
    emitAll (l ++ l') c = emitAll l' (emitAll l c) := List.foldl_append

theorem emitAll_full {l : List Leaf} {c : PtwCoal} (h : ptwMaxEntries ≤ c.ents.length) :
    emitAll l c = c := by
  induction l with
  | nil => rfl
  | cons r l ih =>
    rw [emitAll, List.foldl_cons, if_neg (by omega)]
    exact ih

/-- A loop whose body emits leaves emits them all. -/
theorem ptwLoop_eq {count : Nat} {body : PtwState → Nat → PtwState} {f : Nat → List Leaf}
    (hbody : ∀ i < count, ∀ s, s.ents.length < ptwMaxEntries →
      (body s i).toPtwCoal = emitAll (f i) s.toPtwCoal)
    (s : PtwState) : (ptwLoop count body s).toPtwCoal = emitAll ((List.range count).flatMap f) s.toPtwCoal := by
  induction count generalizing s with
  | zero => rfl
  | succ count ih =>
    have hprev := ih (fun i hi => hbody i (by omega)) s
    rw [ptwLoop] at hprev ⊢
    rw [List.range_succ, List.foldl_append, List.flatMap_append, emitAll_append, ← hprev]
    simp only [List.foldl_cons, List.foldl_nil, List.flatMap_cons, List.flatMap_nil, List.append_nil]
    split
    · next h => exact hbody count (by omega) _ h
    · next h => exact (emitAll_full (by omega)).symm

theorem emitAll_singleton {c : PtwCoal} (h : c.ents.length < ptwMaxEntries) (r : Leaf) :
    emitAll [r] c = ptwCoalEmit c r.lo r.hi r.tag := by
  rw [emitAll, List.foldl_cons, if_pos h, List.foldl_nil]

/-- An index goes below the bits that are set already. -/
theorem or_index {va i n : Nat} (hva : va % 2 ^ (n + 9) = 0) (hi : i < 512) :
    va ||| i <<< n = va + i * 2 ^ n := by
  have hlow : i * 2 ^ n < 2 ^ (n + 9) := by
    rw [Nat.pow_add, Nat.mul_comm]
    exact Nat.mul_lt_mul_of_pos_left hi (Nat.two_pow_pos n)
  have hsplit : va = va / 2 ^ (n + 9) * 2 ^ (n + 9) := (Nat.div_mul_cancel (Nat.dvd_of_mod_eq_zero hva)).symm
  rw [Nat.shiftLeft_eq, hsplit, mul_two_pow_or hlow]

variable {m : PhysMem} {mem : KernelMem} {table va : Nat} {tab : Nat → Nat}

theorem leafRuns_table (hb : ¬ ptwPhysBound ≤ table) (htab : m.copyTable table = some tab)
    (left count : Nat) :
    leafRuns m (left + 1) count table va = (List.range count).flatMap fun i =>
      if !ptePresent (tab i) then []
      else if left = 0 ∨ pteHuge (3 - left) (tab i) then
        [⟨va + i * 2 ^ (12 + 9 * left), va + i * 2 ^ (12 + 9 * left) + 2 ^ (12 + 9 * left), tab i⟩]
      else leafRuns m left 512 (tab i &&& ptwPhysMask) (va + i * 2 ^ (12 + 9 * left)) := by
  rw [leafRuns, if_neg hb, htab, Option.elim_some]

theorem leafRuns_bound (hb : ptwPhysBound ≤ table) (left count : Nat) :
    leafRuns m (left + 1) count table va = [] := by
  rw [leafRuns, if_pos hb]

theorem leafRuns_unread (htab : m.copyTable table = none) (left count : Nat) :
    leafRuns m (left + 1) count table va = [] := by
  rw [leafRuns, htab]
  split <;> rfl

/-- No copy of a table that the loops come to is dropped. -/
def TablesRead (mem : KernelMem) : Nat → Nat → Nat → Prop
  | 0, _, _ => True
  | left + 1, count, table =>
    ¬ ptwPhysBound ≤ table → mem.dropped (table / 0x1000) = false ∧
      ∀ tab, mem.copyTable table = some tab → ∀ i < count, ptePresent (tab i) = true →
        ¬ (left = 0 ∨ pteHuge (3 - left) (tab i) = true) → TablesRead mem left 512 (tab i &&& ptwPhysMask)

theorem enumPt_eq (hb : ¬ ptwPhysBound ≤ table) (htab : m.copyTable table = some tab)
    (hva : va % 2 ^ 21 = 0) (s : PtwState) :
    (enumPt tab va s).toPtwCoal = emitAll (leafRuns m 1 512 table va) s.toPtwCoal := by
  rw [leafRuns_table hb htab]
  refine ptwLoop_eq (fun i hi s hs => ?_) s
  dsimp only
  split
  · rfl
  · rw [if_pos (.inl rfl), emitAll_singleton hs, or_index (n := 12) hva hi]
    rfl

/-- The step of a loop that may go down one more level. -/
theorem enum_entry {s : PtwState} (hs : s.ents.length < ptwMaxEntries) {left e va : Nat}
    (hleft : left = 1 ∨ left = 2) {buf : Nat → Nat} {next : (Nat → Nat) → PtwState}
    (hread : ptePresent e = true → ¬ (left = 0 ∨ pteHuge (3 - left) e = true) →
      TablesRead mem left 512 (e &&& ptwPhysMask))
    (hnext : ∀ tab, ¬ ptwPhysBound ≤ (e &&& ptwPhysMask) → mem.copyTable (e &&& ptwPhysMask) = some tab →
      TablesRead mem left 512 (e &&& ptwPhysMask) →
      (next tab).toPtwCoal = emitAll (leafRuns mem.toPhysMem left 512 (e &&& ptwPhysMask) va) s.toPtwCoal) :
    (if !ptePresent e then s
      else if ptePS e then s.emit va (va + 2 ^ (12 + 9 * left)) e
      else if ptwPhysBound ≤ (e &&& ptwPhysMask) then s
      else (mem.copyTableInto buf (e &&& ptwPhysMask)).elim s next).toPtwCoal =
    emitAll (if !ptePresent e then []
      else if left = 0 ∨ pteHuge (3 - left) e then [⟨va, va + 2 ^ (12 + 9 * left), e⟩]
      else leafRuns mem.toPhysMem left 512 (e &&& ptwPhysMask) va) s.toPtwCoal := by
  obtain ⟨left, rfl⟩ : ∃ k, left = k + 1 := ⟨left - 1, by omega⟩
  have hhuge : (left + 1 = 0 ∨ pteHuge (3 - (left + 1)) e = true) ↔ ptePS e = true := by
    rcases hleft with h | h
    all_goals
      obtain rfl : left = _ := Nat.succ.inj h
      simp [pteHuge]
  split
  · rfl
  next hp =>
  rw [Bool.not_eq_true', Bool.not_eq_false] at hp
  split
  · next hps =>
    rw [if_pos (hhuge.mpr hps), emitAll_singleton hs]
    rfl
  · next hps =>
    rw [if_neg (mt hhuge.mp hps)]
    have hbelow := hread hp (mt hhuge.mp hps)
    split
    · next hb => rw [leafRuns_bound hb]; rfl
    · next hb =>
      rw [KernelMem.copyTableInto_eq (hbelow hb).1]
      cases htab : mem.copyTable (e &&& ptwPhysMask) with
      | none => rw [leafRuns_unread htab]; rfl
      | some tab => exact hnext tab hb htab hbelow

theorem enumPd_eq (hb : ¬ ptwPhysBound ≤ table) (htab : mem.copyTable table = some tab)
    (hread : TablesRead mem 2 512 table) (hva : va % 2 ^ 30 = 0) (s : PtwState) :
    (enumPd mem tab va s).toPtwCoal = emitAll (leafRuns mem.toPhysMem 2 512 table va) s.toPtwCoal := by
  rw [leafRuns_table hb htab]
  refine ptwLoop_eq (fun k hk s hs => ?_) s
  dsimp only
  rw [or_index (n := 21) hva hk]
  exact enum_entry hs (.inl rfl) ((hread hb).2 tab htab k hk) fun pt hb hpt _ => enumPt_eq hb hpt (by omega) _

theorem enumPdpt_eq (hb : ¬ ptwPhysBound ≤ table) (htab : mem.copyTable table = some tab)
    (hread : TablesRead mem 3 512 table) {i : Nat} (hva : va = i * 2 ^ 39) (s : PtwState) :
    (enumPdpt mem tab i s).toPtwCoal = emitAll (leafRuns mem.toPhysMem 3 512 table va) s.toPtwCoal := by
  rw [leafRuns_table hb htab]
  refine ptwLoop_eq (fun j hj s hs => ?_) s
  dsimp only
  rw [Nat.shiftLeft_eq i, ← hva, or_index (n := 30) (by omega) hj]
  exact enum_entry hs (.inr rfl) ((hread hb).2 tab htab j hj) fun pd hb hpd hread =>
    enumPd_eq hb hpd hread (by omega) _

/-- **The nested loops** emit the leaves of the lower half of the address space. -/
theorem enumPml4_eq (hb : ¬ ptwPhysBound ≤ table) (htab : mem.copyTable table = some tab)
    (hread : TablesRead mem 4 256 table) (s : PtwState) :
    (enumPml4 mem tab s).toPtwCoal = emitAll (leafRuns mem.toPhysMem 4 256 table 0) s.toPtwCoal := by
  rw [leafRuns_table hb htab]
  refine ptwLoop_eq (fun i hi s hs => ?_) s
  dsimp only
  split
  · rfl
  next hp =>
  rw [Bool.not_eq_true', Bool.not_eq_false] at hp
  have hupper : ¬ (3 = 0 ∨ pteHuge (3 - 3) (tab i) = true) := by simp [pteHuge]
  have hbelow := (hread hb).2 tab htab i hi hp hupper
  rw [if_neg hupper, Nat.zero_add]
  split
  · next hb => rw [leafRuns_bound hb]; rfl
  · next hb =>
    rw [KernelMem.copyTableInto_eq (hbelow hb).1]
    cases htab : mem.copyTable (tab i &&& ptwPhysMask) with
    | none => rw [leafRuns_unread htab]; rfl
    | some pdpt =>
      rw [Option.elim_some]
      exact enumPdpt_eq hb htab hbelow (by norm_num) _

/-! ## The accumulator coalesces -/

/-- An entry as an interval tagged with its protection. -/
def VmMapEntry.run (e : VmMapEntry) : Run Nat Nat := ⟨e.start, e.stop, e.prot⟩

/-- A leaf tagged with its protection. -/
def protRun (r : Leaf) : Run Nat Nat := ⟨r.lo, r.hi, ptwPteProt r.tag⟩

/-- What the accumulator holds, the entry being built first. -/
def PtwCoal.runs (c : PtwCoal) : List (Run Nat Nat) :=
  if c.haveCur then ⟨c.curStart, c.curEnd, c.curProt⟩ :: (c.ents.map VmMapEntry.run).reverse else []

/-- Nothing is written before the first leaf. -/
def PtwCoal.Fresh (c : PtwCoal) : Prop := c.haveCur = false → c.ents = []

variable {c : PtwCoal}

theorem ptwCoalFlush_of_room (hcur : c.haveCur = true) (hroom : c.ents.length < ptwMaxEntries) :
    ptwCoalFlush c = { c with ents := c.ents ++ [⟨"(aux)", c.curStart, c.curEnd, 0, c.curProt⟩] } := by
  rw [ptwCoalFlush, if_neg]
  simp [hcur]
  omega

/-- One leaf is one `push`. -/
theorem runs_emit (hfresh : c.Fresh) (hroom : c.ents.length < ptwMaxEntries) (r : Leaf) :
    (ptwCoalEmit c r.lo r.hi r.tag).runs = push c.runs (protRun r) ∧
      (ptwCoalEmit c r.lo r.hi r.tag).Fresh := by
  cases hcur : c.haveCur with
  | false =>
    have hents := hfresh hcur
    simp [ptwCoalEmit, ptwCoalFlush, PtwCoal.runs, PtwCoal.Fresh, hcur, hents, push, protRun]
  | true =>
    have hruns : c.runs = ⟨c.curStart, c.curEnd, c.curProt⟩ :: (c.ents.map VmMapEntry.run).reverse := by
      rw [PtwCoal.runs, hcur, if_pos rfl]
    rw [hruns]
    by_cases htouch : r.lo = c.curEnd ∧ ptwPteProt r.tag = c.curProt
    · rw [push_touch _ htouch]
      simp [ptwCoalEmit, hcur, htouch.1, htouch.2, PtwCoal.runs, PtwCoal.Fresh, protRun]
    · rw [push_apart _ htouch]
      have happart : (c.haveCur && r.lo == c.curEnd && ptwPteProt r.tag == c.curProt) = false := by
        simp only [hcur, Bool.true_and, Bool.and_eq_false_iff, beq_eq_false_iff_ne]
        exact not_and_or.mp htouch
      simp [ptwCoalEmit, happart, ptwCoalFlush_of_room hcur hroom, PtwCoal.runs, PtwCoal.Fresh, protRun,
        VmMapEntry.run]

/-- As long as there is room at the end, there was room all along, and the accumulator holds the
coalesced leaves. -/
theorem runs_emitAll {l : List Leaf} (hfresh : c.Fresh)
    (hroom : (emitAll l c).ents.length < ptwMaxEntries) :
    (emitAll l c).runs = (l.map protRun).foldl push c.runs ∧ (emitAll l c).Fresh := by
  induction l generalizing c with
  | nil => exact ⟨rfl, hfresh⟩
  | cons r l ih =>
    by_cases hfull : ptwMaxEntries ≤ c.ents.length
    · rw [emitAll_full hfull] at hroom
      omega
    · have hc : c.ents.length < ptwMaxEntries := by omega
      have hstep : emitAll (r :: l) c = emitAll l (ptwCoalEmit c r.lo r.hi r.tag) := by
        rw [emitAll, List.foldl_cons, if_pos hc]
        rfl
      obtain ⟨hruns, hfresh'⟩ := runs_emit hfresh hc r
      rw [hstep] at hroom ⊢
      rw [List.map_cons, List.foldl_cons, ← hruns]
      exact ih hfresh' hroom

/-- **The entries are the coalesced leaves**, unless the table of entries is full or a copy is dropped. -/
theorem runs_ptwEnumerate {allocs : Option PtwTables} {cr3 : Nat} {ents : List VmMapEntry}
    (hread : TablesRead mem 4 256 (cr3 &&& ptwPhysMask))
    (h : ptwEnumerate mem allocs cr3 = some ents) (hroom : ents.length < ptwMaxEntries) :
    ents.map VmMapEntry.run =
      coalesce ((leafRuns mem.toPhysMem 4 256 (cr3 &&& ptwPhysMask) 0).map protRun) := by
  rw [ptwEnumerate] at h
  obtain ⟨tables, -, h⟩ := Option.bind_eq_some_iff.mp h
  dsimp only at h
  split at h
  · cases h
  next hb =>
  rw [KernelMem.copyTableInto_eq (hread hb).1] at h
  obtain ⟨pml4, htab, h⟩ := Option.bind_eq_some_iff.mp h
  split at h
  · cases h
  next hsome =>
  obtain rfl := Option.some.inj h
  rw [enumPml4_eq hb htab hread] at hroom hsome ⊢
  generalize leafRuns mem.toPhysMem 4 256 (cr3 &&& ptwPhysMask) 0 = l at *
  have hc : (emitAll l {}).ents.length < ptwMaxEntries := by
    by_contra hfull
    rw [ptwCoalFlush, if_pos (by simp; omega)] at hroom
    exact hfull hroom
  obtain ⟨hruns, hfresh⟩ := runs_emitAll (c := {}) (fun _ => rfl) hc
  cases hcur : (emitAll l {}).haveCur with
  | false =>
    rw [ptwCoalFlush, if_pos (by simp [hcur]), hfresh hcur] at hsome
    exact absurd rfl hsome
  | true =>
    have hnil : ({} : PtwCoal).runs = [] := rfl
    rw [hnil] at hruns
    rw [coalesce, ← hruns, ptwCoalFlush_of_room hcur hc, PtwCoal.runs, hcur, if_pos rfl]
    simp [VmMapEntry.run]

end Ps5Debugger
