import Ps5Debugger.Lib.Bytes
import Ps5Debugger.Lib.Mask

/-!
# Page-table walks

`proc_ptwalk.c` and `scan_alias.c` translate a virtual address of a process in four hand-written
ways. The tables are read with `kernel_copyout_fast` at `g_ptw_dmap + phys`; the model drops the
base of the direct map and gives every kernel address as the physical address it stands for.

* `ptwVtophys` — a walk that returns the address, and 0 for a failure;
* `ptwWalkLeaf` — a walk that returns the leaf entry and its level, from which `procPtwalkProbe`
  and the read and write loops compute the address (`leafPhys`);
* `procPtwalkSpanResolve` — a walk of the upper three levels for a whole 2 MiB span, after which
  `scanAliasTranslate` indexes a copy of the leaf table;
* `procPtwalkLeafAddr` — where the leaf entry of an address lives.

Each is written down as the source has it.
-/

namespace Ps5Debugger

open Lib

/-! ## Physical memory -/

/-- Physical memory behind the direct map. -/
structure PhysMem where
  /-- the bytes -/
  byte : Buf
  /-- whether the kernel copies reach the page with this frame number -/
  reachable : Nat → Bool

namespace PhysMem

variable (m : PhysMem)

/-- A copy goes through when every page it touches is reached. -/
def reaches (addr len : Nat) : Bool := (List.range len).all fun i => m.reachable ((addr + i) / 0x1000)

/-- `kernel_copyout_fast(addr, dst, len)`: the bytes, or none of them. -/
def copyout (addr len : Nat) : Option (List Byte) :=
  if m.reaches addr len then some (slice m.byte addr len) else none

/-- `kernel_copyin_fast(src, addr, len)`: all of it, or nothing and an error. -/
def copyin (addr : Nat) (src : List Byte) : Option PhysMem :=
  if m.reaches addr src.length then some { m with byte := blit m.byte addr (ofList src) src.length }
  else none

/-- A copy of one table entry. -/
def read64 (addr : Nat) : Option Nat := (m.copyout addr 8).map (leNat 8)

/-- A copy of a whole table, indexed as an array of 512 entries. -/
def copyTable (table : Nat) : Option (Nat → Nat) :=
  (m.copyout table 4096).map fun bytes i => leNat 8 (bytes.drop (i * 8))

/-- The entry of a table. -/
def entry (table i : Nat) : Nat := leNat 8 (slice m.byte (table + i * 8) 8)

variable {m}

/-- Inside one page a copy depends on that page only. -/
theorem reaches_page {addr len p : Nat} (hlen : 0 < len) (hlo : p * 0x1000 ≤ addr)
    (hhi : addr + len ≤ (p + 1) * 0x1000) : m.reaches addr len = m.reachable p := by
  have hpage : ∀ i < len, (addr + i) / 0x1000 = p := fun i hi => by omega
  rw [Bool.eq_iff_iff, reaches, List.all_eq_true]
  constructor
  · intro h
    have := h 0 (List.mem_range.mpr hlen)
    rwa [hpage 0 hlen] at this
  · intro h i hi
    rw [hpage i (List.mem_range.mp hi)]
    exact h

/-- One entry of a table is read exactly when the table's page is reached. -/
theorem read64_table {p i : Nat} (hi : i < 512) :
    m.read64 (p * 0x1000 + i * 8) =
      if m.reachable p then some (m.entry (p * 0x1000) i) else none := by
  rw [read64, copyout, reaches_page (p := p) (by omega) (by omega) (by omega)]
  split <;> rfl

/-- A whole table is read exactly when its page is reached, and shows its entries. -/
theorem copyTable_eq (p : Nat) :
    (m.reachable p = false → m.copyTable (p * 0x1000) = none) ∧
      (m.reachable p = true → ∃ tab, m.copyTable (p * 0x1000) = some tab ∧
        ∀ i < 512, tab i = m.entry (p * 0x1000) i) := by
  rw [copyTable, copyout, reaches_page (p := p) (by omega) (by omega) (by omega)]
  constructor
  · intro h
    rw [h]
    rfl
  · intro h
    refine ⟨_, by rw [h]; rfl, fun i hi => ?_⟩
    refine (leNat_inj 8 _ _).mpr fun j hj => ?_
    rw [List.getD_eq_getElem?_getD, List.getElem?_drop, ← List.getD_eq_getElem?_getD,
      getD_slice (by omega), getD_slice hj, Nat.add_assoc]

end PhysMem

/-- Physical memory as `kernel_copyout_fast` shows it. Of a page that is not reached the copy fails, or its pipe
read is dropped: then it returns 0 and leaves the buffer as it was. To a walk that reads one entry into a
variable that is 0 both are the same. -/
structure KernelMem extends PhysMem where
  /-- whether the copies of the page with this frame number are dropped, if they do not reach it -/
  dropped : Nat → Bool

/-- A copy of a whole table into a buffer: what the buffer holds then, unless the copy fails. -/
def KernelMem.copyTableInto (k : KernelMem) (buf : Nat → Nat) (table : Nat) : Option (Nat → Nat) :=
  (k.copyTable table).or (if k.dropped (table / 0x1000) then some buf else none)

theorem KernelMem.copyTableInto_eq {k : KernelMem} {table : Nat} (h : k.dropped (table / 0x1000) = false)
    (buf : Nat → Nat) : k.copyTableInto buf table = k.copyTable table := by
  rw [copyTableInto, h, if_neg Bool.false_ne_true, Option.or_none]

/-! ## Entries -/

/-- `PTW_PHYS_MASK` (and `SA_PHYS_MASK`) -/
def ptwPhysMask : Nat := 0x000FFFFFFFFFF000

/-- `PTW_PHYS_BOUND` (and `SA_DMAP_BOUND`) -/
def ptwPhysBound : Nat := 0x1000000000

/-- `e & PTW_PTE_PRESENT` -/
def ptePresent (e : Nat) : Bool := e &&& 0x1 != 0

/-- `e & PTW_PTE_RW` -/
def pteRW (e : Nat) : Bool := e &&& 0x2 != 0

/-- `e & SA_PTE_PCD` -/
def ptePCD (e : Nat) : Bool := e &&& 0x10 != 0

/-- `e & PTW_PTE_PS` -/
def ptePS (e : Nat) : Bool := e &&& 0x80 != 0

/-- `e & PTW_PTE_NX` -/
def pteNX (e : Nat) : Bool := e &&& 0x8000000000000000 != 0

/-- An entry that ends the walk at level 1 or 2. -/
def pteHuge (level e : Nat) : Bool := (level == 1 || level == 2) && ptePS e

theorem and_physMask (e : Nat) : e &&& ptwPhysMask = e / 2 ^ 12 % 2 ^ 40 * 0x1000 := and_field e 40 12

/-- The table index of an address at a level. -/
def ptwIndex (va level : Nat) : Nat := (va >>> (39 - level * 9)) &&& 0x1FF

theorem ptwIndex_lt (va level : Nat) : ptwIndex va level < 512 := by
  rw [ptwIndex]
  exact Nat.lt_of_le_of_lt Nat.and_le_right (by decide)

theorem ptwIndex_eq (va level : Nat) : ptwIndex va level = va / 2 ^ (39 - level * 9) % 512 := by
  rw [ptwIndex, Nat.shiftRight_eq_div_pow]
  exact and_low _ 9

/-! ## The walks -/

/-- The levels that `ptw_vtophys` still has to go, from a table. -/
def ptwVtophysFrom (m : PhysMem) (va : Nat) : Nat → Nat → Nat
  | 0, _ => 0
  | left + 1, table =>
    let level := 3 - left
    if ptwPhysBound ≤ table then 0
    else
      match m.read64 (table + ptwIndex va level * 8) with
      | none => 0
      | some e =>
        if !ptePresent e then 0
        else if level = 3 then (e &&& ptwPhysMask) ||| (va &&& 0xFFF)
        else if pteHuge level e then
          let pgmask := if level = 1 then 2 ^ 30 - 1 else 2 ^ 21 - 1
          andNot (e &&& ptwPhysMask) pgmask ||| (va &&& pgmask)
        else ptwVtophysFrom m va left (e &&& ptwPhysMask)

/-- `ptw_vtophys(dmap, cr3, va)`: 0 for a failure. -/
def ptwVtophys (m : PhysMem) (cr3 va : Nat) : Nat := ptwVtophysFrom m va 4 (cr3 &&& ptwPhysMask)

/-- The levels that `ptw_walk_leaf` still has to go, from a table. -/
def ptwWalkLeafFrom (m : PhysMem) (va : Nat) : Nat → Nat → Except (Nat × Int) (Nat × Nat)
  | 0, _ => .error (0, -1)
  | left + 1, table =>
    let level := 3 - left
    if ptwPhysBound ≤ table then .error (0, level)
    else
      match m.read64 (table + ptwIndex va level * 8) with
      | none => .error (0, level)
      | some e =>
        if !ptePresent e then .error (e, level)
        else if level = 3 then .ok (e, 3)
        else if pteHuge level e then .ok (e, level)
        else ptwWalkLeafFrom m va left (e &&& ptwPhysMask)

/-- `ptw_walk_leaf(dmap, cr3, va, &e, &level)`: the leaf entry and its level, or the entry and the
level at which the walk stopped. -/
def ptwWalkLeaf (m : PhysMem) (cr3 va : Nat) : Except (Nat × Int) (Nat × Nat) :=
  ptwWalkLeafFrom m va 4 (cr3 &&& ptwPhysMask)

/-- The page size of a leaf's level; the callers fail at any other level. -/
def ptwPageSize (level : Nat) : Option Nat :=
  if level = 3 then some 0x1000
  else if level = 2 then some 0x200000
  else if level = 1 then some 0x40000000
  else none

/-- `((e & PTW_PHYS_MASK) & ~page_mask) + (va & page_mask)`, as the read and write loops and the
probe compute it from a leaf. -/
def leafPhys (e pageSize va : Nat) : Nat :=
  andNot (e &&& ptwPhysMask) (pageSize - 1) + (va &&& (pageSize - 1))

/-- The address that the read and write loops compute for a byte. -/
def walkPhys (m : PhysMem) (cr3 va : Nat) : Option Nat :=
  match ptwWalkLeaf m cr3 va with
  | .error _ => none
  | .ok (e, level) => (ptwPageSize level).map fun pageSize => leafPhys e pageSize va

/-- What a span resolves to. -/
inductive ResolvedSpan where
  /-- a superpage: the physical address of the span's first byte and the entry -/
  | huge (physBase pte : Nat)
  /-- the leaf table -/
  | leaf (table : Nat)
deriving DecidableEq, Repr

/-- The levels that `proc_ptwalk_span_resolve` still has to go, from a table. -/
def spanResolveFrom (m : PhysMem) (span2m : Nat) : Nat → Nat → Option ResolvedSpan
  | 0, table => if ptwPhysBound ≤ table then none else some (.leaf table)
  | left + 1, table =>
    let level := 2 - left
    if ptwPhysBound ≤ table then none
    else
      match m.read64 (table + ptwIndex span2m level * 8) with
      | none => none
      | some e =>
        if !ptePresent e then none
        else if pteHuge level e then
          let pgsz := if level = 1 then 2 ^ 30 else 2 ^ 21
          some (.huge (andNot (e &&& ptwPhysMask) (pgsz - 1) + (span2m &&& (pgsz - 1))) e)
        else spanResolveFrom m span2m left (e &&& ptwPhysMask)

/-- The walk of `proc_ptwalk_span_resolve` -/
def spanResolve (m : PhysMem) (cr3 span2m : Nat) : Option ResolvedSpan :=
  spanResolveFrom m span2m 3 (cr3 &&& ptwPhysMask)

/-- The levels that `proc_ptwalk_leaf_addr` still has to go, from a table. -/
def leafAddrFrom (m : PhysMem) (va : Nat) : Nat → Nat → Except Nat (Nat × Nat × Nat)
  | 0, _ => .error 1
  | left + 1, table =>
    let level := 3 - left
    if ptwPhysBound ≤ table then .error 1
    else
      match m.read64 (table + ptwIndex va level * 8) with
      | none => .error 1
      | some e =>
        -- the last entry is returned whether it is present or not
        if level = 3 then .ok (table + ptwIndex va level * 8, e, 3)
        else if !ptePresent e then .error 2
        else if pteHuge level e then .error 3
        else leafAddrFrom m va left (e &&& ptwPhysMask)

/-- What `scan_alias_map` makes of the page `tpage` of a resolved span; `none` where it gives up. -/
def aliasPage (k : KernelMem) (spanPt : Nat → Nat) (tpage span2m : Nat) : ResolvedSpan → Option Nat
  | .huge physBase pte => if ptePCD pte then none else some (physBase + (tpage - span2m))
  | .leaf table =>
    (k.copyTableInto spanPt table).bind fun spanPt =>
      let e := spanPt ((tpage >>> 12) &&& 0x1FF)
      if !ptePresent e then none
      else if ptePCD e then none
      else some (e &&& ptwPhysMask)

/-! ## The callers -/

/-- `cr3 == 0 || (cr3 & 0xFFF) || cr3 >= PTW_PHYS_BOUND` is refused. -/
def acceptsCr3 (cr3 : Nat) : Bool := cr3 != 0 && cr3 &&& 0xFFF == 0 && decide (cr3 < ptwPhysBound)

/-- What the kernel knows of the processes. -/
structure Pmaps where
  /-- `g_ptw_dmap` -/
  dmap : Nat
  /-- the pair at `vmspace + g_ptw_pmap_off` of a process; `none` when the discovery or one of the
  lookups that lead there fails -/
  pair : Nat → Option (Nat × Nat)

/-- How every entry point finds the page table of a process. -/
def Pmaps.cr3 (pm : Pmaps) (pid : Nat) : Option Nat :=
  if pid = 0 ∨ 2 ^ 31 ≤ pid then none
  else
    match pm.pair pid with
    | none => none
    | some (pml4, cr3) =>
      if !acceptsCr3 cr3 then none
      else if subU64 pml4 cr3 ≠ pm.dmap then none
      else some cr3

/-- What `proc_ptwalk_probe` reports of an address. -/
structure PageProbe where
  phys : Nat
  level : Nat
  pageSize : Nat
  pte : Nat
deriving DecidableEq, Repr

/-- `proc_ptwalk_probe(pid, va, ...)` -/
def procPtwalkProbe (m : PhysMem) (pm : Pmaps) (pid va : Nat) : Option PageProbe :=
  match pm.cr3 pid with
  | none => none
  | some cr3 =>
    match ptwWalkLeaf m cr3 va with
    | .error _ => none
    | .ok (e, level) =>
      if !ptePresent e then none
      else
        match ptwPageSize level with
        | none => none
        | some pageSize => some ⟨leafPhys e pageSize va, level, pageSize, e⟩

/-- `proc_ptwalk_span_resolve(pid, span2m, ...)` -/
def procPtwalkSpanResolve (m : PhysMem) (pm : Pmaps) (pid span2m : Nat) : Option ResolvedSpan :=
  match pm.cr3 pid with
  | none => none
  | some cr3 => spanResolve m cr3 span2m

/-- `proc_ptwalk_leaf_addr(pid, va, ...)`: where the leaf entry of an address lives, its value and its
level, or the error that is returned. -/
def procPtwalkLeafAddr (m : PhysMem) (pm : Pmaps) (pid va : Nat) : Except Nat (Nat × Nat × Nat) :=
  match pm.cr3 pid with
  | none => .error 1
  | some cr3 => leafAddrFrom m va 4 (cr3 &&& ptwPhysMask)

/-- The physical page that `scan_alias_map` finds for a page of the target, with nothing cached and an old
table in `span_pt`. -/
def scanAliasTranslate (k : KernelMem) (pm : Pmaps) (spanPt : Nat → Nat) (pid tpage : Nat) : Option Nat :=
  let span2m := andNot tpage 0x1FFFFF
  (procPtwalkSpanResolve k.toPhysMem pm pid span2m).bind (aliasPage k spanPt tpage span2m)

/-- The physical address behind the byte `tgt` of an alias: the page, and the offset in it. -/
def scanAliasPhys (k : KernelMem) (pm : Pmaps) (spanPt : Nat → Nat) (pid tgt : Nat) : Option Nat :=
  (scanAliasTranslate k pm spanPt pid (andNot tgt 0xFFF)).map fun tphys => tphys + (tgt &&& 0xFFF)

end Ps5Debugger
