import Ps5Debugger.Lib.Machine
import Ps5Debugger.Lib.Ranges
import Ps5Debugger.PageWalk

/-!
# The alias engine

`scan_alias.c` makes pages of another process readable in its own address space: it reserves an
arena, takes the arena's 2 MiB spans one after the other, touches the last page of a span so that a
leaf table exists, and writes entries for the target's pages into that table with the kernel copy.
A release writes zeros over the entries again. When the spans are used up, or the context ends, the
arena is unmapped if none of the tables shows a present entry, and left mapped otherwise.

A context is the source's `scan_alias_ctx`, with the span cache as a record of its own. The kernel's
side is shared by all contexts. Next to the memory it keeps what the engine has done and does not
itself remember: the arenas that are mapped, the entries written in them, every write with the memory
before and after it, every `munmap`, and how many writes of a context have failed.

Kernel addresses are given without the base of the direct map, and sums of user addresses are exact.
-/

namespace Ps5Debugger

open Lib

/-- `SA_SPAN` -/
def saSpan : Nat := 0x200000

/-- `SA_ARENA_DEF` -/
def saArenaDef : Nat := 64 * 2 ^ 20

/-- `SA_MAX_PAGES`, which leaves the touched page, entry 511, out -/
def saMaxPages : Nat := 511

/-- `SA_VERIFY_MAX` -/
def saVerifyMax : Nat := 32

/-- `SA_MAX_SPANS` -/
def saMaxSpans : Nat := 128

/-- `SA_VERIFY_IDX` -/
def saVerifyIdx : Nat := 384

/-- `SA_VERIFY_DIV` -/
def saVerifyDiv : Nat := 16

/-- The span of the target that was resolved last: the fields `sc_*` and `span_pt`. -/
structure SpanCache where
  valid : Bool
  span : Nat
  huge : Bool
  physBase : Nat
  pte : Nat
  spanPt : Nat → Nat

/-- `struct scan_alias_ctx` -/
structure AliasCtx where
  pid : Nat
  selfPid : Nat
  mapSeq : Nat
  arenaCap : Nat
  arenaRaw : Nat
  arenaMapsz : Nat
  arenaEnd : Nat
  cursor : Nat
  usedPt : Nat → Nat
  usedCount : Nat
  mapActive : Bool
  mapPtBase : Nat
  mapNpages : Nat
  sc : SpanCache

/-- The table and the number of entries of the active map. -/
def AliasCtx.activeMap (c : AliasCtx) : Option (Nat × Nat) :=
  if c.mapActive then some (c.mapPtBase, c.mapNpages) else none

/-! ## The kernel's side -/

/-- The entries that one map has written: the first `npages` of the leaf table of a span. -/
structure AliasWindow where
  ctx : Nat
  /-- the arena, by its `arena_raw` -/
  raw : Nat
  span : Nat
  table : Nat
  npages : Nat
deriving DecidableEq, Repr

/-- A write that went through, with the map that was active in the context that made it. -/
structure KernelWrite where
  active : Option (Nat × Nat)
  before : PhysMem
  after : PhysMem

/-- A call of `munmap`, with the entries written in the arena and the memory at that time. -/
structure ArenaUnmap where
  raw : Nat
  size : Nat
  windows : List AliasWindow
  mem : PhysMem

structure AliasKernel where
  mem : PhysMem
  /-- the arenas that are mapped, those that were left behind included -/
  arenas : List Range
  /-- the entries written in the arenas that are mapped -/
  windows : List AliasWindow
  /-- the writes of each context that failed -/
  failures : Nat → Nat
  writes : List KernelWrite
  unmaps : List ArenaUnmap

namespace AliasKernel

variable (k : AliasKernel)

/-- `kernel_copyin_fast(entries, table, n * 8)` by the context `i`; `ok` is false when the copy fails
for a reason that the model does not know. -/
def write (i : Nat) (active : Option (Nat × Nat)) (ok : Bool) (table : Nat) (entries : List Nat) :
    Bool × AliasKernel :=
  (if ok then k.mem.copyin table (entries.flatMap (leBytes 8)) else none).elim
    (false, { k with failures := Function.update k.failures i (k.failures i + 1) })
    fun mem => (true, { k with mem := mem, writes := ⟨active, k.mem, mem⟩ :: k.writes })

/-- `mmap` gave an arena. -/
def mmap (raw size : Nat) : AliasKernel := { k with arenas := ⟨raw, size⟩ :: k.arenas }

/-- `munmap(raw, size)` -/
def munmap (raw size : Nat) : AliasKernel :=
  { k with
    arenas := k.arenas.filter fun a => a.start != raw
    windows := k.windows.filter fun v => v.raw != raw
    unmaps := ⟨raw, size, k.windows.filter fun v => v.raw == raw, k.mem⟩ :: k.unmaps }

end AliasKernel

/-- What a call finds, and how the calls it makes end. -/
structure AliasEnv where
  /-- the memory when the call starts -/
  mem : PhysMem
  /-- the memory once the last page of the span is touched -/
  touched : PhysMem
  pmaps : Pmaps
  selfPid : Nat
  mallocOk : Bool
  /-- what `mmap` returns -/
  raw : Nat
  /-- whether each kernel copy goes through: of the release, of the new entries, of the zeros after
  a failure of these, of the release after a mismatch -/
  releaseOk : Bool
  aliasOk : Bool
  zeroOk : Bool
  undoOk : Bool
  /-- of the walk for the span's table, of that table, for each page of the target -/
  walkOk : Bool
  tableOk : Bool
  spanOk : Nat → Bool
  /-- of each table that is looked at before `munmap` -/
  checkOk : Nat → Bool
  /-- whether the bytes at an address of the alias are those at an address of the target -/
  same : Nat → Nat → Bool

/-! ## Arenas -/

/-- `sa_arena_alloc(c)`: whether it succeeds -/
def saArenaAlloc (c : AliasCtx) (k : AliasKernel) (env : AliasEnv) : Bool × AliasCtx × AliasKernel :=
  let mapsz := c.arenaCap + saSpan
  if env.raw = 2 ^ 64 - 1 ∨ env.raw = 0 then (false, c, k)
  else
    let base := andNot (env.raw + (saSpan - 1)) (saSpan - 1)
    (true,
      { c with
        arenaRaw := env.raw
        arenaMapsz := mapsz
        arenaEnd := base + c.arenaCap
        cursor := base
        usedCount := 0 },
      k.mmap env.raw mapsz)

/-- `scan_alias_release(c)`, by the context `i`; the result of the copy is not looked at. -/
def scanAliasRelease (i : Nat) (c : AliasCtx) (k : AliasKernel) (ok : Bool) : AliasCtx × AliasKernel :=
  if !c.mapActive then (c, k)
  else
    ({ c with mapActive := false, mapNpages := 0, mapPtBase := 0 },
      (k.write i c.activeMap ok c.mapPtBase (List.replicate c.mapNpages 0)).2)

/-- The tables that `sa_reclaim_or_leak` looks at show no present entry in their first 384. -/
def arenaClean (c : AliasCtx) (m : PhysMem) (env : AliasEnv) : Bool :=
  decide (c.usedCount ≤ saMaxSpans) &&
    (List.range c.usedCount).all fun j =>
      env.checkOk j && (m.copyTable (c.usedPt j)).elim false fun pt =>
        (List.range saVerifyIdx).all fun x => !ptePresent (pt x)

/-- `sa_reclaim_or_leak(c)` -/
def saReclaimOrLeak (i : Nat) (c : AliasCtx) (k : AliasKernel) (env : AliasEnv) : AliasCtx × AliasKernel :=
  if c.arenaRaw = 0 then (c, k)
  else
    let r := scanAliasRelease i c k env.releaseOk
    ({ r.1 with arenaRaw := 0, arenaMapsz := 0, arenaEnd := 0, cursor := 0, usedCount := 0 },
      if arenaClean r.1 r.2.mem env then r.2.munmap r.1.arenaRaw r.1.arenaMapsz else r.2)

/-- `sa_next_span(c, &span)` -/
def saNextSpan (i : Nat) (c : AliasCtx) (k : AliasKernel) (env : AliasEnv) :
    Option Nat × AliasCtx × AliasKernel :=
  if c.cursor = 0 ∨ c.cursor + saSpan > c.arenaEnd then
    let r := saReclaimOrLeak i c k env
    let a := saArenaAlloc r.1 r.2 env
    if !a.1 then (none, a.2)
    else (some a.2.1.cursor, { a.2.1 with cursor := a.2.1.cursor + saSpan }, a.2.2)
  else (some c.cursor, { c with cursor := c.cursor + saSpan }, k)

/-- A context as `scan_alias_begin` fills it in, before it has an arena. -/
def AliasCtx.blank (pid selfPid arenaCap : Nat) : AliasCtx where
  pid := pid
  selfPid := selfPid
  mapSeq := 0
  arenaCap := if arenaCap = 0 then saArenaDef else arenaCap
  arenaRaw := 0
  arenaMapsz := 0
  arenaEnd := 0
  cursor := 0
  usedPt := fun _ => 0
  usedCount := 0
  mapActive := false
  mapPtBase := 0
  mapNpages := 0
  sc := ⟨false, 0, false, 0, 0, fun _ => 0⟩

/-- `scan_alias_begin(pid, arena_cap)` -/
def scanAliasBegin (k : AliasKernel) (env : AliasEnv) (pid arenaCap : Nat) : Option AliasCtx × AliasKernel :=
  if env.pmaps.dmap = 0 then (none, k)
  else if !env.mallocOk then (none, k)
  else
    let r := saArenaAlloc (.blank pid env.selfPid arenaCap) k env
    if r.1 then (some r.2.1, r.2.2) else (none, r.2.2)

/-! ## Maps -/

/-- The page of the target is in the span that is in the cache. -/
def SpanCache.hit (sc : SpanCache) (span2m : Nat) : Bool := sc.valid && sc.span == span2m

/-- The span of the page `k` of the target, resolved if it is not in the cache; `none` where the
source returns `NULL`. -/
def saResolve (m : PhysMem) (env : AliasEnv) (pid k span2m : Nat) (sc : SpanCache) : Option SpanCache :=
  if sc.hit span2m then some sc
  else if !env.spanOk k then none
  else
    (procPtwalkSpanResolve m env.pmaps pid span2m).bind fun
      | .huge physBase pte =>
        if ptePCD pte then none
        else some { sc with huge := true, physBase := physBase, pte := pte, span := span2m, valid := true }
      | .leaf table =>
        (m.copyTable table).map fun spanPt =>
          { sc with spanPt := spanPt, huge := false, span := span2m, valid := true }

/-- The physical page of a page in the resolved span; `none` where the source returns `NULL`. -/
def saTargetPhys (sc : SpanCache) (tpage span2m : Nat) : Option Nat :=
  if sc.huge then some (u64 (sc.physBase + (tpage - span2m)))
  else
    let e := sc.spanPt ((tpage >>> 12) &&& 0x1FF)
    if !ptePresent e then none
    else if ptePCD e then none
    else some (e &&& ptwPhysMask)

/-- An entry for the alias of a page: present, writable, user. -/
def pteAlias (tphys : Nat) : Nat := (tphys &&& ptwPhysMask) ||| 0x7

/-- What the loop of `scan_alias_map` has filled in: the table, and the samples for the check. -/
structure AliasFill where
  pt : Nat → Nat
  samples : List (Nat × Nat)

/-- The loop of `scan_alias_map` over the pages `k`, `k + 1`, ... of the target. The cache keeps what
was resolved before a failure. -/
def saFillLoop (m : PhysMem) (env : AliasEnv) (pid span tgtPg npages : Nat) :
    Nat → Nat → SpanCache → AliasFill → SpanCache × Option AliasFill
  | 0, _, sc, f => (sc, some f)
  | left + 1, k, sc, f =>
    let tpage := u64 (tgtPg + k * 0x1000)
    let span2m := andNot tpage (saSpan - 1)
    (saResolve m env pid k span2m sc).elim (sc, none) fun sc' =>
      (saTargetPhys sc' tpage span2m).elim (sc', none) fun tphys =>
        if ptePresent (f.pt k) then (sc', none)
        else
          let sampled := (!sc.hit span2m || k == 0 || k == npages - 1) &&
            decide (f.samples.length < saVerifyMax)
          saFillLoop m env pid span tgtPg npages left (k + 1) sc'
            ⟨Function.update f.pt k (pteAlias tphys),
              if sampled then f.samples ++ [(span + k * 0x1000, tpage)] else f.samples⟩

/-- The context with a map that was just written. -/
def AliasCtx.opened (c : AliasCtx) (ptBase npages : Nat) : AliasCtx :=
  { c with
    mapActive := true
    mapPtBase := ptBase
    mapNpages := npages
    usedPt := if c.usedCount < saMaxSpans then Function.update c.usedPt c.usedCount ptBase else c.usedPt
    usedCount := c.usedCount + 1
    mapSeq := u64 (c.mapSeq + 1) }

/-- The write of the entries, and what `scan_alias_map` does after it. -/
def saCommit (i : Nat) (c : AliasCtx) (k : AliasKernel) (env : AliasEnv) (span off npages ptBase : Nat)
    (f : AliasFill) : Option Nat × AliasCtx × AliasKernel :=
  let w := k.write i c.activeMap env.aliasOk ptBase ((List.range npages).map f.pt)
  if !w.1 then
    (none, c, (w.2.write i c.activeMap env.zeroOk ptBase (List.replicate npages 0)).2)
  else
    let k' := { w.2 with windows := ⟨i, c.arenaRaw, span, ptBase, npages⟩ :: w.2.windows }
    let c' := c.opened ptBase npages
    if c.mapSeq % saVerifyDiv == 0 && f.samples.any fun s => !env.same s.1 s.2 then
      (none, scanAliasRelease i c' k' env.undoOk)
    else (some (span + off), c', k')

/-- `scan_alias_map` from the touched span on. -/
def saMapSpan (i : Nat) (c : AliasCtx) (k : AliasKernel) (env : AliasEnv) (span off npages tgtPg : Nat) :
    Option Nat × AliasCtx × AliasKernel :=
  if !env.walkOk then (none, c, k)
  else
    match procPtwalkLeafAddr k.mem env.pmaps c.selfPid span with
    | .error _ => (none, c, k)
    | .ok (ptBase, _, ptLv) =>
      if ptLv ≠ 3 then (none, c, k)
      else if ptwPhysBound ≤ ptBase then (none, c, k)
      else if !env.tableOk then (none, c, k)
      else
        (k.mem.copyTable ptBase).elim (none, c, k) fun pt =>
          let r := saFillLoop k.mem env c.pid span tgtPg npages npages 0 c.sc ⟨pt, []⟩
          let c' := { c with sc := r.1 }
          r.2.elim (none, c', k) fun f =>
            if (env.pmaps.dmap + ptBase) &&& 0xFFF ≠ 0 ∨ npages > saMaxPages then (none, c', k)
            else saCommit i c' k env span off npages ptBase f

/-- The pages that `[tgt, tgt + len)` meets. -/
def aliasPages (tgt len : Nat) : Nat := u64 ((tgt &&& 0xFFF) + len + 0xFFF) >>> 12

/-- `scan_alias_map(c, tgt, len, ...)` -/
def scanAliasMap (i : Nat) (c : AliasCtx) (k : AliasKernel) (env : AliasEnv) (tgt len : Nat) :
    Option Nat × AliasCtx × AliasKernel :=
  if len = 0 then (none, c, k)
  else
    let r := scanAliasRelease i c k env.releaseOk
    let npages := aliasPages tgt len
    if npages = 0 ∨ npages > saMaxPages then (none, r)
    else
      let q := saNextSpan i r.1 r.2 env
      q.1.elim (none, q.2) fun span =>
        saMapSpan i q.2.1 { q.2.2 with mem := env.touched } env span (tgt &&& 0xFFF) npages (andNot tgt 0xFFF)

/-- `scan_alias_end(c)`, less the `free` -/
def scanAliasEnd (i : Nat) (c : AliasCtx) (k : AliasKernel) (env : AliasEnv) : AliasKernel :=
  let r := scanAliasRelease i c k env.releaseOk
  (saReclaimOrLeak i r.1 r.2 env).2

/-- `scan_alias_rebind(c, pid)` -/
def scanAliasRebind (i : Nat) (c : AliasCtx) (k : AliasKernel) (env : AliasEnv) (pid : Nat) :
    AliasCtx × AliasKernel :=
  let r := scanAliasRelease i c k env.releaseOk
  ({ r.1 with pid := pid, sc := { r.1.sc with valid := false } }, r.2)

/-! ## Runs -/

inductive AliasCall where
  | begins (pid arenaCap : Nat)
  | map (tgt len : Nat)
  | release
  | rebind (pid : Nat)
  | ends

/-- The contexts of the engine over the kernel's side. -/
structure AliasWorld where
  ctxs : Nat → Option AliasCtx
  kern : AliasKernel

def AliasWorld.put (w : AliasWorld) (i : Nat) (c : Option AliasCtx) (k : AliasKernel) : AliasWorld :=
  ⟨Function.update w.ctxs i c, k⟩

/-- A call on the context `i`: what a map returns, and the state after it. A call on no context does
nothing. -/
def aliasCall (w : AliasWorld) (i : Nat) (env : AliasEnv) (call : AliasCall) : Option Nat × AliasWorld :=
  let k := { w.kern with mem := env.mem }
  match w.ctxs i with
  | none =>
    match call with
    | .begins pid arenaCap =>
      let r := scanAliasBegin k env pid arenaCap
      (none, w.put i r.1 r.2)
    | _ => (none, w.put i none k)
  | some c =>
    match call with
    | .begins _ _ => (none, w.put i (some c) k)
    | .map tgt len =>
      let r := scanAliasMap i c k env tgt len
      (r.1, w.put i (some r.2.1) r.2.2)
    | .release =>
      let r := scanAliasRelease i c k env.releaseOk
      (none, w.put i (some r.1) r.2)
    | .rebind pid =>
      let r := scanAliasRebind i c k env pid
      (none, w.put i (some r.1) r.2)
    | .ends => (none, w.put i none (scanAliasEnd i c k env))

def aliasStep (w : AliasWorld) (op : Nat × AliasEnv × AliasCall) : AliasWorld :=
  (aliasCall w op.1 op.2.1 op.2.2).2

/-- No context, and nothing written. -/
def AliasWorld.start (m : PhysMem) : AliasWorld :=
  ⟨fun _ => none, ⟨m, [], [], fun _ => 0, [], []⟩⟩

end Ps5Debugger
