import Mathlib.Data.List.Pairwise
import Ps5Debugger.AliasTables

/-!
# What the alias engine keeps

Two facts carry the engine. The leaf tables of the spans in use differ, since no two spans do: a
context takes its arena's spans in order, and arenas do not overlap. And the entries of a map are
written and cleared as a whole, so that its first entry tells whether any is present; this is why it
is enough that `sa_reclaim_or_leak` looks at the first 384 entries of a table.

`AliasInv` is the invariant. Every call is made of four changes: a context clears its active map,
gives up its arena, takes a span, or writes the entries of a map; each keeps the invariant.
-/

namespace Ps5Debugger

open Lib

/-! ## The invariant -/

/-- No entry of the map is present. -/
def AliasWindow.Absent (v : AliasWindow) (m : PhysMem) : Prop :=
  ∀ x < v.npages, ptePresent (m.entry v.table x) = false

/-- Nothing that was written in the arena was present. -/
def ArenaUnmap.Clean (u : ArenaUnmap) : Prop := ∀ v ∈ u.windows, v.Absent u.mem

structure AliasWindowOk (k : AliasKernel) (v : AliasWindow) : Prop where
  /-- the span starts in an arena -/
  arena : ∃ a ∈ k.arenas, a.start = v.raw ∧ a.Has v.span
  table : v.table % 0x1000 = 0
  pos : 0 < v.npages
  fits : v.npages ≤ saMaxPages
  /-- all entries are present, or none is -/
  whole : ∀ x < v.npages, ptePresent (k.mem.entry v.table x) = ptePresent (k.mem.entry v.table 0)

/-- A context with an arena. -/
structure ArenaOk (c : AliasCtx) (k : AliasKernel) : Prop where
  mapped : ⟨c.arenaRaw, c.arenaMapsz⟩ ∈ k.arenas
  size : saSpan ≤ c.arenaMapsz
  low : c.arenaRaw ≤ c.cursor
  high : c.arenaEnd ≤ c.arenaRaw + c.arenaMapsz
  aligned : c.cursor % saSpan = 0
  spans : ∀ v ∈ k.windows, v.raw = c.arenaRaw → v.span < c.cursor
  /-- the tables are remembered, as long as there is room for them -/
  used : c.usedCount ≤ saMaxSpans → ∀ v ∈ k.windows, v.raw = c.arenaRaw →
    ∃ j < c.usedCount, c.usedPt j = v.table

structure CtxOk (i : Nat) (c : AliasCtx) (k : AliasKernel) : Prop where
  idle : c.arenaRaw = 0 → c.mapActive = false ∧ c.cursor = 0
  arena : c.arenaRaw ≠ 0 → ArenaOk c k
  /-- the active map is one that the context has written -/
  active : c.mapActive = true →
    ∃ v ∈ k.windows, v.ctx = i ∧ v.raw = c.arenaRaw ∧ v.table = c.mapPtBase ∧ v.npages = c.mapNpages

structure AliasInv (w : AliasWorld) : Prop where
  apart : w.kern.arenas.Pairwise Separate
  window : ∀ v ∈ w.kern.windows, AliasWindowOk w.kern v
  tables : w.kern.windows.Pairwise fun v u => v.table ≠ u.table
  ctx : ∀ i c, w.ctxs i = some c → CtxOk i c w.kern
  owner : ∀ i j c d, w.ctxs i = some c → w.ctxs j = some d → c.arenaRaw = d.arenaRaw → c.arenaRaw ≠ 0 → i = j
  /-- what is present is active, unless a write failed -/
  present : ∀ v ∈ w.kern.windows, v.Absent w.kern.mem ∨ w.kern.failures v.ctx ≠ 0 ∨
    ∃ c, w.ctxs v.ctx = some c ∧ c.activeMap = some (v.table, v.npages)
  writes : ∀ wr ∈ w.kern.writes, wr.NoOverwrite
  unmaps : ∀ u ∈ w.kern.unmaps, u.Clean

variable {ctxs : Nat → Option AliasCtx} {k : AliasKernel} {i : Nat} {c c' : AliasCtx}

theorem AliasInv.start (m : PhysMem) : AliasInv (.start m) := by
  refine ⟨.nil, ?_, .nil, ?_, ?_, ?_, ?_, ?_⟩
  · intro v hv
    cases hv
  · intro i c hc
    cases hc
  · intro i j c d hc
    cases hc
  · intro v hv
    cases hv
  · intro wr hwr
    cases hwr
  · intro u hu
    cases hu

/-- The context with the number `j` after `i` was replaced. -/
theorem update_ctx {o : Option AliasCtx} {j : Nat} {d : AliasCtx} (h : Function.update ctxs i o j = some d) :
    j = i ∧ o = some d ∨ j ≠ i ∧ ctxs j = some d := by
  by_cases hj : j = i
  · subst hj
    rw [Function.update_self] at h
    exact .inl ⟨rfl, h⟩
  · rw [Function.update_of_ne hj] at h
    exact .inr ⟨hj, h⟩

/-- Two maps with one table are one map. -/
theorem AliasInv.eq_of_table (h : AliasInv ⟨ctxs, k⟩) {v u : AliasWindow} (hv : v ∈ k.windows)
    (hu : u ∈ k.windows) (ht : v.table = u.table) : v = u := by
  have : Std.Symm fun v u : AliasWindow => v.table ≠ u.table := ⟨fun _ _ hne => hne.symm⟩
  by_contra hne
  exact h.tables.forall hv hu hne ht

/-- Arenas that start at different addresses do not meet. -/
theorem AliasInv.separate (h : AliasInv ⟨ctxs, k⟩) {a b : Range} (ha : a ∈ k.arenas) (hb : b ∈ k.arenas)
    (hne : a.start ≠ b.start) : Separate a b := by
  have : Std.Symm Separate := ⟨fun _ _ hab => hab.symm⟩
  exact h.apart.forall ha hb fun hab => hne (by rw [hab])

theorem CtxOk.kernel {k' : AliasKernel} (h : CtxOk i c k) (harenas : ∀ a ∈ k.arenas, a ∈ k'.arenas)
    (hwindows : k'.windows = k.windows) : CtxOk i c k' := by
  refine ⟨h.idle, fun hr => ?_, by rw [hwindows]; exact h.active⟩
  have ha := h.arena hr
  exact ⟨harenas _ ha.mapped, ha.size, ha.low, ha.high, ha.aligned, by rw [hwindows]; exact ha.spans,
    by rw [hwindows]; exact ha.used⟩

/-! ## Changes of a context -/

/-- A context is made, changed or ended, with the kernel's side as it is. -/
theorem AliasInv.put (h : AliasInv ⟨ctxs, k⟩) {o : Option AliasCtx} (hok : ∀ d, o = some d → CtxOk i d k)
    (hown : ∀ d, o = some d → d.arenaRaw ≠ 0 → ∀ j e, j ≠ i → ctxs j = some e → e.arenaRaw ≠ d.arenaRaw)
    (hpresent : ∀ v ∈ k.windows, v.ctx = i → v.Absent k.mem ∨ k.failures i ≠ 0 ∨
      ∃ d, o = some d ∧ d.activeMap = some (v.table, v.npages)) :
    AliasInv ⟨Function.update ctxs i o, k⟩ := by
  refine ⟨h.apart, h.window, h.tables, fun j d hd => ?_, fun j l d e hd he heq hraw => ?_, fun v hv => ?_,
    h.writes, h.unmaps⟩
  · obtain ⟨rfl, hnew⟩ | ⟨-, hd⟩ := update_ctx hd
    · exact hok d hnew
    · exact h.ctx j d hd
  · obtain ⟨rfl, hnew⟩ | ⟨hj, hdj⟩ := update_ctx hd
    · obtain ⟨rfl, -⟩ | ⟨hl, hel⟩ := update_ctx he
      · rfl
      · exact absurd heq.symm (hown d hnew hraw l e hl hel)
    · obtain ⟨rfl, hnew⟩ | ⟨-, hel⟩ := update_ctx he
      · exact absurd heq (hown e hnew (by rw [← heq]; exact hraw) j d hj hdj)
      · exact h.owner j l d e hdj hel heq hraw
  · dsimp only
    by_cases hvi : v.ctx = i
    · rw [hvi, Function.update_self]
      exact hpresent v hv hvi
    · rw [Function.update_of_ne hvi]
      exact h.present v hv

theorem AliasCtx.activeMap_of_inactive (h : c.mapActive = false) : c.activeMap = none := by
  rw [AliasCtx.activeMap, h]
  rfl

/-- What is present of the maps of one context. -/
theorem AliasInv.present_own (h : AliasInv ⟨ctxs, k⟩) (hc : ctxs i = some c) {v : AliasWindow}
    (hv : v ∈ k.windows) (hvi : v.ctx = i) :
    v.Absent k.mem ∨ k.failures i ≠ 0 ∨ c.activeMap = some (v.table, v.npages) := by
  subst hvi
  refine (h.present v hv).imp_right (Or.imp_right ?_)
  rintro ⟨d, hd, hmap⟩
  rw [Option.some.inj (hc.symm.trans hd)]
  exact hmap

/-- Without an active map, nothing is present unless a write failed. -/
theorem AliasInv.absent_own (h : AliasInv ⟨ctxs, k⟩) (hc : ctxs i = some c) (hact : c.mapActive = false)
    {v : AliasWindow} (hv : v ∈ k.windows) (hvi : v.ctx = i) : v.Absent k.mem ∨ k.failures i ≠ 0 := by
  obtain habs | hfail | hmap := h.present_own hc hv hvi
  · exact .inl habs
  · exact .inr hfail
  · rw [AliasCtx.activeMap_of_inactive hact] at hmap
    cases hmap

/-- A context that keeps its arena and its active map. -/
theorem AliasInv.put_same (h : AliasInv ⟨ctxs, k⟩) (hc : ctxs i = some c) (hok : CtxOk i c' k)
    (hraw : c'.arenaRaw = c.arenaRaw) (hactive : c'.activeMap = c.activeMap) :
    AliasInv ⟨Function.update ctxs i (some c'), k⟩ := by
  refine h.put (fun d hd => ?_) (fun d hd hne j e hj he heq => ?_) fun v hv hvi => ?_
  · obtain rfl := Option.some.inj hd
    exact hok
  · obtain rfl := Option.some.inj hd
    rw [hraw] at heq hne
    exact hj (h.owner j i e c he hc heq (by rw [heq]; exact hne))
  · refine (h.present_own hc hv hvi).imp_right (Or.imp_right fun hmap => ⟨c', rfl, ?_⟩)
    rw [hactive]
    exact hmap

/-! ## Changes of the memory -/

/-- The map has the same entries present. -/
def AliasWindow.SamePresence (v : AliasWindow) (m m' : PhysMem) : Prop :=
  ∀ x < v.npages, ptePresent (m'.entry v.table x) = ptePresent (m.entry v.table x)

theorem AliasWindow.samePresence_refl (v : AliasWindow) (m : PhysMem) : v.SamePresence m m := fun _ _ => rfl

/-- The memory changes so that each map keeps its entries, or loses all of them. -/
theorem AliasInv.memory (h : AliasInv ⟨ctxs, k⟩) {m : PhysMem} {writes : List KernelWrite}
    (hmem : ∀ v ∈ k.windows, v.Absent m ∨ v.SamePresence k.mem m)
    (hwrites : ∀ wr ∈ writes, wr.NoOverwrite) :
    AliasInv ⟨ctxs, { k with mem := m, writes := writes }⟩ := by
  refine ⟨h.apart, fun v hv => ?_, h.tables, fun j d hd => (h.ctx j d hd).kernel (fun _ ha => ha) rfl, h.owner,
    fun v hv => ?_, hwrites, h.unmaps⟩
  · have hw := h.window v hv
    refine ⟨hw.arena, hw.table, hw.pos, hw.fits, fun x hx => ?_⟩
    dsimp only
    rcases hmem v hv with habs | hsame
    · rw [habs x hx, habs 0 hw.pos]
    · rw [hsame x hx, hsame 0 hw.pos]
      exact hw.whole x hx
  · rcases hmem v hv with habs | hsame
    · exact .inl habs
    · refine (h.present v hv).imp_left fun habs x hx => ?_
      dsimp only
      rw [hsame x hx]
      exact habs x hx

/-- A write fails, and nothing else happens. -/
theorem AliasInv.fail (h : AliasInv ⟨ctxs, k⟩) (i : Nat) :
    AliasInv ⟨ctxs, { k with failures := Function.update k.failures i (k.failures i + 1) }⟩ := by
  refine ⟨h.apart, fun v hv => ?_, h.tables, fun j d hd => (h.ctx j d hd).kernel (fun _ ha => ha) rfl, h.owner,
    fun v hv => ?_, h.writes, h.unmaps⟩
  · have hw := h.window v hv
    exact ⟨hw.arena, hw.table, hw.pos, hw.fits, hw.whole⟩
  · refine (h.present v hv).imp_right (Or.imp_left fun hfail => ?_)
    dsimp only
    by_cases hvi : v.ctx = i
    · rw [hvi, Function.update_self]
      exact Nat.succ_ne_zero _
    · rw [Function.update_of_ne hvi]
      exact hfail

/-- A write at a table that differs from the table of a map leaves the map as it is. -/
theorem AliasWindowOk.samePresence {v : AliasWindow} {m : PhysMem} {table : Nat} {entries : List Nat}
    (h : AliasWindowOk k v) (htable : table % 0x1000 = 0) (hlen : entries.length ≤ 512)
    (hcopy : k.mem.copyin table (entries.flatMap (leBytes 8)) = some m) (hne : v.table ≠ table) :
    v.SamePresence k.mem m := by
  intro x hx
  have hfits := h.fits
  rw [saMaxPages] at hfits
  rw [PhysMem.entry_copyin htable hlen hcopy h.table (by omega), if_neg fun hin => hne hin.1]

/-! ## Releases -/

theorem scanAliasRelease_idle {ok : Bool} (h : c.mapActive = false) : scanAliasRelease i c k ok = (c, k) := by
  rw [scanAliasRelease, h]
  rfl

theorem scanAliasRelease_active {ok : Bool} (h : c.mapActive = true) :
    scanAliasRelease i c k ok = ({ c with mapActive := false, mapNpages := 0, mapPtBase := 0 },
      (k.write i c.activeMap ok c.mapPtBase (List.replicate c.mapNpages 0)).2) := by
  rw [scanAliasRelease, h]
  rfl

theorem scanAliasRelease_inactive (i : Nat) (c : AliasCtx) (k : AliasKernel) (ok : Bool) :
    (scanAliasRelease i c k ok).1.mapActive = false := by
  cases h : c.mapActive with
  | false =>
    rw [scanAliasRelease_idle h]
    exact h
  | true => rw [scanAliasRelease_active h]

theorem CtxOk.inactive (h : CtxOk i c k) :
    CtxOk i { c with mapActive := false, mapNpages := 0, mapPtBase := 0 } k := by
  refine ⟨fun hr => ⟨rfl, (h.idle hr).2⟩, fun hr => ?_, fun ha => by cases ha⟩
  have ha := h.arena hr
  exact ⟨ha.mapped, ha.size, ha.low, ha.high, ha.aligned, ha.spans, ha.used⟩

/-- A context lets go of its active map, which is cleared or could not be. -/
theorem AliasInv.put_inactive (h : AliasInv ⟨ctxs, k⟩) (hc : ctxs i = some c)
    (hgone : ∀ v ∈ k.windows, c.activeMap = some (v.table, v.npages) → v.Absent k.mem ∨ k.failures i ≠ 0) :
    AliasInv ⟨Function.update ctxs i (some { c with mapActive := false, mapNpages := 0, mapPtBase := 0 }), k⟩ := by
  refine h.put (fun d hd => ?_) (fun d hd hne j e hj he heq => ?_) fun v hv hvi => ?_
  · obtain rfl := Option.some.inj hd
    exact (h.ctx i c hc).inactive
  · obtain rfl := Option.some.inj hd
    exact hj (h.owner j i e c he hc heq (by rw [heq]; exact hne))
  · obtain habs | hfail | hmap := h.present_own hc hv hvi
    · exact .inl habs
    · exact .inr (.inl hfail)
    · exact (hgone v hv hmap).imp_right .inl

/-- **A release** clears the active map, or fails and is noted. -/
theorem AliasInv.release (h : AliasInv ⟨ctxs, k⟩) (hc : ctxs i = some c) (ok : Bool) :
    AliasInv ⟨Function.update ctxs i (some (scanAliasRelease i c k ok).1), (scanAliasRelease i c k ok).2⟩ := by
  cases hact : c.mapActive with
  | false =>
    rw [scanAliasRelease_idle hact]
    dsimp only
    rw [← hc, Function.update_eq_self]
    exact h
  | true =>
    rw [scanAliasRelease_active hact]
    dsimp only
    obtain ⟨v, hv, hvi, -, hvtable, hvn⟩ := (h.ctx i c hc).active hact
    have hw := h.window v hv
    have hfits : v.npages ≤ 512 := Nat.le_succ_of_le hw.fits
    have hmap : c.activeMap = some (v.table, v.npages) := by
      rw [AliasCtx.activeMap, hact, if_pos rfl, hvtable, hvn]
    rw [← hvtable, ← hvn, hmap]
    obtain hfail | ⟨m, hcopy, hok⟩ :=
      k.write_cases i (some (v.table, v.npages)) ok v.table (List.replicate v.npages 0)
    · rw [hfail]
      refine (h.fail i).put_inactive hc fun u _ _ => .inr ?_
      dsimp only
      rw [Function.update_self]
      exact Nat.succ_ne_zero _
    · rw [hok]
      have habs : v.Absent m := fun x hx => absent_of_zeros hw.table hfits hcopy hx
      have hlen : (List.replicate v.npages 0).length ≤ 512 := by rw [List.length_replicate]; exact hfits
      refine (h.memory (fun u hu => ?_) fun wr hwr => ?_).put_inactive hc fun u hu humap => .inl ?_
      · by_cases hne : u.table = v.table
        · rw [h.eq_of_table hu hv hne]
          exact .inl habs
        · exact .inr ((h.window u hu).samePresence hw.table hlen hcopy hne)
      · rcases List.mem_cons.mp hwr with rfl | hwr
        · exact noOverwrite_of_active hw.table hfits hcopy
        · exact h.writes wr hwr
      · rw [hmap] at humap
        rw [← h.eq_of_table hv hu (Prod.mk.inj (Option.some.inj humap)).1]
        exact habs

/-! ## Arenas -/

/-- An arena that no context has is unmapped, with nothing present in it. -/
theorem AliasInv.munmap (h : AliasInv ⟨ctxs, k⟩) {raw size : Nat}
    (hfree : ∀ j d, ctxs j = some d → d.arenaRaw ≠ raw)
    (hclean : ∀ v ∈ k.windows, v.raw = raw → v.Absent k.mem) : AliasInv ⟨ctxs, k.munmap raw size⟩ := by
  have hkeep : ∀ v, v ∈ (k.munmap raw size).windows ↔ v ∈ k.windows ∧ v.raw ≠ raw := by
    intro v
    rw [AliasKernel.munmap, List.mem_filter, bne_iff_ne]
  have harena : ∀ a, a ∈ (k.munmap raw size).arenas ↔ a ∈ k.arenas ∧ a.start ≠ raw := by
    intro a
    rw [AliasKernel.munmap, List.mem_filter, bne_iff_ne]
  refine ⟨h.apart.filter _, fun v hv => ?_, h.tables.filter _, fun j d hd => ?_, h.owner, fun v hv => ?_,
    h.writes, fun u hu => ?_⟩
  · obtain ⟨hv, hraw⟩ := (hkeep v).mp hv
    have hw := h.window v hv
    obtain ⟨a, ha, hstart, hspan⟩ := hw.arena
    exact ⟨⟨a, (harena a).mpr ⟨ha, by rw [hstart]; exact hraw⟩, hstart, hspan⟩, hw.table, hw.pos, hw.fits,
      hw.whole⟩
  · have hok := h.ctx j d hd
    refine ⟨hok.idle, fun hr => ?_, fun hact => ?_⟩
    · have ha := hok.arena hr
      exact ⟨(harena _).mpr ⟨ha.mapped, hfree j d hd⟩, ha.size, ha.low, ha.high, ha.aligned,
        fun v hv => ha.spans v ((hkeep v).mp hv).1, fun hn v hv => ha.used hn v ((hkeep v).mp hv).1⟩
    · obtain ⟨v, hv, hvj, hvraw, hrest⟩ := hok.active hact
      exact ⟨v, (hkeep v).mpr ⟨hv, by rw [hvraw]; exact hfree j d hd⟩, hvj, hvraw, hrest⟩
  · exact h.present v ((hkeep v).mp hv).1
  · rcases List.mem_cons.mp hu with rfl | hu
    · intro v hv
      obtain ⟨hv, hraw⟩ := List.mem_filter.mp hv
      exact hclean v hv (beq_iff_eq.mp hraw)
    · exact h.unmaps u hu

/-- An arena is mapped where none is. -/
theorem AliasInv.mmap (h : AliasInv ⟨ctxs, k⟩) {raw size : Nat}
    (hfresh : ∀ a ∈ k.arenas, Separate ⟨raw, size⟩ a) : AliasInv ⟨ctxs, k.mmap raw size⟩ := by
  refine ⟨List.pairwise_cons.mpr ⟨hfresh, h.apart⟩, fun v hv => ?_, h.tables,
    fun j d hd => (h.ctx j d hd).kernel (fun _ ha => List.mem_cons_of_mem _ ha) rfl, h.owner, h.present, h.writes,
    h.unmaps⟩
  have hw := h.window v hv
  obtain ⟨a, ha, hrest⟩ := hw.arena
  exact ⟨⟨a, List.mem_cons_of_mem _ ha, hrest⟩, hw.table, hw.pos, hw.fits, hw.whole⟩

/-- A table that passes the check before `munmap` has no present entry at its front. -/
theorem arenaClean_entry {m : PhysMem} {env : AliasEnv} (h : arenaClean c m env = true) :
    c.usedCount ≤ saMaxSpans ∧ ∀ j < c.usedCount, c.usedPt j % 0x1000 = 0 →
      ptePresent (m.entry (c.usedPt j) 0) = false := by
  rw [arenaClean, Bool.and_eq_true, decide_eq_true_eq, List.all_eq_true] at h
  refine ⟨h.1, fun j hj halign => ?_⟩
  have hj := h.2 j (List.mem_range.mpr hj)
  rw [Bool.and_eq_true] at hj
  obtain hno | ⟨pt, hpt, hentries⟩ := m.copyTable_aligned halign
  · rw [hno] at hj
    cases hj.2
  · rw [hpt, Option.elim_some, List.all_eq_true] at hj
    have hfirst := hj.2 0 (List.mem_range.mpr (by decide))
    rw [hentries 0 (by decide)] at hfirst
    simpa using hfirst

/-- **Giving up an arena.** It is unmapped only if nothing that was written in it is present. -/
theorem AliasInv.reclaim (h : AliasInv ⟨ctxs, k⟩) (hc : ctxs i = some c) (hact : c.mapActive = false)
    (env : AliasEnv) :
    AliasInv ⟨Function.update ctxs i (some (saReclaimOrLeak i c k env).1), (saReclaimOrLeak i c k env).2⟩ ∧
      (saReclaimOrLeak i c k env).1.arenaRaw = 0 ∧ (saReclaimOrLeak i c k env).1.mapActive = false := by
  rw [saReclaimOrLeak]
  split
  · next hraw =>
    refine ⟨?_, hraw, hact⟩
    dsimp only
    rw [← hc, Function.update_eq_self]
    exact h
  next hraw =>
  rw [scanAliasRelease_idle hact]
  refine ⟨?_, rfl, hact⟩
  have hok := h.ctx i c hc
  have ha := hok.arena hraw
  have hleft : AliasInv ⟨Function.update ctxs i (some { c with
      arenaRaw := 0, arenaMapsz := 0, arenaEnd := 0, cursor := 0, usedCount := 0 }), k⟩ := by
    refine h.put (fun d hd => ?_) (fun d hd hne => ?_) fun v hv hvi => ?_
    · obtain rfl := Option.some.inj hd
      exact ⟨fun _ => ⟨hact, rfl⟩, fun hne => absurd rfl hne, fun htrue => by
        rw [hact] at htrue
        cases htrue⟩
    · obtain rfl := Option.some.inj hd
      exact absurd rfl hne
    · exact (h.absent_own hc hact hv hvi).imp_right .inl
  dsimp only
  split
  · next hclean =>
    obtain ⟨hcount, hentry⟩ := arenaClean_entry hclean
    refine hleft.munmap (fun j d hd => ?_) fun v hv hvraw x hx => ?_
    · obtain ⟨rfl, hnew⟩ | ⟨hj, hd⟩ := update_ctx hd
      · obtain rfl := Option.some.inj hnew
        exact Ne.symm hraw
      · exact fun heq => hj (h.owner j i d c hd hc heq (by rw [heq]; exact hraw))
    · -- the first entry of the table was looked at, and the map is present as a whole or not at all
      obtain ⟨j, hj, htable⟩ := ha.used hcount v hv hvraw
      have hw := h.window v hv
      rw [hw.whole x hx, ← htable]
      exact hentry j hj (by rw [htable]; exact hw.table)
  · exact hleft

/-- The operating system maps an arena in the lower half of the address space, where none is mapped. -/
def FreshArena (arenaCap : Nat) (k : AliasKernel) (env : AliasEnv) : Prop :=
  env.raw = 2 ^ 64 - 1 ∨ env.raw = 0 ∨
    env.raw + (arenaCap + saSpan) ≤ 2 ^ 63 ∧ ∀ a ∈ k.arenas, Separate ⟨env.raw, arenaCap + saSpan⟩ a

/-- The first span of an arena. -/
theorem arena_base (raw : Nat) (h : raw < 2 ^ 63) :
    raw ≤ andNot (raw + (saSpan - 1)) (saSpan - 1) ∧
      andNot (raw + (saSpan - 1)) (saSpan - 1) < raw + saSpan ∧
      andNot (raw + (saSpan - 1)) (saSpan - 1) % saSpan = 0 := by
  have hspan : saSpan = 2 ^ 21 := rfl
  rw [hspan, andNot_low (by omega) (by decide)]
  omega

/-- **A new arena**, for a context that has none. -/
theorem AliasInv.alloc (h : AliasInv ⟨ctxs, k⟩) (hc : ctxs i = some c) (hraw : c.arenaRaw = 0) {env : AliasEnv}
    (hfresh : FreshArena c.arenaCap k env) :
    AliasInv ⟨Function.update ctxs i (some (saArenaAlloc c k env).2.1), (saArenaAlloc c k env).2.2⟩ ∧
      (saArenaAlloc c k env).2.1.mapActive = false ∧
      ((saArenaAlloc c k env).1 = true →
        (saArenaAlloc c k env).2.1.arenaRaw ≠ 0 ∧
        (saArenaAlloc c k env).2.1.cursor < (saArenaAlloc c k env).2.1.arenaRaw + saSpan ∧
        ∀ v ∈ (saArenaAlloc c k env).2.2.windows, v.raw ≠ (saArenaAlloc c k env).2.1.arenaRaw) := by
  have hact := ((h.ctx i c hc).idle hraw).1
  rw [saArenaAlloc]
  dsimp only
  split
  · refine ⟨?_, hact, fun htrue => by cases htrue⟩
    dsimp only
    rw [← hc, Function.update_eq_self]
    exact h
  next hgot =>
  rw [not_or] at hgot
  obtain ⟨hlow, hnew⟩ : env.raw + (c.arenaCap + saSpan) ≤ 2 ^ 63 ∧
      ∀ a ∈ k.arenas, Separate ⟨env.raw, c.arenaCap + saSpan⟩ a := by
    rcases hfresh with hno | hno | hyes
    · exact absurd hno hgot.1
    · exact absurd hno hgot.2
    · exact hyes
  have hspan : saSpan = 0x200000 := rfl
  obtain ⟨hle, hlt, halign⟩ := arena_base env.raw (by omega)
  -- no arena that is mapped starts here
  have hother : ∀ a ∈ k.arenas, 0 < a.size → a.start ≠ env.raw := by
    intro a ha hsize heq
    exact hnew a ha env.raw ⟨Nat.le_refl _, by dsimp only; omega⟩ ⟨by omega, by omega⟩
  have hwindows : ∀ v ∈ k.windows, v.raw ≠ env.raw := by
    intro v hv heq
    obtain ⟨a, ha, hstart, hspan⟩ := (h.window v hv).arena
    exact hother a ha (by obtain ⟨_, _⟩ := hspan; omega) (by rw [hstart, heq])
  refine ⟨?_, hact, fun _ => ⟨hgot.2, hlt, hwindows⟩⟩
  refine (h.mmap hnew).put (fun d hd => ?_) (fun d hd _ j e _ he heq => ?_) fun v hv hvi => ?_
  · obtain rfl := Option.some.inj hd
    refine ⟨fun hzero => absurd hzero hgot.2, fun _ => ?_, fun htrue => ?_⟩
    · exact ⟨List.mem_cons_self, Nat.le_add_left _ _, hle, by dsimp only; omega, halign,
        fun v hv hv' => absurd hv' (hwindows v hv), fun _ v hv hv' => absurd hv' (hwindows v hv)⟩
    · rw [hact] at htrue
      cases htrue
  · obtain rfl := Option.some.inj hd
    dsimp only at heq
    have hae := (h.ctx j e he).arena (by rw [heq]; exact hgot.2)
    exact hother _ hae.mapped (by have := hae.size; dsimp only; omega) heq
  · exact (h.absent_own hc hact hv hvi).imp_right .inl

/-! ## Spans -/

/-- The span that a context has just taken from its arena. -/
structure SpanOk (c : AliasCtx) (k : AliasKernel) (span : Nat) : Prop where
  raw : c.arenaRaw ≠ 0
  inside : Range.Has ⟨c.arenaRaw, c.arenaMapsz⟩ span
  aligned : span % saSpan = 0
  below : span < c.cursor
  fresh : ∀ v ∈ k.windows, v.raw = c.arenaRaw → v.span < span

theorem AliasInv.take (h : AliasInv ⟨ctxs, k⟩) (hc : ctxs i = some c) (hraw : c.arenaRaw ≠ 0)
    (hroom : c.cursor < c.arenaRaw + c.arenaMapsz) :
    AliasInv ⟨Function.update ctxs i (some { c with cursor := c.cursor + saSpan }), k⟩ ∧
      SpanOk { c with cursor := c.cursor + saSpan } k c.cursor := by
  have hok := h.ctx i c hc
  have ha := hok.arena hraw
  have hspan : saSpan = 0x200000 := rfl
  refine ⟨h.put_same hc ⟨fun hzero => absurd hzero hraw, fun _ => ?_, hok.active⟩ rfl rfl, hraw,
    ⟨ha.low, hroom⟩, ha.aligned, by dsimp only; omega, ha.spans⟩
  refine ⟨ha.mapped, ha.size, by have := ha.low; dsimp only; omega, ha.high, ?_, fun v hv hvraw => ?_, ha.used⟩
  · dsimp only
    rw [Nat.add_mod_right]
    exact ha.aligned
  · exact Nat.lt_add_right _ (ha.spans v hv hvraw)

/-- **The next span** is one that no map was written for. -/
theorem AliasInv.nextSpan (h : AliasInv ⟨ctxs, k⟩) (hc : ctxs i = some c) (hact : c.mapActive = false)
    {env : AliasEnv}
    (hfresh : FreshArena (saReclaimOrLeak i c k env).1.arenaCap (saReclaimOrLeak i c k env).2 env) :
    AliasInv ⟨Function.update ctxs i (some (saNextSpan i c k env).2.1), (saNextSpan i c k env).2.2⟩ ∧
      (saNextSpan i c k env).2.1.mapActive = false ∧
      ∀ span, (saNextSpan i c k env).1 = some span →
        SpanOk (saNextSpan i c k env).2.1 (saNextSpan i c k env).2.2 span := by
  have hspan : saSpan = 0x200000 := rfl
  rw [saNextSpan]
  split
  · obtain ⟨hgone, hzero, -⟩ := h.reclaim hc hact env
    obtain ⟨hinv, hact', hnew⟩ := hgone.alloc (Function.update_self i _ _) hzero hfresh
    rw [Function.update_idem] at hinv
    dsimp only
    split
    · exact ⟨hinv, hact', fun span hs => by cases hs⟩
    next hgot =>
    obtain ⟨hraw, hlt, -⟩ := hnew (by simpa using hgot)
    have hsize := ((hinv.ctx i _ (Function.update_self i _ _)).arena hraw).size
    obtain ⟨hinv', hok⟩ := hinv.take (Function.update_self i _ _) hraw (by omega)
    rw [Function.update_idem] at hinv'
    refine ⟨hinv', hact', fun span hs => ?_⟩
    obtain rfl := Option.some.inj hs
    exact hok
  · next hroom =>
    rw [not_or] at hroom
    have hraw : c.arenaRaw ≠ 0 := fun hzero => hroom.1 ((h.ctx i c hc).idle hzero).2
    have hhigh := ((h.ctx i c hc).arena hraw).high
    obtain ⟨hinv, hok⟩ := h.take hc hraw (by omega)
    refine ⟨hinv, hact, fun span hs => ?_⟩
    obtain rfl := Option.some.inj hs
    exact hok

end Ps5Debugger
