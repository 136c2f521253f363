import Ps5Debugger.AliasInv

/-!
# Runs of the alias engine

The write of a map's entries, then whole maps, then every call, and from there any sequence of calls
on any contexts. What is asked of the operating system is that it maps an arena where none is mapped,
that two spans do not share a leaf table, and that it does not make entries of a table present or not
present behind the engine's back.
-/

namespace Ps5Debugger

open Lib

variable {ctxs : Nat → Option AliasCtx} {k : AliasKernel} {i : Nat} {c : AliasCtx}

/-! ## The write of a map -/

/-- No map was written for the span that a context has just taken. -/
theorem AliasInv.span_new (h : AliasInv ⟨ctxs, k⟩) (hc : ctxs i = some c) {span : Nat} (hspan : SpanOk c k span)
    {v : AliasWindow} (hv : v ∈ k.windows) : v.span ≠ span := by
  rintro rfl
  by_cases hraw : v.raw = c.arenaRaw
  · exact Nat.lt_irrefl _ (hspan.fresh v hv hraw)
  · obtain ⟨a, ha, hstart, hhas⟩ := (h.window v hv).arena
    have hown := ((h.ctx i c hc).arena hspan.raw).mapped
    exact h.separate ha hown (by rw [hstart]; exact hraw) v.span hhas hspan.inside

theorem ArenaOk.opened {span ptBase npages : Nat} (h : ArenaOk c k) (hspan : SpanOk c k span) :
    ArenaOk (c.opened ptBase npages)
      { k with windows := ⟨i, c.arenaRaw, span, ptBase, npages⟩ :: k.windows } := by
  refine ⟨h.mapped, h.size, h.low, h.high, h.aligned, fun v hv hvraw => ?_, fun hcount v hv hvraw => ?_⟩
  · rcases List.mem_cons.mp hv with rfl | hv
    · exact hspan.below
    · exact h.spans v hv hvraw
  · have hroom : c.usedCount < saMaxSpans := hcount
    have hpt : (c.opened ptBase npages).usedPt = Function.update c.usedPt c.usedCount ptBase := if_pos hroom
    rw [hpt]
    rcases List.mem_cons.mp hv with rfl | hv
    · exact ⟨c.usedCount, Nat.lt_succ_self _, Function.update_self _ _ _⟩
    · obtain ⟨j, hj, htable⟩ := h.used (Nat.le_of_lt hroom) v hv hvraw
      exact ⟨j, Nat.lt_succ_of_lt hj, by rw [Function.update_of_ne (Nat.ne_of_lt hj)]; exact htable⟩

/-- A map in an arena that the context does not have. -/
theorem CtxOk.foreign {v : AliasWindow} (h : CtxOk i c k) (hv : c.arenaRaw ≠ 0 → v.raw ≠ c.arenaRaw) :
    CtxOk i c { k with windows := v :: k.windows } := by
  refine ⟨h.idle, fun hr => ?_, fun hact => ?_⟩
  · have ha := h.arena hr
    refine ⟨ha.mapped, ha.size, ha.low, ha.high, ha.aligned, fun u hu huraw => ?_, fun hn u hu huraw => ?_⟩
    · rcases List.mem_cons.mp hu with rfl | hu
      · exact absurd huraw (hv hr)
      · exact ha.spans u hu huraw
    · rcases List.mem_cons.mp hu with rfl | hu
      · exact absurd huraw (hv hr)
      · exact ha.used hn u hu huraw
  · obtain ⟨u, hu, hrest⟩ := h.active hact
    exact ⟨u, List.mem_cons_of_mem _ hu, hrest⟩

/-- A write at the front of a table that no map is in, and where nothing is present. -/
theorem AliasInv.writeFree (h : AliasInv ⟨ctxs, k⟩) (ok : Bool) {table : Nat} (entries : List Nat)
    (htable : table % 0x1000 = 0) (hlen : entries.length ≤ 512) (hnew : ∀ v ∈ k.windows, v.table ≠ table)
    (habsent : ∀ x < entries.length, ptePresent (k.mem.entry table x) = false) :
    AliasInv ⟨ctxs, (k.write i none ok table entries).2⟩ := by
  obtain hfail | ⟨m, hcopy, hok⟩ := k.write_cases i none ok table entries
  · rw [hfail]
    exact h.fail i
  · rw [hok]
    refine h.memory (fun v hv => .inr ?_) fun wr hwr => ?_
    · exact (h.window v hv).samePresence htable hlen hcopy (hnew v hv)
    · rcases List.mem_cons.mp hwr with rfl | hwr
      · exact noOverwrite_of_absent htable hlen hcopy habsent
      · exact h.writes wr hwr

/-- **A map is opened** for a span, in a table that no other map is in. -/
theorem AliasInv.opened (h : AliasInv ⟨ctxs, k⟩) (hc : ctxs i = some c) {span ptBase npages : Nat}
    (hspan : SpanOk c k span) (htable : ptBase % 0x1000 = 0) (hpos : 0 < npages) (hfits : npages ≤ saMaxPages)
    (hnew : ∀ v ∈ k.windows, v.table ≠ ptBase)
    (hpresent : ∀ x < npages, ptePresent (k.mem.entry ptBase x) = true) (hact : c.mapActive = false) :
    AliasInv ⟨Function.update ctxs i (some (c.opened ptBase npages)),
      { k with windows := ⟨i, c.arenaRaw, span, ptBase, npages⟩ :: k.windows }⟩ := by
  have hok := h.ctx i c hc
  have harena := hok.arena hspan.raw
  refine ⟨h.apart, fun v hv => ?_, ?_, fun j d hd => ?_, fun j l d e hd he heq hraw => ?_, fun v hv => ?_,
    h.writes, h.unmaps⟩
  · rcases List.mem_cons.mp hv with rfl | hv
    · refine ⟨⟨_, harena.mapped, rfl, hspan.inside⟩, htable, hpos, hfits, fun x hx => ?_⟩
      dsimp only at hx ⊢
      rw [hpresent x hx, hpresent 0 hpos]
    · have hw := h.window v hv
      exact ⟨hw.arena, hw.table, hw.pos, hw.fits, hw.whole⟩
  · exact List.pairwise_cons.mpr ⟨fun v hv => (hnew v hv).symm, h.tables⟩
  · obtain ⟨rfl, hopen⟩ | ⟨hj, hd⟩ := update_ctx hd
    · obtain rfl := Option.some.inj hopen
      exact ⟨fun hzero => absurd hzero hspan.raw, fun _ => harena.opened hspan,
        fun _ => ⟨_, List.mem_cons_self, rfl, rfl, rfl, rfl⟩⟩
    · refine (h.ctx j d hd).foreign fun hr heq => ?_
      -- the new map is in the arena of the context `i`
      exact hj (h.owner j i d c hd hc heq.symm hr)
  · have hraws : ∀ j d, Function.update ctxs i (some (c.opened ptBase npages)) j = some d →
        ∃ d', ctxs j = some d' ∧ d'.arenaRaw = d.arenaRaw := by
      intro j d hd
      obtain ⟨rfl, hopen⟩ | ⟨-, hd⟩ := update_ctx hd
      · obtain rfl := Option.some.inj hopen
        exact ⟨c, hc, rfl⟩
      · exact ⟨d, hd, rfl⟩
    obtain ⟨d', hd', hdraw⟩ := hraws j d hd
    obtain ⟨e', he', heraw⟩ := hraws l e he
    exact h.owner j l d' e' hd' he' (by rw [hdraw, heraw]; exact heq) (by rw [hdraw]; exact hraw)
  · rcases List.mem_cons.mp hv with rfl | hv
    · exact .inr (.inr ⟨_, Function.update_self i _ _, rfl⟩)
    · dsimp only
      by_cases hvi : v.ctx = i
      · rw [hvi]
        exact (h.absent_own hc hact hv hvi).imp_right .inl
      · rw [Function.update_of_ne hvi]
        exact h.present v hv

/-- What a map that returns `NULL` has written is not present, unless one of its writes failed. -/
def NullClean (i : Nat) (k : AliasKernel) (r : Option Nat × AliasKernel) : Prop :=
  r.1 = none → r.2.failures i = k.failures i → ∀ v ∈ r.2.windows, v ∉ k.windows → v.Absent r.2.mem

theorem nullClean_of_subset {r : Option Nat × AliasKernel} (h : ∀ v ∈ r.2.windows, v ∈ k.windows) :
    NullClean i k r := fun _ _ v hv hnot => absurd (h v hv) hnot

/-- A release that did not fail has cleared the map. -/
theorem scanAliasRelease_absent {ok : Bool} (hact : c.mapActive = true) (htable : c.mapPtBase % 0x1000 = 0)
    (hn : c.mapNpages ≤ 512) (h : (scanAliasRelease i c k ok).2.failures i = k.failures i) {x : Nat}
    (hx : x < c.mapNpages) :
    ptePresent ((scanAliasRelease i c k ok).2.mem.entry c.mapPtBase x) = false := by
  rw [scanAliasRelease_active hact] at h ⊢
  obtain hfail | ⟨m, hcopy, hok⟩ :=
    k.write_cases i c.activeMap ok c.mapPtBase (List.replicate c.mapNpages 0)
  · rw [hfail] at h
    dsimp only at h
    rw [Function.update_self] at h
    exact absurd h (Nat.succ_ne_self _)
  · rw [hok]
    exact absent_of_zeros htable hn hcopy hx

/-- A step that writes no map; failures are only ever counted up. -/
structure WritesNoMap (i : Nat) (k k' : AliasKernel) : Prop where
  windows : ∀ v ∈ k'.windows, v ∈ k.windows
  failures : k.failures i ≤ k'.failures i

theorem WritesNoMap.refl (i : Nat) (k : AliasKernel) : WritesNoMap i k k := ⟨fun _ hv => hv, Nat.le_refl _⟩

theorem WritesNoMap.trans {k₁ k₂ k₃ : AliasKernel} (h : WritesNoMap i k₁ k₂) (h' : WritesNoMap i k₂ k₃) :
    WritesNoMap i k₁ k₃ :=
  ⟨fun v hv => h.windows v (h'.windows v hv), Nat.le_trans h.failures h'.failures⟩

theorem writesNoMap_release (i : Nat) (c : AliasCtx) (k : AliasKernel) (ok : Bool) :
    WritesNoMap i k (scanAliasRelease i c k ok).2 := by
  cases hact : c.mapActive with
  | false =>
    rw [scanAliasRelease_idle hact]
    exact .refl i k
  | true =>
    rw [scanAliasRelease_active hact]
    refine ⟨fun v hv => ?_, k.write_failures ..⟩
    rw [k.write_windows] at hv
    exact hv

theorem writesNoMap_reclaim (i : Nat) (c : AliasCtx) (k : AliasKernel) (env : AliasEnv) :
    WritesNoMap i k (saReclaimOrLeak i c k env).2 := by
  rw [saReclaimOrLeak]
  split
  · exact .refl i k
  · have hrel := writesNoMap_release i c k env.releaseOk
    dsimp only
    split
    · exact hrel.trans ⟨fun v hv => (List.mem_filter.mp hv).1, Nat.le_refl _⟩
    · exact hrel

theorem writesNoMap_alloc (i : Nat) (c : AliasCtx) (k : AliasKernel) (env : AliasEnv) :
    WritesNoMap i k (saArenaAlloc c k env).2.2 := by
  rw [saArenaAlloc]
  dsimp only
  split
  · exact .refl i k
  · exact ⟨fun _ hv => hv, Nat.le_refl _⟩

theorem writesNoMap_nextSpan (i : Nat) (c : AliasCtx) (k : AliasKernel) (env : AliasEnv) :
    WritesNoMap i k (saNextSpan i c k env).2.2 := by
  rw [saNextSpan]
  split
  · have h := (writesNoMap_reclaim i c k env).trans
      (writesNoMap_alloc i (saReclaimOrLeak i c k env).1 (saReclaimOrLeak i c k env).2 env)
    dsimp only
    split <;> exact h
  · exact .refl i k

/-- **The write of the entries**, and what comes after it. -/
theorem AliasInv.commit (h : AliasInv ⟨ctxs, k⟩) (hc : ctxs i = some c) (env : AliasEnv)
    {span ptBase npages : Nat} (off : Nat) (hspan : SpanOk c k span) (hact : c.mapActive = false)
    (htable : ptBase % 0x1000 = 0) (hpos : 0 < npages)
    (hfits : npages ≤ saMaxPages) (hnew : ∀ v ∈ k.windows, v.table ≠ ptBase) {pt : Nat → Nat} {f : AliasFill}
    (hpt : ∀ x < 512, pt x = k.mem.entry ptBase x) (hfill : Filled pt npages f) :
    let r := saCommit i c k env span off npages ptBase f
    AliasInv ⟨Function.update ctxs i (some r.2.1), r.2.2⟩ ∧ NullClean i k (r.1, r.2.2) := by
  have hsmall : npages ≤ 511 := hfits
  have habsent : ∀ x < npages, ptePresent (k.mem.entry ptBase x) = false := by
    intro x hx
    rw [← hpt x (by omega)]
    exact hfill.absent x hx
  have hlen : ((List.range npages).map f.pt).length = npages := by rw [List.length_map, List.length_range]
  have hwritten := h.writeFree (i := i) env.aliasOk ((List.range npages).map f.pt) htable (by omega) hnew
    (by rw [hlen]; exact habsent)
  dsimp only
  rw [saCommit, AliasCtx.activeMap_of_inactive hact]
  dsimp only
  obtain hfail | ⟨m, hcopy, hok⟩ := k.write_cases i none env.aliasOk ptBase ((List.range npages).map f.pt)
  · -- the table is as it was, and the zeros find nothing present in it
    rw [hfail] at hwritten ⊢
    dsimp only
    rw [if_pos (show (!false) = true from rfl)]
    dsimp only
    refine ⟨?_, nullClean_of_subset fun v hv => ?_⟩
    · rw [← hc, Function.update_eq_self]
      refine hwritten.writeFree env.zeroOk (List.replicate npages 0) htable ?_ hnew ?_
      · rw [List.length_replicate]
        omega
      · rw [List.length_replicate]
        exact habsent
    · rw [AliasKernel.write_windows] at hv
      exact hv
  · rw [hok] at hwritten ⊢
    dsimp only
    rw [if_neg (show ¬ (!true) = true from Bool.false_ne_true)]
    have hpresent : ∀ x < npages, ptePresent (m.entry ptBase x) = true := by
      intro x hx
      obtain ⟨hpx, hlt⟩ := hfill.present x hx
      rw [PhysMem.entry_copyin htable (by omega) hcopy htable (by omega), if_pos ⟨rfl, by omega⟩,
        List.getD_eq_getElem?_getD, List.getElem?_map, List.getElem?_range hx, Option.map_some,
        Option.getD_some, u64_of_lt hlt]
      exact hpx
    have hspan' : SpanOk c { k with mem := m, writes := ⟨none, k.mem, m⟩ :: k.writes } span :=
      ⟨hspan.raw, hspan.inside, hspan.aligned, hspan.below, hspan.fresh⟩
    have hopen := hwritten.opened hc hspan' htable hpos hfits hnew hpresent hact
    split
    · have hrel := hopen.release (Function.update_self i _ _) env.undoOk
      rw [Function.update_idem] at hrel
      refine ⟨hrel, fun _ hfailures v hv hnot x hx => ?_⟩
      rcases List.mem_cons.mp ((writesNoMap_release ..).windows v hv) with rfl | hv
      · exact scanAliasRelease_absent rfl htable (Nat.le_succ_of_le hfits) hfailures hx
      · exact absurd hv hnot
    · exact ⟨hopen, fun hnull => by cases hnull⟩

theorem saCommit_failures (i : Nat) (c : AliasCtx) (k : AliasKernel) (env : AliasEnv)
    (span off npages ptBase : Nat) (f : AliasFill) :
    k.failures i ≤ (saCommit i c k env span off npages ptBase f).2.2.failures i := by
  have hwrite := k.write_failures i c.activeMap env.aliasOk ptBase ((List.range npages).map f.pt)
  rw [saCommit]
  generalize k.write i c.activeMap env.aliasOk ptBase ((List.range npages).map f.pt) = w at hwrite ⊢
  dsimp only
  split
  · exact Nat.le_trans hwrite (AliasKernel.write_failures ..)
  · split
    · exact Nat.le_trans hwrite (writesNoMap_release i (c.opened ptBase npages)
        { w.2 with windows := ⟨i, c.arenaRaw, span, ptBase, npages⟩ :: w.2.windows } env.undoOk).failures
    · exact hwrite

/-! ## Maps -/

theorem CtxOk.target (h : CtxOk i c k) (pid : Nat) (sc : SpanCache) :
    CtxOk i { c with pid := pid, sc := sc } k := by
  refine ⟨h.idle, fun hr => ?_, h.active⟩
  have ha := h.arena hr
  exact ⟨ha.mapped, ha.size, ha.low, ha.high, ha.aligned, ha.spans, ha.used⟩

theorem AliasInv.target (h : AliasInv ⟨ctxs, k⟩) (hc : ctxs i = some c) (pid : Nat) (sc : SpanCache) :
    AliasInv ⟨Function.update ctxs i (some { c with pid := pid, sc := sc }), k⟩ :=
  h.put_same hc ((h.ctx i c hc).target pid sc) rfl rfl

/-- Two spans do not share a leaf table. -/
def LeafTables (k : AliasKernel) (m : PhysMem) (pm : Pmaps) (selfPid span : Nat) : Prop :=
  ∀ r, procPtwalkLeafAddr m pm selfPid span = .ok r → ∀ v ∈ k.windows, v.table = r.1 → v.span = span

/-- **A map of a touched span.** -/
theorem AliasInv.mapSpan (h : AliasInv ⟨ctxs, k⟩) (hc : ctxs i = some c) (env : AliasEnv)
    (span off npages tgtPg : Nat) (hspan : SpanOk c k span) (hact : c.mapActive = false) (hpos : 0 < npages)
    (hfits : npages ≤ saMaxPages) (hleaf : LeafTables k k.mem env.pmaps c.selfPid span) :
    let r := saMapSpan i c k env span off npages tgtPg
    AliasInv ⟨Function.update ctxs i (some r.2.1), r.2.2⟩ ∧ NullClean i k (r.1, r.2.2) ∧
      k.failures i ≤ r.2.2.failures i := by
  have hnothing : ∀ sc, AliasInv ⟨Function.update ctxs i (some { c with sc := sc }), k⟩ ∧
      NullClean i k (none, k) ∧ k.failures i ≤ k.failures i := fun sc =>
    ⟨h.target hc c.pid sc, nullClean_of_subset fun _ hv => hv, Nat.le_refl _⟩
  dsimp only
  rw [saMapSpan]
  split
  · exact hnothing c.sc
  split
  · exact hnothing c.sc
  next ptBase ptVal ptLv hwalk =>
  split
  · exact hnothing c.sc
  split
  · exact hnothing c.sc
  split
  · exact hnothing c.sc
  have htable : ptBase % 0x1000 = 0 := procPtwalkLeafAddr_span hspan.aligned hwalk
  have hnew : ∀ v ∈ k.windows, v.table ≠ ptBase := fun v hv heq =>
    h.span_new hc hspan hv (hleaf _ hwalk v hv heq)
  obtain hno | ⟨pt, hpt, hentries⟩ := k.mem.copyTable_aligned htable
  · rw [hno]
    exact hnothing c.sc
  rw [hpt, Option.elim_some]
  dsimp only
  cases hloop : (saFillLoop k.mem env c.pid span tgtPg npages npages 0 c.sc ⟨pt, []⟩).2 with
  | none => exact hnothing _
  | some f =>
    rw [Option.elim_some]
    split
    · exact hnothing _
    have hspan' : SpanOk { c with sc := (saFillLoop k.mem env c.pid span tgtPg npages npages 0 c.sc ⟨pt, []⟩).1 }
        k span := ⟨hspan.raw, hspan.inside, hspan.aligned, hspan.below, hspan.fresh⟩
    obtain ⟨hinv, hnull⟩ := (hnothing _).1.commit (Function.update_self i _ _) env off hspan' hact htable hpos
      hfits hnew hentries (saFillLoop_all hloop)
    rw [Function.update_idem] at hinv
    exact ⟨hinv, hnull, saCommit_failures ..⟩

/-- What the operating system promises for a map: the arena that it may map is fresh; touching the
span leaves the maps as they are, and gives the span a leaf table of its own. -/
structure OkMap (i : Nat) (c : AliasCtx) (k : AliasKernel) (env : AliasEnv) : Prop where
  fresh : FreshArena (saReclaimOrLeak i c k env).1.arenaCap (saReclaimOrLeak i c k env).2 env
  touch : ∀ span, (saNextSpan i c k env).1 = some span →
    (∀ v ∈ (saNextSpan i c k env).2.2.windows, v.SamePresence (saNextSpan i c k env).2.2.mem env.touched) ∧
    LeafTables (saNextSpan i c k env).2.2 env.touched env.pmaps (saNextSpan i c k env).2.1.selfPid span

/-- **A map** keeps the invariant, and one that returns `NULL` leaves nothing behind. -/
theorem AliasInv.map (h : AliasInv ⟨ctxs, k⟩) (hc : ctxs i = some c) {env : AliasEnv} (tgt len : Nat)
    (hok : OkMap i (scanAliasRelease i c k env.releaseOk).1 (scanAliasRelease i c k env.releaseOk).2 env) :
    let r := scanAliasMap i c k env tgt len
    AliasInv ⟨Function.update ctxs i (some r.2.1), r.2.2⟩ ∧ NullClean i k (r.1, r.2.2) := by
  have hrel := h.release hc env.releaseOk
  have hact := scanAliasRelease_inactive i c k env.releaseOk
  have hquiet := writesNoMap_release i c k env.releaseOk
  dsimp only
  rw [scanAliasMap]
  split
  · refine ⟨?_, nullClean_of_subset fun _ hv => hv⟩
    dsimp only
    rw [← hc, Function.update_eq_self]
    exact h
  dsimp only
  split
  · exact ⟨hrel, nullClean_of_subset hquiet.windows⟩
  next hpages =>
  rw [not_or] at hpages
  obtain ⟨hinv, hact', hspan⟩ := hrel.nextSpan (Function.update_self i _ _) hact hok.fresh
  have htouch := hok.touch
  have hmid := hquiet.trans (writesNoMap_nextSpan i (scanAliasRelease i c k env.releaseOk).1
    (scanAliasRelease i c k env.releaseOk).2 env)
  rw [Function.update_idem] at hinv
  generalize saNextSpan i (scanAliasRelease i c k env.releaseOk).1 (scanAliasRelease i c k env.releaseOk).2 env = q
    at hinv hact' hspan htouch hmid ⊢
  cases hq : q.1 with
  | none => exact ⟨hinv, nullClean_of_subset hmid.windows⟩
  | some span =>
    rw [Option.elim_some]
    obtain ⟨hsame, hleaf⟩ := htouch span hq
    have hsp := hspan span hq
    have htouched := hinv.memory (fun v hv => .inr (hsame v hv)) hinv.writes
    obtain ⟨hinv', hnull, hfails⟩ := htouched.mapSpan (Function.update_self i _ _) env span (tgt &&& 0xFFF)
      (aliasPages tgt len) (andNot tgt 0xFFF)
      ⟨hsp.raw, hsp.inside, hsp.aligned, hsp.below, hsp.fresh⟩ hact' (Nat.pos_of_ne_zero hpages.1)
      (Nat.le_of_not_lt hpages.2) hleaf
    rw [Function.update_idem] at hinv'
    refine ⟨hinv', fun hnone hsamefail v hv hnot => ?_⟩
    have hle := hmid.failures
    dsimp only at hsamefail hfails
    exact hnull hnone (by dsimp only; omega) v hv fun hin => hnot (hmid.windows v hin)

/-! ## Runs -/

theorem saArenaAlloc_failed {env : AliasEnv} (h : ¬ (saArenaAlloc c k env).1 = true) :
    (saArenaAlloc c k env).2.2 = k := by
  rw [saArenaAlloc] at h ⊢
  dsimp only at h ⊢
  split at h
  · next hno => rw [if_pos hno]
  · exact absurd rfl h

/-- A context that is made has a fresh arena; one that could not be made leaves nothing. -/
theorem AliasInv.begins (h : AliasInv ⟨ctxs, k⟩) (hc : ctxs i = none) {env : AliasEnv} (pid arenaCap : Nat)
    (hfresh : FreshArena (AliasCtx.blank pid env.selfPid arenaCap).arenaCap k env) :
    AliasInv ⟨Function.update ctxs i (scanAliasBegin k env pid arenaCap).1,
      (scanAliasBegin k env pid arenaCap).2⟩ := by
  have hnone : AliasInv ⟨Function.update ctxs i none, k⟩ := by
    rw [← hc, Function.update_eq_self]
    exact h
  rw [scanAliasBegin]
  split
  · exact hnone
  split
  · exact hnone
  have hput : AliasInv ⟨Function.update ctxs i (some (.blank pid env.selfPid arenaCap)), k⟩ := by
    refine h.put (fun d hd => ?_) (fun d hd hne => ?_) fun v hv hvi => ?_
    · obtain rfl := Option.some.inj hd
      exact ⟨fun _ => ⟨rfl, rfl⟩, fun hne => absurd rfl hne, fun hact => by cases hact⟩
    · obtain rfl := Option.some.inj hd
      exact absurd rfl hne
    · subst hvi
      refine (h.present v hv).imp_right (Or.imp_right ?_)
      rintro ⟨d, hd, -⟩
      cases hc.symm.trans hd
  obtain ⟨hinv, -, -⟩ := hput.alloc (Function.update_self i _ _) rfl hfresh
  rw [Function.update_idem] at hinv
  dsimp only
  split
  · exact hinv
  · next hfailed =>
    rw [saArenaAlloc_failed hfailed]
    exact hnone

theorem AliasInv.ends (h : AliasInv ⟨ctxs, k⟩) (hc : ctxs i = some c) (env : AliasEnv) :
    AliasInv ⟨Function.update ctxs i none, scanAliasEnd i c k env⟩ := by
  have hrel := h.release hc env.releaseOk
  obtain ⟨hgone, -, hact⟩ := hrel.reclaim (Function.update_self i _ _)
    (scanAliasRelease_inactive i c k env.releaseOk) env
  rw [Function.update_idem] at hgone
  have hend := hgone.put (i := i) (o := none) (fun d hd => by cases hd) (fun d hd => by cases hd)
    fun v hv hvi => (hgone.absent_own (Function.update_self i _ _) hact hv hvi).imp_right .inl
  rw [Function.update_idem] at hend
  exact hend

/-- What callers and the operating system promise: arenas have sizes of 64 bits and are mapped where
none is; the entries of the maps stay present or not present between the calls. -/
structure OkAlias (w : AliasWorld) (op : Nat × AliasEnv × AliasCall) : Prop where
  os : ∀ v ∈ w.kern.windows, v.SamePresence w.kern.mem op.2.1.mem
  begins : ∀ pid arenaCap, op.2.2 = .begins pid arenaCap → arenaCap + saSpan < 2 ^ 64 ∧
    FreshArena (AliasCtx.blank pid op.2.1.selfPid arenaCap).arenaCap w.kern op.2.1
  map : ∀ tgt len c, op.2.2 = .map tgt len → w.ctxs op.1 = some c →
    OkMap op.1 (scanAliasRelease op.1 c { w.kern with mem := op.2.1.mem } op.2.1.releaseOk).1
      (scanAliasRelease op.1 c { w.kern with mem := op.2.1.mem } op.2.1.releaseOk).2 op.2.1

/-- A map that returns `NULL` leaves none of its entries present, unless one of its writes failed. -/
def NullMapClean (w : AliasWorld) (op : Nat × AliasEnv × AliasCall) : Prop :=
  ∀ tgt len, op.2.2 = .map tgt len →
    NullClean op.1 w.kern ((aliasCall w op.1 op.2.1 op.2.2).1, (aliasStep w op).kern)

/-- **One call.** -/
theorem AliasInv.step {w : AliasWorld} {op : Nat × AliasEnv × AliasCall} (h : AliasInv w) (hok : OkAlias w op) :
    AliasInv (aliasStep w op) ∧ NullMapClean w op := by
  obtain ⟨i, env, call⟩ := op
  have hos : AliasInv ⟨w.ctxs, { w.kern with mem := env.mem }⟩ :=
    h.memory (fun v hv => .inr (hok.os v hv)) h.writes
  unfold NullMapClean aliasStep aliasCall
  dsimp only
  cases hc : w.ctxs i with
  | none =>
    have hnone : AliasInv ⟨Function.update w.ctxs i none, { w.kern with mem := env.mem }⟩ := by
      rw [← hc, Function.update_eq_self]
      exact hos
    cases call with
    | begins pid arenaCap =>
      exact ⟨hos.begins hc pid arenaCap (hok.begins pid arenaCap rfl).2, fun tgt len hcall => by cases hcall⟩
    | map tgt len => exact ⟨hnone, fun _ _ _ => nullClean_of_subset fun _ hv => hv⟩
    | release => exact ⟨hnone, fun tgt len hcall => by cases hcall⟩
    | rebind pid => exact ⟨hnone, fun tgt len hcall => by cases hcall⟩
    | ends => exact ⟨hnone, fun tgt len hcall => by cases hcall⟩
  | some c =>
    cases call with
    | begins pid arenaCap =>
      refine ⟨?_, fun tgt len hcall => by cases hcall⟩
      dsimp only [AliasWorld.put]
      rw [← hc, Function.update_eq_self]
      exact hos
    | map tgt len =>
      obtain ⟨hinv, hnull⟩ := hos.map hc tgt len (hok.map tgt len c rfl hc)
      exact ⟨hinv, fun _ _ _ => hnull⟩
    | release => exact ⟨hos.release hc env.releaseOk, fun tgt len hcall => by cases hcall⟩
    | rebind pid =>
      have hrel := (hos.release hc env.releaseOk).target (Function.update_self i _ _) pid
        { (scanAliasRelease i c { w.kern with mem := env.mem } env.releaseOk).1.sc with valid := false }
      rw [Function.update_idem] at hrel
      exact ⟨hrel, fun tgt len hcall => by cases hcall⟩
    | ends => exact ⟨hos.ends hc env, fun tgt len hcall => by cases hcall⟩

/-- The alias engine leaves no mapping behind and overwrites none. -/
structure AliasSafe (w : AliasWorld) : Prop where
  /-- no write changed a present entry, but to clear the active map of its context -/
  overwrites : ∀ wr ∈ w.kern.writes, wr.NoOverwrite
  /-- the active map of a context is one that it has written -/
  active : ∀ i c, w.ctxs i = some c → c.mapActive = true →
    ∃ v ∈ w.kern.windows, v.ctx = i ∧ v.table = c.mapPtBase ∧ v.npages = c.mapNpages
  /-- without an active map and without a failed write, nothing that a context has written is present -/
  released : ∀ v ∈ w.kern.windows, w.kern.failures v.ctx = 0 →
    (∀ c, w.ctxs v.ctx = some c → c.mapActive = false) → v.Absent w.kern.mem
  /-- an arena was unmapped only if nothing that was written in it was present -/
  unmapped : ∀ u ∈ w.kern.unmaps, u.Clean

theorem AliasInv.safe {w : AliasWorld} (h : AliasInv w) : AliasSafe w := by
  refine ⟨h.writes, fun i c hc hact => ?_, fun v hv hfail hact => ?_, h.unmaps⟩
  · obtain ⟨v, hv, hvi, -, htable, hn⟩ := (h.ctx i c hc).active hact
    exact ⟨v, hv, hvi, htable, hn⟩
  · obtain habs | hfailed | ⟨c, hc, hmap⟩ := h.present v hv
    · exact habs
    · exact absurd hfail hfailed
    · rw [AliasCtx.activeMap_of_inactive (hact c hc)] at hmap
      cases hmap

/-- **The alias engine never leaves or overwrites a mapping**, in any run of calls on any contexts. -/
theorem alias_engine_safe {m : PhysMem} {ops : List (Nat × AliasEnv × AliasCall)}
    (hok : Along aliasStep OkAlias (.start m) ops) :
    AliasSafe (ops.foldl aliasStep (.start m)) ∧ Along aliasStep NullMapClean (.start m) ops :=
  ⟨(Along.keeps AliasInv (fun _ _ h hop => (h.step hop).1) ops (.start m) hok).safe,
    Along.of_invariant AliasInv (fun _ _ h hop => h.step hop) ops (.start m) hok⟩

/-- Tables for a span whose last page is touched, and for a page of the target at `0x5000`. -/
def spanMem : PhysMem where
  byte a :=
    if a = 0x1000 ∨ a = 0x2000 ∨ a = 0x3000 ∨ a = 0x3008 ∨ a = 0x4028 ∨ a = 0x5FF8 then 0x07
    else if a = 0x1001 then 0x20
    else if a = 0x2001 then 0x30
    else if a = 0x3001 then 0x40
    else if a = 0x3009 then 0x50
    else if a = 0x4029 then 0x90
    else if a = 0x5FF9 then 0xA0
    else 0
  reachable _ := true

/-- Every call goes well. -/
def smoothEnv (m : PhysMem) (raw : Nat) : AliasEnv where
  mem := m
  touched := m
  pmaps := ⟨0x100000, fun _ => some (0x101000, 0x1000)⟩
  selfPid := 1
  mallocOk := true
  raw := raw
  releaseOk := true
  aliasOk := true
  zeroOk := true
  undoOk := true
  walkOk := true
  tableOk := true
  spanOk _ := true
  checkOk _ := true
  same _ _ := true

theorem smoothEnv_mem (m : PhysMem) (raw : Nat) : (smoothEnv m raw).mem = m := rfl

/-- A context with an arena. -/
def oneArena : AliasWorld := aliasStep (.start spanMem) (0, smoothEnv spanMem 0x200000, .begins 5 0)

/-- The context has a map. -/
def oneMap : AliasWorld := aliasStep oneArena (0, smoothEnv spanMem 0, .map 0x5000 8)

/-- A context is begun, maps a page, and is ended with the map still active. -/
theorem alias_engine_safe_one :
    (aliasCall oneArena 0 (smoothEnv spanMem 0) (.map 0x5000 8)).1 = some 0x200000 ∧
      oneMap.kern.windows = [⟨0, 0x200000, 0x200000, 0x5000, 1⟩] ∧
      Along aliasStep OkAlias (.start spanMem) [(0, smoothEnv spanMem 0x200000, .begins 5 0),
        (0, smoothEnv spanMem 0, .map 0x5000 8), (0, smoothEnv oneMap.kern.mem 0, .ends)] ∧
      AliasSafe (aliasStep oneMap (0, smoothEnv oneMap.kern.mem 0, .ends)) := by
  have hbegin : OkAlias (.start spanMem) (0, smoothEnv spanMem 0x200000, .begins 5 0) := by
    refine ⟨?_, ?_, ?_⟩
    · intro v hv
      cases hv
    · intro pid arenaCap hcall
      obtain ⟨rfl, rfl⟩ := AliasCall.begins.inj hcall
      exact ⟨by decide, .inr (.inr ⟨by decide, fun a ha => by cases ha⟩)⟩
    · intro tgt len c hcall
      cases hcall
  have hmap : OkAlias oneArena (0, smoothEnv spanMem 0, .map 0x5000 8) := by
    refine ⟨?_, ?_, ?_⟩
    · intro v hv
      cases hv
    · intro pid arenaCap hcall
      cases hcall
    · intro tgt len c _ hc
      obtain rfl := Option.some.inj hc
      refine ⟨.inr (.inl rfl), fun span _ => ⟨?_, ?_⟩⟩
      · intro v hv
        cases hv
      · intro r _ v hv
        cases hv
  have hend : OkAlias oneMap (0, smoothEnv oneMap.kern.mem 0, .ends) := by
    refine ⟨?_, ?_, ?_⟩
    · intro v _
      dsimp only
      rw [smoothEnv_mem]
      exact v.samePresence_refl _
    · intro pid arenaCap hcall
      cases hcall
    · intro tgt len c hcall
      cases hcall
  have hok : Along aliasStep OkAlias (.start spanMem) [(0, smoothEnv spanMem 0x200000, .begins 5 0),
      (0, smoothEnv spanMem 0, .map 0x5000 8), (0, smoothEnv oneMap.kern.mem 0, .ends)] :=
    ⟨hbegin, hmap, hend, trivial⟩
  exact ⟨by decide +kernel, by decide +kernel, hok, (alias_engine_safe hok).1⟩

end Ps5Debugger
