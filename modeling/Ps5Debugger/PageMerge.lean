import Ps5Debugger.PageLeaves

/-!
# Augmenting the map list

`ptw_merge` merges the kernel's map entries with the runs of the page table by start address. Where
an entry and a run start together it keeps the entry and drops the run, whatever their ends are
(`mem_ptwMergeLoop`), so the memory of a run that goes on behind the entry is lost unless other
entries cover it.
-/

namespace Ps5Debugger

open Lib

/-! ## The model -/

/-- The loops of `ptw_merge`. -/
def ptwMergeLoop : List VmMapEntry → List VmMapEntry → List VmMapEntry
  | v :: vs, e :: es =>
    if v.start = e.start then v :: ptwMergeLoop vs es
    else if v.start < e.start then v :: ptwMergeLoop vs (e :: es)
    else e :: ptwMergeLoop (v :: vs) es
  | vs, [] => vs
  | [], es => es

/-- `ptw_merge(v, v_count, e, e_count, &out, &out_count)`; `none` is the error return. -/
def ptwMerge (v e : List VmMapEntry) (allocOk : Bool) : Option (List VmMapEntry) :=
  if v.length + e.length = 0 then none
  else if !allocOk then none
  else some (ptwMergeLoop v e)

/-- `proc_ptwalk_augment(pid, v, v_count, ...)`, with what the allocations of the enumeration and of
the merge give. -/
def procPtwalkAugment (mem : KernelMem) (pm : Pmaps) (pid : Nat) (v : List VmMapEntry)
    (allocs : Option PtwTables) (mergeOk : Bool) : Option (List VmMapEntry) :=
  if v.length = 0 then none
  else
    match pm.cr3 pid with
    | none => none
    | some cr3 =>
      match ptwEnumerate mem allocs cr3 with
      | none => none
      | some e => ptwMerge v e mergeOk

/-! ## What the merge keeps -/

/-- Ascending by start, and disjoint. -/
def Tidy (l : List VmMapEntry) : Prop := l.Pairwise fun a b => a.start < b.start ∧ a.stop ≤ b.start

/-- Some entry covers the address. -/
def CoversAddr (l : List VmMapEntry) (x : Nat) : Prop := ∃ e ∈ l, e.start ≤ x ∧ x < e.stop

variable {v e : List VmMapEntry}

theorem length_ptwMergeLoop : (ptwMergeLoop v e).length ≤ v.length + e.length := by
  fun_induction ptwMergeLoop v e with
  | case1 v vs e es h ih => simp only [List.length_cons]; omega
  | case2 v vs e es h hlt ih => simp only [List.length_cons] at ih ⊢; omega
  | case3 v vs e es h hge ih => simp only [List.length_cons] at ih ⊢; omega
  | case4 vs => simp
  | case5 es h => simp

theorem Tidy.head_le {a b : VmMapEntry} {l : List VmMapEntry} (h : Tidy (a :: l)) (hb : b ∈ a :: l) :
    a.start ≤ b.start := by
  rcases List.mem_cons.mp hb with rfl | hb
  · exact le_refl _
  · exact ((List.pairwise_cons.mp h).1 b hb).1.le

/-- **The merge** keeps every map entry, and the runs that do not start where one starts. -/
theorem mem_ptwMergeLoop (hv : Tidy v) (he : Tidy e) {a : VmMapEntry} :
    a ∈ ptwMergeLoop v e ↔ a ∈ v ∨ a ∈ e ∧ ∀ b ∈ v, b.start ≠ a.start := by
  fun_induction ptwMergeLoop v e with
  | case1 v vs e es h ih =>
    obtain ⟨hfirst, hvs⟩ := List.pairwise_cons.mp hv
    obtain ⟨hnext, hes⟩ := List.pairwise_cons.mp he
    rw [List.mem_cons, ih hvs hes]
    constructor
    · rintro (rfl | ha | ⟨ha, hne⟩)
      · exact .inl List.mem_cons_self
      · exact .inl (List.mem_cons_of_mem v ha)
      · refine .inr ⟨List.mem_cons_of_mem e ha, fun b hb => ?_⟩
        rcases List.mem_cons.mp hb with rfl | hb
        · have := (hnext a ha).1
          omega
        · exact hne b hb
    · rintro (ha | ⟨ha, hne⟩)
      · rcases List.mem_cons.mp ha with rfl | ha
        · exact .inl rfl
        · exact .inr (.inl ha)
      · rcases List.mem_cons.mp ha with rfl | ha
        · exact absurd h (hne v List.mem_cons_self)
        · exact .inr (.inr ⟨ha, fun b hb => hne b (List.mem_cons_of_mem v hb)⟩)
  | case2 v vs e es h hlt ih =>
    obtain ⟨hfirst, hvs⟩ := List.pairwise_cons.mp hv
    rw [List.mem_cons, ih hvs he]
    constructor
    · rintro (rfl | ha | ⟨ha, hne⟩)
      · exact .inl List.mem_cons_self
      · exact .inl (List.mem_cons_of_mem v ha)
      · refine .inr ⟨ha, fun b hb => ?_⟩
        rcases List.mem_cons.mp hb with rfl | hb
        · have := Tidy.head_le he ha
          omega
        · exact hne b hb
    · rintro (ha | ⟨ha, hne⟩)
      · rcases List.mem_cons.mp ha with rfl | ha
        · exact .inl rfl
        · exact .inr (.inl ha)
      · exact .inr (.inr ⟨ha, fun b hb => hne b (List.mem_cons_of_mem v hb)⟩)
  | case3 v vs e es h hge ih =>
    obtain ⟨hnext, hes⟩ := List.pairwise_cons.mp he
    rw [List.mem_cons, ih hv hes]
    constructor
    · rintro (rfl | ha | ⟨ha, hne⟩)
      · refine .inr ⟨List.mem_cons_self, fun b hb => ?_⟩
        have := Tidy.head_le hv hb
        omega
      · exact .inl ha
      · exact .inr ⟨List.mem_cons_of_mem e ha, hne⟩
    · rintro (ha | ⟨ha, hne⟩)
      · exact .inr (.inl ha)
      · rcases List.mem_cons.mp ha with rfl | ha
        · exact .inl rfl
        · exact .inr (.inr ⟨ha, hne⟩)
  | case4 vs => simp
  | case5 es h => simp

/-- The starts of the result ascend. -/
theorem ascending_ptwMergeLoop (hv : Tidy v) (he : Tidy e) :
    (ptwMergeLoop v e).Pairwise fun a b => a.start < b.start := by
  fun_induction ptwMergeLoop v e with
  | case1 v vs e es h ih =>
    obtain ⟨hfirst, hvs⟩ := List.pairwise_cons.mp hv
    obtain ⟨hnext, hes⟩ := List.pairwise_cons.mp he
    refine List.pairwise_cons.mpr ⟨fun a ha => ?_, ih hvs hes⟩
    rcases (mem_ptwMergeLoop hvs hes).mp ha with ha | ⟨ha, -⟩
    · exact (hfirst a ha).1
    · rw [h]
      exact (hnext a ha).1
  | case2 v vs e es h hlt ih =>
    obtain ⟨hfirst, hvs⟩ := List.pairwise_cons.mp hv
    refine List.pairwise_cons.mpr ⟨fun a ha => ?_, ih hvs he⟩
    rcases (mem_ptwMergeLoop hvs he).mp ha with ha | ⟨ha, -⟩
    · exact (hfirst a ha).1
    · exact lt_of_lt_of_le hlt (Tidy.head_le he ha)
  | case3 v vs e es h hge ih =>
    obtain ⟨hnext, hes⟩ := List.pairwise_cons.mp he
    refine List.pairwise_cons.mpr ⟨fun a ha => ?_, ih hv hes⟩
    rcases (mem_ptwMergeLoop hv hes).mp ha with ha | ⟨ha, -⟩
    · exact lt_of_lt_of_le (by omega) (Tidy.head_le hv ha)
    · exact (hnext a ha).1
  | case4 vs => exact hv.imp fun h => h.1
  | case5 es h => exact he.imp fun h => h.1

/-! ## What the merge loses -/

/-- An address lies in one entry of a tidy list at most. -/
theorem Tidy.start_unique {l : List VmMapEntry} (h : Tidy l) {a b : VmMapEntry} {x : Nat} (ha : a ∈ l)
    (hb : b ∈ l) (hxa : a.start ≤ x ∧ x < a.stop) (hxb : b.start ≤ x ∧ x < b.stop) :
    a.start = b.start := by
  have hbefore : (l.map VmMapEntry.run).Pairwise Run.Before := List.pairwise_map.mpr (h.imp fun hab => hab.2)
  have heq := unique_of_before hbefore (List.mem_map_of_mem ha) (List.mem_map_of_mem hb) hxa hxb
  exact congrArg Run.lo heq

/-- What a run has behind the map entry that starts with it lies in map entries. -/
def TailsCovered (v e : List VmMapEntry) : Prop :=
  ∀ a ∈ v, ∀ b ∈ e, a.start = b.start → ∀ x, b.start ≤ x → a.stop ≤ x → x < b.stop → CoversAddr v x

/-- The augmented list loses no memory. -/
def LosesNothing (v e out : List VmMapEntry) : Prop :=
  (out.Pairwise fun a b => a.start < b.start) ∧ (∀ a ∈ v, a ∈ out) ∧
    (∀ x, CoversAddr v x ∨ CoversAddr e x → CoversAddr out x) ∧ out.length ≤ v.length + e.length

theorem covers_ptwMergeLoop (hv : Tidy v) (he : Tidy e) :
    (∀ x, CoversAddr v x ∨ CoversAddr e x → CoversAddr (ptwMergeLoop v e) x) ↔ TailsCovered v e := by
  constructor
  · rintro h a ha b hb hstart x hlo hstop hhi
    obtain ⟨c, hc, hx⟩ := h x (.inr ⟨b, hb, hlo, hhi⟩)
    rcases (mem_ptwMergeLoop hv he).mp hc with hc | ⟨hc, hne⟩
    · exact ⟨c, hc, hx⟩
    · -- a run that was kept would be the dropped one
      have := he.start_unique hc hb hx ⟨hlo, hhi⟩
      exact absurd (hstart.trans this.symm) (hne a ha)
  · intro h x hx
    have hkeep : CoversAddr v x → CoversAddr (ptwMergeLoop v e) x := by
      rintro ⟨a, ha, hxa⟩
      exact ⟨a, (mem_ptwMergeLoop hv he).mpr (.inl ha), hxa⟩
    rcases hx with hx | ⟨b, hb, hlo, hhi⟩
    · exact hkeep hx
    by_cases hdrop : ∃ a ∈ v, a.start = b.start
    · obtain ⟨a, ha, hstart⟩ := hdrop
      rcases Nat.lt_or_ge x a.stop with hlt | hge
      · exact hkeep ⟨a, ha, by omega, hlt⟩
      · exact hkeep (h a ha b hb hstart x hlo hge hhi)
    · refine ⟨b, (mem_ptwMergeLoop hv he).mpr (.inr ⟨hb, fun a ha heq => ?_⟩), hlo, hhi⟩
      exact hdrop ⟨a, ha, heq⟩

theorem losesNothing_ptwMergeLoop (hv : Tidy v) (he : Tidy e) :
    LosesNothing v e (ptwMergeLoop v e) ↔ TailsCovered v e := by
  rw [← covers_ptwMergeLoop hv he]
  constructor
  · rintro ⟨-, -, hcover, -⟩
    exact hcover
  · intro hcover
    exact ⟨ascending_ptwMergeLoop hv he, fun a ha => (mem_ptwMergeLoop hv he).mpr (.inl ha), hcover,
      length_ptwMergeLoop⟩

theorem ptwMerge_eq {out : List VmMapEntry} (h : ptwMerge v e true = some out) : out = ptwMergeLoop v e := by
  rw [ptwMerge] at h
  split at h
  · cases h
  · exact (Option.some.inj h).symm

/-- What the enumeration feeds to the merge is tidy. -/
theorem tidy_ptwEnumerate {mem : KernelMem} {allocs : Option PtwTables} {cr3 : Nat} {ents : List VmMapEntry}
    (hread : TablesRead mem 4 256 (cr3 &&& ptwPhysMask)) (h : ptwEnumerate mem allocs cr3 = some ents)
    (hroom : ents.length < ptwMaxEntries) : Tidy ents := by
  obtain ⟨hasc, -, -⟩ := coalesce_spec (protRuns_ascending (m := mem.toPhysMem) cr3)
  rw [← runs_ptwEnumerate hread h hroom] at hasc
  refine (List.pairwise_map.mp hasc.before).imp_of_mem ?_
  intro a b ha _ hab
  exact ⟨lt_of_lt_of_le (hasc.proper a.run (List.mem_map_of_mem ha)) hab, hab⟩

/-- **What augmenting the map list can lose.** For tidy lists, the merge loses nothing exactly when
no run goes on behind the map entry it starts with, except over memory of other map entries. -/
theorem ptwMerge_loses_nothing_iff {out : List VmMapEntry} (hv : Tidy v) (he : Tidy e)
    (h : ptwMerge v e true = some out) : LosesNothing v e out ↔ TailsCovered v e := by
  rw [ptwMerge_eq h]
  exact losesNothing_ptwMergeLoop hv he

/-- The same of the whole command, whose runs come from the page table. -/
theorem procPtwalkAugment_loses_nothing_iff {mem : KernelMem} {pm : Pmaps} {pid cr3 : Nat}
    {allocs : Option PtwTables} {out : List VmMapEntry} (hv : Tidy v) (hcr3 : pm.cr3 pid = some cr3)
    (hread : TablesRead mem 4 256 (cr3 &&& ptwPhysMask))
    (he : ptwEnumerate mem allocs cr3 = some e) (hroom : e.length < ptwMaxEntries)
    (h : procPtwalkAugment mem pm pid v allocs true = some out) : LosesNothing v e out ↔ TailsCovered v e := by
  have hmerge : ptwMerge v e true = some out := by
    rw [procPtwalkAugment] at h
    split at h
    · cases h
    · rw [hcr3] at h
      dsimp only at h
      rwa [he] at h
  rw [ptwMerge_eq hmerge]
  exact losesNothing_ptwMergeLoop hv (tidy_ptwEnumerate hread he hroom)

/-- One map entry, and a run over the same page and the next one. -/
def mappedPage : VmMapEntry := ⟨"eboot", 0x1000, 0x2000, 0, 5⟩

def longerRun : VmMapEntry := ⟨"(aux)", 0x1000, 0x3000, 0, 5⟩

theorem ptwMerge_pages : ptwMerge [mappedPage] [longerRun] true = some [mappedPage] := by
  simp [ptwMerge, ptwMergeLoop, mappedPage, longerRun]

theorem ptwMerge_loses_nothing_iff_pages :
    ptwMerge [mappedPage] [longerRun] true = some [mappedPage] ∧
      (LosesNothing [mappedPage] [longerRun] [mappedPage] ↔ TailsCovered [mappedPage] [longerRun]) :=
  ⟨ptwMerge_pages, ptwMerge_loses_nothing_iff (List.pairwise_singleton _ _) (List.pairwise_singleton _ _)
    ptwMerge_pages⟩

/-- The second page of the run is covered by the run and not by the result. -/
theorem ptwMerge_loses_page :
    ptwMerge [mappedPage] [longerRun] true = some [mappedPage] ∧ Tidy [mappedPage] ∧ Tidy [longerRun] ∧
      CoversAddr [longerRun] 0x2000 ∧ ¬ CoversAddr [mappedPage] 0x2000 := by
  refine ⟨ptwMerge_pages, List.pairwise_singleton _ _, List.pairwise_singleton _ _, ⟨longerRun, by simp, by decide⟩, ?_⟩
  rintro ⟨a, ha, hx⟩
  obtain rfl := List.mem_singleton.mp ha
  revert hx
  decide

end Ps5Debugger
