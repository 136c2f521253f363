import Ps5Debugger.CfgExact

/-!
# The graph of one function

With an address `buildCfg` takes the lines from there through the first return (`mem_cut_iff`), and makes the graph of
these.

`function_shown_iff`: the graph shows the whole function if and only if control, from the address on, does not leave
these lines: an early return hides what a branch over it reaches.
-/

namespace Ps5Debugger

open Relation (ReflTransGen)

/-- The graph has each instruction that control reaches from an address, and none only as an external node. -/
structure ShowsFunction (lines : List DisasmLine) (filterAddr : Int64) (nodes : List CfgNode) : Prop where
  whole : ∀ line ∈ lines, ReflTransGen (Flow lines) filterAddr line.instr.addr →
    ∃ node ∈ nodes, line ∈ node.instructions
  noStub : ∀ stub ∈ nodes, stub.isExternal = true → ∀ line ∈ lines, line.instr.addr = stub.startAddr →
    ∃ node ∈ nodes, line ∈ node.instructions

/-- A line from an address on, with no return between the address and the line. -/
def BeforeRet (lines : List DisasmLine) (filterAddr : Int64) (line : DisasmLine) : Prop :=
  filterAddr.toInt ≤ line.instr.addr.toInt ∧ ∀ ret ∈ lines, ret.instr.isRet = true →
    filterAddr.toInt ≤ ret.instr.addr.toInt → line.instr.addr.toInt ≤ ret.instr.addr.toInt

variable {lines : List DisasmLine} {filterAddr addr : Int64} {line : DisasmLine}

/-! ## The lines that are taken -/

theorem throughRet_prefix : throughRet lines <+: lines := by
  induction lines with
  | nil => exact List.prefix_rfl
  | cons first lines ih =>
    rw [throughRet]
    split
    · exact ⟨lines, rfl⟩
    · exact List.prefix_cons_inj first |>.mpr ih

theorem mem_throughRet
    (h : lines.Pairwise fun line line' => line.instr.addr.toInt < line'.instr.addr.toInt) :
    line ∈ throughRet lines ↔ line ∈ lines ∧ ∀ ret ∈ lines, ret.instr.isRet = true →
      line.instr.addr.toInt ≤ ret.instr.addr.toInt := by
  induction lines with
  | nil => exact ⟨nofun, fun hin => absurd hin.1 List.not_mem_nil⟩
  | cons first lines ih =>
    obtain ⟨hfirst, hlines⟩ := List.pairwise_cons.mp h
    rw [throughRet]
    split
    · rename_i hret
      rw [List.mem_singleton]
      constructor
      · rintro rfl
        refine ⟨List.mem_cons_self .., fun ret hmem _ => ?_⟩
        rcases List.mem_cons.mp hmem with rfl | hmem
        · exact Int.le_refl _
        · exact Int.le_of_lt (hfirst ret hmem)
      · rintro ⟨hmem, hall⟩
        rcases List.mem_cons.mp hmem with rfl | hmem
        · rfl
        · have := hall first (List.mem_cons_self ..) hret
          have := hfirst line hmem
          omega
    · rename_i hret
      rw [List.mem_cons, ih hlines, List.mem_cons]
      constructor
      · rintro (rfl | ⟨hmem, hall⟩)
        · refine ⟨.inl rfl, fun ret hmem _ => ?_⟩
          rcases List.mem_cons.mp hmem with rfl | hmem
          · exact Int.le_refl _
          · exact Int.le_of_lt (hfirst ret hmem)
        · refine ⟨.inr hmem, fun ret hret' hisRet => ?_⟩
          rcases List.mem_cons.mp hret' with rfl | hret'
          · exact absurd hisRet hret
          · exact hall ret hret' hisRet
      · rintro ⟨rfl | hmem, hall⟩
        · exact .inl rfl
        · exact .inr ⟨hmem, fun ret hret' => hall ret (List.mem_cons_of_mem _ hret')⟩

/-- The lines from an address on start with the line there. -/
theorem cut_eq (h : Contiguous lines) (hmem : filterAddr ∈ addrsOf lines) :
    ∃ pre first rest, lines = pre ++ first :: rest ∧ first.instr.addr = filterAddr ∧
      filterLines lines (some filterAddr) = throughRet (first :: rest) ∧
      ∀ line ∈ pre, line.instr.addr.toInt < filterAddr.toInt := by
  obtain ⟨first, hfirst, rfl⟩ := List.mem_map.mp hmem
  obtain ⟨pre, rest, rfl⟩ := List.append_of_mem hfirst
  have hpre : ∀ line ∈ pre, line.instr.addr.toInt < first.instr.addr.toInt := fun line hline =>
    (List.pairwise_append.mp h.ascending).2.2 line hline first (List.mem_cons_self ..)
  refine ⟨pre, first, rest, rfl, rfl, ?_, hpre⟩
  have hindex : (pre ++ first :: rest).findIdx? (fun line => decide (first.instr.addr ≤ line.instr.addr)) =
      some pre.length := by
    have hnone : pre.findIdx? (fun line => decide (first.instr.addr ≤ line.instr.addr)) = none := by
      rw [List.findIdx?_eq_none_iff]
      intro line hline
      refine decide_eq_false fun hle => ?_
      have := Int64.le_iff_toInt_le.mp hle
      have := hpre line hline
      omega
    rw [List.findIdx?_append, hnone, List.findIdx?_cons, if_pos (decide_eq_true (Int64.le_refl _))]
    simp
  rw [filterLines, hindex, Option.getD_some, List.drop_left]

/-- The lines that are taken. -/
theorem mem_cut_iff (h : Contiguous lines) (hmem : filterAddr ∈ addrsOf lines) :
    line ∈ filterLines lines (some filterAddr) ↔ line ∈ lines ∧ BeforeRet lines filterAddr line := by
  obtain ⟨pre, first, rest, rfl, rfl, hcut, hpre⟩ := cut_eq h hmem
  obtain ⟨-, hrest, -⟩ := List.pairwise_append.mp h.ascending
  have hfrom : ∀ line ∈ first :: rest, first.instr.addr.toInt ≤ line.instr.addr.toInt := fun line hline => by
    rcases List.mem_cons.mp hline with rfl | hline
    · exact Int.le_refl _
    · exact Int.le_of_lt ((List.pairwise_cons.mp hrest).1 line hline)
  have hside : ∀ line ∈ pre ++ first :: rest, first.instr.addr.toInt ≤ line.instr.addr.toInt → line ∈ first :: rest :=
    fun line hline hle => by
      rcases List.mem_append.mp hline with hline | hline
      · have := hpre line hline
        omega
      · exact hline
  rw [hcut, mem_throughRet hrest]
  constructor
  · rintro ⟨hline, hall⟩
    refine ⟨List.mem_append_right _ hline, hfrom line hline, fun ret hret hisRet hle => ?_⟩
    exact hall ret (hside ret hret hle) hisRet
  · rintro ⟨hline, hle, hall⟩
    refine ⟨hside line hline hle, fun ret hret hisRet => ?_⟩
    exact hall ret (List.mem_append_right _ hret) hisRet (hfrom ret hret)

/-! ## The graph -/

/-- The graph is that of the lines that are taken. -/
theorem function_exact (h : Contiguous lines) (hmem : filterAddr ∈ addrsOf lines) (globalJumpTargets : Int64 → Bool) :
    ExactCfg (filterLines lines (some filterAddr)) (buildCfg lines (some filterAddr) globalJumpTargets).1
        (buildCfg lines (some filterAddr) globalJumpTargets).2 ∧
      ∃ first, (filterLines lines (some filterAddr)).head? = some first ∧ first.instr.addr = filterAddr := by
  obtain ⟨pre, first, rest, rfl, rfl, hcut, -⟩ := cut_eq h hmem
  have hhead : (throughRet (first :: rest)).head? = some first := by
    rw [throughRet]
    split <;> rfl
  have hne : throughRet (first :: rest) ≠ [] := by
    intro hnil
    rw [hnil] at hhead
    cases hhead
  have hfirst : firstAddr (throughRet (first :: rest)) = first.instr.addr := by
    rw [firstAddr, addrsOf, List.head?_map, hhead]
    rfl
  have hentry : entryPointOf (throughRet (first :: rest)) (some first.instr.addr) = first.instr.addr := by
    rw [entryPointOf, hfirst, ite_self]
  have hinfix : throughRet (first :: rest) <:+: pre ++ first :: rest :=
    throughRet_prefix.isInfix.trans (List.suffix_append _ _).isInfix
  have hgraph := graph_exact (h.run hinfix).listing hne globalJumpTargets
  rw [buildCfg, if_neg (by simp), hcut]
  dsimp only
  rw [if_neg (by rw [List.isEmpty_iff]; exact hne), hentry]
  rw [hfirst] at hgraph
  exact ⟨hgraph, first, hhead, rfl⟩

theorem Flow.mono {run : List DisasmLine} {addr' : Int64} (h : Flow run addr addr') (hsub : run ⊆ lines) :
    Flow lines addr addr' := by
  obtain ⟨line, hline, haddr, hmem, hexit⟩ := h
  exact ⟨line, hsub hline, haddr, List.map_subset _ hsub hmem, hexit⟩

/-- Where control does not leave a part of the lines, it goes there as in all of them. -/
theorem flow_in_part {run : List DisasmLine}
    (hstay : ∀ line ∈ lines, ReflTransGen (Flow lines) filterAddr line.instr.addr → line ∈ run)
    (hflow : ReflTransGen (Flow lines) filterAddr addr) : ReflTransGen (Flow run) filterAddr addr := by
  induction hflow with
  | refl => exact .refl
  | tail hbefore hstep ih =>
    obtain ⟨line, hline, rfl, hmem, hexit⟩ := hstep
    obtain ⟨next, hnext, rfl⟩ := List.mem_map.mp hmem
    have hrun := hstay line hline hbefore
    have hrun' := hstay next hnext (hbefore.tail ⟨line, hline, rfl, hmem, hexit⟩)
    exact ih.tail ⟨line, hrun, rfl, List.mem_map_of_mem hrun', hexit⟩

/-- What a graph shows of a function is before its first return. -/
theorem beforeRet_of_shows (h : Contiguous lines) (hmem : filterAddr ∈ addrsOf lines)
    {globalJumpTargets : Int64 → Bool}
    (hshows : ShowsFunction lines filterAddr (buildCfg lines (some filterAddr) globalJumpTargets).1)
    (hline : line ∈ lines) (hflow : ReflTransGen (Flow lines) filterAddr line.instr.addr) :
    BeforeRet lines filterAddr line := by
  have hnode := (((function_exact h hmem globalJumpTargets).1).reachable line).mp (hshows.whole line hline hflow)
  exact ((mem_cut_iff h hmem).mp hnode.1).2

/-- The graph shows the whole function if and only if there is no return between its address and an instruction that
control reaches, and control does not go back before its address. -/
theorem function_shown_iff (lines : List DisasmLine) (h : Contiguous lines) (filterAddr : Int64)
    (hmem : filterAddr ∈ addrsOf lines) (globalJumpTargets : Int64 → Bool) :
    ShowsFunction lines filterAddr (buildCfg lines (some filterAddr) globalJumpTargets).1 ↔
      ∀ line ∈ lines, ReflTransGen (Flow lines) filterAddr line.instr.addr → BeforeRet lines filterAddr line := by
  obtain ⟨hexact, first, hfirst, rfl⟩ := function_exact h hmem globalJumpTargets
  have hreach (addr : Int64) : Reachable (filterLines lines (some first.instr.addr)) addr ↔
      ReflTransGen (Flow (filterLines lines (some first.instr.addr))) first.instr.addr addr := by
    constructor
    · rintro ⟨_, hfirst', hflow⟩
      obtain rfl := Option.some.inj (hfirst.symm.trans hfirst')
      exact hflow
    · intro hflow
      exact ⟨first, hfirst, hflow⟩
  have hsub : filterLines lines (some first.instr.addr) ⊆ lines := fun line hline => ((mem_cut_iff h hmem).mp hline).1
  constructor
  · intro hshows line hline hflow
    exact beforeRet_of_shows h hmem hshows hline hflow
  · intro hall
    have hstay : ∀ line ∈ lines, ReflTransGen (Flow lines) first.instr.addr line.instr.addr →
        line ∈ filterLines lines (some first.instr.addr) := fun line hline hflow =>
      (mem_cut_iff h hmem).mpr ⟨hline, hall line hline hflow⟩
    refine ⟨fun line hline hflow => (hexact.reachable line).mpr ⟨hstay line hline hflow, ?_⟩, ?_⟩
    · exact (hreach _).mpr (flow_in_part hstay hflow)
    · -- the target of a branch that control reaches is reached
      intro stub hstub hext line hline haddr
      obtain ⟨hout, branch, hbranch, hflow, type, hexit⟩ := (hexact.stubs stub.startAddr).mp ⟨stub, hstub, hext, rfl⟩
      refine absurd (List.mem_map.mpr ⟨line, hstay line hline ?_, haddr⟩) hout
      have hall' : ReflTransGen (Flow lines) first.instr.addr branch.instr.addr :=
        Relation.ReflTransGen.mono (fun _ _ (hstep : Flow _ _ _) => hstep.mono hsub) _ _ ((hreach _).mp hflow)
      refine hall'.tail ⟨branch, hsub hbranch, rfl, List.mem_map_of_mem hline, type, ?_⟩
      rw [haddr]
      exact List.mem_append_left _ hexit

/-- An instruction and a return. -/
theorem straight_function_shown :
    ShowsFunction [⟨⟨0x1000, 0, 0, 1, 0, 0, 0, 0, 0, 0⟩, [0x90]⟩, ⟨⟨0x1001, 0, 0, 1, 0x02, 0, 0, 0, 0, 0⟩, [0xC3]⟩]
      0x1000 (buildCfg
        [⟨⟨0x1000, 0, 0, 1, 0, 0, 0, 0, 0, 0⟩, [0x90]⟩, ⟨⟨0x1001, 0, 0, 1, 0x02, 0, 0, 0, 0, 0⟩, [0xC3]⟩]
        (some 0x1000) fun _ => false).1 := by
  refine (function_shown_iff _ ⟨.cons_cons (by decide) (.singleton _), ?_, by decide⟩ 0x1000 (by decide) _).mpr ?_
  · intro line hline
    simp only [List.mem_cons, List.not_mem_nil, or_false] at hline
    rcases hline with rfl | rfl <;> decide
  · intro line hline _
    refine ⟨?_, fun ret hret hisRet _ => ?_⟩
    · simp only [List.mem_cons, List.not_mem_nil, or_false] at hline
      rcases hline with rfl | rfl <;> decide
    · simp only [List.mem_cons, List.not_mem_nil, or_false] at hline hret
      rcases hret with rfl | rfl
      · cases hisRet
      · rcases hline with rfl | rfl <;> decide

/-- A conditional jump over a return: what it jumps to is an external node. -/
theorem early_return_hides :
    ¬ ShowsFunction
      [⟨⟨0x1000, 0, 0, 2, 0x08, 0, 0, 0, 0, 0⟩, [0x74, 0x01]⟩, ⟨⟨0x1002, 0, 0, 1, 0x02, 0, 0, 0, 0, 0⟩, [0xC3]⟩,
        ⟨⟨0x1003, 0, 0, 1, 0x02, 0, 0, 0, 0, 0⟩, [0xC3]⟩] 0x1000
      (buildCfg
        [⟨⟨0x1000, 0, 0, 2, 0x08, 0, 0, 0, 0, 0⟩, [0x74, 0x01]⟩, ⟨⟨0x1002, 0, 0, 1, 0x02, 0, 0, 0, 0, 0⟩, [0xC3]⟩,
          ⟨⟨0x1003, 0, 0, 1, 0x02, 0, 0, 0, 0, 0⟩, [0xC3]⟩] (some 0x1000) fun _ => false).1 := by
  intro hshows
  have hcontiguous : Contiguous
      [⟨⟨0x1000, 0, 0, 2, 0x08, 0, 0, 0, 0, 0⟩, [0x74, 0x01]⟩, ⟨⟨0x1002, 0, 0, 1, 0x02, 0, 0, 0, 0, 0⟩, [0xC3]⟩,
        ⟨⟨0x1003, 0, 0, 1, 0x02, 0, 0, 0, 0, 0⟩, [0xC3]⟩] := by
    refine ⟨.cons_cons (by decide) (.cons_cons (by decide) (.singleton _)), fun line hline => ?_, by decide⟩
    simp only [List.mem_cons, List.not_mem_nil, or_false] at hline
    rcases hline with rfl | rfl | rfl <;> decide
  have htarget : branchTarget ⟨⟨0x1000, 0, 0, 2, 0x08, 0, 0, 0, 0, 0⟩, [0x74, 0x01]⟩ = 0x1003 := by
    have hskip : skipPrefixes [0x74, 0x01] 0 = 0 := skipPrefixes_stop (by decide) (by decide)
    rw [branchTarget, DisasmFormatter.getJumpTarget, DisasmFormatter.getOpcodeOffset, hskip]
    decide
  have hbranch : (EdgeType.taken, (0x1003 : Int64)) ∈
      branchExits ⟨⟨0x1000, 0, 0, 2, 0x08, 0, 0, 0, 0, 0⟩, [0x74, 0x01]⟩ := by
    rw [branchExits, htarget]
    decide
  have hbefore := beforeRet_of_shows hcontiguous (by decide) hshows (List.mem_of_getLast? rfl)
    (.single ⟨_, List.mem_cons_self .., rfl, by decide, _, List.mem_append_left _ hbranch⟩)
  exact absurd (hbefore.2 _ (List.mem_cons_of_mem _ (List.mem_cons_self ..)) rfl (by decide)) (by decide)

end Ps5Debugger
