import Ps5Debugger.CfgFlow

/-!
# Blocks of a listing

The leaders of a listing are enough (`leads_leadersOf`), and what its blocks are then: only the last line of a block is
a branch or a return, and what follows it is the first line of a block.
-/

namespace Ps5Debugger

open Lib

variable {instrs : List DisasmLine} {leaders : List Int64} {line line' : DisasmLine} {addr : Int64} {type : EdgeType}

/-! ## Leaders -/

/-- Enough addresses start blocks: the targets of branches, and what is behind branches and returns. -/
structure Leads (instrs : List DisasmLine) (leaders : List Int64) : Prop where
  targets : ∀ branch ∈ instrs, ∀ type addr, (type, addr) ∈ branchExits branch → addr ∈ addrsOf instrs → addr ∈ leaders
  after : ∀ before line, [before, line] <:+: instrs → EndsBlock before → line.instr.addr ∈ leaders

theorem branchExits_cases (h : (type, addr) ∈ branchExits line) :
    addr = branchTarget line ∧ addr ≠ 0 ∧ (line.instr.isJmp || line.instr.isCondJmp) = true := by
  rw [branchExits] at h
  split_ifs at h with hzero hcond hjmp
  · cases h
  · obtain ⟨-, rfl⟩ := Prod.mk.inj (List.mem_singleton.mp h)
    exact ⟨rfl, hzero, by rw [hcond, Bool.or_true]⟩
  · obtain ⟨-, rfl⟩ := Prod.mk.inj (List.mem_singleton.mp h)
    exact ⟨rfl, hzero, by rw [hjmp, Bool.true_or]⟩
  · cases h

theorem endsBlock_of_branch (h : (type, addr) ∈ branchExits line) : EndsBlock line := by
  obtain ⟨-, -, hkind⟩ := branchExits_cases h
  exact (Bool.or_eq_true_iff.mp hkind).imp id .inl

/-- Pass 2 and pass 4 agree where the target of a branch is the address of a line. -/
theorem mem_leaderOf (hne : branchTarget line ≠ 0) (hmem : branchTarget line ∈ addrsOf instrs) :
    branchTarget line ∈ leaderOf instrs line := by
  by_cases htarget : DisasmFormatter.getJumpTarget line.instr line.bytes ≠ 0
  · have heq : branchTarget line = DisasmFormatter.getJumpTarget line.instr line.bytes := if_pos htarget
    rw [heq] at hmem ⊢
    rw [leaderOf, if_pos ⟨htarget, hmem⟩]
    exact List.mem_singleton.mpr rfl
  · have heq : branchTarget line = line.instr.ripRelTarget := if_neg htarget
    rw [heq] at hne hmem ⊢
    rw [leaderOf, if_neg fun hboth => htarget hboth.1, if_pos ⟨hne, hmem⟩]
    exact List.mem_singleton.mpr rfl

theorem target_mem_leadersFrom {lines : List DisasmLine} (hline : line ∈ lines) (h : (type, addr) ∈ branchExits line)
    (hmem : addr ∈ addrsOf instrs) : addr ∈ leadersFrom instrs lines := by
  obtain ⟨rfl, hne, hkind⟩ := branchExits_cases h
  induction lines with
  | nil => cases hline
  | cons first lines ih =>
    rw [leadersFrom]
    rcases List.mem_cons.mp hline with rfl | hline
    · rw [if_pos hkind]
      exact List.mem_append_left _ (List.mem_append_left _ (mem_leaderOf hne hmem))
    · exact List.mem_append_right _ (ih hline)

theorem after_mem_leadersFrom {lines : List DisasmLine} (h : [line, line'] <:+: lines) (hends : EndsBlock line) :
    line'.instr.addr ∈ leadersFrom instrs lines := by
  induction lines with
  | nil => exact absurd (List.eq_nil_of_infix_nil h) (List.cons_ne_nil _ _)
  | cons first lines ih =>
    rw [leadersFrom]
    rcases List.infix_cons_iff.mp h with hprefix | h
    · obtain ⟨rest, heq⟩ := hprefix
      obtain ⟨rfl, rfl⟩ := List.cons.inj heq
      refine List.mem_append_left _ ?_
      have hnext : line'.instr.addr ∈ (addrsOf ([line'] ++ rest)).take 1 := List.mem_singleton.mpr rfl
      rcases hends with hjmp | hcond | hret
      · rw [if_pos (by rw [hjmp, Bool.true_or])]
        exact List.mem_append_right _ hnext
      · rw [if_pos (by rw [hcond, Bool.or_true])]
        exact List.mem_append_right _ hnext
      · split
        · exact List.mem_append_right _ hnext
        · exact hnext
    · exact List.mem_append_right _ (ih h)

theorem leads_leadersOf (instrs : List DisasmLine) (entryPoint : Int64) (globalJumpTargets : Int64 → Bool) :
    Leads instrs (leadersOf instrs entryPoint globalJumpTargets) where
  targets _ hbranch _ _ hexit hmem :=
    List.mem_append_right _ (target_mem_leadersFrom hbranch hexit hmem)
  after _ _ hpair hends := List.mem_append_right _ (after_mem_leadersFrom hpair hends)

/-! ## Lines and blocks -/

section Blocks

variable {block : List DisasmLine}

theorem mem_of_pair (h : [line, line'] <:+: instrs) : line ∈ instrs ∧ line' ∈ instrs :=
  ⟨h.subset (List.mem_cons_self ..), h.subset (List.mem_cons_of_mem _ (List.mem_cons_self ..))⟩

theorem mem_tail_of_pair (h : [line, line'] <:+: block) : line' ∈ block.tail := by
  obtain ⟨pre, post, rfl⟩ := h
  cases pre with
  | nil => exact List.mem_cons_self ..
  | cons first pre => simp

/-- Inside a block control goes on to the next line only. -/
theorem next_in_block (h : Listing instrs) (hl : Leads instrs leaders) (hblock : block ∈ blocksOf instrs leaders)
    (hpair : [line, line'] <:+: block) : line'.instr.addr = line.instr.next ∧ ¬ EndsBlock line := by
  have hinstrs := hpair.trans (infix_of_mem_blocks hblock)
  refine ⟨(List.isChain_cons_cons.mp ( List.IsChain.infix h.next hinstrs)).1, fun hends => ?_⟩
  have hno := mem_tail_blocks hblock (mem_tail_of_pair hpair)
  exact of_decide_eq_false hno (hl.after _ _ hinstrs hends)

/-- What starts a block is the first line of one. -/
theorem not_startsBlock_tail (hl : Leads instrs leaders) (hblock : block ∈ blocksOf instrs leaders)
    (hline : line ∈ block.tail) : ¬ StartsBlock instrs line := by
  have hno := mem_tail_blocks hblock hline
  replace hno := of_decide_eq_false hno
  have hmem : line ∈ instrs := mem_of_mem_blocks hblock (List.mem_of_mem_tail hline)
  rintro (⟨branch, hbranch, type, hexit⟩ | ⟨before, hpair, hends⟩)
  · exact hno (hl.targets branch hbranch type _ hexit (List.mem_map_of_mem hmem))
  · exact hno (hl.after before line hpair hends)

/-- A line of a block is its last one, or has a next one. -/
theorem last_or_next (hline : line ∈ block) : block.getLast? = some line ∨ ∃ line', [line, line'] <:+: block := by
  obtain ⟨pre, post, rfl⟩ := List.append_of_mem hline
  cases post with
  | nil => exact .inl List.getLast?_concat
  | cons line' post =>
    refine .inr ⟨line', pre, post, ?_⟩
    simp only [List.append_assoc, List.cons_append, List.nil_append]

theorem firstAddr_mem (hne : block ≠ []) : firstAddr block ∈ addrsOf block := by
  obtain ⟨first, rest, rfl⟩ := List.exists_cons_of_ne_nil hne
  exact List.mem_cons_self ..

/-- No two blocks have an address in common. -/
theorem disjoint_addrs (h : Listing instrs) :
    (blocksOf instrs leaders).Pairwise fun block block' => (addrsOf block).Disjoint (addrsOf block') := by
  have hflat : ((blocksOf instrs leaders).map addrsOf).flatten.Nodup := by
    have hall : (blocksOf instrs leaders).flatten = instrs := flatten_blocks
    have := h.nodup
    rwa [← hall, addrsOf, List.map_flatten] at this
  exact List.pairwise_map.mp (List.nodup_flatten.mp hflat).2

/-- Blocks start at different addresses. -/
theorem nodup_firstAddr (h : Listing instrs) : ((blocksOf instrs leaders).map firstAddr).Nodup := by
  rw [List.Nodup, List.pairwise_map]
  refine (disjoint_addrs h).imp_of_mem fun {b b'} hb hb' hdisjoint heq => ?_
  exact hdisjoint (firstAddr_mem (ne_nil_of_mem_blocks hb)) (heq ▸ firstAddr_mem (ne_nil_of_mem_blocks hb'))

/-- The address behind a block is that of another one, or of no line. -/
theorem exists_next_block (h : Listing instrs) (hblock : block ∈ blocksOf instrs leaders)
    (hlast : block.getLast? = some line) (hmem : line.instr.next ∈ addrsOf instrs) :
    ∃ block' ∈ blocksOf instrs leaders, firstAddr block' = line.instr.next ∧ firstAddr block' ≠ firstAddr block := by
  obtain ⟨pre, post, heq⟩ := List.append_of_mem hblock
  cases post with
  | nil =>
    -- the last block
    have hflat : (blocksOf instrs leaders).flatten = instrs := flatten_blocks
    rw [heq, List.flatten_append, List.flatten_singleton] at hflat
    have hstop : instrs.getLast? = some line := by
      rw [← hflat, List.getLast?_append, hlast]
      rfl
    exact absurd hmem (h.stop line hstop)
  | cons block' post =>
    have hblock' : block' ∈ blocksOf instrs leaders := by
      rw [heq]
      exact List.mem_append_right _ (List.mem_cons_of_mem _ (List.mem_cons_self ..))
    obtain ⟨first, rest, rfl⟩ := List.exists_cons_of_ne_nil (ne_nil_of_mem_blocks hblock')
    have hchain := (@chain_blocks _ (fun line => decide (line.instr.addr ∈ leaders)) _ _ h.next).2
    have hpair : [block, first :: rest] <:+: blocksOf instrs leaders := ⟨pre, post, by rw [heq]; simp⟩
    refine ⟨_, hblock', (List.isChain_cons_cons.mp ( List.IsChain.infix hchain hpair)).1 line hlast first rfl,
      fun hsame => ?_⟩
    have hnodup := (@nodup_firstAddr instrs leaders h).sublist (hpair.sublist.map firstAddr)
    exact (List.nodup_cons.mp hnodup).1 (List.mem_singleton.mpr hsame.symm)

end Blocks

end Ps5Debugger
