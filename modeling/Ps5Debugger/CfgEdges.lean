import Ps5Debugger.CfgBlocks

/-!
# Edges of the graph

Pass 4 of `buildCfg` goes over the blocks with the external nodes there are. `edgesFrom_spec`: each block gets an edge
for each of its exits, to the node of that address, and an external node is made for the target of a branch out of the
listing when there is none yet.
-/

namespace Ps5Debugger

open Lib

variable {instrs : List DisasmLine} {leaders : List Int64} {line : DisasmLine} {addr : Int64} {node : CfgNode}
  {nodes allNodes externalNodes : List CfgNode}

/-! ## The nodes of blocks -/

theorem node_spec (h : node ∈ allNodesOf instrs leaders) :
    node.instructions ∈ blocksOf instrs leaders ∧ node = nodeOf node.id node.instructions ∧
      (allNodesOf instrs leaders)[node.id]? = some node := by
  obtain ⟨i, hi, heq⟩ := List.mem_mapIdx.mp h
  subst heq
  refine ⟨List.getElem_mem hi, rfl, ?_⟩
  rw [allNodesOf, List.getElem?_mapIdx]
  show Option.map (nodeOf i) (blocksOf instrs leaders)[i]? = _
  rw [List.getElem?_eq_getElem hi]
  rfl

theorem exists_node {block : List DisasmLine} (h : block ∈ blocksOf instrs leaders) :
    ∃ node ∈ allNodesOf instrs leaders, node.instructions = block := by
  obtain ⟨i, hi, rfl⟩ := List.getElem_of_mem h
  exact ⟨nodeOf i _, List.mem_mapIdx.mpr ⟨i, hi, rfl⟩, rfl⟩

theorem startAddr_eq (h : node ∈ allNodesOf instrs leaders) : node.startAddr = firstAddr node.instructions := by
  obtain ⟨-, heq, -⟩ := node_spec h
  rw [heq]
  rfl

theorem map_startAddr : (allNodesOf instrs leaders).map (·.startAddr) = (blocksOf instrs leaders).map firstAddr := by
  refine List.ext_getElem? fun i => ?_
  rw [List.getElem?_map, List.getElem?_map, allNodesOf, List.getElem?_mapIdx, Option.map_map]
  rfl

theorem nodup_starts (h : Listing instrs) : ((allNodesOf instrs leaders).map (·.startAddr)).Nodup := by
  rw [map_startAddr]
  exact nodup_firstAddr h

/-- A node starts with a line. -/
theorem starts_subset (h : addr ∈ (allNodesOf instrs leaders).map (·.startAddr)) : addr ∈ addrsOf instrs := by
  rw [map_startAddr] at h
  obtain ⟨block, hblock, rfl⟩ := List.mem_map.mp h
  obtain ⟨line, hline, heq⟩ := List.mem_map.mp (firstAddr_mem (ne_nil_of_mem_blocks hblock))
  exact heq ▸ List.mem_map_of_mem (mem_of_mem_blocks hblock hline)

/-- The target of a branch in the listing is the start of a node. -/
theorem target_mem_starts (hl : Leads instrs leaders) (hline : line ∈ instrs) {type : EdgeType}
    (hexit : (type, addr) ∈ branchExits line) (hmem : addr ∈ addrsOf instrs) :
    addr ∈ (allNodesOf instrs leaders).map (·.startAddr) := by
  obtain ⟨target, htarget, rfl⟩ := List.mem_map.mp hmem
  obtain ⟨rest, hblock⟩ := @exists_block_of_lead _ (fun line => decide (line.instr.addr ∈ leaders)) _ _ htarget
    (decide_eq_true (hl.targets line hline type _ hexit hmem))
  rw [map_startAddr]
  exact List.mem_map.mpr ⟨target :: rest, hblock, rfl⟩

/-! ## Looking up nodes -/

/-- There is a node with this address and this number. -/
def Names (nodes : List CfgNode) (addr : Int64) (id : Nat) : Prop :=
  ∃ node ∈ nodes, node.startAddr = addr ∧ node.id = id

theorem startAddrToNodeId_of_mem (hnodup : (allNodes.map (·.startAddr)).Nodup) (h : node ∈ allNodes) :
    startAddrToNodeId allNodes node.startAddr = some node.id := by
  have hmem : node ∈ allNodes.filter (·.startAddr = node.startAddr) :=
    List.mem_filter.mpr ⟨h, decide_eq_true rfl⟩
  have hlast := List.getLast?_eq_some_getLast (List.ne_nil_of_mem hmem)
  obtain ⟨hmem', hsame⟩ := List.mem_filter.mp (List.mem_of_getLast? hlast)
  rw [startAddrToNodeId, hlast, List.inj_on_of_nodup_map hnodup hmem' h (of_decide_eq_true hsame)]
  rfl

theorem startAddrToNodeId_of_not_mem (h : addr ∉ allNodes.map (·.startAddr)) :
    startAddrToNodeId allNodes addr = none := by
  have hnil : allNodes.filter (·.startAddr = addr) = [] := by
    rw [List.filter_eq_nil_iff]
    intro node hnode heq
    exact h (of_decide_eq_true heq ▸ List.mem_map_of_mem hnode)
  rw [startAddrToNodeId, hnil]
  rfl

/-- The external nodes: numbered behind the others, one for an address, which is not the start of a block. -/
structure Stubs (allNodes externalNodes : List CfgNode) : Prop where
  form : ∀ i node, externalNodes[i]? = some node →
    node = (⟨allNodes.length + i, [], node.startAddr, node.startAddr, true⟩ : CfgNode)
  fresh : ∀ node ∈ externalNodes, node.startAddr ∉ allNodes.map (·.startAddr)
  nodup : (externalNodes.map (·.startAddr)).Nodup

theorem Stubs.nil : Stubs allNodes [] := ⟨nofun, nofun, .nil⟩

/-- A new external node. -/
theorem Stubs.snoc (h : Stubs allNodes externalNodes) (hno : addr ∉ allNodes.map (·.startAddr))
    (hnew : addr ∉ externalNodes.map (·.startAddr)) :
    Stubs allNodes (externalNodes ++ [⟨allNodes.length + externalNodes.length, [], addr, addr, true⟩]) := by
  refine ⟨fun i node hnode => ?_, fun node hnode => ?_, ?_⟩
  · rcases Nat.lt_trichotomy i externalNodes.length with hlt | rfl | hlt
    · rw [List.getElem?_append_left hlt] at hnode
      exact h.form i node hnode
    · rw [List.getElem?_concat_length] at hnode
      obtain rfl := Option.some.inj hnode
      rfl
    · rw [List.getElem?_eq_none (by simp; omega)] at hnode
      cases hnode
  · rcases List.mem_append.mp hnode with hnode | hnode
    · exact h.fresh node hnode
    · obtain rfl := List.mem_singleton.mp hnode
      exact hno
  · rw [List.map_append, List.nodup_append]
    refine ⟨h.nodup, List.nodup_singleton _, fun a ha b hb heq => ?_⟩
    obtain rfl := List.mem_singleton.mp hb
    exact hnew (heq ▸ ha)

theorem getOrCreateTarget_spec (hnodup : (allNodes.map (·.startAddr)).Nodup) (h : Stubs allNodes externalNodes)
    (hne : addr ≠ 0) :
    ∃ id new, getOrCreateTarget allNodes externalNodes addr = (some id, externalNodes ++ new) ∧
      Stubs allNodes (externalNodes ++ new) ∧ Names (allNodes ++ (externalNodes ++ new)) addr id ∧
      ∀ node ∈ new, node.startAddr = addr := by
  rw [getOrCreateTarget]
  by_cases hmem : addr ∈ allNodes.map (·.startAddr)
  · obtain ⟨node, hnode, rfl⟩ := List.mem_map.mp hmem
    rw [startAddrToNodeId_of_mem hnodup hnode]
    refine ⟨node.id, [], by rw [List.append_nil], by rwa [List.append_nil], ?_, nofun⟩
    exact ⟨node, List.mem_append_left _ hnode, rfl, rfl⟩
  · rw [startAddrToNodeId_of_not_mem hmem]
    dsimp only
    rw [if_neg hne]
    cases hfind : externalNodes.find? (·.startAddr = addr) with
    | some node =>
      have heq := List.find?_some hfind
      replace heq := of_decide_eq_true heq
      refine ⟨node.id, [], by rw [List.append_nil], by rwa [List.append_nil], ?_, nofun⟩
      rw [List.append_nil]
      exact ⟨node, List.mem_append_right _ (List.mem_of_find?_eq_some hfind), heq, rfl⟩
    | none =>
      have hnew : addr ∉ externalNodes.map (·.startAddr) := by
        intro hin
        obtain ⟨node, hnode, heq⟩ := List.mem_map.mp hin
        exact List.find?_eq_none.mp hfind node hnode (decide_eq_true heq)
      refine ⟨_, [⟨allNodes.length + externalNodes.length, [], addr, addr, true⟩], rfl, h.snoc hmem hnew, ?_, ?_⟩
      · exact ⟨_, List.mem_append_right _ (List.mem_append_right _ (List.mem_singleton.mpr rfl)), rfl, rfl⟩
      · intro node hnode
        obtain rfl := List.mem_singleton.mp hnode
        rfl

/-! ## The edges of a node -/

theorem Follows.mono {nodes' : List CfgNode} {edge : CfgEdge} {exit : CfgNode × EdgeType × Int64}
    (h : Follows nodes edge exit) (hsub : nodes ⊆ nodes') : Follows nodes' edge exit := by
  obtain ⟨hfrom, htype, target, htarget, hnames⟩ := h
  exact ⟨hfrom, htype, target, hsub htarget, hnames⟩

theorem branchEdge_spec (hnodup : (allNodes.map (·.startAddr)).Nodup) (h : Stubs allNodes externalNodes)
    (node : CfgNode) (line : DisasmLine) (type : EdgeType) :
    ∃ edges new, branchEdge allNodes externalNodes node.id line type = (edges, externalNodes ++ new) ∧
      Stubs allNodes (externalNodes ++ new) ∧
      List.Forall₂ (Follows (allNodes ++ (externalNodes ++ new))) edges
        ((if branchTarget line = 0 then [] else [(type, branchTarget line)]).map fun exit => (node, exit)) ∧
      ∀ stub ∈ new, branchTarget line ≠ 0 ∧ stub.startAddr = branchTarget line := by
  rw [branchEdge]
  by_cases hzero : branchTarget line = 0
  · rw [if_neg (not_not_intro hzero), if_pos hzero]
    exact ⟨[], [], by rw [List.append_nil], by rwa [List.append_nil], .nil, nofun⟩
  · obtain ⟨id, new, htarget, hstubs, hnames, hnew⟩ := getOrCreateTarget_spec hnodup h hzero
    rw [if_pos hzero, if_neg hzero, htarget]
    exact ⟨_, new, rfl, hstubs, .cons ⟨rfl, rfl, hnames⟩ .nil, fun stub hstub => ⟨hzero, hnew stub hstub⟩⟩

/-- The edge to the next line is there if the line is, and goes to another node. -/
theorem fallEdge_spec (h : Listing instrs) (hnode : node ∈ allNodesOf instrs leaders)
    (hlast : node.instructions.getLast? = some line) (type : EdgeType) :
    (∀ edge ∈ fallEdge (allNodesOf instrs leaders) node.id line type, edge.toId ≠ node.id) ∧
      List.Forall₂ (Follows (allNodesOf instrs leaders)) (fallEdge (allNodesOf instrs leaders) node.id line type)
        (([(type, line.instr.next)].filter fun exit => exit.2 ∈ addrsOf instrs).map fun exit => (node, exit)) := by
  rw [fallEdge]
  by_cases hmem : line.instr.next ∈ addrsOf instrs
  · obtain ⟨block, hblock, hfirst, hne⟩ := exists_next_block h (node_spec hnode).1 hlast hmem
    obtain ⟨target, htarget, rfl⟩ := exists_node hblock
    rw [← startAddr_eq htarget] at hfirst hne
    have hin : ([(type, line.instr.next)].filter fun exit => exit.2 ∈ addrsOf instrs) = [(type, line.instr.next)] :=
      List.filter_cons_of_pos (decide_eq_true hmem)
    rw [hin, ← hfirst, startAddrToNodeId_of_mem (nodup_starts h) htarget, hfirst]
    refine ⟨fun edge hedge => ?_, .cons ⟨rfl, rfl, target, htarget, hfirst, rfl⟩ .nil⟩
    obtain rfl := List.mem_singleton.mp hedge
    intro (hid : target.id = node.id)
    have hsame := (node_spec htarget).2.2
    rw [hid, (node_spec hnode).2.2] at hsame
    obtain rfl := Option.some.inj hsame
    exact hne (startAddr_eq hnode)
  · have hout : ([(type, line.instr.next)].filter fun exit => exit.2 ∈ addrsOf instrs) = [] :=
      List.filter_cons_of_neg (by simpa using hmem)
    rw [hout, startAddrToNodeId_of_not_mem fun hstart => hmem (starts_subset hstart)]
    exact ⟨nofun, .nil⟩

theorem exits_eq (hlast : node.instructions.getLast? = some line) :
    node.exits instrs = branchExits line ++ (fallExits line).filter fun exit => exit.2 ∈ addrsOf instrs := by
  rw [CfgNode.exits, hlast, Option.toList_some, List.flatMap_singleton, exitsOf]

/-- Where a new external node comes from. -/
def BranchesTo (node : CfgNode) (addr : Int64) : Prop :=
  ∃ line, node.instructions.getLast? = some line ∧ ∃ type, (type, addr) ∈ branchExits line

theorem edgesOf_spec (h : Listing instrs) (hstubs : Stubs (allNodesOf instrs leaders) externalNodes)
    (hnode : node ∈ allNodesOf instrs leaders) :
    ∃ edges new, edgesOf (allNodesOf instrs leaders) externalNodes node = (edges, externalNodes ++ new) ∧
      Stubs (allNodesOf instrs leaders) (externalNodes ++ new) ∧
      List.Forall₂ (Follows (allNodesOf instrs leaders ++ (externalNodes ++ new))) edges
        ((node.exits instrs).map fun exit => (node, exit)) ∧
      ∀ stub ∈ new, BranchesTo node stub.startAddr := by
  obtain ⟨hblock, -, -⟩ := node_spec hnode
  have hlast := List.getLast?_eq_some_getLast (ne_nil_of_mem_blocks hblock)
  generalize node.instructions.getLast (ne_nil_of_mem_blocks hblock) = line at hlast
  rw [edgesOf, hlast, exits_eq hlast]
  dsimp only
  by_cases hcond : line.instr.isCondJmp = true
  · obtain ⟨edges, new, hbranch, hstubs', hfollows, hnew⟩ :=
      branchEdge_spec (nodup_starts h) hstubs node line .taken
    have hexits : branchExits line = if branchTarget line = 0 then [] else [(.taken, branchTarget line)] := by
      rw [branchExits, if_pos hcond]
    have hfall : fallExits line = [(.notTaken, line.instr.next)] := if_pos hcond
    rw [if_pos hcond, hbranch, List.map_append, hexits, hfall]
    refine ⟨_, new, rfl, hstubs', List.rel_append hfollows ?_, fun stub hstub => ⟨line, hlast, .taken, ?_⟩⟩
    · exact (fallEdge_spec h hnode hlast .notTaken).2.imp fun _ _ hf => hf.mono (List.subset_append_left _ _)
    · rw [hexits, if_neg (hnew stub hstub).1, (hnew stub hstub).2]
      exact List.mem_singleton.mpr rfl
  by_cases hjmp : line.instr.isJmp = true
  · obtain ⟨edges, new, hbranch, hstubs', hfollows, hnew⟩ :=
      branchEdge_spec (nodup_starts h) hstubs node line .unconditional
    have hexits : branchExits line = if branchTarget line = 0 then [] else [(.unconditional, branchTarget line)] := by
      rw [branchExits, if_neg hcond, if_pos hjmp]
    have hfall : fallExits line = [] := by
      rw [fallExits, if_neg hcond, hjmp]
      rfl
    rw [if_neg hcond, if_pos hjmp, hbranch, hexits, hfall, List.filter_nil, List.append_nil]
    refine ⟨_, new, rfl, hstubs', hfollows, fun stub hstub => ⟨line, hlast, .unconditional, ?_⟩⟩
    rw [hexits, if_neg (hnew stub hstub).1, (hnew stub hstub).2]
    exact List.mem_singleton.mpr rfl
  have hexits : branchExits line = [] := by
    rw [branchExits, if_neg hcond, if_neg hjmp, ite_self]
  rw [if_neg hcond, if_neg hjmp, hexits, List.nil_append]
  refine ⟨_, [], by rw [List.append_nil, ← apply_ite (Prod.mk · externalNodes)], by rwa [List.append_nil], ?_,
    fun _ hstub => absurd hstub List.not_mem_nil⟩
  by_cases hret : line.instr.isRet = true
  · have hfall : fallExits line = [] := by
      rw [fallExits, if_neg hcond, hret, Bool.or_true]
      rfl
    rw [if_pos hret, hfall]
    exact .nil
  · have hfall : fallExits line = [(.unconditional, line.instr.next)] := by
      rw [fallExits, if_neg hcond, if_neg (by simp [hjmp, hret])]
    obtain ⟨hother, hfollows⟩ := fallEdge_spec h hnode hlast .unconditional
    rw [if_neg hret, hfall, List.filter_eq_self.mpr fun edge hedge => decide_eq_true (hother edge hedge)]
    exact hfollows.imp fun _ _ hf => hf.mono (List.subset_append_left _ _)

/-- The edges are those of the nodes, one after the other. -/
theorem edgesFrom_spec (h : Listing instrs) (hnodes : nodes ⊆ allNodesOf instrs leaders)
    (hstubs : Stubs (allNodesOf instrs leaders) externalNodes) :
    ∃ edges new, edgesFrom (allNodesOf instrs leaders) nodes externalNodes = (edges, externalNodes ++ new) ∧
      Stubs (allNodesOf instrs leaders) (externalNodes ++ new) ∧
      List.Forall₂ (Follows (allNodesOf instrs leaders ++ (externalNodes ++ new))) edges
        (nodes.flatMap fun node => (node.exits instrs).map fun exit => (node, exit)) ∧
      ∀ stub ∈ new, ∃ node ∈ nodes, BranchesTo node stub.startAddr := by
  induction nodes generalizing externalNodes with
  | nil => exact ⟨[], [], by rw [edgesFrom, List.append_nil], by rwa [List.append_nil], .nil, nofun⟩
  | cons node nodes ih =>
    obtain ⟨hnode, hrest⟩ := List.cons_subset.mp hnodes
    obtain ⟨edges, new, hfirst, hstubs', hfollows, hnew⟩ := edgesOf_spec h hstubs hnode
    obtain ⟨edges', new', hmore, hstubs'', hfollows', hnew'⟩ := ih hrest hstubs'
    rw [List.append_assoc] at hmore hstubs'' hfollows'
    refine ⟨edges ++ edges', new ++ new', ?_, hstubs'', ?_, fun stub hstub => ?_⟩
    · rw [edgesFrom, hfirst]
      dsimp only
      rw [hmore]
    · rw [List.flatMap_cons]
      refine List.rel_append (hfollows.imp fun _ _ hf => hf.mono ?_) hfollows'
      rw [← List.append_assoc externalNodes, ← List.append_assoc _ (externalNodes ++ new)]
      exact List.subset_append_left _ _
    · rcases List.mem_append.mp hstub with hstub | hstub
      · exact ⟨node, List.mem_cons_self .., hnew stub hstub⟩
      · obtain ⟨from', hfrom, hto⟩ := hnew' stub hstub
        exact ⟨from', List.mem_cons_of_mem _ hfrom, hto⟩

end Ps5Debugger
