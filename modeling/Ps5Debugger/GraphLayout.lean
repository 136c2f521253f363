import Ps5Debugger.CfgExact
import Ps5Debugger.Lib.Layers

/-!
# The layers of a drawn graph

`layoutNinja` (`GraphViewer.kt`) draws a graph in layers, from the entry downwards. A node is put as many layers down as
a shortest path from the entry to it has edges, whatever loops there are, so the entry is alone at the top, no layer
between is empty, and an edge leads down by one layer at most (`layoutNinja_spec`). The coordinates, which are
floating-point numbers, are left out.
-/

namespace Ps5Debugger

open Lib

/-- The node that the layout starts from. -/
def entryNode (nodes : List CfgNode) (entryAddr : Int64) : Option CfgNode :=
  (nodes.find? (·.startAddr = entryAddr)).or nodes.head?

/-- Step 1 of `layoutNinja`: the rank of each node, by its number. -/
def rankOf (nodes : List CfgNode) (edges : List CfgEdge) (entryAddr : Int64) : Nat → Nat :=
  match entryNode nodes entryAddr with
  | none => fun _ => 0
  | some entry => layers (pairsOf edges) [entry.id] (fun _ => 0) [entry.id]

/-- `nodesByLayer`, which is sorted by the layers. -/
def nodesByLayer (nodes : List CfgNode) (rank : Nat → Nat) : List (Nat × List CfgNode) :=
  ((nodes.map fun node => rank node.id).dedup.insertionSort (· ≤ ·)).map fun layer =>
    (layer, nodes.filter (rank ·.id = layer))

/-- A graph in layers. -/
structure LaidOut (nodes : List CfgNode) (edges : List CfgEdge) (entry : CfgNode) (rank : Nat → Nat) : Prop where
  away : ∀ node ∈ nodes, Away (pairsOf edges) entry.id node.id (rank node.id)
  top : ∀ node ∈ nodes, rank node.id = 0 ↔ node = entry
  layers : ∃ depth, (nodesByLayer nodes rank).map (·.1) = List.range depth
  down : ∀ edge ∈ edges, rank edge.toId ≤ rank edge.fromId + 1

/-! ## Layers without a gap -/

theorem sorted_nodesByLayer (nodes : List CfgNode) (rank : Nat → Nat) :
    ((nodesByLayer nodes rank).map (·.1)).Pairwise (· < ·) := by
  rw [nodesByLayer, List.map_map, List.map_id'']
  swap
  · intro layer
    rfl
  have hsorted := List.pairwise_insertionSort (· ≤ ·) (nodes.map fun node => rank node.id).dedup
  have hnodup := (List.perm_insertionSort (· ≤ ·) (nodes.map fun node => rank node.id).dedup).nodup_iff.mpr
    (List.nodup_dedup _)
  exact hsorted.imp₂ (fun _ _ hle hne => Nat.lt_of_le_of_ne hle hne) hnodup

theorem mem_nodesByLayer {nodes : List CfgNode} {rank : Nat → Nat} {layer : Nat} :
    layer ∈ (nodesByLayer nodes rank).map (·.1) ↔ ∃ node ∈ nodes, rank node.id = layer := by
  rw [nodesByLayer, List.map_map, List.map_id'']
  · rw [List.mem_insertionSort, List.mem_dedup, List.mem_map]
  · intro layer
    rfl

/-- What has everything below its members is a range. -/
theorem eq_range_of_down {l : List Nat} (hsorted : l.Pairwise (· < ·)) (hdown : ∀ n, n + 1 ∈ l → n ∈ l) :
    l = List.range l.length := by
  have hbelow (n k : Nat) (h : n + k ∈ l) : n ∈ l := by
    induction k with
    | zero => exact h
    | succ k ih => exact ih (hdown _ h)
  obtain ⟨top, htop⟩ : ∃ n, n ∉ l := Infinite.exists_notMem_finset l.toFinset |>.imp fun n hn => by simpa using hn
  have hleast := Nat.find_spec (⟨top, htop⟩ : ∃ n, n ∉ l)
  have hmem (n : Nat) : n ∈ l ↔ n < Nat.find (⟨top, htop⟩ : ∃ n, n ∉ l) := by
    refine ⟨fun hn => ?_, fun hlt => not_not.mp (Nat.find_min _ hlt)⟩
    by_contra hle
    obtain ⟨k, rfl⟩ := Nat.exists_eq_add_of_le (not_lt.mp hle)
    exact hleast (hbelow _ k hn)
  have heq : l = List.range (Nat.find (⟨top, htop⟩ : ∃ n, n ∉ l)) :=
    hsorted.eq_of_mem_iff List.pairwise_lt_range fun n => by rw [hmem, List.mem_range]
  rw [heq, List.length_range]

section Layout

variable {nodes : List CfgNode} {edges : List CfgEdge} {entry : CfgNode} {entryAddr : Int64}

/-- **The layout of a graph** all of which the entry leads to. -/
theorem laidOut (hids : (nodes.map (·.id)).Nodup) (hentry : entryNode nodes entryAddr = some entry)
    (hends : ∀ edge ∈ edges, (∃ node ∈ nodes, node.id = edge.fromId) ∧ ∃ node ∈ nodes, node.id = edge.toId)
    (hreach : ∀ node ∈ nodes, Relation.ReflTransGen (fun a b => (a, b) ∈ pairsOf edges) entry.id node.id) :
    LaidOut nodes edges entry (rankOf nodes edges entryAddr) := by
  have haway (node : CfgNode) (hnode : node ∈ nodes) :
      Away (pairsOf edges) entry.id node.id (rankOf nodes edges entryAddr node.id) := by
    rw [rankOf, hentry]
    exact (rank_layers entry.id node.id rfl).1 (exists_path (hreach node hnode))
  have hmem : entry ∈ nodes := by
    rw [entryNode, Option.or_eq_some_iff] at hentry
    exact hentry.elim List.mem_of_find?_eq_some fun h => List.mem_of_head? h.2
  refine ⟨haway, fun node hnode => ⟨fun hrank => ?_, ?_⟩,
    ⟨_, eq_range_of_down (sorted_nodesByLayer _ _) fun n hn => ?_⟩, fun edge hedge => ?_⟩
  · have h := haway node hnode
    rw [hrank] at h
    exact List.inj_on_of_nodup_map hids hnode hmem h.eq_start
  · rintro rfl
    exact (haway node hnode).unique Away.start
  · obtain ⟨node, hnode, hrank⟩ := mem_nodesByLayer.mp hn
    have h := haway node hnode
    rw [hrank] at h
    obtain ⟨id, hid, hpair⟩ := h.exists_above
    obtain ⟨edge, hedge, heq⟩ := List.mem_map.mp hpair
    obtain ⟨from', hfrom, hfromId⟩ := (hends edge hedge).1
    have hsame : from'.id = id := hfromId.trans (Prod.ext_iff.mp heq).1
    exact mem_nodesByLayer.mpr ⟨from', hfrom, (haway from' hfrom).unique (hsame ▸ hid)⟩
  · obtain ⟨⟨from', hfrom, hfromId⟩, to', hto, htoId⟩ := hends edge hedge
    rw [← hfromId, ← htoId]
    refine (haway from' hfrom).le_succ (haway to' hto) (List.mem_map.mpr ⟨edge, hedge, ?_⟩)
    rw [hfromId, htoId]

end Layout

/-! ## The graphs that are drawn -/

section Numbered

variable {instrs : List DisasmLine} {leaders : List Int64} {allNodes externalNodes nodes : List CfgNode}
  {node : CfgNode} {edge : CfgEdge}

/-- Nodes are numbered one after the other. -/
def Numbered (nodes : List CfgNode) : Prop := nodes.map (·.id) = List.range nodes.length

theorem Numbered.snoc (h : Numbered nodes) (hid : node.id = nodes.length) : Numbered (nodes ++ [node]) := by
  rw [Numbered, List.map_append, List.map_singleton, h, hid, List.length_append, List.length_singleton,
    List.range_succ]

theorem numbered_allNodesOf : Numbered (allNodesOf instrs leaders) := by
  refine List.ext_getElem (by simp) fun i hi hi' => ?_
  simp [allNodesOf, nodeOf]

theorem Numbered.nodup (h : Numbered nodes) : (nodes.map (·.id)).Nodup := h ▸ List.nodup_range

/-- A target is one of the nodes, or the next one. -/
theorem getOrCreateTarget_numbered (hnum : Numbered (allNodes ++ externalNodes)) (addr : Int64) :
    Numbered (allNodes ++ (getOrCreateTarget allNodes externalNodes addr).2) ∧
      externalNodes ⊆ (getOrCreateTarget allNodes externalNodes addr).2 ∧
      ∀ id ∈ (getOrCreateTarget allNodes externalNodes addr).1,
        ∃ node ∈ allNodes ++ (getOrCreateTarget allNodes externalNodes addr).2, node.id = id := by
  rw [getOrCreateTarget]
  cases hstart : startAddrToNodeId allNodes addr with
  | some id =>
    refine ⟨hnum, List.Subset.refl _, fun id' hid => ?_⟩
    obtain rfl := Option.some.inj hid
    obtain ⟨node, hnode, rfl⟩ := Option.map_eq_some_iff.mp hstart
    exact ⟨node, List.mem_append_left _ (List.mem_of_mem_filter (List.mem_of_getLast? hnode)), rfl⟩
  | none =>
    dsimp only
    by_cases hzero : addr = 0
    · rw [if_pos hzero]
      exact ⟨hnum, List.Subset.refl _, fun id hid => absurd hid (Option.not_mem_none id)⟩
    rw [if_neg hzero]
    cases hfind : externalNodes.find? (·.startAddr = addr) with
    | some node =>
      refine ⟨hnum, List.Subset.refl _, fun id hid => ?_⟩
      obtain rfl := Option.some.inj hid
      exact ⟨node, List.mem_append_right _ (List.mem_of_find?_eq_some hfind), rfl⟩
    | none =>
      refine ⟨?_, List.subset_append_left _ _, fun id hid => ?_⟩
      · rw [← List.append_assoc]
        exact hnum.snoc List.length_append.symm
      · obtain rfl := Option.some.inj hid
        exact ⟨_, List.mem_append_right _ (List.mem_append_right _ (List.mem_singleton_self _)), rfl⟩

/-- Edges go from the node to nodes, and the nodes stay numbered. -/
structure Ends (allNodes externalNodes nodes : List CfgNode) (r : List CfgEdge × List CfgNode) : Prop where
  numbered : Numbered (allNodes ++ r.2)
  more : externalNodes ⊆ r.2
  starts : ∀ edge ∈ r.1, ∃ node ∈ nodes, node.id = edge.fromId
  ends : ∀ edge ∈ r.1, ∃ node ∈ allNodes ++ r.2, node.id = edge.toId

theorem Ends.none (hnum : Numbered (allNodes ++ externalNodes)) :
    Ends allNodes externalNodes nodes ([], externalNodes) :=
  ⟨hnum, List.Subset.refl _, fun _ h => absurd h List.not_mem_nil, fun _ h => absurd h List.not_mem_nil⟩

theorem branchEdge_ends (hnum : Numbered (allNodes ++ externalNodes)) (line : DisasmLine) (type : EdgeType) :
    Ends allNodes externalNodes [node] (branchEdge allNodes externalNodes node.id line type) := by
  rw [branchEdge]
  split
  · obtain ⟨hnum', hmore, hends⟩ := getOrCreateTarget_numbered hnum (branchTarget line)
    refine ⟨hnum', hmore, fun edge hedge => ?_, fun edge hedge => ?_⟩
    · obtain ⟨id, -, rfl⟩ := List.mem_map.mp hedge
      exact ⟨node, List.mem_singleton_self _, rfl⟩
    · obtain ⟨id, hid, rfl⟩ := List.mem_map.mp hedge
      exact hends id (Option.mem_toList.mp hid)
  · exact Ends.none hnum

theorem fallEdge_ends {line : DisasmLine} {type : EdgeType} (hedge : edge ∈ fallEdge allNodes node.id line type) :
    edge.fromId = node.id ∧ ∃ to' ∈ allNodes, to'.id = edge.toId := by
  obtain ⟨id, hid, rfl⟩ := List.mem_map.mp hedge
  obtain ⟨to', hto, rfl⟩ := Option.map_eq_some_iff.mp (Option.mem_toList.mp hid)
  exact ⟨rfl, to', List.mem_of_mem_filter (List.mem_of_getLast? hto), rfl⟩

theorem edgesOf_ends (hnum : Numbered (allNodes ++ externalNodes)) :
    Ends allNodes externalNodes [node] (edgesOf allNodes externalNodes node) := by
  rw [edgesOf]
  cases node.instructions.getLast? with
  | none => exact Ends.none hnum
  | some line =>
    have hself : ∃ node' ∈ [node], node'.id = node.id := ⟨node, List.mem_singleton_self _, rfl⟩
    dsimp only
    by_cases hcond : line.instr.isCondJmp = true
    · rw [if_pos hcond]
      obtain ⟨hnum', hmore, hstarts, hends⟩ := @branchEdge_ends _ _ node hnum line .taken
      refine ⟨hnum', hmore, fun edge hedge => ?_, fun edge hedge => ?_⟩
      · rcases List.mem_append.mp hedge with hbranch | hfall
        · exact hstarts edge hbranch
        · exact (fallEdge_ends hfall).1 ▸ hself
      · rcases List.mem_append.mp hedge with hbranch | hfall
        · exact hends edge hbranch
        · obtain ⟨-, to', hto, hid⟩ := fallEdge_ends hfall
          exact ⟨to', List.mem_append_left _ hto, hid⟩
    rw [if_neg hcond]
    by_cases hjmp : line.instr.isJmp = true
    · rw [if_pos hjmp]
      exact branchEdge_ends hnum line _
    rw [if_neg hjmp]
    by_cases hret : line.instr.isRet = true
    · rw [if_pos hret]
      exact Ends.none hnum
    · rw [if_neg hret]
      refine ⟨hnum, List.Subset.refl _, fun edge hedge => ?_, fun edge hedge => ?_⟩
      · exact (fallEdge_ends (List.mem_of_mem_filter hedge)).1 ▸ hself
      · obtain ⟨-, to', hto, hid⟩ := fallEdge_ends (List.mem_of_mem_filter hedge)
        exact ⟨to', List.mem_append_left _ hto, hid⟩

theorem edgesFrom_ends (hnum : Numbered (allNodes ++ externalNodes)) :
    Ends allNodes externalNodes nodes (edgesFrom allNodes nodes externalNodes) := by
  induction nodes generalizing externalNodes with
  | nil => exact Ends.none hnum
  | cons node nodes ih =>
    have hfirst : Ends allNodes externalNodes [node] (edgesOf allNodes externalNodes node) := edgesOf_ends hnum
    have hrest := ih hfirst.numbered
    refine ⟨hrest.numbered, List.Subset.trans hfirst.more hrest.more, fun edge hedge => ?_, fun edge hedge => ?_⟩
    · rcases List.mem_append.mp hedge with hedge | hedge
      · obtain ⟨node', hnode, hid⟩ := hfirst.starts edge hedge
        exact ⟨node', List.mem_cons.mpr (.inl (List.mem_singleton.mp hnode)), hid⟩
      · obtain ⟨node', hnode, hid⟩ := hrest.starts edge hedge
        exact ⟨node', List.mem_cons_of_mem _ hnode, hid⟩
    · rcases List.mem_append.mp hedge with hedge | hedge
      · obtain ⟨node', hnode, hid⟩ := hfirst.ends edge hedge
        refine ⟨node', ?_, hid⟩
        exact (List.mem_append.mp hnode).elim (List.mem_append_left _) fun h => List.mem_append_right _ (hrest.more h)
      · exact hrest.ends edge hedge

end Numbered

section Kept

variable {instrs : List DisasmLine} {leaders : List Int64} {allNodes externalNodes : List CfgNode}
  {edges : List CfgEdge} {seen : List Nat} {entryPoint : Int64} {start : CfgNode}

/-- A path goes over edges that are kept. -/
theorem path_kept {s id : Nat} (hseen : ∀ id, id ∈ seen ↔ Relation.ReflTransGen (fun a b => (a, b) ∈ pairsOf edges) s id)
    (h : id ∈ seen) : Relation.ReflTransGen (fun a b => (a, b) ∈ pairsOf (edges.filter fun edge =>
      edge.fromId ∈ seen ∧ edge.toId ∈ seen)) s id := by
  have hpath := (hseen id).mp h
  induction hpath with
  | refl => exact .refl
  | @tail x y hx hedge ih =>
    refine (ih ((hseen x).mpr hx)).tail ?_
    obtain ⟨edge, hmem, heq⟩ := List.mem_map.mp hedge
    obtain ⟨rfl, rfl⟩ := Prod.ext_iff.mp heq
    have hends : edge.fromId ∈ seen ∧ edge.toId ∈ seen := ⟨(hseen _).mpr hx, h⟩
    exact List.mem_map.mpr ⟨edge, List.mem_filter.mpr ⟨hmem, decide_eq_true hends⟩, rfl⟩

/-- The node that the search started from is the one that the layout starts from. -/
theorem entryNode_kept (hstart : allNodes.find? (·.startAddr = entryPoint) = some start) (hseen : start.id ∈ seen) :
    entryNode ((allNodes ++ externalNodes).filter (·.id ∈ seen)) entryPoint = some start := by
  obtain ⟨haddr, before, after, rfl, hbefore⟩ := List.find?_eq_some_iff_append.mp hstart
  have hfind : ((before ++ start :: after ++ externalNodes).filter (·.id ∈ seen)).find? (·.startAddr = entryPoint) =
      some start := by
    rw [List.find?_filter, List.append_assoc, List.find?_append, List.find?_eq_none.mpr, Option.none_or,
      List.cons_append, List.find?_cons_of_pos]
    · rw [decide_eq_true hseen, haddr]
      rfl
    · intro node hnode
      simpa [Bool.and_eq_true] using fun _ => by simpa using hbefore node hnode
  rw [entryNode, hfind, Option.some_or]

/-- What is left of the graph is laid out. -/
theorem laidOut_reachableOf (hends : Ends allNodes [] allNodes (edges, externalNodes))
    (hstart : allNodes.find? (·.startAddr = entryPoint) = some start) :
    let g := reachableOf allNodes externalNodes edges entryPoint
    entryNode g.1 entryPoint = some start ∧ LaidOut g.1 g.2 start (rankOf g.1 g.2 entryPoint) := by
  have hseen (id : Nat) : id ∈ search (edges.map fun edge => (edge.fromId, edge.toId)) [start.id] [start.id] ↔
      Relation.ReflTransGen (fun a b => (a, b) ∈ pairsOf edges) start.id id := mem_search_from
  rw [reachableOf, hstart, Option.some_or]
  dsimp only
  generalize search (edges.map fun edge => (edge.fromId, edge.toId)) [start.id] [start.id] = seen at hseen
  have hentry : entryNode ((allNodes ++ externalNodes).filter (·.id ∈ seen)) entryPoint = some start :=
    entryNode_kept hstart ((hseen _).mpr .refl)
  refine ⟨hentry, laidOut (hends.numbered.nodup.sublist (List.filter_sublist.map _)) hentry (fun edge hedge => ?_)
    fun node hnode => path_kept hseen (of_decide_eq_true (List.mem_filter.mp hnode).2)⟩
  obtain ⟨hmem, hkept⟩ := List.mem_filter.mp hedge
  obtain ⟨hfrom, hto⟩ := of_decide_eq_true hkept
  obtain ⟨node, hnode, hid⟩ := hends.starts edge hmem
  obtain ⟨node', hnode', hid'⟩ := hends.ends edge hmem
  exact ⟨⟨node, List.mem_filter.mpr ⟨List.mem_append_left _ hnode, decide_eq_true (hid ▸ hfrom)⟩, hid⟩,
    node', List.mem_filter.mpr ⟨hnode', decide_eq_true (hid' ▸ hto)⟩, hid'⟩

end Kept

theorem filterLines_ne_nil {instructions : List DisasmLine} (hne : instructions ≠ []) (filterAddr : Option Int64) :
    filterLines instructions filterAddr ≠ [] := by
  cases filterAddr with
  | some addr =>
    have hindex : (instructions.findIdx? fun line => addr ≤ line.instr.addr).getD 0 < instructions.length := by
      cases hfind : instructions.findIdx? fun line => addr ≤ line.instr.addr with
      | none => exact List.length_pos_iff.mpr hne
      | some i => exact (List.findIdx?_eq_some_iff_findIdx_eq.mp hfind).1
    rw [filterLines, List.drop_eq_getElem_cons hindex, throughRet]
    split <;> exact List.cons_ne_nil _ _
  | none =>
    cases instructions with
    | nil => exact absurd rfl hne
    | cons first lines =>
      refine List.ne_nil_of_mem (a := first) ?_
      rw [filterLines, List.mem_insertionSort, distinctBy]
      exact List.mem_cons_self

theorem entryPointOf_mem {instrs : List DisasmLine} (hne : instrs ≠ []) (filterAddr : Option Int64) :
    entryPointOf instrs filterAddr ∈ addrsOf instrs := by
  have hfirst : firstAddr instrs ∈ addrsOf instrs := firstAddr_mem hne
  cases filterAddr with
  | none => exact hfirst
  | some addr =>
    rw [entryPointOf]
    split
    · assumption
    · exact hfirst

/-- **The graph of a listing is drawn by distance**: of whatever lines, and whichever of them it starts at, each block
is as many layers below the entry as a shortest path from the entry to it has edges. -/
theorem layoutNinja_spec (instructions : List DisasmLine) (filterAddr : Option Int64)
    (globalJumpTargets : Int64 → Bool) :
    let g := buildCfg instructions filterAddr globalJumpTargets
    let entryPoint := entryPointOf (filterLines instructions filterAddr) filterAddr
    instructions = [] ∨ ∃ entry, entryNode g.1 entryPoint = some entry ∧ entry.startAddr = entryPoint ∧
      LaidOut g.1 g.2 entry (rankOf g.1 g.2 entryPoint) := by
  by_cases hnil : instructions = []
  · exact .inl hnil
  have hne := filterLines_ne_nil hnil filterAddr
  rw [buildCfg, if_neg (by simpa using hnil)]
  generalize filterLines instructions filterAddr = instrs at hne
  dsimp only
  rw [if_neg (by simpa using hne), graphOf]
  have hmem := entryPointOf_mem hne filterAddr
  generalize entryPointOf instrs filterAddr = entryPoint at hmem
  have hleader : entryPoint ∈ leadersOf instrs entryPoint globalJumpTargets := List.mem_cons_self
  generalize leadersOf instrs entryPoint globalJumpTargets = leaders at hleader
  obtain ⟨line, hline, rfl⟩ := List.mem_map.mp hmem
  -- a block starts at the entry
  obtain ⟨rest, hblock⟩ := @exists_block_of_lead _ (fun line => decide (line.instr.addr ∈ leaders)) _ _ hline
    (decide_eq_true hleader)
  obtain ⟨node, hnode, hinstrs⟩ := exists_node hblock
  have haddr : node.startAddr = line.instr.addr := by rw [startAddr_eq hnode, hinstrs]; rfl
  obtain ⟨start, hstart⟩ := Option.isSome_iff_exists.mp
    (List.find?_isSome.mpr ⟨node, hnode, decide_eq_true haddr⟩ :
      ((allNodesOf instrs leaders).find? (·.startAddr = line.instr.addr)).isSome)
  have hends := @edgesFrom_ends (allNodesOf instrs leaders) [] (allNodesOf instrs leaders)
    (by rw [List.append_nil]; exact numbered_allNodesOf)
  obtain ⟨hentry, hlaid⟩ := laidOut_reachableOf hends hstart
  have hat : start.startAddr = line.instr.addr := by simpa using List.find?_some hstart
  exact .inr ⟨start, hentry, hat, hlaid⟩

end Ps5Debugger
