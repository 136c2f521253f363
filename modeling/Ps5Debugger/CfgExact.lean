import Ps5Debugger.CfgEdges

/-!
# The graph is exact

`graph_exact`: of any listing the passes of `buildCfg` make a graph that shows what control reaches from the first
line, and nothing else (`ExactCfg`). What the search reaches are the blocks whose first line control reaches
(`flow_of_seen`, `seen_of_flow`).

`buildCfg_exact` is that for a whole listing.
-/

namespace Ps5Debugger

open Lib
open Relation (ReflTransGen)

/-! ## Lists that correspond -/

section Lists

variable {α β : Type} {R : α → β → Prop} {l : List α} {l' : List β}

theorem exists_right_of_forall₂ (h : List.Forall₂ R l l') {a : α} (ha : a ∈ l) : ∃ b ∈ l', R a b := by
  induction h with
  | nil => cases ha
  | cons hab _ ih =>
    rcases List.mem_cons.mp ha with rfl | ha
    · exact ⟨_, List.mem_cons_self .., hab⟩
    · obtain ⟨b, hb, hab⟩ := ih ha
      exact ⟨b, List.mem_cons_of_mem _ hb, hab⟩

theorem exists_left_of_forall₂ (h : List.Forall₂ R l l') {b : β} (hb : b ∈ l') : ∃ a ∈ l, R a b := by
  obtain ⟨a, ha, hab⟩ := exists_right_of_forall₂ h.flip hb
  exact ⟨a, ha, hab⟩

end Lists

variable {instrs : List DisasmLine} {leaders : List Int64} {line line' : DisasmLine} {addr : Int64}
  {node node' : CfgNode} {externalNodes : List CfgNode} {edges : List CfgEdge}

/-! ## Numbers of nodes -/

theorem Stubs.of_mem {allNodes : List CfgNode} (h : Stubs allNodes externalNodes) (hnode : node ∈ externalNodes) :
    node.instructions = [] ∧ node.endAddr = node.startAddr ∧ node.isExternal = true := by
  obtain ⟨i, hi⟩ := List.mem_iff_getElem?.mp hnode
  rw [h.form i node hi]
  exact ⟨rfl, rfl, rfl⟩

theorem not_external (h : node ∈ allNodesOf instrs leaders) : node.isExternal = false := by
  rw [(node_spec h).2.1]
  rfl

theorem nodup_ids (h : Stubs (allNodesOf instrs leaders) externalNodes) :
    ((allNodesOf instrs leaders ++ externalNodes).map (·.id)).Nodup := by
  have hrange : (allNodesOf instrs leaders ++ externalNodes).map (·.id) =
      List.range (allNodesOf instrs leaders ++ externalNodes).length := by
    refine List.ext_getElem (by simp) fun i hi hi' => ?_
    rw [List.length_map] at hi
    rw [List.getElem_map, List.getElem_range]
    rcases Nat.lt_or_ge i (allNodesOf instrs leaders).length with hlt | hge
    · rw [List.getElem_append_left hlt]
      simp only [allNodesOf, List.getElem_mapIdx, nodeOf]
    · rw [List.getElem_append_right hge]
      have hget := List.getElem?_eq_getElem (l := externalNodes)
        (i := i - (allNodesOf instrs leaders).length) (by rw [List.length_append] at hi; omega)
      rw [h.form _ _ hget]
      exact Nat.add_sub_cancel' hge
  rw [hrange]
  exact List.nodup_range

theorem eq_of_id (h : Stubs (allNodesOf instrs leaders) externalNodes)
    (hnode : node ∈ allNodesOf instrs leaders ++ externalNodes)
    (hnode' : node' ∈ allNodesOf instrs leaders ++ externalNodes) (heq : node.id = node'.id) : node = node' :=
  List.inj_on_of_nodup_map (nodup_ids h) hnode hnode' heq

theorem nodup_startAddrs (h : Listing instrs) (hs : Stubs (allNodesOf instrs leaders) externalNodes) :
    ((allNodesOf instrs leaders ++ externalNodes).map (·.startAddr)).Nodup := by
  rw [List.map_append, List.nodup_append]
  refine ⟨nodup_starts h, hs.nodup, fun a ha b hb heq => ?_⟩
  obtain ⟨stub, hstub, rfl⟩ := List.mem_map.mp hb
  exact hs.fresh stub hstub (heq ▸ ha)

/-! ## Flow inside a block -/

theorem fallExits_of_not_endsBlock (h : ¬ EndsBlock line) : fallExits line = [(.unconditional, line.instr.next)] := by
  rw [EndsBlock, not_or, not_or] at h
  rw [fallExits, if_neg h.2.1, if_neg (by simp [h.1, h.2.2])]

theorem fallExits_eq {exit : EdgeType × Int64} (h : exit ∈ fallExits line) : exit.2 = line.instr.next := by
  rw [fallExits] at h
  split_ifs at h
  · rw [List.mem_singleton.mp h]
  · cases h
  · rw [List.mem_singleton.mp h]

theorem branchExits_of_not_endsBlock (h : ¬ EndsBlock line) : branchExits line = [] := by
  rw [EndsBlock, not_or, not_or] at h
  rw [branchExits, if_neg h.2.1, if_neg h.1, ite_self]

/-- Control goes through a block from its first line. -/
theorem flow_in_block (h : Listing instrs) (hl : Leads instrs leaders) {block : List DisasmLine}
    (hblock : block ∈ blocksOf instrs leaders) (hline : line ∈ block) :
    ReflTransGen (Flow instrs) (firstAddr block) line.instr.addr := by
  have hstep : ∀ l l', [l, l'] <:+: block → Flow instrs l.instr.addr l'.instr.addr := fun l l' hpair => by
    obtain ⟨hnext, hno⟩ := next_in_block h hl hblock hpair
    obtain ⟨hmem, hmem'⟩ := mem_of_pair (hpair.trans (infix_of_mem_blocks hblock))
    refine ⟨l, hmem, rfl, List.mem_map_of_mem hmem', .unconditional, List.mem_append_right _ ?_⟩
    rw [fallExits_of_not_endsBlock hno, hnext]
    exact List.mem_singleton.mpr rfl
  clear hblock
  induction block with
  | nil => cases hline
  | cons first rest ih =>
    rcases List.mem_cons.mp hline with rfl | hline
    · exact .refl
    · cases rest with
      | nil => cases hline
      | cons second rest =>
        have hfirst := hstep first second ⟨[], rest, rfl⟩
        exact .head hfirst (ih hline fun l l' hpair => hstep l l' (hpair.trans (List.infix_cons_iff.mpr (.inr
          List.infix_rfl))))

/-! ## What the search reaches -/

/-- What pass 4 made. -/
structure Drawn (instrs : List DisasmLine) (leaders : List Int64) (externalNodes : List CfgNode)
    (edges : List CfgEdge) : Prop where
  listing : Listing instrs
  leads : Leads instrs leaders
  stubs : Stubs (allNodesOf instrs leaders) externalNodes
  follows : List.Forall₂ (Follows (allNodesOf instrs leaders ++ externalNodes)) edges
    ((allNodesOf instrs leaders).flatMap fun node => (node.exits instrs).map fun exit => (node, exit))
  needed : ∀ stub ∈ externalNodes, ∃ node ∈ allNodesOf instrs leaders, BranchesTo node stub.startAddr

def pairsOf (edges : List CfgEdge) : List (Nat × Nat) := edges.map fun edge => (edge.fromId, edge.toId)

/-- The search from the first node comes to a node. -/
def Seen (edges : List CfgEdge) (id : Nat) : Prop := ReflTransGen (fun a b => (a, b) ∈ pairsOf edges) 0 id

theorem Seen.edge {edge : CfgEdge} (h : Seen edges edge.fromId) (hedge : edge ∈ edges) : Seen edges edge.toId :=
  h.tail (List.mem_map.mpr ⟨edge, hedge, rfl⟩)

namespace Drawn

/-- An edge leaves a node by one of its exits. -/
theorem exit_of_edge (h : Drawn instrs leaders externalNodes edges) {edge : CfgEdge} (hedge : edge ∈ edges) :
    ∃ node ∈ allNodesOf instrs leaders, ∃ exit ∈ node.exits instrs,
      Follows (allNodesOf instrs leaders ++ externalNodes) edge (node, exit) := by
  obtain ⟨pair, hpair, hfollows⟩ := exists_right_of_forall₂ h.follows hedge
  obtain ⟨node, hnode, hmem⟩ := List.mem_flatMap.mp hpair
  obtain ⟨exit, hexit, rfl⟩ := List.mem_map.mp hmem
  exact ⟨node, hnode, exit, hexit, hfollows⟩

/-- Each exit of a node has an edge. -/
theorem edge_of_exit (h : Drawn instrs leaders externalNodes edges) (hnode : node ∈ allNodesOf instrs leaders)
    {exit : EdgeType × Int64} (hexit : exit ∈ node.exits instrs) :
    ∃ edge ∈ edges, Follows (allNodesOf instrs leaders ++ externalNodes) edge (node, exit) :=
  exists_left_of_forall₂ h.follows (List.mem_flatMap.mpr ⟨node, hnode, List.mem_map.mpr ⟨exit, hexit, rfl⟩⟩)

theorem mem_exits {exit : EdgeType × Int64} (hexit : exit ∈ node.exits instrs) :
    ∃ last, node.instructions.getLast? = some last ∧ (exit ∈ branchExits last ∨
      (exit ∈ fallExits last ∧ exit.2 ∈ addrsOf instrs)) := by
  obtain ⟨last, hlast, hmem⟩ := List.mem_flatMap.mp hexit
  refine ⟨last, Option.mem_toList.mp hlast, ?_⟩
  rcases List.mem_append.mp hmem with hbranch | hfall
  · exact .inl hbranch
  · obtain ⟨hfall, hin⟩ := List.mem_filter.mp hfall
    exact .inr ⟨hfall, of_decide_eq_true hin⟩

/-- An exit to a line goes to the start of a node. -/
theorem start_of_exit (h : Drawn instrs leaders externalNodes edges) (hnode : node ∈ allNodesOf instrs leaders)
    {exit : EdgeType × Int64} (hexit : exit ∈ node.exits instrs) (hin : exit.2 ∈ addrsOf instrs) :
    exit.2 ∈ (allNodesOf instrs leaders).map (·.startAddr) := by
  obtain ⟨last, hlast, hbranch | ⟨hfall, -⟩⟩ := mem_exits hexit
  · exact target_mem_starts h.leads (mem_of_mem_blocks (node_spec hnode).1 (List.mem_of_getLast? hlast)) hbranch hin
  · obtain ⟨block, hblock, hfirst, -⟩ := exists_next_block h.listing (node_spec hnode).1 hlast
      ((fallExits_eq hfall) ▸ hin)
    rw [map_startAddr, fallExits_eq hfall, ← hfirst]
    exact List.mem_map_of_mem hblock

/-- Control reaches the lines of a node that is seen. -/
theorem flow_of_seen (h : Drawn instrs leaders externalNodes edges) {id : Nat} (hseen : Seen edges id)
    (hzero : ∀ node ∈ allNodesOf instrs leaders, node.id = 0 → node.startAddr = firstAddr instrs)
    (hnode : node ∈ allNodesOf instrs leaders) (hid : node.id = id) (hline : line ∈ node.instructions) :
    ReflTransGen (Flow instrs) (firstAddr instrs) line.instr.addr := by
  induction hseen generalizing node line with
  | refl =>
    have hblock := flow_in_block h.listing h.leads (node_spec hnode).1 hline
    rwa [← startAddr_eq hnode, hzero node hnode hid] at hblock
  | tail _ hpair ih =>
    obtain ⟨edge, hedge, hends⟩ := List.mem_map.mp hpair
    obtain ⟨rfl, rfl⟩ := Prod.mk.inj hends
    obtain ⟨from', hfrom, exit, hexit, hid', -, target, htarget, haddr, hto⟩ := h.exit_of_edge hedge
    obtain rfl := eq_of_id h.stubs htarget (List.mem_append_left _ hnode) (hto.trans hid.symm)
    obtain ⟨last, hlast, hexit⟩ := mem_exits hexit
    have hlast' := List.mem_of_getLast? hlast
    have hbefore := ih hfrom hid'.symm hlast'
    have hstart : target.startAddr ∈ addrsOf instrs := starts_subset (List.mem_map_of_mem hnode)
    have hflow : Flow instrs last.instr.addr target.startAddr := by
      refine ⟨last, mem_of_mem_blocks (node_spec hfrom).1 hlast', rfl, hstart, exit.1, ?_⟩
      rw [haddr]
      exact List.mem_append.mpr (hexit.imp (fun hbranch => hbranch) And.left)
    have hblock := flow_in_block h.listing h.leads (node_spec hnode).1 hline
    rw [← startAddr_eq hnode] at hblock
    exact (hbefore.tail hflow).trans hblock

/-- A line at which control ends a block is the last of its block. -/
theorem last_of_endsBlock (h : Drawn instrs leaders externalNodes edges) (hnode : node ∈ allNodesOf instrs leaders)
    (hline : line ∈ node.instructions) (hends : EndsBlock line) : node.instructions.getLast? = some line := by
  rcases last_or_next hline with hlast | ⟨line', hpair⟩
  · exact hlast
  · exact absurd hends (next_in_block h.listing h.leads (node_spec hnode).1 hpair).2

/-- The line at an address. -/
theorem line_eq (h : Drawn instrs leaders externalNodes edges) (hline : line ∈ instrs) (hline' : line' ∈ instrs)
    (heq : line.instr.addr = line'.instr.addr) : line = line' :=
  List.inj_on_of_nodup_map h.listing.nodup hline hline' heq

/-- The node that an exit leads to is seen. -/
theorem seen_exit (h : Drawn instrs leaders externalNodes edges) (hnode : node ∈ allNodesOf instrs leaders)
    (hseen : Seen edges node.id) {exit : EdgeType × Int64} (hexit : exit ∈ node.exits instrs) :
    ∃ target ∈ allNodesOf instrs leaders ++ externalNodes, target.startAddr = exit.2 ∧ Seen edges target.id := by
  obtain ⟨edge, hedge, hfrom, -, target, htarget, haddr, hto⟩ := h.edge_of_exit hnode hexit
  refine ⟨target, htarget, haddr, ?_⟩
  rw [hto]
  exact Seen.edge (hfrom ▸ hseen) hedge

/-- The node of an address that control reaches is seen. -/
theorem seen_of_flow (h : Drawn instrs leaders externalNodes edges)
    (hfirst : ∃ node ∈ allNodesOf instrs leaders, node.id = 0 ∧ firstAddr instrs ∈ addrsOf node.instructions)
    (hflow : ReflTransGen (Flow instrs) (firstAddr instrs) addr) :
    ∃ node ∈ allNodesOf instrs leaders, Seen edges node.id ∧ addr ∈ addrsOf node.instructions := by
  induction hflow with
  | refl =>
    obtain ⟨node, hnode, hid, hmem⟩ := hfirst
    exact ⟨node, hnode, hid ▸ .refl, hmem⟩
  | @tail _ addr _ hstep ih =>
    obtain ⟨node, hnode, hseen, hmem⟩ := ih
    obtain ⟨line, hline, rfl, hin, type, hexit⟩ := hstep
    obtain ⟨line', hline', heq⟩ := List.mem_map.mp hmem
    obtain rfl := h.line_eq (mem_of_mem_blocks (node_spec hnode).1 hline') hline heq
    rcases last_or_next hline' with hlast | ⟨next, hpair⟩
    · -- from one block to another
      have hexit' : (type, addr) ∈ node.exits instrs := by
        rw [exits_eq hlast]
        rcases List.mem_append.mp hexit with hbranch | hfall
        · exact List.mem_append_left _ hbranch
        · exact List.mem_append_right _ (List.mem_filter.mpr ⟨hfall, decide_eq_true hin⟩)
      obtain ⟨target, htarget, (haddr : target.startAddr = addr), hseen'⟩ := h.seen_exit hnode hseen hexit'
      rcases List.mem_append.mp htarget with htarget | hstub
      · refine ⟨target, htarget, hseen', ?_⟩
        rw [← haddr, startAddr_eq htarget]
        exact firstAddr_mem (ne_nil_of_mem_blocks (node_spec htarget).1)
      · exact absurd (haddr ▸ h.start_of_exit hnode hexit' hin) (h.stubs.fresh target hstub)
    · -- inside a block
      obtain ⟨hnext, hno⟩ := next_in_block h.listing h.leads (node_spec hnode).1 hpair
      rw [branchExits_of_not_endsBlock hno, fallExits_of_not_endsBlock hno, List.nil_append] at hexit
      obtain ⟨-, rfl⟩ := Prod.mk.inj (List.mem_singleton.mp hexit)
      refine ⟨node, hnode, hseen, hnext ▸ List.mem_map_of_mem ?_⟩
      exact hpair.subset (List.mem_cons_of_mem _ (List.mem_cons_self ..))

/-! ## The nodes and edges that are kept -/

/-- The first node is the one of the first line. -/
def Starts (instrs : List DisasmLine) (leaders : List Int64) : Prop :=
  ∃ node ∈ allNodesOf instrs leaders, node.id = 0 ∧ node.startAddr = firstAddr instrs

theorem zero_of_starts (h : Drawn instrs leaders externalNodes edges) (hstart : Starts instrs leaders)
    (hnode : node ∈ allNodesOf instrs leaders) (hid : node.id = 0) : node.startAddr = firstAddr instrs := by
  obtain ⟨start, hmem, hzero, haddr⟩ := hstart
  obtain rfl := eq_of_id h.stubs (List.mem_append_left _ hnode) (List.mem_append_left _ hmem) (hid.trans hzero.symm)
  exact haddr

theorem first_of_starts (hstart : Starts instrs leaders) :
    ∃ node ∈ allNodesOf instrs leaders, node.id = 0 ∧ firstAddr instrs ∈ addrsOf node.instructions := by
  obtain ⟨start, hmem, hzero, haddr⟩ := hstart
  refine ⟨start, hmem, hzero, ?_⟩
  rw [← haddr, startAddr_eq hmem]
  exact firstAddr_mem (ne_nil_of_mem_blocks (node_spec hmem).1)

/-- The blocks that are seen are the lines that control reaches. -/
theorem seen_iff (h : Drawn instrs leaders externalNodes edges) (hstart : Starts instrs leaders) (line : DisasmLine) :
    (∃ node ∈ allNodesOf instrs leaders ++ externalNodes, Seen edges node.id ∧ line ∈ node.instructions) ↔
      line ∈ instrs ∧ ReflTransGen (Flow instrs) (firstAddr instrs) line.instr.addr := by
  constructor
  · rintro ⟨node, hnode, hseen, hline⟩
    rcases List.mem_append.mp hnode with hnode | hstub
    · exact ⟨mem_of_mem_blocks (node_spec hnode).1 hline,
        h.flow_of_seen hseen (fun _ => zero_of_starts h hstart) hnode rfl hline⟩
    · rw [(h.stubs.of_mem hstub).1] at hline
      cases hline
  · rintro ⟨hline, hflow⟩
    obtain ⟨node, hnode, hseen, hmem⟩ := h.seen_of_flow (first_of_starts hstart) hflow
    obtain ⟨line', hline', heq⟩ := List.mem_map.mp hmem
    obtain rfl := h.line_eq (mem_of_mem_blocks (node_spec hnode).1 hline') hline heq
    exact ⟨node, List.mem_append_left _ hnode, hseen, hline'⟩

/-- The external nodes that are seen are the targets out of the listing of branches that control reaches. -/
theorem stub_iff (h : Drawn instrs leaders externalNodes edges) (hstart : Starts instrs leaders) (addr : Int64) :
    (∃ stub ∈ externalNodes, Seen edges stub.id ∧ stub.startAddr = addr) ↔
      addr ∉ addrsOf instrs ∧ ∃ line ∈ instrs,
        ReflTransGen (Flow instrs) (firstAddr instrs) line.instr.addr ∧ ∃ type, (type, addr) ∈ branchExits line := by
  constructor
  · rintro ⟨stub, hstub, hseen, rfl⟩
    have hout : stub.startAddr ∉ addrsOf instrs := by
      intro hin
      obtain ⟨node, hnode, last, hlast, type, hexit⟩ := h.needed stub hstub
      have hmem := mem_of_mem_blocks (node_spec hnode).1 (List.mem_of_getLast? hlast)
      exact h.stubs.fresh stub hstub (target_mem_starts h.leads hmem hexit hin)
    refine ⟨hout, ?_⟩
    rcases Relation.ReflTransGen.cases_tail hseen with hzero | ⟨_, hbefore, hpair⟩
    · -- the first node is a block
      obtain ⟨start, hmem, hid, -⟩ := hstart
      have hsame := eq_of_id h.stubs (List.mem_append_right _ hstub) (List.mem_append_left _ hmem)
        (hzero.trans hid.symm)
      have hext := (h.stubs.of_mem hstub).2.2
      rw [hsame, not_external hmem] at hext
      cases hext
    · obtain ⟨edge, hedge, hends⟩ := List.mem_map.mp hpair
      obtain ⟨rfl, hto⟩ := Prod.mk.inj hends
      obtain ⟨node, hnode, exit, hexit, hid, -, target, htarget, haddr, hto'⟩ := h.exit_of_edge hedge
      obtain rfl := eq_of_id h.stubs htarget (List.mem_append_right _ hstub) (hto'.trans hto)
      obtain ⟨last, hlast, hbranch | ⟨-, hin⟩⟩ := mem_exits hexit
      · have hline := List.mem_of_getLast? hlast
        obtain ⟨hmem, hflow⟩ := (seen_iff h hstart last).mp
          ⟨node, List.mem_append_left _ hnode, hid ▸ hbefore, hline⟩
        exact ⟨last, hmem, hflow, exit.1, haddr ▸ hbranch⟩
      · exact absurd (haddr ▸ hin) hout
  · rintro ⟨hout, line, hline, hflow, type, hexit⟩
    obtain ⟨node, hnode, hseen, hmem⟩ := (seen_iff h hstart line).mpr ⟨hline, hflow⟩
    rcases List.mem_append.mp hnode with hnode | hstub
    · have hlast := h.last_of_endsBlock hnode hmem (endsBlock_of_branch hexit)
      have hexit' : (type, addr) ∈ node.exits instrs := by
        rw [exits_eq hlast]
        exact List.mem_append_left _ hexit
      obtain ⟨target, htarget, (haddr : target.startAddr = addr), hseen'⟩ := h.seen_exit hnode hseen hexit'
      rcases List.mem_append.mp htarget with htarget | hstub
      · exact absurd (haddr ▸ starts_subset (List.mem_map_of_mem htarget)) hout
      · exact ⟨target, hstub, hseen', haddr⟩
    · rw [(h.stubs.of_mem hstub).1] at hmem
      cases hmem

/-- What is kept of the nodes by pass 5. -/
def kept (instrs : List DisasmLine) (leaders : List Int64) (externalNodes : List CfgNode) (seen : List Nat) :
    List CfgNode :=
  (allNodesOf instrs leaders ++ externalNodes).filter (·.id ∈ seen)

variable {seen : List Nat}

theorem mem_kept (hseen : ∀ id, id ∈ seen ↔ Seen edges id) : node ∈ kept instrs leaders externalNodes seen ↔
    node ∈ allNodesOf instrs leaders ++ externalNodes ∧ Seen edges node.id := by
  rw [kept, List.mem_filter, decide_eq_true_iff, hseen]

theorem internal_kept (h : Stubs (allNodesOf instrs leaders) externalNodes) :
    ((kept instrs leaders externalNodes seen).filter fun node => !node.isExternal) =
      (allNodesOf instrs leaders).filter (·.id ∈ seen) := by
  rw [kept, List.filter_filter, List.filter_append]
  have hall : (allNodesOf instrs leaders).filter (fun node => !node.isExternal && decide (node.id ∈ seen)) =
      (allNodesOf instrs leaders).filter (·.id ∈ seen) := by
    refine List.filter_congr fun node hnode => ?_
    rw [not_external hnode]
    rfl
  have hstubs : externalNodes.filter (fun node => !node.isExternal && decide (node.id ∈ seen)) = [] := by
    rw [List.filter_eq_nil_iff]
    intro node hnode
    rw [(h.of_mem hnode).2.2]
    exact Bool.false_ne_true
  rw [hall, hstubs, List.append_nil]

/-- Members that carry where they come from are kept with that. -/
theorem filter_flatMap_pairs {α β : Type} (l : List α) (f : α → List β) (p : α → Bool) :
    (l.flatMap fun a => (f a).map fun b => (a, b)).filter (fun pair => p pair.1) =
      (l.filter p).flatMap fun a => (f a).map fun b => (a, b) := by
  induction l with
  | nil => rfl
  | cons a l ih =>
    rw [List.flatMap_cons, List.filter_append, ih, List.filter_map]
    cases hp : p a with
    | true =>
      have hall : (f a).filter ((fun pair : α × β => p pair.1) ∘ fun b => (a, b)) = f a :=
        List.filter_eq_self.mpr fun _ _ => hp
      rw [List.filter_cons_of_pos hp, List.flatMap_cons, hall]
    | false =>
      have hnone : (f a).filter ((fun pair : α × β => p pair.1) ∘ fun b => (a, b)) = [] :=
        List.filter_eq_nil_iff.mpr fun _ _ => Bool.eq_false_iff.mp hp
      rw [List.filter_cons_of_neg (Bool.eq_false_iff.mp hp), hnone]
      rfl

theorem edges_kept (h : Drawn instrs leaders externalNodes edges) (hseen : ∀ id, id ∈ seen ↔ Seen edges id) :
    List.Forall₂ (Follows (kept instrs leaders externalNodes seen))
      (edges.filter fun edge => edge.fromId ∈ seen ∧ edge.toId ∈ seen)
      (((kept instrs leaders externalNodes seen).filter fun node => !node.isExternal).flatMap fun node =>
        (node.exits instrs).map fun exit => (node, exit)) := by
  -- an edge from a node that is seen goes to one that is
  have hfrom : (edges.filter fun edge => edge.fromId ∈ seen ∧ edge.toId ∈ seen) =
      edges.filter (·.fromId ∈ seen) := by
    refine List.filter_congr fun edge hedge => ?_
    rw [decide_eq_decide, and_iff_left_iff_imp]
    intro hin
    exact (hseen _).mpr (Seen.edge ((hseen _).mp hin) hedge)
  have hall : List.Forall₂ (Follows (allNodesOf instrs leaders ++ externalNodes)) (edges.filter (·.fromId ∈ seen))
      (((allNodesOf instrs leaders).flatMap fun node => (node.exits instrs).map fun exit => (node, exit)).filter
        fun pair => decide (pair.1.id ∈ seen)) :=
    List.rel_filter (fun edge pair hfollows => by
      show decide (edge.fromId ∈ seen) = true ↔ decide (pair.1.id ∈ seen) = true
      rw [hfollows.1]) h.follows
  have hpairs := filter_flatMap_pairs (allNodesOf instrs leaders) (·.exits instrs) fun node => decide (node.id ∈ seen)
  rw [hpairs] at hall
  rw [internal_kept h.stubs, hfrom]
  have hmem : ∀ edge ∈ edges.filter (·.fromId ∈ seen), edge.toId ∈ seen := fun edge hedge => by
    obtain ⟨hedge, hin⟩ := List.mem_filter.mp hedge
    exact (hseen _).mpr (Seen.edge ((hseen _).mp (of_decide_eq_true hin)) hedge)
  refine ((List.forall₂_and_left _ _).mpr ⟨hmem, hall⟩).imp ?_
  rintro edge exit ⟨hto, hid, htype, target, htarget, haddr, hnumber⟩
  exact ⟨hid, htype, target, List.mem_filter.mpr ⟨htarget, decide_eq_true (hnumber ▸ hto)⟩, haddr, hnumber⟩

theorem disjoint_kept (h : Drawn instrs leaders externalNodes edges) :
    ((kept instrs leaders externalNodes seen).map fun node => addrsOf node.instructions).Pairwise List.Disjoint := by
  rw [List.pairwise_map]
  refine List.Pairwise.sublist List.filter_sublist (List.pairwise_append.mpr ⟨?_, ?_, ?_⟩)
  · have hblocks := @disjoint_addrs instrs leaders h.listing
    have hmap : (allNodesOf instrs leaders).map (·.instructions) = blocksOf instrs leaders := by
      refine List.ext_getElem? fun i => ?_
      rw [List.getElem?_map, allNodesOf, List.getElem?_mapIdx, Option.map_map]
      exact Option.map_id'
    rw [← hmap, List.pairwise_map] at hblocks
    exact hblocks
  · refine List.pairwise_of_forall_mem_list fun stub hstub _ _ => ?_
    rw [(h.stubs.of_mem hstub).1]
    exact List.disjoint_nil_left _
  · intro _ _ stub hstub
    rw [(h.stubs.of_mem hstub).1]
    exact List.disjoint_nil_right _

theorem run_of_node (hnode : node ∈ allNodesOf instrs leaders) :
    node.instructions ≠ [] ∧ node.instructions <:+: instrs ∧
      (addrsOf node.instructions).head? = some node.startAddr ∧
      (addrsOf node.instructions).getLast? = some node.endAddr := by
  obtain ⟨hblock, heq, -⟩ := node_spec hnode
  have hne := ne_nil_of_mem_blocks hblock
  have haddrs : addrsOf node.instructions ≠ [] := fun hnil => hne (List.map_eq_nil_iff.mp hnil)
  refine ⟨hne, infix_of_mem_blocks hblock, ?_, ?_⟩
  · rw [startAddr_eq hnode, firstAddr, List.head?_eq_some_head haddrs]
    rfl
  · rw [heq, nodeOf]
    dsimp only
    rw [List.getLast?_eq_some_getLast haddrs]
    rfl

theorem exact_of_seen (h : Drawn instrs leaders externalNodes edges) (hstart : Starts instrs leaders)
    (hreach : ∀ addr, Reachable instrs addr ↔ ReflTransGen (Flow instrs) (firstAddr instrs) addr)
    (hseen : ∀ id, id ∈ seen ↔ Seen edges id) :
    ExactCfg instrs (kept instrs leaders externalNodes seen)
      (edges.filter fun edge => edge.fromId ∈ seen ∧ edge.toId ∈ seen) where
  ids := (nodup_ids h.stubs).sublist (List.filter_sublist.map _)
  starts := (nodup_startAddrs h.listing h.stubs).sublist (List.filter_sublist.map _)
  runs node hnode hinternal := by
    rcases List.mem_append.mp ((mem_kept hseen).mp hnode).1 with hnode | hstub
    · exact run_of_node hnode
    · rw [(h.stubs.of_mem hstub).2.2] at hinternal
      cases hinternal
  disjoint := disjoint_kept h
  leaders node hnode line hline := by
    rcases List.mem_append.mp ((mem_kept hseen).mp hnode).1 with hnode | hstub
    · exact not_startsBlock_tail h.leads (node_spec hnode).1 hline
    · rw [(h.stubs.of_mem hstub).1] at hline
      cases hline
  reachable line := by
    rw [hreach, ← seen_iff h hstart]
    simp only [mem_kept hseen, and_assoc]
  edges := edges_kept h hseen
  stubs addr := by
    simp only [hreach, ← stub_iff h hstart addr]
    constructor
    · rintro ⟨stub, hmem, hext, haddr⟩
      obtain ⟨hmem, hid⟩ := (mem_kept hseen).mp hmem
      rcases List.mem_append.mp hmem with hnode | hstub
      · rw [not_external hnode] at hext
        cases hext
      · exact ⟨stub, hstub, hid, haddr⟩
    · rintro ⟨stub, hstub, hid, haddr⟩
      exact ⟨stub, (mem_kept hseen).mpr ⟨List.mem_append_right _ hstub, hid⟩, (h.stubs.of_mem hstub).2.2, haddr⟩
  stubEmpty node hnode hext := by
    rcases List.mem_append.mp ((mem_kept hseen).mp hnode).1 with hnode | hstub
    · rw [not_external hnode] at hext
      cases hext
    · obtain ⟨hnil, hend, -⟩ := h.stubs.of_mem hstub
      exact ⟨hnil, hend⟩

end Drawn

/-! ## Whole listings -/

section Whole

variable {entryPoint : Int64} {globalJumpTargets : Int64 → Bool}

/-- The first node, which pass 5 starts from. -/
theorem exists_startNode (h : Listing instrs) (hne : instrs ≠ []) :
    ∃ start ∈ allNodesOf instrs leaders, start.id = 0 ∧ start.startAddr = firstAddr instrs ∧
      ((allNodesOf instrs leaders).find? (·.startAddr = firstAddr instrs)).or (allNodesOf instrs leaders).head? =
        some start := by
  obtain ⟨rest, hhead⟩ := @head_blocks _ (fun line => decide (line.instr.addr ∈ leaders)) instrs hne
  obtain ⟨block, hblocks⟩ := List.head?_eq_some_iff.mp hhead
  have hnodes : allNodesOf instrs leaders = nodeOf 0 (instrs.head hne :: rest) ::
      block.mapIdx fun i => nodeOf (i + 1) := by
    rw [allNodesOf, blocksOf, hblocks, List.mapIdx_cons]
  have haddr : firstAddr (instrs.head hne :: rest) = firstAddr instrs := by
    cases instrs with
    | nil => exact absurd rfl hne
    | cons first lines => rfl
  refine ⟨_, hnodes ▸ List.mem_cons_self .., rfl, haddr, ?_⟩
  have hfound : (nodeOf 0 (instrs.head hne :: rest) :: block.mapIdx fun i => nodeOf (i + 1)).find?
      (·.startAddr = firstAddr instrs) = some (nodeOf 0 (instrs.head hne :: rest)) :=
    List.find?_cons_of_pos (decide_eq_true haddr)
  rw [hnodes, hfound]
  rfl

theorem reachable_iff (hne : instrs ≠ []) (addr : Int64) :
    Reachable instrs addr ↔ ReflTransGen (Flow instrs) (firstAddr instrs) addr := by
  cases instrs with
  | nil => exact absurd rfl hne
  | cons first lines =>
    constructor
    · rintro ⟨_, hfirst, hflow⟩
      obtain rfl := Option.some.inj hfirst
      exact hflow
    · intro hflow
      exact ⟨first, rfl, hflow⟩

theorem graph_exact (h : Listing instrs) (hne : instrs ≠ []) (globalJumpTargets : Int64 → Bool) :
    ExactCfg instrs (graphOf instrs (firstAddr instrs) globalJumpTargets).1
      (graphOf instrs (firstAddr instrs) globalJumpTargets).2 := by
  have hleads := leads_leadersOf instrs (firstAddr instrs) globalJumpTargets
  rw [graphOf]
  generalize leadersOf instrs (firstAddr instrs) globalJumpTargets = leaders at hleads
  obtain ⟨edges, stubs, hdrawn, hstubs, hfollows, hneeded⟩ :=
    edgesFrom_spec h (List.Subset.refl (allNodesOf instrs leaders)) Stubs.nil
  have hall : Drawn instrs leaders stubs edges := ⟨h, hleads, hstubs, hfollows, hneeded⟩
  obtain ⟨start, hmem, hid, haddr, hfind⟩ := @exists_startNode instrs leaders h hne
  rw [hdrawn, reachableOf, hfind]
  dsimp only
  rw [hid]
  exact hall.exact_of_seen ⟨start, hmem, hid, haddr⟩ (reachable_iff hne) fun id => mem_search_from

/-- A listing in order is taken as it is. -/
theorem filterLines_none (h : Contiguous instrs) : filterLines instrs none = instrs := by
  have hsorted : instrs.Pairwise fun line line' => line.instr.addr ≤ line'.instr.addr :=
    h.ascending.imp fun hlt => Int64.le_iff_toInt_le.mpr (Int.le_of_lt hlt)
  have hdistinct : distinctBy (·.instr.addr) instrs = instrs := distinctBy_of_nodup h.listing.nodup
  rw [filterLines, hdistinct, hsorted.insertionSort_eq]

/-- The graph of a whole listing is exact. -/
theorem buildCfg_exact (lines : List DisasmLine) (h : Contiguous lines) (globalJumpTargets : Int64 → Bool) :
    ExactCfg lines (buildCfg lines none globalJumpTargets).1 (buildCfg lines none globalJumpTargets).2 := by
  cases lines with
  | nil =>
    refine ⟨.nil, .nil, nofun, .nil, nofun, fun line => ⟨nofun, nofun⟩, .nil, fun addr => ⟨nofun, ?_⟩, nofun⟩
    rintro ⟨-, line, hline, -⟩
    cases hline
  | cons first lines =>
    rw [buildCfg, filterLines_none h]
    exact graph_exact h.listing (List.cons_ne_nil _ _) globalJumpTargets

/-- A jump over an instruction that returns. -/
theorem jump_over_ret_exact :
    ExactCfg
      [⟨⟨0x1000, 0, 0, 2, 0x04, 0, 0, 0, 0, 0⟩, [0xEB, 0x01]⟩, ⟨⟨0x1002, 0, 0, 1, 0x02, 0, 0, 0, 0, 0⟩, [0xC3]⟩,
        ⟨⟨0x1003, 0, 0, 1, 0x02, 0, 0, 0, 0, 0⟩, [0xC3]⟩]
      (buildCfg
        [⟨⟨0x1000, 0, 0, 2, 0x04, 0, 0, 0, 0, 0⟩, [0xEB, 0x01]⟩, ⟨⟨0x1002, 0, 0, 1, 0x02, 0, 0, 0, 0, 0⟩, [0xC3]⟩,
          ⟨⟨0x1003, 0, 0, 1, 0x02, 0, 0, 0, 0, 0⟩, [0xC3]⟩] none fun _ => false).1
      (buildCfg
        [⟨⟨0x1000, 0, 0, 2, 0x04, 0, 0, 0, 0, 0⟩, [0xEB, 0x01]⟩, ⟨⟨0x1002, 0, 0, 1, 0x02, 0, 0, 0, 0, 0⟩, [0xC3]⟩,
          ⟨⟨0x1003, 0, 0, 1, 0x02, 0, 0, 0, 0, 0⟩, [0xC3]⟩] none fun _ => false).2 := by
  refine buildCfg_exact _ ⟨?_, ?_, by decide⟩ _
  · refine .cons_cons (by decide) (.cons_cons (by decide) (.singleton _))
  · intro line hline
    simp only [List.mem_cons, List.not_mem_nil, or_false] at hline
    rcases hline with rfl | rfl | rfl <;> decide

end Whole

end Ps5Debugger
