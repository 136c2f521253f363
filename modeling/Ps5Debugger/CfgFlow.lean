import Mathlib.Data.List.Forall2
import Ps5Debugger.BuildCfg

/-!
# Flow of control in a listing

What a control-flow graph of a listing says, apart from how it is built: where control goes from a line
(`branchExits`, `fallExits`), which addresses it reaches (`Reachable`), and a graph that says so exactly (`ExactCfg`).

A conditional jump goes two ways, a jump goes to its target, a return goes nowhere, and any other instruction goes on to
the next one. An instruction with several of these kinds counts as the first of them.
-/

namespace Ps5Debugger

open Relation (ReflTransGen)

/-! ## Listings -/

/-- Each line starts where the one before ends. Lengths and sizes are those of an `Int`. -/
structure Contiguous (lines : List DisasmLine) : Prop where
  joined : lines.IsChain fun line line' => line'.instr.addr.toInt = line.instr.addr.toInt + (line.instr.length : Int)
  lengths : ∀ line ∈ lines, 1 ≤ line.instr.length ∧ line.instr.length < 2 ^ 31
  size : lines.length < 2 ^ 31

/-- What the addresses of such lines are: each line starts at the address behind the one before, and nothing starts
behind the last. -/
structure Listing (lines : List DisasmLine) : Prop where
  nodup : (addrsOf lines).Nodup
  next : lines.IsChain fun line line' => line'.instr.addr = line.instr.next
  stop : ∀ line, lines.getLast? = some line → line.instr.next ∉ addrsOf lines

/-! ## Flow -/

def branchExits (line : DisasmLine) : List (EdgeType × Int64) :=
  if branchTarget line = 0 then []
  else if line.instr.isCondJmp then [(.taken, branchTarget line)]
  else if line.instr.isJmp then [(.unconditional, branchTarget line)]
  else []

def fallExits (line : DisasmLine) : List (EdgeType × Int64) :=
  if line.instr.isCondJmp then [(.notTaken, line.instr.next)]
  else if line.instr.isJmp || line.instr.isRet then []
  else [(.unconditional, line.instr.next)]

/-- Control can go from the line at one address to the line at another. -/
def Flow (lines : List DisasmLine) (addr addr' : Int64) : Prop :=
  ∃ line ∈ lines, line.instr.addr = addr ∧ addr' ∈ addrsOf lines ∧
    ∃ type, (type, addr') ∈ branchExits line ++ fallExits line

/-- Control can come to an address from the first line. -/
def Reachable (lines : List DisasmLine) (addr : Int64) : Prop :=
  ∃ first, lines.head? = some first ∧ ReflTransGen (Flow lines) first.instr.addr addr

/-- A branch or a return. -/
def EndsBlock (line : DisasmLine) : Prop := line.instr.isJmp = true ∨ line.instr.isCondJmp = true ∨
    line.instr.isRet = true

/-- The target of a branch, or what follows a branch or a return. -/
def StartsBlock (lines : List DisasmLine) (line : DisasmLine) : Prop :=
  (∃ branch ∈ lines, ∃ type, (type, line.instr.addr) ∈ branchExits branch) ∨
    ∃ before, [before, line] <:+: lines ∧ EndsBlock before

/-! ## Graphs -/

/-- The ways out of a line: its branch, and the next line if that is in the listing. -/
def exitsOf (lines : List DisasmLine) (line : DisasmLine) : List (EdgeType × Int64) :=
  branchExits line ++ (fallExits line).filter fun exit => exit.2 ∈ addrsOf lines

/-- The ways out of a node are those of its last line. -/
def CfgNode.exits (lines : List DisasmLine) (node : CfgNode) : List (EdgeType × Int64) :=
  node.instructions.getLast?.toList.flatMap (exitsOf lines)

/-- An edge leaves a node by one of its exits, to the node of the address there. -/
def Follows (nodes : List CfgNode) (edge : CfgEdge) (exit : CfgNode × EdgeType × Int64) : Prop :=
  edge.fromId = exit.1.id ∧ edge.type = exit.2.1 ∧ ∃ node ∈ nodes, node.startAddr = exit.2.2 ∧ node.id = edge.toId

/-- A graph that shows what is reachable in a listing, and nothing else. -/
structure ExactCfg (lines : List DisasmLine) (nodes : List CfgNode) (edges : List CfgEdge) : Prop where
  ids : (nodes.map (·.id)).Nodup
  starts : (nodes.map (·.startAddr)).Nodup
  /-- an internal node is a run of the listing -/
  runs : ∀ node ∈ nodes, node.isExternal = false → node.instructions ≠ [] ∧ node.instructions <:+: lines ∧
    (addrsOf node.instructions).head? = some node.startAddr ∧ (addrsOf node.instructions).getLast? = some node.endAddr
  disjoint : (nodes.map fun node => addrsOf node.instructions).Pairwise List.Disjoint
  /-- which starts blocks only -/
  leaders : ∀ node ∈ nodes, ∀ line ∈ node.instructions.tail, ¬ StartsBlock lines line
  reachable : ∀ line, (∃ node ∈ nodes, line ∈ node.instructions) ↔ line ∈ lines ∧ Reachable lines line.instr.addr
  edges : List.Forall₂ (Follows nodes) edges
    ((nodes.filter fun node => !node.isExternal).flatMap fun node => (node.exits lines).map fun exit => (node, exit))
  /-- an external node is the target of a branch out of the listing -/
  stubs : ∀ addr, (∃ node ∈ nodes, node.isExternal = true ∧ node.startAddr = addr) ↔
    addr ∉ addrsOf lines ∧ ∃ line ∈ lines, Reachable lines line.instr.addr ∧ ∃ type, (type, addr) ∈ branchExits line
  stubEmpty : ∀ node ∈ nodes, node.isExternal = true → node.instructions = [] ∧ node.endAddr = node.startAddr

/-! ## The addresses of a listing -/

section Addresses

variable {lines : List DisasmLine} {line line' : DisasmLine}

theorem next_eq_of_toInt (h : line'.instr.addr.toInt = line.instr.addr.toInt + line.instr.length) :
    line'.instr.addr = line.instr.next := by
  rw [Rpc.MemoryRpcService.Ps5DisasmInstr.next, ← Int64.ofInt_eq_ofNat]
  calc line'.instr.addr = Int64.ofInt line'.instr.addr.toInt := (Int64.ofInt_toInt _).symm
    _ = Int64.ofInt line.instr.addr.toInt + Int64.ofInt line.instr.length := by rw [h, Int64.ofInt_add]
    _ = line.instr.addr + Int64.ofInt line.instr.length := by rw [Int64.ofInt_toInt]

/-- The addresses ascend, and end within the lengths. -/
theorem Contiguous.bounds (h : Contiguous (line :: lines)) :
    (∀ line' ∈ lines, line.instr.addr.toInt < line'.instr.addr.toInt) ∧
      ∀ last, (line :: lines).getLast? = some last →
        last.instr.addr.toInt + last.instr.length ≤ line.instr.addr.toInt + 2 ^ 31 * (lines.length + 1) ∧
          ∀ line' ∈ line :: lines, line'.instr.addr.toInt < last.instr.addr.toInt + last.instr.length := by
  induction lines generalizing line with
  | nil =>
    obtain ⟨hpos, hlt⟩ := h.lengths line (List.mem_cons_self ..)
    refine ⟨nofun, fun last hlast => ?_⟩
    rw [List.getLast?_singleton] at hlast
    obtain rfl := Option.some.inj hlast
    refine ⟨by simp only [List.length_nil]; omega, fun line' hline' => ?_⟩
    obtain rfl := List.mem_singleton.mp hline'
    omega
  | cons second lines ih =>
    obtain ⟨hjoin, hjoined⟩ := List.isChain_cons_cons.mp h.joined
    obtain ⟨hpos, hlt⟩ := h.lengths line (List.mem_cons_self ..)
    obtain ⟨habove, hlast⟩ := ih ⟨hjoined, fun l hl => h.lengths l (List.mem_cons_of_mem _ hl),
      Nat.lt_of_succ_lt h.size⟩
    refine ⟨fun line' hline' => ?_, fun last heq => ?_⟩
    · rcases List.mem_cons.mp hline' with rfl | hline'
      · omega
      · have := habove line' hline'
        omega
    · rw [List.getLast?_cons_cons] at heq
      obtain ⟨hend, hbelow⟩ := hlast last heq
      refine ⟨by simp only [List.length_cons]; push_cast; omega, fun line' hline' => ?_⟩
      rcases List.mem_cons.mp hline' with rfl | hline'
      · have := hbelow second (List.mem_cons_self ..)
        omega
      · exact hbelow line' hline'

theorem Contiguous.tail (h : Contiguous (line :: lines)) : Contiguous lines :=
  ⟨h.joined.tail, fun l hl => h.lengths l (List.mem_cons_of_mem _ hl), Nat.lt_of_succ_lt h.size⟩

theorem Contiguous.ascending (h : Contiguous lines) :
    lines.Pairwise fun line line' => line.instr.addr.toInt < line'.instr.addr.toInt := by
  induction lines with
  | nil => exact .nil
  | cons line lines ih => exact List.pairwise_cons.mpr ⟨h.bounds.1, ih h.tail⟩

theorem Contiguous.run {run : List DisasmLine} (h : Contiguous lines) (hrun : run <:+: lines) : Contiguous run :=
  ⟨ List.IsChain.infix h.joined hrun, fun line hline => h.lengths line (hrun.subset hline),
    Nat.lt_of_le_of_lt hrun.length_le h.size⟩

theorem Contiguous.listing (h : Contiguous lines) : Listing lines := by
  refine ⟨?_, h.joined.imp fun _ _ => next_eq_of_toInt, ?_⟩
  · rw [addrsOf, List.Nodup, List.pairwise_map]
    refine h.ascending.imp fun hlt heq => ?_
    rw [heq] at hlt
    exact absurd hlt (Int.lt_irrefl _)
  · intro last hlast hmem
    cases lines with
    | nil => cases hlast
    | cons first lines =>
      obtain ⟨hend, hbelow⟩ := h.bounds.2 last hlast
      obtain ⟨line, hline, heq⟩ := List.mem_map.mp hmem
      have hlo : first.instr.addr.toInt ≤ line.instr.addr.toInt := by
        rcases List.mem_cons.mp hline with rfl | hline
        · exact Int.le_refl _
        · exact Int.le_of_lt (h.bounds.1 line hline)
      have hhi := hbelow line hline
      have hsize := h.size
      -- the end of the last line would have to be `2 ^ 64` behind another line
      have hwrap := congrArg Int64.toInt heq
      rw [Rpc.MemoryRpcService.Ps5DisasmInstr.next, ← Int64.ofInt_eq_ofNat, Int64.toInt_add, Int64.toInt_ofInt,
        Int.add_bmod_bmod, show Int64.size = 2 ^ 64 from rfl] at hwrap
      have hmod := @Int.bmod_emod (last.instr.addr.toInt + last.instr.length) (2 ^ 64)
      rw [List.length_cons] at hsize
      omega

end Addresses

end Ps5Debugger
