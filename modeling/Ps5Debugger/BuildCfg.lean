import Mathlib.Data.List.Sort
import Ps5Debugger.DisasmFormatter
import Ps5Debugger.Lib.Blocks
import Ps5Debugger.Lib.Closure
import Ps5Debugger.Lib.Distinct

/-!
# The graph of a function

`buildCfg` (`GraphViewer.kt`) makes a control-flow graph of the lines of a listing, in five passes: the lines, the
addresses that start a block (the leaders), the blocks, the edges, and what is reachable from the entry. Colours, sizes
and the layout of the nodes are left out.
-/

namespace Ps5Debugger

open Lib

structure CfgNode where
  id : Nat
  instructions : List DisasmLine
  startAddr : Int64
  endAddr : Int64
  isExternal : Bool := false

/-- `UNCONDITIONAL`, `TRUE`, `FALSE` -/
inductive EdgeType : Type where
  | unconditional
  | taken
  | notTaken
  deriving DecidableEq

structure CfgEdge where
  fromId : Nat
  toId : Nat
  type : EdgeType

def addrsOf (lines : List DisasmLine) : List Int64 := lines.map (·.instr.addr)

/-! ## The lines -/

/-- `for (i in startIndex until instructions.size)`, which stops behind a return. -/
def throughRet : List DisasmLine → List DisasmLine
  | [] => []
  | line :: lines => if line.instr.isRet then [line] else line :: throughRet lines

/-- Pass 1 -/
def filterLines (instructions : List DisasmLine) : Option Int64 → List DisasmLine
  | some filterAddr =>
    throughRet (instructions.drop ((instructions.findIdx? fun line => filterAddr ≤ line.instr.addr).getD 0))
  | none => (distinctBy (·.instr.addr) instructions).insertionSort (·.instr.addr ≤ ·.instr.addr)

def firstAddr (instrs : List DisasmLine) : Int64 := ((addrsOf instrs).head?).getD 0

def entryPointOf (instrs : List DisasmLine) : Option Int64 → Int64
  | some filterAddr => if filterAddr ∈ addrsOf instrs then filterAddr else firstAddr instrs
  | none => firstAddr instrs

/-! ## Leaders and blocks -/

/-- The target of a branch that is the address of a line. -/
def leaderOf (instrs : List DisasmLine) (line : DisasmLine) : List Int64 :=
  let target := DisasmFormatter.getJumpTarget line.instr line.bytes
  if target ≠ 0 ∧ target ∈ addrsOf instrs then [target]
  else if line.instr.ripRelTarget ≠ 0 ∧ line.instr.ripRelTarget ∈ addrsOf instrs then [line.instr.ripRelTarget]
  else []

/-- `for (i in instrs.indices)` -/
def leadersFrom (instrs : List DisasmLine) : List DisasmLine → List Int64
  | [] => []
  | line :: lines =>
    (if line.instr.isJmp || line.instr.isCondJmp then leaderOf instrs line ++ (addrsOf lines).take 1
      else if line.instr.isRet then (addrsOf lines).take 1
      else []) ++ leadersFrom instrs lines

/-- Pass 2 -/
def leadersOf (instrs : List DisasmLine) (entryPoint : Int64) (globalJumpTargets : Int64 → Bool) : List Int64 :=
  entryPoint :: (addrsOf instrs).filter globalJumpTargets ++ leadersFrom instrs instrs

def nodeOf (id : Nat) (block : List DisasmLine) : CfgNode where
  id
  instructions := block
  startAddr := firstAddr block
  endAddr := ((addrsOf block).getLast?).getD 0

def blocksOf (instrs : List DisasmLine) (leaders : List Int64) : List (List DisasmLine) :=
  blocks (fun line => decide (line.instr.addr ∈ leaders)) instrs

/-- Pass 3 -/
def allNodesOf (instrs : List DisasmLine) (leaders : List Int64) : List CfgNode :=
  (blocksOf instrs leaders).mapIdx nodeOf

/-! ## Edges -/

/-- `startAddrToNodeId[addr]`, which is the last node with the address. -/
def startAddrToNodeId (allNodes : List CfgNode) (addr : Int64) : Option Nat :=
  ((allNodes.filter (·.startAddr = addr)).getLast?).map (·.id)

/-- The node of an address, and the external nodes, of which it may be a new one. -/
def getOrCreateTarget (allNodes externalNodes : List CfgNode) (addr : Int64) : Option Nat × List CfgNode :=
  match startAddrToNodeId allNodes addr with
  | some id => (some id, externalNodes)
  | none =>
    if addr = 0 then (none, externalNodes)
    else
      match externalNodes.find? (·.startAddr = addr) with
      | some node => (some node.id, externalNodes)
      | none =>
        (some (allNodes.length + externalNodes.length),
          externalNodes ++ [⟨allNodes.length + externalNodes.length, [], addr, addr, true⟩])

/-- The target that the bytes tell, or else the one that the disassembler told; 0 for none. -/
def branchTarget (line : DisasmLine) : Int64 :=
  let target := DisasmFormatter.getJumpTarget line.instr line.bytes
  if target ≠ 0 then target else line.instr.ripRelTarget

def branchEdge (allNodes externalNodes : List CfgNode) (id : Nat) (line : DisasmLine) (type : EdgeType) :
    List CfgEdge × List CfgNode :=
  if branchTarget line ≠ 0 then
    let target := getOrCreateTarget allNodes externalNodes (branchTarget line)
    (target.1.toList.map fun toId => ⟨id, toId, type⟩, target.2)
  else ([], externalNodes)

def fallEdge (allNodes : List CfgNode) (id : Nat) (line : DisasmLine) (type : EdgeType) : List CfgEdge :=
  (startAddrToNodeId allNodes line.instr.next).toList.map fun toId => ⟨id, toId, type⟩

/-- The edges from a node, and the external nodes behind them. -/
def edgesOf (allNodes externalNodes : List CfgNode) (node : CfgNode) : List CfgEdge × List CfgNode :=
  match node.instructions.getLast? with
  | none => ([], externalNodes)
  | some line =>
    if line.instr.isCondJmp then
      let branch := branchEdge allNodes externalNodes node.id line .taken
      (branch.1 ++ fallEdge allNodes node.id line .notTaken, branch.2)
    else if line.instr.isJmp then branchEdge allNodes externalNodes node.id line .unconditional
    else if line.instr.isRet then ([], externalNodes)
    else ((fallEdge allNodes node.id line .unconditional).filter (·.toId ≠ node.id), externalNodes)

/-- Pass 4, for the nodes that are left. -/
def edgesFrom (allNodes : List CfgNode) : List CfgNode → List CfgNode → List CfgEdge × List CfgNode
  | [], externalNodes => ([], externalNodes)
  | node :: nodes, externalNodes =>
    let first := edgesOf allNodes externalNodes node
    let rest := edgesFrom allNodes nodes first.2
    (first.1 ++ rest.1, rest.2)

/-! ## What is reachable -/

/-- Pass 5 -/
def reachableOf (allNodes externalNodes : List CfgNode) (allEdges : List CfgEdge) (entryPoint : Int64) :
    List CfgNode × List CfgEdge :=
  match (allNodes.find? (·.startAddr = entryPoint)).or allNodes.head? with
  | some startNode =>
    let seen := search (allEdges.map fun edge => (edge.fromId, edge.toId)) [startNode.id] [startNode.id]
    ((allNodes ++ externalNodes).filter (·.id ∈ seen),
      allEdges.filter fun edge => edge.fromId ∈ seen ∧ edge.toId ∈ seen)
  | none => (allNodes ++ externalNodes, allEdges)

/-- Passes 2 to 5. -/
def graphOf (instrs : List DisasmLine) (entryPoint : Int64) (globalJumpTargets : Int64 → Bool) :
    List CfgNode × List CfgEdge :=
  let allNodes := allNodesOf instrs (leadersOf instrs entryPoint globalJumpTargets)
  let edges := edgesFrom allNodes allNodes []
  reachableOf allNodes edges.2 edges.1 entryPoint

def buildCfg (instructions : List DisasmLine) (filterAddr : Option Int64) (globalJumpTargets : Int64 → Bool) :
    List CfgNode × List CfgEdge :=
  if instructions.isEmpty then ([], [])
  else
    let instrs := filterLines instructions filterAddr
    if instrs.isEmpty then ([], []) else graphOf instrs (entryPointOf instrs filterAddr) globalJumpTargets

end Ps5Debugger
