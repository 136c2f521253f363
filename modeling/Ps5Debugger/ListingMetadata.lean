import Ps5Debugger.BuildCfg
import Ps5Debugger.Lib.FirstFit
import Ps5Debugger.Lib.Ordered

/-!
# A listing and what is drawn beside it

`loadInitialInstructions` (`MemoryViewerState.kt`) makes one listing of the rows that came from everywhere, and takes
from it where functions start; `updateMetadata` takes from the listing the jumps that stay within it, and puts their
arrows on tracks. Both look addresses up with `containsAddress`, a binary search. The colours of the arrows are left out.

The listing has the first row of each address, in order, so the searches find what is there (`listing_exact`). What the
listings of a session name is gathered (`discovered_exact`).
-/

namespace Ps5Debugger

open Lib

namespace MemoryViewerState

/-! ## The listing -/

/-- `containsAddress` -/
def containsAddress (lines : List DisasmLine) (address : Int64) : Bool :=
  Ordered.search lines (·.instr.addr) address 0 lines.length (Nat.le_refl _)

/-- `finalLines`: sorted by address, with one row for an address. -/
def finalLines (allLines : List DisasmLine) : List DisasmLine := Ordered.ordered (·.instr.addr) allLines

/-- The target of the branch of a line; 0 for none. -/
def targetOf (line : DisasmLine) : Int64 := DisasmFormatter.getJumpTarget line.instr line.bytes

/-- `for (i in lines.indices)`: behind a return, and where a call goes to. -/
def functionsFrom (lines : List DisasmLine) : List DisasmLine → List Int64
  | [] => []
  | line :: rest =>
    (if line.instr.isRet then (addrsOf rest).take 1 else []) ++
      (if line.instr.isCall ∧ targetOf line ≠ 0 ∧ containsAddress lines (targetOf line) = true then [targetOf line]
        else []) ++
      functionsFrom lines rest

/-- `extractedFunctions`, sorted. -/
def extractedFunctions (lines : List DisasmLine) : List Int64 :=
  Ordered.ordered id ((addrsOf lines).take 1 ++ functionsFrom lines lines)

/-! ## The jumps -/

/-- A jump, from an address to an address. -/
abbrev Jump := Int64 × Int64

def jumpOf (lines : List DisasmLine) (line : DisasmLine) : Option Jump :=
  if targetOf line ≠ 0 ∧ containsAddress lines (targetOf line) = true then some (line.instr.addr, targetOf line)
  else none

/-- `activeJumps` -/
def activeJumps (lines : List DisasmLine) : List Jump := (lines.filterMap (jumpOf lines)).take 100000

/-- `minOf` -/
def low (j : Jump) : Int64 := if j.1 ≤ j.2 then j.1 else j.2

/-- `maxOf` -/
def high (j : Jump) : Int64 := if j.1 ≤ j.2 then j.2 else j.1

/-- `rangesOverlap` -/
def rangesOverlap (a b : Jump) : Bool := decide (high a ≥ low b ∧ high b ≥ low a)

/-- `abs` of a `Long` -/
def span (j : Jump) : Int64 := if j.2 - j.1 < 0 then -(j.2 - j.1) else j.2 - j.1

/-- The jumps, the shorter ones first. -/
def sortedJumps (lines : List DisasmLine) : List Jump :=
  (activeJumps lines).insertionSort fun i j => span i ≤ span j

/-- `jumpTracks` -/
def jumpTracks (lines : List DisasmLine) : List (Jump × Nat) := FirstFit.placeAll rangesOverlap (sortedJumps lines)

/-- `jumpTargets` -/
def jumpTargets (lines : List DisasmLine) : List Int64 := distinctBy id ((activeJumps lines).map (·.2))

/-! ## What a session gathers -/

/-- `discoveredFunctions` and `discoveredJumpTargets` of `SymbolManager`. -/
structure Discovered where
  functions : List Int64
  jumpTargets : List Int64

/-- What a listing adds. Beside an empty one nothing is drawn, and its jump targets are not looked at. -/
def Discovered.load (d : Discovered) (allLines : List DisasmLine) : Discovered where
  functions :=
    (distinctBy id (d.functions ++ extractedFunctions (finalLines allLines))).insertionSort fun f g =>
      f.toUInt64 ≤ g.toUInt64
  jumpTargets :=
    if (finalLines allLines).isEmpty then d.jumpTargets
    else (distinctBy id (d.jumpTargets ++ MemoryViewerState.jumpTargets (finalLines allLines))).take 100000

/-- Listings that are made one after the other. Between them nothing else adds to the lists: saved sessions, symbols
and the user do, at other times, so what they hold at first is arbitrary. -/
def discovered (d : Discovered) (loads : List (List DisasmLine)) : Discovered := loads.foldl Discovered.load d

/-! ## What they are -/

/-- Where a function starts: at the front, behind a return, and where a call goes to. -/
def IsFunction (lines : List DisasmLine) (f : Int64) : Prop :=
  (∃ line, lines.head? = some line ∧ line.instr.addr = f) ∨
    (∃ line next, [line, next] <:+: lines ∧ line.instr.isRet = true ∧ next.instr.addr = f) ∨
    ∃ line ∈ lines, line.instr.isCall = true ∧ targetOf line = f ∧ f ≠ 0 ∧ f ∈ addrsOf lines

/-- A line that branches to a line. -/
def Branches (lines : List DisasmLine) (line : DisasmLine) : Prop := targetOf line ≠ 0 ∧ targetOf line ∈ addrsOf lines

instance (lines : List DisasmLine) (line : DisasmLine) : Decidable (Branches lines line) :=
  inferInstanceAs (Decidable (_ ∧ _))

/-- The arrow of a jump passes the address. -/
def Passes (j : Jump) (addr : Int64) : Prop := low j ≤ addr ∧ addr ≤ high j

/-- Two arrows lie side by side somewhere. -/
def Meet (i j : Jump) : Prop := ∃ addr, Passes i addr ∧ Passes j addr

/-- What a listing of the rows is, and what is drawn beside it. -/
structure ExactListing (allLines lines : List DisasmLine) : Prop where
  ascending : lines.Pairwise fun line line' => line.instr.addr < line'.instr.addr
  firsts : ∀ addr, lines.find? (·.instr.addr = addr) = allLines.find? (·.instr.addr = addr)
  functions : (extractedFunctions lines).Pairwise (· < ·) ∧ ∀ f, f ∈ extractedFunctions lines ↔ IsFunction lines f
  jumps : activeJumps lines =
    ((lines.filter fun line => Branches lines line).map fun line => (line.instr.addr, targetOf line)).take 100000
  tracked : ∀ j, j ∈ (jumpTracks lines).map (·.1) ↔ j ∈ activeJumps lines
  apart : ∀ p ∈ jumpTracks lines, ∀ q ∈ jumpTracks lines, p.1 ≠ q.1 → Meet p.1 q.1 → p.2 ≠ q.2
  blocked : ∀ p ∈ jumpTracks lines, ∀ track < p.2,
    ∃ q ∈ jumpTracks lines, q.2 = track ∧ Meet p.1 q.1 ∧ span q.1 ≤ span p.1

section Listing

variable {lines rest : List DisasmLine} {line : DisasmLine} {f : Int64} {i j : Jump}

theorem containsAddress_iff (h : lines.Pairwise fun line line' => line.instr.addr < line'.instr.addr) (addr : Int64) :
    containsAddress lines addr = true ↔ addr ∈ addrsOf lines := by
  have hsorted : lines.Pairwise fun line line' => line.instr.addr ≤ line'.instr.addr := h.imp Std.le_of_lt
  rw [containsAddress, Ordered.search_iff hsorted, addrsOf, List.mem_map]

theorem mem_functionsFrom (hcontains : ∀ addr, containsAddress lines addr = true ↔ addr ∈ addrsOf lines) :
    f ∈ functionsFrom lines rest ↔
      (∃ line next, [line, next] <:+: rest ∧ line.instr.isRet = true ∧ next.instr.addr = f) ∨
        ∃ line ∈ rest, line.instr.isCall = true ∧ targetOf line = f ∧ f ≠ 0 ∧ f ∈ addrsOf lines := by
  induction rest with
  | nil =>
    refine iff_of_false List.not_mem_nil ?_
    rintro (⟨line, next, hpair, -⟩ | ⟨line, hline, -⟩)
    · exact absurd (List.infix_nil.mp hpair) (List.cons_ne_nil _ _)
    · cases hline
  | cons line rest ih =>
    rw [functionsFrom, List.mem_append, List.mem_append, ih]
    have hret : f ∈ (if line.instr.isRet then (addrsOf rest).take 1 else []) ↔
        ∃ next, [line, next] <+: line :: rest ∧ line.instr.isRet = true ∧ next.instr.addr = f := by
      cases rest with
      | nil => simp [addrsOf]
      | cons next rest =>
        have hnext : (addrsOf (next :: rest)).take 1 = [next.instr.addr] := rfl
        rw [hnext]
        constructor
        · intro hmem
          split at hmem
          · exact ⟨next, ⟨rest, rfl⟩, ‹_›, (List.mem_singleton.mp hmem).symm⟩
          · cases hmem
        · rintro ⟨next', hpair, hisRet, rfl⟩
          obtain ⟨-, hpair⟩ := List.cons_prefix_cons.mp hpair
          obtain rfl := (List.cons_prefix_cons.mp hpair).1
          rw [if_pos hisRet]
          exact List.mem_singleton_self _
    have hcall : f ∈ (if line.instr.isCall ∧ targetOf line ≠ 0 ∧ containsAddress lines (targetOf line) = true then
          [targetOf line] else []) ↔
        line.instr.isCall = true ∧ targetOf line = f ∧ f ≠ 0 ∧ f ∈ addrsOf lines := by
      simp only [hcontains]
      split
      · rename_i hall
        rw [List.mem_singleton]
        constructor
        · rintro rfl
          exact ⟨hall.1, rfl, hall.2⟩
        · rintro ⟨-, rfl, -⟩
          rfl
      · rename_i hno
        refine iff_of_false List.not_mem_nil ?_
        rintro ⟨hisCall, rfl, hall⟩
        exact hno ⟨hisCall, hall⟩
    rw [hret, hcall]
    simp only [List.infix_cons_iff, List.mem_cons]
    constructor
    · rintro ((⟨next, hpair, h⟩ | h) | ⟨l, next, hpair, h⟩ | ⟨l, hl, h⟩)
      · exact .inl ⟨line, next, .inl hpair, h⟩
      · exact .inr ⟨line, .inl rfl, h⟩
      · exact .inl ⟨l, next, .inr hpair, h⟩
      · exact .inr ⟨l, .inr hl, h⟩
    · rintro (⟨l, next, hpair | hpair, h⟩ | ⟨l, rfl | hl, h⟩)
      · obtain rfl := (List.cons_prefix_cons.mp hpair).1
        exact .inl (.inl ⟨next, hpair, h⟩)
      · exact .inr (.inl ⟨l, next, hpair, h⟩)
      · exact .inl (.inr h)
      · exact .inr (.inr ⟨l, hl, h⟩)

theorem mem_extractedFunctions (hcontains : ∀ addr, containsAddress lines addr = true ↔ addr ∈ addrsOf lines) :
    f ∈ extractedFunctions lines ↔ IsFunction lines f := by
  have hmem : f ∈ (Ordered.ordered id ((addrsOf lines).take 1 ++ functionsFrom lines lines)).map id ↔
      f ∈ ((addrsOf lines).take 1 ++ functionsFrom lines lines).map id := Ordered.mem_keys_ordered _ f
  rw [List.map_id, List.map_id] at hmem
  rw [extractedFunctions, hmem, List.mem_append, mem_functionsFrom hcontains, IsFunction]
  refine or_congr ?_ Iff.rfl
  cases lines with
  | nil => simp [addrsOf]
  | cons line lines => simp [addrsOf, eq_comm]

theorem low_le_high (j : Jump) : low j ≤ high j := by
  rw [low, high]
  split
  · assumption
  · exact Std.le_of_lt (Std.not_le.mp ‹_›)

theorem rangesOverlap_iff : rangesOverlap i j = true ↔ Meet i j := by
  rw [rangesOverlap, decide_eq_true_iff]
  constructor
  · rintro ⟨hij, hji⟩
    rcases Std.le_total (a := low i) (b := low j) with hle | hle
    · exact ⟨low j, ⟨hle, hij⟩, Std.le_refl _, low_le_high j⟩
    · exact ⟨low i, ⟨Std.le_refl _, low_le_high i⟩, hle, hji⟩
  · rintro ⟨addr, ⟨hi, hi'⟩, hj, hj'⟩
    exact ⟨Std.le_trans hj hi', Std.le_trans hi hj'⟩

theorem rangesOverlap_comm (i j : Jump) : rangesOverlap i j = rangesOverlap j i := by
  rw [Bool.eq_iff_iff, rangesOverlap, rangesOverlap, decide_eq_true_iff, decide_eq_true_iff, and_comm]

theorem activeJumps_eq (hcontains : ∀ addr, containsAddress lines addr = true ↔ addr ∈ addrsOf lines) :
    activeJumps lines =
      ((lines.filter fun line => Branches lines line).map fun line => (line.instr.addr, targetOf line)).take 100000 := by
  rw [activeJumps, ← List.filterMap_eq_map, List.filterMap_filter]
  refine congrArg (List.take 100000) (List.filterMap_congr fun line _ => ?_)
  simp only [jumpOf, hcontains, decide_eq_true_iff]
  rfl

/-- No jump is there twice. -/
theorem nodup_activeJumps (h : lines.Pairwise fun line line' => line.instr.addr < line'.instr.addr) :
    (activeJumps lines).Nodup := by
  rw [activeJumps_eq (containsAddress_iff h)]
  refine (List.Nodup.sublist (List.take_sublist _ _)) ?_
  refine List.Pairwise.map _ ?_ (h.sublist List.filter_sublist)
  intro line line' hlt heq
  exact Std.ne_of_lt hlt (Prod.ext_iff.mp heq).1

theorem blocked_jumpTracks (hnodup : (activeJumps lines).Nodup) {p : Jump × Nat} (hp : p ∈ jumpTracks lines)
    {track : Nat}
    (hlt : track < p.2) : ∃ q ∈ jumpTracks lines, q.2 = track ∧ Meet p.1 q.1 ∧ span q.1 ≤ span p.1 := by
  have hsorted : (sortedJumps lines).Pairwise fun i j => span i ≤ span j := Ordered.pairwise_sorted _
  have hnodup' : (sortedJumps lines).Nodup := (List.perm_insertionSort _ _).nodup_iff.mpr hnodup
  obtain ⟨before, after, hsplit⟩ := List.append_of_mem
    (FirstFit.mem_map_placeAll.mp (List.mem_map_of_mem hp : p.1 ∈ (jumpTracks lines).map (·.1)))
  obtain ⟨q, hq, hclash, hmem⟩ := FirstFit.blocked_placeAll hnodup' hsplit hp hlt
  rw [hsplit] at hsorted
  exact ⟨(q, track), hmem, rfl, rangesOverlap_iff.mp hclash,
    (List.pairwise_append.mp hsorted).2.2 q hq p.1 List.mem_cons_self⟩

end Listing

/-- **The listing is exact**, from whatever rows: the first row of each address is in it, in order; the functions, the
jumps and their targets are those that it has; no two arrows that meet are on one track, and no arrow is farther out
than those that meet it, and are no longer, make it be. -/
theorem listing_exact (allLines : List DisasmLine) : ExactListing allLines (finalLines allLines) := by
  have hasc : (finalLines allLines).Pairwise fun line line' => line.instr.addr < line'.instr.addr :=
    Ordered.pairwise_ordered allLines
  have hcontains := containsAddress_iff hasc
  refine ⟨hasc, Ordered.find?_ordered allLines, ⟨Ordered.pairwise_ordered _, fun f => mem_extractedFunctions hcontains⟩,
    activeJumps_eq hcontains, fun j => ?_, fun p hp q hq hne hmeet => ?_, fun p hp track hlt => ?_⟩
  · rw [jumpTracks, FirstFit.mem_map_placeAll, sortedJumps, List.mem_insertionSort]
  · exact FirstFit.apart_placeAll rangesOverlap_comm _ p hp q hq hne (rangesOverlap_iff.mpr hmeet)
  · exact blocked_jumpTracks (nodup_activeJumps hasc) hp hlt

/-! ## Many listings -/

section Discovered

variable {d : Discovered} {loads : List (List DisasmLine)} {allLines : List DisasmLine}

theorem discovered_concat (d : Discovered) (loads : List (List DisasmLine)) (allLines : List DisasmLine) :
    discovered d (loads ++ [allLines]) = (discovered d loads).load allLines := by
  rw [discovered, List.foldl_append, List.foldl_cons, List.foldl_nil, discovered]

theorem mem_functions_discovered (f : Int64) :
    f ∈ (discovered d loads).functions ↔
      f ∈ d.functions ∨ ∃ allLines ∈ loads, IsFunction (finalLines allLines) f := by
  induction loads using List.reverseRecOn with
  | nil => simp [discovered]
  | append_singleton loads allLines ih =>
    have hid : ∀ f ∈ (discovered d loads).functions ++ extractedFunctions (finalLines allLines),
        ∀ g ∈ (discovered d loads).functions ++ extractedFunctions (finalLines allLines), id f = id g → f = g :=
      fun _ _ _ _ heq => heq
    rw [discovered_concat, Discovered.load, List.mem_insertionSort, mem_distinctBy hid, List.mem_append, ih,
      (listing_exact allLines).functions.2]
    simp [or_and_right, exists_or, or_assoc]

theorem pairwise_functions_load (d : Discovered) (allLines : List DisasmLine) :
    (d.load allLines).functions.Pairwise fun f g => f.toUInt64 < g.toUInt64 := by
  rw [Discovered.load]
  generalize d.functions ++ extractedFunctions (finalLines allLines) = found
  have hsorted : ((distinctBy id found).insertionSort fun f g => f.toUInt64 ≤ g.toUInt64).Pairwise
      fun f g => f.toUInt64 ≤ g.toUInt64 := Ordered.pairwise_sorted _
  have hdistinct : ((distinctBy id found).map id).Nodup := nodup_distinctBy
  rw [List.map_id] at hdistinct
  have hnodup := (List.perm_insertionSort (fun f g : Int64 => f.toUInt64 ≤ g.toUInt64) _).nodup_iff.mpr hdistinct
  refine hsorted.imp₂ (fun f g hle hne => ?_) hnodup
  exact UInt64.lt_of_le_of_ne hle fun heq => hne (by simpa using congrArg UInt64.toInt64 heq)

theorem jumpTargets_of_isEmpty (h : (finalLines allLines).isEmpty = true) : jumpTargets (finalLines allLines) = [] := by
  rw [List.isEmpty_iff.mp h]
  rfl

theorem jumpTargets_discovered : (discovered d loads).jumpTargets =
    if ∀ allLines ∈ loads, (finalLines allLines).isEmpty = true then d.jumpTargets
    else (distinctBy id
      (d.jumpTargets ++ loads.flatMap fun allLines => jumpTargets (finalLines allLines))).take 100000 := by
  induction loads using List.reverseRecOn with
  | nil => simp [discovered]
  | append_singleton loads allLines ih =>
    rw [discovered_concat, Discovered.load, List.flatMap_append, List.flatMap_singleton]
    simp only [List.forall_mem_append, List.forall_mem_singleton]
    by_cases hempty : (finalLines allLines).isEmpty = true
    · rw [if_pos hempty, ih, jumpTargets_of_isEmpty hempty, List.append_nil]
      simp only [hempty, and_true]
    · rw [if_neg hempty, if_neg fun h => hempty h.2, ih, ← List.append_assoc]
      by_cases hall : ∀ allLines ∈ loads, (finalLines allLines).isEmpty = true
      · have hnone : (loads.flatMap fun allLines => jumpTargets (finalLines allLines)) = [] :=
          List.flatMap_eq_nil_iff.mpr fun l hl => jumpTargets_of_isEmpty (hall l hl)
        rw [if_pos hall, hnone, List.append_nil]
      · rw [if_neg hall]
        exact take_distinctBy_append _ _ _

end Discovered

/-- **What listings add**, whatever the lists held before: of all of them each function once, with those that were
there, in the order of unsigned addresses; and behind the jump targets that were there the others in the order in which
they were found, as many as there is room for. Only empty listings leave the targets as they were. -/
theorem discovered_exact (d : Discovered) (loads : List (List DisasmLine)) (allLines : List DisasmLine) :
    let u := discovered d (loads ++ [allLines])
    (u.functions.Pairwise fun f g => f.toUInt64 < g.toUInt64) ∧
      (∀ f, f ∈ u.functions ↔
        f ∈ d.functions ∨ ∃ lines ∈ loads ++ [allLines], IsFunction (finalLines lines) f) ∧
      u.jumpTargets =
        if ∀ lines ∈ loads ++ [allLines], (finalLines lines).isEmpty = true then d.jumpTargets
        else (distinctBy id (d.jumpTargets ++
          (loads ++ [allLines]).flatMap fun lines => jumpTargets (finalLines lines))).take 100000 :=
  ⟨discovered_concat d loads allLines ▸ pairwise_functions_load _ allLines, mem_functions_discovered,
    jumpTargets_discovered⟩

end MemoryViewerState

end Ps5Debugger
