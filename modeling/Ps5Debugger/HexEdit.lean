import Mathlib.Logic.Function.Basic
import Ps5Debugger.Lib.Machine
import Ps5Debugger.Lib.Text
import Ps5Debugger.HexRows

/-!
# Editing in the hex view

The hex view shows the bytes of the open maps in rows, has a cursor (`selectionEnd`) and notes what is typed and
pasted in `pendingEdits`, from where it is sent to the console later (`HexState.kt`).

`edits_stay_inside_iff` says when the cursor stays in the maps, and with it the edits: a horizontal move may
not leave its map for a gap, and a vertical one needs maps whose rows are not too many to count, and whose
starts are whole rows, unless the address that it finds lies in some map by chance.
-/

namespace Ps5Debugger

open Lib

namespace HexState

/-- What the keys read and write of the view. -/
structure State where
  activeMap : Option MemoryRange
  activeMaps : List MemoryRange
  bytesPerRow : Int
  visibleRowsCount : Int
  scrollPosition : Int
  isEditingUnlocked : Bool
  hexInputBuffer : List Char
  selectionStart : Option Int
  selectionEnd : Option Int
  pendingEdits : Int → Option UInt8

/-- `getEffectiveTargets()` -/
def State.targets (s : State) : List Segment :=
  (MemoryRange.getEffectiveTargets s.activeMap s.activeMaps).map MemoryRange.segment

def getMaxScrollPosition (s : State) : Int :=
  max 0 (long (Long.getTotalRows s.bytesPerRow s.targets - s.visibleRowsCount))

/-- `coerceIn(lo, hi)`; it throws if `hi` is below `lo`. -/
def coerceIn (n lo hi : Int) : Int := max lo (min n hi)

/-! ## The cursor -/

inductive Arrow : Type where
  | left | right | up | down
  deriving DecidableEq

/-- How far a key goes. -/
def Arrow.step (bytesPerRow : Int) : Arrow → Int
  | .left => -1
  | .right => 1
  | .up => -bytesPerRow
  | .down => bytesPerRow

/-- The row that a vertical move goes to. -/
def nextRow (s : State) (arrow : Arrow) (cursor : Int) : Int :=
  coerceIn
    (long (Long.getRowForAddress s.bytesPerRow s.targets cursor + (arrow.step s.bytesPerRow).tdiv s.bytesPerRow)) 0
    (long (Long.getTotalRows s.bytesPerRow s.targets - 1))

/-- Where a key takes the cursor. -/
def nextCursor (s : State) (arrow : Arrow) (cursor : Int) : Int :=
  let step := arrow.step s.bytesPerRow
  if step.natAbs = 1 then
    let simpleNext := long (cursor + step)
    if Covered s.targets simpleNext then simpleNext
    else Long.getAddressForRow s.bytesPerRow s.targets (Long.getRowForAddress s.bytesPerRow s.targets simpleNext)
  else long (Long.getAddressForRow s.bytesPerRow s.targets (nextRow s arrow cursor) + cursor.tmod s.bytesPerRow)

/-- The rows are `Int`s here, of 32 bits. -/
def autoScroll (s : State) (cursor : Int) : State :=
  let row := (Long.getRowForAddress s.bytesPerRow s.targets cursor).bmod (2 ^ 32)
  if row < s.scrollPosition then { s with scrollPosition := coerceIn row 0 (getMaxScrollPosition s) }
  else if long (s.scrollPosition + s.visibleRowsCount - 1) ≤ row then
    { s with scrollPosition :=
        coerceIn ((row - s.visibleRowsCount + 2).bmod (2 ^ 32)) 0 (getMaxScrollPosition s) }
  else s

/-- `coerceIn` throws: there is no row, or so many that their number is negative. -/
def Throws (s : State) (arrow : Arrow) : Prop :=
  (arrow.step s.bytesPerRow).natAbs ≠ 1 ∧ long (Long.getTotalRows s.bytesPerRow s.targets - 1) < 0

instance (s : State) (arrow : Arrow) : Decidable (Throws s arrow) :=
  inferInstanceAs (Decidable (_ ∧ _))

def moveCursor (s : State) (arrow : Arrow) (shiftPressed : Bool) (cursor : Int) : State :=
  if Throws s arrow then s
  else
    let next := nextCursor s arrow cursor
    autoScroll { s with selectionStart := if shiftPressed then s.selectionStart else some next
                        selectionEnd := some next, hexInputBuffer := [] } next

/-- An address behind one of a map is at most the end of the map: no sum here leaves a `Long`. -/
def advanceCursor (s : State) : State :=
  match s.selectionEnd with
  | some cursor =>
    if Covered s.targets (cursor + 1) then
      { s with selectionStart := if s.selectionStart = some cursor then some (cursor + 1) else s.selectionStart
               selectionEnd := some (cursor + 1) }
    else s
  | none => s

/-! ## Typing -/

def State.edit (s : State) (address : Int) (b : UInt8) : State :=
  { s with pendingEdits := Function.update s.pendingEdits address (some b) }

/-- A digit, or a letter up to F. -/
def isHexChar (c : Char) : Bool := (decimalDigit c).isSome || c.toUpper ∈ ['A', 'B', 'C', 'D', 'E', 'F']

/-- A digit is typed. -/
def handleHexInput (s : State) (c : Char) : State :=
  match s.selectionEnd with
  | some cursor =>
    if s.isEditingUnlocked && isHexChar c then
      let hexInputBuffer := s.hexInputBuffer ++ [c.toUpper]
      if hexInputBuffer.length = 2 then
        let edited :=
          match toIntOrNull16 hexInputBuffer with
          | some n => s.edit cursor (UInt8.ofInt n)
          | none => s
        advanceCursor { edited with hexInputBuffer := [] }
      else { s with hexInputBuffer }
    else s
  | none => s

/-! ## Pasting -/

/-- `replace(ab, " ")` for two characters. -/
def replace (a b : Char) : List Char → List Char
  | c :: c' :: cs => if c = a ∧ c' = b then ' ' :: replace a b cs else c :: replace a b (c' :: cs)
  | cs => cs

/-- The tokens between white space, `token` being the one that has begun. -/
def tokens (token : List Char) : List Char → List (List Char)
  | [] => [token]
  | c :: cs => if isRegexSpace c then token :: tokens [] cs else tokens (token ++ [c]) cs

/-- A long token, two digits at a time. -/
def digitPairs : List Char → List UInt8
  | c :: c' :: cs => ((toIntOrNull16 [c, c']).map UInt8.ofInt).toList ++ digitPairs cs
  | cs => ((toIntOrNull16 cs).map UInt8.ofInt).toList

def parseToken (token : List Char) : List UInt8 :=
  if token.length > 2 ∧ token.all isHexChar then digitPairs token
  else ((toIntOrNull16 token).map UInt8.ofInt).toList

/-- The bytes of a pasted text. -/
def parseBytes (hexStr : String) : List UInt8 :=
  let sanitized := (replace '\\' 'x' (replace '0' 'x' hexStr.toList)).map fun c => if c = ',' then ' ' else c
  ((tokens [] sanitized).filter (· ≠ [])).flatMap parseToken

/-- The first start of a map behind an address. -/
def nextStart (targets : List Segment) (address : Int) : Option Int :=
  ((targets.filter (·.start > address)).map Segment.start).min?

/-- Where the pasted bytes end, and the edits with them. -/
def pasteBytes (targets : List Segment) : Int → List UInt8 → (Int → Option UInt8) → Int × (Int → Option UInt8)
  | address, [], edits => (address, edits)
  | address, b :: bytes, edits =>
    match (if Covered targets address then some address else nextStart targets address) with
    | some valid => pasteBytes targets (valid + 1) bytes (Function.update edits valid (some b))
    | none => (address, edits)

/-- `pasteHex` -/
def pasteHex (s : State) (hexStr : String) (targetAddr : Option Int) : State :=
  match targetAddr.or s.selectionEnd with
  | some base =>
    let bytes := parseBytes hexStr
    if s.isEditingUnlocked ∧ bytes ≠ [] then
      let (address, pendingEdits) := pasteBytes s.targets base bytes s.pendingEdits
      let pasted := { s with pendingEdits, hexInputBuffer := [] }
      if Covered s.targets (address - 1) then
        { pasted with selectionStart := some base, selectionEnd := some (address - 1) }
      else pasted
    else s
  | none => s

/-! ## The keys -/

inductive Key : Type where
  | lockEdit
  | undo
  | paste (hexStr : String) (targetAddr : Option Int)
  | arrow (arrow : Arrow) (shiftPressed : Bool)
  | delete
  | char (c : Char)

/-- `handleKeyEvent` -/
def handleKey (s : State) : Key → State
  | .lockEdit => { s with isEditingUnlocked := !s.isEditingUnlocked }
  | .undo => { s with pendingEdits := fun _ => none }
  | .paste hexStr targetAddr => pasteHex s hexStr targetAddr
  | .arrow arrow shiftPressed =>
    match s.selectionEnd with
    | some cursor => moveCursor s arrow shiftPressed cursor
    | none => s
  | .delete =>
    match s.selectionEnd with
    | some cursor =>
      if s.isEditingUnlocked then
        { s with pendingEdits := Function.update s.pendingEdits cursor none, hexInputBuffer := [] }
      else s
    | none => s
  | .char c =>
    match s.selectionEnd with
    | some cursor =>
      if s.isEditingUnlocked then
        if isHexChar c then handleHexInput s c
        else if 32 ≤ c.toNat ∧ c.toNat ≤ 126 then
          advanceCursor { s.edit cursor (UInt8.ofNat c.toNat) with hexInputBuffer := [] }
        else s
      else s
    | none => s

/-! ## What is right -/

/-- The cursor lies in some map, and so does every edit. -/
structure Inside (s : State) : Prop where
  cursor : ∃ cursor, s.selectionEnd = some cursor ∧ Covered s.targets cursor
  edits : ∀ address, (s.pendingEdits address).isSome → Covered s.targets address

/-- The cursor's place in its row, in whole numbers. -/
def column (s : State) (cursor : Int) : Int :=
  cursor - getAddressForRow s.bytesPerRow s.targets (getRowForAddress s.bytesPerRow s.targets cursor)

/-- The row that begins at an address of some map has the column. -/
def HasColumn (s : State) (address column : Int) : Prop :=
  ∃ map ∈ s.targets, map.Has address ∧ address + column < map.stop

/-- Where a vertical move comes to, the row begins here. -/
def destination (s : State) (arrow : Arrow) (cursor : Int) : Int :=
  Long.getAddressForRow s.bytesPerRow s.targets (nextRow s arrow cursor)

/-- The edits with these bytes at these addresses. -/
def setAll (edits : Int → Option UInt8) (ps : List (Int × UInt8)) : Int → Option UInt8 :=
  ps.foldl (fun edits p => Function.update edits p.1 (some p.2)) edits

/-- A key does what it should: cursor and edits are in the maps, a vertical move keeps the column if the row has
it, and a paste sets the addresses of the maps from its base on, one for each byte as long as there are any. -/
structure Good (s : State) (key : Key) : Prop where
  inside : Inside (handleKey s key)
  column : ∀ arrow shift cursor, key = .arrow arrow shift → (arrow = .up ∨ arrow = .down) →
    s.selectionEnd = some cursor → HasColumn s (destination s arrow cursor) (column s cursor) →
      (handleKey s key).selectionEnd = some (destination s arrow cursor + HexState.column s cursor)
  pasted : ∀ hexStr targetAddr base, key = .paste hexStr targetAddr → s.isEditingUnlocked →
    targetAddr.or s.selectionEnd = some base →
      (handleKey s key).pendingEdits =
        setAll s.pendingEdits ((addressesFrom s.targets base).zip (parseBytes hexStr))

/-- A horizontal move goes to an address of some map. A vertical one is over maps whose rows fit in `Long`s; it
finds a row with the column of the cursor, and that column is the remainder of the cursor; or the row is too
short, and what is at the remainder behind its start lies in some map. -/
def Allowed (s : State) : Key → Prop
  | .arrow arrow _ => (arrow = .up ∨ arrow = .down → Long.Fits s.bytesPerRow s.targets) ∧ ∀ cursor ∈ s.selectionEnd,
      if (arrow.step s.bytesPerRow).natAbs = 1 then Covered s.targets (cursor + arrow.step s.bytesPerRow)
      else
        (HasColumn s (destination s arrow cursor) (column s cursor) → cursor.tmod s.bytesPerRow = column s cursor) ∧
          (¬ HasColumn s (destination s arrow cursor) (column s cursor) →
            Covered s.targets (long (destination s arrow cursor + cursor.tmod s.bytesPerRow)))
  | _ => True

/-! ## Pasting and the addresses of the maps -/

section Paste

variable {targets : List Segment} {address : Int}

/-- Behind an address of no map the next one is the first start. -/
theorem nextStart_some (h : Ordered targets) (hno : ¬ Covered targets address) {valid : Int}
    (hnext : nextStart targets address = some valid) :
    Covered targets valid ∧ addressesFrom targets address = addressesFrom targets valid := by
  obtain ⟨hmem, hmin⟩ := List.min?_eq_some_iff.mp hnext
  obtain ⟨map, hmap, rfl⟩ := List.mem_map.mp hmem
  obtain ⟨hmap, hlt⟩ := List.mem_filter.mp hmap
  refine ⟨⟨map, hmap, Int.le_refl _, h.nonempty map hmap⟩, addressesFrom_congr fun t ht => ?_⟩
  have hgt : address < map.start := of_decide_eq_true hlt
  by_cases hstart : address < t.start
  · have := hmin t.start (List.mem_map.mpr ⟨t, List.mem_filter.mpr ⟨ht, decide_eq_true hstart⟩, rfl⟩)
    exact .inr ⟨by omega, by omega⟩
  · have hstop : ¬ address < t.stop := fun hstop => hno ⟨t, ht, by omega, hstop⟩
    exact .inl ⟨by omega, by omega⟩

theorem nextStart_none (hno : ¬ Covered targets address) (hnext : nextStart targets address = none) :
    addressesFrom targets address = [] := by
  refine addressesFrom_past fun t ht => ?_
  have hempty := List.map_eq_nil_iff.mp (List.min?_eq_none_iff.mp hnext)
  have hstart : ¬ address < t.start := by simpa using List.filter_eq_nil_iff.mp hempty t ht
  by_contra hstop
  exact hno ⟨t, ht, by omega, by omega⟩

/-- The next address to paste at, and those behind it. -/
theorem addressesFrom_next (h : Ordered targets) (address : Int) :
    (if Covered targets address then some address else nextStart targets address) =
        (addressesFrom targets address).head? ∧
      ∀ valid ∈ (addressesFrom targets address).head?,
        Covered targets valid ∧ (addressesFrom targets address).tail = addressesFrom targets (valid + 1) := by
  by_cases hcov : Covered targets address
  · rw [if_pos hcov, addressesFrom_of_covered h hcov]
    refine ⟨rfl, fun valid hvalid => ?_⟩
    obtain rfl := Option.some.inj hvalid
    exact ⟨hcov, rfl⟩
  · rw [if_neg hcov]
    cases hnext : nextStart targets address with
    | none =>
      rw [nextStart_none hcov hnext]
      exact ⟨rfl, nofun⟩
    | some valid =>
      obtain ⟨hvalid, heq⟩ := nextStart_some h hcov hnext
      rw [heq, addressesFrom_of_covered h hvalid]
      refine ⟨rfl, fun valid' hvalid' => ?_⟩
      obtain rfl := Option.some.inj hvalid'
      exact ⟨hvalid, rfl⟩

/-- The bytes go to the next addresses of the maps. -/
theorem pasteBytes_edits (h : Ordered targets) (bytes : List UInt8) :
    ∀ (address : Int) (edits : Int → Option UInt8), (pasteBytes targets address bytes edits).2 =
      setAll edits ((addressesFrom targets address).zip bytes) := by
  induction bytes with
  | nil => intro address edits; rw [List.zip_nil_right]; rfl
  | cons b bytes ih =>
    intro address edits
    obtain ⟨hnext, htail⟩ := addressesFrom_next h address
    rw [pasteBytes, hnext]
    cases hlist : addressesFrom targets address with
    | nil => rfl
    | cons valid rest =>
      rw [hlist] at htail
      obtain ⟨-, hrest⟩ := htail valid rfl
      rw [List.tail_cons] at hrest
      rw [List.zip_cons_cons, hrest]
      exact ih (valid + 1) _

/-- What is set is at the addresses. -/
theorem covered_of_setAll (ps : List (Int × UInt8)) (hps : ∀ p ∈ ps, Covered targets p.1) :
    ∀ {edits : Int → Option UInt8}, (∀ a, (edits a).isSome → Covered targets a) →
      ∀ a, (setAll edits ps a).isSome → Covered targets a := by
  induction ps with
  | nil => intro edits hedits; exact hedits
  | cons p ps ih =>
    intro edits hedits
    refine ih (fun q hq => hps q (List.mem_cons_of_mem _ hq)) fun a ha => ?_
    by_cases heq : a = p.1
    · rw [heq]
      exact hps p List.mem_cons_self
    · simp only [Function.update_of_ne heq] at ha
      exact hedits a ha

end Paste

/-! ## What the keys keep -/

/-- The maps that are open do not meet and are not empty, rows have bytes, and cursor and edits are in the
maps. Addresses are `Long`s, and the bytes of a row an `Int`. -/
structure Inv (s : State) : Prop where
  disjoint : MemoryRange.Disjoint (MemoryRange.opened s.activeMap s.activeMaps)
  longs : Long.LongAddresses s.targets
  row : 0 < s.bytesPerRow
  int : s.bytesPerRow < 2 ^ 31
  inside : Inside s

theorem Inv.ordered {s : State} (h : Inv s) : Ordered s.targets := MemoryRange.ordered_getEffectiveTargets h.disjoint

/-- The maps and the rows are those of before. -/
structure SameView (s s' : State) : Prop where
  activeMap : s'.activeMap = s.activeMap
  activeMaps : s'.activeMaps = s.activeMaps
  bytesPerRow : s'.bytesPerRow = s.bytesPerRow

theorem SameView.refl (s : State) : SameView s s := ⟨rfl, rfl, rfl⟩

theorem SameView.targets {s s' : State} (h : SameView s s') : s'.targets = s.targets := by
  rw [State.targets, State.targets, h.activeMap, h.activeMaps]

theorem Inv.of_sameView {s s' : State} (h : Inv s) (hsame : SameView s s') (hin : Inside s') : Inv s' :=
  ⟨by rw [hsame.activeMap, hsame.activeMaps]; exact h.disjoint, by rw [hsame.targets]; exact h.longs,
    hsame.bytesPerRow ▸ h.row, hsame.bytesPerRow ▸ h.int, hin⟩

/-- An address of the maps is a `Long`, and so is the next one. -/
theorem Inv.bounds {s : State} (h : Inv s) {address : Int} (hcov : Covered s.targets address) :
    -2 ^ 63 ≤ address ∧ address + 1 < 2 ^ 63 := by
  obtain ⟨map, hmap, hstart, hstop⟩ := hcov
  have := h.longs map hmap
  omega

theorem Inside.of_sameView {s s' : State} (h : Inside s) (hsame : SameView s s')
    (hcursor : s'.selectionEnd = s.selectionEnd) (hedits : s'.pendingEdits = s.pendingEdits) : Inside s' := by
  obtain ⟨cursor, hend, hcov⟩ := h.cursor
  refine ⟨⟨cursor, hcursor.trans hend, by rw [hsame.targets]; exact hcov⟩, ?_⟩
  rw [hedits, hsame.targets]
  exact h.edits

theorem Inside.advanceCursor {s : State} (h : Inside s) : Inside (advanceCursor s) ∧ SameView s (advanceCursor s) := by
  unfold HexState.advanceCursor
  split
  · split
    · rename_i hnext
      exact ⟨⟨⟨_, rfl, hnext⟩, h.edits⟩, rfl, rfl, rfl⟩
    · exact ⟨h, SameView.refl s⟩
  · exact ⟨h, SameView.refl s⟩

theorem Inside.edit {s : State} (h : Inside s) {cursor : Int} (hcursor : s.selectionEnd = some cursor) (b : UInt8) :
    Inside (s.edit cursor b) := by
  obtain ⟨cursor', hcursor', hcov⟩ := h.cursor
  obtain rfl := Option.some.inj (hcursor.symm.trans hcursor')
  refine ⟨⟨cursor, hcursor, hcov⟩, fun a ha => ?_⟩
  by_cases heq : a = cursor
  · rw [heq]
    exact hcov
  · simp only [State.edit, Function.update_of_ne heq] at ha
    exact h.edits a ha

theorem Inside.handleHexInput {s : State} (h : Inside s) (c : Char) :
    Inside (handleHexInput s c) ∧ SameView s (handleHexInput s c) := by
  unfold HexState.handleHexInput
  split
  · rename_i cursor hcursor
    split
    · simp only
      split
      · cases toIntOrNull16 (s.hexInputBuffer ++ [c.toUpper]) with
        | none =>
          have hempty : Inside { s with hexInputBuffer := [] } := h.of_sameView ⟨rfl, rfl, rfl⟩ rfl rfl
          obtain ⟨hin, hsame⟩ := hempty.advanceCursor
          exact ⟨hin, hsame.activeMap, hsame.activeMaps, hsame.bytesPerRow⟩
        | some n =>
          have hedited : Inside { s.edit cursor (UInt8.ofInt n) with hexInputBuffer := [] } :=
            (h.edit hcursor _).of_sameView ⟨rfl, rfl, rfl⟩ rfl rfl
          obtain ⟨hin, hsame⟩ := hedited.advanceCursor
          exact ⟨hin, hsame.activeMap, hsame.activeMaps, hsame.bytesPerRow⟩
      · exact ⟨h.of_sameView ⟨rfl, rfl, rfl⟩ rfl rfl, rfl, rfl, rfl⟩
    · exact ⟨h, SameView.refl s⟩
  · exact ⟨h, SameView.refl s⟩

theorem Inv.pasteHex {s : State} (h : Inv s) (hexStr : String) (targetAddr : Option Int) :
    Inside (pasteHex s hexStr targetAddr) ∧ SameView s (pasteHex s hexStr targetAddr) := by
  unfold HexState.pasteHex
  split
  · rename_i base hbase
    simp only
    split
    · have hedits : ∀ a, ((pasteBytes s.targets base (parseBytes hexStr) s.pendingEdits).2 a).isSome →
          Covered s.targets a := by
        rw [pasteBytes_edits h.ordered]
        refine covered_of_setAll _ (fun p hp => ?_) h.inside.edits
        exact (mem_addressesFrom.mp (List.of_mem_zip hp).1).1
      split
      · rename_i hlast
        exact ⟨⟨⟨_, rfl, hlast⟩, hedits⟩, rfl, rfl, rfl⟩
      · exact ⟨⟨h.inside.cursor, hedits⟩, rfl, rfl, rfl⟩
    · exact ⟨h.inside, SameView.refl s⟩
  · exact ⟨h.inside, SameView.refl s⟩

/-- A paste sets the next addresses of the maps. -/
theorem Inv.pasted {s : State} (h : Inv s) {hexStr : String} {targetAddr : Option Int} {base : Int}
    (hunlocked : s.isEditingUnlocked) (hbase : targetAddr.or s.selectionEnd = some base) :
    (HexState.pasteHex s hexStr targetAddr).pendingEdits =
      setAll s.pendingEdits ((addressesFrom s.targets base).zip (parseBytes hexStr)) := by
  rw [← pasteBytes_edits h.ordered]
  simp only [HexState.pasteHex, hbase]
  split
  · split <;> rfl
  · rename_i hempty
    have hnil : parseBytes hexStr = [] := by
      by_contra hne
      exact hempty ⟨hunlocked, hne⟩
    rw [hnil]
    rfl

theorem autoScroll_sameView (s : State) (cursor : Int) :
    SameView s (autoScroll s cursor) ∧ (autoScroll s cursor).selectionEnd = s.selectionEnd ∧
      (autoScroll s cursor).pendingEdits = s.pendingEdits := by
  unfold autoScroll
  simp only
  split
  · exact ⟨⟨rfl, rfl, rfl⟩, rfl, rfl⟩
  · split
    · exact ⟨⟨rfl, rfl, rfl⟩, rfl, rfl⟩
    · exact ⟨SameView.refl s, rfl, rfl⟩

/-- What a move changes. -/
theorem moveCursor_spec {s : State} {arrow : Arrow} (hno : ¬ Throws s arrow) (shiftPressed : Bool) (cursor : Int) :
    SameView s (moveCursor s arrow shiftPressed cursor) ∧
      (moveCursor s arrow shiftPressed cursor).selectionEnd = some (nextCursor s arrow cursor) ∧
      (moveCursor s arrow shiftPressed cursor).pendingEdits = s.pendingEdits := by
  obtain ⟨⟨hmap, hmaps, hrow⟩, hend, hedits⟩ := autoScroll_sameView
    { s with selectionStart := if shiftPressed then s.selectionStart else some (nextCursor s arrow cursor)
             selectionEnd := some (nextCursor s arrow cursor), hexInputBuffer := [] } (nextCursor s arrow cursor)
  rw [moveCursor, if_neg hno]
  exact ⟨⟨hmap, hmaps, hrow⟩, hend, hedits⟩

/-- A move keeps cursor and edits in the maps exactly if it ends there. -/
theorem Inside.moveCursor_iff {s : State} (h : Inside s) {arrow : Arrow} (hno : ¬ Throws s arrow)
    (shiftPressed : Bool) (cursor : Int) :
    Inside (moveCursor s arrow shiftPressed cursor) ↔ Covered s.targets (nextCursor s arrow cursor) := by
  obtain ⟨hsame, hend, hedits⟩ := moveCursor_spec hno shiftPressed cursor
  constructor
  · intro hin
    obtain ⟨cursor', hcursor', hcov⟩ := hin.cursor
    obtain rfl := Option.some.inj (hend.symm.trans hcursor')
    rw [← hsame.targets]
    exact hcov
  · intro hcov
    refine ⟨⟨_, hend, by rw [hsame.targets]; exact hcov⟩, ?_⟩
    rw [hedits, hsame.targets]
    exact h.edits

/-! ## The moves -/

section Moves

variable {s : State} {arrow : Arrow} {cursor : Int}

/-- The column of the cursor, counted from the start of its map. -/
theorem Inv.column_eq (h : Inv s) (hcov : Covered s.targets cursor) :
    ∃ map ∈ s.targets, map.Has cursor ∧ column s cursor = (cursor - map.start) % s.bytesPerRow := by
  obtain ⟨map, hmap, hhas, hstart⟩ := getAddressForRow_of_covered h.row h.ordered hcov
  have := Int.mul_ediv_add_emod (cursor - map.start) s.bytesPerRow
  refine ⟨map, hmap, hhas, ?_⟩
  rw [column, hstart, Int.mul_comm]
  omega

theorem Inv.column_nonneg (h : Inv s) (hcov : Covered s.targets cursor) :
    0 ≤ column s cursor ∧ column s cursor < s.bytesPerRow := by
  obtain ⟨map, -, -, hcolumn⟩ := h.column_eq hcov
  rw [hcolumn]
  exact ⟨Int.emod_nonneg _ (by have := h.row; omega), Int.emod_lt_of_pos _ h.row⟩

/-- A move by one, to an address of some map. -/
theorem Inv.nextCursor_of_covered (h : Inv s) (hstep : (arrow.step s.bytesPerRow).natAbs = 1)
    (hnext : Covered s.targets (cursor + arrow.step s.bytesPerRow)) :
    nextCursor s arrow cursor = cursor + arrow.step s.bytesPerRow := by
  have hbounds := h.bounds hnext
  unfold nextCursor
  simp only [hstep, if_true, long_eq_self hbounds.1 (by omega), if_pos hnext]

/-- Over maps that fit, a horizontal move, and with rows of one byte any, ends in the maps only if the next
address is in one. -/
theorem Inv.covered_step_iff (h : Inv s) (hfits : Long.Fits s.bytesPerRow s.targets) (hcov : Covered s.targets cursor)
    (hstep : (arrow.step s.bytesPerRow).natAbs = 1) :
    Covered s.targets (nextCursor s arrow cursor) ↔ Covered s.targets (cursor + arrow.step s.bytesPerRow) := by
  by_cases hnext : Covered s.targets (cursor + arrow.step s.bytesPerRow)
  · rw [h.nextCursor_of_covered hstep hnext]
  · obtain ⟨htotal, -, hget, haddress⟩ := hfits.exact h.row h.ordered h.longs
    have hnonneg := getTotalRows_nonneg h.row h.ordered
    have hnot : ¬ Covered s.targets (long (cursor + arrow.step s.bytesPerRow)) := by
      intro hlong
      have hbounds := h.bounds hcov
      have hbounds' := h.bounds hlong
      have hwrap := @Int.bmod_emod (cursor + arrow.step s.bytesPerRow) (2 ^ 64)
      have hself : long (cursor + arrow.step s.bytesPerRow) = cursor + arrow.step s.bytesPerRow := by
        rw [long] at hbounds' ⊢
        omega
      exact hnext (hself ▸ hlong)
    have hne : s.targets ≠ [] := by
      obtain ⟨map, hmap, -⟩ := hcov
      exact List.ne_nil_of_mem hmap
    unfold nextCursor
    simp only [hstep, if_true, if_neg hnot]
    rw [hget, getRowForAddress_of_not_covered hnot, haddress _ hnonneg htotal]
    exact iff_of_false (not_covered_getAddressForRow h.row h.ordered hne) hnext

/-- Over maps that fit no row is missed. -/
theorem Inv.not_throws (h : Inv s) (hfits : Long.Fits s.bytesPerRow s.targets) (arrow : Arrow) : ¬ Throws s arrow := by
  obtain ⟨htotal, hrows, -⟩ := hfits.exact h.row h.ordered h.longs
  obtain ⟨cursor, -, hcov⟩ := h.inside.cursor
  have hbounds := getRowForAddress_bounds h.row h.ordered hcov
  rintro ⟨-, hneg⟩
  rw [hrows, long_eq_self (by omega) (by omega)] at hneg
  omega

/-- Where a vertical move comes to over maps that fit, in whole numbers. -/
theorem Inv.destination_exact (h : Inv s) (hfits : Long.Fits s.bytesPerRow s.targets)
    (hcov : Covered s.targets cursor) :
    destination s arrow cursor = getAddressForRow s.bytesPerRow s.targets
      (coerceIn (getRowForAddress s.bytesPerRow s.targets cursor + (arrow.step s.bytesPerRow).tdiv s.bytesPerRow) 0
        (getTotalRows s.bytesPerRow s.targets - 1)) := by
  obtain ⟨htotal, hrows, hget, haddress⟩ := hfits.exact h.row h.ordered h.longs
  have hbounds := getRowForAddress_bounds h.row h.ordered hcov
  have hstep : -1 ≤ (arrow.step s.bytesPerRow).tdiv s.bytesPerRow ∧
      (arrow.step s.bytesPerRow).tdiv s.bytesPerRow ≤ 1 := by
    have hrow := h.row
    have hself : s.bytesPerRow.tdiv s.bytesPerRow = 1 := Int.tdiv_self (by omega)
    have hone : 0 ≤ (1 : Int).tdiv s.bytesPerRow ∧ (1 : Int).tdiv s.bytesPerRow ≤ 1 := by
      rw [Int.tdiv_eq_ediv_of_nonneg (by decide)]
      exact ⟨Int.ediv_nonneg (by decide) hrow.le, Int.ediv_le_self _ (by decide)⟩
    cases arrow <;> simp only [Arrow.step, Int.neg_tdiv] <;> omega
  rw [destination, nextRow, hget, hrows, long_eq_self (by omega) (by omega), long_eq_self (by omega) (by omega)]
  exact haddress _ (by rw [coerceIn]; omega) (by rw [coerceIn]; omega)

/-- With rows of one byte, a vertical move goes to the next address. -/
theorem Inv.destination_of_one (h : Inv s) (hfits : Long.Fits s.bytesPerRow s.targets) (hone : s.bytesPerRow = 1)
    (harrow : arrow = .up ∨ arrow = .down) (hcov : Covered s.targets cursor)
    (hnext : Covered s.targets (cursor + arrow.step s.bytesPerRow)) :
    destination s arrow cursor + column s cursor = cursor + arrow.step s.bytesPerRow := by
  have hcolumn := h.column_nonneg hcov
  have hbounds := getRowForAddress_bounds h.row h.ordered hnext
  -- the row of the next address is the next row
  have hrow : getRowForAddress s.bytesPerRow s.targets (cursor + arrow.step s.bytesPerRow) =
      getRowForAddress s.bytesPerRow s.targets cursor + arrow.step s.bytesPerRow := by
    rw [hone] at hnext ⊢
    rcases harrow with rfl | rfl
    · have hback : cursor + Arrow.up.step 1 + 1 = cursor := by
        simp only [Arrow.step]
        omega
      have hsucc := getRowForAddress_succ h.ordered hnext (by rw [hback]; exact hcov)
      rw [hback] at hsucc
      simp only [Arrow.step] at hsucc ⊢
      omega
    · exact getRowForAddress_succ h.ordered hcov hnext
  have hdest : destination s arrow cursor =
      getAddressForRow s.bytesPerRow s.targets (getRowForAddress s.bytesPerRow s.targets
        (cursor + arrow.step s.bytesPerRow)) := by
    have hquot : (arrow.step s.bytesPerRow).tdiv s.bytesPerRow = arrow.step s.bytesPerRow := by
      rw [hone, Int.tdiv_one]
    rw [h.destination_exact hfits hcov, hquot, ← hrow, coerceIn]
    congr 1
    omega
  obtain ⟨map, -, -, hstart⟩ := getAddressForRow_of_covered h.row h.ordered hnext
  rw [hone, Int.ediv_one] at hstart
  rw [hdest, hone, hstart]
  omega

/-- The move as the key makes it. -/
theorem handleKey_arrow (hcursor : s.selectionEnd = some cursor) (shiftPressed : Bool) :
    handleKey s (.arrow arrow shiftPressed) = moveCursor s arrow shiftPressed cursor := by
  simp only [handleKey, hcursor]

/-- A move that is allowed does not throw. -/
theorem Inv.not_throws_of_allowed (h : Inv s) {shiftPressed : Bool} (hallowed : Allowed s (.arrow arrow shiftPressed)) :
    ¬ Throws s arrow := by
  cases arrow with
  | left | right => exact fun hthrows => absurd rfl hthrows.1
  | up => exact h.not_throws (hallowed.1 (.inl rfl)) _
  | down => exact h.not_throws (hallowed.1 (.inr rfl)) _

/-- A move by more than one. -/
theorem nextCursor_vertical (hstep : (arrow.step s.bytesPerRow).natAbs ≠ 1) :
    nextCursor s arrow cursor = long (destination s arrow cursor + cursor.tmod s.bytesPerRow) := by
  unfold nextCursor
  simp only [hstep, if_false]
  rfl

/-- The column of a row is an address of a map. -/
theorem Inv.covered_column (h : Inv s) (hcov : Covered s.targets cursor)
    (hcolumn : HasColumn s (destination s arrow cursor) (column s cursor)) :
    Covered s.targets (destination s arrow cursor + column s cursor) := by
  obtain ⟨map, hmap, hhas, hlt⟩ := hcolumn
  have := h.column_nonneg hcov
  have := hhas.1
  exact ⟨map, hmap, by omega, hlt⟩

/-- **A move that is allowed is good.** -/
theorem Inv.good_arrow (h : Inv s) {shiftPressed : Bool} (hallowed : Allowed s (.arrow arrow shiftPressed)) :
    Good s (.arrow arrow shiftPressed) := by
  obtain ⟨cursor, hcursor, hcov⟩ := h.inside.cursor
  have hno := h.not_throws_of_allowed hallowed
  have hkey := @handleKey_arrow s arrow cursor hcursor shiftPressed
  have hend := (moveCursor_spec hno shiftPressed cursor).2.1
  have hin := h.inside.moveCursor_iff hno shiftPressed cursor
  obtain ⟨hfits, hmove⟩ := hallowed
  have hmove := hmove cursor hcursor
  by_cases hstep : (arrow.step s.bytesPerRow).natAbs = 1
  · rw [if_pos hstep] at hmove
    have hnext := h.nextCursor_of_covered hstep hmove
    rw [hnext] at hin hend
    refine ⟨hkey ▸ hin.mpr hmove, ?_, nofun⟩
    rintro _ _ cursor' ⟨⟩ hvertical hcursor' -
    obtain rfl := Option.some.inj (hcursor.symm.trans hcursor')
    have hone : s.bytesPerRow = 1 := by
      have := h.row
      rcases hvertical with rfl | rfl
      · simp only [Arrow.step] at hstep
        omega
      · simp only [Arrow.step] at hstep
        omega
    rw [hkey, hend, h.destination_of_one (hfits hvertical) hone hvertical hcov hmove]
  · rw [if_neg hstep] at hmove
    obtain ⟨hhas, hshort⟩ := hmove
    rw [nextCursor_vertical hstep] at hin hend
    have hself : HasColumn s (destination s arrow cursor) (column s cursor) →
        long (destination s arrow cursor + cursor.tmod s.bytesPerRow) =
          destination s arrow cursor + column s cursor := by
      intro hcolumn
      have hbounds := h.bounds (h.covered_column hcov hcolumn)
      rw [hhas hcolumn, long_eq_self hbounds.1 (by omega)]
    refine ⟨hkey ▸ hin.mpr ?_, ?_, nofun⟩
    · by_cases hcolumn : HasColumn s (destination s arrow cursor) (column s cursor)
      · rw [hself hcolumn]
        exact h.covered_column hcov hcolumn
      · exact hshort hcolumn
    · rintro _ _ cursor' ⟨⟩ - hcursor' hcolumn
      obtain rfl := Option.some.inj (hcursor.symm.trans hcursor')
      rw [hkey, hend, hself hcolumn]

/-- Over maps that fit, only a move that is allowed is good. -/
theorem Inv.allowed_arrow (h : Inv s) (hfits : Long.Fits s.bytesPerRow s.targets) {shiftPressed : Bool}
    (hgood : Good s (.arrow arrow shiftPressed)) : Allowed s (.arrow arrow shiftPressed) := by
  refine ⟨fun _ => hfits, fun cursor hcursor => ?_⟩
  obtain ⟨_, hcursor', hcov⟩ := h.inside.cursor
  obtain rfl := Option.some.inj (hcursor.symm.trans hcursor')
  have hno := h.not_throws hfits arrow
  have hkey := @handleKey_arrow s arrow cursor hcursor shiftPressed
  have hend := (moveCursor_spec hno shiftPressed cursor).2.1
  have hnext := (h.inside.moveCursor_iff hno shiftPressed cursor).mp (hkey ▸ hgood.inside)
  by_cases hstep : (arrow.step s.bytesPerRow).natAbs = 1
  · rw [if_pos hstep]
    exact (h.covered_step_iff hfits hcov hstep).mp hnext
  · rw [if_neg hstep]
    rw [nextCursor_vertical hstep] at hnext hend
    have hvertical : arrow = .up ∨ arrow = .down := by
      cases arrow with
      | left | right => exact absurd rfl hstep
      | up => exact .inl rfl
      | down => exact .inr rfl
    refine ⟨fun hcolumn => ?_, fun _ => hnext⟩
    have hkept := hgood.column arrow shiftPressed cursor rfl hvertical hcursor hcolumn
    rw [hkey, hend] at hkept
    have hkept := Option.some.inj hkept
    -- both are small: what a `Long` cuts off would be seen
    have hcolumn := h.column_nonneg hcov
    have hint := h.int
    have hlow := Int.lt_tmod_of_pos cursor h.row
    have hhigh := Int.tmod_lt_of_pos cursor h.row
    have hwrap := @Int.bmod_emod (destination s arrow cursor + cursor.tmod s.bytesPerRow) (2 ^ 64)
    rw [long] at hkept
    rw [hkept] at hwrap
    omega

end Moves

theorem Inv.delete {s : State} (h : Inv s) :
    Inside (handleKey s .delete) ∧ SameView s (handleKey s .delete) := by
  unfold HexState.handleKey
  simp only
  split
  · rename_i cursor hcursor
    split
    · refine ⟨⟨h.inside.cursor, fun a ha => ?_⟩, rfl, rfl, rfl⟩
      by_cases heq : a = cursor
      · simp [heq] at ha
      · simp only [Function.update_of_ne heq] at ha
        exact h.inside.edits a ha
    · exact ⟨h.inside, SameView.refl s⟩
  · exact ⟨h.inside, SameView.refl s⟩

theorem Inv.char {s : State} (h : Inv s) (c : Char) :
    Inside (handleKey s (.char c)) ∧ SameView s (handleKey s (.char c)) := by
  unfold HexState.handleKey
  simp only
  split
  · rename_i cursor hcursor
    split
    · split
      · exact h.inside.handleHexInput c
      · split
        · have hedited : Inside { s.edit cursor (UInt8.ofNat c.toNat) with hexInputBuffer := [] } :=
            (h.inside.edit hcursor _).of_sameView ⟨rfl, rfl, rfl⟩ rfl rfl
          obtain ⟨hin, hsame⟩ := hedited.advanceCursor
          exact ⟨hin, hsame.activeMap, hsame.activeMaps, hsame.bytesPerRow⟩
        · exact ⟨h.inside, SameView.refl s⟩
    · exact ⟨h.inside, SameView.refl s⟩
  · exact ⟨h.inside, SameView.refl s⟩

/-- Every key but a move keeps cursor and edits in the maps. -/
theorem Inv.good {s : State} (h : Inv s) {key : Key} (hallowed : Allowed s key) : Good s key := by
  cases key with
  | arrow arrow shiftPressed => exact h.good_arrow hallowed
  | paste hexStr targetAddr =>
    refine ⟨(h.pasteHex hexStr targetAddr).1, nofun, ?_⟩
    rintro _ _ base ⟨⟩ hunlocked hbase
    exact h.pasted hunlocked hbase
  | lockEdit => exact ⟨h.inside.of_sameView ⟨rfl, rfl, rfl⟩ rfl rfl, nofun, nofun⟩
  | undo => exact ⟨⟨h.inside.cursor, nofun⟩, nofun, nofun⟩
  | delete => exact ⟨h.delete.1, nofun, nofun⟩
  | char c => exact ⟨(h.char c).1, nofun, nofun⟩

theorem Inv.allowed {s : State} (h : Inv s) (hfits : Long.Fits s.bytesPerRow s.targets) {key : Key}
    (hgood : Good s key) : Allowed s key := by
  cases key with
  | arrow arrow shiftPressed => exact h.allowed_arrow hfits hgood
  | _ => trivial

/-- No key changes the maps and the rows. -/
theorem Inv.sameView {s : State} (h : Inv s) (key : Key) : SameView s (handleKey s key) := by
  cases key with
  | arrow arrow shiftPressed =>
    obtain ⟨cursor, hcursor, -⟩ := h.inside.cursor
    rw [handleKey_arrow hcursor]
    by_cases hthrows : Throws s arrow
    · rw [moveCursor, if_pos hthrows]
      exact SameView.refl s
    · exact (moveCursor_spec hthrows shiftPressed cursor).1
  | paste hexStr targetAddr => exact (h.pasteHex hexStr targetAddr).2
  | lockEdit | undo => exact ⟨rfl, rfl, rfl⟩
  | delete => exact h.delete.2
  | char c => exact (h.char c).2

theorem Inv.handleKey {s : State} (h : Inv s) {key : Key} (hgood : Good s key) : Inv (handleKey s key) :=
  h.of_sameView (h.sameView key) hgood.inside

/-! ## Whether the edits stay in the maps -/

/-- **Hex edits.** From a cursor in a map, every key keeps cursor and edits in the maps, every vertical move the
column, and every paste sets the next addresses of the maps, if every move is allowed; over maps whose rows fit
in `Long`s, only then. -/
theorem edits_stay_inside_iff (s : State) (hs : Inv s) (keys : List Key) :
    (Along HexState.handleKey Allowed s keys → Along HexState.handleKey Good s keys) ∧
      (Long.Fits s.bytesPerRow s.targets →
        (Along HexState.handleKey Good s keys ↔ Along HexState.handleKey Allowed s keys)) := by
  refine ⟨fun hallowed => ?_, fun hfits => ?_⟩
  · exact Along.of_invariant Inv (fun _ _ h hallowed => ⟨h.handleKey (h.good hallowed), h.good hallowed⟩) keys hs
      hallowed
  · refine Along.iff_of_invariant (fun s => Inv s ∧ Long.Fits s.bytesPerRow s.targets)
      (fun _ key h => ⟨h.1.allowed h.2, h.1.good⟩) (fun s key h hallowed => ?_) keys ⟨hs, hfits⟩
    have hsame := h.1.sameView key
    exact ⟨h.1.handleKey (h.1.good hallowed), by rw [hsame.targets, hsame.bytesPerRow]; exact h.2⟩

/-- Two maps with a gap between them, and the cursor at the end of the first. -/
def gap : State where
  activeMap := none
  activeMaps := [⟨"a", 16, 32, 3, none, []⟩, ⟨"b", 48, 64, 3, none, []⟩]
  bytesPerRow := 16
  visibleRowsCount := 1
  scrollPosition := 0
  isEditingUnlocked := true
  hexInputBuffer := []
  selectionStart := some 31
  selectionEnd := some 31
  pendingEdits := fun _ => none

theorem inv_gap : Inv gap := by
  refine ⟨⟨?_, ?_⟩, ?_, by decide, by decide, ⟨31, rfl, by decide +kernel⟩, nofun⟩
  · intro map hmap
    have hmem : map ∈ [(⟨"a", 16, 32, 3, none, []⟩ : MemoryRange), ⟨"b", 48, 64, 3, none, []⟩] := hmap
    rcases List.mem_pair.mp hmem with rfl | rfl <;> decide
  · have hpair : [(⟨"a", 16, 32, 3, none, []⟩ : MemoryRange), ⟨"b", 48, 64, 3, none, []⟩].Pairwise
        fun map map' => map.segment.Apart map'.segment :=
      List.pairwise_pair.mpr (.inl (by decide))
    exact hpair
  · unfold Long.LongAddresses
    decide +kernel

/-- Two bytes are pasted over the gap, and the cursor goes back by one. -/
theorem paste_over_gap :
    Along HexState.handleKey Good gap [.paste "90 91" none, .arrow .right false, .arrow .left false] := by
  refine (edits_stay_inside_iff gap inv_gap _).1 ⟨trivial, ⟨nofun, ?_⟩, ⟨nofun, ?_⟩, trivial⟩
  · intro cursor hcursor
    have hend : (handleKey gap (.paste "90 91" none)).selectionEnd = some 48 := by decide +kernel
    obtain rfl := Option.some.inj (hend.symm.trans hcursor)
    rw [if_pos (by decide)]
    decide +kernel
  · intro cursor hcursor
    have hend : (handleKey (handleKey gap (.paste "90 91" none)) (.arrow .right false)).selectionEnd = some 49 := by
      decide +kernel
    obtain rfl := Option.some.inj (hend.symm.trans hcursor)
    rw [if_pos (by decide)]
    decide +kernel

/-- The cursor moves right at the end of a map, and lies behind all of them. -/
theorem right_over_gap_leaves : ¬ ∀ s, Inv s → ∀ keys, Along HexState.handleKey Good s keys := by
  intro h
  obtain ⟨cursor, hcursor, hcov⟩ := (h gap inv_gap [.arrow .right false]).1.inside.cursor
  have hend : (handleKey gap (.arrow .right false)).selectionEnd = some 64 := by decide +kernel
  obtain rfl := Option.some.inj (hend.symm.trans hcursor)
  revert hcov
  decide +kernel

end HexState

end Ps5Debugger
