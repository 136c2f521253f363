import Ps5Debugger.JsonText
import Ps5Debugger.MemoryRanges
import Ps5Debugger.Watchlist

/-!
# The watchlist and the session as text

`watchListToJson` and `sessionToJson` write the watchlist, the symbols and the process as JSON, and
`watchListFromJson` and `sessionFromJson` read them (`WatchListUtils.kt`).

`texts_round_trip`: what is written is read back when the strings need no escapes, the brackets in them close in
order, and none of them looks like the name of a field that stands behind it, and when there is a process to
write. The readers undo no escape, count brackets inside strings and take the first piece between quotes that is
a field's name for that field.
-/

namespace Ps5Debugger

open Lib

namespace WatchListUtils

open Json

/-! ## Writing -/

def boolText (b : Bool) : List Char := if b then "true".toList else "false".toList

/-- A number or `null`. -/
def numberOrNull : Option Int32 → List Char
  | some n => decimalText n.toInt
  | none => "null".toList

/-- The fields of an item. -/
def watchItemFields (item : WatchItem) : List Field :=
  [.string "label" item.label,
   .raw "address" (decimalText item.address.toInt),
   .string "addressHex" ("0x" ++ WatchlistManager.hexUpper item.address),
   .string "type" item.type,
   .string "value" item.valueStr,
   .raw "isFrozen" (boolText item.isFrozen),
   .string "comment" item.comment,
   .raw "byteLength" (numberOrNull item.byteLength)]

def watchListToJson (items : List WatchItem) : List Char :=
  ['[', '\n'] ++ objectLines [' ', ' '] ['\n'] ((items.map watchItemFields).map objectText) ++ [']', '\n']

structure SymbolSaveItem where
  mapName : String
  offset : Int64
  name : String
  isFunction : Bool

/-- What is written of a process. -/
structure ProcessInfo where
  name : String
  titleId : String
  contentId : String

/-- The symbols with a map that has them. -/
def symbolList (customSymbols : List (Int64 × String)) (discoveredFunctions : List Int64) (vmMaps : List MemoryRange) :
    List SymbolSaveItem :=
  customSymbols.filterMap fun (addr, name) =>
    (vmMaps.find? fun map => addr.toInt ≥ map.start ∧ addr.toInt < map.stop).map fun map =>
      ⟨map.name, addr - Int64.ofInt map.start, name, discoveredFunctions.contains addr⟩

def symbolFields (symbol : SymbolSaveItem) : List Field :=
  [.string "mapName" symbol.mapName,
   .raw "offset" (decimalText symbol.offset.toInt),
   .string "offsetHex" ("0x" ++ WatchlistManager.hexUpper symbol.offset),
   .string "name" symbol.name,
   .raw "isFunction" (boolText symbol.isFunction)]

/-- `"\"...\""` or `null` -/
def stringOrNull : Option String → List Char
  | some s => '"' :: (jsonEscape s ++ ['"'])
  | none => "null".toList

/-- `replace("\n", "\n  ")` -/
def indentLines (text : List Char) : List Char := text.flatMap fun c => if c = '\n' then ['\n', ' ', ' '] else [c]

/-- The end of a line, and the indent of the next. -/
def fieldEnd : List Char := [',', '\n', ' ', ' ']

def sessionToJson (watchlist : List WatchItem) (customSymbols : List (Int64 × String))
    (discoveredFunctions : List Int64)
    (vmMaps : List MemoryRange) (processInfo : Option ProcessInfo) : List Char :=
  let symbols := symbolList customSymbols discoveredFunctions vmMaps
  ['{', '\n', ' ', ' '] ++
    (key "processName" ++ [':', ' '] ++ stringOrNull (processInfo.map (·.name)) ++ fieldEnd) ++
    (key "titleId" ++ [':', ' '] ++ stringOrNull (processInfo.map (·.titleId)) ++ fieldEnd) ++
    (key "contentId" ++ [':', ' '] ++ stringOrNull (processInfo.map (·.contentId)) ++ fieldEnd) ++
    (key "watchlist" ++ [':', ' '] ++ indentLines (watchListToJson watchlist) ++ ['\n'] ++ fieldEnd) ++
    (key "symbols" ++ [':', ' ', '[', '\n'] ++
      objectLines [' ', ' ', ' ', ' '] ['\n'] ((symbols.map symbolFields).map objectText) ++ [' ', ' ', ']', '\n', '}'])

/-! ## Reading -/

def toLongOrNull (text : List Char) : Option Int64 := (toIntegerOrNull 64 text).map Int64.ofInt

/-- `equals("true", ignoreCase = true)` -/
def isTrue (text : Option (List Char)) : Bool := text.map (·.map Char.toLower) = some "true".toList

/-- A number from its field, or from the field with its hexadecimal digits. -/
def readNumber (obj : List Char) (field hexField : String) : Option Int64 :=
  ((readJsonRawField obj field).bind toLongOrNull).or
    ((readJsonStringField obj hexField).bind fun hex =>
      (toLongOrNull16 (removePrefix ['0', 'X'] (removePrefix ['0', 'x'] hex.toList))).map Int64.ofInt)

def readWatchItem (obj : List Char) : Option WatchItem := do
  let label ← readJsonStringField obj "label"
  let address ← readNumber obj "address" "addressHex"
  let type := (readJsonStringField obj "type").getD "Int32"
  let value := (readJsonStringField obj "value").getD "??"
  let frozen := isTrue (readJsonRawField obj "isFrozen")
  let comment := (readJsonStringField obj "comment").getD ""
  let byteLength := ((readJsonRawField obj "byteLength").filter (· ≠ "null".toList)).bind fun text =>
    (toIntegerOrNull 32 text).map Int32.ofInt
  some ⟨label, address, type, value, frozen, comment, byteLength⟩

def watchListFromJson (json : List Char) : List WatchItem := (extractJsonObjects json).filterMap readWatchItem

structure SessionData where
  processName : Option String
  titleId : Option String
  contentId : Option String
  watchlist : List WatchItem
  symbols : List SymbolSaveItem

/-- The text of an array from its bracket on. -/
def extractArray (json : List Char) (field : String) : List Char :=
  match (after (key field) json).bind (after ['[']) with
  | some rest => '[' :: (closing '[' ']' 1 rest).1
  | none => []

def readSymbol (obj : List Char) : Option SymbolSaveItem := do
  let mapName ← readJsonStringField obj "mapName"
  let offset ← readNumber obj "offset" "offsetHex"
  let name ← readJsonStringField obj "name"
  some ⟨mapName, offset, name, isTrue (readJsonRawField obj "isFunction")⟩

def sessionFromJson (json : List Char) : SessionData :=
  let trimmed := trim json
  if ['['].isPrefixOf trimmed then ⟨none, none, none, watchListFromJson json, []⟩
  else
    { processName := readJsonStringField trimmed "processName"
      titleId := readJsonStringField trimmed "titleId"
      contentId := readJsonStringField trimmed "contentId"
      watchlist := watchListFromJson (extractArray trimmed "watchlist")
      symbols := (extractJsonObjects (extractArray trimmed "symbols")).filterMap readSymbol }

/-! ## Numbers -/

/-- The characters of a number in base 16. -/
def hexChars : List Char := "0123456789ABCDEFx-".toList

theorem mem_hexChars {a : Int64} {c : Char} (h : c ∈ ("0x" ++ WatchlistManager.hexUpper a).toList) : c ∈ hexChars := by
  have hdigit : ∀ d < 16, (Nat.digitChar d).toUpper ∈ hexChars := by decide
  have hsign : ∀ c ∈ "0x".toList ++ "-".toList, c ∈ hexChars := by decide
  simp only [WatchlistManager.hexUpper, String.toList_append, String.toList_ofList, List.mem_append, List.mem_map] at h
  rcases h with h | h | ⟨d, hd, rfl⟩
  · exact hsign c (List.mem_append_left _ h)
  · split at h
    · exact hsign c (List.mem_append_right _ h)
    · cases h
  · obtain ⟨n, hn, rfl⟩ := exists_of_mem_toDigits (by decide) hd
    exact hdigit n hn

theorem plain_hex (a : Int64) : Plain ("0x" ++ WatchlistManager.hexUpper a) := fun c hc =>
  (by decide : ∀ c ∈ hexChars, escapeChar c = [c]) c (mem_hexChars hc)

theorem level_hex {o k : Char} (hpair : IsPair o k) (a : Int64) :
    level o k 1 ("0x" ++ WatchlistManager.hexUpper a).toList = 1 := by
  refine level_of_notMem (fun h => ?_) (fun h => ?_) 1 <;> have hmem := mem_hexChars h <;>
    rcases hpair with ⟨rfl, rfl⟩ | ⟨rfl, rfl⟩ <;> exact absurd hmem (by decide)

theorem hex_ne_name (a : Int64) {name : String} (hname : IsName name) : "0x" ++ WatchlistManager.hexUpper a ≠ name := by
  rintro rfl
  refine hname.not_mem (c := '0') (by decide) ?_
  rw [String.toList_append]
  exact List.mem_append_left _ (by decide)

theorem isRaw_decimalText (n : Int) : IsRaw (decimalText n) := by
  have hdigit : ∀ d < 10, isWhitespace (Nat.digitChar d) = false ∧
    Nat.digitChar d ∉ ['"', ',', '{', '}', '[', ']'] := by
    decide
  have hdigits : ∀ c ∈ Nat.toDigits 10 n.natAbs, isWhitespace c = false ∧ c ∉ ['"', ',', '{', '}', '[', ']'] := by
    intro c hc
    obtain ⟨d, hd, rfl⟩ := exists_of_mem_toDigits (by decide) hc
    exact hdigit d hd
  rw [decimalText]
  split
  · exact List.forall_mem_cons.mpr ⟨by decide, hdigits⟩
  · exact hdigits

theorem toLongOrNull_decimalText (a : Int64) : toLongOrNull (decimalText a.toInt) = some a := by
  rw [toLongOrNull, toIntegerOrNull_decimalText (Int64.le_toInt a) (Int64.toInt_lt a), Option.map_some,
    Int64.ofInt_toInt]

theorem isRaw_boolText (b : Bool) : IsRaw (boolText b) := by cases b <;> decide

theorem isRaw_numberOrNull (n : Option Int32) : IsRaw (numberOrNull n) := by
  cases n with
  | some n => exact isRaw_decimalText n.toInt
  | none => decide

theorem isTrue_boolText (b : Bool) : isTrue (some (boolText b)) = b := by cases b <;> decide

theorem read_numberOrNull (n : Option Int32) :
    ((some (numberOrNull n)).filter (· ≠ "null".toList)).bind
      (fun text => (toIntegerOrNull 32 text).map Int32.ofInt) = n := by
  cases n with
  | none => decide
  | some n =>
    have hread : toIntegerOrNull 32 (decimalText n.toInt) = some n.toInt :=
      toIntegerOrNull_decimalText (Int32.le_toInt n) (Int32.toInt_lt n)
    have hne : decimalText n.toInt ≠ "null".toList := by
      intro heq
      have hnone : toIntegerOrNull 32 "null".toList = none := by decide
      rw [heq, hnone] at hread
      cases hread
    rw [numberOrNull, Option.filter, if_pos (decide_eq_true hne), Option.bind_some, hread, Option.map_some,
      Int32.ofInt_toInt]

/-! ## Items -/

/-- A string that is read back as it is, with its braces closed in order. -/
def Readable (s : String) : Prop := Plain s ∧ level '{' '}' 1 s.toList = 1

instance Readable.instDecidable (s : String) : Decidable (Readable s) := inferInstanceAs (Decidable (_ ∧ _))

/-- The strings of an item are readable, and none of them looks like the name of a field behind it. -/
structure ItemReads (item : WatchItem) : Prop where
  strings : ∀ s ∈ [item.label, item.type, item.valueStr, item.comment], Readable s
  label : item.label ∉ ["type", "value", "isFrozen", "comment", "byteLength"]
  type : item.type ∉ ["value", "isFrozen", "comment", "byteLength"]
  value : item.valueStr ∉ ["comment", "byteLength"]

theorem fits_watchItemFields {item : WatchItem}
    (h : ∀ s ∈ [item.label, item.type, item.valueStr, item.comment], Plain s) : ∀ f ∈ watchItemFields item, f.Fits := by
  simp only [List.forall_mem_cons] at h
  obtain ⟨hlabel, htype, hvalue, hcomment, -⟩ := h
  simp only [watchItemFields, List.forall_mem_cons]
  exact ⟨⟨by decide, hlabel⟩, ⟨by decide, isRaw_decimalText _⟩, ⟨by decide, plain_hex _⟩, ⟨by decide, htype⟩,
    ⟨by decide, hvalue⟩,
    ⟨by decide, isRaw_boolText _⟩, ⟨by decide, hcomment⟩, ⟨by decide, isRaw_numberOrNull _⟩, nofun⟩

theorem closes_watchItemFields {o k : Char} (hpair : IsPair o k) {item : WatchItem}
    (h : ∀ s ∈ [item.label, item.type, item.valueStr, item.comment], level o k 1 s.toList = 1) :
    ∀ f ∈ watchItemFields item, f.Closes o k := by
  simp only [List.forall_mem_cons] at h
  obtain ⟨hlabel, htype, hvalue, hcomment, -⟩ := h
  simp only [watchItemFields, List.forall_mem_cons]
  exact ⟨hlabel, trivial, level_hex hpair _, htype, hvalue, trivial, hcomment, trivial, nofun⟩

theorem ItemReads.plain {item : WatchItem} (h : ItemReads item) :
    ∀ s ∈ [item.label, item.type, item.valueStr, item.comment], Plain s := fun s hs => (h.strings s hs).1

/-- An item is read back from its object. -/
theorem readWatchItem_object {item : WatchItem} (h : ItemReads item) :
    readWatchItem (objectText (watchItemFields item)) = some item := by
  have hfits := fits_watchItemFields h.plain
  have hlabel := h.label
  have htype := h.type
  have hvalue := h.value
  simp only [List.mem_cons, List.not_mem_nil, or_false, not_or] at hlabel htype hvalue
  have hhex : ∀ name : String, IsName name → "0x" ++ WatchlistManager.hexUpper item.address ≠ name := fun name hname =>
    hex_ne_name item.address hname
  have readLabel : readJsonStringField (objectText (watchItemFields item)) "label" = some item.label :=
    readString_object [] rfl hfits nofun
  have readAddress : readJsonRawField (objectText (watchItemFields item)) "address" =
      some (decimalText item.address.toInt) :=
    readRaw_behind_value [] rfl hfits nofun (by decide)
  have readType : readJsonStringField (objectText (watchItemFields item)) "type" = some item.type :=
    readString_object ((watchItemFields item).take 3) rfl hfits
      (by simp [watchItemFields, Field.Avoids, hlabel, hhex "type" (by decide)])
  have readValue : readJsonStringField (objectText (watchItemFields item)) "value" = some item.valueStr :=
    readString_object ((watchItemFields item).take 4) rfl hfits
      (by simp [watchItemFields, Field.Avoids, hlabel, htype, hhex "value" (by decide)])
  have readFrozen : readJsonRawField (objectText (watchItemFields item)) "isFrozen" = some (boolText item.isFrozen) :=
    readRaw_behind_value ((watchItemFields item).take 4) rfl hfits
      (by simp [watchItemFields, Field.Avoids, hlabel, htype, hhex "isFrozen" (by decide)]) (by decide)
  have readComment : readJsonStringField (objectText (watchItemFields item)) "comment" = some item.comment :=
    readString_object ((watchItemFields item).take 6) rfl hfits
      (by simp [watchItemFields, Field.Avoids, hlabel, htype, hvalue, hhex "comment" (by decide)])
  have readLength : readJsonRawField (objectText (watchItemFields item)) "byteLength" =
      some (numberOrNull item.byteLength) :=
    readRaw_behind_value ((watchItemFields item).take 6) rfl hfits
      (by simp [watchItemFields, Field.Avoids, hlabel, htype, hvalue, hhex "byteLength" (by decide)]) (by decide)
  simp only [readWatchItem, readNumber, readLabel, readAddress, readType, readValue, readFrozen, readComment,
    readLength,
    Option.bind_some, toLongOrNull_decimalText, Option.some_or, Option.getD_some, isTrue_boolText, read_numberOrNull]
  rfl

theorem filterMap_objects {α : Type} {read : List Char → Option α} {fields : α → List Field} {items : List α}
    (h : ∀ item ∈ items, read (objectText (fields item)) = some item) :
    ((items.map fields).map objectText).filterMap read = items := by
  rw [List.map_map, List.filterMap_map]
  exact (List.filterMap_congr h).trans List.filterMap_some

/-- The items of an array are read back. -/
theorem watchListFromJson_lines {head indent lineEnd tail : List Char} {items : List WatchItem} (hhead : '{' ∉ head)
    (hindent : '{' ∉ indent) (hend : '{' ∉ lineEnd) (htail : '{' ∉ tail) (hitems : ∀ item ∈ items, ItemReads item) :
    watchListFromJson (head ++ (objectLines indent lineEnd ((items.map watchItemFields).map objectText) ++ tail)) =
      items := by
  rw [watchListFromJson, extractJsonObjects_skip hhead, extractJsonObjects_lines hindent hend htail]
  · exact filterMap_objects fun item hitem => readWatchItem_object (hitems item hitem)
  · intro fs hfs
    obtain ⟨item, hitem, rfl⟩ := List.mem_map.mp hfs
    exact fits_watchItemFields (hitems item hitem).plain
  · intro fs hfs
    obtain ⟨item, hitem, rfl⟩ := List.mem_map.mp hfs
    exact closes_watchItemFields (.inl ⟨rfl, rfl⟩) fun s hs => ((hitems item hitem).strings s hs).2

/-! ## Symbols -/

/-- The same for a symbol. -/
structure SymbolReads (symbol : SymbolSaveItem) : Prop where
  strings : ∀ s ∈ [symbol.mapName, symbol.name], Readable s
  mapName : symbol.mapName ∉ ["name", "isFunction"]

theorem fits_symbolFields {symbol : SymbolSaveItem} (h : SymbolReads symbol) : ∀ f ∈ symbolFields symbol, f.Fits := by
  have hmap := (h.strings symbol.mapName (by simp)).1
  have hname := (h.strings symbol.name (by simp)).1
  simp only [symbolFields, List.forall_mem_cons]
  exact ⟨⟨by decide, hmap⟩, ⟨by decide, isRaw_decimalText _⟩, ⟨by decide, plain_hex _⟩, ⟨by decide, hname⟩,
    ⟨by decide, isRaw_boolText _⟩, nofun⟩

theorem closes_symbolFields {o k : Char} (hpair : IsPair o k) {symbol : SymbolSaveItem}
    (h : ∀ s ∈ [symbol.mapName, symbol.name], level o k 1 s.toList = 1) : ∀ f ∈ symbolFields symbol, f.Closes o k := by
  simp only [symbolFields, List.forall_mem_cons]
  exact ⟨h symbol.mapName (by simp), trivial, level_hex hpair _, h symbol.name (by simp), trivial, nofun⟩

/-- A symbol is read back from its object. -/
theorem readSymbol_object {symbol : SymbolSaveItem} (h : SymbolReads symbol) :
    readSymbol (objectText (symbolFields symbol)) = some symbol := by
  have hfits := fits_symbolFields h
  have hmap := h.mapName
  simp only [List.mem_cons, List.not_mem_nil, or_false, not_or] at hmap
  have hhex : ∀ name : String, IsName name → "0x" ++ WatchlistManager.hexUpper symbol.offset ≠ name := fun name hname =>
    hex_ne_name symbol.offset hname
  have readMap : readJsonStringField (objectText (symbolFields symbol)) "mapName" = some symbol.mapName :=
    readString_object [] rfl hfits nofun
  have readOffset : readJsonRawField (objectText (symbolFields symbol)) "offset" =
    some (decimalText symbol.offset.toInt) :=
    readRaw_behind_value [] rfl hfits nofun (by decide)
  have readName : readJsonStringField (objectText (symbolFields symbol)) "name" = some symbol.name :=
    readString_object ((symbolFields symbol).take 3) rfl hfits
      (by simp [symbolFields, Field.Avoids, hmap, hhex "name" (by decide)])
  have readFunction : readJsonRawField (objectText (symbolFields symbol)) "isFunction" =
    some (boolText symbol.isFunction) :=
    readRaw_behind_value ((symbolFields symbol).take 3) rfl hfits
      (by simp [symbolFields, Field.Avoids, hmap, hhex "isFunction" (by decide)]) (by decide)
  simp only [readSymbol, readNumber, readMap, readOffset, readName, readFunction, Option.bind_some,
    toLongOrNull_decimalText, Option.some_or, isTrue_boolText]
  rfl

/-! ## Sessions -/

theorem indentLines_append (s t : List Char) : indentLines (s ++ t) = indentLines s ++ indentLines t :=
  List.flatMap_append

theorem indentLines_eq_self {t : List Char} (ht : '\n' ∉ t) : indentLines t = t := by
  induction t with
  | nil => rfl
  | cons c t ih =>
    obtain ⟨hc, ht⟩ := List.ne_and_not_mem_of_not_mem_cons ht
    have hrest := ih ht
    rw [indentLines] at hrest
    rw [indentLines, List.flatMap_cons, if_neg (Ne.symm hc), hrest]
    rfl

theorem indentLines_lines {indent lineEnd : List Char} (hindent : '\n' ∉ indent) {objects : List (List Char)}
    (hobjects : ∀ object ∈ objects, '\n' ∉ object) :
    indentLines (objectLines indent lineEnd objects) = objectLines indent (indentLines lineEnd) objects := by
  induction objects with
  | nil => rfl
  | cons object objects ih =>
    have hobject := indentLines_eq_self (hobjects object List.mem_cons_self)
    have hrest := ih fun o ho => hobjects o (List.mem_cons_of_mem object ho)
    cases objects with
    | nil => simp only [objectLines, indentLines_append, indentLines_eq_self hindent, hobject]
    | cons object' objects =>
      have hsplit : objectLines indent lineEnd (object :: object' :: objects) =
          indent ++ object ++ [','] ++ lineEnd ++ objectLines indent lineEnd (object' :: objects) := by
        simp [objectLines]
      have hcomma : indentLines [','] = [','] := by decide
      simp only [hsplit, indentLines_append, indentLines_eq_self hindent, hobject, hcomma, hrest]
      simp [objectLines]

/-- What stands between the last item and the name of the symbols. -/
def betweenArrays : List Char := [']', '\n', ' ', ' ', '\n'] ++ fieldEnd

def sessionEnd : List Char := [' ', ' ', ']', '\n', '}']

/-- The pieces of the text from the watchlist on. -/
def watchlistPieces (rows : List (List Field)) : List (List Char) :=
  ([':', ' ', '[', '\n', ' ', ' '] ++ rowsHead [' ', ' '] betweenArrays rows) ::
    rowsPieces [' ', ' '] ['\n', ' ', ' '] betweenArrays rows

def symbolsPieces (rows : List (List Field)) : List (List Char) :=
  ([':', ' ', '[', '\n'] ++ rowsHead [' ', ' ', ' ', ' '] sessionEnd rows) ::
    rowsPieces [' ', ' ', ' ', ' '] ['\n'] sessionEnd rows

def stringPieces (name value : String) : List (List Char) := [name.toList, [':', ' '], value.toList, fieldEnd]

def sessionPieces (info : ProcessInfo) (items symbols : List (List Field)) : List (List Char) :=
  stringPieces "processName" info.name ++ (stringPieces "titleId" info.titleId ++
    (stringPieces "contentId" info.contentId ++
    ("watchlist".toList :: (watchlistPieces items ++ "symbols".toList :: symbolsPieces symbols))))

/-- The session is read back when its items and symbols are, when the brackets in their strings close too, and when
no string before the name of an array or of a string of the process looks like that name. -/
structure SessionReads (watchlist : List WatchItem) (symbols : List SymbolSaveItem) (info : ProcessInfo) : Prop where
  eachItem : ∀ item ∈ watchlist, ItemReads item
  eachSymbol : ∀ symbol ∈ symbols, SymbolReads symbol
  itemStrings : ∀ item ∈ watchlist, ∀ s ∈ [item.label, item.type, item.valueStr, item.comment],
    level '[' ']' 1 s.toList = 1 ∧ s ≠ "symbols"
  symbolStrings : ∀ symbol ∈ symbols, ∀ s ∈ [symbol.mapName, symbol.name], level '[' ']' 1 s.toList = 1
  plain : ∀ s ∈ [info.name, info.titleId, info.contentId], Plain s
  name : info.name ∉ ["titleId", "contentId", "watchlist", "symbols"]
  titleId : info.titleId ∉ ["contentId", "watchlist", "symbols"]
  contentId : info.contentId ∉ ["watchlist", "symbols"]

section Session

variable {watchlist : List WatchItem} {customSymbols : List (Int64 × String)} {discoveredFunctions : List Int64}
  {vmMaps : List MemoryRange} {info : ProcessInfo}

theorem quoted_stringPieces (name : String) {value : String} (h : Plain value) :
    key name ++ [':', ' '] ++ stringOrNull (some value) ++ fieldEnd = quoted (stringPieces name value) := by
  simp [key, stringOrNull, stringPieces, jsonEscape_plain h]

theorem quoted_watchlistPieces (name : String) (h : ∀ item ∈ watchlist, ItemReads item) :
    key name ++ [':', ' '] ++ indentLines (watchListToJson watchlist) ++ ['\n'] ++ fieldEnd =
      quoted (name.toList :: watchlistPieces (watchlist.map watchItemFields)) := by
  have hobjects : ∀ object ∈ (watchlist.map watchItemFields).map objectText, '\n' ∉ object := by
    intro object hobject
    obtain ⟨fs, hfs, rfl⟩ := List.mem_map.mp hobject
    obtain ⟨item, hitem, rfl⟩ := List.mem_map.mp hfs
    exact newline_not_mem_objectText (fits_watchItemFields (h item hitem).plain)
  have hlist : indentLines (watchListToJson watchlist) = ['[', '\n', ' ', ' '] ++
      objectLines [' ', ' '] ['\n', ' ', ' '] ((watchlist.map watchItemFields).map objectText) ++
        [']', '\n', ' ', ' '] := by
    rw [watchListToJson, indentLines_append, indentLines_append, indentLines_lines (by decide) hobjects]
    rfl
  have hrows : ∀ fs ∈ watchlist.map watchItemFields, fs ≠ [] := by simp [watchItemFields]
  have hitems := quoted_rowsPieces [' ', ' '] ['\n', ' ', ' '] betweenArrays hrows
  simp only [hlist, key, watchlistPieces, quoted_cons, List.append_assoc, List.cons_append, List.nil_append, hitems]
  rfl

theorem quoted_symbolsPieces (name : String) (symbols : List SymbolSaveItem) :
    key name ++ [':', ' ', '[', '\n'] ++
        objectLines [' ', ' ', ' ', ' '] ['\n'] ((symbols.map symbolFields).map objectText) ++
          [' ', ' ', ']', '\n', '}'] =
      quoted (name.toList :: symbolsPieces (symbols.map symbolFields)) := by
  have hrows : ∀ fs ∈ symbols.map symbolFields, fs ≠ [] := by simp [symbolFields]
  have hsymbols := quoted_rowsPieces [' ', ' ', ' ', ' '] ['\n'] sessionEnd hrows
  simp only [key, symbolsPieces, quoted_cons, List.append_assoc, List.cons_append, List.nil_append, hsymbols]
  rfl

/-- The text of a session, by its pieces. -/
theorem sessionToJson_eq (h : SessionReads watchlist (symbolList customSymbols discoveredFunctions vmMaps) info) :
    sessionToJson watchlist customSymbols discoveredFunctions vmMaps (some info) =
      ['{', '\n', ' ', ' '] ++ quoted (sessionPieces info (watchlist.map watchItemFields)
        ((symbolList customSymbols discoveredFunctions vmMaps).map symbolFields)) := by
  rw [sessionToJson, Option.map_some, Option.map_some, Option.map_some,
    quoted_stringPieces _ (h.plain info.name (by simp)),
    quoted_stringPieces _ (h.plain info.titleId (by simp)), quoted_stringPieces _ (h.plain info.contentId (by simp)),
    quoted_watchlistPieces _ h.eachItem, quoted_symbolsPieces, sessionPieces, ← List.cons_append]
  simp only [quoted_append, List.append_assoc]

theorem SessionReads.fitsItems {symbols : List SymbolSaveItem} (h : SessionReads watchlist symbols info) :
    ∀ fs ∈ watchlist.map watchItemFields, ∀ f ∈ fs, f.Fits := by
  intro fs hfs
  obtain ⟨item, hitem, rfl⟩ := List.mem_map.mp hfs
  exact fits_watchItemFields (h.eachItem item hitem).plain

theorem SessionReads.fitsSymbols {symbols : List SymbolSaveItem} (h : SessionReads watchlist symbols info) :
    ∀ fs ∈ symbols.map symbolFields, ∀ f ∈ fs, f.Fits := by
  intro fs hfs
  obtain ⟨symbol, hsymbol, rfl⟩ := List.mem_map.mp hfs
  exact fits_symbolFields (h.eachSymbol symbol hsymbol)

theorem quote_not_mem_stringPieces {name value : String} (hname : IsName name) (hvalue : Plain value) :
    ∀ p ∈ stringPieces name value, '"' ∉ p := by
  simp only [stringPieces, List.forall_mem_cons]
  exact ⟨hname.not_mem (by decide), by decide, hvalue.not_mem (by decide), by decide, nofun⟩

theorem quote_not_mem_sessionPieces {symbols : List SymbolSaveItem} (h : SessionReads watchlist symbols info) :
    ∀ p ∈ sessionPieces info (watchlist.map watchItemFields) (symbols.map symbolFields), '"' ∉ p := by
  have hhead : ∀ (t indent behind : List Char) (rows : List (List Field)), '"' ∉ t → '"' ∉ indent → '"' ∉ behind →
      '"' ∉ t ++ rowsHead indent behind rows := by
    intro t indent behind rows ht hindent hbehind
    cases rows with
    | nil => simp [rowsHead, ht, hbehind]
    | cons => simp [rowsHead, ht, hindent]
  simp only [sessionPieces, watchlistPieces, symbolsPieces, List.forall_mem_append, List.forall_mem_cons]
  exact ⟨quote_not_mem_stringPieces (by decide) (h.plain info.name (by simp)),
    quote_not_mem_stringPieces (by decide) (h.plain info.titleId (by simp)),
    quote_not_mem_stringPieces (by decide) (h.plain info.contentId (by simp)), by decide,
    ⟨hhead _ _ _ _ (by decide) (by decide) (by decide),
      quote_not_mem_rowsPieces h.fitsItems (by decide) (by decide) (by decide)⟩, by decide,
    hhead _ _ _ _ (by decide) (by decide) (by decide),
    quote_not_mem_rowsPieces h.fitsSymbols (by decide) (by decide) (by decide)⟩

/-! ## Finding the parts of a session -/

theorem name_not_mem_stringPieces {name name' value : String} (hname : IsName name) (hne : name' ≠ name)
    (hvalue : value ≠ name) : name.toList ∉ stringPieces name' value := by
  have hcolon : name.toList ≠ [':', ' '] := fun heq => hname.not_mem (c := ':') (by decide) (heq ▸ List.mem_cons_self)
  have hcomma : name.toList ≠ fieldEnd := fun heq => hname.not_mem (c := ',') (by decide) (heq ▸ List.mem_cons_self)
  simp [stringPieces, hcolon, hcomma, String.toList_inj, Ne.symm hne, Ne.symm hvalue]

theorem name_not_mem_watchlistPieces {name : String} (hname : IsName name) {rows : List (List Field)}
    (hfits : ∀ fs ∈ rows, ∀ f ∈ fs, f.Fits) (havoids : ∀ fs ∈ rows, ∀ f ∈ fs, f.Avoids name) :
    name.toList ∉ watchlistPieces rows := by
  rw [watchlistPieces, List.mem_cons]
  rintro (heq | hmem)
  · exact hname.not_mem (c := ':') (by decide) (heq ▸ List.mem_cons_self)
  · exact name_not_mem_rowsPieces hname hfits havoids hmem

theorem SessionReads.avoidsItems {symbols : List SymbolSaveItem} (h : SessionReads watchlist symbols info) :
    ∀ fs ∈ watchlist.map watchItemFields, ∀ f ∈ fs, f.Avoids "symbols" := by
  intro fs hfs
  obtain ⟨item, hitem, rfl⟩ := List.mem_map.mp hfs
  have hstrings := fun s hs => (h.itemStrings item hitem s hs).2
  simp only [List.forall_mem_cons] at hstrings
  simp [watchItemFields, Field.Avoids, hstrings, hex_ne_name item.address (by decide : IsName "symbols")]

/-- The strings of the process are read back. -/
theorem readStrings_session {symbols : List SymbolSaveItem} (h : SessionReads watchlist symbols info) :
    let text := ['{', '\n', ' ', ' '] ++ quoted (sessionPieces info (watchlist.map watchItemFields)
      (symbols.map symbolFields))
    readJsonStringField text "processName" = some info.name ∧ readJsonStringField text "titleId" = some info.titleId ∧
      readJsonStringField text "contentId" = some info.contentId := by
  have hquote := quote_not_mem_sessionPieces h
  have hname := h.name
  have htitle := h.titleId
  simp only [List.mem_cons, List.not_mem_nil, or_false, not_or] at hname htitle
  have hread (name value : String) (ps : List (List Char)) (hps : name.toList ∉ ps) (more : List (List Char))
      (hname : IsName name) (hvalue : Plain value)
      (heq : sessionPieces info (watchlist.map watchItemFields) (symbols.map symbolFields) =
        ps ++ (stringPieces name value ++ more)) :
      readJsonStringField (['{', '\n', ' ', ' '] ++ quoted (sessionPieces info (watchlist.map watchItemFields)
        (symbols.map symbolFields))) name = some value := by
    have hpiece : behindPiece name.toList (sessionPieces info (watchlist.map watchItemFields)
      (symbols.map symbolFields)) =
        some ([':', ' '], value.toList :: fieldEnd :: more) := by
      rw [heq, behindPiece_append hps]
      exact behindPiece_cons _ _ _
    refine (readString_of_piece (hname.not_mem (by decide)) (by decide) hquote hpiece (by decide)
      (hvalue.not_mem (by decide))).trans (congrArg some String.ofList_toList)
  refine ⟨hread _ _ [] List.not_mem_nil _ (by decide) (h.plain info.name (by simp)) rfl,
    hread _ _ (stringPieces "processName" info.name) ?_ _ (by decide) (h.plain info.titleId (by simp)) rfl,
    hread _ _ (stringPieces "processName" info.name ++ stringPieces "titleId" info.titleId) ?_ _ (by decide)
      (h.plain info.contentId (by simp)) (List.append_assoc _ _ _).symm⟩
  · exact name_not_mem_stringPieces (by decide) (by decide) hname.1
  · rw [List.mem_append, not_or]
    exact ⟨name_not_mem_stringPieces (by decide) (by decide) hname.2.1,
      name_not_mem_stringPieces (by decide) (by decide) htitle.1⟩

/-- An array of objects, from the pieces behind its name. -/
theorem extractArray_of_piece {t u head indent lineEnd last rest : List Char} {name : String}
    {ps more : List (List Char)}
    {rows : List (List Field)} (hname : '"' ∉ name.toList) (ht : '"' ∉ t) (hps : ∀ p ∈ ps, '"' ∉ p)
    (h : behindPiece name.toList ps = some (u ++ '[' :: (head ++ rowsHead indent (last ++ ']' :: rest) rows),
      rowsPieces indent lineEnd (last ++ ']' :: rest) rows ++ more))
    (hu : '[' ∉ u) (hrows : ∀ fs ∈ rows, fs ≠ []) (hhead : IsLayout head) (hlast : IsLayout last)
    (hlevel : level '[' ']' 1 (objectLines indent lineEnd (rows.map objectText)) = 1) :
    extractArray (t ++ quoted ps) name =
      ('[' :: head) ++ (objectLines indent lineEnd (rows.map objectText) ++ (last ++ [']'])) := by
  have hlayout : ∀ {t : List Char}, IsLayout t → level '[' ']' 1 t = 1 := fun ht =>
    level_of_notMem (fun hmem => ht _ hmem (by decide)) (fun hmem => ht _ hmem (by decide)) 1
  have hinside : level '[' ']' 1 (head ++ objectLines indent lineEnd (rows.map objectText) ++ last) = 1 := by
    rw [level_append, level_append, hlayout hhead, hlevel, hlayout hlast]
  have htext : u ++ '[' :: (head ++ rowsHead indent (last ++ ']' :: rest) rows) ++
      quoted (rowsPieces indent lineEnd (last ++ ']' :: rest) rows ++ more) =
        u ++ '[' :: (head ++ objectLines indent lineEnd (rows.map objectText) ++ last ++ ']' :: (rest ++
          quoted more)) := by
    have hlines := quoted_rowsPieces indent lineEnd (last ++ ']' :: rest) hrows
    rw [quoted_append]
    simp only [List.append_assoc, List.cons_append]
    rw [← List.append_assoc (rowsHead _ _ _), hlines]
    simp
  rw [extractArray, key, after_quoted hname hps ht, h, Option.map_some, Option.bind_some, htext, after_char hu]
  simp only [closing_one (by decide) hinside]
  simp

/-- A name that is not one of the strings' is looked for behind them. -/
theorem behindPiece_strings (name : String) (hletters : IsName name) (hp : info.name ≠ name) (ht : info.titleId ≠ name)
    (hc : info.contentId ≠ name) (hnames : ∀ n ∈ ["processName", "titleId", "contentId"], n ≠ name)
    (ps : List (List Char)) :
    behindPiece name.toList (stringPieces "processName" info.name ++ (stringPieces "titleId" info.titleId ++
      (stringPieces "contentId" info.contentId ++ ps))) = behindPiece name.toList ps := by
  simp only [List.forall_mem_cons] at hnames
  rw [behindPiece_append (name_not_mem_stringPieces hletters hnames.1 hp),
    behindPiece_append (name_not_mem_stringPieces hletters hnames.2.1 ht),
    behindPiece_append (name_not_mem_stringPieces hletters hnames.2.2.1 hc)]

section Arrays

variable {symbols : List SymbolSaveItem} (h : SessionReads watchlist symbols info)
include h

/-- The array of the items is found. -/
theorem readItems_session :
    watchListFromJson (extractArray (['{', '\n', ' ', ' '] ++ quoted (sessionPieces info
      (watchlist.map watchItemFields) (symbols.map symbolFields))) "watchlist") = watchlist := by
  have hquote := quote_not_mem_sessionPieces h
  have hname := h.name
  have htitle := h.titleId
  have hcontent := h.contentId
  simp only [List.mem_cons, List.not_mem_nil, or_false, not_or] at hname htitle hcontent
  have hlevel : level '[' ']' 1 (objectLines [' ', ' '] ['\n', ' ', ' ']
      ((watchlist.map watchItemFields).map objectText)) = 1 := by
    refine level_lines (by decide) (by decide) h.fitsItems fun fs hfs => ?_
    obtain ⟨item, hitem, rfl⟩ := List.mem_map.mp hfs
    exact closes_watchItemFields (.inr ⟨rfl, rfl⟩) fun s hs => (h.itemStrings item hitem s hs).1
  have hpiece : behindPiece "watchlist".toList (sessionPieces info (watchlist.map watchItemFields)
      (symbols.map symbolFields)) =
      some ([':', ' '] ++ '[' :: (['\n', ' ', ' '] ++ rowsHead [' ', ' '] ([] ++ ']' :: betweenArrays.tail)
        (watchlist.map watchItemFields)), rowsPieces [' ', ' '] ['\n', ' ', ' '] ([] ++ ']' :: betweenArrays.tail)
        (watchlist.map watchItemFields) ++ "symbols".toList :: symbolsPieces (symbols.map symbolFields)) :=
    (behindPiece_strings "watchlist" (by decide) hname.2.2.1 htitle.2.1 hcontent.1 (by decide) _).trans
      (behindPiece_cons _ _ _)
  have harray := extractArray_of_piece (by decide) (t := ['{', '\n', ' ', ' ']) (by decide) hquote hpiece (by decide)
    (by simp [watchItemFields]) (by decide) (by decide) hlevel
  exact (congrArg watchListFromJson harray).trans
    (watchListFromJson_lines (by decide) (by decide) (by decide) (by decide) h.eachItem)

/-- The array of the symbols is found. -/
theorem readSymbols_session :
    (extractJsonObjects (extractArray (['{', '\n', ' ', ' '] ++ quoted (sessionPieces info
      (watchlist.map watchItemFields) (symbols.map symbolFields))) "symbols")).filterMap readSymbol = symbols := by
  have hquote := quote_not_mem_sessionPieces h
  have hname := h.name
  have htitle := h.titleId
  have hcontent := h.contentId
  simp only [List.mem_cons, List.not_mem_nil, or_false, not_or] at hname htitle hcontent
  have hlevel : level '[' ']' 1 (objectLines [' ', ' ', ' ', ' '] ['\n']
      ((symbols.map symbolFields).map objectText)) = 1 := by
    refine level_lines (by decide) (by decide) h.fitsSymbols fun fs hfs => ?_
    obtain ⟨symbol, hsymbol, rfl⟩ := List.mem_map.mp hfs
    exact closes_symbolFields (.inr ⟨rfl, rfl⟩) (h.symbolStrings symbol hsymbol)
  have hskipped : "symbols".toList ∉ "watchlist".toList :: watchlistPieces (watchlist.map watchItemFields) := by
    rw [List.mem_cons, not_or]
    exact ⟨by decide, name_not_mem_watchlistPieces (by decide) h.fitsItems h.avoidsItems⟩
  have hpiece : behindPiece "symbols".toList (sessionPieces info (watchlist.map watchItemFields)
    (symbols.map symbolFields)) =
      some ([':', ' '] ++ '[' :: (['\n'] ++ rowsHead [' ', ' ', ' ', ' '] ([' ', ' '] ++ ']' :: ['\n', '}'])
        (symbols.map symbolFields)), rowsPieces [' ', ' ', ' ', ' '] ['\n'] ([' ', ' '] ++ ']' :: ['\n', '}'])
        (symbols.map symbolFields) ++ []) := by
    rw [List.append_nil]
    exact (behindPiece_strings "symbols" (by decide) hname.2.2.2 htitle.2.2 hcontent.2 (by decide) _).trans
      ((behindPiece_append hskipped _).trans (behindPiece_cons _ _ _))
  have harray := extractArray_of_piece (by decide) (t := ['{', '\n', ' ', ' ']) (by decide) hquote hpiece (by decide)
    (by simp [symbolFields]) (by decide) (by decide) hlevel
  rw [harray, extractJsonObjects_skip (by decide),
    extractJsonObjects_lines (by decide) (by decide) (by decide) h.fitsSymbols]
  · exact filterMap_objects fun symbol hsymbol => readSymbol_object (h.eachSymbol symbol hsymbol)
  · intro fs hfs
    obtain ⟨symbol, hsymbol, rfl⟩ := List.mem_map.mp hfs
    exact closes_symbolFields (.inl ⟨rfl, rfl⟩) fun s hs => ((h.eachSymbol symbol hsymbol).strings s hs).2

end Arrays

/-- **Sessions.** -/
theorem sessionFromJson_sessionToJson
    (h : SessionReads watchlist (symbolList customSymbols discoveredFunctions vmMaps) info) :
    sessionFromJson (sessionToJson watchlist customSymbols discoveredFunctions vmMaps (some info)) =
      ⟨some info.name, some info.titleId, some info.contentId, watchlist,
        symbolList customSymbols discoveredFunctions vmMaps⟩ := by
  obtain ⟨hname, htitle, hcontent⟩ := readStrings_session h
  have hitems := readItems_session h
  have hsymbols := readSymbols_session h
  have htrim : trim (sessionToJson watchlist customSymbols discoveredFunctions vmMaps (some info)) =
      sessionToJson watchlist customSymbols discoveredFunctions vmMaps (some info) := by
    refine trim_eq_self (fun c hc => ?_) fun c hc => ?_
    · have hhead : c = '{' := (Option.some.inj hc).symm
      rw [hhead]
      decide
    · have hlast : c = '}' := by
        rw [sessionToJson, ← List.append_assoc, List.getLast?_append] at hc
        exact (Option.some.inj hc).symm
      rw [hlast]
      decide
  rw [sessionFromJson, htrim, sessionToJson_eq h]
  simp only [hname, htitle, hcontent, hitems, hsymbols]
  rfl

end Session

/-- What is to come back of a symbol: its name, its map and its place there. -/
def Saved (discoveredFunctions : List Int64) (vmMaps : List MemoryRange) (entry : Int64 × String)
    (symbol : SymbolSaveItem) :
    Prop :=
  ∃ map, (vmMaps.find? fun map => entry.1.toInt ≥ map.start ∧ entry.1.toInt < map.stop) = some map ∧
    symbol = ⟨map.name, entry.1 - Int64.ofInt map.start, entry.2, discoveredFunctions.contains entry.1⟩

/-- The session came back. -/
structure Restores (data : SessionData) (watchlist : List WatchItem) (customSymbols : List (Int64 × String))
    (discoveredFunctions : List Int64) (vmMaps : List MemoryRange) (processInfo : Option ProcessInfo) : Prop where
  processName : data.processName = processInfo.map (·.name)
  titleId : data.titleId = processInfo.map (·.titleId)
  contentId : data.contentId = processInfo.map (·.contentId)
  watchlist : data.watchlist = watchlist
  symbols : List.Forall₂ (Saved discoveredFunctions vmMaps) customSymbols data.symbols

/-- Every symbol that lies in a map is saved. -/
theorem saved_symbolList {customSymbols : List (Int64 × String)} (discoveredFunctions : List Int64)
    {vmMaps : List MemoryRange} (hinside : ∀ entry ∈ customSymbols, ∃ map ∈ vmMaps, map.segment.Has entry.1.toInt) :
    List.Forall₂ (Saved discoveredFunctions vmMaps) customSymbols
      (symbolList customSymbols discoveredFunctions vmMaps) := by
  induction customSymbols with
  | nil => exact .nil
  | cons entry entries ih =>
    have hrest := ih fun e he => hinside e (List.mem_cons_of_mem entry he)
    obtain ⟨map, hmap, hstart, hstop⟩ := hinside entry List.mem_cons_self
    have hfound : (vmMaps.find? fun map => entry.1.toInt ≥ map.start ∧ entry.1.toInt < map.stop).isSome = true :=
      List.find?_isSome.mpr ⟨map, hmap, decide_eq_true ⟨hstart, hstop⟩⟩
    obtain ⟨map', hmap'⟩ := Option.isSome_iff_exists.mp hfound
    have hsymbol : symbolList (entry :: entries) discoveredFunctions vmMaps =
        ⟨map'.name, entry.1 - Int64.ofInt map'.start, entry.2, discoveredFunctions.contains entry.1⟩ ::
          symbolList entries discoveredFunctions vmMaps := by
      rw [symbolList, List.filterMap_cons_some]
      · rfl
      · exact congrArg (Option.map _) hmap'
    rw [hsymbol]
    exact .cons ⟨map', hmap', rfl⟩ hrest

/-- The strings of an item that is read have no quotes. -/
theorem quote_not_mem_of_read {obj : List Char} {item : WatchItem} (h : readWatchItem obj = some item) :
    ∀ s ∈ [item.label, item.type, item.valueStr, item.comment], '"' ∉ s.toList := by
  have hdefault : ∀ (field default : String), '"' ∉ default.toList →
      '"' ∉ ((readJsonStringField obj field).getD default).toList := by
    intro field default hdefault
    cases hread : readJsonStringField obj field with
    | none => exact hdefault
    | some s => exact quote_not_mem_readString hread
  obtain ⟨label, hlabel, h⟩ := Option.bind_eq_some_iff.mp h
  obtain ⟨address, -, h⟩ := Option.bind_eq_some_iff.mp h
  cases h
  simp only [List.forall_mem_cons]
  exact ⟨quote_not_mem_readString hlabel, hdefault _ _ (by decide), hdefault _ _ (by decide),
    hdefault _ _ (by decide), nofun⟩

/-- **Round trips.** A watchlist is read back when its items are readable, and only if no string of theirs has a
quote. A session is read back when it has a process and its items, symbols and process are readable. -/
theorem texts_round_trip (items : List WatchItem) (watchlist : List WatchItem) (customSymbols : List (Int64 × String))
    (discoveredFunctions : List Int64) (vmMaps : List MemoryRange) (processInfo : Option ProcessInfo)
    (hinside : ∀ entry ∈ customSymbols, ∃ map ∈ vmMaps, map.segment.Has entry.1.toInt) :
    ((∀ item ∈ items, ItemReads item) → watchListFromJson (watchListToJson items) = items) ∧
      (watchListFromJson (watchListToJson items) = items →
        ∀ item ∈ items, ∀ s ∈ [item.label, item.type, item.valueStr, item.comment], '"' ∉ s.toList) ∧
      ((∃ info, processInfo = some info ∧
          SessionReads watchlist (symbolList customSymbols discoveredFunctions vmMaps) info) →
        Restores (sessionFromJson (sessionToJson watchlist customSymbols discoveredFunctions vmMaps processInfo))
          watchlist customSymbols discoveredFunctions vmMaps processInfo) := by
  refine ⟨fun h => ?_, fun h item hitem => ?_, ?_⟩
  · rw [watchListToJson, List.append_assoc]
    exact watchListFromJson_lines (by decide) (by decide) (by decide) (by decide) h
  · rw [← h] at hitem
    obtain ⟨obj, -, hread⟩ := List.mem_filterMap.mp hitem
    exact quote_not_mem_of_read hread
  · rintro ⟨info, rfl, h⟩
    rw [sessionFromJson_sessionToJson h]
    exact ⟨rfl, rfl, rfl, rfl, saved_symbolList discoveredFunctions hinside⟩

/-- An item whose label says `type` in a place where it does no harm. -/
def plainItem : WatchItem where
  label := "health (type 1)"
  address := 0x1000
  type := "Int32"
  valueStr := "100"
  isFrozen := true
  byteLength := some 4

theorem plain_texts_round_trip : watchListFromJson (watchListToJson [plainItem]) = [plainItem] ∧
    Restores (sessionFromJson (sessionToJson [plainItem] [(0x1008, "update")] [0x1008]
        [{ name := "code", start := 0x1000, stop := 0x2000, protections := 5 }]
          (some ⟨"eboot.bin", "CUSA00001", "v1"⟩)))
      [plainItem] [(0x1008, "update")] [0x1008] [{ name := "code", start := 0x1000, stop := 0x2000, protections := 5 }]
      (some ⟨"eboot.bin", "CUSA00001", "v1"⟩) := by
  have hitem : ItemReads plainItem := ⟨by decide, by decide, by decide, by decide⟩
  obtain ⟨hitems, -, hsession⟩ := texts_round_trip [plainItem] [plainItem] [(0x1008, "update")] [0x1008]
    [{ name := "code", start := 0x1000, stop := 0x2000, protections := 5 }] (some ⟨"eboot.bin", "CUSA00001", "v1"⟩)
    (by simp [MemoryRange.segment, Segment.Has])
  refine ⟨hitems (List.forall_mem_singleton.mpr hitem), hsession ⟨_, rfl, ?_⟩⟩
  have hsymbols : symbolList [(0x1008, "update")] [0x1008]
      [{ name := "code", start := 0x1000, stop := 0x2000, protections := 5 }] = [⟨"code", 8, "update", true⟩] := by
    rfl
  rw [hsymbols]
  exact ⟨List.forall_mem_singleton.mpr hitem, List.forall_mem_singleton.mpr ⟨by decide, by decide⟩,
    by decide, by decide,
    by decide, by decide, by decide, by decide⟩

/-- A quote in a label is written as an escape, and the escape ends the label when it is read. -/
theorem quoted_label_lost : ¬ ((∀ items, watchListFromJson (watchListToJson items) = items) ∧
    ∀ (watchlist : List WatchItem) (customSymbols : List (Int64 × String)) (discoveredFunctions : List Int64)
      (vmMaps : List MemoryRange) (processInfo : Option ProcessInfo),
      (∀ entry ∈ customSymbols, ∃ map ∈ vmMaps, map.segment.Has entry.1.toInt) →
        Restores (sessionFromJson (sessionToJson watchlist customSymbols discoveredFunctions vmMaps processInfo))
          watchlist customSymbols discoveredFunctions vmMaps processInfo) := by
  rintro ⟨hitems, -⟩
  have hmem : ({ label := "say \"hi\"", address := 0x1000, type := "Int32" } : WatchItem) ∈
      watchListFromJson (watchListToJson [{ label := "say \"hi\"", address := 0x1000, type := "Int32" }]) := by
    rw [hitems]
    exact List.mem_singleton_self _
  obtain ⟨obj, -, hread⟩ := List.mem_filterMap.mp hmem
  exact quote_not_mem_of_read hread _ List.mem_cons_self (by decide)

end WatchListUtils

end Ps5Debugger
