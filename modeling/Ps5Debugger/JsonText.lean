import Mathlib.Data.List.DropRight
import Ps5Debugger.Lib.Search
import Ps5Debugger.Lib.Text

/-!
# The JSON that the client writes and reads

The client builds its JSON piece by piece (`jsonEscape`) and reads it back by searching for it: a field is found
by its name in quotes, a string ends at the next quote, an object at the brace that closes it
(`WatchListUtils.kt`). Nothing of what is escaped is put back.

An object is written as a list of fields. `readString_object` and `readRaw_object` say that a field is read back
when nothing before it in the object looks like its name and no string in the object needs escapes;
`extractJsonObjects_lines` says that the objects of an array are found when the braces in their strings close.
-/

namespace Ps5Debugger

open Lib

namespace Json

/-! ## Reading and writing -/

def escapeChar (c : Char) : List Char :=
  if c = '"' then ['\\', '"']
  else if c = '\\' then ['\\', '\\']
  else if c = '\x08' then ['\\', 'b']
  else if c = '\n' then ['\\', 'n']
  else if c = '\r' then ['\\', 'r']
  else if c = '\t' then ['\\', 't']
  else [c]

def jsonEscape (value : String) : List Char := value.toList.flatMap escapeChar

/-- The objects of a text; what is not closed goes to the end. -/
def extractJsonObjects : List Char → List (List Char)
  | [] => []
  | c :: cs =>
    if c = '{' then ('{' :: (closing '{' '}' 1 cs).1) :: extractJsonObjects (closing '{' '}' 1 cs).2
    else extractJsonObjects cs
termination_by json => json.length
decreasing_by
  · exact Nat.lt_succ_of_le (length_closing 1 cs)
  · exact Nat.lt_succ_self _

/-- `"\"$field\""` -/
def key (field : String) : List Char := '"' :: (field.toList ++ ['"'])

def readJsonStringField (json : List Char) (field : String) : Option String :=
  (after (key field) json).bind fun behind =>
    (after ['"'] behind).bind fun value => (upTo '"' value).map String.ofList

def readJsonRawField (json : List Char) (field : String) : Option (List Char) :=
  (after (key field) json).bind fun behind =>
    (after [':'] behind).map fun value =>
      trim ((value.dropWhile isWhitespace).takeWhile fun c => c ≠ ',' && c ≠ '}')

/-- A field as it is written: `"name":"value"` or `"name":text`. -/
inductive Field : Type where
  | string (name value : String)
  | raw (name : String) (text : List Char)

def Field.text : Field → List Char
  | .string name value => key name ++ ':' :: '"' :: (jsonEscape value ++ ['"'])
  | .raw name text => key name ++ ':' :: text

def fieldsText : List Field → List Char
  | [] => []
  | [f] => f.text
  | f :: fs => f.text ++ ',' :: fieldsText fs

def objectText (fs : List Field) : List Char := '{' :: (fieldsText fs ++ ['}'])

/-- The lines of an array, each object on one of its own. `lineEnd` is the line break with what it is replaced
by. -/
def objectLines (indent lineEnd : List Char) : List (List Char) → List Char
  | [] => []
  | [object] => indent ++ object ++ lineEnd
  | object :: objects => indent ++ object ++ ',' :: (lineEnd ++ objectLines indent lineEnd objects)

/-! ## Strings that need no escapes -/

/-- No character of the string is escaped. -/
def Plain (s : String) : Prop := ∀ c ∈ s.toList, escapeChar c = [c]

instance Plain.instDecidable (s : String) : Decidable (Plain s) := inferInstanceAs (Decidable (∀ _ ∈ _, _))

theorem jsonEscape_plain {s : String} (h : Plain s) : jsonEscape s = s.toList := by
  have hflat : ∀ l : List Char, (∀ c ∈ l, escapeChar c = [c]) → l.flatMap escapeChar = l := by
    intro l hl
    induction l with
    | nil => rfl
    | cons c l ih =>
      rw [List.flatMap_cons, hl c List.mem_cons_self, ih fun d hd => hl d (List.mem_cons_of_mem c hd)]
      rfl
  exact hflat s.toList h

theorem Plain.not_mem {s : String} (h : Plain s) {c : Char} (hc : escapeChar c ≠ [c]) : c ∉ s.toList :=
  fun hmem => hc (h c hmem)

/-- A name of a field: letters only. -/
def IsName (name : String) : Prop := ∀ c ∈ name.toList, c.isAlpha = true

instance IsName.instDecidable (name : String) : Decidable (IsName name) := inferInstanceAs (Decidable (∀ _ ∈ _, _))

theorem IsName.not_mem {name : String} (h : IsName name) {c : Char} (hc : c.isAlpha = false) : c ∉ name.toList :=
  fun hmem => Bool.false_ne_true (hc.symm.trans (h c hmem))

/-- A number, a truth value or `null` as text. -/
def IsRaw (text : List Char) : Prop :=
  ∀ c ∈ text, isWhitespace c = false ∧ c ∉ ['"', ',', '{', '}', '[', ']']

instance IsRaw.instDecidable (text : List Char) : Decidable (IsRaw text) := inferInstanceAs (Decidable (∀ _ ∈ _, _))

theorem IsRaw.not_mem {text : List Char} (h : IsRaw text) {c : Char} (hc : c ∈ ['"', ',', '{', '}', '[', ']']) :
    c ∉ text :=
  fun hmem => (h c hmem).2 hc

/-! ## Fields and their pieces -/

/-- The field can be written without escapes. -/
def Field.Fits : Field → Prop
  | .string name value => IsName name ∧ Plain value
  | .raw name text => IsName name ∧ IsRaw text

/-- Neither the field nor its value can be taken for the field that is looked for. -/
def Field.Avoids (name : String) : Field → Prop
  | .string name' value => name' ≠ name ∧ value ≠ name
  | .raw name' _ => name' ≠ name

/-- The pieces of a field between quotes, the last of them with what stands behind the field. -/
def Field.pieces (next : List Char) : Field → List (List Char)
  | .string name value => [name.toList, [':'], jsonEscape value, next]
  | .raw name text => [name.toList, ':' :: (text ++ next)]

def fieldsPieces (next : List Char) : List Field → List (List Char)
  | [] => []
  | [f] => f.pieces next
  | f :: fs => f.pieces [','] ++ fieldsPieces next fs

variable {next behind : List Char} {name : String} {f : Field} {fs pre post : List Field}

theorem fieldsText_cons (f : Field) (hne : fs ≠ []) : fieldsText (f :: fs) = f.text ++ ',' :: fieldsText fs := by
  cases fs with
  | nil => exact absurd rfl hne
  | cons => rfl

theorem fieldsPieces_cons (next : List Char) (f : Field) (hne : fs ≠ []) :
    fieldsPieces next (f :: fs) = f.pieces [','] ++ fieldsPieces next fs := by
  cases fs with
  | nil => exact absurd rfl hne
  | cons => rfl

theorem quoted_pieces (next : List Char) (f : Field) : quoted (f.pieces next) = f.text ++ next := by
  cases f <;> simp [Field.pieces, Field.text, key]

theorem quoted_fieldsPieces (next : List Char) (hne : fs ≠ []) :
    quoted (fieldsPieces next fs) = fieldsText fs ++ next := by
  induction fs with
  | nil => exact absurd rfl hne
  | cons f fs ih =>
    by_cases hfs : fs = []
    · subst hfs
      exact quoted_pieces next f
    · rw [fieldsPieces_cons _ _ hfs, quoted_append, quoted_pieces, ih hfs, fieldsText_cons _ hfs]
      simp

/-- An object and what stands behind it. -/
theorem objectText_append (hne : fs ≠ []) (behind : List Char) :
    objectText fs ++ behind = ['{'] ++ quoted (fieldsPieces ('}' :: behind) fs) := by
  rw [quoted_fieldsPieces _ hne, objectText]
  simp

theorem Field.Fits.not_mem_pieces (h : f.Fits) (hnext : '"' ∉ next) : ∀ p ∈ f.pieces next, '"' ∉ p := by
  cases f with
  | string name value =>
    obtain ⟨hname, hvalue⟩ := h
    have hplain := hvalue.not_mem (c := '"') (by decide)
    have hletters := hname.not_mem (c := '"') (by decide)
    simp [Field.pieces, jsonEscape_plain hvalue, hplain, hletters, hnext]
  | raw name text =>
    obtain ⟨hname, htext⟩ := h
    have hraw := htext.not_mem (c := '"') (by decide)
    have hletters := hname.not_mem (c := '"') (by decide)
    simp [Field.pieces, hraw, hletters, hnext]

theorem not_mem_fieldsPieces (hfits : ∀ f ∈ fs, f.Fits) (hnext : '"' ∉ next) : ∀ p ∈ fieldsPieces next fs, '"' ∉ p := by
  induction fs with
  | nil => nofun
  | cons f fs ih =>
    have hf := hfits f List.mem_cons_self
    by_cases hfs : fs = []
    · subst hfs
      exact hf.not_mem_pieces hnext
    · rw [fieldsPieces_cons _ _ hfs]
      intro p hp
      rcases List.mem_append.mp hp with hp | hp
      · exact hf.not_mem_pieces (by decide) p hp
      · exact ih (fun g hg => hfits g (List.mem_cons_of_mem f hg)) p hp

/-- A name is none of the pieces of a field that avoids it. -/
theorem Field.Avoids.not_mem_pieces (hname : IsName name) (h : f.Avoids name) (hfits : f.Fits) {c : Char}
    (hc : c.isAlpha = false) (rest : List Char) : name.toList ∉ f.pieces (c :: rest) := by
  have hhead : ∀ {d : Char} {t : List Char}, d.isAlpha = false → name.toList ≠ d :: t := fun hd heq =>
    hname.not_mem hd (heq ▸ List.mem_cons_self)
  cases f with
  | string name' value =>
    have hvalue : name.toList ≠ value.toList := fun heq => h.2 (String.toList_inj.mp heq).symm
    have hname' : name.toList ≠ name'.toList := fun heq => h.1 (String.toList_inj.mp heq).symm
    simp [Field.pieces, jsonEscape_plain hfits.2, hvalue, hname', hhead hc, hhead (d := ':') (t := []) (by decide)]
  | raw name' text =>
    have hname' : name.toList ≠ name'.toList := fun heq => h (String.toList_inj.mp heq).symm
    simp [Field.pieces, hname', hhead (d := ':') (by decide)]

/-- Fields that avoid a name are skipped. -/
theorem behindPiece_fields (hname : IsName name) (hpre : ∀ f ∈ pre, f.Avoids name) (hfits : ∀ f ∈ pre, f.Fits)
    (hne : fs ≠ []) :
    behindPiece name.toList (fieldsPieces next (pre ++ fs)) = behindPiece name.toList (fieldsPieces next fs) := by
  induction pre with
  | nil => rfl
  | cons f pre ih =>
    have hf := (hpre f List.mem_cons_self).not_mem_pieces hname (hfits f List.mem_cons_self) (c := ',') (by decide) []
    rw [List.cons_append, fieldsPieces_cons _ _ (List.append_ne_nil_of_right_ne_nil pre hne), behindPiece_append hf]
    exact ih (fun g hg => hpre g (List.mem_cons_of_mem f hg)) fun g hg => hfits g (List.mem_cons_of_mem f hg)

/-! ## Fields are read back -/

/-- A string field whose name is the first such piece. -/
theorem readString_of_piece {t : List Char} {ps more : List (List Char)} {p v q : List Char} (hname : '"' ∉ name.toList)
    (ht : '"' ∉ t) (hps : ∀ p ∈ ps, '"' ∉ p) (h : behindPiece name.toList ps = some (p, v :: q :: more))
    (hp : '"' ∉ p) (hv : '"' ∉ v) : readJsonStringField (t ++ quoted ps) name = some (String.ofList v) := by
  rw [readJsonStringField, key, after_quoted hname hps ht, h, Option.map_some, Option.bind_some]
  simp only [quoted_cons]
  rw [after_char hp, Option.bind_some, upTo_append hv, Option.map_some]

/-- A text without blanks at its ends. -/
theorem trim_eq_self {text : List Char} (hhead : ∀ c ∈ text.head?, isWhitespace c = false)
    (hlast : ∀ c ∈ text.getLast?, isWhitespace c = false) : trim text = text := by
  have hdrop : text.dropWhile isWhitespace = text := by
    cases text with
    | nil => rfl
    | cons c cs => exact List.dropWhile_cons_of_neg (by simp [hhead c rfl])
  rw [trim, hdrop, List.rdropWhile_eq_self_iff]
  intro hne
  simp [hlast _ (List.getLast?_eq_some_getLast hne)]

/-- What is read as a string has no quotes. -/
theorem quote_not_mem_readString {json : List Char} {s : String} (h : readJsonStringField json name = some s) :
    '"' ∉ s.toList := by
  obtain ⟨behind, -, h⟩ := Option.bind_eq_some_iff.mp h
  obtain ⟨value, -, h⟩ := Option.bind_eq_some_iff.mp h
  obtain ⟨t, ht, rfl⟩ := Option.map_eq_some_iff.mp h
  rw [upTo] at ht
  split at ht
  · cases ht
    rw [String.toList_ofList]
    exact fun hmem => absurd (List.mem_takeWhile_imp hmem) (by simp)
  · cases ht

/-- A raw field, from what stands behind its name. -/
theorem readRaw_of_after {json : List Char} (t blanks text w : List Char) {c : Char}
    (h : after (key name) json = some (t ++ ':' :: (blanks ++ (text ++ c :: w)))) (ht : ':' ∉ t)
    (hblanks : ∀ d ∈ blanks, isWhitespace d = true) (htext : IsRaw text) (hc : c = ',' ∨ c = '}') :
    readJsonRawField json name = some text := by
  have hblank : ∀ d ∈ text, isWhitespace d = false := fun d hd => (htext d hd).1
  have hcblank : isWhitespace c = false := by rcases hc with rfl | rfl <;> decide
  have hskip : (blanks ++ (text ++ c :: w)).dropWhile isWhitespace = text ++ c :: w := by
    rw [List.dropWhile_append_of_pos hblanks]
    cases text with
    | nil => exact List.dropWhile_cons_of_neg (by simp [hcblank])
    | cons d text => exact List.dropWhile_cons_of_neg (by simp [hblank d List.mem_cons_self])
  have htake : (text ++ c :: w).takeWhile (fun c => c ≠ ',' && c ≠ '}') = text := by
    rw [List.takeWhile_append_of_pos, List.takeWhile_cons_of_neg, List.append_nil]
    · rcases hc with rfl | rfl <;> decide
    · intro d hd
      have := (htext d hd).2
      simp only [List.mem_cons, not_or] at this
      simp [this]
  have htrim : trim text = text :=
    trim_eq_self (fun d hd => hblank d (List.mem_of_head? hd)) fun d hd => hblank d (List.mem_of_getLast? hd)
  rw [readJsonRawField, h, Option.bind_some, after_char ht, Option.map_some, hskip, htake, htrim]

/-- A raw field whose name is the first such piece. -/
theorem readRaw_of_piece {t : List Char} {ps more : List (List Char)} {blanks text rest : List Char} {c : Char}
    (hname : '"' ∉ name.toList) (ht : '"' ∉ t) (hps : ∀ p ∈ ps, '"' ∉ p)
    (h : behindPiece name.toList ps = some (':' :: (blanks ++ (text ++ c :: rest)), more))
    (hblanks : ∀ d ∈ blanks, isWhitespace d = true) (htext : IsRaw text) (hc : c = ',' ∨ c = '}') :
    readJsonRawField (t ++ quoted ps) name = some text := by
  refine readRaw_of_after [] blanks text (rest ++ quoted more) ?_ List.not_mem_nil hblanks htext hc
  rw [key, after_quoted hname hps ht, h, Option.map_some]
  simp

/-- A string field of an object is read back when nothing before it looks like its name. -/
theorem readString_object (pre : List Field) {value : String} (hfs : fs = pre ++ .string name value :: post)
    (hfits : ∀ f ∈ fs, f.Fits)
    (hpre : ∀ f ∈ pre, f.Avoids name) : readJsonStringField (objectText fs) name = some value := by
  have hne : fs ≠ [] := by
    rw [hfs]
    exact List.append_ne_nil_of_right_ne_nil pre (List.cons_ne_nil _ _)
  have hfield := hfits (.string name value) (hfs ▸ List.mem_append_right pre List.mem_cons_self)
  obtain ⟨hname, hvalue⟩ := hfield
  have hpiece : ∃ q more, behindPiece name.toList (fieldsPieces ['}'] fs) =
    some ([':'], value.toList :: q :: more) := by
    rw [hfs, behindPiece_fields hname hpre (fun f hf => hfits f (hfs ▸ List.mem_append_left _ hf))
      (List.cons_ne_nil _ _)]
    by_cases hpost : post = []
    · subst hpost
      rw [fieldsPieces, Field.pieces, behindPiece_cons, jsonEscape_plain hvalue]
      exact ⟨_, _, rfl⟩
    · rw [fieldsPieces_cons _ _ hpost, Field.pieces, jsonEscape_plain hvalue]
      exact ⟨_, _, behindPiece_cons _ _ _⟩
  obtain ⟨q, more, hpiece⟩ := hpiece
  have hread := readString_of_piece (t := ['{']) (hname.not_mem (by decide)) (by decide)
    (not_mem_fieldsPieces hfits (by decide)) hpiece (by decide) (hvalue.not_mem (by decide))
  rw [← objectText_append hne, List.append_nil] at hread
  exact hread.trans (congrArg some String.ofList_toList)

/-- A raw field of an object is read back when nothing before it looks like its name. -/
theorem readRaw_object (pre : List Field) {text : List Char} (hfs : fs = pre ++ .raw name text :: post)
    (hfits : ∀ f ∈ fs, f.Fits)
    (hpre : ∀ f ∈ pre, f.Avoids name) : readJsonRawField (objectText fs) name = some text := by
  have hne : fs ≠ [] := by
    rw [hfs]
    exact List.append_ne_nil_of_right_ne_nil pre (List.cons_ne_nil _ _)
  have hfield := hfits (.raw name text) (hfs ▸ List.mem_append_right pre List.mem_cons_self)
  obtain ⟨hname, htext⟩ := hfield
  have hpiece : ∃ c rest more, (c = ',' ∨ c = '}') ∧
      behindPiece name.toList (fieldsPieces ['}'] fs) = some (':' :: ([] ++ (text ++ c :: rest)), more) := by
    rw [hfs, behindPiece_fields hname hpre (fun f hf => hfits f (hfs ▸ List.mem_append_left _ hf))
      (List.cons_ne_nil _ _)]
    by_cases hpost : post = []
    · subst hpost
      exact ⟨'}', [], [], .inr rfl, behindPiece_cons _ _ _⟩
    · rw [fieldsPieces_cons _ _ hpost]
      exact ⟨',', [], _, .inl rfl, behindPiece_cons _ _ _⟩
  obtain ⟨c, rest, more, hc, hpiece⟩ := hpiece
  have hread := readRaw_of_piece (t := ['{']) (hname.not_mem (by decide)) (by decide)
    (not_mem_fieldsPieces hfits (by decide)) hpiece nofun htext hc
  rwa [← objectText_append hne, List.append_nil] at hread

/-- The value right before a raw field may look like its name: the colon is found behind the name itself. -/
theorem readRaw_behind_value (pre : List Field) {name' value : String} {text : List Char}
    (hfs : fs = pre ++ .string name' value :: .raw name text :: post) (hfits : ∀ f ∈ fs, f.Fits)
    (hpre : ∀ f ∈ pre, f.Avoids name) (hname' : name' ≠ name) : readJsonRawField (objectText fs) name = some text := by
  by_cases heq : value = name
  · subst heq
    have hne : fs ≠ [] := by
      rw [hfs]
      exact List.append_ne_nil_of_right_ne_nil pre (List.cons_ne_nil _ _)
    obtain ⟨hname, htext⟩ := hfits (.raw value text) (by simp [hfs])
    have hplain : jsonEscape value = value.toList := jsonEscape_plain (hfits (.string name' value) (by simp [hfs])).2
    obtain ⟨c, more, hc, hpieces⟩ : ∃ c more, (c = ',' ∨ c = '}') ∧
        fieldsPieces ['}'] (.raw value text :: post) = [value.toList, ':' :: (text ++ [c])] ++ more := by
      by_cases hpost : post = []
      · subst hpost
        exact ⟨'}', [], .inr rfl, rfl⟩
      · rw [fieldsPieces_cons _ _ hpost]
        exact ⟨',', _, .inl rfl, rfl⟩
    have hpiece : behindPiece value.toList (fieldsPieces ['}'] fs) =
        some ([','], value.toList :: (':' :: (text ++ [c])) :: more) := by
      rw [hfs, behindPiece_fields hname hpre (fun f hf => hfits f (hfs ▸ List.mem_append_left _ hf))
        (List.cons_ne_nil _ _),
        fieldsPieces_cons _ _ (List.cons_ne_nil _ _), hpieces, Field.pieces, hplain]
      have hskip : value.toList ∉ [name'.toList, [':']] := by
        have hcolon : value.toList ≠ [':'] := fun heq => hname.not_mem (c := ':') (by decide) (heq ▸ List.mem_cons_self)
        simp [hcolon, Ne.symm hname', String.toList_inj]
      exact (behindPiece_append hskip _).trans (behindPiece_cons _ _ _)
    have hquote : '"' ∉ value.toList := hname.not_mem (by decide)
    have hcolon : ':' ∉ ',' :: '"' :: (value.toList ++ ['"']) := by
      simp [hname.not_mem (c := ':') (by decide)]
    refine readRaw_of_after (',' :: '"' :: (value.toList ++ ['"'])) [] text (quoted more) ?_ hcolon nofun htext hc
    rw [← List.append_nil (objectText fs), objectText_append hne, key,
      after_quoted hquote (not_mem_fieldsPieces hfits (by decide)) (by decide), hpiece, Option.map_some]
    simp
  · have hsplit : fs = (pre ++ [.string name' value]) ++ .raw name text :: post := by simp [hfs]
    refine readRaw_object _ hsplit hfits fun f hf => ?_
    rcases List.mem_append.mp hf with hf | hf
    · exact hpre f hf
    · obtain rfl := List.mem_singleton.mp hf
      exact ⟨hname', heq⟩

/-! ## Brackets in objects -/

section Brackets

variable {o k : Char}

/-- The pairs that the readers count. -/
def IsPair (o k : Char) : Prop := (o = '{' ∧ k = '}') ∨ (o = '[' ∧ k = ']')

/-- The brackets in the strings of a field close in order. -/
def Field.Closes (o k : Char) : Field → Prop
  | .string _ value => level o k 1 value.toList = 1
  | .raw _ _ => True

theorem level_text (hpair : IsPair o k) (hfits : f.Fits) (hcloses : f.Closes o k) : level o k 1 f.text = 1 := by
  have hletter : o.isAlpha = false ∧ k.isAlpha = false := by
    rcases hpair with ⟨rfl, rfl⟩ | ⟨rfl, rfl⟩ <;> decide
  have hkey : ∀ {name : String}, IsName name → level o k 1 (key name) = 1 := fun hname => by
    refine level_of_notMem ?_ ?_ 1 <;> rcases hpair with ⟨rfl, rfl⟩ | ⟨rfl, rfl⟩ <;>
      simp [key, hname.not_mem hletter.1, hname.not_mem hletter.2]
  have hsign : ∀ c ∈ [':', '"'], level o k 1 [c] = 1 := by
    rcases hpair with ⟨rfl, rfl⟩ | ⟨rfl, rfl⟩ <;> decide
  cases f with
  | string name value =>
    obtain ⟨hname, hvalue⟩ := hfits
    have hsplit : Field.text (.string name value) = key name ++ [':'] ++ ['"'] ++ value.toList ++ ['"'] := by
      simp [Field.text, jsonEscape_plain hvalue]
    have hclose : level o k 1 value.toList = 1 := hcloses
    simp only [hsplit, level_append, hkey hname, hsign ':' (by decide), hsign '"' (by decide), hclose]
  | raw name text =>
    obtain ⟨hname, htext⟩ := hfits
    have hraw : level o k 1 text = 1 := by
      refine level_of_notMem ?_ ?_ 1 <;> rcases hpair with ⟨rfl, rfl⟩ | ⟨rfl, rfl⟩ <;> exact htext.not_mem (by decide)
    have hsplit : Field.text (.raw name text) = key name ++ [':'] ++ text := by simp [Field.text]
    simp only [hsplit, level_append, hkey hname, hsign ':' (by decide), hraw]

theorem level_fieldsText (hpair : IsPair o k) (hfits : ∀ f ∈ fs, f.Fits) (hcloses : ∀ f ∈ fs, f.Closes o k) :
    level o k 1 (fieldsText fs) = 1 := by
  induction fs with
  | nil => rfl
  | cons f fs ih =>
    have hf := level_text hpair (hfits f List.mem_cons_self) (hcloses f List.mem_cons_self)
    by_cases hfs : fs = []
    · subst hfs
      exact hf
    · have hcomma : level o k 1 [','] = 1 := by rcases hpair with ⟨rfl, rfl⟩ | ⟨rfl, rfl⟩ <;> decide
      have hsplit : fieldsText (f :: fs) = f.text ++ [','] ++ fieldsText fs := by simp [fieldsText_cons f hfs]
      rw [hsplit, level_append, level_append, hf, hcomma]
      exact ih (fun g hg => hfits g (List.mem_cons_of_mem f hg)) fun g hg => hcloses g (List.mem_cons_of_mem f hg)

end Brackets

/-- Square brackets close in an object as they do in its fields. -/
theorem level_objectText (hfits : ∀ f ∈ fs, f.Fits) (hcloses : ∀ f ∈ fs, f.Closes '[' ']') :
    level '[' ']' 1 (objectText fs) = 1 := by
  have hbody := level_fieldsText (.inr ⟨rfl, rfl⟩) hfits hcloses
  have hsplit : objectText fs = ['{'] ++ fieldsText fs ++ ['}'] := by simp [objectText]
  have hopen : level '[' ']' 1 ['{'] = 1 := by decide
  rw [hsplit, level_append, level_append, hopen, hbody]
  decide

/-- An object that needs no escapes is one line. -/
theorem newline_not_mem_objectText (hfits : ∀ f ∈ fs, f.Fits) : '\n' ∉ objectText fs := by
  have hfield : ∀ f ∈ fs, '\n' ∉ f.text := by
    intro f hf
    have hfit := hfits f hf
    cases f with
    | string name value =>
      simp [Field.text, key, jsonEscape_plain hfit.2, hfit.2.not_mem (c := '\n') (by decide),
        hfit.1.not_mem (c := '\n') (by decide)]
    | raw name text =>
      have htext : '\n' ∉ text := fun hmem => absurd (hfit.2 _ hmem).1 (by decide)
      simp [Field.text, key, htext, hfit.1.not_mem (c := '\n') (by decide)]
  have hfields : '\n' ∉ fieldsText fs := by
    clear hfits
    induction fs with
    | nil => exact List.not_mem_nil
    | cons f fs ih =>
      have hf := hfield f List.mem_cons_self
      have hrest := ih fun g hg => hfield g (List.mem_cons_of_mem f hg)
      by_cases hfs : fs = []
      · subst hfs
        exact hf
      · simp [fieldsText_cons f hfs, hf, hrest]
  simp [objectText, hfields]

/-! ## Arrays of objects -/

/-- What stands around the objects of an array. -/
def IsLayout (text : List Char) : Prop := ∀ c ∈ text, c ∉ ['"', '{', '}', '[', ']']

instance IsLayout.instDecidable (text : List Char) : Decidable (IsLayout text) :=
  inferInstanceAs (Decidable (∀ _ ∈ _, _))

theorem extractJsonObjects_skip {t : List Char} (ht : '{' ∉ t) (rest : List Char) :
    extractJsonObjects (t ++ rest) = extractJsonObjects rest := by
  induction t with
  | nil => rfl
  | cons c t ih =>
    obtain ⟨hc, ht⟩ := List.ne_and_not_mem_of_not_mem_cons ht
    rw [List.cons_append, extractJsonObjects, if_neg (Ne.symm hc), ih ht]

theorem extractJsonObjects_object (hfits : ∀ f ∈ fs, f.Fits) (hcloses : ∀ f ∈ fs, f.Closes '{' '}') (rest : List Char) :
    extractJsonObjects (objectText fs ++ rest) = objectText fs :: extractJsonObjects rest := by
  have hclose := closing_one (by decide) (level_fieldsText (.inl ⟨rfl, rfl⟩) hfits hcloses) rest
  have hsplit : objectText fs ++ rest = '{' :: (fieldsText fs ++ '}' :: rest) := by simp [objectText]
  rw [hsplit, extractJsonObjects, if_pos rfl, hclose]
  rfl

/-- The objects that an array is written with are found. -/
theorem extractJsonObjects_lines {indent lineEnd tail : List Char} {rows : List (List Field)}
    (hindent : '{' ∉ indent) (hend : '{' ∉ lineEnd) (htail : '{' ∉ tail)
    (hfits : ∀ fs ∈ rows, ∀ f ∈ fs, f.Fits) (hcloses : ∀ fs ∈ rows, ∀ f ∈ fs, f.Closes '{' '}') :
    extractJsonObjects (objectLines indent lineEnd (rows.map objectText) ++ tail) = rows.map objectText := by
  induction rows with
  | nil =>
    have hskip := extractJsonObjects_skip htail []
    rw [List.append_nil, extractJsonObjects] at hskip
    exact hskip
  | cons fs rows ih =>
    have hrest := ih (fun gs hgs => hfits gs (List.mem_cons_of_mem fs hgs)) fun gs hgs =>
      hcloses gs (List.mem_cons_of_mem fs hgs)
    have hobject := extractJsonObjects_object (hfits fs List.mem_cons_self) (hcloses fs List.mem_cons_self)
    cases rows with
    | nil =>
      have hsplit : objectLines indent lineEnd [objectText fs] ++ tail = indent ++
        (objectText fs ++ (lineEnd ++ tail)) := by
        simp [objectLines]
      rw [List.map_singleton, hsplit, extractJsonObjects_skip hindent, hobject, extractJsonObjects_skip hend]
      exact congrArg _ hrest
    | cons gs rows =>
      have hsplit : objectLines indent lineEnd ((fs :: gs :: rows).map objectText) ++ tail =
          indent ++ (objectText fs ++ (',' :: lineEnd ++ (objectLines indent lineEnd ((gs :: rows).map objectText) ++
            tail))) := by
        simp [objectLines]
      rw [hsplit, extractJsonObjects_skip hindent, hobject, extractJsonObjects_skip (by simp [hend]), hrest]
      rfl

/-- Square brackets close in the lines of an array as they do in its objects. -/
theorem level_lines {indent lineEnd : List Char} {rows : List (List Field)} (hindent : IsLayout indent)
    (hend : IsLayout lineEnd) (hfits : ∀ fs ∈ rows, ∀ f ∈ fs, f.Fits)
    (hcloses : ∀ fs ∈ rows, ∀ f ∈ fs, f.Closes '[' ']') :
    level '[' ']' 1 (objectLines indent lineEnd (rows.map objectText)) = 1 := by
  have hlayout : ∀ {t : List Char}, IsLayout t → level '[' ']' 1 t = 1 := fun ht =>
    level_of_notMem (fun hmem => ht _ hmem (by decide)) (fun hmem => ht _ hmem (by decide)) 1
  induction rows with
  | nil => rfl
  | cons fs rows ih =>
    have hrest := ih (fun gs hgs => hfits gs (List.mem_cons_of_mem fs hgs)) fun gs hgs =>
      hcloses gs (List.mem_cons_of_mem fs hgs)
    have hobject := level_objectText (hfits fs List.mem_cons_self) (hcloses fs List.mem_cons_self)
    cases rows with
    | nil =>
      have hsplit : objectLines indent lineEnd ([fs].map objectText) = indent ++ objectText fs ++ lineEnd := rfl
      simp only [hsplit, level_append, hlayout hindent, hobject, hlayout hend]
    | cons gs rows =>
      have hsplit : objectLines indent lineEnd ((fs :: gs :: rows).map objectText) =
          indent ++ objectText fs ++ [','] ++ lineEnd ++ objectLines indent lineEnd ((gs :: rows).map objectText) := by
        simp [objectLines]
      have hcomma : level '[' ']' 1 [','] = 1 := by decide
      simp only [hsplit, level_append, hlayout hindent, hobject, hcomma, hlayout hend, hrest]

/-! ## The pieces of an array -/

section Rows

variable (indent lineEnd : List Char)

/-- The end of the piece before the array's first name, `behind` being what stands behind the array. -/
def rowsHead (behind : List Char) : List (List Field) → List Char
  | [] => behind
  | _ :: _ => indent ++ ['{']

/-- The pieces from the array's first name on. -/
def rowsPieces (behind : List Char) : List (List Field) → List (List Char)
  | [] => []
  | [fs] => fieldsPieces ('}' :: (lineEnd ++ behind)) fs
  | fs :: rows => fieldsPieces ('}' :: ',' :: (lineEnd ++ (indent ++ ['{']))) fs ++ rowsPieces behind rows

variable {indent lineEnd} {rows : List (List Field)}

theorem rowsPieces_cons (fs : List Field) (hrows : rows ≠ []) : rowsPieces indent lineEnd behind (fs :: rows) =
    fieldsPieces ('}' :: ',' :: (lineEnd ++ (indent ++ ['{']))) fs ++ rowsPieces indent lineEnd behind rows := by
  cases rows with
  | nil => exact absurd rfl hrows
  | cons => rfl

theorem quoted_rowsPieces (indent lineEnd behind : List Char) {rows : List (List Field)}
    (hrows : ∀ fs ∈ rows, fs ≠ []) :
    rowsHead indent behind rows ++ quoted (rowsPieces indent lineEnd behind rows) =
      objectLines indent lineEnd (rows.map objectText) ++ behind := by
  induction rows with
  | nil => exact List.append_nil behind
  | cons fs rows ih =>
    have hfs := hrows fs List.mem_cons_self
    have hobject (w : List Char) : '{' :: quoted (fieldsPieces ('}' :: w) fs) = objectText fs ++ w :=
      (objectText_append hfs w).symm
    cases rows with
    | nil => simp [rowsHead, rowsPieces, objectLines, hobject]
    | cons gs rows =>
      have hrest := ih fun gs hgs => hrows gs (List.mem_cons_of_mem fs hgs)
      have hsplit : objectLines indent lineEnd ((fs :: gs :: rows).map objectText) ++ behind =
          indent ++ (objectText fs ++ ',' :: (lineEnd ++ (objectLines indent lineEnd ((gs :: rows).map objectText) ++
            behind))) := by
        simp [objectLines]
      rw [hsplit, ← hrest, rowsPieces_cons fs (List.cons_ne_nil _ _), quoted_append, objectText_append hfs]
      rw [quoted_fieldsPieces _ hfs, quoted_fieldsPieces _ hfs]
      simp [rowsHead]

/-- A name that fields avoid is none of their pieces. -/
theorem name_not_mem_fieldsPieces (hname : IsName name) (hfits : ∀ f ∈ fs, f.Fits) (havoids : ∀ f ∈ fs, f.Avoids name)
    {c : Char} (hc : c.isAlpha = false) (rest : List Char) : name.toList ∉ fieldsPieces (c :: rest) fs := by
  induction fs with
  | nil => exact List.not_mem_nil
  | cons f fs ih =>
    have hf := fun (d : Char) (hd : d.isAlpha = false) (t : List Char) =>
      (havoids f List.mem_cons_self).not_mem_pieces hname (hfits f List.mem_cons_self) hd t
    by_cases hfs : fs = []
    · subst hfs
      exact hf c hc rest
    · rw [fieldsPieces_cons _ _ hfs, List.mem_append]
      rintro (hmem | hmem)
      · exact hf ',' (by decide) [] hmem
      · exact ih (fun g hg => hfits g (List.mem_cons_of_mem f hg))
          (fun g hg => havoids g (List.mem_cons_of_mem f hg)) hmem

/-- A name that the fields of an array avoid is none of its pieces. -/
theorem name_not_mem_rowsPieces (hname : IsName name) (hfits : ∀ fs ∈ rows, ∀ f ∈ fs, f.Fits)
    (havoids : ∀ fs ∈ rows, ∀ f ∈ fs, f.Avoids name) : name.toList ∉ rowsPieces indent lineEnd behind rows := by
  induction rows with
  | nil => exact List.not_mem_nil
  | cons fs rows ih =>
    have hfs := fun (t : List Char) => name_not_mem_fieldsPieces hname (hfits fs List.mem_cons_self)
      (havoids fs List.mem_cons_self) (c := '}') (by decide) t
    by_cases hrows : rows = []
    · subst hrows
      exact hfs _
    · rw [rowsPieces_cons fs hrows, List.mem_append]
      rintro (hmem | hmem)
      · exact hfs _ hmem
      · exact ih (fun gs hgs => hfits gs (List.mem_cons_of_mem fs hgs))
          (fun gs hgs => havoids gs (List.mem_cons_of_mem fs hgs)) hmem

theorem quote_not_mem_rowsPieces (hfits : ∀ fs ∈ rows, ∀ f ∈ fs, f.Fits) (hindent : '"' ∉ indent) (hend : '"' ∉ lineEnd)
    (hbehind : '"' ∉ behind) : ∀ p ∈ rowsPieces indent lineEnd behind rows, '"' ∉ p := by
  induction rows with
  | nil => nofun
  | cons fs rows ih =>
    by_cases hrows : rows = []
    · subst hrows
      exact not_mem_fieldsPieces (hfits fs List.mem_cons_self) (by simp [hend, hbehind])
    · rw [rowsPieces_cons fs hrows]
      intro p hp
      rcases List.mem_append.mp hp with hp | hp
      · exact not_mem_fieldsPieces (hfits fs List.mem_cons_self) (by simp [hend, hindent]) p hp
      · exact ih (fun gs hgs => hfits gs (List.mem_cons_of_mem fs hgs)) p hp

end Rows

end Json

end Ps5Debugger
