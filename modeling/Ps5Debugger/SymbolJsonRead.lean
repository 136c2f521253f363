import Ps5Debugger.SymbolJson
import Ps5Debugger.Lib.Text

/-!
# The JSON of the symbols is read back

`readSymbols` is the other side of the text: a JSON array whose objects have the four members of a symbol. What it
reads from the text of a list is that list (`readSymbols_jsonText`).

`symbol_json_faithful` is about the whole handler: no byte is written outside the buffer, a text of less than 4 GiB
is read as the symbols in order and with their sizes, and the text is an empty array when memory is refused.
-/

namespace Ps5Debugger

open Lib

namespace ElfSymbols

/-! ## Reading -/

/-- A member of an object, by its name. -/
def member (name : String) (ms : List (Json.Str × Json.Value)) : Option Json.Value :=
  (ms.find? fun m => m.1.1 == ascii name.toList).map Prod.snd

def readSymbol : Json.Value → Option Sym
  | .obj ms =>
    match member "addr" ms, member "size" ms, member "type" ms, member "name" ms with
    | some (.num addr), some (.num size), some (.num type), some (.str name) => some ⟨addr, size, type, name.1⟩
    | _, _, _, _ => none
  | _ => none

def readSymbols (text : List Byte) : Option (List Sym) :=
  match Json.parse text with
  | some (.arr vs) => vs.mapM readSymbol
  | _ => none

/-! ## The text of a list -/

def addrKey : Json.Str := ⟨ascii "addr".toList, by decide⟩
def sizeKey : Json.Str := ⟨ascii "size".toList, by decide⟩
def typeKey : Json.Str := ⟨ascii "type".toList, by decide⟩
def nameKey : Json.Str := ⟨ascii "name".toList, by decide⟩

/-- The bytes of a name that are written. -/
def printable (name : List Byte) : Json.Str := ⟨name.filter fun c => 0x20 ≤ c.toNat, by simp⟩

/-- A symbol as a JSON object. -/
def Sym.value (sym : Sym) : Json.Value :=
  .obj [(addrKey, .num sym.addr), (sizeKey, .num sym.size), (typeKey, .num sym.type),
    (nameKey, .str (printable sym.name))]

variable {sym : Sym} {symv : List Sym} {text : List Byte}

theorem Sym.Fits.printable (h : sym.Fits) : (printable sym.name).1 = sym.name :=
  List.filter_eq_self.mpr fun c hc => decide_eq_true (h.name c hc)

theorem Sym.Fits.text_value (h : sym.Fits) : sym.value.text = symbolText sym := by
  have hname : (ElfSymbols.printable sym.name).text = 0x22 :: (sym.name.flatMap Json.escape ++ [0x22]) := by
    rw [Json.Str.text, h.printable]
    rfl
  rw [Sym.value, Json.text_obj, symbolText, header, Nat.mod_eq_of_lt h.type]
  simp only [Json.listed, Json.memberText, hname, Json.Value.text, List.append_assoc, List.append_nil, List.cons_append]
  rfl

theorem Sym.Fits.readSymbol_value (h : sym.Fits) : readSymbol sym.value = some sym := by
  have hread : readSymbol sym.value = some ⟨sym.addr, sym.size, sym.type, (ElfSymbols.printable sym.name).1⟩ := rfl
  rw [hread, h.printable]

/-- The text is an array of objects. -/
theorem jsonText_eq (h : ∀ sym ∈ symv, sym.Fits) : jsonText symv = (Json.Value.arr (symv.map Sym.value)).text := by
  rw [Json.text_arr, Json.listed_map fun sym hsym => (h sym hsym).text_value, jsonText]

/-- A list is read from its text. -/
theorem readSymbols_jsonText (h : ∀ sym ∈ symv, sym.Fits) : readSymbols (jsonText symv) = some symv := by
  rw [readSymbols, Json.parse_eq_some_iff.mpr (jsonText_eq h)]
  have hread : ∀ sym ∈ symv, (readSymbol ∘ Sym.value) sym = some (id sym) := fun sym hsym =>
    (h sym hsym).readSymbol_value
  simp only [List.mapM_map]
  rw [mapM_eq_some hread, List.map_id]

theorem exists_of_mapM {vs : List Json.Value} (h : vs.mapM readSymbol = some symv) (hsym : sym ∈ symv) :
    ∃ v ∈ vs, readSymbol v = some sym := by
  induction vs generalizing symv with
  | nil =>
    cases h
    cases hsym
  | cons v vs ih =>
    rw [List.mapM_cons] at h
    obtain ⟨first, hfirst, h⟩ := Option.bind_eq_some_iff.mp h
    obtain ⟨rest, hrest, h⟩ := Option.bind_eq_some_iff.mp h
    cases h
    rcases List.mem_cons.mp hsym with rfl | hsym
    · exact ⟨v, List.mem_cons_self, hfirst⟩
    · obtain ⟨w, hw, hread⟩ := ih hrest hsym
      exact ⟨w, List.mem_cons_of_mem v hw, hread⟩

theorem length_name_le_text {v : Json.Value} (h : readSymbol v = some sym) : sym.name.length ≤ v.text.length := by
  rw [readSymbol.eq_def] at h
  split at h
  · next ms =>
    split at h
    · next addr size type name _ _ _ hname =>
      cases h
      obtain ⟨m, hm, hvalue⟩ := Option.map_eq_some_iff.mp hname
      have hmember : (Json.memberText m).length ≤ (Json.listed Json.memberText true ms).length :=
        Json.length_le_listed (List.mem_of_find?_eq_some hm) true
      have hstr := name.length_le_text
      have htext : m.2.text = name.text := by rw [hvalue, Json.Value.text]
      rw [Json.memberText, List.length_append, List.length_cons, htext] at hmember
      rw [Json.text_obj, List.length_cons, List.length_append]
      exact Nat.le_trans hstr (by omega)
    · cases h
  · cases h

/-- What is read has its names in the text. -/
theorem length_name_le (h : readSymbols text = some symv) (hsym : sym ∈ symv) : sym.name.length ≤ text.length := by
  rw [readSymbols] at h
  split at h
  · next vs hparse =>
    obtain ⟨v, hv, hread⟩ := exists_of_mapM h hsym
    have hname := length_name_le_text hread
    have hitem : v.text.length ≤ (Json.listed Json.Value.text true vs).length := Json.length_le_listed hv true
    rw [Json.parse_eq_some_iff.mp hparse, Json.text_arr, List.length_cons, List.length_append]
    omega
  · cases h

/-! ## The symbols that are listed -/

/-- The symbols that were collected are in memory, with the NUL of each name, at `sizeof(sym_t) = 32`. -/
structure Collected (symv : List Sym) : Prop where
  numbers : ∀ s ∈ symv, s.addr < 2 ^ 64 ∧ s.size < 2 ^ 64 ∧ s.type < 2 ^ 8
  names : ∀ s ∈ symv, ∀ c ∈ s.name, 0x20 ≤ c.toNat
  held : (symv.map fun s => 32 + (s.name.length + 1)).sum ≤ 2 ^ 47

/-- The symbols in the order of their addresses. A symbol without a size reaches to the next one, or has one byte. -/
def Listing (symv parsed : List Sym) : Prop :=
  ∃ sorted : List Sym, sorted.Perm symv ∧ (sorted.Pairwise fun a b => a.addr ≤ b.addr) ∧
    parsed.length = sorted.length ∧
    ∀ (i : Nat) (s : Sym), sorted[i]? = some s → parsed[i]? = some { s with size := inferSize s sorted[i + 1]? }

theorem getElem?_inferSizes (symv : List Sym) (i : Nat) :
    (inferSizes symv)[i]? = symv[i]?.map fun s => { s with size := inferSize s symv[i + 1]? } := by
  induction symv generalizing i with
  | nil => rfl
  | cons s symv ih =>
    cases i with
    | zero =>
      rw [inferSizes, List.getElem?_cons_zero, List.getElem?_cons_zero, Option.map_some, List.getElem?_cons_succ,
        List.head?_eq_getElem?]
    | succ i =>
      rw [inferSizes, List.getElem?_cons_succ, List.getElem?_cons_succ, List.getElem?_cons_succ]
      exact ih i

theorem length_inferSizes (symv : List Sym) : (inferSizes symv).length = symv.length := by
  induction symv with
  | nil => rfl
  | cons s symv ih => rw [inferSizes, List.length_cons, List.length_cons, ih]

theorem names_inferSizes (symv : List Sym) : (inferSizes symv).map Sym.name = symv.map Sym.name := by
  induction symv with
  | nil => rfl
  | cons s symv ih => rw [inferSizes, List.map_cons, List.map_cons, ih]

theorem inferSize_lt {s : Sym} {next : Option Sym} (hs : s.size < 2 ^ 64) (hnext : ∀ n ∈ next, n.addr < 2 ^ 64) :
    inferSize s next < 2 ^ 64 := by
  cases next with
  | none =>
    rw [inferSize]
    split
    · decide
    · exact hs
  | some n =>
    have hn := hnext n rfl
    rw [inferSize]
    split
    · split
      · omega
      · decide
    · exact hs

theorem sortSymbols_perm (symv : List Sym) : (sortSymbols symv).Perm symv := exchangeSort_perm symv

theorem listing_inferSizes (symv : List Sym) : Listing symv (inferSizes (sortSymbols symv)) :=
  ⟨sortSymbols symv, sortSymbols_perm symv, exchangeSort_pairwise symv, length_inferSizes _, fun i s hs => by
    rw [getElem?_inferSizes, hs, Option.map_some]⟩

/-- The symbols of the listing can be written. -/
theorem Collected.fits (h : Collected symv) : ∀ s ∈ inferSizes (sortSymbols symv), s.Fits := by
  have hmem : ∀ {s}, s ∈ sortSymbols symv → s ∈ symv := fun hs => (sortSymbols_perm symv).mem_iff.mp hs
  intro s hs
  obtain ⟨i, hi⟩ := List.getElem?_of_mem hs
  rw [getElem?_inferSizes] at hi
  obtain ⟨r, hr, rfl⟩ := Option.map_eq_some_iff.mp hi
  have hrmem := hmem (List.mem_of_getElem? hr)
  obtain ⟨haddr, hsize, htype⟩ := h.numbers r hrmem
  refine ⟨haddr, inferSize_lt hsize fun n hn => (h.numbers n (hmem (List.mem_of_getElem? hn))).1, htype,
    h.names r hrmem, ?_⟩
  have hheld := h.held
  have hle : 32 + (r.name.length + 1) ≤ (symv.map fun s => 32 + (s.name.length + 1)).sum :=
    List.single_le_sum (fun _ _ => Nat.zero_le _) _ (List.mem_map_of_mem hrmem)
  show r.name.length ≤ 2 ^ 47
  omega

theorem Collected.length_le (h : Collected symv) :
    (inferSizes (sortSymbols symv)).length * 80 +
      ((inferSizes (sortSymbols symv)).map fun s => s.name.length).sum < 2 ^ 59 := by
  have hnames : ((inferSizes (sortSymbols symv)).map fun s => s.name.length).sum =
    (symv.map fun s => s.name.length).sum := by
    have hmap := congrArg (List.map List.length) (names_inferSizes (sortSymbols symv))
    rw [List.map_map, List.map_map] at hmap
    have hperm := ((sortSymbols_perm symv).map fun s => s.name.length).sum_nat
    exact (congrArg List.sum hmap).trans hperm
  have hlength : (inferSizes (sortSymbols symv)).length = symv.length :=
    (length_inferSizes _).trans (sortSymbols_perm symv).length_eq
  have hsum : ∀ l : List Sym, (l.map fun s => 32 + (s.name.length + 1)).sum =
    l.length * 33 + (l.map fun s => s.name.length).sum := by
    intro l
    induction l with
    | nil => rfl
    | cons s l ih =>
      rw [List.map_cons, List.map_cons, List.sum_cons, List.sum_cons, ih, List.length_cons]
      omega
  have hheld := h.held
  rw [hsum] at hheld
  rw [hnames, hlength]
  omega

/-- The text of the handler: no byte of it is outside the buffer; when no memory is refused and the text has less
than 4 GiB, it is read as the listing; when a call is refused the array is empty, or there is no text at all. -/
theorem symbol_json_faithful (heap : Heap) (h : Collected symv) :
    symbolJson heap symv ≠ .error .overrun ∧
    ((∀ call, writeJson heap (inferSizes (sortSymbols symv)) ≠ .error (.refused call)) →
      (jsonText (inferSizes (sortSymbols symv))).length < 2 ^ 32 →
      ∃ text parsed, symbolJson heap symv = .ok text ∧ readSymbols text = some parsed ∧ Listing symv parsed) ∧
    ∀ call, writeJson heap (inferSizes (sortSymbols symv)) = .error (.refused call) →
      (∃ size, heap.grants call size = false) ∧
      symbolJson heap symv = .ok (if heap.grants (call + 1) 3 then ascii "[]".toList else []) := by
  rcases writeJson_made heap h.fits h.length_le with ⟨s, est, hwrite, -, hs⟩ | ⟨call, size, hwrite, hno⟩
  · have hjson : symbolJson heap symv = .ok (slice s.json 0 s.pos) := by rw [symbolJson, hwrite]
    refine ⟨by rw [hjson]; nofun, fun _ hshort => ?_, fun call hcall => by rw [hwrite] at hcall; cases hcall⟩
    refine ⟨_, _, hjson, ?_, listing_inferSizes symv⟩
    rw [hs.pos_eq, u32_of_lt hshort, hs.text hshort]
    exact readSymbols_jsonText h.fits
  · have hjson : symbolJson heap symv = .ok (if heap.grants (call + 1) 3 then ascii "[]".toList else []) := by
      rw [symbolJson, hwrite]
    refine ⟨by rw [hjson]; nofun, fun hgranted => absurd hwrite (hgranted call), fun call' hcall => ?_⟩
    rw [hwrite] at hcall
    cases hcall
    exact ⟨⟨size, hno⟩, hjson⟩

/-- Memory of a megabyte. -/
def smallHeap : Heap where
  grants _ size := size ≤ 2 ^ 20
  fresh _ _ := 0
  limit h := Nat.le_trans (of_decide_eq_true h) (by decide)

/-- Two symbols without sizes. -/
def twoSymbols : List Sym := [⟨0x2000, 0, 2, ascii "a\"b".toList⟩, ⟨0x1000, 0, 2, ascii "main".toList⟩]

theorem collected_twoSymbols : Collected twoSymbols := ⟨by decide, by decide, by decide⟩

theorem symbol_json_faithful_two :
    symbolJson smallHeap twoSymbols ≠ .error .overrun ∧
      ∃ text parsed, symbolJson smallHeap twoSymbols = .ok text ∧ readSymbols text = some parsed ∧
        Listing twoSymbols parsed :=
  ⟨(symbol_json_faithful smallHeap collected_twoSymbols).1,
    (symbol_json_faithful smallHeap collected_twoSymbols).2.1 (fun _ h => by cases h) (by decide)⟩

/-! ## Texts that are not faithful -/

/-- The text is read as the symbols in order and with their sizes. -/
def Faithful (symv : List Sym) (text : List Byte) : Prop :=
  ∃ parsed, readSymbols text = some parsed ∧ Listing symv parsed

/-- There is memory for the empty array only. -/
def noMemory : Heap where
  grants _ size := size ≤ 3
  fresh _ _ := 0
  limit h := Nat.le_trans (of_decide_eq_true h) (by decide)

/-- There is all the memory that there can be. -/
def allMemory : Heap where
  grants _ size := size ≤ 2 ^ 47
  fresh _ _ := 0
  limit h := of_decide_eq_true h

/-- A listing has the names of the symbols. -/
theorem Listing.exists_name {parsed : List Sym} (h : Listing symv parsed) (hsym : sym ∈ symv) :
    ∃ s ∈ parsed, s.name = sym.name := by
  obtain ⟨sorted, hperm, -, -, hget⟩ := h
  obtain ⟨i, hi⟩ := List.getElem?_of_mem (hperm.mem_iff.mpr hsym)
  exact ⟨_, List.mem_of_getElem? (hget i sym hi), rfl⟩

theorem ok_bind (s : Out) (f : Out → Except Fault Out) : (Except.ok s >>= f) = f s := rfl

/-- The text of a name of 4 GiB is shorter than the name, as its position has 32 bits. -/
theorem long_name_wraps (h : sym.Fits) (hsize : sym.size ≠ 0) (hlength : sym.name.length = 2 ^ 32) :
    ∃ text, symbolJson allMemory [sym] = .ok text ∧ text.length < 2 ^ 32 := by
  have hgrants : ∀ {call size}, size ≤ 2 ^ 47 → allMemory.grants call size = true := decide_eq_true
  have hlisted : inferSizes (sortSymbols [sym]) = [sym] := by
    show [{ sym with size := inferSize sym none }] = [sym]
    rw [inferSize, if_neg hsize]
  have hestimate : estimate [sym] = 82 + 2 ^ 32 := by
    show u64 (2 + 1 * 80 + (sym.name.length + 0)) = _
    rw [hlength]
    rfl
  obtain ⟨s₁, halloc, h₁⟩ : ∃ s, Out.alloc allMemory (estimate [sym]) = .ok s ∧ s.Wrote [] (82 + 2 ^ 32) 2 := by
    rw [hestimate]
    exact ⟨_, if_pos (hgrants (by decide)), rfl, rfl, by decide, fun _ => rfl⟩
  obtain ⟨s₂, hopen, h₂⟩ := h₁.put 0x5b
  have hpos : s₂.pos = 1 := h₂.pos_eq
  have hneeded : u64 (128 + sym.name.length * 2) = 128 + 2 ^ 33 := by
    rw [hlength]
    rfl
  -- the estimate is 82 as 32 bits, so the buffer grows
  obtain ⟨s₃, hroom, h₃⟩ : ∃ s, s₂.makeRoom allMemory (128 + 2 ^ 33) = .ok s ∧
    s.Wrote [0x5b] (292 + 2 ^ 34) (128 + 2 ^ 33) := by
    rw [Out.makeRoom, Out.growIf, if_pos (by rw [hpos, h₂.est_eq]; decide), Out.grow, h₂.est_eq]
    have hnew : u64 ((82 + 2 ^ 32) * 2 + (128 + 2 ^ 33)) = 292 + 2 ^ 34 := by decide
    rw [hnew, if_pos (hgrants (by decide)), ← h₂.est_eq]
    exact ⟨_, rfl, (h₂.mono (Nat.zero_le 1)).moved (by rw [hpos]; decide)⟩
  have htext := h.length_symbolText
  rw [hlength] at htext
  obtain ⟨s₄, hfields, h₄⟩ := (h₃.mono htext).putFields allMemory h.name (by decide) (by decide)
  have henough : ¬ u32 (s₄.pos + 2) ≥ s₄.est := by
    have hlt : u32 (s₄.pos + 2) < 2 ^ 32 := Nat.mod_lt _ (by decide)
    have hesteq := h₄.est_eq
    omega
  obtain ⟨s₅, hclose, h₅⟩ := (h₄.mono (j := 1) (by decide)).put 0x5d
  obtain ⟨s₆, hend, h₆⟩ := h₅.terminate
  have hsymbol : s₂.putSymbol allMemory true sym = .ok s₄ := by
    rw [Out.putSymbol, Out.putComma, if_pos rfl, ok_bind, hneeded, hroom, ok_bind, hfields]
  have hwrite : writeJson allMemory [sym] = .ok s₆ := by
    rw [writeJson, halloc, ok_bind, hopen, ok_bind, Out.putSymbols, hsymbol, ok_bind, Out.putSymbols, ok_bind,
      Out.growIf,
      if_neg henough, ok_bind, hclose, ok_bind, hend]
  refine ⟨slice s₆.json 0 s₆.pos, by rw [symbolJson, hlisted, hwrite], ?_⟩
  rw [length_slice, h₆.pos_eq]
  exact Nat.mod_lt _ (by decide)

/-- A symbol, and one with a name of 4 GiB. -/
def mainSymbol : Sym := ⟨0x1000, 16, 2, ascii "main".toList⟩
def longSymbol : Sym := ⟨0x1000, 16, 2, List.replicate (2 ^ 32) 0x61⟩

theorem fits_longSymbol : longSymbol.Fits :=
  ⟨show 0x1000 < 2 ^ 64 by decide, show 16 < 2 ^ 64 by decide, show 2 < 2 ^ 8 by decide,
    fun c hc => by rw [List.eq_of_mem_replicate hc]; decide,
    Nat.le_trans (Nat.le_of_eq List.length_replicate) (by decide)⟩

theorem Sym.Fits.collected (h : sym.Fits) (hlength : sym.name.length ≤ 2 ^ 32) : Collected [sym] := by
  refine ⟨List.forall_mem_singleton.mpr ⟨h.addr, h.size, h.type⟩, List.forall_mem_singleton.mpr h.name, ?_⟩
  rw [List.map_singleton, List.sum_singleton]
  omega

/-- Without memory a symbol is not listed, and with all memory a name of 4 GiB is not. -/
theorem symbol_json_not_faithful :
    (Collected [mainSymbol] ∧ ∃ text, symbolJson noMemory [mainSymbol] = .ok text ∧ ¬ Faithful [mainSymbol] text) ∧
      Collected [longSymbol] ∧ ∃ text, symbolJson allMemory [longSymbol] = .ok text ∧ ¬ Faithful [longSymbol] text := by
  have hlength : longSymbol.name.length = 2 ^ 32 := List.length_replicate
  refine ⟨⟨⟨by decide, by decide, by decide⟩, ascii "[]".toList, rfl, ?_⟩, fits_longSymbol.collected hlength.le, ?_⟩
  · rintro ⟨parsed, hread, hlisting⟩
    obtain ⟨s, hs, -⟩ := hlisting.exists_name List.mem_cons_self
    cases hread
    cases hs
  · obtain ⟨text, hjson, hshort⟩ := long_name_wraps fits_longSymbol (show 16 ≠ 0 by decide) hlength
    refine ⟨text, hjson, ?_⟩
    rintro ⟨parsed, hread, hlisting⟩
    obtain ⟨s, hs, hname⟩ := hlisting.exists_name List.mem_cons_self
    have hle := length_name_le hread hs
    rw [hname, hlength] at hle
    exact Nat.not_le_of_lt hshort hle

end ElfSymbols

end Ps5Debugger
