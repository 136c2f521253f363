import Mathlib.Algebra.Order.BigOperators.Group.List
import Ps5Debugger.ElfSymbols
import Ps5Debugger.Lib.ExchangeSort
import Ps5Debugger.Lib.Json

/-!
# The symbols as JSON

What `proc_elf_rpc_handle` (`proc.c`) does with the symbols it gathered: they are sorted by address, sizes are
inferred, and the text is written into a buffer that grows. `est` is the size of the buffer less one; it is guessed
first and raised where the rest may not fit. `pos` has 32 bits, as the length that goes to the client.

An allocation may be refused. A write outside the buffer ends the run (`Fault.overrun`), so that a run that does
not end so has kept `pos` inside.

`Out.Wrote` is the invariant of the writer: which text it has written and how many more positions it has. A byte
of a name is written without a look at the room that is left, so that the room made for a symbol must do for the
whole of it.
-/

namespace Ps5Debugger

open Lib

namespace ElfSymbols

/-! ## The symbols -/

/-- Sort symbols by addr. -/
def sortSymbols (symv : List Sym) : List Sym := exchangeSort Sym.addr symv

/-- The size of a symbol, given the next symbol. -/
def inferSize (s : Sym) : Option Sym → Nat
  | some next => if s.size = 0 then if next.addr > s.addr then next.addr - s.addr else 1 else s.size
  | none => if s.size = 0 then 1 else s.size

/-- Infer sizes for zero-sized symbols by next symbol distance. -/
def inferSizes : List Sym → List Sym
  | [] => []
  | s :: symv => { s with size := inferSize s symv.head? } :: inferSizes symv

/-! ## The buffer -/

/-- `malloc` and `realloc`: which calls are granted, and what is in memory that has not been written to. No more
than the address space of a program is granted. -/
structure Heap where
  grants : Nat → Nat → Bool
  fresh : Nat → Buf
  limit : ∀ {call size}, grants call size = true → size ≤ 2 ^ 47

/-- How the writing ends early. -/
inductive Fault : Type where
  /-- this call is not granted -/
  | refused (call : Nat)
  /-- a byte is written outside the buffer -/
  | overrun

/-- The buffer `json` of `est + 1` bytes, the position in it and the calls made so far. -/
structure Out where
  json : Buf
  est : Nat
  pos : Nat
  calls : Nat

/-- `json = malloc(est + 1)` -/
def Out.alloc (heap : Heap) (est : Nat) : Except Fault Out :=
  if heap.grants 0 (u64 (est + 1)) then .ok ⟨heap.fresh 0, est, 0, 1⟩ else .error (.refused 0)

/-- `json = realloc(json, est + 1)`, where `est` has the new value. -/
def Out.grow (heap : Heap) (est : Nat) (s : Out) : Except Fault Out :=
  if heap.grants s.calls (u64 (est + 1)) then
    .ok ⟨blit (heap.fresh s.calls) 0 s.json (s.est + 1), est, s.pos, s.calls + 1⟩
  else .error (.refused s.calls)

/-- `if (full) { est = ...; json = realloc(json, est + 1); }` -/
def Out.growIf (heap : Heap) (full : Prop) [Decidable full] (est : Nat) (s : Out) : Except Fault Out :=
  if full then s.grow heap est else .ok s

/-- `json[pos++] = c` -/
def Out.put (c : Byte) (s : Out) : Except Fault Out :=
  if s.pos ≤ s.est then .ok { s with json := blit s.json s.pos (fun _ => c) 1, pos := u32 (s.pos + 1) }
  else .error .overrun

/-- `json[pos] = '\0'` -/
def Out.terminate (s : Out) : Except Fault Out :=
  if s.pos ≤ s.est then .ok { s with json := blit s.json s.pos (fun _ => 0) 1 } else .error .overrun

/-- `pos += snprintf(json + pos, est - pos + 1, ...)`, given the text that the format makes. -/
def Out.print (text : List Byte) (s : Out) : Except Fault Out :=
  let size := u64 (subU64 s.est s.pos + 1)
  if size = 0 then .ok { s with pos := u32 (s.pos + text.length) }
  else
    let written := text.take (size - 1) ++ [0]
    if s.pos + written.length ≤ s.est + 1 then
      .ok { s with json := blit s.json s.pos (ofList written) written.length, pos := u32 (s.pos + text.length) }
    else .error .overrun

/-! ## The text -/

/-- `{"addr":%llu,"size":%llu,"type":%u,"name":"` -/
def header (sym : Sym) : List Byte :=
  ascii "\x7b\"addr\":".toList ++ (Json.digits sym.addr ++ (ascii ",\"size\":".toList ++ (Json.digits sym.size ++
    (ascii ",\"type\":".toList ++ (Json.digits (sym.type % 2 ^ 8) ++ ascii ",\"name\":\"".toList)))))

/-- A byte of a name. -/
def Out.putChar (heap : Heap) (s : Out) (c : Byte) : Except Fault Out :=
  if c = 0x22 ∨ c = 0x5c then do
    let s ← s.growIf heap (u32 (s.pos + 2) ≥ s.est) (u64 (s.est * 2 + 16))
    let s ← s.put 0x5c
    s.put c
  else if 0x20 ≤ c.toNat then s.put c
  else .ok s

/-- Room for a symbol. The estimate is taken as 32 bits. -/
def Out.makeRoom (heap : Heap) (needed : Nat) (s : Out) : Except Fault Out :=
  s.growIf heap (u64 (s.pos + needed) > u32 s.est) (u64 (s.est * 2 + needed))

/-- A symbol for which there is room. -/
def Out.putFields (heap : Heap) (sym : Sym) (s : Out) : Except Fault Out := do
  let s ← s.print (header sym)
  let s ← sym.name.foldlM (Out.putChar heap) s
  let s ← s.growIf heap (u32 (s.pos + 4) ≥ s.est) (u64 (s.est * 2 + 16))
  s.print (ascii "\"\x7d".toList)

/-- `if (!first) json[pos++] = ','` -/
def Out.putComma (first : Bool) (s : Out) : Except Fault Out := if first then .ok s else s.put 0x2c

def Out.putSymbol (heap : Heap) (first : Bool) (sym : Sym) (s : Out) : Except Fault Out := do
  let s ← s.putComma first
  let s ← s.makeRoom heap (u64 (128 + sym.name.length * 2))
  s.putFields heap sym

def Out.putSymbols (heap : Heap) : Bool → List Sym → Out → Except Fault Out
  | _, [], s => .ok s
  | first, sym :: symv, s => do
    let s ← s.putSymbol heap first sym
    s.putSymbols heap false symv

/-- The estimate that is made first. -/
def estimate (symv : List Sym) : Nat := u64 (2 + symv.length * 80 + (symv.map fun s => s.name.length).sum)

def writeJson (heap : Heap) (symv : List Sym) : Except Fault Out := do
  let s ← Out.alloc heap (estimate symv)
  let s ← s.put 0x5b
  let s ← s.putSymbols heap true symv
  let s ← s.growIf heap (u32 (s.pos + 2) ≥ s.est) (u64 (s.est + 16))
  let s ← s.put 0x5d
  s.terminate

/-- The text that is sent. When an allocation was refused it is an empty JSON array, if there is memory for it. -/
def symbolJson (heap : Heap) (symv : List Sym) : Except Fault (List Byte) :=
  match writeJson heap (inferSizes (sortSymbols symv)) with
  | .ok s => .ok (slice s.json 0 s.pos)
  | .error (.refused call) => .ok (if heap.grants (call + 1) 3 then ascii "[]".toList else [])
  | .error .overrun => .error .overrun

/-! ## The invariant of the writer -/

/-- A symbol as text. -/
def symbolText (sym : Sym) : List Byte :=
  header sym ++ (sym.name.flatMap Json.escape ++ ascii "\"\x7d".toList)

/-- Symbols as text, with no limit to its length. -/
def jsonText (symv : List Sym) : List Byte := 0x5b :: (Json.listed symbolText true symv ++ [0x5d])

/-- The text has been written from the front of the buffer on, and the next `k` positions are inside. -/
structure Out.Wrote (s : Out) (t : List Byte) (est k : Nat) : Prop where
  est_eq : s.est = est
  pos_eq : s.pos = u32 t.length
  room : s.pos + k ≤ est
  text : t.length < 2 ^ 32 → slice s.json 0 t.length = t

variable {heap : Heap} {s : Out} {t u : List Byte} {est k : Nat}

theorem Out.Wrote.mono {j : Nat} (h : s.Wrote t est k) (hle : j ≤ k) : s.Wrote t est j :=
  ⟨h.est_eq, h.pos_eq, Nat.le_trans (Nat.add_le_add_left hle _) h.room, h.text⟩

theorem u32_le (n : Nat) : u32 n ≤ n := Nat.mod_le n _

theorem u32_add (m n : Nat) : u32 (u32 m + n) = u32 (m + n) := Nat.mod_add_mod m _ n

/-- More text at the position; what is behind it in the copy does not count. -/
theorem Out.Wrote.copy (h : s.Wrote t est (u.length + k)) {src : Buf} {len : Nat} (hlen : u.length ≤ len)
    (hsrc : slice src 0 u.length = u) :
    Out.Wrote { s with json := blit s.json s.pos src len, pos := u32 (s.pos + u.length) } (t ++ u) est k := by
  refine ⟨h.est_eq, ?_, ?_, fun hshort => ?_⟩
  · rw [List.length_append]
    show u32 (s.pos + u.length) = _
    rw [h.pos_eq, u32_add]
  · have hroom := h.room
    have hle := u32_le (s.pos + u.length)
    show u32 (s.pos + u.length) + k ≤ est
    omega
  · rw [List.length_append] at hshort
    have hpos : s.pos = t.length := by rw [h.pos_eq, u32_of_lt (by omega)]
    have hnew : slice (blit s.json s.pos src len) (s.pos + 0) u.length = slice src 0 u.length :=
      slice_blit_inside (by omega)
    have hold : slice (blit s.json s.pos src len) 0 t.length = slice s.json 0 t.length :=
      slice_blit_outside (Or.inl (by omega))
    show slice (blit s.json s.pos src len) 0 (t ++ u).length = t ++ u
    rw [List.length_append, slice_append_slice, hold, h.text (by omega), Nat.zero_add, ← hpos, ← hnew.trans hsrc,
      Nat.add_zero, length_slice]

theorem Out.Wrote.put (h : s.Wrote t est (k + 1)) (c : Byte) : ∃ s', s.put c = .ok s' ∧ s'.Wrote (t ++ [c]) est k := by
  have hroom := h.room
  have hin : s.pos ≤ s.est := by
    rw [h.est_eq]
    omega
  refine ⟨_, if_pos hin, ?_⟩
  exact Out.Wrote.copy (u := [c]) (Nat.add_comm k 1 ▸ h) (Nat.le_refl 1) rfl

theorem Out.Wrote.terminate (h : s.Wrote t est k) : ∃ s', s.terminate = .ok s' ∧ s'.Wrote t est k := by
  have hroom := h.room
  have hin : s.pos ≤ s.est := by
    rw [h.est_eq]
    omega
  refine ⟨_, if_pos hin, h.est_eq, h.pos_eq, h.room, fun hshort => ?_⟩
  have hpos : s.pos = t.length := by rw [h.pos_eq, u32_of_lt hshort]
  show slice (blit s.json s.pos (fun _ => 0) 1) 0 t.length = t
  rw [slice_blit_outside (Or.inl (by omega))]
  exact h.text hshort

/-- The text of a format fits with the byte that ends it. -/
theorem Out.Wrote.print (h : s.Wrote t est (u.length + k)) (hest : est < 2 ^ 47) :
    ∃ s', s.print u = .ok s' ∧ s'.Wrote (t ++ u) est k := by
  have hroom := h.room
  have hesteq := h.est_eq
  have hsize : u64 (subU64 s.est s.pos + 1) = s.est - s.pos + 1 := by
    rw [subU64_of_le (by omega) (by omega), u64_of_lt (by omega)]
  have htake : u.take (s.est - s.pos + 1 - 1) = u := List.take_of_length_le (by omega)
  have hfits : s.pos + (u ++ [0]).length ≤ s.est + 1 := by
    rw [List.length_append, List.length_singleton]
    omega
  have hsrc : slice (ofList (u ++ [0])) 0 u.length = u := by
    have hall := slice_ofList (u ++ [0])
    rw [List.length_append, slice_append_slice] at hall
    exact (List.append_inj hall (length_slice _ _ _)).1
  refine ⟨{ s with json := blit s.json s.pos (ofList (u ++ [0])) (u ++ [0]).length, pos := u32 (s.pos + u.length) }, ?_,
    h.copy (by rw [List.length_append]; omega) hsrc⟩
  rw [Out.print, hsize]
  simp only [htake, if_neg (Nat.succ_ne_zero (s.est - s.pos)), if_pos hfits]

/-- A larger buffer holds the text as before. -/
theorem Out.Wrote.moved (h : s.Wrote t est 0) {est' : Nat} {fresh : Buf} {calls : Nat} (hroom : s.pos + k ≤ est') :
    Out.Wrote ⟨blit fresh 0 s.json (s.est + 1), est', s.pos, calls⟩ t est' k := by
  refine ⟨rfl, h.pos_eq, hroom, fun hshort => ?_⟩
  have hpos : s.pos = t.length := by rw [h.pos_eq, u32_of_lt hshort]
  have hin := h.room
  have hesteq := h.est_eq
  have hcopied : slice (blit fresh 0 s.json (s.est + 1)) (0 + 0) t.length = slice s.json 0 t.length :=
    slice_blit_inside (by omega)
  exact hcopied.trans (h.text hshort)

/-! ## What is written -/

/-- The text is written and the next `k` positions are inside, unless a call was refused. -/
def Made (heap : Heap) (t : List Byte) (k : Nat) (m : Except Fault Out) : Prop :=
  (∃ s est, m = .ok s ∧ est < 2 ^ 47 ∧ s.Wrote t est k) ∨
    ∃ call size, m = .error (.refused call) ∧ heap.grants call size = false

theorem Made.bind {m : Except Fault Out} {f : Out → Except Fault Out} {j : Nat} (h : Made heap t k m)
    (hf : ∀ s est, est < 2 ^ 47 → s.Wrote t est k → Made heap u j (f s)) : Made heap u j (m >>= f) := by
  rcases h with ⟨s, est, rfl, hest, hs⟩ | ⟨call, size, rfl, hno⟩
  · exact hf s est hest hs
  · exact Or.inr ⟨call, size, rfl, hno⟩

theorem Made.of_ok {m : Except Fault Out} (hest : est < 2 ^ 47) (h : ∃ s', m = .ok s' ∧ s'.Wrote t est k) :
    Made heap t k m :=
  let ⟨s', hs', hw⟩ := h
  Or.inl ⟨s', est, hs', hest, hw⟩

/-- A buffer grows to a size that is granted, or is refused. -/
theorem Out.Wrote.grow (h : s.Wrote t est 0) {est' : Nat} (hsmall : est' < 2 ^ 60) (hroom : s.pos + k ≤ est') :
    Made heap t k (s.grow heap (u64 est')) := by
  rw [u64_of_lt (by omega), Out.grow, u64_of_lt (by omega)]
  cases hgrants : heap.grants s.calls (est' + 1) with
  | true =>
    have hlimit := heap.limit hgrants
    exact Or.inl ⟨_, est', if_pos rfl, by omega, h.moved hroom⟩
  | false => exact Or.inr ⟨s.calls, est' + 1, if_neg Bool.false_ne_true, hgrants⟩

/-! ## A symbol -/

/-- A byte of a name is written in the room that was made for the symbol. -/
theorem Out.Wrote.putChar (heap : Heap) {c : Byte} (hc : 0x20 ≤ c.toNat) (hk : 3 ≤ k)
    (h : s.Wrote t est ((Json.escape c).length + k)) :
    ∃ s', s.putChar heap c = .ok s' ∧ s'.Wrote (t ++ Json.escape c) est k := by
  rw [Out.putChar]
  by_cases he : c = 0x22 ∨ c = 0x5c
  · rw [Json.escape_of he] at h ⊢
    have hroom := h.room
    have hle := u32_le (s.pos + 2)
    have hesteq := h.est_eq
    have henough : ¬ u32 (s.pos + 2) ≥ s.est := by
      rw [List.length_cons, List.length_singleton] at hroom
      omega
    have htwo : k + 1 + 1 ≤ [Json.backslash, c].length + k := by
      rw [List.length_cons, List.length_singleton]
      omega
    obtain ⟨s₁, hput₁, h₁⟩ := (h.mono htwo).put 0x5c
    obtain ⟨s₂, hput₂, h₂⟩ := h₁.put c
    refine ⟨s₂, ?_, by rwa [List.append_assoc] at h₂⟩
    rw [if_pos he, Out.growIf, if_neg henough]
    show (s.put 0x5c >>= fun s => s.put c) = .ok s₂
    rw [hput₁]
    exact hput₂
  · rw [Json.escape_of_not he] at h ⊢
    obtain ⟨s₁, hput₁, h₁⟩ := (h.mono (Nat.le_of_eq (Nat.add_comm k 1))).put c
    exact ⟨s₁, by rw [if_neg he, if_pos hc, hput₁], h₁⟩

theorem Out.Wrote.putName (heap : Heap) {name : List Byte} (hname : ∀ c ∈ name, 0x20 ≤ c.toNat) (hk : 3 ≤ k)
    (h : s.Wrote t est ((name.flatMap Json.escape).length + k)) :
    ∃ s', name.foldlM (Out.putChar heap) s = .ok s' ∧ s'.Wrote (t ++ name.flatMap Json.escape) est k := by
  induction name generalizing s t with
  | nil => exact ⟨s, rfl, by simpa using h⟩
  | cons c name ih =>
    obtain ⟨hc, hname'⟩ := List.forall_mem_cons.mp hname
    rw [List.flatMap_cons, List.length_append, Nat.add_assoc] at h
    obtain ⟨s₁, hput, h₁⟩ := h.putChar heap hc (Nat.le_trans hk (Nat.le_add_left k _))
    obtain ⟨s₂, hrest, h₂⟩ := ih hname' h₁
    refine ⟨s₂, ?_, by rwa [List.append_assoc] at h₂⟩
    rw [List.foldlM_cons, hput]
    exact hrest

/-- A symbol is written in the room that was made for it. -/
theorem Out.Wrote.putFields (heap : Heap) {sym : Sym} (hname : ∀ c ∈ sym.name, 0x20 ≤ c.toNat) (hest : est < 2 ^ 47)
    (hk : 3 ≤ k)
    (h : s.Wrote t est ((symbolText sym).length + k)) :
    ∃ s', s.putFields heap sym = .ok s' ∧ s'.Wrote (t ++ symbolText sym) est k := by
  rw [symbolText, List.length_append, List.length_append, Nat.add_assoc, Nat.add_assoc] at h
  obtain ⟨s₁, hheader, h₁⟩ := h.print hest
  obtain ⟨s₂, hwritten, h₂⟩ := h₁.putName heap hname (Nat.le_trans hk (Nat.le_add_left k _))
  have hroom := h₂.room
  have hle := u32_le (s₂.pos + 4)
  have hesteq := h₂.est_eq
  have htwo : (ascii "\"\x7d".toList).length = 2 := rfl
  have henough : ¬ u32 (s₂.pos + 4) ≥ s₂.est := by omega
  obtain ⟨s₃, hend, h₃⟩ := h₂.print hest
  refine ⟨s₃, ?_, by rwa [List.append_assoc, List.append_assoc] at h₃⟩
  rw [Out.putFields, hheader]
  show (sym.name.foldlM (Out.putChar heap) s₁ >>= _) = _
  rw [hwritten]
  show (s₂.growIf heap _ _ >>= _) = _
  rw [Out.growIf, if_neg henough]
  exact hend

/-- Room for so many positions; the estimate as 32 bits is not more than the buffer has. -/
theorem Out.Wrote.makeRoom (h : s.Wrote t est 0) (hest : est < 2 ^ 47) {needed : Nat} (hneeded : needed < 2 ^ 59) :
    Made heap t needed (s.makeRoom heap needed) := by
  have hroom := h.room
  have hesteq := h.est_eq
  rw [Out.makeRoom, u64_of_lt (by omega), Out.growIf]
  by_cases hfull : s.pos + needed > u32 s.est
  · rw [if_pos hfull]
    exact h.grow (by omega) (by omega)
  · rw [if_neg hfull]
    have hle := u32_le s.est
    exact Or.inl ⟨s, est, rfl, hest, h.est_eq, h.pos_eq, by omega, h.text⟩

/-- What is written of a symbol: numbers that are no longer than 64 bits make them, and a name. -/
structure Sym.Fits (sym : Sym) : Prop where
  addr : sym.addr < 2 ^ 64
  size : sym.size < 2 ^ 64
  type : sym.type < 2 ^ 8
  name : ∀ c ∈ sym.name, 0x20 ≤ c.toNat
  length : sym.name.length ≤ 2 ^ 47

theorem length_digits_le {n k : Nat} (hk : 0 < k) (h : n < 10 ^ k) : (Json.digits n).length ≤ k := by
  rw [Json.digits, ascii, List.length_map]
  exact (Nat.length_toDigits_le_iff (by decide) hk).mpr h

/-- The room that is made is enough. -/
theorem Sym.Fits.length_symbolText {sym : Sym} (h : sym.Fits) :
    (symbolText sym).length + 50 ≤ 128 + sym.name.length * 2 := by
  have haddr : (Json.digits sym.addr).length ≤ 20 := length_digits_le (by decide) (Nat.lt_trans h.addr (by decide))
  have hsize : (Json.digits sym.size).length ≤ 20 := length_digits_le (by decide) (Nat.lt_trans h.size (by decide))
  have htype : (Json.digits (sym.type % 2 ^ 8)).length ≤ 3 :=
    length_digits_le (by decide) (Nat.lt_trans (Nat.mod_lt _ (by decide)) (by decide))
  have hname : (sym.name.flatMap Json.escape).length ≤ sym.name.length * 2 := by
    rw [List.length_flatMap]
    have hle : ∀ n ∈ sym.name.map fun c => (Json.escape c).length, n ≤ 2 := by
      intro n hn
      obtain ⟨c, -, rfl⟩ := List.mem_map.mp hn
      rw [Json.escape]
      split
      · exact Nat.le_refl 2
      · exact Nat.le_succ 1
    have hsum := List.sum_le_card_nsmul _ 2 hle
    rwa [List.length_map] at hsum
  have h₁ : (ascii "\x7b\"addr\":".toList).length = 8 := rfl
  have h₂ : (ascii ",\"size\":".toList).length = 8 := rfl
  have h₃ : (ascii ",\"type\":".toList).length = 8 := rfl
  have h₄ : (ascii ",\"name\":\"".toList).length = 9 := rfl
  have h₅ : (ascii "\"\x7d".toList).length = 2 := rfl
  rw [symbolText, header]
  simp only [List.length_append]
  omega

/-- A symbol with its comma. Between symbols there is room for one more byte. -/
theorem Out.Wrote.putSymbol (heap : Heap) {sym : Sym} (hsym : sym.Fits) (first : Bool) (h : s.Wrote t est 1)
    (hest : est < 2 ^ 47) :
    Made heap (t ++ ((if first then [] else [Json.comma]) ++ symbolText sym)) 1 (s.putSymbol heap first sym) := by
  have hcomma : Made heap (t ++ (if first then [] else [Json.comma])) 0 (s.putComma first) := by
    cases first with
    | true => exact Or.inl ⟨s, est, rfl, hest, by rw [if_pos rfl, List.append_nil]; exact h.mono (Nat.zero_le 1)⟩
    | false => exact Made.of_ok hest (h.put 0x2c)
  have hlength := hsym.length
  have hneeded : u64 (128 + sym.name.length * 2) = 128 + sym.name.length * 2 := u64_of_lt (by omega)
  rw [Out.putSymbol, hneeded, ← List.append_assoc]
  refine hcomma.bind fun s₁ est₁ hest₁ h₁ => ?_
  refine (h₁.makeRoom hest₁ (by omega)).bind fun s₂ est₂ hest₂ h₂ => ?_
  obtain ⟨s₃, hfields, h₃⟩ := (h₂.mono hsym.length_symbolText).putFields heap hsym.name hest₂ (by decide)
  exact Or.inl ⟨s₃, est₂, hfields, hest₂, h₃.mono (by decide)⟩

theorem Out.Wrote.putSymbols {symv : List Sym} (hsymv : ∀ sym ∈ symv, sym.Fits) (first : Bool) (h : s.Wrote t est 1)
    (hest : est < 2 ^ 47) :
    Made heap (t ++ Json.listed symbolText first symv) 1 (Out.putSymbols heap first symv s) := by
  induction symv generalizing first s t est with
  | nil => exact Or.inl ⟨s, est, rfl, hest, by rw [Json.listed, List.append_nil]; exact h⟩
  | cons sym symv ih =>
    obtain ⟨hsym, hsymv'⟩ := List.forall_mem_cons.mp hsymv
    rw [Out.putSymbols, Json.listed, ← List.append_assoc, ← List.append_assoc]
    have hthis := h.putSymbol heap hsym first hest
    rw [← List.append_assoc] at hthis
    exact hthis.bind fun s₁ est₁ hest₁ h₁ => ih hsymv' false h₁ hest₁

/-- The whole text, from an estimate that is not wrapped. -/
theorem writeJson_made (heap : Heap) {symv : List Sym} (hsymv : ∀ sym ∈ symv, sym.Fits)
    (hheld : symv.length * 80 + (symv.map fun s => s.name.length).sum < 2 ^ 59) :
    Made heap (jsonText symv) 0 (writeJson heap symv) := by
  have hestimate : estimate symv = 2 + symv.length * 80 + (symv.map fun s => s.name.length).sum := u64_of_lt (by omega)
  have halloc : Made heap [] 2 (Out.alloc heap (estimate symv)) := by
    rw [Out.alloc, u64_of_lt (by omega)]
    cases hgrants : heap.grants 0 (estimate symv + 1) with
    | true =>
      have hlimit := heap.limit hgrants
      exact Or.inl ⟨_, estimate symv, if_pos rfl, by omega, rfl, rfl, by show 0 + 2 ≤ _; omega, fun _ => rfl⟩
    | false => exact Or.inr ⟨0, _, if_neg Bool.false_ne_true, hgrants⟩
  refine halloc.bind fun s₁ est₁ hest₁ h₁ => ?_
  refine (Made.of_ok hest₁ (h₁.put 0x5b)).bind fun s₂ est₂ hest₂ h₂ => ?_
  refine (h₂.putSymbols hsymv true hest₂).bind fun s₃ est₃ hest₃ h₃ => ?_
  have hlast : Made heap ([0x5b] ++ Json.listed symbolText true symv) 1
      (s₃.growIf heap (u32 (s₃.pos + 2) ≥ s₃.est) (u64 (s₃.est + 16))) := by
    have hroom := h₃.room
    have hesteq := h₃.est_eq
    rw [Out.growIf]
    split
    · exact (h₃.mono (Nat.zero_le 1)).grow (by omega) (by omega)
    · exact Or.inl ⟨s₃, est₃, rfl, hest₃, h₃⟩
  refine hlast.bind fun s₄ est₄ hest₄ h₄ => ?_
  refine (Made.of_ok hest₄ (h₄.put 0x5d)).bind fun s₅ est₅ hest₅ h₅ => ?_
  exact Made.of_ok hest₅ h₅.terminate

end ElfSymbols

end Ps5Debugger
