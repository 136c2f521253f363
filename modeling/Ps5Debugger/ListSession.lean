import Ps5Debugger.RescanPointwise

/-!
# LIST sessions

A session that keeps its survivors on the server as an array of records: the address, the
current value, and — for a session that came out of a snapshot — the previous and the first
value. A resident COUNT compacts the array in place while it walks it, and looks ahead in it
to size its windows; a resident GET sends a range of it.

What a session *is* is the list of its records (`ListSession.records`); the theorems here say
that COUNT filters that list pointwise (`records_listRescan`), whatever the compaction does
to the bytes behind it.
-/

namespace Ps5Debugger

open Lib

/-- A survivor, whichever way it is stored. A field the session does not keep is empty. -/
structure Rec where
  addr : Nat
  cur : List Byte
  prev : List Byte
  first : List Byte
  deriving DecidableEq

/-- The reference for one survivor of a COUNT: fresh bytes become current, the current value
becomes the previous one where that is kept. -/
def Rec.recount (mem : Memory) (v : Nat) (hasPrev : Bool) (cmp : List Byte → List Byte → Bool)
    (r : Rec) : Option Rec :=
  let w := slice (readMem mem r.addr) 0 v
  if cmp w r.cur then some ⟨r.addr, w, if hasPrev then r.cur else [], r.first⟩ else none

/-- The layout of the records of a session. -/
structure Layout where
  valueLength : Nat
  hasPrev : Bool
  hasFirst : Bool

namespace Layout

variable (l : Layout)

/-- `rec_size`. -/
def recSize : Nat :=
  8 + l.valueLength * (1 + (if l.hasPrev then 1 else 0) + if l.hasFirst then 1 else 0)

/-- `first_off`. -/
def firstOff : Nat := 8 + l.valueLength + if l.hasPrev then l.valueLength else 0

/-- The address of record `i`. -/
def addrAt (recs : Buf) (i : Nat) : Nat := leNat 8 (slice recs (i * l.recSize) 8)

/-- Record `i`. -/
def recAt (recs : Buf) (i : Nat) : Rec where
  addr := l.addrAt recs i
  cur := slice recs (i * l.recSize + 8) l.valueLength
  prev := if l.hasPrev then slice recs (i * l.recSize + (8 + l.valueLength)) l.valueLength else []
  first := if l.hasFirst then slice recs (i * l.recSize + l.firstOff) l.valueLength else []

/-- The copies that write a survivor at index `out`: `prevval` and `firstval` were taken from
the record at index `i` before. -/
def putRec (recs : Buf) (i out addr : Nat) (memPtr : Buf) : Buf :=
  let rec_ := i * l.recSize
  let prevval := view recs (rec_ + 8)
  let firstval := view recs (rec_ + l.firstOff)
  let o := out * l.recSize
  let b := blit recs o (ofList (leBytes 8 addr)) 8
  let b := blit b (o + 8) memPtr l.valueLength
  let b := if l.hasPrev then blit b (o + (8 + l.valueLength)) prevval l.valueLength else b
  if l.hasFirst then blit b (o + l.firstOff) firstval l.valueLength else b

end Layout

/-- A LIST session. -/
structure ListSession where
  layout : Layout
  buf : Buf
  count : Nat

/-- The survivors of a session. -/
def ListSession.records (s : ListSession) : List Rec := (List.range s.count).map (s.layout.recAt s.buf)

/-! ## The resident COUNT -/

/-- The loop of a resident COUNT: the record array, how many survivors it holds at the
front, the cached window, `mem_buf`, and the reads made so far. -/
structure ListScan where
  recs : Buf
  newCount : Nat
  win : Window
  memBuf : Buf
  reads : List (Nat × Nat)

/-- One turn of the loop, for record `i` of `n`. -/
def listStep {mem : Memory} (l : Layout) (actx : Option (AliasEngine mem))
    (cmp : List Byte → List Byte → Bool) (n : Nat) (st : ListScan) (i : Nat) : ListScan :=
  let srv := turboServer actx l.valueLength
  let addr := l.addrAt st.recs i
  let rest := (List.range' (i + 1) (n - (i + 1))).map (l.addrAt st.recs)
  let f := srv.fetch addr rest st.win st.memBuf
  let reads := if srv.misses st.win addr then st.reads ++ [(addr, srv.grow addr rest - addr)] else st.reads
  let memPtr := view f.1.base (addr - f.1.start)
  if cmp (slice memPtr 0 l.valueLength) (slice st.recs (i * l.recSize + 8) l.valueLength) then
    { recs := l.putRec st.recs i st.newCount addr memPtr
      newCount := st.newCount + 1
      win := f.1, memBuf := f.2, reads }
  else { st with win := f.1, memBuf := f.2, reads }

/-- The loop over the first `k` records. -/
def listLoop {mem : Memory} (l : Layout) (actx : Option (AliasEngine mem))
    (cmp : List Byte → List Byte → Bool) (n k : Nat) (recs memBuf : Buf) : ListScan :=
  (List.range k).foldl (listStep l actx cmp n) ⟨recs, 0, noWindow memBuf, memBuf, []⟩

/-- A resident COUNT on a LIST session. -/
def listRescan {mem : Memory} (actx : Option (AliasEngine mem)) (cmp : List Byte → List Byte → Bool)
    (s : ListSession) (memBuf : Buf) : ListSession :=
  let st := listLoop s.layout actx cmp s.count s.count s.buf memBuf
  { s with buf := st.recs, count := st.newCount }

/-- The comparison of a resident COUNT: fresh bytes against the pattern and the survivor's
own current value. -/
def CountPass.residentCompare (p : CountPass) (window cur : List Byte) : Bool :=
  p.turboCompare window (p.prevFor cur)

/-- A resident COUNT command on a LIST session; one of another value length does nothing. -/
def listCount {mem : Memory} (actx : Option (AliasEngine mem)) (p : CountPass) (s : ListSession)
    (memBuf : Buf) : ListSession :=
  if s.layout.valueLength = p.valueLength then listRescan actx p.residentCompare s memBuf else s

/-- The window that `listStep` compares for record `i`. -/
def listWindow {mem : Memory} (l : Layout) (actx : Option (AliasEngine mem)) (n : Nat) (st : ListScan)
    (i : Nat) : List Byte :=
  let addr := l.addrAt st.recs i
  let rest := (List.range' (i + 1) (n - (i + 1))).map (l.addrAt st.recs)
  let f := (turboServer actx l.valueLength).fetch addr rest st.win st.memBuf
  slice (view f.1.base (addr - f.1.start)) 0 l.valueLength

/-- The windows of `listRescan`. -/
def listWindows {mem : Memory} (actx : Option (AliasEngine mem)) (cmp : List Byte → List Byte → Bool)
    (s : ListSession) (memBuf : Buf) : List (List Byte) :=
  (List.range s.count).map fun i =>
    listWindow s.layout actx s.count (listLoop s.layout actx cmp s.count i s.buf memBuf) i

/-- The command as the handler runs it: `none` is a handler that dereferences the null pattern. -/
def listServe {mem : Memory} (actx : Option (AliasEngine mem)) (p : CountPass) (s : ListSession)
    (memBuf : Buf) : Option ListSession :=
  if s.layout.valueLength = p.valueLength ∧
      ¬ p.Lives p.turboCall (listWindows actx p.residentCompare s memBuf) then none
  else some (listCount actx p s memBuf)

/-! ## The resident GET -/

/-- The send buffer of a GET: what was sent, and the block being filled. -/
def packEntry (cap : Nat) (st : List (List Byte) × List Byte) (e : List Byte) :
    List (List Byte) × List Byte :=
  if st.2.length + e.length > cap then (st.1 ++ [st.2], e) else (st.1, st.2 ++ e)

/-- The sends of a GET after its header: the entries in blocks of at most `cap` bytes. -/
def packEntries (cap : Nat) (es : List (List Byte)) : List (List Byte) :=
  let st := es.foldl (packEntry cap) ([], [])
  if st.2.length ≠ 0 then st.1 ++ [st.2] else st.1

/-- The header word of a GET. -/
def getHeader (actual : Nat) (hasFirst : Bool) : List Byte :=
  leBytes 4 (actual % 2 ^ 32 ||| if hasFirst then 0x80000000 else 0)

/-- `out_cap`. -/
def getOutCap : Nat := 0x40000

/-- The entry of record `i` in a GET reply. -/
def Layout.entryAt (l : Layout) (recs : Buf) (i : Nat) : List Byte :=
  let rec_ := i * l.recSize
  let recPrevOff := if l.hasPrev then 8 + l.valueLength else 8
  slice recs rec_ 8 ++ slice recs (rec_ + 8) l.valueLength ++
    slice recs (rec_ + recPrevOff) l.valueLength ++
    if l.hasFirst then slice recs (rec_ + l.firstOff) l.valueLength else []

/-- The reply of a GET on a LIST session: the header, then the blocks. -/
def listGet (s : ListSession) (startIndex count : Nat) : List (List Byte) :=
  let start := if startIndex > s.count then s.count else startIndex
  let stop := if start + count > s.count then s.count else start + count
  getHeader (stop - start) s.layout.hasFirst ::
    packEntries getOutCap ((List.range' start (stop - start)).map (s.layout.entryAt s.buf))

/-! ## The turbo window -/

/-- How far the turbo window reaches. -/
theorem growTurbo_spec {v addr : Nat} (rest : List Nat) : ∀ {coveredEnd : Nat},
    (∀ b ∈ rest, b + v < 2 ^ 64) → addr ≤ coveredEnd → coveredEnd < 2 ^ 64 →
    coveredEnd ≤ addr + rescanWinCap →
    coveredEnd ≤ growTurbo v addr coveredEnd rest ∧
      growTurbo v addr coveredEnd rest ≤ addr + rescanWinCap ∧
      growTurbo v addr coveredEnd rest < 2 ^ 64 := by
  induction rest with
  | nil => intro ce _ _ hlt hcap; exact ⟨Nat.le_refl _, hcap, hlt⟩
  | cons b rest ih =>
    intro ce hwrap hle hlt hcap
    have hb := hwrap b (List.mem_cons_self ..)
    have hrest : ∀ c ∈ rest, c + v < 2 ^ 64 := fun c hc => hwrap c (List.mem_cons_of_mem _ hc)
    have hstay : ce ≤ ce ∧ ce ≤ addr + rescanWinCap ∧ ce < 2 ^ 64 := ⟨Nat.le_refl _, hcap, hlt⟩
    rw [growTurbo]
    simp only [u64_of_lt hb]
    generalize (if b > ce then b - ce else 0) = gap
    split
    · exact hstay
    split
    · exact hstay
    · next _ hsub =>
      split
      · next hgt =>
        -- the window ends with this candidate now
        rw [subU64_of_le (by omega) hb] at hsub
        obtain ⟨h1, h2, h3⟩ := @ih (b + v) hrest (by omega) hb (by omega)
        exact ⟨by omega, h2, h3⟩
      · exact ih hrest hle hlt hcap

section Turbo

variable {mem : Memory} (actx : Option (AliasEngine mem)) {v : Nat}

/-- Every turbo window is at least a value and at most the buffer. -/
theorem turboServer_grow (hv : v ≤ 0x1000) {a : Nat} {rest : List Nat} (ha : a + v < 2 ^ 64)
    (hrest : ∀ b ∈ rest, b + v < 2 ^ 64) :
    a + v ≤ (turboServer actx v).grow a rest ∧
      (turboServer actx v).grow a rest ≤ a + rescanWinCap := by
  obtain ⟨h1, h2, h3⟩ := @growTurbo_spec v a rest (a + v) hrest (by omega) ha
    (by rw [rescanWinCap]; omega)
  have hgrow : (turboServer actx v).grow a rest = growTurbo v a (a + v) rest := by
    have hsum : u64 (a + v) = a + v := u64_of_lt ha
    simp only [turboServer, hsum]
    rw [subU64_of_le (by omega) h3, u64_of_lt (by omega)]
    omega
  rw [hgrow]
  exact ⟨h1, h2⟩

/-- A window read shows memory, aliased or copied. -/
theorem rescanWindowRead_fresh (a n : Nat) (memBuf : Buf) {i : Nat} (hi : i < n) :
    (rescanWindowRead actx a n memBuf).1 i = readMem mem 0 (a + i) := by
  rw [← readMem_eq_zero mem a i, rescanWindowRead]
  split
  · next ap h =>
    obtain ⟨e, -, hmap⟩ := Option.bind_eq_some_iff.mp h
    exact e.map_eq hmap i hi
  · exact readInto_of_lt hi

/-- A turbo hit fits in its window. -/
theorem turboServer_hit {w : Window} {a : Nat} (ha : a + v < 2 ^ 64)
    (hhit : (turboServer actx v).misses w a = false) : w.Covers v a := by
  simp only [turboServer, Bool.or_eq_false_iff, decide_eq_false_iff_not, u64_of_lt ha] at hhit
  exact ⟨by omega, by omega⟩

/-- One fetch of the turbo handler. -/
theorem turbo_fetch_spec (hv : v ≤ 0x1000) {a : Nat} {rest : List Nat} {w : Window} (memBuf : Buf)
    (ha : a + v < 2 ^ 64) (hrest : ∀ b ∈ rest, b + v < 2 ^ 64) (hshow : w.Shows (readMem mem 0)) :
    ((turboServer actx v).fetch a rest w memBuf).1.Shows (readMem mem 0) ∧
      ((turboServer actx v).fetch a rest w memBuf).1.Covers v a := by
  obtain ⟨h1, -, h3⟩ := Server.fetch_spec (turboServer actx v) (fun a => a + v < 2 ^ 64)
    (fun _ => True)
    (fun a n scratch _ hi => rescanWindowRead_fresh actx a n scratch hi)
    (fun _ _ ha hrest => (turboServer_grow actx hv ha hrest).1) (fun _ _ _ _ _ => trivial)
    (fun _ _ ha _ hhit => turboServer_hit actx ha hhit) memBuf ha hrest hshow trivial
  exact ⟨h1, h3⟩

/-- The turbo window serves memory, whatever the candidates. -/
theorem turbo_serve_eq (hv : v ≤ 0x1000) {as : List Nat} (has : ∀ a ∈ as, a + v < 2 ^ 64) (memBuf : Buf) :
    (turboServer actx v).serve as (noWindow memBuf) memBuf =
      as.map fun a => slice (readMem mem 0) a v :=
  Server.serve_eq (turboServer actx v) (fun a => a + v < 2 ^ 64) (fun _ => True)
    (fun a n scratch _ hi => rescanWindowRead_fresh actx a n scratch hi)
    (fun _ _ ha hrest => (turboServer_grow actx hv ha hrest).1) (fun _ _ _ _ _ => trivial)
    (fun _ _ ha _ hhit => turboServer_hit actx ha hhit) as _ _ has
    (fun _ hi => absurd hi (Nat.not_lt_zero _)) trivial

end Turbo

/-! ## Records in a buffer -/

namespace Layout

variable (l : Layout)

/-- The fields of a record lie one after the other, and fill it. -/
theorem recSize_eq : l.recSize = l.firstOff + if l.hasFirst then l.valueLength else 0 := by
  rw [recSize, firstOff]
  cases l.hasPrev <;> cases l.hasFirst <;> simp <;> ring

theorem firstOff_le : 8 + l.valueLength ≤ l.firstOff := by
  rw [firstOff]
  omega

/-- A record depends on its own bytes only. -/
theorem recAt_congr {b b' : Buf} {i j : Nat}
    (h : ∀ x < l.recSize, b (i * l.recSize + x) = b' (j * l.recSize + x)) :
    l.recAt b i = l.recAt b' j := by
  have hsize := l.recSize_eq
  have hle := l.firstOff_le
  have hfield : ∀ off, off + l.valueLength ≤ l.recSize →
      slice b (i * l.recSize + off) l.valueLength = slice b' (j * l.recSize + off) l.valueLength :=
    fun off hoff => slice_eq_iff.mpr fun x hx => by
      rw [Nat.add_assoc, Nat.add_assoc]
      exact h (off + x) (by omega)
  have haddr : slice b (i * l.recSize) 8 = slice b' (j * l.recSize) 8 :=
    slice_eq_iff.mpr fun x hx => h x (by omega)
  rw [recAt, recAt, addrAt, addrAt, haddr, hfield 8 (by omega)]
  congr 1
  · cases hp : l.hasPrev with
    | false => rfl
    | true =>
      rw [if_pos rfl, if_pos rfl, hfield]
      rw [firstOff, hp, if_pos rfl] at hsize
      omega
  · cases hf : l.hasFirst with
    | false => rfl
    | true =>
      rw [if_pos rfl, if_pos rfl, hfield]
      rw [hf, if_pos rfl] at hsize
      omega

/-- The four copies that write the fields of record `out`. -/
def fields (recs : Buf) (out addr : Nat) (cur prev first : Buf) : Buf :=
  let o := out * l.recSize
  let b := blit recs o (ofList (leBytes 8 addr)) 8
  let b := blit b (o + 8) cur l.valueLength
  let b := if l.hasPrev then blit b (o + (8 + l.valueLength)) prev l.valueLength else b
  if l.hasFirst then blit b (o + l.firstOff) first l.valueLength else b

theorem putRec_eq (recs memPtr : Buf) (i out addr : Nat) :
    l.putRec recs i out addr memPtr = l.fields recs out addr memPtr (view recs (i * l.recSize + 8))
      (view recs (i * l.recSize + l.firstOff)) := rfl

variable {recs cur prev first : Buf} {out addr : Nat}

/-- Outside the record they write, the copies change nothing. -/
theorem fields_outside {x : Nat} (hx : x < out * l.recSize ∨ (out + 1) * l.recSize ≤ x) :
    l.fields recs out addr cur prev first x = recs x := by
  have hsize := l.recSize_eq
  have hle := l.firstOff_le
  rw [Nat.succ_mul] at hx
  have hfirst : ∀ b : Buf, (if l.hasFirst then blit b (out * l.recSize + l.firstOff) first l.valueLength
      else b) x = b x := by
    intro b
    cases hf : l.hasFirst with
    | false => rfl
    | true =>
      rw [hf, if_pos rfl] at hsize
      rw [if_pos rfl, blit_outside (by omega)]
  have hprev : ∀ b : Buf, (if l.hasPrev then blit b (out * l.recSize + (8 + l.valueLength)) prev
      l.valueLength else b) x = b x := by
    intro b
    cases hp : l.hasPrev with
    | false => rfl
    | true =>
      rw [firstOff, hp, if_pos rfl] at hsize
      rw [if_pos rfl, blit_outside (by omega)]
  simp only [fields]
  rw [hfirst, hprev, blit_outside (by omega), blit_outside (by omega)]

/-- The bytes of the record they write, field by field. -/
theorem fields_inside {x : Nat} (hx : x < l.recSize) :
    l.fields recs out addr cur prev first (out * l.recSize + x) =
      if x < 8 then ofList (leBytes 8 addr) x
      else if x < 8 + l.valueLength then cur (x - 8)
      else if x < l.firstOff then prev (x - (8 + l.valueLength))
      else first (x - l.firstOff) := by
  have hsize := l.recSize_eq
  have hprev : l.firstOff = 8 + l.valueLength + if l.hasPrev then l.valueLength else 0 := rfl
  have hzero := blit_add recs (ofList (leBytes 8 addr)) (out * l.recSize) 0 8 x
  rw [Nat.add_zero] at hzero
  simp only [fields]
  -- the four copies write the four fields, which follow one another
  cases hp : l.hasPrev <;> cases hf : l.hasFirst <;>
    simp only [hp, hf, if_true, if_false, Bool.false_eq_true] at hsize hprev ⊢ <;>
    simp only [blit_add, hzero, Nat.sub_zero, Nat.zero_le, true_and, Nat.zero_add] <;>
    split_ifs <;> first | rfl | omega

/-- The record they write. -/
theorem recAt_fields (recs cur prev first : Buf) {out addr : Nat} (haddr : addr < 2 ^ 64) :
    l.recAt (l.fields recs out addr cur prev first) out =
      ⟨addr, slice cur 0 l.valueLength, if l.hasPrev then slice prev 0 l.valueLength else [],
        if l.hasFirst then slice first 0 l.valueLength else []⟩ := by
  have hsize := l.recSize_eq
  have hle := l.firstOff_le
  have hprev : l.firstOff = 8 + l.valueLength + if l.hasPrev then l.valueLength else 0 := rfl
  have hcopy : ∀ (off n : Nat) (src : Buf), off + n ≤ l.recSize →
      (∀ y < n, l.fields recs out addr cur prev first (out * l.recSize + (off + y)) = src y) →
      slice (l.fields recs out addr cur prev first) (out * l.recSize + off) n = slice src 0 n :=
    fun off n src _ h => slice_eq_iff.mpr fun y hy => by rw [Nat.add_assoc, h y hy, Nat.zero_add]
  have hword : l.addrAt (l.fields recs out addr cur prev first) out = addr := by
    have h := hcopy 0 8 (ofList (leBytes 8 addr)) (by omega) fun y hy => by
      rw [l.fields_inside (by omega), if_pos (by omega), Nat.zero_add]
    have hall := slice_ofList (leBytes 8 addr)
    rw [length_leBytes] at hall
    rw [Nat.add_zero] at h
    rw [addrAt, h, hall, leNat_leBytes]
    exact Nat.mod_eq_of_lt haddr
  have hcur := hcopy 8 l.valueLength cur (by omega) fun y hy => by
    rw [l.fields_inside (by omega), if_neg (by omega), if_pos (by omega), Nat.add_sub_cancel_left]
  have hprevField : (if l.hasPrev then slice (l.fields recs out addr cur prev first)
      (out * l.recSize + (8 + l.valueLength)) l.valueLength else []) =
      if l.hasPrev then slice prev 0 l.valueLength else [] := by
    cases hp : l.hasPrev with
    | false => rfl
    | true =>
      rw [hp, if_pos rfl] at hprev
      rw [if_pos rfl, if_pos rfl]
      exact hcopy (8 + l.valueLength) l.valueLength prev (by omega) fun y hy => by
        rw [l.fields_inside (by omega), if_neg (by omega), if_neg (by omega), if_pos (by omega),
          Nat.add_sub_cancel_left]
  have hfirstField : (if l.hasFirst then slice (l.fields recs out addr cur prev first)
      (out * l.recSize + l.firstOff) l.valueLength else []) =
      if l.hasFirst then slice first 0 l.valueLength else [] := by
    cases hf : l.hasFirst with
    | false => rfl
    | true =>
      rw [hf, if_pos rfl] at hsize
      rw [if_pos rfl, if_pos rfl]
      exact hcopy l.firstOff l.valueLength first (by omega) fun y hy => by
        rw [l.fields_inside (by omega), if_neg (by omega), if_neg (by omega), if_neg (by omega),
          Nat.add_sub_cancel_left]
  rw [recAt, hword, hcur, hprevField, hfirstField]

/-- Records before the one written stay. -/
theorem recAt_fields_before {o : Nat} (ho : o < out) :
    l.recAt (l.fields recs out addr cur prev first) o = l.recAt recs o := by
  refine l.recAt_congr fun x hx => l.fields_outside (.inl ?_)
  have hmul : (o + 1) * l.recSize ≤ out * l.recSize := Nat.mul_le_mul_right _ ho
  rw [Nat.succ_mul] at hmul
  omega

/-- The record `putRec` writes. -/
theorem recAt_putRec (recs memPtr : Buf) {i out addr : Nat} (haddr : addr < 2 ^ 64) :
    l.recAt (l.putRec recs i out addr memPtr) out =
      ⟨addr, slice memPtr 0 l.valueLength, if l.hasPrev then (l.recAt recs i).cur else [],
        (l.recAt recs i).first⟩ := by
  rw [putRec_eq, l.recAt_fields _ _ _ _ haddr, slice_view_zero, slice_view_zero]
  rfl

end Layout

/-! ## The compaction, step by step -/

section Compaction

variable (mem : Memory) (l : Layout) (cmp : List Byte → List Byte → Bool) (recs : Buf)

/-- What the loop has done after `i` records of the array `recs`: the survivors among them
stand at the front, the records to come are untouched, the window shows memory. -/
structure ListInv (i : Nat) (st : ListScan) : Prop where
  le : st.newCount ≤ i
  ahead : ∀ x, i * l.recSize ≤ x → st.recs x = recs x
  done : (List.range st.newCount).map (l.recAt st.recs) =
    ((List.range i).map (l.recAt recs)).filterMap (Rec.recount mem l.valueLength l.hasPrev cmp)
  shows : st.win.Shows (readMem mem 0)
  sizes : ∀ r ∈ st.reads, l.valueLength ≤ r.2 ∧ r.2 ≤ rescanWinCap

theorem listInv_zero (memBuf : Buf) :
    ListInv mem l cmp recs 0 ⟨recs, 0, noWindow memBuf, memBuf, []⟩ where
  le := Nat.le_refl 0
  ahead _ _ := rfl
  done := rfl
  shows _ hi := absurd hi (Nat.not_lt_zero _)
  sizes _ hr := by cases hr

variable {mem : Memory} {l : Layout} {cmp : List Byte → List Byte → Bool} {recs : Buf}

/-- The records to come, read from the array as it stands. -/
theorem ListInv.recAt_ahead {i j : Nat} {st : ListScan} (h : ListInv mem l cmp recs i st)
    (hij : i ≤ j) : l.recAt st.recs j = l.recAt recs j :=
  l.recAt_congr fun _ _ => h.ahead _ (Nat.le_trans (Nat.mul_le_mul_right _ hij) (Nat.le_add_right _ _))

theorem ListInv.addrAt_ahead {i j : Nat} {st : ListScan} (h : ListInv mem l cmp recs i st)
    (hij : i ≤ j) : l.addrAt st.recs j = (l.recAt recs j).addr := by
  rw [← h.recAt_ahead hij]
  rfl

/-- The survivors at the front, with one more behind them. -/
theorem ListInv.done_put {i : Nat} {st : ListScan} (h : ListInv mem l cmp recs i st)
    {addr : Nat} (memPtr : Buf) (haddr : addr < 2 ^ 64) :
    (List.range (st.newCount + 1)).map (l.recAt (l.putRec st.recs i st.newCount addr memPtr)) =
      (List.range st.newCount).map (l.recAt st.recs) ++
        [⟨addr, slice memPtr 0 l.valueLength, if l.hasPrev then (l.recAt recs i).cur else [],
          (l.recAt recs i).first⟩] := by
  have hfront : (List.range st.newCount).map (l.recAt (l.putRec st.recs i st.newCount addr memPtr)) =
      (List.range st.newCount).map (l.recAt st.recs) := by
    apply List.map_congr_left
    intro j hj
    rw [l.putRec_eq]
    exact l.recAt_fields_before (List.mem_range.mp hj)
  rw [List.range_succ, List.map_append, List.map_singleton, l.recAt_putRec _ _ haddr,
    h.recAt_ahead (Nat.le_refl i), hfront]

/-- The records that are left after one more turn. -/
theorem ListInv.done_succ {i : Nat} {st : ListScan} (h : ListInv mem l cmp recs i st) :
    ((List.range (i + 1)).map (l.recAt recs)).filterMap (Rec.recount mem l.valueLength l.hasPrev cmp) =
      (List.range st.newCount).map (l.recAt st.recs) ++
        (Rec.recount mem l.valueLength l.hasPrev cmp (l.recAt recs i)).toList := by
  have hone : [l.recAt recs i].filterMap (Rec.recount mem l.valueLength l.hasPrev cmp) =
      (Rec.recount mem l.valueLength l.hasPrev cmp (l.recAt recs i)).toList := by
    cases hr : Rec.recount mem l.valueLength l.hasPrev cmp (l.recAt recs i) <;> simp [hr]
  rw [List.range_succ, List.map_append, List.filterMap_append, h.done, List.map_singleton, hone]

/-- The addresses that the window may grow over do not wrap. -/
theorem ListInv.rest_wrap {n i : Nat} {st : ListScan} (h : ListInv mem l cmp recs i st)
    (hwrap : ∀ j < n, (l.recAt recs j).addr + l.valueLength < 2 ^ 64) :
    ∀ b ∈ (List.range' (i + 1) (n - (i + 1))).map (l.addrAt st.recs), b + l.valueLength < 2 ^ 64 := by
  intro b hb
  obtain ⟨j, hj, rfl⟩ := List.mem_map.mp hb
  obtain ⟨hle, hlt⟩ := List.mem_range'_1.mp hj
  have hij : i ≤ j := by omega
  rw [h.addrAt_ahead hij]
  exact hwrap j (by omega)

/-- The window of record `i` shows its fresh bytes. -/
theorem ListInv.listWindow_eq (actx : Option (AliasEngine mem)) {n i : Nat} {st : ListScan}
    (h : ListInv mem l cmp recs i st) (hv : l.valueLength ≤ 0x1000) (hi : i < n)
    (hwrap : ∀ j < n, (l.recAt recs j).addr + l.valueLength < 2 ^ 64) :
    listWindow l actx n st i = freshAt mem l.valueLength (l.recAt recs i).addr := by
  have haddr : l.addrAt st.recs i = (l.recAt recs i).addr := h.addrAt_ahead (Nat.le_refl i)
  have ha := hwrap i hi
  rw [← haddr] at ha
  obtain ⟨hshow, hcov⟩ := turbo_fetch_spec actx hv st.memBuf ha (h.rest_wrap hwrap) h.shows
  rw [listWindow, slice_view_zero, Server.slice_of_covers hshow hcov, haddr, slice_readMem_zero, freshAt]

/-- **One turn of the loop** keeps the invariant. -/
theorem ListInv.step (actx : Option (AliasEngine mem)) {n i : Nat} {st : ListScan}
    (h : ListInv mem l cmp recs i st) (hv : l.valueLength ≤ 0x1000) (hi : i < n)
    (hwrap : ∀ j < n, (l.recAt recs j).addr + l.valueLength < 2 ^ 64) :
    ListInv mem l cmp recs (i + 1) (listStep l actx cmp n st i) := by
  -- the addresses the turn looks at are those of the original array
  have haddr : l.addrAt st.recs i = (l.recAt recs i).addr := h.addrAt_ahead (Nat.le_refl i)
  have hcur : slice st.recs (i * l.recSize + 8) l.valueLength = (l.recAt recs i).cur := by
    rw [← h.recAt_ahead (Nat.le_refl i)]
    rfl
  have hrest := h.rest_wrap hwrap
  have ha := hwrap i hi
  rw [← haddr] at ha
  obtain ⟨hshow, hcov⟩ := turbo_fetch_spec actx hv st.memBuf ha hrest h.shows
  have hsizes : ∀ r ∈ (if (turboServer actx l.valueLength).misses st.win (l.addrAt st.recs i) then
      st.reads ++ [(l.addrAt st.recs i, (turboServer actx l.valueLength).grow (l.addrAt st.recs i)
        ((List.range' (i + 1) (n - (i + 1))).map (l.addrAt st.recs)) - l.addrAt st.recs i)]
      else st.reads), l.valueLength ≤ r.2 ∧ r.2 ≤ rescanWinCap := by
    intro r hr
    split at hr
    · rcases List.mem_append.mp hr with hr | hr
      · exact h.sizes r hr
      · obtain ⟨h1, h2⟩ := turboServer_grow actx hv ha hrest
        rw [List.mem_singleton.mp hr]
        exact ⟨by simp only; omega, by simp only; omega⟩
    · exact h.sizes r hr
  have hahead : ∀ x, (i + 1) * l.recSize ≤ x → i * l.recSize ≤ x := fun x hx =>
    Nat.le_trans (Nat.mul_le_mul_right _ (Nat.le_succ i)) hx
  simp only [listStep]
  generalize (turboServer actx l.valueLength).fetch (l.addrAt st.recs i)
    ((List.range' (i + 1) (n - (i + 1))).map (l.addrAt st.recs)) st.win st.memBuf = f at hshow hcov ⊢
  have hfresh : slice (view f.1.base (l.addrAt st.recs i - f.1.start)) 0 l.valueLength =
      slice (readMem mem (l.recAt recs i).addr) 0 l.valueLength := by
    rw [slice_view_zero, Server.slice_of_covers hshow hcov, haddr, slice_readMem_zero]
  simp only [hfresh, hcur]
  split
  · next hmatch =>
    have hle := h.le
    refine ⟨by simp only; omega, fun x hx => ?_, ?_, hshow, hsizes⟩
    · rw [← h.ahead x (hahead x hx)]
      rw [l.putRec_eq]
      refine l.fields_outside (.inr (Nat.le_trans (Nat.mul_le_mul_right _ ?_) hx))
      omega
    · rw [h.done_succ, h.done_put _ (by omega), hfresh, haddr]
      simp only [Rec.recount, hmatch, if_true, Option.toList_some]
  · next hmatch =>
    refine ⟨Nat.le_succ_of_le h.le, fun x hx => h.ahead x (hahead x hx), ?_, hshow, hsizes⟩
    rw [h.done_succ]
    simp only [Rec.recount, hmatch, Bool.false_eq_true, if_false, Option.toList_none, List.append_nil]

end Compaction

/-- **A whole resident COUNT** keeps the invariant, turn after turn. -/
theorem listLoop_inv {mem : Memory} {l : Layout} (actx : Option (AliasEngine mem))
    (cmp : List Byte → List Byte → Bool) (recs memBuf : Buf) {n : Nat} (hv : l.valueLength ≤ 0x1000)
    (hwrap : ∀ j < n, (l.recAt recs j).addr + l.valueLength < 2 ^ 64) :
    ∀ k ≤ n, ListInv mem l cmp recs k (listLoop l actx cmp n k recs memBuf) := by
  intro k
  induction k with
  | zero => intro _; exact listInv_zero mem l cmp recs memBuf
  | succ k ih =>
    intro hk
    have h := (ih (by omega)).step actx hv hk hwrap
    rwa [listLoop, List.range_succ, List.foldl_append] at *

/-- A resident COUNT filters the records of the session pointwise. -/
theorem records_listRescan {mem : Memory} (actx : Option (AliasEngine mem))
    (cmp : List Byte → List Byte → Bool) {s : ListSession} (memBuf : Buf)
    (hv : s.layout.valueLength ≤ 0x1000)
    (hwrap : ∀ r ∈ s.records, r.addr + s.layout.valueLength < 2 ^ 64) :
    (listRescan actx cmp s memBuf).records =
      s.records.filterMap (Rec.recount mem s.layout.valueLength s.layout.hasPrev cmp) :=
  (listLoop_inv actx cmp s.buf memBuf hv
    (fun j hj => hwrap _ (List.mem_map.mpr ⟨j, List.mem_range.mpr hj, rfl⟩)) s.count
    (Nat.le_refl _)).done

/-! ## Both turbo rescans -/

/-- The typed comparator of the turbo handler decides what the generic one does. -/
theorem turboCompare_eq {p : CountPass} (hlen : sizeOfValueType p.vt ≠ 0 → p.valueLength = sizeOfValueType p.vt)
    (w own : List Byte) : p.turboCompare w (p.prevFor own) = p.compare w (p.prevFor own) := by
  rw [CountPass.turboCompare]
  split
  · next hsup =>
    have hsize : p.valueLength = sizeOfValueType p.vt := by
      refine hlen fun h0 => ?_
      cases hv : p.vt <;> simp_all [sizeOfValueType, pointTurboSupported]
    rw [CountPass.compare, hsize]
    refine (pointCompare_eq hsup _ _ _ p.mask).trans ?_
    -- where the typed comparator reads a previous value there is one
    refine compareValues_unused (fun _ => rfl) (fun hp => ?_) _ _ _ _
    have hprev : p.ct.needsPrevious = true := by
      rcases hp with hp | hp
      · exact hp
      · rw [hp] at hsup
        cases hvt : p.vt <;> simp [pointTurboSupported, hvt] at hsup
    have hsome : p.prevFor own = some own := if_pos hprev
    rw [hsome]
    rfl
  · rfl

/-- The windows of a client-driven turbo rescan show memory. -/
theorem turbo_candidateWindows {p : CountPass} (hv : p.valueLength ≤ 0x1000) {mem : Memory}
    (actx : Option (AliasEngine mem)) {base : Nat} {chunk : List Byte} (memBuf : Buf)
    (hwrap : ∀ e ∈ p.entries chunk, base + e.offset + p.valueLength < 2 ^ 64) :
    candidateWindows (turboServer actx p.valueLength) p base chunk memBuf =
      (p.entries chunk).map fun e => freshAt mem p.valueLength (base + e.offset) := by
  rw [candidateWindows, map_candidateAddr hwrap]
  refine (turbo_serve_eq actx hv (List.forall_mem_map.mpr hwrap) memBuf).trans ?_
  rw [List.map_map]
  apply List.map_congr_left
  intro e _
  exact slice_readMem_zero mem _ _

/-- Every read of a turbo rescan is at least a value and at most the buffer. -/
theorem turbo_reads_bounds {mem : Memory} (actx : Option (AliasEngine mem)) {v : Nat} (hv : v ≤ 0x1000)
    {as : List Nat} (has : ∀ a ∈ as, a + v < 2 ^ 64) (w : Window) (memBuf : Buf) :
    ∀ r ∈ (turboServer actx v).reads as w memBuf, v ≤ r.2 ∧ r.2 ≤ rescanWinCap := by
  intro r hr
  obtain ⟨a, rest, hsuf, rfl⟩ := Server.mem_reads _ as w memBuf r hr
  have hsub := hsuf.subset
  obtain ⟨h1, h2⟩ := turboServer_grow actx hv (has a (hsub (List.mem_cons_self ..)))
    fun b hb => has b (hsub (List.mem_cons_of_mem _ hb))
  exact ⟨by simp only; omega, by simp only; omega⟩

/-- The comparator that the turbo handler calls dereferences the null pattern for this value. -/
def CountPass.ReadsNull (p : CountPass) (w : List Byte) : Prop := (p.turboCall w).ReadsNull p.comparing

instance (p : CountPass) (w : List Byte) : Decidable (p.ReadsNull w) :=
  inferInstanceAs (Decidable ((p.turboCall w).ReadsNull p.comparing))

/-- A client-driven chunk is answered pointwise, or not at all. -/
theorem turboCountChunk_iff {cp : ScanCountPacket} {data maskData : List Byte} {p : CountPass}
    (hp : prepareCount cp data maskData = some p) {mem : Memory} (actx : Option (AliasEngine mem)) {base : Nat}
    {chunk : List Byte} (memBuf : Buf)
    (hwrap : ∀ e ∈ p.entries chunk, base + e.offset + p.valueLength < 2 ^ 64) :
    turboCountChunk actx base p chunk memBuf = some (pointwise mem base p (p.entries chunk)) ↔
      ∀ e ∈ p.entries chunk, ¬ p.ReadsNull (freshAt mem p.valueLength (base + e.offset)) := by
  obtain ⟨hv, hlen⟩ := prepareCount_length hp
  rw [turboCountChunk]
  simp only [turbo_candidateWindows hv actx memBuf hwrap]
  have hlives : p.Lives p.turboCall ((p.entries chunk).map fun e => freshAt mem p.valueLength (base + e.offset)) ↔
      ∀ e ∈ p.entries chunk, ¬ p.ReadsNull (freshAt mem p.valueLength (base + e.offset)) := List.forall_mem_map
  rw [zip_filter_pointwise mem base p _ (turboCompare_eq hlen), ← hlives]
  split
  · next h => exact iff_of_true rfl h
  · next h => exact iff_of_false (fun hsome => by cases hsome) h

/-- So is a resident COUNT on a LIST session. -/
theorem listServe_iff {cp : ScanCountPacket} {data maskData : List Byte} {p : CountPass}
    (hp : prepareCount cp data maskData = some p) {mem : Memory} (actx : Option (AliasEngine mem))
    {s : ListSession} (memBuf : Buf) (hs : s.layout.valueLength = p.valueLength)
    (hwrap : ∀ r ∈ s.records, r.addr + p.valueLength < 2 ^ 64) :
    ((∃ s' ∈ listServe actx p s memBuf, s'.records =
        s.records.filterMap (Rec.recount mem p.valueLength s.layout.hasPrev fun w cur =>
          p.compare w (p.prevFor cur))) ↔
      ∀ r ∈ s.records, ¬ p.ReadsNull (freshAt mem p.valueLength r.addr)) := by
  obtain ⟨hv, hlen⟩ := prepareCount_length hp
  rw [← hs] at hv hwrap
  have hwrap' : ∀ j < s.count, (s.layout.recAt s.buf j).addr + s.layout.valueLength < 2 ^ 64 :=
    fun j hj => hwrap _ (List.mem_map.mpr ⟨j, List.mem_range.mpr hj, rfl⟩)
  have hwindows : listWindows actx p.residentCompare s memBuf =
      s.records.map fun r => freshAt mem p.valueLength r.addr := by
    rw [listWindows, ListSession.records, List.map_map, ← hs]
    apply List.map_congr_left
    intro i hi
    have hi := List.mem_range.mp hi
    exact (listLoop_inv actx _ s.buf memBuf hv hwrap' i (Nat.le_of_lt hi)).listWindow_eq actx hv hi hwrap'
  have hcmp : p.residentCompare = fun w cur => p.compare w (p.prevFor cur) := by
    funext w cur
    exact turboCompare_eq hlen w cur
  have hlives : p.Lives p.turboCall (s.records.map fun r => freshAt mem p.valueLength r.addr) ↔
      ∀ r ∈ s.records, ¬ p.ReadsNull (freshAt mem p.valueLength r.addr) := List.forall_mem_map
  have hrecords : (listCount actx p s memBuf).records = s.records.filterMap
      (Rec.recount mem p.valueLength s.layout.hasPrev fun w cur => p.compare w (p.prevFor cur)) := by
    rw [listCount, if_pos hs, records_listRescan actx _ memBuf hv hwrap, hcmp, hs]
  rw [listServe, hwindows, ← hlives]
  split
  · next h => exact iff_of_false (fun ⟨_, hsome, _⟩ => by cases hsome) h.2
  · next h => exact iff_of_true ⟨_, rfl, hrecords⟩ (not_not.mp fun hn => h ⟨hs, hn⟩)

/-- **Turbo rescans are pointwise**, client-driven or on a LIST session, exactly when no comparator
dereferences a null pattern: every candidate is compared with the fresh bytes at its own address and its own
previous value. No read is smaller than a value or larger than the buffer, whatever the pattern. -/
theorem turbo_rescans_pointwise {cp : ScanCountPacket} {data maskData : List Byte} {p : CountPass}
    (hp : prepareCount cp data maskData = some p) {mem : Memory} (actx : Option (AliasEngine mem)) (memBuf : Buf) :
    (∀ chunk : List Byte,
      (∀ e ∈ p.entries chunk, cp.base_address.toNat + e.offset + p.valueLength < 2 ^ 64) →
      (turboCountChunk actx cp.base_address.toNat p chunk memBuf =
          some (pointwise mem cp.base_address.toNat p (p.entries chunk)) ↔
        ∀ e ∈ p.entries chunk, ¬ p.ReadsNull (freshAt mem p.valueLength (cp.base_address.toNat + e.offset))) ∧
      ∀ r ∈ (turboServer actx p.valueLength).reads ((p.entries chunk).map
          (candidateAddr cp.base_address.toNat)) (noWindow memBuf) memBuf,
        p.valueLength ≤ r.2 ∧ r.2 ≤ rescanWinCap) ∧
    (∀ s : ListSession, s.layout.valueLength = p.valueLength →
      (∀ r ∈ s.records, r.addr + p.valueLength < 2 ^ 64) →
      ((∃ s' ∈ listServe actx p s memBuf, s'.records =
          s.records.filterMap (Rec.recount mem p.valueLength s.layout.hasPrev fun w cur =>
            p.compare w (p.prevFor cur))) ↔
        ∀ r ∈ s.records, ¬ p.ReadsNull (freshAt mem p.valueLength r.addr)) ∧
      ∀ r ∈ (listLoop s.layout actx p.residentCompare s.count s.count s.buf memBuf).reads,
        p.valueLength ≤ r.2 ∧ r.2 ≤ rescanWinCap) := by
  obtain ⟨hv, -⟩ := prepareCount_length hp
  refine ⟨fun chunk hwrap => ⟨turboCountChunk_iff hp actx memBuf hwrap, ?_⟩,
    fun s hlen hwrap => ⟨listServe_iff hp actx memBuf hlen hwrap, ?_⟩⟩
  · rw [map_candidateAddr hwrap]
    exact turbo_reads_bounds actx hv (List.forall_mem_map.mpr hwrap) _ _
  · rw [← hlen] at hv hwrap ⊢
    exact (listLoop_inv actx _ s.buf memBuf hv
      (fun j hj => hwrap _ (List.mem_map.mpr ⟨j, List.mem_range.mpr hj, rfl⟩)) s.count
      (Nat.le_refl _)).sizes

/-- Two records of four bytes, previous and first value kept, both at address 0. -/
def twoZeroRecords : ListSession := ⟨⟨4, true, true⟩, fun _ => 0, 2⟩

/-- An exact rescan of four-byte values from 0x1000 on, with so long a pattern. -/
def wordCount (lenData : UInt32) : ScanCountPacket :=
  { pid := 1, base_address := 0x1000, valueType := 4, compareType := 0, lenData }

/-- Overlapping candidates of a chunk, duplicate records of a session. -/
theorem turbo_rescans_pointwise_overlap : ∃ p, prepareCount (wordCount 4) [1, 1, 1, 1] [] = some p ∧
    turboCountChunk (none : Option (AliasEngine fun _ => 1)) (wordCount 4).base_address.toNat p
        [0, 0, 0, 0, 2, 0, 0, 0] (fun _ => 0) =
      some (pointwise (fun _ => 1) (wordCount 4).base_address.toNat p (p.entries [0, 0, 0, 0, 2, 0, 0, 0])) ∧
    ∃ s' ∈ listServe (none : Option (AliasEngine fun _ => 1)) p twoZeroRecords (fun _ => 0), s'.records =
      twoZeroRecords.records.filterMap (Rec.recount (fun _ => 1) p.valueLength true fun w cur =>
        p.compare w (p.prevFor cur)) := by
  refine ⟨_, rfl, ?_⟩
  have h := @turbo_rescans_pointwise (wordCount 4) [1, 1, 1, 1] [] _ rfl _
    (none : Option (AliasEngine fun _ => 1)) (fun _ => 0)
  exact ⟨(h.1 _ (by decide)).1.mpr (by decide), (h.2 twoZeroRecords rfl (by decide)).1.mpr (by decide)⟩

/-- Without a pattern the first candidate is the end of the handler. -/
theorem turbo_rescan_reads_null : ∃ p, prepareCount (wordCount 0) [] [] = some p ∧
    turboCountChunk (none : Option (AliasEngine fun _ => 1)) (wordCount 0).base_address.toNat p
        [0, 0, 0, 0] (fun _ => 0) ≠
      some (pointwise (fun _ => 1) (wordCount 0).base_address.toNat p (p.entries [0, 0, 0, 0])) :=
  ⟨_, rfl, by decide⟩

end Ps5Debugger
