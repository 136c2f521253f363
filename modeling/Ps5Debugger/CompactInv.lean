import Ps5Debugger.CompactResults
import Ps5Debugger.Lib.Records

/-!
# What a `CompactScanResults` represents

`Represents fs r L`: object `r` over the files `fs` represents the list `L` of offsets and values.
The first 10000 items are found in the arrays; a longer list has a file whose bytes, those still in
the stream included, are the records of all items; what is cached is a piece of that file. Every
method keeps it, as long as an `add` is `AddOk`.

`Own` is the frame: a method touches its object's file, and a new one may come into being.
-/

namespace Ps5Debugger

open Lib

namespace CompactScanResults

/-- An element of the list. -/
abbrev Item : Type := Offset × List Byte

/-- The record of an item, in a file of records of one length. -/
def record (x : Item) : List Byte := longBytes x.1 ++ x.2

/-- Where the value of item `i` lies in `memValues`, and its length. -/
def place (r : Results) (i : Nat) : Nat × Nat :=
  if 0 < r.uniformLen then (i * r.uniformLen.toNat, r.uniformLen.toNat)
  else (r.memValueOffsets.get i, r.memValueLengths.get i)

theorem place_uniform {r : Results} (h : 0 < r.uniformLen) (i : Nat) :
    place r i = (i * r.uniformLen.toNat, r.uniformLen.toNat) :=
  if_pos h

theorem place_variable {r : Results} (h : ¬ 0 < r.uniformLen) (i : Nat) :
    place r i = (r.memValueOffsets.get i, r.memValueLengths.get i) :=
  if_neg h

/-- The bytes of file `f`, those still in the stream included. -/
def stored (fs : Files) (r : Results) (f : Nat) : List Byte :=
  fs.read f ++ (r.diskWriter.map Writer.pending).getD []

/-- The arrays hold the first items of `L`. -/
structure Mem (r : Results) (L : List Item) : Prop where
  empty : L = [] → r.memTotalBytes = 0
  offsetsRoom : min L.length MAX_MEM_ITEMS ≤ r.memOffsets.size
  offsets : ∀ i x, i < MAX_MEM_ITEMS → L[i]? = some x → r.memOffsets.get i = x.1
  arrays : r.memValueLengths.size = r.memValueOffsets.size
  variableRoom : ¬ 0 < r.uniformLen → min L.length MAX_MEM_ITEMS ≤ r.memValueOffsets.size
  total : r.memTotalBytes ≤ r.memValues.size
  uniformTotal : 0 < r.uniformLen → r.memTotalBytes = min L.length MAX_MEM_ITEMS * r.uniformLen.toNat
  values : ∀ i x, i < MAX_MEM_ITEMS → L[i]? = some x →
    (place r i).1 + (place r i).2 ≤ r.memTotalBytes ∧ (place r i).2 = x.2.length ∧
      r.memValues.range (place r i).1 (place r i).2 = x.2

/-- The file holds the records of a long `L`, and the cache a piece of them. -/
structure Disk (fs : Files) (r : Results) (L : List Item) : Prop where
  small : L.length ≤ MAX_MEM_ITEMS → r.tempFile = none
  large : MAX_MEM_ITEMS < L.length → ∃ f, r.tempFile = some f ∧ (fs.data f).isSome = true ∧
    stored fs r f = L.flatMap record ∧ ∀ x ∈ L, (x.2.length : Int) = r.uniformLen
  writer : ∀ w, r.diskWriter = some w → r.tempFile = some w.file
  reader : ∀ g, r.diskReader = some g → r.tempFile = some g
  cache : ∀ i : Nat, cached r i = true → ∃ x b, L[i]? = some x ∧ r.readCacheBuf = some b ∧
    cachedRecord r b r.diskRecordLen.toNat i = x
  cacheRoom : MAX_MEM_ITEMS < L.length → ∀ b, r.readCacheBuf = some b →
    min READ_BUF_RECORDS (L.length - MAX_MEM_ITEMS) * r.diskRecordLen.toNat ≤ b.size

/-- Object `r` represents the list `L`. -/
structure Represents (fs : Files) (r : Results) (L : List Item) : Prop where
  size : r.size = L.length
  last : ∀ x, L.getLast? = some x → r.lastOffset = x.1
  layout : L ≠ [] → 0 ≤ r.uniformLen ∧ r.diskRecordLen = 8 + r.uniformLen
  uniform : 0 < r.uniformLen → ∀ x ∈ L, (x.2.length : Int) = r.uniformLen
  mem : Mem r L
  disk : Disk fs r L

/-- From `fs` to `fs'` only the file of the object changes, and its file after is the one before or
a new one. -/
structure Own (fs fs' : Files) (r r' : Results) : Prop where
  next : fs.next ≤ fs'.next
  others : ∀ f, f < fs.next → r.tempFile ≠ some f → fs'.data f = fs.data f
  file : ∀ f, r'.tempFile = some f → r.tempFile = some f ∨ (fs.next ≤ f ∧ f < fs'.next)

variable {fs fs' fs'' : Files} {r r' r'' : Results} {L : List Item}

theorem Own.refl (h : r'.tempFile = r.tempFile ∨ r'.tempFile = none) : Own fs fs r r' where
  next := le_refl _
  others := fun _ _ _ => rfl
  file := fun f hf => by
    rcases h with h | h
    · exact .inl (h ▸ hf)
    · rw [h] at hf
      cases hf

theorem Own.trans (h : Own fs fs' r r') (h' : Own fs' fs'' r' r'') : Own fs fs'' r r'' where
  next := h.next.trans h'.next
  others := fun f hlt hne => by
    rw [h'.others f (hlt.trans_le h.next), h.others f hlt hne]
    intro hf
    rcases h.file f hf with hf | hf
    · exact hne hf
    · omega
  file := fun f hf => by
    have := h'.next
    have := h.next
    rcases h'.file f hf with hf | hf
    · rcases h.file f hf with hf | hf
      · exact .inl hf
      · exact .inr (by omega)
    · exact .inr (by omega)

/-- What another object does to its own file does not concern this one. -/
theorem Represents.congr (h : Represents fs r L)
    (hdata : ∀ f, r.tempFile = some f → fs'.data f = fs.data f) : Represents fs' r L where
  size := h.size
  last := h.last
  layout := h.layout
  uniform := h.uniform
  mem := h.mem
  disk := {
    small := h.disk.small
    large := fun hlen => by
      obtain ⟨f, hf, hsome, hbytes, hu⟩ := h.disk.large hlen
      refine ⟨f, hf, by rw [hdata f hf]; exact hsome, ?_, hu⟩
      rw [← hbytes, stored, stored, Files.read, Files.read, hdata f hf]
    writer := h.disk.writer
    reader := h.disk.reader
    cache := h.disk.cache
    cacheRoom := h.disk.cacheRoom }

/-! ## Values in memory -/

theorem getMemValueBytes_eq (h : Represents fs r L) {i : Nat} {x : Item} (hi : i < MAX_MEM_ITEMS)
    (hx : L[i]? = some x) : getMemValueBytes r i = x.2 := by
  have hlt : i < L.length := (List.getElem?_eq_some_iff.mp hx).1
  obtain ⟨hin, _, hval⟩ := h.mem.values i x hi hx
  have htotal := h.mem.total
  rw [getMemValueBytes, if_neg (not_not.mpr (by rw [h.size]; omega))]
  by_cases hu : 0 < r.uniformLen
  · rw [place_uniform hu] at hin hval
    rw [if_pos hu]
    dsimp only at hin hval ⊢
    rw [if_pos (by omega), hval]
  · have hroom := h.mem.variableRoom hu
    have harr := h.mem.arrays
    rw [place_variable hu] at hin hval
    rw [if_neg hu, if_pos (by omega)]
    dsimp only at hin hval ⊢
    rw [if_pos (by omega), hval]

/-! ## Records -/

theorem longOf_longBytes (x : Offset) : longOf (longBytes x) = x := by
  rw [longOf, longBytes, List.reverse_reverse, leNat_leBytes,
    Nat.mod_eq_of_lt (by have := x.isLt; omega), BitVec.ofNat_toNat, BitVec.setWidth_eq]

@[simp] theorem length_longBytes (x : Offset) : (longBytes x).length = 8 := by
  rw [longBytes, List.length_reverse, length_leBytes]

@[simp] theorem length_record (x : Item) : (record x).length = 8 + x.2.length := by
  rw [record, List.length_append, length_longBytes]

theorem recordBytes_eq {n : Int} (hn : 0 < n) (x : Item) : recordBytes n x.1 x.2 = record x := by
  rw [recordBytes, if_neg (by omega), List.append_nil, record]

/-- Reading back a record. -/
theorem decode_record {b : Buf} {pos n : Nat} {x : Item} (hx : slice b pos n = record x)
    (hn : 8 + x.2.length = n) : (longOf (slice b pos 8), slice b (pos + 8) (n - 8)) = x := by
  have hsplit := slice_append_slice b pos 8 (n - 8)
  rw [Nat.add_sub_cancel' (by omega), hx, record] at hsplit
  obtain ⟨hoff, hval⟩ := List.append_inj hsplit (by rw [length_longBytes, length_slice])
  rw [← hoff, ← hval, longOf_longBytes]

/-! ## The stream and the file -/

theorem read_append {f : Nat} {bytes : List Byte} (h : (fs.data f).isSome = true) :
    (fs.append f bytes).read f = fs.read f ++ bytes := by
  obtain ⟨content, hc⟩ := Option.isSome_iff_exists.mp h
  simp [Files.append, Files.read, hc]

theorem data_append_ne {f g : Nat} (h : g ≠ f) (bytes : List Byte) :
    (fs.append f bytes).data g = fs.data g := by
  simp [Files.append, h]

theorem isSome_append {f g : Nat} (h : (fs.data g).isSome = true) (bytes : List Byte) :
    ((fs.append f bytes).data g).isSome = true := by
  by_cases hg : g = f
  · subst hg
    simpa [Files.append] using h
  · rw [data_append_ne hg]
    exact h

/-- A change of the stream and the files that keeps the bytes of the object's file. -/
theorem Represents.restream (h : Represents fs r L) {w : Option Writer}
    (hwriter : ∀ v, w = some v → r.tempFile = some v.file)
    (hsome : ∀ f, r.tempFile = some f → (fs.data f).isSome = true → (fs'.data f).isSome = true)
    (hbytes : ∀ f, r.tempFile = some f → (fs.data f).isSome = true →
      fs'.read f ++ (w.map Writer.pending).getD [] = stored fs r f) :
    Represents fs' { r with diskWriter := w } L where
  size := h.size
  last := h.last
  layout := h.layout
  uniform := h.uniform
  mem := ⟨h.mem.empty, h.mem.offsetsRoom, h.mem.offsets, h.mem.arrays, h.mem.variableRoom, h.mem.total,
    h.mem.uniformTotal, h.mem.values⟩
  disk := {
    small := h.disk.small
    large := fun hlen => by
      obtain ⟨f, hf, hs, hb, hu⟩ := h.disk.large hlen
      exact ⟨f, hf, hsome f hf hs, (hbytes f hf hs).trans hb, hu⟩
    writer := hwriter
    reader := h.disk.reader
    cache := h.disk.cache
    cacheRoom := h.disk.cacheRoom }

theorem own_append {f : Nat} (h : r.tempFile = some f) (bytes : List Byte) (h' : r'.tempFile = r.tempFile) :
    Own fs (fs.append f bytes) r r' where
  next := le_refl _
  others := fun g _ hne => data_append_ne (fun e => hne (by rw [e, h])) bytes
  file := fun g hg => .inl (h' ▸ hg)

@[simp] theorem flushDiskWriter_tempFile : (flushDiskWriter fs r).2.tempFile = r.tempFile := by
  unfold flushDiskWriter
  split <;> rfl

/-- A flush moves bytes from the stream into the file. -/
theorem flush_spec (h : Represents fs r L) :
    Represents (flushDiskWriter fs r).1 (flushDiskWriter fs r).2 L ∧
      Own fs (flushDiskWriter fs r).1 r (flushDiskWriter fs r).2 ∧
      ∀ f, stored (flushDiskWriter fs r).1 (flushDiskWriter fs r).2 f = (flushDiskWriter fs r).1.read f := by
  unfold flushDiskWriter
  cases hw : r.diskWriter with
  | none =>
    refine ⟨h, Own.refl (.inl rfl), fun f => ?_⟩
    simp [stored, hw]
  | some w =>
    have hf := h.disk.writer w hw
    dsimp only
    refine ⟨h.restream (fun v hv => ?_) (fun g _ hs => isSome_append hs _) (fun g hg hs => ?_),
      own_append hf _ rfl, fun f => ?_⟩
    · cases hv
      exact hf
    · obtain rfl : g = w.file := Option.some.inj (hg.symm.trans hf)
      rw [read_append hs, stored, hw]
      simp
    · simp [stored]

/-- The file of a long list, after a flush. -/
theorem flushed_file (h : Represents fs r L) (hlen : MAX_MEM_ITEMS < L.length) :
    ∃ f, r.tempFile = some f ∧ ((flushDiskWriter fs r).1.data f).isSome = true ∧
      (flushDiskWriter fs r).1.read f = L.flatMap record := by
  obtain ⟨hrep, _, hst⟩ := flush_spec h
  obtain ⟨f, hf, hs, hb, _⟩ := hrep.disk.large hlen
  rw [flushDiskWriter_tempFile] at hf
  exact ⟨f, hf, hs, by rw [← hst, hb]⟩

/-! ## Reading a record -/

/-- All records of a long list have the length `diskRecordLen`. -/
theorem record_length (h : Represents fs r L) (hlen : MAX_MEM_ITEMS < L.length) :
    0 < r.diskRecordLen ∧ ∀ x ∈ L, (record x).length = r.diskRecordLen.toNat := by
  obtain ⟨_, _, _, _, hu⟩ := h.disk.large hlen
  obtain ⟨hpos, hrec⟩ := h.layout (fun hnil => by rw [hnil] at hlen; exact absurd hlen (Nat.not_lt_zero _))
  refine ⟨by omega, fun x hx => ?_⟩
  have := hu x hx
  rw [length_record]
  omega

/-- Opening the reader and making the buffer change nothing of the list. -/
theorem Represents.prepare (h : Represents fs r L) (hlen : MAX_MEM_ITEMS < L.length) {f : Nat}
    (hf : r.tempFile = some f) :
    Represents fs { r with
      diskReader := some (r.diskReader.getD f)
      readCacheBuf := some (r.readCacheBuf.getD (.new 0 (READ_BUF_RECORDS * r.diskRecordLen.toNat))) } L where
  size := h.size
  last := h.last
  layout := h.layout
  uniform := h.uniform
  mem := ⟨h.mem.empty, h.mem.offsetsRoom, h.mem.offsets, h.mem.arrays, h.mem.variableRoom, h.mem.total,
    h.mem.uniformTotal, h.mem.values⟩
  disk := {
    small := h.disk.small
    large := h.disk.large
    writer := h.disk.writer
    reader := fun g hg => by
      cases hr : r.diskReader with
      | none =>
        rw [hr] at hg
        exact hf.trans hg
      | some g' =>
        rw [hr] at hg
        exact (h.disk.reader g' hr).trans hg
    cache := fun i hi => by
      obtain ⟨x, b, hx, hb, hrec⟩ := h.disk.cache i hi
      exact ⟨x, b, hx, by rw [hb]; rfl, hrec⟩
    cacheRoom := fun _ b hb => by
      cases hc : r.readCacheBuf with
      | none =>
        rw [hc] at hb
        cases hb
        exact Nat.mul_le_mul_right _ (Nat.min_le_left _ _)
      | some b' =>
        rw [hc] at hb
        exact h.disk.cacheRoom hlen b (hc.trans hb) }

/-- The records that fit into the buffer. -/
def piece (L : List Item) (i : Nat) : List Item := (L.drop i).take (min READ_BUF_RECORDS (L.length - i))

theorem getElem?_piece {i d : Nat} (hd : d < min READ_BUF_RECORDS (L.length - i)) :
    (piece L i)[d]? = L[i + d]? := by
  rw [piece, List.getElem?_take_of_lt hd, List.getElem?_drop]

theorem mem_of_mem_piece {i : Nat} {x : Item} (h : x ∈ piece L i) : x ∈ L :=
  List.mem_of_mem_drop (List.mem_of_mem_take h)

/-- The object with the cache filled from record `i` on. -/
def filled (r : Results) (b : Arr Byte) (L : List Item) (i : Nat) : Results :=
  { r with
    readCacheBuf := some (b.patch 0 ((piece L i).flatMap record))
    readCacheStartIdx := i
    readCacheEndIdx := i + (min READ_BUF_RECORDS (L.length - i) : Nat) }

theorem cached_filled {b : Arr Byte} {i k : Nat} :
    cached (filled r b L i) k = true ↔ i ≤ k ∧ k < i + min READ_BUF_RECORDS (L.length - i) := by
  rw [cached, Bool.and_eq_true, decide_eq_true_eq, decide_eq_true_eq, filled]
  dsimp only
  rw [← Int.natCast_add, Int.ofNat_le, Int.ofNat_lt]

/-- Filling the cache reads whole records, up to the end of the file or the 4096th. -/
theorem fillCache_eq (h : Represents fs r L) {f i : Nat} {b : Arr Byte} (hi : MAX_MEM_ITEMS ≤ i)
    (hlt : i < L.length) (hfile : fs.read f = L.flatMap record) (hb : r.readCacheBuf = some b) :
    fillCache fs r f b r.diskRecordLen.toNat i = filled r b L i := by
  have hlen : MAX_MEM_ITEMS < L.length := hi.trans_lt hlt
  obtain ⟨hpos, hrec⟩ := record_length h hlen
  have hroom := h.disk.cacheRoom hlen b hb
  generalize hn : r.diskRecordLen.toNat = n at hrec hroom ⊢
  have hnpos : 0 < n := by omega
  have hfl : (L.flatMap record).length = L.length * n := length_records hrec
  have hseek : ¬ (fs.read f).length ≤ i * n := by
    rw [hfile, hfl, not_le]
    exact Nat.mul_lt_mul_of_pos_right hlt hnpos
  have hread : min (READ_BUF_RECORDS * n) ((fs.read f).length - i * n) =
      min READ_BUF_RECORDS (L.length - i) * n := by
    rw [hfile, hfl, ← Nat.sub_mul, Nat.mul_min_mul_right]
  have hfit : ¬ b.size < min READ_BUF_RECORDS (L.length - i) * n := by
    rw [not_lt]
    exact (Nat.mul_le_mul_right n (min_le_min_left _ (Nat.sub_le_sub_left hi _))).trans hroom
  have hcount : min READ_BUF_RECORDS (L.length - i) * n / n = min READ_BUF_RECORDS (L.length - i) :=
    Nat.mul_div_cancel _ hnpos
  rw [fillCache]
  dsimp only
  rw [if_neg hseek, hread, if_neg hfit, hfile, drop_records hrec,
    take_records (fun y hy => hrec y (List.mem_of_mem_drop hy)), ← Int.natCast_ediv, hcount, filled, piece]

/-- A record of the filled buffer. -/
theorem cachedRecord_piece (hrec : ∀ x ∈ L, (record x).length = r.diskRecordLen.toNat) {i d : Nat} {x : Item}
    (b : Arr Byte) (hd : d < min READ_BUF_RECORDS (L.length - i)) (hx : L[i + d]? = some x)
    (hstart : r.readCacheStartIdx = i) :
    cachedRecord r (b.patch 0 ((piece L i).flatMap record)) r.diskRecordLen.toNat (i + d) = x := by
  have hpl : ∀ y ∈ piece L i, (record y).length = r.diskRecordLen.toNat :=
    fun y hy => hrec y (mem_of_mem_piece hy)
  have hxd : (piece L i)[d]? = some x := (getElem?_piece hd).trans hx
  have hdl : d + 1 ≤ (piece L i).length := (List.getElem?_eq_some_iff.mp hxd).1
  have hslice := slice_records hpl hxd
  have hpos : ((i + d : Nat) - r.readCacheStartIdx).toNat = d := by omega
  have hxlen : 8 + x.2.length = r.diskRecordLen.toNat := by
    rw [← length_record]
    exact hrec x (List.mem_of_getElem? hx)
  have hin : d * r.diskRecordLen.toNat + r.diskRecordLen.toNat ≤ ((piece L i).flatMap record).length := by
    rw [length_records hpl, ← Nat.succ_mul]
    exact Nat.mul_le_mul_right _ hdl
  have hcopied : slice (b.patch 0 ((piece L i).flatMap record)).get (d * r.diskRecordLen.toNat)
      r.diskRecordLen.toNat = record x := by
    rw [← hslice, ← Nat.zero_add (d * r.diskRecordLen.toNat), Nat.zero_add (d * r.diskRecordLen.toNat),
      ← Nat.zero_add (d * r.diskRecordLen.toNat)]
    exact (slice_blit_inside hin).trans (by rw [Nat.zero_add])
  rw [cachedRecord, hpos]
  exact decode_record hcopied hxlen

/-- Filling the cache from record `i` on: it then holds that record. -/
theorem fillCache_spec (h : Represents fs r L) {f i : Nat} {b : Arr Byte} {x : Item}
    (hi : MAX_MEM_ITEMS ≤ i) (hx : L[i]? = some x) (hfile : fs.read f = L.flatMap record)
    (hb : r.readCacheBuf = some b) :
    Represents fs (fillCache fs r f b r.diskRecordLen.toNat i) L ∧
      cached (fillCache fs r f b r.diskRecordLen.toNat i) i = true ∧
      (fillCache fs r f b r.diskRecordLen.toNat i).tempFile = r.tempFile := by
  have hlt : i < L.length := (List.getElem?_eq_some_iff.mp hx).1
  have hlen : MAX_MEM_ITEMS < L.length := hi.trans_lt hlt
  obtain ⟨_, hrec⟩ := record_length h hlen
  have hbuf : 0 < READ_BUF_RECORDS := by decide
  rw [fillCache_eq h hi hlt hfile hb]
  refine ⟨⟨h.size, h.last, h.layout, h.uniform,
    ⟨h.mem.empty, h.mem.offsetsRoom, h.mem.offsets, h.mem.arrays, h.mem.variableRoom, h.mem.total,
      h.mem.uniformTotal, h.mem.values⟩,
    ⟨h.disk.small, h.disk.large, h.disk.writer, h.disk.reader, ?_, ?_⟩⟩, ?_, rfl⟩
  · intro k hk
    obtain ⟨hge, hlt'⟩ := cached_filled.mp hk
    obtain ⟨d, rfl⟩ := Nat.exists_eq_add_of_le hge
    have hd : d < min READ_BUF_RECORDS (L.length - i) := Nat.lt_of_add_lt_add_left hlt'
    have hkL : i + d < L.length := by omega
    have hsame : (filled r b L i).diskRecordLen = r.diskRecordLen := rfl
    have hval := cachedRecord_piece (r := filled r b L i) (hsame ▸ hrec) b hd (List.getElem?_eq_getElem hkL) rfl
    exact ⟨L[i + d], _, List.getElem?_eq_getElem hkL, rfl, hval⟩
  · intro _ b' hb'
    rw [← Option.some.inj hb', Arr.size_patch]
    exact h.disk.cacheRoom hlen b hb
  · exact cached_filled.mpr ⟨le_refl i, by omega⟩

/-- A cached record is the item, whoever filled the cache. -/
theorem cachedRecord_eq (h : Represents fs r L) {i : Nat} {x : Item} (hx : L[i]? = some x)
    (hc : cached r i = true) (b : Arr Byte) :
    cachedRecord r (r.readCacheBuf.getD b) r.diskRecordLen.toNat i = x := by
  obtain ⟨y, b', hy, hb, hval⟩ := h.disk.cache i hc
  rw [hb, Option.getD_some, hval]
  exact Option.some.inj (hy.symm.trans hx)

theorem readCached_spec (h : Represents fs r L) {f i : Nat} {b : Arr Byte} {x : Item}
    (hi : MAX_MEM_ITEMS ≤ i) (hx : L[i]? = some x) (hfile : fs.read f = L.flatMap record)
    (hb : r.readCacheBuf = some b) :
    (readCached fs r f b r.diskRecordLen.toNat i).1 = x ∧
      (readCached fs r f b r.diskRecordLen.toNat i).2.1 = fs ∧
      Represents fs (readCached fs r f b r.diskRecordLen.toNat i).2.2 L ∧
      (readCached fs r f b r.diskRecordLen.toNat i).2.2.tempFile = r.tempFile := by
  unfold readCached
  by_cases hc : cached r i = true
  · rw [if_pos hc]
    dsimp only
    rw [if_pos hc]
    exact ⟨cachedRecord_eq h hx hc b, rfl, h, rfl⟩
  · obtain ⟨hfill, hin, hft⟩ := fillCache_spec h hi hx hfile hb
    have hfl : (fillCache fs r f b r.diskRecordLen.toNat i).diskRecordLen = r.diskRecordLen := by
      rw [fillCache_eq h hi (List.getElem?_eq_some_iff.mp hx).1 hfile hb]
      rfl
    have hval := cachedRecord_eq hfill hx hin b
    rw [hfl] at hval
    rw [if_neg hc]
    dsimp only
    rw [if_pos hin]
    exact ⟨hval, rfl, hfill, hft⟩

/-- Reading a record of the file. -/
theorem readDiskRecord_spec (h : Represents fs r L) {i : Nat} {x : Item} (hi : MAX_MEM_ITEMS ≤ i)
    (hx : L[i]? = some x) :
    (readDiskRecord fs r i).1 = x ∧
      Represents (readDiskRecord fs r i).2.1 (readDiskRecord fs r i).2.2 L ∧
      Own fs (readDiskRecord fs r i).2.1 r (readDiskRecord fs r i).2.2 := by
  have hlen : MAX_MEM_ITEMS < L.length := hi.trans_lt (List.getElem?_eq_some_iff.mp hx).1
  obtain ⟨f, hf, hs, hfile⟩ := flushed_file h hlen
  obtain ⟨hrep, hown, _⟩ := flush_spec h
  have htemp : (flushDiskWriter fs r).2.tempFile = some f := flushDiskWriter_tempFile.trans hf
  unfold readDiskRecord
  rw [hf]
  dsimp only
  generalize flushDiskWriter fs r = p at hrep hown hs hfile htemp ⊢
  obtain ⟨fs', r'⟩ := p
  dsimp only at hrep hown hs hfile htemp ⊢
  have hpos := (record_length hrep hlen).1
  have hreader : r'.diskReader.getD f = f := by
    cases hr : r'.diskReader with
    | none => rfl
    | some g => exact Option.some.inj ((hrep.disk.reader g hr).symm.trans htemp)
  obtain ⟨hval, hfs, hrep', ht⟩ := readCached_spec (hrep.prepare hlen htemp) hi hx hfile rfl
  rw [if_neg (by rw [Files.exists?, hs]; simp), if_neg (by omega), Option.getD_some, hreader]
  rw [hreader] at hval hfs hrep' ht
  exact ⟨hval, hfs.symm ▸ hrep', hfs.symm ▸ hown.trans (Own.refl (.inl ht))⟩

/-- `getOffset` is the offset in the list, `0` outside it. -/
theorem getOffset_spec (h : Represents fs r L) (i : Nat) :
    (getOffset fs r i).1 = ((L[i]?).map Prod.fst).getD 0 ∧
      Represents (getOffset fs r i).2.1 (getOffset fs r i).2.2 L ∧
      Own fs (getOffset fs r i).2.1 r (getOffset fs r i).2.2 := by
  unfold getOffset
  by_cases hlt : i < r.size
  · have hL : i < L.length := h.size ▸ hlt
    have hx : L[i]? = some L[i] := List.getElem?_eq_getElem hL
    rw [if_neg (not_not.mpr hlt)]
    by_cases hi : i < MAX_MEM_ITEMS
    · rw [if_pos hi, hx]
      exact ⟨h.mem.offsets i _ hi hx, h, Own.refl (.inl rfl)⟩
    · obtain ⟨hval, hrep, hown⟩ := readDiskRecord_spec h (not_lt.mp hi) hx
      rw [if_neg hi, hx]
      exact ⟨congrArg Prod.fst hval, hrep, hown⟩
  · rw [if_pos hlt, List.getElem?_eq_none (by rw [← h.size]; omega)]
    exact ⟨rfl, h, Own.refl (.inl rfl)⟩

/-- `getValueBytes` is the value in the list, empty outside it. -/
theorem getValueBytes_spec (h : Represents fs r L) (i : Nat) :
    (getValueBytes fs r i).1 = ((L[i]?).map Prod.snd).getD [] ∧
      Represents (getValueBytes fs r i).2.1 (getValueBytes fs r i).2.2 L ∧
      Own fs (getValueBytes fs r i).2.1 r (getValueBytes fs r i).2.2 := by
  unfold getValueBytes
  by_cases hlt : i < r.size
  · have hL : i < L.length := h.size ▸ hlt
    have hx : L[i]? = some L[i] := List.getElem?_eq_getElem hL
    rw [if_neg (not_not.mpr hlt)]
    by_cases hi : i < MAX_MEM_ITEMS
    · rw [if_pos hi, hx]
      exact ⟨getMemValueBytes_eq h hi hx, h, Own.refl (.inl rfl)⟩
    · obtain ⟨hval, hrep, hown⟩ := readDiskRecord_spec h (not_lt.mp hi) hx
      rw [if_neg hi, hx]
      exact ⟨congrArg Prod.snd hval, hrep, hown⟩
  · rw [if_pos hlt, List.getElem?_eq_none (by rw [← h.size]; omega)]
    exact ⟨rfl, h, Own.refl (.inl rfl)⟩

end CompactScanResults

end Ps5Debugger
