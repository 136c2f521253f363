import Ps5Debugger.CompactInv

/-!
# Adding to a `CompactScanResults`

`AddOk` is the condition under which `add` does what the list does. The layout must stay: a value of
another length would turn the arrays of a uniform layout into those of a variable one without moving
what they hold. A spilled list must have a stream to write to, values that a record of one length
can carry, and a read buffer that was not made for shorter records.
-/

namespace Ps5Debugger

open Lib

namespace CompactScanResults

/-- Appending to the list, but for an item with the offset of the last one. -/
def appendItem (L : List Item) (offset : Offset) (value : List Byte) : List Item :=
  if L.getLast?.map Prod.fst = some offset then L else L ++ [(offset, value)]

/-- A value of this length does not change the layout. -/
def KeepsLayout (r : Results) (vLen : Nat) : Prop :=
  r.size = 0 ∨ r.uniformLen ≤ 0 ∨ r.uniformLen = vLen

/-- The arrays of the variable layout have room, if they are needed. -/
def FitsMem (r : Results) : Prop :=
  0 < r.uniformLen ∨ r.memValueOffsets.size = 0 ∨ r.size < r.memValueOffsets.size

/-- The file can take the item, and give it back. -/
def FitsDisk (r : Results) (vLen : Nat) : Prop :=
  (0 < r.uniformLen ∨ r.memTotalBytes = 0 ∧ vLen = 0) ∧
    (r.tempFile = none ∨ r.diskWriter.isSome = true) ∧
    ∀ b ∈ r.readCacheBuf,
      min READ_BUF_RECORDS (r.size + 1 - MAX_MEM_ITEMS) * r.diskRecordLen.toNat ≤ b.size

/-- When `add` appends the item to the list. -/
def AddOk (r : Results) (offset : Offset) (value : List Byte) : Prop :=
  (0 < r.size ∧ r.lastOffset = offset) ∨
    (r.size + 1 < 2 ^ 31 ∧ KeepsLayout r value.length ∧
      if r.size < MAX_MEM_ITEMS then FitsMem (setLayout r value.length) else FitsDisk r value.length)

instance (r : Results) (vLen : Nat) : Decidable (KeepsLayout r vLen) :=
  inferInstanceAs (Decidable (r.size = 0 ∨ r.uniformLen ≤ 0 ∨ r.uniformLen = vLen))

instance (r : Results) : Decidable (FitsMem r) :=
  inferInstanceAs (Decidable (0 < r.uniformLen ∨ r.memValueOffsets.size = 0 ∨ r.size < r.memValueOffsets.size))

instance (r : Results) (vLen : Nat) : Decidable (FitsDisk r vLen) :=
  inferInstanceAs (Decidable ((0 < r.uniformLen ∨ r.memTotalBytes = 0 ∧ vLen = 0) ∧
    (r.tempFile = none ∨ r.diskWriter.isSome = true) ∧
    ∀ b ∈ r.readCacheBuf,
      min READ_BUF_RECORDS (r.size + 1 - MAX_MEM_ITEMS) * r.diskRecordLen.toNat ≤ b.size))

instance (r : Results) (offset : Offset) (value : List Byte) : Decidable (AddOk r offset value) :=
  inferInstanceAs (Decidable ((0 < r.size ∧ r.lastOffset = offset) ∨
    (r.size + 1 < 2 ^ 31 ∧ KeepsLayout r value.length ∧
      if r.size < MAX_MEM_ITEMS then FitsMem (setLayout r value.length) else FitsDisk r value.length)))

variable {fs fs' : Files} {r r' : Results} {L : List Item} {x : Item}

/-! ## The layout -/

/-- The object agrees with the layout that values of length `vLen` need. -/
structure Laid (r : Results) (vLen : Nat) : Prop where
  nonneg : 0 ≤ r.uniformLen
  recordLen : r.diskRecordLen = 8 + r.uniformLen
  uniform : 0 < r.uniformLen → r.uniformLen = vLen

@[simp] theorem setLayout_tempFile {n : Nat} : (setLayout r n).tempFile = r.tempFile := by
  unfold setLayout
  split
  · rfl
  · split <;> rfl

theorem setLayout_of_size {n : Nat} (hk : KeepsLayout r n) (hsize : r.size ≠ 0) : setLayout r n = r := by
  rcases hk with hk | hk | hk
  · exact absurd hk hsize
  · rw [setLayout, if_neg hsize, if_neg (by omega)]
  · rw [setLayout, if_neg hsize, if_neg (by omega)]

theorem setLayout_spec (h : Represents fs r L) {n : Nat} (hk : KeepsLayout r n) :
    Represents fs (setLayout r n) L ∧ Laid (setLayout r n) n := by
  by_cases hsize : r.size = 0
  · obtain rfl : L = [] := List.length_eq_zero_iff.mp (h.size ▸ hsize)
    rw [setLayout, if_pos hsize]
    refine ⟨⟨h.size, h.last, fun hne => absurd rfl hne, fun _ y hy => absurd hy List.not_mem_nil,
      ⟨h.mem.empty, h.mem.offsetsRoom, h.mem.offsets, h.mem.arrays, fun _ => Nat.zero_le _, h.mem.total,
        fun _ => ?_, fun i y _ hy => ?_⟩,
      ⟨h.disk.small, fun hlen => absurd hlen (Nat.not_lt_zero _), h.disk.writer, h.disk.reader, fun i hi => ?_,
        fun hlen => absurd hlen (Nat.not_lt_zero _)⟩⟩,
      ⟨Int.natCast_nonneg n, rfl, fun _ => rfl⟩⟩
    · simpa using h.mem.empty rfl
    · cases hy
    · obtain ⟨_, _, hy, _⟩ := h.disk.cache i hi
      cases hy
  · rw [setLayout_of_size hk hsize]
    obtain ⟨hnn, hrec⟩ := h.layout (fun hnil => hsize (by rw [h.size, hnil]; rfl))
    refine ⟨h, hnn, hrec, fun hpos => ?_⟩
    rcases hk with hk | hk | hk
    · exact absurd hk hsize
    · omega
    · exact hk

/-! ## Items in memory -/

/-- `r'` is `r` with item `x` stored behind the others, the size not yet raised. -/
structure Stored (r r' : Results) (x : Item) : Prop where
  uniformLen : r'.uniformLen = r.uniformLen
  offsetsRoom : r.size < r'.memOffsets.size
  offsetsKept : ∀ i < r.size, r'.memOffsets.get i = r.memOffsets.get i
  offset : r'.memOffsets.get r.size = x.1
  arrays : r'.memValueLengths.size = r'.memValueOffsets.size
  variableRoom : ¬ 0 < r.uniformLen → r.size < r'.memValueOffsets.size
  placeKept : ∀ i < r.size, place r' i = place r i
  place : place r' r.size = (r.memTotalBytes, x.2.length)
  total : r'.memTotalBytes = r.memTotalBytes + x.2.length
  totalRoom : r'.memTotalBytes ≤ r'.memValues.size
  valuesKept : ∀ off n, off + n ≤ r.memTotalBytes → r'.memValues.range off n = r.memValues.range off n
  value : r'.memValues.range r.memTotalBytes x.2.length = x.2

/-- With one more item stored, the arrays are those of the longer list. -/
theorem Mem.append (h : Mem r L) (hsize : r.size = L.length) (hlt : L.length < MAX_MEM_ITEMS)
    (hs : Stored r r' x) (hu : 0 < r.uniformLen → r.uniformLen = x.2.length) : Mem r' (L ++ [x]) := by
  have hmin : min (L ++ [x]).length MAX_MEM_ITEMS = L.length + 1 := by
    rw [List.length_append, List.length_singleton]
    exact Nat.min_eq_left hlt
  have hold : min L.length MAX_MEM_ITEMS = L.length := Nat.min_eq_left hlt.le
  -- an index of the longer list is one of the old list, or the new last one
  have hcases : ∀ i y, (L ++ [x])[i]? = some y → (i < r.size ∧ L[i]? = some y) ∨ (i = r.size ∧ y = x) := by
    intro i y hy
    by_cases hi : i < L.length
    · rw [List.getElem?_append_left hi] at hy
      exact .inl ⟨hsize ▸ hi, hy⟩
    · rw [List.getElem?_append_right (by omega), List.getElem?_singleton] at hy
      split at hy
      · next h0 => exact .inr ⟨by omega, (Option.some.inj hy).symm⟩
      · cases hy
  constructor
  case empty => exact fun hnil => absurd hnil (by simp)
  case offsetsRoom =>
    rw [hmin, ← hsize]
    exact hs.offsetsRoom
  case offsets =>
    intro i y hi hy
    obtain ⟨hlt', hy⟩ | ⟨rfl, rfl⟩ := hcases i y hy
    · rw [hs.offsetsKept i hlt', h.offsets i y hi hy]
    · exact hs.offset
  case arrays => exact hs.arrays
  case variableRoom =>
    intro hv
    rw [hs.uniformLen] at hv
    rw [hmin, ← hsize]
    exact hs.variableRoom hv
  case total => exact hs.totalRoom
  case uniformTotal =>
    intro hpos
    rw [hs.uniformLen] at hpos ⊢
    have hlen := hu hpos
    rw [hmin, hs.total, h.uniformTotal hpos, hold, hlen, Int.toNat_natCast, Nat.succ_mul]
  case values =>
    intro i y hi hy
    obtain ⟨hlt', hy⟩ | ⟨rfl, rfl⟩ := hcases i y hy
    · obtain ⟨hin, hlen, hval⟩ := h.values i y hi hy
      rw [hs.placeKept i hlt', hs.valuesKept _ _ hin, hs.total]
      exact ⟨hin.trans (Nat.le_add_right _ _), hlen, hval⟩
    · rw [hs.place, hs.total]
      exact ⟨le_refl _, rfl, hs.value⟩

theorem growOffsets_eq (hroom : r.size ≤ r.memOffsets.size) (hlt : r.size < MAX_MEM_ITEMS) :
    ∃ a, growOffsets r = { r with memOffsets := a } ∧ r.size < a.size ∧
      ∀ i < r.size, a.get i = r.memOffsets.get i := by
  unfold growOffsets
  split
  · refine ⟨_, rfl, ?_, fun i hi => Arr.get_copyOf (hi.trans_le hroom)⟩
    rw [Arr.size_copyOf]
    omega
  · exact ⟨r.memOffsets, rfl, by omega, fun _ _ => rfl⟩

theorem ensureValueArrays_eq (harr : r.memValueLengths.size = r.memValueOffsets.size)
    (hroom : r.size ≤ r.memValueOffsets.size) (hlt : r.size < MAX_MEM_ITEMS)
    (hfit : r.memValueOffsets.size = 0 ∨ r.size < r.memValueOffsets.size) :
    ∃ o l, ensureValueArrays r = { r with memValueOffsets := o, memValueLengths := l } ∧
      r.size < o.size ∧ l.size = o.size ∧
      ∀ i < r.size, o.get i = r.memValueOffsets.get i ∧ l.get i = r.memValueLengths.get i := by
  unfold ensureValueArrays
  split
  · exact ⟨_, _, rfl, hlt, rfl, fun i hi => by omega⟩
  · exact ⟨r.memValueOffsets, r.memValueLengths, rfl, by omega, harr, fun _ _ => ⟨rfl, rfl⟩⟩

/-- Storing a value behind the others. -/
theorem putValue_eq (r : Results) (value : List Byte) {pos : Nat} (htotal : pos ≤ r.memValues.size) :
    ∃ v, putValue r pos value = { r with memValues := v, memTotalBytes := pos + value.length } ∧
      pos + value.length ≤ v.size ∧ v.range pos value.length = value ∧
      ∀ off n, off + n ≤ pos → v.range off n = r.memValues.range off n := by
  refine ⟨_, rfl, ?_, Arr.range_patch_self _ _ _, fun off n hin => ?_⟩
  · rw [Arr.size_patch]
    split
    · rw [Arr.size_copyOf]
      omega
    · omega
  · rw [Arr.range_patch_of_disjoint (.inl hin)]
    split
    · exact Arr.range_copyOf (hin.trans htotal)
    · rfl

/-- The object with other arrays. -/
def withArrays (r : Results) (a : Arr Offset) (v : Arr Byte) (o l : Arr Nat) (t : Nat) : Results :=
  { r with memOffsets := a, memValues := v, memValueOffsets := o, memValueLengths := l, memTotalBytes := t }

theorem place_withArrays (h : ¬ 0 < r.uniformLen) (a : Arr Offset) (v : Arr Byte) (o l : Arr Nat) (t i : Nat) :
    place (withArrays r a v o l t) i = (o.get i, l.get i) :=
  if_neg h

/-- The branch of `add` for the first 10000 items stores the item. -/
theorem addMem_spec (h : Represents fs r L) (hlt : L.length < MAX_MEM_ITEMS) (hlay : Laid r x.2.length)
    (hfit : FitsMem r) :
    ∃ a v o l t, addMem r x.1 x.2 = (withArrays r a v o l t, true) ∧ Stored r (withArrays r a v o l t) x := by
  have hsize := h.size
  have hold : min L.length MAX_MEM_ITEMS = r.size := by rw [h.size]; exact Nat.min_eq_left hlt.le
  have hltr : r.size < MAX_MEM_ITEMS := h.size ▸ hlt
  have hne : ∀ i < r.size, i ≠ r.size := fun i hi => hi.ne
  obtain ⟨a, ha, haroom, haget⟩ := growOffsets_eq (hold ▸ h.mem.offsetsRoom) hltr
  unfold addMem
  rw [ha]
  dsimp only
  rw [if_neg (not_not.mpr haroom)]
  by_cases hu : 0 < r.uniformLen
  · have hlen := hlay.uniform hu
    have hpos : r.size * r.uniformLen.toNat = r.memTotalBytes := by rw [h.mem.uniformTotal hu, hold]
    rw [if_pos hu]
    obtain ⟨v, hv, hvroom, hvself, hvkept⟩ := putValue_eq
      { r with memOffsets := a.set r.size x.1 } x.2 h.mem.total
    rw [hpos, hv]
    have hvlen : r.uniformLen.toNat = x.2.length := by rw [hlen, Int.toNat_natCast]
    refine ⟨a.set r.size x.1, v, r.memValueOffsets, r.memValueLengths, _, rfl, rfl, haroom, fun i hi => ?_,
      Arr.get_set_self _ _ _, h.mem.arrays, fun hn => absurd hu hn, fun i _ => ?_, ?_, rfl, hvroom, hvkept, hvself⟩
    · exact (Arr.get_set_ne a x.1 (hne i hi)).trans (haget i hi)
    · rw [place_uniform hu]
      exact place_uniform hu i
    · exact (place_uniform hu r.size).trans (Prod.ext hpos hvlen)
  · have hvroom' := hold ▸ h.mem.variableRoom hu
    obtain ⟨o, l, hol, horoom, hlo, hget⟩ := ensureValueArrays_eq
      (r := { r with memOffsets := a.set r.size x.1 }) h.mem.arrays hvroom' hltr (hfit.resolve_left hu)
    rw [if_neg hu, hol]
    dsimp only at horoom hget ⊢
    rw [if_neg (not_not.mpr ⟨horoom, hlo ▸ horoom⟩)]
    obtain ⟨v, hv, hvroom, hvself, hvkept⟩ := putValue_eq
      { r with
        memOffsets := a.set r.size x.1
        memValueOffsets := o.set r.size r.memTotalBytes
        memValueLengths := l.set r.size x.2.length } x.2 h.mem.total
    rw [hv]
    refine ⟨a.set r.size x.1, v, o.set r.size r.memTotalBytes, l.set r.size x.2.length, _, rfl, rfl, haroom,
      fun i hi => ?_, Arr.get_set_self _ _ _, hlo, fun _ => horoom, fun i hi => ?_, ?_, rfl, hvroom, hvkept,
      hvself⟩
    · exact (Arr.get_set_ne a x.1 (hne i hi)).trans (haget i hi)
    · obtain ⟨ho, hl⟩ := hget i hi
      rw [place_withArrays hu, place_variable hu, Arr.get_set_ne o _ (hne i hi), Arr.get_set_ne l _ (hne i hi)]
      exact Prod.ext ho hl
    · rw [place_withArrays hu, Arr.get_set_self, Arr.get_set_self]

/-! ## Items in the file -/

/-- File `f` and the stream to it hold the records of `L`. -/
structure Spilled (fs : Files) (r : Results) (L : List Item) (f : Nat) : Prop where
  file : r.tempFile = some f
  writer : ∃ w, r.diskWriter = some w ∧ w.file = f
  present : (fs.data f).isSome = true
  bytes : stored fs r f = L.flatMap record

/-- Only file `f` changes. -/
structure Beside (fs fs' : Files) (f : Nat) : Prop where
  next : fs'.next = fs.next
  data : ∀ g, g ≠ f → fs'.data g = fs.data g

theorem Beside.trans {fs'' : Files} {f : Nat} (h : Beside fs fs' f) (h' : Beside fs' fs'' f) : Beside fs fs'' f :=
  ⟨h'.next.trans h.next, fun g hg => (h'.data g hg).trans (h.data g hg)⟩

theorem Beside.own {f : Nat} (h : Beside fs fs' f) (hf : r.tempFile = some f) (ht : r'.tempFile = r.tempFile) :
    Own fs fs' r r' where
  next := h.next.ge
  others := fun g _ hne => h.data g (fun hg => hne (by rw [hf, hg]))
  file := fun g hg => .inl (ht ▸ hg)

theorem writeDiskRecord_spec {f : Nat} (h : Spilled fs r L f) (hpos : 0 < r.diskRecordLen) (x : Item) :
    ∃ w, (writeDiskRecord fs r x.1 x.2).2 = { r with diskWriter := some w } ∧
      Spilled (writeDiskRecord fs r x.1 x.2).1 (writeDiskRecord fs r x.1 x.2).2 (L ++ [x]) f ∧
      Beside fs (writeDiskRecord fs r x.1 x.2).1 f := by
  obtain ⟨w, hw, rfl⟩ := h.writer
  have hbytes := h.bytes
  rw [stored, hw, Option.map_some, Option.getD_some] at hbytes
  unfold writeDiskRecord
  rw [hw]
  dsimp only
  rw [recordBytes_eq hpos, Writer.write]
  split
  · refine ⟨_, rfl, ⟨h.file, ⟨_, rfl, rfl⟩, h.present, ?_⟩, rfl, fun _ _ => rfl⟩
    rw [stored, Option.map_some, Option.getD_some, ← List.append_assoc, hbytes, List.flatMap_append,
      List.flatMap_singleton]
  · refine ⟨_, rfl, ⟨h.file, ⟨_, rfl, rfl⟩, isSome_append h.present _, ?_⟩, rfl,
      fun g hg => data_append_ne hg _⟩
    rw [stored, Option.map_some, Option.getD_some, List.append_nil, read_append h.present, ← List.append_assoc,
      hbytes, List.flatMap_append, List.flatMap_singleton]

/-- The records of the items in memory, written to an empty file. -/
theorem writeMemRecords_spec {f : Nat} (h : Spilled fs r [] f) (hpos : 0 < r.diskRecordLen)
    (hcount : min r.size r.memOffsets.size = L.length)
    (hread : ∀ i y, L[i]? = some y → r.memOffsets.get i = y.1 ∧ getMemValueBytes r i = y.2) :
    ∃ w, (writeMemRecords fs r).2 = { r with diskWriter := some w } ∧
      Spilled (writeMemRecords fs r).1 (writeMemRecords fs r).2 L f ∧ Beside fs (writeMemRecords fs r).1 f := by
  have hprefix : ∀ n, n ≤ L.length →
      let p := (List.range n).foldl
        (fun p i => writeDiskRecord p.1 p.2 (r.memOffsets.get i) (getMemValueBytes r i)) (fs, r)
      ∃ w, p.2 = { r with diskWriter := some w } ∧ Spilled p.1 p.2 (L.take n) f ∧ Beside fs p.1 f := by
    intro n
    induction n with
    | zero =>
      intro _
      obtain ⟨w, hw, _⟩ := h.writer
      refine ⟨w, ?_, h, rfl, fun _ _ => rfl⟩
      rw [List.range_zero, List.foldl_nil, ← hw]
    | succ n ih =>
      intro hn
      obtain ⟨w, hp, hsp, hbeside⟩ := ih (Nat.le_of_succ_le hn)
      have hy : L[n]? = some L[n] := List.getElem?_eq_getElem hn
      obtain ⟨hoff, hval⟩ := hread n _ hy
      dsimp only at hp hsp hbeside ⊢
      rw [List.range_succ, List.foldl_append, List.foldl_cons, List.foldl_nil, hoff, hval]
      obtain ⟨w', hp', hsp', hbeside'⟩ := writeDiskRecord_spec hsp (by rw [hp]; exact hpos) L[n]
      refine ⟨w', by rw [hp', hp], ?_, hbeside.trans hbeside'⟩
      rw [List.take_succ_eq_append_getElem hn]
      exact hsp'
  have := hprefix L.length (le_refl _)
  rw [List.take_length] at this
  rw [writeMemRecords, hcount]
  exact this

/-- The file of an object from the 10001st item on. -/
theorem openTempFile_spec (h : Represents fs r L) (hlen : MAX_MEM_ITEMS ≤ L.length)
    (hw : r.tempFile = none ∨ r.diskWriter.isSome = true) :
    ∃ f w, (openTempFile fs r).2 = { r with tempFile := some f, diskWriter := some w } ∧
      Spilled (openTempFile fs r).1 (openTempFile fs r).2 L f ∧
        Own fs (openTempFile fs r).1 r (openTempFile fs r).2 := by
  cases ht : r.tempFile with
  | some f =>
    have hlong : MAX_MEM_ITEMS < L.length := by
      by_contra hle
      rw [h.disk.small (not_lt.mp hle)] at ht
      cases ht
    obtain ⟨g, hg, hs, hb, _⟩ := h.disk.large hlong
    obtain rfl : g = f := Option.some.inj (hg.symm.trans ht)
    obtain ⟨w, hwr⟩ := Option.isSome_iff_exists.mp (hw.resolve_left (by rw [ht]; simp))
    have hwf : w.file = g := Option.some.inj ((h.disk.writer w hwr).symm.trans ht)
    rw [openTempFile, ht]
    dsimp only
    exact ⟨g, w, by rw [← hwr, ← ht], ⟨ht, ⟨w, hwr, hwf⟩, hs, hb⟩, Own.refl (.inl rfl)⟩
  | none =>
    have hshort : L.length = MAX_MEM_ITEMS := by
      by_contra hne
      obtain ⟨g, hg, _⟩ := h.disk.large (lt_of_le_of_ne hlen (Ne.symm hne))
      rw [ht] at hg
      cases hg
    obtain ⟨hnn, hrec⟩ := h.layout (fun hnil => by rw [hnil] at hshort; exact absurd hshort (by decide))
    have hroom := h.mem.offsetsRoom
    rw [hshort, min_self] at hroom
    rw [openTempFile, ht]
    dsimp only [Files.createTempFile]
    have hstart : Spilled ⟨Function.update fs.data fs.next (some []), fs.next + 1⟩
        { r with tempFile := some fs.next, diskWriter := some ⟨fs.next, []⟩ } [] fs.next :=
      ⟨rfl, ⟨_, rfl, rfl⟩, by simp, by simp [stored, Files.read]⟩
    obtain ⟨w, hp, hsp, hbeside⟩ := writeMemRecords_spec (L := L) hstart
      (by rw [hrec]; omega) (by rw [h.size, hshort]; exact Nat.min_eq_left hroom)
      (fun i y hy => by
        have hi : i < MAX_MEM_ITEMS := hshort ▸ (List.getElem?_eq_some_iff.mp hy).1
        exact ⟨h.mem.offsets i y hi hy, getMemValueBytes_eq h hi hy⟩)
    refine ⟨fs.next, w, hp, hsp, ?_, fun g hg _ => ?_, fun g hg => .inr ?_⟩
    · rw [hbeside.next]
      exact Nat.le_succ _
    · rw [hbeside.data g hg.ne]
      exact Function.update_of_ne hg.ne _ _
    · rw [hp] at hg
      obtain rfl := Option.some.inj hg
      rw [hbeside.next]
      exact ⟨le_refl _, Nat.lt_succ_self _⟩

/-! ## `add` -/

/-- `add` compares with the last item of the list. -/
theorem skips_iff (h : Represents fs r L) (offset : Offset) :
    (0 < r.size ∧ r.lastOffset = offset) ↔ L.getLast?.map Prod.fst = some offset := by
  cases hl : L.getLast? with
  | none =>
    have hnil : L = [] := List.getLast?_eq_none_iff.mp hl
    have hzero : r.size = 0 := by rw [h.size, hnil]; rfl
    simp [hzero]
  | some y =>
    have hne : L ≠ [] := fun hnil => by rw [hnil] at hl; cases hl
    have hpos : 0 < r.size := h.size ▸ List.length_pos_iff.mpr hne
    simp [hpos, h.last y hl]

theorem getElem?_append_of_some {i : Nat} {y : Item} (hy : L[i]? = some y) : (L ++ [x])[i]? = some y := by
  rw [List.getElem?_append_left (List.getElem?_eq_some_iff.mp hy).1, hy]

theorem uniform_append (h : Represents fs r L) (hu : 0 < r.uniformLen → r.uniformLen = x.2.length) :
    0 < r.uniformLen → ∀ y ∈ L ++ [x], (y.2.length : Int) = r.uniformLen := by
  intro hpos y hy
  rcases List.mem_append.mp hy with hy | hy
  · exact h.uniform hpos y hy
  · rw [List.mem_singleton.mp hy, hu hpos]

/-- An item stored in memory. -/
theorem Represents.appendMem (h : Represents fs r L) (hlt : L.length < MAX_MEM_ITEMS) (hlay : Laid r x.2.length)
    {a : Arr Offset} {v : Arr Byte} {o l : Arr Nat} {t : Nat} (hs : Stored r (withArrays r a v o l t) x) :
    Represents fs { withArrays r a v o l t with lastOffset := x.1, size := r.size + 1 } (L ++ [x]) where
  size := by rw [List.length_append, ← h.size]; rfl
  last := fun y hy => by
    rw [List.getLast?_concat] at hy
    exact congrArg Prod.fst (Option.some.inj hy)
  layout := fun _ => ⟨hlay.nonneg, hlay.recordLen⟩
  uniform := by
    have hall := uniform_append h hlay.uniform
    exact hall
  mem := by
    obtain ⟨h1, h2, h3, h4, h5, h6, h7, h8⟩ := h.mem.append h.size hlt hs hlay.uniform
    exact ⟨h1, h2, h3, h4, h5, h6, h7, h8⟩
  disk := {
    small := fun _ => h.disk.small hlt.le
    large := fun hlen => by
      rw [List.length_append, List.length_singleton] at hlen
      omega
    writer := h.disk.writer
    reader := h.disk.reader
    cache := fun i hi => by
      obtain ⟨y, b, hy, hb, hval⟩ := h.disk.cache i hi
      exact ⟨y, b, getElem?_append_of_some hy, hb, hval⟩
    cacheRoom := fun hlen => by
      rw [List.length_append, List.length_singleton] at hlen
      omega }

/-- All values have the length of the layout, when the file is needed. -/
theorem uniform_of_fitsDisk (h : Represents fs r L) (hlay : Laid r x.2.length) (hfit : FitsDisk r x.2.length) :
    ∀ y ∈ L ++ [x], (y.2.length : Int) = r.uniformLen := by
  obtain ⟨hpos | ⟨htotal, hx⟩, _, _⟩ := hfit
  · exact uniform_append h hlay.uniform hpos
  · by_cases hpos : 0 < r.uniformLen
    · exact uniform_append h hlay.uniform hpos
    · have hzero : r.uniformLen = 0 := le_antisymm (not_lt.mp hpos) hlay.nonneg
      intro y hy
      rcases List.mem_append.mp hy with hy | hy
      · by_cases hlen : MAX_MEM_ITEMS < L.length
        · obtain ⟨_, _, _, _, hu⟩ := h.disk.large hlen
          exact hu y hy
        · obtain ⟨i, hi, rfl⟩ := List.mem_iff_getElem.mp hy
          obtain ⟨hin, hl, _⟩ := h.mem.values i L[i] (by omega) (List.getElem?_eq_getElem hi)
          omega
      · rw [List.mem_singleton.mp hy, hx, hzero]
        rfl

/-- An item stored in the file. -/
theorem Represents.appendDisk (h : Represents fs r L) (hlen : MAX_MEM_ITEMS ≤ L.length)
    (hlay : Laid r x.2.length) (hfit : FitsDisk r x.2.length) {f : Nat} {w : Writer}
    (hsp : Spilled fs' { r with tempFile := some f, diskWriter := some w } (L ++ [x]) f)
    (hf : ∀ g, r.tempFile = some g → g = f) :
    Represents fs' { r with tempFile := some f, diskWriter := some w, lastOffset := x.1, size := r.size + 1 }
      (L ++ [x]) where
  size := by rw [List.length_append, ← h.size]; rfl
  last := fun y hy => by
    rw [List.getLast?_concat] at hy
    exact congrArg Prod.fst (Option.some.inj hy)
  layout := fun _ => ⟨hlay.nonneg, hlay.recordLen⟩
  uniform := by
    have hall := uniform_append h hlay.uniform
    exact hall
  mem := by
    have hmin : min (L ++ [x]).length MAX_MEM_ITEMS = min L.length MAX_MEM_ITEMS := by
      rw [List.length_append, Nat.min_eq_right hlen, Nat.min_eq_right (hlen.trans (Nat.le_add_right _ _))]
    have hold : ∀ i y, i < MAX_MEM_ITEMS → (L ++ [x])[i]? = some y → L[i]? = some y := by
      intro i y hi hy
      rwa [List.getElem?_append_left (hi.trans_le hlen)] at hy
    refine ⟨fun hnil => absurd hnil (by simp), ?_, fun i y hi hy => h.mem.offsets i y hi (hold i y hi hy),
      h.mem.arrays, fun hv => ?_, h.mem.total, fun hpos => ?_,
      fun i y hi hy => h.mem.values i y hi (hold i y hi hy)⟩
    · rw [hmin]
      exact h.mem.offsetsRoom
    · rw [hmin]
      exact h.mem.variableRoom hv
    · rw [hmin]
      exact h.mem.uniformTotal hpos
  disk := {
    small := fun hle => by
      rw [List.length_append, List.length_singleton] at hle
      omega
    large := by
      have hall := uniform_of_fitsDisk h hlay hfit
      exact fun _ => ⟨f, rfl, hsp.present, hsp.bytes, hall⟩
    writer := fun v hv => by
      obtain ⟨u, hu, huf⟩ := hsp.writer
      rw [← huf, Option.some.inj (hv.symm.trans hu)]
    reader := fun g hg => by rw [hf g (h.disk.reader g hg)]
    cache := fun i hi => by
      obtain ⟨y, b, hy, hb, hval⟩ := h.disk.cache i hi
      exact ⟨y, b, getElem?_append_of_some hy, hb, hval⟩
    cacheRoom := fun _ b hb => by
      rw [List.length_append, List.length_singleton, ← h.size]
      exact hfit.2.2 b hb }

/-- `add` appends, and touches no other file. -/
theorem add_spec (h : Represents fs r L) {offset : Offset} {value : List Byte} (hok : AddOk r offset value) :
    (add fs r offset value).2.2 = true ∧
      Represents (add fs r offset value).1 (add fs r offset value).2.1 (appendItem L offset value) ∧
      Own fs (add fs r offset value).1 r (add fs r offset value).2.1 := by
  have hskip := skips_iff h offset
  unfold add appendItem
  by_cases hs : 0 < r.size ∧ r.lastOffset = offset
  · rw [if_pos hs, if_pos (hskip.mp hs)]
    exact ⟨rfl, h, Own.refl (.inl rfl)⟩
  · obtain ⟨_, hkeeps, hfit⟩ := hok.resolve_left hs
    obtain ⟨hrep, hlay⟩ := setLayout_spec h hkeeps
    have hsz : (setLayout r value.length).size = r.size := by
      rw [hrep.size, h.size]
    rw [if_neg hs, if_neg (fun hl => hs (hskip.mpr hl))]
    dsimp only
    rw [hsz]
    by_cases hmem : r.size < MAX_MEM_ITEMS
    · rw [if_pos hmem] at hfit
      have hlt : L.length < MAX_MEM_ITEMS := h.size ▸ hmem
      obtain ⟨a, v, o, l, t, heq, hst⟩ := addMem_spec (x := (offset, value)) hrep hlt hlay hfit
      dsimp only at heq
      rw [if_pos hmem, heq]
      rw [if_pos rfl]
      exact ⟨rfl, hrep.appendMem hlt hlay hst, Own.refl (.inl setLayout_tempFile)⟩
    · rw [if_neg hmem] at hfit
      have hlen : MAX_MEM_ITEMS ≤ L.length := h.size ▸ not_lt.mp hmem
      have hpos : r.size ≠ 0 := by
        have : 0 < MAX_MEM_ITEMS := by decide
        omega
      rw [setLayout_of_size hkeeps hpos] at hlay ⊢
      rw [if_neg hmem]
      obtain ⟨f, w, hopen, hsp, hown⟩ := openTempFile_spec h hlen hfit.2.1
      have hfile : ∀ g, r.tempFile = some g → g = f := fun g hg => by
        have hfg := hsp.file
        rw [openTempFile, hg] at hfg
        exact Option.some.inj (hg.symm.trans hfg)
      have hrl : 0 < (openTempFile fs r).2.diskRecordLen := by
        rw [hopen, hlay.recordLen]
        have := hlay.nonneg
        omega
      obtain ⟨w', hwrite, hsp', hbeside⟩ := writeDiskRecord_spec hsp hrl (offset, value)
      generalize writeDiskRecord (openTempFile fs r).1 (openTempFile fs r).2 offset value = p
        at hwrite hsp' hbeside ⊢
      obtain ⟨fs', r'⟩ := p
      rw [hopen] at hwrite
      dsimp only at hwrite
      subst hwrite
      exact ⟨rfl, h.appendDisk hlen hlay hfit hsp' hfile, hown.trans (hbeside.own hsp.file (hopen ▸ rfl))⟩

end CompactScanResults

end Ps5Debugger
