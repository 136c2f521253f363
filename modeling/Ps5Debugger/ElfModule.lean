import Ps5Debugger.ElfLoad

/-!
# The image of an ELF file

When `getSegments` and `getMergedModule` return, and when what they return is the image that the program
headers ask for: the bytes of each segment at its place, and zeros elsewhere.
-/

namespace Ps5Debugger

open Lib

namespace ElfUtil

open ScannerView (Text)

/-! ## The headers -/

section Headers

variable {bytes : List Byte} {t : Table} {fileName : Text} {i : Nat}

/-- The table of a file. -/
def table (bytes : List Byte) : Table :=
  let is64 : Bool := bytes[4]? = some 2
  ⟨is64, field bytes is64 0 0x20 0x1C, leNat 2 (slice (ofList bytes) (if is64 then 0x36 else 0x2A) 2),
    leNat 2 (slice (ofList bytes) (if is64 then 0x38 else 0x2C) 2)⟩

/-- PT_LOAD -/
def Table.Loads (t : Table) (bytes : List Byte) (i : Nat) : Prop := word bytes (t.offset i) = 1

instance (t : Table) (bytes : List Byte) (i : Nat) : Decidable (t.Loads bytes i) := inferInstanceAs (Decidable (_ = _))

/-- The headers that the second loop comes to. -/
def Table.headers (t : Table) (bytes : List Byte) : List Nat := t.reached bytes (if t.is64 then 56 else 32)

def Table.phdr (t : Table) (bytes : List Byte) (i : Nat) : Phdr := ElfUtil.phdr bytes t.is64 (t.offset i)

/-- The headers of the segments. -/
def Table.loaded (t : Table) (bytes : List Byte) : List Nat :=
  (t.headers bytes).filter fun i => t.Loads bytes i ∧ (t.phdr bytes i).Accepted bytes

/-- The first loop returns: the types of headers are read up to the first that is loaded, and its address. -/
def Table.BaseReads (t : Table) (bytes : List Byte) (is : List Nat) : Prop :=
  (∀ i ∈ is.takeWhile fun i => ¬ t.Loads bytes i, Spans (t.offset i) 4) ∧
    ∀ i ∈ is.find? fun i => t.Loads bytes i, Spans (t.offset i) (if t.is64 then 24 else 12)

/-- The base that the first loop finds. -/
def Table.baseIn (t : Table) (bytes : List Byte) (is : List Nat) : Int :=
  match is.find? fun i => t.Loads bytes i with
  | some i => if (t.phdr bytes i).vaddr = 0 then 0x400000 else 0
  | none => 0

def Table.base (t : Table) (bytes : List Byte) : Int := t.baseIn bytes (t.reached bytes 8)

/-- The lower halves of a segment's place in the file are a range of it. -/
def Phdr.Copies (h : Phdr) (bytes : List Byte) : Prop :=
  0 ≤ wrap32 h.fileOff ∧ wrap32 h.fileOff ≤ wrap32 (h.fileOff + h.filesz) ∧
    wrap32 (h.fileOff + h.filesz) ≤ bytes.length

instance (h : Phdr) (bytes : List Byte) : Decidable (h.Copies bytes) := inferInstanceAs (Decidable (_ ∧ _ ∧ _))

/-- A pass of the second loop returns. -/
def Table.HeaderReads (t : Table) (bytes : List Byte) (i : Nat) : Prop :=
  Spans (t.offset i) 4 ∧ (t.Loads bytes i → Spans (t.offset i) (if t.is64 then 48 else 28) ∧
    ((t.phdr bytes i).Accepted bytes → (t.phdr bytes i).Copies bytes))

/-- What a segment's bytes are copied from. -/
def Phdr.data (h : Phdr) (bytes : List Byte) : List Byte :=
  (bytes.take (wrap32 (h.fileOff + h.filesz)).toNat).drop (wrap32 h.fileOff).toNat

theorem copyOfRange_eq (h : Phdr) :
    copyOfRange bytes (wrap32 h.fileOff) (wrap32 (wrap64 (h.fileOff + h.filesz))) =
      if h.Copies bytes then some (h.data bytes) else none := by
  rw [wrap32_wrap64]
  rfl

/-- The segment of a header. -/
def Table.segment (t : Table) (bytes : List Byte) (fileName : Text) (i : Nat) : ModuleRange :=
  (t.phdr bytes i).segment fileName (t.base bytes) i ((t.phdr bytes i).data bytes)

variable (hlong : 64 ≤ bytes.length) (hsize : bytes.length < 2 ^ 31)

include hlong hsize

theorem readShortLE_eq {off : Nat} (h : off + 2 ≤ 64) :
    readShortLE bytes off = some ((leNat 2 (slice (ofList bytes) off 2) : Int).bmod (2 ^ 16)) := by
  have hend : wrap32 ((off : Int) + 2) = off + 2 := wrap32_eq_self (by omega) (by omega)
  rw [readShortLE, hend, if_neg (by omega)]
  exact int16At_eq hsize (by omega)

theorem readTable_eq : readTable bytes = some (table bytes) := by
  have hhalf (l : List Byte) : (leNat 2 l : Int).bmod (2 ^ 16) % 2 ^ 16 = leNat 2 l := by
    have hlt := leNat_lt 2 l
    exact Int.bmod_emod.trans (Int.emod_eq_of_lt (by omega) (by omega))
  have hfield (is64 : Bool) : readField bytes is64 0 0x20 0x1C = some (field bytes is64 0 0x20 0x1C) := by
    rw [readField_eq hlong hsize (by decide) (by decide) (by decide) (by decide)]
    exact if_pos (by cases is64 <;> decide)
  have hshort (off : Nat) (h : off + 2 ≤ 64) := readShortLE_eq hlong hsize h
  have h36 : readShortLE bytes 0x36 = _ := hshort 0x36 (by decide)
  have h38 : readShortLE bytes 0x38 = _ := hshort 0x38 (by decide)
  have h2A : readShortLE bytes 0x2A = _ := hshort 0x2A (by decide)
  have h2C : readShortLE bytes 0x2C = _ := hshort 0x2C (by decide)
  rw [readTable, table]
  generalize decide (bytes[4]? = some 2) = is64
  cases is64 with
  | true =>
    simp only [hfield, if_true, h36, h38, Option.bind_eq_bind, Option.bind_some, hhalf, Int.toNat_natCast]
    rfl
  | false =>
    simp only [hfield, Bool.false_eq_true, if_false, h2A, h2C, Option.bind_eq_bind, Option.bind_some, hhalf,
      Int.toNat_natCast]
    rfl

theorem readIntLE_offset (t : Table) (i : Nat) :
    readIntLE bytes (t.offset i) =
      if Spans (t.offset i) 4 then some (word bytes (t.offset i)) else none := by
  obtain ⟨hlo, hhi⟩ := wrap32_bounds (wrap64 (t.phoff + wrap32 (i * t.phentsize)))
  have hread := readIntLE_wrap32 hlong hsize (x := t.offset i) hlo (by rw [Table.offset]; omega)
  have hself : wrap32 (t.offset i) = t.offset i := wrap32_eq_self hlo hhi
  rwa [hself] at hread

omit hlong hsize in
theorem Table.baseReads_cons {is : List Nat} :
    t.BaseReads bytes (i :: is) ↔ Spans (t.offset i) 4 ∧
      if t.Loads bytes i then Spans (t.offset i) (if t.is64 then 24 else 12) else t.BaseReads bytes is := by
  by_cases hload : t.Loads bytes i
  · have hshorter (h : Spans (t.offset i) (if t.is64 then 24 else 12)) : Spans (t.offset i) 4 :=
      h.mono (by split <;> decide)
    simp only [BaseReads, List.takeWhile_cons, List.find?_cons, hload, decide_true, not_true_eq_false, decide_false,
      Option.mem_def, Option.some_inj, forall_eq', if_true]
    exact ⟨fun h => ⟨hshorter h.2, h.2⟩, fun h => ⟨nofun, h.2⟩⟩
  · simp only [BaseReads, List.takeWhile_cons, List.find?_cons, hload, decide_false, not_false_eq_true, decide_true,
      if_true, if_false, List.forall_mem_cons, and_assoc]

omit hlong hsize in
theorem Table.baseIn_cons {is : List Nat} : t.baseIn bytes (i :: is) =
    if t.Loads bytes i then (if (t.phdr bytes i).vaddr = 0 then 0x400000 else 0) else t.baseIn bytes is := by
  by_cases hload : t.Loads bytes i
  · simp only [baseIn, List.find?_cons, hload, decide_true, if_true]
  · simp only [baseIn, List.find?_cons, hload, decide_false, if_false]

/-- The first loop over the headers. -/
theorem baseOffset_spec (is : List Nat) :
    (t.BaseReads bytes is → baseOffset bytes t is = some (t.baseIn bytes is)) ∧
      (¬ t.BaseReads bytes is → baseOffset bytes t is = none) := by
  induction is with
  | nil => exact ⟨fun _ => rfl, fun h => absurd ⟨nofun, nofun⟩ h⟩
  | cons i is ih =>
    obtain ⟨-, hhi⟩ := wrap32_bounds (wrap64 (t.phoff + wrap32 (i * t.phentsize)))
    rw [Table.baseReads_cons, Table.baseIn_cons, baseOffset, readIntLE_offset hlong hsize]
    by_cases htype : Spans (t.offset i) 4
    · rw [if_pos htype, Option.bind_eq_bind, Option.bind_some, and_iff_right htype]
      by_cases hload : t.Loads bytes i
      · have hword : word bytes (t.offset i) = 1 := hload
        have haddress : readField bytes t.is64 (t.offset i) 16 8 = _ :=
          readField_eq hlong hsize htype.1 hhi (by decide) (by decide)
        rw [if_pos hload, if_pos hload, if_pos hword, haddress]
        by_cases hspan : Spans (t.offset i) (if t.is64 then 16 + 8 else 8 + 4)
        · rw [if_pos hspan]
          exact ⟨fun _ => rfl, fun h => absurd hspan h⟩
        · rw [if_neg hspan]
          exact ⟨fun h => absurd h hspan, fun _ => rfl⟩
      · have hword : ¬ word bytes (t.offset i) = 1 := hload
        rw [if_neg hload, if_neg hload, if_neg hword]
        exact ih
    · rw [if_neg htype]
      exact ⟨fun h => absurd h.1 htype, fun _ => rfl⟩

/-- A pass of the second loop. -/
theorem segmentAt_spec (fileName : Text) (t : Table) (i : Nat) :
    (t.HeaderReads bytes i → segmentAt bytes fileName t (t.base bytes) i =
      some (if t.Loads bytes i ∧ (t.phdr bytes i).Accepted bytes then some (t.segment bytes fileName i) else none)) ∧
      (¬ t.HeaderReads bytes i → segmentAt bytes fileName t (t.base bytes) i = none) := by
  obtain ⟨-, hhi⟩ := wrap32_bounds (wrap64 (t.phoff + wrap32 (i * t.phentsize)))
  rw [Table.HeaderReads, segmentAt, readIntLE_offset hlong hsize]
  by_cases htype : Spans (t.offset i) 4
  swap
  · rw [if_neg htype]
    exact ⟨fun h => absurd h.1 htype, fun _ => rfl⟩
  rw [if_pos htype, Option.bind_eq_bind, Option.bind_some, and_iff_right htype]
  by_cases hload : t.Loads bytes i
  swap
  · have hword : ¬ word bytes (t.offset i) = 1 := hload
    have hnone : ¬ (t.Loads bytes i ∧ (t.phdr bytes i).Accepted bytes) := fun h => hload h.1
    rw [if_neg hword, if_neg hnone]
    exact ⟨fun _ => rfl, fun h => absurd (fun h' => absurd h' hload) h⟩
  have hword : word bytes (t.offset i) = 1 := hload
  rw [if_pos hword, readPhdr_eq hlong hsize htype.1 hhi]
  by_cases hspan : Spans (t.offset i) (if t.is64 then 48 else 28)
  swap
  · rw [if_neg hspan]
    exact ⟨fun h => absurd (h hload).1 hspan, fun _ => rfl⟩
  rw [if_pos hspan, Option.bind_eq_bind, Option.bind_some]
  change ((_ → _ ∧ ((t.phdr bytes i).Accepted bytes → _)) →
    (if (t.phdr bytes i).Accepted bytes then _ else _) = _) ∧ (_ →
    (if (t.phdr bytes i).Accepted bytes then _ else _) = _)
  by_cases haccepted : (t.phdr bytes i).Accepted bytes
  swap
  · have hnone : ¬ (t.Loads bytes i ∧ (t.phdr bytes i).Accepted bytes) := fun h => haccepted h.2
    rw [if_neg haccepted, if_neg hnone]
    exact ⟨fun _ => rfl, fun h => absurd (fun _ => ⟨hspan, fun h' => absurd h' haccepted⟩) h⟩
  have hsome : t.Loads bytes i ∧ (t.phdr bytes i).Accepted bytes := ⟨hload, haccepted⟩
  rw [if_pos haccepted, if_pos hsome, copyOfRange_eq]
  by_cases hcopies : (phdr bytes t.is64 (t.offset i)).Copies bytes
  · rw [if_pos hcopies]
    exact ⟨fun _ => rfl, fun h => absurd (fun _ => ⟨hspan, fun _ => hcopies⟩) h⟩
  · rw [if_neg hcopies]
    exact ⟨fun h => absurd ((h hload).2 haccepted) hcopies, fun _ => rfl⟩

/-- `getSegments` returns: both loops do. -/
def Table.Reads (t : Table) (bytes : List Byte) : Prop :=
  t.BaseReads bytes (t.reached bytes 8) ∧ ∀ i ∈ t.headers bytes, t.HeaderReads bytes i

omit hlong hsize in
theorem reduceOption_map_ite {α β : Type} {p : α → Prop} [DecidablePred p] {f : α → β} (l : List α) :
    (l.map fun a => if p a then some (f a) else none).reduceOption = (l.filter p).map f := by
  induction l with
  | nil => rfl
  | cons a l ih =>
    by_cases ha : p a
    · rw [List.map_cons, if_pos ha, List.reduceOption_cons_of_some, ih, List.filter_cons_of_pos (by simpa using ha),
        List.map_cons]
    · rw [List.map_cons, if_neg ha, List.reduceOption_cons_of_none, ih, List.filter_cons_of_neg (by simpa using ha)]

/-- The segments of a file. -/
theorem getSegments_spec (helf : isElf bytes) (fileName : Text) :
    ((table bytes).Reads bytes → getSegments bytes fileName =
      some (((table bytes).loaded bytes).map ((table bytes).segment bytes fileName))) ∧
      (¬ (table bytes).Reads bytes → getSegments bytes fileName = none) := by
  obtain ⟨hbase, hnobase⟩ := baseOffset_spec hlong hsize (t := table bytes) ((table bytes).reached bytes 8)
  have hpass := segmentAt_spec hlong hsize fileName (table bytes)
  have hguard : ¬ (¬ isElf bytes ∨ bytes.length < 64) := by
    rintro (h | h)
    · exact h helf
    · omega
  rw [getSegments, if_neg hguard, readTable_eq hlong hsize, Option.bind_eq_bind, Option.bind_some]
  by_cases hb : (table bytes).BaseReads bytes ((table bytes).reached bytes 8)
  swap
  · rw [hnobase hb]
    exact ⟨fun h => absurd h.1 hb, fun _ => rfl⟩
  rw [hbase hb, Option.bind_eq_bind, Option.bind_some]
  change (_ → ((table bytes).headers bytes).mapM (segmentAt bytes fileName (table bytes) ((table bytes).base bytes))
    >>= _ = _) ∧ (_ → ((table bytes).headers bytes).mapM
      (segmentAt bytes fileName (table bytes) ((table bytes).base bytes)) >>= _ = _)
  by_cases hh : ∀ i ∈ (table bytes).headers bytes, (table bytes).HeaderReads bytes i
  · rw [mapM_eq_some fun i hi => (hpass i).1 (hh i hi)]
    refine ⟨fun _ => ?_, fun h => absurd ⟨hb, hh⟩ h⟩
    rw [Table.loaded, ← reduceOption_map_ite]
    rfl
  · obtain ⟨i, hi, hfail⟩ : ∃ i ∈ (table bytes).headers bytes, ¬ (table bytes).HeaderReads bytes i := by
      push Not at hh
      exact hh
    rw [mapM_eq_none hi ((hpass i).2 hfail)]
    exact ⟨fun h => absurd (h.2 i hi) hfail, fun _ => rfl⟩

end Headers

/-! ## Merging -/

section Merging

variable {segments : List ModuleRange} {seg : ModuleRange}

/-- The module can be allocated, and each segment lies in it. -/
def Fits (segments : List ModuleRange) : Prop :=
  0 ≤ totalSize segments ∧ ∀ seg ∈ segments, 0 ≤ offsetInMerged segments seg ∧
    offsetInMerged segments seg + seg.localData.length ≤ totalSize segments

/-- The run of bytes of a segment. -/
def runOf (segments : List ModuleRange) (seg : ModuleRange) : Nat × List Byte :=
  ((offsetInMerged segments seg).toNat, seg.localData)

theorem foldlM_copyInto (segments : List ModuleRange) (offset : ModuleRange → Int) (data : List Byte) :
    ((∀ seg ∈ segments, 0 ≤ offset seg ∧ offset seg + seg.localData.length ≤ data.length) →
      segments.foldlM (fun data seg => copyInto seg.localData data (offset seg)) data =
        some (overlayAll data (segments.map fun seg => ((offset seg).toNat, seg.localData)))) ∧
      (¬ (∀ seg ∈ segments, 0 ≤ offset seg ∧ offset seg + seg.localData.length ≤ data.length) →
        segments.foldlM (fun data seg => copyInto seg.localData data (offset seg)) data = none) := by
  induction segments generalizing data with
  | nil => exact ⟨fun _ => rfl, fun h => absurd nofun h⟩
  | cons seg segments ih =>
    rw [List.foldlM_cons, copyInto, List.forall_mem_cons]
    by_cases hseg : 0 ≤ offset seg ∧ offset seg + seg.localData.length ≤ data.length
    · have hlen : (overlay data (offset seg).toNat seg.localData).length = data.length := length_overlay (by omega)
      have hrest := ih (overlay data (offset seg).toNat seg.localData)
      rw [hlen] at hrest
      rw [if_pos hseg, Option.bind_eq_bind, Option.bind_some, and_iff_right hseg]
      exact hrest
    · rw [if_neg hseg]
      exact ⟨fun h => absurd h.1 hseg, fun _ => rfl⟩

theorem mergedData_spec (segments : List ModuleRange) :
    (Fits segments → mergedData segments =
      some (overlayAll (List.replicate (totalSize segments).toNat 0) (segments.map (runOf segments)))) ∧
      (¬ Fits segments → mergedData segments = none) := by
  rw [Fits, mergedData]
  by_cases hsize : totalSize segments < 0
  · rw [if_pos hsize]
    exact ⟨fun h => absurd h.1 (by omega), fun _ => rfl⟩
  · have hcopies := foldlM_copyInto segments (offsetInMerged segments)
      (List.replicate (totalSize segments).toNat 0)
    rw [List.length_replicate, Int.toNat_of_nonneg (by omega)] at hcopies
    rw [if_neg hsize, and_iff_right (Int.not_lt.mp hsize)]
    exact hcopies

theorem minStart_le (hseg : seg ∈ segments) : minStart segments ≤ seg.start := by
  have hmem : seg.start ∈ segments.map ModuleRange.start := List.mem_map_of_mem hseg
  rw [minStart]
  cases hmin : (segments.map ModuleRange.start).min? with
  | none =>
    rw [List.min?_eq_none_iff.mp hmin] at hmem
    cases hmem
  | some low => exact (List.min?_eq_some_iff.mp hmin).2 _ hmem

theorem fits_of_mergedData {data : List Byte} (h : mergedData segments = some data) : Fits segments := by
  by_contra hfits
  rw [(mergedData_spec segments).2 hfits] at h
  cases h

theorem runOf_le (hfits : Fits segments) : ∀ w ∈ segments.map (runOf segments),
    w.1 + w.2.length ≤ (List.replicate (totalSize segments).toNat (0 : Byte)).length := by
  intro w hw
  obtain ⟨seg, hseg, rfl⟩ := List.mem_map.mp hw
  obtain ⟨hlo, hhi⟩ := hfits.2 seg hseg
  change (offsetInMerged segments seg).toNat + seg.localData.length ≤ _
  rw [List.length_replicate]
  omega

theorem length_mergedData {data : List Byte} (h : mergedData segments = some data) :
    (data.length : Int) = totalSize segments := by
  have hfits := fits_of_mergedData h
  obtain rfl := Option.some_inj.mp (((mergedData_spec segments).1 hfits).symm.trans h)
  rw [length_overlayAll (runOf_le hfits), List.length_replicate, Int.toNat_of_nonneg hfits.1]

/-- A place in the module is covered by a run of a segment that is found there, or is zero. -/
theorem mergedData_cases {data : List Byte} (h : mergedData segments = some data) (q : Nat) :
    (∃ seg ∈ segments, Overlays (runOf segments seg) q ∧ data[q]? = seg.localData[q - (runOf segments seg).1]?) ∨
      ((∀ seg ∈ segments, ¬ Overlays (runOf segments seg) q) ∧
        data[q]? = (List.replicate (totalSize segments).toNat (0 : Byte))[q]?) := by
  have hfits := fits_of_mergedData h
  obtain rfl := Option.some_inj.mp (((mergedData_spec segments).1 hfits).symm.trans h)
  obtain ⟨w, hw, hover, heq⟩ | ⟨hnone, heq⟩ := getElem?_overlayAll (runOf_le hfits) q
  · obtain ⟨seg, hseg, rfl⟩ := List.mem_map.mp hw
    exact .inl ⟨seg, hseg, hover, heq⟩
  · exact .inr ⟨fun seg hseg => hnone _ (List.mem_map_of_mem hseg), heq⟩

end Merging

/-! ## Images -/

section Images

variable {bytes : List Byte} {fileName : Text}

/-- The headers of the segments of a file. -/
def loadedHeaders (bytes : List Byte) : List Nat :=
  if isElf bytes ∧ 64 ≤ bytes.length then (table bytes).loaded bytes else []

/-- The segments of a file. -/
def segmentsOf (bytes : List Byte) (fileName : Text) : List ModuleRange :=
  (loadedHeaders bytes).map ((table bytes).segment bytes fileName)

/-- No address is in two segments. -/
def NoOverlap (segments : List ModuleRange) : Prop :=
  segments.Pairwise fun s t => ∀ a, ¬ (s.start ≤ a ∧ a < s.stop ∧ t.start ≤ a ∧ a < t.stop)

/-- `p_offset` -/
def p_offset (bytes : List Byte) (i : Nat) : Int := ((table bytes).phdr bytes i).fileOff

/-- `p_filesz` -/
def p_filesz (bytes : List Byte) (i : Nat) : Int := ((table bytes).phdr bytes i).filesz

/-- Where a segment starts. -/
def segmentStart (bytes : List Byte) (i : Nat) : Int := ((table bytes).phdr bytes i).start ((table bytes).base bytes)

/-- The module has the bytes of each segment at its place, and zeros elsewhere. -/
structure Image (bytes : List Byte) (module : Module) : Prop where
  placed : ∀ i ∈ loadedHeaders bytes, ∀ k, 0 ≤ k → k < p_filesz bytes i →
    ∃ x, byteAt module.localData (segmentStart bytes i - module.start + k) = some x ∧
      byteAt bytes (p_offset bytes i + k) = some x
  zero : ∀ q, 0 ≤ q → q < module.stop - module.start →
    (∀ i ∈ loadedHeaders bytes, ∀ k, 0 ≤ k → k < p_filesz bytes i → q ≠ segmentStart bytes i - module.start + k) →
    byteAt module.localData q = some 0

/-- The file is opened without an exception, as the image that its headers ask for. -/
structure Loaded (bytes : List Byte) (fileName : Text) : Prop where
  segments : getSegments bytes fileName = some (segmentsOf bytes fileName)
  returns : ∃ module, getMergedModule bytes fileName = some module
  image : ∀ module, getMergedModule bytes fileName = some (some module) →
    NoOverlap (segmentsOf bytes fileName) → Image bytes module

/-- The segments are in the file, their places in the module, and where two of them are at the same place, so are the
same bytes. -/
structure Exact (bytes : List Byte) (fileName : Text) : Prop where
  inFile : ∀ i ∈ loadedHeaders bytes, 0 ≤ p_offset bytes i ∧ p_offset bytes i + p_filesz bytes i ≤ bytes.length
  inModule : ∀ i ∈ loadedHeaders bytes, segmentStart bytes i - minStart (segmentsOf bytes fileName) +
    p_filesz bytes i ≤ totalSize (segmentsOf bytes fileName)
  whole : maxEnd (segmentsOf bytes fileName) - minStart (segmentsOf bytes fileName) ≤
    totalSize (segmentsOf bytes fileName)
  agree : ∀ i ∈ loadedHeaders bytes, ∀ j ∈ loadedHeaders bytes, ∀ k m, 0 ≤ k → k < p_filesz bytes i → 0 ≤ m →
    m < p_filesz bytes j → segmentStart bytes i + k = segmentStart bytes j + m →
    byteAt bytes (p_offset bytes i + k) = byteAt bytes (p_offset bytes j + m)

/-- What the theorem about a module is about. -/
theorem getMergedModule_eq (hsegs : getSegments bytes fileName = some (segmentsOf bytes fileName))
    (hne : segmentsOf bytes fileName ≠ []) {module : Module}
    (h : getMergedModule bytes fileName = some (some module)) :
    module.start = minStart (segmentsOf bytes fileName) ∧ module.stop = maxEnd (segmentsOf bytes fileName) ∧
      mergedData (segmentsOf bytes fileName) = some module.localData := by
  rw [getMergedModule, hsegs, Option.bind_eq_bind, Option.bind_some, if_neg hne] at h
  cases hdata : mergedData (segmentsOf bytes fileName) with
  | none =>
    rw [hdata] at h
    cases h
  | some data =>
    rw [hdata] at h
    cases h
    exact ⟨rfl, rfl, rfl⟩

/-- In an image, the segments are where they belong. -/
theorem Image.exact {module : Module} (h : Image bytes module)
    (hstart : module.start = minStart (segmentsOf bytes fileName))
    (hstop : module.stop = maxEnd (segmentsOf bytes fileName))
    (hdata : mergedData (segmentsOf bytes fileName) = some module.localData)
    (hpos : ∀ i ∈ loadedHeaders bytes, 0 < p_filesz bytes i) : Exact bytes fileName := by
  have hlength := length_mergedData hdata
  have hread {l : List Byte} {q : Int} {x : Byte} (hx : byteAt l q = some x) : 0 ≤ q ∧ q < l.length := by
    by_contra hout
    rw [byteAt_eq_none_iff.mpr (by omega)] at hx
    cases hx
  refine ⟨fun i hi => ?_, fun i hi => ?_, ?_, fun i hi j hj k m hk hkl hm hml heq => ?_⟩
  · obtain ⟨x, -, hfirst⟩ := h.placed i hi 0 le_rfl (hpos i hi)
    obtain ⟨y, -, hlast⟩ := h.placed i hi (p_filesz bytes i - 1) (by have := hpos i hi; omega) (by omega)
    have := (hread hfirst).1
    have := (hread hlast).2
    omega
  · obtain ⟨y, hlast, -⟩ := h.placed i hi (p_filesz bytes i - 1) (by have := hpos i hi; omega) (by omega)
    have := (hread hlast).2
    omega
  · -- the last place of the module is covered, or is zero
    by_contra hlong
    have hplace : ∃ x, byteAt module.localData (module.stop - module.start - 1) = some x := by
      by_cases hcovered : ∃ i ∈ loadedHeaders bytes, ∃ k, 0 ≤ k ∧ k < p_filesz bytes i ∧
          module.stop - module.start - 1 = segmentStart bytes i - module.start + k
      · obtain ⟨i, hi, k, hk, hkl, heq⟩ := hcovered
        obtain ⟨x, hx, -⟩ := h.placed i hi k hk hkl
        exact ⟨x, heq ▸ hx⟩
      · have hfits := fits_of_mergedData hdata
        have hnonneg := hfits.1
        refine ⟨0, h.zero _ (by omega) (by omega) fun i hi k hk hkl heq => hcovered ⟨i, hi, k, hk, hkl, heq⟩⟩
    obtain ⟨x, hx⟩ := hplace
    have := (hread hx).2
    omega
  · obtain ⟨x, hx, hbyte⟩ := h.placed i hi k hk hkl
    obtain ⟨y, hy, hbyte'⟩ := h.placed j hj m hm hml
    have hplace : segmentStart bytes i - module.start + k = segmentStart bytes j - module.start + m := by omega
    rw [hplace, hy] at hx
    rw [hbyte, hbyte', hx]

/-- The bytes of a segment that lies in the file. -/
theorem data_spec {h : Phdr} (hsize : bytes.length < 2 ^ 31)
    (hin : 0 ≤ h.fileOff ∧ h.fileOff + h.filesz ≤ bytes.length) (hpos : 0 < h.filesz) :
    ((h.data bytes).length : Int) = h.filesz ∧
      ∀ k : Nat, (k : Int) < h.filesz → (h.data bytes)[k]? = byteAt bytes (h.fileOff + k) := by
  have hoff : wrap32 h.fileOff = h.fileOff := wrap32_eq_self (by omega) (by omega)
  have hend : wrap32 (h.fileOff + h.filesz) = h.fileOff + h.filesz := wrap32_eq_self (by omega) (by omega)
  rw [Phdr.data, hoff, hend]
  refine ⟨by rw [List.length_drop, List.length_take]; omega, fun k hk => ?_⟩
  have hindex : (h.fileOff + k).toNat = h.fileOff.toNat + k := by omega
  rw [List.getElem?_drop, List.getElem?_take_of_lt (by omega), byteAt, if_pos (by omega), hindex]

section Runs

variable {module : Module} (h : Exact bytes fileName) (hsize : bytes.length < 2 ^ 31)
  (hstart : module.start = minStart (segmentsOf bytes fileName))
  (hpos : ∀ i ∈ loadedHeaders bytes, 0 < p_filesz bytes i)
include h hstart hpos

/-- The run of a segment goes to the segment's place. -/
theorem Exact.place (hi : i ∈ loadedHeaders bytes) :
    0 ≤ segmentStart bytes i - module.start ∧
      offsetInMerged (segmentsOf bytes fileName) ((table bytes).segment bytes fileName i) =
        segmentStart bytes i - module.start := by
  have htotal : totalSize (segmentsOf bytes fileName) < 2 ^ 31 := (wrap32_bounds _).2
  have hle : minStart (segmentsOf bytes fileName) ≤ segmentStart bytes i := minStart_le (List.mem_map_of_mem hi)
  have hin := h.inModule i hi
  have := hpos i hi
  refine ⟨by omega, ?_⟩
  change wrap32 (wrap64 (segmentStart bytes i - minStart (segmentsOf bytes fileName))) = _
  rw [wrap32_wrap64, wrap32_eq_self (by omega) (by omega), hstart]

include hsize

/-- It covers as many places as the segment has bytes in the file. -/
theorem Exact.overlays_iff (hi : i ∈ loadedHeaders bytes) {q : Nat} :
    Overlays (runOf (segmentsOf bytes fileName) ((table bytes).segment bytes fileName i)) q ↔
      segmentStart bytes i - module.start ≤ q ∧ q < segmentStart bytes i - module.start + p_filesz bytes i := by
  obtain ⟨hnonneg, hoff⟩ := h.place hstart hpos hi
  obtain ⟨hlen, -⟩ := data_spec hsize (h.inFile i hi) (hpos i hi)
  rw [Overlays, runOf, hoff]
  change _ ∧ q < _ + (((table bytes).phdr bytes i).data bytes).length ↔ _ ∧
    _ < _ + ((table bytes).phdr bytes i).filesz
  omega

/-- It has the bytes of the file. -/
theorem Exact.run_byte (hi : i ∈ loadedHeaders bytes) {q : Nat}
    (hover : Overlays (runOf (segmentsOf bytes fileName) ((table bytes).segment bytes fileName i)) q) :
    ((table bytes).segment bytes fileName i).localData[q -
        (runOf (segmentsOf bytes fileName) ((table bytes).segment bytes fileName i)).1]? =
      byteAt bytes (p_offset bytes i + (q - (segmentStart bytes i - module.start))) := by
  obtain ⟨hnonneg, hoff⟩ := h.place hstart hpos hi
  obtain ⟨hlo, hhi⟩ := (h.overlays_iff hsize hstart hpos hi).mp hover
  obtain ⟨-, hdata⟩ := data_spec hsize (h.inFile i hi) (hpos i hi)
  have hindex : ((q - (segmentStart bytes i - module.start).toNat : Nat) : Int) =
      q - (segmentStart bytes i - module.start) := by omega
  have hlt : ((q - (segmentStart bytes i - module.start).toNat : Nat) : Int) < p_filesz bytes i := by omega
  rw [runOf, hoff, p_offset, ← hindex]
  exact hdata _ hlt

/-- Segments that are where they belong make an image. -/
theorem Exact.image (hstop : module.stop = maxEnd (segmentsOf bytes fileName))
    (hdata : mergedData (segmentsOf bytes fileName) = some module.localData) : Image bytes module := by
  refine ⟨fun i hi k hk hkl => ?_, fun q hq hqs hnone => ?_⟩
  · obtain ⟨hnonneg, -⟩ := h.place hstart hpos hi
    obtain ⟨q, hq⟩ := Int.eq_ofNat_of_zero_le (show 0 ≤ segmentStart bytes i - module.start + k by omega)
    have hin := h.inFile i hi
    obtain ⟨x, hx⟩ : ∃ x, byteAt bytes (p_offset bytes i + k) = some x := by
      refine Option.ne_none_iff_exists'.mp fun hnone => ?_
      have := byteAt_eq_none_iff.mp hnone
      omega
    refine ⟨x, ?_, hx⟩
    rw [hq, byteAt, if_pos (Int.natCast_nonneg q), Int.toNat_natCast]
    obtain ⟨seg, hseg, hover, heq⟩ | ⟨hnone, -⟩ := mergedData_cases hdata q
    · obtain ⟨j, hj, rfl⟩ := List.mem_map.mp hseg
      obtain ⟨hlo, hhi⟩ := (h.overlays_iff hsize hstart hpos hj).mp hover
      rw [heq, h.run_byte hsize hstart hpos hj hover, ← hx]
      exact (h.agree i hi j hj _ _ hk hkl (by omega) (by omega) (by omega)).symm
    · exact absurd ((h.overlays_iff hsize hstart hpos hi).mpr ⟨by omega, by omega⟩)
        (hnone _ (List.mem_map_of_mem hi))
  · obtain ⟨n, rfl⟩ := Int.eq_ofNat_of_zero_le hq
    rw [byteAt, if_pos (Int.natCast_nonneg n), Int.toNat_natCast]
    obtain ⟨seg, hseg, hover, -⟩ | ⟨-, heq⟩ := mergedData_cases hdata n
    · obtain ⟨j, hj, rfl⟩ := List.mem_map.mp hseg
      obtain ⟨hlo, hhi⟩ := (h.overlays_iff hsize hstart hpos hj).mp hover
      exact absurd (by omega) (hnone j hj (n - (segmentStart bytes j - module.start)) (by omega) (by omega))
    · have hwhole := h.whole
      have htotal : totalSize (segmentsOf bytes fileName) < 2 ^ 31 := (wrap32_bounds _).2
      rw [heq, List.getElem?_replicate, if_pos (by omega)]

end Runs

theorem p_filesz_pos : ∀ i ∈ loadedHeaders bytes, 0 < p_filesz bytes i := by
  intro i hi
  rw [loadedHeaders] at hi
  split at hi
  · have haccepted := of_decide_eq_true (List.mem_filter.mp hi).2
    exact haccepted.2.1
  · cases hi

/-- `getSegments` returns iff both loops do, and then the segments of the file. -/
theorem getSegments_eq_iff (hsize : bytes.length < 2 ^ 31) (fileName : Text) :
    getSegments bytes fileName = some (segmentsOf bytes fileName) ↔
      (isElf bytes ∧ 64 ≤ bytes.length → (table bytes).Reads bytes) := by
  by_cases helf : isElf bytes ∧ 64 ≤ bytes.length
  · obtain ⟨hreads, hfails⟩ := getSegments_spec helf.2 hsize helf.1 fileName
    rw [segmentsOf, loadedHeaders, if_pos helf]
    refine ⟨fun h _ => ?_, fun h => hreads (h helf)⟩
    by_contra hnot
    rw [hfails hnot] at h
    cases h
  · have hguard : ¬ isElf bytes ∨ bytes.length < 64 := by
      rcases not_and_or.mp helf with h | h
      · exact .inl h
      · exact .inr (by omega)
    rw [segmentsOf, loadedHeaders, if_neg helf, getSegments, if_pos hguard]
    exact iff_of_true rfl fun h => absurd h helf

/-- A file is opened as the image that its headers ask for iff the headers that are reached are read and copied, the
segments fit into the module and, where they do not overlap, lie in the file and the module as a whole. -/
theorem loaded_iff (hsize : bytes.length < 2 ^ 31) (fileName : Text) :
    Loaded bytes fileName ↔ (isElf bytes ∧ 64 ≤ bytes.length → (table bytes).Reads bytes) ∧
      (segmentsOf bytes fileName ≠ [] → Fits (segmentsOf bytes fileName) ∧
        (NoOverlap (segmentsOf bytes fileName) → Exact bytes fileName)) := by
  constructor
  · rintro ⟨hsegs, ⟨module?, hmodule⟩, himage⟩
    refine ⟨(getSegments_eq_iff hsize fileName).mp hsegs, fun hne => ?_⟩
    have hreturns := hmodule
    rw [getMergedModule, hsegs, Option.bind_eq_bind, Option.bind_some, if_neg hne] at hreturns
    cases hdata : mergedData (segmentsOf bytes fileName) with
    | none =>
      rw [hdata] at hreturns
      cases hreturns
    | some data =>
      rw [hdata] at hreturns
      cases hreturns
      refine ⟨fits_of_mergedData hdata, fun hapart => ?_⟩
      exact (himage _ hmodule hapart).exact rfl rfl hdata p_filesz_pos
  · rintro ⟨hreads, hfits⟩
    have hsegs := (getSegments_eq_iff hsize fileName).mpr hreads
    refine ⟨hsegs, ?_, fun module hmodule hapart => ?_⟩
    · rw [getMergedModule, hsegs, Option.bind_eq_bind, Option.bind_some]
      by_cases hne : segmentsOf bytes fileName = []
      · exact ⟨none, if_pos hne⟩
      · rw [if_neg hne, (mergedData_spec _).1 (hfits hne).1]
        exact ⟨_, rfl⟩
    · have hne : segmentsOf bytes fileName ≠ [] := by
        intro hnil
        rw [getMergedModule, hsegs, Option.bind_eq_bind, Option.bind_some, if_pos hnil] at hmodule
        cases hmodule
      obtain ⟨hstart, hstop, hdata⟩ := getMergedModule_eq hsegs hne hmodule
      exact ((hfits hne).2 hapart).image hsize hstart p_filesz_pos hstop hdata

end Images

/-! ## Files -/

/-- A 64-bit file with a table of one program header. -/
def elfFile (phoff filesz memsz : Nat) : List Byte :=
  [0x7F, 0x45, 0x4C, 0x46, 2] ++ List.replicate 27 0 ++ leBytes 8 phoff ++ List.replicate 14 0 ++ leBytes 2 56 ++
    leBytes 2 1 ++ List.replicate 6 0 ++ leBytes 4 1 ++ leBytes 4 5 ++ leBytes 8 120 ++ leBytes 8 0x1000 ++
    leBytes 8 0 ++ leBytes 8 filesz ++ leBytes 8 memsz ++ leBytes 8 16 ++ [0x41, 0x42, 0x43, 0x44]

/-- Four bytes of a segment of six. -/
def soundFile : List Byte := elfFile 64 4 6

theorem loaded_soundFile : Loaded soundFile "eboot.bin".toList := by
  have hheaders : loadedHeaders soundFile = [0] := by decide +kernel
  have hread : ∀ i ∈ (table soundFile).headers soundFile, (table soundFile).HeaderReads soundFile i := by
    have hlist : (table soundFile).headers soundFile = [0] := by decide +kernel
    rw [hlist, List.forall_mem_singleton]
    exact ⟨by decide +kernel, fun _ => ⟨by decide +kernel, fun _ => by decide +kernel⟩⟩
  have hfits : Fits (segmentsOf soundFile "eboot.bin".toList) := ⟨by decide +kernel, by decide +kernel⟩
  refine (loaded_iff (by decide +kernel) _).mpr
    ⟨fun _ => ⟨⟨by decide +kernel, by decide +kernel⟩, hread⟩, fun _ => ⟨hfits, fun _ => ?_⟩⟩
  refine ⟨?_, ?_, by decide +kernel, ?_⟩
  · rw [hheaders, List.forall_mem_singleton]
    exact ⟨by decide +kernel, by decide +kernel⟩
  · rw [hheaders, List.forall_mem_singleton]
    decide +kernel
  · rw [hheaders, List.forall_mem_singleton, List.forall_mem_singleton]
    intro k m _ _ _ _ heq
    rw [Int.add_left_cancel heq]

/-- With a table before the file `getSegments` throws, and with a segment that is longer in the file than in memory
`getMergedModule` does. -/
theorem open_throws : getSegments (elfFile (2 ^ 64 - 1) 4 6) "eboot.bin".toList = none ∧
    (getSegments (elfFile 64 4 2) "eboot.bin".toList).isSome ∧
      getMergedModule (elfFile 64 4 2) "eboot.bin".toList = none :=
  ⟨by decide +kernel, by decide +kernel, by decide +kernel⟩

end ElfUtil

end Ps5Debugger
