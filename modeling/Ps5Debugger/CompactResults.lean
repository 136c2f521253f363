import Ps5Debugger.Lib.Arr

/-!
# `CompactScanResults`

`MemoryScannerView.kt` keeps the candidates of a scan in a `CompactScanResults`: the first 10000
of them in arrays, and when there are more, all of them in a temporary file as well. Values of one
length lie side by side (`uniformLen`); values of several lengths have their places and lengths in
two more arrays. Reads of the file go through a cache of up to 4096 records.

Objects are explicit states over a store of files. A method returns the new state, and whether it
came to its end: an index outside an array ends it where it stands. File I/O succeeds. The lengths
and sizes are `Nat`s: no array comes near `2 ^ 31` bytes (10000 values of at most `0xFFFF`), and the
number of items is kept below it.
-/

namespace Ps5Debugger

open Lib

namespace CompactScanResults

def MAX_MEM_ITEMS : Nat := 10000

def READ_BUF_RECORDS : Nat := 4096

/-- A `Long`. -/
abbrev Offset : Type := BitVec 64

/-! ## Files -/

/-- The temporary files, and the name of the next one. -/
structure Files where
  data : Nat → Option (List Byte)
  next : Nat

namespace Files

/-- `createTempFile`: an empty file, and its name. -/
def createTempFile (fs : Files) : Files × Nat :=
  (⟨Function.update fs.data fs.next (some []), fs.next + 1⟩, fs.next)

def append (fs : Files) (f : Nat) (bytes : List Byte) : Files :=
  { fs with data := Function.update fs.data f ((fs.data f).map (· ++ bytes)) }

def delete (fs : Files) (f : Nat) : Files := { fs with data := Function.update fs.data f none }

def exists? (fs : Files) (f : Nat) : Bool := (fs.data f).isSome

/-- The bytes of a file. -/
def read (fs : Files) (f : Nat) : List Byte := (fs.data f).getD []

end Files

/-- A `BufferedOutputStream` over a file opened for appending, with the bytes it still holds. -/
structure Writer where
  file : Nat
  pending : List Byte

/-- Write into the stream, which passes its bytes on when it is full. -/
def Writer.write (fs : Files) (w : Writer) (bytes : List Byte) : Files × Writer :=
  if w.pending.length + bytes.length < 64 * 1024 then (fs, { w with pending := w.pending ++ bytes })
  else (fs.append w.file (w.pending ++ bytes), { w with pending := [] })

/-! ## The object -/

/-- The fields of a `CompactScanResults`. -/
structure Results where
  size : Nat
  lastOffset : Offset
  uniformLen : Int
  memOffsets : Arr Offset
  memValues : Arr Byte
  memValueOffsets : Arr Nat
  memValueLengths : Arr Nat
  memTotalBytes : Nat
  tempFile : Option Nat
  diskWriter : Option Writer
  diskReader : Option Nat
  diskRecordLen : Int
  readCacheBuf : Option (Arr Byte)
  readCacheStartIdx : Int
  readCacheEndIdx : Int

/-- `CompactScanResults(initialCapacity)`. -/
def create (initialCapacity : Nat) : Results where
  size := 0
  lastOffset := BitVec.ofInt 64 (-(2 ^ 63))
  uniformLen := -1
  memOffsets := .new 0 (min initialCapacity MAX_MEM_ITEMS)
  memValues := .new 0 (min initialCapacity MAX_MEM_ITEMS * 4)
  memValueOffsets := .new 0 0
  memValueLengths := .new 0 0
  memTotalBytes := 0
  tempFile := none
  diskWriter := none
  diskReader := none
  diskRecordLen := 12
  readCacheBuf := none
  readCacheStartIdx := -1
  readCacheEndIdx := -1

/-- `flushDiskWriter`. -/
def flushDiskWriter (fs : Files) (r : Results) : Files × Results :=
  match r.diskWriter with
  | none => (fs, r)
  | some w => (fs.append w.file w.pending, { r with diskWriter := some ⟨w.file, []⟩ })

/-- `closeStreams`. -/
def closeStreams (fs : Files) (r : Results) : Files × Results :=
  let p := flushDiskWriter fs r
  (p.1, { p.2 with diskWriter := none, diskReader := none })

/-- `tempFile?.delete()`. -/
def deleteTempFile (fs : Files) (r : Results) : Files :=
  match r.tempFile with
  | none => fs
  | some f => fs.delete f

/-- `clear`. -/
def clear (fs : Files) (r : Results) : Files × Results :=
  let p := closeStreams fs r
  (deleteTempFile p.1 p.2,
    { p.2 with
      tempFile := none, size := 0, memTotalBytes := 0, uniformLen := -1,
      lastOffset := BitVec.ofInt 64 (-(2 ^ 63)), readCacheStartIdx := -1, readCacheEndIdx := -1 })

/-- The eight bytes of a `Long`, the highest first. -/
def longBytes (x : Offset) : List Byte := (leBytes 8 x.toNat).reverse

/-- The `Long` of eight bytes, the highest first. -/
def longOf (bytes : List Byte) : Offset := BitVec.ofNat 64 (leNat 8 bytes.reverse)

/-- The bytes of a record. Records of one length carry no length. -/
def recordBytes (diskRecordLen : Int) (offset : Offset) (value : List Byte) : List Byte :=
  longBytes offset ++
    (if diskRecordLen ≤ 0 then [BitVec.ofNat 8 (value.length / 256), BitVec.ofNat 8 value.length] else []) ++
    value

/-- `writeDiskRecord`. -/
def writeDiskRecord (fs : Files) (r : Results) (offset : Offset) (value : List Byte) : Files × Results :=
  match r.diskWriter with
  | none => (fs, r)
  | some out =>
    let p := out.write fs (recordBytes r.diskRecordLen offset value)
    (p.1, { r with diskWriter := some p.2 })

/-- `getMemValueBytes`. -/
def getMemValueBytes (r : Results) (index : Nat) : List Byte :=
  if ¬ index < min r.size MAX_MEM_ITEMS then []
  else if 0 < r.uniformLen then
    let srcPos := index * r.uniformLen.toNat
    if srcPos + r.uniformLen.toNat ≤ r.memValues.size then r.memValues.range srcPos r.uniformLen.toNat
    else []
  else if index < r.memValueOffsets.size ∧ index < r.memValueLengths.size then
    let srcPos := r.memValueOffsets.get index
    let vLen := r.memValueLengths.get index
    if srcPos + vLen ≤ r.memValues.size then r.memValues.range srcPos vLen else []
  else []

/-! ## Reading -/

/-- `index in readCacheStartIdx until readCacheEndIdx`. -/
def cached (r : Results) (index : Nat) : Bool :=
  decide (r.readCacheStartIdx ≤ index) && decide ((index : Int) < r.readCacheEndIdx)

/-- The record of a cached index. -/
def cachedRecord (r : Results) (cacheBuf : Arr Byte) (recLen index : Nat) : Offset × List Byte :=
  let pos := (index - r.readCacheStartIdx).toNat * recLen
  (longOf (cacheBuf.range pos 8), cacheBuf.range (pos + 8) (recLen - 8))

/-- Fill the cache from record `index` on. Nothing is read past the end of the file, nor into a
buffer that is too short: that throws, and the exception is dropped. -/
def fillCache (fs : Files) (r : Results) (file : Nat) (cacheBuf : Arr Byte) (recLen index : Nat) :
    Results :=
  let seekPos := index * recLen
  let data := fs.read file
  if data.length ≤ seekPos then r
  else
    let bytesToRead := min (READ_BUF_RECORDS * recLen) (data.length - seekPos)
    if cacheBuf.size < bytesToRead then r
    else
      { r with
        readCacheBuf := some (cacheBuf.patch 0 ((data.drop seekPos).take bytesToRead))
        readCacheStartIdx := index
        readCacheEndIdx := index + bytesToRead / recLen }

/-- The record of `index`, out of the cache, which is filled first when it does not hold it. -/
def readCached (fs : Files) (r : Results) (file : Nat) (cacheBuf : Arr Byte) (recLen index : Nat) :
    (Offset × List Byte) × Files × Results :=
  let r := if cached r index then r else fillCache fs r file cacheBuf recLen index
  if cached r index then (cachedRecord r (r.readCacheBuf.getD cacheBuf) recLen index, fs, r)
  else ((0, []), fs, r)

/-- `readDiskRecord`. -/
def readDiskRecord (fs : Files) (r : Results) (index : Nat) : (Offset × List Byte) × Files × Results :=
  match r.tempFile with
  | none => ((0, []), fs, r)
  | some file =>
    let p := flushDiskWriter fs r
    let fs := p.1
    let r := p.2
    if r.diskReader.isNone ∧ fs.exists? file = false then ((0, []), fs, r)
    else
      let r := { r with diskReader := some (r.diskReader.getD file) }
      if r.diskRecordLen ≤ 0 then ((0, []), fs, r)
      else
        let recLen := r.diskRecordLen.toNat
        let cacheBuf := r.readCacheBuf.getD (.new 0 (READ_BUF_RECORDS * recLen))
        readCached fs { r with readCacheBuf := some cacheBuf } (r.diskReader.getD file) cacheBuf recLen index

/-- `getOffset`. -/
def getOffset (fs : Files) (r : Results) (index : Nat) : Offset × Files × Results :=
  if ¬ index < r.size then (0, fs, r)
  else if index < MAX_MEM_ITEMS then (r.memOffsets.get index, fs, r)
  else
    let q := readDiskRecord fs r index
    (q.1.1, q.2)

/-- `getValueBytes`. -/
def getValueBytes (fs : Files) (r : Results) (index : Nat) : List Byte × Files × Results :=
  if ¬ index < r.size then ([], fs, r)
  else if index < MAX_MEM_ITEMS then (getMemValueBytes r index, fs, r)
  else
    let q := readDiskRecord fs r index
    (q.1.2, q.2)

/-! ## Adding -/

/-- What `add` does to the layout: the first value sets the length, a value of another length ends
the uniform layout. -/
def setLayout (r : Results) (vLen : Nat) : Results :=
  if r.size = 0 then { r with uniformLen := vLen, diskRecordLen := 8 + vLen }
  else if 0 < r.uniformLen ∧ r.uniformLen ≠ vLen then { r with uniformLen := -1, diskRecordLen := -1 }
  else r

/-- Room for one more offset. -/
def growOffsets (r : Results) : Results :=
  if r.size ≥ r.memOffsets.size then
    { r with memOffsets := r.memOffsets.copyOf 0 (min MAX_MEM_ITEMS (max (r.memOffsets.size * 2) 100)) }
  else r

/-- Store a value at `destPos` of `memValues`, with room made for it. -/
def putValue (r : Results) (destPos : Nat) (value : List Byte) : Results :=
  let memValues := if destPos + value.length > r.memValues.size then
      r.memValues.copyOf 0 (max (r.memValues.size * 2) (destPos + value.length + 1024))
    else r.memValues
  { r with memValues := memValues.patch destPos value, memTotalBytes := destPos + value.length }

/-- The two arrays of the variable layout, made when first needed. -/
def ensureValueArrays (r : Results) : Results :=
  if r.memValueOffsets.size = 0 then
    { r with memValueOffsets := .new 0 MAX_MEM_ITEMS, memValueLengths := .new 0 MAX_MEM_ITEMS }
  else r

/-- The branch of `add` for the first 10000 items, and whether it ends without an exception. -/
def addMem (r : Results) (offset : Offset) (value : List Byte) : Results × Bool :=
  let r := growOffsets r
  if ¬ r.size < r.memOffsets.size then (r, false)
  else
    let r := { r with memOffsets := r.memOffsets.set r.size offset }
    if 0 < r.uniformLen then (putValue r (r.size * r.uniformLen.toNat) value, true)
    else
      let r := ensureValueArrays r
      if ¬ (r.size < r.memValueOffsets.size ∧ r.size < r.memValueLengths.size) then (r, false)
      else
        let r := { r with
          memValueOffsets := r.memValueOffsets.set r.size r.memTotalBytes
          memValueLengths := r.memValueLengths.set r.size value.length }
        (putValue r r.memTotalBytes value, true)

/-- Write the records of the items in memory. -/
def writeMemRecords (fs : Files) (r : Results) : Files × Results :=
  (List.range (min r.size r.memOffsets.size)).foldl
    (fun p i => writeDiskRecord p.1 p.2 (r.memOffsets.get i) (getMemValueBytes r i)) (fs, r)

/-- The file of an object that has none yet; an index past the array of offsets ends the copying. -/
def openTempFile (fs : Files) (r : Results) : Files × Results :=
  match r.tempFile with
  | some _ => (fs, r)
  | none =>
    let p := fs.createTempFile
    writeMemRecords p.1 { r with tempFile := some p.2, diskWriter := some ⟨p.2, []⟩ }

/-- `add`, and whether it ends without an exception. -/
def add (fs : Files) (r : Results) (offset : Offset) (value : List Byte) : Files × Results × Bool :=
  if 0 < r.size ∧ r.lastOffset = offset then (fs, r, true)
  else
    let r := setLayout r value.length
    if r.size < MAX_MEM_ITEMS then
      let p := addMem r offset value
      if p.2 then (fs, { p.1 with lastOffset := offset, size := p.1.size + 1 }, true) else (fs, p.1, false)
    else
      let p := openTempFile fs r
      let p := writeDiskRecord p.1 p.2 offset value
      (p.1, { p.2 with lastOffset := offset, size := p.2.size + 1 }, true)

/-! ## Copies -/

/-- The object that `snapshot` returns, but for its file. -/
def copyMem (r : Results) : Results :=
  let n := min r.size MAX_MEM_ITEMS
  { create n with
    size := r.size, uniformLen := r.uniformLen, lastOffset := r.lastOffset, diskRecordLen := r.diskRecordLen
    memOffsets := r.memOffsets.copyOf 0 n, memValues := r.memValues.copyOf 0 r.memTotalBytes
    memValueOffsets := r.memValueOffsets.copyOf 0 n, memValueLengths := r.memValueLengths.copyOf 0 n
    memTotalBytes := r.memTotalBytes }

/-- `snapshot`: the files, the object itself and the copy. -/
def snapshot (fs : Files) (r : Results) : Files × Results × Results :=
  let p := flushDiskWriter fs r
  match p.2.tempFile with
  | none => (p.1, p.2, copyMem p.2)
  | some curFile =>
    if p.1.exists? curFile then
      let q := p.1.createTempFile
      (q.1.append q.2 (p.1.read curFile), p.2, { copyMem p.2 with tempFile := some q.2 })
    else (p.1, p.2, copyMem p.2)

/-! ## Several objects -/

/-- Variables that hold objects, and the files. -/
structure World where
  objs : Nat → Results
  files : Files

/-- Object `k` after a method call. -/
def World.set (w : World) (k : Nat) (p : Files × Results) : World :=
  ⟨Function.update w.objs k p.2, p.1⟩

/-- The fields that `replaceWith` copies. -/
def copyFrom (r o : Results) : Results :=
  { r with
    size := o.size, uniformLen := o.uniformLen, lastOffset := o.lastOffset, diskRecordLen := o.diskRecordLen
    memOffsets := o.memOffsets.copyOf 0 o.memOffsets.size, memValues := o.memValues.copyOf 0 o.memValues.size
    memValueOffsets := o.memValueOffsets.copyOf 0 o.memValueOffsets.size
    memValueLengths := o.memValueLengths.copyOf 0 o.memValueLengths.size
    memTotalBytes := o.memTotalBytes }

/-- How `replaceWith` ends: the file of the other object becomes this one's. -/
def transferFile (w : World) (k j : Nat) : World :=
  let w := w.set j (flushDiskWriter w.files (w.objs j))
  let w := w.set j (closeStreams w.files (w.objs j))
  let w := w.set k (w.files, { w.objs k with tempFile := (w.objs j).tempFile })
  let w := w.set j (w.files, { w.objs j with tempFile := none })
  w.set k (w.files, { w.objs k with readCacheStartIdx := -1, readCacheEndIdx := -1 })

/-- `replaceWith`, statement after statement: the two objects may be one. -/
def replaceWith (w : World) (k j : Nat) : World :=
  let w := w.set k (closeStreams w.files (w.objs k))
  let w := w.set k (deleteTempFile w.files (w.objs k), w.objs k)
  let w := w.set k (w.files, copyFrom (w.objs k) (w.objs j))
  transferFile w k j

/-- `other.getOffset(i)` and `other.getValueBytes(i)`. -/
def World.item (w : World) (j i : Nat) : (Offset × List Byte) × World :=
  let a := getOffset w.files (w.objs j) i
  let w := w.set j a.2
  let b := getValueBytes w.files (w.objs j) i
  ((a.1, b.1), w.set j b.2)

/-- One round of the loop of `addAll`. -/
def addItem (k j : Nat) (p : World × Bool) (i : Nat) : World × Bool :=
  if p.2 then
    let q := p.1.item j i
    let a := add q.2.files (q.2.objs k) q.1.1 q.1.2
    (q.2.set k (a.1, a.2.1), a.2.2)
  else p

/-- `addAll`; an exception ends the loop. -/
def addAll (w : World) (k j : Nat) : World :=
  ((List.range (w.objs j).size).foldl (addItem k j) (w, true)).1

/-- The operations of a program with `CompactScanResults` in its variables. -/
inductive Op : Type where
  | create (k initialCapacity : Nat)
  | add (k : Nat) (offset : Offset) (value : List Byte)
  | addAll (k j : Nat)
  | clear (k : Nat)
  | replaceWith (k j : Nat)
  /-- `j = k.snapshot()` -/
  | snapshot (k j : Nat)
  | getOffset (k index : Nat)
  | getValueBytes (k index : Nat)

/-- One operation. -/
def World.step (w : World) : Op → World
  | .create k n => w.set k (w.files, CompactScanResults.create n)
  | .add k offset value =>
    let a := CompactScanResults.add w.files (w.objs k) offset value
    w.set k (a.1, a.2.1)
  | .addAll k j => CompactScanResults.addAll w k j
  | .clear k => w.set k (CompactScanResults.clear w.files (w.objs k))
  | .replaceWith k j => CompactScanResults.replaceWith w k j
  | .snapshot k j =>
    let s := CompactScanResults.snapshot w.files (w.objs k)
    (w.set k (s.1, s.2.1)).set j (s.1, s.2.2)
  | .getOffset k index => w.set k (CompactScanResults.getOffset w.files (w.objs k) index).2
  | .getValueBytes k index => w.set k (CompactScanResults.getValueBytes w.files (w.objs k) index).2

/-- Variables that hold new objects, of any capacities. -/
def World.init (capacity : Nat → Nat) : World := ⟨fun k => CompactScanResults.create (capacity k), ⟨fun _ => none, 0⟩⟩

end CompactScanResults

end Ps5Debugger
