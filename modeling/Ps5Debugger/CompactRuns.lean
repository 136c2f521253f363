import Ps5Debugger.CompactAdd
import Ps5Debugger.Lib.Machine

/-!
# Runs over several `CompactScanResults`

A program over several objects, next to the same program over lists. `WorldOk w Ls`: every object
represents its list, and no two objects have one file, so what `Own` allows an object to do to its
file does not reach another.
-/

namespace Ps5Debugger

open Lib

namespace CompactScanResults

/-! ## One object -/

variable {fs fs' : Files} {r r' o : Results} {L : List Item}

theorem not_cached (hend : r.readCacheEndIdx = -1) (i : Nat) : cached r i ≠ true := by
  rw [cached, hend, ne_eq, Bool.and_eq_true, decide_eq_true_eq, decide_eq_true_eq]
  omega

/-- An object without items and without a file, whatever its arrays are. -/
theorem represents_nil (hsize : r.size = 0) (htotal : r.memTotalBytes = 0)
    (harr : r.memValueLengths.size = r.memValueOffsets.size) (ht : r.tempFile = none) (hw : r.diskWriter = none)
    (hr : r.diskReader = none) (hend : r.readCacheEndIdx = -1) : Represents fs r [] where
  size := hsize
  last := fun _ h => by cases h
  layout := fun h => absurd rfl h
  uniform := fun _ _ h => absurd h List.not_mem_nil
  mem := {
    empty := fun _ => htotal
    offsetsRoom := Nat.zero_le _
    offsets := fun _ _ _ h => by cases h
    arrays := harr
    variableRoom := fun _ => Nat.zero_le _
    total := htotal ▸ Nat.zero_le _
    uniformTotal := fun _ => by rw [htotal, List.length_nil, Nat.zero_min, Nat.zero_mul]
    values := fun _ _ _ h => by cases h }
  disk := {
    small := fun _ => ht
    large := fun h => absurd h (Nat.not_lt_zero _)
    writer := fun _ h => by rw [hw] at h; cases h
    reader := fun _ h => by rw [hr] at h; cases h
    cache := fun i h => absurd h (not_cached hend i)
    cacheRoom := fun h => absurd h (Nat.not_lt_zero _) }

theorem represents_create (n : Nat) : Represents fs (create n) [] :=
  represents_nil rfl rfl rfl rfl rfl rfl rfl

/-- Closing the streams and deleting the file touches no other file. -/
theorem own_delete (h : Represents fs r L) (hr : r'.tempFile = none) :
    Own fs (deleteTempFile (closeStreams fs r).1 (closeStreams fs r).2) r r' := by
  obtain ⟨_, hown, _⟩ := flush_spec h
  have ht : (closeStreams fs r).2.tempFile = r.tempFile := flushDiskWriter_tempFile
  refine ⟨hown.next.trans ?_, fun f hlt hne => ?_, fun f hf => ?_⟩
  · unfold deleteTempFile
    split <;> exact le_refl _
  · rw [← hown.others f hlt hne, deleteTempFile, ht]
    split
    · rfl
    · next g hg => exact Function.update_of_ne (fun e => hne (by rw [hg, e])) _ _
  · rw [hr] at hf
    cases hf

theorem clear_spec (h : Represents fs r L) :
    Represents (clear fs r).1 (clear fs r).2 [] ∧ Own fs (clear fs r).1 r (clear fs r).2 :=
  ⟨represents_nil rfl rfl (flush_spec h).1.mem.arrays rfl rfl rfl rfl, own_delete h rfl⟩

/-- Copies of the arrays that are long enough hold the same items. -/
theorem Mem.copied (h : Mem r L) {c : Results} {n m v : Nat} (hu : c.uniformLen = r.uniformLen)
    (htotal : c.memTotalBytes = r.memTotalBytes) (hoffs : c.memOffsets = r.memOffsets.copyOf 0 n)
    (hvoffs : c.memValueOffsets = r.memValueOffsets.copyOf 0 m)
    (hvlens : c.memValueLengths = r.memValueLengths.copyOf 0 m) (hvals : c.memValues = r.memValues.copyOf 0 v)
    (hn : min L.length MAX_MEM_ITEMS ≤ n) (hm : ¬ 0 < r.uniformLen → min L.length MAX_MEM_ITEMS ≤ m)
    (hv : r.memTotalBytes ≤ v) : Mem c L := by
  have hidx : ∀ i x, i < MAX_MEM_ITEMS → L[i]? = some x → i < min L.length MAX_MEM_ITEMS := fun i x hi hx =>
    lt_min (List.getElem?_eq_some_iff.mp hx).1 hi
  constructor
  case empty => exact fun hnil => htotal.trans (h.empty hnil)
  case offsetsRoom => rwa [hoffs]
  case offsets =>
    intro i x hi hx
    rw [hoffs, Arr.get_copyOf ((hidx i x hi hx).trans_le h.offsetsRoom)]
    exact h.offsets i x hi hx
  case arrays => rw [hvoffs, hvlens, Arr.size_copyOf, Arr.size_copyOf]
  case variableRoom =>
    intro hvar
    rw [hu] at hvar
    rw [hvoffs]
    exact hm hvar
  case total =>
    rw [hvals, htotal]
    exact hv
  case uniformTotal =>
    intro hpos
    rw [hu] at hpos ⊢
    exact htotal.trans (h.uniformTotal hpos)
  case values =>
    intro i x hi hx
    obtain ⟨hin, hlen, hval⟩ := h.values i x hi hx
    have hplace : place c i = place r i := by
      by_cases hpos : 0 < r.uniformLen
      · rw [place_uniform hpos, place_uniform (by rw [hu]; exact hpos), hu]
      · have hroom := (hidx i x hi hx).trans_le (h.variableRoom hpos)
        rw [place_variable hpos, place_variable (by rw [hu]; exact hpos), hvoffs, hvlens, Arr.get_copyOf hroom,
          Arr.get_copyOf (h.arrays.symm ▸ hroom)]
    rw [hplace, htotal, hvals, Arr.range_copyOf (hin.trans h.total)]
    exact ⟨hin, hlen, hval⟩

theorem tempFile_eq_none_iff (h : Represents fs r L) : r.tempFile = none ↔ L.length ≤ MAX_MEM_ITEMS := by
  refine ⟨fun ht => ?_, h.disk.small⟩
  by_contra hlen
  obtain ⟨f, hf, _⟩ := h.disk.large (not_le.mp hlen)
  rw [ht] at hf
  cases hf

/-- An object with its own arrays for a list, and a file that holds the records of it. -/
theorem Represents.withFile (h : Represents fs r L) {c : Results} (hmem : Mem c L) (hsize : c.size = r.size)
    (hlast : c.lastOffset = r.lastOffset) (hu : c.uniformLen = r.uniformLen)
    (hrl : c.diskRecordLen = r.diskRecordLen) (hw : c.diskWriter = none) (hr : c.diskReader = none)
    (hend : c.readCacheEndIdx = -1) (hbuf : c.tempFile.isSome = true → c.readCacheBuf = none)
    (hnone : L.length ≤ MAX_MEM_ITEMS → c.tempFile = none)
    (hsome : MAX_MEM_ITEMS < L.length → ∃ f, c.tempFile = some f ∧ fs'.data f = some (L.flatMap record)) :
    Represents fs' c L where
  size := hsize.trans h.size
  last := fun x hx => hlast.trans (h.last x hx)
  layout := fun hne => by
    rw [hrl, hu]
    exact h.layout hne
  uniform := fun hpos => by
    rw [hu] at hpos ⊢
    exact h.uniform hpos
  mem := hmem
  disk := {
    small := hnone
    large := fun hlen => by
      obtain ⟨f, hf, hdata⟩ := hsome hlen
      obtain ⟨_, _, _, _, hall⟩ := h.disk.large hlen
      refine ⟨f, hf, by rw [hdata]; rfl, ?_, by rw [hu]; exact hall⟩
      rw [stored, Files.read, hdata, hw, Option.map_none, Option.getD_none, List.append_nil, Option.getD_some]
    writer := fun _ hv => by rw [hw] at hv; cases hv
    reader := fun _ hv => by rw [hr] at hv; cases hv
    cache := fun i hi => absurd hi (not_cached hend i)
    cacheRoom := fun hlen b hb => by
      obtain ⟨f, hf, _⟩ := hsome hlen
      rw [hbuf (by rw [hf]; rfl)] at hb
      cases hb }

/-- `snapshot`: both objects represent the list, and the copy's file is a new one. -/
theorem snapshot_spec (h : Represents fs r L) (hfresh : ∀ f, r.tempFile = some f → f < fs.next) :
    Represents (snapshot fs r).1 (snapshot fs r).2.1 L ∧ Represents (snapshot fs r).1 (snapshot fs r).2.2 L ∧
      Own fs (snapshot fs r).1 r (snapshot fs r).2.1 ∧
      ∀ f, (snapshot fs r).2.2.tempFile = some f →
        fs.next ≤ f ∧ f < (snapshot fs r).1.next ∧ (snapshot fs r).2.1.tempFile ≠ some f := by
  obtain ⟨hrep, hown, _⟩ := flush_spec h
  have ht : (flushDiskWriter fs r).2.tempFile = r.tempFile := flushDiskWriter_tempFile
  unfold snapshot
  dsimp only
  by_cases hlen : MAX_MEM_ITEMS < L.length
  · obtain ⟨f, hf, hs, hfile⟩ := flushed_file h hlen
    have hnext := hown.next
    have hflt := hfresh f hf
    generalize flushDiskWriter fs r = p at hrep hown ht hs hfile hnext ⊢
    obtain ⟨fs', r'⟩ := p
    dsimp only at hrep hown ht hs hfile hnext ⊢
    rw [ht, hf]
    dsimp only
    rw [Files.exists?, if_pos hs]
    have hother : ∀ g, g ≠ fs'.next →
        ((Files.createTempFile fs').1.append fs'.next (fs'.read f)).data g = fs'.data g := fun g hg => by
      rw [data_append_ne hg]
      exact Function.update_of_ne hg _ _
    have hnew : ((Files.createTempFile fs').1.append fs'.next (fs'.read f)).data fs'.next =
        some (L.flatMap record) := by
      simp [Files.append, Files.createTempFile, hfile]
    refine ⟨hrep.congr fun g hg => ?_, ?_, hown.trans ⟨Nat.le_succ _, fun g hg _ => hother g hg.ne,
      fun g hg => .inl hg⟩,
      fun g hg => ?_⟩
    · rw [ht, hf] at hg
      obtain rfl := Option.some.inj hg
      exact hother _ (by omega)
    · have hn : min L.length MAX_MEM_ITEMS ≤ min r'.size MAX_MEM_ITEMS := by rw [hrep.size]
      exact hrep.withFile (hrep.mem.copied rfl rfl rfl rfl rfl rfl hn (fun _ => hn) (le_refl _)) rfl rfl rfl rfl rfl
        rfl rfl (fun _ => rfl) (fun hle => absurd hlen (not_lt.mpr hle)) (fun _ => ⟨fs'.next, rfl, hnew⟩)
    · obtain rfl := Option.some.inj hg
      refine ⟨hnext, Nat.lt_succ_self _, fun he => ?_⟩
      rw [ht, hf] at he
      have := Option.some.inj he
      dsimp only [Files.createTempFile] at this
      omega
  · have hnone : r.tempFile = none := (tempFile_eq_none_iff h).mpr (not_lt.mp hlen)
    have hn : min L.length MAX_MEM_ITEMS ≤ min (flushDiskWriter fs r).2.size MAX_MEM_ITEMS := by rw [hrep.size]
    rw [ht, hnone]
    dsimp only
    exact ⟨hrep, hrep.withFile (hrep.mem.copied rfl rfl rfl rfl rfl rfl hn (fun _ => hn) (le_refl _)) rfl rfl rfl rfl
      rfl rfl rfl (fun _ => rfl) (fun _ => rfl) (fun hlt => absurd hlt hlen), hown, fun f hf => by cases hf⟩

/-! ## `replaceWith` -/

/-- What `replaceWith` leaves in an object, when the other one has no file. -/
def replaced (r o : Results) : Results :=
  { copyFrom { r with diskWriter := none, diskReader := none } o with
    tempFile := none, readCacheStartIdx := -1, readCacheEndIdx := -1 }

theorem replaced_spec (h : Represents fs o L) (hlen : L.length ≤ MAX_MEM_ITEMS) :
    Represents fs' (replaced r o) L :=
  have hvlens : (replaced r o).memValueLengths = o.memValueLengths.copyOf 0 o.memValueOffsets.size := by
    rw [← h.mem.arrays]
    rfl
  h.withFile (h.mem.copied rfl rfl rfl rfl hvlens rfl h.mem.offsetsRoom h.mem.variableRoom h.mem.total)
    rfl rfl rfl rfl rfl rfl rfl (fun hs => by cases hs) (fun _ => rfl) (fun hlt => absurd hlt (not_lt.mpr hlen))

namespace World

variable {w : World} {k j : Nat} {p q : Files × Results}

@[simp] theorem files_set : (w.set k p).files = p.1 := rfl

@[simp] theorem objs_set : (w.set k p).objs k = p.2 := Function.update_self (β := fun _ => Results) k p.2 w.objs

theorem objs_set_ne (h : j ≠ k) : (w.set k p).objs j = w.objs j :=
  Function.update_of_ne (β := fun _ => Results) h p.2 w.objs

@[simp] theorem set_set : (w.set k p).set k q = w.set k q := by
  rw [World.set, World.set, World.set, Function.update_idem]

theorem set_eq_self (h : p = (w.files, w.objs k)) : w.set k p = w := by
  rw [h, World.set, Function.update_eq_self]

end World

/-- An object without a file, and so without streams to it. -/
structure NoFile (r : Results) : Prop where
  tempFile : r.tempFile = none
  diskWriter : r.diskWriter = none
  diskReader : r.diskReader = none

theorem flushDiskWriter_noFile (h : NoFile r) : flushDiskWriter fs r = (fs, r) := by
  rw [flushDiskWriter, h.diskWriter]

theorem closeStreams_noFile (h : NoFile r) : closeStreams fs r = (fs, r) := by
  obtain ⟨_, hw, hr⟩ := h
  cases r
  subst hw hr
  rfl

theorem NoFile.eta (h : NoFile r) : { r with tempFile := none } = r := by
  obtain ⟨ht, _, _⟩ := h
  cases r
  subst ht
  rfl

theorem closeStreams_snd : (closeStreams fs r).2 = { r with diskWriter := none, diskReader := none } := by
  unfold closeStreams flushDiskWriter
  split <;> rfl

theorem transferFile_eq {w : World} {k j : Nat} (h : NoFile (w.objs j)) :
    transferFile w k j = w.set k (w.files,
      { w.objs k with tempFile := none, readCacheStartIdx := -1, readCacheEndIdx := -1 }) := by
  unfold transferFile
  rw [flushDiskWriter_noFile h, World.set_eq_self rfl]
  dsimp only
  rw [closeStreams_noFile h, World.set_eq_self rfl, h.tempFile]
  by_cases hkj : j = k
  · subst hkj
    simp only [World.objs_set, World.files_set, World.set_set]
  · have hset : ∀ c, (w.set k (w.files, c)).set j (w.files, w.objs j) = w.set k (w.files, c) := fun c =>
      World.set_eq_self (by rw [World.objs_set_ne hkj]; rfl)
    rw [World.objs_set_ne hkj, h.eta, World.files_set, hset, World.objs_set, World.files_set, World.set_set]

/-- `replaceWith` of an object without a file. -/
theorem replaceWith_eq {w : World} {k j : Nat} (h : NoFile (w.objs j)) :
    replaceWith w k j = w.set k (deleteTempFile (closeStreams w.files (w.objs k)).1 (closeStreams w.files (w.objs k)).2,
      replaced (w.objs k) (w.objs j)) := by
  unfold replaceWith
  dsimp only
  simp only [World.set_set, World.objs_set, World.files_set]
  have hsnd : (closeStreams w.files (w.objs k)).2 = _ := closeStreams_snd
  have hsame : j = k → (closeStreams w.files (w.objs k)).2 = w.objs j := by
    rintro rfl
    rw [closeStreams_noFile h]
  generalize deleteTempFile (closeStreams w.files (w.objs k)).1 (closeStreams w.files (w.objs k)).2 = del
  generalize (closeStreams w.files (w.objs k)).2 = c at hsnd hsame ⊢
  have hother : (w.set k (del, c)).objs j = w.objs j := by
    by_cases hkj : j = k
    · rw [← hsame hkj, hkj, World.objs_set]
    · exact World.objs_set_ne hkj
  have hnofile : NoFile ((w.set k (del, copyFrom c (w.objs j))).objs j) := by
    by_cases hkj : j = k
    · rw [hsame hkj, hkj, World.objs_set]
      exact ⟨(hkj ▸ h).tempFile, (hkj ▸ h).diskWriter, (hkj ▸ h).diskReader⟩
    · rw [World.objs_set_ne hkj]
      exact h
  rw [hother, transferFile_eq hnofile, World.set_set, World.objs_set, World.files_set, hsnd]
  rfl

/-! ## Several objects -/

/-- Every object represents its list, and its file is its own. -/
structure WorldOk (w : World) (Ls : Nat → List Item) : Prop where
  represents : ∀ k, Represents w.files (w.objs k) (Ls k)
  fresh : ∀ k f, (w.objs k).tempFile = some f → f < w.files.next
  apart : ∀ k l f, (w.objs k).tempFile = some f → (w.objs l).tempFile = some f → k = l

variable {w : World} {Ls : Nat → List Item}

/-- A method that represents a list afterwards, and keeps to its file, keeps the world in order. -/
theorem WorldOk.set (h : WorldOk w Ls) {k : Nat} {p : Files × Results} (hrep : Represents p.1 p.2 L)
    (hown : Own w.files p.1 (w.objs k) p.2) : WorldOk (w.set k p) (Function.update Ls k L) where
  represents := fun l => by
    by_cases hl : l = k
    · rw [hl, World.objs_set, Function.update_self]
      exact hrep
    · rw [World.objs_set_ne hl, Function.update_of_ne hl]
      exact (h.represents l).congr fun f hf => hown.others f (h.fresh l f hf) fun hk => hl (h.apart l k f hf hk)
  fresh := fun l f hf => by
    by_cases hl : l = k
    · rw [hl, World.objs_set] at hf
      rcases hown.file f hf with hold | hnew
      · exact (h.fresh k f hold).trans_le hown.next
      · exact hnew.2
    · rw [World.objs_set_ne hl] at hf
      exact (h.fresh l f hf).trans_le hown.next
  apart := by
    -- a file of the object is its old one, or newer than all others
    have hone : ∀ l f, l ≠ k → (w.objs l).tempFile = some f → p.2.tempFile ≠ some f := fun l f hl hf hk => by
      rcases hown.file f hk with hold | hnew
      · exact hl (h.apart l k f hf hold)
      · exact absurd (h.fresh l f hf) (not_lt.mpr hnew.1)
    intro l m f hlf hmf
    by_cases hl : l = k <;> by_cases hm : m = k
    · rw [hl, hm]
    · rw [hl, World.objs_set] at hlf
      rw [World.objs_set_ne hm] at hmf
      exact absurd hlf (hone m f hm hmf)
    · rw [hm, World.objs_set] at hmf
      rw [World.objs_set_ne hl] at hlf
      exact absurd hmf (hone l f hl hlf)
    · rw [World.objs_set_ne hl] at hlf
      rw [World.objs_set_ne hm] at hmf
      exact h.apart l m f hlf hmf

theorem WorldOk.set_same (h : WorldOk w Ls) {k : Nat} {p : Files × Results} (hrep : Represents p.1 p.2 (Ls k))
    (hown : Own w.files p.1 (w.objs k) p.2) : WorldOk (w.set k p) Ls := by
  have := h.set hrep hown
  rwa [Function.update_eq_self] at this

/-- A variable gets an object whose file no variable's object has. -/
theorem WorldOk.assign (h : WorldOk w Ls) {j : Nat} (hrep : Represents w.files r L)
    (hfile : ∀ f, r.tempFile = some f → f < w.files.next ∧ ∀ l, (w.objs l).tempFile ≠ some f) :
    WorldOk (w.set j (w.files, r)) (Function.update Ls j L) where
  represents := fun l => by
    by_cases hl : l = j
    · rw [hl, World.objs_set, Function.update_self]
      exact hrep
    · rw [World.objs_set_ne hl, Function.update_of_ne hl]
      exact h.represents l
  fresh := fun l f hf => by
    by_cases hl : l = j
    · rw [hl, World.objs_set] at hf
      exact (hfile f hf).1
    · rw [World.objs_set_ne hl] at hf
      exact h.fresh l f hf
  apart := by
    intro l m f hlf hmf
    by_cases hl : l = j <;> by_cases hm : m = j
    · rw [hl, hm]
    · rw [hl, World.objs_set] at hlf
      rw [World.objs_set_ne hm] at hmf
      exact absurd hmf ((hfile f hlf).2 m)
    · rw [hm, World.objs_set] at hmf
      rw [World.objs_set_ne hl] at hlf
      exact absurd hlf ((hfile f hmf).2 l)
    · rw [World.objs_set_ne hl] at hlf
      rw [World.objs_set_ne hm] at hmf
      exact h.apart l m f hlf hmf

theorem worldOk_init (capacity : Nat → Nat) : WorldOk (World.init capacity) (fun _ => []) :=
  ⟨fun k => represents_create (capacity k), fun _ _ hf => (by cases hf), fun _ _ _ hf => (by cases hf)⟩

/-! ## `addAll` -/

/-- Appending the items of a list. -/
def appendAll (L M : List Item) : List Item := M.foldl (fun L x => appendItem L x.1 x.2) L

theorem prefix_appendItem (L : List Item) (offset : Offset) (value : List Byte) : L <+: appendItem L offset value := by
  unfold appendItem
  split
  · exact List.prefix_refl L
  · exact List.prefix_append L _

theorem prefix_appendAll (M : List Item) : ∀ L, L <+: appendAll L M := by
  induction M with
  | nil => exact fun L => List.prefix_refl L
  | cons x M ih => exact fun L => (prefix_appendItem L x.1 x.2).trans (ih _)

theorem appendAll_take_succ {L M : List Item} {n : Nat} {x : Item} (hx : M[n]? = some x) :
    appendAll L (M.take (n + 1)) = appendItem (appendAll L (M.take n)) x.1 x.2 := by
  rw [List.take_add_one, hx, Option.toList_some, appendAll, List.foldl_append, List.foldl_cons,
    List.foldl_nil, appendAll]

/-- Reading item `i` of object `j`. -/
theorem item_spec (h : WorldOk w Ls) {j i : Nat} {x : Item} (hx : (Ls j)[i]? = some x) :
    (w.item j i).1 = x ∧ WorldOk (w.item j i).2 Ls := by
  obtain ⟨hoff, hrep, hown⟩ := getOffset_spec (h.represents j) i
  have h' := h.set_same hrep hown
  obtain ⟨hval, hrep', hown'⟩ := getValueBytes_spec (h'.represents j) i
  rw [hx] at hoff hval
  exact ⟨Prod.ext hoff hval, h'.set_same hrep' hown'⟩

theorem WorldOk.add (h : WorldOk w Ls) {k : Nat} {offset : Offset} {value : List Byte}
    (hok : AddOk (w.objs k) offset value) :
    (add w.files (w.objs k) offset value).2.2 = true ∧
      WorldOk (w.set k ((add w.files (w.objs k) offset value).1, (add w.files (w.objs k) offset value).2.1))
        (Function.update Ls k (appendItem (Ls k) offset value)) := by
  obtain ⟨hdone, hrep, hown⟩ := add_spec (h.represents k) hok
  exact ⟨hdone, h.set (p := (_, _)) hrep hown⟩

/-- The world and the flag after `n` rounds of the loop of `addAll`. -/
def addRounds (w : World) (k j n : Nat) : World × Bool := (List.range n).foldl (addItem k j) (w, true)

/-- Every `add` of the loop does what the list does. -/
def AddAllOk (w : World) (k j : Nat) : Prop :=
  ∀ i < (w.objs j).size,
    let q := (addRounds w k j i).1.item j i
    AddOk (q.2.objs k) q.1.1 q.1.2

instance (w : World) (k j : Nat) : Decidable (AddAllOk w k j) :=
  inferInstanceAs (Decidable (∀ i < (w.objs j).size,
    let q := (addRounds w k j i).1.item j i
    AddOk (q.2.objs k) q.1.1 q.1.2))

/-- `addAll`, also of an object to itself: the items it appends are those it had. -/
theorem addAll_spec (h : WorldOk w Ls) {k j : Nat} (hok : AddAllOk w k j) :
    WorldOk (addAll w k j) (Function.update Ls k (appendAll (Ls k) (Ls j))) := by
  have hsize := (h.represents j).size
  have hrounds : ∀ n, n ≤ (Ls j).length → (addRounds w k j n).2 = true ∧
      WorldOk (addRounds w k j n).1 (Function.update Ls k (appendAll (Ls k) ((Ls j).take n))) := by
    intro n
    induction n with
    | zero =>
      intro _
      refine ⟨rfl, ?_⟩
      rw [List.take_zero, appendAll, List.foldl_nil, Function.update_eq_self]
      exact h
    | succ n ih =>
      intro hn
      obtain ⟨hflag, hworld⟩ := ih (Nat.le_of_succ_le hn)
      have hok' := hok n (by rw [hsize]; exact hn)
      have hx : (Ls j)[n]? = some (Ls j)[n] := List.getElem?_eq_getElem hn
      -- object `j` still has its item `n`, even if it is the one that grows
      have hxj : (Function.update Ls k (appendAll (Ls k) ((Ls j).take n)) j)[n]? = some (Ls j)[n] := by
        by_cases hkj : j = k
        · subst hkj
          rw [Function.update_self]
          obtain ⟨t, ht⟩ := prefix_appendAll ((Ls j).take n) (Ls j)
          rw [← ht, List.getElem?_append_left hn]
          exact hx
        · rw [Function.update_of_ne hkj]
          exact hx
      obtain ⟨hitem, hworld'⟩ := item_spec hworld hxj
      dsimp only at hok'
      rw [hitem] at hok'
      obtain ⟨hdone, hnew⟩ := hworld'.add hok'
      have hnext : addRounds w k j (n + 1) = addItem k j (addRounds w k j n) n := by
        rw [addRounds, List.range_succ, List.foldl_append, List.foldl_cons, List.foldl_nil, addRounds]
      rw [hnext, addItem, if_pos hflag]
      dsimp only
      rw [hitem]
      rw [Function.update_idem, Function.update_self, ← appendAll_take_succ hx] at hnew
      exact ⟨hdone, hnew⟩
  obtain ⟨_, hall⟩ := hrounds (Ls j).length (le_refl _)
  rw [List.take_length, ← hsize] at hall
  exact hall

/-! ## Runs -/

/-- The same operation on lists. -/
def listsStep (Ls : Nat → List Item) : Op → Nat → List Item
  | .create k _ => Function.update Ls k []
  | .add k offset value => Function.update Ls k (appendItem (Ls k) offset value)
  | .addAll k j => Function.update Ls k (appendAll (Ls k) (Ls j))
  | .clear k => Function.update Ls k []
  | .replaceWith k j => Function.update Ls k (Ls j)
  | .snapshot k j => Function.update Ls j (Ls k)
  | .getOffset _ _ => Ls
  | .getValueBytes _ _ => Ls

/-- When an operation does what it does on lists: each `add` is as above, and `replaceWith` is not
given a spilled object, whose file it would take. -/
def OpOk (w : World) : Op → Prop
  | .add k offset value => AddOk (w.objs k) offset value
  | .addAll k j => AddAllOk w k j
  | .replaceWith _ j => (w.objs j).tempFile = none
  | _ => True

instance (w : World) : ∀ op, Decidable (OpOk w op)
  | .create _ _ => isTrue trivial
  | .add k offset value => inferInstanceAs (Decidable (AddOk (w.objs k) offset value))
  | .addAll k j => inferInstanceAs (Decidable (AddAllOk w k j))
  | .clear _ => isTrue trivial
  | .replaceWith _ j => inferInstanceAs (Decidable ((w.objs j).tempFile = none))
  | .snapshot _ _ => isTrue trivial
  | .getOffset _ _ => isTrue trivial
  | .getValueBytes _ _ => isTrue trivial

theorem noFile_of_represents (h : Represents fs r L) (ht : r.tempFile = none) : NoFile r where
  tempFile := ht
  diskWriter := by
    by_contra hw
    obtain ⟨v, hv⟩ := Option.ne_none_iff_exists'.mp hw
    rw [h.disk.writer v hv] at ht
    cases ht
  diskReader := by
    by_contra hr
    obtain ⟨g, hg⟩ := Option.ne_none_iff_exists'.mp hr
    rw [h.disk.reader g hg] at ht
    cases ht

/-- One operation keeps the world in order. -/
theorem worldOk_step (w : World) (Ls : Nat → List Item) (op : Op) (h : WorldOk w Ls) (hok : OpOk w op) :
    WorldOk (w.step op) (listsStep Ls op) := by
  cases op with
  | create k n => exact h.set (represents_create n) (Own.refl (.inr rfl))
  | add k offset value => exact (h.add hok).2
  | addAll k j => exact addAll_spec h hok
  | clear k =>
    obtain ⟨hrep, hown⟩ := clear_spec (h.represents k)
    exact h.set hrep hown
  | replaceWith k j =>
    have hrep := h.represents j
    have hlen : (Ls j).length ≤ MAX_MEM_ITEMS := (tempFile_eq_none_iff hrep).mp hok
    have heq := replaceWith_eq (k := k) (noFile_of_represents hrep hok)
    rw [World.step, heq]
    exact h.set (replaced_spec hrep hlen) (own_delete (h.represents k) rfl)
  | snapshot k j =>
    obtain ⟨hrep, hcopy, hown, hfile⟩ := snapshot_spec (h.represents k) (h.fresh k)
    have hself := h.set_same (p := (_, _)) hrep hown
    refine hself.assign hcopy fun f hf => ?_
    obtain ⟨hge, hlt, hne⟩ := hfile f hf
    refine ⟨hlt, fun l hl => ?_⟩
    by_cases hk : l = k
    · rw [hk, World.objs_set] at hl
      exact hne hl
    · rw [World.objs_set_ne hk] at hl
      exact absurd (h.fresh l f hl) (not_lt.mpr hge)
  | getOffset k i =>
    obtain ⟨_, hrep, hown⟩ := getOffset_spec (h.represents k) i
    exact h.set_same hrep hown
  | getValueBytes k i =>
    obtain ⟨_, hrep, hown⟩ := getValueBytes_spec (h.represents k) i
    exact h.set_same hrep hown

/-- What a program sees of object `k`: its size, and what it answers for every index. -/
def Agrees (w : World) (Ls : Nat → List Item) : Prop :=
  ∀ k, (w.objs k).size = (Ls k).length ∧ ∀ i,
    (getOffset w.files (w.objs k) i).1 = ((Ls k)[i]?.map Prod.fst).getD 0 ∧
      (getValueBytes w.files (w.objs k) i).1 = ((Ls k)[i]?.map Prod.snd).getD []

/-- **`CompactScanResults` is a list**, in every run of operations that are `OpOk`. -/
theorem agrees_with_lists (capacity : Nat → Nat) (ops : List Op)
    (hok : Along World.step OpOk (World.init capacity) ops) :
    Agrees (ops.foldl World.step (World.init capacity)) (ops.foldl listsStep (fun _ => [])) := by
  have h := Along.tracks WorldOk worldOk_step ops (worldOk_init capacity) hok
  exact fun k => ⟨(h.represents k).size, fun i =>
    ⟨(getOffset_spec (h.represents k) i).1, (getValueBytes_spec (h.represents k) i).1⟩⟩

theorem agrees_with_lists_copies :
    Along World.step OpOk (World.init fun _ => 10000)
        [.add 0 7 [1, 2], .add 0 8 [3, 4], .snapshot 0 1, .add 1 9 [5, 6], .addAll 0 1, .replaceWith 2 0] ∧
      Agrees
        (List.foldl World.step (World.init fun _ => 10000)
          [.add 0 7 [1, 2], .add 0 8 [3, 4], .snapshot 0 1, .add 1 9 [5, 6], .addAll 0 1, .replaceWith 2 0])
        (List.foldl listsStep (fun _ => [])
          [.add 0 7 [1, 2], .add 0 8 [3, 4], .snapshot 0 1, .add 1 9 [5, 6], .addAll 0 1, .replaceWith 2 0]) :=
  have hok : Along World.step OpOk (World.init fun _ => 10000)
      [.add 0 7 [1, 2], .add 0 8 [3, 4], .snapshot 0 1, .add 1 9 [5, 6], .addAll 0 1, .replaceWith 2 0] := by decide
  ⟨hok, agrees_with_lists _ _ hok⟩

/-- A value of another length: the first value is gone. -/
theorem not_agrees_after_layout_change :
    ¬ Agrees (List.foldl World.step (World.init fun _ => 10000) [.add 0 7 [1], .add 0 8 [1, 2]])
      (List.foldl listsStep (fun _ => []) [.add 0 7 [1], .add 0 8 [1, 2]]) := by
  intro h
  have hval := ((h 0).2 0).2
  revert hval
  decide

end CompactScanResults

end Ps5Debugger
