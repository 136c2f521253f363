import Ps5Debugger.SnapshotSlots

/-!
# Snapshot rescans

`fs_snapshot_rescan` walks the bitmap while it clears bits in it, reads memory a window at a
time, and updates the baseline in place or through a buffer. What a session *is* is the list
of its live slots with their values (`SnapSession.records`); a rescan filters that list
pointwise (`records_snapRescan`) as long as every window covers the slots it is for.

The loops are turned into recursions over the list of live slots: `takeGroup` is the part of
the list that a window takes in, and the invariant `ScanInv` says what has happened to the
slots that are done.
-/

namespace Ps5Debugger

open Lib

/-! ## Windows as lists of slots -/

/-- The slots a window takes in, of those that follow. -/
def takeGroup (a : Nat → Nat) (v windowStart : Nat) : Nat → List Nat → List Nat
  | _, [] => []
  | coveredEnd, j :: rest =>
    if windowExtends v windowStart coveredEnd (a j) then
      j :: takeGroup a v windowStart (u64 (a j + v)) rest
    else []

/-- The slots the window of slot `i` takes in. -/
def groupAfter (a : Nat → Nat) (v i : Nat) (rest : List Nat) : List Nat :=
  takeGroup a v (a i) (u64 (a i + v)) rest

theorem takeGroup_prefix (a : Nat → Nat) (v ws : Nat) (rest : List Nat) : ∀ ce : Nat,
    ∃ back, rest = takeGroup a v ws ce rest ++ back := by
  induction rest with
  | nil => intro ce; exact ⟨[], rfl⟩
  | cons j rest ih =>
    intro ce
    rw [takeGroup]
    split
    · obtain ⟨back, hback⟩ := ih (u64 (a j + v))
      refine ⟨back, ?_⟩
      rw [List.cons_append, ← hback]
    · exact ⟨j :: rest, rfl⟩

/-- The extension loop ends at the last slot taken in. -/
theorem snapGrow_eq (s : SnapSession) (ws : Nat) : ∀ (fuel start last : Nat),
    (setFrom s.bitmap start s.slotCount).length ≤ fuel →
    snapGrow s ws fuel (nextSet s.bitmap start s.slotCount) (u64 (s.addr last + s.valueLength)) last =
      (u64 (s.addr ((takeGroup s.addr s.valueLength ws (u64 (s.addr last + s.valueLength))
          (setFrom s.bitmap start s.slotCount)).getLastD last) + s.valueLength),
        (takeGroup s.addr s.valueLength ws (u64 (s.addr last + s.valueLength))
          (setFrom s.bitmap start s.slotCount)).getLastD last) := by
  intro fuel
  induction fuel with
  | zero =>
    intro start last hlen
    rw [List.eq_nil_of_length_eq_zero (Nat.le_zero.mp hlen)]
    rfl
  | succ fuel ih =>
    intro start last hlen
    cases hset : setFrom s.bitmap start s.slotCount with
    | nil =>
      rw [nextSet_of_nil hset, snapGrow, if_neg (Nat.lt_irrefl _)]
      rfl
    | cons j rest =>
      obtain ⟨hnext, hlt, hrest⟩ := nextSet_of_cons hset
      rw [hset, List.length_cons] at hlen
      rw [hnext, snapGrow, if_pos hlt, takeGroup]
      split
      · rw [ih (j + 1) j (by rw [hrest]; omega), hrest, List.getLastD_cons]
      · rfl

/-- The window of slot `i`, by the live slots behind it. -/
theorem windowAt_eq (s : SnapSession) {i : Nat} {rest : List Nat}
    (hrest : setFrom s.bitmap (i + 1) s.slotCount = rest) :
    s.windowAt i = (u64 (s.addr ((groupAfter s.addr s.valueLength i rest).getLastD i) + s.valueLength),
      (groupAfter s.addr s.valueLength i rest).getLastD i) := by
  rw [SnapSession.windowAt, snapGrow_eq s (s.addr i) s.slotCount (i + 1) i (length_setFrom_le ..), hrest]
  rfl

/-- A comparison clears at most the bit of its own slot. -/
theorem bit_snapCompare (s : SnapSession) (cmp : List Byte → List Byte → Bool) (win : Buf) (ws i k x : Nat)
    (st : GroupState) (hx : x ≠ k) :
    bit (snapCompare s cmp win ws i st k).bitmap x = bit st.bitmap x := by
  simp only [snapCompare]
  split
  · rfl
  · rw [bit_clearBit, bne_iff_ne.mpr hx, Bool.and_true]

/-- The comparison loop runs over the live slots up to `last`, although it clears bits on
the way. -/
theorem snapGroup_eq (s : SnapSession) (cmp : List Byte → List Byte → Bool) (win : Buf) (ws i : Nat)
    {last : Nat} {back : List Nat} (hlast : last < s.slotCount) (hback : ∀ x ∈ back, last < x) :
    ∀ (group : List Nat) (fuel start : Nat) (st : GroupState),
    setFrom st.bitmap start s.slotCount = group ++ back → (∀ x ∈ group, x ≤ last) →
    group.length < fuel →
    snapGroup s cmp win ws i last fuel (nextSet st.bitmap start s.slotCount) st =
      group.foldl (snapCompare s cmp win ws i) st := by
  intro group
  induction group with
  | nil =>
    intro fuel start st hset _ hfuel
    obtain ⟨fuel, rfl⟩ := Nat.exists_eq_succ_of_ne_zero (Nat.ne_of_gt hfuel)
    have hend : last < nextSet st.bitmap start s.slotCount := by
      cases back with
      | nil => rwa [nextSet_of_nil hset]
      | cons y back =>
        rw [(nextSet_of_cons hset).1]
        exact hback y (List.mem_cons_self ..)
    rw [snapGroup, if_neg (by omega)]
    rfl
  | cons k group ih =>
    intro fuel start st hset hle hfuel
    obtain ⟨fuel, rfl⟩ := Nat.exists_eq_succ_of_ne_zero (Nat.ne_of_gt (Nat.zero_lt_of_lt hfuel))
    rw [List.cons_append] at hset
    obtain ⟨hnext, -, hrest⟩ := nextSet_of_cons hset
    have hset' : setFrom (snapCompare s cmp win ws i st k).bitmap (k + 1) s.slotCount = group ++ back := by
      rw [← hrest]
      exact setFrom_congr fun x hx => bit_snapCompare s cmp win ws i k x st (by omega)
    rw [hnext, snapGroup, if_pos (hle k (List.mem_cons_self ..)), List.foldl_cons]
    exact ih fuel (k + 1) _ hset' (fun x hx => hle x (List.mem_cons_of_mem _ hx)) (by
      rw [List.length_cons] at hfuel
      omega)

/-! ## What a session is -/

/-- The stored value of slot `i`. -/
def SnapSession.cur (s : SnapSession) (i : Nat) : List Byte :=
  slice s.store.flat (i * s.valueLength) s.valueLength

/-- Slot `i` as a survivor. -/
def SnapSession.recAt (s : SnapSession) (i : Nat) : Rec where
  addr := s.addr i
  cur := s.cur i
  prev := if s.hasPrev then slice s.prevFile (i * s.valueLength) s.valueLength else []
  first := if s.hasFirst then slice s.firstFile (i * s.valueLength) s.valueLength else []

/-- The live slots. -/
def SnapSession.live (s : SnapSession) : List Nat := setFrom s.bitmap 0 s.slotCount

/-- The survivors of a session. -/
def SnapSession.records (s : SnapSession) : List Rec := s.live.map s.recAt

/-- The bytes at slot `i`'s address. -/
def SnapSession.fresh (s : SnapSession) (mem : Memory) (i : Nat) : List Byte :=
  slice (readMem mem (s.addr i)) 0 s.valueLength

/-- What no rescan changes. -/
structure SnapSession.Same (s t : SnapSession) : Prop where
  seg : s.seg = t.seg
  slotCount : s.slotCount = t.slotCount
  stride : s.stride = t.stride
  valueLength : s.valueLength = t.valueLength
  hasPrev : s.hasPrev = t.hasPrev
  hasFirst : s.hasFirst = t.hasFirst
  firstFile : s.firstFile = t.firstFile
  ramBytes : s.store.ramBytes = t.store.ramBytes

theorem SnapSession.Same.refl (s : SnapSession) : s.Same s := ⟨rfl, rfl, rfl, rfl, rfl, rfl, rfl, rfl⟩

theorem SnapSession.Same.addr {s t : SnapSession} (h : s.Same t) : s.addr = t.addr := by
  funext i
  rw [SnapSession.addr, SnapSession.addr, h.seg, h.stride]

theorem SnapSession.Same.isOver {s t : SnapSession} {L : SnapLayout} (h : s.Same t) (ht : t.Over L) :
    s.Over L :=
  ⟨h.seg.trans ht.seg, h.slotCount.trans ht.slotCount, h.stride.trans ht.stride,
    h.valueLength.trans ht.valueLength⟩

theorem SnapSession.Same.trans {s t u : SnapSession} (h : s.Same t) (h' : t.Same u) : s.Same u :=
  ⟨h.seg.trans h'.seg, h.slotCount.trans h'.slotCount, h.stride.trans h'.stride,
    h.valueLength.trans h'.valueLength, h.hasPrev.trans h'.hasPrev, h.hasFirst.trans h'.hasFirst,
    h.firstFile.trans h'.firstFile, h.ramBytes.trans h'.ramBytes⟩

theorem SnapSession.Same.fresh {s t : SnapSession} (h : s.Same t) (mem : Memory) :
    s.fresh mem = t.fresh mem := by
  funext i
  rw [SnapSession.fresh, SnapSession.fresh, h.addr, h.valueLength]

theorem SnapSession.addr_lt (s : SnapSession) (i : Nat) : s.addr i < 2 ^ 64 := u64_lt _

/-! ## One window -/

/-- The size of `bl_buf`. -/
def blBufSize : Nat := 0x100000

/-- A window that serves its slots: the slots lie inside the read, the read inside
`mem_buf`, and the part of the baseline inside `bl_buf`. -/
structure Serves (a : Nat → Nat) (v i : Nat) (group : List Nat) : Prop where
  le : subU64 (u64 (a (group.getLastD i) + v)) (a i) ≤ rescanWinCap
  covers : ∀ k ∈ i :: group, subU64 (a k) (a i) + v ≤ subU64 (u64 (a (group.getLastD i) + v)) (a i)
  fits : (group.getLastD i - i + 1) * v ≤ blBufSize

section Window

variable {s : SnapSession} {cmp : List Byte → List Byte → Bool} {win : Buf} {ws i : Nat}
  {fresh : Nat → List Byte} {st₀ : GroupState}

/-- The baseline of slot `x` in the window's part of it. -/
def blAt (s : SnapSession) (i : Nat) (bl : Buf) (x : Nat) : List Byte :=
  slice bl ((x - i) * s.valueLength) s.valueLength

/-- What the comparison loop has done to the slots `P` of its window. -/
structure GroupInv (s : SnapSession) (i : Nat) (fresh : Nat → List Byte) (pass : Nat → Bool)
    (st₀ : GroupState) (P : List Nat) (st : GroupState) : Prop where
  bits : ∀ x, bit st.bitmap x = (bit st₀.bitmap x && (decide (x ∉ P) || pass x))
  bl : ∀ x, i ≤ x → blAt s i st.bl x = if x ∈ P ∧ pass x then fresh x else blAt s i st₀.bl x
  survivors : st.survivors = st₀.survivors + (P.filter pass).length
  clean : st.dirty = false → st.bl = st₀.bl

theorem groupInv_nil (pass : Nat → Bool) : GroupInv s i fresh pass st₀ [] st₀ where
  bits x := by simp
  bl x _ := by simp
  survivors := rfl
  clean _ := rfl

/-- One comparison. -/
theorem GroupInv.step {pass : Nat → Bool} {P : List Nat} {k : Nat} {st : GroupState}
    (h : GroupInv s i fresh pass st₀ P st) (hk : k ∉ P) (hik : i ≤ k)
    (hfresh : slice (view win (subU64 (s.addr k) ws)) 0 s.valueLength = fresh k)
    (hpass : pass k = cmp (fresh k) (blAt s i st₀.bl k)) :
    GroupInv s i fresh pass st₀ (P ++ [k]) (snapCompare s cmp win ws i st k) := by
  have hown : slice st.bl ((k - i) * s.valueLength) s.valueLength = blAt s i st₀.bl k := by
    have h' := h.bl k hik
    rwa [if_neg (fun hc => hk hc.1)] at h'
  have hfilter : ((P ++ [k]).filter pass).length = (P.filter pass).length + if pass k then 1 else 0 := by
    rw [List.filter_append, List.length_append, List.filter_singleton]
    cases pass k <;> rfl
  have hbits : ∀ x, (bit st₀.bitmap x && (decide (x ∉ P) || pass x) && (x != k || pass k)) =
      (bit st₀.bitmap x && (decide (x ∉ P ++ [k]) || pass x)) := by
    intro x
    by_cases hx : x = k
    · subst hx
      simp [hk]
    · simp [hx]
  simp only [snapCompare, hfresh, hown, ← hpass]
  cases hp : pass k with
  | true =>
    rw [if_pos rfl]
    refine ⟨fun x => ?_, fun x hx => ?_, ?_, fun hd => by cases hd⟩
    · rw [← hbits x, h.bits x, hp, Bool.or_true, Bool.and_true]
    · have hput := slice_blit_slot st.bl (view win (subU64 (s.addr k) ws)) s.valueLength (k - i) (x - i)
      simp only [blAt, hput, hfresh]
      by_cases hxk : x = k
      · subst hxk
        simp [hp]
      · rw [if_neg (by omega), ← blAt, h.bl x hx]
        simp [hxk, blAt]
    · rw [h.survivors, hfilter, hp, if_pos rfl, Nat.add_assoc]
  | false =>
    rw [if_neg (by simp)]
    refine ⟨fun x => ?_, fun x hx => ?_, ?_, h.clean⟩
    · rw [← hbits x, bit_clearBit, h.bits x, hp, Bool.or_false]
    · rw [h.bl x hx]
      by_cases hxk : x = k
      · subst hxk
        simp [hp]
      · simp [hxk]
    · rw [h.survivors, hfilter, hp]
      rfl

/-- The comparison loop. -/
theorem groupInv_foldl {pass : Nat → Bool} (group : List Nat) : ∀ {P : List Nat} {st : GroupState},
    GroupInv s i fresh pass st₀ P st → (P ++ group).Nodup → (∀ k ∈ group, i ≤ k) →
    (∀ k ∈ group, slice (view win (subU64 (s.addr k) ws)) 0 s.valueLength = fresh k) →
    (∀ k ∈ group, pass k = cmp (fresh k) (blAt s i st₀.bl k)) →
    GroupInv s i fresh pass st₀ (P ++ group) (group.foldl (snapCompare s cmp win ws i) st) := by
  induction group with
  | nil =>
    intro P st h _ _ _ _
    rwa [List.append_nil]
  | cons k group ih =>
    intro P st h hnodup hle hfresh hpass
    have hk : k ∉ P := fun hmem =>
      (List.nodup_append.mp hnodup).2.2 k hmem k (List.mem_cons_self ..) rfl
    have hstep := h.step hk (hle k (List.mem_cons_self ..)) (hfresh k (List.mem_cons_self ..))
      (hpass k (List.mem_cons_self ..))
    have htail := ih hstep (by rwa [List.append_assoc])
      (fun x hx => hle x (List.mem_cons_of_mem _ hx)) (fun x hx => hfresh x (List.mem_cons_of_mem _ hx))
      (fun x hx => hpass x (List.mem_cons_of_mem _ hx))
    rwa [List.append_assoc] at htail

end Window

/-! ## A whole rescan -/

/-- Whether slot `i` stays alive. -/
def SnapSession.passes (s : SnapSession) (mem : Memory) (cmp : List Byte → List Byte → Bool)
    (i : Nat) : Bool := cmp (s.fresh mem i) (s.cur i)

/-- A window of a rescan that did what it should: see `Serves`. -/
structure WindowOk (s : SnapSession) (w : RescanWindow) : Prop where
  ge : s.valueLength ≤ w.readSize
  le : w.readSize ≤ rescanWinCap
  start : w.start = s.addr w.i
  last_lt : w.last < s.slotCount
  covers : ∀ k, w.i ≤ k → k ≤ w.last → bit s.bitmap k = true →
    subU64 (s.addr k) w.start + s.valueLength ≤ w.readSize
  fits : w.buffered = true → w.blLen ≤ blBufSize

/-- What a rescan of `s₀` has done when the slots `P` are done. -/
structure ScanInv (mem : Memory) (cmp : List Byte → List Byte → Bool) (s₀ : SnapSession) (P : List Nat)
    (sc : SnapScan) : Prop where
  same : sc.sess.Same s₀
  bits : ∀ x, bit sc.sess.bitmap x = (bit s₀.bitmap x && (decide (x ∉ P) || s₀.passes mem cmp x))
  cur : ∀ x, sc.sess.cur x = if x ∈ P ∧ s₀.passes mem cmp x then s₀.fresh mem x else s₀.cur x
  prev : s₀.hasPrev = true → ∀ x ∈ P,
    slice sc.sess.prevFile (x * s₀.valueLength) s₀.valueLength = s₀.cur x
  survivors : sc.survivors = (P.filter (s₀.passes mem cmp)).length
  windows : ∀ w ∈ sc.windows, WindowOk s₀ w
  served : ∀ x ∈ P, ∃ w ∈ sc.windows, w.i ≤ x ∧ x ≤ w.last

section Scan

variable {mem : Memory} (actx : Option (AliasEngine mem)) {cmp : List Byte → List Byte → Bool}
  {s₀ : SnapSession}

theorem scanInv_nil (memBuf blBuf : Buf) : ScanInv mem cmp s₀ [] ⟨s₀, memBuf, blBuf, 0, []⟩ where
  same := .refl s₀
  bits x := by simp
  cur x := by simp
  prev _ x hx := by cases hx
  survivors := rfl
  windows w hw := by cases hw
  served x hx := by cases hx

/-- A window that covers a slot shows memory at the slot's address. -/
theorem window_fresh {i k : Nat} (readSize : Nat) (memBuf : Buf) (s : SnapSession)
    (hcov : subU64 (s.addr k) (s.addr i) + s.valueLength ≤ readSize) :
    slice (view (rescanWindowRead actx (s.addr i) readSize memBuf).1 (subU64 (s.addr k) (s.addr i))) 0
      s.valueLength = s.fresh mem k := by
  have hk : u64 (s.addr i + subU64 (s.addr k) (s.addr i)) = s.addr k := by
    have h1 := s.addr_lt i
    have h2 := s.addr_lt k
    rw [u64, subU64]
    omega
  rw [SnapSession.fresh, ← hk, readMem_add, hk]
  refine slice_eq_iff.mpr fun x hx => ?_
  rw [view_apply, view_apply, rescanWindowRead_fresh actx _ _ _ (by omega), ← readMem_eq_zero]

/-- The store after a window, slot by slot. -/
theorem windowStore_cur {s : SnapSession} {st : GroupState} {bl : Buf} {i m x : Nat} {buffered : Bool}
    (hbuf : buffered = decide (i * s.valueLength + m * s.valueLength > s.store.ramBytes))
    (hbl : ∀ y, i ≤ y → y < i + m → blAt s i bl y = s.cur y)
    (hclean : st.dirty = false → st.bl = bl) :
    slice (if buffered then
        if st.dirty then s.store.write st.bl (i * s.valueLength) (m * s.valueLength) else s.store
      else { s.store with
        ram := blit s.store.ram (i * s.valueLength) st.bl (m * s.valueLength) }).flat
        (x * s.valueLength) s.valueLength =
      if i ≤ x ∧ x < i + m then blAt s i st.bl x else s.cur x := by
  cases hb : buffered with
  | true =>
    rw [if_pos rfl]
    cases hd : st.dirty with
    | true => rw [if_pos rfl, SplitStore.flat_write, slice_blit_slots]; rfl
    | false =>
      -- nothing was written back, because nothing had changed
      rw [if_neg (by simp), hclean hd]
      split
      · next hx => exact (hbl x hx.1 hx.2).symm
      · rfl
  | false =>
    rw [hb] at hbuf
    have hram := of_decide_eq_false hbuf.symm
    rw [if_neg (by simp), SplitStore.flat_ram _ _ (by omega), slice_blit_slots]
    rfl

/-- The part of the baseline a window works on. -/
theorem windowBl_cur (s : SnapSession) (blBuf : Buf) {i m y : Nat} {buffered : Bool}
    (hbuf : buffered = decide (i * s.valueLength + m * s.valueLength > s.store.ramBytes))
    (hiy : i ≤ y) (hy : y < i + m) :
    blAt s i (if buffered then s.store.read blBuf (i * s.valueLength) (m * s.valueLength)
      else view s.store.ram (i * s.valueLength)) y = s.cur y := by
  obtain ⟨z, rfl⟩ := Nat.exists_eq_add_of_le hiy
  have hmul : (z + 1) * s.valueLength ≤ m * s.valueLength := Nat.mul_le_mul_right _ (by omega)
  rw [Nat.succ_mul] at hmul
  rw [blAt, SnapSession.cur, Nat.add_sub_cancel_left, Nat.add_mul]
  refine slice_eq_iff.mpr fun b hb => ?_
  cases hb' : buffered with
  | true => rw [if_pos rfl, SplitStore.read_apply _ _ (by omega), Nat.add_assoc]
  | false =>
    rw [hb'] at hbuf
    have hram := of_decide_eq_false hbuf.symm
    rw [if_neg (by simp), view_apply, SplitStore.flat, if_pos (by omega), Nat.add_assoc]

/-- A window takes slots off the front of the live list. -/
theorem group_split {a : Nat → Nat} {v i pos n : Nat} {bm : Buf} {rest : List Nat}
    (hset : setFrom bm pos n = i :: rest) :
    ∃ back, rest = groupAfter a v i rest ++ back ∧
      setFrom bm ((groupAfter a v i rest).getLastD i + 1) n = back ∧
      (groupAfter a v i rest).getLastD i < n ∧
      (∀ x ∈ i :: groupAfter a v i rest, i ≤ x ∧ x ≤ (groupAfter a v i rest).getLastD i) ∧
      (∀ x ∈ back, (groupAfter a v i rest).getLastD i < x) := by
  obtain ⟨back, hback⟩ := takeGroup_prefix a v (a i) rest (u64 (a i + v))
  rw [← groupAfter] at hback
  generalize groupAfter a v i rest = group at hback ⊢
  obtain ⟨front, hfront⟩ : ∃ front, i :: group = front ++ [group.getLastD i] := by
    refine ⟨(i :: group).dropLast, ?_⟩
    rw [← List.getLast_eq_getLastD (List.cons_ne_nil i group), List.dropLast_append_getLast]
  generalize group.getLastD i = last at hfront ⊢
  have hlist : setFrom bm pos n = front ++ last :: back := by
    rw [hset, hback, ← List.cons_append, hfront, List.append_assoc, List.singleton_append]
  have hsorted := setFrom_pairwise bm pos n
  have hmem : last ∈ setFrom bm pos n := by simp [hlist]
  refine ⟨back, hback, setFrom_after hlist, (mem_setFrom.mp hmem).2.1, fun x hx => ⟨?_, ?_⟩, fun x hx => ?_⟩
  · rw [hset, hback] at hsorted
    rcases List.mem_cons.mp hx with rfl | hx
    · exact Nat.le_refl _
    · exact Nat.le_of_lt ((List.pairwise_cons.mp hsorted).1 x (List.mem_append_left _ hx))
  · rw [hlist] at hsorted
    rw [hfront] at hx
    rcases List.mem_append.mp hx with hx | hx
    · exact Nat.le_of_lt ((List.pairwise_append.mp hsorted).2.2 x hx last (List.mem_cons_self ..))
    · exact Nat.le_of_eq (List.mem_singleton.mp hx)
  · rw [hlist] at hsorted
    exact (List.pairwise_cons.mp (List.pairwise_append.mp hsorted).2.1).1 x hx

/-- A window changes the bitmap, the baseline and the previous values only. -/
theorem snapWindow_same (sc : SnapScan) (i : Nat) : (snapWindow actx cmp sc i).sess.Same sc.sess := by
  refine ⟨rfl, rfl, rfl, rfl, rfl, rfl, rfl, ?_⟩
  simp only [snapWindow]
  split
  · split
    · exact SplitStore.write_ramBytes ..
    · rfl
  · rfl

/-- The live slots ahead are still those of the session at the start. -/
theorem ScanInv.ahead {P : List Nat} {pos : Nat} {sc : SnapScan} (h : ScanInv mem cmp s₀ P sc)
    (hpos : ∀ x ∈ P, x < pos) :
    setFrom sc.sess.bitmap pos s₀.slotCount = setFrom s₀.bitmap pos s₀.slotCount := by
  refine setFrom_congr fun x hx => ?_
  have hnot : x ∉ P := fun hmem => absurd (hpos x hmem) (Nat.not_lt.mpr hx)
  rw [h.bits x, decide_eq_true hnot, Bool.true_or, Bool.and_true]

/-- The slots ahead still have the values they started with. -/
theorem ScanInv.cur_ahead {P : List Nat} {pos : Nat} {sc : SnapScan} (h : ScanInv mem cmp s₀ P sc)
    (hpos : ∀ x ∈ P, x < pos) {x : Nat} (hx : pos ≤ x) : sc.sess.cur x = s₀.cur x := by
  rw [h.cur x, if_neg fun hc => Nat.not_lt.mpr hx (hpos x hc.1)]

section Group

variable {P group back : List Nat} {i pos last : Nat} {sc : SnapScan} (h : ScanInv mem cmp s₀ P sc)
  (hset : setFrom s₀.bitmap pos s₀.slotCount = (i :: group) ++ back) (hpos : ∀ x ∈ P, x < pos)
  (hlast : last < s₀.slotCount) (hgroup : ∀ x ∈ i :: group, i ≤ x ∧ x ≤ last)
  (hbeyond : ∀ x ∈ back, last < x)

include hset in
theorem group_ge : pos ≤ i :=
  (mem_setFrom.mp (hset ▸ List.mem_append_left _ (List.mem_cons_self ..))).1

include h hset hpos hlast hgroup hbeyond in
/-- The comparison loop of a window, when the window shows memory and its baseline the values
so far. -/
theorem ScanInv.compared {win bl : Buf}
    (hfresh : ∀ k ∈ i :: group,
      slice (view win (subU64 (sc.sess.addr k) (s₀.addr i))) 0 sc.sess.valueLength = s₀.fresh mem k)
    (hbl : ∀ y, i ≤ y → y < i + (last - i + 1) → blAt sc.sess i bl y = sc.sess.cur y) :
    GroupInv sc.sess i (s₀.fresh mem) (s₀.passes mem cmp) ⟨sc.sess.bitmap, bl, false, sc.survivors⟩
      (i :: group) (snapGroup sc.sess cmp win (s₀.addr i) i last (sc.sess.slotCount + 1) i
        ⟨sc.sess.bitmap, bl, false, sc.survivors⟩) := by
  have hahead := (h.ahead hpos).trans hset
  obtain ⟨hnext, -, -⟩ := nextSet_of_cons hahead
  have hge := group_ge hset
  have hlen : (i :: group).length ≤ s₀.slotCount := by
    have := length_setFrom_le s₀.bitmap pos s₀.slotCount
    rw [hset, List.length_append] at this
    omega
  have hrun := snapGroup_eq sc.sess cmp win (s₀.addr i) i (by rw [h.same.slotCount]; exact hlast)
    hbeyond (i :: group) (sc.sess.slotCount + 1) pos ⟨sc.sess.bitmap, bl, false, sc.survivors⟩
    (by rw [h.same.slotCount]; exact hahead) (fun x hx => (hgroup x hx).2)
    (by rw [h.same.slotCount]; omega)
  rw [h.same.slotCount, hnext] at hrun
  rw [h.same.slotCount, hrun]
  refine groupInv_foldl (i :: group) (groupInv_nil _) ?_ (fun k hk => (hgroup k hk).1) hfresh ?_
  · have hsorted := setFrom_pairwise s₀.bitmap pos s₀.slotCount
    rw [hset] at hsorted
    exact ((List.pairwise_append.mp hsorted).1).imp Nat.ne_of_lt
  · intro k hk
    obtain ⟨h1, h2⟩ := hgroup k hk
    rw [hbl k h1 (by omega), h.cur_ahead hpos (Nat.le_trans hge h1)]
    rfl

include hset hbeyond in
/-- The live slots of a window are those of its group. -/
theorem mem_group {k : Nat} (h1 : i ≤ k) (h2 : k ≤ last) (hlast : last < s₀.slotCount)
    (hbit : bit s₀.bitmap k = true) : k ∈ i :: group := by
  have hmem : k ∈ setFrom s₀.bitmap pos s₀.slotCount := mem_setFrom.mpr
    ⟨Nat.le_trans (group_ge hset) h1, Nat.lt_of_le_of_lt h2 hlast, hbit⟩
  rw [hset] at hmem
  rcases List.mem_append.mp hmem with hmem | hmem
  · exact hmem
  · exact absurd (hbeyond k hmem) (Nat.not_lt.mpr h2)

end Group

/-- **One window** takes the invariant over its slots. -/
theorem ScanInv.window {P rest : List Nat} {i pos : Nat} {sc : SnapScan} (h : ScanInv mem cmp s₀ P sc)
    (hset : setFrom s₀.bitmap pos s₀.slotCount = i :: rest) (hpos : ∀ x ∈ P, x < pos)
    (hserve : Serves s₀.addr s₀.valueLength i (groupAfter s₀.addr s₀.valueLength i rest)) :
    ScanInv mem cmp s₀ (P ++ i :: groupAfter s₀.addr s₀.valueLength i rest) (snapWindow actx cmp sc i) ∧
      (sc.sess.windowAt i).2 = (groupAfter s₀.addr s₀.valueLength i rest).getLastD i := by
  have hahead := (h.ahead hpos).trans hset
  obtain ⟨-, -, hrest⟩ := nextSet_of_cons hahead
  obtain ⟨back, hback, -, hlast, hgroup, hbeyond⟩ := @group_split s₀.addr s₀.valueLength _ _ _ _ _ hset
  have hwin : sc.sess.windowAt i =
      (u64 (s₀.addr ((groupAfter s₀.addr s₀.valueLength i rest).getLastD i) + s₀.valueLength),
        (groupAfter s₀.addr s₀.valueLength i rest).getLastD i) := by
    have hrest' : setFrom sc.sess.bitmap (i + 1) sc.sess.slotCount = rest := by
      rw [h.same.slotCount, hrest]
    rw [windowAt_eq sc.sess hrest', h.same.addr, h.same.valueLength]
  generalize groupAfter s₀.addr s₀.valueLength i rest = group at hserve hback hlast hgroup hbeyond hwin ⊢
  generalize hl : group.getLastD i = last at hlast hgroup hbeyond hwin ⊢
  refine ⟨?_, by rw [hwin]⟩
  have hsame := (@snapWindow_same mem actx cmp sc i).trans h.same
  obtain ⟨hcap, hcov, hfits⟩ := hserve
  rw [hl] at hcap hcov hfits
  rw [hback, ← List.cons_append] at hset
  have hge := group_ge hset
  have hnotP : ∀ x, i ≤ x → x ∉ P := fun x hx hmem => absurd (hpos x hmem) (by omega)
  have hil : i ≤ last := (hgroup i (List.mem_cons_self ..)).2
  have hbl := fun y => @windowBl_cur sc.sess sc.blBuf i (last - i + 1) y _ rfl
  have hst := h.compared hset hpos hlast hgroup hbeyond (fun k hk => by
    have hshow := window_fresh actx (subU64 (u64 (s₀.addr last + s₀.valueLength)) (s₀.addr i))
      sc.memBuf sc.sess (i := i) (k := k) (by rw [h.same.addr, h.same.valueLength]; exact hcov k hk)
    rw [h.same.addr, h.same.fresh] at hshow
    rw [h.same.addr, hshow]) hbl
  simp only [snapWindow, hwin, h.same.addr] at hsame ⊢
  have hstore := fun st x => @windowStore_cur sc.sess st _ i (last - i + 1) x _ rfl hbl
  generalize hcutoff : decide (i * sc.sess.valueLength + (last - i + 1) * sc.sess.valueLength >
    sc.sess.store.ramBytes) = buffered at hst hbl hstore hsame ⊢
  generalize (if buffered = true then sc.sess.store.read sc.blBuf (i * sc.sess.valueLength)
    ((last - i + 1) * sc.sess.valueLength) else view sc.sess.store.ram (i * sc.sess.valueLength)) = bl
    at hst hbl hstore hsame ⊢
  generalize snapGroup sc.sess cmp _ (s₀.addr i) i last (sc.sess.slotCount + 1) i
    ⟨sc.sess.bitmap, bl, false, sc.survivors⟩ = st at hst hsame ⊢
  have hold : ∀ x, i ≤ x → sc.sess.cur x = s₀.cur x := fun x hx =>
    h.cur_ahead hpos (Nat.le_trans hge hx)
  refine ⟨hsame, fun x => ?_, fun x => ?_, fun hprev x hx => ?_, ?_, fun w hw => ?_, fun x hx => ?_⟩
  · rw [hst.bits x, h.bits x]
    simp only [List.mem_append, not_or, Bool.decide_and, Bool.and_assoc]
    cases bit s₀.bitmap x <;> cases s₀.passes mem cmp x <;> simp
  · -- slots of the window have their value in the baseline of the window
    refine (hstore st x hst.clean).trans ?_
    by_cases hx : i ≤ x ∧ x < i + (last - i + 1)
    · rw [if_pos hx, hst.bl x hx.1, hbl x hx.1 hx.2, hold x hx.1]
      simp only [List.mem_append, hnotP x hx.1, false_or]
    · have hout : x ∉ i :: group := fun hmem => hx ⟨(hgroup x hmem).1, by have := (hgroup x hmem).2; omega⟩
      rw [if_neg hx, h.cur x]
      simp only [List.mem_append, hout, or_false]
  · have hp : sc.sess.hasPrev = true := h.same.hasPrev.trans hprev
    simp only [hp, if_true]
    rw [← h.same.valueLength, slice_blit_slots]
    rcases List.mem_append.mp hx with hx | hx
    · have hlt := hpos x hx
      rw [if_neg (by omega), h.same.valueLength]
      exact h.prev hprev x hx
    · obtain ⟨h1, h2⟩ := hgroup x hx
      rw [if_pos (by omega), ← hold x h1]
      exact hbl x h1 (by omega)
  · rw [hst.survivors, h.survivors, List.filter_append, List.length_append]
  · rcases List.mem_append.mp hw with hw | hw
    · exact h.windows w hw
    · rw [List.mem_singleton.mp hw]
      refine ⟨?_, hcap, rfl, hlast, fun k h1 h2 hbit => ?_, fun _ => ?_⟩
      · exact Nat.le_trans (Nat.le_add_left _ _) (hcov i (List.mem_cons_self ..))
      · exact hcov k (mem_group hset hbeyond h1 h2 hlast hbit)
      · rw [← h.same.valueLength] at hfits
        exact hfits
  · rcases List.mem_append.mp hx with hx | hx
    · obtain ⟨w, hw, hle⟩ := h.served x hx
      exact ⟨w, List.mem_append_left _ hw, hle⟩
    · exact ⟨_, List.mem_append_right _ (List.mem_singleton_self _), hgroup x hx⟩

/-- **The loop over the windows**, from position `pos` on. -/
theorem snapLoop_inv : ∀ (fuel : Nat) {P rest : List Nat} {pos : Nat} {sc : SnapScan},
    ScanInv mem cmp s₀ P sc → setFrom s₀.bitmap pos s₀.slotCount = rest → (∀ x ∈ P, x < pos) →
    rest.length < fuel →
    (∀ i back, (i :: back) <:+ rest →
      Serves s₀.addr s₀.valueLength i (groupAfter s₀.addr s₀.valueLength i back)) →
    ScanInv mem cmp s₀ (P ++ rest)
      (snapLoop actx cmp fuel (nextSet sc.sess.bitmap pos sc.sess.slotCount) sc) := by
  intro fuel
  induction fuel with
  | zero => intro P rest pos sc _ _ _ hfuel; exact absurd hfuel (Nat.not_lt_zero _)
  | succ fuel ih =>
    intro P rest pos sc h hset hpos hfuel hserve
    have hahead : setFrom sc.sess.bitmap pos sc.sess.slotCount = rest := by
      rw [← hset, h.same.slotCount]
      refine setFrom_congr fun x hx => ?_
      have hnot : x ∉ P := fun hmem => absurd (hpos x hmem) (Nat.not_lt.mpr hx)
      rw [h.bits x, decide_eq_true hnot, Bool.true_or, Bool.and_true]
    cases rest with
    | nil =>
      rw [nextSet_of_nil hahead, snapLoop, if_neg (Nat.lt_irrefl _), List.append_nil]
      exact h
    | cons i back =>
      obtain ⟨hnext, hin, -⟩ := nextSet_of_cons hahead
      obtain ⟨hwin, hlast⟩ := h.window actx hset hpos (hserve i back List.suffix_rfl)
      obtain ⟨rest', hback, hafter, -, hgroup, -⟩ := @group_split s₀.addr s₀.valueLength _ _ _ _ _ hset
      rw [hnext, snapLoop, if_pos hin]
      simp only [hlast]
      generalize groupAfter s₀.addr s₀.valueLength i back = group at *
      have hlen : back.length = group.length + rest'.length := by rw [hback, List.length_append]
      have hsuf : rest' <:+ i :: back :=
        ⟨i :: group, by rw [List.cons_append, ← hback]⟩
      have hrun := ih hwin hafter (fun x hx => by
          have hipos := (mem_setFrom.mp (hset ▸ List.mem_cons_self ..)).1
          have hile := (hgroup i (List.mem_cons_self ..)).2
          rcases List.mem_append.mp hx with hx | hx
          · exact Nat.lt_succ_of_le (Nat.le_trans (Nat.le_of_lt (hpos x hx)) (Nat.le_trans hipos hile))
          · exact Nat.lt_succ_of_le (hgroup x hx).2)
        (by rw [List.length_cons] at hfuel; omega) (fun j l hjl => hserve j l (hjl.trans hsuf))
      rw [hwin.same.slotCount, List.append_assoc, List.cons_append, ← hback] at hrun
      rw [h.same.slotCount]
      exact hrun

/-- All windows of a rescan. -/
theorem snapScan_inv (memBuf blBuf : Buf)
    (hserve : ∀ i back, (i :: back) <:+ s₀.live →
      Serves s₀.addr s₀.valueLength i (groupAfter s₀.addr s₀.valueLength i back)) :
    ScanInv mem cmp s₀ s₀.live (snapScan actx cmp s₀ memBuf blBuf) :=
  snapLoop_inv actx (s₀.slotCount + 1) (scanInv_nil memBuf blBuf) rfl (fun _ hx => by cases hx)
    (Nat.lt_succ_of_le (length_setFrom_le ..)) hserve

/-- The live slots after a rescan. -/
theorem ScanInv.live {sc : SnapScan} (h : ScanInv mem cmp s₀ s₀.live sc) :
    sc.sess.live = s₀.live.filter (s₀.passes mem cmp) := by
  rw [SnapSession.live, SnapSession.live, setFrom, setFrom, List.filter_filter, h.same.slotCount]
  apply List.filter_congr
  intro x hx
  rw [h.bits x]
  cases hbit : bit s₀.bitmap x with
  | false => simp
  | true =>
    have hmem : x ∈ s₀.live :=
      mem_setFrom.mpr ⟨Nat.zero_le _, by have := List.mem_range'_1.mp hx; omega, hbit⟩
    simp [hmem]

/-- A filtered image is a partial image. -/
theorem filterMap_eq_map_filter {α β : Type} {g : α → Option β} {p : α → Bool} {f : α → β} (l : List α)
    (h : ∀ x ∈ l, g x = if p x then some (f x) else none) : l.filterMap g = (l.filter p).map f := by
  induction l with
  | nil => rfl
  | cons x l ih =>
    have hx := h x (List.mem_cons_self ..)
    have hl := ih fun y hy => h y (List.mem_cons_of_mem _ hy)
    rw [List.filterMap_cons, List.filter_cons, hx, hl]
    cases p x <;> rfl

/-- The survivors after a rescan. -/
theorem ScanInv.records {sc : SnapScan} (h : ScanInv mem cmp s₀ s₀.live sc) :
    sc.sess.records = s₀.records.filterMap (Rec.recount mem s₀.valueLength s₀.hasPrev cmp) := by
  rw [SnapSession.records, SnapSession.records, h.live, List.filterMap_map]
  refine (filterMap_eq_map_filter _ fun x hx => ?_).symm
  have hcur := h.cur x
  have hrec : sc.sess.recAt x = ⟨s₀.addr x, sc.sess.cur x,
      if s₀.hasPrev then slice sc.sess.prevFile (x * s₀.valueLength) s₀.valueLength else [],
      (s₀.recAt x).first⟩ := by
    rw [SnapSession.recAt, h.same.addr, h.same.hasPrev, h.same.hasFirst, h.same.firstFile,
      h.same.valueLength]
    rfl
  have hprev : (if s₀.hasPrev then slice sc.sess.prevFile (x * s₀.valueLength) s₀.valueLength else []) =
      if s₀.hasPrev then s₀.cur x else [] := by
    cases hp : s₀.hasPrev with
    | false => rfl
    | true => rw [if_pos rfl, if_pos rfl, h.prev hp x hx]
  rw [hrec, hprev, hcur]
  simp only [Function.comp_apply, Rec.recount, hx, true_and]
  have hpass : s₀.passes mem cmp x = cmp (slice (readMem mem (s₀.recAt x).addr) 0 s₀.valueLength)
      (s₀.recAt x).cur := rfl
  rw [← hpass]
  cases s₀.passes mem cmp x <;> rfl

end Scan

/-- **A rescan filters the records of the session pointwise**, when its windows serve their
slots. -/
theorem records_snapRescan {mem : Memory} (actx : Option (AliasEngine mem))
    (cmp : List Byte → List Byte → Bool) (s : SnapSession) (memBuf blBuf : Buf)
    (hserve : ∀ i back, (i :: back) <:+ s.live →
      Serves s.addr s.valueLength i (groupAfter s.addr s.valueLength i back)) :
    (snapRescan actx cmp s memBuf blBuf).records =
        s.records.filterMap (Rec.recount mem s.valueLength s.hasPrev cmp) ∧
      (snapRescan actx cmp s memBuf blBuf).survivorCount =
        (snapRescan actx cmp s memBuf blBuf).records.length ∧
      (snapRescan actx cmp s memBuf blBuf).Same s := by
  rw [snapRescan]
  split
  · next hzero =>
    have hlive : s.live = [] := setFrom_of_le (Nat.le_of_eq hzero)
    have hrec : ({ s with survivorCount := 0 } : SnapSession).records = [] := by
      show List.map _ s.live = []
      rw [hlive, List.map_nil]
    refine ⟨?_, by rw [hrec]; rfl, ⟨rfl, rfl, rfl, rfl, rfl, rfl, rfl, rfl⟩⟩
    rw [hrec, SnapSession.records, hlive]
    rfl
  · have h : ScanInv mem cmp s s.live (snapScan actx cmp s memBuf blBuf) :=
      snapScan_inv actx memBuf blBuf hserve
    refine ⟨h.records, ?_, h.same.seg, h.same.slotCount, h.same.stride, h.same.valueLength, h.same.hasPrev,
      h.same.hasFirst, h.same.firstFile, h.same.ramBytes⟩
    show (snapScan actx cmp s memBuf blBuf).survivors =
      (List.map _ (snapScan actx cmp s memBuf blBuf).sess.live).length
    rw [List.length_map, h.live, h.survivors]

end Ps5Debugger
