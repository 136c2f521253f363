import Mathlib.Data.List.GetD
import Ps5Debugger.SnapshotRescan

/-!
# Creating a snapshot

`fs_snapshot_create` reads the segments a window at a time, packs the slots out of each
window, stores them in RAM, in the spill file or across both, and clears the bits of the
slots that hold zero. The windows tile the slots (`fillWindows_tiles`), so the loop is an
induction over them: `FillInv` says that the slots up to a bound are stored.
-/

namespace Ps5Debugger

open Lib

/-! ## The windows tile the slots -/

/-- The windows cover the slots from `lo` to `hi`, one after the other, at the addresses `a`. -/
def Tiles (a : Nat → Nat) (step : Nat) : Nat → List FillWindow → Nat → Prop
  | lo, [], hi => lo = hi
  | lo, w :: ws, hi => w.gslot = lo ∧ 0 < w.winSlots ∧
    (∀ k < w.winSlots, a (lo + k) = u64 (w.waddr + k * step)) ∧ Tiles a step (lo + w.winSlots) ws hi

section Tiles

variable {a : Nat → Nat} {step : Nat}

theorem tiles_append {ws ws' : List FillWindow} : ∀ {lo mid hi : Nat}, Tiles a step lo ws mid →
    Tiles a step mid ws' hi → Tiles a step lo (ws ++ ws') hi := by
  induction ws with
  | nil => rintro lo mid hi rfl h; exact h
  | cons w ws ih =>
    rintro lo mid hi ⟨h1, h2, h3, h4⟩ h
    exact ⟨h1, h2, h3, ih h4 h⟩

/-- Slots are used up. -/
theorem tiles_le {ws : List FillWindow} : ∀ {lo hi : Nat}, Tiles a step lo ws hi → lo ≤ hi := by
  induction ws with
  | nil => rintro lo hi rfl; exact Nat.le_refl _
  | cons w ws ih =>
    rintro lo hi ⟨-, -, -, h⟩
    exact Nat.le_trans (Nat.le_add_right _ _) (ih h)

/-- One window of a segment: at most a chunk, at least a slot, none past the segment. -/
theorem segWindows_succ {chunkSize ns fuel s0 : Nat} (hlt : s0 < ns) :
    ∃ w, 0 < w ∧ s0 + w ≤ ns ∧ w ≤ max (chunkSize / step) 1 ∧
      segWindows chunkSize step ns (fuel + 1) s0 = (s0, w) :: segWindows chunkSize step ns fuel (s0 + w) := by
  rw [segWindows, if_pos hlt]
  simp only
  generalize chunkSize / step = q
  have hfull : 0 < (if q = 0 then 1 else q) ∧ (if q = 0 then 1 else q) ≤ max q 1 := by
    split <;> omega
  generalize (if q = 0 then 1 else q) = full at hfull
  refine ⟨_, ?_, ?_, ?_, rfl⟩
  · split <;> omega
  · split <;> omega
  · split <;> omega

/-- The windows of a segment, from its slot `s0` on. -/
theorem segWindows_tiles {chunkSize ns start base : Nat}
    (haddr : ∀ k < ns, a (start + k) = u64 (base + k * step)) : ∀ (fuel s0 : Nat), ns ≤ s0 + fuel →
    s0 ≤ ns → Tiles a step (start + s0) ((segWindows chunkSize step ns fuel s0).map fun w =>
      ⟨start + w.1, u64 (base + w.1 * step), w.2⟩) (start + ns) := by
  intro fuel
  induction fuel with
  | zero =>
    intro s0 h1 h2
    have heq : s0 = ns := Nat.le_antisymm h2 h1
    rw [heq]
    rfl
  | succ fuel ih =>
    intro s0 h1 h2
    rcases Nat.lt_or_ge s0 ns with hlt | hge
    · obtain ⟨w, hpos, hle, -, heq⟩ := @segWindows_succ step chunkSize ns fuel s0 hlt
      rw [heq, List.map_cons]
      refine ⟨rfl, hpos, fun k hk => ?_, ?_⟩
      · simp only at hk ⊢
        rw [Nat.add_assoc, haddr (s0 + k) (by omega), u64, u64, u64, Nat.mod_add_mod, Nat.add_mul,
          Nat.add_assoc]
      · simp only
        rw [Nat.add_assoc]
        exact ih (s0 + w) (by omega) hle
    · have heq : s0 = ns := Nat.le_antisymm h2 hge
      rw [segWindows, if_neg (by omega), heq]
      rfl

/-- The windows of all segments. -/
theorem fillWindows_tiles {v chunkSize : Nat} (segs : List SnapSegment) : ∀ start : Nat,
    start + (slotAddrs v step segs).length < 2 ^ 64 →
    (∀ k < (slotAddrs v step segs).length, a (start + k) = u64 ((slotAddrs v step segs).getD k 0)) →
    Tiles a step start (fillWindows chunkSize step (buildSegments v step start segs))
      (start + (slotAddrs v step segs).length) := by
  induction segs with
  | nil => intro start _ _; rfl
  | cons g gs ih =>
    intro start hlen haddr
    rw [length_slotAddrs_cons] at hlen haddr ⊢
    rw [buildSegments, fillWindows, List.flatMap_cons, ← fillWindows, u64_of_lt (by omega), ← Nat.add_assoc]
    have hhead : ∀ k < segSlots v step g.length.toNat,
        a (start + k) = u64 (g.address.toNat + k * step) := by
      intro k hk
      rw [haddr k (by omega), slotAddrs_cons, List.getD_append _ _ _ _ (by simpa using hk)]
      simp [hk]
    have htail : ∀ k < (slotAddrs v step gs).length,
        a (start + segSlots v step g.length.toNat + k) = u64 ((slotAddrs v step gs).getD k 0) := by
      intro k hk
      rw [Nat.add_assoc, haddr _ (by omega), slotAddrs_cons,
        List.getD_append_right _ _ _ _ (by simp), List.length_map, List.length_range,
        Nat.add_sub_cancel_left]
    exact tiles_append (segWindows_tiles hhead _ 0 (by simp) (Nat.zero_le _)) (ih _ (by omega) htail)

end Tiles

/-! ## Packing -/

/-- The slots after packing a window. -/
theorem slice_packSlots (v step base : Nat) (readBuf dst : Buf) (x : Nat) : ∀ m : Nat,
    slice (packSlots v step base readBuf m dst) (x * v) v =
      if base ≤ x ∧ x < base + m then slice readBuf ((x - base) * step) v else slice dst (x * v) v := by
  intro m
  induction m with
  | zero => rw [if_neg (by omega)]; rfl
  | succ m ih =>
    have hsucc : packSlots v step base readBuf (m + 1) dst =
        blit (packSlots v step base readBuf m dst) ((base + m) * v) (view readBuf (m * step)) v := by
      rw [packSlots, List.range_succ, List.foldl_append]
      rfl
    rw [hsucc, slice_blit_slot, ih]
    by_cases hx : x = base + m
    · subst hx
      rw [if_pos rfl, if_pos (by omega), slice_view_zero, Nat.add_sub_cancel_left]
    · rw [if_neg hx]
      by_cases hin : base ≤ x ∧ x < base + m
      · rw [if_pos hin, if_pos (by omega)]
      · rw [if_neg hin, if_neg (by omega)]

/-! ## The zero check -/

/-- The bitmap and the survivor count when the slots below `g` are checked: `keep` says which
slots stay. -/
structure BitInv (keep : Nat → Bool) (n g : Nat) (st : Buf × Nat) : Prop where
  bits : ∀ x, bit st.1 x = (decide (g ≤ x) || keep x)
  count : st.2 + ((List.range g).filter fun x => !keep x).length = n

section Zeros

variable {keep : Nat → Bool} {n g : Nat} {st : Buf × Nat}

theorem length_dropped_succ (keep : Nat → Bool) (g : Nat) :
    ((List.range (g + 1)).filter fun x => !keep x).length =
      ((List.range g).filter fun x => !keep x).length + if keep g then 0 else 1 := by
  rw [List.range_succ, List.filter_append, List.length_append, List.filter_singleton]
  cases keep g <;> rfl

/-- A slot that stays. -/
theorem BitInv.stay (h : BitInv keep n g st) (hk : keep g = true) : BitInv keep n (g + 1) st := by
  refine ⟨fun x => ?_, ?_⟩
  · rw [h.bits x]
    by_cases hx : x = g
    · subst hx
      simp [hk]
    · have hiff : (g ≤ x) ↔ (g + 1 ≤ x) := by omega
      simp only [hiff]
  · rw [length_dropped_succ, hk]
    exact h.count

/-- A slot that goes. -/
theorem BitInv.drop (h : BitInv keep n g st) (hk : keep g = false) (hg : g < n) :
    BitInv keep n (g + 1) (clearBit st.1 g, st.2 - 1) := by
  refine ⟨fun x => ?_, ?_⟩
  · rw [bit_clearBit, h.bits x]
    by_cases hx : x = g
    · subst hx
      simp [hk]
    · have hiff : (g ≤ x) ↔ (g + 1 ≤ x) := by omega
      rw [bne_iff_ne.mpr hx, Bool.and_true]
      simp only [hiff]
  · have hle := List.length_filter_le (fun x => !keep x) (List.range g)
    have hcount := h.count
    rw [List.length_range] at hle
    rw [length_dropped_succ, hk, if_neg (by simp)]
    simp only
    omega

/-- The zero check of a window. -/
theorem BitInv.dropZeros {v step : Nat} {readBuf : Buf} (h : BitInv keep n g st) : ∀ m : Nat, g + m ≤ n →
    (∀ k < m, keep (g + k) = !(slice readBuf (k * step) v).all (· == 0)) →
    BitInv keep n (g + m) (dropZeros v step g readBuf m st.1 st.2) := by
  intro m
  induction m with
  | zero => intro _ _; exact h
  | succ m ih =>
    intro hm hkeep
    have hprev := ih (by omega) fun k hk => hkeep k (by omega)
    have hlast := hkeep m (by omega)
    rw [Ps5Debugger.dropZeros, List.range_succ, List.foldl_append, ← Ps5Debugger.dropZeros, List.foldl_cons,
      List.foldl_nil]
    split
    · next hzero =>
      rw [hzero] at hlast
      exact hprev.drop hlast (by omega)
    · next hzero =>
      rw [Bool.not_eq_true] at hzero
      rw [hzero] at hlast
      exact hprev.stay hlast

/-- Without the zero check. -/
theorem BitInv.keepAll (h : BitInv keep n g st) (hall : ∀ x, keep x = true) : ∀ m : Nat,
    BitInv keep n (g + m) st := by
  intro m
  induction m with
  | zero => exact h
  | succ m ih => exact ih.stay (hall _)

end Zeros

/-! ## Filling -/

/-- What is stored when the slots below `g` are read. `value x` is the value of slot `x`. -/
structure FillInv (r : SnapReq) (plan : SnapPlan) (value : Nat → List Byte) (keep : Nat → Bool) (n g : Nat)
    (st : FillState) : Prop where
  ram : st.store.ramBytes = plan.ramBytes
  cur : ∀ x < g, slice st.store.flat (x * r.valueLength) r.valueLength = value x
  first : plan.keepFirst = true → ∀ x < g, slice st.first (x * r.valueLength) r.valueLength = value x
  prev : plan.keepPrev = true → ∀ x < g, slice st.prev (x * r.valueLength) r.valueLength = value x
  live : BitInv keep n g (st.bitmap, st.survivors)

section Fill

variable {mem : Memory} {r : SnapReq} {plan : SnapPlan} {value : Nat → List Byte} {keep : Nat → Bool}
  {a : Nat → Nat} {n g : Nat} {st : FillState} {w : FillWindow}

/-- The slots of a window in `read_buf`. -/
theorem window_slots (readBuf : Buf) (hpos : 0 < w.winSlots)
    (haddr : ∀ k < w.winSlots, a (g + k) = u64 (w.waddr + k * r.step)) {k : Nat} (hk : k < w.winSlots) :
    slice (readInto mem readBuf w.waddr (w.wbytes r.valueLength r.step)) (k * r.step) r.valueLength =
      slice (readMem mem (a (g + k))) 0 r.valueLength := by
  rw [haddr k hk, slice_readMem_add]
  refine slice_eq_iff.mpr fun y hy => readInto_of_lt ?_
  have hmul : k * r.step ≤ (w.winSlots - 1) * r.step := Nat.mul_le_mul_right _ (by omega)
  rw [FillWindow.wbytes]
  omega

/-- A slot that lies in RAM altogether. -/
theorem slice_flat_ram (s : SplitStore) {o len : Nat} (h : o + len ≤ s.ramBytes) :
    slice s.flat o len = slice s.ram o len :=
  slice_eq_iff.mpr fun y hy => by rw [SplitStore.flat, if_pos (by omega)]

/-- The slots below a bound, after the slots of a window were copied behind them. -/
theorem slots_blit {v m : Nat} {dst src : Buf} (hdst : ∀ x < g, slice dst (x * v) v = value x)
    (hsrc : ∀ k < m, slice src (k * v) v = value (g + k)) :
    ∀ x < g + m, slice (blit dst (g * v) src (m * v)) (x * v) v = value x := by
  intro x hx
  rw [slice_blit_slots]
  by_cases hin : g ≤ x ∧ x < g + m
  · rw [if_pos hin, hsrc (x - g) (by omega), Nat.add_sub_cancel' hin.1]
  · rw [if_neg hin, hdst x (by omega)]

/-- The same for a store in RAM, with the slots of the window taken apart. -/
theorem slots_pack {v step m : Nat} {s : SplitStore} {src : Buf} (hbytes : (g + m) * v ≤ s.ramBytes)
    (hold : ∀ x < g, slice s.flat (x * v) v = value x)
    (hsrc : ∀ k < m, slice src (k * step) v = value (g + k)) :
    ∀ x < g + m, slice (SplitStore.flat ⟨packSlots v step g src m s.ram, s.ramBytes, s.file⟩) (x * v) v = value x := by
  intro x hx
  have hslot : x * v + v ≤ s.ramBytes := by
    rw [← Nat.succ_mul]
    exact Nat.le_trans (Nat.mul_le_mul_right _ hx) hbytes
  have hflat := slice_flat_ram ⟨packSlots v step g src m s.ram, s.ramBytes, s.file⟩ hslot
  rw [hflat, slice_packSlots]
  by_cases hin : g ≤ x ∧ x < g + m
  · rw [if_pos hin, hsrc (x - g) (by omega), Nat.add_sub_cancel' hin.1]
  · rw [if_neg hin, ← slice_flat_ram _ hslot, hold x (by omega)]

/-- **One window** of the filling loop. -/
theorem FillInv.window (h : FillInv r plan value keep n g st) (hw : w.gslot = g) (hpos : 0 < w.winSlots)
    (hle : g + w.winSlots ≤ n) (haddr : ∀ k < w.winSlots, a (g + k) = u64 (w.waddr + k * r.step))
    (hvalue : ∀ x, value x = slice (readMem mem (a x)) 0 r.valueLength)
    (hkeep : ∀ x, keep x = (r.includeZeros || !(value x).all (· == 0)))
    (hram : plan.useFile = false → n * r.valueLength ≤ plan.ramBytes) :
    FillInv r plan value keep n (g + w.winSlots) (fillWindow mem r plan st w) := by
  have hslots : ∀ k < w.winSlots, slice (readInto mem st.readBuf w.waddr (w.wbytes r.valueLength r.step))
      (k * r.step) r.valueLength = value (g + k) := fun k hk => by
    rw [hvalue, window_slots st.readBuf hpos haddr hk]
  simp only [fillWindow, hw]
  generalize readInto mem st.readBuf w.waddr (w.wbytes r.valueLength r.step) = readBuf at hslots ⊢
  generalize w.winSlots = m at *
  -- what the files are written from
  have hsrc : (plan.useFile || plan.keepFirst || plan.keepPrev) = true → ∀ k < m,
      slice (if r.step = r.valueLength then readBuf else
        if ((plan.useFile || plan.keepFirst || plan.keepPrev) && r.step != r.valueLength) = true then
          packSlots r.valueLength r.step 0 readBuf m st.packBuf else st.packBuf)
        (k * r.valueLength) r.valueLength = value (g + k) := by
    intro hpacks k hk
    by_cases hstep : r.step = r.valueLength
    · rw [if_pos hstep, ← hslots k hk, hstep]
    · rw [if_neg hstep, hpacks, bne_iff_ne.mpr hstep, Bool.and_self, if_pos rfl, slice_packSlots,
        if_pos (by omega), Nat.sub_zero, hslots k hk]
  generalize (if r.step = r.valueLength then readBuf else
    if ((plan.useFile || plan.keepFirst || plan.keepPrev) && r.step != r.valueLength) = true then
      packSlots r.valueLength r.step 0 readBuf m st.packBuf else st.packBuf) = psrc at hsrc ⊢
  refine ⟨?_, fun x hx => ?_, fun hkeep x hx => ?_, fun hkeep x hx => ?_, ?_⟩
  · cases plan.useFile
    · simp only [Bool.false_eq_true, if_false]
      split <;> exact h.ram
    · rw [if_pos rfl, SplitStore.write_ramBytes]
      exact h.ram
  · cases hfile : plan.useFile with
    | true =>
      rw [if_pos rfl, SplitStore.flat_write]
      exact slots_blit h.cur (hsrc (by simp [hfile])) x hx
    | false =>
      -- the whole baseline is in RAM
      have hbytes : (g + m) * r.valueLength ≤ st.store.ramBytes := by
        rw [h.ram]
        exact Nat.le_trans (Nat.mul_le_mul_right _ hle) (hram hfile)
      simp only [Bool.false_eq_true, if_false]
      split
      · next hstep =>
        rw [Nat.add_mul] at hbytes
        rw [SplitStore.flat_ram _ _ hbytes]
        exact slots_blit h.cur (fun k hk => by rw [← hslots k hk, hstep]) x hx
      · exact slots_pack hbytes h.cur hslots x hx
  · rw [if_pos hkeep]
    exact slots_blit (h.first hkeep) (hsrc (by simp [hkeep])) x hx
  · rw [if_pos hkeep]
    exact slots_blit (h.prev hkeep) (hsrc (by simp [hkeep])) x hx
  · cases hz : r.includeZeros with
    | true => exact h.live.keepAll (fun x => by rw [hkeep, hz, Bool.true_or]) m
    | false =>
      refine h.live.dropZeros m hle fun k hk => ?_
      rw [hkeep, hz, Bool.false_or, hslots k hk]

/-- **The filling loop.** -/
theorem fillInv_foldl (hvalue : ∀ x, value x = slice (readMem mem (a x)) 0 r.valueLength)
    (hkeep : ∀ x, keep x = (r.includeZeros || !(value x).all (· == 0)))
    (hram : plan.useFile = false → n * r.valueLength ≤ plan.ramBytes) (ws : List FillWindow) :
    ∀ {g : Nat} {st : FillState}, FillInv r plan value keep n g st → Tiles a r.step g ws n →
    FillInv r plan value keep n n (ws.foldl (fillWindow mem r plan) st) := by
  induction ws with
  | nil => rintro g st h rfl; exact h
  | cons w ws ih =>
    rintro g st h ⟨hw, hpos, haddr, htiles⟩
    exact ih (h.window hw hpos (tiles_le htiles) haddr hvalue hkeep hram) htiles

end Fill

/-! ## The session -/

/-- What a START that is not declined does. -/
theorem snapCreate_cases {mem : Memory} {r : SnapReq} {env : SnapEnv} {s : SnapSession}
    (h : snapCreate mem r env = some s) :
    ∃ plan st, snapPlan r env (slotTotal r.valueLength r.step 0 r.segs) = some plan ∧
      (fillWindows env.chunkSize r.step (buildSegments r.valueLength r.step 0 r.segs)).foldl
        (fillWindow mem r plan) ⟨env.readBuf, env.packInit, ⟨env.ramInit, plan.ramBytes, env.fileInit⟩,
          env.firstInit, env.prevInit, fun _ => 0xFF, slotTotal r.valueLength r.step 0 r.segs⟩ = st ∧
      s = ⟨st.bitmap, slotTotal r.valueLength r.step 0 r.segs, st.survivors, r.step, st.store, st.first,
        plan.keepFirst, st.prev, plan.keepPrev, buildSegments r.valueLength r.step 0 r.segs,
        r.valueLength⟩ := by
  rw [snapCreate] at h
  split at h
  · cases h
  · cases hplan : snapPlan r env (slotTotal r.valueLength r.step 0 r.segs) with
    | none => simp only [hplan] at h; cases h
    | some plan =>
      simp only [hplan] at h
      exact ⟨plan, _, rfl, rfl, (Option.some.inj h).symm⟩

/-- What a plan says about the baseline: it is whole slots, all in RAM unless there is a
file, and the bitmap is within its limit. -/
theorem snapPlan_spec {r : SnapReq} {env : SnapEnv} {n : Nat} {plan : SnapPlan}
    (hn : n * r.valueLength < 2 ^ 64) (h : snapPlan r env n = some plan) :
    (plan.useFile = false → n * r.valueLength ≤ plan.ramBytes) ∧ plan.ramBytes % r.valueLength = 0 ∧
      (n + 7) / 8 ≤ snapBitmapMax := by
  rw [snapPlan] at h
  split at h
  · next hzero =>
    obtain rfl := Option.some.inj h
    exact ⟨fun _ => by simp [hzero], Nat.zero_mod _, by simp [hzero]⟩
  · split at h
    · cases h
    · next hlimit =>
      rw [not_or, Nat.not_lt] at hlimit
      simp only [u64_of_lt hn] at h
      split at h
      · obtain rfl := Option.some.inj h
        exact ⟨fun _ => Nat.le_refl _, Nat.mul_mod_left _ _, hlimit.1⟩
      · split at h
        · cases h
        · obtain rfl := Option.some.inj h
          refine ⟨fun hfile => absurd hfile (by simp), ?_, hlimit.1⟩
          simp only
          split
          · exact Nat.mul_mod_left _ _
          · exact Nat.zero_mod _

/-- The files a START asked to keep are kept when they can be packed and opened. -/
theorem snapPlan_keeps {r : SnapReq} {env : SnapEnv} {n : Nat} {plan : SnapPlan}
    (h : snapPlan r env n = some plan) (hpack : env.packBuf = true) (hfirst : env.firstOpen = true)
    (hprev : env.prevOpen = true) : plan.keepFirst = r.keepFirst ∧ plan.keepPrev = r.keepPrev := by
  rw [snapPlan] at h
  simp only [hpack, hfirst, hprev, Bool.or_true, Bool.and_true] at h
  split at h
  · obtain rfl := Option.some.inj h
    exact ⟨rfl, rfl⟩
  · split at h
    · cases h
    · split at h
      · obtain rfl := Option.some.inj h
        exact ⟨rfl, rfl⟩
      · split at h
        · cases h
        · obtain rfl := Option.some.inj h
          exact ⟨rfl, rfl⟩

/-- A START over a layout. -/
def SnapLayout.req (L : SnapLayout) (includeZeros keepFirst keepPrev : Bool) : SnapReq :=
  ⟨L.v, L.step, L.segs, includeZeros, keepFirst, keepPrev⟩

/-- The value at an address. -/
def SnapLayout.valueAt (L : SnapLayout) (mem : Memory) (a : Nat) : List Byte :=
  slice (readMem mem a) 0 L.v

/-- The reference for a START: the slots whose value is not zero, or all of them, each with
its value as current, previous and first value. -/
def SnapLayout.startRecords (L : SnapLayout) (mem : Memory) (includeZeros hasPrev hasFirst : Bool) :
    List Rec :=
  ((refSlots L.v L.step L.segs).filter fun a =>
    includeZeros || !(L.valueAt mem a).all (· == 0)).map fun a =>
      ⟨a, L.valueAt mem a, if hasPrev then L.valueAt mem a else [],
        if hasFirst then L.valueAt mem a else []⟩

/-- What holds of every snapshot session over a layout. -/
structure SnapSession.Good (L : SnapLayout) (s : SnapSession) : Prop where
  isOver : s.Over L
  lt : s.slotCount < 2 ^ 32
  whole : s.store.ramBytes % L.v = 0
  counted : s.survivorCount = s.records.length

theorem SnapLayout.map_addr (L : SnapLayout) :
    (List.range L.slotCount).map L.addr = slotAddrs L.v L.step L.segs := by
  refine List.ext_getElem (by simp [SnapLayout.slotCount]) fun i h1 h2 => ?_
  rw [List.getElem_map, List.getElem_range, SnapLayout.addr, List.getD_eq_getElem?_getD,
    List.getElem?_eq_getElem h2, Option.getD_some]

/-- The slots a checked bitmap has left. -/
theorem BitInv.done {keep : Nat → Bool} {n : Nat} {st : Buf × Nat} (h : BitInv keep n n st) :
    setFrom st.1 0 n = (List.range n).filter keep ∧ st.2 = ((List.range n).filter keep).length := by
  constructor
  · rw [setFrom, Nat.sub_zero, ← List.range_eq_range']
    apply List.filter_congr
    intro x hx
    have hlt := List.mem_range.mp hx
    rw [h.bits x, decide_eq_false (by omega), Bool.false_or]
  · have hsplit := List.length_eq_length_filter_add (l := List.range n) keep
    have hcount := h.count
    rw [List.length_range] at hsplit
    omega

/-- The slots of a layout do not wrap the slot count. -/
theorem SnapLayout.slotTotal_eq (L : SnapLayout) : slotTotal L.v L.step 0 L.segs = L.slotCount := by
  have hlt : L.slotCount < 2 ^ 53 := L.slotCount_lt
  rw [SnapLayout.slotCount] at hlt ⊢
  rw [Ps5Debugger.slotTotal_eq L.segs 0 (by omega), Nat.zero_add]

/-- The windows of the filling loop tile the slots of a layout. -/
theorem SnapLayout.tiles (L : SnapLayout) (chunkSize : Nat) : Tiles L.addr L.step 0
    (fillWindows chunkSize L.step (buildSegments L.v L.step 0 L.segs)) L.slotCount := by
  have hlt : L.slotCount < 2 ^ 53 := L.slotCount_lt
  have htiles := @fillWindows_tiles L.addr L.step L.v chunkSize L.segs 0
    (by rw [SnapLayout.slotCount] at hlt; omega) fun k hk => by
      have haddr : L.addr k + L.v < 2 ^ 64 := SnapLayout.addr_lt hk
      rw [Nat.zero_add]
      exact (u64_of_lt (Nat.lt_of_le_of_lt (Nat.le_add_right _ _) haddr)).symm
  rwa [Nat.zero_add] at htiles

/-- A slot a START leaves alive. -/
def SnapLayout.keeps (L : SnapLayout) (mem : Memory) (includeZeros : Bool) (x : Nat) : Bool :=
  includeZeros || !(L.valueAt mem (L.addr x)).all (· == 0)

/-- Before the first window. -/
theorem fillInv_zero (r : SnapReq) (plan : SnapPlan) (value : Nat → List Byte) (keep : Nat → Bool)
    (n : Nat) (readBuf packBuf ram file first prev : Buf) :
    FillInv r plan value keep n 0
      ⟨readBuf, packBuf, ⟨ram, plan.ramBytes, file⟩, first, prev, fun _ => 0xFF, n⟩ :=
  ⟨rfl, fun x hx => absurd hx (Nat.not_lt_zero _), fun _ x hx => absurd hx (Nat.not_lt_zero _),
    fun _ x hx => absurd hx (Nat.not_lt_zero _), fun x => by rw [bit_ones]; simp, rfl⟩

/-- The session of a START, from what the filling loop leaves. -/
theorem snapCreate_fill {L : SnapLayout} {mem : Memory} {env : SnapEnv}
    {includeZeros keepFirst keepPrev : Bool} {s : SnapSession}
    (h : snapCreate mem (L.req includeZeros keepFirst keepPrev) env = some s) :
    ∃ plan st, snapPlan (L.req includeZeros keepFirst keepPrev) env L.slotCount = some plan ∧
      FillInv (L.req includeZeros keepFirst keepPrev) plan (fun x => L.valueAt mem (L.addr x))
        (L.keeps mem includeZeros) L.slotCount L.slotCount st ∧
      s = ⟨st.bitmap, L.slotCount, st.survivors, L.step, st.store, st.first, plan.keepFirst, st.prev,
        plan.keepPrev, buildSegments L.v L.step 0 L.segs, L.v⟩ := by
  have hlt : L.slotCount < 2 ^ 53 := L.slotCount_lt
  have hbytes : L.slotCount * L.v < 2 ^ 64 := by
    have hmul : L.slotCount * L.v ≤ L.slotCount * 8 := Nat.mul_le_mul_left _ L.v_le
    omega
  obtain ⟨plan, st, hplan, hst, rfl⟩ := snapCreate_cases h
  have htotal : slotTotal (L.req includeZeros keepFirst keepPrev).valueLength
      (L.req includeZeros keepFirst keepPrev).step 0 (L.req includeZeros keepFirst keepPrev).segs =
      L.slotCount := L.slotTotal_eq
  rw [htotal] at hplan hst ⊢
  obtain ⟨hram, -, -⟩ := snapPlan_spec hbytes hplan
  refine ⟨plan, st, hplan, ?_, rfl⟩
  rw [← hst]
  exact fillInv_foldl (fun x => rfl) (fun _ => rfl) hram _ (fillInv_zero ..) (L.tiles env.chunkSize)

/-- **A START takes down its slots.** -/
theorem snapCreate_spec {L : SnapLayout} {mem : Memory} {env : SnapEnv}
    {includeZeros keepFirst keepPrev : Bool} {s : SnapSession}
    (h : snapCreate mem (L.req includeZeros keepFirst keepPrev) env = some s) :
    s.Good L ∧ s.records = L.startRecords mem includeZeros s.hasPrev s.hasFirst := by
  have hlt : L.slotCount < 2 ^ 53 := L.slotCount_lt
  have hbytes : L.slotCount * L.v < 2 ^ 64 := by
    have hmul : L.slotCount * L.v ≤ L.slotCount * 8 := Nat.mul_le_mul_left _ L.v_le
    omega
  obtain ⟨plan, st, hplan, hfill, hs⟩ := snapCreate_fill h
  obtain ⟨-, hwhole, hlimit⟩ := snapPlan_spec hbytes hplan
  obtain ⟨hlive, hcount⟩ := hfill.live.done
  have hover : s.Over L := by
    subst hs
    exact ⟨rfl, L.slotTotal_eq.symm, rfl, rfl⟩
  have hslots : s.live = (List.range L.slotCount).filter (L.keeps mem includeZeros) := by
    rw [SnapSession.live, hover.slotCount_eq]
    subst hs
    exact hlive
  have hrec : ∀ x < L.slotCount, s.recAt x = ⟨L.addr x, L.valueAt mem (L.addr x),
      if s.hasPrev then L.valueAt mem (L.addr x) else [],
      if s.hasFirst then L.valueAt mem (L.addr x) else []⟩ := by
    intro x hx
    rw [SnapSession.recAt, hover.addr_eq (hover.slotCount_eq ▸ hx)]
    subst hs
    refine congr (congr (congrArg _ (hfill.cur x hx)) ?_) ?_
    · exact if_ctx_congr Iff.rfl (fun hp => hfill.prev hp x hx) fun _ => rfl
    · exact if_ctx_congr Iff.rfl (fun hp => hfill.first hp x hx) fun _ => rfl
  refine ⟨⟨hover, ?_, ?_, ?_⟩, ?_⟩
  · rw [hover.slotCount_eq]
    rw [snapBitmapMax] at hlimit
    omega
  · have hkept := hfill.ram
    subst hs
    rw [hkept]
    exact hwhole
  · rw [SnapSession.records, List.length_map, hslots]
    subst hs
    exact hcount
  · have hstep : 0 < L.step := Nat.lt_of_lt_of_le L.v_pos L.v_le_step
    rw [SnapSession.records, hslots, SnapLayout.startRecords, ← slotAddrs_eq_refSlots L.v_pos hstep,
      ← L.map_addr, List.filter_map, List.map_map]
    apply List.map_congr_left
    intro x hx
    exact hrec x (List.mem_range.mp (List.mem_filter.mp hx).1)

end Ps5Debugger
