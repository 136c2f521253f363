import Ps5Debugger.AobDispatch
import Mathlib.Data.List.GetD

/-!
# The search finds the occurrence asked for

What `CMD_PROC_SCAN_AOB_MULTI` is for, in its own terms: the occurrences of a pattern in the
region, in ascending order (`AobPat.occurrences`), and which one the client gets
(`AobPat.answer`). The search computes it whatever the number of workers and the chunk size.

A worker keeps, of each pattern, the first `cap` occurrences it met (`Recorded`). A test adds
one (`Recorded.test`), a position tests all patterns that may occur there
(`Recorded.position`), and a worker that stops early has kept all it wants (`Recorded.stop`).
The merge then only sees the front of each worker's occurrences, which is enough to find one
of them by its number (`MergeInv`).
-/

namespace Ps5Debugger

open Lib

/-! ## Occurrences -/

namespace AobPat

/-- The pattern occurs at `pos` of a region of `length` bytes. -/
def OccursAt (p : AobPat) (region : Buf) (length pos : Nat) : Prop :=
  pos + p.plen ≤ length ∧ ∀ k < p.plen, p.msk k = 1 → region (pos + k) = p.pat k

instance (p : AobPat) (region : Buf) (length pos : Nat) : Decidable (p.OccursAt region length pos) :=
  inferInstanceAs (Decidable (_ ∧ _))

/-- The occurrences at `lo`, ..., `hi - 1`, in ascending order. -/
def occurrences (p : AobPat) (region : Buf) (length lo hi : Nat) : List Nat :=
  (List.range' lo (hi - lo)).filter fun pos => p.OccursAt region length pos

/-- What the client gets: the address of occurrence number `target_count`, counted from one,
or zero when there is none, or when it must be the last one and is not. -/
def answer (p : AobPat) (mem : Memory) (r : AobRequest) : Nat :=
  let found := p.occurrences (readMem mem r.address.toNat) r.length.toNat 0 r.length.toNat
  let t := p.targetCount.toNat
  if 1 ≤ t ∧ t ≤ found.length ∧ (r.stopUnique = true → found.length = t) then
    u64 (r.address.toNat + found.getD (t - 1) 0)
  else 0

variable {p : AobPat} {region : Buf} {length : Nat}

theorem occurrences_self (lo : Nat) : p.occurrences region length lo lo = [] := by
  rw [occurrences, Nat.sub_self]
  rfl

theorem occurrences_append {lo mid hi : Nat} (h1 : lo ≤ mid) (h2 : mid ≤ hi) :
    p.occurrences region length lo mid ++ p.occurrences region length mid hi =
      p.occurrences region length lo hi := by
  obtain ⟨m, rfl⟩ := Nat.exists_eq_add_of_le h1
  obtain ⟨n, rfl⟩ := Nat.exists_eq_add_of_le h2
  rw [occurrences, occurrences, occurrences, ← List.filter_append, Nat.add_sub_cancel_left,
    Nat.add_sub_cancel_left, List.range'_append_1, Nat.add_assoc, Nat.add_sub_cancel_left]

/-- The occurrences of one more position. -/
theorem occurrences_succ {lo hi : Nat} (h : lo ≤ hi) :
    p.occurrences region length lo (hi + 1) = p.occurrences region length lo hi ++
      if p.OccursAt region length hi then [hi] else [] := by
  rw [← occurrences_append h (Nat.le_add_right hi 1)]
  congr 1
  rw [occurrences, Nat.add_sub_cancel_left, List.range'_one, List.filter_singleton]
  by_cases hocc : p.OccursAt region length hi
  · rw [if_pos hocc, decide_eq_true hocc, cond_true]
  · rw [if_neg hocc, decide_eq_false hocc, cond_false]

theorem occurrences_prefix {lo mid hi : Nat} (h1 : lo ≤ mid) (h2 : mid ≤ hi) :
    p.occurrences region length lo mid <+: p.occurrences region length lo hi :=
  ⟨_, occurrences_append h1 h2⟩

/-- `aob_match_at` compares the bytes the mask asks for. -/
theorem aobMatchAt_iff {buf : Buf} {pos : Nat} :
    aobMatchAt buf pos p = true ↔ ∀ k < p.plen, p.msk k = 1 → buf (pos + k) = p.pat k := by
  rw [aobMatchAt, List.all_eq_true]
  refine forall_congr' fun k => ?_
  rw [List.mem_range, Bool.not_eq_true', Bool.and_eq_false_imp, bne_iff_ne, beq_eq_false_iff_ne]
  exact imp_congr_right fun _ => ⟨fun h hm => not_not.mp fun hne => h hne hm, fun h hne hm => hne (h hm)⟩

/-- A pattern with a first byte of its own occurs only where that byte is. -/
theorem OccursAt.firstFixed {pos : Nat} (h : p.OccursAt region length pos) (hpos : 0 < p.plen) :
    p.firstFixed = some (region pos) ∨ p.firstFixed = none := by
  rw [AobPat.firstFixed]
  by_cases hm : p.msk 0 = 1
  · left
    rw [if_pos hm, ← h.2 0 hpos hm, Nat.add_zero]
  · right
    rw [if_neg hm]

end AobPat

/-! ## One worker -/

/-- The room of each pattern. -/
def capAt (pats : List AobPat) (pi : Nat) : Nat := (pats.getD pi default).cap

/-- What the handler makes sure of before it starts a worker. -/
structure AobWorker.Ok (w : AobWorker) : Prop where
  disp : ∃ bidx widx, w.disp = aobBuildDispatch w.pats bidx widx
  plen_pos : ∀ p ∈ w.pats, 0 < p.plen
  plen_le : ∀ p ∈ w.pats, p.plen ≤ w.maxPlen
  maxPlen_pos : 0 < w.maxPlen
  chunk_pos : 0 < w.chunkSize
  buffer : w.chunkSize + w.maxPlen ≤ 2 ^ 32
  length_lt : w.length < 2 ^ 32
  stop_le : w.stop ≤ w.length
  slotOff : ∀ pi < w.pats.length, w.slotOff pi = prefixSum (capAt w.pats) pi
  slots : prefixSum (capAt w.pats) w.pats.length < 2 ^ 32

/-- What a worker has recorded once it met the occurrences `met`. -/
structure Recorded (w : AobWorker) (met : Fin w.pats.length → List Nat) (sa : AobFound × Nat) : Prop where
  counts : ∀ i : Fin w.pats.length, sa.1.counts i = min (met i).length (w.pats.get i).cap
  done : ∀ i : Fin w.pats.length, sa.1.done i = decide ((w.pats.get i).cap ≤ (met i).length)
  addrs : Holds sa.1.addrs (fun i : Fin w.pats.length => w.slotOff i) fun i =>
    ((met i).take (w.pats.get i).cap).map fun pos => u64 (w.baseAddr + pos)
  active : sa.2 = (List.finRange w.pats.length).countP fun i : Fin w.pats.length => !sa.1.done i

/-- Of a predicate that fails at one more place, one less element holds. -/
theorem countP_update {α : Type} [DecidableEq α] {l : List α} (hnd : l.Nodup) {f : α → Bool} {a : α}
    (ha : a ∈ l) (hf : f a = false) :
    l.countP (fun b => !Function.update f a true b) = l.countP (fun b => !f b) - 1 := by
  have hperm := List.perm_cons_erase ha
  rw [hperm.countP_eq, hperm.countP_eq, List.countP_cons, List.countP_cons, hf, Function.update_self]
  have hrest : (l.erase a).countP (fun b => !Function.update f a true b) =
      (l.erase a).countP fun b => !f b := by
    refine List.countP_congr fun b hb => ?_
    rw [Function.update_of_ne (hnd.mem_erase_iff.mp hb).1]
  rw [hrest]
  rfl

section Worker

variable {w : AobWorker}

/-- The lists of different patterns do not meet. -/
theorem AobWorker.Ok.apart (hw : w.Ok) :
    Apart (fun i : Fin w.pats.length => w.slotOff i) fun i => (w.pats.get i).cap := by
  intro i j hij k hk l hl
  have hcap : ∀ i : Fin w.pats.length, (w.pats.get i).cap = capAt w.pats i := by
    intro i
    rw [capAt, List.getD_eq_getElem _ _ i.isLt, List.get_eq_getElem]
  simp only [hcap] at hk hl ⊢
  rw [hw.slotOff i i.isLt, hw.slotOff j j.isLt]
  exact prefixSum_apart _ _ _ (fun h => hij (Fin.ext h)) k hk l hl

/-- A slot number fits. -/
theorem AobWorker.Ok.slot_lt (hw : w.Ok) (i : Fin w.pats.length) {c : Nat} (hc : c < (w.pats.get i).cap) :
    w.slotOff i + c < 2 ^ 32 := by
  have hle := @prefixSum_add_le (capAt w.pats) i w.pats.length i.isLt
  have hslots := hw.slots
  rw [capAt, List.getD_eq_getElem _ _ i.isLt] at hle
  rw [hw.slotOff i i.isLt]
  rw [List.get_eq_getElem] at hc
  omega

/-- The recorded addresses. -/
theorem Recorded.addr (hw : w.Ok) {met : Fin w.pats.length → List Nat} {sa : AobFound × Nat}
    (h : Recorded w met sa) (i : Fin w.pats.length) {k : Nat}
    (hk : k < min (met i).length (w.pats.get i).cap) :
    ((met i).map fun pos => u64 (w.baseAddr + pos))[k]? = some (sa.1.addrs (u32 (w.slotOff i + k))) := by
  obtain ⟨hlen, hcap⟩ := Nat.lt_min.mp hk
  have hget := h.addrs i k (by rw [List.length_map, List.length_take, Nat.min_comm]; exact hk)
  simp only at hget
  rw [List.map_take, List.getElem?_take_of_lt hcap] at hget
  rw [hget, u32_of_lt (hw.slot_lt i hcap)]

/-- Occurrences behind the cap change nothing. -/
theorem Recorded.grow {met met' : Fin w.pats.length → List Nat} {sa : AobFound × Nat}
    (h : Recorded w met sa)
    (hgrow : ∀ i, met' i = met i ∨ (w.pats.get i).cap ≤ (met i).length ∧ met i <+: met' i) :
    Recorded w met' sa := by
  refine ⟨fun i => ?_, fun i => ?_, ?_, h.active⟩
  · rw [h.counts]
    rcases hgrow i with heq | ⟨hcap, hpre⟩
    · rw [heq]
    · rw [Nat.min_eq_right hcap, Nat.min_eq_right (Nat.le_trans hcap hpre.length_le)]
  · rw [h.done]
    rcases hgrow i with heq | ⟨hcap, hpre⟩
    · rw [heq]
    · rw [decide_eq_true hcap, decide_eq_true (Nat.le_trans hcap hpre.length_le)]
  · have htake : ∀ i, (met' i).take (w.pats.get i).cap = (met i).take (w.pats.get i).cap := by
      intro i
      rcases hgrow i with heq | ⟨hcap, rest, hrest⟩
      · rw [heq]
      · rw [← hrest, List.take_append_of_le_length hcap]
    simp only [htake]
    exact h.addrs

/-- A worker none of whose patterns is active has recorded all it ever will. -/
theorem Recorded.stop {met met' : Fin w.pats.length → List Nat} {sa : AobFound × Nat}
    (h : Recorded w met sa) (hactive : sa.2 = 0) (hpre : ∀ i, met i <+: met' i) : Recorded w met' sa := by
  refine h.grow fun i => .inr ⟨?_, hpre i⟩
  rw [h.active, List.countP_eq_zero] at hactive
  have hi := hactive i (List.mem_finRange i)
  rw [h.done i, Bool.not_eq_true, Bool.not_eq_false', decide_eq_true_eq] at hi
  exact hi

/-! ### A test -/

/-- A chunk owns at least one position of the worker's span. -/
theorem AobWorker.Ok.own_spec (hw : w.Ok) {off : Nat} (hoff : off < w.stop) :
    0 < w.own off ∧ off + w.own off ≤ w.stop ∧ w.own off ≤ w.chunkSize := by
  have hpos := hw.chunk_pos
  rw [AobWorker.own]
  split <;> omega

theorem AobWorker.Ok.readLen_eq (hw : w.Ok) {off : Nat} (hoff : off < w.stop) :
    w.readLen off = min (w.own off + w.maxPlen - 1) (w.length - off) := by
  obtain ⟨hown, -, hchunk⟩ := hw.own_spec hoff
  have hbuffer := hw.buffer
  rw [AobWorker.readLen, u32_of_lt (by omega)]
  split <;> omega

/-- The chunk at `off` is in the buffer. -/
def ReadOk (w : AobWorker) (region readBuf : Buf) (off : Nat) : Prop :=
  ∀ k < w.readLen off, readBuf k = region (off + k)

section Test

variable {region readBuf : Buf} {off jj : Nat} {st : AobFound} {i : Fin w.pats.length}

/-- The three tests of `aob_try` find an occurrence. -/
theorem tests_iff (hw : w.Ok) (hoff : off < w.stop) (hread : ReadOk w region readBuf off)
    (hjj : jj < w.own off) {p : AobPat} (hp : p ∈ w.pats) :
    (u64 (off + jj + p.plen) ≤ w.length ∧ u32 (jj + p.plen) ≤ w.readLen off ∧
      aobMatchAt readBuf jj p = true) ↔ p.OccursAt region w.length (off + jj) := by
  obtain ⟨-, hstop, hchunk⟩ := hw.own_spec hoff
  have hplen := hw.plen_le p hp
  have hbuffer := hw.buffer
  have hlength := hw.length_lt
  have hle := hw.stop_le
  rw [u64_of_lt (by omega), u32_of_lt (by omega), AobPat.aobMatchAt_iff, AobPat.OccursAt]
  have hfits : off + jj + p.plen ≤ w.length → jj + p.plen ≤ w.readLen off := by
    intro h
    rw [hw.readLen_eq hoff]
    omega
  have hbytes : jj + p.plen ≤ w.readLen off → ∀ k < p.plen, readBuf (jj + k) = region (off + jj + k) := by
    intro h k hk
    rw [hread _ (by omega), Nat.add_assoc]
  constructor
  · rintro ⟨h1, h2, h3⟩
    refine ⟨h1, fun k hk hm => ?_⟩
    rw [← hbytes h2 k hk, h3 k hk hm]
  · rintro ⟨h1, h3⟩
    refine ⟨h1, hfits h1, fun k hk hm => ?_⟩
    rw [hbytes (hfits h1) k hk, h3 k hk hm]

theorem patAt_eq (i : Fin w.pats.length) : w.pats.getD i default = w.pats.get i :=
  List.getD_eq_getElem _ _ i.isLt

/-- No occurrence, no change. -/
theorem aobTry_of_not (hw : w.Ok) (hoff : off < w.stop) (hread : ReadOk w region readBuf off)
    (hjj : jj < w.own off) (absAddr : Nat) (hocc : ¬(w.pats.get i).OccursAt region w.length (off + jj)) :
    aobTry w readBuf (w.readLen off) jj (off + jj) absAddr st i = (st, 0) := by
  rw [← tests_iff hw hoff hread hjj (List.get_mem ..)] at hocc
  rw [aobTry, patAt_eq]
  by_cases h0 : st.done i
  · rw [if_pos h0]
  rw [if_neg h0]
  by_cases h1 : u64 (off + jj + (w.pats.get i).plen) > w.length
  · rw [if_pos h1]
  rw [if_neg h1]
  by_cases h2 : u32 (jj + (w.pats.get i).plen) > w.readLen off
  · rw [if_pos h2]
  rw [if_neg h2, if_pos]
  rw [Bool.not_eq_true', ← Bool.not_eq_true]
  exact fun h3 => hocc ⟨Nat.not_lt.mp h1, Nat.not_lt.mp h2, h3⟩

/-- An occurrence is recorded, and the pattern is done when that was the last. -/
theorem aobTry_of_occurs (hw : w.Ok) (hoff : off < w.stop) (hread : ReadOk w region readBuf off)
    (hjj : jj < w.own off) (absAddr : Nat) (hocc : (w.pats.get i).OccursAt region w.length (off + jj))
    (hdone : st.done i = false) (hcount : st.counts i < (w.pats.get i).cap) :
    aobTry w readBuf (w.readLen off) jj (off + jj) absAddr st i =
      (⟨Function.update st.addrs (w.slotOff i + st.counts i) absAddr,
        Function.update st.counts i (st.counts i + 1),
        if st.counts i + 1 = (w.pats.get i).cap then Function.update st.done i true else st.done⟩,
        if st.counts i + 1 = (w.pats.get i).cap then 1 else 0) := by
  obtain ⟨h1, h2, h3⟩ := (tests_iff hw hoff hread hjj (List.get_mem ..)).mpr hocc
  rw [aobTry, patAt_eq, if_neg (by rw [hdone]; exact Bool.false_ne_true), if_neg (Nat.not_lt.mpr h1),
    if_neg (Nat.not_lt.mpr h2), if_neg (by rw [h3]; exact Bool.false_ne_true)]
  simp only [if_pos hcount, u32_of_lt (hw.slot_lt i hcount)]
  split <;> rfl

/-- The addresses once pattern `i` has room for one more. -/
theorem Recorded.push_addrs (hw : w.Ok) {met : Fin w.pats.length → List Nat} {sa : AobFound × Nat}
    (h : Recorded w met sa) (hroom : (met i).length < (w.pats.get i).cap) (pos : Nat) :
    Holds (Function.update sa.1.addrs (w.slotOff i + (met i).length) (u64 (w.baseAddr + pos)))
      (fun j : Fin w.pats.length => w.slotOff j) fun j =>
        ((Function.update met i (met i ++ [pos]) j).take (w.pats.get j).cap).map fun pos =>
          u64 (w.baseAddr + pos) := by
  have hfull : ∀ j, (((met j).take (w.pats.get j).cap).map fun pos => u64 (w.baseAddr + pos)).length ≤
      (w.pats.get j).cap := by
    intro j
    rw [List.length_map, List.length_take]
    exact Nat.min_le_left ..
  have hlen : (((met i).take (w.pats.get i).cap).map fun pos => u64 (w.baseAddr + pos)).length =
      (met i).length := by
    rw [List.length_map, List.length_take, Nat.min_eq_right (Nat.le_of_lt hroom)]
  have hpush := h.addrs.push hw.apart hfull i (by rw [hlen]; exact hroom) (u64 (w.baseAddr + pos))
  rw [hlen] at hpush
  convert hpush using 1
  funext j
  by_cases hji : j = i
  · subst hji
    rw [Function.update_self, Function.update_self, List.take_of_length_le, List.take_of_length_le,
      List.map_append, List.map_singleton]
    · exact Nat.le_of_lt hroom
    · rw [List.length_append]
      exact hroom
  · rw [Function.update_of_ne hji, Function.update_of_ne hji]

/-- A pattern that still has room records an occurrence. -/
theorem Recorded.push (hw : w.Ok) {met : Fin w.pats.length → List Nat} {sa : AobFound × Nat}
    (h : Recorded w met sa) (hroom : (met i).length < (w.pats.get i).cap) (pos : Nat) :
    Recorded w (Function.update met i (met i ++ [pos]))
      (⟨Function.update sa.1.addrs (w.slotOff i + sa.1.counts i) (u64 (w.baseAddr + pos)),
        Function.update sa.1.counts i (sa.1.counts i + 1),
        if sa.1.counts i + 1 = (w.pats.get i).cap then Function.update sa.1.done i true else sa.1.done⟩,
        sa.2 - if sa.1.counts i + 1 = (w.pats.get i).cap then 1 else 0) := by
  have hcount : sa.1.counts i = (met i).length := by
    rw [h.counts, Nat.min_eq_left (Nat.le_of_lt hroom)]
  have hdone : sa.1.done i = false := by
    rw [h.done, decide_eq_false (Nat.not_le.mpr hroom)]
  have hne : ∀ {j : Fin w.pats.length}, j ≠ i → (j : Nat) ≠ i := fun hji heq => hji (Fin.ext heq)
  rw [hcount]
  refine ⟨fun j => ?_, fun j => ?_, ?_, ?_⟩
  · by_cases hji : j = i
    · subst hji
      simp only [Function.update_self, List.length_append, List.length_singleton]
      omega
    · simp only [Function.update_of_ne (hne hji), Function.update_of_ne hji]
      exact h.counts j
  · by_cases hji : j = i
    · subst hji
      simp only [Function.update_self, List.length_append, List.length_singleton]
      split
      · next hcap => rw [Function.update_self, decide_eq_true (Nat.le_of_eq hcap.symm)]
      · next hcap => rw [hdone, decide_eq_false (by omega)]
    · rw [Function.update_of_ne hji, ← h.done j]
      simp only
      split
      · rw [Function.update_of_ne (hne hji)]
      · rfl
  · exact h.push_addrs hw hroom pos
  · simp only
    split
    · have hflip := countP_update (f := fun j => sa.1.done j) (List.nodup_finRange w.pats.length)
        (List.mem_finRange i) hdone
      rw [h.active, ← hflip]
      congr 1
      funext j
      congr 1
      exact congrFun (Function.update_comp_eq_of_injective sa.1.done (fun _ _ => Fin.ext) i true).symm j
    · rw [Nat.sub_zero, h.active]

/-- **One test**: the pattern's occurrences up to here. -/
theorem Recorded.test (hw : w.Ok) (hoff : off < w.stop) (hread : ReadOk w region readBuf off)
    (hjj : jj < w.own off) {met : Fin w.pats.length → List Nat} {sa : AobFound × Nat}
    (h : Recorded w met sa) (i : Fin w.pats.length) :
    Recorded w (Function.update met i (met i ++
        if (w.pats.get i).OccursAt region w.length (off + jj) then [off + jj] else []))
      (aobTryActive w readBuf (w.readLen off) jj (off + jj) (u64 (w.baseAddr + (off + jj))) sa i) := by
  rw [aobTryActive]
  by_cases hocc : (w.pats.get i).OccursAt region w.length (off + jj)
  · rw [if_pos hocc]
    by_cases hroom : (met i).length < (w.pats.get i).cap
    · have hdone : sa.1.done i = false := by
        rw [h.done, decide_eq_false (Nat.not_le.mpr hroom)]
      have hcount : sa.1.counts i < (w.pats.get i).cap := by
        rw [h.counts, Nat.min_eq_left (Nat.le_of_lt hroom)]
        exact hroom
      rw [aobTry_of_occurs hw hoff hread hjj _ hocc hdone hcount]
      exact h.push hw hroom _
    · have hdone : sa.1.done i = true := by
        rw [h.done, decide_eq_true (Nat.not_lt.mp hroom)]
      rw [aobTry, if_pos hdone]
      refine h.grow fun j => ?_
      by_cases hji : j = i
      · subst hji
        rw [Function.update_self]
        exact .inr ⟨Nat.not_lt.mp hroom, List.prefix_append ..⟩
      · exact .inl (Function.update_of_ne hji ..)
  · rw [if_neg hocc, List.append_nil, Function.update_eq_self, aobTry_of_not hw hoff hread hjj _ hocc]
    exact h

/-- Several tests at one position. -/
theorem Recorded.tests (hw : w.Ok) (hoff : off < w.stop) (hread : ReadOk w region readBuf off)
    (hjj : jj < w.own off) (pis : List Nat) :
    pis.Nodup → (∀ pi ∈ pis, pi < w.pats.length) →
      ∀ {met : Fin w.pats.length → List Nat} {sa : AobFound × Nat}, Recorded w met sa →
        Recorded w (fun i => met i ++
            if (i : Nat) ∈ pis ∧ (w.pats.get i).OccursAt region w.length (off + jj) then [off + jj] else [])
          (pis.foldl (aobTryActive w readBuf (w.readLen off) jj (off + jj)
            (u64 (w.baseAddr + (off + jj)))) sa) := by
  induction pis with
  | nil =>
    intro _ _ met sa h
    simp only [List.not_mem_nil, false_and, if_false, List.append_nil]
    exact h
  | cons pi pis ih =>
    intro hnd hlt met sa h
    obtain ⟨hpi, hnd⟩ := List.nodup_cons.mp hnd
    have hnext := ih hnd (fun x hx => hlt x (List.mem_cons_of_mem _ hx))
      (h.test hw hoff hread hjj ⟨pi, hlt pi (List.mem_cons_self ..)⟩)
    rw [List.foldl_cons]
    convert hnext using 1
    funext i
    by_cases hi : (i : Nat) = pi
    · subst hi
      simp only [List.mem_cons, true_or, true_and, Function.update_self, hpi, false_and, if_false,
        List.append_nil]
    · rw [Function.update_of_ne fun h => hi (congrArg Fin.val h)]
      simp only [List.mem_cons, hi, false_or]

/-- A position tests the patterns `tested` there. -/
theorem aobPosition_eq (hw : w.Ok) (sa : AobFound × Nat) :
    aobPosition w readBuf off (w.readLen off) jj sa =
      (tested w.pats (readBuf jj)).foldl (aobTryActive w readBuf (w.readLen off) jj (off + jj)
        (u64 (w.baseAddr + (off + jj)))) sa := by
  obtain ⟨bidx, widx, hdisp⟩ := hw.disp
  rw [tested, List.foldl_append, ← bucket_eq w.pats bidx widx, ← wilds_eq w.pats bidx widx, ← hdisp,
    List.foldl_map, List.foldl_map]
  rfl

/-- **One position**: every pattern that occurs there is recorded, once. -/
theorem Recorded.position (hw : w.Ok) (hoff : off < w.stop) (hread : ReadOk w region readBuf off)
    (hjj : jj < w.own off) {met : Fin w.pats.length → List Nat} {sa : AobFound × Nat}
    (h : Recorded w met sa) :
    Recorded w (fun i => met i ++
        if (w.pats.get i).OccursAt region w.length (off + jj) then [off + jj] else [])
      (aobPosition w readBuf off (w.readLen off) jj sa) := by
  have hbyte : readBuf jj = region (off + jj) := by
    refine hread jj ?_
    obtain ⟨-, hstop, -⟩ := hw.own_spec hoff
    have hpos := hw.maxPlen_pos
    have hle := hw.stop_le
    rw [hw.readLen_eq hoff]
    omega
  rw [aobPosition_eq hw]
  have htests := h.tests hw hoff hread hjj (tested w.pats (readBuf jj)) (tested_nodup ..) fun pi hpi => by
    obtain ⟨hlt, -⟩ := mem_tested.mp hpi
    exact hlt
  -- a pattern that is not tested does not occur
  have htested : ∀ i : Fin w.pats.length, ((i : Nat) ∈ tested w.pats (readBuf jj) ∧
      (w.pats.get i).OccursAt region w.length (off + jj)) ↔
        (w.pats.get i).OccursAt region w.length (off + jj) := by
    intro i
    refine ⟨fun hocc => hocc.2, fun hocc => ⟨mem_tested.mpr ⟨i.isLt, ?_⟩, hocc⟩⟩
    rw [hbyte]
    exact hocc.firstFixed (hw.plen_pos _ (List.get_mem ..))
  simp only [htested] at htests
  exact htests

end Test

/-! ### All positions -/

/-- What a worker has met of its span below `pos`. -/
def AobWorker.met (w : AobWorker) (region : Buf) (pos : Nat) (i : Fin w.pats.length) : List Nat :=
  (w.pats.get i).occurrences region w.length w.start pos

/-- The positions of a chunk. -/
theorem Recorded.positions (hw : w.Ok) {region readBuf : Buf} {off : Nat} (hstart : w.start ≤ off)
    (hoff : off < w.stop) (hread : ReadOk w region readBuf off) : ∀ (fuel jj : Nat) {sa : AobFound × Nat},
    w.own off ≤ jj + fuel → jj ≤ w.own off → Recorded w (w.met region (off + jj)) sa →
      Recorded w (w.met region (off + w.own off))
        (aobPositions w readBuf off (w.own off) (w.readLen off) fuel jj sa) := by
  intro fuel
  induction fuel with
  | zero =>
    intro jj sa hfuel hjj h
    obtain rfl : jj = w.own off := by omega
    exact h
  | succ fuel ih =>
    intro jj sa hfuel hjj h
    rw [aobPositions]
    by_cases hlt : jj < w.own off
    · have hpos := h.position hw hoff hread hlt
      have hmet : (fun i => w.met region (off + jj) i ++
          if (w.pats.get i).OccursAt region w.length (off + jj) then [off + jj] else []) =
          w.met region (off + (jj + 1)) := by
        funext i
        exact (AobPat.occurrences_succ (by omega)).symm
      rw [hmet] at hpos
      rw [if_pos hlt]
      by_cases hactive : (aobPosition w readBuf off (w.readLen off) jj sa).2 = 0
      · rw [if_pos hactive]
        exact hpos.stop hactive fun i => AobPat.occurrences_prefix (by omega) (by omega)
      · rw [if_neg hactive]
        exact ih (jj + 1) (by omega) hlt hpos
    · obtain rfl : jj = w.own off := by omega
      rw [if_neg hlt]
      exact h

/-- The chunks of a worker. -/
theorem Recorded.chunks (hw : w.Ok) {mem : Memory} : ∀ (fuel off : Nat) (readBuf : Buf) {sa : AobFound × Nat},
    w.stop ≤ off + fuel → w.start ≤ off → off ≤ w.stop →
      Recorded w (w.met (readMem mem w.baseAddr) off) sa →
      Recorded w (w.met (readMem mem w.baseAddr) w.stop) (aobChunks mem w fuel off readBuf sa) := by
  intro fuel
  induction fuel with
  | zero =>
    intro off readBuf sa hfuel hstart hoff h
    obtain rfl : off = w.stop := by omega
    exact h
  | succ fuel ih =>
    intro off readBuf sa hfuel hstart hoff h
    rw [aobChunks]
    by_cases hloop : off < w.stop ∧ sa.2 > 0
    · obtain ⟨hown, hstop, -⟩ := hw.own_spec hloop.1
      rw [if_pos hloop]
      refine ih _ _ (by omega) (by omega) hstop ?_
      refine Recorded.positions hw hstart hloop.1 (fun k hk => ?_) _ _ (by omega) (Nat.zero_le _) h
      rw [readInto_of_lt hk, readMem_add, view_apply]
    · rw [if_neg hloop]
      rcases Nat.lt_or_ge off w.stop with hlt | hge
      · refine h.stop (by omega) fun i => AobPat.occurrences_prefix hstart hoff
      · obtain rfl : off = w.stop := by omega
        exact h

/-- **One worker** records the occurrences in its span. -/
theorem recorded_aobScanRange (hw : w.Ok) (hspan : w.start ≤ w.stop) (mem : Memory) (readBuf : Buf)
    (st : AobFound) : ∃ active, Recorded w (w.met (readMem mem w.baseAddr) w.stop)
      (aobScanRange mem w readBuf st, active) := by
  refine ⟨_, Recorded.chunks hw _ _ readBuf (by omega) (Nat.le_refl _) hspan ?_⟩
  have hnil : w.met (readMem mem w.baseAddr) w.start = fun _ => [] := by
    funext i
    exact AobPat.occurrences_self _
  have hcap : ∀ i : Fin w.pats.length, ¬(w.pats.get i).cap ≤ 0 := fun i => Nat.not_succ_le_zero _
  rw [hnil]
  refine ⟨fun i => ?_, fun i => ?_, ?_, ?_⟩
  · simp only [if_pos i.isLt, List.length_nil, Nat.zero_min]
  · simp only [if_pos i.isLt, List.length_nil, decide_eq_false (hcap i)]
  · simp only [List.take_nil, List.map_nil]
    exact holds_nil st.addrs _
  · simp only [Fin.is_lt, if_true, Bool.not_false, List.countP_true, List.length_finRange]

end Worker

end Ps5Debugger
