import Ps5Debugger.AobSearch

/-!
# Merging the workers

`aob_merge` walks the workers in ascending order of their spans. What it keeps is determined by
the addresses of the workers so far, one after the other (`MergeInv`): their number, cut off
behind the one asked for, and that one itself. The spans of the handler tile the region
(`aobNumWorkers_spec`), so these are the occurrences in the region, and the answer is the one
of `AobPat.answer`.
-/

namespace Ps5Debugger

open Lib

/-! ## The merge -/

/-- What the merge of pattern `p` knows after the addresses `l`. -/
structure MergeInv (p : AobPat) (l : List Nat) (m : MergeState) : Prop where
  total : m.total = min l.length p.cap
  found : m.found = decide (1 ≤ p.targetCount.toNat ∧ p.targetCount.toNat ≤ l.length)
  result : m.found = true → l[p.targetCount.toNat - 1]? = some m.result

/-- The occurrence asked for is this worker's. -/
def mergeHits (p : AobPat) (pi : Nat) (m : MergeState) (st : AobFound) : Bool :=
  !m.found && decide (p.targetCount.toNat ≥ 1) && decide (m.total < p.targetCount.toNat) &&
    decide (m.total + st.counts pi ≥ p.targetCount.toNat)

theorem mergeWorker_hit {p : AobPat} {slotOff pi : Nat} {m : MergeState} {st : AobFound}
    (h : mergeHits p pi m st = true) :
    mergeWorker p slotOff pi m st =
      ⟨if m.total + st.counts pi > p.cap then p.cap else m.total + st.counts pi,
        st.addrs (u32 (slotOff + (p.targetCount.toNat - m.total - 1))), true⟩ := by
  rw [mergeHits] at h
  simp only [mergeWorker, h, if_true]

theorem mergeWorker_miss {p : AobPat} {slotOff pi : Nat} {m : MergeState} {st : AobFound}
    (h : mergeHits p pi m st = false) :
    mergeWorker p slotOff pi m st =
      ⟨if m.total + st.counts pi > p.cap then p.cap else m.total + st.counts pi, m.result, m.found⟩ := by
  rw [mergeHits] at h
  simp only [mergeWorker, h, Bool.false_eq_true, if_false]

/-- One worker, of whose addresses `run` only the first `cap` are known. -/
theorem MergeInv.worker {p : AobPat} {l run : List Nat} {m : MergeState} (h : MergeInv p l m)
    {st : AobFound} {slotOff pi : Nat} (hcount : st.counts pi = min run.length p.cap)
    (haddrs : ∀ k < min run.length p.cap, run[k]? = some (st.addrs (u32 (slotOff + k)))) :
    MergeInv p (l ++ run) (mergeWorker p slotOff pi m st) := by
  have htotal := h.total
  have hfound := h.found
  have hcap : p.cap = p.targetCount.toNat + 1 := rfl
  have hlen : (l ++ run).length = l.length + run.length := List.length_append
  have hsum : (if m.total + st.counts pi > p.cap then p.cap else m.total + st.counts pi) =
      min (l ++ run).length p.cap := by
    rw [htotal, hcount, hlen]
    split <;> omega
  -- it is found here exactly when it is not found before and is found after
  have hhit : mergeHits p pi m st = true ↔ 1 ≤ p.targetCount.toNat ∧ l.length < p.targetCount.toNat ∧
      p.targetCount.toNat ≤ (l ++ run).length := by
    rw [mergeHits, hfound, hcount, htotal, hlen]
    simp only [Bool.and_eq_true, Bool.not_eq_true', decide_eq_true_eq, decide_eq_false_iff_not]
    omega
  cases hnow : mergeHits p pi m st with
  | true =>
    obtain ⟨h1, h2, h3⟩ := hhit.mp hnow
    rw [mergeWorker_hit hnow]
    refine ⟨hsum, ?_, fun _ => ?_⟩
    · rw [decide_eq_true ⟨h1, h3⟩]
    · rw [show m.total = l.length by omega, ← haddrs (p.targetCount.toNat - l.length - 1) (by omega),
        List.getElem?_append_right (by omega), Nat.sub_right_comm]
  | false =>
    rw [hnow] at hhit
    rw [mergeWorker_miss hnow]
    refine ⟨hsum, ?_, fun hm => ?_⟩
    · rw [hfound, decide_eq_decide]
      constructor
      · rintro ⟨h1, h2⟩
        exact ⟨h1, by omega⟩
      · rintro ⟨h1, h2⟩
        refine ⟨h1, Nat.not_lt.mp fun hlt => ?_⟩
        exact Bool.false_ne_true (hhit.mpr ⟨h1, hlt, h2⟩)
    · have hres := h.result hm
      rw [hfound, decide_eq_true_eq] at hm
      rw [List.getElem?_append_left (by omega), hres]

/-- What is sent. -/
theorem MergeInv.answer {p : AobPat} {l : List Nat} {m : MergeState} (h : MergeInv p l m)
    (stopUnique : Bool) :
    (if !m.found then 0 else if stopUnique && decide (m.total ≥ p.cap) then 0 else m.result) =
      if 1 ≤ p.targetCount.toNat ∧ p.targetCount.toNat ≤ l.length ∧
          (stopUnique = true → l.length = p.targetCount.toNat) then
        l.getD (p.targetCount.toNat - 1) 0
      else 0 := by
  have hcap : p.cap = p.targetCount.toNat + 1 := rfl
  have htotal := h.total
  by_cases hfound : 1 ≤ p.targetCount.toNat ∧ p.targetCount.toNat ≤ l.length
  · have hm : m.found = true := by rw [h.found, decide_eq_true hfound]
    rw [if_neg (by rw [hm]; exact Bool.false_ne_true), List.getD_eq_getElem?_getD, h.result hm,
      Option.getD_some]
    cases stopUnique with
    | false => rw [Bool.false_and, if_neg Bool.false_ne_true, if_pos ⟨hfound.1, hfound.2, nofun⟩]
    | true =>
      rw [Bool.true_and]
      by_cases hmore : m.total ≥ p.cap
      · rw [if_pos (decide_eq_true hmore), if_neg fun hall => ?_]
        have hlast := hall.2.2 rfl
        omega
      · rw [if_neg (by rw [decide_eq_false hmore]; exact Bool.false_ne_true),
          if_pos ⟨hfound.1, hfound.2, fun _ => by omega⟩]
  · have hm : m.found = false := by rw [h.found, decide_eq_false hfound]
    rw [if_pos (by rw [hm]; rfl), if_neg fun hall => hfound ⟨hall.1, hall.2.1⟩]

/-! ## The spans of the handler -/

theorem le_ceil_mul (n : Nat) {s : Nat} (hs : 0 < s) : n ≤ (n + s - 1) / s * s := by
  have hmod := Nat.mod_lt (n + s - 1) hs
  have hdiv := Nat.div_add_mod (n + s - 1) s
  rw [Nat.mul_comm] at hdiv
  omega

/-- `span` is positive, and at most sixteen spans cover the region. -/
theorem aobSpan_spec (threads length : Nat) :
    0 < aobSpan threads length ∧ length ≤ aobScanThreadsMax * aobSpan threads length := by
  have hclamp : ∀ n, 0 < n → n ≤ aobScanThreadsMax →
      0 < (if (length + n - 1) / n = 0 then 1 else (length + n - 1) / n) ∧
        length ≤ aobScanThreadsMax * (if (length + n - 1) / n = 0 then 1 else (length + n - 1) / n) := by
    intro n hn hmax
    have hceil := le_ceil_mul length hn
    have hmul := Nat.mul_le_mul_left ((length + n - 1) / n) hmax
    rw [Nat.mul_comm _ aobScanThreadsMax] at hmul
    split
    · next hzero =>
      rw [hzero, Nat.zero_mul] at hceil
      exact ⟨Nat.one_pos, by omega⟩
    · next hne => exact ⟨Nat.pos_of_ne_zero hne, Nat.le_trans hceil hmul⟩
  rw [aobSpan]
  refine hclamp _ ?_ ?_
  · rw [aobScanThreadsMax]
    split <;> split <;> split <;> first | omega | (split <;> omega)
  · rw [aobScanThreadsMax]
    split <;> split <;> split <;> first | omega | (split <;> omega)

/-- The workers cover the region. -/
theorem aobNumWorkers_spec {span length : Nat} (hspan : 0 < span)
    (hmax : length ≤ aobScanThreadsMax * span) : length ≤ aobNumWorkers span length * span := by
  have hceil := le_ceil_mul length hspan
  rw [aobNumWorkers]
  by_cases hzero : (length + span - 1) / span < 1
  · rw [Nat.lt_one_iff.mp hzero, Nat.zero_mul] at hceil
    exact Nat.le_trans hceil (Nat.zero_le _)
  · rw [if_neg hzero]
    split
    · exact hmax
    · exact hceil

/-! ## The tables of the handler -/

theorem foldl_max_plen (pats : List AobPat) : ∀ m : Nat,
    m ≤ pats.foldl (fun m p => if p.plen > m then p.plen else m) m ∧
      ∀ p ∈ pats, p.plen ≤ pats.foldl (fun m p => if p.plen > m then p.plen else m) m := by
  induction pats with
  | nil => intro m; exact ⟨Nat.le_refl m, nofun⟩
  | cons p pats ih =>
    intro m
    obtain ⟨hle, hall⟩ := ih (if p.plen > m then p.plen else m)
    have hmax : m ≤ (if p.plen > m then p.plen else m) ∧ p.plen ≤ if p.plen > m then p.plen else m := by
      split <;> omega
    refine ⟨Nat.le_trans hmax.1 hle, fun q hq => ?_⟩
    rcases List.mem_cons.mp hq with rfl | hq
    · exact Nat.le_trans hmax.2 hle
    · exact hall q hq

theorem prefixSum_capAt (pats : List AobPat) :
    prefixSum (capAt pats) pats.length = (pats.map AobPat.cap).sum := by
  have htake : ∀ k ≤ pats.length, prefixSum (capAt pats) k = ((pats.take k).map AobPat.cap).sum := by
    intro k
    induction k with
    | zero => intro _; rfl
    | succ k ih =>
      intro hk
      rw [prefixSum, ih (Nat.le_of_succ_le hk), ← List.take_append_getElem hk, List.map_append,
        List.sum_append, capAt, List.getD_eq_getElem _ _ hk]
      rfl
  rw [htake _ (Nat.le_refl _), List.take_length]

/-- `slot_off` does not wrap. -/
theorem aobSlotOff_eq {pats : List AobPat} (hslots : (pats.map AobPat.cap).sum < 2 ^ 32) :
    ∀ pi ≤ pats.length, aobSlotOff pats pi = prefixSum (capAt pats) pi := by
  intro pi
  induction pi with
  | zero => intro _; rfl
  | succ pi ih =>
    intro hpi
    have hmono := @prefixSum_mono (capAt pats) _ _ hpi
    rw [prefixSum_capAt, prefixSum] at hmono
    rw [aobSlotOff, ih (Nat.le_of_succ_le hpi), prefixSum, ← capAt, u32_of_lt (by omega)]

/-! ## The answer -/

section Answer

variable {r : AobRequest} (env : AobEnv)

/-- Where worker number `w` starts. -/
theorem aobWorker_start (w : Nat) : (aobWorker r env w).start =
    min (w * aobSpan env.threads r.length.toNat) r.length.toNat := by
  simp only [aobWorker]
  split <;> omega

/-- It stops where the next one starts. -/
theorem aobWorker_stop (w : Nat) : (aobWorker r env w).stop =
    min ((w + 1) * aobSpan env.threads r.length.toNat) r.length.toNat := by
  simp only [aobWorker, Nat.succ_mul]
  split <;> omega

theorem aobWorker_ok (hplen : ∀ p ∈ r.pats, 0 < p.plen)
    (hbuffer : env.chunkSize r.pats + aobMaxPlen r.pats ≤ 2 ^ 32)
    (hslots : (r.pats.map AobPat.cap).sum < 2 ^ 32) (w : Nat) : (aobWorker r env w).Ok := by
  obtain ⟨hpos, hmax⟩ := foldl_max_plen r.pats 1
  refine ⟨⟨_, _, rfl⟩, hplen, hmax, hpos, ?_, hbuffer, r.length.toNat_lt, ?_, ?_, ?_⟩
  · refine Nat.lt_of_lt_of_le hpos ?_
    simp only [aobWorker, AobEnv.chunkSize]
    rw [← aobMaxPlen]
    split <;> omega
  · rw [aobWorker_stop]
    exact Nat.min_le_right ..
  · exact fun pi hpi => aobSlotOff_eq hslots pi (Nat.le_of_lt hpi)
  · exact (prefixSum_capAt r.pats).trans_lt hslots

/-- The merge after the first `n` workers. -/
theorem mergeInv_workers (hplen : ∀ p ∈ r.pats, 0 < p.plen)
    (hbuffer : env.chunkSize r.pats + aobMaxPlen r.pats ≤ 2 ^ 32)
    (hslots : (r.pats.map AobPat.cap).sum < 2 ^ 32) (mem : Memory) (i : Fin r.pats.length) : ∀ n : Nat,
    MergeInv (r.pats.get i)
      (((r.pats.get i).occurrences (readMem mem r.address.toNat) r.length.toNat 0
        (min (n * aobSpan env.threads r.length.toNat) r.length.toNat)).map fun pos =>
          u64 (r.address.toNat + pos))
      (((List.range n).map fun w => aobScanRange mem (aobWorker r env w) (env.readBufs w)
        (env.found w)).foldl (mergeWorker (r.pats.get i) (aobSlotOff r.pats i) i) ⟨0, 0, false⟩) := by
  intro n
  induction n with
  | zero =>
    rw [Nat.zero_mul, Nat.zero_min, AobPat.occurrences_self]
    refine ⟨rfl, ?_, nofun⟩
    exact (decide_eq_false fun h => by have := Nat.le_trans h.1 h.2; exact Nat.not_succ_le_zero 0 this).symm
  | succ n ih =>
    have hw := aobWorker_ok env hplen hbuffer hslots n
    have hspan : (aobWorker r env n).start ≤ (aobWorker r env n).stop := by
      rw [aobWorker_start, aobWorker_stop, Nat.succ_mul]
      omega
    obtain ⟨active, hrec⟩ := recorded_aobScanRange hw hspan mem (env.readBufs n) (env.found n)
    have happend := @AobPat.occurrences_append (r.pats.get i) (readMem mem r.address.toNat)
      r.length.toNat 0 (aobWorker r env n).start (aobWorker r env n).stop (Nat.zero_le _) hspan
    rw [aobWorker_start, aobWorker_stop] at happend
    rw [List.range_succ, List.map_append, List.foldl_append, List.map_singleton, List.foldl_cons,
      List.foldl_nil, ← happend, List.map_append]
    refine ih.worker ?_ fun k hk => ?_
    · rw [List.length_map, ← aobWorker_start, ← aobWorker_stop]
      exact hrec.counts i
    · rw [List.length_map, ← aobWorker_start, ← aobWorker_stop] at hk
      rw [← aobWorker_start, ← aobWorker_stop]
      exact hrec.addr hw i hk

/-- **The parallel search is the sequential one**: for every pattern the occurrence asked for,
whatever the number of workers, the chunk size and what the buffers held. -/
theorem aob_search_answers (hplen : ∀ p ∈ r.pats, 0 < p.plen)
    (hbuffer : env.chunkSize r.pats + aobMaxPlen r.pats ≤ 2 ^ 32)
    (hslots : (r.pats.map AobPat.cap).sum < 2 ^ 32) (mem : Memory) :
    aobSearch mem r env = r.pats.map fun p => p.answer mem r := by
  obtain ⟨hspan, hmax⟩ := aobSpan_spec env.threads r.length.toNat
  have hcover := aobNumWorkers_spec hspan hmax
  have hpat : ∀ i : Fin r.pats.length, mergePat (r.pats.get i) r.stopUnique (aobSlotOff r.pats i) i
      ((List.range (aobNumWorkers (aobSpan env.threads r.length.toNat) r.length.toNat)).map fun w =>
        aobScanRange mem (aobWorker r env w) (env.readBufs w) (env.found w)) =
        (r.pats.get i).answer mem r := by
    intro i
    have hinv := mergeInv_workers env hplen hbuffer hslots mem i
      (aobNumWorkers (aobSpan env.threads r.length.toNat) r.length.toNat)
    rw [Nat.min_eq_right hcover] at hinv
    rw [mergePat, hinv.answer, List.length_map, AobPat.answer]
    refine if_ctx_congr Iff.rfl (fun hc => ?_) fun _ => rfl
    have hlt := Nat.sub_one_lt_of_le hc.1 hc.2.1
    rw [List.getD_eq_getElem _ _ (by rw [List.length_map]; exact hlt), List.getElem_map,
      List.getD_eq_getElem _ _ hlt]
  refine List.ext_getElem ?_ fun k hk hk' => ?_
  · rw [aobSearch, aobMerge, List.length_map, List.length_zipIdx, List.length_map]
  · simp only [aobSearch, aobMerge, List.getElem_map, List.getElem_zipIdx, Nat.zero_add]
    exact hpat ⟨k, by rw [List.length_map] at hk'; exact hk'⟩

end Answer

/-- Two requests for a byte, any byte, the byte again: for the fourth, and for the second. -/
def sevenRequest : AobRequest where
  address := 0x1000
  length := 6
  stopUnique := true
  pats := [⟨fun _ => 7, fun k => if k = 1 then 0 else 1, 3, 4⟩,
    ⟨fun _ => 7, fun k => if k = 1 then 0 else 1, 3, 2⟩]

/-- Three workers with the smallest chunks, on fresh buffers. -/
def threeWorkers : AobEnv where
  threads := 3
  chunk := 0
  bidx := fun _ => 0
  widx := fun _ => 0
  readBufs := fun _ _ => 0
  found := fun _ => ⟨fun _ => 0, fun _ => 0, fun _ => false⟩

/-- The pattern occurs four times: the fourth is the last, the second is not. -/
theorem aob_search_answers_seven :
    aobSearch (fun _ => 7) sevenRequest threeWorkers = [0x1003, 0] := by
  rw [aob_search_answers threeWorkers (by decide) (by decide) (by decide)]
  decide

end Ps5Debugger
