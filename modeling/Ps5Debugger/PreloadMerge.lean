import Ps5Debugger.RegionPreloader

/-!
# Lines of a chunk that do not overlap

What the three sources of lines are, as ranges of offsets (`stringRanges_spec`, `zeroRanges_spec`, `zeroLines_spec`),
which lines are left (`mem_mergedInstrs`), and when they do not overlap.

`lines_apart_iff`: the lines of a chunk ascend without overlap, and cover what the server covered, if and only if no
string ends with the first byte of a run of zeros, an instruction that meets a string is in it or starts where it does,
and an instruction that meets a line of zeros is all zeros or starts where it does.
-/

namespace Ps5Debugger

open Lib
open Rpc.MemoryRpcService (Ps5DisasmInstr)

namespace RegionPreloader

/-! ## Ranges -/

/-- Of two members of a list one is before the other. -/
theorem pairwise_or_of_mem {α : Type} {R : α → α → Prop} {l : List α} {a b : α} (h : l.Pairwise R) (ha : a ∈ l)
    (hb : b ∈ l) : a = b ∨ R a b ∨ R b a := by
  induction h with
  | nil => cases ha
  | cons hfirst _ ih =>
    rcases List.mem_cons.mp ha with rfl | ha'
    · rcases List.mem_cons.mp hb with rfl | hb'
      · exact .inl rfl
      · exact .inr (.inl (hfirst b hb'))
    · rcases List.mem_cons.mp hb with rfl | hb'
      · exact .inr (.inr (hfirst a ha'))
      · exact ih ha' hb'

def InRange (a : Nat × Nat) (k : Nat) : Prop := a.1 ≤ k ∧ k < a.1 + a.2

/-- Ranges with an offset in common, where neither is empty. -/
def Meets (a b : Nat × Nat) : Prop := a.1 < b.1 + b.2 ∧ b.1 < a.1 + a.2

def Inside (a b : Nat × Nat) : Prop := b.1 ≤ a.1 ∧ a.1 + a.2 ≤ b.1 + b.2

/-- All bytes in a range are zero. -/
def AllZero (rawBytes : List Byte) (a : Nat × Nat) : Prop := ∀ k, InRange a k → rawBytes[k]? = some 0

variable {rawBytes : List Byte} {chunkStart : Int64} {syncAddrs : Int64 → Bool} {a s s' z p p' : Nat × Nat} {k : Nat}

theorem hasAt_zero : HasAt (fun v : Byte => decide (v = 0)) rawBytes k ↔ rawBytes[k]? = some 0 := by
  constructor
  · rintro ⟨v, hv, hzero⟩
    rw [hv, of_decide_eq_true hzero]
  · intro h
    exact ⟨0, h, rfl⟩

theorem not_zero_of_text (h : HasAt isText rawBytes k) : rawBytes[k]? ≠ some 0 := by
  obtain ⟨v, hv, htext⟩ := h
  rw [hv]
  intro heq
  obtain rfl := Option.some.inj heq
  cases htext

theorem mem_stringRange {start e : Nat} {next : Option Byte} (h : s ∈ stringRange start e next) (hlt : start < e) :
    s.1 = start ∧ stringRange start e next = [s] ∧ (s.1 + s.2 = e ∨ (s.1 + s.2 = e + 1 ∧ next = some 0)) := by
  cases next with
  | none =>
    rw [stringRange] at h ⊢
    split_ifs at h ⊢
    · obtain rfl := List.mem_singleton.mp h
      exact ⟨rfl, rfl, .inl (by dsimp only; omega)⟩
    · cases h
  | some v =>
    rw [stringRange] at h ⊢
    split_ifs at h ⊢ with hlong hzero
    · obtain rfl := List.mem_singleton.mp h
      exact ⟨rfl, rfl, .inr ⟨by dsimp only; omega, by rw [hzero]⟩⟩
    · obtain rfl := List.mem_singleton.mp h
      exact ⟨rfl, rfl, .inl (by dsimp only; omega)⟩
    · cases h

/-- A string is text, and a zero behind it or not. -/
theorem stringRanges_spec (h : s ∈ stringRanges rawBytes) :
    ∃ e, MaxRun isText rawBytes s.1 e ∧ stringRange s.1 e rawBytes[e]? = [s] ∧
      (s.1 + s.2 = e ∨ (s.1 + s.2 = e + 1 ∧ rawBytes[e]? = some 0)) := by
  obtain ⟨start, e, hrun, hmem⟩ := mem_scanRuns.mp h
  obtain ⟨rfl, hone, hend⟩ := mem_stringRange hmem hrun.lt
  exact ⟨e, hrun, hone, hend⟩

theorem zeroRanges_spec (h : z ∈ zeroRanges rawBytes) :
    MaxRun (fun v : Byte => decide (v = 0)) rawBytes z.1 (z.1 + z.2) ∧ 16 ≤ z.2 := by
  obtain ⟨start, e, hrun, hmem⟩ := mem_scanRuns.mp h
  have hlt := hrun.lt
  rw [zeroRange] at hmem
  split_ifs at hmem with hlong
  · obtain rfl := List.mem_singleton.mp hmem
    dsimp only
    rw [Nat.add_sub_cancel' (le_of_lt hlt)]
    exact ⟨hrun, hlong⟩
  · cases hmem

theorem string_in_chunk (h : s ∈ stringRanges rawBytes) : 1 ≤ s.2 ∧ s.1 + s.2 ≤ rawBytes.length := by
  obtain ⟨e, hrun, -, hend⟩ := stringRanges_spec h
  have hlt := hrun.lt
  have hle := hrun.le_length
  rcases hend with hend | ⟨hend, hzero⟩
  · omega
  · obtain ⟨hin, -⟩ := List.getElem?_eq_some_iff.mp hzero
    omega

theorem strings_apart (h : s ∈ stringRanges rawBytes) (h' : s' ∈ stringRanges rawBytes) (hne : s ≠ s') :
    ¬ Meets s s' := by
  obtain ⟨e, hrun, hone, hend⟩ := stringRanges_spec h
  obtain ⟨e', hrun', hone', hend'⟩ := stringRanges_spec h'
  rintro ⟨hlo, hhi⟩
  rcases hrun.apart hrun' with ⟨hstart, rfl⟩ | hsep | hsep
  · rw [hstart, hone'] at hone
    exact hne (List.singleton_inj.mp hone).symm
  · omega
  · omega

/-- A string that meets a run of zeros ends with its first byte. -/
theorem string_meets_zeros (hs : s ∈ stringRanges rawBytes) (hz : z ∈ zeroRanges rawBytes) (h : Meets s z) :
    s.1 + s.2 = z.1 + 1 := by
  obtain ⟨e, hrun, -, hend⟩ := stringRanges_spec hs
  obtain ⟨hzeros, -⟩ := zeroRanges_spec hz
  obtain ⟨hlo, hhi⟩ := h
  have hlt := hrun.lt
  -- no byte of the text is in the run
  have hno (k : Nat) (hk : s.1 ≤ k) (hk' : k < e) : ¬ InRange z k := fun hin =>
    not_zero_of_text (hrun.all k hk hk') (hasAt_zero.mp (hzeros.all k hin.1 hin.2))
  have hbefore : s.1 < z.1 := by
    by_contra hle
    exact hno s.1 (le_refl _) hlt ⟨by omega, hlo⟩
  have hbehind : e ≤ z.1 := by
    by_contra hle
    exact hno z.1 (le_of_lt hbefore) (by omega) ⟨le_refl _, hzeros.lt⟩
  rcases hend with hend | ⟨hend, -⟩ <;> omega

/-- Zeros that meet a maximal run of zeros are in it. -/
theorem inside_of_allZero (ha : AllZero rawBytes a) (hz : z ∈ zeroRanges rawBytes) (h : Meets a z) : Inside a z := by
  obtain ⟨hzeros, -⟩ := zeroRanges_spec hz
  obtain ⟨hlo, hhi⟩ := h
  have hlt := hzeros.lt
  constructor
  · by_contra hbefore
    exact hzeros.before (z.1 - 1) (by omega) (hasAt_zero.mpr (ha (z.1 - 1) ⟨by omega, by omega⟩))
  · by_contra hbehind
    exact hzeros.after (hasAt_zero.mpr (ha (z.1 + z.2) ⟨by omega, by omega⟩))

/-! ## Lines of zeros -/

theorem zeroPieces_spec {endOff curOff emitted : Nat} :
    (zeroPieces chunkStart syncAddrs endOff curOff emitted).Pairwise (fun p p' => p.1 + p.2 ≤ p'.1) ∧
      ∀ p ∈ zeroPieces chunkStart syncAddrs endOff curOff emitted, 1 ≤ p.2 ∧ curOff ≤ p.1 ∧ p.1 + p.2 ≤ endOff := by
  induction hn : endOff - curOff using Nat.strong_induction_on generalizing curOff emitted with
  | _ n ih =>
    rw [zeroPieces]
    split
    · rename_i hlt
      split
      · split
        · rename_i off hnext
          have hoff := lt_nextSync chunkStart syncAddrs hnext
          obtain ⟨hpair, hall⟩ := @ih (endOff - off) (by omega) off 0 rfl
          refine ⟨hpair, fun p hp => ?_⟩
          have := hall p hp
          omega
        · exact ⟨.nil, fun _ hp => absurd hp List.not_mem_nil⟩
      · obtain ⟨hpair, hall⟩ := @ih (endOff - (curOff + min 16 (endOff - curOff))) (by omega)
          (curOff + min 16 (endOff - curOff)) (emitted + min 16 (endOff - curOff)) rfl
        refine ⟨List.pairwise_cons.mpr ⟨fun p hp => (hall p hp).2.1, hpair⟩, fun p hp => ?_⟩
        rcases List.mem_cons.mp hp with rfl | hp
        · dsimp only
          omega
        · have := hall p hp
          omega
    · exact ⟨.nil, fun _ hp => absurd hp List.not_mem_nil⟩

/-- The first line of a run starts where it does. -/
theorem first_piece (h : z ∈ zeroRanges rawBytes) : ∃ p ∈ zeroLines chunkStart syncAddrs rawBytes, p.1 = z.1 := by
  obtain ⟨-, hlong⟩ := zeroRanges_spec h
  have hfirst : ∃ p ∈ zeroPieces chunkStart syncAddrs (z.1 + z.2) z.1 0, p.1 = z.1 := by
    rw [zeroPieces, dif_pos (by omega), if_neg fun hno => absurd hno.1 (by decide)]
    exact ⟨_, List.mem_cons_self .., rfl⟩
  obtain ⟨p, hp, hstart⟩ := hfirst
  exact ⟨p, List.mem_flatMap.mpr ⟨z, h, hp⟩, hstart⟩

/-- A line of zeros is in a run of zeros. -/
theorem zeroLines_spec (h : p ∈ zeroLines chunkStart syncAddrs rawBytes) :
    1 ≤ p.2 ∧ ∃ z ∈ zeroRanges rawBytes, Inside p z ∧ p ∈ zeroPieces chunkStart syncAddrs (z.1 + z.2) z.1 0 := by
  obtain ⟨z, hz, hp⟩ := List.mem_flatMap.mp h
  obtain ⟨hpos, hlo, hhi⟩ := zeroPieces_spec.2 p hp
  exact ⟨hpos, z, hz, ⟨hlo, hhi⟩, hp⟩

theorem zeroLines_apart (h : p ∈ zeroLines chunkStart syncAddrs rawBytes)
    (h' : p' ∈ zeroLines chunkStart syncAddrs rawBytes) (hne : p ≠ p') : ¬ Meets p p' := by
  obtain ⟨hpos, z, hz, hin, hmem⟩ := zeroLines_spec h
  obtain ⟨hpos', z', hz', hin', hmem'⟩ := zeroLines_spec h'
  rw [Inside] at hin hin'
  rintro ⟨hlo, hhi⟩
  rcases (zeroRanges_spec hz).1.apart (zeroRanges_spec hz').1 with ⟨hstart, hend⟩ | hsep | hsep
  · rw [← hend, ← hstart] at hmem'
    have hpair := (@zeroPieces_spec chunkStart syncAddrs (z.1 + z.2) z.1 0).1
    rcases pairwise_or_of_mem hpair hmem hmem' with heq | hlt | hlt
    · exact hne heq
    · omega
    · omega
  · omega
  · omega

/-! ## Addresses and offsets -/

/-- What the server found: instructions in the chunk, each behind the one before. -/
structure ServerInstrs (rawBytes : List Byte) (chunkStart : Int64) (rawInstrs : List Ps5DisasmInstr) : Prop where
  inside : ∀ instr ∈ rawInstrs, chunkStart.toInt ≤ instr.addr.toInt ∧
    instr.addr.toInt + instr.length ≤ chunkStart.toInt + rawBytes.length
  lengths : ∀ instr ∈ rawInstrs, 1 ≤ instr.length
  ascending : rawInstrs.Pairwise fun instr instr' => instr.addr.toInt + (instr.length : Int) ≤ instr'.addr.toInt

/-- The offsets of an instruction. -/
def spanOf (chunkStart : Int64) (instr : Ps5DisasmInstr) : Nat × Nat :=
  ((instr.addr.toInt - chunkStart.toInt).toNat, instr.length)

/-- An entry in the chunk. -/
def Within (rawBytes : List Byte) (chunkStart : Int64) (instr : Ps5DisasmInstr) : Prop :=
  instr.addr.toInt = chunkStart.toInt + (spanOf chunkStart instr).1 ∧ 1 ≤ instr.length ∧
    (spanOf chunkStart instr).1 + instr.length ≤ rawBytes.length

variable {rawInstrs : List Ps5DisasmInstr} {instr instr' : Ps5DisasmInstr} {kind : Nat}

theorem ServerInstrs.within (h : ServerInstrs rawBytes chunkStart rawInstrs) (hmem : instr ∈ rawInstrs) :
    Within rawBytes chunkStart instr := by
  obtain ⟨hlo, hhi⟩ := h.inside instr hmem
  refine ⟨?_, h.lengths instr hmem, ?_⟩
  · rw [spanOf]
    omega
  · rw [spanOf]
    omega

/-- An entry for data in the chunk. -/
theorem within_dataAt (hchunk : chunkStart.toInt + rawBytes.length < 2 ^ 63) (hpos : 1 ≤ a.2)
    (hle : a.1 + a.2 ≤ rawBytes.length) :
    Within rawBytes chunkStart (dataAt chunkStart kind a) ∧ spanOf chunkStart (dataAt chunkStart kind a) = a := by
  have haddr : (dataAt chunkStart kind a).addr.toInt = chunkStart.toInt + a.1 := by
    have hlo := chunkStart.le_toInt
    rw [dataAt, Ps5DisasmInstr.data, ← Int64.ofInt_eq_ofNat]
    show (chunkStart + Int64.ofInt a.1).toInt = _
    rw [Int64.toInt_add, Int64.toInt_ofInt, Int.add_bmod_bmod, show Int64.size = 2 ^ 64 from rfl]
    exact Int.bmod_eq_of_le (by omega) (by omega)
  have hspan : spanOf chunkStart (dataAt chunkStart kind a) = a := by
    rw [spanOf, haddr]
    refine Prod.ext ?_ rfl
    show (chunkStart.toInt + a.1 - chunkStart.toInt).toNat = a.1
    omega
  exact ⟨⟨by rw [hspan, haddr], hpos, by rw [hspan]; exact hle⟩, hspan⟩

/-- In the chunk addresses are in the order of offsets. -/
theorem addr_eq_iff (h : Within rawBytes chunkStart instr) (h' : Within rawBytes chunkStart instr') :
    instr.addr = instr'.addr ↔ (spanOf chunkStart instr).1 = (spanOf chunkStart instr').1 := by
  rw [← Int64.toInt_inj, h.1, h'.1]
  omega

theorem offsetOf_eq (hsize : rawBytes.length < 2 ^ 31) (h : Within rawBytes chunkStart instr) :
    offsetOf chunkStart instr = (spanOf chunkStart instr).1 := by
  obtain ⟨haddr, -, hle⟩ := h
  have hdiff : chunkStart.toInt + ((spanOf chunkStart instr).1 : Int) - chunkStart.toInt =
    (spanOf chunkStart instr).1 :=
    by omega
  rw [offsetOf, Int64.toInt_toInt32, Int64.toInt_sub, haddr, hdiff]
  have hwide : ((spanOf chunkStart instr).1 : Int).bmod (2 ^ 64) = (spanOf chunkStart instr).1 :=
    Int.bmod_eq_of_le (by omega) (by omega)
  rw [hwide]
  exact Int.bmod_eq_of_le (by omega) (by omega)

/-! ## What is left out -/

/-- An instruction that is in a string, or is zeros of a run of zeros. -/
def Dropped (rawBytes : List Byte) (a : Nat × Nat) : Prop :=
  (∃ s ∈ stringRanges rawBytes, Inside a s) ∨ (AllZero rawBytes a ∧ ∃ z ∈ zeroRanges rawBytes, Meets a z)

theorem allZero_iff (h : a.1 + a.2 ≤ rawBytes.length) :
    (copyOfRange rawBytes a.1 a.2).all (fun v => decide (v = 0)) = true ↔ AllZero rawBytes a := by
  rw [List.all_eq_true]
  constructor
  · rintro hall k ⟨hlo, hhi⟩
    have hlen := length_copyOfRange h
    have hget : (copyOfRange rawBytes a.1 a.2)[k - a.1]? = rawBytes[k]? := by
      rw [copyOfRange, List.getElem?_take_of_lt (by omega), List.getElem?_drop, Nat.add_sub_cancel' hlo]
    have hin : k - a.1 < (copyOfRange rawBytes a.1 a.2).length := by omega
    rw [← hget, List.getElem?_eq_getElem hin, of_decide_eq_true (hall _ (List.getElem_mem hin))]
  · intro hall v hv
    obtain ⟨i, hi, rfl⟩ := List.getElem_of_mem hv
    rw [length_copyOfRange h] at hi
    have hzero := hall (a.1 + i) ⟨Nat.le_add_right _ _, by omega⟩
    refine decide_eq_true (Option.some.inj ?_)
    rw [← List.getElem?_eq_getElem, ← hzero, copyOfRange, List.getElem?_take_of_lt hi, List.getElem?_drop]

theorem isDropped_iff (hsize : rawBytes.length < 2 ^ 31) (h : Within rawBytes chunkStart instr) :
    isDropped rawBytes chunkStart instr = true ↔ Dropped rawBytes (spanOf chunkStart instr) := by
  have hle := h.2.2
  have hstring : ((stringRanges rawBytes).any fun s => decide ((((spanOf chunkStart instr).1 : Nat) : Int) ≥ s.1 ∧
      ((spanOf chunkStart instr).1 : Int) + instr.length ≤ s.1 + s.2)) = true ↔
      ∃ s ∈ stringRanges rawBytes, Inside (spanOf chunkStart instr) s := by
    rw [List.any_eq_true]
    refine exists_congr fun s => and_congr_right fun _ => ?_
    rw [decide_eq_true_iff, Inside]
    show _ ↔ s.1 ≤ (spanOf chunkStart instr).1 ∧ (spanOf chunkStart instr).1 + instr.length ≤ s.1 + s.2
    omega
  have hzeros : ((zeroRanges rawBytes).any fun z => decide ((((spanOf chunkStart instr).1 : Nat) : Int) < z.1 + z.2 ∧
      ((spanOf chunkStart instr).1 : Int) + instr.length > z.1)) = true ↔
      ∃ z ∈ zeroRanges rawBytes, Meets (spanOf chunkStart instr) z := by
    rw [List.any_eq_true]
    refine exists_congr fun z => and_congr_right fun _ => ?_
    rw [decide_eq_true_iff, Meets]
    show _ ↔ (spanOf chunkStart instr).1 < z.1 + z.2 ∧ z.1 < (spanOf chunkStart instr).1 + instr.length
    omega
  have hall := @allZero_iff rawBytes (spanOf chunkStart instr) hle
  rw [isDropped, offsetOf_eq hsize h, Dropped, ← hstring, ← hzeros, ← hall, Int.toNat_natCast]
  rw [if_neg (by omega)]
  split_ifs with hin hzero
  · exact iff_of_true rfl (.inl hin)
  · exact ⟨fun hz => .inr ⟨hzero, hz⟩, fun hor => (hor.resolve_left hin).2⟩
  · exact iff_of_false not_false fun hor => hzero (hor.resolve_left hin).1

theorem mem_filtered (hsize : rawBytes.length < 2 ^ 31) (h : ServerInstrs rawBytes chunkStart rawInstrs) :
    instr ∈ filtered rawBytes chunkStart rawInstrs ↔
      instr ∈ rawInstrs ∧ ¬ Dropped rawBytes (spanOf chunkStart instr) := by
  rw [filtered]
  split
  · rename_i hempty
    obtain ⟨hstrings, hzeros⟩ := Bool.and_eq_true_iff.mp hempty
    rw [List.isEmpty_iff] at hstrings hzeros
    refine (and_iff_left ?_).symm
    rintro (⟨s, hs, -⟩ | ⟨-, z, hz, -⟩)
    · rw [hstrings] at hs
      cases hs
    · rw [hzeros] at hz
      cases hz
  · rw [List.mem_filter]
    refine and_congr_right fun hmem => ?_
    rw [Bool.not_eq_true', ← isDropped_iff hsize (h.within hmem), Bool.not_eq_true]

/-! ## What is left -/

/-- What the sources are laid out in: a chunk of an array's size that does not reach past the addresses. -/
structure Chunk (rawBytes : List Byte) (chunkStart : Int64) (rawInstrs : List Ps5DisasmInstr) : Prop where
  size : rawBytes.length < 2 ^ 31
  room : chunkStart.toInt + rawBytes.length < 2 ^ 63
  server : ServerInstrs rawBytes chunkStart rawInstrs

namespace Chunk

theorem string (h : Chunk rawBytes chunkStart rawInstrs) (hs : s ∈ stringRanges rawBytes) :
    Within rawBytes chunkStart (dataAt chunkStart 0x100 s) ∧ spanOf chunkStart (dataAt chunkStart 0x100 s) = s := by
  obtain ⟨hpos, hle⟩ := string_in_chunk hs
  exact within_dataAt h.room hpos hle

theorem zeros (h : Chunk rawBytes chunkStart rawInstrs) (hp : p ∈ zeroLines chunkStart syncAddrs rawBytes) :
    Within rawBytes chunkStart (dataAt chunkStart 0x200 p) ∧ spanOf chunkStart (dataAt chunkStart 0x200 p) = p := by
  obtain ⟨hpos, z, hz, hin, -⟩ := zeroLines_spec hp
  have hle := (zeroRanges_spec hz).1.le_length
  rw [Inside] at hin
  exact within_dataAt h.room hpos (by omega)

/-- Instructions of the server do not meet. -/
theorem server_apart (h : Chunk rawBytes chunkStart rawInstrs) (hmem : instr ∈ rawInstrs) (hmem' : instr' ∈ rawInstrs)
    (hmeets : Meets (spanOf chunkStart instr) (spanOf chunkStart instr')) : instr = instr' := by
  obtain ⟨haddr, -, -⟩ := h.server.within hmem
  obtain ⟨haddr', -, -⟩ := h.server.within hmem'
  obtain ⟨hlo, hhi⟩ := hmeets
  rw [show (spanOf chunkStart instr').2 = instr'.length from rfl] at hlo
  rw [show (spanOf chunkStart instr).2 = instr.length from rfl] at hhi
  rcases pairwise_or_of_mem h.server.ascending hmem hmem' with heq | hlt | hlt
  · exact heq
  · omega
  · omega

/-- What starts at the same offset meets. -/
theorem meets_of_start {b : Nat × Nat} (ha : 1 ≤ a.2) (hb : 1 ≤ b.2) (h : a.1 = b.1) : Meets a b := by
  rw [Meets]
  omega

theorem eq_of_addr (h : Chunk rawBytes chunkStart rawInstrs) (hmem : instr ∈ rawInstrs) (hmem' : instr' ∈ rawInstrs)
    (heq : instr.addr = instr'.addr) : instr = instr' := by
  have hw := h.server.within hmem
  have hw' := h.server.within hmem'
  exact h.server_apart hmem hmem' (meets_of_start hw.2.1 hw'.2.1 ((addr_eq_iff hw hw').mp heq))

theorem kept_mem (h : Chunk rawBytes chunkStart rawInstrs) (hmem : instr ∈ filtered rawBytes chunkStart rawInstrs) :
    instr ∈ rawInstrs :=
  ((mem_filtered h.size h.server).mp hmem).1

/-- Entries for data of one kind, in ranges that do not meet, are all distinct. -/
theorem mem_distinct_data {ranges : List (Nat × Nat)}
    (hdata : ∀ a ∈ ranges, 1 ≤ a.2 ∧ Within rawBytes chunkStart (dataAt chunkStart kind a) ∧
      spanOf chunkStart (dataAt chunkStart kind a) = a)
    (hapart : ∀ a ∈ ranges, ∀ b ∈ ranges, a ≠ b → ¬ Meets a b) :
    instr ∈ distinctBy (·.addr) (ranges.map (dataAt chunkStart kind)) ↔
      instr ∈ ranges.map (dataAt chunkStart kind) := by
  refine mem_distinctBy fun x hx y hy heq => ?_
  obtain ⟨a, ha, rfl⟩ := List.mem_map.mp hx
  obtain ⟨b, hb, rfl⟩ := List.mem_map.mp hy
  obtain ⟨hpos, hin, hspan⟩ := hdata a ha
  obtain ⟨hpos', hin', hspan'⟩ := hdata b hb
  have hstart := (addr_eq_iff hin hin').mp heq
  rw [hspan, hspan'] at hstart
  by_contra hne
  exact hapart a ha b hb (fun heq' => hne (heq' ▸ rfl)) (meets_of_start hpos hpos' hstart)

/-- No instruction that is left has the address of an entry. -/
theorem not_mem_kept_iff (h : Chunk rawBytes chunkStart rawInstrs) (hentry : Within rawBytes chunkStart instr)
    (hspan : spanOf chunkStart instr = a) :
    instr.addr ∉ (filtered rawBytes chunkStart rawInstrs).map (·.addr) ↔
      ∀ kept ∈ filtered rawBytes chunkStart rawInstrs, (spanOf chunkStart kept).1 ≠ a.1 := by
  rw [List.mem_map, ← hspan]
  constructor
  · intro hno kept hmem heq
    exact hno ⟨kept, hmem, (addr_eq_iff (h.server.within (h.kept_mem hmem)) hentry).mpr heq⟩
  · rintro hno ⟨kept, hmem, heq⟩
    exact hno kept hmem ((addr_eq_iff (h.server.within (h.kept_mem hmem)) hentry).mp heq)

/-- A string starts with text, which a line of zeros does not. -/
theorem start_ne (hs : s ∈ stringRanges rawBytes) (hp : p ∈ zeroLines chunkStart syncAddrs rawBytes) : s.1 ≠ p.1 := by
  intro heq
  obtain ⟨e, hrun, -⟩ := stringRanges_spec hs
  obtain ⟨hpos, z, hz, hin, -⟩ := zeroLines_spec hp
  rw [Inside] at hin
  have hzero := (zeroRanges_spec hz).1.all p.1 hin.1 (by omega)
  exact not_zero_of_text (hrun.all s.1 (le_refl _) hrun.lt) (heq ▸ hasAt_zero.mp hzero)

/-- The entries that are left: of the instructions those that are not dropped, and of the strings and the lines of zeros
those that start where no such instruction does. -/
theorem mem_mergedInstrs (h : Chunk rawBytes chunkStart rawInstrs) :
    instr ∈ mergedInstrs rawBytes chunkStart syncAddrs rawInstrs ↔
      instr ∈ filtered rawBytes chunkStart rawInstrs ∨
      (∃ s ∈ stringRanges rawBytes, instr = dataAt chunkStart 0x100 s ∧
        ∀ kept ∈ filtered rawBytes chunkStart rawInstrs, (spanOf chunkStart kept).1 ≠ s.1) ∨
      ∃ p ∈ zeroLines chunkStart syncAddrs rawBytes, instr = dataAt chunkStart 0x200 p ∧
        ∀ kept ∈ filtered rawBytes chunkStart rawInstrs, (spanOf chunkStart kept).1 ≠ p.1 := by
  have hserver : instr ∈ distinctBy (·.addr) (filtered rawBytes chunkStart rawInstrs) ↔
      instr ∈ filtered rawBytes chunkStart rawInstrs :=
    mem_distinctBy fun a ha b hb => h.eq_of_addr (h.kept_mem ha) (h.kept_mem hb)
  have hstrings := @mem_distinct_data rawBytes chunkStart instr 0x100 (stringRanges rawBytes)
    (fun s hs => ⟨(string_in_chunk hs).1, h.string hs⟩) fun s hs s' hs' => strings_apart hs hs'
  have hzeros := @mem_distinct_data rawBytes chunkStart instr 0x200 (zeroLines chunkStart syncAddrs rawBytes)
    (fun p hp => ⟨(zeroLines_spec hp).1, h.zeros hp⟩) fun p hp p' hp' => zeroLines_apart hp hp'
  rw [mergedInstrs, (List.perm_insertionSort _ _).mem_iff, distinctBy_append, distinctBy_append, List.mem_append,
    List.mem_append, List.mem_filter, List.mem_filter, hserver, hstrings, hzeros, or_assoc]
  refine or_congr_right (or_congr ?_ ?_)
  · constructor
    · rintro ⟨hmem, hnot⟩
      obtain ⟨s, hs, rfl⟩ := List.mem_map.mp hmem
      exact ⟨s, hs, rfl, (h.not_mem_kept_iff (h.string hs).1 (h.string hs).2).mp (of_decide_eq_true hnot)⟩
    · rintro ⟨s, hs, rfl, hnot⟩
      exact ⟨List.mem_map_of_mem hs, decide_eq_true ((h.not_mem_kept_iff (h.string hs).1 (h.string hs).2).mpr hnot)⟩
  · constructor
    · rintro ⟨hmem, hnot⟩
      obtain ⟨p, hp, rfl⟩ := List.mem_map.mp hmem
      have hnot := of_decide_eq_true hnot
      rw [List.map_append, List.mem_append, not_or] at hnot
      exact ⟨p, hp, rfl, (h.not_mem_kept_iff (h.zeros hp).1 (h.zeros hp).2).mp hnot.1⟩
    · rintro ⟨p, hp, rfl, hnot⟩
      refine ⟨List.mem_map_of_mem hp, decide_eq_true ?_⟩
      rw [List.map_append, List.mem_append, not_or]
      refine ⟨(h.not_mem_kept_iff (h.zeros hp).1 (h.zeros hp).2).mpr hnot, fun hmem => ?_⟩
      obtain ⟨entry, hentry, heq⟩ := List.mem_map.mp hmem
      obtain ⟨s, hs, rfl⟩ := List.mem_map.mp hentry
      have hstart := (addr_eq_iff (h.string hs).1 (h.zeros hp).1).mp heq
      rw [(h.string hs).2, (h.zeros hp).2] at hstart
      exact start_ne hs hp hstart

theorem within_merged (h : Chunk rawBytes chunkStart rawInstrs)
    (hmem : instr ∈ mergedInstrs rawBytes chunkStart syncAddrs rawInstrs) : Within rawBytes chunkStart instr := by
  rcases h.mem_mergedInstrs.mp hmem with hkept | ⟨s, hs, rfl, -⟩ | ⟨p, hp, rfl, -⟩
  · exact h.server.within (h.kept_mem hkept)
  · exact (h.string hs).1
  · exact (h.zeros hp).1

/-! ## Overlaps -/

/-- The entries ascend. -/
theorem sorted_merged : (mergedInstrs rawBytes chunkStart syncAddrs rawInstrs).Pairwise fun instr instr' =>
    instr.addr.toInt < instr'.addr.toInt := by
  have hsorted := List.pairwise_insertionSort (fun instr instr' : Ps5DisasmInstr => instr.addr ≤ instr'.addr)
    (distinctBy (·.addr)
      (filtered rawBytes chunkStart rawInstrs ++ (stringRanges rawBytes).map (dataAt chunkStart 0x100) ++
        (zeroLines chunkStart syncAddrs rawBytes).map (dataAt chunkStart 0x200)))
  have hnodup := ((List.perm_insertionSort (fun instr instr' : Ps5DisasmInstr => instr.addr ≤ instr'.addr) _).map
    (·.addr)).nodup_iff.mpr (@nodup_distinctBy _ _ _ (fun instr : Ps5DisasmInstr => instr.addr)
      (filtered rawBytes chunkStart rawInstrs ++ (stringRanges rawBytes).map (dataAt chunkStart 0x100) ++
        (zeroLines chunkStart syncAddrs rawBytes).map (dataAt chunkStart 0x200)))
  rw [List.Nodup, List.pairwise_map] at hnodup
  refine hsorted.imp₂ (fun instr instr' hle hne => ?_) hnodup
  have hle' := Int64.le_iff_toInt_le.mp hle
  have hne' : instr.addr.toInt ≠ instr'.addr.toInt := fun heq => hne (Int64.toInt_inj.mp heq)
  omega

/-- The entries do not overlap, each with the next ones, if and only if no two meet. -/
theorem apart_iff (h : Chunk rawBytes chunkStart rawInstrs) :
    ((mergedInstrs rawBytes chunkStart syncAddrs rawInstrs).Pairwise fun instr instr' =>
        instr.addr.toInt + (instr.length : Int) ≤ instr'.addr.toInt) ↔
      ∀ instr ∈ mergedInstrs rawBytes chunkStart syncAddrs rawInstrs,
        ∀ instr' ∈ mergedInstrs rawBytes chunkStart syncAddrs rawInstrs,
          Meets (spanOf chunkStart instr) (spanOf chunkStart instr') → instr = instr' := by
  constructor
  · rintro hpair instr hmem instr' hmem' ⟨hlo, hhi⟩
    obtain ⟨haddr, -, -⟩ := h.within_merged hmem
    obtain ⟨haddr', -, -⟩ := h.within_merged hmem'
    rw [show (spanOf chunkStart instr').2 = instr'.length from rfl] at hlo
    rw [show (spanOf chunkStart instr).2 = instr.length from rfl] at hhi
    rcases pairwise_or_of_mem hpair hmem hmem' with heq | hlt | hlt
    · exact heq
    · omega
    · omega
  · intro hall
    refine List.Pairwise.imp_of_mem (fun {instr instr'} hmem hmem' hlt => ?_) sorted_merged
    obtain ⟨haddr, -, -⟩ := h.within_merged hmem
    obtain ⟨haddr', hpos, -⟩ := h.within_merged hmem'
    by_contra hover
    have hmeets : Meets (spanOf chunkStart instr) (spanOf chunkStart instr') := by
      rw [Meets, show (spanOf chunkStart instr').2 = instr'.length from rfl,
        show (spanOf chunkStart instr).2 = instr.length from rfl]
      omega
    rw [hall instr hmem instr' hmem' hmeets] at hlt
    exact absurd hlt (Int.lt_irrefl _)

/-- An entry that starts where a string does, and covers it: the string, or an instruction that goes on behind it. -/
theorem cover_string (h : Chunk rawBytes chunkStart rawInstrs) (hs : s ∈ stringRanges rawBytes) :
    ∃ entry ∈ mergedInstrs rawBytes chunkStart syncAddrs rawInstrs, (spanOf chunkStart entry).1 = s.1 ∧
      s.1 + s.2 ≤ (spanOf chunkStart entry).1 + (spanOf chunkStart entry).2 := by
  by_cases hfree : ∀ kept ∈ filtered rawBytes chunkStart rawInstrs, (spanOf chunkStart kept).1 ≠ s.1
  · refine ⟨_, h.mem_mergedInstrs.mpr (.inr (.inl ⟨s, hs, rfl, hfree⟩)), ?_⟩
    rw [(h.string hs).2]
    exact ⟨rfl, le_refl _⟩
  · simp only [not_forall, not_not] at hfree
    obtain ⟨kept, hmem, hstart⟩ := hfree
    refine ⟨kept, h.mem_mergedInstrs.mpr (.inl hmem), hstart, ?_⟩
    by_contra hshort
    refine ((mem_filtered h.size h.server).mp hmem).2 (.inl ⟨s, hs, ?_, ?_⟩) <;> omega

/-- An entry that starts where a line of zeros does, and covers it. -/
theorem cover_zeros (h : Chunk rawBytes chunkStart rawInstrs) (hp : p ∈ zeroLines chunkStart syncAddrs rawBytes) :
    ∃ entry ∈ mergedInstrs rawBytes chunkStart syncAddrs rawInstrs, (spanOf chunkStart entry).1 = p.1 ∧
      p.1 + p.2 ≤ (spanOf chunkStart entry).1 + (spanOf chunkStart entry).2 := by
  by_cases hfree : ∀ kept ∈ filtered rawBytes chunkStart rawInstrs, (spanOf chunkStart kept).1 ≠ p.1
  · refine ⟨_, h.mem_mergedInstrs.mpr (.inr (.inr ⟨p, hp, rfl, hfree⟩)), ?_⟩
    rw [(h.zeros hp).2]
    exact ⟨rfl, le_refl _⟩
  · simp only [not_forall, not_not] at hfree
    obtain ⟨kept, hmem, hstart⟩ := hfree
    refine ⟨kept, h.mem_mergedInstrs.mpr (.inl hmem), hstart, ?_⟩
    obtain ⟨hpos, z, hz, hin, -⟩ := zeroLines_spec hp
    obtain ⟨-, hlen, -⟩ := h.server.within (h.kept_mem hmem)
    replace hlen : 1 ≤ (spanOf chunkStart kept).2 := hlen
    rw [Inside] at hin
    by_contra hshort
    -- it would be zeros of the run
    refine ((mem_filtered h.size h.server).mp hmem).2 (.inr ⟨fun k hk => ?_, z, hz, ?_, ?_⟩)
    · rw [InRange] at hk
      exact hasAt_zero.mp ((zeroRanges_spec hz).1.all k (by omega) (by omega))
    · omega
    · omega

end Chunk

/-- Nothing overlaps: no string ends with the first byte of a run of zeros, an instruction that meets a string is in it
or starts where it does, and one that meets a line of zeros is all zeros or starts where it does. -/
structure Separate (rawBytes : List Byte) (chunkStart : Int64) (syncAddrs : Int64 → Bool)
    (rawInstrs : List Ps5DisasmInstr) : Prop where
  endings : ∀ s ∈ stringRanges rawBytes, ∀ z ∈ zeroRanges rawBytes, s.1 + s.2 ≠ z.1 + 1
  strings : ∀ instr ∈ rawInstrs, ∀ s ∈ stringRanges rawBytes, Meets (spanOf chunkStart instr) s →
    Inside (spanOf chunkStart instr) s ∨ (spanOf chunkStart instr).1 = s.1
  zeros : ∀ instr ∈ rawInstrs, ∀ p ∈ zeroLines chunkStart syncAddrs rawBytes, Meets (spanOf chunkStart instr) p →
    AllZero rawBytes (spanOf chunkStart instr) ∨ (spanOf chunkStart instr).1 = p.1

theorem Meets.symm {b : Nat × Nat} (h : Meets a b) : Meets b a := ⟨h.2, h.1⟩

/-- What meets a part meets the whole. -/
theorem Meets.mono {b c : Nat × Nat} (h : Meets a b) (hin : Inside b c) : Meets a c := by
  rw [Meets] at h ⊢
  rw [Inside] at hin
  omega

namespace Chunk

/-- An instruction that is left meets no string that is. -/
theorem kept_string (h : Chunk rawBytes chunkStart rawInstrs) (hsep : Separate rawBytes chunkStart syncAddrs rawInstrs)
    (hmem : instr ∈ filtered rawBytes chunkStart rawInstrs) (hs : s ∈ stringRanges rawBytes)
    (hfree : ∀ kept ∈ filtered rawBytes chunkStart rawInstrs, (spanOf chunkStart kept).1 ≠ s.1) :
    ¬ Meets (spanOf chunkStart instr) s := fun hmeets => by
  obtain ⟨hraw, hno⟩ := (mem_filtered h.size h.server).mp hmem
  rcases hsep.strings instr hraw s hs hmeets with hin | hstart
  · exact hno (.inl ⟨s, hs, hin⟩)
  · exact hfree instr hmem hstart

/-- An instruction that is left meets no line of zeros that is. -/
theorem kept_zeros (h : Chunk rawBytes chunkStart rawInstrs) (hsep : Separate rawBytes chunkStart syncAddrs rawInstrs)
    (hmem : instr ∈ filtered rawBytes chunkStart rawInstrs) (hp : p ∈ zeroLines chunkStart syncAddrs rawBytes)
    (hfree : ∀ kept ∈ filtered rawBytes chunkStart rawInstrs, (spanOf chunkStart kept).1 ≠ p.1) :
    ¬ Meets (spanOf chunkStart instr) p := fun hmeets => by
  obtain ⟨hraw, hno⟩ := (mem_filtered h.size h.server).mp hmem
  obtain ⟨-, z, hz, hin, -⟩ := zeroLines_spec hp
  rcases hsep.zeros instr hraw p hp hmeets with hzero | hstart
  · exact hno (.inr ⟨hzero, z, hz, hmeets.mono hin⟩)
  · exact hfree instr hmem hstart

theorem string_zeros (hsep : Separate rawBytes chunkStart syncAddrs rawInstrs) (hs : s ∈ stringRanges rawBytes)
    (hp : p ∈ zeroLines chunkStart syncAddrs rawBytes) : ¬ Meets s p := fun hmeets => by
  obtain ⟨-, z, hz, hin, -⟩ := zeroLines_spec hp
  exact hsep.endings s hs z hz (string_meets_zeros hs hz (hmeets.mono hin))

/-- Where nothing overlaps, entries that meet are the same. -/
theorem eq_of_meets (h : Chunk rawBytes chunkStart rawInstrs) (hsep : Separate rawBytes chunkStart syncAddrs rawInstrs)
    (hmem : instr ∈ mergedInstrs rawBytes chunkStart syncAddrs rawInstrs)
    (hmem' : instr' ∈ mergedInstrs rawBytes chunkStart syncAddrs rawInstrs)
    (hmeets : Meets (spanOf chunkStart instr) (spanOf chunkStart instr')) : instr = instr' := by
  rcases h.mem_mergedInstrs.mp hmem with hkept | ⟨s, hs, rfl, hfree⟩ | ⟨p, hp, rfl, hfree⟩ <;>
    rcases h.mem_mergedInstrs.mp hmem' with hkept' | ⟨s', hs', rfl, hfree'⟩ | ⟨p', hp', rfl, hfree'⟩
  · exact h.server_apart (h.kept_mem hkept) (h.kept_mem hkept') hmeets
  · rw [(h.string hs').2] at hmeets
    exact absurd hmeets (h.kept_string hsep hkept hs' hfree')
  · rw [(h.zeros hp').2] at hmeets
    exact absurd hmeets (h.kept_zeros hsep hkept hp' hfree')
  · rw [(h.string hs).2] at hmeets
    exact absurd hmeets.symm (h.kept_string hsep hkept' hs hfree)
  · rw [(h.string hs).2, (h.string hs').2] at hmeets
    by_contra hne
    exact strings_apart hs hs' (fun heq => hne (heq ▸ rfl)) hmeets
  · rw [(h.string hs).2, (h.zeros hp').2] at hmeets
    exact absurd hmeets (string_zeros hsep hs hp')
  · rw [(h.zeros hp).2] at hmeets
    exact absurd hmeets.symm (h.kept_zeros hsep hkept' hp hfree)
  · rw [(h.zeros hp).2, (h.string hs').2] at hmeets
    exact absurd hmeets.symm (string_zeros hsep hs' hp)
  · rw [(h.zeros hp).2, (h.zeros hp').2] at hmeets
    by_contra hne
    exact zeroLines_apart hp hp' (fun heq => hne (heq ▸ rfl)) hmeets

section Converse

variable (h : Chunk rawBytes chunkStart rawInstrs)
  (hall : ∀ instr ∈ mergedInstrs rawBytes chunkStart syncAddrs rawInstrs,
    ∀ instr' ∈ mergedInstrs rawBytes chunkStart syncAddrs rawInstrs,
      Meets (spanOf chunkStart instr) (spanOf chunkStart instr') → instr = instr')

include h hall

/-- Where entries that meet are the same, no string ends with the first byte of a run of zeros. -/
theorem endings_of_apart (hs : s ∈ stringRanges rawBytes) (hz : z ∈ zeroRanges rawBytes) : s.1 + s.2 ≠ z.1 + 1 := by
  intro hend
  obtain ⟨p, hp, hfirst⟩ := @first_piece rawBytes chunkStart syncAddrs z hz
  obtain ⟨x, hx, hxstart, hxend⟩ := h.cover_string hs
  obtain ⟨y, hy, hystart, hyend⟩ := h.cover_zeros hp
  have hpos := (string_in_chunk hs).1
  have hpos' := (zeroLines_spec hp).1
  have hsame := hall x hx y hy ⟨by omega, by omega⟩
  rw [hsame, hystart] at hxstart
  exact start_ne hs hp hxstart.symm

theorem strings_of_apart (hmem : instr ∈ rawInstrs) (hs : s ∈ stringRanges rawBytes)
    (hmeets : Meets (spanOf chunkStart instr) s) :
    Inside (spanOf chunkStart instr) s ∨ (spanOf chunkStart instr).1 = s.1 := by
  by_contra hno
  rw [not_or] at hno
  have hkept : instr ∈ filtered rawBytes chunkStart rawInstrs := by
    refine (mem_filtered h.size h.server).mpr ⟨hmem, ?_⟩
    rintro (⟨s', hs', hin⟩ | ⟨hzero, z, hz, hmeets'⟩)
    · refine hno.1 ?_
      by_cases heq : s = s'
      · exact heq ▸ hin
      · exact absurd (hmeets.symm.mono hin) (strings_apart hs hs' heq)
    · have hin := inside_of_allZero hzero hz hmeets'
      exact h.endings_of_apart hall hs hz (string_meets_zeros hs hz (hmeets.symm.mono hin))
  obtain ⟨x, hx, hxstart, hxend⟩ := h.cover_string hs
  have hsame := hall instr (h.mem_mergedInstrs.mpr (.inl hkept)) x hx
    (hmeets.mono ⟨le_of_eq hxstart, hxend⟩)
  exact hno.2 (hsame ▸ hxstart)

theorem zeros_of_apart (hmem : instr ∈ rawInstrs) (hp : p ∈ zeroLines chunkStart syncAddrs rawBytes)
    (hmeets : Meets (spanOf chunkStart instr) p) :
    AllZero rawBytes (spanOf chunkStart instr) ∨ (spanOf chunkStart instr).1 = p.1 := by
  by_contra hno
  rw [not_or] at hno
  obtain ⟨-, z, hz, hpz, -⟩ := zeroLines_spec hp
  have hkept : instr ∈ filtered rawBytes chunkStart rawInstrs := by
    refine (mem_filtered h.size h.server).mpr ⟨hmem, ?_⟩
    rintro (⟨s, hs, hin⟩ | ⟨hzero, -⟩)
    · have hsp := hmeets.symm.mono hin
      exact h.endings_of_apart hall hs hz (string_meets_zeros hs hz (hsp.symm.mono hpz))
    · exact hno.1 hzero
  obtain ⟨y, hy, hystart, hyend⟩ := h.cover_zeros hp
  have hsame := hall instr (h.mem_mergedInstrs.mpr (.inl hkept)) y hy
    (hmeets.mono ⟨le_of_eq hystart, hyend⟩)
  exact hno.2 (hsame ▸ hystart)

end Converse

theorem separate_iff (h : Chunk rawBytes chunkStart rawInstrs) :
    (∀ instr ∈ mergedInstrs rawBytes chunkStart syncAddrs rawInstrs,
      ∀ instr' ∈ mergedInstrs rawBytes chunkStart syncAddrs rawInstrs,
        Meets (spanOf chunkStart instr) (spanOf chunkStart instr') → instr = instr') ↔
      Separate rawBytes chunkStart syncAddrs rawInstrs := by
  constructor
  · intro hall
    exact ⟨fun s hs z hz => h.endings_of_apart hall hs hz, fun instr hmem s hs => h.strings_of_apart hall hmem hs,
      fun instr hmem p hp => h.zeros_of_apart hall hmem hp⟩
  · intro hsep instr hmem instr' hmem'
    exact h.eq_of_meets hsep hmem hmem'

end Chunk

/-! ## The lines of a chunk -/

/-- A byte of the chunk is in an entry. -/
def Covers (chunkStart : Int64) (instr : Ps5DisasmInstr) (k : Nat) : Prop :=
  instr.addr.toInt ≤ chunkStart.toInt + k ∧ chunkStart.toInt + k < instr.addr.toInt + instr.length

/-- Lines that ascend and do not overlap, and show what the server covered apart from strings and zeros. -/
structure GoodLines (rawBytes : List Byte) (chunkStart : Int64) (rawInstrs : List Ps5DisasmInstr)
    (lines : List DisasmLine) : Prop where
  ascending : lines.Pairwise fun line line' => line.instr.addr.toInt < line'.instr.addr.toInt
  apart : lines.Pairwise fun line line' => line.instr.addr.toInt + (line.instr.length : Int) ≤ line'.instr.addr.toInt
  covered : ∀ k < rawBytes.length, (∃ instr ∈ rawInstrs, Covers chunkStart instr k) →
    (∀ s ∈ stringRanges rawBytes, ¬ InRange s k) → (∀ z ∈ zeroRanges rawBytes, ¬ InRange z k) →
    ∃ line ∈ lines, Covers chunkStart line.instr k

/-- An instruction that covers a byte outside of strings and zeros is left. -/
theorem Chunk.covered (h : Chunk rawBytes chunkStart rawInstrs) (hmem : instr ∈ rawInstrs)
    (hcovers : Covers chunkStart instr k) (hs : ∀ s ∈ stringRanges rawBytes, ¬ InRange s k)
    (hz : ∀ z ∈ zeroRanges rawBytes, ¬ InRange z k) :
    instr ∈ mergedInstrs rawBytes chunkStart syncAddrs rawInstrs := by
  obtain ⟨haddr, -, -⟩ := h.server.within hmem
  obtain ⟨hlo, hhi⟩ := hcovers
  have hin : InRange (spanOf chunkStart instr) k := by
    refine ⟨by omega, ?_⟩
    show k < (spanOf chunkStart instr).1 + instr.length
    omega
  refine h.mem_mergedInstrs.mpr (.inl ((mem_filtered h.size h.server).mpr ⟨hmem, ?_⟩))
  rintro (⟨s, hmem, hinside⟩ | ⟨hzero, z, hmem, hmeets⟩)
  · refine hs s hmem ?_
    rw [Inside] at hinside
    rw [InRange] at hin ⊢
    omega
  · have hinside := inside_of_allZero hzero hmem hmeets
    refine hz z hmem ?_
    rw [Inside] at hinside
    rw [InRange] at hin ⊢
    omega

/-- The lines of a chunk ascend without overlap, and show what the server covered, if and only if nothing overlaps. -/
theorem lines_apart_iff (rawBytes : Rpc.ByteArr) (chunkStart : Int64) (syncAddrs : Int64 → Bool)
    (rawInstrs : List Ps5DisasmInstr) (hroom : chunkStart.toInt + rawBytes.val.length < 2 ^ 63)
    (hserver : ServerInstrs rawBytes.val chunkStart rawInstrs) :
    GoodLines rawBytes.val chunkStart rawInstrs (chunkLines rawBytes.val chunkStart syncAddrs rawInstrs) ↔
      Separate rawBytes.val chunkStart syncAddrs rawInstrs := by
  have h : Chunk rawBytes.val chunkStart rawInstrs := ⟨rawBytes.property, hroom, hserver⟩
  rw [← h.separate_iff, ← h.apart_iff]
  constructor
  · intro hgood
    have hapart := hgood.apart
    rw [chunkLines, List.pairwise_map] at hapart
    exact hapart
  · intro hapart
    refine ⟨?_, ?_, fun k _ hcovers hs hz => ?_⟩
    · rw [chunkLines, List.pairwise_map]
      exact Chunk.sorted_merged
    · rw [chunkLines, List.pairwise_map]
      exact hapart
    · obtain ⟨instr, hmem, hk⟩ := hcovers
      exact ⟨_, List.mem_map_of_mem (h.covered hmem hk hs hz), hk⟩

/-- A jump and a return. -/
theorem two_instructions_good :
    GoodLines [0xEB, 0x00, 0xC3] 0x1000 [⟨0x1000, 0, 0, 2, 0x04, 0, 0, 0, 0, 0⟩, ⟨0x1002, 0, 0, 1, 0x02, 0, 0, 0, 0, 0⟩]
      (chunkLines [0xEB, 0x00, 0xC3] 0x1000 (fun _ => false)
        [⟨0x1000, 0, 0, 2, 0x04, 0, 0, 0, 0, 0⟩, ⟨0x1002, 0, 0, 1, 0x02, 0, 0, 0, 0, 0⟩]) := by
  have hstrings : stringRanges [0xEB, 0x00, 0xC3] = [] := by decide
  have hzeros : zeroRanges [0xEB, 0x00, 0xC3] = [] := by decide
  refine (lines_apart_iff ⟨[0xEB, 0x00, 0xC3], by decide⟩ 0x1000 (fun _ => false) _ (by decide) ⟨?_, ?_, ?_⟩).mpr
    ⟨?_, ?_, ?_⟩
  · intro instr hmem
    simp only [List.mem_cons, List.not_mem_nil, or_false] at hmem
    rcases hmem with rfl | rfl <;> decide
  · intro instr hmem
    simp only [List.mem_cons, List.not_mem_nil, or_false] at hmem
    rcases hmem with rfl | rfl <;> decide
  · refine .cons (fun instr hmem => ?_) (.cons nofun .nil)
    obtain rfl := List.mem_singleton.mp hmem
    decide
  · intro s hs
    rw [hstrings] at hs
    cases hs
  · intro instr _ s hs
    rw [hstrings] at hs
    cases hs
  · intro instr _ p hp
    rw [zeroLines, hzeros] at hp
    cases hp

/-- A string, and a run of zeros that its zero belongs to. -/
theorem string_zero_overlaps :
    ¬ GoodLines ([0x41, 0x42, 0x43, 0x44] ++ List.replicate 16 0) 0x1000 []
      (chunkLines ([0x41, 0x42, 0x43, 0x44] ++ List.replicate 16 0) 0x1000 (fun _ => false) []) := by
  intro hgood
  have h : Chunk ([0x41, 0x42, 0x43, 0x44] ++ List.replicate 16 0) 0x1000 [] :=
    ⟨by decide, by decide, ⟨nofun, nofun, .nil⟩⟩
  have hapart := hgood.apart
  rw [chunkLines, List.pairwise_map] at hapart
  have hstrings : stringRanges ([0x41, 0x42, 0x43, 0x44] ++ List.replicate 16 0) = [(0, 5)] := by decide
  have hzeros : zeroRanges ([0x41, 0x42, 0x43, 0x44] ++ List.replicate 16 0) = [(4, 16)] := by decide
  exact h.endings_of_apart (h.apart_iff.mp hapart) (hstrings ▸ List.mem_singleton.mpr rfl)
    (hzeros ▸ List.mem_singleton.mpr rfl) rfl

end RegionPreloader

end Ps5Debugger
