import Ps5Debugger.Disasm

/-!
# Disassembly and the read chunk

`disasm_iterate` reads a region in chunks and starts a new one, at the cursor, when an instruction was
decoded and the next could run past the edge. It does not look at the edge when a byte does not decode: the
bytes behind such a byte are decoded from what is left of the chunk, fewer than 15 of them near the edge.
So an instruction that lies over the edge behind a byte that does not decode is cut.
`disasmLoop_eq_onePass_iff` says that this is the one way in which the chunks matter.
-/

namespace Ps5Debugger

open Lib

/-! ## One pass -/

/-- A decoder that looks at 15 bytes. -/
def Zydis.Local (z : Zydis) : Prop := ∀ b : List Byte, 15 ≤ b.length → z.decode b = z.decode (b.take 15)

/-- The instructions of a region that lies in one buffer: decode at the cursor, go on behind the
instruction, or one byte further if there is none. -/
def onePass (z : Zydis) (region : List Byte) (start maxInstrs off emitted : Nat) : List (Nat × Insn) :=
  if off < region.length ∧ emitted < maxInstrs then
    match z.decode (region.drop off) with
    | none => onePass z region start maxInstrs (off + 1) emitted
    | some insn =>
      (u64 (start + off), insn) :: onePass z region start maxInstrs (off + insn.length) (emitted + 1)
  else []
termination_by region.length - off
decreasing_by
  · omega
  · have := insn.nonempty
    omega

/-! ## The edge of a chunk -/

/-- Where the chunk ends that was read at `base`. -/
def chunkEdge (length base : Nat) : Nat := min (base + DISASM_READ_CHUNK) length

/-- Where the chunk starts that holds the cursor `off` after a step from a chunk at `base`. -/
def reread (length base off : Nat) (decoded : Bool) : Nat :=
  if chunkEdge length base ≤ off ∨
    (decoded = true ∧ chunkEdge length base < off + 15 ∧ chunkEdge length base < length) then off else base

theorem reread_new {length base off : Nat} {decoded : Bool} (hoff : chunkEdge length base ≤ off) :
    reread length base off decoded = off := if_pos (.inl hoff)

theorem reread_keep {length base off : Nat} {decoded : Bool} (hoff : off < chunkEdge length base)
    (hfar : decoded = true → ¬ (chunkEdge length base < off + 15 ∧ chunkEdge length base < length)) :
    reread length base off decoded = base :=
  if_neg fun h => h.elim (Nat.not_le.mpr hoff) fun hnear => hfar hnear.1 hnear.2

/-- What is left of the chunk at the cursor. -/
def chunkRest (region : List Byte) (base off : Nat) : List Byte :=
  (region.drop off).take (chunkEdge region.length base - off)

/-- Wherever one pass comes closer than 15 bytes to the edge of a chunk behind which the region goes on, what
is left of the chunk decodes as the region does. -/
def CutsAgree (z : Zydis) (region : List Byte) (maxInstrs base off emitted : Nat) : Prop :=
  if off < region.length ∧ emitted < maxInstrs then
    (chunkEdge region.length base < off + 15 ∧ chunkEdge region.length base < region.length →
        z.decode (chunkRest region base off) = z.decode (region.drop off)) ∧
      match z.decode (region.drop off) with
      | none => CutsAgree z region maxInstrs (reread region.length base (off + 1) false) (off + 1) emitted
      | some insn => CutsAgree z region maxInstrs (reread region.length base (off + insn.length) true)
          (off + insn.length) (emitted + 1)
  else True
termination_by region.length - off
decreasing_by
  · omega
  · have := insn.nonempty
    omega

/-! ## Both ways of decoding -/

section Sweep

variable (length start maxInstrs : Nat)

/-- The instructions that a decoder finds which may look at the chunk. -/
def sweep (dec : Nat → Nat → Option Insn) (base off emitted : Nat) : List (Nat × Insn) :=
  if off < length ∧ emitted < maxInstrs then
    match dec base off with
    | none => sweep dec (reread length base (off + 1) false) (off + 1) emitted
    | some insn =>
      (u64 (start + off), insn) ::
        sweep dec (reread length base (off + insn.length) true) (off + insn.length) (emitted + 1)
  else []
termination_by length - off
decreasing_by
  · omega
  · have := insn.nonempty
    omega

variable {length start maxInstrs}

theorem sweep_stop {dec : Nat → Nat → Option Insn} {base off emitted : Nat}
    (hstop : ¬ (off < length ∧ emitted < maxInstrs)) : sweep length start maxInstrs dec base off emitted = [] := by
  rw [sweep, if_neg hstop]

theorem sweep_go {dec : Nat → Nat → Option Insn} {base off emitted : Nat} (hgo : off < length ∧ emitted < maxInstrs) :
    sweep length start maxInstrs dec base off emitted =
      match dec base off with
      | none => sweep length start maxInstrs dec (reread length base (off + 1) false) (off + 1) emitted
      | some insn => (u64 (start + off), insn) :: sweep length start maxInstrs dec
          (reread length base (off + insn.length) true) (off + insn.length) (emitted + 1) := by
  rw [sweep, if_pos hgo]

/-- Bytes that do not decode are skipped. -/
theorem sweep_skip {dec : Nat → Nat → Option Insn} {base off emitted k : Nat} (hlimit : emitted < maxInstrs)
    (hedge : off + k < chunkEdge length base) (hdec : ∀ i < k, dec base (off + i) = none) :
    sweep length start maxInstrs dec base off emitted =
      sweep length start maxInstrs dec base (off + k) emitted := by
  induction k with
  | zero => rw [Nat.add_zero]
  | succ k ih =>
    have hlen : chunkEdge length base ≤ length := Nat.min_le_right ..
    have hkeep : reread length base (off + k + 1) false = base := reread_keep hedge nofun
    rw [ih (by omega) fun i hi => hdec i (by omega), sweep_go ⟨by omega, hlimit⟩, hdec k (Nat.lt_succ_self k)]
    dsimp only
    rw [hkeep]
    rfl

/-- What is found lies behind the cursor. -/
theorem mem_sweep {dec : Nat → Nat → Option Insn} {base off emitted : Nat} {r : Nat × Insn}
    (hr : r ∈ sweep length start maxInstrs dec base off emitted) :
    ∃ o, off ≤ o ∧ o < length ∧ r.1 = u64 (start + o) := by
  induction hm : length - off using Nat.strong_induction_on generalizing base off emitted with
  | _ m ih =>
    subst hm
    by_cases hgo : off < length ∧ emitted < maxInstrs
    · rw [sweep_go hgo] at hr
      cases hdec : dec base off with
      | none =>
        rw [hdec] at hr
        obtain ⟨o, hle, hlt, hoff⟩ := ih _ (by omega) hr rfl
        exact ⟨o, by omega, hlt, hoff⟩
      | some insn =>
        have hpos := insn.nonempty
        rw [hdec] at hr
        rcases List.mem_cons.mp hr with rfl | hr
        · exact ⟨off, Nat.le_refl off, hgo.1, rfl⟩
        · obtain ⟨o, hle, hlt, hoff⟩ := ih _ (by omega) hr rfl
          exact ⟨o, by omega, hlt, hoff⟩
    · rw [sweep_stop hgo] at hr
      cases hr

/-- Nothing behind the cursor has its address. -/
theorem sweep_ne_cons {dec : Nat → Nat → Option Insn} {base off off' emitted : Nat} {insn : Insn}
    {rest : List (Nat × Insn)} (hlen : length ≤ 2 ^ 64) (hlt : off < off') :
    sweep length start maxInstrs dec base off' emitted ≠ (u64 (start + off), insn) :: rest := by
  intro heq
  have hmem : (u64 (start + off), insn) ∈ sweep length start maxInstrs dec base off' emitted := by
    rw [heq]
    exact List.mem_cons_self
  obtain ⟨o, hle, ho, haddr⟩ := mem_sweep hmem
  simp only [u64] at haddr
  omega

end Sweep

section Passes

variable {z : Zydis} {region : List Byte} {start maxInstrs : Nat}

/-- One pass looks at the region only. -/
theorem onePass_eq_sweep (base off emitted : Nat) :
    onePass z region start maxInstrs off emitted =
      sweep region.length start maxInstrs (fun _ off => z.decode (region.drop off)) base off emitted := by
  induction hm : region.length - off using Nat.strong_induction_on generalizing base off emitted with
  | _ m ih =>
    subst hm
    rw [onePass]
    by_cases hgo : off < region.length ∧ emitted < maxInstrs
    · rw [if_pos hgo, sweep_go hgo]
      cases hdec : z.decode (region.drop off) with
      | none => exact ih _ (by omega) _ (off + 1) emitted rfl
      | some insn =>
        have hpos := insn.nonempty
        exact congrArg _ (ih _ (by omega) _ (off + insn.length) (emitted + 1) rfl)
    · rw [if_neg hgo, sweep_stop hgo]

/-- Away from the edge, and in the last chunk, the chunk decodes as the region does. -/
theorem decode_chunkRest (hlocal : z.Local) {base off : Nat} (hoff : off < region.length)
    (hfar : ¬ (chunkEdge region.length base < off + 15 ∧ chunkEdge region.length base < region.length)) :
    z.decode (chunkRest region base off) = z.decode (region.drop off) := by
  unfold chunkRest
  by_cases hlast : chunkEdge region.length base < region.length
  · have hedge : 15 ≤ chunkEdge region.length base - off := by omega
    have hedge' : chunkEdge region.length base ≤ region.length := Nat.min_le_right ..
    rw [hlocal (region.drop off) (by rw [List.length_drop]; omega),
      hlocal _ (by rw [List.length_take, List.length_drop]; omega), List.take_take, Nat.min_eq_left hedge]
  · rw [List.take_of_length_le (by rw [List.length_drop]; omega)]

variable (start maxInstrs) in
/-- The chunks give what one pass gives if and only if they agree where they cut. -/
theorem sweep_eq_iff (hlocal : z.Local) (hlen : region.length ≤ 2 ^ 64) (base off emitted : Nat) :
    sweep region.length start maxInstrs (fun base off => z.decode (chunkRest region base off)) base off emitted =
        sweep region.length start maxInstrs (fun _ off => z.decode (region.drop off)) base off emitted ↔
      CutsAgree z region maxInstrs base off emitted := by
  induction hm : region.length - off using Nat.strong_induction_on generalizing base off emitted with
  | _ m ih =>
    subst hm
    rw [CutsAgree]
    by_cases hgo : off < region.length ∧ emitted < maxInstrs
    · rw [sweep_go hgo, sweep_go hgo, if_pos hgo]
      by_cases hsame : z.decode (chunkRest region base off) = z.decode (region.drop off)
      · rw [and_iff_right fun _ => hsame, hsame]
        cases hdec : z.decode (region.drop off) with
        | none => exact ih _ (by omega) _ (off + 1) emitted rfl
        | some insn =>
          have hpos := insn.nonempty
          exact (List.cons_inj_right _).trans (ih _ (by omega) _ (off + insn.length) (emitted + 1) rfl)
      · -- the first instruction of the one is not the first of the other
        refine iff_of_false (fun heq => ?_) fun hcut => hsame ?_
        · cases hchunk : z.decode (chunkRest region base off) with
          | none =>
            cases hdec : z.decode (region.drop off) with
            | none => exact hsame (hchunk.trans hdec.symm)
            | some insn =>
              rw [hchunk, hdec] at heq
              exact sweep_ne_cons hlen (Nat.lt_succ_self off) heq
          | some insn =>
            cases hdec : z.decode (region.drop off) with
            | none =>
              rw [hchunk, hdec] at heq
              exact sweep_ne_cons hlen (Nat.lt_succ_self off) heq.symm
            | some insn' =>
              rw [hchunk, hdec] at heq
              have hinsn : insn = insn' := congrArg Prod.snd (List.cons.inj heq).1
              exact hsame (hchunk.trans (hinsn ▸ hdec.symm))
        · by_cases hnear : chunkEdge region.length base < off + 15 ∧ chunkEdge region.length base < region.length
          · exact hcut.1 hnear
          · exact decode_chunkRest hlocal hgo.1 hnear
    · rw [sweep_stop hgo, sweep_stop hgo, if_neg hgo]
      exact iff_of_true rfl trivial

end Passes

/-! ## The loops -/

section Loops

variable (z : Zydis) (mem : Memory) (start length maxInstrs : Nat)

/-- The instructions that are found with the chunk in hand. -/
def chunkSweep (base off emitted : Nat) : List (Nat × Insn) :=
  sweep length start maxInstrs (fun base off => z.decode (chunkRest (slice (readMem mem start) 0 length) base off))
    base off emitted

/-- The chunk that was read at `base`. -/
def chunkAt (base : Nat) : List Byte := slice (readMem mem (u64 (start + base))) 0 (chunkEdge length base - base)

theorem drop_chunkAt (base pos : Nat) : (chunkAt mem start length base).drop pos =
    chunkRest (slice (readMem mem start) 0 length) base (base + pos) := by
  have hedge : chunkEdge length base ≤ length := Nat.min_le_right ..
  rw [chunkAt, chunkRest, slice_readMem_add, length_slice, drop_slice, drop_slice, take_slice, Nat.zero_add,
    Nat.min_eq_left (by omega)]
  congr 1
  omega

variable {mem start length}

theorem chunkSweep_none {base off emitted : Nat} (hgo : off < length ∧ emitted < maxInstrs)
    (hdec : z.decode (chunkRest (slice (readMem mem start) 0 length) base off) = none) :
    chunkSweep z mem start length maxInstrs base off emitted =
      chunkSweep z mem start length maxInstrs (reread length base (off + 1) false) (off + 1) emitted := by
  rw [chunkSweep, sweep_go hgo, hdec]
  rfl

theorem chunkSweep_some {base off emitted : Nat} (hgo : off < length ∧ emitted < maxInstrs) {insn : Insn}
    (hdec : z.decode (chunkRest (slice (readMem mem start) 0 length) base off) = some insn) :
    chunkSweep z mem start length maxInstrs base off emitted = (u64 (start + off), insn) ::
      chunkSweep z mem start length maxInstrs (reread length base (off + insn.length) true) (off + insn.length)
        (emitted + 1) := by
  rw [chunkSweep, sweep_go hgo, hdec]
  rfl

theorem chunkSweep_stop {base off emitted : Nat} (hstop : ¬ (off < length ∧ emitted < maxInstrs)) :
    chunkSweep z mem start length maxInstrs base off emitted = [] := sweep_stop hstop

variable (mem start) in
/-- The loop over a chunk finds what the sweep finds, up to where the next chunk starts. -/
theorem disasmChunk_sweep {base pos : Nat} (hpos : base + pos < chunkEdge length base) (emitted : Nat)
    (s : List (Nat × Insn)) :
    ∃ pos' emitted' rs,
      disasmChunk z recordEmit maxInstrs (u64 (start + base)) (chunkAt mem start length base)
        (decide (chunkEdge length base < length)) pos emitted s = some (pos', emitted', s ++ rs) ∧
      pos ≤ pos' ∧ (emitted < maxInstrs → pos < pos') ∧
      chunkSweep z mem start length maxInstrs base (base + pos) emitted =
        rs ++ chunkSweep z mem start length maxInstrs (base + pos') (base + pos') emitted' := by
  have hedge : chunkEdge length base ≤ length := Nat.min_le_right ..
  have hsize : (chunkAt mem start length base).length = chunkEdge length base - base := length_slice ..
  induction hm : chunkEdge length base - pos using Nat.strong_induction_on generalizing pos emitted s with
  | _ m ih =>
    subst hm
    by_cases hlimit : emitted < maxInstrs
    · have hgo : base + pos < length ∧ emitted < maxInstrs := ⟨by omega, hlimit⟩
      rw [disasmChunk, if_pos ⟨by omega, hlimit⟩, drop_chunkAt]
      cases hdec : z.decode (chunkRest (slice (readMem mem start) 0 length) base (base + pos)) with
      | none =>
        rw [chunkSweep_none z maxInstrs hgo hdec]
        by_cases hnext : base + (pos + 1) < chunkEdge length base
        · obtain ⟨pos', emitted', rs, hrun, hle, -, hsweep⟩ := ih _ (by omega) hnext emitted s rfl
          refine ⟨pos', emitted', rs, hrun, Nat.le_of_succ_le hle, fun _ => hle, ?_⟩
          have hkeep : reread length base (base + (pos + 1)) false = base :=
            reread_keep hnext fun h => absurd h Bool.false_ne_true
          rw [Nat.add_assoc base, hkeep]
          exact hsweep
        · refine ⟨pos + 1, emitted, [], ?_, Nat.le_succ pos, fun _ => Nat.lt_succ_self pos, ?_⟩
          · dsimp only
            rw [disasmChunk, if_neg (by omega), List.append_nil]
          · rw [Nat.add_assoc base, reread_new (Nat.not_lt.mp hnext)]
            rfl
      | some insn =>
        have hsome := insn.nonempty
        have haddr : u64 (u64 (start + base) + pos) = u64 (start + (base + pos)) := by
          unfold u64
          omega
        rw [chunkSweep_some z maxInstrs hgo hdec, ← haddr]
        dsimp only [recordEmit]
        by_cases hstop : (chunkAt mem start length base).length < pos + insn.length + 15 ∧
            decide (chunkEdge length base < length) = true
        · refine ⟨pos + insn.length, emitted + 1, [(u64 (u64 (start + base) + pos), insn)], if_pos hstop,
            Nat.le_add_right .., fun _ => Nat.lt_add_of_pos_right hsome, ?_⟩
          have hnear := of_decide_eq_true hstop.2
          rw [reread, if_pos (.inr ⟨rfl, by omega, hnear⟩), Nat.add_assoc base]
          rfl
        · rw [if_neg hstop]
          have hfar : ¬ (chunkEdge length base < base + (pos + insn.length) + 15 ∧ chunkEdge length base < length) :=
            fun h => hstop ⟨by omega, decide_eq_true h.2⟩
          by_cases hnext : base + (pos + insn.length) < chunkEdge length base
          · obtain ⟨pos', emitted', rs, hrun, hle, -, hsweep⟩ :=
              ih _ (by omega) hnext (emitted + 1) (s ++ [(u64 (u64 (start + base) + pos), insn)]) rfl
            refine ⟨pos', emitted', (u64 (u64 (start + base) + pos), insn) :: rs, ?_, Nat.le_of_add_right_le hle,
              fun _ => by omega, ?_⟩
            · rw [hrun, List.append_assoc]
              rfl
            · rw [Nat.add_assoc base, reread_keep hnext fun _ => hfar, hsweep]
              rfl
          · -- the region ends here
            refine ⟨pos + insn.length, emitted + 1, [(u64 (u64 (start + base) + pos), insn)], ?_,
              Nat.le_add_right .., fun _ => Nat.lt_add_of_pos_right hsome, ?_⟩
            · rw [disasmChunk, if_neg (by omega)]
            · rw [Nat.add_assoc base, reread_new (Nat.not_lt.mp hnext)]
              rfl
    · refine ⟨pos, emitted, [], ?_, Nat.le_refl pos, fun h => absurd h hlimit, ?_⟩
      · rw [disasmChunk, if_neg fun h => hlimit h.2, List.append_nil]
      · rw [chunkSweep_stop z maxInstrs fun h => hlimit h.2, chunkSweep_stop z maxInstrs fun h => hlimit h.2]
        rfl

theorem slice_readInto (buf : Buf) (addr n : Nat) :
    slice (readInto mem buf addr n) 0 n = slice (readMem mem addr) 0 n :=
  slice_eq_iff.mpr fun i hi => readInto_of_lt (by omega)

/-- The loops find what the sweep finds. -/
theorem disasmLoop_sweep (chunk : Buf) (off emitted : Nat) (s : List (Nat × Insn)) :
    disasmLoop z recordEmit maxInstrs (.ofMemory mem chunk) start length off emitted s =
      some (s ++ chunkSweep z mem start length maxInstrs off off emitted) := by
  induction hm : length - off using Nat.strong_induction_on generalizing chunk off emitted s with
  | _ m ih =>
    subst hm
    by_cases hgo : off < length ∧ emitted < maxInstrs
    · have hedge : off + 0 < chunkEdge length off := by
        unfold chunkEdge DISASM_READ_CHUNK
        omega
      obtain ⟨pos, emitted', rs, hrun, -, hmore, hsweep⟩ := disasmChunk_sweep z mem start maxInstrs hedge emitted s
      have hpos : 0 < pos := hmore hgo.2
      have hread : (if length - off > DISASM_READ_CHUNK then DISASM_READ_CHUNK else length - off) =
          chunkEdge length off - off := by
        unfold chunkEdge
        split <;> omega
      have hrest : decide (length - off > chunkEdge length off - off) = decide (chunkEdge length off < length) :=
        decide_eq_decide.mpr (by omega)
      have hadvance : (off + if pos > 0 then pos else 1) = off + pos := by rw [if_pos hpos]
      rw [disasmLoop, if_pos hgo]
      dsimp only
      rw [hread, hrest, ChunkIo.ofMemory, slice_readInto, ← chunkAt, hrun]
      dsimp only
      rw [hadvance, ← ChunkIo.ofMemory, ih _ (by omega) _ _ _ _ rfl, List.append_assoc, ← hsweep, Nat.add_zero]
    · rw [disasmLoop, if_neg hgo, chunkSweep_stop z maxInstrs hgo, List.append_nil]

end Loops

/-- **The chunks do not matter if and only if they agree with one pass where they cut.** -/
theorem disasmLoop_eq_onePass_iff (z : Zydis) (hlocal : z.Local) (mem : Memory) (start : Nat) (length : UInt64)
    (maxInstrs : Nat) (chunk : Buf) :
    disasmLoop z recordEmit maxInstrs (.ofMemory mem chunk) start length.toNat 0 0 [] =
        some (onePass z (slice (readMem mem start) 0 length.toNat) start maxInstrs 0 0) ↔
      CutsAgree z (slice (readMem mem start) 0 length.toNat) maxInstrs 0 0 0 := by
  have hregion : (slice (readMem mem start) 0 length.toNat).length = length.toNat := length_slice ..
  have hlen : length.toNat ≤ 2 ^ 64 := Nat.le_of_lt (UInt64.toNat_lt length)
  have hiff := sweep_eq_iff start maxInstrs hlocal (hregion.symm ▸ hlen) 0 0 0
  rw [hregion] at hiff
  rw [disasmLoop_sweep, List.nil_append, Option.some_inj, onePass_eq_sweep 0, hregion, ← hiff]
  rfl

/-! ## An instruction over the edge -/

/-- `66 90` -/
def nop2 : Insn := ⟨2, by decide, by decide, 510, .other, []⟩

/-- A decoder that knows nothing else. -/
def nopDecoder : Zydis := ⟨fun b => if b[0]? = some 0x66 ∧ b[1]? = some 0x90 then some nop2 else none, fun _ _ => []⟩

theorem nopDecoder_none {b : List Byte} (hb : b[0]? ≠ some 0x66 ∨ b[1]? ≠ some 0x90) : nopDecoder.decode b = none :=
  if_neg fun h => hb.elim (fun h0 => h0 h.1) fun h1 => h1 h.2

theorem nopDecoder_some {b : List Byte} (h0 : b[0]? = some 0x66) (h1 : b[1]? = some 0x90) :
    nopDecoder.decode b = some nop2 := if_pos ⟨h0, h1⟩

theorem nopDecoder_local : nopDecoder.Local := fun b _ => by
  simp only [nopDecoder, List.getElem?_take]
  rfl

/-- Nothing decodes. -/
theorem disasm_zeros : disasmLoop nopDecoder recordEmit 10 (.ofMemory (fun _ => 0) fun _ => 0) 0x400000
      (2 : UInt64).toNat 0 0 [] =
      some (onePass nopDecoder (slice (readMem (fun _ => 0) 0x400000) 0 (2 : UInt64).toNat) 0x400000 10 0 0) ↔
    CutsAgree nopDecoder (slice (readMem (fun _ => 0) 0x400000) 0 (2 : UInt64).toNat) 10 0 0 0 :=
  disasmLoop_eq_onePass_iff nopDecoder nopDecoder_local (fun _ => 0) 0x400000 2 10 fun _ => 0

/-- An instruction that lies over the edge of the first chunk, behind bytes that do not decode. -/
theorem cut_region {n : Nat} (hn : n + 1 = DISASM_READ_CHUNK) {region : List Byte} (hlen : region.length = n + 2)
    (hbyte : ∀ i < n, region[i]? = some 0x06) (hfirst : region[n]? = some 0x66) (hsecond : region[n + 1]? = some 0x90) :
    sweep (n + 2) 0 10 (fun base off => nopDecoder.decode (chunkRest region base off)) 0 0 0 ≠
      sweep (n + 2) 0 10 (fun _ off => nopDecoder.decode (region.drop off)) 0 0 0 := by
  have hedge : chunkEdge (n + 2) 0 = n + 1 := by
    unfold chunkEdge
    omega
  have hskip : 0 + n < chunkEdge (n + 2) 0 := by omega
  have hgo : n < n + 2 ∧ 0 < 10 := by omega
  have hchunk : sweep (n + 2) 0 10 (fun base off => nopDecoder.decode (chunkRest region base off)) 0 0 0 =
      sweep (n + 2) 0 10 (fun base off => nopDecoder.decode (chunkRest region base off)) 0 (0 + n) 0 := by
    refine sweep_skip hgo.2 hskip fun i hi => nopDecoder_none (.inl ?_)
    rw [chunkRest, List.getElem?_take, List.getElem?_drop, Nat.zero_add, Nat.add_zero, hbyte i hi]
    split <;> decide
  have hwhole : sweep (n + 2) 0 10 (fun _ off => nopDecoder.decode (region.drop off)) 0 0 0 =
      sweep (n + 2) 0 10 (fun _ off => nopDecoder.decode (region.drop off)) 0 (0 + n) 0 := by
    refine sweep_skip hgo.2 hskip fun i hi => nopDecoder_none (.inl ?_)
    rw [List.getElem?_drop, Nat.zero_add, Nat.add_zero, hbyte i hi]
    decide
  have hcut : nopDecoder.decode (chunkRest region 0 n) = none := by
    refine nopDecoder_none (.inr ?_)
    rw [chunkRest, List.getElem?_take, hlen, hedge, if_neg (by omega)]
    exact nofun
  have hdecode : nopDecoder.decode (region.drop n) = some nop2 := by
    refine nopDecoder_some ?_ ?_
    · rw [List.getElem?_drop, Nat.add_zero, hfirst]
    · rw [List.getElem?_drop, hsecond]
  rw [hchunk, hwhole, Nat.zero_add, sweep_go hgo, sweep_go hgo, hcut, hdecode]
  exact sweep_ne_cons (by unfold DISASM_READ_CHUNK at hn; omega) (Nat.lt_succ_self n)

def cutMemory : Memory := fun a => if a = 0xFFFF then 0x66 else if a = 0x10000 then 0x90 else 0x06

theorem cut_instruction_lost : ¬ ∀ (z : Zydis), z.Local → ∀ (mem : Memory) (start : Nat) (length : UInt64)
    (maxInstrs : Nat) (chunk : Buf),
    disasmLoop z recordEmit maxInstrs (.ofMemory mem chunk) start length.toNat 0 0 [] =
      some (onePass z (slice (readMem mem start) 0 length.toNat) start maxInstrs 0 0) := by
  intro hall
  have heq := hall nopDecoder nopDecoder_local cutMemory 0 0x10001 10 fun _ => 0
  have hlength : (0x10001 : UInt64).toNat = 0x10001 := rfl
  have hbyte (i : Nat) (hi : i < 0x10001) : (slice (readMem cutMemory 0) 0 0x10001)[i]? = some (cutMemory i) := by
    rw [getElem?_slice, if_pos hi, readMem, Nat.zero_add, Nat.zero_add, u64_of_lt (by omega)]
  have hskipped (i : Nat) (hi : i < 0xFFFF) : cutMemory i = 0x06 := by
    rw [cutMemory, if_neg (by omega), if_neg (by omega)]
  rw [hlength, disasmLoop_sweep, List.nil_append, Option.some_inj, onePass_eq_sweep 0, chunkSweep, length_slice] at heq
  have hn : 0xFFFF + 1 = DISASM_READ_CHUNK := rfl
  refine cut_region hn (length_slice ..) (fun i hi => ?_) ?_ ?_ heq
  · rw [hbyte i (by omega), hskipped i hi]
  · rw [hbyte _ (by decide)]
    rfl
  · rw [hbyte _ (by decide)]
    rfl

end Ps5Debugger
