import Mathlib.Data.Nat.Bitwise
import Ps5Debugger.LocalDisassembler

/-!
# The sweep of the local disassembler

`disassemble` (`LocalDisassembler.kt`) makes an entry at each offset that it reaches.

`disassemble_tiles_iff`: the entries tile the array if and only if no instruction that is reached runs past its end.
`sync_entries_iff`: every sync address is the address of an instruction if and only if the sweep does not throw and no
string or instruction that is reached goes over a sync address; a run of zeros never does.
-/

namespace Ps5Debugger

open Lib
open Rpc (ByteArr)
open Rpc.MemoryRpcService (Ps5DisasmInstr)

namespace LocalDisassembler

/-! ## The loop -/

section Loop

variable (bytes : List Byte) (baseAddr : Int64) (syncAddresses : Int64 → Bool)

/-- `while (offset < bytes.size)` -/
def disassembleFrom (offset : Nat) : Option (List Ps5DisasmInstr) :=
  if _h : offset < bytes.length then
    match entryAt bytes baseAddr syncAddresses offset with
    | none => none
    | some instr =>
      (disassembleFrom (offset + pieceLength bytes baseAddr syncAddresses offset)).map fun instrs => instr :: instrs
  else some []
termination_by bytes.length - offset
decreasing_by
  have := (@pieceLength_spec bytes offset baseAddr syncAddresses ‹_›).1
  omega

/-- The sweep goes from one offset to another. -/
def Sweeps (offset offset' : Nat) : Prop :=
  offset < bytes.length ∧ offset' = offset + pieceLength bytes baseAddr syncAddresses offset

/-- The sweep comes from one offset to another in the array. -/
def Reaches (offset offset' : Nat) : Prop :=
  Relation.ReflTransGen (Sweeps bytes baseAddr syncAddresses) offset offset' ∧ offset' < bytes.length

/-- No instruction of the sweep from an offset on runs past the end of the array. -/
def Fits (offset : Nat) : Prop :=
  ∀ off, Reaches bytes baseAddr syncAddresses offset off →
    pieceAt bytes baseAddr syncAddresses off = .instruction → off + getInstructionLength bytes off ≤ bytes.length

end Loop

/-- `disassemble`, with `none` for an exception. -/
def disassemble (bytes : ByteArr) (baseAddr : Int64) (syncAddresses : Int64 → Bool) : Option (List Ps5DisasmInstr) :=
  disassembleFrom bytes.val baseAddr syncAddresses 0

variable {bytes : List Byte} {baseAddr : Int64} {syncAddresses : Int64 → Bool} {offset : Nat}

/-! ## Entries -/

/-- The entry at an offset is there unless it is an instruction that throws. -/
theorem entryAt_spec (h : offset < bytes.length) :
    (pieceAt bytes baseAddr syncAddresses offset = .instruction → Throws bytes offset →
        entryAt bytes baseAddr syncAddresses offset = none) ∧
      (¬ (pieceAt bytes baseAddr syncAddresses offset = .instruction ∧ Throws bytes offset) →
        ∃ instr, entryAt bytes baseAddr syncAddresses offset = some instr ∧ instr.addr = addrOf baseAddr offset ∧
          instr.length = pieceLength bytes baseAddr syncAddresses offset ∧
          (pieceAt bytes baseAddr syncAddresses offset = .instruction → instr.kind < 2 ^ 8)) := by
  rw [entryAt, pieceLength]
  cases pieceAt bytes baseAddr syncAddresses offset with
  | instruction =>
    refine ⟨fun _ hthrow => instrAt_of_throws h hthrow, fun hno => ?_⟩
    obtain ⟨instr, hinstr, haddr, hlen, hkind⟩ :=
      @instrAt_of_not_throws bytes offset (addrOf baseAddr offset) h fun hthrow => hno ⟨rfl, hthrow⟩
    exact ⟨instr, hinstr, haddr, hlen, fun _ => hkind⟩
  | string n => exact ⟨(fun h => by cases h), fun _ => ⟨_, rfl, rfl, rfl, fun h => by cases h⟩⟩
  | zeros n => exact ⟨(fun h => by cases h), fun _ => ⟨_, rfl, rfl, rfl, fun h => by cases h⟩⟩

/-- An instruction that throws is cut off. -/
theorem lt_of_throws (h : offset < bytes.length) (hthrow : Throws bytes offset) :
    bytes.length < offset + getInstructionLength bytes offset := by
  obtain ⟨hlast, hop⟩ := hthrow
  have hmem : bytes.getD (skipPrefixes bytes offset) 0 ∈ modrmSet := by
    simp only [List.mem_cons, List.not_mem_nil, or_false] at hop
    rcases hop with hop | hop | hop | hop <;> rw [hop] <;> decide
  have hlong := (opcodeLength_last (by omega) hmem).mpr hop
  rcases getInstructionLength_eq h with ⟨-, hlen⟩ | ⟨hend, -⟩ <;> omega

/-! ## Tiling -/

/-- Entries of at least a byte from one address on, each where the one before ends, up to another. -/
def Tiles : Int64 → List Ps5DisasmInstr → Int64 → Prop
  | addr, [], stop => addr = stop
  | addr, instr :: instrs, stop => instr.addr = addr ∧ 1 ≤ instr.length ∧ Tiles instr.next instrs stop

theorem addrOf_add (n : Nat) : addrOf baseAddr offset + Int64.ofNat n = addrOf baseAddr (offset + n) := by
  rw [addrOf, addrOf, Int64.ofNat_add, Int64.add_assoc]

/-- Offsets that differ by less than the address space have different addresses. -/
theorem addrOf_ne {offset' : Nat} (hlt : offset < offset') (hnear : offset' - offset < 2 ^ 63) :
    addrOf baseAddr offset ≠ addrOf baseAddr offset' := by
  intro heq
  obtain ⟨d, rfl⟩ := Nat.exists_eq_add_of_lt hlt
  rw [Nat.add_assoc, ← addrOf_add] at heq
  have hzero : Int64.ofNat (d + 1) = 0 := by
    have := congrArg (fun a => a - addrOf baseAddr offset) heq
    simpa [Int64.add_comm, Int64.sub_self] using this.symm
  have hint := congrArg Int64.toInt hzero
  rw [Int64.toInt_ofNat_of_lt (by omega)] at hint
  simp at hint
  omega

theorem reaches_self (h : offset < bytes.length) : Reaches bytes baseAddr syncAddresses offset offset := ⟨.refl, h⟩

theorem not_reaches_of_le (h : bytes.length ≤ offset) {off : Nat} :
    ¬ Reaches bytes baseAddr syncAddresses offset off := by
  rintro ⟨hoff, hin⟩
  rcases Relation.ReflTransGen.cases_head_iff.mp hoff with rfl | ⟨_, ⟨hsweep, -⟩, -⟩ <;> omega

/-- What is reached is the offset itself, or reached from the next one. -/
theorem reaches_iff (h : offset < bytes.length) {off : Nat} :
    Reaches bytes baseAddr syncAddresses offset off ↔
      off = offset ∨
        Reaches bytes baseAddr syncAddresses (offset + pieceLength bytes baseAddr syncAddresses offset) off := by
  constructor
  · rintro ⟨hoff, hin⟩
    rcases Relation.ReflTransGen.cases_head_iff.mp hoff with rfl | ⟨_, ⟨-, rfl⟩, hoff⟩
    · exact .inl rfl
    · exact .inr ⟨hoff, hin⟩
  · rintro (rfl | ⟨hoff, hin⟩)
    · exact reaches_self h
    · exact ⟨.head ⟨h, rfl⟩ hoff, hin⟩

theorem fits_iff (h : offset < bytes.length) :
    Fits bytes baseAddr syncAddresses offset ↔
      (pieceAt bytes baseAddr syncAddresses offset = .instruction →
        offset + getInstructionLength bytes offset ≤ bytes.length) ∧
      Fits bytes baseAddr syncAddresses (offset + pieceLength bytes baseAddr syncAddresses offset) := by
  constructor
  · intro hall
    exact ⟨hall offset (reaches_self h), fun off hoff => hall off ((reaches_iff h).mpr (.inr hoff))⟩
  · rintro ⟨hfirst, hrest⟩ off hoff
    rcases (reaches_iff h).mp hoff with rfl | hoff
    · exact hfirst
    · exact hrest off hoff

theorem pieceLength_of_instruction (h : pieceAt bytes baseAddr syncAddresses offset = .instruction) :
    pieceLength bytes baseAddr syncAddresses offset = getInstructionLength bytes offset := by
  rw [pieceLength, h]

/-- An entry that is there. -/
theorem next_of_entryAt (h : offset < bytes.length) {instr : Ps5DisasmInstr}
    (hentry : entryAt bytes baseAddr syncAddresses offset = some instr) :
    instr.addr = addrOf baseAddr offset ∧ 1 ≤ instr.length ∧
      instr.next = addrOf baseAddr (offset + pieceLength bytes baseAddr syncAddresses offset) := by
  obtain ⟨hnone, hsome⟩ := @entryAt_spec bytes baseAddr syncAddresses offset h
  obtain ⟨instr', hentry', haddr, hlen, -⟩ := hsome fun hthrow => by
    rw [hnone hthrow.1 hthrow.2] at hentry
    cases hentry
  obtain rfl := Option.some.inj (hentry.symm.trans hentry')
  have hpos := (@pieceLength_spec bytes offset baseAddr syncAddresses h).1
  exact ⟨haddr, by omega, by rw [Ps5DisasmInstr.next, haddr, hlen, addrOf_add]⟩

/-- An entry that runs past the end is the last one, and does not end where the array does. -/
theorem not_tiles_of_cut (h : offset < bytes.length)
    (hcut : bytes.length < offset + pieceLength bytes baseAddr syncAddresses offset) :
    ¬ ∃ instrs, disassembleFrom bytes baseAddr syncAddresses offset = some instrs ∧
      Tiles (addrOf baseAddr offset) instrs (addrOf baseAddr bytes.length) := by
  rintro ⟨instrs, hrun, htiles⟩
  have hpiece : pieceAt bytes baseAddr syncAddresses offset = .instruction := by
    by_contra hno
    exact absurd ((pieceLength_spec h).2 hno) (Nat.not_le.mpr hcut)
  have hnear := getInstructionLength_le h
  rw [← pieceLength_of_instruction hpiece] at hnear
  rw [disassembleFrom, dif_pos h] at hrun
  cases hentry : entryAt bytes baseAddr syncAddresses offset with
  | none =>
    rw [hentry] at hrun
    cases hrun
  | some instr =>
    obtain ⟨-, -, hnext⟩ := next_of_entryAt h hentry
    rw [hentry] at hrun
    dsimp only at hrun
    rw [disassembleFrom, dif_neg (by omega)] at hrun
    obtain rfl := Option.some.inj hrun
    have hend : instr.next = addrOf baseAddr bytes.length := htiles.2.2
    exact addrOf_ne hcut (by omega) (hend.symm.trans hnext)

/-- The rest of the sweep tiles the rest of the array if and only if it fits. -/
theorem tiles_from_iff (hle : offset ≤ bytes.length) :
    (∃ instrs, disassembleFrom bytes baseAddr syncAddresses offset = some instrs ∧
        Tiles (addrOf baseAddr offset) instrs (addrOf baseAddr bytes.length)) ↔
      Fits bytes baseAddr syncAddresses offset := by
  induction hn : bytes.length - offset using Nat.strong_induction_on generalizing offset with
  | _ n ih =>
    by_cases hlt : offset < bytes.length
    · obtain ⟨hpos, hdata⟩ := @pieceLength_spec bytes offset baseAddr syncAddresses hlt
      by_cases hfits : offset + pieceLength bytes baseAddr syncAddresses offset ≤ bytes.length
      · have hfirst : pieceAt bytes baseAddr syncAddresses offset = .instruction →
            offset + getInstructionLength bytes offset ≤ bytes.length := fun hpiece => by
          rw [← pieceLength_of_instruction hpiece]
          exact hfits
        obtain ⟨instr, hentry, -⟩ := (@entryAt_spec bytes baseAddr syncAddresses offset hlt).2 fun hthrow => by
          have := lt_of_throws hlt hthrow.2
          have := hfirst hthrow.1
          omega
        obtain ⟨haddr, hlen, hnext⟩ := next_of_entryAt hlt hentry
        rw [fits_iff hlt, ← ih _ (by omega) hfits rfl, disassembleFrom, dif_pos hlt, hentry]
        dsimp only
        constructor
        · rintro ⟨instrs, hrun, htiles⟩
          obtain ⟨rest, hrest, rfl⟩ := Option.map_eq_some_iff.mp hrun
          exact ⟨hfirst, rest, hrest, hnext ▸ htiles.2.2⟩
        · rintro ⟨-, rest, hrest, htiles⟩
          exact ⟨instr :: rest, by rw [hrest]; rfl, haddr, hlen, hnext ▸ htiles⟩
      · have hpiece : pieceAt bytes baseAddr syncAddresses offset = .instruction := by
          by_contra hno
          exact hfits (hdata hno)
        refine iff_of_false (not_tiles_of_cut hlt (Nat.lt_of_not_le hfits)) fun hall => hfits ?_
        rw [pieceLength_of_instruction hpiece]
        exact hall offset (reaches_self hlt) hpiece
    · have hend : offset = bytes.length := by omega
      subst hend
      refine iff_of_true ⟨[], ?_, rfl⟩ fun off hoff => absurd hoff (not_reaches_of_le (le_refl _))
      rw [disassembleFrom, dif_neg hlt]

theorem addrOf_zero : addrOf baseAddr 0 = baseAddr := Int64.add_zero baseAddr

/-- The disassembler returns, and its entries tile the array, if and only if no instruction that the sweep reaches
runs past the end of the array. -/
theorem disassemble_tiles_iff (bytes : ByteArr) (baseAddr : Int64) (syncAddresses : Int64 → Bool) :
    (∃ instrs, disassemble bytes baseAddr syncAddresses = some instrs ∧
        Tiles baseAddr instrs (baseAddr + Int64.ofNat bytes.val.length)) ↔
      ∀ off, Reaches bytes.val baseAddr syncAddresses 0 off →
        pieceAt bytes.val baseAddr syncAddresses off = .instruction →
        off + getInstructionLength bytes.val off ≤ bytes.val.length := by
  have h := @tiles_from_iff bytes.val baseAddr syncAddresses 0 (Nat.zero_le _)
  rw [addrOf_zero] at h
  exact h

/-- An opcode with an immediate at the end of the array: nothing is returned. -/
theorem truncated_immediate_throws :
    ¬ ∃ instrs, disassemble ⟨[0x90, 0x83], by decide⟩ 0x1000 (fun _ => true) = some instrs ∧
      Tiles 0x1000 instrs (0x1000 + Int64.ofNat 2) := by
  have hskip : skipPrefixes [0x90, 0x83] 0 = 0 := skipPrefixes_stop (by decide) (by decide)
  have hskip' : skipPrefixes [0x90, 0x83] 1 = 1 := skipPrefixes_stop (by decide) (by decide)
  have hone : getInstructionLength [0x90, 0x83] 0 = 1 := by
    rw [getInstructionLength, hskip]
    decide
  have htwo : entryAt [0x90, 0x83] 0x1000 (fun _ => true) 1 = none :=
    (entryAt_spec (by decide)).1 rfl ⟨by rw [hskip']; rfl, by rw [hskip']; decide⟩
  rintro ⟨instrs, hrun, -⟩
  rw [disassemble, disassembleFrom, dif_pos (by decide), pieceLength_of_instruction rfl, hone] at hrun
  rw [disassembleFrom, dif_pos (by decide), htwo] at hrun
  cases hentry : entryAt [0x90, 0x83] 0x1000 (fun _ => true) 0 with
  | none =>
    rw [hentry] at hrun
    cases hrun
  | some instr =>
    rw [hentry] at hrun
    cases hrun

/-! ## Sync addresses -/

theorem le_of_reaches {off off' : Nat} (h : Reaches bytes baseAddr syncAddresses off off') : off ≤ off' := by
  obtain ⟨hrun, -⟩ := h
  induction hrun using Relation.ReflTransGen.head_induction_on with
  | refl => exact le_refl _
  | head hstep _ ih =>
    obtain ⟨-, rfl⟩ := hstep
    exact le_trans (Nat.le_add_right _ _) ih

/-- Of two offsets that are reached one is reached from the other. -/
theorem next_le_of_reaches {off off' : Nat} (h : Reaches bytes baseAddr syncAddresses offset off)
    (h' : Reaches bytes baseAddr syncAddresses offset off') (hlt : off < off') :
    off + pieceLength bytes baseAddr syncAddresses off ≤ off' := by
  have hunique : Relator.RightUnique (Sweeps bytes baseAddr syncAddresses) := fun _ _ _ h h' => h.2.trans h'.2.symm
  rcases Relation.ReflTransGen.total_of_right_unique hunique h.1 h'.1 with hrun | hrun
  · rcases (reaches_iff h.2).mp ⟨hrun, h'.2⟩ with rfl | hnext
    · exact absurd hlt (Nat.lt_irrefl _)
    · exact le_of_reaches hnext
  · exact absurd (le_of_reaches ⟨hrun, h.2⟩) (Nat.not_le.mpr hlt)

/-- Each byte is in an entry. -/
theorem exists_reaches {p : Nat} (hle : offset ≤ p) (hp : p < bytes.length) :
    ∃ off, Reaches bytes baseAddr syncAddresses offset off ∧ off ≤ p ∧
      p < off + pieceLength bytes baseAddr syncAddresses off := by
  induction hn : p - offset using Nat.strong_induction_on generalizing offset with
  | _ n ih =>
    have hlt : offset < bytes.length := lt_of_le_of_lt hle hp
    have hpos := (@pieceLength_spec bytes offset baseAddr syncAddresses hlt).1
    by_cases hin : p < offset + pieceLength bytes baseAddr syncAddresses offset
    · exact ⟨offset, reaches_self hlt, hle, hin⟩
    · obtain ⟨off, hoff, hrest⟩ := ih _ (by omega) (Nat.le_of_not_lt hin) rfl
      exact ⟨off, (reaches_iff hlt).mpr (.inr hoff), hrest⟩

/-- The sweep returns if and only if nothing that it reaches throws. -/
theorem disassembleFrom_isSome_iff :
    (∃ instrs, disassembleFrom bytes baseAddr syncAddresses offset = some instrs) ↔
      ∀ off, Reaches bytes baseAddr syncAddresses offset off →
        pieceAt bytes baseAddr syncAddresses off = .instruction → ¬ Throws bytes off := by
  induction hn : bytes.length - offset using Nat.strong_induction_on generalizing offset with
  | _ n ih =>
    by_cases hlt : offset < bytes.length
    · obtain ⟨hnone, hsome⟩ := @entryAt_spec bytes baseAddr syncAddresses offset hlt
      have hpos := (@pieceLength_spec bytes offset baseAddr syncAddresses hlt).1
      have hrest := ih (bytes.length - (offset + pieceLength bytes baseAddr syncAddresses offset)) (by omega) rfl
      rw [disassembleFrom, dif_pos hlt]
      constructor
      · rintro ⟨instrs, hrun⟩ off hoff hpiece hthrow
        rcases (reaches_iff hlt).mp hoff with rfl | hoff
        · rw [hnone hpiece hthrow] at hrun
          cases hrun
        · cases hentry : entryAt bytes baseAddr syncAddresses offset with
          | none =>
            rw [hentry] at hrun
            cases hrun
          | some instr =>
            rw [hentry] at hrun
            obtain ⟨rest, hrest', -⟩ := Option.map_eq_some_iff.mp hrun
            exact hrest.mp ⟨rest, hrest'⟩ off hoff hpiece hthrow
      · intro hno
        obtain ⟨instr, hentry, -⟩ := hsome fun hthrow => hno offset (reaches_self hlt) hthrow.1 hthrow.2
        obtain ⟨rest, hrest'⟩ := hrest.mpr fun off hoff => hno off ((reaches_iff hlt).mpr (.inr hoff))
        rw [hentry, hrest']
        exact ⟨_, rfl⟩
    · rw [disassembleFrom, dif_neg hlt]
      exact iff_of_true ⟨[], rfl⟩ fun off hoff => absurd hoff (not_reaches_of_le (Nat.le_of_not_lt hlt))

/-- The entries are those of the offsets that the sweep reaches. -/
theorem mem_disassembleFrom {instrs : List Ps5DisasmInstr}
    (hrun : disassembleFrom bytes baseAddr syncAddresses offset = some instrs) (instr : Ps5DisasmInstr) :
    instr ∈ instrs ↔ ∃ off, Reaches bytes baseAddr syncAddresses offset off ∧
      entryAt bytes baseAddr syncAddresses off = some instr := by
  induction hn : bytes.length - offset using Nat.strong_induction_on generalizing offset instrs with
  | _ n ih =>
    rw [disassembleFrom] at hrun
    by_cases hlt : offset < bytes.length
    · have hpos := (@pieceLength_spec bytes offset baseAddr syncAddresses hlt).1
      rw [dif_pos hlt] at hrun
      cases hentry : entryAt bytes baseAddr syncAddresses offset with
      | none =>
        rw [hentry] at hrun
        cases hrun
      | some first =>
        rw [hentry] at hrun
        obtain ⟨rest, hrest, rfl⟩ := Option.map_eq_some_iff.mp hrun
        rw [List.mem_cons, ih _ (by omega) hrest rfl]
        constructor
        · rintro (rfl | ⟨off, hoff, hat⟩)
          · exact ⟨offset, reaches_self hlt, hentry⟩
          · exact ⟨off, (reaches_iff hlt).mpr (.inr hoff), hat⟩
        · rintro ⟨off, hoff, hat⟩
          rcases (reaches_iff hlt).mp hoff with rfl | hoff
          · exact .inl (Option.some.inj (hat.symm.trans hentry))
          · exact .inr ⟨off, hoff, hat⟩
    · rw [dif_neg hlt] at hrun
      obtain rfl := Option.some.inj hrun
      exact ⟨nofun, fun ⟨_, hoff, _⟩ => absurd hoff (not_reaches_of_le (Nat.le_of_not_lt hlt))⟩

/-- A run of zeros ends before the next sync address. -/
theorem not_sync_in_zeros (h : offset < bytes.length) {n : Nat}
    (hpiece : pieceAt bytes baseAddr syncAddresses offset = .zeros n) {p : Nat} (hlo : offset < p)
    (hhi : p < offset + pieceLength bytes baseAddr syncAddresses offset) :
    syncAddresses (addrOf baseAddr p) = false := by
  obtain ⟨d, rfl⟩ := Nat.exists_eq_add_of_lt hlo
  have hspec := (@zeroLenFrom_spec bytes offset baseAddr syncAddresses 1 h).2.2
  rw [pieceLength, hpiece] at hhi
  rw [pieceAt] at hpiece
  split_ifs at hpiece
  cases hpiece
  exact hspec (d + 1) (by omega) (by dsimp only at hhi; omega)

/-- An instruction or a string that starts before an offset and ends behind it. -/
def Swallows (bytes : List Byte) (baseAddr : Int64) (syncAddresses : Int64 → Bool) (offset p : Nat) : Prop :=
  (∀ n, pieceAt bytes baseAddr syncAddresses offset ≠ .zeros n) ∧
    offset < p ∧ p < offset + pieceLength bytes baseAddr syncAddresses offset

/-- The offset of an address in the array. -/
theorem addrOf_toNat {a : Int64} (hlo : baseAddr.toInt ≤ a.toInt) :
    addrOf baseAddr (a.toInt - baseAddr.toInt).toNat = a := by
  have hcast : ((a.toInt - baseAddr.toInt).toNat : Int) = a.toInt - baseAddr.toInt := Int.toNat_of_nonneg (by omega)
  rw [addrOf, ← Int64.ofInt_eq_ofNat, hcast]
  calc baseAddr + Int64.ofInt (a.toInt - baseAddr.toInt)
      = Int64.ofInt baseAddr.toInt + Int64.ofInt (a.toInt - baseAddr.toInt) := by rw [Int64.ofInt_toInt]
    _ = Int64.ofInt a.toInt := by rw [← Int64.ofInt_add, add_sub_cancel]
    _ = a := Int64.ofInt_toInt a

theorem addrOf_injective {off off' : Nat} (h : off < 2 ^ 63) (h' : off' < 2 ^ 63)
    (heq : addrOf baseAddr off = addrOf baseAddr off') : off = off' := by
  rcases Nat.lt_trichotomy off off' with hlt | heq' | hlt
  · exact absurd heq (addrOf_ne hlt (by omega))
  · exact heq'
  · exact absurd heq.symm (addrOf_ne hlt (by omega))

/-- A kind below the bits for data is no data. -/
theorem not_data_of_kind_lt {instr : Ps5DisasmInstr} (h : instr.kind < 2 ^ 8) :
    instr.isDataString = false ∧ instr.isDataRaw = false := by
  have hbit (n : Nat) (hn : 8 ≤ n) : instr.kind &&& 2 ^ n = 0 := by
    rw [Nat.and_comm, Nat.two_pow_and, Nat.testBit_lt_two_pow (lt_of_lt_of_le h (Nat.pow_le_pow_right (by decide) hn))]
    rfl
  have hstring : instr.kind &&& 0x0100 = 0 := hbit 8 (le_refl _)
  have hraw : instr.kind &&& 0x0200 = 0 := hbit 9 (by decide)
  rw [Ps5DisasmInstr.isDataString, Ps5DisasmInstr.isDataRaw, Ps5DisasmInstr.hasKind, Ps5DisasmInstr.hasKind, hstring,
    hraw]
  exact ⟨rfl, rfl⟩

/-- A sync address that nothing goes over is reached. -/
theorem reaches_of_sync {p : Nat} (hp : p < bytes.length) (hsync : syncAddresses (addrOf baseAddr p) = true)
    (hno : ∀ off, Reaches bytes baseAddr syncAddresses 0 off → ¬ Swallows bytes baseAddr syncAddresses off p) :
    Reaches bytes baseAddr syncAddresses 0 p := by
  obtain ⟨off, hoff, hle, hlt⟩ := @exists_reaches bytes baseAddr syncAddresses 0 p (Nat.zero_le _) hp
  rcases Nat.eq_or_lt_of_le hle with rfl | hbefore
  · exact hoff
  · refine absurd ⟨fun n hzeros => ?_, hbefore, hlt⟩ (hno off hoff)
    rw [not_sync_in_zeros hoff.2 hzeros hbefore hlt] at hsync
    cases hsync

/-- What is reached does not go over the address of an entry. -/
theorem not_inside_of_entry (hsize : bytes.length < 2 ^ 31) {instrs : List Ps5DisasmInstr}
    (hrun : disassembleFrom bytes baseAddr syncAddresses 0 = some instrs) {instr : Ps5DisasmInstr}
    (hmem : instr ∈ instrs) {p : Nat} (haddr : instr.addr = addrOf baseAddr p) (hp : p < bytes.length) {off : Nat}
    (hoff : Reaches bytes baseAddr syncAddresses 0 off) :
    ¬ (off < p ∧ p < off + pieceLength bytes baseAddr syncAddresses off) := by
  rintro ⟨hbefore, hbehind⟩
  obtain ⟨off', hoff', hentry⟩ := (mem_disassembleFrom hrun instr).mp hmem
  have hin := hoff'.2
  have heq : off' = p :=
    @addrOf_injective baseAddr _ _ (by omega) (by omega) ((next_of_entryAt hin hentry).1.symm.trans haddr)
  subst heq
  exact absurd (next_le_of_reaches hoff hoff' hbefore) (Nat.not_le.mpr hbehind)

/-- Every sync address in the array is the address of an instruction if and only if, when there is one, no instruction
that the sweep reaches throws, and none and no string goes over a sync address. -/
theorem sync_entries_iff (bytes : ByteArr) (baseAddr : Int64) (syncAddresses : Int64 → Bool) :
    (∀ a, syncAddresses a = true → baseAddr.toInt ≤ a.toInt → a.toInt < baseAddr.toInt + bytes.val.length →
        ∃ instrs, disassemble bytes baseAddr syncAddresses = some instrs ∧
          ∃ instr ∈ instrs, instr.addr = a ∧ instr.isDataString = false ∧ instr.isDataRaw = false) ↔
      ∀ a, syncAddresses a = true → baseAddr.toInt ≤ a.toInt → a.toInt < baseAddr.toInt + bytes.val.length →
        ∀ off, Reaches bytes.val baseAddr syncAddresses 0 off →
          (pieceAt bytes.val baseAddr syncAddresses off = .instruction → ¬ Throws bytes.val off) ∧
            ¬ Swallows bytes.val baseAddr syncAddresses off (a.toInt - baseAddr.toInt).toNat := by
  have hsize := bytes.property
  constructor
  · intro h a hsync hlo hhi off hoff
    obtain ⟨instrs, hrun, instr, hmem, haddr, -⟩ := h a hsync hlo hhi
    refine ⟨disassembleFrom_isSome_iff.mp ⟨instrs, hrun⟩ off hoff, fun ⟨_, hbefore, hbehind⟩ => ?_⟩
    exact not_inside_of_entry hsize hrun hmem (haddr.trans (addrOf_toNat hlo).symm) (by omega) hoff ⟨hbefore, hbehind⟩
  · intro h a hsync hlo hhi
    have hall := h a hsync hlo hhi
    obtain ⟨instrs, hrun⟩ := disassembleFrom_isSome_iff.mpr fun off hoff => (hall off hoff).1
    have hsync' := hsync
    rw [← addrOf_toNat hlo] at hsync'
    have hreach := reaches_of_sync (by omega) hsync' fun off hoff => (hall off hoff).2
    have hpiece : pieceAt bytes.val baseAddr syncAddresses (a.toInt - baseAddr.toInt).toNat = .instruction := by
      rw [pieceAt, if_pos hsync']
    obtain ⟨instr, hentry, haddr, -, hkind⟩ := (entryAt_spec hreach.2).2 fun hthrow => (hall _ hreach).1 hpiece hthrow.2
    refine ⟨instrs, hrun, instr, (mem_disassembleFrom hrun instr).mpr ⟨_, hreach, hentry⟩, ?_, ?_⟩
    · rw [haddr, addrOf_toNat hlo]
    · exact not_data_of_kind_lt (hkind hpiece)

/-- A jump of two bytes over a sync address. -/
theorem jump_swallows_sync :
    ¬ ∀ a : Int64, decide (a = 0x1001) = true → (0x1000 : Int64).toInt ≤ a.toInt →
      a.toInt < (0x1000 : Int64).toInt + ([0xEB, 0x90] : List Byte).length →
      ∃ instrs, disassemble ⟨[0xEB, 0x90], by decide⟩ 0x1000 (fun a => decide (a = 0x1001)) = some instrs ∧
        ∃ instr ∈ instrs, instr.addr = a ∧ instr.isDataString = false ∧ instr.isDataRaw = false := by
  intro h
  obtain ⟨instrs, hrun, instr, hmem, haddr, -⟩ := h 0x1001 (by decide) (by decide) (by decide)
  have hskip : skipPrefixes [0xEB, 0x90] 0 = 0 := skipPrefixes_stop (by decide) (by decide)
  have hnostring : isPrintableString [0xEB, 0x90] 0 = 0 := by
    rw [isPrintableString, if_neg (by decide), printableFrom, dif_pos (by decide)]
    rfl
  have hpiece : pieceAt [0xEB, 0x90] 0x1000 (fun a => decide (a = 0x1001)) 0 = .instruction := by
    rw [pieceAt, hnostring]
    decide
  have hlen : getInstructionLength [0xEB, 0x90] 0 = 2 := by
    rw [getInstructionLength, hskip]
    decide
  refine not_inside_of_entry (by decide) hrun hmem (p := 1) (haddr.trans (by decide)) (by decide)
    (reaches_self (by decide)) ⟨by decide, ?_⟩
  rw [pieceLength_of_instruction hpiece, hlen]
  decide

end LocalDisassembler

end Ps5Debugger
