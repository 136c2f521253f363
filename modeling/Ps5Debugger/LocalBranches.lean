import Ps5Debugger.LocalSweep

/-!
# Direct branches in the local disassembler

Three decoders look at a direct branch, each from its prefixes on: `getInstructionLength` (its length), `inferKind`
(its kind) and `calculateRelTarget` (its target), and a fourth one, `getJumpTarget`, does from the bytes of a line.

`branch_entry_agrees_iff`: for a complete direct branch the four agree if and only if the entry is no string, and the
opcode is not `0F`: `inferKind` compares the byte behind `0F` with `0x80..0x8F` as a signed number, which no byte
meets, so that `0F 80..8F` has no kind and no target.
-/

namespace Ps5Debugger

open Lib
open Rpc (ByteArr)
open Rpc.MemoryRpcService (Ps5DisasmInstr)

/-! ## Forms of branches -/

/-- The form of a direct branch: the bit of its kind, and how many bytes its opcode and its displacement have. -/
structure BranchForm where
  kind : Nat
  opcode : Nat
  disp : Nat

/-- The direct branch whose opcode is at `off`. -/
def branchAt (bytes : List Byte) (off : Nat) : Option BranchForm :=
  let b0 := bytes.getD off 0
  let b1 := bytes.getD (off + 1) 0
  if b0 = 0xE8 then some ⟨0x01, 1, 4⟩
  else if b0 = 0xE9 then some ⟨0x04, 1, 4⟩
  else if b0 = 0xEB then some ⟨0x04, 1, 1⟩
  else if 0x70 ≤ b0 ∧ b0 ≤ 0x7F then some ⟨0x08, 1, 1⟩
  else if b0 = 0x0F ∧ 0x80 ≤ b1 ∧ b1 ≤ 0x8F then some ⟨0x08, 2, 4⟩
  else none

/-- The displacement of a branch whose opcode is at `off`, as a number with a sign. -/
def BranchForm.displacement (form : BranchForm) (bytes : List Byte) (off : Nat) : Int :=
  if form.disp = 1 then (bytes.getD (off + form.opcode) 0).toInt else (intAt bytes (off + form.opcode)).toInt

section Forms

variable {bytes : List Byte} {off : Nat} {form : BranchForm}

theorem branchAt_cases (h : branchAt bytes off = some form) :
    (bytes.getD off 0 = 0xE8 ∧ form = ⟨0x01, 1, 4⟩) ∨ (bytes.getD off 0 = 0xE9 ∧ form = ⟨0x04, 1, 4⟩) ∨
      (bytes.getD off 0 = 0xEB ∧ form = ⟨0x04, 1, 1⟩) ∨
      ((0x70 ≤ bytes.getD off 0 ∧ bytes.getD off 0 ≤ 0x7F) ∧ form = ⟨0x08, 1, 1⟩) ∨
      (bytes.getD off 0 = 0x0F ∧ (0x80 ≤ bytes.getD (off + 1) 0 ∧ bytes.getD (off + 1) 0 ≤ 0x8F) ∧
        form = ⟨0x08, 2, 4⟩) := by
  rw [branchAt] at h
  split_ifs at h with h1 h2 h3 h4 h5
  · exact .inl ⟨h1, (Option.some.inj h).symm⟩
  · exact .inr (.inl ⟨h2, (Option.some.inj h).symm⟩)
  · exact .inr (.inr (.inl ⟨h3, (Option.some.inj h).symm⟩))
  · exact .inr (.inr (.inr (.inl ⟨h4, (Option.some.inj h).symm⟩)))
  · exact .inr (.inr (.inr (.inr ⟨h5.1, h5.2, (Option.some.inj h).symm⟩)))

/-- The short conditional jumps. -/
theorem mem_of_short {b : Byte} (h : 0x70 ≤ b ∧ b ≤ 0x7F) :
    b ∈ [(0x70 : Byte), 0x71, 0x72, 0x73, 0x74, 0x75, 0x76, 0x77, 0x78, 0x79, 0x7A, 0x7B, 0x7C, 0x7D, 0x7E, 0x7F] := by
  revert b
  decide

/-- A branch has an opcode and a displacement, and its opcode takes no ModRM byte. -/
theorem branchAt_spec (h : branchAt bytes off = some form) :
    2 ≤ form.opcode + form.disp ∧ (form.disp = 1 ∨ form.disp = 4) ∧ form.kind ∈ [0x01, 0x04, 0x08] ∧
      bytes.getD off 0 ∉ LocalDisassembler.modrmSet ∧ bytes.getD off 0 ≠ 0 := by
  rcases branchAt_cases h with ⟨hb, rfl⟩ | ⟨hb, rfl⟩ | ⟨hb, rfl⟩ | ⟨hb, rfl⟩ | ⟨hb, -, rfl⟩
  · rw [hb]; decide
  · rw [hb]; decide
  · rw [hb]; decide
  · refine ⟨by decide, by decide, by decide, ?_⟩
    have hmem := mem_of_short hb
    generalize bytes.getD off 0 = b0 at hmem
    revert b0
    decide
  · rw [hb]; decide

/-- The target of a complete branch. -/
theorem relTarget_of_branch (h : branchAt bytes off = some form) (hin : off + form.opcode + form.disp ≤ bytes.length)
    (next : Int64) : relTarget bytes off next = next + Int64.ofInt (form.displacement bytes off) := by
  rw [relTarget]
  rcases branchAt_cases h with ⟨hb, rfl⟩ | ⟨hb, rfl⟩ | ⟨hb, rfl⟩ | ⟨hb, rfl⟩ | ⟨hb, hb1, rfl⟩
  · rw [if_pos (.inl hb), if_pos (show bytes.length ≥ off + 5 from hin)]
    rfl
  · rw [if_pos (.inr hb), if_pos (show bytes.length ≥ off + 5 from hin)]
    rfl
  · rw [if_neg (by rw [hb]; decide), if_pos (.inl hb), if_pos (show bytes.length ≥ off + 2 from hin)]
    rfl
  · have hno : ¬ (bytes.getD off 0 = 0xE8 ∨ bytes.getD off 0 = 0xE9) := by
      have hmem := mem_of_short hb
      generalize bytes.getD off 0 = b0 at hmem ⊢
      revert b0
      decide
    rw [if_neg hno, if_pos (.inr hb), if_pos (show bytes.length ≥ off + 2 from hin)]
    rfl
  · rw [if_neg (by rw [hb]; decide), if_neg (by rw [hb]; decide), if_pos ⟨hb, hb1⟩,
      if_pos (show bytes.length ≥ off + 6 from hin)]
    rfl

end Forms

/-! ## The bytes of an entry -/

section Slices

variable {bytes : List Byte} {start n : Nat}

theorem skipPrefixes_copyOfRange (h : start + n ≤ bytes.length) (hop : skipPrefixes bytes start < start + n) :
    skipPrefixes (copyOfRange bytes start n) 0 = skipPrefixes bytes start - start := by
  obtain ⟨hle, -, hall, hend⟩ := @skipPrefixes_spec bytes start (by omega)
  have hlen := length_copyOfRange h
  have hget (i : Nat) (hi : i < (copyOfRange bytes start n).length) (hin : start + i < bytes.length) :
      (copyOfRange bytes start n)[i] = bytes[start + i] := by
    simp only [copyOfRange, List.getElem_take, List.getElem_drop]
  refine skipPrefixes_eq (Nat.zero_le _) (by omega) (fun i hi _ hlt => ?_) fun hi => ?_
  · rw [hget i hi (by omega)]
    exact hall _ (by omega) (by omega) (by omega)
  · have := hend (by omega)
    rw [hget _ hi (by omega)]
    simpa only [Nat.add_sub_cancel' hle] using this

variable {off : Nat} {form : BranchForm}

theorem branchAt_copyOfRange (hle : start ≤ off) (h : off + 1 < start + n) :
    branchAt (copyOfRange bytes start n) (off - start) = branchAt bytes off := by
  have hfirst : start + (off - start) = off := by omega
  have hsecond : start + (off - start + 1) = off + 1 := by omega
  rw [branchAt, branchAt, getD_copyOfRange (by omega), getD_copyOfRange (by omega), hfirst, hsecond]

theorem displacement_copyOfRange (hle : start ≤ off) (h : off + form.opcode + form.disp ≤ start + n)
    (hdisp : form.disp = 1 ∨ form.disp = 4) :
    form.displacement (copyOfRange bytes start n) (off - start) = form.displacement bytes off := by
  have hat (k : Nat) : start + (off - start + k) = off + k := by omega
  rw [BranchForm.displacement, BranchForm.displacement]
  rcases hdisp with hone | hfour
  · rw [if_pos hone, if_pos hone, getD_copyOfRange (by omega), hat]
  · have hne : ¬ form.disp = 1 := by omega
    rw [if_neg hne, if_neg hne, intAt, intAt]
    simp only [Nat.add_assoc]
    rw [getD_copyOfRange (by omega), getD_copyOfRange (by omega), getD_copyOfRange (by omega),
      getD_copyOfRange (by omega), hat, hat, hat, hat]

end Slices

namespace LocalDisassembler

/-! ## Entries for branches -/

section Entries

variable {bytes : List Byte} {offset : Nat} {form : BranchForm}

/-- The length of a branch is its opcode and its displacement. -/
theorem opcodeLength_of_branch (h : branchAt bytes offset = some form) :
    opcodeLength bytes offset = form.opcode + form.disp := by
  rw [opcodeLength]
  dsimp only
  rcases branchAt_cases h with ⟨hb, rfl⟩ | ⟨hb, rfl⟩ | ⟨hb, rfl⟩ | ⟨hb, rfl⟩ | ⟨hb, hb1, rfl⟩
  · rw [hb]
    rfl
  · rw [hb]
    rfl
  · rw [hb]
    rfl
  · have hmem := mem_of_short hb
    generalize bytes.getD offset 0 = b0 at hmem ⊢
    simp only [List.mem_cons, List.not_mem_nil, or_false] at hmem
    rcases hmem with rfl | rfl | rfl | rfl | rfl | rfl | rfl | rfl | rfl | rfl | rfl | rfl | rfl | rfl | rfl | rfl <;>
      rfl
  · rw [hb, if_neg (by decide), if_neg (by decide), if_neg (by decide), if_neg (by decide), if_neg (by decide),
      if_pos rfl, if_pos hb1]
    rfl

/-- The kind of a branch has its bit, but for the long conditional jumps, which have no kind at all. -/
theorem branchKind_of_branch (h : branchAt bytes offset = some form) :
    (bytes.getD offset 0 ≠ 0x0F →
      branchKind (bytes.getD offset 0) (bytes.getD (offset + 1) 0) &&& form.kind ≠ 0) ∧
      (bytes.getD offset 0 = 0x0F → branchKind (bytes.getD offset 0) (bytes.getD (offset + 1) 0) = 0) := by
  generalize hb1 : bytes.getD (offset + 1) 0 = b1
  rcases branchAt_cases h with ⟨hb, rfl⟩ | ⟨hb, rfl⟩ | ⟨hb, rfl⟩ | ⟨hb, rfl⟩ | ⟨hb, -, rfl⟩
  · rw [hb]
    simp [branchKind]
  · rw [hb]
    simp [branchKind]
  · rw [hb]
    simp [branchKind]
  · have hmem := mem_of_short hb
    generalize bytes.getD offset 0 = b0 at hmem ⊢
    simp only [List.mem_cons, List.not_mem_nil, or_false] at hmem
    rcases hmem with rfl | rfl | rfl | rfl | rfl | rfl | rfl | rfl | rfl | rfl | rfl | rfl | rfl | rfl | rfl | rfl <;>
      simp [branchKind]
  · -- a byte with a sign is at most 0x7F
    have hsigned : ¬ 0x80 ≤ b1.toInt := by
      have := @BitVec.two_mul_toInt_lt 8 b1
      omega
    rw [hb]
    simp [branchKind, hsigned]

/-- The instruction at the offset of a complete branch. -/
theorem instrAt_of_branch {addr : Int64} (hform : branchAt bytes (skipPrefixes bytes offset) = some form)
    (hin : skipPrefixes bytes offset + form.opcode + form.disp ≤ bytes.length) (h : offset < bytes.length) :
    ∃ instr, instrAt bytes offset addr = some instr ∧
      offset + instr.length = skipPrefixes bytes offset + form.opcode + form.disp ∧
      instr.kind = branchKind (bytes.getD (skipPrefixes bytes offset) 0)
        (bytes.getD (skipPrefixes bytes offset + 1) 0) ∧
      ((instr.kind &&& 0x01 ≠ 0 ∨ instr.kind &&& 0x04 ≠ 0 ∨ instr.kind &&& 0x08 ≠ 0) →
        instr.ripRelTarget = relTarget bytes (skipPrefixes bytes offset) instr.next) := by
  obtain ⟨htwo, -, -, hmod, -⟩ := branchAt_spec hform
  have hop : skipPrefixes bytes offset < bytes.length := by omega
  have hlen : offset + getInstructionLength bytes offset = skipPrefixes bytes offset + form.opcode + form.disp := by
    rcases getInstructionLength_eq h with ⟨-, hlen⟩ | ⟨hend, -⟩
    · rw [hlen, opcodeLength_of_branch hform, Nat.add_assoc]
    · omega
  have hkind := inferKind_opcode h hop
  rw [if_neg fun hmem => hmod hmem.1] at hkind
  obtain ⟨instr, hinstr, -, hlen', hkind', htarget, -⟩ := @createInstr_spec bytes offset addr h
    (branchKind (bytes.getD (skipPrefixes bytes offset) 0) (bytes.getD (skipPrefixes bytes offset + 1) 0))
  refine ⟨instr, ?_, by rw [hlen', hlen], hkind', fun hbit => htarget (hkind' ▸ hbit) hop⟩
  rw [instrAt]
  rw [hkind]
  exact hinstr

/-- What the entry at an offset says of the branch there: its kind, its length, and its target, twice. -/
structure BranchAgrees (bytes : List Byte) (offset : Nat) (form : BranchForm) (instr : Ps5DisasmInstr) : Prop where
  kind : instr.hasKind form.kind = true
  length : instr.length = skipPrefixes bytes offset - offset + form.opcode + form.disp
  target : instr.ripRelTarget = DisasmFormatter.getJumpTarget instr (copyOfRange bytes offset instr.length)
  next : DisasmFormatter.getJumpTarget instr (copyOfRange bytes offset instr.length) =
    instr.next + Int64.ofInt (form.displacement bytes (skipPrefixes bytes offset))

/-- The formatter finds the target of a complete branch in the bytes of its line. -/
theorem getJumpTarget_of_branch (hform : branchAt bytes (skipPrefixes bytes offset) = some form)
    (hin : skipPrefixes bytes offset + form.opcode + form.disp ≤ bytes.length) {instr : Ps5DisasmInstr}
    (hle : offset ≤ skipPrefixes bytes offset)
    (hlen : offset + instr.length = skipPrefixes bytes offset + form.opcode + form.disp) :
    DisasmFormatter.getJumpTarget instr (copyOfRange bytes offset instr.length) =
      instr.next + Int64.ofInt (form.displacement bytes (skipPrefixes bytes offset)) := by
  obtain ⟨htwo, hdisp, -⟩ := branchAt_spec hform
  have hsize : (copyOfRange bytes offset instr.length).length = instr.length := length_copyOfRange (by omega)
  have hne : copyOfRange bytes offset instr.length ≠ [] := by
    rw [Ne, ← List.length_eq_zero_iff]
    omega
  have hform' := @branchAt_copyOfRange bytes offset instr.length _ hle (by omega)
  rw [hform] at hform'
  rw [DisasmFormatter.getJumpTarget, if_neg hne, DisasmFormatter.getOpcodeOffset,
    skipPrefixes_copyOfRange (by omega) (by omega), relTarget_of_branch hform' (by omega),
    displacement_copyOfRange hle (by omega) hdisp]

variable {baseAddr : Int64} {syncAddresses : Int64 → Bool}

/-- A string has no kind of a branch. -/
theorem not_agrees_data {addr : Int64} {n : Nat} (hform : branchAt bytes (skipPrefixes bytes offset) = some form) :
    ¬ BranchAgrees bytes offset form (.data addr n 0x100) := by
  obtain ⟨-, -, hkind, -⟩ := branchAt_spec hform
  have hnone : 0x100 &&& form.kind = 0 := by
    generalize form.kind = kind at hkind
    simp only [List.mem_cons, List.not_mem_nil, or_false] at hkind
    rcases hkind with rfl | rfl | rfl <;> rfl
  intro hagrees
  exact of_decide_eq_true hagrees.kind hnone

/-- The instruction for a complete branch says what the branch is, unless its opcode is `0F`. -/
theorem instrAt_agrees_iff {addr : Int64} {instr : Ps5DisasmInstr}
    (hform : branchAt bytes (skipPrefixes bytes offset) = some form)
    (hin : skipPrefixes bytes offset + form.opcode + form.disp ≤ bytes.length) (h : offset < bytes.length)
    (hinstr : instrAt bytes offset addr = some instr) :
    BranchAgrees bytes offset form instr ↔ bytes.getD (skipPrefixes bytes offset) 0 ≠ 0x0F := by
  obtain ⟨hle, -⟩ := skipPrefixes_spec (le_of_lt h)
  obtain ⟨-, -, hbits, -⟩ := branchAt_spec hform
  obtain ⟨hkind, hlong⟩ := branchKind_of_branch hform
  obtain ⟨instr', hinstr', hlen, hkind', htarget⟩ := @instrAt_of_branch bytes offset form addr hform hin h
  obtain rfl := Option.some.inj (hinstr.symm.trans hinstr')
  have hjump := getJumpTarget_of_branch hform hin hle hlen
  constructor
  · intro hagrees hop
    have hbit := hagrees.kind
    rw [Ps5DisasmInstr.hasKind, hkind', hlong hop, Nat.zero_and] at hbit
    cases hbit
  · intro hop
    have hbit := hkind hop
    rw [← hkind'] at hbit
    refine ⟨decide_eq_true hbit, by omega, ?_, hjump⟩
    rw [hjump, htarget, relTarget_of_branch hform hin]
    simp only [List.mem_cons, List.not_mem_nil, or_false] at hbits
    rcases hbits with heq | heq | heq
    · exact .inl (heq ▸ hbit)
    · exact .inr (.inl (heq ▸ hbit))
    · exact .inr (.inr (heq ▸ hbit))

/-- The entry at the offset of a complete branch. -/
theorem entryAt_agrees_iff {instr : Ps5DisasmInstr} (hform : branchAt bytes (skipPrefixes bytes offset) = some form)
    (hin : skipPrefixes bytes offset + form.opcode + form.disp ≤ bytes.length) (h : offset < bytes.length)
    (hentry : entryAt bytes baseAddr syncAddresses offset = some instr) :
    BranchAgrees bytes offset form instr ↔
      (syncAddresses (addrOf baseAddr offset) = true ∨ isPrintableString bytes offset = 0) ∧
        bytes.getD (skipPrefixes bytes offset) 0 ≠ 0x0F := by
  rw [entryAt, pieceAt] at hentry
  split_ifs at hentry with hsync hstring hzero
  · rw [instrAt_agrees_iff hform hin h hentry]
    exact ⟨fun hop => ⟨.inl hsync, hop⟩, fun hop => hop.2⟩
  · obtain rfl := Option.some.inj hentry
    exact iff_of_false (not_agrees_data hform) fun hno => hno.1.elim hsync (by omega)
  · -- no branch starts with a zero
    have hfirst : bytes[offset] = 0 := by
      rw [← hzero, List.getD_eq_getElem?_getD, List.getElem?_eq_getElem h, Option.getD_some]
    rw [skipPrefixes_stop h (by rw [hfirst]; decide)] at hform
    obtain ⟨-, -, -, -, hne⟩ := branchAt_spec hform
    exact absurd hzero hne
  · rw [instrAt_agrees_iff hform hin h hentry]
    exact ⟨fun hop => ⟨.inr (by omega), hop⟩, fun hop => hop.2⟩

/-! ## Entries of the sweep -/

/-- The entry for a complete direct branch agrees with it in kind, length and target if and only if it is no string
and the opcode is not `0F`. -/
theorem branch_entry_agrees_iff (bytes : ByteArr) (baseAddr : Int64) (syncAddresses : Int64 → Bool)
    (instrs : List Ps5DisasmInstr) (hrun : disassemble bytes baseAddr syncAddresses = some instrs)
    (instr : Ps5DisasmInstr) (hmem : instr ∈ instrs) (offset : Nat) (h : offset < bytes.val.length)
    (haddr : instr.addr = addrOf baseAddr offset) (form : BranchForm)
    (hform : branchAt bytes.val (skipPrefixes bytes.val offset) = some form)
    (hin : skipPrefixes bytes.val offset + form.opcode + form.disp ≤ bytes.val.length) :
    BranchAgrees bytes.val offset form instr ↔
      (syncAddresses (addrOf baseAddr offset) = true ∨ isPrintableString bytes.val offset = 0) ∧
        bytes.val.getD (skipPrefixes bytes.val offset) 0 ≠ 0x0F := by
  have hsize := bytes.property
  obtain ⟨off, hoff, hentry⟩ := (mem_disassembleFrom hrun instr).mp hmem
  have hlt := hoff.2
  obtain rfl : off = offset :=
    @addrOf_injective baseAddr _ _ (by omega) (by omega) ((next_of_entryAt hlt hentry).1.symm.trans haddr)
  exact entryAt_agrees_iff hform hin h hentry

/-- An array that is one instruction. -/
theorem disassemble_one (bytes : ByteArr) (h : 0 < bytes.val.length)
    (hpiece : pieceAt bytes.val baseAddr syncAddresses 0 = .instruction)
    (hlen : bytes.val.length = getInstructionLength bytes.val 0) (hno : ¬ Throws bytes.val 0) :
    ∃ instr, disassemble bytes baseAddr syncAddresses = some [instr] ∧ instr.addr = addrOf baseAddr 0 ∧
      entryAt bytes.val baseAddr syncAddresses 0 = some instr := by
  obtain ⟨instr, hentry, haddr, -⟩ := (entryAt_spec h).2 fun hthrow => hno hthrow.2
  refine ⟨instr, ?_, haddr, hentry⟩
  rw [disassemble, disassembleFrom, dif_pos h, hentry]
  dsimp only
  rw [disassembleFrom, pieceLength_of_instruction hpiece, dif_neg (by omega)]
  rfl

/-- A short jump. -/
theorem short_jump_agrees :
    ∃ instr, disassemble ⟨[0xEB, 0xFE], by decide⟩ 0x1000 (fun _ => true) = some [instr] ∧
      BranchAgrees [0xEB, 0xFE] 0 ⟨0x04, 1, 1⟩ instr := by
  have hskip : skipPrefixes [0xEB, 0xFE] 0 = 0 := skipPrefixes_stop (by decide) (by decide)
  have hlen : getInstructionLength [0xEB, 0xFE] 0 = 2 := by
    rw [getInstructionLength, hskip]
    decide
  obtain ⟨instr, hrun, haddr, -⟩ := @disassemble_one 0x1000 (fun _ => true) ⟨[0xEB, 0xFE], by decide⟩ (by decide) rfl
    hlen.symm (by rw [Throws, hskip]; decide)
  refine ⟨instr, hrun, (branch_entry_agrees_iff _ _ _ _ hrun instr (List.mem_singleton.mpr rfl) 0 (by decide) haddr _
    (by rw [hskip]; rfl) (by rw [hskip]; decide)).mpr ⟨.inl rfl, ?_⟩⟩
  rw [hskip]
  decide

/-- A long conditional jump has no kind and no target. -/
theorem long_conditional_disagrees :
    ¬ ∀ instrs, disassemble ⟨[0x0F, 0x84, 0x10, 0x00, 0x00, 0x00], by decide⟩ 0x1000 (fun _ => true) = some instrs →
      ∀ instr ∈ instrs, ∀ offset < 6, instr.addr = addrOf 0x1000 offset → ∀ form,
        branchAt [0x0F, 0x84, 0x10, 0x00, 0x00, 0x00]
          (skipPrefixes [0x0F, 0x84, 0x10, 0x00, 0x00, 0x00] offset) = some form →
        skipPrefixes [0x0F, 0x84, 0x10, 0x00, 0x00, 0x00] offset + form.opcode + form.disp ≤ 6 →
        BranchAgrees [0x0F, 0x84, 0x10, 0x00, 0x00, 0x00] offset form instr := by
  intro h
  have hskip : skipPrefixes [0x0F, 0x84, 0x10, 0x00, 0x00, 0x00] 0 = 0 :=
    skipPrefixes_stop (by decide) (by decide)
  have hlen : getInstructionLength [0x0F, 0x84, 0x10, 0x00, 0x00, 0x00] 0 = 6 := by
    rw [getInstructionLength, hskip]
    decide
  obtain ⟨instr, hrun, haddr, hentry⟩ := @disassemble_one 0x1000 (fun _ => true)
    ⟨[0x0F, 0x84, 0x10, 0x00, 0x00, 0x00], by decide⟩ (by decide) rfl hlen.symm (by rw [Throws, hskip]; decide)
  have hform : branchAt [0x0F, 0x84, 0x10, 0x00, 0x00, 0x00]
      (skipPrefixes [0x0F, 0x84, 0x10, 0x00, 0x00, 0x00] 0) = some ⟨0x08, 2, 4⟩ := by
    rw [hskip]
    rfl
  have hagrees := h _ hrun instr (List.mem_singleton.mpr rfl) 0 (by decide) haddr _ hform (by rw [hskip]; decide)
  refine ((entryAt_agrees_iff hform (by rw [hskip]; decide) (by decide) hentry).mp hagrees).2 ?_
  rw [hskip]
  rfl

end Entries

end LocalDisassembler

end Ps5Debugger
