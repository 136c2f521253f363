import Ps5Debugger.Disasm

/-!
# Cross references

`CMD_PROC_EXTRACT_CODE_XREFS` and `CMD_PROC_FIND_XREFS_TO` (`proc.c`) run `disasm_iterate` with
callbacks of their own. `disasm_emit_fn` has five parameters, the formatter before the context;
`xrefs_emit` and `xrefs_to_emit` have four, the context last. The fourth argument of the call is what
they take for their context: the formatter that `ZydisFormatterInit` has just set up.

Each command reads the region into a chunk of its own, so where the process cannot be read they need not see the same.
`xrefs_agree_iff` says when the two commands still agree with DISASM_REGION.
-/

namespace Ps5Debugger

open Lib

/-! ## The contexts -/

/-- `xrefs_ctx`, and `xrefs_to_ctx` without its target. -/
structure XrefsCtx where
  fd : Nat
  buf : Nat
  cap : Nat
  used : Nat
  deriving DecidableEq

/-- What a callback may change: the context and the formatter, both as a callback that takes them for
its context sees them; the server's memory, as the words at the addresses; what was sent where. -/
structure XrefsState where
  ctxs : DisasmArg → XrefsCtx
  words : Nat → Nat
  sent : List (Nat × List Nat)

/-- The server's address space: a process has no memory of its own above user space. -/
structure ServerSpace where
  mapped : Nat → Bool
  user : ∀ a, mapped a = true → a < 2 ^ 47

/-- The first 32 bytes of `FORMATTER_INTEL`: the style, seven flags and a byte of padding, the base,
signedness and paddings of addresses, the base of displacements. -/
def formatterIntel (pad : Byte) : List Byte :=
  [1, 0, 0, 0, 0, 0, 1, 0, 0, 0, 0, pad, 1, 0, 0, 0, 1, 0, 0, 0, 0xFF, 0xFF, 0xFF, 0xFF, 2, 0, 0, 0, 1, 0, 0, 0]

/-- The fields of `xrefs_ctx` by their offsets. -/
def XrefsCtx.ofBytes (b : List Byte) : XrefsCtx :=
  ⟨leNat 4 b, leNat 8 (b.drop 8), leNat 4 (b.drop 16), leNat 4 (b.drop 20)⟩

/-- The fields of `xrefs_to_ctx` by their offsets. -/
def XrefsCtx.ofBytesTo (b : List Byte) : XrefsCtx :=
  ⟨leNat 4 b, leNat 8 (b.drop 16), leNat 4 (b.drop 24), leNat 4 (b.drop 28)⟩

/-- `ctx->target` by its offset. -/
def xrefsTarget (b : List Byte) : Nat := leNat 8 (b.drop 8)

/-! ## The callbacks -/

/-- The words that a flush sends. -/
def XrefsState.pending (s : XrefsState) (a : DisasmArg) : List Nat :=
  (List.range (s.ctxs a).used).map fun i => s.words (u64 ((s.ctxs a).buf + 8 * i))

/-- `if (ctx->used + 1 > ctx->cap) { send; ctx->used = 0; }` -/
def XrefsState.flush (s : XrefsState) (a : DisasmArg) : XrefsState :=
  if u32 ((s.ctxs a).used + 1) > (s.ctxs a).cap then
    { s with
      ctxs := Function.update s.ctxs a { s.ctxs a with used := 0 }
      sent := s.sent ++ [((s.ctxs a).fd, s.pending a)] }
  else s

/-- `ctx->buf[ctx->used++] = value`; a store to memory that is not there kills the process. -/
def XrefsState.store (space : ServerSpace) (s : XrefsState) (a : DisasmArg) (value : Nat) : Option XrefsState :=
  let addr := u64 ((s.ctxs a).buf + 8 * (s.ctxs a).used)
  if space.mapped addr then
    some { s with
      ctxs := Function.update s.ctxs a { s.ctxs a with used := u32 ((s.ctxs a).used + 1) }
      words := Function.update s.words addr value }
  else none

/-- A callback of four parameters, by the registers of a call: the address, the instruction with its
operands, the context. -/
abbrev XrefsEmitFn (σ : Type) : Type := Nat → Insn → DisasmArg → σ → Option σ

/-- A call as a `disasm_emit_fn`: the fourth argument is the formatter, the fifth is not looked at. -/
def XrefsEmitFn.asEmitFn {σ : Type} (emit : XrefsEmitFn σ) : DisasmEmitFn σ := fun addr insn fourth _ s =>
  emit addr insn fourth s

/-- `xrefs_emit` -/
def xrefsEmit (space : ServerSpace) : XrefsEmitFn XrefsState := fun addr insn ctx_ s =>
  match ripOperand insn.operands with
  | none => some s
  | some mem => (s.flush ctx_).store space ctx_ (ripTarget addr insn mem)

/-- `xrefs_to_emit`; `target` is the field of what it takes for its context. -/
def xrefsToEmit (space : ServerSpace) (target : DisasmArg → Nat) : XrefsEmitFn XrefsState := fun addr insn ctx_ s =>
  match ripOperand insn.operands with
  | none => some s
  | some mem =>
    if ripTarget addr insn mem = target ctx_ then (s.flush ctx_).store space ctx_ addr else some s

/-! ## The handlers -/

/-- What the server runs in: its address space and what is in it, the padding byte of the formatter,
the client's descriptor, and the address of the buffer, if it can be allocated. -/
structure XrefsOs where
  space : ServerSpace
  words : Nat → Nat
  pad : Byte
  fd : Nat
  buf : Option Nat

/-- `0xFFFFFFFFFFFFFFFF` -/
def xrefsSentinel : Nat := 2 ^ 64 - 1

/-- The status words, and what was sent after them. -/
structure XrefsReply where
  replies : List UInt32
  sent : List (Nat × List Nat) := []

/-- What came over a descriptor. -/
def XrefsReply.stream (r : XrefsReply) (fd : Nat) : List Nat := (r.sent.filter (·.1 == fd)).flatMap (·.2)

/-- The end of both handlers: what the context still holds, and the sentinel. -/
def XrefsState.finish (s : XrefsState) (fd : Nat) : XrefsReply where
  replies := [CMD_SUCCESS]
  sent := s.sent ++ (if (s.ctxs .ctx).used > 0 then [(fd, s.pending .ctx)] else []) ++ [(fd, [xrefsSentinel])]

/-- The state when the loop starts; `formatter` is the formatter as the callback sees it. -/
def XrefsOs.init (os : XrefsOs) (buf : Nat) (formatter : XrefsCtx) : XrefsState where
  ctxs a := match a with
    | .ctx => ⟨os.fd, buf, 0x2000, 0⟩
    | .formatter => formatter
  words := os.words
  sent := []

/-- `max_instrs` -/
def DisasmPacket.maxInstrs (dp : DisasmPacket) : Nat :=
  if dp.max_entries ≠ 0 then dp.max_entries.toNat else 10000000

/-- `proc_extract_code_xrefs_handle`; nothing is returned when the process is killed. -/
def procExtractCodeXrefsHandle (z : Zydis) (io : ChunkIo) (data : Option DisasmPacket) (chunkAlloc : Bool)
    (os : XrefsOs) : Option XrefsReply :=
  match data, os.buf with
  | none, _ | some _, none => some { replies := [CMD_DATA_NULL] }
  | some dp, some buf =>
    (disasmIterate z (xrefsEmit os.space).asEmitFn dp.maxInstrs io chunkAlloc dp.address.toNat dp.length
      (os.init buf (XrefsCtx.ofBytes (formatterIntel os.pad)))).map (·.finish os.fd)

/-- The targets of the context and of what may be taken for it. -/
def XrefsOs.targets (os : XrefsOs) (target : Nat) : DisasmArg → Nat
  | .ctx => target
  | .formatter => xrefsTarget (formatterIntel os.pad)

/-- `cmd_proc_xrefs_to_packet` without the pid. -/
structure XrefsToPacket where
  scan_address : UInt64
  scan_length : UInt32
  target_address : UInt64

/-- `proc_find_xrefs_to_handle` -/
def procFindXrefsToHandle (z : Zydis) (io : ChunkIo) (data : Option XrefsToPacket) (chunkAlloc : Bool)
    (os : XrefsOs) : Option XrefsReply :=
  match data, os.buf with
  | none, _ | some _, none => some { replies := [CMD_DATA_NULL] }
  | some xp, some buf =>
    (disasmIterate z (xrefsToEmit os.space (os.targets xp.target_address.toNat)).asEmitFn 10000000 io chunkAlloc
      xp.scan_address.toNat xp.scan_length (os.init buf (XrefsCtx.ofBytesTo (formatterIntel os.pad)))).map
      (·.finish os.fd)

/-! ## What is promised -/

/-- The command runs to its end, and streams these words and the sentinel to the client. -/
def Streams (reply : Option XrefsReply) (fd : Nat) (words : List Nat) : Prop :=
  ∃ r, reply = some r ∧ r.stream fd = words ++ [xrefsSentinel]

/-- What EXTRACT_CODE_XREFS promises of the records of the region. -/
def extractedTargets (entries : List DisasmInstrEntry) : List Nat :=
  (entries.filter (·.ripRelative)).map (·.rip_rel_target)

/-- What FIND_XREFS_TO promises of them. -/
def xrefsTo (target : Nat) (entries : List DisasmInstrEntry) : List Nat :=
  (entries.filter fun e => e.ripRelative && e.rip_rel_target == target).map (·.addr)

/-! ## The stream of a run -/

/-- A run that leaves the context as it was sends nothing but what was sent before, and the sentinel. -/
theorem stream_finish (s : XrefsState) (fd : Nat) (hused : (s.ctxs .ctx).used = 0) :
    (s.finish fd).stream fd = (s.sent.filter (·.1 == fd)).flatMap (·.2) ++ [xrefsSentinel] := by
  rw [XrefsState.finish, XrefsReply.stream, hused, if_neg (by decide), List.append_nil, List.filter_append,
    List.flatMap_append, List.filter_cons, if_pos (beq_self_eq_true fd)]
  rfl

/-! ## EXTRACT_CODE_XREFS -/

/-- Where the formatter, taken for the context, has its buffer. -/
def formatterBuf (pad : Byte) : Nat := (XrefsCtx.ofBytes (formatterIntel pad)).buf

/-- The references are stored one after the other: the first at the place that `used` of the formatter gives,
`2^32 - 1` words behind the buffer, all others at its front. -/
def StoresLand (space : ServerSpace) (buf : Nat) (refs : List Nat) : Prop :=
  refs = [] ∨ space.mapped (u64 (buf + 8 * (2 ^ 32 - 1))) = true ∧
    (refs.length = 1 ∨ space.mapped (u64 (buf + 8 * 0)) = true)

/-- What comes over a descriptor: the formatter has 1 where the context has its descriptor, and room for one word. Each
reference from the second on is sent when the next one comes. -/
def misdirected (fd : Nat) (refs : List Nat) : List Nat := if fd = 1 then (refs.drop 1).dropLast else []

section Extract

variable {os : XrefsOs} {buf : Nat} {refs : List Nat} {s s' : XrefsState}

/-- The formatter as `xrefs_emit` sees it, but for the buffer. -/
theorem ofBytes_formatterIntel (pad : Byte) :
    XrefsCtx.ofBytes (formatterIntel pad) = ⟨1, formatterBuf pad, 1, 2 ^ 32 - 1⟩ := by
  have hfd : leNat 4 (formatterIntel pad) = 1 := by
    show leNat 4 [1, 0, 0, 0] = 1
    decide
  have hcap : leNat 4 ((formatterIntel pad).drop 16) = 1 := by
    show leNat 4 [1, 0, 0, 0] = 1
    decide
  have hused : leNat 4 ((formatterIntel pad).drop 20) = 2 ^ 32 - 1 := by
    show leNat 4 [0xFF, 0xFF, 0xFF, 0xFF] = 2 ^ 32 - 1
    decide
  rw [formatterBuf, XrefsCtx.ofBytes, hfd, hcap, hused]

/-- The state after these references. -/
structure Misdirected (os : XrefsOs) (refs : List Nat) (s : XrefsState) : Prop where
  ctx : (s.ctxs .ctx).used = 0
  formatter : s.ctxs .formatter =
    ⟨1, formatterBuf os.pad, 1, if refs = [] then 2 ^ 32 - 1 else if refs.length = 1 then 0 else 1⟩
  last : 2 ≤ refs.length → refs.getLast? = some (s.words (u64 (formatterBuf os.pad + 8 * 0)))
  sent : s.sent = (refs.drop 1).dropLast.map fun value => (1, [value])

theorem Misdirected.init (os : XrefsOs) (buf : Nat) :
    Misdirected os [] (os.init buf (XrefsCtx.ofBytes (formatterIntel os.pad))) :=
  ⟨rfl, ofBytes_formatterIntel os.pad, fun h => absurd h (by decide), rfl⟩

/-- What is done with one reference. -/
def misdirect (space : ServerSpace) (s : XrefsState) (value : Nat) : Option XrefsState :=
  (s.flush .formatter).store space .formatter value

/-- The formatter after a store. -/
def XrefsState.stored (s : XrefsState) (buf used place value : Nat) : XrefsState :=
  { s with
    ctxs := Function.update s.ctxs .formatter ⟨1, buf, 1, used⟩
    words := Function.update s.words place value }

theorem stored_ctx (buf used place value : Nat) : (s.stored buf used place value).ctxs .ctx = s.ctxs .ctx := by
  simp [XrefsState.stored]

theorem stored_formatter (buf used place value : Nat) :
    (s.stored buf used place value).ctxs .formatter = ⟨1, buf, 1, used⟩ := by
  simp [XrefsState.stored]

theorem stored_words (buf used place value : Nat) : (s.stored buf used place value).words place = value := by
  simp [XrefsState.stored]

/-- There is room for the reference. -/
theorem misdirect_room {space : ServerSpace} {buf used : Nat} (hfmt : s.ctxs .formatter = ⟨1, buf, 1, used⟩)
    (hroom : u32 (used + 1) ≤ 1) (value : Nat) :
    misdirect space s value =
      if space.mapped (u64 (buf + 8 * used)) = true then
        some (s.stored buf (u32 (used + 1)) (u64 (buf + 8 * used)) value)
      else none := by
  have hflush : s.flush .formatter = s := by
    rw [XrefsState.flush, hfmt]
    exact if_neg (Nat.not_lt.mpr hroom)
  rw [misdirect, hflush, XrefsState.store, hfmt]
  rfl

/-- The buffer is full, and is sent. -/
theorem misdirect_full {space : ServerSpace} {buf : Nat} (hfmt : s.ctxs .formatter = ⟨1, buf, 1, 1⟩) (value : Nat) :
    misdirect space s value =
      if space.mapped (u64 (buf + 8 * 0)) = true then
        some { s.stored buf 1 (u64 (buf + 8 * 0)) value with sent := s.sent ++ [(1, [s.words (u64 (buf + 8 * 0))])] }
      else none := by
  have hpending : s.pending .formatter = [s.words (u64 (buf + 8 * 0))] := by
    rw [XrefsState.pending, hfmt]
    rfl
  have hflush : s.flush .formatter = { s with
      ctxs := Function.update s.ctxs .formatter ⟨1, buf, 1, 0⟩
      sent := s.sent ++ [(1, [s.words (u64 (buf + 8 * 0))])] } := by
    rw [XrefsState.flush, hpending, hfmt]
    exact if_pos (by decide : u32 (1 + 1) > 1)
  rw [misdirect, hflush, XrefsState.store]
  simp only [Function.update_self, Function.update_idem]
  rfl

/-- Where the next reference goes. -/
def nextPlace (pad : Byte) (refs : List Nat) : Nat :=
  u64 (formatterBuf pad + 8 * if refs = [] then 2 ^ 32 - 1 else 0)

/-- One more reference. -/
theorem Misdirected.push (h : Misdirected os refs s) (value : Nat) :
    if os.space.mapped (nextPlace os.pad refs) = true then
      ∃ s', misdirect os.space s value = some s' ∧ Misdirected os (refs ++ [value]) s'
    else misdirect os.space s value = none := by
  obtain ⟨hctx, hfmt, hlast, hsent⟩ := h
  unfold nextPlace
  rcases refs with _ | ⟨first, refs⟩
  · -- its `used` wraps
    rw [if_pos rfl] at hfmt ⊢
    rw [misdirect_room hfmt (by decide)]
    split
    · exact ⟨_, rfl, (congrArg XrefsCtx.used (stored_ctx ..)).trans hctx, stored_formatter ..,
        fun hle => absurd hle (by simp), hsent⟩
    · rfl
  rw [if_neg (List.cons_ne_nil _ _)] at hfmt ⊢
  by_cases hone : refs = []
  · subst hone
    rw [if_pos List.length_singleton] at hfmt
    rw [misdirect_room hfmt (by decide)]
    split
    · exact ⟨_, rfl, (congrArg XrefsCtx.used (stored_ctx ..)).trans hctx, stored_formatter ..,
        fun _ => congrArg some (stored_words ..).symm, hsent⟩
    · rfl
  · -- the last reference is in the buffer, and is sent
    have hlen := List.length_pos_iff.mpr hone
    have hlast' := hlast (by rw [List.length_cons]; omega)
    rw [if_neg (by rw [List.length_cons]; omega)] at hfmt
    rw [misdirect_full hfmt]
    split
    · have hother := stored_ctx (s := s) (formatterBuf os.pad) 1 (u64 (formatterBuf os.pad + 8 * 0)) value
      have hself := stored_formatter (s := s) (formatterBuf os.pad) 1 (u64 (formatterBuf os.pad + 8 * 0)) value
      have hword := stored_words (s := s) (formatterBuf os.pad) 1 (u64 (formatterBuf os.pad + 8 * 0)) value
      have hmany : ¬ (first :: refs ++ [value]).length = 1 := by
        rw [List.length_append, List.length_cons]
        simp
      refine ⟨_, rfl, ⟨hother ▸ hctx, ?_, fun _ => ?_, ?_⟩⟩
      · rw [if_neg (List.concat_ne_nil _ _), if_neg hmany]
        exact hself
      · rw [List.getLast?_concat]
        dsimp only
        rw [hword]
      · obtain ⟨front, rfl⟩ : ∃ front, refs = front ++ [s.words (u64 (formatterBuf os.pad + 8 * 0))] := by
          rw [List.getLast?_cons_of_ne_nil hone] at hlast'
          exact ⟨refs.dropLast, (List.dropLast_append_getLast? _ hlast').symm⟩
        simp [hsent]
    · rfl

/-- **The run**: it ends, or is killed, by where the references are stored. -/
theorem misdirect_run (hs : Misdirected os [] s) (refs : List Nat) :
    (StoresLand os.space (formatterBuf os.pad) refs →
        ∃ s', refs.foldlM (misdirect os.space) s = some s' ∧ Misdirected os refs s') ∧
      (¬ StoresLand os.space (formatterBuf os.pad) refs → refs.foldlM (misdirect os.space) s = none) := by
  induction hn : refs.length generalizing refs with
  | zero =>
    obtain rfl := List.length_eq_zero_iff.mp hn
    exact ⟨fun _ => ⟨s, rfl, hs⟩, fun h => absurd (.inl rfl) h⟩
  | succ n ih =>
    obtain ⟨refs, value, rfl⟩ := List.eq_nil_or_concat' refs |>.resolve_left (by rintro rfl; cases hn)
    replace ih := ih refs (by simpa using hn)
    have hiff : StoresLand os.space (formatterBuf os.pad) (refs ++ [value]) ↔
        StoresLand os.space (formatterBuf os.pad) refs ∧ os.space.mapped (nextPlace os.pad refs) = true := by
      unfold StoresLand nextPlace
      cases refs with
      | nil => simp
      | cons first refs =>
        rw [if_neg (List.cons_ne_nil _ _)]
        simp only [List.append_eq_nil_iff, List.cons_ne_nil, false_and, false_or, List.length_append, List.length_cons,
          List.length_nil]
        constructor
        · rintro ⟨hfirst, hlen | hfront⟩
          · omega
          · exact ⟨⟨hfirst, .inr hfront⟩, hfront⟩
        · rintro ⟨⟨hfirst, -⟩, hfront⟩
          exact ⟨hfirst, .inr hfront⟩
    rw [hiff, List.foldlM_append]
    by_cases hland : StoresLand os.space (formatterBuf os.pad) refs
    · obtain ⟨s', hrun, hmis⟩ := ih.1 hland
      have hpush := hmis.push value
      rw [hrun, and_iff_right hland]
      simp only [List.foldlM_cons, List.foldlM_nil]
      split at hpush
      · rename_i hmapped
        obtain ⟨s'', hpush, hmis⟩ := hpush
        exact ⟨fun _ => ⟨s'', by simp [hpush], hmis⟩, fun h => absurd hmapped h⟩
      · rename_i hmapped
        exact ⟨fun h => absurd h hmapped, fun _ => by simp [hpush]⟩
    · rw [ih.2 hland]
      exact ⟨fun h => absurd h.1 hland, fun _ => rfl⟩

/-- What it leaves is what the client gets. -/
theorem Misdirected.stream (h : Misdirected os refs s) :
    (s.finish os.fd).stream os.fd = misdirected os.fd refs ++ [xrefsSentinel] := by
  rw [stream_finish s os.fd h.ctx, h.sent, List.filter_map, misdirected]
  congr 1
  by_cases hfd : os.fd = 1
  · have hall : ∀ value ∈ (refs.drop 1).dropLast,
        ((fun p : Nat × List Nat => p.1 == 1) ∘ fun value => (1, [value])) value = true := fun _ _ => rfl
    rw [if_pos hfd, hfd, List.filter_eq_self.mpr hall, List.flatMap_map]
    exact List.flatMap_singleton' _
  · have hne : ∀ value ∈ (refs.drop 1).dropLast,
        ¬ ((fun p : Nat × List Nat => p.1 == os.fd) ∘ fun value => (1, [value])) value = true :=
      fun value _ heq => hfd (beq_iff_eq.mp heq).symm
    rw [if_neg hfd, List.filter_eq_nil_iff.mpr hne]
    rfl

end Extract

/-- The references of a region are stored one after the other. -/
theorem emitRecords_xrefsEmit (z : Zydis) (space : ServerSpace) (rs : List (Nat × Insn)) (s : XrefsState) :
    emitRecords (xrefsEmit space).asEmitFn rs s =
      (extractedTargets (rs.map fun r => disasmFillEntry z r.1 r.2)).foldlM (misdirect space) s := by
  induction rs generalizing s with
  | nil => rfl
  | cons r rs ih =>
    have hfill := (disasmFillEntry_rip z r.1 r.2).2
    rw [emitRecords_cons, XrefsEmitFn.asEmitFn, xrefsEmit, List.map_cons, extractedTargets]
    cases hop : ripOperand r.2.operands with
    | none =>
      rw [hop] at hfill
      rw [List.filter_cons_of_neg (by rw [hfill]; decide)]
      exact ih s
    | some m =>
      rw [hop] at hfill
      rw [List.filter_cons_of_pos hfill.1, List.map_cons, List.foldlM_cons, hfill.2]
      exact congrArg _ (funext ih)

/-- EXTRACT_CODE_XREFS streams what it sends of its references over the client's descriptor, unless it is killed. -/
theorem extract_streams_iff (z : Zydis) (io : ChunkIo) (dp : DisasmPacket) (os : XrefsOs) {buf : Nat}
    (hbuf : os.buf = some buf) (targets : List Nat) :
    Streams (procExtractCodeXrefsHandle z io (some dp) true os) os.fd targets ↔
      StoresLand os.space (formatterBuf os.pad)
          (extractedTargets (disasmEntries z io dp.address.toNat dp.length dp.maxInstrs)) ∧
        misdirected os.fd (extractedTargets (disasmEntries z io dp.address.toNat dp.length dp.maxInstrs)) =
          targets := by
  have hrun : procExtractCodeXrefsHandle z io (some dp) true os =
      ((extractedTargets (disasmEntries z io dp.address.toNat dp.length dp.maxInstrs)).foldlM (misdirect os.space)
        (os.init buf (XrefsCtx.ofBytes (formatterIntel os.pad)))).map (·.finish os.fd) := by
    unfold procExtractCodeXrefsHandle
    rw [hbuf]
    dsimp only
    rw [disasmIterate_eq, emitRecords_xrefsEmit z]
    rfl
  obtain ⟨hends, hkilled⟩ := misdirect_run (Misdirected.init os buf)
    (extractedTargets (disasmEntries z io dp.address.toNat dp.length dp.maxInstrs))
  rw [hrun]
  by_cases hland : StoresLand os.space (formatterBuf os.pad)
      (extractedTargets (disasmEntries z io dp.address.toNat dp.length dp.maxInstrs))
  · obtain ⟨s', hs', hmis⟩ := hends hland
    rw [hs', and_iff_right hland]
    constructor
    · rintro ⟨r, hr, hstream⟩
      obtain rfl := Option.some.inj hr
      exact List.append_cancel_right (hmis.stream.symm.trans hstream)
    · rintro rfl
      exact ⟨_, rfl, hmis.stream⟩
  · rw [hkilled hland]
    refine iff_of_false ?_ fun h => hland h.1
    rintro ⟨r, hr, -⟩
    cases hr

/-- Of references none, or not all, are sent. -/
theorem misdirected_eq_self_iff {fd : Nat} {refs : List Nat} : misdirected fd refs = refs ↔ refs = [] := by
  constructor
  · intro h
    have hlen := congrArg List.length h
    unfold misdirected at hlen
    refine List.length_eq_zero_iff.mp ?_
    split at hlen
    · rw [List.length_dropLast, List.length_drop] at hlen
      omega
    · exact hlen.symm
  · rintro rfl
    unfold misdirected
    split <;> rfl

/-- Where both commands read the same, EXTRACT_CODE_XREFS keeps its promise only where there is nothing to extract. -/
theorem extract_streams_same_iff (z : Zydis) (io : ChunkIo) (dp : DisasmPacket) (os : XrefsOs) {buf : Nat}
    (hbuf : os.buf = some buf) :
    Streams (procExtractCodeXrefsHandle z io (some dp) true os) os.fd
        (extractedTargets (disasmEntries z io dp.address.toNat dp.length dp.maxInstrs)) ↔
      ∀ e ∈ disasmEntries z io dp.address.toNat dp.length dp.maxInstrs, e.ripRelative = false := by
  rw [extract_streams_iff z io dp os hbuf, misdirected_eq_self_iff, extractedTargets, List.map_eq_nil_iff,
    List.filter_eq_nil_iff]
  simp only [Bool.not_eq_true]
  refine and_iff_right_of_imp fun hnone => .inl ?_
  rw [List.filter_eq_nil_iff.mpr fun e he => Bool.eq_false_iff.mp (hnone e he)]
  rfl

/-! ## FIND_XREFS_TO -/

section Find

variable {target : DisasmArg → Nat} {os : XrefsOs} {buf : Nat}

/-- The formatter as `xrefs_to_emit` sees it: a buffer in the kernel's half, with room. -/
theorem ofBytesTo_formatterIntel (pad : Byte) :
    XrefsCtx.ofBytesTo (formatterIntel pad) = ⟨1, 0xFFFFFFFF00000001, 2, 1⟩ := by
  show XrefsCtx.mk (leNat 4 [1, 0, 0, 0]) (leNat 8 [1, 0, 0, 0, 0xFF, 0xFF, 0xFF, 0xFF, 2, 0, 0, 0, 1, 0, 0, 0])
    (leNat 4 [2, 0, 0, 0, 1, 0, 0, 0]) (leNat 4 [1, 0, 0, 0]) = _
  decide

/-- The first hit on what the callback takes for its target kills the process. -/
theorem store_formatterTo (value : Nat) :
    ((os.init buf (XrefsCtx.ofBytesTo (formatterIntel os.pad))).flush .formatter).store os.space .formatter value =
      none := by
  have hctx : (os.init buf (XrefsCtx.ofBytesTo (formatterIntel os.pad))).ctxs .formatter =
      ⟨1, 0xFFFFFFFF00000001, 2, 1⟩ := ofBytesTo_formatterIntel os.pad
  have hunmapped : os.space.mapped (u64 (0xFFFFFFFF00000001 + 8 * 1)) = false := by
    rw [Bool.eq_false_iff]
    exact fun h => absurd (os.space.user _ h) (by decide)
  rw [XrefsState.flush, hctx, if_neg (by decide), XrefsState.store, hctx]
  dsimp only
  rw [hunmapped, if_neg (by decide)]

/-- **The run**: the callback does nothing until it meets the formatter's target, and that is the end. -/
theorem emitRecords_xrefsToEmit (rs : List (Nat × Insn)) (s' : XrefsState) :
    emitRecords (xrefsToEmit os.space target).asEmitFn rs (os.init buf (XrefsCtx.ofBytesTo (formatterIntel os.pad))) =
        some s' ↔
      s' = os.init buf (XrefsCtx.ofBytesTo (formatterIntel os.pad)) ∧
        ∀ r ∈ rs, ∀ m ∈ ripOperand r.2.operands, ripTarget r.1 r.2 m ≠ target .formatter := by
  induction rs with
  | nil =>
    constructor
    · intro h
      exact ⟨(Option.some.inj h).symm, nofun⟩
    · rintro ⟨rfl, -⟩
      rfl
  | cons r rs ih =>
    rw [emitRecords_cons, XrefsEmitFn.asEmitFn, xrefsToEmit, List.forall_mem_cons]
    cases hop : ripOperand r.2.operands with
    | none =>
      dsimp only
      rw [Option.bind_some, ih]
      exact and_congr_right fun _ => (and_iff_right nofun).symm
    | some m =>
      dsimp only
      by_cases hhit : ripTarget r.1 r.2 m = target .formatter
      · rw [if_pos hhit, store_formatterTo]
        exact iff_of_false nofun fun h => h.2.1 m rfl hhit
      · rw [if_neg hhit, Option.bind_some, ih]
        refine and_congr_right fun _ => (and_iff_right fun m' hm' => ?_).symm
        obtain rfl := Option.some.inj hm'
        exact hhit

end Find

/-- The records say of every instruction where it points. -/
theorem misses_target_iff (z : Zydis) (io : ChunkIo) (xp : XrefsToPacket) (value : Nat) :
    (∀ r ∈ disasmRecords z io xp.scan_address.toNat xp.scan_length 10000000,
      ∀ m ∈ ripOperand r.2.operands, ripTarget r.1 r.2 m ≠ value) ↔
      ∀ e ∈ disasmEntries z io xp.scan_address.toNat xp.scan_length 10000000, e.ripRelative = true →
        e.rip_rel_target ≠ value := by
  rw [disasmEntries, List.forall_mem_map]
  refine forall₂_congr fun r _ => ?_
  have hfill := (disasmFillEntry_rip z r.1 r.2).2
  cases hop : ripOperand r.2.operands with
  | none =>
    rw [hop] at hfill
    exact iff_of_true nofun fun h => absurd (hfill.symm.trans h) (by decide)
  | some m =>
    rw [hop] at hfill
    rw [hfill.2, forall_prop_of_true hfill.1]
    exact ⟨fun h => h m rfl, fun h m' hm' => Option.some.inj hm' ▸ h⟩

theorem xrefsTo_eq_nil_iff {target : Nat} {entries : List DisasmInstrEntry} :
    xrefsTo target entries = [] ↔ ∀ e ∈ entries, e.ripRelative = true → e.rip_rel_target ≠ target := by
  rw [xrefsTo, List.map_eq_nil_iff, List.filter_eq_nil_iff]
  refine forall₂_congr fun e _ => ?_
  rw [Bool.and_eq_true, beq_iff_eq, not_and]

/-- The handler runs its callback over the records, with the formatter for a context. -/
theorem procFindXrefsToHandle_eq (z : Zydis) (io : ChunkIo) (xp : XrefsToPacket) (os : XrefsOs) {buf : Nat}
    (hbuf : os.buf = some buf) :
    procFindXrefsToHandle z io (some xp) true os =
      (emitRecords (xrefsToEmit os.space (os.targets xp.target_address.toNat)).asEmitFn
        (disasmRecords z io xp.scan_address.toNat xp.scan_length 10000000)
        (os.init buf (XrefsCtx.ofBytesTo (formatterIntel os.pad)))).map (·.finish os.fd) := by
  unfold procFindXrefsToHandle
  rw [hbuf]
  dsimp only
  rw [disasmIterate_eq]

/-- FIND_XREFS_TO streams no address, unless it is killed by a record that points where the formatter happens to. -/
theorem find_streams_iff (z : Zydis) (io : ChunkIo) (xp : XrefsToPacket) (os : XrefsOs) {buf : Nat}
    (hbuf : os.buf = some buf) (addrs : List Nat) :
    Streams (procFindXrefsToHandle z io (some xp) true os) os.fd addrs ↔
      addrs = [] ∧ ∀ e ∈ disasmEntries z io xp.scan_address.toNat xp.scan_length 10000000, e.ripRelative = true →
        e.rip_rel_target ≠ xrefsTarget (formatterIntel os.pad) := by
  have hfake := misses_target_iff z io xp (xrefsTarget (formatterIntel os.pad))
  have hstream : ((os.init buf (XrefsCtx.ofBytesTo (formatterIntel os.pad))).finish os.fd).stream os.fd =
      [xrefsSentinel] := stream_finish _ _ rfl
  rw [procFindXrefsToHandle_eq z io xp os hbuf]
  constructor
  · rintro ⟨reply, hreply, hwords⟩
    obtain ⟨s, hs, rfl⟩ := Option.map_eq_some_iff.mp hreply
    obtain ⟨rfl, hmiss⟩ := (emitRecords_xrefsToEmit _ s).mp hs
    rw [hstream] at hwords
    exact ⟨List.append_left_eq_self.mp hwords.symm, hfake.mp hmiss⟩
  · rintro ⟨rfl, h⟩
    have hs : emitRecords (xrefsToEmit os.space (os.targets xp.target_address.toNat)).asEmitFn
        (disasmRecords z io xp.scan_address.toNat xp.scan_length 10000000)
        (os.init buf (XrefsCtx.ofBytesTo (formatterIntel os.pad))) =
          some (os.init buf (XrefsCtx.ofBytesTo (formatterIntel os.pad))) :=
      (emitRecords_xrefsToEmit _ _).mpr ⟨rfl, hfake.mpr h⟩
    rw [hs]
    exact ⟨_, rfl, hstream⟩

/-- **The cross-reference commands and the disassembly.** For every decoder, region and server, and whatever each of the
three commands reads of the process: EXTRACT_CODE_XREFS streams the targets of the disassembly's RIP-relative records
exactly if it is not killed by its stores, and they are what it sends of the references in its own chunk; FIND_XREFS_TO
the addresses of those that point to the target exactly if there are none, and no record of its own chunk points where
the formatter's bytes say. -/
theorem xrefs_agree_iff (z : Zydis) (region own : ChunkIo) (dp : DisasmPacket) (xp : XrefsToPacket) (os : XrefsOs)
    {buf : Nat} (hbuf : os.buf = some buf) :
    (Streams (procExtractCodeXrefsHandle z own (some dp) true os) os.fd
        (extractedTargets (disasmEntries z region dp.address.toNat dp.length dp.maxInstrs)) ↔
      let refs := extractedTargets (disasmEntries z own dp.address.toNat dp.length dp.maxInstrs)
      StoresLand os.space (formatterBuf os.pad) refs ∧ misdirected os.fd refs =
        extractedTargets (disasmEntries z region dp.address.toNat dp.length dp.maxInstrs)) ∧
    (Streams (procFindXrefsToHandle z own (some xp) true os) os.fd (xrefsTo xp.target_address.toNat
        (disasmEntries z region xp.scan_address.toNat xp.scan_length 10000000)) ↔
      (∀ e ∈ disasmEntries z region xp.scan_address.toNat xp.scan_length 10000000, e.ripRelative = true →
        e.rip_rel_target ≠ xp.target_address.toNat) ∧
      ∀ e ∈ disasmEntries z own xp.scan_address.toNat xp.scan_length 10000000, e.ripRelative = true →
        e.rip_rel_target ≠ xrefsTarget (formatterIntel os.pad)) := by
  refine ⟨extract_streams_iff z own dp os hbuf _, ?_⟩
  rw [find_streams_iff z own xp os hbuf, xrefsTo_eq_nil_iff]

/-- `lea rax, [rip]` -/
def leaRip : Insn := ⟨7, by decide, by decide, 0, .other, [.other, .memory ⟨197, 0, 0, true, 0, false, false⟩]⟩

/-- A decoder that knows nothing else. -/
def leaDecoder : Zydis := ⟨fun b => if b.length = 7 then some leaRip else none, fun _ _ => []⟩

/-- A server all of whose user space is mapped. -/
def mappedOs : XrefsOs := ⟨⟨fun a => decide (a < 2 ^ 47), by simp⟩, fun _ => 0, 0, 5, some 0x200000⟩

/-- A process that is all zeros, and a chunk that was. -/
def zeroIo : ChunkIo := .ofMemory (fun _ => 0) fun _ => 0

/-- A process that cannot be read, and a chunk that was cleared. -/
def unreadIo : ChunkIo := ⟨fun _ _ buf => buf, fun _ => 0⟩

/-- Both commands on a region that does not decode. -/
theorem xrefs_agree_on_data :
    (Streams (procExtractCodeXrefsHandle leaDecoder unreadIo (some ⟨0x400000, 3, 0⟩) true mappedOs) 5
        (extractedTargets (disasmEntries leaDecoder zeroIo 0x400000 3 10000000)) ↔
      let refs := extractedTargets (disasmEntries leaDecoder unreadIo 0x400000 3 10000000)
      StoresLand mappedOs.space (formatterBuf 0) refs ∧ misdirected 5 refs =
        extractedTargets (disasmEntries leaDecoder zeroIo 0x400000 3 10000000)) ∧
    (Streams (procFindXrefsToHandle leaDecoder unreadIo (some ⟨0x400000, 3, 0x400007⟩) true mappedOs) 5
        (xrefsTo 0x400007 (disasmEntries leaDecoder zeroIo 0x400000 3 10000000)) ↔
      (∀ e ∈ disasmEntries leaDecoder zeroIo 0x400000 3 10000000, e.ripRelative = true →
        e.rip_rel_target ≠ 0x400007) ∧
      ∀ e ∈ disasmEntries leaDecoder unreadIo 0x400000 3 10000000, e.ripRelative = true →
        e.rip_rel_target ≠ xrefsTarget (formatterIntel 0)) :=
  xrefs_agree_iff leaDecoder zeroIo unreadIo ⟨0x400000, 3, 0⟩ ⟨0x400000, 3, 0x400007⟩ mappedOs rfl

/-- A region that is one such instruction. -/
theorem disasmRecords_lea : disasmRecords leaDecoder zeroIo 0x400000 7 10000000 = [(0x400000, leaRip)] := by
  have hread : ¬ (7 : Nat) - 0 > DISASM_READ_CHUNK := by decide
  have hchunk : (slice (zeroIo.read (u64 (0x400000 + 0)) (7 - 0) zeroIo.chunk) 0 (7 - 0)).length = 7 := length_slice ..
  have hdecode : leaDecoder.decode ((slice (zeroIo.read (u64 (0x400000 + 0)) (7 - 0) zeroIo.chunk) 0 (7 - 0)).drop 0) =
      some leaRip := by decide
  rw [disasmRecords, disasmIterate, if_pos rfl, show (7 : UInt32).toNat = 7 from rfl, disasmLoop,
    if_pos (by decide)]
  dsimp only
  rw [if_neg hread, disasmChunk, hchunk, if_pos (by decide), hdecode]
  dsimp only [recordEmit]
  rw [if_neg (by decide), disasmChunk, hchunk, if_neg (by decide)]
  dsimp only
  rw [disasmLoop, if_neg (by decide)]
  rfl

/-- The target of that instruction is not streamed. -/
theorem extract_streams_nothing :
    ¬ Streams (procExtractCodeXrefsHandle leaDecoder zeroIo (some ⟨0x400000, 7, 0⟩) true mappedOs) 5
      (extractedTargets (disasmEntries leaDecoder zeroIo 0x400000 7 10000000)) := by
  have hiff := extract_streams_same_iff leaDecoder zeroIo ⟨0x400000, 7, 0⟩ mappedOs rfl
  intro h
  have hentry := hiff.mp h (disasmFillEntry leaDecoder 0x400000 leaRip) (by
    show _ ∈ disasmEntries leaDecoder zeroIo 0x400000 7 10000000
    rw [disasmEntries, disasmRecords_lea]
    exact List.mem_singleton_self _)
  exact absurd hentry (by decide)

end Ps5Debugger
