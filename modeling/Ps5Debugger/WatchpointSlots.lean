import Ps5Debugger.DebugLedger
import Ps5Debugger.Lib.Fields
import Mathlib.Data.List.TakeWhile

/-!
# Watchpoints, slot by slot

What `debug_set_watchpoint_handle` promises: the debug-register block of a session is what one
gets from the last packet of each slot, decoded on its own. The address registers are separate
words; `dr7` is one word made of fields (`Lib.Assembled`), and the handler shifts a length and a
break type into it that nobody has bounded. It also changes the block before it loads it into the
threads, and a thread that refuses ends the command with the block changed.

`watchpoint_slots_iff` is the exact account: over any sequence of packets, every reply keeps the
promise if and only if every packet fits its slot, or repeats what the registers hold where a
thread refuses.
-/

namespace Ps5Debugger

open Lib

/-! ## What a packet asks for -/

/-- The address a packet wants in its register. -/
def WatchptPacket.addr (wp : WatchptPacket) : UInt64 := if wp.enabled ≠ 0 then wp.address else 0

/-- The bits the handler sets in `dr7` for register `i`. -/
def WatchptPacket.bits (i : Fin 4) (wp : WatchptPacket) : UInt64 :=
  if wp.enabled ≠ 0 then dr7Low i ||| dr7High i wp else 0

/-- The two bits of the length and the two of the break type, at their place in `dr7`. -/
def dr7Type (i : Fin 4) (length breaktype : UInt32) : UInt64 :=
  (((length &&& 3).toUInt64 <<< 2) ||| (breaktype &&& 3).toUInt64) <<< (4 * i.val.toUInt64 + 16)

/-- What register `i` should read in `dr7`: both enable bits, the type and the length, or nothing. -/
def WatchptPacket.field (i : Fin 4) (wp : WatchptPacket) : UInt64 :=
  if wp.enabled ≠ 0 then dr7Low i ||| dr7Type i wp.length wp.breaktype else 0

/-- The block decoded from the last packet of each slot, over what it was before the session's
first packet. -/
def DrBlock.decoded (init : DrBlock) (last : Fin 4 → Option WatchptPacket) : DrBlock :=
  { drAddr := fun i => ((last i).map WatchptPacket.addr).getD (init.drAddr i)
    dr7 := assemble dr7Mask init.dr7 (fun i => (last i).map (·.field i)) (List.finRange 4) }

theorem setWatchpoint_eq (dr : DrBlock) (i : Fin 4) (wp : WatchptPacket) : dr.setWatchpoint i wp =
    ⟨Function.update dr.drAddr i wp.addr, setField dr.dr7 (dr7Mask i) (wp.bits i)⟩ := by
  rw [DrBlock.setWatchpoint, WatchptPacket.addr, WatchptPacket.bits, setField]
  by_cases hen : wp.enabled ≠ 0
  · simp only [if_pos hen]
  · simp only [if_neg hen, UInt64.or_zero]

/-! ## The fields of `dr7` -/

theorem dr7Mask_disjoint : ∀ i j : Fin 4, i ≠ j → dr7Mask i &&& dr7Mask j = 0 := by decide

theorem uint32_and_three (x : UInt32) : ∃ l : Fin 4, x &&& 3 = l.val.toUInt32 :=
  uint32_lt_four (UInt32.lt_of_le_of_lt UInt32.and_le_right (by decide))

theorem uint32_and_fifteen (x : UInt32) : ∃ b : Fin 16, x &&& 0xF = b.val.toUInt32 := by
  have hlt : (x &&& 0xF).toNat < 16 := by
    rw [UInt32.toNat_and]
    exact Nat.lt_of_le_of_lt Nat.and_le_right (by decide)
  exact ⟨⟨_, hlt⟩, by simp⟩

theorem field_within (i : Fin 4) (wp : WatchptPacket) : wp.field i &&& ~~~dr7Mask i = 0 := by
  have all : ∀ (i l b : Fin 4), (dr7Low i ||| ((l.val.toUInt32.toUInt64 <<< 2) |||
      b.val.toUInt32.toUInt64) <<< (4 * i.val.toUInt64 + 16)) &&& ~~~dr7Mask i = 0 := by decide
  rw [WatchptPacket.field]
  by_cases hen : wp.enabled ≠ 0
  · obtain ⟨l, hl⟩ := uint32_and_three wp.length
    obtain ⟨b, hb⟩ := uint32_and_three wp.breaktype
    rw [if_pos hen, dr7Type, hl, hb]
    exact all i l b
  · rw [if_neg hen, UInt64.zero_and]

/-- What a packet puts into the four bits of its slot: the length and the break type, the upper
bits of the latter over the length. -/
theorem dr7High_and_mask (i : Fin 4) (wp : WatchptPacket) : dr7High i wp &&& dr7Mask i =
    (((wp.length &&& 3).toUInt64 <<< 2) ||| (wp.breaktype &&& 0xF).toUInt64) <<<
      (4 * i.val.toUInt64 + 16) := by
  have hmask : ∀ i : Fin 4, ((-1) <<< (4 * i.val.toUInt64 + 16)) &&& dr7Mask i =
      0xF <<< (4 * i.val.toUInt64 + 16) := by decide
  have hlen : (wp.length.toUInt64 <<< 2) &&& (0xF : UInt64) = (wp.length &&& 3).toUInt64 <<< 2 := by
    rw [shiftLeft_and_mask, UInt32.toUInt64_and, UInt64.shiftLeft_and]
    rfl
  rw [dr7High, shiftLeft_and_mask, hmask, ← UInt64.shiftLeft_and, or_and_distrib, hlen,
    UInt32.toUInt64_and]
  rfl

/-- Bits 2 and 3 of the break type fall on the length. -/
def WatchptPacket.typeFits (wp : WatchptPacket) : Prop :=
  ((wp.breaktype &&& 0xF) >>> 2) &&& ~~~(wp.length &&& 3) = 0

/-- What a packet sets outside its slot. -/
def WatchptPacket.stray (i : Fin 4) (wp : WatchptPacket) : UInt64 := wp.bits i &&& ~~~dr7Mask i

/-- A packet fits: if it enables, its break type does not reach into the length, and what it sets
outside its slot is set already. -/
def WatchptPacket.fits (dr7 : UInt64) (i : Fin 4) (wp : WatchptPacket) : Prop :=
  (wp.enabled ≠ 0 → wp.typeFits) ∧ wp.stray i &&& ~~~dr7 = 0

/-- The slot reads right exactly when the break type stays out of the length. -/
theorem bits_and_mask_iff (i : Fin 4) (wp : WatchptPacket) :
    wp.bits i &&& dr7Mask i = wp.field i ↔ (wp.enabled ≠ 0 → wp.typeFits) := by
  have all : ∀ (i l : Fin 4) (b : Fin 16),
      (dr7Low i &&& dr7Mask i) ||| (((l.val.toUInt32.toUInt64 <<< 2) ||| b.val.toUInt32.toUInt64) <<<
        (4 * i.val.toUInt64 + 16)) = dr7Low i ||| ((l.val.toUInt32.toUInt64 <<< 2) |||
        (b.val.toUInt32 &&& 3).toUInt64) <<< (4 * i.val.toUInt64 + 16) ↔
      (b.val.toUInt32 >>> 2) &&& ~~~l.val.toUInt32 = 0 := by decide
  by_cases hen : wp.enabled ≠ 0
  · obtain ⟨l, hl⟩ := uint32_and_three wp.length
    obtain ⟨b, hb⟩ := uint32_and_fifteen wp.breaktype
    have hb3 : wp.breaktype &&& 3 = b.val.toUInt32 &&& 3 := by
      rw [← hb, UInt32.and_assoc]
      rfl
    rw [WatchptPacket.bits, WatchptPacket.field, if_pos hen, if_pos hen, or_and_distrib, dr7High_and_mask,
      dr7Type, hb3, WatchptPacket.typeFits, hl, hb, all i l b]
    exact ⟨fun h _ => h, fun h => h hen⟩
  · rw [WatchptPacket.bits, WatchptPacket.field, if_neg hen, if_neg hen, UInt64.zero_and]
    exact ⟨fun _ h => absurd h hen, fun _ => rfl⟩

/-! ## Decoding -/

variable {init : DrBlock} {last : Fin 4 → Option WatchptPacket}

theorem decoded_assembled (init : DrBlock) (last : Fin 4 → Option WatchptPacket) :
    Assembled dr7Mask init.dr7 (fun i => (last i).map (·.field i)) (init.decoded last).dr7 := by
  refine assembled_assemble dr7Mask_disjoint (fun i f hf => ?_) List.mem_finRange
  obtain ⟨wp, _, rfl⟩ := Option.map_eq_some_iff.mp hf
  exact field_within i wp

/-- One more packet, decoded: its register and its field are replaced. -/
theorem decoded_update (init : DrBlock) (last : Fin 4 → Option WatchptPacket) (i : Fin 4)
    (wp : WatchptPacket) : init.decoded (Function.update last i (some wp)) =
      ⟨Function.update (init.decoded last).drAddr i wp.addr,
        setField (init.decoded last).dr7 (dr7Mask i) (wp.field i)⟩ := by
  have haddr : (init.decoded (Function.update last i (some wp))).drAddr =
      Function.update (init.decoded last).drAddr i wp.addr := by
    funext j
    by_cases hj : j = i
    · subst hj
      simp [DrBlock.decoded]
    · simp [DrBlock.decoded, hj]
  have hvals : (fun j => (Function.update last i (some wp) j).map (WatchptPacket.field j)) =
      Function.update (fun j => (last j).map (WatchptPacket.field j)) i (some (wp.field i)) := by
    funext j
    by_cases hj : j = i
    · subst hj
      simp
    · simp [hj]
  have hdr7 := (decoded_assembled init last).set dr7Mask_disjoint (field_within i wp)
  rw [← hvals] at hdr7
  have heq := (decoded_assembled init (Function.update last i (some wp))).unique hdr7
  rw [← haddr, ← heq]

/-- **One packet does what its decoding says exactly when it fits.** -/
theorem setWatchpoint_decoded_iff (i : Fin 4) (wp : WatchptPacket) :
    (init.decoded last).setWatchpoint i wp = init.decoded (Function.update last i (some wp)) ↔
      wp.fits (init.decoded last).dr7 i := by
  rw [setWatchpoint_eq, decoded_update, DrBlock.mk.injEq, setField_eq_iff (field_within i wp),
    bits_and_mask_iff]
  exact and_iff_right rfl

/-! ## Sequences of packets -/

/-- A SET_WATCHPOINT packet whose index is in range, with what the system answers it. -/
structure WatchCmd where
  wp : WatchptPacket
  os : WatchptOs
  inRange : wp.index.toNat < 4

def WatchCmd.slot (x : WatchCmd) : Fin 4 := ⟨x.wp.index.toNat, x.inRange⟩

def WatchCmd.outcome (x : WatchCmd) (s : ServerState) : Outcome :=
  debugSetWatchpointHandle s (some x.wp) x.os

/-- The packet replies success. -/
def WatchCmd.succeeds (x : WatchCmd) (s : ServerState) : Prop := (x.outcome s).replies = [CMD_SUCCESS]

instance WatchCmd.decidableSucceeds (x : WatchCmd) (s : ServerState) : Decidable (x.succeeds s) :=
  inferInstanceAs (Decidable ((x.outcome s).replies = [CMD_SUCCESS]))

/-- The server and, for each slot, its last packet. -/
abbrev WatchState : Type := ServerState × (Fin 4 → Option WatchptPacket)

/-- A packet that replies success is its slot's last one. -/
def watchStep (st : WatchState) (x : WatchCmd) : WatchState :=
  ((x.outcome st.1).server,
    if x.succeeds st.1 then Function.update st.2 x.slot (some x.wp) else st.2)

/-- The debug registers context `c` keeps. -/
def ServerState.block (s : ServerState) (c : ClientId) : DrBlock := (s.clients c).dbgctx.dr

/-- What a reply promises. Success: the block is the one decoded slot by slot, and it was loaded
into every thread. An error: the block is as it was. -/
structure WatchCmd.Keeps (c : ClientId) (init : DrBlock) (st : WatchState) (x : WatchCmd) : Prop where
  decoded : x.succeeds st.1 →
    (x.outcome st.1).server.block c = init.decoded (Function.update st.2 x.slot (some x.wp))
  loaded : x.succeeds st.1 → ∃ lwps, x.os.lwps = some lwps ∧ (x.outcome st.1).effects = lwps.map fun l =>
    .loadDbregs (st.1.clients c).dbgctx.pid l.1 ((x.outcome st.1).server.block c)
  unchanged : ¬ x.succeeds st.1 → (x.outcome st.1).server.block c = st.1.block c

/-- The registers hold already what the packet asks for. -/
def WatchptPacket.repeats (dr : DrBlock) (i : Fin 4) (wp : WatchptPacket) : Prop :=
  dr.drAddr i = wp.addr ∧ wp.bits i &&& dr7Mask i = dr.dr7 &&& dr7Mask i ∧
    wp.stray i &&& ~~~dr.dr7 = 0

/-- **The condition of a step.** A packet that every thread takes fits its slot; a packet that some
thread refuses asks for nothing new. One that does not reach the threads is free. -/
def WatchCmd.safe (c : ClientId) (st : WatchState) (x : WatchCmd) : Prop :=
  x.os.elev = true → ∀ lwps ∈ x.os.lwps,
    if lwps.all (·.2) then x.wp.fits (st.1.block c).dr7 x.slot else x.wp.repeats (st.1.block c) x.slot

instance WatchptPacket.decidableTypeFits (wp : WatchptPacket) : Decidable wp.typeFits :=
  inferInstanceAs (Decidable (_ = _))

instance WatchptPacket.decidableFits (dr7 : UInt64) (i : Fin 4) (wp : WatchptPacket) :
    Decidable (wp.fits dr7 i) :=
  inferInstanceAs (Decidable (_ ∧ _))

instance WatchptPacket.decidableRepeats (dr : DrBlock) (i : Fin 4) (wp : WatchptPacket) :
    Decidable (wp.repeats dr i) :=
  inferInstanceAs (Decidable (_ ∧ _))

instance WatchCmd.decidableSafe (c : ClientId) (st : WatchState) (x : WatchCmd) : Decidable (x.safe c st) :=
  inferInstanceAs (Decidable (_ → ∀ lwps ∈ x.os.lwps, if lwps.all (·.2) then _ else _))

theorem setWatchpoint_self_iff (dr : DrBlock) (i : Fin 4) (wp : WatchptPacket) :
    dr.setWatchpoint i wp = dr ↔ wp.repeats dr i := by
  obtain ⟨a, d⟩ := dr
  rw [setWatchpoint_eq, DrBlock.mk.injEq, setField_self_iff, Function.update_eq_self_iff]
  exact and_congr_left fun _ => eq_comm

section Step

variable {s : ServerState} {c : ClientId} {init : DrBlock} {st : WatchState} {x : WatchCmd}

/-- A packet that does not reach the threads keeps the promise: it replies an error. -/
theorem WatchCmd.keeps_refused (h : (x.outcome st.1).Refused st.1) : x.Keeps c init st := by
  have hno : ¬ x.succeeds st.1 := h.replies
  exact ⟨fun hy => absurd hy hno, fun hy => absurd hy hno, fun _ => by rw [h.server]⟩

/-- A packet that reaches the threads. -/
theorem WatchCmd.outcome_applied (hs : InSession s c) (helev : x.os.elev = true)
    {lwps : List (UInt32 × Bool)} (hl : x.os.lwps = some lwps) :
    (x.succeeds s ↔ lwps.all (·.2) = true) ∧
      (x.outcome s).server.block c = (s.block c).setWatchpoint x.slot x.wp ∧
      (x.outcome s).effects = (lwps.takeWhile (·.2)).map fun l =>
        .loadDbregs (s.clients c).dbgctx.pid l.1 ((x.outcome s).server.block c) := by
  have hap := debugSetWatchpointHandle_applied hs.attached hs.current hs.pid x.inRange helev hl
  rw [WatchCmd.succeeds, ServerState.block, WatchCmd.outcome, hap]
  refine ⟨?_, ?_, ?_⟩
  · dsimp only
    cases lwps.all (·.2) with
    | true => exact iff_of_true rfl rfl
    | false => exact iff_of_false (by rw [if_neg (by simp)]; decide) (by simp)
  · rw [setCtx_self]
    rfl
  · rw [setCtx_self]

/-- A packet is refused, and then its condition asks nothing, or it reaches the threads. -/
theorem WatchCmd.cases (hs : InSession st.1 c) : (x.outcome st.1).Refused st.1 ∧ x.safe c st ∨
    ∃ lwps, x.os.elev = true ∧ x.os.lwps = some lwps := by
  by_cases hreach : ∃ lwps, x.os.elev = true ∧ x.os.lwps = some lwps
  · exact .inr hreach
  · refine .inl ⟨?_, fun helev lwps hl => absurd ⟨lwps, helev, hl⟩ hreach⟩
    rcases debugSetWatchpointHandle_cases (fun _ => hs.current) (some x.wp) x.os with hr | hr
    · exact hr
    · obtain ⟨_, lwps, _, _, _, _, helev, hl⟩ := hr
      exact absurd ⟨lwps, helev, hl⟩ hreach

/-- What carries the induction: the session lasts, and the block is decoded slot by slot. -/
structure WatchInv (c : ClientId) (init : DrBlock) (st : WatchState) : Prop where
  session : InSession st.1 c
  block : st.1.block c = init.decoded st.2

/-- **One packet.** Over a decoded block the reply keeps its promise exactly when the packet is
safe. -/
theorem WatchInv.keeps_iff (h : WatchInv c init st) : x.Keeps c init st ↔ x.safe c st := by
  rcases WatchCmd.cases (x := x) h.session with ⟨hr, hsafe⟩ | ⟨lwps, helev, hl⟩
  · exact iff_of_true (WatchCmd.keeps_refused hr) hsafe
  · obtain ⟨hsucc, hblock, heff⟩ := WatchCmd.outcome_applied h.session helev hl
    have hsafe : x.safe c st ↔ if lwps.all (·.2) then x.wp.fits (st.1.block c).dr7 x.slot
        else x.wp.repeats (st.1.block c) x.slot := by
      rw [WatchCmd.safe, hl]
      exact ⟨fun hx => hx helev lwps rfl, fun hx _ l hl' => by obtain rfl := Option.mem_some.mp hl'; exact hx⟩
    rw [hsafe]
    by_cases hall : lwps.all (·.2) = true
    · rw [if_pos hall, h.block, ← setWatchpoint_decoded_iff, ← h.block, ← hblock]
      have htake : lwps.takeWhile (·.2) = lwps :=
        List.takeWhile_eq_self_iff.mpr fun l hm => List.all_eq_true.mp hall l hm
      rw [htake] at heff
      exact ⟨fun hk => hk.decoded (hsucc.mpr hall), fun hd =>
        ⟨fun _ => hd, fun _ => ⟨lwps, hl, heff⟩, fun hno => absurd (hsucc.mpr hall) hno⟩⟩
    · rw [if_neg hall, ← setWatchpoint_self_iff, ← hblock]
      have hno : ¬ x.succeeds st.1 := fun hy => hall (hsucc.mp hy)
      exact ⟨fun hk => hk.unchanged hno, fun hd =>
        ⟨fun hy => absurd hy hno, fun hy => absurd hy hno, fun _ => hd⟩⟩

/-- A packet stays in the session. -/
theorem WatchCmd.session (hs : InSession s c) : InSession (x.outcome s).server c := by
  rcases debugSetWatchpointHandle_cases (fun _ => hs.current) (some x.wp) x.os with hr | hr
  · rw [WatchCmd.outcome, hr.server]
    exact hs
  · obtain ⟨_, lwps, hwp, hi, _, _, helev, hl⟩ := hr
    obtain rfl := Option.some.inj hwp
    rw [WatchCmd.outcome, debugSetWatchpointHandle_applied hs.attached hs.current hs.pid hi helev hl]
    exact ⟨hs.attached, hs.current, by rw [setCtx_self]; exact hs.pid⟩

/-- A safe packet leaves a block decoded slot by slot. -/
theorem WatchInv.step (h : WatchInv c init st) (hx : x.safe c st) : WatchInv c init (watchStep st x) := by
  have hk := h.keeps_iff.mpr hx
  refine ⟨WatchCmd.session h.session, ?_⟩
  rw [watchStep]
  by_cases hy : x.succeeds st.1
  · rw [if_pos hy]
    exact hk.decoded hy
  · rw [if_neg hy]
    exact (hk.unchanged hy).trans h.block

end Step

/-- **Watchpoint slots are independent.** Over any sequence of packets in a session every reply
keeps its promise if and only if every packet is safe: where all threads take the block, the packet
fits its slot; where one refuses, it asks for nothing new. -/
theorem watchpoint_slots_iff {s : ServerState} {c : ClientId} (hs : InSession s c) (xs : List WatchCmd) :
    Along watchStep (fun st x => x.Keeps c (s.block c) st) (s, fun _ => none) xs ↔
      Along watchStep (fun st x => x.safe c st) (s, fun _ => none) xs := by
  refine Along.iff_of_invariant (WatchInv c (s.block c)) (fun _ _ h => h.keeps_iff)
    (fun _ _ h hx => h.step hx) xs ⟨hs, ?_⟩
  have hnone := decoded_assembled (s.block c) fun _ => none
  have hdr7 := hnone.unique (Assembled.none dr7Mask (s.block c).dr7)
  show s.block c = ⟨(s.block c).drAddr, _⟩
  rw [← hdr7]
  rfl

/-- Two packets that fit, over two threads. -/
def fittingPackets : List WatchCmd :=
  [⟨⟨0, 1, 3, 1, 0x1000⟩, ⟨true, some [(100, true), (101, true)]⟩, by decide⟩,
    ⟨⟨3, 1, 1, 3, 0x2000⟩, ⟨true, some [(100, true), (101, true)]⟩, by decide⟩]

theorem watchpoint_slots_iff_two :
    Along watchStep (fun st x => x.Keeps 0 (nopSession.block 0) st) (nopSession, fun _ => none)
      fittingPackets :=
  (watchpoint_slots_iff nopSession_inSession fittingPackets).mpr (by decide)

/-- A length of 4 in slot 0 sets a bit of slot 1. -/
theorem long_watchpoint_spills :
    let x : WatchCmd := ⟨⟨0, 1, 4, 1, 0x1000⟩, ⟨true, some [(100, true)]⟩, by decide⟩
    InSession nopSession 0 ∧
      ¬ Along watchStep (fun st x => x.Keeps 0 (nopSession.block 0) st) (nopSession, fun _ => none) [x] ∧
      x.succeeds nopSession ∧ ((x.outcome nopSession).server.block 0).dr7 &&& dr7Mask 1 ≠ 0 := by
  refine ⟨nopSession_inSession, fun h => ?_, by decide, by decide⟩
  have hd := congrArg DrBlock.dr7 (h.1.decoded (by decide))
  exact absurd hd (by decide)

end Ps5Debugger
