import Ps5Debugger.DebugCases
import Ps5Debugger.Lib.Machine

/-!
# Breakpoints and the bytes under them

A slot saves whatever byte it finds and the handler never asks what that byte is. Over a run of
packets and hits the table is a patch table (`Lib.Patched`) as long as every packet that enables
takes an unused slot and an address no other slot has; then the memory comes back
(`breakpoints_reversible`). Enable one slot twice and it saves its own `int3`
(`reenabled_slot_saves_int3`).

The teardown walks the table up to the first slot without an address, so it restores everything
exactly when the slots in use are the first ones (`teardown_restores_iff`).
-/

namespace Ps5Debugger

open Lib

/-! ## The table as a patch table -/

/-- What a table covers: address and saved byte of each slot in use. -/
def BpTable.entries (bps : BpTable) (i : Fin 30) : Option (UInt64 × Byte) :=
  if (bps i).enabled then some ((bps i).address, (bps i).saved) else none

theorem entries_of_enabled {bps : BpTable} {i : Fin 30} (h : (bps i).enabled = true) :
    bps.entries i = some ((bps i).address, (bps i).saved) := if_pos h

theorem entries_of_disabled {bps : BpTable} {i : Fin 30} (h : (bps i).enabled = false) :
    bps.entries i = none := by
  simp [BpTable.entries, h]

theorem entries_update (bps : BpTable) (i : Fin 30) (slot : BpSlot) :
    BpTable.entries (Function.update bps i slot) = Function.update bps.entries i
      (if slot.enabled then some (slot.address, slot.saved) else none) := by
  funext j
  by_cases hj : j = i
  · subst hj
    simp [BpTable.entries]
  · simp [BpTable.entries, hj]

theorem enabled_of_address {slot : BpSlot} (h : slot.address ≠ 0) : slot.enabled = true := by
  by_contra hne
  exact h (slot.idle (by simpa using hne))

/-- No slot in use is at address 0. -/
def BpTable.Placed (bps : BpTable) : Prop := ∀ i, (bps i).enabled = true → (bps i).address ≠ 0

theorem BpTable.Placed.update {bps : BpTable} (h : bps.Placed) (i : Fin 30) {slot : BpSlot}
    (hslot : slot.enabled = true → slot.address ≠ 0) :
    BpTable.Placed (Function.update bps i slot) := by
  intro j
  by_cases hj : j = i
  · subst hj
    simpa using hslot
  · simpa [hj] using h j

/-- Covering with the table's own operation. -/
theorem patched_arm {base mem : TargetMem} {bps : BpTable}
    (h : Patched INT3 base mem bps.entries) {i : Fin 30} (hi : (bps i).enabled = false)
    {a : UInt64} (ha : ∀ j, (bps j).enabled = true → (bps j).address ≠ a) (hmap : (mem a).isSome) :
    Patched INT3 base (pokeAll mem [(a, INT3)]) (bps.arm mem i a).entries := by
  obtain ⟨b, hb⟩ := Option.isSome_iff_exists.mp hmap
  have hfree : ∀ j y, bps.entries j ≠ some (a, y) := by
    intro j y hj
    unfold BpTable.entries at hj
    split at hj
    · rename_i hen
      exact ha j hen (congrArg Prod.fst (Option.some.inj hj))
    · cases hj
  rw [BpTable.arm, entries_update, if_pos rfl, peek, hb, Option.getD_some]
  exact h.arm (entries_of_disabled hi) hfree hb

/-- Uncovering, or clearing a slot that covers nothing. -/
theorem patched_disarm {base mem : TargetMem} {bps : BpTable}
    (h : Patched INT3 base mem bps.entries) (hnz : bps.Placed) (i : Fin 30) :
    Patched INT3 base (pokeAll mem (bps.disarmWrites i)) (bps.disarm i).entries := by
  rw [BpTable.disarm, entries_update, if_neg Bool.false_ne_true, BpTable.disarmWrites]
  cases hen : (bps i).enabled with
  | true =>
    rw [if_pos ⟨rfl, hnz i hen⟩]
    exact h.disarm (entries_of_enabled hen)
  | false =>
    rw [if_neg (by simp)]
    have hnone := entries_of_disabled hen
    rw [← hnone, Function.update_eq_self]
    exact h

/-- A hit leaves the memory as it was. -/
theorem pokeAll_hitWrites {base mem : TargetMem} {bps : BpTable}
    (h : Patched INT3 base mem bps.entries) {i : Fin 30} (hi : (bps i).address ≠ 0) :
    pokeAll mem (bps.hitWrites i) = mem :=
  h.step_over (entries_of_enabled (enabled_of_address hi))

/-! ## Runs of packets and hits -/

/-- `s` is in a session of client `c`. -/
structure InSession (s : ServerState) (c : ClientId) : Prop where
  attached : s.attached = true
  current : s.curdbgctx = some c
  pid : (s.clients c).dbgctx.pid ≠ 0

/-- What happens to breakpoints while a session lasts. -/
inductive BpEvent where
  | packet (bp : BreakptPacket)
  | hit (os : PumpOs)

def bpStep (s : ServerState) : BpEvent → ServerState
  | .packet bp => (debugSetBreakpointHandle s (some bp)).server
  | .hit os => (dispatchDebugEvents s os).server

/-- A packet the handler accepts, an event of a target that was not killed. -/
def BpEvent.accepted : BpEvent → Prop
  | .packet bp => bp.index.toNat < 30
  | .hit os => os.killed = false

/-- The tables of the current session. -/
def ServerState.session (s : ServerState) : Dbgctx :=
  (s.curdbgctx.map fun c => (s.clients c).dbgctx).getD .zero

/-- A packet that enables takes a slot that is not in use, and a mapped address other than 0 that
no slot in use has. -/
def BpEvent.free (s : ServerState) : BpEvent → Prop
  | .packet bp => bp.enabled ≠ 0 →
      bp.address ≠ 0 ∧ (s.mem s.session.pid bp.address).isSome ∧
      (∀ i : Fin 30, i.val = bp.index.toNat → (s.session.bps i).enabled = false) ∧
      ∀ j, (s.session.bps j).enabled = true → (s.session.bps j).address ≠ bp.address
  | .hit _ => True

instance (e : BpEvent) : Decidable e.accepted :=
  match e with
  | .packet bp => inferInstanceAs (Decidable (bp.index.toNat < 30))
  | .hit os => inferInstanceAs (Decidable (os.killed = false))

instance (s : ServerState) (e : BpEvent) : Decidable (e.free s) :=
  match e with
  | .packet bp => inferInstanceAs (Decidable (bp.enabled ≠ 0 →
      bp.address ≠ 0 ∧ (s.mem s.session.pid bp.address).isSome ∧
      (∀ i : Fin 30, i.val = bp.index.toNat → (s.session.bps i).enabled = false) ∧
      ∀ j, (s.session.bps j).enabled = true → (s.session.bps j).address ≠ bp.address))
  | .hit _ => inferInstanceAs (Decidable True)

/-- What the last packet for each index said: the address it enabled, if it did. -/
def noteEvent (last : Fin 30 → Option UInt64) : BpEvent → Fin 30 → Option UInt64
  | .packet bp => fun i =>
      if i.val = bp.index.toNat then (if bp.enabled ≠ 0 then some bp.address else none) else last i
  | .hit _ => last

def lastEnabled (evs : List BpEvent) : Fin 30 → Option UInt64 := evs.foldl noteEvent fun _ => none

/-- The invariant of such a run: the session goes on, its memory is the original patched by the
table, other processes are untouched, and the table is what the packets said last. -/
structure BpInv (c : ClientId) (pid : UInt32) (mem₀ : UInt32 → TargetMem) (s : ServerState)
    (last : Fin 30 → Option UInt64) : Prop where
  session : InSession s c
  target : (s.clients c).dbgctx.pid = pid
  patched : Patched INT3 (mem₀ pid) (s.mem pid) (s.clients c).dbgctx.bps.entries
  others : ∀ q, q ≠ pid → s.mem q = mem₀ q
  placed : (s.clients c).dbgctx.bps.Placed
  noted : ∀ i, last i = ((s.clients c).dbgctx.bps.entries i).map Prod.fst

variable {c : ClientId} {pid : UInt32} {mem₀ : UInt32 → TargetMem} {s : ServerState}
  {last : Fin 30 → Option UInt64}

theorem InSession.session_eq (h : InSession s c) : s.session = (s.clients c).dbgctx := by
  rw [ServerState.session, h.current]
  rfl

/-- The invariant after a packet, from what its branch does to table and memory. -/
theorem BpInv.packet (h : BpInv c pid mem₀ s last) {bps : BpTable} {ws : List (UInt64 × Byte)}
    {last' : Fin 30 → Option UInt64}
    (hp : Patched INT3 (mem₀ pid) (pokeAll (s.mem pid) ws) bps.entries)
    (hplaced : bps.Placed)
    (hl : ∀ i, last' i = (bps.entries i).map Prod.fst) :
    BpInv c pid mem₀ ((s.setCtx c { (s.clients c).dbgctx with bps := bps }).writeAll pid ws) last' where
  session := ⟨h.session.attached, h.session.current, by simpa using h.session.pid⟩
  target := by simpa using h.target
  patched := by simpa using hp
  others := fun q hq => by rw [writeAll_ne _ _ _ hq]; exact h.others q hq
  placed := by simpa using hplaced
  noted := by simpa using hl

theorem last_update (hl : ∀ i, last i = ((s.clients c).dbgctx.bps.entries i).map Prod.fst)
    (bp : BreakptPacket) {i : Fin 30} (hi : i.val = bp.index.toNat) {e : Option (UInt64 × Byte)}
    (he : e.map Prod.fst = if bp.enabled ≠ 0 then some bp.address else none) (j : Fin 30) :
    noteEvent last (.packet bp) j =
      (Function.update (s.clients c).dbgctx.bps.entries i e j).map Prod.fst := by
  by_cases hj : j = i
  · subst hj
    rw [Function.update_self, he]
    exact if_pos hi
  · rw [Function.update_of_ne hj, ← hl j]
    exact if_neg fun e => hj (Fin.ext (e.trans hi.symm))

theorem BpInv.step (s : ServerState) (last : Fin 30 → Option UInt64) (e : BpEvent)
    (h : BpInv c pid mem₀ s last) (hok : e.accepted ∧ e.free s) :
    BpInv c pid mem₀ (bpStep s e) (noteEvent last e) := by
  obtain ⟨hacc, hfree⟩ := hok
  obtain rfl := h.target
  cases e with
  | packet bp =>
    have hap := debugSetBreakpointHandle_applied h.session.attached h.session.current h.session.pid hacc
    rw [bpStep, hap]
    simp only [BpTable.setBreakpoint]
    split
    · rename_i hen
      obtain ⟨hnz, hmap, hidle, hother⟩ := hfree hen
      rw [h.session.session_eq] at hmap hidle hother
      refine h.packet (patched_arm h.patched (hidle ⟨_, hacc⟩ rfl) hother hmap)
        (h.placed.update _ fun _ => hnz) ?_
      rw [BpTable.arm, entries_update, if_pos rfl]
      exact last_update h.noted bp rfl (by rw [if_pos hen]; rfl)
    · rename_i hen
      refine h.packet (patched_disarm h.patched h.placed _) (h.placed.update _ fun h => nomatch h) ?_
      rw [BpTable.disarm, entries_update, if_neg Bool.false_ne_true]
      exact last_update h.noted bp rfl (by rw [if_neg hen]; rfl)
  | hit os =>
    obtain ⟨_, ⟨hs, _⟩ | ⟨i, hi, _, hs, _⟩⟩ := dispatchDebugEvents_cases h.session.current hacc
    · rw [bpStep, hs]
      exact h
    · -- the byte goes back and the slot is armed again: no memory has changed
      have hmem : s.writeAll (s.clients c).dbgctx.pid ((s.clients c).dbgctx.bps.hitWrites i) = s := by
        rw [ServerState.writeAll, pokeAll_hitWrites h.patched hi, Function.update_eq_self]
      rw [bpStep, hs, hmem]
      exact h

/-- **Breakpoints are reversible** as long as every packet that enables takes a free slot and a
free address: throughout the run a slot that was enabled last has its `int3` in place, and once
every slot was disabled last all memory is what it was. -/
theorem breakpoints_reversible {s : ServerState} {c : ClientId} (hs : InSession s c)
    (hfresh : ∀ i, ((s.clients c).dbgctx.bps i).enabled = false) (evs : List BpEvent)
    (hok : Along bpStep (fun s e => e.accepted ∧ e.free s) s evs) :
    let t := evs.foldl bpStep s
    (∀ i a, lastEnabled evs i = some a → t.mem (s.clients c).dbgctx.pid a = some INT3) ∧
      ((∀ i, lastEnabled evs i = none) → t.mem = s.mem) := by
  have hnone : ∀ i, (s.clients c).dbgctx.bps.entries i = none := fun i => entries_of_disabled (hfresh i)
  have hinit : BpInv c (s.clients c).dbgctx.pid s.mem s fun _ => none :=
    { session := hs, target := rfl, patched := Patched.empty INT3 _ hnone, others := fun _ _ => rfl
      placed := fun i hi => absurd hi (by simp [hfresh i])
      noted := fun i => by rw [hnone i]; rfl }
  have hinv := Along.tracks (BpInv c (s.clients c).dbgctx.pid s.mem) BpInv.step evs hinit hok
  refine ⟨fun i a hi => ?_, fun hall => ?_⟩
  · have hl := (hinv.noted i).symm.trans hi
    obtain ⟨⟨a', b⟩, hab, rfl⟩ := Option.map_eq_some_iff.mp hl
    exact hinv.patched.covered hab
  · have hempty : ∀ i, ((evs.foldl bpStep s).clients c).dbgctx.bps.entries i = none := fun i =>
      Option.map_eq_none_iff.mp ((hinv.noted i).symm.trans (hall i))
    funext q
    by_cases hq : q = (s.clients c).dbgctx.pid
    · rw [hq]
      exact hinv.patched.eq_base hempty
    · exact hinv.others q hq

/-- A session as a client gets it from a fresh server: one connection, process 7 attached, its
first 64 KiB mapped and full of `nop`s. -/
def nopSession : ServerState :=
  let s := acceptClient (ServerState.init fun _ a => if a < 0x10000 then some 0x90 else none) 0x0100007F
  (debugAttachHandle (attachLatch s 0) (some 7) ⟨true, true, true, true, 5, true⟩).server

/-- A trap of a thread that stands behind the `int3` at 0x1000. -/
def hit1000 : BpEvent := .hit ⟨false, some ⟨5, some ⟨1, none, some 0x1001⟩⟩, ⟨true, []⟩⟩

theorem nopSession_inSession : InSession nopSession 0 := ⟨rfl, rfl, by decide⟩

theorem breakpoints_reversible_two :
    let evs := [.packet ⟨0, 1, 0x1000⟩, .packet ⟨29, 1, 0x2000⟩, hit1000, .packet ⟨29, 0, 0⟩,
      .packet ⟨0, 0, 0⟩]
    Along bpStep (fun s e => e.accepted ∧ e.free s) nopSession evs ∧
      (evs.foldl bpStep nopSession).mem = nopSession.mem :=
  ⟨by decide, (breakpoints_reversible nopSession_inSession (by decide) _ (by decide)).2 (by decide)⟩

/-- Enabling one slot twice and disabling it once leaves the `int3` in memory: the second packet
saves the first one's byte. -/
theorem reenabled_slot_saves_int3 :
    let evs := [.packet ⟨0, 1, 0x1000⟩, .packet ⟨0, 1, 0x1000⟩, .packet ⟨0, 0, 0⟩]
    InSession nopSession 0 ∧ (∀ i, ((nopSession.clients 0).dbgctx.bps i).enabled = false) ∧
      Along bpStep (fun _ e => e.accepted) nopSession evs ∧ (∀ i, lastEnabled evs i = none) ∧
      nopSession.mem 7 0x1000 = some 0x90 ∧
      (evs.foldl bpStep nopSession).mem 7 0x1000 = some INT3 :=
  ⟨nopSession_inSession, by decide, by decide, by decide, by decide, by decide⟩

/-! ## Teardown -/

theorem teardownWrites_eq (bps : BpTable) : bps.teardownWrites =
    ((List.finRange 30).takeWhile fun i => (bps i).address ≠ 0).map fun i =>
      ((bps i).address, (bps i).saved) := by
  rw [BpTable.teardownWrites, List.takeWhile_map, List.map_map]
  rfl

/-- Slots in use have different addresses. -/
def BpTable.Distinct (bps : BpTable) : Prop :=
  ∀ i j, (bps i).enabled = true → (bps j).enabled = true → (bps i).address = (bps j).address → i = j

instance (bps : BpTable) : Decidable bps.Distinct :=
  inferInstanceAs (Decidable (∀ i j, (bps i).enabled = true → (bps j).enabled = true →
    (bps i).address = (bps j).address → i = j))

/-- The loop reaches exactly the slots with no gap before them. -/
theorem mem_reached {bps : BpTable} {i : Fin 30} :
    i ∈ ((List.finRange 30).takeWhile fun i => (bps i).address ≠ 0) ↔ ∀ j ≤ i, (bps j).address ≠ 0 := by
  rw [mem_takeWhile_finRange]
  simp only [decide_eq_true_eq]

theorem nodup_teardownWrites {bps : BpTable} (hd : bps.Distinct) :
    (bps.teardownWrites.map Prod.fst).Nodup := by
  rw [teardownWrites_eq, List.map_map]
  refine List.Nodup.map_on ?_ ((List.nodup_finRange 30).sublist (List.takeWhile_sublist _))
  intro i hi j hj hij
  have hi' := mem_reached.mp hi i le_rfl
  have hj' := mem_reached.mp hj j le_rfl
  exact hd i j (enabled_of_address hi') (enabled_of_address hj') hij

theorem mem_teardownWrites {bps : BpTable} (hd : bps.Distinct) {i : Fin 30}
    (hi : (bps i).enabled = true) :
    ((bps i).address, (bps i).saved) ∈ bps.teardownWrites ↔ ∀ j ≤ i, (bps j).address ≠ 0 := by
  rw [teardownWrites_eq, List.mem_map, ← mem_reached]
  constructor
  · rintro ⟨j, hj, he⟩
    have hj' := enabled_of_address (mem_reached.mp hj j le_rfl)
    obtain rfl := hd j i hj' hi (Prod.mk.inj he).1
    exact hj
  · intro h
    exact ⟨i, h, rfl⟩

/-- **The teardown restores exactly the tables without a gap**: of every slot in use the saved
byte is written back, and stands in memory afterwards wherever the address is mapped, if and only
if every slot up to one in use has an address. -/
theorem teardown_restores_iff {s : ServerState} (c : ClientId) {os : TeardownOs}
    (hatt : s.attached = true) (halive : os.alive = true)
    (hd : (s.clients c).dbgctx.bps.Distinct) :
    let ctx := (s.clients c).dbgctx
    (∀ i, (ctx.bps i).enabled = true →
      ((ctx.bps i).address, (ctx.bps i).saved) ∈ ctx.bps.teardownWrites ∧
      (debugFullTeardown s (some c) os).1.mem ctx.pid (ctx.bps i).address =
        (s.mem ctx.pid (ctx.bps i).address).map fun _ => (ctx.bps i).saved) ↔
    ∀ i, (ctx.bps i).enabled = true → ∀ j ≤ i, (ctx.bps j).address ≠ 0 := by
  intro ctx
  have hmem : (debugFullTeardown s (some c) os).1.mem ctx.pid =
      pokeAll (s.mem ctx.pid) ctx.bps.teardownWrites := by
    simp only [debugFullTeardown, hatt, halive, Bool.true_eq_false, if_false, if_true]
    rw [writeAll_self, release_mem]
  constructor
  · intro h i hi
    exact (mem_teardownWrites hd hi).mp (h i hi).1
  · intro h i hi
    have hw := (mem_teardownWrites hd hi).mpr (h i hi)
    rw [hmem]
    exact ⟨hw, pokeAll_of_mem (nodup_teardownWrites hd) hw _⟩

theorem teardown_restores_first_two :
    let s := (bpStep (bpStep nopSession (.packet ⟨0, 1, 0x1000⟩)) (.packet ⟨1, 1, 0x2000⟩))
    s.attached = true ∧ (s.clients 0).dbgctx.bps.Distinct ∧
      (debugFullTeardown s (some 0) ⟨true, []⟩).1.mem 7 0x2000 = some 0x90 :=
  ⟨rfl, by decide, ((teardown_restores_iff 0 rfl rfl (by decide)).mpr (by decide) 1 (by decide)).2⟩

/-- With slot 1 in use and slot 0 not, the loop ends before it starts: the `int3` stays. -/
theorem teardown_leaves_int3 :
    let s := bpStep nopSession (.packet ⟨1, 1, 0x1000⟩)
    s.attached = true ∧ (s.clients 0).dbgctx.bps.Distinct ∧
      ((s.clients 0).dbgctx.bps 1).enabled = true ∧ ((s.clients 0).dbgctx.bps 1).saved = 0x90 ∧
      (debugDetachHandle s ⟨true, []⟩).server.mem 7 0x1000 = some INT3 ∧
      (debugDetachHandle s ⟨true, []⟩).effects.length = 0 :=
  ⟨rfl, by decide, by decide, by decide, by decide, by decide⟩

end Ps5Debugger
