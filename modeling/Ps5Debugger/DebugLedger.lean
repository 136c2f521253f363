import Ps5Debugger.DebugBreakpoints
import Ps5Debugger.DebugLatch

/-!
# What a connection leaves switched on

Two observers of a run of the debug server. A `Ledger` says for each connection what its packets
have left switched on, a `DebugSession` lists what the packets of the current session asked for.
`Books` and `SessionOk` relate them to the server: a clean ledger means empty tables, and the
context of the debugging client holds what its session asked for and nothing else.

The watchpoint side is about bit fields. Register `i` owns the bits `dr7Mask i` of `dr7`, and a
packet whose length and break type are below 4 stays inside them (`dr7_inside`); larger values
reach into the fields of other registers, which is why the ledger keeps `spill`.
-/

namespace Ps5Debugger

open Lib

/-! ## The debug-register block -/

/-- The registers not in `live` are clear: address 0, and no bit of `dr7` outside the fields of
the others. -/
structure DrBlock.Covered (dr : DrBlock) (live : Fin 4 → Bool) : Prop where
  addr : ∀ i, live i = false → dr.drAddr i = 0
  bits : ∀ n, dr.dr7.toBitVec.getLsbD n = true →
    ∃ i, live i = true ∧ (dr7Mask i).toBitVec.getLsbD n = true

theorem uint32_lt_four {x : UInt32} (h : x < 4) : ∃ l : Fin 4, x = l.val.toUInt32 :=
  ⟨⟨x.toNat, UInt32.lt_iff_toNat_lt.mp h⟩, by simp⟩

/-- Length and break type below 4 stay inside their field. -/
theorem dr7_inside (i : Fin 4) {wp : WatchptPacket} (hl : wp.length < 4) (hb : wp.breaktype < 4) :
    (dr7Low i ||| dr7High i wp) ||| dr7Mask i = dr7Mask i := by
  have all : ∀ (i l b : Fin 4), (dr7Low i |||
      (((l.val.toUInt32.toUInt64 <<< 2) ||| b.val.toUInt32.toUInt64) <<< (4 * i.val.toUInt64 + 16))) |||
      dr7Mask i = dr7Mask i := by decide
  obtain ⟨l, hl⟩ := uint32_lt_four hl
  obtain ⟨b, hb⟩ := uint32_lt_four hb
  rw [dr7High, hl, hb]
  exact all i l b

theorem dr7_inside_bit {i : Fin 4} {wp : WatchptPacket} (hl : wp.length < 4) (hb : wp.breaktype < 4)
    {n : Nat} (hn : (dr7Low i ||| dr7High i wp).toBitVec.getLsbD n = true) :
    (dr7Mask i).toBitVec.getLsbD n = true := by
  rw [← dr7_inside i hl hb, UInt64.toBitVec_or, BitVec.getLsbD_or, hn, Bool.true_or]

/-- A bit outside the field of register `i` belongs to another register. -/
theorem DrBlock.Covered.other {dr : DrBlock} {live : Fin 4 → Bool} (h : dr.Covered live) {i : Fin 4}
    {b : Bool} {n : Nat} (hn : (dr.dr7 &&& ~~~ dr7Mask i).toBitVec.getLsbD n = true) :
    ∃ j, Function.update live i b j = true ∧ (dr7Mask j).toBitVec.getLsbD n = true := by
  rw [UInt64.toBitVec_and, BitVec.getLsbD_and, UInt64.toBitVec_not, BitVec.getLsbD_not] at hn
  simp only [Bool.and_eq_true, Bool.not_eq_true', decide_eq_true_eq] at hn
  obtain ⟨hdr, _, hmask⟩ := hn
  obtain ⟨j, hj, hjn⟩ := h.bits n hdr
  have hji : j ≠ i := by
    rintro rfl
    rw [hmask] at hjn
    cases hjn
  exact ⟨j, by rw [Function.update_of_ne hji]; exact hj, hjn⟩

theorem DrBlock.Covered.set {dr : DrBlock} {live : Fin 4 → Bool} (h : dr.Covered live) (i : Fin 4)
    {wp : WatchptPacket} (hwp : wp.enabled ≠ 0 → wp.length < 4 ∧ wp.breaktype < 4) :
    (dr.setWatchpoint i wp).Covered (Function.update live i (wp.enabled ≠ 0)) := by
  unfold DrBlock.setWatchpoint
  by_cases hen : wp.enabled ≠ 0
  · rw [if_pos hen, decide_eq_true hen]
    refine ⟨fun j hj => ?_, fun n hn => ?_⟩
    · have hji : j ≠ i := by
        rintro rfl
        rw [Function.update_self] at hj
        cases hj
      rw [Function.update_of_ne hji] at hj
      exact (Function.update_of_ne hji _ _).trans (h.addr j hj)
    · rw [UInt64.toBitVec_or, BitVec.getLsbD_or, Bool.or_eq_true] at hn
      rcases hn with hn | hn
      · exact h.other hn
      · exact ⟨i, Function.update_self i true live, dr7_inside_bit (hwp hen).1 (hwp hen).2 hn⟩
  · rw [if_neg hen, decide_eq_false hen]
    refine ⟨fun j hj => ?_, fun n hn => h.other hn⟩
    by_cases hji : j = i
    · subst hji
      exact Function.update_self _ _ _
    · rw [Function.update_of_ne hji] at hj
      exact (Function.update_of_ne hji _ _).trans (h.addr j hj)

theorem DrBlock.Covered.empty {dr : DrBlock} {live : Fin 4 → Bool} (h : dr.Covered live)
    (hlive : ∀ i, live i = false) : dr = .zero := by
  obtain ⟨a, d⟩ := dr
  have ha : a = fun _ => 0 := funext fun i => h.addr i (hlive i)
  have hd : d = 0 := by
    refine UInt64.toBitVec_inj.mp (BitVec.eq_of_getLsbD_eq fun n _ => ?_)
    have hz : (0 : UInt64).toBitVec.getLsbD n = false := by simp
    rw [hz]
    by_contra hne
    obtain ⟨i, hi, _⟩ := h.bits n (by simpa using hne)
    rw [hlive i] at hi
    cases hi
  rw [ha, hd]
  rfl

theorem covered_zero (live : Fin 4 → Bool) : DrBlock.Covered .zero live :=
  ⟨fun _ _ => rfl, fun n hn => absurd hn (by simp [DrBlock.zero])⟩

/-! ## Observing a run -/

/-- The context the commands of a session act on. -/
def ServerState.acting (s : ServerState) : Option ClientId :=
  if s.attached then s.curdbgctx.filter fun k => (s.clients k).dbgctx.pid ≠ 0 else none

/-- A SET_BREAKPOINT packet that reaches a table: the context, the slot, the packet. -/
def Event.breakpoint (s : ServerState) : Event → Option (ClientId × Fin 30 × BreakptPacket)
  | .command d (.setBreakpoint (some bp)) _ =>
    if s.crashed = false ∧ (s.clients d).active = true then
      s.acting.bind fun k => if h : bp.index.toNat < 30 then some (k, ⟨_, h⟩, bp) else none
    else none
  | _ => none

/-- A SET_WATCHPOINT packet that reaches a block. -/
def Event.watchpoint (s : ServerState) : Event → Option (ClientId × Fin 4 × WatchptPacket)
  | .command d (.setWatchpoint (some wp) os) _ =>
    if s.crashed = false ∧ (s.clients d).active = true ∧ os.elev = true ∧ os.lwps.isSome = true then
      s.acting.bind fun k => if h : wp.index.toNat < 4 then some (k, ⟨_, h⟩, wp) else none
    else none
  | _ => none

/-- What the sessions of each connection have left switched on, and whether one of their
watchpoints had a length or a break type that does not fit its field. -/
structure Ledger where
  bp : ClientId → Fin 30 → Bool
  wp : ClientId → Fin 4 → Bool
  spill : ClientId → Bool

def Ledger.Clean (l : Ledger) (c : ClientId) : Prop :=
  (∀ i, l.bp c i = false) ∧ (∀ i, l.wp c i = false) ∧ l.spill c = false

instance (l : Ledger) (c : ClientId) : Decidable (l.Clean c) :=
  inferInstanceAs (Decidable ((∀ i, l.bp c i = false) ∧ (∀ i, l.wp c i = false) ∧ l.spill c = false))

/-- A slot without a connection has nothing switched on. -/
def Ledger.fresh (l : Ledger) (s : ServerState) : Ledger where
  bp := fun c i => (s.clients c).active && l.bp c i
  wp := fun c i => (s.clients c).active && l.wp c i
  spill := fun c => (s.clients c).active && l.spill c

def Ledger.setBp (l : Ledger) (k : ClientId) (i : Fin 30) (bp : BreakptPacket) : Ledger :=
  { l with bp := Function.update l.bp k (Function.update (l.bp k) i (bp.enabled ≠ 0)) }

def WatchptPacket.spills (wp : WatchptPacket) : Bool :=
  decide (wp.enabled ≠ 0) && !(decide (wp.length < 4) && decide (wp.breaktype < 4))

def Ledger.setWp (l : Ledger) (k : ClientId) (i : Fin 4) (wp : WatchptPacket) : Ledger :=
  { l with wp := Function.update l.wp k (Function.update (l.wp k) i (wp.enabled ≠ 0))
           spill := Function.update l.spill k (l.spill k || wp.spills) }

def Ledger.note (l : Ledger) (s : ServerState) (e : Event) : Ledger :=
  match e.breakpoint s, e.watchpoint s with
  | some (k, i, bp), _ => (l.fresh s).setBp k i bp
  | none, some (k, i, wp) => (l.fresh s).setWp k i wp
  | none, none => l.fresh s

/-- What the packets of the current session asked for: the pid, the addresses of breakpoints with
the byte found there, the watchpoint packets. -/
structure DebugSession where
  pid : UInt32
  set : List (UInt64 × Byte)
  wps : List (Fin 4 × WatchptPacket)

/-- An enabled breakpoint at a mapped address. -/
def DebugSession.arm (z : DebugSession) (mem : TargetMem) (bp : BreakptPacket) : DebugSession :=
  if bp.enabled ≠ 0 then { z with set := z.set ++ ((mem bp.address).map fun b => (bp.address, b)).toList }
  else z

/-- The session after a step; an ATTACH that is answered with success begins a new one. -/
def DebugSession.note (z : DebugSession) (s : ServerState) (e : Event) : DebugSession :=
  match e.attaches s, e.breakpoint s, e.watchpoint s with
  | some pid, _, _ => ⟨pid, [], []⟩
  | none, some (k, _, bp), _ => z.arm (s.mem (s.clients k).dbgctx.pid) bp
  | none, none, some (_, i, wp) => { z with wps := z.wps ++ [(i, wp)] }
  | none, none, none => z

/-- The block that the watchpoint packets of a session describe. -/
def DebugSession.block (z : DebugSession) : DrBlock :=
  z.wps.foldl (fun dr w => dr.setWatchpoint w.1 w.2) .zero

/-- An effect of the current session: bytes go to its process, at addresses its packets enabled,
and are the byte found there or an `int3`; a block loaded is the one its packets describe, or
empty. -/
def DebugSession.explains (z : DebugSession) : Effect → Prop
  | .write pid a b => pid = z.pid ∧ ((a, b) ∈ z.set ∨ b = INT3 ∧ ∃ b', (a, b') ∈ z.set)
  | .loadDbregs pid _ block => block = .zero ∨ pid = z.pid ∧ block = z.block
  | .openEvents _ => True

variable {s t : ServerState} {c : ClientId} {l : Ledger} {z : DebugSession}

theorem acting_eq_some {k : ClientId} : s.acting = some k ↔
    s.attached = true ∧ s.curdbgctx = some k ∧ (s.clients k).dbgctx.pid ≠ 0 := by
  unfold ServerState.acting
  cases s.attached <;> simp [Option.filter_eq_some_iff]

/-! ## The ledger is right -/

/-- The ledger agrees with the tables of the connected clients. -/
structure Books (s : ServerState) (l : Ledger) : Prop where
  bp : ∀ c, (s.clients c).active = true → ∀ i, ((s.clients c).dbgctx.bps i).enabled = l.bp c i
  wp : ∀ c, (s.clients c).active = true → l.spill c = false → (s.clients c).dbgctx.dr.Covered (l.wp c)

/-- Whoever is connected in `t` is in `s`, with the same tables. -/
def Tables (s t : ServerState) : Prop :=
  ∀ c, (t.clients c).active = true → (s.clients c).active = true ∧
    (t.clients c).dbgctx.bps = (s.clients c).dbgctx.bps ∧
    (t.clients c).dbgctx.dr = (s.clients c).dbgctx.dr

theorem Books.of_tables (h : Books s l) (ht : Tables s t) : Books t l := by
  refine ⟨fun c hc i => ?_, fun c hc hsp => ?_⟩
  · obtain ⟨hs, hbp, _⟩ := ht c hc
    rw [hbp]
    exact h.bp c hs i
  · obtain ⟨hs, _, hdr⟩ := ht c hc
    rw [hdr]
    exact h.wp c hs hsp

theorem Books.fresh (h : Books s l) : Books s (l.fresh s) := by
  refine ⟨fun c hc i => ?_, fun c hc hsp => ?_⟩
  · simp only [Ledger.fresh, hc, Bool.true_and]
    exact h.bp c hc i
  · simp only [Ledger.fresh, hc, Bool.true_and] at hsp ⊢
    exact h.wp c hc hsp

theorem Tables.trans {u : ServerState} (h : Tables s t) (h' : Tables t u) : Tables s u := by
  intro c hc
  obtain ⟨ht, hbp, hdr⟩ := h' c hc
  obtain ⟨hs, hbp', hdr'⟩ := h c ht
  exact ⟨hs, hbp.trans hbp', hdr.trans hdr'⟩

theorem tables_of_eq (h : ∀ c, (t.clients c).active = (s.clients c).active ∧
    (t.clients c).dbgctx = (s.clients c).dbgctx) : Tables s t := by
  intro c hc
  exact ⟨(h c).1.symm.trans hc, by rw [(h c).2], by rw [(h c).2]⟩

theorem tables_release (s : ServerState) : Tables s s.release :=
  tables_of_eq fun c => by rw [release_clients]; exact ⟨rfl, rfl⟩

theorem tables_setClient {cl : ServerClient} (hcl : cl.active = false) :
    Tables s (s.setClient c cl) := by
  intro d hd
  by_cases hdc : d = c
  · subst hdc
    rw [setClient_self, hcl] at hd
    cases hd
  · rw [setClient_ne _ _ _ hdc] at hd ⊢
    exact ⟨hd, rfl, rfl⟩

theorem tables_debugFullTeardown (s : ServerState) (svc : Option ClientId) (os : TeardownOs) :
    Tables s (debugFullTeardown s svc os).1 := by
  unfold debugFullTeardown
  split
  · exact tables_of_eq fun _ => ⟨rfl, rfl⟩
  · split
    · exact tables_release s
    · simp only
      split
      · exact tables_release s
      · exact tables_release s

theorem tables_freeClient (s : ServerState) (c : ClientId) (os : TeardownOs) :
    Tables s (freeClient s c os).1 := by
  have h₁ : Tables s (s.setClient c { s.clients c with active := false }) := tables_setClient rfl
  unfold freeClient
  refine Tables.trans ?_ (tables_setClient rfl)
  simp only
  split
  · exact h₁.trans (tables_debugFullTeardown _ _ _)
  · exact h₁

theorem tables_closing (o : Outcome) (c : ClientId) (os : TeardownOs) :
    Tables o.server (o.closing c os).server := by
  unfold Outcome.closing
  split
  · exact tables_freeClient _ _ _
  · exact tables_of_eq fun _ => ⟨rfl, rfl⟩

/-! ## The session is what its packets said -/

/-- The context of client `k` holds what the session asked for. -/
structure DebugSession.Holds (z : DebugSession) (s : ServerState) (k : ClientId) : Prop where
  flag : (s.clients k).debugging = true
  target : (s.clients k).dbgctx.pid = z.pid
  bps : ∀ i, ((s.clients k).dbgctx.bps i).enabled = true →
    (s.mem z.pid ((s.clients k).dbgctx.bps i).address).isSome = true →
    (((s.clients k).dbgctx.bps i).address, ((s.clients k).dbgctx.bps i).saved) ∈ z.set
  dr : (s.clients k).dbgctx.dr = z.block

/-- The latch is held for a slot that was cleared after a failed ATTACH. -/
structure Stranded (s : ServerState) (k : ClientId) : Prop where
  flag : (s.clients k).debugging = false
  target : (s.clients k).dbgctx.pid = 0
  bps : ∀ i, ((s.clients k).dbgctx.bps i).address = 0

def SessionOk (s : ServerState) (z : DebugSession) : Prop :=
  s.attached = true → ∃ k, s.curdbgctx = some k ∧ (z.Holds s k ∨ Stranded s k)

/-- `t` has the session of `s`: its globals, flags and contexts, and the same bytes are mapped. -/
structure SameSession (s t : ServerState) : Prop where
  attached : t.attached = s.attached
  ctx : t.curdbgctx = s.curdbgctx
  client : ∀ c, (t.clients c).debugging = (s.clients c).debugging ∧
    (t.clients c).dbgctx = (s.clients c).dbgctx
  mapped : ∀ q x, (t.mem q x).isSome = (s.mem q x).isSome

theorem SessionOk.of_same (h : SessionOk s z) (hs : SameSession s t) : SessionOk t z := by
  intro hatt
  obtain ⟨k, hk, hz⟩ := h (hs.attached.symm.trans hatt)
  obtain ⟨hflag, hctx⟩ := hs.client k
  refine ⟨k, hs.ctx.trans hk, hz.imp (fun hz => ?_) fun hz => ?_⟩
  · refine ⟨hflag.trans hz.flag, by rw [hctx]; exact hz.target, fun i => ?_, by rw [hctx]; exact hz.dr⟩
    rw [hctx, hs.mapped]
    exact hz.bps i
  · exact ⟨hflag.trans hz.flag, by rw [hctx]; exact hz.target, fun i => by rw [hctx]; exact hz.bps i⟩

theorem isSome_pokeAll (ws : List (UInt64 × Byte)) (x : UInt64) :
    ∀ mem : TargetMem, (pokeAll mem ws x).isSome = (mem x).isSome := by
  induction ws with
  | nil => intro mem; rfl
  | cons w ws ih => intro mem; exact (ih _).trans (isSome_poke mem w.1 x w.2)

theorem isSome_writeAll (s : ServerState) (pid : UInt32) (ws : List (UInt64 × Byte)) (q : UInt32)
    (x : UInt64) :
    ((s.writeAll pid ws).mem q x).isSome = (s.mem q x).isSome := by
  by_cases hq : q = pid
  · subst hq
    rw [writeAll_self, isSome_pokeAll]
  · rw [writeAll_ne _ _ _ hq]

theorem same_writeAll (s : ServerState) (pid : UInt32) (ws : List (UInt64 × Byte)) :
    SameSession s (s.writeAll pid ws) :=
  ⟨rfl, rfl, fun _ => ⟨rfl, rfl⟩, isSome_writeAll s pid ws⟩

/-- A slot that is not debugging is cleared, or given to a new connection. -/
theorem SessionOk.setClient (h : SessionOk s z) (hc : (s.clients c).debugging = false)
    {cl : ServerClient} (hflag : cl.debugging = false) (hctx : cl.dbgctx = .zero) :
    SessionOk (s.setClient c cl) z := by
  intro hatt
  obtain ⟨k, hk, hz⟩ := h hatt
  by_cases hkc : k = c
  · subst hkc
    refine ⟨k, hk, .inr ⟨?_, ?_, fun i => ?_⟩⟩
    · rw [setClient_self]; exact hflag
    · rw [setClient_self, hctx]; rfl
    · rw [setClient_self, hctx]; rfl
  · have hcl := setClient_ne s c cl hkc
    refine ⟨k, hk, hz.imp (fun hz => ?_) fun hz => ?_⟩
    · exact ⟨by rw [hcl]; exact hz.flag, by rw [hcl]; exact hz.target, by rw [hcl]; exact hz.bps,
        by rw [hcl]; exact hz.dr⟩
    · exact ⟨by rw [hcl]; exact hz.flag, by rw [hcl]; exact hz.target, by rw [hcl]; exact hz.bps⟩

theorem mem_writeEffects {mem : TargetMem} {pid : UInt32} {ws : List (UInt64 × Byte)} {e : Effect} :
    e ∈ writeEffects mem pid ws ↔ ∃ w ∈ ws, (mem w.1).isSome = true ∧ e = .write pid w.1 w.2 := by
  simp only [writeEffects, List.mem_map, List.mem_filter]
  constructor
  · rintro ⟨w, ⟨hw, hm⟩, rfl⟩
    exact ⟨w, hw, hm, rfl⟩
  · rintro ⟨w, hw, hm, rfl⟩
    exact ⟨w, ⟨hw, hm⟩, rfl⟩

/-- The writes that put back what a slot with an address has saved. -/
theorem DebugSession.Holds.restores {k : ClientId} (h : z.Holds s k) {i : Fin 30}
    (hi : ((s.clients k).dbgctx.bps i).address ≠ 0)
    (hm : (s.mem (s.clients k).dbgctx.pid ((s.clients k).dbgctx.bps i).address).isSome = true) :
    (((s.clients k).dbgctx.bps i).address, ((s.clients k).dbgctx.bps i).saved) ∈ z.set := by
  rw [h.target] at hm
  exact h.bps i (enabled_of_address hi) hm

theorem explains_teardown (h : SessionOk s z) (os : TeardownOs) :
    ∀ e ∈ (debugFullTeardown s s.curdbgctx os).2, z.explains e := by
  intro e he
  unfold debugFullTeardown at he
  split at he
  · cases he
  · rename_i hatt
    obtain ⟨k, hk, hz⟩ := h (by simpa using hatt)
    simp only [hk] at he
    split at he
    · rcases List.mem_append.mp he with he | he
      · obtain ⟨w, hw, hm, rfl⟩ := mem_writeEffects.mp he
        rw [teardownWrites_eq, List.mem_map] at hw
        obtain ⟨i, hi, rfl⟩ := hw
        have haddr := mem_reached.mp hi i le_rfl
        rcases hz with hz | hz
        · exact ⟨hz.target, .inl (hz.restores haddr hm)⟩
        · exact absurd (hz.bps i) haddr
      · obtain ⟨lwp, _, rfl⟩ := List.mem_map.mp he
        exact .inl rfl
    · cases he

end Ps5Debugger
