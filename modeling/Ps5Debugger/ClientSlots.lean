import Ps5Debugger.Lib.Bytes
import Ps5Debugger.Lib.Machine
import Mathlib.Logic.Function.Basic

/-!
# The client slots

`start_server` (`main.c`) takes a slot of `g_clients` for every connection it accepts, and the thread
of the connection gives it back with `free_client` (`meta.c`) when `handle_client` returns. Nothing is
locked. Here `alloc_client`, the stores of `start_server`, and each statement of `free_client` are steps
of their own, in any order between the acceptor and the threads.

`free_client` stores `active = 0` before it has done with the slot. From there on the acceptor may hand
the slot out again; what is left of `free_client` then closes the socket of the new connection and clears
its entry (`slot_lost`). As long as that does not happen, a slot belongs to one connection
(`slots_belong_to_one`).
-/

namespace Ps5Debugger

open Lib

namespace ClientSlots

def SERVER_MAXCLIENTS : Nat := 12

/-- `struct server_client`, less `dbgctx`. -/
structure ServerClient where
  active : UInt32
  fd : Int
  debugging : Bool
  client_addr : List Byte

/-- An entry after `memset`. -/
def ServerClient.zero : ServerClient := ⟨0, 0, false, List.replicate 16 0⟩

/-- What is done next for a connection. -/
inductive Phase : Type where
  /-- `alloc_client` has returned -/
  | allocated
  /-- the fields are stored, there is no thread yet -/
  | initialised
  /-- in `handle_client` -/
  | serving
  /-- `turboscan_session_free_idx(slot)` -/
  | sessionFree
  /-- `turboscan_alias_free_idx(slot)` -/
  | aliasFree
  /-- `svc->active = 0` -/
  | deactivate
  /-- `close(svc->fd)` -/
  | close
  /-- `debug_full_teardown(svc->dbgctx)` -/
  | teardown
  /-- `memset(svc, 0, SERVER_CLIENT_STRIDE)` -/
  | clear
  deriving DecidableEq, Repr

/-- A connection: its slot, and what `sceNetAccept` returned. -/
structure Conn where
  slot : Nat
  fd : Int
  client_addr : List Byte
  phase : Phase

/-- The slots, the connections by number, the connection that occupies the acceptor, the connection
at the other end of each open socket, and who has stored the turbo session of an index. -/
structure Server where
  g_clients : Nat → ServerClient
  conns : Nat → Option Conn
  next : Nat
  acceptor : Option Nat
  sockets : Int → Option Nat
  sessions : Nat → Option Nat

/-- `server_state_init` -/
def Server.init : Server := ⟨fun _ => .zero, fun _ => none, 0, none, fun _ => none, fun _ => none⟩

inductive Event : Type where
  /-- `sceNetAccept` and `alloc_client` -/
  | accept (fd : Int) (client_addr : List Byte)
  /-- the stores behind them -/
  | initFields
  /-- `scePthreadCreate`; if it fails the acceptor serves the connection itself -/
  | spawn (ok : Bool)
  /-- a turbo START that stores its session -/
  | turboStart (c : Nat)
  /-- an attach or a detach -/
  | setDebugging (slot : Nat) (debugging : Bool)
  /-- `handle_client` returns -/
  | finish (c : Nat)
  /-- the next statement of `free_client` -/
  | free (c : Nat)

/-! ## Steps -/

/-- `alloc_client`: the first slot that is not active. -/
def allocClient (g_clients : Nat → ServerClient) : Option Nat :=
  (List.range SERVER_MAXCLIENTS).find? fun idx => (g_clients idx).active == 0

/-- `client_idx`, as `handle_client` computes it for every command. -/
def Server.clientIdx (s : Server) (conn : Conn) : Nat :=
  (((s.g_clients conn.slot).active - 1) &&& 0xFF).toNat

def Server.setSlot (s : Server) (slot : Nat) (svc : ServerClient) : Server :=
  { s with g_clients := Function.update s.g_clients slot svc }

def Server.setConn (s : Server) (c : Nat) (conn : Option Conn) : Server :=
  { s with conns := Function.update s.conns c conn }

/-- A connection is accepted; the system gives it a socket that is not open. Without a free slot it is
closed at once. -/
def Server.accept (s : Server) (fd : Int) (client_addr : List Byte) : Server :=
  if s.acceptor.isNone ∧ 0 < fd ∧ s.sockets fd = none then
    match allocClient s.g_clients with
    | none => s
    | some idx =>
      { s.setConn s.next (some ⟨idx, fd, client_addr, .allocated⟩) with
        g_clients := Function.update s.g_clients idx
          { s.g_clients idx with active := UInt32.ofNat (idx + 1) }
        next := s.next + 1
        acceptor := some s.next
        sockets := Function.update s.sockets fd (some s.next) }
  else s

/-- The next statement of `free_client` for connection `c`. -/
def Server.freeStatement (s : Server) (c : Nat) (conn : Conn) : Server :=
  let svc := s.g_clients conn.slot
  match conn.phase with
  | .allocated | .initialised | .serving => s
  | .sessionFree =>
    { s.setConn c (some { conn with phase := .aliasFree }) with
      sessions := Function.update s.sessions conn.slot none }
  | .aliasFree => s.setConn c (some { conn with phase := .deactivate })
  | .deactivate =>
    (s.setSlot conn.slot { svc with active := 0 }).setConn c (some { conn with phase := .close })
  | .close =>
    { s.setConn c (some { conn with phase := .teardown }) with
      sockets := Function.update s.sockets svc.fd none }
  | .teardown => s.setConn c (some { conn with phase := .clear })
  | .clear =>
    { (s.setSlot conn.slot .zero).setConn c none with
      acceptor := if s.acceptor = some c then none else s.acceptor }

/-- One step; an event that cannot happen changes nothing. -/
def Server.step (s : Server) : Event → Server
  | .accept fd client_addr => s.accept fd client_addr
  | .initFields =>
    match s.acceptor.bind fun c => (s.conns c).map fun conn => (c, conn) with
    | some (c, conn) =>
      if conn.phase = .allocated then
        (s.setSlot conn.slot
          { s.g_clients conn.slot with fd := conn.fd, debugging := false, client_addr := conn.client_addr }).setConn c
          (some { conn with phase := .initialised })
      else s
    | none => s
  | .spawn ok =>
    match s.acceptor.bind fun c => (s.conns c).map fun conn => (c, conn) with
    | some (c, conn) =>
      if conn.phase = .initialised then
        { s.setConn c (some { conn with phase := .serving }) with acceptor := if ok then none else s.acceptor }
      else s
    | none => s
  | .turboStart c =>
    match s.conns c with
    | some conn =>
      if conn.phase = .serving ∧ s.clientIdx conn < SERVER_MAXCLIENTS then
        { s with sessions := Function.update s.sessions (s.clientIdx conn) (some c) }
      else s
    | none => s
  | .setDebugging slot debugging => s.setSlot slot { s.g_clients slot with debugging := debugging }
  | .finish c =>
    match s.conns c with
    | some conn => if conn.phase = .serving then s.setConn c (some { conn with phase := .sessionFree }) else s
    | none => s
  | .free c =>
    match s.conns c with
    | some conn => s.freeStatement c conn
    | none => s

/-! ## What is to hold -/

/-- The entry of connection `c` is the one stored for it, and so is its socket. -/
structure Server.Keeps (s : Server) (c : Nat) (conn : Conn) : Prop where
  active : (s.g_clients conn.slot).active = UInt32.ofNat (conn.slot + 1)
  fd : (s.g_clients conn.slot).fd = conn.fd
  client_addr : (s.g_clients conn.slot).client_addr = conn.client_addr
  socket : s.sockets conn.fd = some c

/-- **A slot belongs to one connection**: every connection that is served keeps its entry, shares its
`client_idx` with no other, and finds no session under it but its own. -/
structure Server.OneOwner (s : Server) : Prop where
  keeps : ∀ c conn, s.conns c = some conn → conn.phase = .serving → s.Keeps c conn
  index : ∀ c c' conn conn', s.conns c = some conn → s.conns c' = some conn' → conn.phase = .serving →
    conn'.phase = .serving → s.clientIdx conn = s.clientIdx conn' → c = c'
  session : ∀ c conn, s.conns c = some conn → conn.phase = .serving →
    ∀ owner ∈ s.sessions (s.clientIdx conn), owner = c

/-- `svc->active = 0` is done, `memset` is not. -/
def Phase.leaving : Phase → Bool
  | .close | .teardown | .clear => true
  | _ => false

/-- An accept does not get a slot that a `free_client` is still busy with. -/
def Server.NotLeaving (s : Server) : Event → Prop
  | .accept _ _ => ∀ idx ∈ allocClient s.g_clients, ∀ c < s.next, ∀ conn ∈ s.conns c,
    conn.slot = idx → conn.phase.leaving = false
  | _ => True

instance (s : Server) : ∀ e, Decidable (s.NotLeaving e)
  | .accept _ _ => inferInstanceAs (Decidable (∀ idx ∈ allocClient s.g_clients, ∀ c < s.next, ∀ conn ∈ s.conns c,
      conn.slot = idx → conn.phase.leaving = false))
  | .initFields | .spawn _ | .turboStart _ | .setDebugging _ _ | .finish _ | .free _ => isTrue trivial

/-! ## The invariant -/

/-- The slot is still active for its connection. -/
def Phase.holds : Phase → Bool
  | .allocated | .initialised | .serving | .sessionFree | .aliasFree | .deactivate => true
  | _ => false

/-- The fields have been stored. -/
def Phase.stored : Phase → Bool
  | .allocated => false
  | _ => true

/-- The socket is open. -/
def Phase.connected : Phase → Bool
  | .teardown | .clear => false
  | _ => true

/-- There may be a turbo session. -/
def Phase.hasSession : Phase → Bool
  | .serving | .sessionFree => true
  | _ => false

variable {s s' : Server} {c : Nat} {conn conn' : Conn}

/-- What holds of a connection until `memset`. -/
structure ConnOk (s : Server) (c : Nat) (conn : Conn) : Prop where
  lt : c < s.next
  slot_lt : conn.slot < SERVER_MAXCLIENTS
  active : conn.phase.holds = true → (s.g_clients conn.slot).active = UInt32.ofNat (conn.slot + 1)
  fields : conn.phase.stored = true →
    (s.g_clients conn.slot).fd = conn.fd ∧ (s.g_clients conn.slot).client_addr = conn.client_addr
  socket : conn.phase.connected = true → s.sockets conn.fd = some c

structure SlotsInv (s : Server) : Prop where
  conn : ∀ c conn, s.conns c = some conn → ConnOk s c conn
  apart : ∀ c c' conn conn', s.conns c = some conn → s.conns c' = some conn' → conn.slot = conn'.slot → c = c'
  session : ∀ i owner, s.sessions i = some owner →
    ∃ conn, s.conns owner = some conn ∧ conn.slot = i ∧ conn.phase.hasSession = true

theorem slotsInv_init : SlotsInv Server.init :=
  ⟨fun _ _ h => (by cases h), fun _ _ _ _ h => (by cases h), fun _ _ h => (by cases h)⟩

theorem conns_setConn_ne {c' : Nat} (h : c' ≠ c) (x : Option Conn) : (s.setConn c x).conns c' = s.conns c' :=
  Function.update_of_ne (β := fun _ => Option Conn) h x s.conns

@[simp] theorem conns_setConn (s : Server) (c : Nat) (x : Option Conn) : (s.setConn c x).conns c = x :=
  Function.update_self (β := fun _ => Option Conn) c x s.conns

@[simp] theorem g_clients_setSlot (s : Server) (i : Nat) (svc : ServerClient) : (s.setSlot i svc).g_clients i = svc :=
  Function.update_self (β := fun _ => ServerClient) i svc s.g_clients

theorem g_clients_setSlot_ne {i j : Nat} (h : j ≠ i) (svc : ServerClient) :
    (s.setSlot i svc).g_clients j = s.g_clients j :=
  Function.update_of_ne (β := fun _ => ServerClient) h svc s.g_clients

/-- What a step of connection `c` may do: it keeps to its own slot, its own socket, and sessions under its own
index. -/
structure Moves (s s' : Server) (c : Nat) (conn : Conn) : Prop where
  next : s'.next = s.next
  others : ∀ c', c' ≠ c → s'.conns c' = s.conns c'
  slots : ∀ i, i ≠ conn.slot → s'.g_clients i = s.g_clients i
  sockets : ∀ f, s.sockets f ≠ some c → s'.sockets f = s.sockets f
  sessions : ∀ i owner, owner ≠ c → s'.sessions i = some owner → s.sessions i = some owner

/-- A connection that is not the one that moves. -/
theorem SlotsInv.other (h : SlotsInv s) (hc : s.conns c = some conn) (hm : Moves s s' c conn) {c' : Nat}
    (hne : c' ≠ c) (hc' : s.conns c' = some conn') : ConnOk s' c' conn' := by
  have hok := h.conn c' conn' hc'
  have hslot : conn'.slot ≠ conn.slot := fun he => hne (h.apart c' c conn' conn hc' hc he)
  refine ⟨by rw [hm.next]; exact hok.lt, hok.slot_lt, ?_, ?_, fun hcon => ?_⟩
  · rw [hm.slots _ hslot]
    exact hok.active
  · rw [hm.slots _ hslot]
    exact hok.fields
  · have hsock := hok.socket hcon
    rw [hm.sockets _ (by rw [hsock]; exact fun he => hne (Option.some.inj he)), hsock]

/-- A connection goes on to another phase. -/
theorem SlotsInv.move (h : SlotsInv s) (conn' : Conn) (hc : s.conns c = some conn) (hm : Moves s s' c conn)
    (hnew : s'.conns c = some conn') (hslot : conn'.slot = conn.slot) (hok : ConnOk s' c conn')
    (hsession : ∀ i, s'.sessions i = some c → i = conn.slot ∧ conn'.phase.hasSession = true) : SlotsInv s' where
  conn := fun d dconn hd => by
    by_cases hdc : d = c
    · subst hdc
      obtain rfl := Option.some.inj (hd.symm.trans hnew)
      exact hok
    · rw [hm.others d hdc] at hd
      exact h.other hc hm hdc hd
  apart := fun d e dconn econn hd he heq => by
    -- the slots of all connections are what they were
    have hold : ∀ d dconn, s'.conns d = some dconn → ∃ old, s.conns d = some old ∧ old.slot = dconn.slot := by
      intro d dconn hd
      by_cases hdc : d = c
      · subst hdc
        obtain rfl := Option.some.inj (hd.symm.trans hnew)
        exact ⟨conn, hc, hslot.symm⟩
      · rw [hm.others d hdc] at hd
        exact ⟨dconn, hd, rfl⟩
    obtain ⟨dold, hd', hds⟩ := hold d dconn hd
    obtain ⟨eold, he', hes⟩ := hold e econn he
    exact h.apart d e dold eold hd' he' (by rw [hds, hes, heq])
  session := fun i owner hi => by
    by_cases ho : owner = c
    · subst ho
      obtain ⟨rfl, hs⟩ := hsession i hi
      exact ⟨conn', hnew, hslot, hs⟩
    · obtain ⟨oconn, hoc, hos⟩ := h.session i owner (hm.sessions i owner ho hi)
      exact ⟨oconn, by rw [hm.others owner ho]; exact hoc, hos⟩

/-- A connection is gone. -/
theorem SlotsInv.remove (h : SlotsInv s) (hc : s.conns c = some conn) (hm : Moves s s' c conn)
    (hgone : s'.conns c = none) (hsession : ∀ i, s'.sessions i ≠ some c) : SlotsInv s' where
  conn := fun d dconn hd => by
    have hdc : d ≠ c := fun he => by rw [he, hgone] at hd; cases hd
    rw [hm.others d hdc] at hd
    exact h.other hc hm hdc hd
  apart := fun d e dconn econn hd he heq => by
    have hdc : d ≠ c := fun he => by rw [he, hgone] at hd; cases hd
    have hec : e ≠ c := fun hx => by rw [hx, hgone] at he; cases he
    rw [hm.others d hdc] at hd
    rw [hm.others e hec] at he
    exact h.apart d e dconn econn hd he heq
  session := fun i owner hi => by
    have ho : owner ≠ c := fun he => hsession i (he ▸ hi)
    obtain ⟨oconn, hoc, hos⟩ := h.session i owner (hm.sessions i owner ho hi)
    exact ⟨oconn, by rw [hm.others owner ho]; exact hoc, hos⟩

/-- The turbo session of a connection is under its own index. -/
theorem SlotsInv.own_session (h : SlotsInv s) (hc : s.conns c = some conn) {i : Nat} (hi : s.sessions i = some c) :
    i = conn.slot ∧ conn.phase.hasSession = true := by
  obtain ⟨conn', hc', rfl, hs⟩ := h.session i c hi
  obtain rfl := Option.some.inj (hc.symm.trans hc')
  exact ⟨rfl, hs⟩

theorem SlotsInv.no_session (h : SlotsInv s) (hc : s.conns c = some conn) (hphase : conn.phase.hasSession = false)
    (i : Nat) : s.sessions i ≠ some c := fun hi => by
  rw [(h.own_session hc hi).2] at hphase
  cases hphase

/-! ## The steps keep it -/

/-- A step that only changes what is next, and perhaps who occupies the acceptor. -/
theorem moves_setConn (x : Option Conn) (acceptor : Option Nat) :
    Moves s { s.setConn c x with acceptor := acceptor } c conn where
  next := rfl
  others := fun _ h => conns_setConn_ne h x
  slots := fun _ _ => rfl
  sockets := fun _ _ => rfl
  sessions := fun _ _ _ h => h

theorem SlotsInv.initFields (h : SlotsInv s) : SlotsInv (s.step .initFields) := by
  unfold Server.step
  dsimp only
  split
  · next c conn hbind =>
    obtain ⟨_, _, hmap⟩ := Option.bind_eq_some_iff.mp hbind
    obtain ⟨conn', hc, heq⟩ := Option.map_eq_some_iff.mp hmap
    obtain ⟨rfl, rfl⟩ := Prod.mk.inj heq
    split
    · next hphase =>
      have hok := h.conn _ _ hc
      refine h.move { conn' with phase := .initialised } hc
        ⟨rfl, fun d hd => conns_setConn_ne hd _, fun i hi => g_clients_setSlot_ne hi _, fun _ _ => rfl,
          fun _ _ _ hs => hs⟩ (conns_setConn _ _ _) rfl ?_ fun i hi => ?_
      · refine ⟨hok.lt, hok.slot_lt, fun _ => ?_, fun _ => ?_, fun _ => hok.socket (by rw [hphase]; rfl)⟩
        · exact (congrArg ServerClient.active (g_clients_setSlot s conn'.slot _)).trans
            (hok.active (by rw [hphase]; rfl))
        · exact ⟨congrArg ServerClient.fd (g_clients_setSlot s conn'.slot _),
            congrArg ServerClient.client_addr (g_clients_setSlot s conn'.slot _)⟩
      · exact absurd hi (h.no_session hc (by rw [hphase]; rfl) i)
    · exact h
  · exact h

theorem SlotsInv.spawn (h : SlotsInv s) (ok : Bool) : SlotsInv (s.step (.spawn ok)) := by
  unfold Server.step
  dsimp only
  split
  · next c conn hbind =>
    obtain ⟨_, _, hmap⟩ := Option.bind_eq_some_iff.mp hbind
    obtain ⟨conn', hc, heq⟩ := Option.map_eq_some_iff.mp hmap
    obtain ⟨rfl, rfl⟩ := Prod.mk.inj heq
    split
    · next hphase =>
      have hok := h.conn _ _ hc
      refine h.move { conn' with phase := .serving } hc (moves_setConn _ _) (conns_setConn _ _ _) rfl
        ⟨hok.lt, hok.slot_lt, fun _ => hok.active (by rw [hphase]; rfl), fun _ => hok.fields (by rw [hphase]; rfl),
          fun _ => hok.socket (by rw [hphase]; rfl)⟩
        fun i hi => absurd hi (h.no_session hc (by rw [hphase]; rfl) i)
    · exact h
  · exact h

theorem SlotsInv.finish (h : SlotsInv s) (c : Nat) : SlotsInv (s.step (.finish c)) := by
  unfold Server.step
  dsimp only
  split
  · next conn hc =>
    split
    · next hphase =>
      have hok := h.conn _ _ hc
      refine h.move { conn with phase := .sessionFree } hc
        ⟨rfl, fun d hd => conns_setConn_ne hd _, fun _ _ => rfl, fun _ _ => rfl, fun _ _ _ hs => hs⟩
        (conns_setConn _ _ _) rfl
        ⟨hok.lt, hok.slot_lt, fun _ => hok.active (by rw [hphase]; rfl), fun _ => hok.fields (by rw [hphase]; rfl),
          fun _ => hok.socket (by rw [hphase]; rfl)⟩ fun i hi => ⟨(h.own_session hc hi).1, rfl⟩
    · exact h
  · exact h

/-- The index of a slot comes back from `active`. -/
theorem clientIdx_eq (hlt : conn.slot < SERVER_MAXCLIENTS)
    (hact : (s.g_clients conn.slot).active = UInt32.ofNat (conn.slot + 1)) : s.clientIdx conn = conn.slot := by
  rw [Server.clientIdx, hact]
  have hall : ∀ i < SERVER_MAXCLIENTS, ((UInt32.ofNat (i + 1) - 1) &&& 0xFF).toNat = i := by decide
  exact hall _ hlt

theorem SlotsInv.turboStart (h : SlotsInv s) (c : Nat) : SlotsInv (s.step (.turboStart c)) := by
  unfold Server.step
  dsimp only
  split
  · next conn hc =>
    split
    · next hphase =>
      obtain ⟨hserving, _⟩ := hphase
      have hok := h.conn _ _ hc
      have hidx := clientIdx_eq hok.slot_lt (hok.active (by rw [hserving]; rfl))
      have hupdate : ∀ i owner, owner ≠ c →
          Function.update s.sessions (s.clientIdx conn) (some c) i = some owner → s.sessions i = some owner := by
        intro i owner ho hi
        by_cases hic : i = s.clientIdx conn
        · rw [hic, Function.update_self] at hi
          exact absurd (Option.some.inj hi).symm ho
        · rwa [Function.update_of_ne hic] at hi
      refine h.move conn hc ⟨rfl, fun _ _ => rfl, fun _ _ => rfl, fun _ _ => rfl, hupdate⟩ hc rfl
        ⟨hok.lt, hok.slot_lt, hok.active, hok.fields, hok.socket⟩ fun i hi => ⟨?_, by rw [hserving]; rfl⟩
      by_cases hic : i = s.clientIdx conn
      · exact hic.trans hidx
      · exact (h.own_session hc ((Function.update_of_ne hic _ _).symm.trans hi)).1
    · exact h
  · exact h

theorem SlotsInv.setDebugging (h : SlotsInv s) (slot : Nat) (debugging : Bool) :
    SlotsInv (s.step (.setDebugging slot debugging)) := by
  have hsame : ∀ i, ((s.step (.setDebugging slot debugging)).g_clients i).active = (s.g_clients i).active ∧
      ((s.step (.setDebugging slot debugging)).g_clients i).fd = (s.g_clients i).fd ∧
      ((s.step (.setDebugging slot debugging)).g_clients i).client_addr = (s.g_clients i).client_addr := by
    intro i
    by_cases hi : i = slot
    · subst hi
      rw [Server.step, g_clients_setSlot]
      exact ⟨rfl, rfl, rfl⟩
    · rw [Server.step, g_clients_setSlot_ne hi]
      exact ⟨rfl, rfl, rfl⟩
  refine ⟨fun c conn hc => ?_, h.apart, h.session⟩
  have hok := h.conn c conn hc
  obtain ⟨ha, hf, hd⟩ := hsame conn.slot
  exact ⟨hok.lt, hok.slot_lt, by rw [ha]; exact hok.active, by rw [hf, hd]; exact hok.fields, hok.socket⟩

/-- The next statement of `free_client`. -/
theorem SlotsInv.freeStatement (h : SlotsInv s) (hc : s.conns c = some conn) :
    SlotsInv (s.freeStatement c conn) := by
  have hok := h.conn c conn hc
  have hmoves : ∀ x, Moves s (s.setConn c x) c conn := fun x => moves_setConn x s.acceptor
  unfold Server.freeStatement
  dsimp only
  split
  · exact h
  · exact h
  · exact h
  · next hphase =>
    -- the session is freed
    have hsessions : ∀ i owner, Function.update s.sessions conn.slot none i = some owner →
        i ≠ conn.slot ∧ s.sessions i = some owner := by
      intro i owner hi
      by_cases hic : i = conn.slot
      · rw [hic, Function.update_self] at hi
        cases hi
      · exact ⟨hic, by rwa [Function.update_of_ne hic] at hi⟩
    refine h.move { conn with phase := .aliasFree } hc
      ⟨rfl, (hmoves _).others, fun _ _ => rfl, fun _ _ => rfl, fun i owner _ hi => (hsessions i owner hi).2⟩
      (conns_setConn _ _ _) rfl ⟨hok.lt, hok.slot_lt, fun _ => hok.active (by rw [hphase]; rfl),
        fun _ => hok.fields (by rw [hphase]; rfl), fun _ => hok.socket (by rw [hphase]; rfl)⟩ fun i hi => ?_
    obtain ⟨hne, hold⟩ := hsessions i c hi
    exact absurd (h.own_session hc hold).1 hne
  · next hphase =>
    exact h.move { conn with phase := .deactivate } hc (hmoves _) (conns_setConn _ _ _) rfl
      ⟨hok.lt, hok.slot_lt, fun _ => hok.active (by rw [hphase]; rfl), fun _ => hok.fields (by rw [hphase]; rfl),
        fun _ => hok.socket (by rw [hphase]; rfl)⟩ fun i hi => absurd hi (h.no_session hc (by rw [hphase]; rfl) i)
  · next hphase =>
    -- `active = 0`
    have hfields := hok.fields (by rw [hphase]; rfl)
    refine h.move { conn with phase := .close } hc
      ⟨rfl, fun d hd => conns_setConn_ne hd _, fun i hi => g_clients_setSlot_ne hi _, fun _ _ => rfl,
        fun _ _ _ hs => hs⟩
      (conns_setConn _ _ _) rfl ⟨hok.lt, hok.slot_lt, fun hh => (by cases hh), fun _ => ?_,
        fun _ => hok.socket (by rw [hphase]; rfl)⟩ fun i hi => absurd hi (h.no_session hc (by rw [hphase]; rfl) i)
    exact ⟨(congrArg ServerClient.fd (g_clients_setSlot s conn.slot _)).trans hfields.1,
      (congrArg ServerClient.client_addr (g_clients_setSlot s conn.slot _)).trans hfields.2⟩
  · next hphase =>
    -- the socket that is closed is that of the connection
    have hfd := (hok.fields (by rw [hphase]; rfl)).1
    have hsock := hok.socket (by rw [hphase]; rfl)
    refine h.move { conn with phase := .teardown } hc
      ⟨rfl, (hmoves _).others, fun _ _ => rfl, fun f hf => ?_, fun _ _ _ hs => hs⟩ (conns_setConn _ _ _) rfl
      ⟨hok.lt, hok.slot_lt, fun hh => (by cases hh), fun _ => hok.fields (by rw [hphase]; rfl),
        fun hh => (by cases hh)⟩ fun i hi => absurd hi (h.no_session hc (by rw [hphase]; rfl) i)
    exact Function.update_of_ne (fun he => hf (by rw [he, hfd, hsock])) _ _
  · next hphase =>
    exact h.move { conn with phase := .clear } hc (hmoves _) (conns_setConn _ _ _) rfl
      ⟨hok.lt, hok.slot_lt, fun hh => (by cases hh), fun _ => hok.fields (by rw [hphase]; rfl),
        fun hh => (by cases hh)⟩ fun i hi => absurd hi (h.no_session hc (by rw [hphase]; rfl) i)
  · next hphase =>
    exact h.remove hc
      ⟨rfl, fun d hd => conns_setConn_ne hd _, fun i hi => g_clients_setSlot_ne hi _, fun _ _ => rfl,
        fun _ _ _ hs => hs⟩ (conns_setConn _ _ _) (h.no_session hc (by rw [hphase]; rfl))

/-- A slot that `alloc_client` finds is not active. -/
theorem allocClient_spec {g : Nat → ServerClient} {idx : Nat} (h : allocClient g = some idx) :
    idx < SERVER_MAXCLIENTS ∧ (g idx).active = 0 := by
  have hmem := List.mem_of_find?_eq_some h
  have hact := List.find?_some h
  exact ⟨List.mem_range.mp hmem, by simpa using hact⟩

/-- An accept that gets a slot nobody is leaving gets one that nobody has. -/
theorem SlotsInv.unused (h : SlotsInv s) {fd : Int} {client_addr : List Byte} {idx : Nat}
    (hok : s.NotLeaving (.accept fd client_addr)) (halloc : allocClient s.g_clients = some idx)
    (hc : s.conns c = some conn) : conn.slot ≠ idx := by
  intro hslot
  have hcon := h.conn c conn hc
  obtain ⟨_, hzero⟩ := allocClient_spec halloc
  have hleaving := hok idx halloc c hcon.lt conn hc hslot
  have hholds : conn.phase.holds = true := by
    cases hp : conn.phase <;> rw [hp] at hleaving <;> first | rfl | cases hleaving
  have hact := hcon.active hholds
  rw [hslot, hzero] at hact
  have hall : ∀ i < SERVER_MAXCLIENTS, (0 : UInt32) ≠ UInt32.ofNat (i + 1) := by decide
  exact hall idx (hslot ▸ hcon.slot_lt) hact

theorem SlotsInv.accept (h : SlotsInv s) {fd : Int} {client_addr : List Byte}
    (hok : s.NotLeaving (.accept fd client_addr)) : SlotsInv (s.step (.accept fd client_addr)) := by
  unfold Server.step Server.accept
  dsimp only
  split
  · next hen =>
    split
    · exact h
    · next idx halloc =>
      obtain ⟨hidx, _⟩ := allocClient_spec halloc
      have hnew : ∀ c conn, s.conns c = some conn → c ≠ s.next := fun c conn hc => (h.conn c conn hc).lt.ne
      have hsplit : ∀ c conn, Function.update s.conns s.next (some ⟨idx, fd, client_addr, .allocated⟩) c = some conn →
          (c = s.next ∧ conn = ⟨idx, fd, client_addr, .allocated⟩) ∨ (c ≠ s.next ∧ s.conns c = some conn) := by
        intro c conn hc
        by_cases hcn : c = s.next
        · rw [hcn, Function.update_self] at hc
          exact .inl ⟨hcn, (Option.some.inj hc).symm⟩
        · rw [Function.update_of_ne hcn] at hc
          exact .inr ⟨hcn, hc⟩
      refine ⟨fun c conn hc => ?_, fun c d conn dconn hc hd heq => ?_, fun i owner hi => ?_⟩
      · obtain ⟨rfl, rfl⟩ | ⟨hne, hold⟩ := hsplit c conn hc
        · refine ⟨Nat.lt_succ_self _, hidx, fun _ => ?_, fun hh => (by cases hh), fun _ => ?_⟩
          · exact congrArg ServerClient.active (Function.update_self (β := fun _ => ServerClient) idx _ s.g_clients)
          · exact Function.update_self (β := fun _ => Option Nat) fd _ s.sockets
        · have hcon := h.conn c conn hold
          have hslot : (Function.update s.g_clients idx { s.g_clients idx with active := UInt32.ofNat (idx + 1) })
              conn.slot = s.g_clients conn.slot :=
            Function.update_of_ne (β := fun _ => ServerClient) (h.unused hok halloc hold) _ s.g_clients
          refine ⟨Nat.lt_succ_of_lt hcon.lt, hcon.slot_lt, fun hh => ?_, fun hh => ?_, fun hh => ?_⟩
          · exact (congrArg ServerClient.active hslot).trans (hcon.active hh)
          · obtain ⟨h1, h2⟩ := hcon.fields hh
            exact ⟨(congrArg ServerClient.fd hslot).trans h1, (congrArg ServerClient.client_addr hslot).trans h2⟩
          · have hsock := hcon.socket hh
            have hfd : conn.fd ≠ fd := fun he => by rw [he, hen.2.2] at hsock; cases hsock
            exact (Function.update_of_ne (β := fun _ => Option Nat) hfd _ s.sockets).trans hsock
      · obtain ⟨rfl, rfl⟩ | ⟨hne, hold⟩ := hsplit c conn hc
        · obtain ⟨rfl, rfl⟩ | ⟨hne', hold'⟩ := hsplit d dconn hd
          · rfl
          · exact absurd heq.symm (h.unused hok halloc hold')
        · obtain ⟨rfl, rfl⟩ | ⟨hne', hold'⟩ := hsplit d dconn hd
          · exact absurd heq (h.unused hok halloc hold)
          · exact h.apart c d conn dconn hold hold' heq
      · obtain ⟨conn, hc, hs⟩ := h.session i owner hi
        exact ⟨conn, (Function.update_of_ne (hnew owner conn hc) _ _).trans hc, hs⟩
  · exact h

theorem slotsInv_step (s : Server) (e : Event) (h : SlotsInv s) (hok : s.NotLeaving e) : SlotsInv (s.step e) := by
  cases e with
  | accept fd client_addr => exact h.accept hok
  | initFields => exact h.initFields
  | spawn ok => exact h.spawn ok
  | turboStart c => exact h.turboStart c
  | setDebugging slot debugging => exact h.setDebugging slot debugging
  | finish c => exact h.finish c
  | free c =>
    unfold Server.step
    dsimp only
    split
    · next conn hc => exact h.freeStatement hc
    · exact h

/-! ## One owner -/

theorem SlotsInv.oneOwner (h : SlotsInv s) : s.OneOwner := by
  have hserved : ∀ {c conn}, s.conns c = some conn → conn.phase = .serving →
      s.Keeps c conn ∧ s.clientIdx conn = conn.slot := by
    intro c conn hc hp
    have hok := h.conn c conn hc
    have hact := hok.active (by rw [hp]; rfl)
    obtain ⟨hfd, haddr⟩ := hok.fields (by rw [hp]; rfl)
    exact ⟨⟨hact, hfd, haddr, hok.socket (by rw [hp]; rfl)⟩, clientIdx_eq hok.slot_lt hact⟩
  refine ⟨fun c conn hc hp => (hserved hc hp).1, fun c c' conn conn' hc hc' hp hp' heq => ?_,
    fun c conn hc hp owner ho => ?_⟩
  · rw [(hserved hc hp).2, (hserved hc' hp').2] at heq
    exact h.apart c c' conn conn' hc hc' heq
  · rw [(hserved hc hp).2] at ho
    obtain ⟨oconn, hoc, hslot, _⟩ := h.session _ owner ho
    exact h.apart owner c oconn conn hoc hc hslot

/-- **A slot belongs to one connection**, in every interleaving in which no accept gets a slot that a
`free_client` is still busy with. -/
theorem slots_belong_to_one (evs : List Event) (hok : Along Server.step Server.NotLeaving .init evs) :
    (evs.foldl Server.step .init).OneOwner :=
  (Along.keeps SlotsInv slotsInv_step evs slotsInv_init hok).oneOwner

/-- Two connections, the second after the first has left its slot. -/
theorem slots_belong_to_one_in_turn :
    let evs : List Event := [.accept 5 (List.replicate 16 1), .initFields, .spawn true, .turboStart 0, .finish 0,
      .free 0, .free 0, .free 0, .free 0, .free 0, .free 0, .accept 6 (List.replicate 16 2), .initFields, .spawn true]
    Along Server.step Server.NotLeaving .init evs ∧ (evs.foldl Server.step .init).OneOwner := by
  intro evs
  have hok : Along Server.step Server.NotLeaving .init evs := by decide
  exact ⟨hok, slots_belong_to_one evs hok⟩

/-- The second connection is accepted between two statements of `free_client` for the first: the rest of
them closes its socket and clears its entry. -/
theorem slot_lost :
    let evs : List Event := [.accept 5 (List.replicate 16 1), .initFields, .spawn true, .finish 0, .free 0, .free 0,
      .free 0, .accept 6 (List.replicate 16 2), .initFields, .spawn true, .free 0, .free 0, .free 0]
    ¬ (evs.foldl Server.step .init).OneOwner := by
  intro evs h
  have hkeeps := h.keeps 1 ⟨0, 6, List.replicate 16 2, .serving⟩ rfl rfl
  have hact := hkeeps.active
  revert hact
  decide

end ClientSlots

end Ps5Debugger
