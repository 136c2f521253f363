import Ps5Debugger.Debug
import Ps5Debugger.Net

/-!
# The command loop of a connection

`handle_client` (`main.c`) over everything a client sends: a header of 12 bytes, a body of
`datalen` bytes, the handler. Handlers here read nothing more from the connection.

A request that is refused, because its body is longer than 0x100000 bytes or because there is no
memory for it, is answered, and the loop goes on with what follows the *header*: the body is not
skipped and is taken for headers. `framing_survives_iff` says that this is the only way the loop
loses the framing, apart from ending early.
-/

namespace Ps5Debugger

open Lib

/-! ## The loop -/

def PACKET_MAGIC : UInt32 := 0xFFAABBCC

/-- The longest body that is received. -/
def maxDatalen : Nat := 0x100000

/-- What the loop asks of the outside at the `n`-th header it reads. -/
structure ClientOs where
  /-- `malloc(packet.datalen)` succeeds -/
  alloc : Nat → Bool
  /-- `cmd_handler`, or the event pump that runs before the next header, returns non-zero -/
  ends : Nat → Bool

inductive Action where
  /-- wrong magic: nothing is sent -/
  | drop
  | reply (status : UInt32)
  /-- `cmd_handler`, with `packet.cmd` and `packet.data` -/
  | dispatch (cmd : UInt32) (data : Option (List Byte))
  /-- the client closed inside the body -/
  | cut
  deriving DecidableEq

/-- A header that was read: its place in the client's bytes, and what was done about it. -/
structure HeaderRead where
  offset : Nat
  action : Action
  deriving DecidableEq

/-- `cmd_packet`, as far as it is on the wire. -/
structure Header where
  magic : UInt32
  cmd : UInt32
  datalen : Nat

/-- The 12 bytes of a header and what follows them; `none` when the client closes before. -/
def recvHeader (s : List Byte) : Option (Header × List Byte) :=
  let r := netRecvAll s 12
  if r.ok then
    some (⟨UInt32.ofNat (leNat 4 r.got), UInt32.ofNat (leNat 4 (r.got.drop 4)), leNat 4 (r.got.drop 8)⟩,
      r.rest)
  else none

/-- What the loop does about the `n`-th header, with `rest` to come, and what is then to come; no
stream is left when the thread returns. -/
def handlePacket (os : ClientOs) (n : Nat) (packet : Header) (rest : List Byte) :
    Action × Option (List Byte) :=
  if packet.magic ≠ PACKET_MAGIC then (.drop, some rest)
  else if packet.datalen ≠ 0 then
    if packet.datalen > maxDatalen then (.reply CMD_ERROR, some rest)
    else if os.alloc n = false then (.reply CMD_DATA_NULL, some rest)
    else
      let data := netRecvAll rest packet.datalen
      if data.ok = false then (.cut, none)
      else (.dispatch packet.cmd (some data.got), if os.ends n then none else some data.rest)
  else (.dispatch packet.cmd none, if os.ends n then none else some rest)

/-- How many bytes a pass consumes if it goes on. -/
def Action.consumed : Action → Nat
  | .dispatch _ data => 12 + (data.map List.length).getD 0
  | _ => 12

theorem recvHeader_length {s rest : List Byte} {packet : Header}
    (h : recvHeader s = some (packet, rest)) : s.length = 12 + rest.length := by
  rw [recvHeader, netRecvAll_eq] at h
  split at h
  · rename_i hok
    have hlen : 12 ≤ s.length := by simpa using hok
    obtain ⟨_, rfl⟩ := Prod.mk.inj (Option.some.inj h)
    simp only [Int.reduceToNat, List.length_drop]
    omega
  · cases h

theorem recvHeader_isSome {s : List Byte} (h : 12 ≤ s.length) : ∃ p, recvHeader s = some p := by
  rw [recvHeader, netRecvAll_eq]
  exact ⟨_, if_pos (by simpa using h)⟩

/-- Everything a packet can lead to. -/
theorem handlePacket_cases (os : ClientOs) (n : Nat) (packet : Header) (rest : List Byte) :
    (∃ a, handlePacket os n packet rest = (a, some rest) ∧ (a = .drop ∨ ∃ status, a = .reply status)) ∨
    handlePacket os n packet rest = (.cut, none) ∨
    ∃ data rest', rest = data.getD [] ++ rest' ∧
      (handlePacket os n packet rest = (.dispatch packet.cmd data, none) ∨
        handlePacket os n packet rest = (.dispatch packet.cmd data, some rest')) := by
  have hends : ∀ {α : Type} (x : α), (if os.ends n then none else some x) = none ∨
      (if os.ends n then none else some x) = some x := by
    intro α x
    cases os.ends n with
    | true => exact .inl rfl
    | false => exact .inr rfl
  unfold handlePacket
  simp only [netRecvAll_eq]
  split
  · exact .inl ⟨_, rfl, .inl rfl⟩
  · split
    · split
      · exact .inl ⟨_, rfl, .inr ⟨_, rfl⟩⟩
      · split
        · exact .inl ⟨_, rfl, .inr ⟨_, rfl⟩⟩
        · split
          · exact .inr (.inl rfl)
          · refine .inr (.inr ⟨some _, _, (List.take_append_drop packet.datalen rest).symm, ?_⟩)
            exact (hends _).imp (fun h => by rw [h]; rfl) fun h => by rw [h]; rfl
    · refine .inr (.inr ⟨none, rest, rfl, ?_⟩)
      exact (hends _).imp (fun h => by rw [h]) fun h => by rw [h]

/-- The loop goes on behind what the pass consumed. -/
theorem handlePacket_rest {os : ClientOs} {n : Nat} {packet : Header} {rest s' : List Byte}
    (h : (handlePacket os n packet rest).2 = some s') :
    (handlePacket os n packet rest).1.consumed + s'.length = 12 + rest.length := by
  rcases handlePacket_cases os n packet rest with ⟨a, hr, ha⟩ | hr | ⟨data, rest', hrest, hr | hr⟩
  · rw [hr] at h ⊢
    obtain rfl := Option.some.inj h
    rcases ha with rfl | ⟨status, rfl⟩ <;> rfl
  · rw [hr] at h; cases h
  · rw [hr] at h; cases h
  · rw [hr] at h ⊢
    obtain rfl := Option.some.inj h
    rw [hrest]
    cases data with
    | none => simp [Action.consumed]
    | some data =>
      simp only [Action.consumed, Option.map_some, Option.getD_some, List.length_append]
      omega

/-- The loop, from the `n`-th header on, `offset` bytes into the stream. The test of `errno` after
a header that was received is left out: `errno` was cleared before the pass, and a receive that
succeeds does not set it. -/
def handleClient (os : ClientOs) (n offset : Nat) (s : List Byte) : List HeaderRead :=
  match _hs : recvHeader s with
  | none => []
  | some (packet, rest) =>
    ⟨offset, (handlePacket os n packet rest).1⟩ :: match _hr : (handlePacket os n packet rest).2 with
      | none => []
      | some s' => handleClient os (n + 1) (offset + (handlePacket os n packet rest).1.consumed) s'
termination_by s.length
decreasing_by
  have hlen := recvHeader_length _hs
  have hrest := handlePacket_rest _hr
  have hpos : 12 ≤ (handlePacket os n packet rest).1.consumed := by
    cases (handlePacket os n packet rest).1 <;> simp [Action.consumed]
  omega

theorem handleClient_short (os : ClientOs) (n o : Nat) {s : List Byte} (h : recvHeader s = none) :
    handleClient os n o s = [] := by
  rw [handleClient]
  split
  · rfl
  · rename_i hs
    cases h.symm.trans hs

theorem handleClient_cons {os : ClientOs} {n o : Nat} {s rest : List Byte} {packet : Header}
    (h : recvHeader s = some (packet, rest)) :
    handleClient os n o s = ⟨o, (handlePacket os n packet rest).1⟩ ::
      (handlePacket os n packet rest).2.elim []
        (handleClient os (n + 1) (o + (handlePacket os n packet rest).1.consumed)) := by
  rw [handleClient]
  split
  · rename_i hs
    cases h.symm.trans hs
  · rename_i packet' rest' hs
    obtain ⟨rfl, rfl⟩ := Prod.mk.inj (Option.some.inj (h.symm.trans hs))
    split
    · rename_i hr
      rw [hr]
      rfl
    · rename_i s' hr
      rw [hr]
      rfl

/-! ## What a run does to its stream -/

section Run

variable {os : ClientOs} {n o : Nat} {s : List Byte}

/-- `cmd` and `data` of a header that was dispatched. -/
def HeaderRead.dispatched (h : HeaderRead) : Option (UInt32 × Option (List Byte)) :=
  match h.action with
  | .dispatch cmd data => some (cmd, data)
  | _ => none

/-- A reply is followed by a header right behind the one it answers. -/
theorem header_after_reply {x : Nat} {status : UInt32}
    (hx : ⟨x, .reply status⟩ ∈ handleClient os n o s) (hlen : x + 24 ≤ o + s.length) :
    ∃ h ∈ handleClient os n o s, h.offset = x + 12 := by
  induction n, o, s using handleClient.induct os with
  | case1 n o s hs =>
    rw [handleClient_short os n o hs] at hx
    cases hx
  | case2 n o s packet rest hs ih =>
    have hslen := recvHeader_length hs
    rw [handleClient_cons hs] at hx ⊢
    rcases List.mem_cons.mp hx with hx | hx
    · -- the reply is to this header: the loop goes on with what follows the header
      obtain ⟨rfl, hact⟩ := HeaderRead.mk.inj hx
      obtain ⟨a, hr, _⟩ | hr | ⟨_, _, _, hr | hr⟩ := handlePacket_cases os n packet rest
      · obtain ⟨⟨packet', rest'⟩, hp⟩ := recvHeader_isSome (s := rest) (by omega)
        rw [hr] at hact ⊢
        subst hact
        refine ⟨⟨x + 12, (handlePacket os (n + 1) packet' rest').1⟩, List.mem_cons_of_mem _ ?_, rfl⟩
        rw [Option.elim_some, handleClient_cons hp]
        exact List.mem_cons_self
      · rw [hr] at hact; cases hact
      · rw [hr] at hact; cases hact
      · rw [hr] at hact; cases hact
    · cases hr : (handlePacket os n packet rest).2 with
      | none => rw [hr] at hx; cases hx
      | some s' =>
        rw [hr] at hx
        have hrest := handlePacket_rest hr
        obtain ⟨h, hmem, hoff⟩ := ih s' hr hx (by omega)
        exact ⟨h, List.mem_cons_of_mem _ hmem, hoff⟩

/-- The bytes of a dispatched packet. -/
def dispatchLength (p : UInt32 × Option (List Byte)) : Nat := 12 + (p.2.getD []).length

/-- No byte is dispatched twice. -/
theorem dispatched_length_le (os : ClientOs) (n o : Nat) (s : List Byte) :
    (((handleClient os n o s).filterMap HeaderRead.dispatched).map dispatchLength).sum ≤ s.length := by
  induction n, o, s using handleClient.induct os with
  | case1 n o s hs =>
    rw [handleClient_short os n o hs]
    exact Nat.zero_le _
  | case2 n o s packet rest hs ih =>
    have hslen := recvHeader_length hs
    rw [handleClient_cons hs]
    rcases handlePacket_cases os n packet rest with ⟨a, hr, ha⟩ | hr | ⟨data, rest', hrest, hr | hr⟩
    · have hih := ih rest (by rw [hr])
      have hd : HeaderRead.dispatched ⟨o, a⟩ = none := by
        rcases ha with rfl | ⟨status, rfl⟩ <;> rfl
      rw [hr] at hih ⊢
      rw [List.filterMap_cons, hd]
      exact hih.trans (by omega)
    · rw [hr]
      exact Nat.zero_le _
    · rw [hr]
      have hlen := congrArg List.length hrest
      simp only [List.filterMap_cons, HeaderRead.dispatched, Option.elim_none, List.filterMap_nil,
        List.map_cons, List.map_nil, List.sum_cons, List.sum_nil, dispatchLength]
      rw [List.length_append] at hlen
      omega
    · have hih := ih rest' (by rw [hr])
      rw [hr] at hih ⊢
      have hlen := congrArg List.length hrest
      simp only [List.filterMap_cons, HeaderRead.dispatched, Option.elim_some, List.map_cons,
        List.sum_cons, dispatchLength] at hih ⊢
      rw [List.length_append] at hlen
      omega

end Run

/-! ## Requests -/

/-- A request as a client sends it. -/
structure Request where
  cmd : UInt32
  body : List Byte
  /-- `datalen` is a 32-bit word -/
  fits : body.length < 2 ^ 32

/-- Header and body on the wire. -/
def Request.bytes (r : Request) : List Byte :=
  leBytes 4 PACKET_MAGIC.toNat ++ leBytes 4 r.cmd.toNat ++ leBytes 4 r.body.length ++ r.body

/-- `packet.data`: no pointer without a body. -/
def Request.data (r : Request) : Option (List Byte) := if r.body = [] then none else some r.body

def Request.tooLong (r : Request) : Bool := decide (r.body.length > maxDatalen)

/-- The requests with their places in the stream, from `o` on. -/
def placed : Nat → List Request → List (Nat × Request)
  | _, [] => []
  | o, r :: rs => (o, r) :: placed (o + r.bytes.length) rs

/-- **The framing survives**: the requests that are not too long are dispatched, in order and with
their own bodies, the others are answered with an error, and no header overlaps the body of one
that was. -/
structure Survives (reqs : List Request) (reads : List HeaderRead) : Prop where
  dispatched : reads.filterMap HeaderRead.dispatched =
    (reqs.filter fun r => !r.tooLong).map fun r => (r.cmd, r.data)
  refused : ∀ p ∈ placed 0 reqs, p.2.tooLong = true → ⟨p.1, .reply CMD_ERROR⟩ ∈ reads
  framed : ∀ h ∈ reads, ∀ p ∈ placed 0 reqs, p.2.tooLong = true →
    h.offset + 12 ≤ p.1 + 12 ∨ p.1 + p.2.bytes.length ≤ h.offset

theorem length_bytes (r : Request) : r.bytes.length = 12 + r.body.length := by
  simp only [Request.bytes, List.length_append, length_leBytes]

/-- The header of a request. -/
def Request.header (r : Request) : Header := ⟨PACKET_MAGIC, r.cmd, r.body.length⟩

theorem recvHeader_request (r : Request) (rest : List Byte) :
    recvHeader (r.bytes ++ rest) = some (r.header, r.body ++ rest) := by
  have hsplit : r.bytes ++ rest =
      (leBytes 4 PACKET_MAGIC.toNat ++ (leBytes 4 r.cmd.toNat ++ (leBytes 4 r.body.length ++ []))) ++
        (r.body ++ rest) := by
    simp only [Request.bytes, List.append_assoc, List.nil_append]
  rw [recvHeader, hsplit, netRecvAll_append (by simp), if_pos rfl]
  have height : ∀ t : List Byte, t.drop 8 = (t.drop 4).drop 4 := fun t => by rw [List.drop_drop]
  have hlen : r.body.length < 256 ^ 4 := r.fits
  have hword : ∀ x : UInt32, x.toNat < 256 ^ 4 := UInt32.toNat_lt
  simp only [height, drop_leBytes, leNat_leBytes_append hlen, leNat_leBytes_append (hword _)]
  simp [Request.header]

/-- How the loop takes a request: a body that is too long, or for which there is no memory, stays
in the stream. -/
theorem handlePacket_request (os : ClientOs) (n : Nat) (r : Request) (rest : List Byte) :
    handlePacket os n r.header (r.body ++ rest) =
      if r.tooLong then (.reply CMD_ERROR, some (r.body ++ rest))
      else if r.body ≠ [] ∧ os.alloc n = false then (.reply CMD_DATA_NULL, some (r.body ++ rest))
      else (.dispatch r.cmd r.data, if os.ends n then none else some rest) := by
  unfold handlePacket
  rw [if_neg (by simp [Request.header])]
  by_cases hbody : r.body = []
  · simp [Request.header, Request.tooLong, Request.data, hbody]
  · have hrecv : netRecvAll (r.body ++ rest) r.header.datalen = ⟨r.body, true, rest⟩ :=
      netRecvAll_append rfl
    rw [if_pos (by simpa [Request.header] using hbody), hrecv]
    simp [Request.header, Request.tooLong, Request.data, hbody]

/-- What a client with these requests sends. -/
def clientStream (reqs : List Request) : List Byte := reqs.flatMap Request.bytes

/-- The loop at a request. -/
theorem handleClient_request (os : ClientOs) (n o : Nat) (r : Request) (rs : List Request) :
    handleClient os n o (clientStream (r :: rs)) =
      if r.tooLong then
        ⟨o, .reply CMD_ERROR⟩ :: handleClient os (n + 1) (o + 12) (r.body ++ clientStream rs)
      else if r.body ≠ [] ∧ os.alloc n = false then
        ⟨o, .reply CMD_DATA_NULL⟩ :: handleClient os (n + 1) (o + 12) (r.body ++ clientStream rs)
      else ⟨o, .dispatch r.cmd r.data⟩ ::
        if os.ends n then [] else handleClient os (n + 1) (o + r.bytes.length) (clientStream rs) := by
  have hdata : Action.consumed (.dispatch r.cmd r.data) = r.bytes.length := by
    rw [length_bytes, Action.consumed, Request.data]
    split
    · rename_i hbody
      simp [hbody]
    · rfl
  rw [clientStream, List.flatMap_cons, handleClient_cons (recvHeader_request r _), handlePacket_request]
  split
  · rfl
  · split
    · rfl
    · rw [hdata]
      cases os.ends n with
      | true => rfl
      | false => rfl

/-- Nothing goes wrong from the `n`-th header on: no request is too long, there is memory for its
body, and none but the last ends the thread. -/
def Sound (os : ClientOs) : Nat → List Request → Prop
  | _, [] => True
  | n, r :: rs => r.tooLong = false ∧ (r.body ≠ [] → os.alloc n = true) ∧
      (rs ≠ [] → os.ends n = false) ∧ Sound os (n + 1) rs

/-- When nothing goes wrong the loop dispatches request by request. -/
theorem dispatched_of_sound {os : ClientOs} : ∀ (reqs : List Request) (n o : Nat), Sound os n reqs →
    (handleClient os n o (clientStream reqs)).filterMap HeaderRead.dispatched =
      reqs.map fun r => (r.cmd, r.data)
  | [], n, o, _ => by
    have hnil : recvHeader (clientStream []) = none := by rw [recvHeader, netRecvAll_eq]; rfl
    rw [handleClient_short os n o hnil]
    rfl
  | r :: rs, n, o, ⟨hlong, halloc, hends, hrest⟩ => by
    have hno : ¬ (r.body ≠ [] ∧ os.alloc n = false) := by
      rintro ⟨hbody, hfail⟩
      rw [halloc hbody] at hfail
      cases hfail
    rw [handleClient_request, if_neg (by simp [hlong]), if_neg hno]
    simp only [List.filterMap_cons, HeaderRead.dispatched, List.map_cons, List.cons.injEq, true_and]
    cases rs with
    | nil =>
      split
      · rfl
      · exact dispatched_of_sound [] (n + 1) _ trivial
    | cons r' rs' =>
      rw [hends (by simp)]
      exact dispatched_of_sound (r' :: rs') (n + 1) _ hrest

theorem sum_dispatchLength (reqs : List Request) :
    ((reqs.map fun r => (r.cmd, r.data)).map dispatchLength).sum = (clientStream reqs).length := by
  induction reqs with
  | nil => rfl
  | cons r rs ih =>
    have hr : dispatchLength (r.cmd, r.data) = r.bytes.length := by
      rw [length_bytes, dispatchLength, Request.data]
      split
      · rename_i hbody
        simp [hbody]
      · rfl
    rw [List.map_cons, List.map_cons, List.sum_cons, ih, hr]
    exact (List.length_append ..).symm

/-- A loop that dispatches every request has no byte to spare, so nothing went wrong. -/
theorem sound_of_dispatched {os : ClientOs} : ∀ (reqs : List Request) (n o : Nat),
    (∀ r ∈ reqs, r.tooLong = false) →
    (handleClient os n o (clientStream reqs)).filterMap HeaderRead.dispatched =
      (reqs.map fun r => (r.cmd, r.data)) → Sound os n reqs
  | [], _, _, _, _ => trivial
  | r :: rs, n, o, hlong, hd => by
    have hr := hlong r List.mem_cons_self
    rw [handleClient_request, if_neg (by simp [hr])] at hd
    by_cases hno : r.body ≠ [] ∧ os.alloc n = false
    · -- the header of this request was spent on the reply
      exfalso
      rw [if_pos hno] at hd
      have hle := dispatched_length_le os (n + 1) (o + 12) (r.body ++ clientStream rs)
      have hsum := sum_dispatchLength (r :: rs)
      rw [← hd, List.filterMap_cons] at hsum
      have hlen : (clientStream (r :: rs)).length = 12 + (r.body ++ clientStream rs).length := by
        simp only [clientStream, List.flatMap_cons, List.length_append, length_bytes]
        omega
      simp only [HeaderRead.dispatched] at hsum
      omega
    · rw [if_neg hno] at hd
      simp only [List.filterMap_cons, HeaderRead.dispatched, List.map_cons, List.cons.injEq,
        true_and] at hd
      have halloc : r.body ≠ [] → os.alloc n = true := by
        intro hbody
        by_contra hfail
        exact hno ⟨hbody, by simpa using hfail⟩
      cases hends : os.ends n with
      | true =>
        rw [hends] at hd
        have hnil : rs = [] := List.map_eq_nil_iff.mp hd.symm
        subst hnil
        exact ⟨hr, halloc, fun h => absurd rfl h, trivial⟩
      | false =>
        rw [hends] at hd
        exact ⟨hr, halloc, fun _ => hends,
          sound_of_dispatched rs (n + 1) _ (fun r' h' => hlong r' (List.mem_cons_of_mem _ h')) hd⟩

theorem sound_iff {os : ClientOs} : ∀ (reqs : List Request) (n : Nat), Sound os n reqs ↔
    (∀ r ∈ reqs, r.tooLong = false) ∧
    (∀ k r, reqs[k]? = some r → r.body ≠ [] → os.alloc (n + k) = true) ∧
    ∀ k, k + 1 < reqs.length → os.ends (n + k) = false
  | [], n => by simp [Sound]
  | r :: rs, n => by
    rw [Sound, sound_iff rs (n + 1)]
    constructor
    · rintro ⟨hlong, halloc, hends, hlong', halloc', hends'⟩
      refine ⟨List.forall_mem_cons.mpr ⟨hlong, hlong'⟩, fun k r' hk => ?_, fun k hk => ?_⟩
      · cases k with
        | zero =>
          obtain rfl := Option.some.inj hk
          exact halloc
        | succ k => rw [Nat.add_comm k 1, ← Nat.add_assoc]; exact halloc' k r' hk
      · cases k with
        | zero => exact hends (List.ne_nil_of_length_pos (by simpa using hk))
        | succ k => rw [Nat.add_comm k 1, ← Nat.add_assoc]; exact hends' k (by simpa using hk)
    · rintro ⟨hlong, halloc, hends⟩
      obtain ⟨hr, hrs⟩ := List.forall_mem_cons.mp hlong
      refine ⟨hr, halloc 0 r rfl, fun hne => hends 0 ?_, hrs, fun k r' hk => ?_, fun k hk => ?_⟩
      · simpa using List.length_pos_iff.mpr hne
      · have h := halloc (k + 1) r' hk
        rwa [Nat.add_comm k 1, ← Nat.add_assoc] at h
      · have h := hends (k + 1) (by simpa using hk)
        rwa [Nat.add_comm k 1, ← Nat.add_assoc] at h

theorem mem_placed {p : Nat × Request} : ∀ {reqs : List Request} {o : Nat}, p ∈ placed o reqs →
    p.2 ∈ reqs ∧ p.1 + p.2.bytes.length ≤ o + (clientStream reqs).length
  | r :: rs, o, h => by
    have hlen : (clientStream (r :: rs)).length = r.bytes.length + (clientStream rs).length :=
      List.length_append ..
    rcases List.mem_cons.mp h with rfl | h
    · exact ⟨List.mem_cons_self, by simp only; omega⟩
    · obtain ⟨hmem, hle⟩ := mem_placed h
      exact ⟨List.mem_cons_of_mem _ hmem, by omega⟩

theorem exists_placed {r : Request} : ∀ {reqs : List Request} (o : Nat), r ∈ reqs →
    ∃ x, (x, r) ∈ placed o reqs
  | r' :: rs, o, h => by
    rcases List.mem_cons.mp h with rfl | h
    · exact ⟨o, List.mem_cons_self⟩
    · obtain ⟨x, hx⟩ := exists_placed (o + r'.bytes.length) h
      exact ⟨x, List.mem_cons_of_mem _ hx⟩

/-- A run that keeps the framing was sent no request that is too long: the reply to one is
followed by a header inside its body. -/
theorem Survives.not_tooLong {os : ClientOs} {reqs : List Request}
    (h : Survives reqs (handleClient os 0 0 (clientStream reqs))) (r : Request) (hr : r ∈ reqs) :
    r.tooLong = false := by
  by_contra hne
  have hlong : r.tooLong = true := by simpa using hne
  have hbody : r.body.length > 0x100000 := by simpa [Request.tooLong, maxDatalen] using hlong
  obtain ⟨x, hx⟩ := exists_placed 0 hr
  have hle := (mem_placed hx).2
  rw [length_bytes] at hle
  obtain ⟨hd, hmem, hoff⟩ := header_after_reply (h.refused _ hx hlong) (by simp only at hle ⊢; omega)
  have hframed : hd.offset + 12 ≤ x + 12 ∨ x + r.bytes.length ≤ hd.offset := h.framed hd hmem _ hx hlong
  rw [hoff, length_bytes] at hframed
  omega

/-- **Command framing** survives exactly when there is nothing it has to survive: no request is
too long, the bodies can be allocated, and no request before the last ends the thread. -/
theorem framing_survives_iff (os : ClientOs) (reqs : List Request) :
    Survives reqs (handleClient os 0 0 (clientStream reqs)) ↔
      (∀ r ∈ reqs, r.tooLong = false) ∧
      (∀ k r, reqs[k]? = some r → r.body ≠ [] → os.alloc k = true) ∧
      ∀ k, k + 1 < reqs.length → os.ends k = false := by
  have hsound : Sound os 0 reqs ↔ _ := sound_iff reqs 0
  simp only [Nat.zero_add] at hsound
  rw [← hsound]
  have hall : (∀ r ∈ reqs, r.tooLong = false) → (reqs.filter fun r => !r.tooLong) = reqs :=
    fun hlong => List.filter_eq_self.mpr fun r hr => by rw [hlong r hr]; rfl
  constructor
  · intro h
    have hd := h.dispatched
    rw [hall h.not_tooLong] at hd
    exact sound_of_dispatched reqs 0 0 h.not_tooLong hd
  · intro h
    have hlong := (hsound.mp h).1
    refine ⟨?_, fun p hp ht => ?_, fun _ _ p hp ht => ?_⟩
    · rw [hall hlong]
      exact dispatched_of_sound reqs 0 0 h
    · rw [hlong _ (mem_placed hp).1] at ht
      cases ht
    · rw [hlong _ (mem_placed hp).1] at ht
      cases ht

/-- A request without a body, CMD_VERSION. -/
def versionRequest : Request := ⟨0xBD000001, [], by decide⟩

/-- A request that is too long, with the bytes of CMD_VERSION at the start of its body. -/
def longRequest : Request where
  cmd := 0xBD000001
  body := versionRequest.bytes ++ List.replicate 0x100000 0
  fits := by rw [List.length_append, length_bytes, List.length_replicate]; decide

/-- The long request is answered with an error, and the start of its body is dispatched. -/
theorem body_taken_for_header :
    let reads := handleClient ⟨fun _ => true, fun _ => false⟩ 0 0 (clientStream [longRequest])
    (∃ rest, reads = ⟨0, .reply CMD_ERROR⟩ :: ⟨12, .dispatch 0xBD000001 none⟩ :: rest) ∧
      ¬ Survives [longRequest] reads := by
  intro reads
  have hlong : longRequest.tooLong = true := by
    rw [Request.tooLong, longRequest, List.length_append, length_bytes, List.length_replicate]
    decide
  refine ⟨?_, fun h => ?_⟩
  · simp only [reads]
    rw [handleClient_request, if_pos hlong, longRequest, List.append_assoc,
      handleClient_cons (recvHeader_request versionRequest _), handlePacket_request]
    exact ⟨_, rfl⟩
  · have hno := h.not_tooLong longRequest List.mem_cons_self
    rw [hlong] at hno
    cases hno

end Ps5Debugger
