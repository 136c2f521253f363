import Mathlib
import Ps5Debugger.Lib.Machine
import Ps5Debugger.RpcExchange

/-!
# The handshake

The server sends a challenge, and the client answers with the challenge under a keystream that both know
(`proc_auth_handle` of `auth.c`, `auth` of `Ps5Client.kt`). The client is always let in, whatever the server's
generator has come to (`auth_accepted`).

The generator that makes the challenges is the one that makes the keystream, which is started afresh each time. So every
challenge but the first one of all is the same, and so is the answer to it (`answer_eq`). What opens and closes the
turbo commands are the flags that were granted last (`turboAllowed_run`).
-/

namespace Ps5Debugger

open Lib Rpc

namespace Auth

/-! ## The generator -/

/-- `s_lfsr_s1` to `s_lfsr_s4` -/
structure Lfsr where
  s1 : UInt32
  s2 : UInt32
  s3 : UInt32
  s4 : UInt32
  deriving DecidableEq

/-- `auth_lfsr_next`, and `Lfsr.next` of the client. -/
def authLfsrNext (g : Lfsr) : UInt32 × Lfsr :=
  let s1 := ((g.s1 <<< (18 : UInt32)) &&& 0xFFF80000) ^^^ ((g.s1 ^^^ (g.s1 <<< (6 : UInt32))) >>> (13 : UInt32))
  let s2 := ((g.s2 <<< (2 : UInt32)) &&& 0xFFFFFFE0) ^^^ ((g.s2 ^^^ (g.s2 <<< (2 : UInt32))) >>> (27 : UInt32))
  let s3 := ((g.s3 <<< (7 : UInt32)) &&& 0xFFFFF800) ^^^ ((g.s3 ^^^ (g.s3 <<< (13 : UInt32))) >>> (21 : UInt32))
  let s4 := ((g.s4 <<< (13 : UInt32)) &&& 0xFFF00000) ^^^ ((g.s4 ^^^ (g.s4 <<< (3 : UInt32))) >>> (12 : UInt32))
  (s1 ^^^ s2 ^^^ s3 ^^^ s4, ⟨s1, s2, s3, s4⟩)

/-- The next values, and the generator after them. -/
def draw : Nat → Lfsr → List UInt32 × Lfsr
  | 0, g => ([], g)
  | n + 1, g =>
    let r := authLfsrNext g
    let rest := draw n r.2
    (r.1 :: rest.1, rest.2)

/-- `(uint8_t)x` -/
def byteOf (x : UInt32) : Byte := x.toBitVec.setWidth 8

/-- `auth_keystream_fill`, and the loop in `auth` of the client: the keystream, and the generator, which starts
afresh. -/
def authKeystreamFill : List Byte × Lfsr :=
  ((draw 256 ⟨200, 300, 400, 500⟩).1.map byteOf, (draw 256 ⟨200, 300, 400, 500⟩).2)

/-- `proc_auth_xor_keystream` -/
def procAuthXorKeystream (inp : List Byte) : List Byte × Lfsr :=
  (inp.mapIdx fun i b => b ^^^ authKeystreamFill.1.getD (i % 256) 0, authKeystreamFill.2)

/-- The loop that makes the challenge. -/
def challenge (g : Lfsr) : List Byte := (draw 64 g).1.map fun r => byteOf (r + r / 255)

/-! ## The server -/

/-- The generator and `g_proc_auth_state`. -/
structure AuthState where
  lfsr : Lfsr
  procAuthState : UInt32

/-- A server that has just been started. -/
def AuthState.start : AuthState := ⟨⟨0, 0, 0, 0⟩, 0x14000⟩

def CMD_PROC_AUTH_MAGIC_BSWAP : UInt32 := 0x7780D98E

/-- The request is one for a handshake. -/
def asked (data : Option (List Byte)) : Bool :=
  match data with
  | none => false
  | some ap => bitswap32 (word32 ap 0) == CMD_PROC_AUTH_MAGIC_BSWAP

/-- The flags that are granted. -/
def grant (flags state : UInt32) : UInt32 :=
  let state := if flags &&& 1 ≠ 0 then 0x14001 else state
  if flags &&& 2 ≠ 0 then 0x14002 else state

/-- `proc_auth_handle` -/
def procAuthHandle (s : AuthState) (data : Option (List Byte)) : Proc (AuthState × Int) :=
  if asked data = false then .send (statusBytes CMD_DATA_NULL) (.ret (s, 1))
  else
    .send (statusBytes CMD_SUCCESS) <|
    .send (leBytes 2 64) <|
    .send (challenge s.lfsr) <|
    .recv 64 fun response =>
    if response ≠ (procAuthXorKeystream (challenge s.lfsr)).1 then
      .send (statusBytes CMD_DATA_NULL)
        (.ret (⟨(procAuthXorKeystream (challenge s.lfsr)).2, s.procAuthState⟩, 1))
    else
      .send (statusBytes CMD_SUCCESS) <|
      .ret (⟨(procAuthXorKeystream (challenge s.lfsr)).2, grant (word32 (data.getD []) 4) s.procAuthState⟩, 0)

/-- The turbo commands ask for this. -/
def AuthState.turboAllowed (s : AuthState) : Bool := s.procAuthState &&& 2 != 0

/-! ## The client -/

def AUTH_MAGIC : Int32 := (0xBB40E64D : UInt32).toInt32

/-- The packet of `auth`. -/
def authPayload (flags : Int32) : List Byte := writeInt AUTH_MAGIC ++ writeInt flags

/-- `auth`, once the packet is sent. -/
def authAnswer : Proc (RpcResult Bool) :=
  receiveStatus fun status =>
  if status ≠ CMD_SUCCESS then .ret (.value false)
  else
    readExactly 2 fun lenBytes =>
    if readUShort lenBytes ≠ 64 then .ret (.value false)
    else
      readExactly 64 fun challenge =>
      .send (challenge.mapIdx fun i b => b ^^^ authKeystreamFill.1.getD i 0) receiveSuccess

/-- `auth` -/
def auth (flags : Int32) : Proc (RpcResult Bool) := sendPacket 0xBDAACCFF (authPayload flags) authAnswer

/-! ## The client is let in -/

@[simp]
theorem length_draw (n : Nat) : ∀ g, (draw n g).1.length = n := by
  induction n with
  | zero => intro g; rfl
  | succ n ih => intro g; rw [draw, List.length_cons, ih]

@[simp]
theorem length_challenge (g : Lfsr) : (challenge g).length = 64 := by
  rw [challenge, List.length_map, length_draw]

@[simp]
theorem length_procAuthXorKeystream (inp : List Byte) : (procAuthXorKeystream inp).1.length = inp.length := by
  rw [procAuthXorKeystream, List.length_mapIdx]

/-- What the client makes of the challenge is what the server expects: there are not enough bytes to come to the end of
the keystream. -/
theorem response_eq {inp : List Byte} (h : inp.length ≤ 256) :
    (inp.mapIdx fun i b => b ^^^ authKeystreamFill.1.getD i 0) = (procAuthXorKeystream inp).1 := by
  rw [procAuthXorKeystream]
  refine List.ext_getElem (by simp) fun i hi hi' => ?_
  rw [List.length_mapIdx] at hi
  rw [List.getElem_mapIdx, List.getElem_mapIdx, Nat.mod_eq_of_lt (by omega)]

theorem asked_authPayload (flags : Int32) : asked (some (authPayload flags)) = true := by
  have hmagic : word32 (authPayload flags) 0 = AUTH_MAGIC.toUInt32 := by
    rw [authPayload, ← List.nil_append (writeInt AUTH_MAGIC ++ writeInt flags), word32_int _ List.length_nil]
  rw [asked, hmagic]
  decide

theorem flags_authPayload (flags : Int32) : word32 (authPayload flags) 4 = flags.toUInt32 :=
  word32_int_last flags (length_writeInt _)

section Exchange

variable {R α : Type} {q out : List Byte}

theorem finish_word (k : UInt32 → Proc (RpcResult R)) (status : UInt32) (s : Proc α) :
    Talk.finish ⟨receiveStatus k, .send (statusBytes status) s, q, []⟩ = Talk.finish ⟨k status, s, q, []⟩ := by
  rw [Talk.finish_serverSend, List.nil_append, ← List.append_nil (statusBytes status), receiveStatus,
    Talk.finish_clientRecv _ (length_statusBytes status), statusBytes, ofNat_leNat, bitswap32_bitswap32]

theorem finish_bytes {bs : List Byte} {n : Int32} (hn : n.toInt = bs.length) (k : List Byte → Proc (RpcResult R))
    (s : Proc α) : Talk.finish ⟨readExactly n k, .send bs s, q, []⟩ = Talk.finish ⟨k bs, s, q, []⟩ := by
  rw [readExactly_of_toInt hn, Talk.finish_serverSend, List.nil_append, ← List.append_nil bs,
    Talk.finish_clientRecv _ (by simp)]
  simp

end Exchange

theorem procAuthXorKeystream_snd (inp : List Byte) : (procAuthXorKeystream inp).2 = authKeystreamFill.2 := by
  rw [procAuthXorKeystream]

/-- **The client is let in**, whatever the state of the server, and in whichever order the two take their steps: the
call returns true, nothing is left on its way, and the flags are granted. -/
theorem auth_accepted (s : AuthState) (flags : Int32) (y : Talk (RpcResult Bool) (AuthState × Int)) :
    Talk.Ends ⟨authAnswer, procAuthHandle s (some (authPayload flags)), [], []⟩ y ↔
      y = ⟨.ret (.value true), .ret (⟨authKeystreamFill.2, grant flags.toUInt32 s.procAuthState⟩, 0), [], []⟩ := by
  have hfin : Talk.finish ⟨authAnswer, procAuthHandle s (some (authPayload flags)), [], []⟩ =
      ⟨.ret (.value true), .ret (⟨authKeystreamFill.2, grant flags.toUInt32 s.procAuthState⟩, 0), [], []⟩ := by
    rw [authAnswer, procAuthHandle, asked_authPayload, if_neg (by decide), procAuthXorKeystream_snd]
    -- the client takes what the server sends
    rw [finish_word, if_neg (by simp), finish_bytes (by rfl), if_neg (by decide), finish_bytes (by simp)]
    -- and the server takes the answer
    rw [Talk.finish_clientSend, List.nil_append, response_eq (by simp),
      ← List.append_nil (procAuthXorKeystream (challenge s.lfsr)).1, Talk.finish_serverRecv _ (by simp),
      List.append_nil, if_neg (by simp)]
    rw [receiveSuccess, finish_word, Talk.finish_ret, Option.getD_some, flags_authPayload, beq_self_eq_true]
  rw [Talk.ends_iff, hfin]

/-! ## Many handshakes -/

/-- What a client sends for a handshake: what is behind `packet->data` (its own bytes, and those of the heap behind
a body of less than eight), and what it has to say to the challenge. -/
structure Attempt where
  data : Option (List Byte)
  response : Packed 64

/-- The request is one, and the client has the answer to the challenge. -/
def Attempt.accepted (s : AuthState) (a : Attempt) : Bool :=
  asked a.data && a.response.1 == (procAuthXorKeystream (challenge s.lfsr)).1

/-- The flags of the packet. -/
def Attempt.flags (a : Attempt) : UInt32 := word32 (a.data.getD []) 4

/-- The state after a handshake. -/
def handshake (s : AuthState) (a : Attempt) : AuthState :=
  match ((procAuthHandle s a.data).feed a.response.1).proc with
  | .ret r => r.1
  | _ => s

theorem handshake_eq (s : AuthState) (a : Attempt) :
    handshake s a = ⟨if asked a.data then authKeystreamFill.2 else s.lfsr,
      if a.accepted s then grant a.flags s.procAuthState else s.procAuthState⟩ := by
  obtain ⟨data, response, hlen⟩ := a
  rw [handshake, procAuthHandle, Attempt.accepted]
  cases hasked : asked data with
  | false => rw [if_pos rfl]; rfl
  | true =>
    have htake : response.take 64 = response := by rw [← hlen, List.take_length]
    rw [if_neg (by decide), procAuthXorKeystream_snd]
    simp only [Proc.feed, hlen, le_refl, if_true, htake, Bool.true_and, beq_iff_eq]
    by_cases heq : response = (procAuthXorKeystream (challenge s.lfsr)).1
    · rw [if_neg (not_not_intro heq), if_pos heq]
      rfl
    · rw [if_pos heq, if_neg heq]
      rfl

/-- The state after the handshakes. -/
def serve (as : List Attempt) : AuthState := as.foldl handshake AuthState.start

theorem serve_concat (as : List Attempt) (a : Attempt) : serve (as ++ [a]) = handshake (serve as) a := by
  rw [serve, List.foldl_append, List.foldl_cons, List.foldl_nil, serve]

theorem lfsr_serve (as : List Attempt) :
    (serve as).lfsr = if as.any (asked ·.data) then authKeystreamFill.2 else ⟨0, 0, 0, 0⟩ := by
  induction as using List.reverseRecOn with
  | nil => rfl
  | append_singleton as a ih =>
    rw [serve_concat, handshake_eq, ih, List.any_append, List.any_cons, List.any_nil, Bool.or_false]
    cases asked a.data <;> simp

/-- The answer that is right for the next handshake, after those that were. -/
def answer (as : List Attempt) : List Byte :=
  if as.any (asked ·.data) then (procAuthXorKeystream (challenge authKeystreamFill.2)).1
  else authKeystreamFill.1.take 64

/-- Zeros are all that comes out of a generator of zeros. -/
theorem draw_zero (n : Nat) : draw n ⟨0, 0, 0, 0⟩ = (List.replicate n 0, ⟨0, 0, 0, 0⟩) := by
  have hnext : authLfsrNext ⟨0, 0, 0, 0⟩ = (0, ⟨0, 0, 0, 0⟩) := by decide
  induction n with
  | zero => rfl
  | succ n ih => rw [draw, hnext, ih]; rfl

theorem challenge_zero : challenge ⟨0, 0, 0, 0⟩ = List.replicate 64 0 := by
  rw [challenge, draw_zero, List.map_replicate]
  rfl

theorem xor_challenge_zero : (procAuthXorKeystream (challenge ⟨0, 0, 0, 0⟩)).1 = authKeystreamFill.1.take 64 := by
  have hlen : authKeystreamFill.1.length = 256 := by rw [authKeystreamFill, List.length_map, length_draw]
  rw [procAuthXorKeystream, challenge_zero]
  refine List.ext_getElem (by simp [hlen]) fun i hi hi' => ?_
  rw [List.length_mapIdx, List.length_replicate] at hi
  rw [List.getElem_mapIdx, List.getElem_replicate, List.getElem_take, Nat.mod_eq_of_lt (by omega),
    List.getD_eq_getElem _ _ (by omega)]
  exact BitVec.zero_xor

theorem answer_eq (as : List Attempt) : (procAuthXorKeystream (challenge (serve as).lfsr)).1 = answer as := by
  rw [lfsr_serve, answer]
  split
  · rfl
  · exact xor_challenge_zero

theorem turboAllowed_grant (flags state : UInt32) (lfsr : Lfsr) :
    AuthState.turboAllowed ⟨lfsr, grant flags state⟩ ↔
      flags &&& 2 ≠ 0 ∨ ¬ (flags &&& 1 ≠ 0) ∧ AuthState.turboAllowed ⟨lfsr, state⟩ := by
  have hone : (0x14001 : UInt32) &&& 2 = 0 := by decide
  have htwo : (0x14002 : UInt32) &&& 2 ≠ 0 := by decide
  rw [AuthState.turboAllowed, AuthState.turboAllowed, grant]
  by_cases h2 : flags &&& 2 = 0 <;> by_cases h1 : flags &&& 1 = 0 <;> simp [h1, h2, hone, htwo]

/-- The handshake is granted, with the flags that it asks for. -/
def Attempt.Granted (before : List Attempt) (a : Attempt) (flag : UInt32) : Prop :=
  asked a.data = true ∧ a.response.1 = answer before ∧ a.flags &&& flag ≠ 0

theorem turboAllowed_concat (as : List Attempt) (a : Attempt) :
    (serve (as ++ [a])).turboAllowed ↔ a.Granted as 2 ∨ ¬ a.Granted as 1 ∧ (serve as).turboAllowed := by
  have haccepted : a.accepted (serve as) ↔ asked a.data = true ∧ a.response.1 = answer as := by
    rw [Attempt.accepted, answer_eq, Bool.and_eq_true, beq_iff_eq]
  have hiff (f : UInt32) : a.Granted as f ↔ a.accepted (serve as) = true ∧ a.flags &&& f ≠ 0 := by
    rw [haccepted, Attempt.Granted, and_assoc]
  rw [hiff, hiff, serve_concat, handshake_eq]
  cases a.accepted (serve as) with
  | false => simp [AuthState.turboAllowed]
  | true =>
    rw [if_pos rfl, turboAllowed_grant]
    simp [AuthState.turboAllowed]

/-- **The turbo commands are allowed** exactly where a handshake has been granted that asked for them, and none after it
that did not. Whoever asked before, the answer that is right is one and the same. -/
theorem turboAllowed_run (as : List Attempt) :
    (serve as).turboAllowed ↔ ∃ before a after, as = before ++ a :: after ∧ a.Granted before 2 ∧
      ∀ mid b rest, after = mid ++ b :: rest → ¬ b.Granted (before ++ a :: mid) 1 :=
  latch_iff (p := fun as => (serve as).turboAllowed = true) (by decide) turboAllowed_concat as

end Auth

end Ps5Debugger
