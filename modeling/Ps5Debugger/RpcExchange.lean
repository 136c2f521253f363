import Ps5Debugger.RpcClient

/-!
# Exchanges

How a call and the server's pass advance together: the packet and the status word, blocks of known
length, the loops that receive data behind a packet. Each lemma says what is left to be done on both
sides, and that nothing is on its way.
-/

namespace Ps5Debugger

open Lib

namespace Rpc

/-! ## Words of a packet -/

theorem word32_at {p t : List Byte} {off x : Nat} (hp : p.length = off) :
    word32 (p ++ (leBytes 4 x ++ t)) off = UInt32.ofNat x := by
  have hdrop : (p ++ (leBytes 4 x ++ t)).drop off = leBytes 4 x ++ t := by
    rw [← hp, List.drop_left]
  rw [word32, hdrop, leNat_append t (by simp), leNat_leBytes]
  exact UInt32.toNat_inj.mp (by simp)

theorem word32_int {p t : List Byte} {off : Nat} (v : Int32) (hp : p.length = off) :
    word32 (p ++ (writeInt v ++ t)) off = v.toUInt32 := by
  rw [writeInt, word32_at hp, UInt32.ofNat_toNat]

theorem word32_int_last {p : List Byte} {off : Nat} (v : Int32) (hp : p.length = off) :
    word32 (p ++ writeInt v) off = v.toUInt32 := by
  rw [← List.append_nil (writeInt v), word32_int v hp]

/-- A length at the end of a packet. -/
theorem word32_last {p : List Byte} {off : Nat} (n : Nat) (hp : p.length = off) :
    word32 (p ++ leBytes 4 n) off = UInt32.ofNat n := by
  rw [← List.append_nil (leBytes 4 n), word32_at hp]

theorem word32_size {p : List Byte} {off n : Nat} (hp : p.length = off) (hn : n < 2 ^ 31) :
    (word32 (p ++ leBytes 4 n) off).toNat = n := by
  have hlt : n < UInt32.size := hn.trans (by decide)
  rw [word32_last n hp]
  exact UInt32.toNat_ofNat_of_lt' hlt

theorem word64_long {p t : List Byte} {off : Nat} (v : Int64) (hp : p.length = off) :
    word64 (p ++ (writeLong v ++ t)) off = v.toUInt64 := by
  have hdrop : (p ++ (writeLong v ++ t)).drop off = leBytes 8 v.toUInt64.toNat ++ t := by
    rw [← hp, List.drop_left, writeLong]
  rw [word64, hdrop, leNat_leBytes_append (UInt64.toNat_lt _), UInt64.ofNat_toNat]

@[simp] theorem length_writeInt (v : Int32) : (writeInt v).length = 4 := length_leBytes 4 _

@[simp] theorem length_writeLong (v : Int64) : (writeLong v).length = 8 := length_leBytes 8 _

theorem ofNat_leNat (n : UInt32) : UInt32.ofNat (leNat 4 (leBytes 4 n.toNat)) = n := by
  have hlt : n.toNat < 256 ^ 4 := UInt32.toNat_lt n
  rw [leNat_leBytes, Nat.mod_eq_of_lt hlt, UInt32.ofNat_toNat]

theorem readInt_leBytes (n : UInt32) : readInt (leBytes 4 n.toNat) = n.toInt32 := by
  rw [readInt, ofNat_leNat]

theorem length_statusBytes (status : UInt32) : (statusBytes status).length = 4 := length_leBytes 4 _

theorem toInt_of_lt {n : UInt32} (h : n.toNat < 2 ^ 31) : n.toInt32.toInt = n.toNat := by
  show n.toBitVec.toInt = _
  rw [BitVec.toInt_eq_toNat_cond, UInt32.toNat_toBitVec, if_pos (by omega)]

theorem toInt_of_nonneg {v : Int32} (h : ¬ v < 0) : v.toInt = v.toUInt32.toNat := by
  have hcond : v.toInt = if 2 * v.toUInt32.toNat < 2 ^ 32 then (v.toUInt32.toNat : Int)
      else (v.toUInt32.toNat : Int) - 2 ^ 32 := BitVec.toInt_eq_toNat_cond v.toBitVec
  have hlt := v.toUInt32.toNat_lt
  rw [Int32.lt_iff_toInt_lt, hcond, Int32.toInt_zero] at h
  rw [hcond]
  split at h
  · rw [if_pos (by assumption)]
  · omega

/-- Below this size `net_alloc_buffer` comes to its end. -/
theorem allocEnds_of_lt {n : UInt32} (h : n.toNat < 2 ^ 31) : allocEnds n = true := by
  have hmax : (0xFFFFF000 : UInt32).toNat = 0xFFFFF000 := rfl
  rw [allocEnds, decide_eq_true_eq, UInt32.le_iff_toNat_le, hmax]
  omega

/-- A handler that needs a session: a null session kills it. -/
theorem withSession_cases (s : ServerState) (h : Proc Handled) (rc : Int) :
    (s.attached = true ∧ s.curdbgctx = none ∧ withSession s h rc = .ret .killed) ∨
      (s.attached = true → s.curdbgctx ≠ none) ∧
        (withSession s h rc = reply CMD_ERROR rc ∨ HasSession s ∧ withSession s h rc = h) := by
  unfold withSession HasSession
  cases s.attached with
  | false => exact .inr ⟨nofun, .inl (if_pos rfl)⟩
  | true =>
    rw [if_neg (by decide)]
    cases hctx : s.curdbgctx with
    | none => exact .inl ⟨rfl, rfl, rfl⟩
    | some c =>
      refine .inr ⟨fun _ => nofun, ?_⟩
      by_cases hpid : (s.clients c).dbgctx.pid = 0
      · exact .inl (if_pos hpid)
      · exact .inr ⟨⟨rfl, c, rfl, hpid⟩, if_neg hpid⟩

/-- A length that an `int` holds. -/
theorem intLen_of_lt {n : Nat} (h : n < 2 ^ 31) : intLen (UInt32.ofNat n) = n := by
  have hlt : n < UInt32.size := h.trans (by decide)
  have hn : (UInt32.ofNat n).toNat = n := UInt32.toNat_ofNat_of_lt' hlt
  rw [intLen, toNat_int, hn, if_pos h]

theorem error_ne_success : CMD_ERROR ≠ CMD_SUCCESS := by decide

theorem dataNull_ne_success : CMD_DATA_NULL ≠ CMD_SUCCESS := by decide

/-! ## One exchange -/

section Exchange

variable {R : Type} {c : Proc (RpcResult R)} {q out : List Byte} {n : Nat} {bs : List Byte}

/-- The server sends what the client waits for. -/
theorem finish_exchange (k : List Byte → Proc (RpcResult R)) (s : Proc Handled) (h : bs.length = n) :
    Talk.finish ⟨.recv n k, .send bs s, q, []⟩ = Talk.finish ⟨k bs, s, q, []⟩ := by
  have hrecv : Talk.finish ⟨.recv n k, s, q, bs ++ []⟩ = Talk.finish ⟨k bs, s, q, []⟩ := Talk.finish_clientRecv k h
  rw [List.append_nil] at hrecv
  rw [Talk.finish_serverSend, List.nil_append, hrecv]

/-- The client sends what the server waits for. -/
theorem finish_upload (l : List Byte → Proc Handled) (h : bs.length = n) :
    Talk.finish ⟨.send bs c, .recv n l, [], out⟩ = Talk.finish ⟨c, l bs, [], out⟩ := by
  have hrecv : Talk.finish ⟨c, .recv n l, bs ++ [], out⟩ = Talk.finish ⟨c, l bs, [], out⟩ :=
    Talk.finish_serverRecv l h
  rw [List.append_nil] at hrecv
  rw [Talk.finish_clientSend, List.nil_append, hrecv]

theorem finish_status (k : UInt32 → Proc (RpcResult R)) (status : UInt32) (s : Proc Handled) :
    Talk.finish ⟨receiveStatus k, .send (statusBytes status) s, q, []⟩ = Talk.finish ⟨k status, s, q, []⟩ := by
  rw [receiveStatus, finish_exchange _ s (length_statusBytes status), statusBytes, ofNat_leNat, bitswap32_bitswap32]

/-- A status word is all the server sends, and with it the call has its result. -/
theorem finish_reply {k : UInt32 → Proc (RpcResult R)} {status : UInt32} {e : RpcResult R} (rc : Int)
    (h : k status = .ret e) :
    Talk.finish ⟨receiveStatus k, reply status rc, q, []⟩ = ⟨.ret e, .ret (.returned rc []), q, []⟩ := by
  rw [reply, finish_status, h, Talk.finish_ret]

/-- The server ends without sending what the client waits for. -/
theorem finish_starved (k : List Byte → Proc (RpcResult R)) (b : Handled) (h : 0 < n) :
    Talk.finish ⟨.recv n k, .ret b, q, []⟩ = ⟨.recv n k, .ret b, q, []⟩ :=
  Talk.finish_recv_ret k b h

theorem readExactly_of_toInt {len : Int32} (h : len.toInt = n) (k : List Byte → Proc (RpcResult R)) :
    readExactly len k = .recv n k := by
  have hpos : ¬ len < 0 := by
    rw [Int32.lt_iff_toInt_lt, h]
    exact not_lt.mpr (Int.natCast_nonneg n)
  rw [readExactly, if_neg hpos, h, Int.toNat_natCast]

/-- A block of the size that the call reads. -/
theorem finish_readExactly {len : Int32} (h : len.toInt = bs.length) (k : List Byte → Proc (RpcResult R))
    (s : Proc Handled) :
    Talk.finish ⟨readExactly len k, .send bs s, q, []⟩ = Talk.finish ⟨k bs, s, q, []⟩ := by
  rw [readExactly_of_toInt h, finish_exchange k s rfl]

/-- Blocks that are together what the call reads. -/
theorem finish_readAll {blocks : List (List Byte)} (k : List Byte → Proc (RpcResult R)) (s : Proc Handled)
    (h : blocks.flatten.length = n) :
    Talk.finish ⟨.recv n k, .sendAll blocks s, q, []⟩ = Talk.finish ⟨k blocks.flatten, s, q, []⟩ := by
  rw [Talk.finish_sendAll, ← Talk.finish_serverSend, finish_exchange k s h]

/-- Records up to a sentinel, read by a loop that may run long enough. -/
theorem finish_readUntil {size : Nat} {sentinel : List Byte → Bool} {blocks : List (List Byte)} {last : List Byte}
    (hblocks : ∀ block ∈ blocks, block.length = size ∧ sentinel block = false)
    (hlast : last.length = size ∧ sentinel last = true) {fuel : Nat} (hfuel : blocks.length < fuel)
    (k : List (List Byte) → Proc (RpcResult R)) (s : Proc Handled) :
    Talk.finish ⟨readUntil size sentinel fuel k, s, q, blocks.flatten ++ (last ++ out)⟩ =
      Talk.finish ⟨k blocks, s, q, out⟩ := by
  induction blocks generalizing fuel k with
  | nil =>
    obtain ⟨fuel, rfl⟩ := Nat.exists_eq_succ_of_ne_zero (Nat.ne_of_gt hfuel)
    rw [readUntil, List.flatten_nil, List.nil_append, Talk.finish_clientRecv _ hlast.1, if_pos hlast.2]
  | cons block blocks ih =>
    obtain ⟨fuel, rfl⟩ := Nat.exists_eq_succ_of_ne_zero (Nat.ne_of_gt (Nat.zero_lt_of_lt hfuel))
    obtain ⟨hblock, hrest⟩ := List.forall_mem_cons.mp hblocks
    rw [readUntil, List.flatten_cons, List.append_assoc, Talk.finish_clientRecv _ hblock.1, hblock.2,
      if_neg (by decide), ih hrest (Nat.lt_of_succ_lt_succ hfuel)]

/-- The usual start of a call, told of success. -/
theorem finish_success {c' : Proc (RpcResult R)} {s : Proc Handled} :
    Talk.finish ⟨receiveStatus fun status => if status ≠ CMD_SUCCESS then c else c',
      .send (statusBytes CMD_SUCCESS) s, q, []⟩ = Talk.finish ⟨c', s, q, []⟩ := by
  rw [finish_status, if_neg (not_not_intro rfl)]

/-- The usual start of a call, told of anything else. -/
theorem finish_failure {e : RpcResult R} {c' : Proc (RpcResult R)} {status : UInt32} (h : status ≠ CMD_SUCCESS)
    (b : Handled) : Talk.finish ⟨receiveStatus fun status => if status ≠ CMD_SUCCESS then .ret e else c',
      .send (statusBytes status) (.ret b), q, []⟩ = ⟨.ret e, .ret b, q, []⟩ := by
  rw [finish_status, if_pos h, Talk.finish_ret]

end Exchange

/-! ## The packet -/

section Packet

variable {R : Type} {c : Proc (RpcResult R)} {overflow : RpcResult R} {os : ServerOs} {cmd : UInt32}
  {data : List Byte}

theorem finish_packet (hfits : 12 + data.length < 2 ^ 31) :
    Talk.finish ⟨sendPacketOr overflow cmd data c, handleClient os, [], []⟩ =
      Talk.finish ⟨c, servePacket os PACKET_MAGIC cmd data.length, data, []⟩ := by
  have hlen : (packetHeader cmd data.length).length = 12 := by simp [packetHeader]
  have hmagic : word32 (packetHeader cmd data.length) 0 = PACKET_MAGIC := by
    rw [packetHeader, List.append_assoc, ← List.nil_append (leBytes 4 PACKET_MAGIC.toNat ++ _),
      word32_at List.length_nil, UInt32.ofNat_toNat]
  have hcmd : word32 (packetHeader cmd data.length) 4 = cmd := by
    rw [packetHeader, List.append_assoc, word32_at (by simp), UInt32.ofNat_toNat]
  have hsize : (word32 (packetHeader cmd data.length) 8).toNat = data.length := by
    have hlt : data.length < UInt32.size := by
      have : UInt32.size = 2 ^ 32 := rfl
      omega
    rw [packetHeader, ← List.append_nil (leBytes 4 data.length), word32_at (by simp)]
    exact UInt32.toNat_ofNat_of_lt' hlt
  rw [sendPacketOr, if_pos hfits, Talk.finish_clientSend, List.nil_append, handleClient,
    Talk.finish_serverRecv _ hlen, hmagic, hcmd, hsize]

theorem servePacket_nil : servePacket os PACKET_MAGIC cmd ([] : List Byte).length = cmdHandler os cmd none := rfl

/-- A body that is received. -/
theorem finish_body (hne : data ≠ []) (hlen : data.length ≤ maxDatalen) (halloc : os.bodyAlloc = true) :
    Talk.finish ⟨c, servePacket os PACKET_MAGIC cmd data.length, data, []⟩ =
      Talk.finish ⟨c, cmdHandler os cmd (some data), [], []⟩ := by
  have hrecv : Talk.finish ⟨c, .recv data.length fun data => cmdHandler os cmd (some data), data ++ [], []⟩ =
      Talk.finish ⟨c, cmdHandler os cmd (some data), [], []⟩ := Talk.finish_serverRecv _ rfl
  rw [List.append_nil] at hrecv
  rw [servePacket, if_neg (by simp), if_pos (by simpa using hne), if_neg (not_lt.mpr hlen),
    if_neg (by rw [halloc]; decide), hrecv]

theorem servePacket_tooLong (hlen : maxDatalen < data.length) :
    servePacket os PACKET_MAGIC cmd data.length = reply CMD_ERROR 0 := by
  rw [servePacket, if_neg (by simp), if_pos (by rintro h; rw [h] at hlen; cases hlen), if_pos hlen]

theorem servePacket_noMemory (hne : data ≠ []) (hlen : data.length ≤ maxDatalen) (halloc : os.bodyAlloc = false) :
    servePacket os PACKET_MAGIC cmd data.length = reply CMD_DATA_NULL 0 := by
  rw [servePacket, if_neg (by simp), if_pos (by simpa using hne), if_neg (not_lt.mpr hlen), if_pos halloc]

/-- A call without a body reaches its handler. -/
theorem finish_bare : Talk.finish ⟨sendPacket cmd [] c, handleClient os, [], []⟩ =
    Talk.finish ⟨c, cmdHandler os cmd none, [], []⟩ := by
  rw [sendPacket, finish_packet (by decide), servePacket_nil]

/-- A call with a short body reaches its handler, or there was no memory for the body. -/
theorem finish_call (hne : data ≠ []) (hlen : data.length ≤ maxDatalen) :
    Talk.finish ⟨sendPacket cmd data c, handleClient os, [], []⟩ =
      if os.bodyAlloc then Talk.finish ⟨c, cmdHandler os cmd (some data), [], []⟩
      else Talk.finish ⟨c, reply CMD_DATA_NULL 0, data, []⟩ := by
  have hmax : maxDatalen + 12 < 2 ^ 31 := by decide
  rw [sendPacket, finish_packet (by omega)]
  cases halloc : os.bodyAlloc with
  | true => exact finish_body hne hlen halloc
  | false => exact congrArg (fun s => Talk.finish ⟨c, s, data, []⟩) (servePacket_noMemory hne hlen halloc)

end Packet

variable {os : ServerOs} in
/-- The blocks of PROC_READ are together as long as what was asked for. -/
theorem length_readBlocks (pid : UInt32) (a length : Nat) :
    (readBlocks os pid a length).flatten.length = length := by
  induction length using Nat.strong_induction_on generalizing a with
  | _ length ih =>
    rw [readBlocks]
    by_cases hbig : length > 0x10000
    · rw [dif_pos hbig, List.flatten_cons, List.length_append, length_slice, ih _ (by omega)]
      omega
    · rw [dif_neg hbig]
      split
      · rw [List.flatten_singleton, length_slice]
      · rw [List.flatten_nil, List.length_nil]
        omega

/-! ## Data behind a packet -/

/-- The writes put `data` at `a`, block after block. -/
def Lands (a : Nat) (data : List Byte) : List Seen → Prop
  | [] => data = []
  | .memory a' block :: seen => a' = a ∧ ∃ rest, data = block ++ rest ∧ Lands (u64 (a + block.length)) rest seen
  | .notification _ :: _ | .registers _ _ :: _ | .elf _ :: _ => False

/-- The writes put every entry where it belongs, one entry after the other. -/
def LandsAll : List (Int64 × ByteArr) → List Seen → Prop
  | [], seen => seen = []
  | w :: ws, seen => ∃ l r, seen = l ++ r ∧ Lands w.1.toUInt64.toNat w.2.val l ∧ LandsAll ws r

section Loops

variable {R : Type} {c : Proc (RpcResult R)} {q out : List Byte} {os : ServerOs} {pid : UInt32}

/-- A block of the data to come. -/
theorem finish_block {n : Nat} {data : List Byte} (l : List Byte → Proc Handled) (hn : n ≤ data.length) :
    Talk.finish ⟨c, .recv n l, data ++ q, out⟩ = Talk.finish ⟨c, l (data.take n), data.drop n ++ q, out⟩ := by
  have hlen : (data.take n).length = n := by rw [List.length_take, min_eq_left hn]
  have hrecv : Talk.finish ⟨c, .recv n l, data.take n ++ (data.drop n ++ q), out⟩ =
      Talk.finish ⟨c, l (data.take n), data.drop n ++ q, out⟩ := Talk.finish_serverRecv l hlen
  rwa [← List.append_assoc, List.take_append_drop] at hrecv

theorem lands_block {a n : Nat} {data : List Byte} {seen : List Seen} (hn : n ≤ data.length)
    (h : Lands (u64 (a + n)) (data.drop n) seen) : Lands a data (.memory a (data.take n) :: seen) := by
  refine ⟨rfl, data.drop n, (List.take_append_drop n data).symm, ?_⟩
  rwa [List.length_take, min_eq_left hn]

variable (c q out) in
/-- **PROC_WRITE takes the data that was announced**, and writes it where it belongs. -/
theorem finish_writeBlocks (a : Nat) (data : List Byte) (k : List Seen → Proc Handled) :
    ∃ seen, Lands a data seen ∧
      Talk.finish ⟨c, writeBlocks a data.length k, data ++ q, out⟩ = Talk.finish ⟨c, k seen, q, out⟩ := by
  induction hm : data.length using Nat.strong_induction_on generalizing a data k with
  | _ m ih =>
    subst hm
    rw [writeBlocks]
    by_cases hbig : data.length > 0x10000
    · have hlen : (data.drop 0x10000).length = data.length - 0x10000 := List.length_drop
      obtain ⟨seen, hlands, hfin⟩ := ih _ (by omega) (u64 (a + 0x10000)) (data.drop 0x10000)
        (fun seen => k (.memory a (data.take 0x10000) :: seen)) rfl
      refine ⟨_, lands_block (by omega) hlands, ?_⟩
      rw [dif_pos hbig, finish_block _ (by omega), ← hlen]
      exact hfin
    · rw [dif_neg hbig]
      by_cases hpos : data.length > 0
      · refine ⟨[.memory a data], ⟨rfl, [], (List.append_nil data).symm, rfl⟩, ?_⟩
        rw [if_pos hpos, finish_block _ (Nat.le_refl _), List.take_length, List.drop_length, List.nil_append]
      · have hnil : data = [] := List.eq_nil_of_length_eq_zero (by omega)
        subst hnil
        exact ⟨[], rfl, by rw [if_neg hpos, List.nil_append]⟩

variable (c q out os pid) in
/-- An entry of WRITE_MULTI, behind its header. -/
theorem finish_multiBlocks (a : Nat) (data : List Byte) (failed : Bool) (k : Bool → List Seen → Proc Handled) :
    ∃ failed' seen, Lands a data seen ∧
      Talk.finish ⟨c, multiBlocks os pid a data.length failed k, data ++ q, out⟩ =
        Talk.finish ⟨c, k failed' seen, q, out⟩ := by
  induction hm : data.length using Nat.strong_induction_on generalizing a data failed k with
  | _ m ih =>
    subst hm
    rw [multiBlocks]
    by_cases hpos : data.length > 0
    · have hblock : (if data.length > 0x10000 then 0x10000 else data.length) ≤ data.length ∧
          0 < (if data.length > 0x10000 then 0x10000 else data.length) := by
        split <;> omega
      generalize (if data.length > 0x10000 then 0x10000 else data.length) = n at hblock
      have hlen : (data.drop n).length = data.length - n := List.length_drop
      obtain ⟨failed', seen, hlands, hfin⟩ := ih _ (by omega) (u64 (a + n)) (data.drop n)
        (failed || !os.writes pid a (data.take n)) (fun failed seen => k failed (.memory a (data.take n) :: seen)) rfl
      refine ⟨failed', _, lands_block hblock.1 hlands, ?_⟩
      rw [dif_pos hpos, finish_block _ hblock.1, ← hlen]
      exact hfin
    · have hnil : data = [] := List.eq_nil_of_length_eq_zero (by omega)
      subst hnil
      exact ⟨failed, [], rfl, by rw [dif_neg hpos, List.nil_append]⟩

/-- The header of an entry. -/
theorem finish_entry (w : Int64 × ByteArr) (n : Nat) (k : List Byte → List Seen → Proc Handled) :
    Talk.finish ⟨c, multiEntries os pid (n + 1) k, MemoryRpcService.writeEntry w ++ q, out⟩ =
      Talk.finish ⟨c, if w.2.val.length > PROC_WRITE_MULTI_MAX_ENTRY then reply CMD_ERROR 1
        else multiBlocks os pid w.1.toUInt64.toNat w.2.val.length false fun failed seen =>
          multiEntries os pid n fun status seen' => k ((if failed then 1 else 0) :: status) (seen ++ seen'),
        w.2.val ++ q, out⟩ := by
  have hlen : (writeLong w.1 ++ leBytes 4 w.2.val.length).length = 12 := by simp [length_writeLong]
  have haddr : leNat 8 (writeLong w.1 ++ leBytes 4 w.2.val.length) = w.1.toUInt64.toNat :=
    leNat_leBytes_append (UInt64.toNat_lt _) _
  have hsize : leNat 4 ((writeLong w.1 ++ leBytes 4 w.2.val.length).drop 8) = w.2.val.length := by
    have hlt : w.2.val.length < 256 ^ 4 := w.2.property.trans (by decide)
    rw [writeLong, drop_leBytes, leNat_leBytes, Nat.mod_eq_of_lt hlt]
  rw [MemoryRpcService.writeEntry, List.append_assoc, multiEntries, Talk.finish_serverRecv _ hlen, haddr, hsize]

variable (c q out os pid) in
/-- **WRITE_MULTI takes the entries that were announced**, each within the limit, and has a status byte
for each. -/
theorem finish_multiEntries {ws : List (Int64 × ByteArr)}
    (hws : ∀ w ∈ ws, w.2.val.length ≤ PROC_WRITE_MULTI_MAX_ENTRY) (k : List Byte → List Seen → Proc Handled) :
    ∃ status seen, status.length = ws.length ∧ LandsAll ws seen ∧
      Talk.finish ⟨c, multiEntries os pid ws.length k, ws.flatMap MemoryRpcService.writeEntry ++ q, out⟩ =
        Talk.finish ⟨c, k status seen, q, out⟩ := by
  induction ws generalizing k with
  | nil => exact ⟨[], [], rfl, rfl, rfl⟩
  | cons w ws ih =>
    obtain ⟨hw, hws⟩ := List.forall_mem_cons.mp hws
    obtain ⟨failed, seen, hlands, hblocks⟩ := finish_multiBlocks c
      (ws.flatMap MemoryRpcService.writeEntry ++ q) out os pid w.1.toUInt64.toNat w.2.val false fun failed seen =>
        multiEntries os pid ws.length fun status seen' => k ((if failed then 1 else 0) :: status) (seen ++ seen')
    obtain ⟨status, seen', hlen, hrest, hfin⟩ := ih hws fun status seen' =>
      k ((if failed then 1 else 0) :: status) (seen ++ seen')
    refine ⟨(if failed then 1 else 0) :: status, seen ++ seen', congrArg (· + 1) hlen,
      ⟨seen, seen', rfl, hlands, hrest⟩, ?_⟩
    rw [List.flatMap_cons, List.append_assoc, List.length_cons, finish_entry, if_neg (not_lt.mpr hw), hblocks, hfin]

variable (c q out os pid) in
/-- An entry beyond the limit ends the command with an error. -/
theorem finish_multiEntries_tooLong {ws : List (Int64 × ByteArr)}
    (hws : ∃ w ∈ ws, w.2.val.length > PROC_WRITE_MULTI_MAX_ENTRY) (k : List Byte → List Seen → Proc Handled) :
    ∃ rest, Talk.finish ⟨c, multiEntries os pid ws.length k, ws.flatMap MemoryRpcService.writeEntry ++ q, out⟩ =
      Talk.finish ⟨c, reply CMD_ERROR 1, rest, out⟩ := by
  induction ws generalizing k with
  | nil => obtain ⟨_, h, _⟩ := hws; cases h
  | cons w ws ih =>
    rw [List.flatMap_cons, List.append_assoc, List.length_cons, finish_entry]
    by_cases hw : w.2.val.length > PROC_WRITE_MULTI_MAX_ENTRY
    · exact ⟨_, by rw [if_pos hw]⟩
    · have htail : ∃ w ∈ ws, w.2.val.length > PROC_WRITE_MULTI_MAX_ENTRY := by
        obtain ⟨w', hmem, hlong⟩ := hws
        rcases List.mem_cons.mp hmem with rfl | hmem
        · exact absurd hlong hw
        · exact ⟨w', hmem, hlong⟩
      rw [if_neg hw]
      obtain ⟨failed, seen, -, hblocks⟩ := finish_multiBlocks c
        (ws.flatMap MemoryRpcService.writeEntry ++ q) out os pid w.1.toUInt64.toNat w.2.val false fun failed seen =>
          multiEntries os pid ws.length fun status seen' => k ((if failed then 1 else 0) :: status) (seen ++ seen')
      rw [hblocks]
      exact ih htail _

end Loops

end Rpc

end Ps5Debugger
