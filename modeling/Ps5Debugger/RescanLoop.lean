import Ps5Debugger.Debug
import Ps5Debugger.Lib.Loop
import Ps5Debugger.Net
import Ps5Debugger.Rescan

/-!
# The chunk loop of the rescans

`proc_scan_count_handle` and, for a request that is not resident, `proc_turboscan_count_handle`
read chunks of candidates until the client sends a length that is no chunk length. The results of
`net_recv_all` are not looked at: from a client that is gone the loop reads the length 0, which is
an empty chunk, for ever. Nor does a handler return that dereferences the null pattern of a request with
`lenData` 0. `rescan_returns_iff` says from which clients the handlers return.
-/

namespace Ps5Debugger

open Lib

/-! ## The loop -/

/-- `buf` after a receive into it. -/
def recvInto (buf : Buf) (r : Recv) : Buf := blit buf 0 (ofList r.got) r.got.length

/-- Between two chunks: the bytes to come, `chunk_buf`, how many chunks were served and what was
sent for them. -/
structure ChunkState where
  stream : List Byte
  chunkBuf : Buf
  served : Nat
  sent : List (List Byte)

/-- One pass of the loop; `serve` is what is sent for the `k`-th chunk. The result `none` is a handler that
dereferences the null pattern. -/
def chunkPass (serve : Nat → List Byte → Option (List (List Byte))) (st : ChunkState) :
    ChunkState ⊕ Option (List (List Byte)) :=
  let word := netRecvAll st.stream 4
  -- `chunk_len` starts as 0, so bytes that do not come are 0
  let chunkLen := leNat 4 word.got
  if chunkLen = 0xFFFFFFFF then .inr (some st.sent)
  else if chunkLen = 0 then
    .inl { st with stream := word.rest, served := st.served + 1, sent := st.sent ++ [sentinel] }
  else if chunkLen > 0x40000 then .inr (some st.sent)
  else
    let chunk := netRecvAll word.rest chunkLen
    let chunkBuf := recvInto st.chunkBuf chunk
    match serve st.served (slice chunkBuf 0 chunkLen) with
    | none => .inr none
    | some sends => .inl ⟨chunk.rest, chunkBuf, st.served + 1, st.sent ++ sends⟩

/-! ## The handlers -/

/-- What a COUNT handler meets outside the request. -/
structure RescanEnv where
  /-- `g_proc_auth_state & 2` -/
  auth : Bool
  /-- the allocations of `pattern`, of `mask`, and of the three work buffers -/
  patternAlloc : Bool
  maskAlloc : Bool
  bufsAlloc : Bool
  /-- what the heap held where they are -/
  pattern : Buf
  mask : Buf
  chunkBuf : Buf
  /-- the target and `mem_buf` when the `k`-th chunk is served -/
  mem : Nat → Memory
  memBuf : Nat → Buf

/-- A turbo COUNT that is not resident. -/
structure TurboCountPacket extends ScanCountPacket where
  flags : UInt32
  clientDriven : hasFlag flags TS_SERVER_RESIDENT = false

def TS_RESCAN_ALIASING : UInt32 := 0x100

/-- Whether a pattern is received. -/
def ScanCountPacket.needsPattern (cp : ScanCountPacket) : Bool :=
  ((CmpType.ofByte cp.compareType).map CmpType.needsValue).getD false && cp.lenData != 0

/-- Whether a mask is. -/
def ScanCountPacket.needsMask (cp : ScanCountPacket) : Bool :=
  decide (ValType.ofByte cp.valueType = .arrBytes)

/-- The checks of both handlers before they answer CMD_SUCCESS. -/
def countRefused (env : RescanEnv) (cp : Option ScanCountPacket) : Bool :=
  !env.auth || match cp with
    | none => true
    | some cp =>
      (CmpType.ofByte cp.compareType).isNone || decide (cp.valueLength = 0 ∨ cp.valueLength > 0x1000) ||
        (cp.needsPattern && !env.patternAlloc) || (cp.needsMask && !env.maskAlloc) || !env.bufsAlloc

/-- The `size` bytes of a fresh buffer after a receive into it. -/
def received (raw : Buf) (size : Nat) (r : Recv) : List Byte :=
  slice (recvInto (netAllocBuffer raw size) r) 0 size

/-- The receive of the pattern, with its length as an `int`. -/
def recvPattern (cp : ScanCountPacket) (s : List Byte) : Recv :=
  if cp.needsPattern then netRecvAll s cp.lenData.toInt32.toInt else ⟨[], true, s⟩

/-- The mask, if there is one. -/
def recvMask (cp : ScanCountPacket) (s : List Byte) : Recv :=
  if cp.needsMask then netRecvAll s cp.valueLength else ⟨[], true, s⟩

/-- What the loop starts with. -/
def countStart (env : RescanEnv) (cp : ScanCountPacket) (s : List Byte) :
    Option (CountPass × ChunkState) :=
  let pattern := recvPattern cp s
  let mask := recvMask cp pattern.rest
  (prepareCount cp (received env.pattern cp.lenData.toNat pattern)
    (received env.mask cp.valueLength mask)).map fun p =>
      (p, ⟨mask.rest, netAllocBuffer env.chunkBuf 0x40000, 0, []⟩)

/-- The words and blocks a handler sent, and what it returned. -/
structure CountReturn where
  replies : List UInt32
  blocks : List (List Byte)
  rc : Int

/-- Both handlers; `serve` is their loop over the entries of a chunk. `none` is a handler that has
not returned after so many chunks, or dereferences the null pattern. -/
def countHandle (serve : ScanCountPacket → CountPass → Nat → List Byte → Option (List (List Byte))) (fuel : Nat)
    (env : RescanEnv) (cp : Option ScanCountPacket) (s : List Byte) : Option CountReturn :=
  if countRefused env cp then some ⟨[CMD_DATA_NULL], [], 1⟩
  else
    match cp.bind fun cp => (countStart env cp s).map (cp, ·) with
    | none => some ⟨[CMD_DATA_NULL], [], 1⟩
    | some (cp, p, st) =>
      ((loop (chunkPass (serve cp p)) fuel st).bind id).map fun sent => ⟨[CMD_SUCCESS, CMD_SUCCESS], sent, 0⟩

/-- `proc_scan_count_handle`. -/
def procScanCountHandle (fuel : Nat) (env : RescanEnv) (cp : Option ScanCountPacket) (s : List Byte) :
    Option CountReturn :=
  countHandle (fun cp p k chunk =>
    scanCountStream (env.mem k) cp.base_address.toNat p chunk (env.memBuf k)) fuel env cp s

/-- The alias context for the `k`-th chunk of a turbo COUNT. -/
def TurboCountPacket.actx {env : RescanEnv} (cp : Option TurboCountPacket)
    (actx : ∀ k, Option (AliasEngine (env.mem k))) (k : Nat) : Option (AliasEngine (env.mem k)) :=
  if (cp.map fun cp => hasFlag cp.flags TS_RESCAN_ALIASING).getD false then actx k else none

/-- `proc_turboscan_count_handle`, without its resident branch. -/
def procTurboscanCountHandle (fuel : Nat) (env : RescanEnv) (actx : ∀ k, Option (AliasEngine (env.mem k)))
    (cp : Option TurboCountPacket) (s : List Byte) : Option CountReturn :=
  countHandle (fun packet p k chunk =>
    (turboCountChunk (TurboCountPacket.actx cp actx k) packet.base_address.toNat p chunk (env.memBuf k)).map
      (sendRecords (countFlushThresh p.valueLength)))
    fuel env (cp.map TurboCountPacket.toScanCountPacket) s

/-! ## When the loop ends -/

/-- A chunk on the wire. -/
def chunkFrame (chunk : List Byte) : List Byte := leBytes 4 chunk.length ++ chunk

/-- The client's chunks, of which the first is the `k`-th, are followed by a length that no chunk has, and
each that is not empty is served (`alive`). If fewer than four bytes are left for that length, the missing
ones count as zeros. -/
def Terminated (alive : Nat → List Byte → Prop) (k : Nat) (s : List Byte) : Prop :=
  ∃ (chunks : List (List Byte)) (w : List Byte), (∀ c ∈ chunks, c.length ≤ 0x40000) ∧
    s = chunks.flatMap chunkFrame ++ w ∧ leNat 4 w > 0x40000 ∧
    ∀ i c, chunks[i]? = some c → c = [] ∨ alive (k + i) c

variable {alive : Nat → List Byte → Prop} {k : Nat}

theorem not_terminated_nil : ¬ Terminated alive k [] := by
  rintro ⟨chunks, w, _, hs, hw, _⟩
  obtain ⟨_, rfl⟩ := List.append_eq_nil_iff.mp hs.symm
  exact absurd hw (by decide)

/-- The first word of the stream is the length of its first chunk. -/
theorem terminated_step {s : List Byte} (h : leNat 4 s ≤ 0x40000) :
    Terminated alive k s ↔ (leNat 4 s = 0 ∨ alive k ((s.drop 4).take (leNat 4 s))) ∧
      Terminated alive (k + 1) (s.drop (4 + leNat 4 s)) := by
  constructor
  · rintro ⟨chunks, w, hle, hs, hw, halive⟩
    cases chunks with
    | nil =>
      rw [List.flatMap_nil, List.nil_append] at hs
      subst hs
      omega
    | cons c cs =>
      have hc : c.length ≤ 0x40000 := hle c List.mem_cons_self
      rw [List.flatMap_cons, List.append_assoc, chunkFrame, List.append_assoc] at hs
      have hlen : leNat 4 s = c.length := by rw [hs]; exact leNat_leBytes_append (by omega) _
      refine ⟨?_, cs, w, fun c' h' => hle c' (List.mem_cons_of_mem _ h'), ?_, hw, fun i c' hi => ?_⟩
      · rw [hlen, hs, drop_leBytes, List.take_left]
        rcases halive 0 c rfl with rfl | hc
        · exact .inl rfl
        · exact .inr hc
      · rw [hlen, hs, ← List.drop_drop, drop_leBytes, List.drop_left]
      · rw [Nat.add_assoc, Nat.add_comm 1 i]
        exact halive (i + 1) c' hi
  · rintro ⟨hfirst, chunks, w, hle, hs, hw, halive⟩
    have hlong : 4 + leNat 4 s ≤ s.length := by
      by_contra hshort
      rw [List.drop_of_length_le (by omega)] at hs
      exact not_terminated_nil ⟨chunks, w, hle, hs, hw, halive⟩
    have hchunk : ((s.drop 4).take (leNat 4 s)).length = leNat 4 s := by
      rw [List.length_take, List.length_drop]
      omega
    refine ⟨(s.drop 4).take (leNat 4 s) :: chunks, w, List.forall_mem_cons.mpr ⟨by omega, hle⟩, ?_, hw,
      fun i c hi => ?_⟩
    · have hword : leBytes 4 (leNat 4 s) = s.take 4 := by
        rw [← leNat_take]
        exact leBytes_leNat 4 _ (by rw [List.length_take]; omega)
      rw [List.flatMap_cons, chunkFrame, hchunk, hword, List.append_assoc, ← hs, ← List.drop_drop,
        List.append_assoc, List.take_append_drop, List.take_append_drop]
    · cases i with
      | zero =>
        obtain rfl := Option.some.inj hi
        refine hfirst.imp_left fun hzero => List.eq_nil_of_length_eq_zero (hchunk.trans hzero)
      | succ i =>
        have := halive i c hi
        rwa [Nat.add_assoc, Nat.add_comm 1 i] at this

variable (serve : Nat → List Byte → Option (List (List Byte)))

/-- The loop leaves at a length that no chunk has. -/
theorem chunkPass_leave {st : ChunkState} (h : leNat 4 st.stream > 0x40000) :
    chunkPass serve st = .inr (some st.sent) := by
  have hlen : leNat 4 (netRecvAll st.stream 4).got = leNat 4 st.stream := by
    rw [netRecvAll_eq]
    exact leNat_take 4 st.stream
  have hzero : leNat 4 st.stream ≠ 0 := by omega
  unfold chunkPass
  simp only [hlen, if_neg hzero, if_pos h]
  split <;> rfl

/-- It goes on behind an empty chunk. -/
theorem chunkPass_empty {st : ChunkState} (h : leNat 4 st.stream = 0) : chunkPass serve st =
    .inl { st with stream := st.stream.drop 4, served := st.served + 1, sent := st.sent ++ [sentinel] } := by
  have hlen : leNat 4 (netRecvAll st.stream 4).got = 0 := by
    rw [netRecvAll_eq]
    exact (leNat_take 4 st.stream).trans h
  have hrest : (netRecvAll st.stream 4).rest = st.stream.drop 4 := by rw [netRecvAll_eq]; rfl
  unfold chunkPass
  simp only [hlen, hrest]
  rfl

/-- It goes on behind any other, if it is served. What is served are the chunk's bytes, if they all came. -/
theorem chunkPass_chunk {st : ChunkState} (hzero : leNat 4 st.stream ≠ 0) (h : leNat 4 st.stream ≤ 0x40000) :
    ∃ (chunk : List Byte) (buf : Buf), (4 + leNat 4 st.stream ≤ st.stream.length →
        chunk = (st.stream.drop 4).take (leNat 4 st.stream)) ∧
      chunkPass serve st = match serve st.served chunk with
        | none => .inr none
        | some sends => .inl ⟨st.stream.drop (4 + leNat 4 st.stream), buf, st.served + 1, st.sent ++ sends⟩ := by
  have hlen : leNat 4 (netRecvAll st.stream 4).got = leNat 4 st.stream := by
    rw [netRecvAll_eq]
    exact leNat_take 4 st.stream
  have hgot : (netRecvAll (netRecvAll st.stream 4).rest (leNat 4 st.stream)).got =
      (st.stream.drop 4).take (leNat 4 st.stream) := by
    rw [netRecvAll_eq, netRecvAll_eq, Int.toNat_natCast]
    rfl
  have hrest : (netRecvAll (netRecvAll st.stream 4).rest (leNat 4 st.stream)).rest =
      st.stream.drop (4 + leNat 4 st.stream) := by
    rw [netRecvAll_eq, netRecvAll_eq, Int.toNat_natCast, ← List.drop_drop]
    rfl
  refine ⟨slice (recvInto st.chunkBuf (netRecvAll (netRecvAll st.stream 4).rest (leNat 4 st.stream))) 0
    (leNat 4 st.stream), recvInto st.chunkBuf (netRecvAll (netRecvAll st.stream 4).rest (leNat 4 st.stream)),
    fun hall => ?_, ?_⟩
  · have hsize : ((st.stream.drop 4).take (leNat 4 st.stream)).length = leNat 4 st.stream := by
      rw [List.length_take, List.length_drop]
      omega
    rw [recvInto, hgot, hsize]
    have hin := @slice_blit_inside st.chunkBuf (ofList ((st.stream.drop 4).take (leNat 4 st.stream))) 0
      (leNat 4 st.stream) 0 (leNat 4 st.stream) (by omega)
    rw [Nat.add_zero] at hin
    have hbytes := slice_ofList ((st.stream.drop 4).take (leNat 4 st.stream))
    rw [hsize] at hbytes
    rw [hin, hbytes]
  · unfold chunkPass
    simp only [hlen, if_neg (show ¬ leNat 4 st.stream = 0xFFFFFFFF by omega), if_neg hzero,
      if_neg (show ¬ leNat 4 st.stream > 0x40000 by omega), hrest]

/-- **The loop ends well exactly on a terminated stream** whose chunks are all served. -/
theorem leaves_iff_terminated (st : ChunkState) :
    Leaves (chunkPass serve) (fun out => out.isSome = true) st ↔
      Terminated (fun k c => (serve k c).isSome = true) st.served st.stream := by
  induction hm : st.stream.length using Nat.strong_induction_on generalizing st with
  | _ m ih =>
    by_cases hlen : leNat 4 st.stream > 0x40000
    · exact iff_of_true ((leaves_iff_leave (chunkPass_leave serve hlen)).mpr rfl)
        ⟨[], st.stream, by simp, rfl, hlen, fun i c hi => by cases hi⟩
    by_cases hnil : st.stream = []
    · -- the client is gone: every word is 0
      rw [hnil]
      refine iff_of_false (fun hleaves => not_halts (fun st => st.stream = []) (fun st' h' => ?_) hnil
        hleaves.halts) not_terminated_nil
      refine ⟨_, chunkPass_empty serve (by rw [h']; decide), ?_⟩
      rw [h']
      rfl
    have hpos : 0 < st.stream.length := List.length_pos_iff.mpr hnil
    rw [terminated_step (by omega)]
    by_cases hzero : leNat 4 st.stream = 0
    · rw [leaves_iff_next (chunkPass_empty serve hzero), ih _ (by rw [List.length_drop]; omega) _ rfl, hzero]
      exact (and_iff_right (.inl rfl)).symm
    obtain ⟨chunk, buf, hchunk, hbody⟩ := chunkPass_chunk serve hzero (by omega)
    by_cases hall : 4 + leNat 4 st.stream ≤ st.stream.length
    · rw [← hchunk hall, or_iff_right hzero]
      cases hserve : serve st.served chunk with
      | none =>
        rw [hserve] at hbody
        rw [leaves_iff_leave hbody]
        exact iff_of_false (by simp) fun h => by cases h.1
      | some sends =>
        rw [hserve] at hbody
        rw [leaves_iff_next hbody, ih _ (by rw [List.length_drop]; omega) _ rfl]
        exact (and_iff_right rfl).symm
    · -- the chunk is cut short, and nothing comes behind it
      have hdrop : st.stream.drop (4 + leNat 4 st.stream) = [] := List.drop_of_length_le (by omega)
      rw [hdrop] at hbody ⊢
      refine iff_of_false ?_ fun h => not_terminated_nil h.2
      cases hserve : serve st.served chunk with
      | none =>
        rw [hserve] at hbody
        rw [leaves_iff_leave hbody]
        simp
      | some sends =>
        rw [hserve] at hbody
        rw [leaves_iff_next hbody, ih _ (by rw [List.length_nil]; omega) _ rfl]
        exact not_terminated_nil

/-! ## When the handlers return -/

/-- The bytes of the pattern and the mask. -/
def ScanCountPacket.prologueLength (cp : ScanCountPacket) : Nat :=
  (if cp.needsPattern then cp.lenData.toInt32.toInt.toNat else 0) +
    if cp.needsMask then cp.valueLength else 0

theorem rest_recvMask (cp : ScanCountPacket) (s : List Byte) :
    (recvMask cp (recvPattern cp s).rest).rest = s.drop cp.prologueLength := by
  have hpattern : (recvPattern cp s).rest =
      s.drop (if cp.needsPattern then cp.lenData.toInt32.toInt.toNat else 0) := by
    unfold recvPattern
    split
    · rw [netRecvAll_eq]
    · rfl
  rw [hpattern, ScanCountPacket.prologueLength, ← List.drop_drop, recvMask]
  split
  · rw [netRecvAll_eq, Int.toNat_natCast]
  · rfl

/-- A request that passes the checks is prepared, whatever the client sends for pattern and mask. -/
theorem prepareCount_of_not_refused {env : RescanEnv} {cp : ScanCountPacket}
    (h : countRefused env (some cp) = false) (data maskData : List Byte) :
    ∃ p, prepareCount cp data maskData = some p := by
  simp only [countRefused, Bool.or_eq_false_iff, decide_eq_false_iff_not] at h
  obtain ⟨_, ⟨⟨⟨hct, hlen⟩, _⟩, _⟩, _⟩ := h
  obtain ⟨ct, hct⟩ : ∃ ct, CmpType.ofByte cp.compareType = some ct := by
    cases hc : CmpType.ofByte cp.compareType with
    | none => rw [hc] at hct; cases hct
    | some ct => exact ⟨ct, rfl⟩
  rw [prepareCount, hct]
  exact ⟨_, if_neg hlen⟩

/-- The request is refused, or its pattern and mask are followed by chunks that are all served (`alive`) and
then a length that no chunk has. -/
def CountEnds (alive : ScanCountPacket → CountPass → Nat → List Byte → Prop) (env : RescanEnv)
    (cp : Option ScanCountPacket) (s : List Byte) : Prop :=
  countRefused env cp = true ∨ ∃ packet ∈ cp, ∃ start ∈ countStart env packet s,
    Terminated (alive packet start.1) 0 (s.drop packet.prologueLength)

theorem countHandle_returns_iff
    (serve : ScanCountPacket → CountPass → Nat → List Byte → Option (List (List Byte))) (env : RescanEnv)
    (cp : Option ScanCountPacket) (s : List Byte) :
    (∃ fuel, (countHandle serve fuel env cp s).isSome = true) ↔
      CountEnds (fun packet p k chunk => (serve packet p k chunk).isSome = true) env cp s := by
  unfold countHandle
  cases href : countRefused env cp with
  | true => exact iff_of_true ⟨0, rfl⟩ (.inl href)
  | false =>
    cases cp with
    | none => simp [countRefused] at href
    | some cp =>
      obtain ⟨p, hp⟩ := prepareCount_of_not_refused href
        (received env.pattern cp.lenData.toNat (recvPattern cp s))
        (received env.mask cp.valueLength (recvMask cp (recvPattern cp s).rest))
      have hstart : countStart env cp s = some (p, ⟨s.drop cp.prologueLength,
          netAllocBuffer env.chunkBuf 0x40000, 0, []⟩) := by
        rw [countStart, hp, Option.map_some, rest_recvMask]
      simp only [Bool.false_eq_true, if_false, Option.bind_some, hstart, Option.map_some,
        Option.isSome_map]
      have hloop := leaves_iff_terminated (serve cp p)
        ⟨s.drop cp.prologueLength, netAllocBuffer env.chunkBuf 0x40000, 0, []⟩
      simp only [CountEnds, href, Bool.false_eq_true, false_or, Option.mem_some_iff, exists_eq_left', hstart]
      rw [← hloop, Leaves]
      refine exists_congr fun fuel => ?_
      cases loop (chunkPass (serve cp p)) fuel
          ⟨s.drop cp.prologueLength, netAllocBuffer env.chunkBuf 0x40000, 0, []⟩ with
      | none => simp
      | some out => simp

/-- No candidate of the chunk makes `proc_scan_compareValues` dereference a null pattern. -/
def scanAlive (env : RescanEnv) (packet : ScanCountPacket) (p : CountPass) (k : Nat) (chunk : List Byte) : Prop :=
  p.Lives .values (candidateWindows (classicServer (env.mem k) p.valueLength) p packet.base_address.toNat chunk
    (env.memBuf k))

/-- Nor one of the comparators of the turbo handler. -/
def turboAlive (env : RescanEnv) (actx : ∀ k, Option (AliasEngine (env.mem k))) (packet : ScanCountPacket)
    (p : CountPass) (k : Nat) (chunk : List Byte) : Prop :=
  p.Lives p.turboCall (candidateWindows (turboServer (actx k) p.valueLength) p packet.base_address.toNat chunk
    (env.memBuf k))

theorem scanCount_returns_iff (env : RescanEnv) (cp : Option ScanCountPacket) (s : List Byte) :
    (∃ fuel, (procScanCountHandle fuel env cp s).isSome = true) ↔ CountEnds (scanAlive env) env cp s := by
  refine (countHandle_returns_iff _ env cp s).trans (iff_of_eq ?_)
  congr 1
  funext packet p k chunk
  rw [scanCountStream, scanAlive]
  split
  · next h => exact propext (iff_of_true rfl h)
  · next h => exact propext (iff_of_false (by simp) h)

theorem turboscanCount_returns_iff (env : RescanEnv) (actx : ∀ k, Option (AliasEngine (env.mem k)))
    (cp : Option TurboCountPacket) (s : List Byte) :
    (∃ fuel, (procTurboscanCountHandle fuel env actx cp s).isSome = true) ↔
      CountEnds (turboAlive env (TurboCountPacket.actx cp actx)) env
        (cp.map TurboCountPacket.toScanCountPacket) s := by
  refine (countHandle_returns_iff _ env (cp.map TurboCountPacket.toScanCountPacket) s).trans (iff_of_eq ?_)
  congr 1
  funext packet p k chunk
  rw [Option.isSome_map, turboCountChunk, turboAlive]
  split
  · next h => exact propext (iff_of_true rfl h)
  · next h => exact propext (iff_of_false (by simp) h)

/-- Every check passes. -/
def plainEnv : RescanEnv :=
  ⟨true, true, true, true, fun _ => 0, fun _ => 0, fun _ => 0, fun _ _ => 0, fun _ _ => 0⟩

/-- An exact 4-byte COUNT. -/
def exactCount : TurboCountPacket := ⟨⟨7, 0x1000, 4, 0, 4⟩, 0, rfl⟩

end Ps5Debugger
