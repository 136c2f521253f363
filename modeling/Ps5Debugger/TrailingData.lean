import Ps5Debugger.RegisterWrites
import Ps5Debugger.Target

/-!
# Data behind a request

Four commands announce how much the client sends behind the packet: SCAN_GET by a count of entries
of twelve bytes, the register writes by a length. The length is a raw 32-bit field, the size of the
entries a 32-bit product, and `net_recv_all` takes either as an `int`. SETFPREGS alone compares it
with its buffer.

`trailing_data_fits_iff` says for which requests what is received fits the buffer, and what is read
from it was received.
-/

namespace Ps5Debugger

open Lib

/-! ## SCAN_GET -/

/-- Whether the two buffers can be allocated, and what the heap held. -/
structure ScanGetOs where
  entries : Bool
  buf : Bool
  raw : Buf

/-- What SCAN_GET leaves: the status words, what it received into how large a buffer, the reads of
the entries (offset and size), and what it sends behind the status. -/
structure GetOutcome where
  replies : List UInt32
  received : Option (Nat × Nat) := none
  reads : List (Nat × Nat) := []
  sends : List (List Byte) := []

/-- The blocks of one entry, `0x100000` bytes at most. -/
def entryBlocks (mem : Memory) (addr length : Nat) : List (List Byte) :=
  if _h : length > 0 then
    let toRead := if length > 0x100000 then 0x100000 else length
    slice (readMem mem addr) 0 toRead :: entryBlocks mem (u64 (addr + toRead)) (length - toRead)
  else []
termination_by length
decreasing_by
  split <;> omega

/-- The entry at index `i`: its address and its length, at offsets taken in 32 bits. -/
def entryReads (i : Nat) : List (Nat × Nat) := [(u32 (12 * i), 8), (u32 (12 * i + 8), 4)]

/-- `proc_scan_get_handle`; `auth` is `g_proc_auth_state & 2`, the body a count. -/
def procScanGetHandle (auth : Bool) (mem : Memory) (data : Option UInt32) (stream : List Byte)
    (os : ScanGetOs) : GetOutcome :=
  if auth = false then { replies := [CMD_DATA_NULL] }
  else match data with
  | none => { replies := [CMD_DATA_NULL] }
  | some count =>
    let entriesLen := count * 12
    if entriesLen = 0 ∨ os.entries = false then { replies := [CMD_DATA_NULL] }
    else if allocEnds entriesLen = false then { replies := [] }
    else
      let r := netRecvAll stream entriesLen.toInt32.toInt
      let received := some (entriesLen.toNat, r.got.length)
      if os.buf = false then { replies := [CMD_SUCCESS, CMD_DATA_NULL], received }
      else
        let entries := blit (netAllocBuffer os.raw entriesLen.toNat) 0 (ofList r.got) r.got.length
        let entry (i : Nat) := entryBlocks mem (leNat 8 (slice entries (u32 (12 * i)) 8))
          (leNat 4 (slice entries (u32 (12 * i + 8)) 4))
        { replies := [CMD_SUCCESS], received
          reads := (List.range count.toNat).flatMap entryReads
          sends := (List.range count.toNat).flatMap entry ++ [leBytes 8 (2 ^ 64 - 1)] }

/-! ## The four requests -/

/-- A request with trailing data, what the client sends behind it, and what the system answers. -/
inductive TrailingReq where
  | scanGet (auth : Bool) (mem : Memory) (data : Option UInt32) (stream : List Byte) (os : ScanGetOs)
  | setregs (t : Tracee) (data : Option SetregPacket) (stream : List Byte) (raw : Blob .regs) (os : RegOs)
  | setfpregs (t : Tracee) (data : Option SetregPacket) (stream : List Byte) (os : RegOs)
  | setdbregs (t : Tracee) (data : Option SetregPacket) (stream : List Byte) (raw : Blob .dbregs)
      (continues : Bool) (os : RegOs)

/-- The buffer of a request and how many bytes were received into it; none if it was refused. -/
def TrailingReq.received : TrailingReq → Option (Nat × Nat)
  | .scanGet auth mem data stream os => (procScanGetHandle auth mem data stream os).received
  | .setregs t data stream raw os => (t.debugSetregsHandle data stream raw os).received
  | .setfpregs t data stream os => (t.debugSetfpregsHandle data stream os).received
  | .setdbregs t data stream raw continues os =>
    (t.debugSetdbregsHandle data stream raw continues os).received

/-- The indexed reads of what was received. -/
def TrailingReq.reads : TrailingReq → List (Nat × Nat)
  | .scanGet auth mem data stream os => (procScanGetHandle auth mem data stream os).reads
  | _ => []

/-- **The promise**: what is received fits the buffer, and every read lies inside what was
received. -/
structure TrailingReq.Fits (req : TrailingReq) : Prop where
  buffer : ∀ size n, req.received = some (size, n) → n ≤ size
  entries : ∀ off len, (off, len) ∈ req.reads → ∃ size n, req.received = some (size, n) ∧ off + len ≤ n

/-- A length field and the bytes that come never overrun a buffer of `size`. As an `int` a length
from `2^31` on is negative, and nothing is received. -/
def SetregPacket.fitsBuffer (sp : SetregPacket) (stream : List Byte) (size : Nat) : Prop :=
  sp.length.toNat < 2 ^ 31 → sp.length.toNat ≤ size ∨ stream.length ≤ size

/-- **The condition.** SETFPREGS has none. SETREGS and SETDBREGS need a length, or a client, that
sends no more than the buffer holds. SCAN_GET, unless it is turned away or gets no further than its
allocations, needs entries whose size is an `int`, all of which the client sends. -/
def TrailingReq.sound : TrailingReq → Prop
  | .scanGet auth _ data stream os => auth = true → ∀ count ∈ data, count * 12 ≠ 0 → os.entries = true →
      allocEnds (count * 12) = true → os.buf = true →
      12 * count.toNat < 2 ^ 31 ∧ 12 * count.toNat ≤ stream.length
  | .setregs _ data stream _ _ => ∀ sp ∈ data, sp.fitsBuffer stream (RegSet.size .regs)
  | .setfpregs _ _ _ _ => True
  | .setdbregs _ data stream _ _ _ => ∀ sp ∈ data, sp.fitsBuffer stream (RegSet.size .dbregs)

/-! ## Receiving into a fixed buffer -/

/-- An `int` length receives that many bytes, or what there is, or nothing. -/
theorem length_recv_int (s : List Byte) (n : UInt32) : (netRecvAll s n.toInt32.toInt).got.length =
    if n.toNat < 2 ^ 31 then min n.toNat s.length else 0 := by
  rw [netRecvAll_eq, List.length_take, toNat_int]
  by_cases h : n.toNat < 2 ^ 31
  · rw [if_pos h, if_pos h]
  · rw [if_neg h, if_neg h, Nat.zero_min]

theorem recv_le_iff (sp : SetregPacket) (stream : List Byte) (size : Nat) :
    (netRecvAll stream sp.recvLen).got.length ≤ size ↔ sp.fitsBuffer stream size := by
  rw [SetregPacket.recvLen, length_recv_int, SetregPacket.fitsBuffer]
  by_cases h : sp.length.toNat < 2 ^ 31
  · rw [if_pos h, min_le_iff, forall_prop_of_true h]
  · rw [if_neg h]
    exact iff_of_true (Nat.zero_le _) fun h' => absurd h' h

/-- A request that reads nothing back: its buffer alone matters. -/
theorem fits_iff_of_received {req : TrailingReq} {size n : Nat} (hreads : req.reads = [])
    (hrecv : req.received = some (size, n)) : req.Fits ↔ n ≤ size := by
  refine ⟨fun h => h.buffer size n hrecv, fun h => ⟨fun size' n' h' => ?_, fun off len hm => ?_⟩⟩
  · rw [hrecv] at h'
    obtain ⟨rfl, rfl⟩ := Prod.mk.inj (Option.some.inj h')
    exact h
  · rw [hreads] at hm
    cases hm

theorem fits_of_none {req : TrailingReq} (hreads : req.reads = []) (hrecv : req.received = none) :
    req.Fits := by
  refine ⟨fun size n h => ?_, fun off len hm => ?_⟩
  · rw [hrecv] at h
    cases h
  · rw [hreads] at hm
    cases hm

section Registers

variable {t : Tracee} {stream : List Byte} {os : RegOs}

theorem setregs_fits_iff (data : Option SetregPacket) (raw : Blob .regs) :
    (TrailingReq.setregs t data stream raw os).Fits ↔
      ∀ sp ∈ data, sp.fitsBuffer stream (RegSet.size .regs) := by
  cases data with
  | none => exact iff_of_true (fits_of_none rfl rfl) nofun
  | some sp =>
    simp only [Option.mem_some_iff, forall_eq', ← recv_le_iff]
    exact fits_iff_of_received rfl rfl

theorem setdbregs_fits_iff (data : Option SetregPacket) (raw : Blob .dbregs) (continues : Bool) :
    (TrailingReq.setdbregs t data stream raw continues os).Fits ↔
      ∀ sp ∈ data, sp.fitsBuffer stream (RegSet.size .dbregs) := by
  cases data with
  | none => exact iff_of_true (fits_of_none rfl rfl) nofun
  | some sp =>
    simp only [Option.mem_some_iff, forall_eq', ← recv_le_iff]
    exact fits_iff_of_received rfl rfl

/-- SETFPREGS compares the length with its buffer first. -/
theorem setfpregs_fits (data : Option SetregPacket) : (TrailingReq.setfpregs t data stream os).Fits := by
  cases data with
  | none => exact fits_of_none rfl rfl
  | some sp =>
    by_cases hlen : sp.length.toNat > RegSet.size .fpregs
    · refine fits_of_none rfl ?_
      simp only [TrailingReq.received, Tracee.debugSetfpregsHandle]
      rw [if_pos hlen, reply_received]
    · have hrecv : (TrailingReq.setfpregs t (some sp) stream os).received =
          some (RegSet.size .fpregs, (netRecvAll stream sp.recvLen).got.length) := by
        simp only [TrailingReq.received, Tracee.debugSetfpregsHandle]
        rw [if_neg hlen]
        split <;> rw [receiving_received]
      rw [fits_iff_of_received rfl hrecv, recv_le_iff]
      exact fun _ => .inl (not_lt.mp hlen)

end Registers

/-! ## Entries -/

section Entries

variable {auth : Bool} {mem : Memory} {stream : List Byte} {os : ScanGetOs} {count : UInt32}

/-- SCAN_GET past its allocations. -/
structure ScanGetOs.Reaches (os : ScanGetOs) (count : UInt32) : Prop where
  nonzero : count * 12 ≠ 0
  entries : os.entries = true
  ends : allocEnds (count * 12) = true

variable (mem stream) in
theorem scanGet_received (h : os.Reaches count) :
    (procScanGetHandle true mem (some count) stream os).received =
      some ((count * 12).toNat, (netRecvAll stream (count * 12).toInt32.toInt).got.length) := by
  unfold procScanGetHandle
  dsimp only
  rw [if_neg (by decide), if_neg (by simp [h.nonzero, h.entries]), if_neg (by simp [h.ends])]
  split <;> rfl

variable (mem stream) in
theorem scanGet_reads (h : os.Reaches count) : (procScanGetHandle true mem (some count) stream os).reads =
    if os.buf then (List.range count.toNat).flatMap entryReads else [] := by
  unfold procScanGetHandle
  dsimp only
  rw [if_neg (by decide), if_neg (by simp [h.nonzero, h.entries]), if_neg (by simp [h.ends])]
  cases os.buf <;> rfl

variable (mem stream) in
/-- A SCAN_GET that is turned away, or does not get past its first allocation. -/
theorem scanGet_refused {data : Option UInt32} (h : auth = true → ∀ count ∈ data, ¬ os.Reaches count) :
    (procScanGetHandle auth mem data stream os).received = none ∧
      (procScanGetHandle auth mem data stream os).reads = [] := by
  unfold procScanGetHandle
  cases auth with
  | false => exact ⟨rfl, rfl⟩
  | true =>
    rw [if_neg (by decide)]
    cases data with
    | none => exact ⟨rfl, rfl⟩
    | some count =>
      dsimp only
      by_cases hfirst : count * 12 = 0 ∨ os.entries = false
      · rw [if_pos hfirst]
        exact ⟨rfl, rfl⟩
      · rw [if_neg hfirst]
        obtain ⟨hne, hent⟩ := not_or.mp hfirst
        by_cases hends : allocEnds (count * 12) = false
        · rw [if_pos hends]
          exact ⟨rfl, rfl⟩
        · exact absurd ⟨hne, by simpa using hent, by simpa using hends⟩ (h rfl count rfl)

/-- The reads of all entries lie in `n` bytes exactly when `n` bytes hold all entries, provided `n`
is the size of an `int`: an index that wraps comes after one that is past the end. -/
theorem entryReads_within_iff {count n : Nat} (hn : n < 2 ^ 31) :
    (∀ off len, (off, len) ∈ (List.range count).flatMap entryReads → off + len ≤ n) ↔ 12 * count ≤ n := by
  refine ⟨fun h => ?_, fun h off len hm => ?_⟩
  · by_contra hlt
    have hi : n / 12 < count := by omega
    have hlast : u32 (12 * (n / 12) + 8) = 12 * (n / 12) + 8 := Nat.mod_eq_of_lt (by omega)
    have hread := h (u32 (12 * (n / 12) + 8)) 4
      (List.mem_flatMap.mpr ⟨n / 12, List.mem_range.mpr hi, by simp [entryReads]⟩)
    rw [hlast] at hread
    omega
  · obtain ⟨i, hi, hm⟩ := List.mem_flatMap.mp hm
    have hlt := List.mem_range.mp hi
    have haddr : u32 (12 * i) = 12 * i := Nat.mod_eq_of_lt (by omega)
    have hlen : u32 (12 * i + 8) = 12 * i + 8 := Nat.mod_eq_of_lt (by omega)
    rw [entryReads, haddr, hlen] at hm
    simp only [List.mem_cons, Prod.mk.injEq, List.not_mem_nil, or_false] at hm
    omega

/-- What SCAN_GET receives fits its buffer; it holds all entries exactly when their size is an `int`
and the client sends them. -/
theorem entries_received_iff (h : count * 12 ≠ 0) :
    12 * count.toNat ≤ (netRecvAll stream (count * 12).toInt32.toInt).got.length ↔
      12 * count.toNat < 2 ^ 31 ∧ 12 * count.toNat ≤ stream.length := by
  have hmul : (count * 12).toNat = count.toNat * 12 % 2 ^ 32 := UInt32.toNat_mul ..
  have hpos : 0 < (count * 12).toNat := by
    refine Nat.pos_of_ne_zero fun hz => h (UInt32.toNat_inj.mp ?_)
    rw [hz]
    rfl
  have hle : (count * 12).toNat ≤ count.toNat * 12 := by
    rw [hmul]
    exact Nat.mod_le ..
  rw [length_recv_int]
  by_cases hsmall : (count * 12).toNat < 2 ^ 31
  · rw [if_pos hsmall]
    omega
  · rw [if_neg hsmall]
    omega

theorem scanGet_fits_iff (data : Option UInt32) :
    (TrailingReq.scanGet auth mem data stream os).Fits ↔
      (TrailingReq.scanGet auth mem data stream os).sound := by
  by_cases hreach : ∃ count ∈ data, auth = true ∧ os.Reaches count
  · obtain ⟨count, hd, rfl, hr⟩ := hreach
    obtain rfl : data = some count := hd
    have hrecv := scanGet_received mem stream hr
    have hreads := scanGet_reads mem stream hr
    generalize hg : (netRecvAll stream (count * 12).toInt32.toInt).got.length = g at hrecv
    have hgle : g ≤ (count * 12).toNat ∧ g < 2 ^ 31 := by
      rw [← hg, length_recv_int]
      split <;> omega
    have hsound : (TrailingReq.scanGet true mem (some count) stream os).sound ↔
        (os.buf = true → 12 * count.toNat ≤ g) := by
      rw [← hg, entries_received_iff hr.nonzero]
      exact ⟨fun h hb => h rfl count rfl hr.nonzero hr.entries hr.ends hb, fun h _ c hc _ _ _ hb => by
        obtain rfl := Option.mem_some.mp hc
        exact h hb⟩
    rw [hsound]
    cases hbuf : os.buf with
    | false =>
      rw [hbuf, if_neg (by decide)] at hreads
      have hfits : (TrailingReq.scanGet true mem (some count) stream os).Fits ↔ g ≤ (count * 12).toNat :=
        fits_iff_of_received hreads hrecv
      exact iff_of_true (hfits.mpr hgle.1) nofun
    | true =>
      rw [hbuf, if_pos rfl] at hreads
      rw [forall_prop_of_true rfl, ← entryReads_within_iff hgle.2]
      refine ⟨fun h off len hm => ?_, fun h => ⟨fun size n hrecv' => ?_, fun off len hm => ?_⟩⟩
      · obtain ⟨size, n, hrecv', hle⟩ := h.entries off len (by rw [← hreads] at hm; exact hm)
        obtain ⟨rfl, rfl⟩ := Prod.mk.inj (Option.some.inj (hrecv.symm.trans hrecv'))
        exact hle
      · obtain ⟨rfl, rfl⟩ := Prod.mk.inj (Option.some.inj (hrecv.symm.trans hrecv'))
        exact hgle.1
      · exact ⟨_, g, hrecv, h off len (by rw [← hreads]; exact hm)⟩
  · obtain ⟨hrecv, hreads⟩ := scanGet_refused mem stream
      (fun ha count hc hr => hreach ⟨count, hc, ha, hr⟩)
    refine iff_of_true (fits_of_none hreads hrecv) fun ha count hc hne hent hends _ => ?_
    exact absurd ⟨count, hc, ha, hne, hent, hends⟩ hreach

end Entries

/-- **Trailing data and its buffer.** For every request of the four commands, every body, whatever the
client sends and the system answers: what is received fits the buffer and every read of it was
received, exactly under the condition of the request. -/
theorem trailing_data_fits_iff (req : TrailingReq) : req.Fits ↔ req.sound := by
  cases req with
  | scanGet auth mem data stream os => exact scanGet_fits_iff data
  | setregs t data stream raw os => exact setregs_fits_iff data raw
  | setfpregs t data stream os => exact iff_of_true (setfpregs_fits data) trivial
  | setdbregs t data stream raw continues os => exact setdbregs_fits_iff data raw continues

/-- SETREGS with a length of 0x100 receives 0x100 bytes into a buffer of 0xB0. -/
theorem setregs_overruns_stack :
    let req : TrailingReq := .setregs pairTracee (some ⟨100001, 0x100⟩) (List.replicate 0x100 0x41)
      (Blob.zero _) goodOs
    req.received = some (0xB0, 0x100) ∧ ¬ req.Fits := by
  have hrecv : (TrailingReq.setregs pairTracee (some ⟨100001, 0x100⟩) (List.replicate 0x100 0x41)
      (Blob.zero _) goodOs).received = some (0xB0, 0x100) := by
    show some (RegSet.size .regs, _) = _
    rw [SetregPacket.recvLen, length_recv_int, List.length_replicate]
    decide
  exact ⟨hrecv, fun h => absurd (h.buffer _ _ hrecv) (by decide)⟩

end Ps5Debugger
