import Ps5Debugger.Debug
import Ps5Debugger.Target

/-!
# The bundle of `CMD_PROC_READ_STACK`

`proc_read_stack_handle` (`proc.c`) walks up a chain of frames from the `rbp` and `rsp` of a request and
writes what it finds behind each other into one buffer, with the number of frames in front. The pointers
come from the target's memory, which may hold anything: chains that run in circles, downwards or wild.

`PROTOCOL.md` gives a grammar for the bundle (`parseBundle`). `read_stack_bundle` says that what is sent is
a sentence of it, and which frames it holds.
-/

namespace Ps5Debugger

open Lib

/-! ## The handler -/

/-- `proc_rs_addr_ok` -/
def procRsAddrOk (a len : Nat) : Prop :=
  ¬ len = 0 ∧ ¬ (a < 0x10000 ∨ a ≥ 0x0000800000000000) ∧ ¬ u64 (a + len) < a ∧ ¬ u64 (a + len) > 0x0000800000000000

instance (a len : Nat) : Decidable (procRsAddrOk a len) := inferInstanceAs (Decidable (_ ∧ _))

def CMD_PROC_READ_STACK_MAX_DEPTH : Nat := 64

def CMD_PROC_READ_STACK_LOCALS_CAP : Nat := 0x1000

def CMD_PROC_READ_STACK_CODE_OFF : Nat := 10

def CMD_PROC_READ_STACK_CODE_LEN : Nat := 200

/-- `cmd_proc_read_stack_packet` without the pid. -/
structure ReadStackPacket where
  rbp : UInt64
  rsp : UInt64
  depth : UInt32

/-- `buf` and `off` -/
structure RsBuf where
  buf : Buf
  off : Nat

/-- `memcpy(buf + off, x, n); off += n;` -/
def RsBuf.memcpy (b : RsBuf) (x : List Byte) : RsBuf :=
  ⟨blit b.buf b.off (ofList x) x.length, u32 (b.off + x.length)⟩

/-- A part that is read from the target, if there is one; what is unreadable stays zero. -/
def RsBuf.read (b : RsBuf) (mem : Memory) (addr len : Nat) : RsBuf :=
  if len ≠ 0 then b.memcpy (slice (readMem mem addr) 0 len) else b

/-- `fs`, the bits of `(int64_t)cur_rbp - (int64_t)cur_rsp + 8` -/
def frameSize (rbp rsp : Nat) : Nat := u64 (subU64 rbp rsp + 8)

/-- The locals of a frame are omitted: `fs` is not positive, or too large, or they do not lie in user space. -/
def LocalsOmitted (rbp rsp : Nat) : Prop :=
  (frameSize rbp rsp = 0 ∨ frameSize rbp rsp ≥ 2 ^ 63) ∨ frameSize rbp rsp > CMD_PROC_READ_STACK_LOCALS_CAP ∨
    ¬ procRsAddrOk rsp (frameSize rbp rsp)

instance (rbp rsp : Nat) : Decidable (LocalsOmitted rbp rsp) := inferInstanceAs (Decidable (_ ∨ _))

/-- `locals_len` -/
def localsLen (rbp rsp : Nat) : Nat := if LocalsOmitted rbp rsp then 0 else frameSize rbp rsp

/-- `flags` -/
def frameFlags (rbp rsp : Nat) : Nat := if LocalsOmitted rbp rsp then 1 else 0

/-- `code_addr` -/
def codeAddr (ret_addr : Nat) : Nat := subU64 ret_addr CMD_PROC_READ_STACK_CODE_OFF

/-- `code_len` -/
def codeLen (ret_addr : Nat) : Nat :=
  if procRsAddrOk (codeAddr ret_addr) CMD_PROC_READ_STACK_CODE_LEN then CMD_PROC_READ_STACK_CODE_LEN else 0

/-- `pair[0]` -/
def savedRbp (mem : Memory) (rbp : Nat) : Nat := leNat 8 (slice (readMem mem rbp) 0 8)

/-- `pair[1]` -/
def retAddr (mem : Memory) (rbp : Nat) : Nat := leNat 8 (slice (readMem mem rbp) 8 8)

/-- What is written for a frame. -/
def RsBuf.frame (b : RsBuf) (mem : Memory) (cur_rbp cur_rsp : Nat) : RsBuf :=
  let ret_addr := retAddr mem cur_rbp
  let b := (b.memcpy (leBytes 8 cur_rbp)).memcpy (leBytes 8 cur_rsp)
  let b := (b.memcpy (leBytes 8 (savedRbp mem cur_rbp))).memcpy (leBytes 8 ret_addr)
  let b := b.memcpy (leBytes 4 (frameFlags cur_rbp cur_rsp))
  let b := (b.memcpy (leBytes 4 (localsLen cur_rbp cur_rsp))).memcpy (leBytes 4 (codeLen ret_addr))
  (b.read mem cur_rsp (localsLen cur_rbp cur_rsp)).read mem (codeAddr ret_addr) (codeLen ret_addr)

/-- The loop over the frames, with so many left; returns the buffer and `n_frames`. -/
def readFrames (mem : Memory) (cap : Nat) : Nat → Nat → Nat → RsBuf → Nat → RsBuf × Nat
  | 0, _, _, b, n_frames => (b, n_frames)
  | left + 1, cur_rbp, cur_rsp, b, n_frames =>
    if ¬ procRsAddrOk cur_rbp 16 then (b, n_frames)
    else if u32 (b.off + 32 + 12 + localsLen cur_rbp cur_rsp + codeLen (retAddr mem cur_rbp)) > cap then (b, n_frames)
    else if savedRbp mem cur_rbp = 0 then (b.frame mem cur_rbp cur_rsp, n_frames + 1)
    else
      readFrames mem cap left (savedRbp mem cur_rbp) (u64 (cur_rbp + 8)) (b.frame mem cur_rbp cur_rsp) (n_frames + 1)

/-- What a client receives: a status word, and the bundle with its length if there is one. -/
structure ReadStackReply where
  status : UInt32
  bundle : Option (Nat × List Byte) := none

/-- `depth`, after both corrections. -/
def ReadStackPacket.maxFrames (sp : ReadStackPacket) : Nat :=
  let depth := if sp.depth.toNat = 0 then 1 else sp.depth.toNat
  if depth > CMD_PROC_READ_STACK_MAX_DEPTH then CMD_PROC_READ_STACK_MAX_DEPTH else depth

/-- `cap` -/
def ReadStackPacket.cap (sp : ReadStackPacket) : Nat :=
  4 + sp.maxFrames * (32 + 12 + CMD_PROC_READ_STACK_LOCALS_CAP + CMD_PROC_READ_STACK_CODE_LEN)

/-- `proc_read_stack_handle`; `buf` is the buffer that is allocated, if it is. -/
def procReadStackHandle (mem : Memory) (data : Option ReadStackPacket) (buf : Option Buf) : ReadStackReply :=
  match data, buf with
  | none, _ => { status := CMD_DATA_NULL }
  | some _, none => { status := CMD_DATA_NULL }
  | some sp, some buf =>
    let (b, n_frames) := readFrames mem sp.cap sp.maxFrames sp.rbp.toNat sp.rsp.toNat ⟨buf, 4⟩ 0
    { status := CMD_SUCCESS, bundle := some (b.off, slice (blit b.buf 0 (ofList (leBytes 4 n_frames)) 4) 0 b.off) }

/-! ## The grammar -/

/-- A frame of a bundle. -/
structure StackFrame where
  rbp : Nat
  rsp : Nat
  saved_rbp : Nat
  ret_addr : Nat
  flags : Nat
  frame_locals : List Byte
  code : List Byte
deriving DecidableEq, Repr

/-- `per frame { ... }` -/
def parseFrame (s : List Byte) : Option (StackFrame × List Byte) :=
  let frame_locals_len := leNat 4 (s.drop 36)
  let code_len := leNat 4 (s.drop 40)
  let body := s.drop 44
  if s.length < 44 ∨ body.length < frame_locals_len + code_len then none
  else some (⟨leNat 8 s, leNat 8 (s.drop 8), leNat 8 (s.drop 16), leNat 8 (s.drop 24), leNat 4 (s.drop 32),
    body.take frame_locals_len, (body.drop frame_locals_len).take code_len⟩, body.drop (frame_locals_len + code_len))

/-- So many frames. -/
def parseFrames : Nat → List Byte → Option (List StackFrame × List Byte)
  | 0, s => some ([], s)
  | n + 1, s => do
    let (f, s) ← parseFrame s
    let (fs, s) ← parseFrames n s
    return (f :: fs, s)

/-- A bundle: `n_frames` and the frames, and what is left. -/
def parseBundle (s : List Byte) : Option (List StackFrame × List Byte) :=
  if s.length < 4 then none else parseFrames (leNat 4 s) (s.drop 4)

/-- The bytes of a frame. -/
def StackFrame.bytes (f : StackFrame) : List Byte :=
  leBytes 8 f.rbp ++ (leBytes 8 f.rsp ++ (leBytes 8 f.saved_rbp ++ (leBytes 8 f.ret_addr ++
    (leBytes 4 f.flags ++ (leBytes 4 f.frame_locals.length ++ (leBytes 4 f.code.length ++
      (f.frame_locals ++ f.code)))))))

/-- The numbers of a frame fit their fields. -/
structure StackFrame.Fits (f : StackFrame) : Prop where
  rbp : f.rbp < 256 ^ 8
  rsp : f.rsp < 256 ^ 8
  saved_rbp : f.saved_rbp < 256 ^ 8
  ret_addr : f.ret_addr < 256 ^ 8
  flags : f.flags < 256 ^ 4
  frame_locals : f.frame_locals.length < 256 ^ 4
  code : f.code.length < 256 ^ 4

theorem StackFrame.length_bytes (f : StackFrame) :
    f.bytes.length = 44 + f.frame_locals.length + f.code.length := by
  simp only [bytes, List.length_append, length_leBytes]
  omega

/-- A field at an offset, if the text from there on starts with it. -/
theorem drop_field {s t : List Byte} {k n x : Nat} (hs : s.drop k = leBytes n x ++ t) : s.drop (k + n) = t := by
  rw [← List.drop_drop, hs, drop_leBytes]

/-- A frame is read back. -/
theorem parseFrame_bytes {f : StackFrame} (hf : f.Fits) (t : List Byte) : parseFrame (f.bytes ++ t) = some (f, t) := by
  obtain ⟨s, hs⟩ : ∃ s, s = f.bytes ++ t := ⟨_, rfl⟩
  have hlen : s.length = 44 + f.frame_locals.length + f.code.length + t.length := by
    rw [hs, List.length_append, f.length_bytes]
  have h0 : s.drop 0 = leBytes 8 f.rbp ++ (leBytes 8 f.rsp ++ (leBytes 8 f.saved_rbp ++ (leBytes 8 f.ret_addr ++
      (leBytes 4 f.flags ++ (leBytes 4 f.frame_locals.length ++ (leBytes 4 f.code.length ++
        (f.frame_locals ++ (f.code ++ t)))))))) := by
    rw [List.drop_zero, hs]
    simp only [StackFrame.bytes, List.append_assoc]
  have h8 := drop_field h0
  have h16 := drop_field h8
  have h24 := drop_field h16
  have h32 := drop_field h24
  have h36 := drop_field h32
  have h40 := drop_field h36
  have h44 := drop_field h40
  norm_num only at h8 h16 h24 h32 h36 h40 h44
  have hrbp : leNat 8 s = f.rbp := by rw [← List.drop_zero (l := s), h0, leNat_leBytes_append hf.rbp]
  have hbody : ¬ (s.length < 44 ∨ (s.drop 44).length < f.frame_locals.length + f.code.length) := by
    rw [List.length_drop]
    omega
  have hrest : (s.drop 44).drop (f.frame_locals.length + f.code.length) = t := by
    rw [← List.drop_drop, h44, List.drop_left, List.drop_left]
  rw [← hs, parseFrame, h36, h40, leNat_leBytes_append hf.frame_locals, leNat_leBytes_append hf.code]
  rw [if_neg hbody, hrest, hrbp, h8, h16, h24, h32, h44, leNat_leBytes_append hf.rsp, leNat_leBytes_append hf.saved_rbp,
    leNat_leBytes_append hf.ret_addr, leNat_leBytes_append hf.flags, List.take_left, List.drop_left, List.take_left]

/-- So is a list of frames. -/
theorem parseFrames_bytes {fs : List StackFrame} (hfs : ∀ f ∈ fs, f.Fits) (t : List Byte) :
    parseFrames fs.length (fs.flatMap StackFrame.bytes ++ t) = some (fs, t) := by
  induction fs with
  | nil => rfl
  | cons f fs ih =>
    have hf : f.Fits := hfs f List.mem_cons_self
    have hrest := ih fun g hg => hfs g (List.mem_cons_of_mem f hg)
    rw [List.length_cons, parseFrames, List.flatMap_cons, List.append_assoc, parseFrame_bytes hf]
    simp only [Option.bind_eq_bind, Option.bind_some, hrest]
    rfl

/-- **A bundle is read back with nothing left over.** -/
theorem parseBundle_bytes {fs : List StackFrame} (hfs : ∀ f ∈ fs, f.Fits) (hlen : fs.length < 256 ^ 4) :
    parseBundle (leBytes 4 fs.length ++ fs.flatMap StackFrame.bytes) = some (fs, []) := by
  have hframes := parseFrames_bytes hfs []
  rw [List.append_nil] at hframes
  have hshort : ¬ (leBytes 4 fs.length ++ fs.flatMap StackFrame.bytes).length < 4 := by
    rw [List.length_append, length_leBytes]
    omega
  rw [parseBundle, if_neg hshort, leNat_leBytes_append hlen, drop_leBytes, hframes]

/-! ## The frames -/

/-- The frame at `rbp` and `rsp`, as it lies in memory. -/
def frameAt (mem : Memory) (rbp rsp : Nat) : StackFrame where
  rbp := rbp
  rsp := rsp
  saved_rbp := savedRbp mem rbp
  ret_addr := retAddr mem rbp
  flags := frameFlags rbp rsp
  frame_locals := slice (readMem mem rsp) 0 (localsLen rbp rsp)
  code := slice (readMem mem (codeAddr (retAddr mem rbp))) 0 (codeLen (retAddr mem rbp))

/-- The frames of a chain, so many at most. -/
def framesFrom (mem : Memory) : Nat → Nat → Nat → List StackFrame
  | 0, _, _ => []
  | left + 1, rbp, rsp =>
    if ¬ procRsAddrOk rbp 16 then []
    else frameAt mem rbp rsp ::
      if savedRbp mem rbp = 0 then [] else framesFrom mem left (savedRbp mem rbp) (u64 (rbp + 8))

variable {mem : Memory}

theorem localsLen_le (rbp rsp : Nat) : localsLen rbp rsp ≤ CMD_PROC_READ_STACK_LOCALS_CAP := by
  unfold localsLen
  split
  · exact Nat.zero_le _
  · rename_i hkept
    exact Nat.not_lt.mp fun h => hkept (.inr (.inl h))

theorem codeLen_le (ret_addr : Nat) : codeLen ret_addr ≤ CMD_PROC_READ_STACK_CODE_LEN := by
  unfold codeLen
  split
  · exact Nat.le_refl _
  · exact Nat.zero_le _

theorem savedRbp_lt (mem : Memory) (rbp : Nat) : savedRbp mem rbp < 256 ^ 8 := leNat_lt 8 _

theorem frameAt_fits {rbp rsp : Nat} (hrbp : rbp < 256 ^ 8) (hrsp : rsp < 256 ^ 8) : (frameAt mem rbp rsp).Fits where
  rbp := hrbp
  rsp := hrsp
  saved_rbp := savedRbp_lt mem rbp
  ret_addr := leNat_lt 8 _
  flags := by
    show frameFlags rbp rsp < 256 ^ 4
    unfold frameFlags
    split <;> decide
  frame_locals := by
    have hle := localsLen_le rbp rsp
    rw [frameAt, length_slice]
    exact Nat.lt_of_le_of_lt hle (by decide)
  code := by
    have hle := codeLen_le (retAddr mem rbp)
    rw [frameAt, length_slice]
    exact Nat.lt_of_le_of_lt hle (by decide)

/-- A frame takes no more than its share of the buffer. -/
theorem length_frameAt (rbp rsp : Nat) : (frameAt mem rbp rsp).bytes.length =
    44 + localsLen rbp rsp + codeLen (retAddr mem rbp) := by
  rw [StackFrame.length_bytes, frameAt, length_slice, length_slice]

theorem framesFrom_fits {left rbp rsp : Nat} (hrbp : rbp < 256 ^ 8) (hrsp : rsp < 256 ^ 8) :
    ∀ f ∈ framesFrom mem left rbp rsp, f.Fits := by
  induction left generalizing rbp rsp with
  | zero => nofun
  | succ left ih =>
    rw [framesFrom]
    split
    · nofun
    · intro f hf
      rcases List.mem_cons.mp hf with rfl | hf
      · exact frameAt_fits hrbp hrsp
      · split at hf
        · cases hf
        · exact ih (savedRbp_lt mem rbp) (Nat.mod_lt _ (by decide)) f hf

/-! ## The buffer -/

/-- This is in the buffer behind the number of frames. -/
structure RsBuf.Holds (b : RsBuf) (l : List Byte) : Prop where
  off : b.off = 4 + l.length
  buf : slice b.buf 4 l.length = l

theorem RsBuf.Holds.memcpy {b : RsBuf} {l x : List Byte} (h : b.Holds l) (hlen : 4 + l.length + x.length < 2 ^ 32) :
    (b.memcpy x).Holds (l ++ x) where
  off := by
    rw [RsBuf.memcpy, h.off, u32_of_lt hlen, List.length_append, Nat.add_assoc]
  buf := by
    have hfront : slice (blit b.buf b.off (ofList x) x.length) 4 l.length = l :=
      (slice_blit_outside (.inl (by rw [h.off]))).trans h.buf
    have hback : slice (blit b.buf b.off (ofList x) x.length) (b.off + 0) x.length = x :=
      (slice_blit_inside (by omega)).trans (slice_ofList x)
    rw [RsBuf.memcpy, List.length_append, slice_append_slice, hfront, ← h.off]
    exact congrArg _ hback

theorem RsBuf.Holds.read {b : RsBuf} {l : List Byte} (h : b.Holds l) (mem : Memory) (addr len : Nat)
    (hlen : 4 + l.length + len < 2 ^ 32) : (b.read mem addr len).Holds (l ++ slice (readMem mem addr) 0 len) := by
  unfold RsBuf.read
  split
  · exact h.memcpy (by rw [length_slice]; exact hlen)
  · rename_i hzero
    rw [Decidable.not_not.mp hzero]
    exact (List.append_nil l).symm ▸ h

/-- A frame is written as its bytes. -/
theorem RsBuf.Holds.frame {b : RsBuf} {l : List Byte} (h : b.Holds l) (mem : Memory) (rbp rsp : Nat)
    (hlen : 4 + l.length + (frameAt mem rbp rsp).bytes.length < 2 ^ 32) :
    (b.frame mem rbp rsp).Holds (l ++ (frameAt mem rbp rsp).bytes) := by
  rw [length_frameAt] at hlen
  have h8 := h.memcpy (x := leBytes 8 rbp) (by simp only [length_leBytes]; omega)
  have h16 := h8.memcpy (x := leBytes 8 rsp) (by simp only [List.length_append, length_leBytes]; omega)
  have h24 := h16.memcpy (x := leBytes 8 (savedRbp mem rbp)) (by simp only [List.length_append, length_leBytes]; omega)
  have h32 := h24.memcpy (x := leBytes 8 (retAddr mem rbp)) (by simp only [List.length_append, length_leBytes]; omega)
  have h36 := h32.memcpy (x := leBytes 4 (frameFlags rbp rsp))
    (by simp only [List.length_append, length_leBytes]; omega)
  have h40 := h36.memcpy (x := leBytes 4 (localsLen rbp rsp)) (by simp only [List.length_append, length_leBytes]; omega)
  have h44 := h40.memcpy (x := leBytes 4 (codeLen (retAddr mem rbp)))
    (by simp only [List.length_append, length_leBytes]; omega)
  have hlocals := h44.read mem rsp (localsLen rbp rsp) (by simp only [List.length_append, length_leBytes]; omega)
  have hcode := hlocals.read mem (codeAddr (retAddr mem rbp)) (codeLen (retAddr mem rbp))
    (by simp only [List.length_append, length_leBytes, length_slice]; omega)
  have hbytes : l ++ (frameAt mem rbp rsp).bytes = l ++ leBytes 8 rbp ++ leBytes 8 rsp ++
    leBytes 8 (savedRbp mem rbp) ++
      leBytes 8 (retAddr mem rbp) ++ leBytes 4 (frameFlags rbp rsp) ++ leBytes 4 (localsLen rbp rsp) ++
      leBytes 4 (codeLen (retAddr mem rbp)) ++ slice (readMem mem rsp) 0 (localsLen rbp rsp) ++
      slice (readMem mem (codeAddr (retAddr mem rbp))) 0 (codeLen (retAddr mem rbp)) := by
    simp only [StackFrame.bytes, frameAt, length_slice, List.append_assoc]
  rw [hbytes]
  exact hcode

/-- The loop writes the frames of the chain; the buffer is never too small. -/
theorem readFrames_holds (mem : Memory) {cap : Nat} (hcap : cap < 2 ^ 32) (left : Nat) (rbp rsp n : Nat) {b : RsBuf}
    {l : List Byte} (h : b.Holds l)
    (hroom : 4 + l.length + left * (32 + 12 + CMD_PROC_READ_STACK_LOCALS_CAP + CMD_PROC_READ_STACK_CODE_LEN) ≤ cap) :
    ∃ b' : RsBuf, readFrames mem cap left rbp rsp b n = (b', n + (framesFrom mem left rbp rsp).length) ∧
      b'.Holds (l ++ (framesFrom mem left rbp rsp).flatMap StackFrame.bytes) ∧ b'.off ≤ cap := by
  induction left generalizing rbp rsp n b l with
  | zero =>
    refine ⟨b, ?_, ?_, ?_⟩
    · rw [readFrames, framesFrom, List.length_nil, Nat.add_zero]
    · rw [framesFrom, List.flatMap_nil, List.append_nil]
      exact h
    · rw [h.off]
      omega
  | succ left ih =>
    rw [Nat.succ_mul] at hroom
    rw [readFrames, framesFrom]
    by_cases hok : procRsAddrOk rbp 16
    · have hsize : (frameAt mem rbp rsp).bytes.length = 44 + localsLen rbp rsp + codeLen (retAddr mem rbp) :=
        length_frameAt rbp rsp
      have hlocals := localsLen_le rbp rsp
      have hcode := codeLen_le (retAddr mem rbp)
      have hfits : u32 (b.off + 32 + 12 + localsLen rbp rsp + codeLen (retAddr mem rbp)) ≤ cap := by
        rw [h.off, u32_of_lt (by omega)]
        omega
      have hframe := h.frame mem rbp rsp (by omega)
      have hoff := hframe.off
      have hcount (k : Nat) : n + (k + 1) = n + 1 + k := by omega
      rw [List.length_append] at hoff
      rw [if_neg (not_not.mpr hok), if_neg (not_not.mpr hok), if_neg (Nat.not_lt.mpr hfits), List.flatMap_cons,
        ← List.append_assoc, List.length_cons]
      by_cases hend : savedRbp mem rbp = 0
      · rw [if_pos hend, if_pos hend, List.flatMap_nil, List.append_nil, List.length_nil, Nat.zero_add]
        exact ⟨_, rfl, hframe, by omega⟩
      · rw [if_neg hend, if_neg hend, hcount (framesFrom mem left (savedRbp mem rbp) (u64 (rbp + 8))).length]
        exact ih _ _ (n + 1) hframe (by rw [List.length_append, hsize]; omega)
    · rw [if_pos hok, if_pos hok, List.flatMap_nil, List.append_nil, List.length_nil, Nat.add_zero]
      exact ⟨b, rfl, h, by rw [h.off]; omega⟩

/-! ## The walk -/

/-- The `rbp` that a walk has come to behind its frames. -/
def nextRbp (rbp : Nat) (fs : List StackFrame) : Nat := (fs.getLast?.map StackFrame.saved_rbp).getD rbp

/-- The frames are those of a walk from `rbp` and `rsp` to a depth. -/
structure StackWalk (mem : Memory) (rbp rsp depth : Nat) (fs : List StackFrame) : Prop where
  count : fs.length ≤ depth
  first : ∀ f ∈ fs[0]?, f.rbp = rbp ∧ f.rsp = rsp
  chain : ∀ i, ∀ f ∈ fs[i]?, ∀ g ∈ fs[i + 1]?, g.rbp = f.saved_rbp ∧ g.rsp = f.rbp + 8
  valid : ∀ f ∈ fs, procRsAddrOk f.rbp 16
  saved : ∀ f ∈ fs, f.saved_rbp = leNat 8 (slice (readMem mem f.rbp) 0 8) ∧
    f.ret_addr = leNat 8 (slice (readMem mem f.rbp) 8 8)
  frame_locals : ∀ f ∈ fs, f.frame_locals = slice (readMem mem f.rsp) 0 f.frame_locals.length
  omitted : ∀ f ∈ fs, if LocalsOmitted f.rbp f.rsp then f.flags = 1 ∧ f.frame_locals = []
    else f.flags = 0 ∧ f.rsp + f.frame_locals.length = f.rbp + 8
  code : ∀ f ∈ fs, f.code = slice (readMem mem (codeAddr f.ret_addr)) 0 f.code.length
  available : ∀ f ∈ fs, f.code.length = codeLen f.ret_addr
  stops : fs.length = depth ∨ ¬ procRsAddrOk (nextRbp rbp fs) 16

/-- Nothing is found at an invalid `rbp`. -/
theorem StackWalk.stop {rbp rsp depth : Nat} (h : depth = 0 ∨ ¬ procRsAddrOk rbp 16) :
    StackWalk mem rbp rsp depth [] where
  count := Nat.zero_le depth
  first := nofun
  chain := nofun
  valid := nofun
  saved := nofun
  frame_locals := nofun
  omitted := nofun
  code := nofun
  available := nofun
  stops := h.imp Eq.symm id

/-- Locals that are sent lie between `rsp` and the return address. -/
theorem add_localsLen {rbp rsp : Nat} (hrbp : procRsAddrOk rbp 16) (hkept : ¬ LocalsOmitted rbp rsp) :
    rsp + localsLen rbp rsp = rbp + 8 := by
  have hlen : localsLen rbp rsp = frameSize rbp rsp := if_neg hkept
  obtain ⟨-, hrbp, -, -⟩ := hrbp
  obtain ⟨-, hlocals⟩ := not_or.mp hkept
  obtain ⟨hsmall, hok⟩ := not_or.mp hlocals
  obtain ⟨-, hrsp, -, -⟩ := not_not.mp hok
  rw [hlen]
  unfold frameSize CMD_PROC_READ_STACK_LOCALS_CAP at hsmall
  unfold frameSize
  unfold subU64 u64 at hsmall ⊢
  omega

/-- A frame, and the walk from what it has saved. -/
theorem StackWalk.cons {rbp rsp depth : Nat} {fs : List StackFrame} (hok : procRsAddrOk rbp 16)
    (h : StackWalk mem (savedRbp mem rbp) (u64 (rbp + 8)) depth fs) :
    StackWalk mem rbp rsp (depth + 1) (frameAt mem rbp rsp :: fs) := by
  have hwrap : u64 (rbp + 8) = rbp + 8 := by
    obtain ⟨-, hrbp, -, -⟩ := hok
    unfold u64
    omega
  refine ⟨Nat.succ_le_succ h.count, ?_, ?_, ?_, ?_, ?_, ?_, ?_, ?_, ?_⟩
  · rintro f ⟨⟩
    exact ⟨rfl, rfl⟩
  · rintro (_ | i) f hf g hg
    · obtain rfl : frameAt mem rbp rsp = f := Option.some.inj hf
      exact hwrap ▸ h.first g hg
    · exact h.chain i f hf g hg
  · exact List.forall_mem_cons.mpr ⟨hok, h.valid⟩
  · exact List.forall_mem_cons.mpr ⟨⟨rfl, rfl⟩, h.saved⟩
  · refine List.forall_mem_cons.mpr ⟨?_, h.frame_locals⟩
    simp only [frameAt, length_slice]
  · refine List.forall_mem_cons.mpr ⟨?_, h.omitted⟩
    by_cases hkept : LocalsOmitted rbp rsp
    · have hlen : localsLen rbp rsp = 0 := if_pos hkept
      rw [frameAt, if_pos hkept, hlen]
      exact ⟨if_pos hkept, rfl⟩
    · rw [frameAt, if_neg hkept, length_slice, add_localsLen hok hkept]
      exact ⟨if_neg hkept, rfl⟩
  · refine List.forall_mem_cons.mpr ⟨?_, h.code⟩
    simp only [frameAt, length_slice]
  · refine List.forall_mem_cons.mpr ⟨?_, h.available⟩
    simp only [frameAt, length_slice]
  · have hlast : nextRbp rbp (frameAt mem rbp rsp :: fs) = nextRbp (savedRbp mem rbp) fs := by
      have hsaved : (frameAt mem rbp rsp).saved_rbp = savedRbp mem rbp := rfl
      unfold nextRbp
      rw [List.getLast?_cons, Option.map_some, Option.getD_some]
      cases fs.getLast? with
      | none => rw [Option.getD_none, hsaved, Option.map_none, Option.getD_none]
      | some f => rw [Option.getD_some, Option.map_some, Option.getD_some]
    rw [List.length_cons, hlast]
    exact h.stops.imp (congrArg (· + 1)) id

/-- The frames of a chain are those of a walk. -/
theorem stackWalk_framesFrom (mem : Memory) (left rbp rsp : Nat) :
    StackWalk mem rbp rsp left (framesFrom mem left rbp rsp) := by
  induction left generalizing rbp rsp with
  | zero => exact .stop (.inl rfl)
  | succ left ih =>
    rw [framesFrom]
    by_cases hok : procRsAddrOk rbp 16
    · rw [if_neg (not_not.mpr hok)]
      refine .cons hok ?_
      by_cases hend : savedRbp mem rbp = 0
      · have hnull : ¬ procRsAddrOk (savedRbp mem rbp) 16 := hend ▸ by decide
        rw [if_pos hend]
        exact .stop (.inr hnull)
      · rw [if_neg hend]
        exact ih _ _
    · rw [if_pos hok]
      exact .stop (.inr hok)

theorem maxFrames_le (sp : ReadStackPacket) : sp.maxFrames ≤ CMD_PROC_READ_STACK_MAX_DEPTH := by
  unfold ReadStackPacket.maxFrames
  generalize (if sp.depth.toNat = 0 then 1 else sp.depth.toNat) = depth
  dsimp only
  split <;> omega

/-- **The bundle is well formed**: it is as long as its length says, fits its buffer, is read back by the
grammar with nothing left over, and holds the frames of the walk, 64 at most. -/
theorem read_stack_bundle (mem : Memory) (sp : ReadStackPacket) (buf : Buf) :
    ∃ bundle fs, procReadStackHandle mem (some sp) (some buf) =
        { status := CMD_SUCCESS, bundle := some (bundle.length, bundle) } ∧
      bundle.length ≤ sp.cap ∧ parseBundle bundle = some (fs, []) ∧ fs.length ≤ CMD_PROC_READ_STACK_MAX_DEPTH ∧
      StackWalk mem sp.rbp.toNat sp.rsp.toNat sp.maxFrames fs := by
  have hmax := maxFrames_le sp
  have hcap : sp.cap < 2 ^ 32 := by
    unfold ReadStackPacket.cap CMD_PROC_READ_STACK_LOCALS_CAP CMD_PROC_READ_STACK_CODE_LEN
    unfold CMD_PROC_READ_STACK_MAX_DEPTH at hmax
    omega
  have hwalk := stackWalk_framesFrom mem sp.maxFrames sp.rbp.toNat sp.rsp.toNat
  have hempty : RsBuf.Holds ⟨buf, 4⟩ [] := ⟨rfl, rfl⟩
  obtain ⟨b, hrun, hholds, hoff⟩ := readFrames_holds mem hcap sp.maxFrames sp.rbp.toNat sp.rsp.toNat 0 hempty (by
    rw [List.length_nil, ReadStackPacket.cap])
  rw [List.nil_append] at hholds
  rw [Nat.zero_add] at hrun
  have hfits : ∀ f ∈ framesFrom mem sp.maxFrames sp.rbp.toNat sp.rsp.toNat, f.Fits :=
    framesFrom_fits sp.rbp.toNat_lt sp.rsp.toNat_lt
  have hcount : (framesFrom mem sp.maxFrames sp.rbp.toNat sp.rsp.toNat).length ≤ CMD_PROC_READ_STACK_MAX_DEPTH :=
    hwalk.count.trans hmax
  generalize framesFrom mem sp.maxFrames sp.rbp.toNat sp.rsp.toNat = fs at *
  have hlen : (leBytes 4 fs.length ++ fs.flatMap StackFrame.bytes).length = b.off := by
    rw [List.length_append, length_leBytes, hholds.off]
  have hsent : slice (blit b.buf 0 (ofList (leBytes 4 fs.length)) 4) 0 b.off =
      leBytes 4 fs.length ++ fs.flatMap StackFrame.bytes := by
    have hlist := slice_ofList (leBytes 4 fs.length)
    rw [length_leBytes] at hlist
    have hfront : slice (blit b.buf 0 (ofList (leBytes 4 fs.length)) 4) (0 + 0) 4 = leBytes 4 fs.length :=
      (slice_blit_inside (Nat.le_refl 4)).trans hlist
    rw [hholds.off, slice_append_slice, slice_blit_outside (.inr (Nat.le_refl _)), Nat.zero_add, hholds.buf]
    exact congrArg (· ++ _) hfront
  refine ⟨leBytes 4 fs.length ++ fs.flatMap StackFrame.bytes, fs, ?_, hlen ▸ hoff, parseBundle_bytes hfits
    (Nat.lt_of_le_of_lt hcount (by decide)), hcount, hwalk⟩
  rw [hlen, procReadStackHandle, hrun]
  dsimp only
  rw [hsent]

end Ps5Debugger
