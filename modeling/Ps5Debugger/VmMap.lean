import Ps5Debugger.Lib.Bytes
import Ps5Debugger.Lib.Loop

/-!
# The map list of the kernel

`sys_proc_vm_map` (`scan.c`) reads the memory map of a process out of the kernel: a count from the header of
the map, and then the linked list of its entries. The list is read one copy after another while the target
runs, so that a copy shows what the kernel holds at that time, and the count may say something else than the
list.

A copy that reports no error need not have copied anything: `kernel_copyout_fast` does not look at what the pipe
gave. What it did not give are zeros, as each buffer was cleared before.

`vm_map_filled_iff`: the call always ends, and hands out a buffer only with success; its entries are those of
the list exactly if the list does not end before the count does, and the copies that report no error are complete.
-/

namespace Ps5Debugger

open Lib

namespace VmMap

/-! ## The kernel -/

/-- What the kernel shows of a process. -/
structure Kernel where
  /-- `kernel_get_fw_version()` -/
  fw : Nat
  /-- `kernel_get_proc_fast(pid)` -/
  kproc : Nat
  /-- `kernel_copyout_fast(addr, buf, len)` as the copy with this number: what the pipe gave, or an error -/
  copyout : Nat → Nat → Nat → Option (List Byte)
  copyout_length : ∀ {t addr len bytes}, copyout t addr len = some bytes → bytes.length ≤ len
  /-- whether `malloc` finds room -/
  malloc : Nat → Bool

/-- A buffer of `len` bytes that was cleared, after a copy. -/
def cleared (len : Nat) (bytes : List Byte) : List Byte := bytes ++ List.replicate (len - bytes.length) 0

/-- `*(T *)(buf + off)` -/
def field (buf : List Byte) (off size : Nat) : Nat := leNat size (buf.drop off)

/-- `write_adj`: the offsets moved with firmware 6.00. -/
def writeAdj (fw : Nat) : Bool := decide ((fw &&& 0xffff0000) ≥ 0x6000000)

def vmmapNentriesAdj (fw : Nat) : Nat := if writeAdj fw then 8 else 0

def vmmapNameAdj (fw : Nat) : Nat := if writeAdj fw then 0xE else 0

/-- `struct proc_vm_map_entry` -/
structure Entry where
  name : List Byte
  start : Nat
  stop : Nat
  offset : Nat
  prot : Nat
deriving DecidableEq

/-- What is kept of an element of the list. A map that can only be executed is passed on as readable. -/
def entryOf (fw : Nat) (entry_buf : List Byte) : Entry where
  name := (entry_buf.drop (0x142 + vmmapNameAdj fw)).take 0x20
  start := field entry_buf 0x20 8
  stop := field entry_buf 0x28 8
  offset := field entry_buf 0x58 8
  prot := if field entry_buf 0x64 1 &&& 0x0F = 4 then 5 else field entry_buf 0x64 1 &&& 0x0F

/-- The address of the next element. -/
def nextOf (entry_buf : List Byte) : Nat := field entry_buf 8 8

/-! ## `sys_proc_vm_map` -/

/-- The entries of the buffer that were written; the others are what `malloc` left there. -/
abbrev Slots : Type := Nat → Option Entry

/-- The loop variables: `out_p` as the number of its entry. -/
structure Walk where
  cur_entry : Nat
  out_p : Nat
  out_buf : Slots

/-- A pass of the loop; it is left with the buffer, or without one after a copy that failed. -/
def pass (k : Kernel) (n_entries : Nat) (s : Walk) : Walk ⊕ Option Slots :=
  if s.cur_entry = 0 then .inr (some s.out_buf)
  else
    match k.copyout (2 + s.out_p) s.cur_entry 0x1C0 with
    | none => .inr none
    | some bytes =>
      let entry_buf := cleared 0x1C0 bytes
      let out_buf := Function.update s.out_buf s.out_p (some (entryOf k.fw entry_buf))
      if n_entries ≤ s.out_p + 1 then .inr (some out_buf)
      else .inl ⟨nextOf entry_buf, s.out_p + 1, out_buf⟩

/-- What comes before the loop: the number of entries that the buffer has, and the first element. -/
def vmHeader (k : Kernel) (pid : Int) : Option (Nat × Nat) :=
  if pid ≤ 0 then none
  else if k.kproc = 0 then none
  else
    match k.copyout 0 (u64 (k.kproc + 0x200)) 8 with
    | none => none
    | some vmspace_kaddr =>
      match k.copyout 1 (leNat 8 (cleared 8 vmspace_kaddr)) 0x350 with
      | none => none
      | some bytes =>
        let vmspace_buf := cleared 0x350 bytes
        let n_entries := (BitVec.ofNat 32 (field vmspace_buf (0x1A8 + vmmapNentriesAdj k.fw) 4)).toInt
        if n_entries ≤ 0 then none
        else if k.malloc (n_entries.toNat * 58) then some (n_entries.toNat, field vmspace_buf 8 8)
        else none

/-- The result of the call. -/
structure Reply where
  rc : Int
  out_maps : Option Slots
  out_count : Nat

/-- The reply of a call that failed. -/
def failed : Reply := ⟨1, none, 0⟩

/-- The call, with at most `fuel` passes of the loop. -/
def sysProcVmMap (k : Kernel) (pid : Int) (fuel : Nat) : Option Reply :=
  match vmHeader k pid with
  | none => some failed
  | some (n_entries, first) =>
    (loop (pass k n_entries) fuel ⟨first, 0, fun _ => none⟩).map fun
      | none => failed
      | some out_buf => ⟨0, some out_buf, n_entries⟩

/-- The call ends with a reply. -/
def Returns (k : Kernel) (pid : Int) (reply : Reply) : Prop := ∃ fuel, sysProcVmMap k pid fuel = some reply

/-! ## The list -/

/-- The elements that are met on the way from `a` to `b`, as far as the pipe gave them, the first of them with the copy
numbered `t`. -/
inductive Chain (k : Kernel) : Nat → Nat → List (List Byte) → Nat → Prop
  | nil {t a : Nat} : Chain k t a [] a
  | cons {t a b : Nat} {buf : List Byte} {els : List (List Byte)} (ha : a ≠ 0)
      (hcopy : k.copyout t a 0x1C0 = some buf) (hrest : Chain k (t + 1) (nextOf (cleared 0x1C0 buf)) els b) :
      Chain k t a (buf :: els) b

/-- The address of the map header is not copied in full. -/
def HeaderLost (k : Kernel) : Prop :=
  ∃ vmspace_kaddr, k.copyout 0 (u64 (k.kproc + 0x200)) 8 = some vmspace_kaddr ∧ vmspace_kaddr.length < 8

/-- The list ends before the count does, or a copy that reports no error is not complete: the one of the header's
address, or one of an element. -/
def Broken (k : Kernel) (pid : Int) : Prop :=
  ∃ n_entries first els b, vmHeader k pid = some (n_entries, first) ∧ Chain k 2 first els b ∧
    (els.length < n_entries ∧ b = 0 ∨
      els.length = n_entries ∧ (HeaderLost k ∨ ∃ buf ∈ els, buf.length < 0x1C0))

/-- The next pointer of the map header. -/
def IsFirst (k : Kernel) (first : Nat) : Prop :=
  ∃ vmspace_kaddr vmspace_buf, k.copyout 0 (u64 (k.kproc + 0x200)) 8 = some vmspace_kaddr ∧
    vmspace_kaddr.length = 8 ∧ k.copyout 1 (leNat 8 vmspace_kaddr) 0x350 = some vmspace_buf ∧
    16 ≤ vmspace_buf.length ∧ field vmspace_buf 8 8 = first

/-- Every entry that is handed out is the one of the list at its place. -/
def FromChain (k : Kernel) (reply : Reply) : Prop :=
  ∀ out_maps, reply.out_maps = some out_maps → ∃ first els b, IsFirst k first ∧
    Chain k 2 first els b ∧ els.length = reply.out_count ∧ (∀ buf ∈ els, buf.length = 0x1C0) ∧
    ∀ i, i < reply.out_count → out_maps i = els[i]?.map (entryOf k.fw)

/-- No buffer without success, and none written past its entries. -/
structure Reply.Safe (reply : Reply) : Prop where
  no_buffer : reply.rc ≠ 0 → reply.out_maps = none
  buffer : reply.rc = 0 → reply.out_maps ≠ none
  within : ∀ out_maps, reply.out_maps = some out_maps → ∀ i, out_maps i ≠ none → i < reply.out_count

variable {k : Kernel} {pid : Int} {n t a b first : Nat} {els els' : List (List Byte)}

theorem cleared_of_length {len : Nat} {bytes : List Byte} (h : bytes.length = len) : cleared len bytes = bytes := by
  rw [cleared, h, Nat.sub_self, List.replicate_zero, List.append_nil]

/-- What of a field was given. -/
theorem field_cleared {len off size : Nat} {bytes : List Byte} (h : off + size ≤ bytes.length) :
    field (cleared len bytes) off size = field bytes off size := by
  rw [field, field, cleared, List.drop_append_of_le_length (by omega), ← leNat_take,
    List.take_append_of_le_length (by rw [List.length_drop]; omega), leNat_take]

theorem leNat_zeros (n len : Nat) : leNat n (List.replicate len (0 : Byte)) = 0 := by
  induction n generalizing len with
  | zero => rfl
  | succ n ih =>
    rw [leNat, List.tail_replicate, ih]
    cases len <;> rfl

/-- A field of which nothing was given. -/
theorem field_cleared_of_le {len off size : Nat} {bytes : List Byte} (h : bytes.length ≤ off) :
    field (cleared len bytes) off size = 0 := by
  rw [field, cleared, List.drop_append, List.drop_eq_nil_of_le h, List.nil_append, List.drop_replicate]
  exact leNat_zeros _ _

/-- From one element on there is one list: if it ends, no way along it is longer. -/
theorem Chain.length_le (h : Chain k t a els b) (hend : Chain k t a els' 0) : els.length ≤ els'.length := by
  induction h generalizing els' with
  | nil => exact Nat.zero_le _
  | @cons t a b buf els ha hcopy _ ih =>
    cases hend with
    | nil => exact absurd rfl ha
    | @cons _ _ _ buf' els' _ hcopy' hrest' =>
      obtain rfl : buf = buf' := Option.some.inj (hcopy.symm.trans hcopy')
      exact Nat.succ_le_succ (ih hrest')

/-- And two ways of one length are the same. -/
theorem Chain.eq_of_length (h : Chain k t a els b) {b' : Nat} (h' : Chain k t a els' b')
    (hlen : els.length = els'.length) : els = els' := by
  induction h generalizing els' with
  | nil => exact (List.length_eq_zero_iff.mp hlen.symm).symm
  | @cons t a b buf els ha hcopy _ ih =>
    cases h' with
    | nil => exact absurd hlen (Nat.succ_ne_zero _)
    | @cons _ _ _ buf' els' _ hcopy' hrest' =>
      obtain rfl : buf = buf' := Option.some.inj (hcopy.symm.trans hcopy')
      rw [ih hrest' (Nat.succ.inj hlen)]

theorem Chain.length_buf (h : Chain k t a els b) {buf : List Byte} (hbuf : buf ∈ els) : buf.length ≤ 0x1C0 := by
  induction h with
  | nil => cases hbuf
  | cons _ hcopy _ ih =>
    rcases List.mem_cons.mp hbuf with rfl | hbuf
    · exact k.copyout_length hcopy
    · exact ih hbuf

/-- The slots that hold the elements, from one on, and else what they held. -/
structure FilledFrom (fw : Nat) (before after : Slots) (i : Nat) (els : List (List Byte)) : Prop where
  filled : ∀ j < els.length, after (i + j) = els[j]?.map fun buf => entryOf fw (cleared 0x1C0 buf)
  others : ∀ j, j < i ∨ i + els.length ≤ j → after j = before j

theorem FilledFrom.cons {fw i : Nat} {before after : Slots} {buf : List Byte}
    (h : FilledFrom fw (Function.update before i (some (entryOf fw (cleared 0x1C0 buf)))) after (i + 1) els) :
    FilledFrom fw before after i (buf :: els) where
  filled j hj := by
    cases j with
    | zero =>
      rw [Nat.add_zero, h.others i (.inl (Nat.lt_succ_self i)), Function.update_self]
      rfl
    | succ j =>
      rw [List.getElem?_cons_succ, ← h.filled j (Nat.lt_of_succ_lt_succ hj), Nat.add_assoc, Nat.add_comm 1 j]
  others j hj := by
    rw [List.length_cons] at hj
    rw [h.others j (by omega), Function.update_of_ne (by omega)]

/-- The loop ends: with the elements up to the last slot or to the end of the list, or without a buffer, and then
each way along the list stops before the last slot, and not at its end. -/
theorem loop_spec (k : Kernel) : ∀ {m : Nat} (s : Walk), s.out_p + m = n → 0 < m →
    ∃ fuel r, loop (pass k n) fuel s = some r ∧
      (∀ out_buf, r = some out_buf → ∃ els b, Chain k (2 + s.out_p) s.cur_entry els b ∧
        FilledFrom k.fw s.out_buf out_buf s.out_p els ∧ (els.length = m ∨ els.length < m ∧ b = 0)) ∧
      (r = none → ∀ els b, Chain k (2 + s.out_p) s.cur_entry els b → els.length < m ∧ b ≠ 0) := by
  intro m
  induction m with
  | zero => exact fun _ _ hpos => absurd hpos (Nat.lt_irrefl 0)
  | succ m ih =>
    intro s hn _
    by_cases hzero : s.cur_entry = 0
    · refine ⟨1, some s.out_buf, by rw [loop, pass, if_pos hzero], fun out_buf h => ?_, fun h => by cases h⟩
      cases h
      exact ⟨[], 0, hzero ▸ .nil, ⟨fun i hi => absurd hi (Nat.not_lt_zero i), fun _ _ => rfl⟩,
        .inr ⟨Nat.succ_pos _, rfl⟩⟩
    · cases hcopy : k.copyout (2 + s.out_p) s.cur_entry 0x1C0 with
      | none =>
        refine ⟨1, none, by rw [loop, pass, if_neg hzero, hcopy], (fun _ h => by cases h), fun _ els b hchain => ?_⟩
        cases hchain with
        | nil => exact ⟨Nat.succ_pos _, hzero⟩
        | cons _ hcopy' _ =>
          rw [hcopy] at hcopy'
          cases hcopy'
      | some buf =>
        have hfilled {after : Slots} {els : List (List Byte)} :=
          @FilledFrom.cons els k.fw s.out_p s.out_buf after buf
        by_cases hlast : n ≤ s.out_p + 1
        · refine ⟨1, some (Function.update s.out_buf s.out_p (some (entryOf k.fw (cleared 0x1C0 buf)))), ?_,
            fun out_buf h => ?_, fun h => by cases h⟩
          · rw [loop, pass, if_neg hzero, hcopy]
            dsimp only
            rw [if_pos hlast]
          · cases h
            exact ⟨[buf], _, .cons hzero hcopy .nil, hfilled ⟨fun i hi => absurd hi (Nat.not_lt_zero i), fun _ _ => rfl⟩,
              .inl (by rw [List.length_singleton]; omega)⟩
        · obtain ⟨fuel, r, hloop, hsome, hnone⟩ := ih ⟨nextOf (cleared 0x1C0 buf), s.out_p + 1,
            Function.update s.out_buf s.out_p (some (entryOf k.fw (cleared 0x1C0 buf)))⟩ (by dsimp only; omega)
            (by omega)
          refine ⟨fuel + 1, r, ?_, fun out_buf h => ?_, fun h els b hchain => ?_⟩
          · rw [loop, pass, if_neg hzero, hcopy]
            dsimp only
            rw [if_neg hlast]
            exact hloop
          · obtain ⟨els, b, hchain, hrest, hlen⟩ := hsome out_buf h
            refine ⟨buf :: els, b, .cons hzero hcopy hchain, hfilled hrest, ?_⟩
            rw [List.length_cons]
            omega
          · cases hchain with
            | nil => exact ⟨Nat.succ_pos _, hzero⟩
            | @cons _ _ _ buf' els _ hcopy' hrest =>
              obtain rfl : buf = buf' := Option.some.inj (hcopy.symm.trans hcopy')
              obtain ⟨hlt, hb⟩ := hnone h _ _ hrest
              exact ⟨Nat.succ_lt_succ hlt, hb⟩

/-- What the header has: entries, and the first element, given that its address was copied in full. -/
theorem vmHeader_spec (h : vmHeader k pid = some (n, first)) : 0 < n ∧ (IsFirst k first ↔ ¬ HeaderLost k) := by
  rw [vmHeader] at h
  split at h
  · cases h
  split at h
  · cases h
  cases hkaddr : k.copyout 0 (u64 (k.kproc + 0x200)) 8 with
  | none =>
    rw [hkaddr] at h
    cases h
  | some vmspace_kaddr =>
    rw [hkaddr] at h
    dsimp only at h
    cases hbuf : k.copyout 1 (leNat 8 (cleared 8 vmspace_kaddr)) 0x350 with
    | none =>
      rw [hbuf] at h
      cases h
    | some vmspace_buf =>
      rw [hbuf] at h
      dsimp only at h
      split at h
      · cases h
      rename_i hcount
      split at h
      swap
      · cases h
      cases h
      refine ⟨by omega, ?_, fun hlost => ?_⟩
      · rintro ⟨kaddr, _, hkaddr', hlen, -⟩ ⟨kaddr', hkaddr'', hshort⟩
        cases hkaddr'.symm.trans hkaddr''
        omega
      · have hlen : vmspace_kaddr.length = 8 :=
          Nat.le_antisymm (k.copyout_length hkaddr) (Nat.not_lt.mp fun hshort => hlost ⟨_, hkaddr, hshort⟩)
        -- a count of more than zero has come, and with it all that is in front of it
        have hcame : 16 ≤ vmspace_buf.length := by
          by_contra hshort
          rw [field_cleared_of_le (by omega)] at hcount
          exact hcount (by decide)
        rw [cleared_of_length hlen] at hbuf
        exact ⟨_, _, hkaddr, hlen, hbuf, hcame, (field_cleared (by omega)).symm⟩

/-- There is one header. -/
theorem first_unique (h : vmHeader k pid = some (n, first)) {first' : Nat} (h' : IsFirst k first') :
    first' = first := by
  obtain ⟨kaddr, buf, hkaddr, hlen, hbuf, hcame, rfl⟩ := h'
  rw [vmHeader] at h
  split at h
  · cases h
  split at h
  · cases h
  rw [hkaddr] at h
  dsimp only at h
  rw [cleared_of_length hlen, hbuf] at h
  dsimp only at h
  split at h
  · cases h
  split at h
  · cases h
    exact (field_cleared (by omega)).symm
  · cases h

/-- A call that fails hands out nothing. -/
theorem safe_failed : failed.Safe := ⟨fun _ => rfl, fun h => absurd h (by decide), nofun⟩

/-- The call ends, whatever the kernel shows. Its buffer comes with success only and is not written past its
entries, and the entries are those of the list exactly if the list does not end before the count does, and no copy
that reports no error is incomplete. -/
theorem vm_map_filled_iff (k : Kernel) (pid : Int) :
    ∃ reply, Returns k pid reply ∧ reply.Safe ∧ (FromChain k reply ↔ ¬ Broken k pid) := by
  cases hheader : vmHeader k pid with
  | none =>
    refine ⟨failed, ⟨0, by rw [sysProcVmMap, hheader]⟩, safe_failed, fun _ => ?_, fun _ => nofun⟩
    rintro ⟨n, first, els, b, h, -⟩
    rw [hheader] at h
    cases h
  | some h =>
    obtain ⟨n, first⟩ := h
    obtain ⟨hpos, hfirst⟩ := vmHeader_spec hheader
    obtain ⟨fuel, r, hloop, hsome, hnone⟩ := loop_spec k ⟨first, 0, fun _ => none⟩ (Nat.zero_add n) hpos
    cases r with
    | none =>
      refine ⟨failed, ⟨fuel, by rw [sysProcVmMap, hheader]; simp only [hloop]; rfl⟩, safe_failed, fun _ => ?_,
        fun _ => nofun⟩
      rintro ⟨n', first', els, b, h, hchain, hbroken⟩
      cases hheader.symm.trans h
      obtain ⟨hlt, hb⟩ := hnone rfl els b hchain
      rcases hbroken with ⟨-, hzero⟩ | ⟨hfull, -⟩
      · exact hb hzero
      · exact absurd hfull (Nat.ne_of_lt hlt)
    | some out_buf =>
      obtain ⟨els, b, hchain, hfilled, hlen⟩ := hsome out_buf rfl
      refine ⟨⟨0, some out_buf, n⟩, ⟨fuel, by rw [sysProcVmMap, hheader]; simp only [hloop]; rfl⟩,
        ⟨fun h => absurd rfl h, fun _ => nofun, ?_⟩, ?_, ?_⟩
      · intro out_maps h i hi
        cases h
        by_contra hge
        exact hi (hfilled.others i (.inr (by dsimp only at hge ⊢; omega)))
      · rintro hall ⟨n', first', els', b', h, hchain', hbroken⟩
        cases hheader.symm.trans h
        obtain ⟨first'', els'', b'', hisFirst, hchain'', hlen'', hwhole, -⟩ := hall out_buf rfl
        have hkept := hfirst.mp (first_unique hheader hisFirst ▸ hisFirst)
        rw [first_unique hheader hisFirst] at hchain''
        dsimp only at hlen''
        rcases hbroken with ⟨hlt, rfl⟩ | ⟨hfull, hlost | ⟨buf, hbuf, hshort⟩⟩
        · have := hchain''.length_le hchain'
          omega
        · exact hkept hlost
        · rw [hchain'.eq_of_length hchain'' (hfull.trans hlen''.symm)] at hbuf
          exact absurd (hwhole buf hbuf) (Nat.ne_of_lt hshort)
      · intro hsound out_maps h
        cases h
        have hfull : els.length = n := by
          rcases hlen with hlen | ⟨hlt, rfl⟩
          · exact hlen
          · exact absurd ⟨n, first, els, 0, hheader, hchain, .inl ⟨hlt, rfl⟩⟩ hsound
        have hwhole : ∀ buf ∈ els, buf.length = 0x1C0 := by
          intro buf hbuf
          refine Nat.le_antisymm (hchain.length_buf hbuf) (Nat.not_lt.mp fun hshort => ?_)
          exact hsound ⟨n, first, els, b, hheader, hchain, .inr ⟨hfull, .inr ⟨buf, hbuf, hshort⟩⟩⟩
        refine ⟨first, els, b, hfirst.mpr fun hlost => ?_, hchain, hfull, hwhole, fun i hi => ?_⟩
        · exact hsound ⟨n, first, els, b, hheader, hchain, .inr ⟨hfull, .inl hlost⟩⟩
        · have hi' : i < els.length := hfull ▸ hi
          have hentry := hfilled.filled i hi'
          rw [Nat.zero_add, List.getElem?_eq_getElem hi'] at hentry
          rw [hentry, List.getElem?_eq_getElem hi', Option.map_some, Option.map_some,
            cleared_of_length (hwhole _ (List.getElem_mem hi'))]

/-- A list of one element under a count of two. -/
def shortList : Kernel where
  fw := 0
  kproc := 0x1000
  copyout
    | 0, _, len => some (List.replicate len 0)
    | 1, _, len => some (((List.replicate len 0).set 9 0x20).set 0x1A8 2)
    | _, _, len => some (List.replicate len 0)
  copyout_length := by
    intro t addr len bytes h
    rcases t with _ | _ | t <;> cases h <;> simp
  malloc _ := true

/-- The second entry that is handed out was never written. -/
theorem shortList_unfilled : ¬ ∀ (k : Kernel) (pid : Int) (reply : Reply), Returns k pid reply →
    FromChain k reply := by
  intro h
  have hreturns : Returns shortList 1 ⟨0, some (Function.update (fun _ => none) 0
      (some (entryOf 0 (cleared 0x1C0 (List.replicate 0x1C0 0))))), 2⟩ := ⟨2, rfl⟩
  obtain ⟨first, els, b, -, -, hlen, -, hfrom⟩ := h shortList 1 _ hreturns _ rfl
  have hunwritten := hfrom 1 (by decide)
  rw [Function.update_of_ne (by decide), List.getElem?_eq_getElem (by rw [hlen]; decide)] at hunwritten
  cases hunwritten

end VmMap

end Ps5Debugger
