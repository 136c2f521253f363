import Ps5Debugger.ElfInject
import Ps5Debugger.Lib.Copies

/-!
# The steps of the ELF loader

What each call of the loader does to the range that was reserved (`Holds`), and from that what placing a
segment, a relocation and setting a protection do, where they stay inside it: the memory of the range is
changed as by `blit`, and nothing else is. A step that fails leaves the range with some memory.
-/

namespace Ps5Debugger

open Lib Lib.Space

namespace ElfInject

variable {k : Kernel} {eb src mem : Buf} {s₀ : Space} {lo hi a len n obj : Nat} {ph : Phdr} {t : Target}

/-- All ranges lie in the reserved one, but for second mappings. -/
def Inside (lo hi : Nat) (log : List Access) : Prop :=
  ∀ x ∈ log, x.viaAlias = true ∨ lo ≤ x.addr ∧ x.addr + x.len ≤ hi

theorem Inside.cons {log : List Access} {x : Access} (h : Inside lo hi log)
    (hx : x.viaAlias = true ∨ lo ≤ x.addr ∧ x.addr + x.len ≤ hi) : Inside lo hi (x :: log) := by
  intro y hy
  rcases List.mem_cons.mp hy with rfl | hy
  · exact hx
  · exact h y hy

/-- The target has the reserved range, with the memory `mem`. -/
structure Holds (s₀ : Space) (lo hi : Nat) (mem : Buf) (t : Target) : Prop where
  owns : Owns s₀ t.space lo hi mem
  inside : Inside lo hi t.log

/-! ## The calls -/

theorem Kernel.Clean.reply_eq (hk : k.Clean) (n result : Nat) (t : Target) : k.reply n result t = (some result, t) := by
  rw [Kernel.reply, hk.lost, if_neg Bool.false_ne_true]

/-- New memory at an address that was asked for. -/
theorem mmap_new (hk : k.Clean) {r : MmapArgs} (hfd : r.fd = none) (hfixed : r.fixed = true) (hlo : lo ≤ r.addr)
    (hhi : r.addr + r.len ≤ hi) :
    Triple (Holds s₀ lo hi mem) (freebsdMmap k r false) fun o t => match o with
      | none => Holds s₀ lo hi mem t
      | some b => b = r.addr ∧ Holds s₀ lo hi (blit mem r.addr (fun _ => 0) r.len) t := by
  intro t ht
  rw [freebsdMmap]
  cases hmap : k.mmap t.calls t.space r with
  | none => exact ⟨ht.owns, ht.inside⟩
  | some b =>
    obtain rfl : b = r.addr := k.mmap_fixed hmap hfixed
    rw [hfd]
    dsimp only
    rw [hk.reply_eq]
    exact ⟨rfl, ht.owns.mapNew hlo hhi, ht.inside.cons (.inr ⟨hlo, hhi⟩)⟩

/-- A write inside the range. -/
theorem ioWrite_does (hlo : lo ≤ a) (hhi : a + n ≤ hi) :
    Does (Holds s₀ lo hi) mem (ptraceIoWriteD k src a n false) (blit mem a src n) := by
  intro t ht
  have hin : Inside lo hi (⟨a, n, false⟩ :: t.log) := ht.inside.cons (.inr ⟨hlo, hhi⟩)
  rw [ptraceIoWriteD]
  cases k.ioWrite t.calls t.space a n with
  | none => exact ⟨ht.owns.write hlo hhi, hin⟩
  | some m => exact ⟨_, ht.owns.write hlo (by omega), hin⟩

theorem mprotect_does {prot : Nat} : Does (Holds s₀ lo hi) mem (sysMprotect k a n prot) mem := by
  intro t ht
  have hsame : Holds s₀ lo hi mem (t.call t.space) := ⟨ht.owns, ht.inside⟩
  rw [sysMprotect]
  cases k.mprotect t.calls t.space a n prot with
  | true => exact hsame
  | false => exact ⟨mem, hsame.owns, hsame.inside⟩

theorem close_keeps {fd : Nat} : Triple (Holds s₀ lo hi mem) (kernCloseThunk k fd) fun _ => Holds s₀ lo hi mem := by
  intro t ht
  rw [kernCloseThunk]
  cases k.close t.calls t.space fd with
  | true => exact ⟨ht.owns.of_eq rfl (fun _ _ => rfl) (Nat.le_refl _), ht.inside⟩
  | false => exact ⟨ht.owns, ht.inside⟩

/-- A new shared object, which is mapped nowhere. -/
structure Created (s₀ : Space) (lo hi : Nat) (mem : Buf) (fd obj : Nat) (t : Target) : Prop where
  holds : Holds s₀ lo hi mem t
  fd_eq : t.space.fds fd = some obj
  new : s₀.next ≤ obj
  unused : ∀ x c, t.space.cells x = some c → c.obj ≠ obj
  zeros : t.space.store obj = fun _ => 0

theorem jitshmCreate_creates (hk : k.Clean) {x y z : Nat} :
    Triple (Holds s₀ lo hi mem) (kernJitshmCreate k x y z) fun o t => match o with
      | none => Holds s₀ lo hi mem t
      | some fd => ∃ obj, Created s₀ lo hi mem fd obj t := by
  intro t ht
  rw [kernJitshmCreate]
  cases k.jitshmCreate t.calls t.space x y z with
  | none => exact ⟨ht.owns, ht.inside⟩
  | some fd =>
    dsimp only
    rw [hk.reply_eq]
    refine ⟨t.space.next, ⟨ht.owns.create.of_eq rfl (fun _ _ => rfl) (Nat.le_refl _), ht.inside⟩, if_pos rfl,
      ht.owns.next_le, ?_, if_pos rfl⟩
    exact fun _ _ hc => Nat.ne_of_lt (t.space.obj_lt hc)

/-- The object is shown from `a` on, and open under a descriptor. -/
structure Shown (s₀ : Space) (lo hi : Nat) (mem : Buf) (a len fd obj : Nat) (t : Target) : Prop where
  holds : Holds s₀ lo hi mem t
  fd_eq : t.space.fds fd = some obj
  new : s₀.next ≤ obj
  shown : ∀ i < len, t.space.cells (a + i) = some ⟨obj, i⟩

theorem mmap_shared (hk : k.Clean) {r : MmapArgs} {fd : Nat} (hfd : r.fd = some fd) (hfixed : r.fixed = true)
    (hlo : lo ≤ r.addr)
    (hhi : r.addr + r.len ≤ hi) :
    Triple (Created s₀ lo hi mem fd obj) (freebsdMmap k r false) fun o t => match o with
      | none => Holds s₀ lo hi mem t
      | some _ => Shown s₀ lo hi (blit mem r.addr (fun _ => 0) r.len) r.addr r.len fd obj t := by
  intro t ht
  rw [freebsdMmap]
  cases hmap : k.mmap t.calls t.space r with
  | none => exact ⟨ht.holds.owns, ht.holds.inside⟩
  | some b =>
    obtain rfl : b = r.addr := k.mmap_fixed hmap hfixed
    rw [hfd]
    simp only [fdObj_eq ht.fd_eq, hk.reply_eq]
    have howns := ht.holds.owns.map hlo hhi (t.space.fd_lt ht.fd_eq) ht.new ht.unused
    rw [ht.zeros] at howns
    refine ⟨⟨howns, ht.holds.inside.cons (.inr ⟨hlo, hhi⟩)⟩, ht.fd_eq, ht.new, fun i hi => ?_⟩
    have hin : r.addr ≤ r.addr + i ∧ r.addr + i < r.addr + r.len := by omega
    exact (if_pos hin).trans (by rw [Nat.add_sub_cancel_left])

theorem jitshmAlias_shows (hk : k.Clean) {fd prot : Nat} :
    Triple (Shown s₀ lo hi mem a len fd obj) (kernJitshmAlias k fd prot) fun o t => match o with
      | none => Holds s₀ lo hi mem t
      | some fd' => Shown s₀ lo hi mem a len fd' obj t := by
  intro t ht
  rw [kernJitshmAlias]
  cases k.jitshmAlias t.calls t.space fd prot with
  | none => exact ⟨ht.holds.owns, ht.holds.inside⟩
  | some fd' =>
    simp only [fdObj_eq ht.fd_eq, hk.reply_eq]
    exact ⟨⟨ht.holds.owns.of_eq rfl (fun _ _ => rfl) (Nat.le_refl _), ht.holds.inside⟩, if_pos rfl, ht.new, ht.shown⟩

/-! ## The second mapping -/

/-- The object is also mapped at `w`, where nothing was, and `n` bytes were written to it there. -/
structure Aliased (s₀ : Space) (lo hi : Nat) (mem : Buf) (a len w : Nat) (src : Buf) (n : Nat) (t : Target) : Prop where
  range : 0 < len ∧ w % 0x4000 = 0 ∧ w + len ≤ 2 ^ 64
  before : ∃ (s : Space) (obj : Nat) (hobj : obj < s.next), Owns s₀ s lo hi mem ∧ s₀.next ≤ obj ∧
    (∀ i < len, s.cells (a + i) = some ⟨obj, i⟩) ∧ (∀ i < len, s.cells (w + i) = none) ∧
    t.space = (s.map w len obj hobj).write w src n
  inside : Inside lo hi t.log

theorem mmap_alias (hk : k.Clean) (src : Buf) {r : MmapArgs} {fd : Nat} (hfd : r.fd = some fd)
    (hfixed : r.fixed = false)
    (hlen : r.len = len) :
    Triple (Shown s₀ lo hi mem a len fd obj) (freebsdMmap k r true) fun o t => match o with
      | none => Holds s₀ lo hi mem t
      | some w => Aliased s₀ lo hi mem a len w src 0 t := by
  subst hlen
  intro t ht
  rw [freebsdMmap]
  cases hmap : k.mmap t.calls t.space r with
  | none => exact ⟨ht.holds.owns, ht.holds.inside⟩
  | some w =>
    rw [hfd]
    simp only [fdObj_eq ht.fd_eq, hk.reply_eq]
    exact ⟨k.mmap_range hmap, ⟨t.space, obj, t.space.fd_lt ht.fd_eq, ht.holds.owns, ht.new, ht.shown,
      k.mmap_free hmap hfixed, rfl⟩, ht.holds.inside.cons (.inl rfl)⟩

theorem ioWrite_alias {w : Nat} :
    Triple (Aliased s₀ lo hi mem a len w src 0) (ptraceIoWriteD k src w n true) fun ok t =>
      if ok then Aliased s₀ lo hi mem a len w src n t else ∃ m ≤ n, Aliased s₀ lo hi mem a len w src m t := by
  rintro t ⟨hrange, ⟨s, obj, hobj, howns, hnew, hshown, hfree, hs⟩, hin⟩
  have hin' : Inside lo hi (⟨w, n, true⟩ :: t.log) := hin.cons (.inl rfl)
  have hs' : t.space = s.map w len obj hobj := hs
  rw [ptraceIoWriteD]
  cases k.ioWrite t.calls t.space w n with
  | none => exact ⟨hrange, ⟨s, obj, hobj, howns, hnew, hshown, hfree, by rw [← hs']; rfl⟩, hin'⟩
  | some m =>
    exact ⟨min m n, Nat.min_le_right m n, hrange, ⟨s, obj, hobj, howns, hnew, hshown, hfree, by rw [← hs']; rfl⟩, hin'⟩

/-- Without the second mapping the bytes are where the object is shown. -/
theorem munmap_alias (hk : k.Clean) {w : Nat} (hn : n ≤ len) (hlo : lo ≤ a) (hhi : a + len ≤ hi) :
    Triple (Aliased s₀ lo hi mem a len w src n) (freebsdMunmap k w len) fun _ =>
      Holds s₀ lo hi (blit mem a src n) := by
  rintro t ⟨hrange, ⟨s, obj, hobj, howns, hnew, hshown, hfree, hs⟩, hin⟩
  rw [freebsdMunmap, if_pos (hk.munmap hrange.1 hrange.2.1 hrange.2.2), hs]
  exact ⟨howns.copyThrough hlo hhi hn hshown hnew hfree, hin⟩

/-! ## Placing -/

/-- The copies that put a segment at `a`: new memory, and the contents. -/
def segmentCopies (eb : Buf) (ph : Phdr) (a : Nat) : List Copy :=
  [⟨a, fun _ => 0, ph.alignedMemsz⟩, ⟨a, view eb ph.p_offset, ph.p_memsz⟩]

theorem fixed_shared : (0x11 : Nat).testBit 4 = true := by decide

theorem fixed_private : (0x1012 : Nat).testBit 4 = true := by decide

theorem not_fixed_alias : (1 : Nat).testBit 4 = false := by decide

theorem placeShared_does (hk : k.Clean) (hlo : lo ≤ a) (hhi : a + ph.alignedMemsz ≤ hi)
    (hlen : ph.p_memsz ≤ ph.alignedMemsz) :
    Does (Holds s₀ lo hi) mem (placeShared k eb ph a) (copies mem (segmentCopies eb ph a)) := by
  refine Triple.bind (jitshmCreate_creates hk) fun o => ?_
  cases o with
  | none => exact Does.gives_up
  | some shm_fd =>
    refine Triple.of_exists fun obj => Triple.bind (mmap_shared hk rfl fixed_shared hlo hhi) fun o => ?_
    cases o with
    | none => exact Does.gives_up_after close_keeps
    | some b =>
      refine Triple.bind (jitshmAlias_shows hk) fun o => ?_
      cases o with
      | none => exact Does.gives_up_after close_keeps
      | some alias_fd =>
        refine Triple.bind (mmap_alias hk (view eb ph.p_offset) rfl not_fixed_alias rfl) fun o => ?_
        cases o with
        | none => exact Triple.bind close_keeps fun _ => Does.gives_up_after close_keeps
        | some rw_addr =>
          refine Triple.bind ioWrite_alias fun written => ?_
          cases written with
          | true =>
            exact Triple.bind (munmap_alias hk hlen hlo hhi) fun _ => Triple.bind close_keeps fun _ =>
              Triple.bind close_keeps fun _ _ ht => ht
          | false =>
            -- some of the bytes were written
            exact Triple.of_exists fun m => Triple.of_and fun hm =>
              Triple.bind (munmap_alias hk (hm.trans hlen) hlo hhi) fun _ => Triple.bind close_keeps fun _ =>
                Does.gives_up_after close_keeps

theorem placePrivate_does (hk : k.Clean) (hlo : lo ≤ a) (hhi : a + ph.alignedMemsz ≤ hi)
    (hlen : ph.p_memsz ≤ ph.alignedMemsz) :
    Does (Holds s₀ lo hi) mem (placePrivate k eb ph a) (copies mem (segmentCopies eb ph a)) := by
  refine Triple.bind (mmap_new hk rfl fixed_private hlo hhi) fun o => ?_
  cases o with
  | none => exact Does.gives_up
  | some seg_addr =>
    rintro t ⟨hseg, ht⟩
    rw [hseg]
    exact ioWrite_does hlo (Nat.le_trans (Nat.add_le_add_left hlen a) hhi) t ht

theorem place_does (hk : k.Clean) {base : Nat} (hbase : base + ph.p_vaddr < 2 ^ 64) (hlo : lo ≤ base + ph.p_vaddr)
    (hhi : base + ph.p_vaddr + ph.alignedMemsz ≤ hi) (hlen : ph.p_memsz ≤ ph.alignedMemsz) :
    Does (Holds s₀ lo hi) mem (place k eb base ph) (copies mem (segmentCopies eb ph (base + ph.p_vaddr))) := by
  rw [place, u64_of_lt hbase]
  split
  · exact placeShared_does hk hlo hhi hlen
  · exact placePrivate_does hk hlo hhi hlen

/-- The copy that applies a relocation. -/
def relaCopy (base : Nat) (r : Rela) : Copy := ⟨base + r.r_offset, ofList (leBytes 8 (u64 (base + r.r_addend))), 8⟩

theorem relocate_does {base : Nat} {r : Rela} (hlo : lo ≤ base + r.r_offset) (hhi : base + r.r_offset + 8 ≤ hi)
    (htop : hi ≤ 2 ^ 64) : Does (Holds s₀ lo hi) mem (relocate k base r) (copies mem [relaCopy base r]) := by
  rw [relocate, u64_of_lt (by omega : base + r.r_offset < 2 ^ 64)]
  exact ioWrite_does hlo hhi

/-! ## Failures -/

section Flags

/-- The target knows of a failed call. -/
abbrev Target.Failed (t : Target) : Prop := t.failed = true

theorem reply_flags (t' : Target) (hsame : t'.failed = t.failed) (h : t.Failed ∨ (k.reply n a t').1 = none) :
    (k.reply n a t').2.Failed := by
  rw [Kernel.reply] at h ⊢
  split
  · rfl
  · next hlost =>
    rw [if_neg hlost] at h
    exact hsame.trans (h.resolve_right (Option.some_ne_none a))

theorem mmap_flags {r : MmapArgs} {viaAlias : Bool} : Flags Target.Failed (· = none) (freebsdMmap k r viaAlias) := by
  intro t
  rw [freebsdMmap]
  cases k.mmap t.calls t.space r with
  | none => exact fun _ => rfl
  | some b =>
    cases r.fd with
    | none => exact reply_flags _ rfl
    | some fd =>
      dsimp only
      cases t.space.fdObj fd with
      | none => exact fun _ => rfl
      | some obj => exact reply_flags _ rfl

theorem munmap_flags : Flags Target.Failed (fun _ => False) (freebsdMunmap k a len) := by
  intro t h
  rw [freebsdMunmap]
  cases k.munmap t.calls t.space a len with
  | true => exact h.resolve_right id
  | false => rfl

theorem close_flags {fd : Nat} : Flags Target.Failed (fun _ => False) (kernCloseThunk k fd) := by
  intro t h
  rw [kernCloseThunk]
  cases k.close t.calls t.space fd with
  | true => exact h.resolve_right id
  | false => rfl

theorem mprotect_flags {prot : Nat} : Flags Target.Failed (· = false) (sysMprotect k a n prot) := by
  intro t
  rw [sysMprotect]
  cases k.mprotect t.calls t.space a n prot with
  | true => exact fun h => h.resolve_right (Bool.noConfusion ·)
  | false => exact fun _ => rfl

theorem jitshmCreate_flags {x y z : Nat} : Flags Target.Failed (· = none) (kernJitshmCreate k x y z) := by
  intro t
  rw [kernJitshmCreate]
  cases k.jitshmCreate t.calls t.space x y z with
  | none => exact fun _ => rfl
  | some fd => exact reply_flags _ rfl

theorem jitshmAlias_flags {fd prot : Nat} : Flags Target.Failed (· = none) (kernJitshmAlias k fd prot) := by
  intro t
  rw [kernJitshmAlias]
  cases k.jitshmAlias t.calls t.space fd prot with
  | none => exact fun _ => rfl
  | some fd' =>
    cases t.space.fdObj fd with
    | none => exact fun _ => rfl
    | some obj => exact reply_flags _ rfl

theorem ioWrite_flags {viaAlias : Bool} : Flags Target.Failed (· = false) (ptraceIoWriteD k src a n viaAlias) := by
  intro t
  rw [ptraceIoWriteD]
  cases k.ioWrite t.calls t.space a n with
  | none => exact fun h => h.resolve_right (Bool.noConfusion ·)
  | some m => exact fun _ => rfl

theorem placeShared_flags : Flags Target.Failed (· = false) (placeShared k eb ph a) := by
  refine Flags.bind jitshmCreate_flags fun o => ?_
  cases o with
  | none => exact Flags.pure fun h => h.2 rfl
  | some shm_fd =>
    refine Flags.bind mmap_flags fun o => ?_
    cases o with
    | none => exact Flags.bind close_flags fun _ => Flags.pure fun h => h.1.2 rfl
    | some b =>
      refine Flags.bind jitshmAlias_flags fun o => ?_
      cases o with
      | none => exact Flags.bind close_flags fun _ => Flags.pure fun h => h.1.2 rfl
      | some alias_fd =>
        refine Flags.bind mmap_flags fun o => ?_
        cases o with
        | none =>
          exact Flags.bind close_flags fun _ => Flags.bind close_flags fun _ => Flags.pure fun h => h.1.1.2 rfl
        | some rw_addr =>
          refine Flags.bind ioWrite_flags fun written => Flags.bind munmap_flags fun _ => Flags.bind close_flags fun _ =>
            Flags.bind close_flags fun _ => Flags.pure ?_
          rintro ⟨⟨⟨⟨⟨⟨⟨⟨rfl, -⟩, -⟩, -⟩, -⟩, hok⟩, -⟩, -⟩, -⟩
          exact hok rfl

theorem place_flags {base : Nat} : Flags Target.Failed (· = false) (place k eb base ph) := by
  rw [place]
  split
  · exact placeShared_flags
  · refine Flags.bind mmap_flags fun o => ?_
    cases o with
    | none => exact Flags.pure fun h => h.2 rfl
    | some seg_addr => exact ioWrite_flags.mono fun _ h => h.1

/-- A loop that leaves for `cleanup_base` does so because a call failed. -/
theorem fill_flags {base : Nat} : Flags Target.Failed (· = false) (fill k eb base) :=
  (allOf_flags (fun _ => place_flags) _).andThen
    ((allOf_flags (fun _ => ioWrite_flags) _).andThen (allOf_flags (fun _ => mprotect_flags) _))

end Flags

end ElfInject

end Ps5Debugger
