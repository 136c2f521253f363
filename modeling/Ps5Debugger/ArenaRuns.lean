import Ps5Debugger.ArenaAlloc

/-!
# Runs of allocations and frees

Every allocation keeps a sound state sound, and so does freeing what is live: in an arena the range
moves from the live allocations to the free list; an allocation the arenas do not know any more,
because its arena was taken over or its segment could not be noted, is unmapped, and no other range
meets it.
-/

namespace Ps5Debugger

open Lib

variable {s : Remote} {pid q addr length hint : Nat}

/-! ## Allocations -/

/-- How much an allocation asks the operating system for, if it does. -/
def requestSize (s : Remote) (length hint : Nat) : Nat :=
  if s.enabled && hint == 0x4000 then segmentSize length else arenaRound length

/-- The operating system maps memory where nothing is mapped, and never an empty range. -/
def FreshAlloc (s : Remote) (pid length hint : Nat) (env : AllocEnv) : Prop :=
  FreshTries (requestSize s length hint) (s.mapped pid) (env.tries.take 6) ∧
    (requestSize s length hint = 0 → ∀ t ∈ env.tries, t = .refused)

/-- The ranges after some process got a block. -/
theorem Remote.Sound.of_block {s s' : Remote} (h : s.Sound) (pid : Nat) (hwf : WellFormed s'.arenas)
    (hmapped : ∀ q ≠ pid, s'.mapped q = s.mapped q) {block : Option LiveAlloc}
    (hblock : ∀ b, block = some b → b.pid = pid) (hlive : s'.live = block.toList ++ s.live)
    (hpool : ∀ q ≠ pid, (poolOf s'.arenas q).Sublist (poolOf s.arenas q))
    (hpacked : Packed (s'.mapped pid)
      ((block.map LiveAlloc.range).toList ++ (liveOf s.live pid ++ poolOf s'.arenas pid))) : s'.Sound := by
  refine ⟨hwf, fun q => ?_⟩
  rw [Remote.parts, hlive]
  by_cases hq : q = pid
  · rw [hq]
    cases block with
    | none => exact hpacked
    | some b =>
      obtain rfl := hblock b rfl
      change Packed _ (liveOf (b :: s.live) b.pid ++ _)
      rw [liveOf_cons_self]
      exact hpacked
  · have hsame : liveOf (block.toList ++ s.live) q = liveOf s.live q := by
      cases block with
      | none => rfl
      | some b => exact liveOf_cons_ne _ (by rw [hblock b rfl]; exact Ne.symm hq)
    rw [hsame, hmapped q hq]
    exact (h.packed q).sublist (List.Sublist.append_left (hpool q hq) _)

/-- **An allocation** keeps the ranges apart. -/
theorem Remote.Sound.alloc (h : s.Sound) (hlen : length < 2 ^ 32) {env : AllocEnv}
    (hfresh : FreshAlloc s pid length hint env) : (procRemoteAlloc s pid length hint env).2.Sound := by
  have hfresh := hfresh.1
  rw [requestSize] at hfresh
  rw [procRemoteAlloc]
  split
  · next hplain =>
    rw [if_pos hplain] at hfresh
    obtain ⟨hwf, hpacked, hpool⟩ := arenaAlloc_spec h.wf hlen hfresh (h.packed pid)
    refine h.of_block pid hwf (fun q hq => Function.update_of_ne hq _ _) ?_ rfl hpool ?_
    · intro b hb
      obtain ⟨a, -, rfl⟩ := Option.map_eq_some_iff.mp hb
      rfl
    · dsimp only
      rw [Function.update_self, Option.map_map]
      exact hpacked
  · next hplain =>
    rw [if_neg hplain] at hfresh
    cases hreal : doRealAlloc (s.mapped pid) length env.tries with
    | mk r mapped' =>
    obtain ⟨hold, hgiven⟩ := packed_doRealAllocLoop hfresh (h.packed pid) hreal
    refine h.of_block pid h.wf (fun q hq => Function.update_of_ne hq _ _) ?_ rfl
      (fun q _ => List.Sublist.refl _) ?_
    · intro b hb
      obtain ⟨a, -, rfl⟩ := Option.map_eq_some_iff.mp hb
      rfl
    · dsimp only
      rw [Function.update_self]
      cases r with
      | none => exact hold
      | some base => exact hgiven base rfl

/-- The block that an allocation gives is the newest live allocation. -/
theorem procRemoteAlloc_live (s : Remote) (pid length hint : Nat) (env : AllocEnv) :
    (procRemoteAlloc s pid length hint env).2.live =
      (procRemoteAlloc s pid length hint env).1.toList ++ s.live := by
  rw [procRemoteAlloc]
  split <;> rfl

theorem procRemoteAlloc_enabled (s : Remote) (pid length hint : Nat) (env : AllocEnv) :
    (procRemoteAlloc s pid length hint env).2.enabled = s.enabled := by
  rw [procRemoteAlloc]
  split <;> rfl

theorem doRealAllocLoop_refused {size : Nat} : ∀ {tries : List MmapTry} (mapped : Nat → Bool),
    (∀ t ∈ tries, t = .refused) → doRealAllocLoop size mapped tries = (none, mapped)
  | [], _, _ => rfl
  | t :: tries, mapped, h => by
    have htail : ∀ u ∈ tries, u = .refused := fun u hu => h u (List.mem_cons_of_mem t hu)
    obtain rfl := h t List.mem_cons_self
    rw [doRealAllocLoop]
    exact doRealAllocLoop_refused mapped htail

/-- What an allocation gives is what was asked for, rounded up. -/
theorem procRemoteAlloc_block {env : AllocEnv} (hfresh : FreshAlloc s pid length hint env) {b : LiveAlloc}
    (hb : (procRemoteAlloc s pid length hint env).1 = some b) :
    b.pid = pid ∧ b.length = length ∧ b.size = blockSize length := by
  have hempty := hfresh.2
  rw [requestSize] at hempty
  rw [procRemoteAlloc] at hb
  split at hb
  · obtain ⟨addr, -, rfl⟩ := Option.map_eq_some_iff.mp hb
    exact ⟨rfl, rfl, rfl⟩
  · next hplain =>
    rw [if_neg hplain] at hempty
    obtain ⟨addr, hreal, rfl⟩ := Option.map_eq_some_iff.mp hb
    refine ⟨rfl, rfl, ?_⟩
    by_cases hlen : length = 0
    · have hrefused := hempty (by rw [hlen]; decide)
      rw [doRealAlloc, doRealAllocLoop_refused _ fun t ht => hrefused t (List.mem_of_mem_take ht)] at hreal
      cases hreal
    · exact (blockSize_of_pos hlen).symm

/-! ## Frees -/

/-- The arena of the process has a segment with this address. -/
def owned (s : Remote) (pid addr : Nat) : Bool :=
  s.enabled && (arenaFind s.arenas pid).any fun r => arenaOwns r.2 addr

/-- An arena of the table, changed in its place. -/
theorem WellFormed.write {g : Arenas} {slot : Fin 4} {ap ap' : ArenaPid} (h : WellFormed g)
    (hfind : arenaFind g pid = some (slot, ap)) (halign : ap'.Aligned) (hap : ap'.pid = pid) :
    WellFormed (Function.update g slot (some ap')) ∧
      poolOf (Function.update g slot (some ap')) pid = ap'.pool ∧
      ∀ q ≠ pid, (poolOf (Function.update g slot (some ap')) q).Sublist (poolOf g q) := by
  have hslot : slot = (arenaGet g pid).1 := by rw [arenaGet_some hfind]
  rw [hslot]
  exact ⟨h.update hap halign, poolOf_update h.unique hap, fun q hq => poolOf_update_ne h.unique hap hq⟩

/-- What freeing can do: note a free block, forget it, or unmap. -/
theorem procRemoteFree_cases (h : WellFormed s.arenas) (pid addr length : Nat) (env : FreeEnv) :
    (owned s pid addr = true ∧ env.mallocOk = true ∧ ∃ g, WellFormed g ∧
      poolOf g pid = ⟨addr, blockSize length⟩ :: poolOf s.arenas pid ∧
      (∀ q ≠ pid, (poolOf g q).Sublist (poolOf s.arenas q)) ∧
      procRemoteFree s pid addr length env =
        { s with arenas := g, live := dropLive s.live pid addr length }) ∨
    (owned s pid addr = true ∧ env.mallocOk = false ∧
      procRemoteFree s pid addr length env = { s with live := dropLive s.live pid addr length }) ∨
    (owned s pid addr = false ∧
      procRemoteFree s pid addr length env =
        { s with
          mapped := Function.update s.mapped pid (doRealFree (s.mapped pid) addr length env.unmaps)
          live := dropLive s.live pid addr length }) := by
  cases hen : s.enabled with
  | false =>
    refine .inr (.inr ⟨by rw [owned, hen, Bool.false_and], ?_⟩)
    rw [procRemoteFree, hen]
    rfl
  | true =>
    cases hfind : arenaFind s.arenas pid with
    | none =>
      refine .inr (.inr ⟨by rw [owned, hen, hfind]; rfl, ?_⟩)
      rw [procRemoteFree, hen, if_pos rfl, arenaFree, hfind]
    | some r =>
      obtain ⟨slot, ap⟩ := r
      have hop : owned s pid addr = arenaOwns ap addr := by rw [owned, hen, hfind]; rfl
      rw [hop, procRemoteFree, hen, if_pos rfl, arenaFree, hfind]
      dsimp only
      cases arenaOwns ap addr with
      | false => exact .inr (.inr ⟨rfl, rfl⟩)
      | true =>
        cases env.mallocOk with
        | false => exact .inr (.inl ⟨rfl, rfl, rfl⟩)
        | true =>
          obtain ⟨hslot, hpid⟩ := arenaFind_some hfind
          have halign := h.aligned slot ap hslot
          obtain ⟨k, hk⟩ := arenaRound_units (if length = 0 then arenaAlign else length)
          have hnew : ({ ap with freelist := ⟨addr, blockSize length⟩ :: ap.freelist } : ArenaPid).Aligned := by
            refine ⟨fun b hb => ?_, halign.used, halign.seg⟩
            rcases List.mem_cons.mp hb with rfl | hb
            · exact ⟨k, hk⟩
            · exact halign.block b hb
          obtain ⟨hwf, hpool, hothers⟩ := h.write hfind hnew hpid
          refine .inl ⟨rfl, rfl, _, hwf, ?_, hothers, rfl⟩
          rw [hpool, poolOf, hfind]
          rfl

theorem liveOf_dropLive_sublist (live : List LiveAlloc) (pid addr length q : Nat) :
    (liveOf (dropLive live pid addr length) q).Sublist (liveOf live q) :=
  (List.Sublist.filter _ (List.eraseP_sublist)).map _

/-- The live allocations are the one that was given back and the others. -/
theorem liveOf_dropLive_perm {live : List LiveAlloc} {a : LiveAlloc} (ha : a ∈ live)
    (hsizes : ∀ b ∈ live, b.size = blockSize b.length) :
    (liveOf live a.pid).Perm (a.range :: liveOf (dropLive live a.pid a.addr a.length) a.pid) := by
  obtain ⟨b, l₁, l₂, -, hb, hlive, hdrop⟩ := List.exists_of_eraseP
    (p := fun b : LiveAlloc => b.pid == a.pid && b.addr == a.addr && b.length == a.length) ha (by simp)
  simp only [Bool.and_eq_true, beq_iff_eq] at hb
  obtain ⟨⟨hpid, haddr⟩, hlength⟩ := hb
  have hrange : b.range = a.range := by
    rw [LiveAlloc.range, LiveAlloc.range, haddr, hsizes a ha, ← hlength]
    rw [hsizes b (by rw [hlive]; simp)]
  rw [dropLive, hdrop, hlive, ← hrange]
  simp only [liveOf, List.filter_append, List.map_append, List.filter_cons, hpid, beq_self_eq_true, if_true,
    List.map_cons]
  exact List.perm_middle

/-- The state of the arenas in a run: sound, with every live allocation as large as was asked for. -/
structure Remote.Kept (s : Remote) : Prop where
  sound : s.Sound
  enabled : s.enabled = true
  sizes : ∀ a ∈ s.live, a.size = blockSize a.length

theorem Remote.Kept.alloc (h : s.Kept) (hlen : length < 2 ^ 32) {env : AllocEnv}
    (hfresh : FreshAlloc s pid length hint env) : (procRemoteAlloc s pid length hint env).2.Kept := by
  refine ⟨h.sound.alloc hlen hfresh, ?_, fun a ha => ?_⟩
  · rw [procRemoteAlloc_enabled]
    exact h.enabled
  · rw [procRemoteAlloc_live] at ha
    rcases List.mem_append.mp ha with ha | ha
    · obtain ⟨-, hlength, hsize⟩ := procRemoteAlloc_block hfresh (Option.mem_toList.mp ha)
      rw [hsize, hlength]
    · exact h.sizes a ha

/-- **Freeing what is live** keeps the ranges apart: the range goes to the free list, or is forgotten,
or is unmapped. -/
theorem Remote.Kept.free (h : s.Kept) {a : LiveAlloc} (ha : a ∈ s.live) (env : FreeEnv) :
    (procRemoteFree s a.pid a.addr a.length env).Kept := by
  have hperm := liveOf_dropLive_perm ha h.sizes
  have hsub := liveOf_dropLive_sublist s.live a.pid a.addr a.length
  have hsizes : ∀ b ∈ dropLive s.live a.pid a.addr a.length, b.size = blockSize b.length :=
    fun b hb => h.sizes b (List.mem_of_mem_eraseP hb)
  have hparts : Packed (s.mapped a.pid)
      (a.range :: (liveOf (dropLive s.live a.pid a.addr a.length) a.pid ++ poolOf s.arenas a.pid)) :=
    (h.sound.packed a.pid).perm (hperm.append_right _)
  obtain ⟨-, -, g, hwf, hpool, hothers, heq⟩ | ⟨-, -, heq⟩ | ⟨-, heq⟩ :=
    procRemoteFree_cases h.sound.wf a.pid a.addr a.length env
  · rw [heq]
    refine ⟨⟨hwf, fun q => ?_⟩, h.enabled, hsizes⟩
    rw [Remote.parts]
    by_cases hq : q = a.pid
    · rw [hq, hpool, ← h.sizes a ha]
      exact hparts.perm List.perm_middle.symm
    · exact (h.sound.packed q).sublist ((hsub q).append (hothers q hq))
  · rw [heq]
    exact ⟨⟨h.sound.wf, fun q => (h.sound.packed q).sublist ((hsub q).append_right _)⟩, h.enabled, hsizes⟩
  · rw [heq]
    refine ⟨⟨h.sound.wf, fun q => ?_⟩, h.enabled, hsizes⟩
    have hrest := (h.sound.packed q).sublist ((hsub q).append_right (poolOf s.arenas q))
    by_cases hq : q = a.pid
    · subst hq
      rw [Remote.parts]
      dsimp only
      rw [Function.update_self, doRealFree]
      split
      · exact hrest
      split
      · refine (packed_unmap hrest).mpr fun r hr x hx => (packed_cons.mp hparts).2.1 r hr x ?_
        -- what is unmapped is the allocation, or nothing if no bytes were asked for
        by_cases hlen : a.length = 0
        · obtain ⟨hlo, hhi⟩ := hx
          rw [hlen] at hhi
          exact absurd hhi (by rw [show arenaRound 0 = 0 from by decide]; exact Nat.not_lt.mpr hlo)
        · rw [LiveAlloc.range, h.sizes a ha, blockSize_of_pos hlen]
          exact hx
      · exact hrest
    · rw [Remote.parts]
      dsimp only
      rw [Function.update_of_ne hq]
      exact hrest

/-! ## Runs -/

inductive RemoteOp where
  | alloc (pid length hint : Nat) (env : AllocEnv)
  | free (pid addr length : Nat) (env : FreeEnv)

def remoteStep (s : Remote) : RemoteOp → Remote
  | .alloc pid length hint env => (procRemoteAlloc s pid length hint env).2
  | .free pid addr length env => procRemoteFree s pid addr length env

/-- What callers and the operating system promise: lengths have 32 bits, memory is mapped where none
is, and only live allocations are freed, with the length they were asked for with. -/
def OkOp (s : Remote) : RemoteOp → Prop
  | .alloc pid length hint env => length < 2 ^ 32 ∧ FreshAlloc s pid length hint env
  | .free pid addr length _ => ∃ a ∈ s.live, a.pid = pid ∧ a.addr = addr ∧ a.length = length

/-- The payload starts: no arena is in use, and nothing was allocated. -/
def Remote.start : Remote := ⟨true, fun _ => none, fun _ _ => false, []⟩

theorem Remote.Kept.start : Remote.start.Kept := by
  have hwf : WellFormed Remote.start.arenas := by
    refine ⟨?_, ?_⟩
    · intro i j a b ha
      cases ha
    · intro i ap hi
      cases hi
  refine ⟨⟨hwf, fun pid => packed_nil _⟩, rfl, ?_⟩
  intro a ha
  cases ha

theorem Remote.Kept.step {op : RemoteOp} (h : s.Kept) (hok : OkOp s op) : (remoteStep s op).Kept := by
  cases op with
  | alloc pid length hint env => exact h.alloc hok.1 hok.2
  | free pid addr length env =>
    obtain ⟨a, ha, rfl, rfl, rfl⟩ := hok
    exact h.free ha env

theorem Remote.Kept.run {ops : List RemoteOp} (hok : Along remoteStep OkOp Remote.start ops) :
    (ops.foldl remoteStep Remote.start).Kept :=
  Along.keeps Remote.Kept (fun _ _ h hok => h.step hok) ops .start hok

/-- Nothing overlaps in a process. -/
structure NoOverlap (s : Remote) (pid : Nat) : Prop where
  /-- live allocations, with their lengths rounded up, do not meet -/
  live : (liveOf s.live pid).Pairwise Separate
  rounded : ∀ a ∈ s.live, a.size = blockSize a.length
  mapped : ∀ a ∈ s.live, a.pid = pid → Inside (s.mapped pid) a.range
  segments : ∀ slot ap, s.arenas slot = some ap → ap.pid = pid → ∀ seg ∈ ap.segs, seg.used ≤ seg.size
  /-- free blocks do not meet -/
  free : ∀ slot ap, s.arenas slot = some ap → ap.pid = pid → (ap.freelist.map ArenaBlk.range).Pairwise Separate
  freeLive : ∀ slot ap, s.arenas slot = some ap → ap.pid = pid →
    ∀ b ∈ ap.freelist, ∀ a ∈ s.live, a.pid = pid → Separate b.range a.range

theorem mem_liveOf {a : LiveAlloc} (ha : a ∈ s.live) : a.range ∈ liveOf s.live a.pid :=
  List.mem_map_of_mem (List.mem_filter.mpr ⟨ha, by simp⟩)

theorem Remote.Kept.noOverlap (h : s.Kept) (pid : Nat) : NoOverlap s pid := by
  have hsep := (h.sound.packed pid).separate
  have hpool : ∀ slot ap, s.arenas slot = some ap → ap.pid = pid → poolOf s.arenas pid = ap.pool := by
    rintro slot ap hslot rfl
    rw [poolOf, arenaFind_eq h.sound.wf.unique hslot]
  refine ⟨?_, h.sizes, ?_, ?_, ?_, ?_⟩
  · exact (List.pairwise_append.mp hsep).1
  · rintro a ha rfl
    exact (h.sound.packed a.pid).inside _ (List.mem_append_left _ (mem_liveOf ha))
  · exact fun slot ap hslot _ => (h.sound.wf.aligned slot ap hslot).used
  · intro slot ap hslot hpid
    have := (List.pairwise_append.mp hsep).2.1
    rw [hpool slot ap hslot hpid, ArenaPid.pool] at this
    exact (List.pairwise_append.mp this).1
  · rintro slot ap hslot hpid b hb a ha rfl
    refine ((List.pairwise_append.mp hsep).2.2 _ (mem_liveOf ha) _ ?_).symm
    rw [hpool slot ap hslot hpid, ArenaPid.pool]
    exact List.mem_append_left _ (List.mem_map_of_mem hb)

/-- **The arena never hands out overlapping memory**, in any run, also when more processes than
arenas are in use. -/
theorem arena_never_overlaps {ops : List RemoteOp} (hok : Along remoteStep OkOp Remote.start ops) (pid : Nat) :
    NoOverlap (ops.foldl remoteStep Remote.start) pid :=
  (Remote.Kept.run hok).noOverlap pid

/-- A plain allocation of 100 bytes, for which the system has memory at 16 MiB. -/
def plainAlloc (pid : Nat) : RemoteOp := .alloc pid 100 0x4000 ⟨[.done 0x1000000], true⟩

/-- Five processes, so that the arena of the first is lost; then its block is given back. -/
theorem arena_never_overlaps_five :
    Along remoteStep OkOp Remote.start
        [plainAlloc 1, plainAlloc 2, plainAlloc 3, plainAlloc 4, plainAlloc 5, .free 1 0x1000000 100 ⟨true, true⟩] ∧
      NoOverlap ([plainAlloc 1, plainAlloc 2, plainAlloc 3, plainAlloc 4, plainAlloc 5,
        .free 1 0x1000000 100 ⟨true, true⟩].foldl remoteStep Remote.start) 1 := by
  have hok : Along remoteStep OkOp Remote.start
      [plainAlloc 1, plainAlloc 2, plainAlloc 3, plainAlloc 4, plainAlloc 5, .free 1 0x1000000 100 ⟨true, true⟩] := by
    refine ⟨⟨by decide, fun _ _ => rfl, by decide⟩, ⟨by decide, fun _ _ => rfl, by decide⟩,
      ⟨by decide, fun _ _ => rfl, by decide⟩, ⟨by decide, fun _ _ => rfl, by decide⟩,
      ⟨by decide, fun _ _ => rfl, by decide⟩, ?_, trivial⟩
    exact ⟨⟨1, 0x1000000, 100, 0x4000⟩, by decide, rfl, rfl, rfl⟩
  exact ⟨hok, arena_never_overlaps hok 1⟩

end Ps5Debugger
