import Ps5Debugger.ArenaRuns

/-!
# Freeing what is not live

`arena_free` looks at the first address only: if a segment has it, the range goes to the free list as
the caller gave it. It may then be there twice, or reach into live allocations or out of the segment,
and a later allocation hands it out. Otherwise the range is unmapped, and it may reach into the ranges
of the arena as well.

`NeverCorrupts` says that no allocations from a state on go wrong. An arena can always be used up, one
unit after the other, so the state after a free never goes wrong exactly when its ranges are still
apart and mapped; that is a condition on the range that was freed (`HarmlessFree`).
-/

namespace Ps5Debugger

open Lib

variable {s : Remote} {pid addr length : Nat}

/-! ## Sequences of allocations -/

structure AllocCall where
  pid : Nat
  length : Nat
  hint : Nat
  env : AllocEnv

def allocStep (s : Remote) (c : AllocCall) : Remote := (procRemoteAlloc s c.pid c.length c.hint c.env).2

def OkAlloc (s : Remote) (c : AllocCall) : Prop :=
  c.length < 2 ^ 32 ∧ FreshAlloc s c.pid c.length c.hint c.env

/-- The block lies in mapped memory and meets no live allocation. -/
def GoodAlloc (s : Remote) (c : AllocCall) : Prop :=
  ∀ b, (procRemoteAlloc s c.pid c.length c.hint c.env).1 = some b →
    Inside ((allocStep s c).mapped c.pid) b.range ∧
      ∀ a ∈ s.live, a.pid = c.pid → Separate b.range a.range

/-- No sequence of allocations returns a block that overlaps a live allocation or is not mapped. -/
def NeverCorrupts (s : Remote) : Prop :=
  ∀ calls, Along allocStep OkAlloc s calls → Along allocStep GoodAlloc s calls

theorem Remote.Sound.goodAlloc {c : AllocCall} (h : (allocStep s c).Sound) (hok : OkAlloc s c) :
    GoodAlloc s c := by
  intro b hb
  obtain ⟨hpid, -, -⟩ := procRemoteAlloc_block hok.2 hb
  have hpacked := h.packed c.pid
  rw [Remote.parts, allocStep, procRemoteAlloc_live, hb, ← hpid] at hpacked
  change Packed _ (liveOf (b :: s.live) b.pid ++ _) at hpacked
  rw [liveOf_cons_self, List.cons_append] at hpacked
  obtain ⟨hin, hsep, -⟩ := packed_cons.mp hpacked
  rw [allocStep, ← hpid]
  refine ⟨hin, fun a ha hapid => hsep _ (List.mem_append_left _ ?_)⟩
  rw [← hapid]
  exact mem_liveOf ha

theorem Remote.Sound.neverCorrupts (h : s.Sound) : NeverCorrupts s := by
  intro calls hok
  refine Along.of_invariant Remote.Sound (fun s c h hok => ?_) calls h hok
  have hnext : (allocStep s c).Sound := h.alloc hok.1 hok.2
  exact ⟨hnext, hnext.goodAlloc hok⟩

/-! ## Using up an arena -/

theorem takeFree_none {size : Nat} : ∀ {l : List ArenaBlk}, takeFree size l = none → ∀ b ∈ l, b.size < size
  | [], _, b, hb => by cases hb
  | c :: cs, h, b, hb => by
    rw [takeFree] at h
    split at h
    · split at h <;> cases h
    · next hfit =>
      rcases List.mem_cons.mp hb with rfl | hb
      · exact Nat.not_le.mp hfit
      · exact takeFree_none (Option.map_eq_none_iff.mp h) b hb

theorem takeSeg_none {size : Nat} : ∀ {l : List ArenaSeg}, takeSeg size l = none →
    ∀ t ∈ l, t.size - t.used < size
  | [], _, t, ht => by cases ht
  | c :: cs, h, t, ht => by
    rw [takeSeg] at h
    split at h
    · cases h
    · next hfit =>
      rcases List.mem_cons.mp ht with rfl | ht
      · exact Nat.not_le.mp hfit
      · exact takeSeg_none (Option.map_eq_none_iff.mp h) t ht

/-- An arena that cannot give one unit has nothing left. -/
theorem pool_empty {ap : ArenaPid} (h : ap.Aligned) (hfree : takeFree arenaAlign ap.freelist = none)
    (hseg : takeSeg arenaAlign ap.segs = none) : ∀ r ∈ ap.pool, r.size = 0 := by
  have hzero : ∀ n, (∃ k, n = k * arenaAlign) → n < arenaAlign → n = 0 := by
    rintro n ⟨k, rfl⟩ hlt
    rw [arenaAlign] at hlt ⊢
    omega
  intro r hr
  rcases List.mem_append.mp hr with hr | hr
  · obtain ⟨b, hb, rfl⟩ := List.mem_map.mp hr
    exact hzero _ (h.block b hb) (takeFree_none hfree b hb)
  · obtain ⟨t, ht, rfl⟩ := List.mem_map.mp hr
    exact hzero _ (h.seg t ht) (takeSeg_none hseg t ht)

/-- The smallest plain allocation, with no help from the operating system. -/
def unitCall (pid : Nat) : AllocCall := ⟨pid, 0, 0x4000, ⟨[], true⟩⟩

theorem unitCall_ok (s : Remote) (pid : Nat) : OkAlloc s (unitCall pid) := by
  refine ⟨Nat.two_pow_pos 32, trivial, fun _ t ht => ?_⟩
  cases ht

/-- What the smallest allocation does: it takes a unit off the pool, or the pool is used up. -/
theorem procRemoteAlloc_unit (h : WellFormed s.arenas) (hen : s.enabled = true) (pid : Nat) :
    (∃ addr ap', Carved (arenaGet s.arenas pid).2 ap' ⟨addr, arenaAlign⟩ ∧
      procRemoteAlloc s pid 0 0x4000 ⟨[], true⟩ =
        (some ⟨pid, addr, 0, arenaAlign⟩,
          { s with
            arenas := Function.update s.arenas (arenaGet s.arenas pid).1 (some ap')
            live := ⟨pid, addr, 0, arenaAlign⟩ :: s.live })) ∨
    ∀ r ∈ poolOf s.arenas pid, r.size = 0 := by
  have hunit : blockSize 0 = arenaAlign := by decide
  obtain ⟨addr, ap', hcarved, heq⟩ | ⟨hfree, hseg, -⟩ :=
    arenaAlloc_cases h (s.mapped pid) pid (Nat.two_pow_pos 32) ⟨[], true⟩
  · rw [hunit] at hcarved
    refine .inl ⟨addr, ap', hcarved, ?_⟩
    rw [procRemoteAlloc, hen, heq]
    dsimp only
    rw [Function.update_eq_self, hunit]
    rfl
  · rw [hunit] at hfree hseg
    rw [poolOf_arenaGet]
    exact .inr (pool_empty (arenaGet_aligned h pid) hfree hseg)

theorem NeverCorrupts.step {c : AllocCall} (h : NeverCorrupts s) (hok : OkAlloc s c) :
    GoodAlloc s c ∧ NeverCorrupts (allocStep s c) :=
  ⟨(h [c] ⟨hok, trivial⟩).1, fun calls hcalls => (h (c :: calls) ⟨hok, hcalls⟩).2⟩

/-- **Nothing goes wrong only if the ranges are apart.** The induction is on what the arena has left:
a unit comes off one of the ranges with every step, and is live then. -/
theorem NeverCorrupts.packed (n : Nat) : ∀ {s : Remote}, NeverCorrupts s →
    totalSize (poolOf s.arenas pid) ≤ n → WellFormed s.arenas → s.enabled = true →
      Packed (s.mapped pid) (liveOf s.live pid) → Packed (s.mapped pid) (s.parts pid) := by
  induction n using Nat.strong_induction_on with
  | _ n ih =>
    intro s hnever hn hwf hen hlive
    obtain ⟨hgood, hnext⟩ := hnever.step (unitCall_ok s pid)
    obtain ⟨addr, ap', hcarved, heq⟩ | hempty := procRemoteAlloc_unit hwf hen pid
    · have hap : ap'.pid = pid := hcarved.pid.trans (arenaGet_spec hwf.unique pid).1
      have hstep : allocStep s (unitCall pid) = { s with
          arenas := Function.update s.arenas (arenaGet s.arenas pid).1 (some ap')
          live := ⟨pid, addr, 0, arenaAlign⟩ :: s.live } := congrArg Prod.snd heq
      obtain ⟨hin, hsep⟩ := hgood _ (congrArg Prod.fst heq)
      rw [hstep] at hin hnext
      have hlive' : Packed (s.mapped pid) (liveOf (⟨pid, addr, 0, arenaAlign⟩ :: s.live) pid) := by
        rw [liveOf_cons_self ⟨pid, addr, 0, arenaAlign⟩]
        refine packed_cons.mpr ⟨hin, fun r hr => ?_, hlive⟩
        obtain ⟨a, ha, rfl⟩ := List.mem_map.mp hr
        obtain ⟨ha, hapid⟩ := List.mem_filter.mp ha
        exact hsep a ha (beq_iff_eq.mp hapid)
      have hpool := poolOf_update hwf.unique hap
      have hless : totalSize ap'.pool < n := by
        have htotal := hcarved.total
        rw [← poolOf_arenaGet, arenaAlign] at htotal
        dsimp only at htotal
        omega
      have hrest := ih _ hless hnext (by rw [hpool]) (hwf.update hap hcarved.aligned) hen hlive'
      rw [Remote.parts, hpool, liveOf_cons_self ⟨pid, addr, 0, arenaAlign⟩, List.cons_append] at hrest
      rw [Remote.parts, poolOf_arenaGet, packed_perm List.perm_append_comm, hcarved.packed]
      exact hrest.perm (List.Perm.cons _ List.perm_append_comm)
    · exact packed_append_empty hlive hempty

/-! ## Frees of what is not live -/

/-- The free does no harm. A range on the free list must be mapped and meet no range of the process; an
unmapped range must not meet one. -/
def HarmlessFree (s : Remote) (pid addr length : Nat) (env : FreeEnv) : Prop :=
  if owned s pid addr then
    env.mallocOk = false ∨
      Inside (s.mapped pid) ⟨addr, blockSize length⟩ ∧
        ∀ r ∈ s.parts pid, Separate ⟨addr, blockSize length⟩ r
  else
    addr = 0 ∨ env.unmaps = false ∨ ∀ r ∈ s.parts pid, Separate ⟨addr, arenaRound length⟩ r

theorem dropLive_of_not_live (h : ∀ a ∈ s.live, ¬ (a.pid = pid ∧ a.addr = addr ∧ a.length = length)) :
    dropLive s.live pid addr length = s.live := by
  refine List.eraseP_of_forall_not fun a ha hmatch => h a ha ?_
  simp only [Bool.and_eq_true, beq_iff_eq] at hmatch
  exact ⟨hmatch.1.1, hmatch.1.2, hmatch.2⟩

/-- A unit at an address of the caller's choice. -/
def hintedCall (pid base : Nat) : AllocCall := ⟨pid, 0x4000, 0, ⟨[.done base], true⟩⟩

theorem hintedCall_ok {base : Nat} (h : ∀ x, (⟨base, 0x4000⟩ : Range).Has x → s.mapped pid x = false) :
    OkAlloc s (hintedCall pid base) := by
  have hsize : requestSize s 0x4000 0 = 0x4000 := by
    rw [requestSize, show ((0 : Nat) == 0x4000) = false from rfl, Bool.and_false]
    decide
  refine ⟨(by decide : 0x4000 < 2 ^ 32), ?_, fun hzero => ?_⟩
  · change FreshTries (requestSize s 0x4000 0) (s.mapped pid) [.done base]
    rw [hsize]
    exact h
  · exact absurd (hsize.symm.trans hzero) (by decide)

theorem hintedCall_block (s : Remote) (pid base : Nat) :
    (procRemoteAlloc s pid 0x4000 0 ⟨[.done base], true⟩).1 = some ⟨pid, base, 0x4000, 0x4000⟩ := by
  rw [procRemoteAlloc, show ((0 : Nat) == 0x4000) = false from rfl, Bool.and_false]
  rfl

/-- Unmapped memory must not be live: a unit of it can be allocated again. -/
theorem NeverCorrupts.unmapped_apart {mapped : Nat → Bool} (h : NeverCorrupts s)
    (hmapped : s.mapped pid = unmapRange mapped ⟨addr, arenaRound length⟩) {a : LiveAlloc} (ha : a ∈ s.live)
    (hpid : a.pid = pid) : Separate ⟨addr, arenaRound length⟩ a.range := by
  rintro x ⟨hlo, hhi⟩ hx
  obtain ⟨k, hk⟩ := arenaRound_units length
  rw [arenaAlign] at hk
  dsimp only at hlo hhi
  have hok : OkAlloc s (hintedCall pid (addr + (x - addr) / 0x4000 * 0x4000)) := by
    refine hintedCall_ok fun y hy => ?_
    obtain ⟨hylo, hyhi⟩ := hy
    dsimp only at hylo hyhi
    rw [hmapped, unmapRange, Bool.and_eq_false_iff]
    refine .inr ?_
    rw [Bool.not_eq_false', decide_eq_true_eq]
    exact ⟨by dsimp only; omega, by dsimp only; omega⟩
  refine ((h.step hok).1 _ (hintedCall_block s pid _)).2 a ha hpid x ⟨?_, ?_⟩ hx
  · dsimp only [LiveAlloc.range]
    omega
  · dsimp only [LiveAlloc.range]
    omega

/-- One more block on the free list. -/
theorem neverCorrupts_push (h : s.Kept) {g : Arenas} {r : Range} (hwf : WellFormed g)
    (hpool : poolOf g pid = r :: poolOf s.arenas pid)
    (hothers : ∀ q ≠ pid, (poolOf g q).Sublist (poolOf s.arenas q)) :
    NeverCorrupts { s with arenas := g } ↔
      Inside (s.mapped pid) r ∧ ∀ t ∈ s.parts pid, Separate r t := by
  have hpacked := h.sound.packed pid
  have hlive := hpacked.sublist (List.sublist_append_left _ _)
  have hparts : Packed (s.mapped pid) (liveOf s.live pid ++ poolOf g pid) ↔
      Inside (s.mapped pid) r ∧ ∀ t ∈ s.parts pid, Separate r t := by
    rw [hpool, packed_perm List.perm_middle, packed_cons]
    exact ⟨fun h => ⟨h.1, h.2.1⟩, fun h => ⟨h.1, h.2, hpacked⟩⟩
  rw [← hparts]
  constructor
  · intro hnever
    exact hnever.packed _ le_rfl hwf h.enabled hlive
  · intro hnew
    refine Remote.Sound.neverCorrupts ⟨hwf, fun q => ?_⟩
    by_cases hq : q = pid
    · rw [hq]
      exact hnew
    · exact (h.sound.packed q).sublist ((hothers q hq).append_left _)

/-- Less mapped memory. -/
theorem neverCorrupts_unmap (h : s.Kept) (pid addr length : Nat) :
    NeverCorrupts { s with
        mapped := Function.update s.mapped pid (unmapRange (s.mapped pid) ⟨addr, arenaRound length⟩) } ↔
      ∀ r ∈ s.parts pid, Separate ⟨addr, arenaRound length⟩ r := by
  have hpacked := h.sound.packed pid
  have hlive := hpacked.sublist (List.sublist_append_left _ _)
  have hself : ∀ m, Function.update s.mapped pid m pid = m := fun m => Function.update_self pid m s.mapped
  rw [← packed_unmap hpacked]
  constructor
  · intro hnever
    have hapart : ∀ r ∈ liveOf s.live pid, Separate ⟨addr, arenaRound length⟩ r := by
      intro r hr
      obtain ⟨a, ha, rfl⟩ := List.mem_map.mp hr
      obtain ⟨ha, hapid⟩ := List.mem_filter.mp ha
      exact hnever.unmapped_apart (hself _) ha (beq_iff_eq.mp hapid)
    have hparts := hnever.packed _ le_rfl h.sound.wf h.enabled
      (by dsimp only; rw [hself]; exact (packed_unmap hlive).mpr hapart)
    dsimp only at hparts
    rw [hself] at hparts
    exact hparts
  · intro hparts
    refine Remote.Sound.neverCorrupts ⟨h.sound.wf, fun q => ?_⟩
    by_cases hq : q = pid
    · dsimp only
      rw [hq, hself]
      exact hparts
    · dsimp only
      rw [Function.update_of_ne hq]
      exact h.sound.packed q

/-- **When freeing what is not live does no harm.** In every state that a run reaches, no allocations
go wrong after the free exactly if the freed range keeps away from the ranges of the process, and stays
in mapped memory if it goes to the free list. -/
theorem bad_free_harmless_iff {ops : List RemoteOp} (hok : Along remoteStep OkOp Remote.start ops)
    (pid addr length : Nat) (env : FreeEnv)
    (hbad : ∀ a ∈ (ops.foldl remoteStep Remote.start).live,
      ¬ (a.pid = pid ∧ a.addr = addr ∧ a.length = length)) :
    NeverCorrupts (procRemoteFree (ops.foldl remoteStep Remote.start) pid addr length env) ↔
      HarmlessFree (ops.foldl remoteStep Remote.start) pid addr length env := by
  have hkept := Remote.Kept.run hok
  generalize ops.foldl remoteStep Remote.start = s at hbad hkept
  have hsame := dropLive_of_not_live hbad
  rw [HarmlessFree]
  obtain ⟨hown, hmalloc, g, hwf, hpool, hothers, heq⟩ | ⟨hown, hmalloc, heq⟩ | ⟨hown, heq⟩ :=
    procRemoteFree_cases hkept.sound.wf pid addr length env
  · rw [if_pos hown, heq, hsame, neverCorrupts_push hkept hwf hpool hothers, hmalloc]
    simp only [Bool.true_eq_false, false_or]
  · rw [if_pos hown, heq, hsame]
    exact ⟨fun _ => .inl hmalloc, fun _ => hkept.sound.neverCorrupts⟩
  · rw [if_neg (by rw [hown]; decide), heq, hsame, doRealFree]
    by_cases haddr : addr = 0
    · rw [if_pos haddr, Function.update_eq_self]
      exact ⟨fun _ => .inl haddr, fun _ => hkept.sound.neverCorrupts⟩
    rw [if_neg haddr]
    cases env.unmaps with
    | false =>
      rw [if_neg (by decide), Function.update_eq_self]
      exact ⟨fun _ => .inr (.inl rfl), fun _ => hkept.sound.neverCorrupts⟩
    | true =>
      rw [if_pos rfl, neverCorrupts_unmap hkept]
      simp only [haddr, Bool.true_eq_false, false_or]

/-- One block of 100 bytes, given back. -/
def allocThenFree : List RemoteOp :=
  [.alloc 1 100 0x4000 ⟨[.done 0x1000000], true⟩, .free 1 0x1000000 100 ⟨true, true⟩]

theorem allocThenFree_ok : Along remoteStep OkOp Remote.start allocThenFree :=
  ⟨⟨by decide, fun _ _ => rfl, by decide⟩, ⟨⟨1, 0x1000000, 100, 0x4000⟩, by decide, rfl, rfl, rfl⟩, trivial⟩

/-- Freeing a block a second time: two allocations then get the same memory. -/
theorem double_free_corrupts :
    ¬ ∀ (ops : List RemoteOp), Along remoteStep OkOp Remote.start ops →
      ∀ (pid addr length : Nat) (env : FreeEnv),
        (∀ a ∈ (ops.foldl remoteStep Remote.start).live,
          ¬ (a.pid = pid ∧ a.addr = addr ∧ a.length = length)) →
        NeverCorrupts (procRemoteFree (ops.foldl remoteStep Remote.start) pid addr length env) := by
  intro h
  have hnever := h allocThenFree allocThenFree_ok 1 0x1000000 100 ⟨true, true⟩ (by decide)
  obtain ⟨-, hnext⟩ := hnever.step (unitCall_ok _ 1)
  obtain ⟨hgood, -⟩ := hnext.step (unitCall_ok _ 1)
  obtain ⟨-, hsep⟩ := hgood ⟨1, 0x1000000, 0, 0x4000⟩ (by decide)
  exact hsep ⟨1, 0x1000000, 0, 0x4000⟩ (by decide) rfl 0x1000000 (by decide) (by decide)

/-- The same free in another process does no harm. -/
theorem bad_free_harmless_iff_other :
    NeverCorrupts
      (procRemoteFree (allocThenFree.foldl remoteStep Remote.start) 2 0x1000000 100 ⟨true, true⟩) := by
  refine (bad_free_harmless_iff allocThenFree_ok 2 0x1000000 100 ⟨true, true⟩ (by decide)).mpr ?_
  have hnone : (allocThenFree.foldl remoteStep Remote.start).parts 2 = [] := by decide
  rw [HarmlessFree, if_neg (by decide), hnone]
  refine .inr (.inr fun r hr => ?_)
  cases hr

end Ps5Debugger
