import Ps5Debugger.Arena

/-!
# What an allocation does to the ranges of a process

For each process, the ranges that matter are its live allocations, the blocks on its free list and
the unused ends of its segments: these must not meet, and must be mapped (`Remote.Sound`). An
allocation takes the front off one of the ranges, or gets a new one from the operating system, so it
keeps them so; a process whose arena is taken over only loses ranges.
-/

namespace Ps5Debugger

open Lib

/-! ## Sizes -/

theorem arenaRound_units (n : Nat) : ∃ k, arenaRound n = k * arenaAlign :=
  ⟨_, andNot_low (n := 14) (Nat.mod_lt _ (by decide)) (by decide)⟩

theorem arenaRound_eq {n : Nat} (h : n ≤ 2 ^ 32) : arenaRound n = (n + 0x3FFF) / 0x4000 * 0x4000 := by
  have hlt : n + 0x3FFF < 2 ^ 64 := by omega
  rw [arenaRound, show arenaAlign - 1 = 0x3FFF from rfl, u64_of_lt hlt]
  exact andNot_low (n := 14) hlt (by omega)

/-- A block is a positive number of units. -/
theorem blockSize_eq {length : Nat} (h : length < 2 ^ 32) :
    ∃ k, blockSize length = (k + 1) * arenaAlign ∧ blockSize length ≤ 2 ^ 32 := by
  rw [blockSize]
  split
  · refine ⟨0, ?_, ?_⟩ <;> rw [arenaRound_eq (by decide)] <;> decide
  · next hne =>
    rw [arenaRound_eq (by omega)]
    refine ⟨(length + 0x3FFF) / 0x4000 - 1, ?_, by omega⟩
    rw [Nat.sub_add_cancel (by omega)]
    rfl

theorem blockSize_of_pos {length : Nat} (h : length ≠ 0) : blockSize length = arenaRound length := by
  rw [blockSize, if_neg h]

/-! ## The pool of an arena -/

def ArenaBlk.range (b : ArenaBlk) : Range := ⟨b.addr, b.size⟩

/-- The unused end of a segment. -/
def ArenaSeg.tail (s : ArenaSeg) : Range := ⟨s.base + s.used, s.size - s.used⟩

/-- What an arena can still hand out. -/
def ArenaPid.pool (ap : ArenaPid) : List Range := ap.freelist.map ArenaBlk.range ++ ap.segs.map ArenaSeg.tail

/-- Everything in an arena is counted in units. -/
structure ArenaPid.Aligned (ap : ArenaPid) : Prop where
  block : ∀ b ∈ ap.freelist, ∃ k, b.size = k * arenaAlign
  used : ∀ s ∈ ap.segs, s.used ≤ s.size
  seg : ∀ s ∈ ap.segs, ∃ k, s.size - s.used = k * arenaAlign

/-- How much the ranges hold together. -/
def totalSize (l : List Range) : Nat := (l.map Range.size).sum

theorem totalSize_cons (r : Range) (l : List Range) : totalSize (r :: l) = r.size + totalSize l := by
  simp [totalSize]

theorem totalSize_append (l l' : List Range) : totalSize (l ++ l') = totalSize l + totalSize l' := by
  simp [totalSize]

/-- Whole units less whole units are whole units. -/
theorem exists_units_left {units k size : Nat} (hk : size = k * arenaAlign)
    (hfit : size ≥ (units + 1) * arenaAlign) : ∃ j, size = (units + 1) * arenaAlign + j * arenaAlign := by
  rw [hk] at hfit ⊢
  have hle := Nat.le_of_mul_le_mul_right hfit (by decide)
  refine ⟨k - (units + 1), ?_⟩
  rw [← Nat.add_mul, Nat.add_sub_cancel' hle]

/-- Taking from the free list takes the front off one of its blocks. -/
theorem packed_takeFree {units : Nat} {addr : Nat} : ∀ {l l' : List ArenaBlk},
    (∀ b ∈ l, ∃ k, b.size = k * arenaAlign) →
    takeFree ((units + 1) * arenaAlign) l = some (addr, l') →
      (∀ b ∈ l', ∃ k, b.size = k * arenaAlign) ∧
        totalSize (l.map ArenaBlk.range) = (units + 1) * arenaAlign + totalSize (l'.map ArenaBlk.range) ∧
        ∀ mapped rest, Packed mapped (l.map ArenaBlk.range ++ rest) ↔
          Packed mapped (⟨addr, (units + 1) * arenaAlign⟩ :: (l'.map ArenaBlk.range ++ rest))
  | [], _, _, h => by cases h
  | b :: bs, l', halign, h => by
    obtain ⟨k, hk⟩ := halign b List.mem_cons_self
    have hbs : ∀ c ∈ bs, ∃ k, c.size = k * arenaAlign :=
      fun c hc => halign c (List.mem_cons_of_mem b hc)
    rw [takeFree] at h
    split at h
    · next hfit =>
      obtain ⟨j, hsize⟩ := exists_units_left hk hfit
      split at h
      · -- the block is cut
        next hcut =>
        obtain ⟨rfl, rfl⟩ := Prod.mk.inj (Option.some.inj h)
        refine ⟨fun c hc => ?_, ?_, fun mapped rest => ?_⟩
        · rcases List.mem_cons.mp hc with rfl | hc
          · exact ⟨j, by dsimp only; omega⟩
          · exact hbs c hc
        · simp only [List.map_cons, totalSize_cons, ArenaBlk.range]
          omega
        · have hrest : b.size - (units + 1) * arenaAlign = j * arenaAlign := by omega
          rw [List.map_cons, List.cons_append, ArenaBlk.range, hsize, packed_split, Nat.add_sub_cancel_left]
          rfl
      · -- the block is used up: what is left of it would be less than a unit
        next hwhole =>
        obtain ⟨rfl, rfl⟩ := Prod.mk.inj (Option.some.inj h)
        have hj : j = 0 := by
          by_contra hj
          have := Nat.mul_le_mul_right arenaAlign (Nat.pos_of_ne_zero hj)
          omega
        rw [hj, Nat.zero_mul, Nat.add_zero] at hsize
        refine ⟨hbs, ?_, fun mapped rest => ?_⟩
        · rw [List.map_cons, totalSize_cons, ArenaBlk.range, hsize]
        · rw [List.map_cons, List.cons_append, ArenaBlk.range, hsize]
    · obtain ⟨⟨addr', bs'⟩, hr, hl⟩ := Option.map_eq_some_iff.mp h
      obtain ⟨rfl, rfl⟩ := Prod.mk.inj hl
      obtain ⟨halign', htotal, hpacked⟩ := packed_takeFree hbs hr
      refine ⟨fun c hc => ?_, ?_, fun mapped rest => ?_⟩
      · rcases List.mem_cons.mp hc with rfl | hc
        · exact ⟨k, hk⟩
        · exact halign' c hc
      · rw [List.map_cons, List.map_cons, totalSize_cons, totalSize_cons, htotal]
        exact Nat.add_left_comm _ _ _
      · have hswap := hpacked mapped (b.range :: rest)
        rw [packed_perm List.perm_middle, packed_perm (List.Perm.cons _ List.perm_middle)] at hswap
        rw [List.map_cons, List.cons_append, hswap, List.map_cons, List.cons_append]

/-- Taking from the segments takes the front off an unused end. -/
theorem packed_takeSeg {units : Nat} {addr : Nat} : ∀ {l l' : List ArenaSeg},
    (∀ s ∈ l, s.used ≤ s.size) → (∀ s ∈ l, ∃ k, s.size - s.used = k * arenaAlign) →
    takeSeg ((units + 1) * arenaAlign) l = some (addr, l') →
      (∀ s ∈ l', s.used ≤ s.size) ∧ (∀ s ∈ l', ∃ k, s.size - s.used = k * arenaAlign) ∧
        totalSize (l.map ArenaSeg.tail) = (units + 1) * arenaAlign + totalSize (l'.map ArenaSeg.tail) ∧
        ∀ mapped rest, Packed mapped (rest ++ l.map ArenaSeg.tail) ↔
          Packed mapped (⟨addr, (units + 1) * arenaAlign⟩ :: (rest ++ l'.map ArenaSeg.tail))
  | [], _, _, _, h => by cases h
  | s :: ss, l', hused, halign, h => by
    have hss : ∀ t ∈ ss, t.used ≤ t.size := fun t ht => hused t (List.mem_cons_of_mem s ht)
    have hss' : ∀ t ∈ ss, ∃ k, t.size - t.used = k * arenaAlign :=
      fun t ht => halign t (List.mem_cons_of_mem s ht)
    have hle := hused s List.mem_cons_self
    obtain ⟨k, hk⟩ := halign s List.mem_cons_self
    rw [takeSeg] at h
    split at h
    · next hfit =>
      obtain ⟨rfl, rfl⟩ := Prod.mk.inj (Option.some.inj h)
      obtain ⟨j, hk⟩ := exists_units_left hk hfit
      refine ⟨fun t ht => ?_, fun t ht => ?_, ?_, fun mapped rest => ?_⟩
      · rcases List.mem_cons.mp ht with rfl | ht
        · dsimp only
          omega
        · exact hss t ht
      · rcases List.mem_cons.mp ht with rfl | ht
        · exact ⟨j, by dsimp only; omega⟩
        · exact hss' t ht
      · simp only [List.map_cons, totalSize_cons, ArenaSeg.tail]
        omega
      · have hrest : s.size - (s.used + (units + 1) * arenaAlign) = j * arenaAlign := by omega
        rw [List.map_cons, packed_perm List.perm_middle, ArenaSeg.tail, hk, packed_split, List.map_cons,
          packed_perm (List.Perm.cons _ List.perm_middle.symm), ArenaSeg.tail]
        dsimp only
        rw [hrest, Nat.add_assoc]
    · obtain ⟨⟨addr', ss'⟩, hr, hl⟩ := Option.map_eq_some_iff.mp h
      obtain ⟨rfl, rfl⟩ := Prod.mk.inj hl
      obtain ⟨hused', halign', htotal, hpacked⟩ := packed_takeSeg hss hss' hr
      refine ⟨fun t ht => ?_, fun t ht => ?_, ?_, fun mapped rest => ?_⟩
      · rcases List.mem_cons.mp ht with rfl | ht
        · exact hle
        · exact hused' t ht
      · rcases List.mem_cons.mp ht with rfl | ht
        · exact ⟨k, hk⟩
        · exact halign' t ht
      · rw [List.map_cons, List.map_cons, totalSize_cons, totalSize_cons, htotal]
        exact Nat.add_left_comm _ _ _
      · have hswap := hpacked mapped (rest ++ [s.tail])
        rw [List.append_assoc, List.append_assoc] at hswap
        exact hswap

/-! ## The table of arenas -/

variable {g : Arenas} {pid q : Nat} {slot : Fin 4} {ap : ArenaPid}

/-- A process has one arena. -/
def UniqueArenas (g : Arenas) : Prop :=
  ∀ i j a b, g i = some a → g j = some b → a.pid = b.pid → i = j

theorem arenaFind_some (h : arenaFind g pid = some (slot, ap)) : g slot = some ap ∧ ap.pid = pid := by
  rw [arenaFind, List.findSome?_eq_some_iff] at h
  obtain ⟨_, i, _, -, h, -⟩ := h
  split at h
  · cases h
  · next hi =>
    split at h
    · next hpid =>
      cases h
      exact ⟨hi, hpid⟩
    · cases h

theorem arenaFind_none (h : arenaFind g pid = none) (hg : g slot = some ap) : ap.pid ≠ pid := by
  rw [arenaFind, List.findSome?_eq_none_iff] at h
  have hslot := h slot (List.mem_finRange slot)
  rw [hg] at hslot
  intro hpid
  simp [hpid] at hslot

theorem arenaFind_eq (hu : UniqueArenas g) (hg : g slot = some ap) : arenaFind g ap.pid = some (slot, ap) := by
  cases h : arenaFind g ap.pid with
  | none => exact absurd rfl (arenaFind_none h hg)
  | some r =>
    obtain ⟨i, b⟩ := r
    obtain ⟨hi, hpid⟩ := arenaFind_some h
    obtain rfl := hu i slot b ap hi hg hpid
    rw [hg] at hi
    obtain rfl := Option.some.inj hi
    rfl

theorem arenaGet_some (h : arenaFind g pid = some (slot, ap)) : arenaGet g pid = (slot, ap) := by
  rw [arenaGet, h]

/-- What `arena_get` gives is an arena of the process, and there is no other. -/
theorem arenaGet_spec (hu : UniqueArenas g) (pid : Nat) :
    (arenaGet g pid).2.pid = pid ∧ ∀ j b, g j = some b → b.pid = pid → j = (arenaGet g pid).1 := by
  cases h : arenaFind g pid with
  | some r =>
    obtain ⟨slot, ap⟩ := r
    obtain ⟨hslot, hpid⟩ := arenaFind_some h
    rw [arenaGet_some h]
    exact ⟨hpid, fun j b hj hb => hu j slot b ap hj hslot (hb.trans hpid.symm)⟩
  | none =>
    rw [arenaGet, h]
    exact ⟨rfl, fun j b hj hb => absurd hb (arenaFind_none h hj)⟩

/-- Writing an arena of the process back to its slot. -/
theorem UniqueArenas.update (hu : UniqueArenas g) (hap : ap.pid = pid) :
    UniqueArenas (Function.update g (arenaGet g pid).1 (some ap)) := by
  obtain ⟨-, honly⟩ := arenaGet_spec hu pid
  intro i j a b ha hb hab
  by_cases hi : i = (arenaGet g pid).1
  · by_cases hj : j = (arenaGet g pid).1
    · rw [hi, hj]
    · rw [hi, Function.update_self] at ha
      rw [Function.update_of_ne hj] at hb
      obtain rfl := Option.some.inj ha
      rw [hi]
      exact (honly j b hb (hab.symm.trans hap)).symm
  · rw [Function.update_of_ne hi] at ha
    by_cases hj : j = (arenaGet g pid).1
    · rw [hj, Function.update_self] at hb
      obtain rfl := Option.some.inj hb
      rw [hj]
      exact honly i a ha (hab.trans hap)
    · rw [Function.update_of_ne hj] at hb
      exact hu i j a b ha hb hab

/-- The pool of a process, empty without an arena. -/
def poolOf (g : Arenas) (pid : Nat) : List Range :=
  match arenaFind g pid with
  | none => []
  | some (_, ap) => ap.pool

theorem poolOf_arenaGet (g : Arenas) (pid : Nat) : poolOf g pid = (arenaGet g pid).2.pool := by
  rw [poolOf, arenaGet]
  cases arenaFind g pid with
  | none => rfl
  | some r => rfl

theorem poolOf_update (hu : UniqueArenas g) (hap : ap.pid = pid) :
    poolOf (Function.update g (arenaGet g pid).1 (some ap)) pid = ap.pool := by
  have hfind := arenaFind_eq (hu.update hap) (Function.update_self (arenaGet g pid).1 (some ap) g)
  rw [hap] at hfind
  rw [poolOf, hfind]

/-- Another process keeps its pool, or loses it. -/
theorem poolOf_update_ne (hu : UniqueArenas g) (hap : ap.pid = pid) (hq : q ≠ pid) :
    (poolOf (Function.update g (arenaGet g pid).1 (some ap)) q).Sublist (poolOf g q) := by
  rw [poolOf]
  split
  · exact List.nil_sublist _
  · next slot b h =>
    obtain ⟨hslot, hb⟩ := arenaFind_some h
    have hne : slot ≠ (arenaGet g pid).1 := by
      rintro rfl
      rw [Function.update_self] at hslot
      obtain rfl := Option.some.inj hslot
      exact hq (hb.symm.trans hap)
    rw [Function.update_of_ne hne] at hslot
    rw [poolOf, ← hb, arenaFind_eq hu hslot]

/-! ## The operating system -/

/-- The system maps memory where nothing was mapped. -/
def FreshTries (size : Nat) : (Nat → Bool) → List MmapTry → Prop
  | _, [] => True
  | mapped, .refused :: tries => FreshTries size mapped tries
  | mapped, .leaked base :: tries =>
    (∀ x, (⟨base, size⟩ : Range).Has x → mapped x = false) ∧
      FreshTries size (mapRange mapped ⟨base, size⟩) tries
  | mapped, .done base :: _ => ∀ x, (⟨base, size⟩ : Range).Has x → mapped x = false

/-- What the system leaves behind: more mapped memory, and the range it gave. -/
theorem packed_doRealAllocLoop {size : Nat} {tries : List MmapTry} : ∀ {mapped mapped' : Nat → Bool}
    {l : List Range} {r : Option Nat}, FreshTries size mapped tries → Packed mapped l →
      doRealAllocLoop size mapped tries = (r, mapped') →
        Packed mapped' l ∧ ∀ base, r = some base → Packed mapped' (⟨base, size⟩ :: l) := by
  induction tries with
  | nil =>
    intro mapped mapped' l r _ h heq
    obtain ⟨rfl, rfl⟩ := Prod.mk.inj heq
    exact ⟨h, fun base hb => by cases hb⟩
  | cons t tries ih =>
    intro mapped mapped' l r hfresh h heq
    cases t with
    | refused => exact ih hfresh h heq
    | leaked base => exact ih hfresh.2 (h.map_fresh hfresh.1).of_cons heq
    | done base =>
      obtain ⟨rfl, rfl⟩ := Prod.mk.inj heq
      have hnew := h.map_fresh hfresh
      refine ⟨hnew.of_cons, fun b hb => ?_⟩
      obtain rfl := Option.some.inj hb
      exact hnew

/-! ## Sound states -/

def LiveAlloc.range (a : LiveAlloc) : Range := ⟨a.addr, a.size⟩

/-- The live allocations of a process. -/
def liveOf (live : List LiveAlloc) (pid : Nat) : List Range :=
  (live.filter fun a => a.pid == pid).map LiveAlloc.range

/-- The ranges of a process: what is handed out and what can be. -/
def Remote.parts (s : Remote) (pid : Nat) : List Range := liveOf s.live pid ++ poolOf s.arenas pid

/-- What the arenas rely on. -/
structure WellFormed (g : Arenas) : Prop where
  unique : UniqueArenas g
  aligned : ∀ i ap, g i = some ap → ap.Aligned

/-- The ranges of every process do not meet, and are mapped. -/
structure Remote.Sound (s : Remote) : Prop where
  wf : WellFormed s.arenas
  packed : ∀ pid, Packed (s.mapped pid) (s.parts pid)

theorem liveOf_cons_self (a : LiveAlloc) (live : List LiveAlloc) :
    liveOf (a :: live) a.pid = a.range :: liveOf live a.pid := by
  simp [liveOf]

theorem liveOf_cons_ne {a : LiveAlloc} (live : List LiveAlloc) (h : a.pid ≠ q) :
    liveOf (a :: live) q = liveOf live q := by
  simp [liveOf, h]

theorem arenaGet_aligned (h : WellFormed g) (pid : Nat) : (arenaGet g pid).2.Aligned := by
  cases hfind : arenaFind g pid with
  | some r =>
    obtain ⟨slot, ap⟩ := r
    rw [arenaGet_some hfind]
    exact h.aligned slot ap (arenaFind_some hfind).1
  | none =>
    rw [arenaGet, hfind]
    exact ⟨by simp, by simp, by simp⟩

theorem WellFormed.update (h : WellFormed g) (hap : ap.pid = pid) (halign : ap.Aligned) :
    WellFormed (Function.update g (arenaGet g pid).1 (some ap)) := by
  refine ⟨h.unique.update hap, fun i b hb => ?_⟩
  by_cases hi : i = (arenaGet g pid).1
  · rw [hi, Function.update_self] at hb
    obtain rfl := Option.some.inj hb
    exact halign
  · rw [Function.update_of_ne hi] at hb
    exact h.aligned i b hb

theorem segmentSize_eq {length : Nat} (h : length < 2 ^ 32) :
    arenaRound (segmentSize length) = segmentSize length ∧ blockSize length ≤ segmentSize length ∧
      ∃ k, segmentSize length - blockSize length = k * arenaAlign := by
  obtain ⟨k, hk, hle⟩ := blockSize_eq h
  have halign : arenaAlign = 0x4000 := rfl
  have hchunk : arenaChunk = 1024 * 0x4000 := rfl
  rw [halign] at hk
  rw [segmentSize]
  split
  · rw [arenaRound_eq hle, halign]
    exact ⟨by omega, le_refl _, 0, by omega⟩
  · have hround : arenaRound arenaChunk = arenaChunk := by rw [arenaRound_eq (by decide)]; decide
    rw [hround, halign]
    exact ⟨rfl, by omega, 1024 - (k + 1), by omega⟩

/-- An arena without what it hands out: the front of one of its ranges. -/
structure Carved (ap ap' : ArenaPid) (r : Range) : Prop where
  pid : ap'.pid = ap.pid
  aligned : ap'.Aligned
  total : totalSize ap.pool = r.size + totalSize ap'.pool
  packed : ∀ mapped rest, Packed mapped (ap.pool ++ rest) ↔ Packed mapped (r :: (ap'.pool ++ rest))

theorem Carved.of_takeFree {ap : ArenaPid} (hap : ap.Aligned) {units addr : Nat} {l' : List ArenaBlk}
    (h : takeFree ((units + 1) * arenaAlign) ap.freelist = some (addr, l')) :
    Carved ap { ap with freelist := l' } ⟨addr, (units + 1) * arenaAlign⟩ := by
  obtain ⟨halign, htotal, hpacked⟩ := packed_takeFree hap.block h
  refine ⟨rfl, ⟨halign, hap.used, hap.seg⟩, ?_, fun mapped rest => ?_⟩
  · rw [ArenaPid.pool, ArenaPid.pool, totalSize_append, totalSize_append, htotal, Nat.add_assoc]
  · rw [ArenaPid.pool, List.append_assoc, hpacked, ArenaPid.pool, List.append_assoc]

theorem Carved.of_takeSeg {ap : ArenaPid} (hap : ap.Aligned) {units addr : Nat} {l' : List ArenaSeg}
    (h : takeSeg ((units + 1) * arenaAlign) ap.segs = some (addr, l')) :
    Carved ap { ap with segs := l' } ⟨addr, (units + 1) * arenaAlign⟩ := by
  obtain ⟨hused, halign, htotal, hpacked⟩ := packed_takeSeg hap.used hap.seg h
  refine ⟨rfl, ⟨hap.block, hused, halign⟩, ?_, fun mapped rest => ?_⟩
  · rw [ArenaPid.pool, ArenaPid.pool, totalSize_append, totalSize_append, htotal, Nat.add_left_comm]
  · rw [packed_perm List.perm_append_comm, ArenaPid.pool, ← List.append_assoc, hpacked, List.append_assoc,
      packed_perm (List.Perm.cons _ List.perm_append_comm)]
    rfl

/-- An allocation is served from the pool, or goes to the operating system. -/
theorem arenaAlloc_cases (h : WellFormed g) (mapped : Nat → Bool) (pid : Nat) {length : Nat}
    (hlen : length < 2 ^ 32) (env : AllocEnv) :
    (∃ addr ap', Carved (arenaGet g pid).2 ap' ⟨addr, blockSize length⟩ ∧
      arenaAlloc g mapped pid length env =
        (some addr, Function.update g (arenaGet g pid).1 (some ap'), mapped)) ∨
    (takeFree (blockSize length) (arenaGet g pid).2.freelist = none ∧
      takeSeg (blockSize length) (arenaGet g pid).2.segs = none ∧
      ∃ ap', ap'.pid = (arenaGet g pid).2.pid ∧
        arenaAlloc g mapped pid length env =
          ((doRealAlloc mapped (segmentSize length) env.tries).1,
            Function.update g (arenaGet g pid).1 (some ap'),
            (doRealAlloc mapped (segmentSize length) env.tries).2) ∧
        (ap' = (arenaGet g pid).2 ∨ ∃ base, (doRealAlloc mapped (segmentSize length) env.tries).1 = some base ∧
          ap' = { (arenaGet g pid).2 with
            segs := ⟨base, segmentSize length, blockSize length⟩ :: (arenaGet g pid).2.segs })) := by
  have hap := arenaGet_aligned h pid
  obtain ⟨k, hk, -⟩ := blockSize_eq hlen
  rw [arenaAlloc]
  cases hfree : takeFree (blockSize length) (arenaGet g pid).2.freelist with
  | some r =>
    obtain ⟨addr, l'⟩ := r
    refine .inl ⟨addr, { (arenaGet g pid).2 with freelist := l' }, ?_, rfl⟩
    rw [hk] at hfree ⊢
    exact .of_takeFree hap hfree
  | none =>
    dsimp only
    cases hseg : takeSeg (blockSize length) (arenaGet g pid).2.segs with
    | some r =>
      obtain ⟨addr, l'⟩ := r
      refine .inl ⟨addr, { (arenaGet g pid).2 with segs := l' }, ?_, rfl⟩
      rw [hk] at hseg ⊢
      exact .of_takeSeg hap hseg
    | none =>
      refine .inr ⟨rfl, rfl, ?_⟩
      dsimp only
      cases hreal : doRealAlloc mapped (segmentSize length) env.tries with
      | mk r mapped' =>
        cases r with
        | none => exact ⟨_, rfl, rfl, .inl rfl⟩
        | some base =>
          cases env.mallocOk with
          | false => exact ⟨(arenaGet g pid).2, rfl, rfl, .inl rfl⟩
          | true =>
            exact ⟨{ (arenaGet g pid).2 with
              segs := ⟨base, segmentSize length, blockSize length⟩ :: (arenaGet g pid).2.segs },
              rfl, rfl, .inr ⟨base, rfl, rfl⟩⟩

/-- A new segment is the block and the rest. -/
theorem packed_segment {mapped : Nat → Bool} {l : List Range} {base size segSize : Nat} (hle : size ≤ segSize) :
    Packed mapped (⟨base, segSize⟩ :: l) ↔
      Packed mapped (⟨base, size⟩ :: ⟨base + size, segSize - size⟩ :: l) := by
  rw [← packed_split, Nat.add_sub_cancel' hle]

/-- **One allocation from the arena.** The new block and what is left of the pool take the place of
the pool; other processes keep theirs or lose it. -/
theorem arenaAlloc_spec (h : WellFormed g) {mapped : Nat → Bool} {length : Nat} (hlen : length < 2 ^ 32)
    {env : AllocEnv} (hfresh : FreshTries (segmentSize length) mapped (env.tries.take 6))
    {live : List Range} (hp : Packed mapped (live ++ poolOf g pid)) :
    WellFormed (arenaAlloc g mapped pid length env).2.1 ∧
      Packed (arenaAlloc g mapped pid length env).2.2
        (((arenaAlloc g mapped pid length env).1.map fun addr => ⟨addr, blockSize length⟩).toList ++
          (live ++ poolOf (arenaAlloc g mapped pid length env).2.1 pid)) ∧
      ∀ q ≠ pid, (poolOf (arenaAlloc g mapped pid length env).2.1 q).Sublist (poolOf g q) := by
  obtain ⟨hpid, -⟩ := arenaGet_spec h.unique pid
  rw [poolOf_arenaGet, packed_perm List.perm_append_comm] at hp
  obtain ⟨addr, ap', hcarved, heq⟩ | ⟨-, -, ap', hap', heq, hnew⟩ := arenaAlloc_cases h mapped pid hlen env
  · have hap := hcarved.pid.trans hpid
    rw [heq]
    refine ⟨h.update hap hcarved.aligned, ?_, fun q hq => poolOf_update_ne h.unique hap hq⟩
    dsimp only
    rw [poolOf_update h.unique hap]
    exact ((hcarved.packed mapped live).mp hp).perm (List.Perm.cons _ List.perm_append_comm)
  · have hap := hap'.trans hpid
    have halign := arenaGet_aligned h pid
    obtain ⟨hround, hle, k, hk⟩ := segmentSize_eq hlen
    rw [heq]
    cases hreal : doRealAlloc mapped (segmentSize length) env.tries with
    | mk r mapped' =>
    rw [← hround] at hfresh
    obtain ⟨hold, hgiven⟩ := packed_doRealAllocLoop hfresh hp hreal
    rw [hround] at hgiven
    rw [hreal] at hnew
    dsimp only
    have hothers : ∀ q ≠ pid, (poolOf (Function.update g (arenaGet g pid).1 (some ap')) q).Sublist (poolOf g q) :=
      fun q hq => poolOf_update_ne h.unique hap hq
    rw [poolOf_update h.unique hap]
    rcases hnew with rfl | ⟨base, rfl, rfl⟩
    · refine ⟨h.update hap halign, ?_, hothers⟩
      cases r with
      | none => exact hold.perm List.perm_append_comm
      | some base =>
        -- the rest of the new memory is forgotten
        have hsplit := (packed_segment hle).mp (hgiven base rfl)
        have hdrop := hsplit.sublist (List.Sublist.cons_cons _ (List.sublist_cons_self _ _))
        exact hdrop.perm (List.Perm.cons _ List.perm_append_comm)
    · refine ⟨h.update hap ⟨halign.block, ?_, ?_⟩, ?_, hothers⟩
      · exact fun s hs => (List.mem_cons.mp hs).elim (fun h => h ▸ hle) (halign.used s)
      · exact fun s hs => (List.mem_cons.mp hs).elim (fun h => h ▸ ⟨k, hk⟩) (halign.seg s)
      · have hsplit := (packed_segment hle).mp (hgiven base rfl)
        refine hsplit.perm (List.Perm.cons _ ?_)
        have hpool : ({ (arenaGet g pid).2 with
            segs := ⟨base, segmentSize length, blockSize length⟩ :: (arenaGet g pid).2.segs } : ArenaPid).pool =
            (arenaGet g pid).2.freelist.map ArenaBlk.range ++
              ⟨base + blockSize length, segmentSize length - blockSize length⟩ ::
                (arenaGet g pid).2.segs.map ArenaSeg.tail := rfl
        change List.Perm _ (live ++ ArenaPid.pool _)
        rw [hpool]
        refine List.Perm.trans ?_ List.perm_append_comm
        exact List.Perm.append_right live List.perm_middle.symm

end Ps5Debugger
