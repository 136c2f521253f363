import Ps5Debugger.Lib.Bytes

/-!
# Address spaces

The memory of a process as its kernel sees it. The bytes live in memory objects, an address that is
mapped shows one byte of one object, and two addresses may show the same byte: that is what a second
mapping of a shared object is. A file descriptor names an object that can be mapped.

* `Owns s₀ s lo hi mem` — since `s₀` the process got a range of its own: in `s` the addresses from `lo` to
  `hi` show the bytes `mem`, each address a byte of its own that nothing of `s₀` can see, and everything
  else is as in `s₀`. Mapping and writing inside the range keep it and act on `mem` by `blit`.
* `copyThrough` — bytes written to an object through a mapping elsewhere that is taken away again.
-/

namespace Lib

/-- A byte of a memory object. -/
structure Cell where
  obj : Nat
  off : Nat
deriving DecidableEq

/-- The memory of a process. -/
structure Space where
  /-- what each address shows, if it is mapped -/
  cells : Nat → Option Cell
  /-- the bytes of each object -/
  store : Nat → Buf
  /-- the objects that file descriptors stand for -/
  fds : Nat → Option Nat
  /-- the next object to be made -/
  next : Nat
  /-- nothing is mapped from here on -/
  top : Nat
  obj_lt : ∀ {a : Nat} {c : Cell}, cells a = some c → c.obj < next
  fd_lt : ∀ {fd o : Nat}, fds fd = some o → o < next
  lt_top : ∀ {a : Nat} {c : Cell}, cells a = some c → a < top

namespace Space

/-- A process with no memory. -/
def empty : Space :=
  ⟨fun _ => none, fun _ _ => 0, fun _ => none, 0, 0, fun h => absurd h.symm (Option.some_ne_none _),
    fun h => absurd h.symm (Option.some_ne_none _), fun h => absurd h.symm (Option.some_ne_none _)⟩

/-- The byte at an address. -/
def read (s : Space) (a : Nat) : Option Byte := (s.cells a).map fun c => s.store c.obj c.off

/-- The object that a descriptor stands for. -/
def fdObj (s : Space) (fd : Nat) : Option { o // o < s.next } :=
  (s.fds fd).pmap (fun o h => ⟨o, h⟩) fun _ h => s.fd_lt h

theorem fdObj_eq {s : Space} {fd o : Nat} (h : s.fds fd = some o) : s.fdObj fd = some ⟨o, s.fd_lt h⟩ := by
  simp [fdObj, h]

/-- A new object, filled with zeros. -/
def create (s : Space) : Space where
  cells := s.cells
  store := fun o => if o = s.next then fun _ => 0 else s.store o
  fds := s.fds
  next := s.next + 1
  top := s.top
  obj_lt := fun h => Nat.lt_succ_of_lt (s.obj_lt h)
  fd_lt := fun h => Nat.lt_succ_of_lt (s.fd_lt h)
  lt_top := s.lt_top

/-- An object is mapped over a range. -/
def map (s : Space) (a len obj : Nat) (hobj : obj < s.next) : Space where
  cells := fun x => if a ≤ x ∧ x < a + len then some ⟨obj, x - a⟩ else s.cells x
  store := s.store
  fds := s.fds
  next := s.next
  top := max s.top (a + len)
  obj_lt := by
    intro x c h
    split at h
    · cases h
      exact hobj
    · exact s.obj_lt h
  fd_lt := s.fd_lt
  lt_top := by
    intro x c h
    split at h
    · omega
    · have := s.lt_top h
      omega

/-- A new object is mapped over a range. -/
def mapNew (s : Space) (a len : Nat) : Space := s.create.map a len s.next (Nat.lt_succ_self _)

/-- The addresses of a range show nothing. -/
def unmap (s : Space) (a len : Nat) : Space where
  cells := fun x => if a ≤ x ∧ x < a + len then none else s.cells x
  store := s.store
  fds := s.fds
  next := s.next
  top := s.top
  obj_lt := by
    intro x c h
    split at h
    · cases h
    · exact s.obj_lt h
  fd_lt := s.fd_lt
  lt_top := by
    intro x c h
    split at h
    · cases h
    · exact s.lt_top h

/-- A file descriptor is opened for an object. -/
def openFd (s : Space) (fd obj : Nat) (hobj : obj < s.next) : Space where
  cells := s.cells
  store := s.store
  fds := fun x => if x = fd then some obj else s.fds x
  next := s.next
  top := s.top
  obj_lt := s.obj_lt
  fd_lt := by
    intro x o h
    split at h
    · cases h
      exact hobj
    · exact s.fd_lt h
  lt_top := s.lt_top

/-- A file descriptor is closed. -/
def closeFd (s : Space) (fd : Nat) : Space where
  cells := s.cells
  store := s.store
  fds := fun x => if x = fd then none else s.fds x
  next := s.next
  top := s.top
  obj_lt := s.obj_lt
  fd_lt := by
    intro x o h
    split at h
    · cases h
    · exact s.fd_lt h
  lt_top := s.lt_top

/-- A byte is written to an address; where nothing is mapped it goes nowhere. -/
def writeByte (s : Space) (a : Nat) (b : Byte) : Space where
  cells := s.cells
  store := fun o k => if s.cells a = some ⟨o, k⟩ then b else s.store o k
  fds := s.fds
  next := s.next
  top := s.top
  obj_lt := s.obj_lt
  fd_lt := s.fd_lt
  lt_top := s.lt_top

/-- `n` bytes are written to the addresses from `a` on. -/
def write (s : Space) (a : Nat) (src : Buf) : Nat → Space
  | 0 => s
  | n + 1 => (s.write a src n).writeByte (a + n) (src n)

variable {s : Space} {a len obj n : Nat} {src : Buf}

@[simp] theorem cells_write : ∀ n : Nat, (s.write a src n).cells = s.cells
  | 0 => rfl
  | n + 1 => cells_write n

@[simp] theorem next_write : ∀ n : Nat, (s.write a src n).next = s.next
  | 0 => rfl
  | n + 1 => next_write n

theorem store_write_succ (o k : Nat) : (s.write a src (n + 1)).store o k =
    if s.cells (a + n) = some ⟨o, k⟩ then src n else (s.write a src n).store o k := by
  simp only [write, writeByte, cells_write]

/-- A byte that no written address shows is what it was. -/
theorem store_write_of_ne {o k : Nat} (h : ∀ i < n, s.cells (a + i) ≠ some ⟨o, k⟩) :
    (s.write a src n).store o k = s.store o k := by
  induction n with
  | zero => rfl
  | succ n ih =>
    rw [store_write_succ, if_neg (h n (Nat.lt_succ_self n))]
    exact ih fun i hi => h i (Nat.lt_succ_of_lt hi)

/-- A byte that exactly one written address shows is the one written there. -/
theorem store_write_of_eq {o k i : Nat} (hi : i < n) (hcell : s.cells (a + i) = some ⟨o, k⟩)
    (hone : ∀ j < n, s.cells (a + j) = some ⟨o, k⟩ → j = i) : (s.write a src n).store o k = src i := by
  induction n with
  | zero => exact absurd hi (Nat.not_lt_zero i)
  | succ n ih =>
    rw [store_write_succ]
    split
    · next hlast => rw [hone n (Nat.lt_succ_self n) hlast]
    · next hlast =>
      have hlt : i < n := by
        rcases Nat.lt_succ_iff_lt_or_eq.mp hi with hlt | rfl
        · exact hlt
        · exact absurd hcell hlast
      exact ih hlt fun j hj => hone j (Nat.lt_succ_of_lt hj)

end Space

open Space

/-! ## A range of its own -/

/-- Since `s₀` the process got the addresses from `lo` to `hi` as memory of its own, with the bytes `mem`. -/
structure Owns (s₀ s : Space) (lo hi : Nat) (mem : Buf) : Prop where
  next_le : s₀.next ≤ s.next
  /-- the other addresses show what they showed -/
  outside : ∀ a, ¬ (lo ≤ a ∧ a < hi) → s.cells a = s₀.cells a
  /-- the bytes that were there are what they were -/
  kept : ∀ o < s₀.next, s.store o = s₀.store o
  mapped : ∀ a, lo ≤ a → a < hi → ∃ c, s.cells a = some c ∧ s₀.next ≤ c.obj ∧ s.store c.obj c.off = mem a
  /-- no two addresses show the same byte -/
  inj : ∀ a b c, lo ≤ a → a < hi → lo ≤ b → b < hi → s.cells a = some c → s.cells b = some c → a = b

namespace Owns

variable {s₀ s s' : Space} {lo hi a len n obj : Nat} {mem src : Buf}

/-- Only the cells and the bytes matter. -/
theorem of_eq (h : Owns s₀ s lo hi mem) (hcells : s'.cells = s.cells) (hstore : ∀ o < s.next, s'.store o = s.store o)
    (hnext : s.next ≤ s'.next) : Owns s₀ s' lo hi mem where
  next_le := h.next_le.trans hnext
  outside a ha := by rw [hcells, h.outside a ha]
  kept o ho := by rw [hstore o (by have := h.next_le; omega), h.kept o ho]
  mapped a hlo hhi := by
    obtain ⟨c, hc, hnew, hmem⟩ := h.mapped a hlo hhi
    exact ⟨c, by rw [hcells, hc], hnew, by rw [hstore _ (s.obj_lt hc), hmem]⟩
  inj := by
    rw [hcells]
    exact h.inj

theorem create (h : Owns s₀ s lo hi mem) : Owns s₀ s.create lo hi mem :=
  h.of_eq rfl (fun _ ho => if_neg (Nat.ne_of_lt ho)) (Nat.le_succ _)

/-- The owned addresses read as `mem`. -/
theorem read (h : Owns s₀ s lo hi mem) (hlo : lo ≤ a) (hhi : a < hi) : s.read a = some (mem a) := by
  obtain ⟨c, hc, -, hmem⟩ := h.mapped a hlo hhi
  rw [Space.read, hc, Option.map_some, hmem]

/-- The other addresses read as they did. -/
theorem read_outside (h : Owns s₀ s lo hi mem) (ha : ¬ (lo ≤ a ∧ a < hi)) : s.read a = s₀.read a := by
  rw [Space.read, Space.read, h.outside a ha]
  cases hc : s₀.cells a with
  | none => rfl
  | some c => rw [Option.map_some, Option.map_some, h.kept _ (s₀.obj_lt hc)]

/-- An object that nothing shows yet is mapped over part of the range. -/
theorem map (h : Owns s₀ s lo hi mem) (hlo : lo ≤ a) (hhi : a + len ≤ hi) (hobj : obj < s.next)
    (hnew : s₀.next ≤ obj) (hfresh : ∀ x c, s.cells x = some c → c.obj ≠ obj) :
    Owns s₀ (s.map a len obj hobj) lo hi (blit mem a (s.store obj) len) where
  next_le := h.next_le
  outside x hx := by
    have hx' : ¬ (a ≤ x ∧ x < a + len) := by omega
    exact (if_neg hx').trans (h.outside x hx)
  kept := h.kept
  mapped x hxlo hxhi := by
    by_cases hx : a ≤ x ∧ x < a + len
    · exact ⟨⟨obj, x - a⟩, if_pos hx, hnew, (if_pos hx).symm⟩
    · obtain ⟨c, hc, hold, hmem⟩ := h.mapped x hxlo hxhi
      exact ⟨c, (if_neg hx).trans hc, hold, hmem.trans (if_neg hx).symm⟩
  inj x y c hxlo hxhi hylo hyhi hx hy := by
    simp only [Space.map] at hx hy
    split at hx
    · next hxin =>
      cases hx
      split at hy
      · next hyin =>
        have hoff : y - a = x - a := congrArg Cell.off (Option.some.inj hy)
        omega
      · exact absurd rfl (hfresh y _ hy)
    · split at hy
      · cases hy
        exact absurd rfl (hfresh x _ hx)
      · exact h.inj x y c hxlo hxhi hylo hyhi hx hy

/-- New memory is mapped over part of the range: it reads as zeros. -/
theorem mapNew (h : Owns s₀ s lo hi mem) (hlo : lo ≤ a) (hhi : a + len ≤ hi) :
    Owns s₀ (s.mapNew a len) lo hi (blit mem a (fun _ => 0) len) := by
  have hmap : Owns s₀ (s.mapNew a len) lo hi (blit mem a (s.create.store s.next) len) :=
    h.create.map hlo hhi (Nat.lt_succ_self _) h.next_le fun _ _ hc => Nat.ne_of_lt (s.obj_lt hc)
  rwa [show s.create.store s.next = fun _ => 0 from if_pos rfl] at hmap

/-- A write inside the range. -/
theorem write (h : Owns s₀ s lo hi mem) (hlo : lo ≤ a) (hhi : a + n ≤ hi) :
    Owns s₀ (s.write a src n) lo hi (blit mem a src n) where
  next_le := h.next_le.trans (next_write n).ge
  outside x hx := by rw [cells_write, h.outside x hx]
  kept o ho := by
    funext k
    rw [store_write_of_ne, h.kept o ho]
    intro i hi hc
    obtain ⟨c, hc', hnew, -⟩ := h.mapped (a + i) (by omega) (by omega)
    obtain rfl : c = ⟨o, k⟩ := Option.some.inj (hc'.symm.trans hc)
    exact absurd ho (Nat.not_lt.mpr hnew)
  mapped x hxlo hxhi := by
    obtain ⟨c, hc, hnew, hmem⟩ := h.mapped x hxlo hxhi
    refine ⟨c, by rw [cells_write, hc], hnew, ?_⟩
    by_cases hx : a ≤ x ∧ x < a + n
    · obtain ⟨i, rfl⟩ := Nat.exists_eq_add_of_le hx.1
      rw [blit_inside (by omega)]
      refine store_write_of_eq (by omega) hc fun j hj hj' => ?_
      have := h.inj _ _ c (by omega) (by omega) (by omega) hxhi hj' hc
      omega
    · rw [blit, if_neg hx, store_write_of_ne, hmem]
      intro i hi hc'
      have := h.inj _ _ c (by omega) (by omega) hxlo hxhi hc' hc
      omega
  inj := by
    rw [cells_write]
    exact h.inj

/-- The first range that a process gets. -/
theorem reserve (s : Space) (lo len : Nat) : Owns s (s.mapNew lo len) lo (lo + len) fun _ => 0 where
  next_le := Nat.le_succ _
  outside _ ha := if_neg ha
  kept _ ho := if_neg (Nat.ne_of_lt ho)
  mapped a hlo hhi := by
    refine ⟨⟨s.next, a - lo⟩, if_pos ⟨hlo, hhi⟩, Nat.le_refl _, ?_⟩
    exact congrFun (if_pos rfl : s.create.store s.next = _) _
  inj a b c halo hahi hblo hbhi ha hb := by
    simp only [Space.mapNew, Space.map, if_pos (And.intro halo hahi), if_pos (And.intro hblo hbhi)] at ha hb
    have hoff : a - lo = b - lo := congrArg Cell.off (Option.some.inj (ha.trans hb.symm))
    omega

/-- The range is given back: what is still mapped was mapped before. -/
theorem unmap (h : Owns s₀ s lo (lo + len) mem) (x : Nat) :
    (s.unmap lo len).cells x = none ∨
      (s.unmap lo len).cells x = s₀.cells x ∧ (s.unmap lo len).read x = s₀.read x := by
  by_cases hx : lo ≤ x ∧ x < lo + len
  · exact .inl (if_pos hx)
  · refine .inr ⟨(if_neg hx).trans (h.outside x hx), ?_⟩
    rw [← h.read_outside hx, Space.read, Space.read, show (s.unmap lo len).cells x = s.cells x from if_neg hx]
    rfl

end Owns

/-! ## A copy through another mapping -/

/-- `n` bytes are written to an object through a mapping at `w` that is taken away again. -/
def copyThrough (s : Space) (w len obj : Nat) (hobj : obj < s.next) (src : Buf) (n : Nat) : Space :=
  ((s.map w len obj hobj).write w src n).unmap w len

section CopyThrough

variable {s₀ s : Space} {lo hi a w len obj n : Nat} {mem src : Buf} {hobj : obj < s.next}

/-- Where nothing was mapped, nothing is mapped after it. -/
theorem cells_copyThrough (hfree : ∀ i < len, s.cells (w + i) = none) :
    (copyThrough s w len obj hobj src n).cells = s.cells := by
  funext x
  simp only [copyThrough, unmap, cells_write, map]
  split
  · next hx =>
    have hnone := hfree (x - w) (by omega)
    rw [Nat.add_sub_cancel' hx.1] at hnone
    exact hnone.symm
  · rfl

/-- The object has the bytes at its front. -/
theorem store_copyThrough (hn : n ≤ len) (o k : Nat) :
    (copyThrough s w len obj hobj src n).store o k = if o = obj ∧ k < n then src k else s.store o k := by
  have hcell (i : Nat) (hi : i < n) : (s.map w len obj hobj).cells (w + i) = some ⟨obj, i⟩ := by
    have hin : w ≤ w + i ∧ w + i < w + len := by omega
    exact (if_pos hin).trans (by rw [Nat.add_sub_cancel_left])
  split
  · next hk =>
    obtain ⟨rfl, hk⟩ := hk
    refine store_write_of_eq hk (hcell k hk) fun j hj hj' => ?_
    rw [hcell j hj] at hj'
    exact congrArg Cell.off (Option.some.inj hj')
  · next hk =>
    refine store_write_of_ne fun i hi hc => hk ?_
    rw [hcell i hi] at hc
    cases hc
    exact ⟨rfl, hi⟩

/-- Addresses of the range that show the object from its front on see the bytes. -/
theorem Owns.copyThrough (h : Owns s₀ s lo hi mem) (hlo : lo ≤ a) (hhi : a + len ≤ hi) (hn : n ≤ len)
    (hshow : ∀ i < len, s.cells (a + i) = some ⟨obj, i⟩) (hnew : s₀.next ≤ obj)
    (hfree : ∀ i < len, s.cells (w + i) = none) :
    Owns s₀ (copyThrough s w len obj hobj src n) lo hi (blit mem a src n) where
  next_le := h.next_le.trans (next_write (s := s.map w len obj hobj) n).ge
  outside x hx := by rw [cells_copyThrough hfree, h.outside x hx]
  kept o ho := by
    funext k
    rw [store_copyThrough hn, if_neg (by omega), h.kept o ho]
  mapped x hxlo hxhi := by
    obtain ⟨c, hc, hcnew, hmem⟩ := h.mapped x hxlo hxhi
    refine ⟨c, by rw [cells_copyThrough hfree, hc], hcnew, ?_⟩
    rw [store_copyThrough hn]
    by_cases hx : a ≤ x ∧ x < a + n
    · obtain ⟨i, rfl⟩ := Nat.exists_eq_add_of_le hx.1
      obtain rfl : ⟨obj, i⟩ = c := Option.some.inj ((hshow i (by omega)).symm.trans hc)
      have hi : i < n := by omega
      rw [if_pos ⟨rfl, hi⟩, blit_inside hi]
    · rw [blit, if_neg hx, if_neg, hmem]
      rintro ⟨hobj', hoff⟩
      have hsame : s.cells (a + c.off) = some c := by rw [hshow c.off (by omega), ← hobj']
      have := h.inj x _ c hxlo hxhi (by omega) (by omega) hc hsame
      omega
  inj := by
    rw [cells_copyThrough hfree]
    exact h.inj

end CopyThrough

end Lib
