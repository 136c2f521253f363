import Ps5Debugger.Lib.Bytes

/-!
# Serving reads from a cached window

A program that looks at `width` bytes at each of a list of addresses, one after the other,
and reads memory a whole window at a time: on a **miss** it reads a window that starts at the
address and reaches as far as the addresses still to come make worth while; on a **hit** it
looks at the window it has.

`Server` is such a policy; `serve` runs it. What a run shows is memory itself as long as
every hit lies inside its window (`serve_eq`); a policy that calls something a hit that runs
past the window shows what the scratch buffer held there before. `history` are the reads behind each address of a
run, and `readFrom` says of a byte of the scratch buffer which of them it is from (`serve_eq_history`).
-/

namespace Lib

/-- A cached read: the bytes of memory from `start` to `stop`, behind the pointer `base`. -/
structure Window where
  start : Nat
  stop : Nat
  base : Buf

/-- A window that holds the `width` bytes at `a`. -/
def Window.Covers (w : Window) (width a : Nat) : Prop := w.start ≤ a ∧ a + width ≤ w.stop

/-- A window whose pointer shows memory throughout. -/
def Window.Shows (w : Window) (mem : Buf) : Prop := ∀ i < w.stop - w.start, w.base i = mem (w.start + i)

/-- When to read a window, how far, and how. -/
structure Server where
  width : Nat
  /-- the window cannot be used for this address -/
  misses : Window → Nat → Bool
  /-- the end of the window read for an address, seen the addresses after it -/
  grow : Nat → List Nat → Nat
  /-- read so many bytes: the pointer to them, and the scratch buffer afterwards -/
  read : Nat → Nat → Buf → Buf × Buf

namespace Server

/-- The window for one address, read anew on a miss, and the scratch buffer. -/
def fetch (s : Server) (a : Nat) (rest : List Nat) (w : Window) (scratch : Buf) : Window × Buf :=
  if s.misses w a then
    let stop := s.grow a rest
    let r := s.read a (stop - a) scratch
    (⟨a, stop, r.1⟩, r.2)
  else (w, scratch)

/-- The bytes shown for each address. -/
def serve (s : Server) : List Nat → Window → Buf → List (List Byte)
  | [], _, _ => []
  | a :: rest, w, scratch =>
    let f := s.fetch a rest w scratch
    slice f.1.base (a - f.1.start) s.width :: s.serve rest f.1 f.2

/-- The reads of a run, as start and size. -/
def reads (s : Server) : List Nat → Window → Buf → List (Nat × Nat)
  | [], _, _ => []
  | a :: rest, w, scratch =>
    let f := s.fetch a rest w scratch
    (if s.misses w a then [(a, s.grow a rest - a)] else []) ++ s.reads rest f.1 f.2

/-- Inside a window that shows memory one sees memory. -/
theorem slice_of_covers {w : Window} {mem : Buf} {width a : Nat} (hshow : w.Shows mem)
    (hcov : w.Covers width a) : slice w.base (a - w.start) width = slice mem a width := by
  obtain ⟨hstart, hstop⟩ := hcov
  refine slice_eq_iff.mpr fun i hi => ?_
  rw [hshow (a - w.start + i) (by omega)]
  congr 1
  omega

section Fresh

/-! What a run needs of its policy, stated over the addresses it is run on (`ok`) and an
invariant of its windows: reads show memory, a fresh window covers its address and has the
invariant, and a hit on a window with the invariant is covered. -/

variable (s : Server) {mem : Buf} (ok : Nat → Prop) (inv : Window → Prop)
  (hread : ∀ a n scratch, ∀ i < n, (s.read a n scratch).1 i = mem (a + i))
  (hgrow : ∀ a rest, ok a → (∀ b ∈ rest, ok b) → a + s.width ≤ s.grow a rest)
  (hinv : ∀ a rest base, ok a → (∀ b ∈ rest, ok b) → inv ⟨a, s.grow a rest, base⟩)
  (hhit : ∀ w a, ok a → inv w → s.misses w a = false → w.Covers s.width a)

include hread hgrow hinv hhit in
/-- One fetch: the window shows memory, has the invariant, and covers the address. -/
theorem fetch_spec {a : Nat} {rest : List Nat} {w : Window} (scratch : Buf) (ha : ok a)
    (hrest : ∀ b ∈ rest, ok b) (hshow : w.Shows mem) (hw : inv w) :
    (s.fetch a rest w scratch).1.Shows mem ∧ inv (s.fetch a rest w scratch).1 ∧
      (s.fetch a rest w scratch).1.Covers s.width a := by
  rw [fetch]
  cases hmiss : s.misses w a with
  | true =>
    rw [if_pos rfl]
    refine ⟨fun i hi => hread _ _ _ i hi, hinv a rest _ ha hrest, Nat.le_refl a, ?_⟩
    exact hgrow a rest ha hrest
  | false =>
    rw [if_neg (by simp)]
    exact ⟨hshow, hw, hhit w a ha hw hmiss⟩

include hread hgrow hinv hhit in
/-- **A run shows memory at every address.** -/
theorem serve_eq : ∀ (as : List Nat) (w : Window) (scratch : Buf), (∀ a ∈ as, ok a) → w.Shows mem →
    inv w → s.serve as w scratch = as.map fun a => slice mem a s.width := by
  intro as
  induction as with
  | nil => intro w scratch _ _ _; rfl
  | cons a rest ih =>
    intro w scratch hok hshow hw
    have ha := hok a (List.mem_cons_self ..)
    have hrest : ∀ b ∈ rest, ok b := fun b hb => hok b (List.mem_cons_of_mem _ hb)
    obtain ⟨hshow', hw', hcov⟩ := fetch_spec s ok inv hread hgrow hinv hhit scratch ha
      hrest hshow hw
    rw [serve, List.map_cons, slice_of_covers hshow' hcov, ih _ _ hrest hshow' hw']

end Fresh

/-- Every read is the window of some address of the run. -/
theorem mem_reads (s : Server) (as : List Nat) : ∀ (w : Window) (scratch : Buf),
    ∀ r ∈ s.reads as w scratch, ∃ a rest, (a :: rest) <:+ as ∧ r = (a, s.grow a rest - a) := by
  induction as with
  | nil => intro w scratch r hr; cases hr
  | cons a rest ih =>
    intro w scratch r hr
    rw [reads] at hr
    rcases List.mem_append.mp hr with hr | hr
    · split at hr
      · exact ⟨a, rest, List.suffix_rfl, List.mem_singleton.mp hr⟩
      · cases hr
    · obtain ⟨a', rest', hsuf, heq⟩ := ih _ _ r hr
      exact ⟨a', rest', hsuf.trans (List.suffix_cons a rest), heq⟩

end Server

/-! ## What a scratch buffer holds -/

/-- The window of the last of these reads (start and size), which are listed from the last one on. -/
def lastWindow (reads : List (Nat × Nat)) (base : Buf) : Window :=
  ⟨(reads.headD (0, 0)).1, (reads.headD (0, 0)).1 + (reads.headD (0, 0)).2, base⟩

/-- The address from which a byte of the scratch buffer was read: by the last read that was long enough.
`none` is a byte that was there before. -/
def readFrom (reads : List (Nat × Nat)) (q : Nat) : Option Nat :=
  (reads.find? fun r => q < r.2).map fun r => r.1 + q

/-- A scratch buffer after these reads. -/
def scratchOf (mem scratch : Buf) (reads : List (Nat × Nat)) : Buf := fun q =>
  match readFrom reads q with
  | some x => mem x
  | none => scratch q

/-- The `width` bytes at `a` are in the scratch buffer where the last window has them. -/
def Shown (width a : Nat) (reads : List (Nat × Nat)) : Prop :=
  ∀ j < width, readFrom reads (a - (lastWindow reads fun _ => 0).start + j) = some (a + j)

instance (width a : Nat) (reads : List (Nat × Nat)) : Decidable (Shown width a reads) :=
  inferInstanceAs (Decidable (∀ j < width, _))

theorem scratchOf_cons (mem scratch : Buf) (a n : Nat) (reads : List (Nat × Nat)) (q : Nat) :
    scratchOf mem scratch ((a, n) :: reads) q = if q < n then mem (a + q) else scratchOf mem scratch reads q := by
  rw [scratchOf, scratchOf, readFrom, readFrom, List.find?_cons]
  by_cases hq : q < n
  · rw [if_pos hq]
    simp [hq]
  · rw [if_neg hq]
    simp [hq]

/-- What is read from an address of a read lies inside it. -/
theorem readFrom_lt {reads : List (Nat × Nat)} {q x limit : Nat} (h : readFrom reads q = some x)
    (hreads : ∀ r ∈ reads, r.1 + r.2 < limit) : x < limit := by
  obtain ⟨r, hr, rfl⟩ := Option.map_eq_some_iff.mp h
  have hlt : q < r.2 := by simpa using List.find?_some hr
  have := hreads r (List.mem_of_find?_eq_some hr)
  omega

namespace Server

/-- The reads behind each address of a run, the last one first. -/
def history (s : Server) : List Nat → List (Nat × Nat) → List (List (Nat × Nat))
  | [], _ => []
  | a :: rest, reads =>
    let reads' := if s.misses (lastWindow reads fun _ => 0) a then (a, s.grow a rest - a) :: reads else reads
    reads' :: s.history rest reads'

theorem length_history (s : Server) : ∀ (as : List Nat) (reads : List (Nat × Nat)),
    (s.history as reads).length = as.length
  | [], _ => rfl
  | _ :: as, _ => congrArg (· + 1) (length_history s as _)

section Scratch

/-! A policy that looks at the bounds of its window alone, and reads over the front of its scratch buffer. -/

variable (s : Server) {mem : Buf} (ok : Nat → Prop)
  (hmiss : ∀ w base a, s.misses { w with base := base } a = s.misses w a)
  (hread : ∀ a n scratch, (s.read a n scratch).1 = (s.read a n scratch).2 ∧
    ∀ i, (s.read a n scratch).1 i = if i < n then mem (a + i) else scratch i)
  (hgrow : ∀ a rest, ok a → (∀ b ∈ rest, ok b) → a ≤ s.grow a rest)

include hmiss hread hgrow in
/-- One fetch: the last window, over the scratch buffer as the reads left it. -/
theorem fetch_eq_history {a : Nat} {rest : List Nat} (scratch : Buf) (reads : List (Nat × Nat)) (ha : ok a)
    (hrest : ∀ b ∈ rest, ok b) :
    let reads' := if s.misses (lastWindow reads fun _ => 0) a then (a, s.grow a rest - a) :: reads else reads
    s.fetch a rest (lastWindow reads (scratchOf mem scratch reads)) (scratchOf mem scratch reads) =
      (lastWindow reads' (scratchOf mem scratch reads'), scratchOf mem scratch reads') := by
  have hsame : s.misses (lastWindow reads (scratchOf mem scratch reads)) a =
      s.misses (lastWindow reads fun _ => 0) a :=
    (hmiss (lastWindow reads (scratchOf mem scratch reads)) (fun _ => 0) a).symm
  intro reads'
  rw [fetch, hsame]
  by_cases hm : s.misses (lastWindow reads fun _ => 0) a = true
  · obtain ⟨hsnd, hbytes⟩ := hread a (s.grow a rest - a) (scratchOf mem scratch reads)
    have hscratch : (s.read a (s.grow a rest - a) (scratchOf mem scratch reads)).1 =
        scratchOf mem scratch ((a, s.grow a rest - a) :: reads) := by
      funext i
      rw [hbytes, scratchOf_cons]
    have hle := hgrow a rest ha hrest
    have hreads : reads' = (a, s.grow a rest - a) :: reads := if_pos hm
    rw [if_pos hm, hreads]
    simp only [← hsnd, hscratch, lastWindow, List.headD_cons, Nat.add_sub_of_le hle]
  · have hreads : reads' = reads := if_neg hm
    rw [if_neg hm, hreads]

include hmiss hread hgrow in
/-- **A run shows the scratch buffer** as its reads have left it, memory or not. -/
theorem serve_eq_history (scratch : Buf) : ∀ (as : List Nat) (reads : List (Nat × Nat)), (∀ a ∈ as, ok a) →
    s.serve as (lastWindow reads (scratchOf mem scratch reads)) (scratchOf mem scratch reads) =
      (as.zip (s.history as reads)).map fun x =>
        slice (scratchOf mem scratch x.2) (x.1 - (lastWindow x.2 fun _ => 0).start) s.width := by
  intro as
  induction as with
  | nil => intro reads _; rfl
  | cons a rest ih =>
    intro reads hok
    have hrest : ∀ b ∈ rest, ok b := fun b hb => hok b (List.mem_cons_of_mem _ hb)
    have hfetch := fetch_eq_history s ok hmiss hread hgrow scratch reads (hok a List.mem_cons_self) hrest
    dsimp only at hfetch
    rw [serve, history]
    simp only [hfetch]
    rw [List.zip_cons_cons, List.map_cons, ih _ hrest]
    rfl

/-- Where the bytes are shown they are memory. -/
theorem slice_of_shown {width a : Nat} {reads : List (Nat × Nat)} (scratch : Buf) (h : Shown width a reads) :
    slice (scratchOf mem scratch reads) (a - (lastWindow reads fun _ => 0).start) width = slice mem a width :=
  slice_eq_iff.mpr fun j hj => by rw [scratchOf, h j hj]

/-- Every read of a history is one of its start or the window of an address. -/
theorem mem_history {p : Nat × Nat → Prop} (hp : ∀ a rest, ok a → (∀ b ∈ rest, ok b) → p (a, s.grow a rest - a)) :
    ∀ (as : List Nat) (reads : List (Nat × Nat)), (∀ a ∈ as, ok a) → (∀ r ∈ reads, p r) →
      ∀ rs ∈ s.history as reads, ∀ r ∈ rs, p r := by
  intro as
  induction as with
  | nil => intro reads _ _ rs hrs; cases hrs
  | cons a rest ih =>
    intro reads hok hreads
    have hrest : ∀ b ∈ rest, ok b := fun b hb => hok b (List.mem_cons_of_mem _ hb)
    have hnext : ∀ r ∈ (if s.misses (lastWindow reads fun _ => 0) a then (a, s.grow a rest - a) :: reads
        else reads), p r := by
      split
      · exact List.forall_mem_cons.mpr ⟨hp a rest (hok a List.mem_cons_self) hrest, hreads⟩
      · exact hreads
    rw [history]
    exact List.forall_mem_cons.mpr ⟨hnext, ih _ hrest hnext⟩

end Scratch

end Server

end Lib
