import Ps5Debugger.Lib.Bytes

/-!
# Bitmaps

A bitmap in a byte buffer, and the scan for the next set bit that skips zero words eight
bytes at a time.

`nextSet` is specified through the list of set bits: from any position on, that list is
either empty and `nextSet` returns the bound, or it starts with what `nextSet` returns
(`setFrom_eq`). A loop `for (i = next(0); i < n; i = next(i + 1))` is therefore a recursion
over `setFrom bm 0 n`, and stays one while its body clears bits at or below `i`
(`setFrom_congr`).
-/

namespace Lib

/-- Bit `i` of a bitmap. -/
def bit (bm : Buf) (i : Nat) : Bool := (bm (i / 8)).getLsbD (i % 8)

/-- `bm[i >> 3] &= ~(1 << (i & 7))`. -/
def clearBit (bm : Buf) (i : Nat) : Buf :=
  fun k => if k = i / 8 then bm k &&& ~~~(1#8 <<< (i % 8)) else bm k

theorem bit_clearBit (bm : Buf) (i j : Nat) : bit (clearBit bm i) j = (bit bm j && j != i) := by
  rw [bit, bit, clearBit]
  by_cases hbyte : j / 8 = i / 8
  · rw [if_pos hbyte, BitVec.getLsbD_and, BitVec.getLsbD_not, BitVec.getLsbD_shiftLeft,
      BitVec.getLsbD_one]
    have hj : j % 8 < 8 := Nat.mod_lt _ (by omega)
    rcases Nat.lt_trichotomy (j % 8) (i % 8) with hlt | heq | hgt
    · have hne : j ≠ i := by omega
      simp [hlt, hne, hj]
    · obtain rfl : j = i := by omega
      simp [hj]
    · have hne : j ≠ i := by omega
      have hdiff : j % 8 - i % 8 ≠ 0 := by omega
      simp [hne, hj, hdiff]
  · rw [if_neg hbyte]
    have hne : (j != i) = true := by
      rw [bne_iff_ne]
      rintro rfl
      exact hbyte rfl
    rw [hne, Bool.and_true]

/-- A bitmap of ones. -/
theorem bit_ones (i : Nat) : bit (fun _ => 0xFF) i = true := by
  have hall : ∀ j < 8, (0xFF : Byte).getLsbD j = true := by decide
  exact hall _ (Nat.mod_lt _ (by omega))

/-- Clearing several bits. -/
theorem bit_foldl_clearBit (dead : List Nat) : ∀ (bm : Buf) (i : Nat),
    bit (dead.foldl clearBit bm) i = (bit bm i && decide (i ∉ dead)) := by
  induction dead with
  | nil => intro bm i; simp
  | cons j dead ih =>
    intro bm i
    rw [List.foldl_cons, ih, bit_clearBit]
    by_cases hij : i = j
    · simp [hij]
    · simp [hij, bne_iff_ne.mpr hij]

/-- The 64-bit word that starts at bit `i`, a multiple of 64. -/
def wordAt (bm : Buf) (i : Nat) : Nat := leNat 8 (slice bm (i / 8) 8)

/-- A zero word has no set bit. -/
theorem bit_of_wordAt {bm : Buf} {i j : Nat} (hi : i % 64 = 0) (hw : wordAt bm i = 0) (hij : i ≤ j)
    (hj : j < i + 64) : bit bm j = false := by
  have hzero : ∀ k < 8, (slice bm (i / 8) 8).getD k 0 = (List.replicate 8 (0 : Byte)).getD k 0 := by
    refine (leNat_inj 8 _ _).mp ?_
    rw [← wordAt, hw]
    rfl
  have hbyte : bm (j / 8) = 0 := by
    have hk : j / 8 - i / 8 < 8 := by omega
    have h := hzero (j / 8 - i / 8) hk
    rw [getD_slice hk] at h
    rw [show j / 8 = i / 8 + (j / 8 - i / 8) by omega, h, List.getD_eq_getElem?_getD,
      List.getElem?_replicate, if_pos hk]
    rfl
  rw [bit, hbyte]
  exact BitVec.getLsbD_zero

/-! ## The scan -/

/-- `while (i + 64 <= n && word(i) == 0) i += 64`. -/
def skipZeroWords (bm : Buf) (n : Nat) : Nat → Nat → Nat
  | 0, i => i
  | fuel + 1, i => if i + 64 ≤ n ∧ wordAt bm i = 0 then skipZeroWords bm n fuel (i + 64) else i

/-- The loop of `nextSet`. -/
def nextSetLoop (bm : Buf) (n : Nat) : Nat → Nat → Nat
  | 0, _ => n
  | fuel + 1, i =>
    if i < n then
      let i := if i % 64 = 0 then skipZeroWords bm n n i else i
      if i ≥ n then n else if bit bm i then i else nextSetLoop bm n fuel (i + 1)
    else n

/-- The first set bit from `start` on, or `n`. -/
def nextSet (bm : Buf) (start n : Nat) : Nat := nextSetLoop bm n (n + 1) start

/-- The set bits from `start` on, ascending. -/
def setFrom (bm : Buf) (start n : Nat) : List Nat := (List.range' start (n - start)).filter (bit bm)

theorem mem_setFrom {bm : Buf} {start n i : Nat} :
    i ∈ setFrom bm start n ↔ start ≤ i ∧ i < n ∧ bit bm i = true := by
  rw [setFrom, List.mem_filter, List.mem_range'_1, ← and_assoc]
  exact and_congr_left' (by omega)

theorem setFrom_of_le {bm : Buf} {start n : Nat} (h : n ≤ start) : setFrom bm start n = [] := by
  rw [setFrom, Nat.sub_eq_zero_of_le h]
  rfl

/-- One position at a time. -/
theorem setFrom_succ {bm : Buf} {start n : Nat} (h : start < n) :
    setFrom bm start n =
      if bit bm start then start :: setFrom bm (start + 1) n else setFrom bm (start + 1) n := by
  rw [setFrom, setFrom, show n - start = n - (start + 1) + 1 by omega, List.range'_succ,
    List.filter_cons]

/-- A stretch without set bits can be skipped. -/
theorem setFrom_skip {bm : Buf} {n : Nat} : ∀ (k start : Nat),
    (∀ j, start ≤ j → j < start + k → bit bm j = false) →
    setFrom bm start n = setFrom bm (start + k) n := by
  intro k
  induction k with
  | zero => intro start _; rfl
  | succ k ih =>
    intro start h
    rcases Nat.lt_or_ge start n with hlt | hge
    · rw [setFrom_succ hlt, h start (Nat.le_refl _) (by omega), if_neg (by simp),
        ih (start + 1) fun j h1 h2 => h j (by omega) (by omega)]
      congr 1
      omega
    · rw [setFrom_of_le hge, setFrom_of_le (by omega)]

/-- Bits below the start do not matter. -/
theorem setFrom_congr {bm bm' : Buf} {start n : Nat} (h : ∀ j, start ≤ j → bit bm j = bit bm' j) :
    setFrom bm start n = setFrom bm' start n := by
  apply List.filter_congr
  intro j hj
  exact h j (List.mem_range'_1.mp hj).1

theorem setFrom_pairwise (bm : Buf) (start n : Nat) : (setFrom bm start n).Pairwise (· < ·) :=
  List.Pairwise.filter _ List.pairwise_lt_range'

/-- The skip ends at a position with the same set bits ahead. -/
theorem skipZeroWords_spec {bm : Buf} {n : Nat} : ∀ (fuel i : Nat), i % 64 = 0 →
    i ≤ skipZeroWords bm n fuel i ∧ setFrom bm (skipZeroWords bm n fuel i) n = setFrom bm i n := by
  intro fuel
  induction fuel with
  | zero => intro i _; exact ⟨Nat.le_refl _, rfl⟩
  | succ fuel ih =>
    intro i hi
    rw [skipZeroWords]
    split
    · next h =>
      obtain ⟨hle, hset⟩ := ih (i + 64) (by omega)
      refine ⟨by omega, ?_⟩
      rw [hset, ← setFrom_skip 64 i fun j h1 h2 => bit_of_wordAt hi h.2 h1 h2]
    · exact ⟨Nat.le_refl _, rfl⟩

/-- Where the loop of `nextSet` ends: at the head of the set bits, or at the bound. -/
theorem nextSetLoop_spec {bm : Buf} {n : Nat} : ∀ (fuel i : Nat), n ≤ i + fuel →
    setFrom bm i n = [] ∧ nextSetLoop bm n fuel i = n ∨
      nextSetLoop bm n fuel i < n ∧
        setFrom bm i n = nextSetLoop bm n fuel i :: setFrom bm (nextSetLoop bm n fuel i + 1) n := by
  intro fuel
  induction fuel with
  | zero => intro i hi; exact .inl ⟨setFrom_of_le (by omega), rfl⟩
  | succ fuel ih =>
    intro i hi
    rw [nextSetLoop]
    by_cases hin : i < n
    · rw [if_pos hin]
      -- the position after the skip
      obtain ⟨j, hj, hij, hset⟩ : ∃ j, (if i % 64 = 0 then skipZeroWords bm n n i else i) = j ∧ i ≤ j ∧
          setFrom bm j n = setFrom bm i n := by
        by_cases hmod : i % 64 = 0
        · obtain ⟨h1, h2⟩ := @skipZeroWords_spec bm n n i hmod
          exact ⟨_, if_pos hmod, h1, h2⟩
        · exact ⟨i, if_neg hmod, Nat.le_refl _, rfl⟩
      simp only [hj, ← hset]
      split
      · next hge => exact .inl ⟨setFrom_of_le hge, rfl⟩
      · next hlt =>
        have hjn : j < n := by omega
        split
        · next hbit =>
          refine .inr ⟨hjn, ?_⟩
          rw [setFrom_succ hjn, if_pos hbit]
        · next hbit =>
          rw [setFrom_succ hjn, if_neg hbit]
          exact ih (j + 1) (by omega)
    · rw [if_neg hin]
      exact .inl ⟨setFrom_of_le (by omega), rfl⟩

/-- **`nextSet` is the head of the set bits**, or the bound when there are none. -/
theorem setFrom_eq (bm : Buf) (start n : Nat) :
    setFrom bm start n = [] ∧ nextSet bm start n = n ∨
      nextSet bm start n < n ∧
        setFrom bm start n = nextSet bm start n :: setFrom bm (nextSet bm start n + 1) n :=
  nextSetLoop_spec (n + 1) start (by omega)

theorem nextSet_of_nil {bm : Buf} {start n : Nat} (h : setFrom bm start n = []) :
    nextSet bm start n = n := by
  rcases setFrom_eq bm start n with ⟨-, h'⟩ | ⟨-, h'⟩
  · exact h'
  · rw [h] at h'
    cases h'

theorem nextSet_of_cons {bm : Buf} {start n i : Nat} {rest : List Nat}
    (h : setFrom bm start n = i :: rest) :
    nextSet bm start n = i ∧ i < n ∧ setFrom bm (i + 1) n = rest := by
  rcases setFrom_eq bm start n with ⟨h', -⟩ | ⟨hlt, h'⟩
  · rw [h] at h'
    cases h'
  · rw [h] at h'
    obtain ⟨h1, h2⟩ := List.cons.inj h'
    rw [← h1] at hlt h2
    exact ⟨h1.symm, hlt, h2.symm⟩

theorem length_setFrom_le (bm : Buf) (start n : Nat) : (setFrom bm start n).length ≤ n :=
  Nat.le_trans (List.length_filter_le _ _) (by rw [List.length_range']; omega)

/-- The set bits after one of them. -/
theorem setFrom_after {bm : Buf} {n x : Nat} {back : List Nat} : ∀ {front : List Nat} {start : Nat},
    setFrom bm start n = front ++ x :: back → setFrom bm (x + 1) n = back := by
  intro front
  induction front with
  | nil => intro start h; exact (nextSet_of_cons h).2.2
  | cons y front ih => intro start h; exact ih (nextSet_of_cons h).2.2

end Lib
