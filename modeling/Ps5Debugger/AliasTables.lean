import Ps5Debugger.ScanAlias

/-!
# The tables the alias engine writes

What one kernel write does to the tables, where the table of a span is, and what the loop of
`scan_alias_map` hands to the write: entries that are all present, for places of the table that are
all not present.
-/

namespace Ps5Debugger

open Lib

/-! ## Reads and writes -/

/-- A copy of a table fails, or shows its entries. -/
theorem PhysMem.copyTable_aligned (m : PhysMem) {table : Nat} (h : table % 0x1000 = 0) :
    m.copyTable table = none ∨ ∃ pt, m.copyTable table = some pt ∧ ∀ x < 512, pt x = m.entry table x := by
  have hpage : table / 0x1000 * 0x1000 = table := by omega
  obtain ⟨hno, hyes⟩ := PhysMem.copyTable_eq (m := m) (table / 0x1000)
  rw [hpage] at hno hyes
  cases hreach : m.reachable (table / 0x1000) with
  | false => exact .inl (hno hreach)
  | true => exact .inr (hyes hreach)

/-- **A write of entries.** The front of one table has the new entries; nothing else changes. -/
theorem PhysMem.entry_copyin {m m' : PhysMem} {table : Nat} {entries : List Nat}
    (htable : table % 0x1000 = 0) (hlen : entries.length ≤ 512)
    (h : m.copyin table (entries.flatMap (leBytes 8)) = some m') {t x : Nat} (ht : t % 0x1000 = 0)
    (hx : x < 512) :
    m'.entry t x = if t = table ∧ x < entries.length then u64 (entries.getD x 0) else m.entry t x := by
  rw [PhysMem.copyin, length_flatMap_leBytes] at h
  split at h
  · obtain rfl := Option.some.inj h
    rw [PhysMem.entry, PhysMem.entry]
    dsimp only
    split
    · next hin =>
      obtain ⟨rfl, hx⟩ := hin
      rw [slice_blit_inside (by omega), slice_ofList_words 8 entries hx, leNat_leBytes]
      rfl
    · next hout =>
      rw [slice_blit_outside]
      by_cases htt : t = table
      · have hlt : ¬ x < entries.length := fun hlt => hout ⟨htt, hlt⟩
        omega
      · omega
  · cases h

variable {k : AliasKernel} {i table : Nat} {active : Option (Nat × Nat)} {ok : Bool} {entries : List Nat}

/-- A write fails without effect, or goes through and is noted. -/
theorem AliasKernel.write_cases (k : AliasKernel) (i : Nat) (active : Option (Nat × Nat)) (ok : Bool)
    (table : Nat) (entries : List Nat) :
    k.write i active ok table entries =
        (false, { k with failures := Function.update k.failures i (k.failures i + 1) }) ∨
      ∃ m, k.mem.copyin table (entries.flatMap (leBytes 8)) = some m ∧
        k.write i active ok table entries =
          (true, { k with mem := m, writes := ⟨active, k.mem, m⟩ :: k.writes }) := by
  rw [AliasKernel.write]
  cases ok with
  | false => exact .inl rfl
  | true =>
    rw [if_pos rfl]
    cases h : k.mem.copyin table (entries.flatMap (leBytes 8)) with
    | none => exact .inl rfl
    | some m => exact .inr ⟨m, rfl, rfl⟩

theorem AliasKernel.write_windows (k : AliasKernel) (i : Nat) (active : Option (Nat × Nat)) (ok : Bool)
    (table : Nat) (entries : List Nat) : (k.write i active ok table entries).2.windows = k.windows := by
  obtain hfail | ⟨m, -, hok⟩ := k.write_cases i active ok table entries
  · rw [hfail]
  · rw [hok]

theorem AliasKernel.write_failures (k : AliasKernel) (i : Nat) (active : Option (Nat × Nat)) (ok : Bool)
    (table : Nat) (entries : List Nat) : k.failures i ≤ (k.write i active ok table entries).2.failures i := by
  obtain hfail | ⟨m, -, hok⟩ := k.write_cases i active ok table entries
  · rw [hfail]
    dsimp only
    rw [Function.update_self]
    exact Nat.le_succ _
  · rw [hok]

/-- A write changes no present entry, but for the entries of the active map of its context, which it
may clear. -/
def KernelWrite.NoOverwrite (wr : KernelWrite) : Prop :=
  ∀ table x, table % 0x1000 = 0 → x < 512 → ptePresent (wr.before.entry table x) = true →
    wr.after.entry table x = wr.before.entry table x ∨
      (∃ n, wr.active = some (table, n) ∧ x < n) ∧ wr.after.entry table x = 0

/-- A write at the front of a table where nothing is present overwrites nothing. -/
theorem noOverwrite_of_absent {m m' : PhysMem} (htable : table % 0x1000 = 0) (hlen : entries.length ≤ 512)
    (h : m.copyin table (entries.flatMap (leBytes 8)) = some m')
    (habsent : ∀ x < entries.length, ptePresent (m.entry table x) = false) :
    KernelWrite.NoOverwrite ⟨active, m, m'⟩ := by
  intro t x ht hx hpresent
  left
  dsimp only at hpresent ⊢
  rw [PhysMem.entry_copyin htable hlen h ht hx, if_neg]
  rintro ⟨rfl, hlt⟩
  rw [habsent x hlt] at hpresent
  cases hpresent

theorem getD_replicate_zero (n x : Nat) : (List.replicate n 0).getD x 0 = 0 := by
  rw [List.getD_eq_getElem?_getD, List.getElem?_replicate]
  split <;> rfl

/-- Zeros over the active map overwrite nothing else. -/
theorem noOverwrite_of_active {m m' : PhysMem} {n : Nat} (htable : table % 0x1000 = 0) (hn : n ≤ 512)
    (h : m.copyin table ((List.replicate n 0).flatMap (leBytes 8)) = some m') :
    KernelWrite.NoOverwrite ⟨some (table, n), m, m'⟩ := by
  have hlen : (List.replicate n 0).length = n := List.length_replicate
  intro t x ht hx _
  dsimp only
  rw [PhysMem.entry_copyin htable (by rw [hlen]; exact hn) h ht hx, hlen, getD_replicate_zero]
  split
  · next hin =>
    obtain ⟨rfl, hlt⟩ := hin
    exact .inr ⟨⟨n, rfl, hlt⟩, rfl⟩
  · exact .inl rfl

/-- Zeros are not present. -/
theorem absent_of_zeros {m m' : PhysMem} {n x : Nat} (htable : table % 0x1000 = 0) (hn : n ≤ 512)
    (h : m.copyin table ((List.replicate n 0).flatMap (leBytes 8)) = some m') (hx : x < n) :
    ptePresent (m'.entry table x) = false := by
  rw [PhysMem.entry_copyin htable (by rw [List.length_replicate]; exact hn) h htable (by omega),
    if_pos ⟨rfl, by rw [List.length_replicate]; exact hx⟩, getD_replicate_zero]
  rfl

/-! ## The table of a span -/

theorem and_physMask_mod (e : Nat) : (e &&& ptwPhysMask) % 0x1000 = 0 := by
  rw [and_physMask, Nat.mul_mod_left]

theorem leafAddrFrom_ok {m : PhysMem} {va left : Nat} {r : Nat × Nat × Nat} (hleft : left ≤ 4) :
    ∀ {table : Nat}, table % 0x1000 = 0 → leafAddrFrom m va left table = .ok r →
      ∃ t, t % 0x1000 = 0 ∧ r.1 = t + ptwIndex va 3 * 8 ∧ r.2.2 = 3 := by
  induction left with
  | zero =>
    intro table _ h
    cases h
  | succ left ih =>
    intro table htable h
    rw [leafAddrFrom] at h
    split at h
    · cases h
    split at h
    · cases h
    next e he =>
    split at h
    · next hlevel =>
      obtain rfl := Except.ok.inj h
      refine ⟨table, htable, ?_, rfl⟩
      rw [hlevel]
    split at h
    · cases h
    split at h
    · cases h
    · exact ih (by omega) (and_physMask_mod e) h

/-- The leaf entries of a span fill one page. -/
theorem procPtwalkLeafAddr_span {m : PhysMem} {pm : Pmaps} {pid span : Nat} {r : Nat × Nat × Nat}
    (hspan : span % saSpan = 0) (h : procPtwalkLeafAddr m pm pid span = .ok r) :
    r.1 % 0x1000 = 0 := by
  rw [procPtwalkLeafAddr] at h
  split at h
  · cases h
  next cr3 _ =>
  obtain ⟨t, ht, haddr, -⟩ := leafAddrFrom_ok (Nat.le_refl 4) (and_physMask_mod cr3) h
  have hidx : ptwIndex span 3 = 0 := by
    rw [ptwIndex_eq]
    rw [saSpan] at hspan
    omega
  rw [haddr, hidx, Nat.zero_mul, Nat.add_zero]
  exact ht

/-! ## The loop over the pages -/

theorem ptePresent_pteAlias (tphys : Nat) : ptePresent (pteAlias tphys) = true := by
  have hbit : (pteAlias tphys) % 2 = 1 := by
    rw [pteAlias, and_physMask, show (0x1000 : Nat) = 2 ^ 12 from rfl, mul_two_pow_or (by decide)]
    omega
  rw [ptePresent, show (0x1 : Nat) = 2 ^ 1 - 1 from rfl, and_low]
  simp [hbit]

theorem pteAlias_lt (tphys : Nat) : pteAlias tphys < 2 ^ 64 := by
  rw [pteAlias, and_physMask, show (0x1000 : Nat) = 2 ^ 12 from rfl, mul_two_pow_or (by decide)]
  omega

/-- What the loop hands to the write. -/
structure Filled (pt : Nat → Nat) (n : Nat) (f : AliasFill) : Prop where
  /-- the places were free -/
  absent : ∀ x < n, ptePresent (pt x) = false
  present : ∀ x < n, ptePresent (f.pt x) = true ∧ f.pt x < 2 ^ 64
  rest : ∀ x, n ≤ x → f.pt x = pt x

theorem Filled.step {pt : Nat → Nat} {n tphys : Nat} {f : AliasFill} {samples : List (Nat × Nat)}
    (h : Filled pt n f) (hfree : ¬ ptePresent (f.pt n) = true) :
    Filled pt (n + 1) ⟨Function.update f.pt n (pteAlias tphys), samples⟩ := by
  refine ⟨fun x hx => ?_, fun x hx => ?_, fun x hx => ?_⟩
  · rcases Nat.lt_succ_iff_lt_or_eq.mp hx with hlt | rfl
    · exact h.absent x hlt
    · rw [h.rest x (Nat.le_refl x)] at hfree
      exact Bool.eq_false_iff.mpr hfree
  · dsimp only
    rcases Nat.lt_succ_iff_lt_or_eq.mp hx with hlt | rfl
    · rw [Function.update_of_ne (Nat.ne_of_lt hlt)]
      exact h.present x hlt
    · rw [Function.update_self]
      exact ⟨ptePresent_pteAlias tphys, pteAlias_lt tphys⟩
  · dsimp only
    rw [Function.update_of_ne (by omega)]
    exact h.rest x (by omega)

/-- **The loop** fills the front of the table, if it gets to the end. -/
theorem saFillLoop_filled {m : PhysMem} {env : AliasEnv} {pid span tgtPg npages left : Nat} {pt : Nat → Nat} :
    ∀ {n : Nat} {sc : SpanCache} {f f' : AliasFill}, Filled pt n f →
      (saFillLoop m env pid span tgtPg npages left n sc f).2 = some f' → Filled pt (n + left) f' := by
  induction left with
  | zero =>
    intro n sc f f' h hloop
    obtain rfl := Option.some.inj hloop
    exact h
  | succ left ih =>
    intro n sc f f' h hloop
    rw [saFillLoop] at hloop
    dsimp only at hloop
    cases hres : saResolve m env pid n (andNot (u64 (tgtPg + n * 0x1000)) (saSpan - 1)) sc with
    | none =>
      rw [hres] at hloop
      cases hloop
    | some sc' =>
      rw [hres, Option.elim_some] at hloop
      cases hphys : saTargetPhys sc' (u64 (tgtPg + n * 0x1000))
          (andNot (u64 (tgtPg + n * 0x1000)) (saSpan - 1)) with
      | none =>
        rw [hphys] at hloop
        cases hloop
      | some tphys =>
        rw [hphys, Option.elim_some] at hloop
        split at hloop
        · cases hloop
        next hfree =>
        have := ih (h.step hfree) hloop
        rwa [Nat.add_right_comm] at this

theorem saFillLoop_all {m : PhysMem} {env : AliasEnv} {pid span tgtPg npages : Nat} {pt : Nat → Nat}
    {sc : SpanCache} {f : AliasFill}
    (h : (saFillLoop m env pid span tgtPg npages npages 0 sc ⟨pt, []⟩).2 = some f) : Filled pt npages f := by
  have hstart : Filled pt 0 ⟨pt, []⟩ :=
    ⟨fun x hx => absurd hx (Nat.not_lt_zero x), fun x hx => absurd hx (Nat.not_lt_zero x), fun _ _ => rfl⟩
  have hall := saFillLoop_filled hstart h
  rwa [Nat.zero_add] at hall

end Ps5Debugger
