import Ps5Debugger.ElfInjectSteps

/-!
# The image of a loaded file

The segments of a file whose lowest page is the first (`minAligned eb = 0`) stay inside the range that is
reserved for it, and no two touch a page together, so what the loader copies one after the other is an image that can be
told byte by byte (`Loaded`): a relocated word, or else the contents of a segment. `load_spec` is what a run of
`procLoadElfInject` comes to, whatever the kernel of the target answers.
-/

namespace Ps5Debugger

open Lib Lib.Space

namespace ElfInject

variable {k : Kernel} {eb mem : Buf} {s₀ : Space} {base : Nat} {ph : Phdr}

/-- The bytes of the image that a relocation changes. -/
def Rela.Covers (r : Rela) (x : Nat) : Prop := r.r_offset ≤ x ∧ x < r.r_offset + 8

instance (r : Rela) (x : Nat) : Decidable (r.Covers x) := inferInstanceAs (Decidable (_ ∧ _))

/-- A file that can be loaded: what is loaded is no longer in the file than in memory, starts at a page and ends
below 2^64, and no two segments overlap. -/
structure WellFormed (eb : Buf) : Prop where
  isElf : IsElf eb
  type : e_type eb = 2 ∨ e_type eb = 3
  filesz_le : ∀ ph ∈ segments eb, ph.p_filesz ≤ ph.p_memsz
  end_lt : ∀ ph ∈ segments eb, ph.p_vaddr + ph.p_memsz < 2 ^ 64
  aligned : ∀ ph ∈ segments eb, ph.p_vaddr % 0x4000 = 0
  disjoint : (segments eb).Pairwise fun ph ph' =>
    ph.p_vaddr + ph.p_memsz ≤ ph'.p_vaddr ∨ ph'.p_vaddr + ph'.p_memsz ≤ ph.p_vaddr

theorem memsz_pos (hmem : ph ∈ segments eb) : 0 < ph.p_memsz :=
  Nat.pos_of_ne_zero (of_decide_eq_true (List.mem_filter.mp hmem).2).2

/-! ## Sizes -/

/-- Rounding up to pages, where the sum does not wrap. -/
theorem pageRoundUp_eq {x : Nat} (h : x + 0x3FFF < 2 ^ 64) : pageRoundUp x = (x + 0x3FFF) / 0x4000 * 0x4000 := by
  rw [pageRoundUp, u64_of_lt h, pageTrunc]

theorem pageRoundUp_wrapped {x : Nat} (hx : x < 2 ^ 64) (h : 2 ^ 64 ≤ x + 0x3FFF) : pageRoundUp x = 0 := by
  rw [pageRoundUp, pageTrunc, u64]
  omega

theorem pageRoundUp_lt (x : Nat) : pageRoundUp x < 2 ^ 64 := by
  have := u64_lt (x + 0x3FFF)
  rw [pageRoundUp, pageTrunc]
  omega

/-- The end of every segment is taken into account. -/
theorem le_maxEndaddr (hmem : ph ∈ segments eb) : u64 (ph.p_vaddr + ph.p_memsz) ≤ maxEndaddr eb := by
  have hfold (m : Nat) (l : List Phdr) :
      let top := l.foldl (fun m ph => if u64 (ph.p_vaddr + ph.p_memsz) > m then u64 (ph.p_vaddr + ph.p_memsz) else m) m
      m ≤ top ∧ ∀ ph ∈ l, u64 (ph.p_vaddr + ph.p_memsz) ≤ top := by
    induction l generalizing m with
    | nil => exact ⟨Nat.le_refl m, fun _ h => absurd h List.not_mem_nil⟩
    | cons ph l ih =>
      obtain ⟨hle, hall⟩ := ih (if u64 (ph.p_vaddr + ph.p_memsz) > m then u64 (ph.p_vaddr + ph.p_memsz) else m)
      have hstart : m ≤ (if u64 (ph.p_vaddr + ph.p_memsz) > m then u64 (ph.p_vaddr + ph.p_memsz) else m) ∧
          u64 (ph.p_vaddr + ph.p_memsz) ≤
            (if u64 (ph.p_vaddr + ph.p_memsz) > m then u64 (ph.p_vaddr + ph.p_memsz) else m) := by
        split <;> omega
      exact ⟨hstart.1.trans hle, List.forall_mem_cons.mpr ⟨hstart.2.trans hle, hall⟩⟩
  exact (hfold 0 (segments eb)).2 ph hmem

theorem maxEndaddr_lt : maxEndaddr eb < 2 ^ 64 := by
  rw [maxEndaddr]
  refine List.foldlRecOn (motive := fun m => m < 2 ^ 64) _ _ (by decide) fun m hm ph _ => ?_
  split
  · exact u64_lt _
  · exact hm

theorem totalSize_eq (hlow : minAligned eb = 0) : totalSize eb = pageRoundUp (maxEndaddr eb) := by
  rw [totalSize, hlow, subU64_of_le (Nat.zero_le _) (pageRoundUp_lt _), Nat.sub_zero]

section Fits

variable (hwf : WellFormed eb) (hlow : minAligned eb = 0) (hpos : 0 < totalSize eb)
include hwf hlow hpos

/-- The whole pages of a segment. -/
theorem alignedMemsz_eq (hmem : ph ∈ segments eb) : ph.alignedMemsz = (ph.p_memsz + 0x3FFF) / 0x4000 * 0x4000 := by
  have hend := le_maxEndaddr hmem
  rw [u64_of_lt (hwf.end_lt ph hmem)] at hend
  refine pageRoundUp_eq (Nat.lt_of_not_le fun hwrap => ?_)
  rw [totalSize_eq hlow, pageRoundUp_wrapped maxEndaddr_lt (by omega)] at hpos
  exact Nat.lt_irrefl 0 hpos

/-- They lie in the range. -/
theorem segment_fits (hmem : ph ∈ segments eb) :
    ph.p_vaddr + ph.alignedMemsz ≤ totalSize eb ∧ ph.p_memsz ≤ ph.alignedMemsz := by
  have hend := le_maxEndaddr hmem
  have hpage := hwf.aligned ph hmem
  rw [u64_of_lt (hwf.end_lt ph hmem)] at hend
  rw [totalSize_eq hlow] at hpos ⊢
  have hnowrap : maxEndaddr eb + 0x3FFF < 2 ^ 64 := Nat.lt_of_not_le fun hwrap =>
    absurd hpos (by rw [pageRoundUp_wrapped maxEndaddr_lt hwrap]; exact Nat.lt_irrefl 0)
  rw [pageRoundUp_eq hnowrap, Phdr.alignedMemsz, pageRoundUp_eq (by omega)]
  omega

/-- No two segments have a page in common. -/
theorem pages_disjoint : (segments eb).Pairwise fun ph ph' =>
    ph.p_vaddr + ph.alignedMemsz ≤ ph'.p_vaddr ∨ ph'.p_vaddr + ph'.alignedMemsz ≤ ph.p_vaddr := by
  refine hwf.disjoint.imp_of_mem fun {ph ph'} hmem hmem' hor => ?_
  have hpage := hwf.aligned ph hmem
  have hpage' := hwf.aligned ph' hmem'
  rw [alignedMemsz_eq hwf hlow hpos hmem, alignedMemsz_eq hwf hlow hpos hmem']
  omega

end Fits

/-! ## The copies of a run -/

/-- What is copied into the range, in this order. -/
def imageCopies (eb : Buf) (base : Nat) : List Copy :=
  ((segments eb).flatMap fun ph => segmentCopies eb ph (base + ph.p_vaddr)) ++ (relas eb).map (relaCopy base)

theorem covers_relaCopy {r : Rela} {x : Nat} : (relaCopy base r).Covers (base + x) ↔ r.Covers x := by
  simp only [Copy.Covers, relaCopy, Rela.Covers]
  omega

/-- A relocated byte is that of the last relocation there. -/
theorem image_relocated {rs rs' : List Rela} {r : Rela} {i : Nat} (heq : relas eb = rs ++ r :: rs') (hi : i < 8)
    (hlast : ∀ r' ∈ rs', ¬ r'.Covers (r.r_offset + i)) :
    copies mem (imageCopies eb base) (base + (r.r_offset + i)) =
      ofList (leBytes 8 (u64 (base + r.r_addend))) i := by
  have hcovers : (relaCopy base r).Covers (base + (r.r_offset + i)) :=
    covers_relaCopy.mpr ⟨Nat.le_add_right _ _, Nat.add_lt_add_left hi _⟩
  rw [imageCopies, heq, List.map_append, List.map_cons, ← List.append_assoc, copies_last hcovers]
  · simp only [relaCopy]
    rw [← Nat.add_assoc, Nat.add_sub_cancel_left]
  · intro c hc
    obtain ⟨r', hr', rfl⟩ := List.mem_map.mp hc
    exact fun h => hlast r' hr' (covers_relaCopy.mp h)

section Image

variable (hwf : WellFormed eb) (hlow : minAligned eb = 0)
include hwf hlow

/-- Any other byte of a segment is that of the file. -/
theorem image_segment (hpos : 0 < totalSize eb) (hmem : ph ∈ segments eb) {i : Nat} (hi : i < ph.p_memsz)
    (hrelas : ∀ r ∈ relas eb, ¬ r.Covers (ph.p_vaddr + i)) :
    copies mem (imageCopies eb base) (base + (ph.p_vaddr + i)) = eb (ph.p_offset + i) := by
  obtain ⟨front, back, hsplit⟩ := List.append_of_mem hmem
  have hapart := pages_disjoint hwf hlow hpos
  have hlen := (segment_fits hwf hlow hpos hmem).2
  rw [hsplit] at hapart
  have hback := (List.pairwise_cons.mp (List.pairwise_append.mp hapart).2.1).1
  let contents : Copy := ⟨base + ph.p_vaddr, view eb ph.p_offset, ph.p_memsz⟩
  have hcovers : contents.Covers (base + (ph.p_vaddr + i)) := by
    simp only [Copy.Covers, contents]
    omega
  -- the contents are copied after the pages were mapped, and nothing copied later is there
  have hcopies : imageCopies eb base =
      ((front.flatMap fun ph => segmentCopies eb ph (base + ph.p_vaddr)) ++
        [⟨base + ph.p_vaddr, fun _ => 0, ph.alignedMemsz⟩]) ++ contents ::
          ((back.flatMap fun ph => segmentCopies eb ph (base + ph.p_vaddr)) ++ (relas eb).map (relaCopy base)) := by
    simp [imageCopies, hsplit, segmentCopies, contents]
  rw [hcopies, copies_last hcovers]
  · simp only [contents, view_apply]
    rw [← Nat.add_assoc, Nat.add_sub_cancel_left]
  · intro c hc
    rcases List.mem_append.mp hc with hseg | hrela
    · obtain ⟨ph', hph', hc'⟩ := List.mem_flatMap.mp hseg
      have hmem' : ph' ∈ segments eb := by
        rw [hsplit]
        exact List.mem_append_right _ (List.mem_cons_of_mem _ hph')
      have hlen' := (segment_fits hwf hlow hpos hmem').2
      have hor := hback ph' hph'
      simp only [segmentCopies, List.mem_cons, List.not_mem_nil, or_false] at hc'
      rcases hc' with rfl | rfl <;> simp only [Copy.Covers] <;> omega
    · obtain ⟨r, hr, rfl⟩ := List.mem_map.mp hrela
      exact fun h => hrelas r hr (covers_relaCopy.mp h)

theorem places_do (hk : k.Clean) (hpos : 0 < totalSize eb) (htop : base + totalSize eb ≤ 2 ^ 64) :
    Does (Holds s₀ base (base + totalSize eb)) mem (allOf (place k eb base) (segments eb))
      (copies mem ((segments eb).flatMap fun ph => segmentCopies eb ph (base + ph.p_vaddr))) := by
  rw [← copies_flatMap]
  refine allOf_does (fun ph hmem m => ?_) mem
  obtain ⟨hfits, hlen⟩ := segment_fits hwf hlow hpos hmem
  have hne := memsz_pos hmem
  exact place_does hk (by omega) (Nat.le_add_right _ _) (by omega) hlen

end Image

theorem relocates_do (htop : base + totalSize eb ≤ 2 ^ 64) (hrelas : ∀ r ∈ relas eb, r.r_offset + 8 ≤ totalSize eb) :
    Does (Holds s₀ base (base + totalSize eb)) mem (allOf (relocate k base) (relas eb))
      (copies mem ((relas eb).map (relaCopy base))) := by
  rw [← copies_map]
  refine allOf_does (fun r hr m => ?_) mem
  have hfits := hrelas r hr
  exact relocate_does (Nat.le_add_right _ _) (by omega) htop

theorem protects_do (hi : Nat) :
    Does (Holds s₀ base hi) mem (allOf (protect k base) (segments eb)) mem := by
  have hkeep : (segments eb).foldl (fun m _ => m) mem = mem := List.foldl_fixed _
  have hdoes : Does (Holds s₀ base hi) mem (allOf (protect k base) (segments eb))
      ((segments eb).foldl (fun m _ => m) mem) := allOf_does (fun _ _ _ => mprotect_does) mem
  rwa [hkeep] at hdoes

/-- The three loops. -/
theorem fill_does (hk : k.Clean) (hwf : WellFormed eb) (hlow : minAligned eb = 0) (hpos : 0 < totalSize eb)
    (htop : base + totalSize eb ≤ 2 ^ 64) (hrelas : ∀ r ∈ relas eb, r.r_offset + 8 ≤ totalSize eb) :
    Does (Holds s₀ base (base + totalSize eb)) mem (fill k eb base) (copies mem (imageCopies eb base)) := by
  rw [imageCopies, copies_append]
  exact (places_do hwf hlow hk hpos htop).andThen ((relocates_do htop hrelas).andThen (protects_do _))

/-! ## Two files -/

/-- A kernel that maps behind what is mapped, and refuses nothing that can be done. -/
def generous : Kernel where
  mmap _ s r :=
    if r.len = 0 then none
    else if r.fixed then if r.addr % 0x4000 = 0 ∧ r.addr + r.len ≤ 2 ^ 64 then some r.addr else none
    else
      let a := (max s.top 0x10000 + 0x3FFF) / 0x4000 * 0x4000
      if a + r.len ≤ 2 ^ 64 then some a else none
  munmap _ _ _ _ := true
  mprotect _ _ _ _ _ := true
  jitshmCreate n _ _ _ _ := some n
  jitshmAlias n _ _ _ := some n
  close _ _ _ := true
  ioWrite _ _ _ _ := none
  lost _ := false
  mmap_range := by
    intro n s r a h
    dsimp only at h
    split_ifs at h <;> cases h <;> omega
  mmap_fixed := by
    intro n s r a h hfixed
    dsimp only at h
    rw [if_pos hfixed] at h
    split_ifs at h
    cases h
    rfl
  mmap_free := by
    intro n s r a h hfixed i _
    dsimp only at h
    simp only [hfixed, Bool.false_eq_true, if_false] at h
    split_ifs at h
    obtain rfl := Option.some.inj h
    cases hcell : s.cells ((max s.top 0x10000 + 0x3FFF) / 0x4000 * 0x4000 + i) with
    | none => rfl
    | some c =>
      have := s.lt_top hcell
      omega

theorem generous_clean : generous.Clean := ⟨fun _ => rfl, fun _ _ _ => rfl⟩

/-- An ELF header of an ET_DYN file, with the program headers behind it. -/
def elfHeader (entry shoff phnum shnum : Nat) : List Byte :=
  [0x7F, 0x45, 0x4C, 0x46] ++ List.replicate 12 0 ++ leBytes 2 3 ++ leBytes 2 62 ++ leBytes 4 1 ++ leBytes 8 entry ++
    leBytes 8 64 ++ leBytes 8 shoff ++ leBytes 4 0 ++ leBytes 2 64 ++ leBytes 2 56 ++ leBytes 2 phnum ++ leBytes 2 64 ++
    leBytes 2 shnum ++ leBytes 2 0

/-- A program header of PT_LOAD. -/
def loadHeader (flags off vaddr filesz memsz : Nat) : List Byte :=
  leBytes 4 1 ++ leBytes 4 flags ++ leBytes 8 off ++ leBytes 8 vaddr ++ leBytes 8 vaddr ++ leBytes 8 filesz ++
    leBytes 8 memsz ++ leBytes 8 0x4000

/-- Code at 0, data at 0x4000 with zeros behind it, and a relocation of the data. -/
def sampleFile : List Byte :=
  elfHeader 0 218 2 1 ++ loadHeader 5 176 0 2 2 ++ loadHeader 6 178 0x4000 8 16 ++
    [0x90, 0xC3] ++ [1, 2, 3, 4, 5, 6, 7, 8] ++ List.replicate 8 0 ++
    (leBytes 8 0x4000 ++ leBytes 8 8 ++ leBytes 8 1) ++
    (leBytes 4 0 ++ leBytes 4 4 ++ leBytes 8 0 ++ leBytes 8 0 ++ leBytes 8 194 ++ leBytes 8 24 ++ List.replicate 24 0)

theorem sample_wellFormed : WellFormed (ofList sampleFile) where
  isElf := by decide +kernel
  type := by decide +kernel
  filesz_le := by decide +kernel
  end_lt := by decide +kernel
  aligned := by decide +kernel
  disjoint := by decide +kernel

/-- Code at 0x4000, one byte of it in the file. -/
def shiftedFile : List Byte := elfHeader 0x4000 0 1 0 ++ loadHeader 5 120 0x4000 1 2 ++ [0xC3, 0x90]

/-! ## Runs -/

/-- What a process has after a file was loaded at `base`: the contents of the segments, with zeros behind them where
the file goes on with zeros, the relocated words, and for the rest what it had. -/
structure Loaded (eb : Buf) (base : Nat) (s₀ s : Space) : Prop where
  contents : ∀ ph ∈ segments eb, ∀ i < ph.p_filesz, (∀ r ∈ relas eb, ¬ r.Covers (ph.p_vaddr + i)) →
    s.read (base + (ph.p_vaddr + i)) = some (eb (ph.p_offset + i))
  zeros : ∀ ph ∈ segments eb, ∀ i < ph.p_memsz, (∀ r ∈ relas eb, ¬ r.Covers (ph.p_vaddr + i)) →
    eb (ph.p_offset + i) = 0 → s.read (base + (ph.p_vaddr + i)) = some 0
  relocated : ∀ rs r rs', relas eb = rs ++ r :: rs' → ∀ i < 8, (∀ r' ∈ rs', ¬ r'.Covers (r.r_offset + i)) →
    s.read (base + (r.r_offset + i)) = some (ofList (leBytes 8 (u64 (base + r.r_addend))) i)
  others : ∀ x, ¬ (base ≤ x ∧ x < base + totalSize eb) → s.cells x = s₀.cells x ∧ s.read x = s₀.read x

/-- What is mapped was mapped before, and has not changed. -/
def NothingLeft (s₀ s : Space) : Prop := ∀ x, s.cells x = none ∨ s.cells x = s₀.cells x ∧ s.read x = s₀.read x

/-- What a run comes to: the image and its entry point, or an error, and that only when a call failed. Without a name
an ET_EXEC file is put where it asks to be. -/
inductive Comes (eb : Buf) (thread_name : Option (Option Nat)) (s₀ : Space) : Except Int Nat → Target → Prop
  | loaded {base : Nat} {t : Target} (hbase : e_type eb = 2 → thread_name = none → base = 0)
      (hin : Inside base (base + totalSize eb) t.log) (himage : Loaded eb base s₀ t.space) :
      Comes eb thread_name s₀ (.ok (u64 (base + e_entry eb))) t
  | refused {base : Nat} {t : Target} {rc : Int} (hfail : thread_name = some none ∨ t.failed = true) (hrc : rc ≤ 0)
      (hin : Inside base (base + totalSize eb) t.log) (hleft : NothingLeft s₀ t.space) :
      Comes eb thread_name s₀ (.error rc) t

theorem Holds.loaded {t : Target} (hwf : WellFormed eb) (hlow : minAligned eb = 0) (hpos : 0 < totalSize eb)
    (hrelas : ∀ r ∈ relas eb, r.r_offset + 8 ≤ totalSize eb)
    (h : Holds s₀ base (base + totalSize eb) (copies mem (imageCopies eb base)) t) : Loaded eb base s₀ t.space := by
  have hsegment {ph : Phdr} (hmem : ph ∈ segments eb) {i : Nat} (hi : i < ph.p_memsz)
      (hfree : ∀ r ∈ relas eb, ¬ r.Covers (ph.p_vaddr + i)) :
      t.space.read (base + (ph.p_vaddr + i)) = some (eb (ph.p_offset + i)) := by
    obtain ⟨hfits, hlen⟩ := segment_fits hwf hlow hpos hmem
    rw [h.owns.read (Nat.le_add_right _ _) (by omega), image_segment hwf hlow hpos hmem hi hfree]
  refine ⟨fun ph hmem i hi => hsegment hmem (Nat.lt_of_lt_of_le hi (hwf.filesz_le ph hmem)), ?_, ?_, fun x hx =>
    ⟨h.owns.outside x hx, h.owns.read_outside hx⟩⟩
  · intro ph hmem i hi hfree hzero
    rw [hsegment hmem hi hfree, hzero]
  · intro rs r rs' heq i hi hlast
    have hfits := hrelas r (heq ▸ List.mem_append_right rs List.mem_cons_self)
    rw [h.owns.read (Nat.le_add_right _ _) (by omega), image_relocated heq hi hlast]

theorem nothingLeft_refl : NothingLeft s₀ s₀ := fun _ => .inr ⟨rfl, rfl⟩

/-- The range is given back. -/
theorem munmap_leaves (hk : k.Clean) {len : Nat} (hlen : 0 < len) (hpage : base % 0x4000 = 0)
    (htop : base + len ≤ 2 ^ 64) :
    Triple (Holds s₀ base (base + len) mem) (freebsdMunmap k base len) fun _ t =>
      Inside base (base + len) t.log ∧ NothingLeft s₀ t.space := by
  intro t ht
  rw [freebsdMunmap, if_pos (hk.munmap hlen hpage htop)]
  exact ⟨ht.inside, ht.owns.unmap⟩

/-- The call that reserves the range. -/
theorem mmap_reserves (hk : k.Clean) {r : MmapArgs} (hfd : r.fd = none) :
    Triple (· = Target.start s₀) (freebsdMmap k r false) fun o t => match o with
      | none => t.failed = true ∧ t.log = [] ∧ t.space = s₀
      | some base => (r.fixed = true → base = r.addr) ∧ (0 < r.len ∧ base % 0x4000 = 0 ∧ base + r.len ≤ 2 ^ 64) ∧
          Holds s₀ base (base + r.len) (fun _ => 0) t := by
  rintro t rfl
  rw [freebsdMmap]
  cases hmap : k.mmap (Target.start s₀).calls (Target.start s₀).space r with
  | none => exact ⟨rfl, rfl, rfl⟩
  | some b =>
    rw [hfd]
    dsimp only
    rw [hk.reply_eq]
    refine ⟨k.mmap_fixed hmap, k.mmap_range hmap, Owns.reserve s₀ b r.len, ?_⟩
    intro x hx
    rw [List.mem_singleton.mp hx]
    exact .inr ⟨Nat.le_refl _, Nat.le_refl _⟩

/-- The run from there on. -/
theorem filled (hk : k.Clean) {name : Option (Option Nat)} (hwf : WellFormed eb) (hlow : minAligned eb = 0)
    (hrelas : ∀ r ∈ relas eb, r.r_offset + 8 ≤ totalSize eb) (hpos : 0 < totalSize eb) (hpage : base % 0x4000 = 0)
    (htop : base + totalSize eb ≤ 2 ^ 64) (hfixed : e_type eb = 2 → name = none → base = 0) :
    Triple (Holds s₀ base (base + totalSize eb) mem) (do
      if ← fill k eb base then return .ok (u64 (base + e_entry eb))
      else
        freebsdMunmap k base (totalSize eb)
        return .error 0 : StateM Target (Except Int Nat)) (Comes eb name s₀) := by
  have hfill : Triple (Holds s₀ base (base + totalSize eb) mem) (fill k eb base) fun ok t =>
      (if ok then Holds s₀ base (base + totalSize eb) (copies mem (imageCopies eb base)) t
        else ∃ mem', Holds s₀ base (base + totalSize eb) mem' t) ∧ (ok = false → t.failed = true) :=
    fun t ht => ⟨fill_does hk hwf hlow hpos htop hrelas t ht, fun h => fill_flags t (.inr h)⟩
  refine Triple.bind hfill fun ok => ?_
  cases ok with
  | true =>
    rintro t ⟨ht, -⟩
    exact .loaded hfixed ht.inside (ht.loaded hwf hlow hpos hrelas)
  | false =>
    rintro t ⟨⟨mem', ht⟩, hfail⟩
    obtain ⟨hin, hleft⟩ := munmap_leaves hk hpos hpage htop t ht
    exact .refused (.inr (munmap_flags t (.inl (hfail rfl)))) (Int.le_refl 0) hin hleft

/-- An ET_EXEC file asks for a place. -/
theorem mmapRequest_of (hwf : WellFormed eb) : ∃ flags request, mmapRequest eb = some (flags, request) ∧
    (e_type eb = 2 → flags.testBit 4 = true ∧ request = minAligned eb) := by
  rw [mmapRequest]
  rcases hwf.type with h | h
  · exact ⟨_, _, if_pos h, fun _ => ⟨fixed_private, rfl⟩⟩
  · have hne : ¬ e_type eb = 2 := by omega
    exact ⟨_, _, (if_neg hne).trans (if_pos h), fun h' => absurd h' hne⟩

/-- **A load.** Every run ends with the image of the file in a range of its own, or leaves nothing behind; the second
only when a call failed. -/
theorem load_spec (hwf : WellFormed eb) (hlow : minAligned eb = 0)
    (hrelas : ∀ r ∈ relas eb, r.r_offset + 8 ≤ totalSize eb) (hk : k.Clean) (thread_name : Option (Option Nat))
    (s₀ : Space) :
    let run := procLoadElfInject k eb thread_name (Target.start s₀)
    Comes eb thread_name s₀ run.1 run.2 := by
  obtain ⟨flags, request, hreq, hexec⟩ := mmapRequest_of hwf
  have hreserved (name : Option (Option Nat)) : Triple (· = Target.start s₀) (do
      match ← freebsdMmap k ⟨(name.bind id).getD request, totalSize eb, 0, flags, none⟩ false with
      | none => return .error 0
      | some base_addr =>
        if ← fill k eb base_addr then return .ok (u64 (base_addr + e_entry eb))
        else
          freebsdMunmap k base_addr (totalSize eb)
          return .error 0 : StateM Target (Except Int Nat)) (Comes eb name s₀) := by
    refine Triple.bind (mmap_reserves hk rfl) fun o => ?_
    cases o with
    | none =>
      rintro t ⟨hfail, hlog, rfl⟩
      have hin : Inside 0 (0 + totalSize eb) t.log := by
        rw [hlog]
        exact fun x hx => absurd hx List.not_mem_nil
      exact .refused (.inr hfail) (Int.le_refl 0) hin nothingLeft_refl
    | some base =>
      refine Triple.of_and fun hfixed => Triple.of_and fun hrange => ?_
      refine filled hk hwf hlow hrelas hrange.1 hrange.2.1 hrange.2.2 ?_
      rintro htype rfl
      obtain ⟨hbit, rfl⟩ := hexec htype
      exact (hfixed hbit).trans hlow
  unfold procLoadElfInject
  rw [if_pos hwf.isElf, hreq]
  rcases thread_name with _ | _ | addr
  · exact hreserved none _ rfl
  · exact .refused (.inl rfl) (by decide) (fun x hx => absurd hx List.not_mem_nil : Inside 0 (0 + totalSize eb) [])
      nothingLeft_refl
  · exact hreserved (some (some addr)) _ rfl

theorem load_spec_sample :
    let run := procLoadElfInject generous (ofList sampleFile) none (Target.start Space.empty)
    Comes (ofList sampleFile) none Space.empty run.1 run.2 := by
  have hlow : minAligned (ofList sampleFile) = 0 := by decide +kernel
  have hrelas : ∀ r ∈ relas (ofList sampleFile), r.r_offset + 8 ≤ totalSize (ofList sampleFile) := by decide +kernel
  exact load_spec sample_wellFormed hlow hrelas generous_clean none Space.empty

/-- Code is written through a second mapping, which is outside the range for every file. Beside that, a file whose
lowest page is another one is not put at the front of the range but behind it, with what follows the contents in the
file; and a range stays mapped when the reply to the call that reserved it is lost. -/
theorem image_strays :
    let run (k : Kernel) (file : List Byte) := procLoadElfInject k (ofList file) none (Target.start Space.empty)
    let inside (file : List Byte) := ∀ x ∈ (run generous file).2.log,
      0x10000 ≤ x.addr ∧ x.addr + x.len ≤ 0x10000 + totalSize (ofList file)
    ((run generous sampleFile).2.failed = false ∧ (run generous sampleFile).1.toOption = some 0x10000 ∧
      ¬ inside sampleFile) ∧
    (WellFormed (ofList shiftedFile) ∧ relas (ofList shiftedFile) = [] ∧ (run generous shiftedFile).2.failed = false ∧
      ¬ ∀ ph ∈ segments (ofList shiftedFile), ∀ i < ph.p_memsz,
        (run generous shiftedFile).2.space.read (0x10000 + (ph.p_vaddr - minAligned (ofList shiftedFile)) + i) =
          some (if i < ph.p_filesz then ofList shiftedFile (ph.p_offset + i) else 0)) ∧
    let lossy : Kernel := { generous with lost := fun n => n = 0 }
    (run lossy sampleFile).1.toOption = none ∧ (run lossy sampleFile).2.space.cells 0x10000 ≠ none := by
  refine ⟨⟨?_, ?_, ?_⟩, ⟨⟨?_, ?_, ?_, ?_, ?_, ?_⟩, ?_, ?_, ?_⟩, ?_, ?_⟩ <;> decide +kernel

end ElfInject

end Ps5Debugger
