import Ps5Debugger.ElfSymbols

/-!
# Symbols inside the file

When every byte that is read for the symbols lies in the file that was received. The handler tests sums
of 64-bit offsets and sizes that may wrap, does not ask for headers and entries as long as the fields that
it reads, and copies names up to a zero wherever that is. `elf_symbols_inside_iff` says what a file must be
like for that not to matter.
-/

namespace Ps5Debugger

open Lib

namespace ElfSymbols

/-! ## The file -/

section File

variable (eb : Buf)

/-- The number at an offset. -/
def word (off size : Nat) : Nat := leNat size (slice eb (u64 off) size)

def Ehdr.of : Ehdr := ⟨word eb 0x28 8, word eb 0x3A 2, word eb 0x3C 2, word eb 0x3E 2⟩

def Shdr.of (sh : Nat) : Shdr :=
  ⟨word eb (sh + 0x4) 4, word eb (sh + 0x18) 8, word eb (sh + 0x20) 8, word eb (sh + 0x28) 4, word eb (sh + 0x38) 8⟩

def ElfSym.of (off : Nat) : ElfSym := ⟨word eb off 4, word eb (off + 4) 1, word eb (off + 8) 8, word eb (off + 16) 8⟩

/-- A section by its index. -/
def Ehdr.section (h : Ehdr) (i : Nat) : Shdr := Shdr.of eb (h.shdr i)

/-- The last section of a type among the first `n`. -/
def Ehdr.lastOfType (h : Ehdr) (type : Nat) : Nat → Shdr
  | 0 => Shdr.none
  | n + 1 => if (h.section eb n).sh_type = type then h.section eb n else lastOfType h type n

/-- The table that the symbols are taken from. -/
def Ehdr.chosen (h : Ehdr) : Shdr := chooseTable (h.lastOfType eb 2 h.e_shnum) (h.lastOfType eb 11 h.e_shnum)

/-- The strings of a section that is linked to them. -/
def Ehdr.strings (h : Ehdr) (length : UInt32) (link : Nat) : Option Strtab :=
  if link < h.e_shnum then Strtab.accept length (h.section eb link).sh_offset (h.section eb link).sh_size else none

/-- A string ends in the file. -/
def EndsInFile (length : UInt32) (p : Nat) : Prop := ∃ q, p ≤ q ∧ q < length.toNat ∧ eb q = 0

/-! ## The condition -/

/-- The header of a section lies in the file from its type on. -/
def HeaderInside (length : UInt32) (h : Ehdr) (i : Nat) : Prop := u64 (h.shdr i + 0x4) + 0x3C ≤ length.toNat

/-- The name of a symbol, if it has an index into the strings, starts in the file; unless it is empty or
not `wanted`, it ends there. -/
def NameInside (length : UInt32) (str : Strtab) (st_name : Nat) (wanted : Prop) : Prop :=
  st_name < str.strsiz → u64 (str.stroff + st_name) < length.toNat ∧
    (eb (u64 (str.stroff + st_name)) ≠ 0 → wanted → EndsInFile eb length (u64 (str.stroff + st_name)))

/-- A symbol that is not skipped lies in the file, with its name. -/
def SymbolInside (length : UInt32) (table : Shdr) (str : Strtab) (i : Nat) : Prop :=
  u64 (table.entry i + 24) ≤ length.toNat →
    table.entry i + 24 ≤ length.toNat ∧
      NameInside eb length str (ElfSym.of eb (table.entry i)).st_name ((ElfSym.of eb (table.entry i)).st_value ≠ 0)

/-- The address that a symbol is gathered with. -/
def SymbolGives (length : UInt32) (table : Shdr) (str : Strtab) (i addr : Nat) : Prop :=
  u64 (table.entry i + 24) ≤ length.toNat ∧ (ElfSym.of eb (table.entry i)).st_name < str.strsiz ∧
    eb (u64 (str.stroff + (ElfSym.of eb (table.entry i)).st_name)) ≠ 0 ∧
    (ElfSym.of eb (table.entry i)).st_value ≠ 0 ∧ (ElfSym.of eb (table.entry i)).st_value = addr

/-- The symbol that a relocation refers to. -/
def relocSymbol (rel symsh : Shdr) (j : Nat) : Nat :=
  symsh.entry (word eb (rel.entry j + 8) 8 / 2 ^ 32)

def relocAddr (rel symsh : Shdr) (j : Nat) : Nat :=
  useAddr (word eb (rel.entry j) 8) (ElfSym.of eb (relocSymbol eb rel symsh j)).st_value

/-- A relocation that is not skipped lies in the file, so does its symbol, with its name; a name is not
wanted for an address that an earlier symbol has. -/
def RelocInside (length : UInt32) (rel symsh : Shdr) (str : Option Strtab) (earlier : Nat → Prop) (j : Nat) : Prop :=
  u64 (rel.entry j + rel.sh_entsize) ≤ length.toNat →
    rel.entry j + 16 ≤ length.toNat ∧
      (u64 (relocSymbol eb rel symsh j + 24) ≤ length.toNat →
        relocSymbol eb rel symsh j + 24 ≤ length.toNat ∧
          ∀ s ∈ str, NameInside eb length s (ElfSym.of eb (relocSymbol eb rel symsh j)).st_name
            (relocAddr eb rel symsh j ≠ 0 ∧ ¬ earlier (relocAddr eb rel symsh j)))

/-- The address that a relocation is gathered with, unless an earlier symbol has it. -/
def RelocGives (length : UInt32) (rel symsh : Shdr) (str : Option Strtab) (j addr : Nat) : Prop :=
  u64 (rel.entry j + rel.sh_entsize) ≤ length.toNat ∧ u64 (relocSymbol eb rel symsh j + 24) ≤ length.toNat ∧
    (∃ s ∈ str, (ElfSym.of eb (relocSymbol eb rel symsh j)).st_name < s.strsiz ∧
      eb (u64 (s.stroff + (ElfSym.of eb (relocSymbol eb rel symsh j)).st_name)) ≠ 0) ∧
    relocAddr eb rel symsh j ≠ 0 ∧ relocAddr eb rel symsh j = addr

/-- The table that the relocations of a section refer to. -/
def Ehdr.linked (h : Ehdr) (rel : Shdr) : Shdr := h.section eb rel.sh_link

/-- The strings of that table. -/
def Ehdr.linkedStrings (h : Ehdr) (length : UInt32) (rel : Shdr) : Option Strtab :=
  h.strings eb length (h.linked eb rel).sh_link

/-- A section whose relocations are walked through. -/
def Walked (length : UInt32) (h : Ehdr) (rel : Shdr) : Prop :=
  RelocSection length h rel ∧ (h.linked eb rel).Placed length

/-- REL or RELA -/
def Shdr.IsReloc (sh : Shdr) : Prop := sh.sh_type = 4 ∨ sh.sh_type = 9

/-- The number of entries of a table. -/
def Shdr.count (sh : Shdr) : Nat := sh.sh_size / sh.sh_entsize

/-- A section of relocations gives this address before its entry `n`. -/
def SectionGives (length : UInt32) (h : Ehdr) (rel : Shdr) (n addr : Nat) : Prop :=
  Walked eb length h rel ∧ ∃ j < n, RelocGives eb length rel (h.linked eb rel) (h.linkedStrings eb length rel) j addr

/-- An address is that of a symbol, or of a relocation before entry `j` of section `i`. -/
def Earlier (length : UInt32) (h : Ehdr) (str : Strtab) (i j addr : Nat) : Prop :=
  (∃ k < (h.chosen eb).count, SymbolGives eb length (h.chosen eb) str k addr) ∨
    (∃ i' < i, (h.section eb i').IsReloc ∧ SectionGives eb length h (h.section eb i') (h.section eb i').count addr) ∨
    SectionGives eb length h (h.section eb i) j addr

/-- The symbols and the relocations lie in the file. -/
structure TablesInside (length : UInt32) (h : Ehdr) (str : Strtab) : Prop where
  symbols : ∀ i < (h.chosen eb).count, SymbolInside eb length (h.chosen eb) str i
  relocs : ∀ i < h.e_shnum, (h.section eb i).IsReloc → Walked eb length h (h.section eb i) →
    ∀ j < (h.section eb i).count, RelocInside eb length (h.section eb i) (h.linked eb (h.section eb i))
      (h.linkedStrings eb length (h.section eb i)) (Earlier eb length h str i j) j

/-- **A sound file**: what is not refused lies in it. -/
def Sound (length : UInt32) : Prop :=
  ¬ length < 0x40 → (Ehdr.of eb).Accepted length →
    (∀ i < (Ehdr.of eb).e_shnum, HeaderInside length (Ehdr.of eb) i) ∧
      (((Ehdr.of eb).chosen eb).Placed length →
        ∀ str ∈ (Ehdr.of eb).strings eb length ((Ehdr.of eb).chosen eb).sh_link,
          TablesInside eb length (Ehdr.of eb) str)

end File

/-! ## Reading headers and symbols -/

section Steps

variable {eb : Buf} {length : UInt32} {h : Ehdr}

theorem length_lt (length : UInt32) : length.toNat < 2 ^ 32 := UInt32.toNat_lt length

theorem val_readAt (off size : Nat) : (readAt eb off size).val = word eb off size := rfl

theorem val_readElfSym (off : Nat) : (readElfSym eb off).val = ElfSym.of eb off := rfl

theorem within_readAt {off size : Nat} :
    (readAt eb off size).Within length.toNat ↔ u64 off + size ≤ length.toNat := Reads.within_load

/-- A string is copied up to its zero, wherever that is. -/
theorem within_strdup {p : Nat} : (strdup eb p).Within length.toNat ↔ EndsInFile eb length p := by
  have hlt := length_lt length
  have hrange : (strdup eb p).Within length.toNat ↔ p + (strlen eb (2 ^ 64) p + 1) ≤ length.toNat := by
    simp [Reads.Within, strdup]
  rw [hrange]
  by_cases hp : p < length.toNat
  · have hlen : strlen eb (2 ^ 64) p < length.toNat - p ↔ _ := strlen_lt_iff (by omega)
    rw [Nat.add_sub_cancel' (Nat.le_of_lt hp)] at hlen
    rw [EndsInFile, ← hlen]
    omega
  · refine iff_of_false (by omega) ?_
    rintro ⟨q, hle, hlt, -⟩
    omega

theorem within_readEhdr (hlen : ¬ length < 0x40) : (readEhdr eb).Within length.toNat := by
  have hmin : (0x40 : UInt32).toNat ≤ length.toNat := UInt32.le_iff_toNat_le.mp (UInt32.not_lt.mp hlen)
  have h40 : (0x40 : UInt32).toNat = 0x40 := rfl
  simp only [readEhdr, Reads.within_bind, within_readAt, Reads.within_pure, and_true, u64]
  omega

/-- The five fields of a header that are read reach from its type to its end. -/
theorem within_readShdr {sh : Nat} :
    (readShdr eb sh).Within length.toNat ↔ u64 (sh + 0x4) + 0x3C ≤ length.toNat := by
  have hlt := length_lt length
  simp only [readShdr, Reads.within_bind, within_readAt, Reads.within_pure, and_true, u64]
  omega

theorem within_readElfSym {off : Nat} (hoff : off < 2 ^ 64) :
    (readElfSym eb off).Within length.toNat ↔ off + 24 ≤ length.toNat := by
  have hlt := length_lt length
  simp only [readElfSym, Reads.within_bind, within_readAt, Reads.within_pure, and_true, u64]
  omega

/-- The other reads of a header are among these. -/
theorem HeaderInside.field {i : Nat} (hi : HeaderInside length h i) {off size : Nat} (hoff : 4 ≤ off)
    (hsize : off + size ≤ 0x40) : (readAt eb (h.shdr i + off) size).Within length.toNat := by
  have hlt := length_lt length
  unfold HeaderInside u64 at hi
  rw [within_readAt, u64]
  omega

theorem val_findTables : (findTables eb h).val = (h.lastOfType eb 2 h.e_shnum, h.lastOfType eb 11 h.e_shnum) := by
  unfold findTables
  induction h.e_shnum with
  | zero => rfl
  | succ n ih =>
    rw [Reads.forUpTo, Reads.val_bind, ih]
    rfl

theorem within_findTables : (findTables eb h).Within length.toNat ↔ ∀ i < h.e_shnum, HeaderInside length h i := by
  rw [findTables, Reads.within_forUpTo]
  refine forall₂_congr fun i _ => ?_
  rw [Reads.within_bind, and_iff_left (Reads.within_pure _), within_readShdr]
  rfl

theorem val_resolveStrtab (link : Nat) : (resolveStrtab eb length h link).val = h.strings eb length link := by
  unfold resolveStrtab Ehdr.strings
  by_cases hlink : link < h.e_shnum
  · rw [if_pos hlink, if_pos hlink]
    simp only [Reads.val_bind, val_readAt, Reads.val_pure, Ehdr.section, Shdr.of]
  · rw [if_neg hlink, if_neg hlink, Reads.val_pure]

variable (hheaders : ∀ i < h.e_shnum, HeaderInside length h i)

include hheaders

theorem within_readShstr : (readShstr eb h).Within length.toNat := by
  unfold readShstr
  by_cases hlink : h.e_shstrndx < h.e_shnum
  · rw [if_pos hlink, Reads.within_bind]
    exact ⟨(hheaders _ hlink).field (by decide) (by decide), Reads.within_pure _⟩
  · rw [if_neg hlink]
    exact Reads.within_pure _

theorem within_resolveStrtab (link : Nat) : (resolveStrtab eb length h link).Within length.toNat := by
  unfold resolveStrtab
  by_cases hlink : link < h.e_shnum
  · rw [if_pos hlink, Reads.within_bind, Reads.within_bind]
    exact ⟨(hheaders _ hlink).field (by decide) (by decide), (hheaders _ hlink).field (by decide) (by decide),
      Reads.within_pure _⟩
  · rw [if_neg hlink]
    exact Reads.within_pure _

end Steps

/-! ## Names -/

section Names

variable {eb : Buf} {length : UInt32} {h : Ehdr} {str : Strtab} {symv : List Sym}

/-- A symbol was gathered with this address. -/
def HasAddr (symv : List Sym) (addr : Nat) : Prop := ∃ s ∈ symv, s.addr = addr

theorem hasAddr_append (s : Sym) (a : Nat) : HasAddr (symv ++ [s]) a ↔ HasAddr symv a ∨ s.addr = a := by
  simp [HasAddr, or_and_right, exists_or]

theorem word_byte {p : Nat} : word eb (u64 p) 1 = 0 ↔ eb (u64 p) = 0 := by
  have hwrap : u64 (u64 p) = u64 p := Nat.mod_mod _ _
  have hbyte : word eb (u64 p) 1 = (eb (u64 p)).toNat := by
    rw [word, hwrap]
    simp [slice, leNat]
  rw [hbyte]
  exact ⟨fun h0 => BitVec.eq_of_toNat_eq h0, fun h0 => by rw [h0]; rfl⟩

/-- The first byte of a name, and what is done behind it. -/
theorem within_named {st_name : Nat} {k : Nat → Reads (List Sym)} {wanted : Prop}
    (hk : (k (word eb (u64 (str.stroff + st_name)) 1)).Within length.toNat ↔
      (eb (u64 (str.stroff + st_name)) ≠ 0 → wanted → EndsInFile eb length (u64 (str.stroff + st_name)))) :
    (if st_name < str.strsiz then readAt eb (u64 (str.stroff + st_name)) 1 >>= k
      else return symv).Within length.toNat ↔ NameInside eb length str st_name wanted := by
  have hwrap : u64 (u64 (str.stroff + st_name)) = u64 (str.stroff + st_name) := Nat.mod_mod _ _
  unfold NameInside
  by_cases hname : st_name < str.strsiz
  · rw [if_pos hname, Reads.within_bind, val_readAt, hk, within_readAt, hwrap, forall_prop_of_true hname]
    rfl
  · rw [if_neg hname]
    exact iff_of_true (Reads.within_pure _) fun h => absurd h hname

/-! ## A symbol -/

theorem Shdr.entry_lt (table : Shdr) (i : Nat) : table.entry i < 2 ^ 64 := Nat.mod_lt _ (by decide)

theorem within_collectSymbol (table : Shdr) (i : Nat) :
    (collectSymbol eb length table str i symv).Within length.toNat ↔ SymbolInside eb length table str i := by
  unfold collectSymbol SymbolInside
  dsimp only
  by_cases hskip : u64 (table.entry i + 24) > length.toNat
  · rw [if_pos hskip]
    exact iff_of_true (Reads.within_pure _) fun hle => absurd hskip (not_lt.mpr hle)
  · rw [if_neg hskip, forall_prop_of_true (not_lt.mp hskip), Reads.within_bind, val_readElfSym,
      within_readElfSym (table.entry_lt i)]
    refine and_congr_right fun _ => within_named ?_
    simp only [word_byte]
    split
    · rename_i hnone
      exact iff_of_true (Reads.within_pure _) fun hfirst hvalue => absurd hnone (not_or.mpr ⟨hfirst, hvalue⟩)
    · rename_i hsome
      obtain ⟨hfirst, hvalue⟩ := not_or.mp hsome
      rw [Reads.within_bind, and_iff_left (Reads.within_pure _), within_strdup, forall_prop_of_true hfirst,
        forall_prop_of_true hvalue]

/-- A symbol is gathered with its value. -/
theorem hasAddr_collectSymbol (table : Shdr) (i a : Nat) :
    HasAddr (collectSymbol eb length table str i symv).val a ↔ HasAddr symv a ∨
      SymbolGives eb length table str i a := by
  unfold collectSymbol SymbolGives
  dsimp only
  by_cases hskip : u64 (table.entry i + 24) > length.toNat
  · rw [if_pos hskip]
    exact (or_iff_left fun hg => absurd hskip (not_lt.mpr hg.1)).symm
  · rw [if_neg hskip, Reads.val_bind, val_readElfSym, and_iff_right (not_lt.mp hskip)]
    by_cases hname : (ElfSym.of eb (table.entry i)).st_name < str.strsiz
    · rw [if_pos hname, Reads.val_bind, val_readAt, and_iff_right hname]
      simp only [word_byte]
      split
      · rename_i hnone
        exact (or_iff_left fun hg => absurd hnone (not_or.mpr ⟨hg.1, hg.2.1⟩)).symm
      · rename_i hsome
        rw [Reads.val_bind, Reads.val_pure, hasAddr_append, ← and_assoc, and_iff_right (not_or.mp hsome)]
    · rw [if_neg hname]
      exact (or_iff_left fun hg => absurd hg.1 hname).symm

/-! ## A relocation -/

theorem any_addr {a : Nat} : symv.any (·.addr == a) = true ↔ HasAddr symv a := by
  simp [HasAddr]

theorem within_collectReloc (rel symsh : Shdr) (strs : Option Strtab) (j : Nat) :
    (collectReloc eb length rel symsh strs j symv).Within length.toNat ↔
      RelocInside eb length rel symsh strs (HasAddr symv) j := by
  have hlt := length_lt length
  have hentry := rel.entry_lt j
  unfold collectReloc RelocInside relocAddr relocSymbol
  dsimp only
  by_cases hskip : u64 (rel.entry j + rel.sh_entsize) > length.toNat
  · rw [if_pos hskip]
    exact iff_of_true (Reads.within_pure _) fun hle => absurd hskip (not_lt.mpr hle)
  · have hfields : u64 (rel.entry j) + 8 ≤ length.toNat ∧ u64 (rel.entry j + 8) + 8 ≤ length.toNat ↔
        rel.entry j + 16 ≤ length.toNat := by
      unfold u64
      omega
    rw [if_neg hskip, forall_prop_of_true (not_lt.mp hskip), Reads.within_bind, val_readAt, Reads.within_bind,
      val_readAt, within_readAt, within_readAt, ← and_assoc, hfields]
    refine and_congr_right fun _ => ?_
    by_cases hskip' : u64 (symsh.entry (word eb (rel.entry j + 8) 8 / 2 ^ 32) + 24) > length.toNat
    · rw [if_pos hskip']
      exact iff_of_true (Reads.within_pure _) fun hle => absurd hskip' (not_lt.mpr hle)
    · rw [if_neg hskip', forall_prop_of_true (not_lt.mp hskip'), Reads.within_bind, val_readElfSym,
        within_readElfSym (symsh.entry_lt _)]
      refine and_congr_right fun _ => ?_
      cases strs with
      | none => exact iff_of_true (Reads.within_pure _) nofun
      | some str =>
        simp only [Option.mem_some_iff, forall_eq']
        refine within_named ?_
        simp only [word_byte]
        split
        · rename_i hnone
          exact iff_of_true (Reads.within_pure _) fun hfirst haddr => absurd hnone (not_or.mpr ⟨hfirst, haddr.1⟩)
        · rename_i hsome
          obtain ⟨hfirst, haddr⟩ := not_or.mp hsome
          rw [forall_prop_of_true hfirst]
          split
          · rename_i hfound
            exact iff_of_true (Reads.within_pure _) fun hwanted => absurd (any_addr.mp hfound) hwanted.2
          · rename_i hfound
            rw [Reads.within_bind, and_iff_left (Reads.within_pure _), within_strdup,
              forall_prop_of_true ⟨haddr, mt any_addr.mpr hfound⟩]

/-- A relocation is gathered with its address, which is then there. -/
theorem hasAddr_collectReloc (rel symsh : Shdr) (strs : Option Strtab) (j a : Nat) :
    HasAddr (collectReloc eb length rel symsh strs j symv).val a ↔
      HasAddr symv a ∨ RelocGives eb length rel symsh strs j a := by
  unfold collectReloc RelocGives relocAddr relocSymbol
  dsimp only
  by_cases hskip : u64 (rel.entry j + rel.sh_entsize) > length.toNat
  · rw [if_pos hskip]
    exact (or_iff_left fun hg => absurd hskip (not_lt.mpr hg.1)).symm
  · rw [if_neg hskip, Reads.val_bind, Reads.val_bind, val_readAt, val_readAt, and_iff_right (not_lt.mp hskip)]
    by_cases hskip' : u64 (symsh.entry (word eb (rel.entry j + 8) 8 / 2 ^ 32) + 24) > length.toNat
    · rw [if_pos hskip']
      exact (or_iff_left fun hg => absurd hskip' (not_lt.mpr hg.1)).symm
    · rw [if_neg hskip', Reads.val_bind, val_readElfSym, and_iff_right (not_lt.mp hskip')]
      cases strs with
      | none => exact (or_iff_left fun ⟨⟨s, hs, _⟩, _⟩ => by cases hs).symm
      | some str =>
        simp only [Option.mem_some_iff, exists_eq_left']
        by_cases hname : (ElfSym.of eb (symsh.entry (word eb (rel.entry j + 8) 8 / 2 ^ 32))).st_name < str.strsiz
        · rw [if_pos hname, Reads.val_bind, val_readAt, and_iff_right hname]
          simp only [word_byte]
          split
          · rename_i hnone
            exact (or_iff_left fun hg => absurd hnone (not_or.mpr ⟨hg.1, hg.2.1⟩)).symm
          · rename_i hsome
            rw [← and_assoc, and_iff_right (not_or.mp hsome)]
            split
            · rename_i hfound
              exact (or_iff_left_of_imp fun heq => heq ▸ any_addr.mp hfound).symm
            · rw [Reads.val_bind, Reads.val_pure, hasAddr_append]
        · rw [if_neg hname]
          exact (or_iff_left fun hg => absurd hg.1.1 hname).symm

/-- The addresses that some relocations leave behind. -/
theorem hasAddr_relocs (rel symsh : Shdr) (strs : Option Strtab) (n a : Nat) :
    HasAddr (Reads.forUpTo n (collectReloc eb length rel symsh strs) symv).val a ↔
      HasAddr symv a ∨ ∃ j < n, RelocGives eb length rel symsh strs j a :=
  Reads.gathers_forUpTo (fun j _ a => hasAddr_collectReloc rel symsh strs j a) symv a

/-! ## A section -/

theorem isReloc_iff {sh : Shdr} : sh.IsReloc ↔ ¬ (sh.sh_type ≠ 4 ∧ sh.sh_type ≠ 9) := by
  unfold Shdr.IsReloc
  omega

section Sections

variable (hheaders : ∀ i < h.e_shnum, HeaderInside length h i)

include hheaders

/-- What the relocations of a section read, if the headers lie in the file. -/
theorem within_collectRelocs (rel : Shdr) :
    (collectRelocs eb length h rel symv).Within length.toNat ↔
      (Walked eb length h rel → ∀ j < rel.count,
        RelocInside eb length rel (h.linked eb rel) (h.linkedStrings eb length rel)
          (fun a => HasAddr symv a ∨ SectionGives eb length h rel j a) j) := by
  unfold collectRelocs
  by_cases hsec : RelocSection length h rel
  · have hheader : u64 (h.shdr rel.sh_link + 0x4) + 0x3C ≤ length.toNat := hheaders _ hsec.2.2
    have hlinked : (readShdr eb (h.shdr rel.sh_link)).val = h.linked eb rel := rfl
    rw [if_pos hsec, Reads.within_bind, within_readShdr, and_iff_right hheader, hlinked]
    by_cases hplaced : (h.linked eb rel).Placed length
    · have hwalked : Walked eb length h rel := ⟨hsec, hplaced⟩
      rw [if_pos hplaced, Reads.within_bind, and_iff_right (within_resolveStrtab hheaders _), val_resolveStrtab,
        Reads.within_forUpTo, forall_prop_of_true hwalked]
      refine forall₂_congr fun j _ => ?_
      -- the addresses that the passes before have left behind
      have hearlier : HasAddr (Reads.forUpTo j (collectReloc eb length rel (h.linked eb rel)
          (h.strings eb length (h.linked eb rel).sh_link)) symv).val =
          fun a => HasAddr symv a ∨ SectionGives eb length h rel j a := by
        funext a
        rw [hasAddr_relocs, SectionGives, eq_iff_iff]
        exact or_congr_right (and_iff_right hwalked).symm
      rw [within_collectReloc, hearlier]
      rfl
    · rw [if_neg hplaced]
      exact iff_of_true (Reads.within_pure _) fun hw => absurd hw.2 hplaced
  · rw [if_neg hsec]
    exact iff_of_true (Reads.within_pure _) fun hw => absurd hw.1 hsec

omit hheaders in
theorem hasAddr_collectRelocs (rel : Shdr) (a : Nat) :
    HasAddr (collectRelocs eb length h rel symv).val a ↔
      HasAddr symv a ∨ SectionGives eb length h rel rel.count a := by
  unfold collectRelocs SectionGives
  by_cases hsec : RelocSection length h rel
  · have hlinked : (readShdr eb (h.shdr rel.sh_link)).val = h.linked eb rel := rfl
    rw [if_pos hsec, Reads.val_bind, hlinked]
    by_cases hplaced : (h.linked eb rel).Placed length
    · rw [if_pos hplaced, Reads.val_bind, val_resolveStrtab, hasAddr_relocs]
      exact or_congr_right (and_iff_right ⟨hsec, hplaced⟩).symm
    · rw [if_neg hplaced]
      exact (or_iff_left fun hg => absurd hg.1.2 hplaced).symm
  · rw [if_neg hsec]
    exact (or_iff_left fun hg => absurd hg.1.1 hsec).symm

theorem within_collectSection {i : Nat} (hi : i < h.e_shnum) :
    (collectSection eb length h i symv).Within length.toNat ↔
      ((h.section eb i).IsReloc → (collectRelocs eb length h (h.section eb i) symv).Within length.toNat) := by
  have hfield {off size : Nat} (hoff : 4 ≤ off) (hsize : off + size ≤ 0x40) :
      (readAt eb (h.shdr i + off) size).Within length.toNat := (hheaders i hi).field hoff hsize
  have htype : (readAt eb (h.shdr i + 0x4) 4).val = (h.section eb i).sh_type := rfl
  rw [collectSection, Reads.within_bind, and_iff_right (hfield (by decide) (by decide)), htype]
  by_cases hreloc : (h.section eb i).IsReloc
  · rw [if_neg (isReloc_iff.mp hreloc), forall_prop_of_true hreloc, Reads.within_bind, Reads.within_bind,
      Reads.within_bind, Reads.within_bind, and_iff_right (hfield (by decide) (by decide)),
      and_iff_right (hfield (by decide) (by decide)), and_iff_right (hfield (by decide) (by decide)),
      and_iff_right (hfield (by decide) (by decide))]
    rfl
  · rw [if_pos (not_not.mp (mt isReloc_iff.mpr hreloc))]
    exact iff_of_true (Reads.within_pure _) fun h => absurd h hreloc

omit hheaders in
theorem hasAddr_collectSection (i a : Nat) :
    HasAddr (collectSection eb length h i symv).val a ↔ HasAddr symv a ∨
      ((h.section eb i).IsReloc ∧ SectionGives eb length h (h.section eb i) (h.section eb i).count a) := by
  have htype : (readAt eb (h.shdr i + 0x4) 4).val = (h.section eb i).sh_type := rfl
  rw [collectSection, Reads.val_bind, htype]
  by_cases hreloc : (h.section eb i).IsReloc
  · rw [if_neg (isReloc_iff.mp hreloc), and_iff_right hreloc, ← hasAddr_collectRelocs, Reads.val_bind,
      Reads.val_bind, Reads.val_bind, Reads.val_bind, val_readAt, val_readAt, val_readAt, val_readAt, Ehdr.section,
      Shdr.of]
  · rw [if_pos (not_not.mp (mt isReloc_iff.mpr hreloc))]
    exact (or_iff_left fun hg => absurd hg.1 hreloc).symm

end Sections

/-! ## The symbols -/

/-- The addresses that the symbols and some sections of relocations leave behind. -/
theorem hasAddr_sections (n i a : Nat) (table : Shdr) :
    HasAddr (Reads.forUpTo i (collectSection eb length h)
        (Reads.forUpTo n (collectSymbol eb length table str) []).val).val a ↔
      (∃ k < n, SymbolGives eb length table str k a) ∨
        ∃ i' < i, (h.section eb i').IsReloc ∧
          SectionGives eb length h (h.section eb i') (h.section eb i').count a := by
  have hnone : ¬ HasAddr [] a := nofun
  have hsymbols : HasAddr (Reads.forUpTo n (collectSymbol eb length table str) []).val a ↔
      ∃ k < n, SymbolGives eb length table str k a :=
    (Reads.gathers_forUpTo (fun k _ a => hasAddr_collectSymbol table k a) [] a).trans (or_iff_right hnone)
  rw [← hsymbols]
  exact Reads.gathers_forUpTo (fun i _ a => hasAddr_collectSection i a) _ a

theorem within_collectTables (hheaders : ∀ i < h.e_shnum, HeaderInside length h i) :
    (Reads.forUpTo (h.chosen eb).count (collectSymbol eb length (h.chosen eb) str) [] >>=
        Reads.forUpTo h.e_shnum (collectSection eb length h)).Within length.toNat ↔
      TablesInside eb length h str := by
  have hsymbols : (Reads.forUpTo (h.chosen eb).count (collectSymbol eb length (h.chosen eb) str) []).Within
      length.toNat ↔ ∀ i < (h.chosen eb).count, SymbolInside eb length (h.chosen eb) str i := by
    simp only [Reads.within_forUpTo, within_collectSymbol]
  have hrelocs : (Reads.forUpTo h.e_shnum (collectSection eb length h)
      (Reads.forUpTo (h.chosen eb).count (collectSymbol eb length (h.chosen eb) str) []).val).Within length.toNat ↔
        ∀ i < h.e_shnum, (h.section eb i).IsReloc → Walked eb length h (h.section eb i) →
          ∀ j < (h.section eb i).count, RelocInside eb length (h.section eb i) (h.linked eb (h.section eb i))
            (h.linkedStrings eb length (h.section eb i)) (Earlier eb length h str i j) j := by
    rw [Reads.within_forUpTo]
    refine forall₂_congr fun i hi => ?_
    rw [within_collectSection hheaders hi, within_collectRelocs hheaders]
    refine imp_congr_right fun _ => imp_congr_right fun _ => forall₂_congr fun j _ => ?_
    simp only [hasAddr_sections, or_assoc]
    rfl
  rw [Reads.within_bind, hsymbols, hrelocs]
  exact ⟨fun ⟨hs, hr⟩ => ⟨hs, hr⟩, fun ⟨hs, hr⟩ => ⟨hs, hr⟩⟩

theorem within_elfSymbols (hlen : ¬ length < 0x40) (hheader : (Ehdr.of eb).Accepted length) :
    (elfSymbols eb length).Within length.toNat ↔
      (∀ i < (Ehdr.of eb).e_shnum, HeaderInside length (Ehdr.of eb) i) ∧
        (((Ehdr.of eb).chosen eb).Placed length →
          ∀ str ∈ (Ehdr.of eb).strings eb length ((Ehdr.of eb).chosen eb).sh_link,
            TablesInside eb length (Ehdr.of eb) str) := by
  have hval : (readEhdr eb).val = Ehdr.of eb := rfl
  have hchosen : chooseTable (findTables eb (Ehdr.of eb)).val.1 (findTables eb (Ehdr.of eb)).val.2 =
      (Ehdr.of eb).chosen eb := by rw [val_findTables, Ehdr.chosen]
  rw [elfSymbols, if_neg hlen, Reads.within_bind, and_iff_right (within_readEhdr hlen), hval, if_pos hheader,
    Reads.within_bind, Reads.within_bind, within_findTables, hchosen, and_left_comm]
  refine and_congr_right fun hheaders => ?_
  rw [and_iff_right (within_readShstr hheaders)]
  by_cases hplaced : ((Ehdr.of eb).chosen eb).Placed length
  · rw [if_pos hplaced, forall_prop_of_true hplaced, Reads.within_bind,
      and_iff_right (within_resolveStrtab hheaders _), val_resolveStrtab]
    cases (Ehdr.of eb).strings eb length ((Ehdr.of eb).chosen eb).sh_link with
    | none => exact iff_of_true (Reads.within_pure _) nofun
    | some str =>
      simp only [Option.mem_some_iff, forall_eq']
      exact within_collectTables hheaders
  · rw [if_neg hplaced]
    exact iff_of_true (Reads.within_pure _) fun hp => absurd hp hplaced

end Names

/-- A file that is a header only, which places one section header of a byte at its last byte. -/
def shortHeader : Buf := fun i => if i = 0x28 then 0x3F else if i = 0x3A ∨ i = 0x3C then 1 else 0

end ElfSymbols

end Ps5Debugger
