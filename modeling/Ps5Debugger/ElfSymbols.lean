import Ps5Debugger.Lib.Reads

/-!
# The symbols of an ELF file

How `proc_elf_rpc_handle` (`proc.c`) gathers symbols from the file it received: the section headers, a
symbol table with its strings, and the relocation sections with the tables they are linked to. Offsets
are 64 bits wide and come from the file; `eb` is memory from the start of the file on, wherever an offset
leads.

What is built from the symbols afterwards is left out, as it does not read the file.
-/

namespace Ps5Debugger

open Lib

namespace ElfSymbols

/-- `*(T *)(eb + off)` -/
def readAt (eb : Buf) (off size : Nat) : Reads Nat := Reads.load eb (u64 off) size

/-- `strdup` -/
def strdup (eb : Buf) (off : Nat) : Reads (List Byte) :=
  let len := strlen eb (2 ^ 64) off
  ⟨slice eb off len, [⟨off, len + 1⟩]⟩

/-- The fields of the file header. -/
structure Ehdr where
  e_shoff : Nat
  e_shentsize : Nat
  e_shnum : Nat
  e_shstrndx : Nat

def readEhdr (eb : Buf) : Reads Ehdr := do
  let e_shoff ← readAt eb 0x28 8
  let e_shentsize ← readAt eb 0x3A 2
  let e_shnum ← readAt eb 0x3C 2
  let e_shstrndx ← readAt eb 0x3E 2
  return ⟨e_shoff, e_shentsize, e_shnum, e_shstrndx⟩

/-- There are section headers, and their table ends in the file. -/
def Ehdr.Accepted (h : Ehdr) (length : UInt32) : Prop :=
  ¬ (h.e_shoff = 0 ∨ h.e_shnum = 0 ∨ h.e_shentsize = 0) ∧
    ¬ u64 (h.e_shoff + h.e_shentsize * h.e_shnum) > length.toNat

instance (h : Ehdr) (length : UInt32) : Decidable (h.Accepted length) := inferInstanceAs (Decidable (_ ∧ _))

/-- `shdr_base + i * e_shentsize` -/
def Ehdr.shdr (h : Ehdr) (i : Nat) : Nat := u64 (h.e_shoff + i * h.e_shentsize)

/-- The fields of a section header. -/
structure Shdr where
  sh_type : Nat
  sh_offset : Nat
  sh_size : Nat
  sh_link : Nat
  sh_entsize : Nat

/-- No section. -/
def Shdr.none : Shdr := ⟨0, 0, 0, 0, 0⟩

def readShdr (eb : Buf) (sh : Nat) : Reads Shdr := do
  let sh_type ← readAt eb (sh + 0x4) 4
  let sh_offset ← readAt eb (sh + 0x18) 8
  let sh_size ← readAt eb (sh + 0x20) 8
  let sh_link ← readAt eb (sh + 0x28) 4
  let sh_entsize ← readAt eb (sh + 0x38) 8
  return ⟨sh_type, sh_offset, sh_size, sh_link, sh_entsize⟩

/-- `shstr_off` -/
def readShstr (eb : Buf) (h : Ehdr) : Reads Unit :=
  if h.e_shstrndx < h.e_shnum then do
    let _ ← readAt eb (h.shdr h.e_shstrndx + 0x18) 8
    return ()
  else return ()

/-- SYMTAB and DYNSYM, the last of each. -/
def findTables (eb : Buf) (h : Ehdr) : Reads (Shdr × Shdr) :=
  Reads.forUpTo h.e_shnum (fun i t => do
    let sh ← readShdr eb (h.shdr i)
    return (if sh.sh_type = 2 then sh else t.1, if sh.sh_type = 11 then sh else t.2)) (Shdr.none, Shdr.none)

/-- Prefer dynsym, then symtab. -/
def chooseTable (sym dyn : Shdr) : Shdr :=
  if dyn.sh_offset ≠ 0 ∧ dyn.sh_size ≠ 0 ∧ dyn.sh_entsize ≠ 0 then dyn
  else if sym.sh_offset ≠ 0 ∧ sym.sh_size ≠ 0 ∧ sym.sh_entsize ≠ 0 then sym
  else Shdr.none

/-- The section has a place, and ends in the file. -/
def Shdr.Placed (sh : Shdr) (length : UInt32) : Prop :=
  sh.sh_offset ≠ 0 ∧ ¬ u64 (sh.sh_offset + sh.sh_size) > length.toNat

instance (sh : Shdr) (length : UInt32) : Decidable (sh.Placed length) := inferInstanceAs (Decidable (_ ∧ _))

/-- The offset of an entry of a table. -/
def Shdr.entry (table : Shdr) (i : Nat) : Nat := u64 (table.sh_offset + i * table.sh_entsize)

/-- A string table: where it starts and its size. -/
structure Strtab where
  stroff : Nat
  strsiz : Nat

/-- A string table that starts and ends in the file. -/
def Strtab.accept (length : UInt32) (stroff strsiz : Nat) : Option Strtab :=
  if stroff ≠ 0 ∧ stroff < length.toNat ∧ u64 (stroff + strsiz) ≤ length.toNat then some ⟨stroff, strsiz⟩ else none

/-- The string table of a section that is linked to it. -/
def resolveStrtab (eb : Buf) (length : UInt32) (h : Ehdr) (link : Nat) : Reads (Option Strtab) :=
  if link < h.e_shnum then do
    let stroff ← readAt eb (h.shdr link + 0x18) 8
    let strsiz ← readAt eb (h.shdr link + 0x20) 8
    return Strtab.accept length stroff strsiz
  else return none

/-- `sym_t` -/
structure Sym where
  addr : Nat
  size : Nat
  type : Nat
  name : List Byte

/-- The fields of a symbol. -/
structure ElfSym where
  st_name : Nat
  st_info : Nat
  st_value : Nat
  st_size : Nat

def readElfSym (eb : Buf) (off : Nat) : Reads ElfSym := do
  let st_name ← readAt eb off 4
  let st_info ← readAt eb (off + 4) 1
  let st_value ← readAt eb (off + 8) 8
  let st_size ← readAt eb (off + 16) 8
  return ⟨st_name, st_info, st_value, st_size⟩

/-- A pass of the loop over the symbols. -/
def collectSymbol (eb : Buf) (length : UInt32) (table : Shdr) (str : Strtab) (i : Nat) (symv : List Sym) :
    Reads (List Sym) :=
  let off := table.entry i
  if u64 (off + 24) > length.toNat then return symv
  else do
    let sym ← readElfSym eb off
    if sym.st_name < str.strsiz then
      let name := u64 (str.stroff + sym.st_name)
      let first ← readAt eb name 1
      if first = 0 ∨ sym.st_value = 0 then return symv
      else
        let name ← strdup eb name
        return symv ++ [⟨sym.st_value, sym.st_size, sym.st_info, name⟩]
    else return symv

/-- `use_addr` -/
def useAddr (r_offset st_value : Nat) : Nat := if r_offset ≠ 0 then r_offset else st_value

/-- A pass of the loop over the relocations of a section. -/
def collectReloc (eb : Buf) (length : UInt32) (rel symsh : Shdr) (str : Option Strtab) (j : Nat)
    (symv : List Sym) : Reads (List Sym) :=
  let roff := rel.entry j
  if u64 (roff + rel.sh_entsize) > length.toNat then return symv
  else do
    let r_offset ← readAt eb roff 8
    let r_info ← readAt eb (roff + 8) 8
    let sym_index := r_info / 2 ^ 32
    let sym_ent_off := symsh.entry sym_index
    if u64 (sym_ent_off + 24) > length.toNat then return symv
    else
      let sym ← readElfSym eb sym_ent_off
      match str with
      | none => return symv
      | some str =>
        if sym.st_name < str.strsiz then
          let name := u64 (str.stroff + sym.st_name)
          let first ← readAt eb name 1
          let use_addr := useAddr r_offset sym.st_value
          if first = 0 ∨ use_addr = 0 then return symv
          else if symv.any (·.addr == use_addr) then return symv
          else
            let name ← strdup eb name
            return symv ++ [⟨use_addr, sym.st_size, sym.st_info, name⟩]
        else return symv

/-- A section of relocations that is walked through; the table that it is linked to must end in the file. -/
def RelocSection (length : UInt32) (h : Ehdr) (rel : Shdr) : Prop :=
  rel.Placed length ∧ rel.sh_entsize ≠ 0 ∧ rel.sh_link < h.e_shnum

instance (length : UInt32) (h : Ehdr) (rel : Shdr) : Decidable (RelocSection length h rel) :=
  inferInstanceAs (Decidable (_ ∧ _))

/-- The loop over the relocations of a section, whose header has been read. -/
def collectRelocs (eb : Buf) (length : UInt32) (h : Ehdr) (rel : Shdr) (symv : List Sym) : Reads (List Sym) :=
  if RelocSection length h rel then do
    let symsh ← readShdr eb (h.shdr rel.sh_link)
    if symsh.Placed length then
      let str ← resolveStrtab eb length h symsh.sh_link
      Reads.forUpTo (rel.sh_size / rel.sh_entsize) (collectReloc eb length rel symsh str) symv
    else return symv
  else return symv

/-- A pass of the loop over the sections. -/
def collectSection (eb : Buf) (length : UInt32) (h : Ehdr) (i : Nat) (symv : List Sym) : Reads (List Sym) := do
  let sh_type ← readAt eb (h.shdr i + 0x4) 4
  if sh_type ≠ 4 ∧ sh_type ≠ 9 then return symv
  else
    let rel_off ← readAt eb (h.shdr i + 0x18) 8
    let rel_size ← readAt eb (h.shdr i + 0x20) 8
    let rel_entsize ← readAt eb (h.shdr i + 0x38) 8
    let rel_link ← readAt eb (h.shdr i + 0x28) 4
    collectRelocs eb length h ⟨sh_type, rel_off, rel_size, rel_link, rel_entsize⟩ symv

/-- The symbols that the handler gathers. -/
def elfSymbols (eb : Buf) (length : UInt32) : Reads (List Sym) :=
  if length < 0x40 then return []
  else do
    let h ← readEhdr eb
    if h.Accepted length then
      readShstr eb h
      let tables ← findTables eb h
      let chosen := chooseTable tables.1 tables.2
      if chosen.Placed length then
        let str ← resolveStrtab eb length h chosen.sh_link
        match str with
        | none => return []
        | some str =>
          let nsyms := chosen.sh_size / chosen.sh_entsize
          let symv ← Reads.forUpTo nsyms (collectSymbol eb length chosen str) []
          Reads.forUpTo h.e_shnum (collectSection eb length h) symv
      else return []
    else return []

end ElfSymbols

end Ps5Debugger
