import Latkit.GoPclntab

/-! The ELF64 reader over a file image. What the source refuses with -1 is an inner `none`; an index into a table that
was not loaded, or not that far, has no result at all. -/

namespace Latkit

structure Elf64Ehdr where
  ident : List Byte
  (phoff shoff phentsize phnum shentsize shnum shstrndx : Nat)
  deriving DecidableEq, Repr

def Elf64Ehdr.ofBytes (p : List Byte) : Elf64Ehdr where
  ident := p.take 16
  phoff := le64 (p.drop 32)
  shoff := le64 (p.drop 40)
  phentsize := le16 (p.drop 54)
  phnum := le16 (p.drop 56)
  shentsize := le16 (p.drop 58)
  shnum := le16 (p.drop 60)
  shstrndx := le16 (p.drop 62)

structure Elf64Phdr where
  (type offset vaddr filesz : Nat)
  deriving DecidableEq, Repr

def Elf64Phdr.ofBytes (p : List Byte) : Elf64Phdr :=
  ⟨le32 p, le64 (p.drop 8), le64 (p.drop 16), le64 (p.drop 32)⟩

structure Elf64Shdr where
  (name type flags addr offset size link entsize : Nat)
  deriving DecidableEq, Repr

def Elf64Shdr.ofBytes (p : List Byte) : Elf64Shdr where
  name := le32 p
  type := le32 (p.drop 4)
  flags := le64 (p.drop 8)
  addr := le64 (p.drop 16)
  offset := le64 (p.drop 24)
  size := le64 (p.drop 32)
  link := le32 (p.drop 40)
  entsize := le64 (p.drop 56)

structure Elf64Sym where
  (name info shndx value size : Nat)

def Elf64Sym.ofBytes (p : List Byte) : Elf64Sym :=
  ⟨le32 p, (p.getD 4 0).toNat, le16 (p.drop 6), le64 (p.drop 8), le64 (p.drop 16)⟩

def sizeofEhdr : Nat := 64
def sizeofPhdr : Nat := 56
def sizeofShdr : Nat := 64
def sizeofSym : Nat := 24

def shtSymtab : Nat := 2
def shtStrtab : Nat := 3
def shtNobits : Nat := 8

def elfMaxPhnum : Nat := 2 ^ 12
def elfMaxSyms : Nat := 2 ^ 22
def elfSymBlock : Nat := 256
def elfMaxStrtab : Nat := 2 ^ 26

def readExact (img : List Byte) (n off : Nat) : Option (List Byte) :=
  if img.length < off ∨ img.length - off < n then none else some ((img.drop off).take n)

def elfEntries (ofBytes : List Byte → α) (count entsize : Nat) (p : List Byte) : List α :=
  (List.range count).map fun i => ofBytes (p.drop (i * entsize))

def loadTable (img : List Byte) (ofBytes : List Byte → α) (off count entsize : Nat) : Option (Option (List α)) :=
  if count = 0 then some none else (readExact img (count * entsize) off).map fun p => some (elfEntries ofBytes count entsize p)

structure LkElf where
  img : List Byte
  eh : Elf64Ehdr
  ph : Option (List Elf64Phdr)
  nph : Nat
  sh : Option (List Elf64Shdr)
  nsh : Nat
  deriving DecidableEq, Repr

def elfAccepts (eh : Elf64Ehdr) : Bool :=
  eh.ident.take 4 = [0x7f, 0x45, 0x4c, 0x46] ∧ eh.ident.getD 4 0 = 2 ∧ eh.ident.getD 5 0 = 1 ∧
    (eh.shentsize = sizeofShdr ∨ eh.shnum = 0) ∧ eh.phnum ≤ elfMaxPhnum

def loadPhdrs (img : List Byte) (eh : Elf64Ehdr) : Option (Option (List Elf64Phdr)) :=
  if eh.phentsize = sizeofPhdr then loadTable img .ofBytes eh.phoff eh.phnum sizeofPhdr else some none

def lkElfOpen (img : List Byte) : Option LkElf := do
  let eh : Elf64Ehdr := .ofBytes (← readExact img sizeofEhdr 0)
  if elfAccepts eh then
    let ph ← loadPhdrs img eh
    let sh ← loadTable img .ofBytes eh.shoff eh.shnum sizeofShdr
    return { img, eh, ph, nph := eh.phnum, sh, nsh := eh.shnum }
  else none

def tableAt (table : Option (List α)) (i : Nat) : Option α := table.bind (·[i]?)

def findSymtab (e : LkElf) : Option (Option Elf64Shdr) :=
  (List.range e.nsh).findSomeM? fun i => (tableAt e.sh i).map fun s =>
    if s.type = shtSymtab ∧ s.entsize = sizeofSym then some s else none

def lkElfHasSymtab (e : LkElf) : Option Bool :=
  if e.sh.isNone then some false else (findSymtab e).map Option.isSome

def Elf64Phdr.maps (p : Elf64Phdr) (v : Nat) : Option Nat :=
  if p.type = 1 ∧ p.filesz ≠ 0 ∧ p.vaddr ≤ v ∧ v - p.vaddr < p.filesz then some (u64 (v - p.vaddr + p.offset)) else none

def Elf64Shdr.maps (s : Elf64Shdr) (v : Nat) : Option Nat :=
  if s.flags.testBit 1 ∧ s.type ≠ shtNobits ∧ s.size ≠ 0 ∧ s.addr ≤ v ∧ v - s.addr < s.size then
    some (u64 (v - s.addr + s.offset))
  else none

def vaddrToOff (e : LkElf) (v : Nat) : Option (Option Nat) := do
  match ← (List.range e.nph).findSomeM? fun i => (tableAt e.ph i).map (·.maps v) with
  | some off => return some off
  | none => (List.range e.nsh).findSomeM? fun i => (tableAt e.sh i).map (·.maps v)

/-- A name out of a string table, as the C string that a buffer of `bufsz` bytes holds. -/
def readName (e : LkElf) (strtab : Elf64Shdr) (idx bufsz : Nat) : Option (List Byte) :=
  if strtab.size ≤ idx then none
  else (readExact e.img (min (strtab.size - idx) (bufsz - 1)) (u64 (strtab.offset + idx))).map (·.takeWhile (· != 0))

structure LkElfFunc where
  (vaddr fileOff size : Nat)
  deriving DecidableEq, Repr

def symTurn (e : LkElf) (strtab : Elf64Shdr) (name : List Byte) (s : Elf64Sym) : Option (Option (Option LkElfFunc)) :=
  if s.info % 16 ≠ 2 ∨ s.size = 0 ∨ s.shndx = 0 ∨ readName e strtab s.name 512 ≠ some name then some none
  else (vaddrToOff e s.value).map fun found => some (found.bind fun off =>
    if e.img.length < off ∨ e.img.length - off < s.size then none else some ⟨s.value, off, s.size⟩)

def symBlock (e : LkElf) (symtab strtab : Elf64Shdr) (name : List Byte) (nsyms start : Nat) :
    Option (Option (Option LkElfFunc)) :=
  let chunk := min (nsyms - start) elfSymBlock
  match readExact e.img (chunk * sizeofSym) (u64 (symtab.offset + start * sizeofSym)) with
  | none => some (some none)
  | some p => (elfEntries .ofBytes chunk sizeofSym p).findSomeM? (symTurn e strtab name)

def lkElfFindFunc (e : LkElf) (name : List Byte) : Option (Option LkElfFunc) := do
  if e.sh.isNone then return none
  match ← findSymtab e with
  | none => return none
  | some symtab =>
    if e.nsh ≤ symtab.link then return none
    let strtab ← tableAt e.sh symtab.link
    let nsyms := symtab.size / sizeofSym
    if strtab.type ≠ shtStrtab ∨ elfMaxStrtab < strtab.size ∨ elfMaxSyms < nsyms then return none
    ((List.range ((nsyms + elfSymBlock - 1) / elfSymBlock)).findSomeM? fun block =>
      symBlock e symtab strtab name nsyms (block * elfSymBlock)).map Option.join

def lkElfSection (e : LkElf) (name : List Byte) : Option (Option (Nat × Nat × Nat)) := do
  if e.sh.isNone ∨ e.nsh ≤ e.eh.shstrndx then return none
  let shstr ← tableAt e.sh e.eh.shstrndx
  if shstr.type ≠ shtStrtab then return none
  (List.range e.nsh).findSomeM? fun i => (tableAt e.sh i).map fun s =>
    if readName e shstr s.name 64 = some name then some (s.offset, s.size, s.addr) else none

theorem findSomeM_isSome {l : List α} {f : α → Option (Option β)} (h : ∀ a ∈ l, (f a).isSome) : (l.findSomeM? f).isSome := by
  induction l with
  | nil => rfl
  | cons a l ih =>
    obtain ⟨b, hb⟩ := Option.isSome_iff_exists.mp (h a List.mem_cons_self)
    rw [List.findSomeM?, hb]
    cases b with
    | some b => rfl
    | none => exact ih fun a' ha' => h a' (List.mem_cons_of_mem a ha')

def Loaded (table : Option (List α)) (count : Nat) : Prop := count ≤ (table.getD []).length

theorem Loaded.at (h : Loaded table count) (hi : i < count) : (tableAt table i).isSome := by
  cases table with
  | none => exact absurd h (Nat.not_le.mpr (Nat.zero_lt_of_lt hi))
  | some l =>
    have hlt : i < l.length := Nat.lt_of_lt_of_le hi h
    rw [tableAt, Option.bind_some, List.getElem?_eq_getElem hlt]
    rfl

theorem Loaded.search {f : α → Option β} (h : Loaded table count) :
    ((List.range count).findSomeM? fun i => (tableAt table i).map f).isSome :=
  findSomeM_isSome fun i hi => by
    rw [Option.isSome_map]
    exact h.at (List.mem_range.mp hi)

theorem loadTable_loaded (h : loadTable img ofBytes off count entsize = some table) : Loaded table count := by
  rw [loadTable] at h
  split at h
  · next hzero => exact hzero ▸ Nat.zero_le _
  · obtain ⟨p, -, rfl⟩ := Option.map_eq_some_iff.mp h
    simp [Loaded, elfEntries]

theorem lkElfOpen_cases (h : lkElfOpen img = some e) : e.nph = e.eh.phnum ∧
    loadPhdrs e.img e.eh = some e.ph ∧ Loaded e.sh e.nsh := by
  rw [lkElfOpen] at h
  obtain ⟨p, -, h⟩ := Option.bind_eq_some_iff.mp h
  dsimp only at h
  split at h
  · obtain ⟨ph, hph, h⟩ := Option.bind_eq_some_iff.mp h
    obtain ⟨sh, hsh, h⟩ := Option.bind_eq_some_iff.mp h
    cases h
    exact ⟨rfl, hph, loadTable_loaded hsh⟩
  · cases h

theorem findSymtab_isSome (h : Loaded e.sh e.nsh) : (findSymtab e).isSome := h.search

theorem lkElfSection_isSome (h : Loaded e.sh e.nsh) (name : List Byte) : (lkElfSection e name).isSome := by
  rw [lkElfSection]
  split
  · rfl
  next hin =>
  obtain ⟨shstr, hshstr⟩ := Option.isSome_iff_exists.mp (h.at (Nat.not_le.mp (not_or.mp hin).2))
  simp only [hshstr, Option.bind_eq_bind, Option.bind_some]
  split
  · rfl
  · exact h.search

theorem vaddrToOff_isSome (hph : Loaded e.ph e.nph) (hsh : Loaded e.sh e.nsh) (v : Nat) : (vaddrToOff e v).isSome := by
  obtain ⟨found, hfound⟩ := Option.isSome_iff_exists.mp (hph.search (f := (·.maps v)))
  simp only [vaddrToOff, hfound, Option.bind_eq_bind, Option.bind_some]
  split
  · rfl
  · exact hsh.search

theorem symBlock_isSome (hoff : ∀ v, (vaddrToOff e v).isSome) (symtab strtab : Elf64Shdr) (name : List Byte)
    (nsyms start : Nat) : (symBlock e symtab strtab name nsyms start).isSome := by
  simp only [symBlock]
  split
  · rfl
  · refine findSomeM_isSome fun s _ => ?_
    rw [symTurn]
    split
    · rfl
    · rw [Option.isSome_map]
      exact hoff s.value

theorem lkElfFindFunc_isSome (hsh : Loaded e.sh e.nsh) (hoff : ∀ v, (vaddrToOff e v).isSome) (name : List Byte) :
    (lkElfFindFunc e name).isSome := by
  obtain ⟨found, hfound⟩ := Option.isSome_iff_exists.mp (findSymtab_isSome hsh)
  simp only [lkElfFindFunc, hfound, Option.bind_eq_bind, Option.bind_some]
  split
  · rfl
  split
  · rfl
  split
  · rfl
  next symtab hin =>
  obtain ⟨strtab, hstrtab⟩ := Option.isSome_iff_exists.mp (hsh.at (Nat.not_le.mp hin))
  simp only [hstrtab, Option.bind_some]
  split
  · rfl
  · rw [Option.isSome_map]
    exact findSomeM_isSome fun block _ => symBlock_isSome hoff ..

structure LkElf.SectionsSafe (e : LkElf) : Prop where
  loaded : Loaded e.sh e.nsh
  symtab : (findSymtab e).isSome
  named : ∀ name, (lkElfSection e name).isSome

structure LkElf.SegmentsSafe (e : LkElf) : Prop where
  loaded : Loaded e.ph e.nph
  offset : ∀ v, (vaddrToOff e v).isSome
  func : ∀ name, (lkElfFindFunc e name).isSome

/-- Of an accepted image the section headers are always loaded. The program headers are exactly if there are none or
they have the size of an `Elf64_Phdr`; otherwise the translation of any address reads a table that is not there. -/
theorem lkElfOpen_tables (h : lkElfOpen img = some e) :
    e.SectionsSafe ∧ (e.SegmentsSafe ↔ e.eh.phnum = 0 ∨ e.eh.phentsize = sizeofPhdr) ∧
      (¬ e.SegmentsSafe → e.ph = none ∧ ∀ v, vaddrToOff e v = none) := by
  obtain ⟨hnph, hph, hsh⟩ := lkElfOpen_cases h
  have hsegments (hloaded : Loaded e.ph e.nph) : e.SegmentsSafe :=
    have hoff := vaddrToOff_isSome hloaded hsh
    ⟨hloaded, hoff, lkElfFindFunc_isSome hsh hoff⟩
  refine ⟨⟨hsh, findSymtab_isSome hsh, lkElfSection_isSome hsh⟩, ?_⟩
  by_cases hsize : e.eh.phentsize = sizeofPhdr
  · rw [loadPhdrs, if_pos hsize, ← hnph] at hph
    have hsafe := hsegments (loadTable_loaded hph)
    exact ⟨⟨fun _ => .inr hsize, fun _ => hsafe⟩, fun hnot => absurd hsafe hnot⟩
  · rw [loadPhdrs, if_neg hsize, Option.some.injEq] at hph
    cases hcount : e.nph with
    | zero =>
      have hsafe := hsegments (hcount ▸ Nat.zero_le _)
      exact ⟨⟨fun _ => .inl (hnph ▸ hcount), fun _ => hsafe⟩, fun hnot => absurd hsafe hnot⟩
    | succ n =>
      have hnone (v : Nat) : vaddrToOff e v = none := by
        rw [vaddrToOff, hcount, ← hph, List.range_succ_eq_map]
        rfl
      refine ⟨⟨fun hsafe => ?_, fun hor => ?_⟩, fun _ => ⟨hph.symm, hnone⟩⟩
      · have hsome := hsafe.offset 0
        rw [hnone] at hsome
        cases hsome
      · have hzero := hor.resolve_right hsize
        rw [← hnph, hcount] at hzero
        cases hzero

def elfHeader (phentsize : Byte) : List Byte :=
  [0x7f, 0x45, 0x4c, 0x46, 2, 1] ++ List.replicate 26 0 ++ [64] ++ List.replicate 21 0 ++
    [phentsize, 0, 1, 0, 64, 0, 0, 0, 0, 0]

theorem lkElfOpen_tables_one : ∃ e, lkElfOpen (elfHeader 56 ++ List.replicate 56 0) = some e ∧ e.SegmentsSafe := by
  have hopen : (lkElfOpen (elfHeader 56 ++ List.replicate 56 0)).map (·.eh.phentsize) = some sizeofPhdr := by
    decide +kernel
  obtain ⟨e, he, hsize⟩ := Option.map_eq_some_iff.mp hopen
  exact ⟨e, he, (lkElfOpen_tables he).2.1.mpr (.inr hsize)⟩

/-- An accepted image whose program headers are counted and not loaded. -/
theorem vaddrToOff_unloaded :
    (lkElfOpen (elfHeader 0)).map (fun e => (e.nph, e.ph, vaddrToOff e 0)) = some (1, none, none) := by
  decide

end Latkit
