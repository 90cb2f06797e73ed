import PComputer.Kernel.Elf

/-!
# `elf.c`: the loaders of the C library and of programs

Both loaders find the sections they need by their names, copy the names of the symbols
to a table of their own, move the second segment to its place and patch the relocation
targets: the library's before the move, at their place in the file, the program's after
it.  What they read after a store they read from the patched memory.
-/

namespace PComputer.PseudOS

open PComputer.Foundation

inductive LoaderFault where
  /-- A section that was not found is followed. -/
  | nullSection
  /-- An entry behind the 2048 of a table. -/
  | tableOverflow
  /-- A name longer than its 128 bytes. -/
  | nameOverflow
  deriving DecidableEq, Repr

/-! ## The file -/

namespace ElfImage

variable (image : ElfImage)

def eEntry : Word := image.word 24

def eShoff : Word := image.word 32

def eShentsize : BitVec 16 := image.half 46

def eShnum : BitVec 16 := image.half 48

def eShstrndx : BitVec 16 := image.half 50

/-! Fields of the section header at `h`. -/

def shName (h : Int) : Word := image.word h

def shOffset (h : Int) : Word := image.word (h + 16)

def shSize (h : Int) : Word := image.word (h + 20)

def shEntsize (h : Int) : Word := image.word (h + 36)

/-- `sh_size/sh_entsize`; a division by zero gives all ones. -/
def entrycnt (h : Int) : Word := (image.shSize h).smtUDiv (image.shEntsize h)

/-- `elfs_strtab`; the index counts headers of 40 bytes, whatever `e_shentsize` is. -/
def elfsStrtab : Word := image.shOffset (image.eShoff.toNat + 40 * image.eShstrndx.toNat)

def elfshdr (i : Nat) : Int := image.eShoff.toNat + i * image.eShentsize.toNat

/-- `*(a) = v` for an `int`. -/
def storeWord (x : Int) (v : Word) : ElfImage :=
  Elf32Phdr.ofBytes fun y =>
    if x ≤ y ∧ y < x + 4 then lane v (BitVec.ofInt 2 (y - x)) else image.byte y

end ElfImage

/-! Fields of entry `j` of a table that starts at `start`. -/

structure Elf32Rela where
  rOffset : Word
  rInfo : Word
  rAddend : Word
  deriving DecidableEq

namespace ElfImage

variable (image : ElfImage) (start : Word) (j : Int)

def stName : Word := image.word (start.toNat + 16 * j)

def stValue : Word := image.word (start.toNat + 16 * j + 4)

def stShndx : BitVec 16 := image.half (start.toNat + 16 * j + 14)

def rela : Elf32Rela where
  rOffset := image.word (start.toNat + 12 * j)
  rInfo := image.word (start.toNat + 12 * j + 4)
  rAddend := image.word (start.toNat + 12 * j + 8)

end ElfImage

namespace Elf32Rela

variable (r : Elf32Rela)

def R_RISCV_32 : Int := 1
def R_RISCV_RELATIVE : Int := 3
def R_RISCV_JUMP_SLOT : Int := 5

def type : Int := r.rInfo.toInt.tmod 0x100

def dynsymIdx : Int := r.rInfo.toInt.tdiv 0x100

end Elf32Rela

/-! ## Sections -/

/-- `elf_strcmp` with a constant, which is given without its NUL; whether they are equal. -/
def elfStrcmp (a : Nat → BitVec 8) : List (BitVec 8) → Bool
  | [] => a 0 == 0
  | b :: bs => a 0 == b && elfStrcmp (fun i => a (i + 1)) bs

/-- The characters of `.dynsym` and the other names. -/
def DYNSYM : List (BitVec 8) := [0x2e, 0x64, 0x79, 0x6e, 0x73, 0x79, 0x6d]
def DYNSTR : List (BitVec 8) := [0x2e, 0x64, 0x79, 0x6e, 0x73, 0x74, 0x72]
def RELA_DYN : List (BitVec 8) := [0x2e, 0x72, 0x65, 0x6c, 0x61, 0x2e, 0x64, 0x79, 0x6e]
def RELA_PLT : List (BitVec 8) := [0x2e, 0x72, 0x65, 0x6c, 0x61, 0x2e, 0x70, 0x6c, 0x74]

/-- Where the header of a section is, and the offset that the loader took from it. -/
structure Section where
  shdr : Int
  start : Word
  deriving DecidableEq

structure Sections where
  dynsym : Option Section
  dynstr : Option Section
  reladyn : Option Section
  relaplt : Option Section
  deriving DecidableEq

namespace Sections

def see (image : ElfImage) (s : Sections) (h : Int) : Sections :=
  let name := fun i : Nat => image.byte (image.elfsStrtab.toNat + (image.shName h).toNat + i)
  let sec : Section := ⟨h, image.shOffset h⟩
  if elfStrcmp name DYNSYM then { s with dynsym := some sec }
  else if elfStrcmp name DYNSTR then { s with dynstr := some sec }
  else if elfStrcmp name RELA_DYN then { s with reladyn := some sec }
  else if elfStrcmp name RELA_PLT then { s with relaplt := some sec }
  else s

def find (image : ElfImage) : Sections :=
  (List.range image.eShnum.toNat).foldl (fun s i => s.see image (image.elfshdr i))
    ⟨none, none, none, none⟩

end Sections

def secStart (base : Word) : Option Section → Word
  | none => 0
  | some sec => base + sec.start

/-! ## `DynLinkTable` -/

structure DynLinkEntry where
  addr : Word
  name : List (BitVec 8)
  deriving DecidableEq

abbrev DynLinkTable := List DynLinkEntry

/-- The copy of a name into its `room` bytes; the characters before the NUL. -/
def elfStrcpy (src : Nat → BitVec 8) : Nat → Except LoaderFault (List (BitVec 8))
  | 0 => .error .nameOverflow
  | room + 1 =>
      if src 0 = 0 then .ok []
      else (elfStrcpy (fun i => src (i + 1)) room).map (src 0 :: ·)

def dynLinkEntry (image : ElfImage) (dynsym dynstr : Option Section) (j : Nat) (idx : Int)
    (addr : Word) : Except LoaderFault DynLinkEntry :=
  if 2048 ≤ j then .error .tableOverflow
  else
    match dynsym, dynstr with
    | some sym, some str =>
        (elfStrcpy (fun i => image.byte (str.start.toNat + (image.stName sym.start idx).toNat + i))
          128).map fun name => ⟨addr, name⟩
    | _, _ => .error .nullSection

def findFunctionFromSo (dynlinktbl : DynLinkTable) (fname : List (BitVec 8)) : Word :=
  match dynlinktbl.find? fun e => fname == e.name with
  | some e => e.addr
  | none => -1

/--
The loop that fills a table from entry `j` on, with `count` entries left; an entry may
end it with a failure of the loader.
-/
def fillTable (entry : Nat → Except LoaderFault (Option DynLinkEntry)) :
    Nat → Nat → Except LoaderFault (Option DynLinkTable)
  | 0, _ => .ok (some [])
  | count + 1, j => do
      match ← entry j with
      | none => return none
      | some e => return (← fillTable entry count (j + 1)).map (e :: ·)

/-! ## Relocations -/

/--
The loop over a relocation table from entry `j` on: the number of entries is read from
the memory each time, and a step may end the loop with a failure.
-/
def relaLoop (count : ElfImage → Nat) (step : Nat → ElfImage → Option ElfImage) :
    Nat → Nat → ElfImage → Bool × ElfImage
  | 0, _, image => (true, image)
  | fuel + 1, j, image =>
      if j < count image then
        match step j image with
        | none => (false, image)
        | some image' => relaLoop count step fuel (j + 1) image'
      else (true, image)

/-- No count of a table is larger. -/
def COUNT_MAX : Nat := 2 ^ 32

section Steps

variable (base disp : Word) (dynsym rela : Word)

/-- An entry of `rela.dyn`; its target lies `disp` bytes lower in the file than in memory. -/
def relaDynStep (j : Nat) (image : ElfImage) : Option ElfImage :=
  let entry := image.rela rela j
  some (image.storeWord (entry.rOffset - disp).toInt
    (base + image.stValue dynsym entry.dynsymIdx + entry.rAddend))

def relaPltStep (j : Nat) (image : ElfImage) : Option ElfImage :=
  let entry := image.rela rela j
  if entry.type = Elf32Rela.R_RISCV_JUMP_SLOT then
    some (image.storeWord (entry.rOffset - disp).toInt
      (base + image.stValue dynsym entry.dynsymIdx))
  else none

end Steps

/-! ## The loaders -/

structure SharedLoad where
  result : Int
  image : ElfImage
  dynlinktbl : DynLinkTable

def Elf32Phdr.load2InmemOffset (p : Elf32Phdr) : Word := p.pVaddr - p.pOffset

/-- The patches of a library whose sections are there, and then the move. -/
def relocateShared (base : Word) (p : Elf32Phdr) (dynsym reladyn relaplt : Section)
    (image : ElfImage) : Int × ElfImage :=
  let dyn := relaLoop (fun image => (image.entrycnt reladyn.shdr).toNat)
    (relaDynStep base p.load2InmemOffset dynsym.start reladyn.start) COUNT_MAX 0 image
  let plt := relaLoop (fun image => (image.entrycnt relaplt.shdr).toNat)
    (relaPltStep base p.load2InmemOffset dynsym.start relaplt.start) COUNT_MAX 0 dyn.2
  if plt.1 then (0, p.secondLoad plt.2) else (-1, plt.2)

def loadSharedLibrary (base : Word) (image : ElfImage) (dynlinktbl : DynLinkTable) :
    Except LoaderFault SharedLoad :=
  match sharedLibraryHeaders image with
  | none => .ok ⟨-1, image, dynlinktbl⟩
  | some p =>
      let s := Sections.find image
      if secStart base s.dynsym &&& secStart base s.reladyn &&& secStart base s.relaplt = 0 then
        .ok ⟨-1, image, dynlinktbl⟩
      else
        match s.dynsym, s.reladyn, s.relaplt with
        | some dynsym, some reladyn, some relaplt => do
            let table ← fillTable
              (fun j => (dynLinkEntry image s.dynsym s.dynstr j j
                (base + image.stValue dynsym.start j)).map some)
              (image.entrycnt dynsym.shdr).toInt.toNat 0
            let done := relocateShared base p dynsym reladyn relaplt image
            return ⟨done.1, done.2, table.getD []⟩
        | _, _, _ => .error .nullSection

structure ExecLoad where
  result : Int
  image : ElfImage
  entryAddr : Word
  stackAddr : Word

/-- Entry `j` of `temptbl`, from entry `j` of `rela.plt`. -/
def tempEntry (base : Word) (image : ElfImage) (dynsym dynstr : Option Section) (relaplt : Section)
    (j : Nat) : Except LoaderFault (Option DynLinkEntry) :=
  let entry := image.rela relaplt.start j
  if entry.type = Elf32Rela.R_RISCV_JUMP_SLOT then
    (dynLinkEntry image dynsym dynstr j entry.dynsymIdx (base + entry.rOffset)).map some
  else .ok none

/-- The stores to the targets of `rela.plt`; a function that is not found is -1. -/
def linkFunctions (base : Word) (dynlinktbl temptbl : DynLinkTable) (image : ElfImage) : ElfImage :=
  temptbl.foldl (fun image e =>
    image.storeWord (e.addr - base).toInt (findFunctionFromSo dynlinktbl e.name)) image

/--
`load_dynamic_exec`; `stackAddr` is what `stack_addr` pointed to before the call.  It does
not use `stack_size`.
-/
def loadDynamicExec (base : Word) (image : ElfImage) (_stackSize : Int) (stackAddr : Word)
    (dynlinktbl : DynLinkTable) : Except LoaderFault ExecLoad :=
  if elfHeaderOk image then
    let entryAddr := image.eEntry + base
    let p := image.phdr 3
    if loadHeadersOk (image.phdr 2) p then
      let s := Sections.find image
      match s.relaplt with
      | none => .error .nullSection
      | some relaplt => do
          match ← fillTable (tempEntry base image s.dynsym s.dynstr relaplt)
              (image.entrycnt relaplt.shdr).toInt.toNat 0 with
          | none => return ⟨-1, image, entryAddr, stackAddr⟩
          | some temptbl =>
              let image := linkFunctions base dynlinktbl temptbl (p.secondLoad image)
              let stackAddr := base + p.pVaddr + p.pMemsz
              match s.reladyn, s.dynsym with
              | none, _ => .error .nullSection
              | some reladyn, none =>
                  if image.entrycnt reladyn.shdr = 0 then return ⟨0, image, entryAddr, stackAddr⟩
                  else .error .nullSection
              | some reladyn, some dynsym =>
                  return ⟨0, (relaLoop (fun image => (image.entrycnt reladyn.shdr).toNat)
                    (relaDynStep base 0 dynsym.start reladyn.start) COUNT_MAX 0 image).2,
                    entryAddr, stackAddr⟩
    else .ok ⟨-1, image, entryAddr, stackAddr⟩
  else .ok ⟨-1, image, 0, stackAddr⟩

/-! ## A concrete program -/

/--
A program with one function and one datum of the library, both under the name `f`: the
word at 0x1404 is for the function, the one at 0x1400 for the address of the datum.
-/
def someProgram : ElfImage := fun k =>
  -- the header of the file and the two segments
  if k = 0 then 0x464c457f else if k = 4 then 0x00f30003 else if k = 6 then 0x80
  else if k = 7 then 52 else if k = 8 then 0x100 else if k = 11 then 0x00280004
  else if k = 12 then 0x00040005
  else if k = 29 ∨ k = 37 then PT_LOAD
  else if k = 33 ∨ k = 34 then 0x300
  else if k = 38 then 0x400 else if k = 39 ∨ k = 40 then 0x1400
  else if k = 41 then 8 else if k = 42 then 16
  -- the headers of the sections
  else if k = 68 then 0x280 else if k = 69 then 32 else if k = 73 then 16
  else if k = 74 then 8 else if k = 78 then 0x2c0 else if k = 79 then 4
  else if k = 84 then 16 else if k = 88 then 0x2d0 else if k = 89 ∨ k = 93 then 12
  else if k = 94 then 28 else if k = 98 then 0x2e0 else if k = 99 ∨ k = 103 then 12
  else if k = 104 then 40 else if k = 108 then 0x200 else if k = 109 then 48
  -- their names
  else if k = 128 ∨ k = 130 then 0x6e79642e
  else if k = 129 then 0x006d7973 else if k = 131 then 0x00727473
  else if k = 132 ∨ k = 135 then 0x6c65722e
  else if k = 133 then 0x79642e61 else if k = 134 then 0x6e
  else if k = 136 then 0x6c702e61 else if k = 137 then 0x74
  -- the symbol, its name, and the two relocations
  else if k = 164 then 1 else if k = 176 then 0x00006600
  else if k = 180 then 0x1400 else if k = 181 then 0x101 else if k = 182 then 0x10
  else if k = 184 then 0x1404 else if k = 185 then 0x105
  else 0

end PComputer.PseudOS
