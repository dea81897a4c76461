/-
`elf.c`: the ELF32/ELF64 loader and the symbol lookup. The file is a byte string; every read of its
buffer is an index of type `size_t`, so the offset arithmetic wraps as the code's does, and a read
outside the file is an outcome of its own (`outOfBounds`) next to the diagnostics of the code.
-/
import Quanta.Device.Virtio
import Quanta.Isa.Alu
import Quanta.Machine.Memory

namespace Quanta

/-- `mem_load`: `false` when the bytes do not fit, which records a fault. -/
def memLoad (mem : Memory) (addr : BitVec 64) (src : List Byte) : Bool × Memory :=
  match mem.translate addr (BitVec.ofNat 64 src.length) with
  | none => (false, { mem with fault := true, faultAddr := addr })
  | some i => (true, { mem with data := writeBytes mem.data i src })

namespace Elf

/-- What the parser reports before it returns -1. `outOfBounds` is a read outside the buffer, and
`running` a symbol scan that has not ended within its fuel. -/
inductive ElfError
  | tooSmall | badMagic | unknownClass | tooSmall64 | notLittleEndian | notExecutable | wrongMachine
  | phentsize (size : BitVec 16)
  | tablePastEnd | segmentOutOfBounds | fileszExceedsMemsz | noSegments | beyondRegion
  | implausibleImage (size : BitVec 64)
  | doesNotFit
  | cannotAllocate (size : BitVec 64)
  | segmentDoesNotFit
  | entryOutside (entry base size : BitVec 32)
  | outOfBounds
  | running
  deriving DecidableEq, Repr

/-- A file read into its buffer; `ftell` measures it as a `long`. -/
structure File where
  bytes : List Byte
  short : bytes.length < 0x8000000000000000

def EI_CLASS : BitVec 64 := 4
def EI_DATA : BitVec 64 := 5
def ELFCLASS32 : Byte := 1
def ELFCLASS64 : Byte := 2
def ELFDATA2LSB : Byte := 1
def ET_EXEC : BitVec 16 := 2
def EM_RISCV : BitVec 16 := 243
def PT_LOAD : BitVec 32 := 1
def SHT_SYMTAB : BitVec 32 := 2
def ELF_EHSIZE : BitVec 64 := 52
def ELF64_EHSIZE : BitVec 64 := 64
def ELF_PHSIZE : BitVec 64 := 32
def ELF64_PHSIZE : BitVec 64 := 56
def ELF_SHSIZE : BitVec 64 := 40
def ELF_SYMSIZE : BitVec 32 := 16
def ELF_MEM_MAX : BitVec 64 := 256 * 1024 * 1024
def GUEST_STACK_SIZE : BitVec 64 := 64 * 1024

namespace File

variable (f : File)

def len : BitVec 64 := BitVec.ofNat 64 f.bytes.length

/-- `buf[i]`. -/
def byte (i : BitVec 64) : Except ElfError Byte :=
  match f.bytes[i.toNat]? with
  | some b => .ok b
  | none => .error .outOfBounds

/-- The little-endian word of `n` bytes at `p`, at width `w`. -/
def rd (w : Nat) (p : BitVec 64) : Nat → Except ElfError (BitVec w)
  | 0 => .ok 0
  | n + 1 => do
    let b ← f.byte p
    let rest ← rd w (p + 1) n
    return b.setWidth w ||| (rest <<< 8)

def rdU16 (p : BitVec 64) : Except ElfError (BitVec 16) := f.rd 16 p 2

def rdU32 (p : BitVec 64) : Except ElfError (BitVec 32) := f.rd 32 p 4

def rdU64 (p : BitVec 64) : Except ElfError (BitVec 64) := f.rd 64 p 8

/-- A field of 4 bytes in ELF32 and 8 in ELF64. -/
def rdWord (is64 : Bool) (p : BitVec 64) : Except ElfError (BitVec 64) := if is64 then f.rdU64 p else f.rd 64 p 4

/-- The `n` bytes at `p`, as `memcpy` reads them. -/
def slice (p n : BitVec 64) : Except ElfError (List Byte) :=
  if p.toNat + n.toNat ≤ f.bytes.length then .ok ((f.bytes.drop p.toNat).take n.toNat) else .error .outOfBounds

/-- `check_header`: is the file ELF64? -/
def checkHeader : Except ElfError Bool :=
  if f.len.ult ELF_EHSIZE then .error .tooSmall
  else do
    let b0 ← f.byte 0
    let b1 ← f.byte 1
    let b2 ← f.byte 2
    let b3 ← f.byte 3
    if b0 ≠ 0x7f ∨ b1 ≠ 0x45 ∨ b2 ≠ 0x4c ∨ b3 ≠ 0x46 then .error .badMagic
    else do
      let cls ← f.byte EI_CLASS
      if cls ≠ ELFCLASS32 ∧ cls ≠ ELFCLASS64 then .error .unknownClass
      else if cls = ELFCLASS64 ∧ f.len.ult ELF64_EHSIZE then .error .tooSmall64
      else do
        let data ← f.byte EI_DATA
        if data ≠ ELFDATA2LSB then .error .notLittleEndian
        else do
          let type ← f.rdU16 16
          if type ≠ ET_EXEC then .error .notExecutable
          else do
            let machine ← f.rdU16 18
            if machine ≠ EM_RISCV then .error .wrongMachine else .ok (cls == ELFCLASS64)

end File

/-! ## Program headers -/

/-- The program-header table: where it is and its shape. -/
structure PhTable where
  is64 : Bool
  phoff : BitVec 64
  phentsize : BitVec 16
  phnum : BitVec 16
  deriving DecidableEq, Repr

namespace PhTable

variable (t : PhTable)

/-- The least size of one header. -/
def phsizeMin : BitVec 64 := if t.is64 then ELF64_PHSIZE else ELF_PHSIZE

/-- `(size_t)phoff + (size_t)i * phentsize`. -/
def entry (i : Nat) : BitVec 64 := t.phoff + BitVec.ofNat 64 i * t.phentsize.setWidth 64

end PhTable

/-- The fields of a PT_LOAD program header. -/
structure Phdr where
  offset : BitVec 64
  vaddr : BitVec 64
  filesz : BitVec 64
  memsz : BitVec 64
  deriving DecidableEq, Repr

/-- What the first pass measures. -/
structure Span where
  lo : BitVec 64
  hi : BitVec 64
  loaded : Nat

namespace File

variable (f : File)

def readPhTable (is64 : Bool) : Except ElfError PhTable := do
  let phoff ← f.rdWord is64 (if is64 then 32 else 28)
  let phentsize ← f.rdU16 (if is64 then 54 else 42)
  let phnum ← f.rdU16 (if is64 then 56 else 44)
  return ⟨is64, phoff, phentsize, phnum⟩

/-- `read_phdr`. -/
def readPhdr (p : BitVec 64) (is64 : Bool) : Except ElfError Phdr := do
  let offset ← f.rdWord is64 (p + if is64 then 8 else 4)
  let vaddr ← f.rdWord is64 (p + if is64 then 16 else 8)
  let filesz ← f.rdWord is64 (p + if is64 then 32 else 16)
  let memsz ← f.rdWord is64 (p + if is64 then 40 else 20)
  return ⟨offset, vaddr, filesz, memsz⟩

/-- The header at index `i`, if it is a PT_LOAD one. -/
def segmentAt (t : PhTable) (i : Nat) : Except ElfError (Option Phdr) := do
  let type ← f.rdU32 (t.entry i)
  if type ≠ PT_LOAD then return none
  else do
    let s ← f.readPhdr (t.entry i) t.is64
    return some s

/-- One round of the first pass. -/
def measureOne (t : PhTable) (acc : Span) (i : Nat) : Except ElfError Span :=
  if f.len.ult (t.entry i + t.phsizeMin) then .error .tablePastEnd
  else do
    match ← f.segmentAt t i with
    | none => return acc
    | some s =>
      if f.len.ult s.offset ∨ (f.len - s.offset).ult s.filesz then .error .segmentOutOfBounds
      else if s.memsz.ult s.filesz then .error .fileszExceedsMemsz
      else return {
        lo := if s.vaddr.ult acc.lo then s.vaddr else acc.lo
        hi := if acc.hi.ult (s.vaddr + s.memsz) then s.vaddr + s.memsz else acc.hi
        loaded := acc.loaded + 1 }

/-- Pass 1: validate every PT_LOAD segment and measure their span. -/
def measure (t : PhTable) : Except ElfError Span :=
  (List.range t.phnum.toNat).foldlM (f.measureOne t) ⟨BitVec.allOnes 64, 0, 0⟩

/-- One round of the second pass. -/
def copyOne (t : PhTable) (mem : Memory) (i : Nat) : Except ElfError Memory := do
  match ← f.segmentAt t i with
  | none => return mem
  | some s =>
    if s.filesz = 0 then return mem
    else do
      let src ← f.slice s.offset s.filesz
      match memLoad mem s.vaddr src with
      | (true, mem) => return mem
      | (false, _) => .error .segmentDoesNotFit

/-- Pass 2: copy each PT_LOAD segment to its address. -/
def copy (t : PhTable) (mem : Memory) : Except ElfError Memory :=
  (List.range t.phnum.toNat).foldlM (f.copyOne t) mem

end File

/-- What `elf_load` hands to its caller. -/
structure Image where
  mem : Memory
  entry : BitVec 64
  xlen : Xlen

namespace File

variable (f : File)

/-- The program-header table of a file whose header passes the checks. -/
def phTable : Except ElfError PhTable := do
  let is64 ← f.checkHeader
  let t ← f.readPhTable is64
  if (t.phentsize.setWidth 64).ult t.phsizeMin then .error (.phentsize t.phentsize) else return t

/-- The size of guest memory for a measured image. -/
def spanSize (acc : Span) (minSize : BitVec 32) : BitVec 64 :=
  let span := acc.hi - acc.lo + GUEST_STACK_SIZE
  if span.ult (minSize.setWidth 64) then minSize.setWidth 64 else span

/-- `elf_load` on the contents of the file; `calloc` says which allocations the host grants. -/
def elfLoad (calloc : BitVec 64 → Bool) (minSize : BitVec 32) : Except ElfError Image := do
  let t ← f.phTable
  let acc ← f.measure t
  if acc.loaded = 0 then .error .noSegments
  else if (0x100000000#64).ult acc.hi then .error .beyondRegion
  else
    let image := acc.hi - acc.lo
    if image = 0 ∨ ELF_MEM_MAX.ult image then .error (.implausibleImage image)
    else
      let span := spanSize acc minSize
      if ELF_MEM_MAX.ult span ∨ (0x100000000#64).ult (acc.lo + span) then .error .doesNotFit
      else if !calloc span then .error (.cannotAllocate span)
      else do
        let mem ← f.copy t (memInit acc.lo span)
        let entry ← f.rdWord t.is64 24
        if entry.ult mem.base ∨ !entry.ult (mem.base + mem.size) then
          .error (.entryOutside (lo32 entry) (lo32 mem.base) (lo32 mem.size))
        else return ⟨mem, entry, if t.is64 then .rv64 else .rv32⟩

end File

/-! ## Symbols -/

/-- The section-header table of an ELF32 file. -/
structure ShTable where
  shoff : BitVec 32
  shentsize : BitVec 16
  shnum : BitVec 16

/-- `(size_t)shoff + (size_t)i * shentsize`. -/
def ShTable.entry (t : ShTable) (i : Nat) : BitVec 64 :=
  t.shoff.setWidth 64 + BitVec.ofNat 64 i * t.shentsize.setWidth 64

/-- A symbol table and the string table it links to. -/
structure SymTab where
  symOff : BitVec 32
  symSize : BitVec 32
  entsize : BitVec 32
  strOff : BitVec 32
  strSize : BitVec 32

/-- What the lookup does at a section: pass it by, give up, or scan it. -/
inductive Section
  | other
  | stop
  | table (t : SymTab)

namespace File

variable (f : File)

def sectionAt (t : ShTable) (i : Nat) : Except ElfError Section :=
  let sh := t.entry i
  if f.len.ult (sh + ELF_SHSIZE) then .ok .stop
  else do
    let type ← f.rdU32 (sh + 4)
    if type ≠ SHT_SYMTAB then return .other
    else do
      let symOff ← f.rdU32 (sh + 16)
      let symSize ← f.rdU32 (sh + 20)
      let link ← f.rdU32 (sh + 24)
      let entsize ← f.rdU32 (sh + 36)
      if entsize.ult ELF_SYMSIZE ∨ !link.ult (t.shnum.setWidth 32) then return .stop
      else if f.len.ult (symOff.setWidth 64 + symSize.setWidth 64) then return .stop
      else
        let lsh := t.entry link.toNat
        if f.len.ult (lsh + ELF_SHSIZE) then return .stop
        else do
          let strOff ← f.rdU32 (lsh + 16)
          let strSize ← f.rdU32 (lsh + 20)
          if f.len.ult (strOff.setWidth 64 + strSize.setWidth 64) then return .stop
          else return .table ⟨symOff, symSize, entsize, strOff, strSize⟩

/-- The NUL-terminated string at `p`, if it ends within `avail` bytes. -/
def cstr (p : BitVec 64) : Nat → Except ElfError (Option (List Byte))
  | 0 => .ok none
  | avail + 1 => do
    let b ← f.byte p
    if b = 0 then return some []
    else do
      let rest ← cstr (p + 1) avail
      return rest.map (b :: ·)

/-- Does the entry at `off` have the name sought? `name` is a C string. -/
def nameMatches (t : SymTab) (name : List Byte) (off : BitVec 32) : Except ElfError Bool := do
  let stName ← f.rdU32 (t.symOff.setWidth 64 + off.setWidth 64)
  if !stName.ult t.strSize then return false
  else do
    match ← f.cstr (t.strOff.setWidth 64 + stName.setWidth 64) (t.strSize - stName).toNat with
    | none => return false
    | some sym => return sym = name.takeWhile (· ≠ 0)

/-- The entry at `off`: the symbol's value, if it is the one. -/
def symbolAt (t : SymTab) (name : List Byte) (off : BitVec 32) : Except ElfError (Option (BitVec 32)) := do
  if ← f.nameMatches t name off then do
    let value ← f.rdU32 (t.symOff.setWidth 64 + off.setWidth 64 + 4)
    return some value
  else return none

/-- The scan of a symbol table from `off`; both the test and the advance are 32-bit. -/
def scanSymbols (t : SymTab) (name : List Byte) : Nat → BitVec 32 → Except ElfError (Option (BitVec 32))
  | 0, _ => .error .running
  | fuel + 1, off =>
    if !(off + ELF_SYMSIZE).ule t.symSize then .ok none
    else do
      match ← f.symbolAt t name off with
      | some value => return some value
      | none => scanSymbols t name fuel (off + t.entsize)

def scanSections (t : ShTable) (name : List Byte) (fuel : Nat) : List Nat → Except ElfError (Option (BitVec 32))
  | [] => .ok none
  | i :: is => do
    match ← f.sectionAt t i with
    | .other => scanSections t name fuel is
    | .stop => return none
    | .table tab =>
      match ← f.scanSymbols tab name fuel 0 with
      | some value => return some value
      | none => scanSections t name fuel is

def readShTable : Except ElfError ShTable := do
  let shoff ← f.rdU32 32
  let shentsize ← f.rdU16 46
  let shnum ← f.rdU16 48
  return ⟨shoff, shentsize, shnum⟩

/-- `elf_symbol`, with each symbol table scanned for at most `fuel` entries: `none` is -1, the
symbol is not there. -/
def elfSymbol (name : List Byte) (fuel : Nat) : Except ElfError (Option (BitVec 32)) := do
  if ← f.checkHeader then return none
  else do
    let t ← f.readShTable
    if t.shoff = 0 ∨ t.shnum = 0 ∨ (t.shentsize.setWidth 64).ult ELF_SHSIZE then return none
    else f.scanSections t name fuel (List.range t.shnum.toNat)

end File
end Elf
end Quanta
