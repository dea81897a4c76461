/-
The bus accessors: `plat_read`/`plat_write` route an MMIO access to its device, and
`mem_read*`/`mem_write*` route a physical access to a device window or to RAM. An access outside
both sets the fault flag, reads as 0 and drops a write. The four widths are one definition at
the byte count; each member keeps its own name.
-/
import Quanta.Device.Virtio

namespace Quanta

open Bytes

/-! ## MMIO dispatch -/

/-- A word register's offset in its window, rounded down to a word. -/
def wordOff (addr base : BitVec 64) : BitVec 32 := (addr - base).setWidth 32 &&& ~~~3#32

/-- The sub-word of a register's word that a read of `size` bytes at `addr` returns. -/
def subWord (word : BitVec 32) (addr : BitVec 64) (size : Nat) : BitVec 32 :=
  let word := word >>> (8 * (addr &&& 3).toNat)
  if size = 1 then word &&& 0xff else if size = 2 then word &&& 0xffff else word

def platRead (p : Platform) (addr : BitVec 64) (size : Nat) : BitVec 32 × Platform :=
  if inWindow addr UART_BASE UART_SIZE then
    let (v, u) := uartRead p.uart ((addr - UART_BASE).setWidth 32)
    (v, { p with uart := u })
  else if inWindow addr CLINT_BASE CLINT_SIZE then
    (subWord (clintRead p.clint (wordOff addr CLINT_BASE)) addr size, p)
  else if inWindow addr PLIC_BASE PLIC_SIZE then
    let (v, p) := plicRead p (wordOff addr PLIC_BASE)
    (subWord v addr size, p)
  else if inWindow addr VIRTIO_BASE VIRTIO_SIZE then
    (subWord (virtioRead p (wordOff addr VIRTIO_BASE)) addr size, p)
  else if inWindow addr VIRTIO_NET_BASE VIRTIO_NET_SIZE then
    (subWord (virtioNetRead p (wordOff addr VIRTIO_NET_BASE)) addr size, p)
  else (0, p)

/-- `plat_write`; the access size is ignored, as in the source. -/
def platWrite (b : Bus) (addr : BitVec 64) (value : BitVec 32) : Bus :=
  if inWindow addr TEST_BASE TEST_SIZE then b.setPlat (testWrite b.plat value)
  else if inWindow addr UART_BASE UART_SIZE then
    let (u, printed) := uartWrite b.plat.uart ((addr - UART_BASE).setWidth 32) (value.setWidth 8)
    { b with plat := { b.plat with uart := u }, out := b.out ++ printed }
  else if inWindow addr CLINT_BASE CLINT_SIZE then
    b.setPlat { b.plat with clint := clintWrite b.plat.clint (wordOff addr CLINT_BASE) value }
  else if inWindow addr PLIC_BASE PLIC_SIZE then
    b.setPlat (plicWrite b.plat (wordOff addr PLIC_BASE) value)
  else if inWindow addr VIRTIO_BASE VIRTIO_SIZE then
    virtioWrite b (wordOff addr VIRTIO_BASE) value
  else if inWindow addr VIRTIO_NET_BASE VIRTIO_NET_SIZE then
    virtioNetWrite b (wordOff addr VIRTIO_NET_BASE) value
  else b

/-! ## Memory accesses -/

/-- `translate`: the index of `width` bytes at `addr`, if they are all mapped. -/
def Memory.translate (m : Memory) (addr width : BitVec 64) : Option Nat :=
  if addr.ult m.base || m.size.ult width || (m.size - width).ult (addr - m.base) then none
  else some (addr - m.base).toNat

/-- Does `addr` go to a device? -/
def Bus.isDevice (b : Bus) (addr : BitVec 64) : Bool := b.mem.plat && platContains addr

def Bus.setFault (b : Bus) (addr : BitVec 64) : Bus :=
  { b with mem := { b.mem with fault := true, faultAddr := addr } }

def Bus.clearFault (b : Bus) : Bus := { b with mem := { b.mem with fault := false } }

/-- An `n`-byte device read; a doubleword is two word reads. -/
def devRead (p : Platform) (addr : BitVec 64) (n : Nat) : BitVec 64 × Platform :=
  if n = 8 then
    let (lo, p) := platRead p addr 4
    let (hi, p) := platRead p (addr + 4) 4
    (lo.setWidth 64 ||| (hi.setWidth 64 <<< 32), p)
  else
    let (v, p) := platRead p addr n
    (v.setWidth 64 &&& (BitVec.allOnes 64 >>> (64 - 8 * n)), p)

/-- An `n`-byte device write; a doubleword is two word writes. -/
def devWrite (b : Bus) (addr : BitVec 64) (n : Nat) (value : BitVec 64) : Bus :=
  if n = 8 then platWrite (platWrite b addr (value.setWidth 32)) (addr + 4) ((value >>> 32).setWidth 32)
  else platWrite b addr ((value &&& (BitVec.allOnes 64 >>> (64 - 8 * n))).setWidth 32)

/-- `mem_read8/16/32/64` at `n` bytes, zero-extended. -/
def memRead (b : Bus) (addr : BitVec 64) (n : Nat) : BitVec 64 × Bus :=
  if b.isDevice addr then
    let (v, p) := devRead b.plat addr n
    (v, b.setPlat p)
  else
    match b.mem.translate addr (BitVec.ofNat 64 n) with
    | none => (0, b.setFault addr)
    | some i => (readLE 64 b.mem.data i n, b)

/-- `mem_write8/16/32/64` at `n` bytes. -/
def memWrite (b : Bus) (addr : BitVec 64) (n : Nat) (value : BitVec 64) : Bus :=
  if b.isDevice addr then devWrite b addr n value
  else
    match b.mem.translate addr (BitVec.ofNat 64 n) with
    | none => b.setFault addr
    | some i => b.setRam (writeLE b.mem.data i n value)

def memRead64 (b : Bus) (addr : BitVec 64) : BitVec 64 × Bus := memRead b addr 8

def memRead32 (b : Bus) (addr : BitVec 64) : BitVec 32 × Bus :=
  ((memRead b addr 4).1.setWidth 32, (memRead b addr 4).2)

def memRead16 (b : Bus) (addr : BitVec 64) : BitVec 16 × Bus :=
  ((memRead b addr 2).1.setWidth 16, (memRead b addr 2).2)

def memRead8 (b : Bus) (addr : BitVec 64) : BitVec 8 × Bus :=
  ((memRead b addr 1).1.setWidth 8, (memRead b addr 1).2)

def memWrite64 (b : Bus) (addr : BitVec 64) (value : BitVec 64) : Bus := memWrite b addr 8 value

def memWrite32 (b : Bus) (addr : BitVec 64) (value : BitVec 32) : Bus :=
  memWrite b addr 4 (value.setWidth 64)

def memWrite16 (b : Bus) (addr : BitVec 64) (value : BitVec 16) : Bus :=
  memWrite b addr 2 (value.setWidth 64)

def memWrite8 (b : Bus) (addr : BitVec 64) (value : BitVec 8) : Bus :=
  memWrite b addr 1 (value.setWidth 64)

/-- `mem_init`: zeroed memory with no devices. -/
def memInit (base size : BitVec 64) : Memory := ⟨fun _ => 0, base, size, false, 0, false⟩

end Quanta
