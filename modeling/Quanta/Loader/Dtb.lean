/-
`dtb.c`: the device tree builder. The buffer is the memory at `buf`, also past its capacity, so a
stray write would show; strings are those of C, without their NUL.
-/
import Quanta.Device.Platform
import Quanta.Lib.Fdt

namespace Quanta

namespace Dtb

/-- `DtbConfig`: the geometry the tree describes. -/
structure DtbConfig where
  memBase : BitVec 32
  memSize : BitVec 32
  testBase : BitVec 32
  testSize : BitVec 32
  clintBase : BitVec 32
  clintSize : BitVec 32
  plicBase : BitVec 32
  plicSize : BitVec 32
  uartBase : BitVec 32
  uartSize : BitVec 32
  uartIrq : BitVec 32
  plicNdev : BitVec 32
  bootHart : BitVec 32
  nharts : BitVec 32
  timebaseFreq : BitVec 32
  isa : CString
  mmuType : CString
  bootargs : Option CString
  initrdStart : BitVec 32
  initrdEnd : BitVec 32
  virtioNetBase : BitVec 32
  virtioNetSize : BitVec 32
  virtioNetIrq : BitVec 32
  virtioBlkBase : BitVec 32
  virtioBlkSize : BitVec 32
  virtioBlkIrq : BitVec 32

def FDT_MAGIC : BitVec 32 := 0xd00dfeed
def FDT_VERSION : BitVec 32 := 17
def FDT_LAST_COMP : BitVec 32 := 16
def FDT_BEGIN_NODE : BitVec 32 := 1
def FDT_END_NODE : BitVec 32 := 2
def FDT_PROP : BitVec 32 := 3
def FDT_END : BitVec 32 := 9
def HEADER_SIZE : Nat := 40
def RSVMAP_SIZE : Nat := 16
def STRUCT_OFF : Nat := HEADER_SIZE + RSVMAP_SIZE

def PHANDLE_PLIC : BitVec 32 := 2
def PHANDLE_CPU_INTC (h : BitVec 32) : BitVec 32 := 16 + h

/-- The builder: the buffer, the struct cursor, and the strings gathered so far. -/
structure Fdt where
  out : Nat → Byte
  cap : Nat
  spos : Nat
  strings : List Byte
  ok : Bool

/-- `sizeof f->strings`. -/
def STRINGS_SIZE : Nat := 512

/-- `wr_be`. -/
def wrBe (p : Nat → Byte) (i : Nat) (v : BitVec 32) : Nat → Byte :=
  let p := Function.update p i ((v >>> 24).setWidth 8)
  let p := Function.update p (i + 1) ((v >>> 16).setWidth 8)
  let p := Function.update p (i + 2) ((v >>> 8).setWidth 8)
  Function.update p (i + 3) (v.setWidth 8)

namespace Fdt

def putU32 (f : Fdt) (v : BitVec 32) : Fdt :=
  if f.cap < f.spos + 4 then { f with ok := false }
  else { f with out := wrBe f.out f.spos v, spos := f.spos + 4 }

def putBytes (f : Fdt) (p : List Byte) : Fdt :=
  if p.length = 0 then f
  else if f.cap < f.spos + p.length then { f with ok := false }
  else { f with out := writeBytes f.out f.spos p, spos := f.spos + p.length }

/-- The loop of `pad_struct`, for at most `n` rounds. -/
def padRounds : Nat → Fdt → Fdt
  | 0, f => f
  | n + 1, f =>
    if f.spos % 4 = 0 then f
    else if f.cap < f.spos + 1 then { f with ok := false }
    else padRounds n { f with out := Function.update f.out f.spos 0, spos := f.spos + 1 }

/-- `pad_struct`; the cursor is at most three bytes short of a multiple of four. -/
def padStruct (f : Fdt) : Fdt := padRounds 3 f

/-- The scan of `intern` from offset `i`: the offset of the string equal to `name`. -/
def internScan (strings name : List Byte) : Nat → Nat → Option Nat
  | 0, _ => none
  | fuel + 1, i =>
    if strings.length ≤ i then none
    else
      let s := (strings.drop i).takeWhile (· ≠ 0)
      if s = name then some i else internScan strings name fuel (i + s.length + 1)

/-- `intern`: the offset of a name, added to the strings if it is new and there is room. -/
def intern (f : Fdt) (name : List Byte) : BitVec 32 × Fdt :=
  match internScan f.strings name (f.strings.length + 1) 0 with
  | some i => (BitVec.ofNat 32 i, f)
  | none =>
    if STRINGS_SIZE < f.strings.length + (name.length + 1) then (0, { f with ok := false })
    else (BitVec.ofNat 32 f.strings.length, { f with strings := f.strings ++ (name ++ [0]) })

def beginNode (f : Fdt) (name : List Byte) : Fdt :=
  ((f.putU32 FDT_BEGIN_NODE).putBytes (name ++ [0])).padStruct

def endNode (f : Fdt) : Fdt := f.putU32 FDT_END_NODE

/-- What `prop` and `prop_cells` put before the value: the token, the length and the name. -/
def propHead (f : Fdt) (name : List Byte) (len : BitVec 32) : Fdt :=
  let f := f.putU32 FDT_PROP
  let f := f.putU32 len
  let (off, f) := f.intern name
  f.putU32 off

def prop (f : Fdt) (name val : List Byte) (len : BitVec 32) : Fdt :=
  ((f.propHead name len).putBytes (val.take len.toNat)).padStruct

def propEmpty (f : Fdt) (name : List Byte) : Fdt := f.prop name [] 0

def propStr (f : Fdt) (name s : List Byte) : Fdt := f.prop name (s ++ [0]) (BitVec.ofNat 32 (s.length + 1))

def propCells (f : Fdt) (name : List Byte) (cells : List (BitVec 32)) : Fdt :=
  (cells.foldl putU32 (f.propHead name (BitVec.ofNat 32 cells.length * 4))).padStruct

def propU32 (f : Fdt) (name : List Byte) (v : BitVec 32) : Fdt := f.propCells name [v]

def propReg (f : Fdt) (base size : BitVec 32) : Fdt := f.propCells (ascii "reg") [0, base, 0, size]

end Fdt

/-! ## Unit names -/

def hexDigit (n : Nat) : Byte := BitVec.ofNat 8 (if n < 10 then 48 + n else 87 + n)

/-- The digits of `n` before those in `acc`, at most `fuel` of them. -/
def hexFrom : Nat → Nat → List Byte → List Byte
  | 0, _, acc => acc
  | fuel + 1, n, acc =>
    let acc := hexDigit (n % 16) :: acc
    if n / 16 = 0 then acc else hexFrom fuel (n / 16) acc

/-- `%x` of a 32-bit word. -/
def hex (v : BitVec 32) : List Byte := hexFrom 8 v.toNat []

/-- `snprintf(unit, sizeof unit, "name@%x", v)`, for a buffer of 32 bytes. -/
def unit (name : String) (v : BitVec 32) : List Byte := (ascii name ++ hex v).take 31

/-! ## The tree -/

/-- The harts described: at least one. -/
def DtbConfig.hartCount (cfg : DtbConfig) : BitVec 32 := if cfg.nharts ≠ 0 then cfg.nharts else 1

/-- The cells that wire two interrupts of each hart, as the loops over `irqs` leave them. -/
def irqs (nharts : BitVec 32) (first second : BitVec 32) : List (BitVec 32) :=
  (List.range nharts.toNat).flatMap fun h =>
    [PHANDLE_CPU_INTC (BitVec.ofNat 32 h), first, PHANDLE_CPU_INTC (BitVec.ofNat 32 h), second]

namespace Fdt

/-- `/chosen`. -/
def chosen (cfg : DtbConfig) (f : Fdt) : Fdt :=
  let f := f.beginNode (ascii "chosen")
    |>.propStr (ascii "stdout-path") (ascii "/soc/uart@10000000")
    |>.propStr (ascii "bootargs") (cfg.bootargs.elim [] CString.bytes)
  let f :=
    if cfg.initrdStart.ult cfg.initrdEnd then
      f.propCells (ascii "linux,initrd-start") [0, cfg.initrdStart]
        |>.propCells (ascii "linux,initrd-end") [0, cfg.initrdEnd]
    else f
  f.endNode

/-- A round of the loop over the harts: one `cpu` node with its interrupt controller. -/
def cpu (cfg : DtbConfig) (f : Fdt) (h : Nat) : Fdt :=
  f.beginNode (unit "cpu@" (BitVec.ofNat 32 h))
    |>.propStr (ascii "device_type") (ascii "cpu")
    |>.propU32 (ascii "reg") (BitVec.ofNat 32 h)
    |>.propStr (ascii "status") (ascii "okay")
    |>.propStr (ascii "compatible") (ascii "riscv")
    |>.propStr (ascii "riscv,isa") cfg.isa.bytes
    |>.propStr (ascii "mmu-type") cfg.mmuType.bytes
    |>.beginNode (ascii "interrupt-controller")
    |>.propU32 (ascii "#interrupt-cells") 1
    |>.propEmpty (ascii "interrupt-controller")
    |>.propStr (ascii "compatible") (ascii "riscv,cpu-intc")
    |>.propU32 (ascii "phandle") (PHANDLE_CPU_INTC (BitVec.ofNat 32 h))
    |>.endNode
    |>.endNode

/-- `/cpus`. -/
def cpus (cfg : DtbConfig) (f : Fdt) : Fdt :=
  let f := f.beginNode (ascii "cpus")
    |>.propU32 (ascii "#address-cells") 1
    |>.propU32 (ascii "#size-cells") 0
    |>.propU32 (ascii "timebase-frequency") cfg.timebaseFreq
  ((List.range cfg.hartCount.toNat).foldl (cpu cfg) f).endNode

/-- `/memory@base`. -/
def memory (cfg : DtbConfig) (f : Fdt) : Fdt :=
  f.beginNode (unit "memory@" cfg.memBase)
    |>.propStr (ascii "device_type") (ascii "memory")
    |>.propReg cfg.memBase cfg.memSize
    |>.endNode

def clint (cfg : DtbConfig) (f : Fdt) : Fdt :=
  f.beginNode (unit "clint@" cfg.clintBase)
    |>.propStr (ascii "compatible") (ascii "riscv,clint0")
    |>.propReg cfg.clintBase cfg.clintSize
    |>.propCells (ascii "interrupts-extended") (irqs cfg.hartCount 3 7)
    |>.endNode

def plic (cfg : DtbConfig) (f : Fdt) : Fdt :=
  f.beginNode (unit "plic@" cfg.plicBase)
    |>.propStr (ascii "compatible") (ascii "riscv,plic0")
    |>.propReg cfg.plicBase cfg.plicSize
    |>.propU32 (ascii "#interrupt-cells") 1
    |>.propEmpty (ascii "interrupt-controller")
    |>.propCells (ascii "interrupts-extended") (irqs cfg.hartCount 11 9)
    |>.propU32 (ascii "riscv,ndev") cfg.plicNdev
    |>.propU32 (ascii "phandle") PHANDLE_PLIC
    |>.endNode

def uart (cfg : DtbConfig) (f : Fdt) : Fdt :=
  f.beginNode (unit "uart@" cfg.uartBase)
    |>.propStr (ascii "compatible") (ascii "ns16550a")
    |>.propReg cfg.uartBase cfg.uartSize
    |>.propU32 (ascii "clock-frequency") 3686400
    |>.propU32 (ascii "interrupt-parent") PHANDLE_PLIC
    |>.propU32 (ascii "interrupts") cfg.uartIrq
    |>.endNode

/-- A virtio-mmio device, advertised when its base is not zero. -/
def virtio (base size irq : BitVec 32) (f : Fdt) : Fdt :=
  if base ≠ 0 then
    f.beginNode (unit "virtio@" base)
      |>.propStr (ascii "compatible") (ascii "virtio,mmio")
      |>.propReg base size
      |>.propU32 (ascii "interrupt-parent") PHANDLE_PLIC
      |>.propU32 (ascii "interrupts") irq
      |>.endNode
  else f

/-- `test_compat`: two strings, each with its NUL. -/
def testCompat : List Byte := ascii "sifive,test1" ++ [0] ++ ascii "sifive,test0" ++ [0]

/-- The test finisher. -/
def test (cfg : DtbConfig) (f : Fdt) : Fdt :=
  f.beginNode (unit "test@" cfg.testBase)
    |>.prop (ascii "compatible") testCompat (BitVec.ofNat 32 testCompat.length)
    |>.propReg cfg.testBase cfg.testSize
    |>.endNode

/-- `/soc`. -/
def soc (cfg : DtbConfig) (f : Fdt) : Fdt :=
  f.beginNode (ascii "soc")
    |>.propU32 (ascii "#address-cells") 2
    |>.propU32 (ascii "#size-cells") 2
    |>.propStr (ascii "compatible") (ascii "simple-bus")
    |>.propEmpty (ascii "ranges")
    |> clint cfg
    |> plic cfg
    |> uart cfg
    |> virtio cfg.virtioBlkBase cfg.virtioBlkSize cfg.virtioBlkIrq
    |> virtio cfg.virtioNetBase cfg.virtioNetSize cfg.virtioNetIrq
    |> test cfg
    |>.endNode

/-- The root node. -/
def root (cfg : DtbConfig) (f : Fdt) : Fdt :=
  f.beginNode (ascii "")
    |>.propU32 (ascii "#address-cells") 2
    |>.propU32 (ascii "#size-cells") 2
    |>.propStr (ascii "compatible") (ascii "quanta,virt")
    |>.propStr (ascii "model") (ascii "quanta,virt")
    |> chosen cfg
    |> cpus cfg
    |> memory cfg
    |> soc cfg
    |>.endNode

/-- The header, filled in once the sizes are known. -/
def finish (cfg : DtbConfig) (f : Fdt) (total : Nat) (out : Nat → Byte) : Nat → Byte :=
  let out := wrBe out 0 FDT_MAGIC
  let out := wrBe out 4 (BitVec.ofNat 32 total)
  let out := wrBe out 8 (BitVec.ofNat 32 STRUCT_OFF)
  let out := wrBe out 12 (BitVec.ofNat 32 f.spos)
  let out := wrBe out 16 (BitVec.ofNat 32 HEADER_SIZE)
  let out := wrBe out 20 FDT_VERSION
  let out := wrBe out 24 FDT_LAST_COMP
  let out := wrBe out 28 cfg.bootHart
  let out := wrBe out 32 (BitVec.ofNat 32 f.strings.length)
  wrBe out 36 (BitVec.ofNat 32 (f.spos - STRUCT_OFF))

end Fdt

/-- `dtb_build`: the size returned and the buffer after it. -/
def dtbBuild (buf : Nat → Byte) (cap : Nat) (cfg : DtbConfig) : Nat × (Nat → Byte) :=
  if cap < STRUCT_OFF then (0, buf)
  else
    let f : Fdt := ⟨writeBytes buf 0 (List.replicate cap 0), cap, STRUCT_OFF, [], true⟩
    let f := (f.root cfg).putU32 FDT_END
    if !f.ok then (0, f.out)
    else if cap < f.spos + f.strings.length then (0, f.out)
    else
      let total := f.spos + f.strings.length
      (total, f.finish cfg total (writeBytes f.out f.spos f.strings))

end Dtb
end Quanta
