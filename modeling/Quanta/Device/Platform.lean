/-
The platform of `device.h` and its register models other than virtio: the SiFive test finisher,
the 16550 UART, the PLIC and the CLINT, with the window test that routes an address to a device
and the interrupt-pending bits the platform drives into a hart's `mip`. Device reads with a side
effect (RBR, IIR, PLIC claim) return the value and the new device.
-/
import Quanta.Lib.Bytes

namespace Quanta

/-! ## State -/

structure Clint where
  mtime : BitVec 64
  mtimecmp : Nat → BitVec 64
  msip : Nat → BitVec 32

structure Uart where
  ier : Byte
  lcr : Byte
  mcr : Byte
  scr : Byte
  dll : Byte
  dlm : Byte
  rxHave : Bool
  rx : Byte
  threIp : Bool

structure Plic where
  priority : Nat → BitVec 32
  enable : Nat → BitVec 32
  threshold : Nat → BitVec 32
  claimed : Nat → BitVec 32

/-- The virtio block device's register file (one split virtqueue, kept inline). -/
structure Virtio where
  status : BitVec 32
  featuresSel : BitVec 32
  queueNum : BitVec 32
  queueReady : BitVec 32
  descAddr : BitVec 64
  availAddr : BitVec 64
  usedAddr : BitVec 64
  lastAvail : BitVec 16
  interruptStatus : BitVec 32

/-- One split virtqueue of the network device. -/
structure Virtqueue where
  num : BitVec 32
  ready : BitVec 32
  descAddr : BitVec 64
  availAddr : BitVec 64
  usedAddr : BitVec 64
  lastAvail : BitVec 16

/-- The virtio network device. `tx` is the host backend for transmitted frames: from the frames
transmitted so far, oldest first, it yields the frames it delivers back through `plat_net_rx`
during the call; `none` is the built-in loopback. `sent` is the frames handed to it. -/
structure VirtioNet where
  status : BitVec 32
  featuresSel : BitVec 32
  driverFeatSel : BitVec 32
  queueSel : BitVec 32
  interruptStatus : BitVec 32
  vq : Nat → Virtqueue
  mac : Nat → Byte
  fifo : Nat → List Byte
  fifoHead : BitVec 32
  fifoCount : BitVec 32
  tx : Option (List (List Byte) → List (List Byte))
  sent : List (List Byte)

/-- The `--disk` image. `data = none` is no disk; `file` is the backing file's contents. -/
structure Disk where
  data : Option (Nat → Byte)
  size : BitVec 64
  file : Option (Nat → Byte)
  writable : Bool

/-- `harts` and `ram` say whether the pointer is attached; the arrays themselves are the
machine's own. -/
structure Platform where
  clint : Clint
  uart : Uart
  plic : Plic
  virtio : Virtio
  net : VirtioNet
  disk : Disk
  harts : Bool
  nharts : Nat
  ram : Bool
  ramBase : BitVec 64
  ramSize : BitVec 64
  poweroff : Bool
  poweroffCode : BitVec 32

def QUANTA_MAX_HARTS : Nat := 8
def PLIC_NSOURCES : Nat := 32
def PLIC_NCONTEXTS : Nat := 2 * QUANTA_MAX_HARTS
def UART_IRQ : Nat := 10
def VIRTIO_IRQ : Nat := 1
def VIRTIO_NET_IRQ : Nat := 2

def MIP_MSIP : BitVec 32 := 1 <<< 3
def MIP_MTIP : BitVec 32 := 1 <<< 7
def MIP_SEIP : BitVec 32 := 1 <<< 9
def MIP_MEIP : BitVec 32 := 1 <<< 11

/-! ## Windows -/

def TEST_BASE : BitVec 64 := 0x00100000
def TEST_SIZE : BitVec 64 := 0x00001000
def CLINT_BASE : BitVec 64 := 0x02000000
def CLINT_SIZE : BitVec 64 := 0x00010000
def PLIC_BASE : BitVec 64 := 0x0c000000
def PLIC_SIZE : BitVec 64 := 0x04000000
def UART_BASE : BitVec 64 := 0x10000000
def UART_SIZE : BitVec 64 := 0x00000100
def VIRTIO_BASE : BitVec 64 := 0x10001000
def VIRTIO_SIZE : BitVec 64 := 0x00001000
def VIRTIO_NET_BASE : BitVec 64 := 0x10002000
def VIRTIO_NET_SIZE : BitVec 64 := 0x00001000

def inWindow (addr base size : BitVec 64) : Bool := (addr - base).ult size

def platContains (addr : BitVec 64) : Bool :=
  inWindow addr TEST_BASE TEST_SIZE || inWindow addr CLINT_BASE CLINT_SIZE ||
  inWindow addr PLIC_BASE PLIC_SIZE || inWindow addr UART_BASE UART_SIZE ||
  inWindow addr VIRTIO_BASE VIRTIO_SIZE || inWindow addr VIRTIO_NET_BASE VIRTIO_NET_SIZE

/-! ## Reset -/

def Virtio.zero : Virtio :=
  ⟨0, 0, 0, 0, 0, 0, 0, 0, 0⟩

def Virtqueue.zero : Virtqueue :=
  ⟨0, 0, 0, 0, 0, 0⟩

/-- The config-space MAC `plat_init` programs. -/
def defaultMac : Nat → Byte
  | 0 => 0x52
  | 1 => 0x54
  | 2 => 0x00
  | 3 => 0x12
  | 4 => 0x34
  | 5 => 0x56
  | _ => 0

/-- `plat_init`: zeroed register files, every timer compare parked at all-ones. -/
def platInit : Platform where
  clint := ⟨0, fun _ => BitVec.allOnes 64, fun _ => 0⟩
  uart := ⟨0, 0, 0, 0, 0, 0, false, 0, false⟩
  plic := ⟨fun _ => 0, fun _ => 0, fun _ => 0, fun _ => 0⟩
  virtio := Virtio.zero
  net := ⟨0, 0, 0, 0, 0, fun _ => Virtqueue.zero, defaultMac, fun _ => [], 0, 0, none, []⟩
  disk := ⟨none, 0, none, false⟩
  harts := false
  nharts := 1
  ram := false
  ramBase := 0
  ramSize := 0
  poweroff := false
  poweroffCode := 0

def platAttachRam (p : Platform) (base size : BitVec 64) : Platform :=
  { p with ram := true, ramBase := base, ramSize := size }

def platSetHarts (p : Platform) (n : Nat) : Platform :=
  { p with harts := true, nharts := n }

def platTick (p : Platform) : Platform :=
  { p with clint := { p.clint with mtime := p.clint.mtime + 1 } }

/-! ## The test finisher -/

def testWrite (p : Platform) (value : BitVec 32) : Platform :=
  let code := value &&& 0xffff#32
  if code = 0x3333#32 then
    { p with poweroff := true, poweroffCode := (value >>> 16) &&& 0xff#32 }
  else if code = 0x5555#32 ∨ code = 0x7777#32 then
    { p with poweroff := true, poweroffCode := 0 }
  else p

/-! ## The 16550 UART -/

def uartLsr (u : Uart) : Byte := if u.rxHave then 0x61 else 0x60

def Uart.rxPending (u : Uart) : Bool := u.ier.getLsbD 0 && u.rxHave

def Uart.threPending (u : Uart) : Bool := u.ier.getLsbD 1 && u.threIp

def uartAsserted (u : Uart) : Bool := u.rxPending || u.threPending

def uartIir (u : Uart) : Byte :=
  if u.rxPending then 0x04 else if u.threPending then 0x02 else 0x01

def uartRead (u : Uart) (off : BitVec 32) : BitVec 32 × Uart :=
  let dlab := u.lcr.getLsbD 7
  match off.toNat with
  | 0 => if dlab then (u.dll.setWidth 32, u) else (u.rx.setWidth 32, { u with rxHave := false })
  | 1 => ((if dlab then u.dlm else u.ier).setWidth 32, u)
  | 2 => ((uartIir u).setWidth 32, if uartIir u = 0x02 then { u with threIp := false } else u)
  | 3 => (u.lcr.setWidth 32, u)
  | 4 => (u.mcr.setWidth 32, u)
  | 5 => ((uartLsr u).setWidth 32, u)
  | 7 => (u.scr.setWidth 32, u)
  | _ => (0, u)

/-- `uart_write`, with the bytes it prints to the host console. -/
def uartWrite (u : Uart) (off : BitVec 32) (val : Byte) : Uart × List Byte :=
  let dlab := u.lcr.getLsbD 7
  match off.toNat with
  | 0 => if dlab then ({ u with dll := val }, []) else ({ u with threIp := true }, [val])
  | 1 =>
    if dlab then ({ u with dlm := val }, [])
    else
      let ier := val &&& 0x0f
      ({ u with ier := ier, threIp := ier.getLsbD 1 || u.threIp }, [])
  | 3 => ({ u with lcr := val }, [])
  | 4 => ({ u with mcr := val }, [])
  | 7 => ({ u with scr := val }, [])
  | _ => (u, [])

/-- `plat_uart_rx`: buffer a received byte unless the one-byte buffer is full. -/
def platUartRx (p : Platform) (byte : Byte) : Bool × Platform :=
  if p.uart.rxHave then (false, p)
  else (true, { p with uart := { p.uart with rx := byte, rxHave := true } })

/-! ## The PLIC -/

/-- The sources asserting their line. -/
def plicLines (p : Platform) : BitVec 32 :=
  (if uartAsserted p.uart then 1#32 <<< UART_IRQ else 0) |||
  (if p.virtio.interruptStatus ≠ 0 then 1#32 <<< VIRTIO_IRQ else 0) |||
  (if p.net.interruptStatus ≠ 0 then 1#32 <<< VIRTIO_NET_IRQ else 0)

/-- One source of the priority scan: `(best, best_prio)` before and after source `s`. -/
def plicScan (p : Platform) (ctx : Nat) (acc : BitVec 32 × BitVec 32) (s : Nat) :
    BitVec 32 × BitVec 32 :=
  if !(plicLines p).getLsbD s then acc
  else if !(p.plic.enable ctx).getLsbD s then acc
  else if BitVec.ofNat 32 s = p.plic.claimed ctx then acc
  else if (p.plic.priority s).ule (p.plic.threshold ctx) then acc
  else if acc.2.ult (p.plic.priority s) then (BitVec.ofNat 32 s, p.plic.priority s)
  else acc

/-- The source presented to context `ctx`; 0 means none. -/
def plicBest (p : Platform) (ctx : Nat) : BitVec 32 :=
  ((List.range' 1 (PLIC_NSOURCES - 1)).foldl (plicScan p ctx) (0, 0)).1

def plicClaim (p : Platform) (ctx : Nat) : BitVec 32 × Platform :=
  let s := plicBest p ctx
  (s, if s ≠ 0 then
        { p with plic := { p.plic with claimed := Function.update p.plic.claimed ctx s } }
      else p)

def plicRead (p : Platform) (off : BitVec 32) : BitVec 32 × Platform :=
  let off := off.toNat
  if off < 0x1000 then
    (if off / 4 < PLIC_NSOURCES then p.plic.priority (off / 4) else 0, p)
  else if off = 0x1000 then (plicLines p, p)
  else if 0x2000 ≤ off ∧ off < 0x2000 + PLIC_NCONTEXTS * 0x80 then
    let rel := off - 0x2000
    (if rel % 0x80 = 0 then p.plic.enable (rel / 0x80) else 0, p)
  else if 0x200000 ≤ off ∧ off < 0x200000 + PLIC_NCONTEXTS * 0x1000 then
    let rel := off - 0x200000
    if rel % 0x1000 = 0 then (p.plic.threshold (rel / 0x1000), p)
    else if rel % 0x1000 = 4 then plicClaim p (rel / 0x1000)
    else (0, p)
  else (0, p)

def plicWrite (p : Platform) (off val : BitVec 32) : Platform :=
  let off := off.toNat
  if off < 0x1000 then
    if 1 ≤ off / 4 ∧ off / 4 < PLIC_NSOURCES then
      { p with plic := { p.plic with priority := Function.update p.plic.priority (off / 4) val } }
    else p
  else if 0x2000 ≤ off ∧ off < 0x2000 + PLIC_NCONTEXTS * 0x80 then
    let rel := off - 0x2000
    if rel % 0x80 = 0 then
      { p with plic := { p.plic with enable := Function.update p.plic.enable (rel / 0x80) val } }
    else p
  else if 0x200000 ≤ off ∧ off < 0x200000 + PLIC_NCONTEXTS * 0x1000 then
    let rel := off - 0x200000
    let ctx := rel / 0x1000
    if rel % 0x1000 = 0 then
      { p with plic := { p.plic with threshold := Function.update p.plic.threshold ctx val } }
    else if rel % 0x1000 = 4 ∧ val = p.plic.claimed ctx then
      { p with plic := { p.plic with claimed := Function.update p.plic.claimed ctx 0 } }
    else p
  else p

/-! ## The CLINT -/

/-- The low half of `old` replaced by `val`. -/
def setLo (old : BitVec 64) (val : BitVec 32) : BitVec 64 :=
  (old &&& 0xffffffff00000000#64) ||| val.setWidth 64

/-- The high half of `old` replaced by `val`. -/
def setHi (old : BitVec 64) (val : BitVec 32) : BitVec 64 :=
  (old &&& 0x00000000ffffffff#64) ||| (val.setWidth 64 <<< 32)

def clintRead (c : Clint) (off : BitVec 32) : BitVec 32 :=
  let off := off.toNat
  if off < QUANTA_MAX_HARTS * 4 then c.msip (off / 4) &&& 1
  else if 0x4000 ≤ off ∧ off < 0x4000 + QUANTA_MAX_HARTS * 8 then
    let rel := off - 0x4000
    if rel % 8 < 4 then (c.mtimecmp (rel / 8)).setWidth 32
    else (c.mtimecmp (rel / 8) >>> 32).setWidth 32
  else if off = 0xbff8 then c.mtime.setWidth 32
  else if off = 0xbffc then (c.mtime >>> 32).setWidth 32
  else 0

def clintWrite (c : Clint) (off val : BitVec 32) : Clint :=
  let off := off.toNat
  if off < QUANTA_MAX_HARTS * 4 then { c with msip := Function.update c.msip (off / 4) (val &&& 1) }
  else if 0x4000 ≤ off ∧ off < 0x4000 + QUANTA_MAX_HARTS * 8 then
    let rel := off - 0x4000
    let h := rel / 8
    let cmp := if rel % 8 < 4 then setLo (c.mtimecmp h) val else setHi (c.mtimecmp h) val
    { c with mtimecmp := Function.update c.mtimecmp h cmp }
  else if off = 0xbff8 then { c with mtime := setLo c.mtime val }
  else if off = 0xbffc then { c with mtime := setHi c.mtime val }
  else c

/-! ## Interrupt pull -/

/-- `mtime >= mtimecmp[hart]`. -/
def Clint.timerReached (c : Clint) (hart : Nat) : Bool := (c.mtimecmp hart).ule c.mtime

def platMipBits (p : Platform) (hart : BitVec 32) : BitVec 32 :=
  let h := hart.toNat
  let clint :=
    if h < QUANTA_MAX_HARTS then
      (if p.clint.timerReached h then MIP_MTIP else 0) |||
      (if (p.clint.msip h).getLsbD 0 then MIP_MSIP else 0)
    else 0
  let plic :=
    if plicLines p ≠ 0 then
      (if plicBest p (2 * h) ≠ 0 then MIP_MEIP else 0) |||
      (if plicBest p (2 * h + 1) ≠ 0 then MIP_SEIP else 0)
    else 0
  clint ||| plic

/-- `plat_poweroff_requested`: the exit status once a power-off was requested. -/
def platPoweroffRequested (p : Platform) : Option (BitVec 32) :=
  if p.poweroff then some p.poweroffCode else none

/-! ## The bus -/

/-- `Memory`: `data` is indexed from `base`; `plat` says whether a platform is attached. -/
structure Memory where
  data : Nat → Byte
  base : BitVec 64
  size : BitVec 64
  fault : Bool
  faultAddr : BitVec 64
  plat : Bool

/-- What an access on the bus reads and changes: memory, the platform, and the host console. -/
structure Bus where
  mem : Memory
  plat : Platform
  out : List Byte

def Bus.setRam (b : Bus) (data : Nat → Byte) : Bus := { b with mem := { b.mem with data := data } }

def Bus.setPlat (b : Bus) (p : Platform) : Bus := { b with plat := p }

end Quanta
