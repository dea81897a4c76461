/-
Booting through an M-mode firmware (`quanta.c`): the firmware's ELF file is loaded, the harts start
at its entry, the kernel is copied 2 MiB above the base of RAM, and the initrd, the device tree and
the `fw_dynamic_info` block are parked near its top. Files are those the host could open and read.
-/
import Quanta.Engine.Handle
import Quanta.Loader.Dtb
import Quanta.Loader.Image

namespace Quanta

open Dtb Elf

def FW_DYNAMIC_MAGIC : BitVec 64 := 0x4942534f
def FW_DYNAMIC_VERSION : BitVec 64 := 2
def FW_PRV_S : BitVec 64 := 1
def FW_DTB_HEADROOM : BitVec 64 := 0x200000
def KERNEL_LOAD_OFFSET : BitVec 64 := 0x200000
def DTB_MAX_SIZE : Nat := 4096

/-- What was asked of the handle before a load: the devices to advertise and the decode cache. -/
structure BootOptions where
  netdevAdvertised : Bool
  diskAdvertised : Bool
  dcacheOn : Bool

/-- A machine as `dtb_config` describes it. -/
def machineConfig (xlen : Xlen) (base size : BitVec 64) (nharts : Nat) (o : BootOptions)
    (bootargs : Option CString) : DtbConfig where
  memBase := lo32 base
  memSize := lo32 size
  testBase := lo32 TEST_BASE
  testSize := lo32 TEST_SIZE
  clintBase := lo32 CLINT_BASE
  clintSize := lo32 CLINT_SIZE
  plicBase := lo32 PLIC_BASE
  plicSize := lo32 PLIC_SIZE
  uartBase := lo32 UART_BASE
  uartSize := lo32 UART_SIZE
  uartIrq := BitVec.ofNat 32 UART_IRQ
  plicNdev := BitVec.ofNat 32 (PLIC_NSOURCES - 1)
  bootHart := 0
  nharts := BitVec.ofNat 32 nharts
  timebaseFreq := 10000000
  isa := if xlen = .rv64 then ⟨ascii "rv64imac_zicsr", by decide⟩ else ⟨ascii "rv32ima_zicsr_zifencei", by decide⟩
  mmuType := if xlen = .rv64 then ⟨ascii "riscv,sv39", by decide⟩ else ⟨ascii "riscv,sv32", by decide⟩
  bootargs := bootargs
  initrdStart := 0
  initrdEnd := 0
  virtioNetBase := if o.netdevAdvertised then lo32 VIRTIO_NET_BASE else 0
  virtioNetSize := if o.netdevAdvertised then lo32 VIRTIO_NET_SIZE else 0
  virtioNetIrq := if o.netdevAdvertised then BitVec.ofNat 32 VIRTIO_NET_IRQ else 0
  virtioBlkBase := if o.diskAdvertised then lo32 VIRTIO_BASE else 0
  virtioBlkSize := if o.diskAdvertised then lo32 VIRTIO_SIZE else 0
  virtioBlkIrq := if o.diskAdvertised then BitVec.ofNat 32 VIRTIO_IRQ else 0

namespace Handle

/-- `start_at`: reset the platform and bring up every hart at `entry`. -/
def startAt (q : Handle) (o : BootOptions) (mem : Memory) (entry : BitVec 64) (xlen : Xlen) : Handle :=
  let nharts := if q.nharts < 1 then 1 else q.nharts
  let sp := (mem.base + mem.size) &&& ~~~0xf#64
  { machine := { q.machine with
      harts := fun i =>
        if i < nharts then CPU.boot (q.machine.harts i).tlb entry xlen i [(2, sp)] else q.machine.harts i
      bus :=
        { mem := { mem with plat := true }
          plat := platSetHarts (platAttachRam platInit mem.base mem.size) nharts
          out := q.machine.bus.out } }
    nharts := nharts
    sched := 0
    mHalted := false
    mReason := .none
    mExit := 0
    dcaches := fun i =>
      if i < nharts then (if o.dcacheOn then dcacheFlush (some ((q.dcaches i).getD dcacheNew)) else none)
      else q.dcaches i
    loaded := true
    dtbAddr := 0 }

/-- `mem_load` into the handle's memory. -/
def load? (q : Handle) (addr : BitVec 64) (src : List Byte) : Bool × Handle :=
  let r := memLoad q.machine.bus.mem addr src
  (r.1, { q with machine := q.machine.setBus { q.machine.bus with mem := r.2 } })

/-- `dtb_config`; the initrd bounds are filled in later. -/
def dtbConfig (q : Handle) (o : BootOptions) (bootargs : Option CString) : DtbConfig :=
  machineConfig (q.machine.harts 0).xlen q.machine.bus.mem.base q.machine.bus.mem.size q.nharts o bootargs

/-- The initrd's part of `setup_firmware_boot`: the configuration with its bounds, unless it does not fit. -/
def placeInitrd (q : Handle) (nextAddr infoAddr : BitVec 64) (cfg : DtbConfig) : Option (List Byte) →
    Option DtbConfig × Handle
  | none => (some cfg, q)
  | some initrd =>
    if initrd.length = 0 then (some cfg, q)
    else
      let fin := infoAddr &&& ~~~0xfff#64
      let start := (fin - BitVec.ofNat 64 initrd.length) &&& ~~~0xfff#64
      if start.ule nextAddr then (none, q)
      else
        match q.load? start initrd with
        | (false, q) => (none, q)
        | (true, q) =>
          (some { cfg with
            initrdStart := lo32 start
            initrdEnd := lo32 (start + BitVec.ofNat 64 initrd.length) }, q)

/-- The `fw_dynamic_info` block, little-endian. -/
def fwDynamicInfo (nextAddr : BitVec 64) : List Byte :=
  [FW_DYNAMIC_MAGIC, FW_DYNAMIC_VERSION, nextAddr, FW_PRV_S, 0, 0].flatMap (Bytes.bytesLE 8)

/-- The boot registers of every hart: its id, the device tree and the info block. -/
def bootRegs (q : Handle) (dtbAddr infoAddr : BitVec 64) : Handle :=
  { q with machine := { q.machine with
      harts := fun i =>
        if i < q.nharts then
          (((q.machine.harts i).regWrite 10 (BitVec.ofNat 64 i)).regWrite 11 dtbAddr).regWrite 12 infoAddr
        else q.machine.harts i } }

/-- `setup_firmware_boot`: `false` when the layout does not fit. -/
def setupFirmwareBoot (q : Handle) (o : BootOptions) (nextAddr : BitVec 64) (bootargs : Option CString)
    (initrd : Option (List Byte)) : Bool × Handle :=
  let mem := q.machine.bus.mem
  let dtbAddr := (mem.base + mem.size - FW_DTB_HEADROOM) &&& ~~~7#64
  let infoAddr := (dtbAddr - 64) &&& ~~~7#64
  if infoAddr.ule nextAddr then (false, q)
  else
    match q.placeInitrd nextAddr infoAddr (q.dtbConfig o bootargs) initrd with
    | (none, q) => (false, q)
    | (some cfg, q) =>
      -- the builder zeroes the buffer on the stack first
      let r := dtbBuild (fun _ => 0) DTB_MAX_SIZE cfg
      if r.1 = 0 then (false, q)
      else
        match q.load? dtbAddr (readBytes r.2 0 r.1) with
        | (false, q) => (false, q)
        | (true, q) =>
          match { q with dtbAddr := lo32 dtbAddr }.load? infoAddr (fwDynamicInfo nextAddr) with
          | (false, q) => (false, q)
          | (true, q) => (true, q.bootRegs dtbAddr infoAddr)

/-- `quanta_load_firmware` after the copy of the kernel, with its outcome. An empty initrd file is an
error of `slurp_file`. -/
def finishFirmware (o : BootOptions) (kaddr : BitVec 64) (bootargs : Option CString) (initrd : Option File)
    (copied : Bool) (q : Handle) : QuantaStatus × Handle :=
  if !copied then (.errRange, q)
  else if initrd.any fun f => f.bytes.isEmpty then (.errLoad, q)
  else
    let r := q.setupFirmwareBoot o kaddr bootargs (initrd.map File.bytes)
    (if r.1 then .ok else .errLoad, r.2)

/-- `quanta_load_firmware`. -/
def quantaLoadFirmware (q : Handle) (o : BootOptions) (calloc : BitVec 64 → Bool) (bios kernel : File)
    (bootargs : Option CString) (initrd : Option File) (minMem : BitVec 32) : QuantaStatus × Handle :=
  match bios.elfLoad calloc minMem with
  | .error _ => (.errLoad, q)
  | .ok r =>
    let q := q.startAt o r.mem r.entry r.xlen
    let kaddr := r.mem.base + KERNEL_LOAD_OFFSET
    let k := q.load? kaddr kernel.bytes
    finishFirmware o kaddr bootargs initrd k.1 k.2

end Handle
end Quanta
