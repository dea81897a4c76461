/-
The two virtio-mmio devices of `device.c`: the block device over the disk image and the network
device with its receive FIFO. Both are bus masters: a queue notify walks descriptor chains in
guest RAM, so these functions act on the whole bus. `dmaPtr` is the bounds check every access to
guest RAM goes through; a pointer into RAM is its index.
-/
import Quanta.Device.Platform

namespace Quanta

open Bytes

def V_QUEUE_MAX : Nat := 256
def VIRTIO_NET_RXQ : Nat := 0
def VIRTIO_NET_TXQ : Nat := 1
def VIRTIO_NET_NQUEUES : Nat := 2
def VIRTIO_NET_FIFO : Nat := 16
def VIRTIO_NET_FRAME_MAX : Nat := 1600
def VIRTIO_NET_HDR_LEN : Nat := 12
def SECTOR_SIZE : BitVec 64 := 512
def VIRTIO_BLK_T_IN : BitVec 32 := 0
def VIRTIO_BLK_T_OUT : BitVec 32 := 1
def LONG_MAX : BitVec 64 := 0x7fffffffffffffff

/-! ## DMA -/

/-- The RAM index of `len` bytes at physical address `addr`, if they are all in RAM. -/
def dmaPtr (b : Bus) (addr len : BitVec 64) : Option Nat :=
  if !b.plat.ram || b.plat.ramSize.ult len || addr.ult b.plat.ramBase then none
  else if (b.plat.ramSize - len).ult (addr - b.plat.ramBase) then none
  else some (addr - b.plat.ramBase).toNat

def ld16 (ram : Nat → Byte) (i : Nat) : BitVec 16 := readLE 16 ram i 2
def ld32 (ram : Nat → Byte) (i : Nat) : BitVec 32 := readLE 32 ram i 4
def ld64 (ram : Nat → Byte) (i : Nat) : BitVec 64 := readLE 64 ram i 8
def st16 (ram : Nat → Byte) (i : Nat) (v : BitVec 16) : Nat → Byte := writeLE ram i 2 v
def st32 (ram : Nat → Byte) (i : Nat) (v : BitVec 32) : Nat → Byte := writeLE ram i 4 v

/-- A descriptor: a buffer's physical address and length. -/
abbrev Desc := BitVec 64 × BitVec 32

/-- `vq_chain` from descriptor `idx`, with at most `n` descriptors still to gather. -/
def vqChainFrom (b : Bus) (descBase : BitVec 64) (idx : BitVec 16) : Nat → List Desc
  | 0 => []
  | n + 1 =>
    match dmaPtr b (descBase + idx.setWidth 64 * 16) 16 with
    | none => []
    | some d =>
      (ld64 b.mem.data d, ld32 b.mem.data (d + 8)) ::
        (if (ld16 b.mem.data (d + 12)).getLsbD 0 then
          vqChainFrom b descBase (ld16 b.mem.data (d + 14)) n
        else [])

/-- `vq_chain`: the chain rooted at `head`, bounded by the ring size and `V_QUEUE_MAX`. -/
def vqChain (b : Bus) (descBase : BitVec 64) (qn : BitVec 32) (head : BitVec 16) : List Desc :=
  vqChainFrom b descBase head (min qn.toNat V_QUEUE_MAX)

/-- Post `(head, wlen)` to the used ring at `used` and publish it. -/
def usedPush (ram : Nat → Byte) (used num : Nat) (head : BitVec 16) (wlen : BitVec 32) : Nat → Byte :=
  let uidx := ld16 ram (used + 2)
  let elem := used + 4 + (uidx.toNat % num) * 8
  let ram := st32 ram elem (head.setWidth 32)
  let ram := st32 ram (elem + 4) wlen
  st16 ram (used + 2) (uidx + 1)

/-! ## The block device -/

/-- Byte `k` of a data buffer at RAM index `buf`, against image offset `off`. -/
def blkByte (type : BitVec 32) (buf : Nat) (off : BitVec 64) (b : Bus) (k : Nat) : Bus :=
  let pos := off + BitVec.ofNat 64 k
  let disk := b.plat.disk
  match disk.data with
  | some img =>
    if type = VIRTIO_BLK_T_IN then
      b.setRam (Function.update b.mem.data (buf + k) (if pos.ult disk.size then img pos.toNat else 0))
    else if type = VIRTIO_BLK_T_OUT ∧ pos.ult disk.size then
      let img := Function.update img pos.toNat (b.mem.data (buf + k))
      b.setPlat { b.plat with disk := { disk with data := some img } }
    else b
  | none =>
    if type = VIRTIO_BLK_T_IN then b.setRam (Function.update b.mem.data (buf + k) 0) else b

/-- The write-through of a T_OUT buffer's in-image span to the backing file. -/
def blkWriteThrough (type : BitVec 32) (off : BitVec 64) (len : BitVec 32) (b : Bus) : Bus :=
  let disk := b.plat.disk
  match disk.data, disk.file with
  | some img, some file =>
    if type = VIRTIO_BLK_T_OUT ∧ disk.writable ∧ off.ult disk.size ∧ off.ule LONG_MAX then
      let stop := off + len.setWidth 64
      let stop := if disk.size.ult stop then disk.size else stop
      let file := fun j => if off.toNat ≤ j ∧ j < stop.toNat then img j else file j
      b.setPlat { b.plat with disk := { disk with file := some file } }
    else b
  | _, _ => b

/-- The running state of `virtio_service`'s data loop. -/
structure BlkLoop where
  bus : Bus
  off : BitVec 64
  written : BitVec 32
  ok : Bool

/-- One data descriptor; a buffer outside RAM ends the loop with an I/O error. -/
def blkData (type : BitVec 32) (s : BlkLoop) (d : Desc) : BlkLoop :=
  if !s.ok then s
  else
    match dmaPtr s.bus d.1 (d.2.setWidth 64) with
    | none => { s with ok := false }
    | some buf =>
      let b := (List.range d.2.toNat).foldl (blkByte type buf s.off) s.bus
      { bus := blkWriteThrough type s.off d.2 b
        off := s.off + d.2.setWidth 64
        written := if type = VIRTIO_BLK_T_IN then s.written + d.2 else s.written
        ok := true }

/-- The request header: type and starting sector; a header outside RAM is a read of sector 0. -/
def blkHeader (b : Bus) (hdr : Desc) : BitVec 32 × BitVec 64 :=
  match dmaPtr b hdr.1 16 with
  | some h => (ld32 b.mem.data h, ld64 b.mem.data (h + 8))
  | none => (VIRTIO_BLK_T_IN, 0)

/-- The status byte: 0 OK, 1 I/O error. -/
def blkStatus (s : BlkLoop) (d : Desc) : Bus :=
  match dmaPtr s.bus d.1 1 with
  | some st => s.bus.setRam (Function.update s.bus.mem.data st (if s.ok then 0 else 1))
  | none => s.bus

/-- `virtio_service`: one request chain, with the length to post in the used ring. -/
def virtioService (b : Bus) (head : BitVec 16) : BitVec 32 × Bus :=
  let v := b.plat.virtio
  if v.queueNum = 0 ∨ V_QUEUE_MAX < v.queueNum.toNat then (0, b)
  else
    match vqChain b v.descAddr v.queueNum head with
    | hdr :: d :: rest =>
      let h := blkHeader b hdr
      let s := (d :: rest).dropLast.foldl (blkData h.1) ⟨b, h.2 * SECTOR_SIZE, 0, true⟩
      (s.written + 1, blkStatus s ((d :: rest).getLast (List.cons_ne_nil _ _)))
    | _ => (0, b)

/-- One round of `virtio_notify`: service the next available chain and post its completion. -/
def virtioNotifyOne (avail used : Nat) (b : Bus) : Bus :=
  let v := b.plat.virtio
  let slot := v.lastAvail.toNat % v.queueNum.toNat
  let head := ld16 b.mem.data (avail + 4 + slot * 2)
  let r := virtioService b head
  let b := r.2.setRam (usedPush r.2.mem.data used v.queueNum.toNat head r.1)
  let v := b.plat.virtio
  b.setPlat { b.plat with virtio := { v with lastAvail := v.lastAvail + 1 } }

/-- `virtio_notify`'s loop, with `n` requests left. -/
def virtioNotifyLoop (avail used : Nat) (b : Bus) : Nat → Bus
  | 0 => b
  | n + 1 => virtioNotifyLoop avail used (virtioNotifyOne avail used b) n

/-- `virtio_notify`: consume every newly available request. -/
def virtioNotify (b : Bus) : Bus :=
  let v := b.plat.virtio
  if v.queueReady = 0 ∨ v.queueNum = 0 ∨ V_QUEUE_MAX < v.queueNum.toNat then b
  else
    match dmaPtr b v.availAddr (4 + v.queueNum.setWidth 64 * 2),
          dmaPtr b v.usedAddr (4 + v.queueNum.setWidth 64 * 8) with
    | some avail, some used =>
      let availIdx := ld16 b.mem.data (avail + 2)
      let b := virtioNotifyLoop avail used b (availIdx - v.lastAvail).toNat
      let v := b.plat.virtio
      b.setPlat { b.plat with virtio := { v with interruptStatus := v.interruptStatus ||| 1 } }
    | _, _ => b

def V_MAGIC_VALUE : BitVec 32 := 0x74726976
def V_VENDOR_QEMU : BitVec 32 := 0x554d4551

def virtioRead (p : Platform) (off : BitVec 32) : BitVec 32 :=
  let v := p.virtio
  match off.toNat with
  | 0x000 => V_MAGIC_VALUE
  | 0x004 => 2
  | 0x008 => 2
  | 0x00c => V_VENDOR_QEMU
  | 0x010 => if v.featuresSel = 1 then 1 else if p.disk.writable then 1 <<< 9 else 0
  | 0x034 => BitVec.ofNat 32 V_QUEUE_MAX
  | 0x044 => v.queueReady
  | 0x060 => v.interruptStatus
  | 0x070 => v.status
  | 0x100 => (p.disk.size / SECTOR_SIZE).setWidth 32
  | 0x104 => ((p.disk.size / SECTOR_SIZE) >>> 32).setWidth 32
  | _ => 0

def virtioWrite (b : Bus) (off val : BitVec 32) : Bus :=
  let v := b.plat.virtio
  let put := fun v' => b.setPlat { b.plat with virtio := v' }
  match off.toNat with
  | 0x014 => put { v with featuresSel := val }
  | 0x038 => put { v with queueNum := val }
  | 0x044 => put { v with queueReady := val &&& 1 }
  | 0x050 => virtioNotify b
  | 0x064 => put { v with interruptStatus := v.interruptStatus &&& ~~~val }
  | 0x070 => put (if val = 0 then Virtio.zero else { v with status := val })
  | 0x080 => put { v with descAddr := setLo v.descAddr val }
  | 0x084 => put { v with descAddr := setHi v.descAddr val }
  | 0x090 => put { v with availAddr := setLo v.availAddr val }
  | 0x094 => put { v with availAddr := setHi v.availAddr val }
  | 0x0a0 => put { v with usedAddr := setLo v.usedAddr val }
  | 0x0a4 => put { v with usedAddr := setHi v.usedAddr val }
  | _ => b

/-! ## The network device -/

def Bus.setNet (b : Bus) (n : VirtioNet) : Bus := b.setPlat { b.plat with net := n }

def VirtioNet.setVq (n : VirtioNet) (i : Nat) (q : Virtqueue) : VirtioNet :=
  { n with vq := Function.update n.vq i q }

/-- `net_fifo_push`: `none` when the frame is empty, oversized or the FIFO is full. -/
def netFifoPush (n : VirtioNet) (frame : List Byte) : Option VirtioNet :=
  if frame.length = 0 ∨ VIRTIO_NET_FRAME_MAX < frame.length then none
  else if VIRTIO_NET_FIFO ≤ n.fifoCount.toNat then none
  else
    let tail := (n.fifoHead + n.fifoCount).toNat % VIRTIO_NET_FIFO
    some { n with fifo := Function.update n.fifo tail frame, fifoCount := n.fifoCount + 1 }

/-- `net_gather`: the readable bytes of a chain, at most `cap` of them, after `out`. -/
def netGather (b : Bus) (cap : Nat) : List Desc → List Byte → List Byte
  | [], out => out
  | d :: ds, out =>
    match dmaPtr b d.1 (d.2.setWidth 64) with
    | none => netGather b cap ds out
    | some i =>
      netGather b cap ds
        (out ++ (List.range (min d.2.toNat (cap - out.length))).map fun k => b.mem.data (i + k))

/-- `net_scatter`: write `src` across a chain's buffers, with the number of bytes written. -/
def netScatter (b : Bus) : List Desc → List Byte → Nat × Bus
  | [], _ => (0, b)
  | d :: ds, src =>
    match dmaPtr b d.1 (d.2.setWidth 64) with
    | none => netScatter b ds src
    | some i =>
      let here := src.take d.2.toNat
      let r := netScatter (b.setRam (writeBytes b.mem.data i here)) ds (src.drop d.2.toNat)
      (here.length + r.1, r.2)

/-- The 12-byte header put before a delivered frame: all zero but `num_buffers = 1`. -/
def netHdr : List Byte := List.replicate 10 0 ++ [1, 0]

/-- One round of `net_deliver_rx`: the oldest buffered frame into the next posted chain; `none`
when no receive buffer is posted. -/
def netDeliverOne (avail used : Nat) (b : Bus) : Option Bus :=
  let n := b.plat.net
  let q := n.vq VIRTIO_NET_RXQ
  if q.lastAvail = ld16 b.mem.data (avail + 2) then none
  else
    let head := ld16 b.mem.data (avail + 4 + (q.lastAvail.toNat % q.num.toNat) * 2)
    let chain := vqChain b q.descAddr q.num head
    let r := netScatter b chain (netHdr ++ n.fifo n.fifoHead.toNat)
    let b := r.2.setRam (usedPush r.2.mem.data used q.num.toNat head (BitVec.ofNat 32 r.1))
    some (b.setNet { n.setVq VIRTIO_NET_RXQ { q with lastAvail := q.lastAvail + 1 } with
      fifoHead := (n.fifoHead + 1) % BitVec.ofNat 32 VIRTIO_NET_FIFO
      fifoCount := n.fifoCount - 1 })

/-- `net_deliver_rx`'s loop, with `n` buffered frames left; the flag is `delivered`. -/
def netDeliverLoop (avail used : Nat) (b : Bus) (delivered : Bool) : Nat → Bool × Bus
  | 0 => (delivered, b)
  | k + 1 =>
    match netDeliverOne avail used b with
    | none => (delivered, b)
    | some b => netDeliverLoop avail used b true k

/-- `net_deliver_rx`: drain buffered frames into the posted receive buffers. -/
def netDeliverRx (b : Bus) : Bus :=
  let q := b.plat.net.vq VIRTIO_NET_RXQ
  if q.ready = 0 ∨ q.num = 0 ∨ V_QUEUE_MAX < q.num.toNat then b
  else
    match dmaPtr b q.availAddr (4 + q.num.setWidth 64 * 2),
          dmaPtr b q.usedAddr (4 + q.num.setWidth 64 * 8) with
    | some avail, some used =>
      let r := netDeliverLoop avail used b false b.plat.net.fifoCount.toNat
      let n := r.2.plat.net
      if r.1 then r.2.setNet { n with interruptStatus := n.interruptStatus ||| 1 } else r.2
    | _, _ => b

/-- `plat_net_rx`: buffer a received frame and deliver what can be delivered. -/
def platNetRx (b : Bus) (frame : List Byte) : Bool × Bus :=
  match netFifoPush b.plat.net frame with
  | none => (false, b)
  | some n => (true, netDeliverRx (b.setNet n))

/-- `net_transmit`: to the host backend, or back to the receive path when there is none. -/
def netTransmit (b : Bus) (frame : List Byte) : Bus :=
  let n := b.plat.net
  match n.tx with
  | some tx =>
    let sent := n.sent ++ [frame]
    (tx sent).foldl (fun b f => (platNetRx b f).2) (b.setNet { n with sent := sent })
  | none => (platNetRx b frame).2

/-- One round of `net_process_tx`: gather the next chain, transmit its frame, complete it. -/
def netProcessTxOne (avail used : Nat) (b : Bus) : Bus :=
  let q := b.plat.net.vq VIRTIO_NET_TXQ
  let head := ld16 b.mem.data (avail + 4 + (q.lastAvail.toNat % q.num.toNat) * 2)
  let chain := vqChain b q.descAddr q.num head
  let buf := netGather b (VIRTIO_NET_HDR_LEN + VIRTIO_NET_FRAME_MAX) chain []
  let b := if VIRTIO_NET_HDR_LEN < buf.length then netTransmit b (buf.drop VIRTIO_NET_HDR_LEN) else b
  let b := b.setRam (usedPush b.mem.data used q.num.toNat head 0)
  let n := b.plat.net
  let q := n.vq VIRTIO_NET_TXQ
  b.setNet (n.setVq VIRTIO_NET_TXQ { q with lastAvail := q.lastAvail + 1 })

/-- `net_process_tx`'s loop, with `n` chains left. -/
def netProcessTxLoop (avail used : Nat) (b : Bus) : Nat → Bus
  | 0 => b
  | k + 1 => netProcessTxLoop avail used (netProcessTxOne avail used b) k

/-- `net_process_tx`: consume every frame made available on the transmit queue. -/
def netProcessTx (b : Bus) : Bus :=
  let q := b.plat.net.vq VIRTIO_NET_TXQ
  if q.ready = 0 ∨ q.num = 0 ∨ V_QUEUE_MAX < q.num.toNat then b
  else
    match dmaPtr b q.availAddr (4 + q.num.setWidth 64 * 2),
          dmaPtr b q.usedAddr (4 + q.num.setWidth 64 * 8) with
    | some avail, some used =>
      let availIdx := ld16 b.mem.data (avail + 2)
      let count := (availIdx - q.lastAvail).toNat
      let b := netProcessTxLoop avail used b count
      let n := b.plat.net
      if 0 < count then b.setNet { n with interruptStatus := n.interruptStatus ||| 1 } else b
    | _, _ => b

/-- `net_reset`: the programmable state; the MAC, the backend and the FIFO storage stay. -/
def netReset (n : VirtioNet) : VirtioNet :=
  { n with
    status := 0
    featuresSel := 0
    driverFeatSel := 0
    queueSel := 0
    interruptStatus := 0
    vq := fun _ => Virtqueue.zero
    fifoHead := 0
    fifoCount := 0 }

def virtioNetRead (p : Platform) (off : BitVec 32) : BitVec 32 :=
  let n := p.net
  match off.toNat with
  | 0x000 => V_MAGIC_VALUE
  | 0x004 => 2
  | 0x008 => 1
  | 0x00c => V_VENDOR_QEMU
  | 0x010 => if n.featuresSel = 1 then 1 else 1 <<< 5
  | 0x034 => BitVec.ofNat 32 V_QUEUE_MAX
  | 0x044 => if n.queueSel.toNat < VIRTIO_NET_NQUEUES then (n.vq n.queueSel.toNat).ready else 0
  | 0x060 => n.interruptStatus
  | 0x070 => n.status
  | 0x100 => readLE 32 n.mac 0 4
  | 0x104 => readLE 32 n.mac 4 2
  | _ => 0

/-- A write to the queue that `queue_sel` selects; dropped when there is no such queue. -/
def Bus.setSelectedVq (b : Bus) (f : Virtqueue → Virtqueue) : Bus :=
  let n := b.plat.net
  let i := n.queueSel.toNat
  if i < VIRTIO_NET_NQUEUES then b.setNet (n.setVq i (f (n.vq i))) else b

def virtioNetWrite (b : Bus) (off val : BitVec 32) : Bus :=
  let n := b.plat.net
  match off.toNat with
  | 0x014 => b.setNet { n with featuresSel := val }
  | 0x024 => b.setNet { n with driverFeatSel := val }
  | 0x030 => b.setNet { n with queueSel := val }
  | 0x038 => b.setSelectedVq fun q => { q with num := val }
  | 0x044 => b.setSelectedVq fun q => { q with ready := val &&& 1 }
  | 0x050 =>
    if val.toNat = VIRTIO_NET_TXQ then netProcessTx b
    else if val.toNat = VIRTIO_NET_RXQ then netDeliverRx b
    else b
  | 0x064 => b.setNet { n with interruptStatus := n.interruptStatus &&& ~~~val }
  | 0x070 => b.setNet (if val = 0 then netReset n else { n with status := val })
  | 0x080 => b.setSelectedVq fun q => { q with descAddr := setLo q.descAddr val }
  | 0x084 => b.setSelectedVq fun q => { q with descAddr := setHi q.descAddr val }
  | 0x090 => b.setSelectedVq fun q => { q with availAddr := setLo q.availAddr val }
  | 0x094 => b.setSelectedVq fun q => { q with availAddr := setHi q.availAddr val }
  | 0x0a0 => b.setSelectedVq fun q => { q with usedAddr := setLo q.usedAddr val }
  | 0x0a4 => b.setSelectedVq fun q => { q with usedAddr := setHi q.usedAddr val }
  | _ => b

end Quanta
