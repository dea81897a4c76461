/-
Snapshot and restore in memory (`quanta.c`). A snapshot is a value copy of the machine; a restore
puts it back and keeps what belongs to the host: the console, the disk's backing file, the cache
model, and the decode caches, which it flushes.
-/
import Quanta.Engine.Handle

namespace Quanta

/-- `struct QuantaSnapshot`. `mem` is the RAM with its fault latch. -/
structure QuantaSnapshot where
  harts : Nat → CPU
  nharts : Nat
  sched : Nat
  mHalted : Bool
  mReason : HaltReason
  mExit : BitVec 32
  dtbAddr : BitVec 32
  cacheOn : Bool
  loaded : Bool
  mem : Memory
  plat : Platform
  diskData : Option (Nat → Byte)
  diskSize : BitVec 64

namespace Handle

/-- `quanta_snapshot`, when its allocations succeed. -/
def quantaSnapshot (q : Handle) : Option QuantaSnapshot :=
  if q.loaded then
    let disk := q.machine.bus.plat.disk
    some
      { harts := q.machine.harts, nharts := q.nharts, sched := q.sched, mHalted := q.mHalted, mReason := q.mReason,
        mExit := q.mExit, dtbAddr := q.dtbAddr, cacheOn := q.machine.cache.isSome, loaded := q.loaded,
        mem := q.machine.bus.mem, plat := q.machine.bus.plat,
        diskData := if disk.size = 0 then none else disk.data, diskSize := disk.size }
  else none

/-- The platform after a restore: the snapshot's registers over the live RAM, harts and disk. -/
def restorePlat (live : Platform) (s : QuantaSnapshot) : Platform :=
  { s.plat with
    net := { s.plat.net with sent := live.net.sent }
    harts := true
    nharts := s.nharts
    ram := true
    ramBase := s.mem.base
    ramSize := s.mem.size
    disk :=
      { data := live.disk.data.map fun d => s.diskData.getD d
        size := s.diskSize
        file := live.disk.file
        writable := live.disk.writable } }

/-- `dcache_on`: the first hart has a decode cache. -/
def dcacheOn (q : Handle) : Bool := (q.dcaches 0).isSome

/-- `quanta_restore`: only into a machine with the snapshot's RAM and disk sizes. -/
def quantaRestore (q : Handle) (s : QuantaSnapshot) : QuantaStatus × Handle :=
  let bus := q.machine.bus
  if !q.loaded || !s.loaded then (.errInval, q)
  else if s.mem.size ≠ bus.mem.size ∨ s.diskSize ≠ bus.plat.disk.size then (.errInval, q)
  else
    (.ok,
      { machine :=
          { q.machine with
            harts := s.harts
            bus := { mem := { s.mem with plat := true }, plat := restorePlat bus.plat s, out := bus.out }
            cache := if s.cacheOn then q.machine.cache else none }
        nharts := s.nharts
        sched := s.sched
        mHalted := s.mHalted
        mReason := s.mReason
        mExit := s.mExit
        dcaches := fun i =>
          if i < s.nharts ∧ q.dcacheOn then dcacheFlush (some ((q.dcaches i).getD dcacheNew)) else none
        loaded := s.loaded
        dtbAddr := s.dtbAddr })

end Handle
end Quanta
