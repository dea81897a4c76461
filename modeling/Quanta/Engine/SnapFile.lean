/-
The snapshot file (`quanta.c`, `--snapshot` and `--restore`). The harts and the platform are in it
as raw structs, so what a load builds depends on how the compiler lays them out; the layout is a
parameter. Pointer members have a provenance: null, a live object, or bits that came with a struct.
-/
import Mathlib.Data.List.GetD
import Quanta.Engine.Handle

namespace Quanta.SnapFile

variable {malloc : Nat → Bool}

/-! ## The layout of the structs -/

/-- Sizes, and the offsets of the members a load is about; each member lies in its struct. -/
structure Layout where
  sizeofCpu : Nat
  sizeofPlatform : Nat
  xlen : Nat
  hartid : Nat
  fifoLen : Nat
  fifoHead : Nat
  fifoCount : Nat
  tx : Nat
  txCtx : Nat
  xlen_le : xlen + 4 ≤ sizeofCpu
  hartid_le : hartid + 4 ≤ sizeofCpu
  fifoLen_le : fifoLen + 4 * VIRTIO_NET_FIFO ≤ sizeofPlatform
  fifoHead_le : fifoHead + 4 ≤ sizeofPlatform
  fifoCount_le : fifoCount + 4 ≤ sizeofPlatform
  tx_le : tx + 8 ≤ sizeofPlatform
  txCtx_le : txCtx + 8 ≤ sizeofPlatform

/-- The layout on a 64-bit host. -/
def lp64 : Layout where
  sizeofCpu := 34032
  sizeofPlatform := 26368
  xlen := 520
  hartid := 524
  fifoLen := 26200
  fifoHead := 26264
  fifoCount := 26268
  tx := 26272
  txCtx := 26280
  xlen_le := by decide
  hartid_le := by decide
  fifoLen_le := by decide
  fifoHead_le := by decide
  fifoCount_le := by decide
  tx_le := by decide
  txCtx_le := by decide

def getU32 (bytes : List Byte) (i : Nat) : BitVec 32 := ld32 (fun k => bytes.getD k 0) i

def getU64 (bytes : List Byte) (i : Nat) : BitVec 64 := ld64 (fun k => bytes.getD k 0) i

/-! ## Reading -/

/-- `QuantaSnapshot` as `snapshot_read` fills it: the structs are bytes. -/
structure Snapshot where
  harts : List Byte
  plat : List Byte
  nharts : BitVec 32
  sched : BitVec 32
  mHalted : BitVec 32
  mReason : BitVec 32
  mExit : BitVec 32
  dtbAddr : BitVec 32
  memBase : BitVec 64
  memSize : BitVec 64
  diskSize : BitVec 64
  memData : List Byte
  diskData : List Byte

def SNAP_MAGIC : List Byte := [0x51, 0x55, 0x41, 0x4e, 0x54, 0x41, 0x53, 0x4e]
def SNAP_FORMAT_VERSION : BitVec 32 := 1
def SNAP_HDR_SIZE : Nat := 72

/-- `fread` of `n` bytes, or a short read. -/
def fread (n : Nat) (f : List Byte) : Option (List Byte × List Byte) :=
  if f.length < n then none else some (f.take n, f.drop n)

/-- `snapshot_read`. `malloc` says whether an allocation of a size succeeds. -/
def snapshotRead (L : Layout) (malloc : Nat → Bool) (f : List Byte) : Option Snapshot := do
  let (hdr, f) ← fread SNAP_HDR_SIZE f
  if hdr.take 8 ≠ SNAP_MAGIC then none
  else if getU32 hdr 8 ≠ SNAP_FORMAT_VERSION ∨ (getU32 hdr 12).toNat ≠ L.sizeofCpu ∨
      (getU32 hdr 16).toNat ≠ L.sizeofPlatform ∨ (getU32 hdr 20).toNat ≠ QUANTA_MAX_HARTS then none
  else
    let nharts := getU32 hdr 24
    let memSize := getU64 hdr 56
    let diskSize := getU64 hdr 64
    if nharts.slt 1 ∨ (BitVec.ofNat 32 QUANTA_MAX_HARTS).slt nharts then none
    else
      let (harts, f) ← fread (QUANTA_MAX_HARTS * L.sizeofCpu) f
      let (plat, f) ← fread L.sizeofPlatform f
      if malloc (max memSize.toNat 1) = false then none
      else
        let (memData, f) ← fread memSize.toNat f
        if diskSize ≠ 0 ∧ malloc diskSize.toNat = false then none
        else
          let (diskData, _) ← fread diskSize.toNat f
          some
            { harts, plat, nharts, sched := getU32 hdr 28, mHalted := getU32 hdr 32, mReason := getU32 hdr 36
              mExit := getU32 hdr 40, dtbAddr := getU32 hdr 44, memBase := getU64 hdr 48, memSize, diskSize, memData
              diskData }

/-! ## Restoring -/

/-- What the engine owns. -/
inductive Object where
  | mem | cache | dcache (hart : Nat) | jit | plat | harts | ram | disk | file
  deriving DecidableEq, Repr

inductive Pointer where
  | null
  | live (o : Object)
  | foreign (bits : BitVec 64)
  deriving DecidableEq, Repr

/-- A pointer member of a struct that came as bytes. -/
def Pointer.ofBits (bits : BitVec 64) : Pointer := if bits = 0 then .null else .foreign bits

/-- A hart of the machine: its other members are those of the struct it came in. -/
structure Hart where
  struct : List Byte
  mem : Pointer
  cache : Pointer
  dcache : Pointer
  jit : Pointer

/-- The platform: the members `quanta_restore` writes, and the struct the others came in. -/
structure Plat where
  struct : List Byte
  harts : Pointer
  nharts : BitVec 32
  ram : Pointer
  ramBase : BitVec 64
  ramSize : BitVec 64
  diskData : Pointer
  diskSize : BitVec 64
  diskFile : Pointer
  tx : Pointer
  txCtx : Pointer

/-- `struct Quanta` once loaded. `memData` is the RAM and `diskImage` the disk's contents. -/
structure Loaded where
  harts : Nat → Hart
  nharts : BitVec 32
  sched : BitVec 32
  mHalted : BitVec 32
  mReason : BitVec 32
  mExit : BitVec 32
  dtbAddr : BitVec 32
  memBase : BitVec 64
  memSize : BitVec 64
  memData : List Byte
  memPlat : Pointer
  plat : Plat
  diskImage : List Byte

/-- What a new handle was asked for, and whether the host could give it. -/
structure Options where
  dcacheOn : Bool
  dcacheOk : Nat → Bool
  jitOn : Bool
  jitOk : Bool

def Pointer.unless (fails : Bool) (o : Object) : Pointer := if fails then .null else .live o

/-- `attach_dcaches`. -/
def attachDcaches (o : Options) (q : Loaded) : Loaded :=
  { q with
    harts := fun i =>
      if (i : Int) < q.nharts.toInt then
        { q.harts i with dcache := if o.dcacheOn then .unless (!o.dcacheOk i) (.dcache i) else .null }
      else q.harts i }

/-- `attach_jit`. -/
def attachJit (o : Options) (q : Loaded) : Loaded :=
  { q with
    harts := fun i =>
      if (i : Int) < q.nharts.toInt then
        { q.harts i with jit := if o.jitOn ∧ q.nharts = 1 ∧ i = 0 then .unless (!o.jitOk) .jit else .null }
      else q.harts i }

/-- `quanta_restore` into the machine `quanta_load_snapshot` has made for it, with a live RAM, a live
disk if there is one, no backing file and no cache. -/
def quantaRestore (L : Layout) (o : Options) (s : Snapshot) : Loaded :=
  attachJit o <| attachDcaches o
    { harts := fun i =>
        { struct := (s.harts.drop (i * L.sizeofCpu)).take L.sizeofCpu
          mem := .live .mem, cache := .null, dcache := .null, jit := .null }
      nharts := s.nharts
      sched := s.sched
      mHalted := s.mHalted
      mReason := s.mReason
      mExit := s.mExit
      dtbAddr := s.dtbAddr
      memBase := s.memBase
      memSize := s.memSize
      memData := s.memData
      memPlat := .live .plat
      plat :=
        { struct := s.plat
          harts := .live .harts
          nharts := s.nharts
          ram := .live .ram
          ramBase := s.memBase
          ramSize := s.memSize
          diskData := if s.diskSize = 0 then .null else .live .disk
          diskSize := s.diskSize
          diskFile := .null
          tx := .ofBits (getU64 s.plat L.tx)
          txCtx := .ofBits (getU64 s.plat L.txCtx) }
      diskImage := s.diskData }

/-- `quanta_load_snapshot` into a new handle. -/
def quantaLoadSnapshot (L : Layout) (o : Options) (malloc : Nat → Bool) (f : List Byte) : Except QuantaStatus Loaded :=
  match snapshotRead L malloc f with
  | none => .error .errLoad
  | some s =>
    if malloc s.memSize.toNat = false then .error .errNomem
    else if s.diskSize ≠ 0 ∧ malloc s.diskSize.toNat = false then .error .errNomem
    else .ok (quantaRestore L o s)

/-! ## Well-formed machines -/

namespace Hart

def hartid (L : Layout) (h : Hart) : BitVec 32 := getU32 h.struct L.hartid

def xlen (L : Layout) (h : Hart) : BitVec 32 := getU32 h.struct L.xlen

def pointers (h : Hart) : List Pointer := [h.mem, h.cache, h.dcache, h.jit]

end Hart

def Plat.pointers (p : Plat) : List Pointer := [p.harts, p.ram, p.diskData, p.diskFile, p.tx, p.txCtx]

/-- What every engine operation relies on. -/
structure WellFormed (L : Layout) (q : Loaded) : Prop where
  nharts : 1 ≤ q.nharts.toInt ∧ q.nharts.toInt ≤ QUANTA_MAX_HARTS
  sched : 0 ≤ q.sched.toInt ∧ q.sched.toInt < q.nharts.toInt
  harts : ∀ i : Nat, (i : Int) < q.nharts.toInt → ((q.harts i).hartid L).toNat < QUANTA_MAX_HARTS ∧
    ((q.harts i).xlen L = 32 ∨ (q.harts i).xlen L = 64)
  fifo : (getU32 q.plat.struct L.fifoHead).toNat < VIRTIO_NET_FIFO ∧
    (getU32 q.plat.struct L.fifoCount).toNat ≤ VIRTIO_NET_FIFO ∧
    ∀ k < VIRTIO_NET_FIFO, (getU32 q.plat.struct (L.fifoLen + 4 * k)).toNat ≤ VIRTIO_NET_FRAME_MAX
  hartPointers : ∀ i < QUANTA_MAX_HARTS, ∀ p ∈ (q.harts i).pointers, ∀ bits, p ≠ .foreign bits
  memPlat : ∀ bits, q.memPlat ≠ .foreign bits
  platPointers : ∀ p ∈ q.plat.pointers, ∀ bits, p ≠ .foreign bits

/-- Where the structs of hart `i` and of the platform are in the file. -/
def hartAt (L : Layout) (i : Nat) : Nat := SNAP_HDR_SIZE + i * L.sizeofCpu

def platAt (L : Layout) : Nat := SNAP_HDR_SIZE + QUANTA_MAX_HARTS * L.sizeofCpu

/-- The fields of the file that nothing checks or overwrites. -/
structure Trusted (L : Layout) (f : List Byte) : Prop where
  sched : 0 ≤ (getU32 f 28).toInt ∧ (getU32 f 28).toInt < (getU32 f 24).toInt
  harts : ∀ i : Nat, (i : Int) < (getU32 f 24).toInt → (getU32 f (hartAt L i + L.hartid)).toNat < QUANTA_MAX_HARTS ∧
    (getU32 f (hartAt L i + L.xlen) = 32 ∨ getU32 f (hartAt L i + L.xlen) = 64)
  fifoHead : (getU32 f (platAt L + L.fifoHead)).toNat < VIRTIO_NET_FIFO
  fifoCount : (getU32 f (platAt L + L.fifoCount)).toNat ≤ VIRTIO_NET_FIFO
  fifoLen : ∀ k < VIRTIO_NET_FIFO, (getU32 f (platAt L + (L.fifoLen + 4 * k))).toNat ≤ VIRTIO_NET_FRAME_MAX
  tx : getU64 f (platAt L + L.tx) = 0
  txCtx : getU64 f (platAt L + L.txCtx) = 0

/-! ## Where the fields come from -/

theorem getD_slice (f : List Byte) {n m k : Nat} (h : k < m) : ((f.drop n).take m).getD k 0 = f.getD (n + k) 0 := by
  rw [List.getD_eq_getElem?_getD, List.getD_eq_getElem?_getD, List.getElem?_take_of_lt h, List.getElem?_drop]

theorem getU32_slice (f : List Byte) {n m i : Nat} (h : i + 4 ≤ m) :
    getU32 ((f.drop n).take m) i = getU32 f (n + i) := by
  unfold getU32 ld32
  refine Bytes.readLE_shift fun k hk => ?_
  rw [getD_slice f (by omega), Nat.add_assoc]

theorem getU64_slice (f : List Byte) {n m i : Nat} (h : i + 8 ≤ m) :
    getU64 ((f.drop n).take m) i = getU64 f (n + i) := by
  unfold getU64 ld64
  refine Bytes.readLE_shift fun k hk => ?_
  rw [getD_slice f (by omega), Nat.add_assoc]

theorem fread_some {n : Nat} {f a rest : List Byte} (h : fread n f = some (a, rest)) : a = f.take n ∧ rest = f.drop n := by
  unfold fread at h
  split at h
  · cases h
  · cases h
    exact ⟨rfl, rfl⟩

/-- Where `snapshot_read` takes the fields from, and all it has checked of them. -/
structure Taken (L : Layout) (f : List Byte) (s : Snapshot) : Prop where
  nharts : s.nharts = getU32 f 24
  sched : s.sched = getU32 f 28
  checked : 1 ≤ s.nharts.toInt ∧ s.nharts.toInt ≤ QUANTA_MAX_HARTS
  harts : s.harts = (f.drop SNAP_HDR_SIZE).take (QUANTA_MAX_HARTS * L.sizeofCpu)
  plat : s.plat = (f.drop (platAt L)).take L.sizeofPlatform

theorem fread_length {n : Nat} {f a rest : List Byte} (h : fread n f = some (a, rest)) : n ≤ f.length := by
  unfold fread at h
  split at h
  · cases h
  · omega

/-- What a file that is read has passed: the reads of its five parts and the checks of its header. -/
structure Accepted (L : Layout) (f : List Byte) (s : Snapshot) (hdr f1 f2 f3 f4 f5 : List Byte) : Prop where
  read : fread SNAP_HDR_SIZE f = some (hdr, f1)
  magic : hdr.take 8 = SNAP_MAGIC
  layout : ¬(getU32 hdr 8 ≠ SNAP_FORMAT_VERSION ∨ (getU32 hdr 12).toNat ≠ L.sizeofCpu ∨
    (getU32 hdr 16).toNat ≠ L.sizeofPlatform ∨ (getU32 hdr 20).toNat ≠ QUANTA_MAX_HARTS)
  nharts : ¬((getU32 hdr 24).slt 1 ∨ (BitVec.ofNat 32 QUANTA_MAX_HARTS).slt (getU32 hdr 24))
  harts : fread (QUANTA_MAX_HARTS * L.sizeofCpu) f1 = some (s.harts, f2)
  plat : fread L.sizeofPlatform f2 = some (s.plat, f3)
  mem : fread (getU64 hdr 56).toNat f3 = some (s.memData, f4)
  disk : fread (getU64 hdr 64).toNat f4 = some (s.diskData, f5)
  snapshot : s =
    { harts := s.harts, plat := s.plat, nharts := getU32 hdr 24, sched := getU32 hdr 28, mHalted := getU32 hdr 32
      mReason := getU32 hdr 36, mExit := getU32 hdr 40, dtbAddr := getU32 hdr 44, memBase := getU64 hdr 48
      memSize := getU64 hdr 56, diskSize := getU64 hdr 64, memData := s.memData, diskData := s.diskData }

theorem snapshotRead_accepted {L : Layout} {f : List Byte} {s : Snapshot}
    (h : snapshotRead L malloc f = some s) : ∃ hdr f1 f2 f3 f4 f5, Accepted L f s hdr f1 f2 f3 f4 f5 := by
  unfold snapshotRead at h
  obtain ⟨⟨hdr, f1⟩, hhdr, h⟩ := Option.bind_eq_some_iff.mp h
  dsimp only at h
  split at h
  · cases h
  next hmagic =>
  split at h
  · cases h
  next hlayout =>
  split at h
  · cases h
  next hn =>
  obtain ⟨⟨harts, f2⟩, hharts, h⟩ := Option.bind_eq_some_iff.mp h
  obtain ⟨⟨plat, f3⟩, hplat, h⟩ := Option.bind_eq_some_iff.mp h
  dsimp only at h
  split at h
  · cases h
  obtain ⟨⟨memData, f4⟩, hmem, h⟩ := Option.bind_eq_some_iff.mp h
  dsimp only at h
  split at h
  · cases h
  obtain ⟨⟨diskData, f5⟩, hdisk, h⟩ := Option.bind_eq_some_iff.mp h
  cases h
  exact ⟨hdr, f1, f2, f3, f4, f5, hhdr, not_not.mp hmagic, hlayout, hn, hharts, hplat, hmem, hdisk, rfl⟩

theorem snapshotRead_some {L : Layout} {f : List Byte} {s : Snapshot}
    (h : snapshotRead L malloc f = some s) : Taken L f s := by
  obtain ⟨hdr, f1, f2, f3, f4, f5, a⟩ := snapshotRead_accepted h
  obtain ⟨rfl, rfl⟩ := fread_some a.read
  obtain ⟨hharts, rfl⟩ := fread_some a.harts
  obtain ⟨hplat, rfl⟩ := fread_some a.plat
  have hhdr : ∀ i, i + 4 ≤ SNAP_HDR_SIZE → getU32 (f.take SNAP_HDR_SIZE) i = getU32 f i := by
    intro i hi
    have := getU32_slice f (n := 0) hi
    rwa [List.drop_zero, Nat.zero_add] at this
  obtain ⟨hlo, hhi⟩ := not_or.mp a.nharts
  have hn : s.nharts = getU32 (f.take SNAP_HDR_SIZE) 24 := congrArg Snapshot.nharts a.snapshot
  have hsched : s.sched = getU32 (f.take SNAP_HDR_SIZE) 28 := congrArg Snapshot.sched a.snapshot
  refine ⟨hn.trans (hhdr 24 (by decide)), hsched.trans (hhdr 28 (by decide)), ⟨?_, ?_⟩, hharts, ?_⟩
  · rw [BitVec.slt_iff_toInt_lt] at hlo
    exact hn ▸ Int.not_lt.mp hlo
  · rw [BitVec.slt_iff_toInt_lt] at hhi
    exact hn ▸ Int.not_lt.mp hhi
  · rw [hplat, List.drop_drop]
    rfl

/-! ## What a load rewires -/

section
variable (L : Layout) (o : Options) (s : Snapshot)

theorem struct_restore (i : Nat) :
    ((quantaRestore L o s).harts i).struct = (s.harts.drop (i * L.sizeofCpu)).take L.sizeofCpu := by
  unfold quantaRestore attachJit attachDcaches
  dsimp only
  split
  · rfl
  · rfl

theorem live_unless (fails : Bool) (x : Object) (bits : BitVec 64) : Pointer.unless fails x ≠ .foreign bits := by
  cases fails <;> exact nofun

/-- Every pointer of a hart is rewired. -/
theorem hartPointers_restore (i : Nat) :
    ∀ p ∈ ((quantaRestore L o s).harts i).pointers, ∀ bits, p ≠ .foreign bits := by
  have hdc : ∀ bits, (if o.dcacheOn then Pointer.unless (!o.dcacheOk i) (.dcache i) else .null) ≠ .foreign bits := by
    intro bits
    split
    · exact live_unless _ _ bits
    · exact nofun
  have hjit : ∀ bits, (if o.jitOn ∧ s.nharts = 1 ∧ i = 0 then Pointer.unless (!o.jitOk) .jit else .null) ≠ .foreign bits := by
    intro bits
    split
    · exact live_unless _ _ bits
    · exact nofun
  unfold quantaRestore attachJit attachDcaches Hart.pointers
  dsimp only
  split
  · intro p hp bits
    rcases List.mem_cons.mp hp with rfl | hp
    · exact nofun
    rcases List.mem_cons.mp hp with rfl | hp
    · exact nofun
    rcases List.mem_cons.mp hp with rfl | hp
    · exact hdc bits
    rw [List.mem_singleton.mp hp]
    exact hjit bits
  · intro p hp bits
    simp only [List.mem_cons, List.not_mem_nil, or_false] at hp
    rcases hp with rfl | rfl | rfl | rfl <;> exact nofun

theorem ofBits_foreign (bits : BitVec 64) : (∀ bits', Pointer.ofBits bits ≠ .foreign bits') ↔ bits = 0 := by
  unfold Pointer.ofBits
  constructor
  · intro h
    by_contra hb
    exact h bits (if_neg hb)
  · intro hb bits'
    rw [if_pos hb]
    exact nofun

/-- Of the platform's, all but the network backend. -/
theorem platPointers_restore : (∀ p ∈ (quantaRestore L o s).plat.pointers, ∀ bits, p ≠ .foreign bits) ↔
    getU64 s.plat L.tx = 0 ∧ getU64 s.plat L.txCtx = 0 := by
  have hplat : (quantaRestore L o s).plat.pointers = [.live .harts, .live .ram,
      if s.diskSize = 0 then .null else .live .disk, .null, .ofBits (getU64 s.plat L.tx),
      .ofBits (getU64 s.plat L.txCtx)] := rfl
  have hdisk : ∀ bits, (if s.diskSize = 0 then Pointer.null else .live .disk) ≠ .foreign bits := by
    intro bits
    split <;> exact nofun
  rw [hplat, ← ofBits_foreign (getU64 s.plat L.tx), ← ofBits_foreign (getU64 s.plat L.txCtx)]
  constructor
  · intro h
    exact ⟨h _ (by simp), h _ (by simp)⟩
  · rintro ⟨htx, hctx⟩ p hp
    simp only [List.mem_cons, List.not_mem_nil, or_false] at hp
    rcases hp with rfl | rfl | rfl | rfl | rfl | rfl
    · exact nofun
    · exact nofun
    · exact hdisk
    · exact nofun
    · exact htx
    · exact hctx

end

/-- A machine loaded from a snapshot file is well formed exactly when the file's scheduler cursor,
hart ids and widths, FIFO indices and lengths are in range and its backend pointers are null: none
of these is checked or overwritten, everything else is. -/
theorem loaded_wellFormed_iff {L : Layout} {o : Options} {malloc : Nat → Bool} {f : List Byte} {q : Loaded}
    (h : quantaLoadSnapshot L o malloc f = .ok q) : WellFormed L q ↔ Trusted L f := by
  unfold quantaLoadSnapshot at h
  split at h
  · cases h
  next s hs =>
  obtain ⟨hn, hsched, hcheck, hharts, hplat⟩ := snapshotRead_some hs
  split at h
  · cases h
  split at h
  · cases h
  cases h
  have hmax : (QUANTA_MAX_HARTS : Int) = 8 := rfl
  -- a field of a live hart, and a field of the platform, in the file
  have hhart : ∀ i off : Nat, (i : Int) < s.nharts.toInt → off + 4 ≤ L.sizeofCpu →
      getU32 ((quantaRestore L o s).harts i).struct off = getU32 f (hartAt L i + off) := by
    intro i off hi hoff
    have hi8 : i + 1 ≤ QUANTA_MAX_HARTS := by omega
    have hle : (i + 1) * L.sizeofCpu ≤ QUANTA_MAX_HARTS * L.sizeofCpu := Nat.mul_le_mul_right _ hi8
    rw [Nat.add_mul, Nat.one_mul] at hle
    rw [struct_restore, getU32_slice _ hoff, hharts, getU32_slice f (by omega), ← Nat.add_assoc]
    rfl
  have hp32 : ∀ off, off + 4 ≤ L.sizeofPlatform → getU32 s.plat off = getU32 f (platAt L + off) := by
    intro off hoff
    rw [hplat, getU32_slice f hoff]
  have hlen : ∀ k < VIRTIO_NET_FIFO, L.fifoLen + 4 * k + 4 ≤ L.sizeofPlatform := by
    intro k hk
    have := L.fifoLen_le
    omega
  have htx : getU64 s.plat L.tx = getU64 f (platAt L + L.tx) := by rw [hplat, getU64_slice f L.tx_le]
  have hctx : getU64 s.plat L.txCtx = getU64 f (platAt L + L.txCtx) := by rw [hplat, getU64_slice f L.txCtx_le]
  constructor
  · intro hw
    obtain ⟨h1, h2⟩ := (platPointers_restore L o s).mp hw.platPointers
    obtain ⟨hhead, hcount, hlens⟩ := hw.fifo
    refine ⟨?_, ?_, ?_, ?_, ?_, htx ▸ h1, hctx ▸ h2⟩
    · rw [← hn, ← hsched]
      exact hw.sched
    · intro i hi
      rw [← hn] at hi
      rw [← hhart i _ hi L.hartid_le, ← hhart i _ hi L.xlen_le]
      exact hw.harts i hi
    · rw [← hp32 _ L.fifoHead_le]
      exact hhead
    · rw [← hp32 _ L.fifoCount_le]
      exact hcount
    · intro k hk
      rw [← hp32 _ (hlen k hk)]
      exact hlens k hk
  · intro ht
    refine ⟨hcheck, ?_, ?_, ⟨?_, ?_, ?_⟩, fun i _ => hartPointers_restore L o s i, nofun, ?_⟩
    · show 0 ≤ s.sched.toInt ∧ s.sched.toInt < s.nharts.toInt
      rw [hn, hsched]
      exact ht.sched
    · intro i hi
      have hfile := ht.harts i (hn ▸ hi)
      rw [← hhart i _ hi L.hartid_le, ← hhart i _ hi L.xlen_le] at hfile
      exact hfile
    · show (getU32 s.plat _).toNat < _
      rw [hp32 _ L.fifoHead_le]
      exact ht.fifoHead
    · show (getU32 s.plat _).toNat ≤ _
      rw [hp32 _ L.fifoCount_le]
      exact ht.fifoCount
    · intro k hk
      show (getU32 s.plat _).toNat ≤ _
      rw [hp32 _ (hlen k hk)]
      exact ht.fifoLen k hk
    · exact (platPointers_restore L o s).mpr ⟨htx.trans ht.tx, hctx.trans ht.txCtx⟩

/-! ## A crafted file -/

/-- A header for one hart and no memory. -/
def craftedHeader : List Byte :=
  SNAP_MAGIC ++ [1, 0, 0, 0, 0xf0, 0x84, 0, 0, 0, 0x67, 0, 0, 8, 0, 0, 0, 1, 0, 0, 0] ++ List.replicate 44 0

/-- Eight harts of which the first has width 32; all else is zero. -/
def craftedHarts : List Byte := List.replicate 520 0 ++ (32 :: List.replicate 271735 0)

/-- A platform whose transmit callback is `t` in every byte. -/
def craftedPlat (t : Byte) : List Byte := List.replicate 26272 0 ++ (List.replicate 8 t ++ List.replicate 88 0)

def crafted (t : Byte) : List Byte := craftedHeader ++ (craftedHarts ++ craftedPlat t)

def craftedSnapshot (t : Byte) : Snapshot where
  harts := craftedHarts
  plat := craftedPlat t
  nharts := 1
  sched := 0
  mHalted := 0
  mReason := 0
  mExit := 0
  dtbAddr := 0
  memBase := 0
  memSize := 0
  diskSize := 0
  memData := []
  diskData := []

theorem fread_append {n : Nat} {a : List Byte} (h : a.length = n) (b : List Byte) : fread n (a ++ b) = some (a, b) := by
  subst h
  unfold fread
  rw [if_neg (by rw [List.length_append]; omega), List.take_left' rfl, List.drop_left' rfl]

/-- A file whose parts are there and pass the checks is read. -/
theorem snapshotRead_of {L : Layout} {f hdr f1 harts f2 plat f3 memData f4 diskData f5 : List Byte}
    (hhdr : fread SNAP_HDR_SIZE f = some (hdr, f1)) (hmagic : hdr.take 8 = SNAP_MAGIC)
    (hlayout : ¬(getU32 hdr 8 ≠ SNAP_FORMAT_VERSION ∨ (getU32 hdr 12).toNat ≠ L.sizeofCpu ∨
      (getU32 hdr 16).toNat ≠ L.sizeofPlatform ∨ (getU32 hdr 20).toNat ≠ QUANTA_MAX_HARTS))
    (hn : ¬((getU32 hdr 24).slt 1 ∨ (BitVec.ofNat 32 QUANTA_MAX_HARTS).slt (getU32 hdr 24)))
    (hharts : fread (QUANTA_MAX_HARTS * L.sizeofCpu) f1 = some (harts, f2))
    (hplat : fread L.sizeofPlatform f2 = some (plat, f3)) (hm : ∀ n, malloc n = true)
    (hmem : fread (getU64 hdr 56).toNat f3 = some (memData, f4))
    (hdisk : fread (getU64 hdr 64).toNat f4 = some (diskData, f5)) :
    snapshotRead L malloc f = some
      { harts, plat, nharts := getU32 hdr 24, sched := getU32 hdr 28, mHalted := getU32 hdr 32, mReason := getU32 hdr 36
        mExit := getU32 hdr 40, dtbAddr := getU32 hdr 44, memBase := getU64 hdr 48, memSize := getU64 hdr 56
        diskSize := getU64 hdr 64, memData, diskData } := by
  unfold snapshotRead
  rw [hhdr]
  dsimp only [bind, Option.bind]
  rw [if_neg (not_not_intro hmagic), if_neg hlayout, if_neg hn, hharts]
  dsimp only
  rw [hplat]
  dsimp only
  rw [hm, if_neg nofun, hmem]
  dsimp only
  rw [hm, if_neg (fun h => nomatch h.2), hdisk]

theorem snapshotRead_crafted (t : Byte) : snapshotRead lp64 (fun _ => true) (crafted t) = some (craftedSnapshot t) := by
  have hharts : craftedHarts.length = QUANTA_MAX_HARTS * lp64.sizeofCpu := by
    rw [craftedHarts, List.length_append, List.length_cons, List.length_replicate, List.length_replicate]
    rfl
  have hplat : (craftedPlat t ++ []).length = lp64.sizeofPlatform := by
    rw [List.append_nil, craftedPlat, List.length_append, List.length_append, List.length_replicate, List.length_replicate,
      List.length_replicate]
    rfl
  have hplat' : fread lp64.sizeofPlatform (craftedPlat t) = some (craftedPlat t, []) := by
    have := fread_append hplat []
    rwa [List.append_nil, List.append_nil] at this
  have hempty : fread (getU64 craftedHeader 56).toNat [] = some ([], []) := by decide
  have hempty' : fread (getU64 craftedHeader 64).toNat [] = some ([], []) := by decide
  have hread := snapshotRead_of (fread_append (a := craftedHeader) (by decide) (craftedHarts ++ craftedPlat t)) (by decide)
    (by decide) (by decide) (fread_append hharts (craftedPlat t)) hplat' (fun _ => rfl) hempty hempty'
  have h24 : getU32 craftedHeader 24 = 1 := by decide
  have hzero : getU32 craftedHeader 28 = 0 ∧ getU32 craftedHeader 32 = 0 ∧ getU32 craftedHeader 36 = 0 ∧
      getU32 craftedHeader 40 = 0 ∧ getU32 craftedHeader 44 = 0 ∧ getU64 craftedHeader 48 = 0 ∧
      getU64 craftedHeader 56 = 0 ∧ getU64 craftedHeader 64 = 0 := by decide
  obtain ⟨h28, h32, h36, h40, h44, h48, h56, h64⟩ := hzero
  rw [h24, h28, h32, h36, h40, h44, h48, h56, h64] at hread
  exact hread

/-- The options of a plain new handle. -/
def plainOptions : Options := ⟨true, fun _ => true, false, false⟩

theorem tx_restore (L : Layout) (o : Options) (s : Snapshot) :
    (quantaRestore L o s).plat.tx = .ofBits (getU64 s.plat L.tx) := rfl

theorem quantaLoadSnapshot_of {L : Layout} {o : Options} {f : List Byte} {s : Snapshot}
    (h : snapshotRead L malloc f = some s) (hm : ∀ n, malloc n = true) :
    quantaLoadSnapshot L o malloc f = .ok (quantaRestore L o s) := by
  unfold quantaLoadSnapshot
  rw [h]
  dsimp only
  rw [hm, hm, if_neg nofun, if_neg (fun h => nomatch h.2)]

theorem load_crafted (t : Byte) : quantaLoadSnapshot lp64 plainOptions (fun _ => true) (crafted t) =
    .ok (quantaRestore lp64 plainOptions (craftedSnapshot t)) :=
  quantaLoadSnapshot_of (snapshotRead_crafted t) fun _ => rfl

/-- Byte `k` of the file with a zero callback: past the header's first fields only the hart's width is not zero. -/
def craftedByte (k : Nat) : Byte := if k = 592 then 32 else (craftedHeader.take 28).getD k 0

theorem getD_crafted (k : Nat) : (crafted 0).getD k 0 = craftedByte k := by
  have hparts : crafted 0 = craftedHeader.take 28 ++ (List.replicate 564 0 ++ (32 :: List.replicate 298103 0)) := by
    have hhead : craftedHeader = craftedHeader.take 28 ++ List.replicate 44 0 := by decide
    rw [crafted, hhead, craftedHarts, craftedPlat, List.append_assoc, List.append_assoc,
      ← List.append_assoc (.replicate 44 0), List.cons_append]
    simp only [List.replicate_append_replicate]
    rfl
  rw [hparts, craftedByte]
  rcases Nat.lt_or_ge k 28 with hk | hk
  · rw [List.getD_append _ _ _ _ hk, if_neg (by omega)]
  rw [List.getD_append_right _ _ _ _ hk, List.getD_eq_default (craftedHeader.take 28) _ hk]
  change List.getD _ (k - 28) 0 = _
  rcases Nat.lt_trichotomy k 592 with hk' | rfl | hk'
  · rw [List.getD_append _ _ _ _ (by rw [List.length_replicate]; omega), if_neg (by omega)]
    exact List.getElem?_getD_replicate_default_eq ..
  · rw [List.getD_append_right _ _ _ _ (show _ ≤ 564 from Nat.le_of_eq List.length_replicate), List.length_replicate]
    rfl
  · obtain ⟨n, rfl⟩ := Nat.exists_eq_add_of_lt hk'
    rw [List.getD_append_right _ _ _ _ (by rw [List.length_replicate]; omega), List.length_replicate, if_neg (by omega),
      show 592 + n + 1 - 28 - 564 = n + 1 by omega, List.getD_cons_succ]
    exact List.getElem?_getD_replicate_default_eq ..

theorem trusted_crafted : Trusted lp64 (crafted 0) := by
  have h32 : ∀ i, getU32 (crafted 0) i = ld32 craftedByte i := fun i => congrArg (ld32 · i) (funext getD_crafted)
  have h64 : ∀ i, getU64 (crafted 0) i = ld64 craftedByte i := fun i => congrArg (ld64 · i) (funext getD_crafted)
  constructor <;> simp only [h32, h64]
  · decide
  · intro i hi
    have hone : (ld32 craftedByte 24).toInt = 1 := by decide
    obtain rfl : i = 0 := by omega
    decide
  all_goals decide

theorem loaded_wellFormed_crafted : ∃ q, quantaLoadSnapshot lp64 plainOptions (fun _ => true) (crafted 0) = .ok q ∧
    WellFormed lp64 q :=
  ⟨_, load_crafted 0, (loaded_wellFormed_iff (load_crafted 0)).mpr trusted_crafted⟩

/-- The transmit callback of the loaded machine is the one the file gives. -/
theorem crafted_callback : ∃ q, quantaLoadSnapshot lp64 plainOptions (fun _ => true) (crafted 0x41) = .ok q ∧
    q.plat.tx = .foreign 0x4141414141414141 ∧ ¬WellFormed lp64 q := by
  have htx : getU64 (craftedPlat 0x41) lp64.tx = getU64 (List.replicate 8 0x41) 0 := by
    unfold getU64 ld64
    refine Bytes.readLE_shift fun k hk => ?_
    have hat : lp64.tx = (List.replicate 26272 (0 : Byte)).length := (List.length_replicate ..).symm
    rw [craftedPlat, hat, List.getD_append_right _ _ _ _ (Nat.le_add_right _ _), Nat.add_sub_cancel_left, Nat.zero_add,
      List.getD_append _ _ _ _ (by rw [List.length_replicate]; exact hk)]
  have hptr : (quantaRestore lp64 plainOptions (craftedSnapshot 0x41)).plat.tx = .foreign 0x4141414141414141 := by
    rw [tx_restore, craftedSnapshot, htx]
    decide
  refine ⟨_, load_crafted 0x41, hptr, fun hw => ?_⟩
  exact hw.platPointers _ (by simp [Plat.pointers]) _ hptr

end Quanta.SnapFile
