/-
What a bus access cannot change: the shape of memory (its base, size and platform pointer), the
fault flag other than through an unmapped access, and the platform's wiring (the hart array, the
RAM window). Device writes can rewrite RAM by DMA, so this goes through the virtio devices.
-/
import Quanta.Machine.Memory

namespace Quanta

variable (b : Bus) {addr : BitVec 64} (p : Platform) {n : Nat}

/-- The disk, with other contents. -/
structure Disk.Kept (d d' : Disk) : Prop where
  size : d'.size = d.size
  writable : d'.writable = d.writable
  attached : d'.data.isSome = d.data.isSome
  empty : d.size = 0 → d'.data = d.data

theorem Disk.Kept.refl (d : Disk) : d.Kept d := ⟨rfl, rfl, rfl, fun _ => rfl⟩

theorem Disk.Kept.trans {d e f : Disk} (h : d.Kept e) (h' : e.Kept f) : d.Kept f where
  size := h'.size.trans h.size
  writable := h'.writable.trans h.writable
  attached := h'.attached.trans h.attached
  empty := fun hz => (h'.empty (h.size.trans hz)).trans (h.empty hz)

/-- The platform's wiring, set by the engine and never by a guest access. -/
structure Platform.Wired (p p' : Platform) : Prop where
  harts : p'.harts = p.harts
  nharts : p'.nharts = p.nharts
  ram : p'.ram = p.ram
  ramBase : p'.ramBase = p.ramBase
  ramSize : p'.ramSize = p.ramSize
  disk : p.disk.Kept p'.disk

/-- `b'` is `b` with other RAM contents and device registers. -/
structure Bus.Frame (b b' : Bus) : Prop where
  base : b'.mem.base = b.mem.base
  size : b'.mem.size = b.mem.size
  fault : b'.mem.fault = b.mem.fault
  plat : b'.mem.plat = b.mem.plat
  wired : b.plat.Wired b'.plat

theorem Platform.Wired.refl : p.Wired p := ⟨rfl, rfl, rfl, rfl, rfl, .refl _⟩

theorem Platform.Wired.trans {p q r : Platform} (h : p.Wired q) (h' : q.Wired r) : p.Wired r :=
  ⟨h'.harts.trans h.harts, h'.nharts.trans h.nharts, h'.ram.trans h.ram, h'.ramBase.trans h.ramBase,
    h'.ramSize.trans h.ramSize, h.disk.trans h'.disk⟩

namespace Bus.Frame

theorem refl (b : Bus) : b.Frame b := ⟨rfl, rfl, rfl, rfl, .refl _⟩

theorem trans {a b c : Bus} (h : a.Frame b) (h' : b.Frame c) : a.Frame c :=
  ⟨h'.base.trans h.base, h'.size.trans h.size, h'.fault.trans h.fault, h'.plat.trans h.plat,
    h.wired.trans h'.wired⟩

theorem setRam (b : Bus) (d : Nat → Byte) : b.Frame (b.setRam d) := ⟨rfl, rfl, rfl, rfl, .refl _⟩

theorem setPlat (b : Bus) {p : Platform} (h : b.plat.Wired p) : b.Frame (b.setPlat p) :=
  ⟨rfl, rfl, rfl, rfl, h⟩

end Bus.Frame

/-- No power-off is requested or withdrawn, and the wiring stays. -/
structure Platform.Steady (p p' : Platform) : Prop where
  wired : p.Wired p'
  power : platPoweroffRequested p' = platPoweroffRequested p

/-- The frame of an access that does not reach the test finisher. -/
structure Bus.Steady (b b' : Bus) : Prop where
  frame : b.Frame b'
  power : platPoweroffRequested b'.plat = platPoweroffRequested b.plat

theorem Platform.Steady.refl : p.Steady p := ⟨.refl p, rfl⟩

theorem Platform.Steady.trans {p q r : Platform} (h : p.Steady q) (h' : q.Steady r) : p.Steady r :=
  ⟨h.wired.trans h'.wired, h'.power.trans h.power⟩

namespace Bus.Steady

theorem refl (b : Bus) : b.Steady b := ⟨.refl b, rfl⟩

theorem trans {a b c : Bus} (h : a.Steady b) (h' : b.Steady c) : a.Steady c :=
  ⟨h.frame.trans h'.frame, h'.power.trans h.power⟩

theorem setRam (b : Bus) (d : Nat → Byte) : b.Steady (b.setRam d) := ⟨.setRam b d, rfl⟩

theorem setPlat (b : Bus) {p : Platform} (h : b.plat.Steady p) : b.Steady (b.setPlat p) :=
  ⟨.setPlat b h.wired, h.power⟩

theorem setNet (b : Bus) (n : VirtioNet) : b.Steady (b.setNet n) := setPlat b ⟨⟨rfl, rfl, rfl, rfl, rfl, .refl _⟩, rfl⟩

/-- A fold of steady steps is steady. -/
theorem foldl {β : Type*} {f : Bus → β → Bus} (hf : ∀ (b : Bus) (x : β), b.Steady (f b x)) :
    ∀ (l : List β) (b : Bus), b.Steady (l.foldl f b)
  | [], b => refl b
  | x :: l, b => (hf b x).trans (foldl hf l (f b x))

end Bus.Steady

/-! ## Virtio -/

theorem blkByte_steady (type : BitVec 32) (buf : Nat) (off : BitVec 64) (b : Bus) (k : Nat) :
    b.Steady (blkByte type buf off b k) := by
  unfold blkByte
  dsimp only
  split
  · next hdata =>
    split
    · exact .setRam _ _
    · split
      · next hout =>
        -- A byte is written inside the image, which is then not empty.
        refine .setPlat _ ⟨⟨rfl, rfl, rfl, rfl, rfl, rfl, rfl, by rw [hdata]; rfl, fun hz => ?_⟩, rfl⟩
        rw [hz] at hout
        exact absurd hout.2 (by simp [BitVec.ult])
      · exact .refl b
  · split
    · exact .setRam _ _
    · exact .refl b

theorem blkWriteThrough_steady (type : BitVec 32) (off : BitVec 64) (len : BitVec 32) (b : Bus) :
    b.Steady (blkWriteThrough type off len b) := by
  unfold blkWriteThrough
  dsimp only
  split
  · split
    · exact .setPlat _ ⟨⟨rfl, rfl, rfl, rfl, rfl, rfl, rfl, rfl, fun _ => rfl⟩, rfl⟩
    · exact .refl b
  · exact .refl b

theorem blkData_steady (type : BitVec 32) (s : BlkLoop) (d : Desc) : s.bus.Steady (blkData type s d).bus := by
  unfold blkData
  split
  · exact .refl _
  · split
    · exact .refl _
    · exact (Bus.Steady.foldl (fun b k => blkByte_steady _ _ _ b k) _ _).trans (blkWriteThrough_steady _ _ _ _)

theorem blkDataLoop_steady (type : BitVec 32) :
    ∀ (l : List Desc) (s : BlkLoop), s.bus.Steady (l.foldl (blkData type) s).bus
  | [], s => .refl s.bus
  | d :: l, s => (blkData_steady type s d).trans (blkDataLoop_steady type l (blkData type s d))

theorem blkStatus_steady (s : BlkLoop) (d : Desc) : s.bus.Steady (blkStatus s d) := by
  unfold blkStatus
  split
  · exact .setRam _ _
  · exact .refl _

theorem virtioService_steady (head : BitVec 16) : b.Steady (virtioService b head).2 := by
  unfold virtioService
  dsimp only
  split
  · exact .refl b
  · split
    · exact (blkDataLoop_steady _ _ ⟨b, _, 0, true⟩).trans (blkStatus_steady _ _)
    · exact .refl b

theorem virtioNotifyOne_steady (avail used : Nat) (b : Bus) : b.Steady (virtioNotifyOne avail used b) := by
  unfold virtioNotifyOne
  dsimp only
  refine Bus.Steady.trans ?_ (.setPlat _ ⟨⟨rfl, rfl, rfl, rfl, rfl, .refl _⟩, rfl⟩)
  exact (virtioService_steady b _).trans (.setRam _ _)

theorem virtioNotifyLoop_steady (avail used : Nat) :
    ∀ (n : Nat) (b : Bus), b.Steady (virtioNotifyLoop avail used b n)
  | 0, b => .refl b
  | n + 1, b => (virtioNotifyOne_steady avail used b).trans (virtioNotifyLoop_steady avail used n _)

theorem virtioNotify_steady : b.Steady (virtioNotify b) := by
  unfold virtioNotify
  dsimp only
  split
  · exact .refl b
  · split
    · exact (virtioNotifyLoop_steady _ _ _ b).trans (.setPlat _ ⟨⟨rfl, rfl, rfl, rfl, rfl, .refl _⟩, rfl⟩)
    · exact .refl b

theorem virtioWrite_steady (off val : BitVec 32) : b.Steady (virtioWrite b off val) := by
  unfold virtioWrite
  dsimp only
  split <;> first | exact virtioNotify_steady b | exact .refl b | exact .setPlat _ ⟨⟨rfl, rfl, rfl, rfl, rfl, .refl _⟩, rfl⟩

theorem netScatter_steady : ∀ (ds : List Desc) (src : List Byte) (b : Bus), b.Steady (netScatter b ds src).2
  | [], _, b => .refl b
  | d :: ds, src, b => by
    unfold netScatter
    split
    · exact netScatter_steady ds src b
    · exact (Bus.Steady.setRam b _).trans (netScatter_steady ds _ _)

theorem netDeliverOne_steady {avail used : Nat} {b b' : Bus} (h : netDeliverOne avail used b = some b') :
    b.Steady b' := by
  unfold netDeliverOne at h
  dsimp only at h
  split at h
  · cases h
  · cases h
    exact (netScatter_steady _ _ b).trans ((Bus.Steady.setRam _ _).trans (.setNet _ _))

theorem netDeliverLoop_steady (avail used : Nat) :
    ∀ (k : Nat) (delivered : Bool) (b : Bus), b.Steady (netDeliverLoop avail used b delivered k).2
  | 0, _, b => .refl b
  | k + 1, delivered, b => by
    unfold netDeliverLoop
    split
    · exact .refl b
    · exact (netDeliverOne_steady ‹_›).trans (netDeliverLoop_steady avail used k true _)

theorem netDeliverRx_steady : b.Steady (netDeliverRx b) := by
  unfold netDeliverRx
  dsimp only
  split
  · exact .refl b
  · split
    · split
      · exact (netDeliverLoop_steady _ _ _ false b).trans (.setNet _ _)
      · exact netDeliverLoop_steady _ _ _ false b
    · exact .refl b

theorem platNetRx_steady (frame : List Byte) : b.Steady (platNetRx b frame).2 := by
  unfold platNetRx
  split
  · exact .refl b
  · exact (Bus.Steady.setNet b _).trans (netDeliverRx_steady _)

theorem netTransmit_steady (frame : List Byte) : b.Steady (netTransmit b frame) := by
  unfold netTransmit
  dsimp only
  split
  · exact (Bus.Steady.setNet b _).trans (.foldl (fun b f => platNetRx_steady b f) _ _)
  · exact platNetRx_steady b frame

theorem netProcessTxOne_steady (avail used : Nat) (b : Bus) : b.Steady (netProcessTxOne avail used b) := by
  unfold netProcessTxOne
  dsimp only
  refine Bus.Steady.trans ?_ ((Bus.Steady.setRam _ _).trans (.setNet _ _))
  split
  · exact netTransmit_steady b _
  · exact .refl b

theorem netProcessTxLoop_steady (avail used : Nat) :
    ∀ (k : Nat) (b : Bus), b.Steady (netProcessTxLoop avail used b k)
  | 0, b => .refl b
  | k + 1, b => (netProcessTxOne_steady avail used b).trans (netProcessTxLoop_steady avail used k _)

theorem netProcessTx_steady : b.Steady (netProcessTx b) := by
  unfold netProcessTx
  dsimp only
  split
  · exact .refl b
  · split
    · split
      · exact (netProcessTxLoop_steady _ _ _ b).trans (.setNet _ _)
      · exact netProcessTxLoop_steady _ _ _ b
    · exact .refl b

theorem setSelectedVq_steady (f : Virtqueue → Virtqueue) : b.Steady (b.setSelectedVq f) := by
  unfold Bus.setSelectedVq
  dsimp only
  split
  · exact .setNet b _
  · exact .refl b

theorem virtioNetWrite_steady (off val : BitVec 32) : b.Steady (virtioNetWrite b off val) := by
  unfold virtioNetWrite
  dsimp only
  split
  case h_6 =>
    split
    · exact netProcessTx_steady b
    · split
      · exact netDeliverRx_steady b
      · exact .refl b
  all_goals first | exact .refl b | exact .setNet b _ | exact setSelectedVq_steady b _

/-! ## MMIO -/

theorem plicRead_steady (off : BitVec 32) : p.Steady (plicRead p off).2 := by
  unfold plicRead plicClaim
  dsimp only
  split
  · exact .refl p
  split
  · exact .refl p
  split
  · exact .refl p
  split
  · split
    · exact .refl p
    split
    · dsimp only
      split
      · exact ⟨⟨rfl, rfl, rfl, rfl, rfl, .refl _⟩, rfl⟩
      · exact .refl p
    · exact .refl p
  · exact .refl p

theorem plicWrite_steady (off val : BitVec 32) : p.Steady (plicWrite p off val) := by
  unfold plicWrite
  dsimp only
  split
  · split <;> exact ⟨⟨rfl, rfl, rfl, rfl, rfl, .refl _⟩, rfl⟩
  split
  · split <;> exact ⟨⟨rfl, rfl, rfl, rfl, rfl, .refl _⟩, rfl⟩
  split
  · split
    · exact ⟨⟨rfl, rfl, rfl, rfl, rfl, .refl _⟩, rfl⟩
    · split <;> exact ⟨⟨rfl, rfl, rfl, rfl, rfl, .refl _⟩, rfl⟩
  · exact .refl p

theorem testWrite_wired (value : BitVec 32) : p.Wired (testWrite p value) := by
  unfold testWrite
  dsimp only
  split
  · exact ⟨rfl, rfl, rfl, rfl, rfl, .refl _⟩
  · split <;> exact ⟨rfl, rfl, rfl, rfl, rfl, .refl _⟩

theorem platRead_steady (addr : BitVec 64) (size : Nat) : p.Steady (platRead p addr size).2 := by
  unfold platRead
  split
  · exact ⟨⟨rfl, rfl, rfl, rfl, rfl, .refl _⟩, rfl⟩
  split
  · exact .refl p
  split
  · exact plicRead_steady p _
  split
  · exact .refl p
  split <;> exact .refl p

/-- Does the address reach the test finisher? -/
def finisher (addr : BitVec 64) : Bool := inWindow addr TEST_BASE TEST_SIZE

theorem platWrite_steady (h : finisher addr = false) (value : BitVec 32) :
    b.Steady (platWrite b addr value) := by
  unfold platWrite
  rw [if_neg (by rw [show inWindow addr TEST_BASE TEST_SIZE = false from h]; decide)]
  split
  · exact ⟨⟨rfl, rfl, rfl, rfl, ⟨rfl, rfl, rfl, rfl, rfl, .refl _⟩⟩, rfl⟩
  split
  · exact .setPlat _ ⟨⟨rfl, rfl, rfl, rfl, rfl, .refl _⟩, rfl⟩
  split
  · exact .setPlat _ (plicWrite_steady ..)
  split
  · exact virtioWrite_steady ..
  split
  · exact virtioNetWrite_steady ..
  · exact .refl b

theorem platWrite_frame (addr : BitVec 64) (value : BitVec 32) : b.Frame (platWrite b addr value) := by
  cases h : finisher addr with
  | false => exact (platWrite_steady b h value).frame
  | true =>
    unfold platWrite
    rw [finisher] at h
    rw [if_pos h]
    exact .setPlat _ (testWrite_wired ..)

theorem devRead_steady (addr : BitVec 64) (n : Nat) : p.Steady (devRead p addr n).2 := by
  unfold devRead
  split
  · exact (platRead_steady p addr 4).trans (platRead_steady _ _ _)
  · exact platRead_steady p addr n

theorem devWrite_frame (addr : BitVec 64) (n : Nat) (value : BitVec 64) :
    b.Frame (devWrite b addr n value) := by
  unfold devWrite
  split
  · exact (platWrite_frame ..).trans (platWrite_frame ..)
  · exact platWrite_frame ..

theorem devWrite_steady (h : finisher addr = false)
    (h8 : n = 8 → finisher (addr + 4) = false) (value : BitVec 64) : b.Steady (devWrite b addr n value) := by
  unfold devWrite
  split
  · next hn => exact (platWrite_steady b h _).trans (platWrite_steady _ (h8 hn) _)
  · exact platWrite_steady b h _

/-! ## Memory accesses -/

/-- A mapped address: a device, or all bytes in RAM. -/
def Bus.mapped (b : Bus) (addr : BitVec 64) (n : Nat) : Bool :=
  b.isDevice addr || (b.mem.translate addr (BitVec.ofNat 64 n)).isSome

theorem Bus.Frame.mapped {b b' : Bus} (h : b.Frame b') (addr : BitVec 64) (n : Nat) :
    b'.mapped addr n = b.mapped addr n := by
  unfold Bus.mapped Bus.isDevice Memory.translate
  rw [h.plat, h.base, h.size]

/-- A mapped read leaves RAM and the fault flag alone. -/
theorem memRead_of_mapped {b : Bus} (h : b.mapped addr n = true) :
    (memRead b addr n).2.mem = b.mem ∧ b.Frame (memRead b addr n).2 := by
  unfold Bus.mapped at h
  unfold memRead
  split
  · exact ⟨rfl, .setPlat b (devRead_steady ..).wired⟩
  · next hd =>
    rw [Bool.not_eq_true] at hd
    rw [hd, Bool.false_or] at h
    split
    · next hn => rw [hn] at h; cases h
    · exact ⟨rfl, .refl b⟩

theorem memRead_of_unmapped {b : Bus} (h : b.mapped addr n = false) :
    memRead b addr n = (0, b.setFault addr) := by
  unfold Bus.mapped at h
  rw [Bool.or_eq_false_iff] at h
  unfold memRead
  rw [if_neg (by rw [h.1]; decide)]
  cases ht : b.mem.translate addr (BitVec.ofNat 64 n) with
  | none => rfl
  | some i => rw [ht] at h; cases h.2

/-- A read faults exactly when it is unmapped. -/
theorem memRead_fault {b : Bus} (hf : b.mem.fault = false) (addr : BitVec 64) (n : Nat) :
    (memRead b addr n).2.mem.fault = !b.mapped addr n := by
  cases h : b.mapped addr n
  · rw [memRead_of_unmapped h]
    rfl
  · rw [(memRead_of_mapped h).1, hf]
    rfl

/-- A read never changes RAM. -/
theorem memRead_data (addr : BitVec 64) (n : Nat) : (memRead b addr n).2.mem.data = b.mem.data := by
  cases h : b.mapped addr n
  · rw [memRead_of_unmapped h]
    rfl
  · rw [(memRead_of_mapped h).1]

theorem memWrite_of_mapped {b : Bus} (h : b.mapped addr n = true)
    (v : BitVec 64) : b.Frame (memWrite b addr n v) := by
  unfold Bus.mapped at h
  unfold memWrite
  split
  · exact devWrite_frame ..
  · next hd =>
    rw [Bool.not_eq_true] at hd
    rw [hd, Bool.false_or] at h
    split
    · next hn => rw [hn] at h; cases h
    · exact .setRam b _

theorem memWrite_of_unmapped {b : Bus} (h : b.mapped addr n = false)
    (v : BitVec 64) : memWrite b addr n v = b.setFault addr := by
  unfold Bus.mapped at h
  rw [Bool.or_eq_false_iff] at h
  unfold memWrite
  rw [if_neg (by rw [h.1]; decide)]
  cases ht : b.mem.translate addr (BitVec.ofNat 64 n) with
  | none => rfl
  | some i => rw [ht] at h; cases h.2

/-! ## The power-off request -/

theorem memRead_power (addr : BitVec 64) (n : Nat) :
    platPoweroffRequested (memRead b addr n).2.plat = platPoweroffRequested b.plat := by
  unfold memRead
  split
  · exact (devRead_steady b.plat addr n).power
  · split <;> rfl

theorem not_inWindow {a : BitVec 64} (base size : BitVec 64) (h : size.toNat ≤ (a - base).toNat) : inWindow a base size = false := by
  simp only [inWindow, BitVec.ult, decide_eq_false_iff_not]
  omega

/-- The finisher reads as 0, and reading it has no effect. -/
theorem platRead_finisher {a : BitVec 64} (h : finisher a = true) (k : Nat) : platRead p a k = (0, p) := by
  have hlt : (a - TEST_BASE).toNat < TEST_SIZE.toNat := by
    simpa only [finisher, inWindow, BitVec.ult, decide_eq_true_eq] using h
  unfold TEST_BASE TEST_SIZE at hlt
  unfold platRead
  rw [not_inWindow UART_BASE, not_inWindow CLINT_BASE, not_inWindow PLIC_BASE, not_inWindow VIRTIO_BASE,
    not_inWindow VIRTIO_NET_BASE]
  · rfl
  all_goals
    simp only [UART_BASE, UART_SIZE, CLINT_BASE, CLINT_SIZE, PLIC_BASE, PLIC_SIZE, VIRTIO_BASE, VIRTIO_SIZE,
      VIRTIO_NET_BASE, VIRTIO_NET_SIZE]
    bv_omega

theorem memRead_finisher {b : Bus} (hp : b.mem.plat = true) (h : finisher addr = true)
    (h8 : n = 8 → finisher (addr + 4) = true) : (memRead b addr n).1 = 0 := by
  have hdev : b.isDevice addr = true := by
    have h' : inWindow addr TEST_BASE TEST_SIZE = true := h
    unfold Bus.isDevice platContains
    rw [hp, h']
    rfl
  have hread : (devRead b.plat addr n).1 = 0 := by
    unfold devRead
    by_cases hn : n = 8
    · rw [if_pos hn, platRead_finisher _ h]
      dsimp only
      rw [platRead_finisher _ (h8 hn)]
      simp
    · rw [if_neg hn, platRead_finisher _ h]
      exact BitVec.zero_and
  unfold memRead
  rw [if_pos hdev]
  exact hread

theorem memWrite_power {b : Bus} (h : b.mem.plat = true → finisher addr = false)
    (h8 : b.mem.plat = true → n = 8 → finisher (addr + 4) = false) (v : BitVec 64) :
    platPoweroffRequested (memWrite b addr n v).plat = platPoweroffRequested b.plat := by
  unfold memWrite
  split
  · next hd =>
    have hp : b.mem.plat = true := by
      unfold Bus.isDevice at hd
      exact (Bool.and_eq_true_iff.mp hd).1
    exact (devWrite_steady b (h hp) (h8 hp) v).power
  · split <;> rfl

/-! ## The shape of the bus -/

/-- The parts no access changes: where RAM and the devices are, and the platform's wiring. -/
structure Bus.Shape (b b' : Bus) : Prop where
  base : b'.mem.base = b.mem.base
  size : b'.mem.size = b.mem.size
  plat : b'.mem.plat = b.mem.plat
  wired : b.plat.Wired b'.plat

namespace Bus.Shape

theorem refl (b : Bus) : b.Shape b := ⟨rfl, rfl, rfl, .refl _⟩

theorem trans {a b c : Bus} (h : a.Shape b) (h' : b.Shape c) : a.Shape c :=
  ⟨h'.base.trans h.base, h'.size.trans h.size, h'.plat.trans h.plat, h.wired.trans h'.wired⟩

end Bus.Shape

theorem Bus.Frame.shape {b b' : Bus} (h : b.Frame b') : b.Shape b' := ⟨h.base, h.size, h.plat, h.wired⟩

theorem clearFault_shape : b.Shape b.clearFault := ⟨rfl, rfl, rfl, .refl _⟩

theorem setFault_shape (addr : BitVec 64) : b.Shape (b.setFault addr) := ⟨rfl, rfl, rfl, .refl _⟩

theorem memRead_shape (addr : BitVec 64) (n : Nat) : b.Shape (memRead b addr n).2 := by
  cases h : b.mapped addr n
  · rw [memRead_of_unmapped h]
    exact setFault_shape b addr
  · exact (memRead_of_mapped h).2.shape

theorem memWrite_shape (addr : BitVec 64) (n : Nat) (v : BitVec 64) : b.Shape (memWrite b addr n v) := by
  cases h : b.mapped addr n
  · rw [memWrite_of_unmapped h]
    exact setFault_shape b addr
  · exact (memWrite_of_mapped h v).shape

end Quanta
