/-
The receive side of the network device as a queue. The 16-cell FIFO is a ring; a frame is accepted
exactly when a cell is free; a delivery takes the oldest frame and writes as much of it as the
posted chain has room for in RAM, where the guest can read it back.
-/
import Quanta.Device.Virtio
import Quanta.Lib.Extents
import Quanta.Lib.Queue

namespace Quanta

open Bytes Lib

/-! ## The ring -/

/-- The frames that wait in the device, oldest first. -/
def fifoFrames (n : VirtioNet) : List (List Byte) := ring n.fifo VIRTIO_NET_FIFO n.fifoHead.toNat n.fifoCount.toNat

/-- The frame the next delivery takes. -/
def VirtioNet.oldest (n : VirtioNet) : List Byte := n.fifo n.fifoHead.toNat

structure VirtioNet.FifoOk (n : VirtioNet) : Prop where
  head : n.fifoHead.toNat < VIRTIO_NET_FIFO
  count : n.fifoCount.toNat ≤ VIRTIO_NET_FIFO

section
variable {n n' : VirtioNet} {frame : List Byte}

/-- What one round of `net_deliver_rx` does to the FIFO. -/
def VirtioNet.popped (n : VirtioNet) : VirtioNet :=
  { n with
    fifoHead := (n.fifoHead + 1) % BitVec.ofNat 32 VIRTIO_NET_FIFO
    fifoCount := n.fifoCount - 1 }

theorem netFifoPush_isSome (n : VirtioNet) (frame : List Byte) : (netFifoPush n frame).isSome = true ↔
    (0 < frame.length ∧ frame.length ≤ VIRTIO_NET_FRAME_MAX) ∧ n.fifoCount.toNat < VIRTIO_NET_FIFO := by
  unfold netFifoPush
  split
  next h => exact ⟨nofun, fun h' => absurd h (by omega)⟩
  next h =>
    split
    next h' => exact ⟨nofun, fun h'' => absurd h' (by omega)⟩
    next h' => exact ⟨fun _ => ⟨by omega, by omega⟩, fun _ => rfl⟩

/-- An accepted frame waits behind the others. -/
theorem fifoFrames_push (hok : n.FifoOk) (h : netFifoPush n frame = some n') :
    fifoFrames n' = fifoFrames n ++ [frame] ∧ n'.FifoOk := by
  have hroom : n.fifoCount.toNat < VIRTIO_NET_FIFO := ((netFifoPush_isSome n frame).mp (by rw [h]; rfl)).2
  obtain ⟨hhead, _⟩ := hok
  have hcap : VIRTIO_NET_FIFO = 16 := rfl
  have htail : (n.fifoHead + n.fifoCount).toNat = n.fifoHead.toNat + n.fifoCount.toNat := by
    rw [BitVec.toNat_add]
    omega
  have hcount : (n.fifoCount + 1).toNat = n.fifoCount.toNat + 1 := by
    rw [BitVec.toNat_add]
    exact Nat.mod_eq_of_lt (by show n.fifoCount.toNat + 1 < _; omega)
  unfold netFifoPush at h
  split at h
  · cases h
  split at h
  · cases h
  cases h
  refine ⟨?_, hhead, by rw [hcount]; omega⟩
  unfold fifoFrames
  rw [hcount, htail]
  exact ring_push hroom frame

/-- A delivery takes the oldest. -/
theorem fifoFrames_pop (hok : n.FifoOk) (hpos : 0 < n.fifoCount.toNat) :
    fifoFrames n = n.oldest :: fifoFrames n.popped ∧ n.popped.FifoOk := by
  obtain ⟨hhead, hle⟩ := hok
  have hcap : VIRTIO_NET_FIFO = 16 := rfl
  have hcount : (n.fifoCount - 1).toNat = n.fifoCount.toNat - 1 := by
    rw [BitVec.toNat_sub_of_le (by rw [BitVec.le_def]; exact hpos)]
    rfl
  have hnext : ((n.fifoHead + 1) % BitVec.ofNat 32 VIRTIO_NET_FIFO).toNat = (n.fifoHead.toNat + 1) % VIRTIO_NET_FIFO := by
    rw [BitVec.toNat_umod, BitVec.toNat_add]
    show (n.fifoHead.toNat + 1) % 2 ^ 32 % 16 = (n.fifoHead.toNat + 1) % 16
    omega
  obtain ⟨k, hk⟩ : ∃ k, n.fifoCount.toNat = k + 1 := ⟨_, (Nat.succ_pred_eq_of_pos hpos).symm⟩
  constructor
  · unfold fifoFrames VirtioNet.popped
    rw [hcount, hnext, hk, ring_pop, Nat.mod_eq_of_lt hhead]
    rfl
  · refine ⟨?_, ?_⟩
    · rw [VirtioNet.popped, hnext]
      exact Nat.mod_lt _ (by decide)
    · rw [VirtioNet.popped, hcount]
      omega

end

/-! ## Chains as ranges of RAM -/

/-- The ranges of RAM that a chain's buffers take. -/
def chainExtents (b : Bus) : List Desc → List Extent
  | [] => []
  | d :: ds =>
    match dmaPtr b d.1 (d.2.setWidth 64) with
    | none => chainExtents b ds
    | some i => (i, d.2.toNat) :: chainExtents b ds

/-- How many bytes of a chain's buffers are in RAM. -/
def chainRoom (b : Bus) (ds : List Desc) : Nat := extentTotal (chainExtents b ds)

theorem chainExtents_congr {b b' : Bus} (h : ∀ a n, dmaPtr b' a n = dmaPtr b a n) :
    ∀ ds, chainExtents b' ds = chainExtents b ds
  | [] => rfl
  | d :: ds => by
    unfold chainExtents
    rw [h, chainExtents_congr h ds]

/-- `net_scatter` writes over the chain's ranges, everything there is room for. -/
theorem netScatter_eq : ∀ (ds : List Desc) (b : Bus) (src : List Byte),
    netScatter b ds src = (min src.length (chainRoom b ds), b.setRam (scatterBytes b.mem.data (chainExtents b ds) src))
  | [], b, src => congrArg (·, b) (Nat.min_zero _).symm
  | d :: ds, b, src => by
    unfold netScatter chainRoom chainExtents
    cases hd : dmaPtr b d.1 (d.2.setWidth 64) with
    | none => exact netScatter_eq ds b src
    | some i =>
      have hsame (ram : Nat → Byte) : chainExtents (b.setRam ram) ds = chainExtents b ds :=
        chainExtents_congr (fun _ _ => by rfl) ds
      have htotal : extentTotal ((i, d.2.toNat) :: chainExtents b ds) = d.2.toNat + chainRoom b ds := rfl
      dsimp only
      rw [netScatter_eq ds, chainRoom, hsame, ← chainRoom, htotal, List.length_take, List.length_drop]
      refine Prod.ext ?_ rfl
      show min d.2.toNat src.length + min (src.length - d.2.toNat) (chainRoom b ds) = _
      omega

/-- `net_gather` reads the chain's ranges, at most `cap` bytes of them. -/
theorem netGather_eq (b : Bus) (cap : Nat) : ∀ (ds : List Desc) (out : List Byte),
    netGather b cap ds out = out ++ (gatherBytes b.mem.data (chainExtents b ds)).take (cap - out.length)
  | [], out => by
    show out = out ++ List.take _ []
    rw [List.take_nil, List.append_nil]
  | d :: ds, out => by
    unfold netGather chainExtents
    cases hd : dmaPtr b d.1 (d.2.setWidth 64) with
    | none => exact netGather_eq b cap ds out
    | some i =>
      have hhere : min d.2.toNat (cap - out.length) = min (cap - out.length) d.2.toNat := Nat.min_comm ..
      have hleft : cap - (out.length + min (cap - out.length) d.2.toNat) = cap - out.length - d.2.toNat := by omega
      show netGather b cap ds (out ++ readBytes b.mem.data i _) = out ++ (readBytes _ i d.2.toNat ++ gatherBytes _ _).take _
      rw [netGather_eq b cap ds, hhere, List.length_append, length_readBytes, hleft, List.take_append, take_readBytes,
        length_readBytes, List.append_assoc]

/-- Outside the used ring `usedPush` changes nothing. -/
theorem usedPush_of_outside {ram : Nat → Byte} {used num : Nat} {head : BitVec 16} {wlen : BitVec 32} {j : Nat}
    (hnum : 0 < num) (h : j < used ∨ used + (4 + 8 * num) ≤ j) : usedPush ram used num head wlen j = ram j := by
  have hslot : (ld16 ram (used + 2)).toNat % num < num := Nat.mod_lt _ hnum
  unfold usedPush st16 st32
  rw [writeLE_of_outside (by omega), writeLE_of_outside (by omega), writeLE_of_outside (by omega)]

/-! ## Deliveries -/

/-- The chain the next delivery writes to. -/
def rxChain (avail : Nat) (b : Bus) : List Desc :=
  let q := b.plat.net.vq VIRTIO_NET_RXQ
  vqChain b q.descAddr q.num (ld16 b.mem.data (avail + 4 + (q.lastAvail.toNat % q.num.toNat) * 2))

/-- One round of `net_deliver_rx`: the rings it works on and the bus before and after it. -/
structure Delivery where
  avail : Nat
  used : Nat
  bus : Bus
  after : Bus
  done : netDeliverOne avail used bus = some after

namespace Delivery

def frame (d : Delivery) : List Byte := d.bus.plat.net.oldest

def chain (d : Delivery) : List Desc := rxChain d.avail d.bus

/-- Does guest memory, read along the chain after the round, hold the header and this frame? -/
def holds (d : Delivery) (frame : List Byte) : Bool :=
  netGather d.after (VIRTIO_NET_HDR_LEN + frame.length) d.chain [] == netHdr ++ frame

/-- The used ring and the chain's buffers are apart from each other. -/
def Separate (d : Delivery) : Prop :=
  ((d.used, 4 + 8 * (d.bus.plat.net.vq VIRTIO_NET_RXQ).num.toNat) :: chainExtents d.bus d.chain).Pairwise Extent.Apart

instance (d : Delivery) : Decidable d.Separate := inferInstanceAs (Decidable (List.Pairwise ..))

end Delivery

/-- The deliveries of `net_deliver_rx`'s loop. -/
def deliverLoop (avail used : Nat) (b : Bus) : Nat → List Delivery
  | 0 => []
  | k + 1 =>
    match h : netDeliverOne avail used b with
    | none => []
    | some b' => ⟨avail, used, b, b', h⟩ :: deliverLoop avail used b' k

/-- The deliveries of `net_deliver_rx`. -/
def deliveries (b : Bus) : List Delivery :=
  let q := b.plat.net.vq VIRTIO_NET_RXQ
  if q.ready = 0 ∨ q.num = 0 ∨ V_QUEUE_MAX < q.num.toNat then []
  else
    match dmaPtr b q.availAddr (4 + q.num.setWidth 64 * 2),
          dmaPtr b q.usedAddr (4 + q.num.setWidth 64 * 8) with
    | some avail, some used => deliverLoop avail used b b.plat.net.fifoCount.toNat
    | _, _ => []

namespace Delivery

/-- What a round does to RAM: header and frame go over the chain's ranges, then an entry to the used
ring. -/
theorem after_eq (d : Delivery) : (∀ a n, dmaPtr d.after a n = dmaPtr d.bus a n) ∧ ∃ head wlen,
    d.after.mem.data = usedPush (scatterBytes d.bus.mem.data (chainExtents d.bus d.chain) (netHdr ++ d.frame)) d.used
      (d.bus.plat.net.vq VIRTIO_NET_RXQ).num.toNat head wlen := by
  have h := d.done
  unfold netDeliverOne at h
  dsimp only at h
  split at h
  · cases h
  · have hafter := Option.some.inj h
    rw [netScatter_eq] at hafter
    rw [← hafter]
    exact ⟨fun _ _ => rfl, _, _, rfl⟩

/-- A chain with room belongs to a queue of some size. -/
theorem num_pos {d : Delivery} (h : 0 < chainRoom d.bus d.chain) : 0 < (d.bus.plat.net.vq VIRTIO_NET_RXQ).num.toNat := by
  refine Nat.pos_of_ne_zero fun h0 => ?_
  unfold chain rxChain vqChain at h
  dsimp only at h
  rw [h0, Nat.zero_min] at h
  exact absurd h (Nat.lt_irrefl 0)

theorem holds_iff_take (d : Delivery) (frame : List Byte) : d.holds frame = true ↔
    (gatherBytes d.after.mem.data (chainExtents d.bus d.chain)).take (netHdr ++ frame).length = netHdr ++ frame := by
  have hhdr : VIRTIO_NET_HDR_LEN + frame.length - ([] : List Byte).length = (netHdr ++ frame).length := by
    rw [List.length_append]
    rfl
  unfold holds
  rw [beq_iff_eq, netGather_eq, hhdr, chainExtents_congr d.after_eq.1, List.nil_append]

/-- Guest memory holds the frame that is delivered exactly when the chain has room. -/
theorem holds_iff {d : Delivery} (hd : d.Separate) :
    d.holds d.frame = true ↔ VIRTIO_NET_HDR_LEN + d.frame.length ≤ chainRoom d.bus d.chain := by
  have hlen : (netHdr ++ d.frame).length = VIRTIO_NET_HDR_LEN + d.frame.length := List.length_append
  obtain ⟨hused, happart⟩ := List.pairwise_cons.mp hd
  obtain ⟨-, head, wlen, hdata⟩ := d.after_eq
  rw [holds_iff_take, ← hlen]
  constructor
  · intro h
    have hle := congrArg List.length h
    rw [List.length_take, length_gatherBytes] at hle
    unfold chainRoom
    omega
  · intro h
    have hhdr : VIRTIO_NET_HDR_LEN = 12 := rfl
    have hpos : 0 < chainRoom d.bus d.chain := by omega
    -- the entry in the used ring leaves the buffers alone
    have hkeep : gatherBytes d.after.mem.data (chainExtents d.bus d.chain) =
        gatherBytes (scatterBytes d.bus.mem.data (chainExtents d.bus d.chain) (netHdr ++ d.frame))
          (chainExtents d.bus d.chain) := by
      refine gatherBytes_congr fun s hs j hj hj' => ?_
      have := hused s hs
      unfold Extent.Apart at this
      rw [hdata, usedPush_of_outside (num_pos hpos) (by dsimp only at this; omega)]
    rw [hkeep]
    exact gatherBytes_scatterBytes happart h

end Delivery

section
variable {avail used : Nat} {b b' : Bus}

theorem netDeliverOne_net (h : netDeliverOne avail used b = some b') :
    fifoFrames b'.plat.net = fifoFrames b.plat.net.popped ∧ (b.plat.net.popped.FifoOk → b'.plat.net.FifoOk) ∧
      b'.plat.net.fifoCount = b.plat.net.fifoCount - 1 := by
  unfold netDeliverOne at h
  dsimp only at h
  split at h
  · cases h
  · cases h
    exact ⟨rfl, fun hok => ⟨hok.head, hok.count⟩, rfl⟩

theorem deliverLoop_none (h : netDeliverOne avail used b = none) (k : Nat) : deliverLoop avail used b (k + 1) = [] := by
  unfold deliverLoop
  split
  next => rfl
  next h' => cases h.symm.trans h'

theorem deliverLoop_some (h : netDeliverOne avail used b = some b') (k : Nat) :
    deliverLoop avail used b (k + 1) = ⟨avail, used, b, b', h⟩ :: deliverLoop avail used b' k := by
  rw [deliverLoop]
  split
  next h' => cases h.symm.trans h'
  next h' =>
    cases h.symm.trans h'
    rfl

/-- The loop takes the frames it delivers off the front. -/
theorem deliverLoop_frames (avail used : Nat) (flag : Bool) (k : Nat) :
    ∀ b : Bus, b.plat.net.FifoOk → k ≤ b.plat.net.fifoCount.toNat →
    fifoFrames b.plat.net = (deliverLoop avail used b k).map Delivery.frame ++
      fifoFrames (netDeliverLoop avail used b flag k).2.plat.net ∧
    (netDeliverLoop avail used b flag k).2.plat.net.FifoOk := by
  induction k generalizing flag with
  | zero => exact fun b hok _ => ⟨rfl, hok⟩
  | succ k ih =>
    intro b hok hk
    unfold netDeliverLoop
    cases hone : netDeliverOne avail used b with
    | none =>
      rw [deliverLoop_none hone]
      exact ⟨rfl, hok⟩
    | some b' =>
      rw [deliverLoop_some hone]
      obtain ⟨hframes, hok', hcount⟩ := netDeliverOne_net hone
      obtain ⟨hpop, hpopped⟩ := fifoFrames_pop hok (by omega)
      have hk' : k ≤ b'.plat.net.fifoCount.toNat := by
        rw [hcount, BitVec.toNat_sub_of_le (by rw [BitVec.le_def]; show 1 ≤ _; omega)]
        show k ≤ _ - 1
        omega
      obtain ⟨hrest, hend⟩ := ih true b' (hok' hpopped) hk'
      refine ⟨?_, hend⟩
      rw [hpop, ← hframes, hrest]
      rfl

/-- `net_deliver_rx` takes the frames it delivers off the front. -/
theorem deliveries_frames (hok : b.plat.net.FifoOk) :
    fifoFrames b.plat.net = (deliveries b).map Delivery.frame ++ fifoFrames (netDeliverRx b).plat.net ∧
      (netDeliverRx b).plat.net.FifoOk := by
  unfold deliveries netDeliverRx
  dsimp only
  split
  · exact ⟨rfl, hok⟩
  · generalize dmaPtr b _ _ = ra
    generalize dmaPtr b _ _ = ru
    cases ra with
    | none => exact ⟨rfl, hok⟩
    | some avail =>
      cases ru with
      | none => exact ⟨rfl, hok⟩
      | some used =>
        obtain ⟨h, hok'⟩ := deliverLoop_frames avail used false _ b hok (Nat.le_refl _)
        dsimp only
        split
        · exact ⟨h, hok'.head, hok'.count⟩
        · exact ⟨h, hok'⟩

end

end Quanta
