/-
The network stack bridged to the network device as `main.c` does it: a frame the stack emits goes
to `plat_net_rx`, whose answer is ignored, and a frame the guest transmits goes to `netstack_input`.
The composition is synchronous. Its trace says what was handed to the device, what was delivered to
guest memory and when the device was reset, each with the bus before it. A frame has arrived when
guest memory, read along the chain it was delivered to, holds it.
-/
import Quanta.Device.Fifo
import Quanta.Net.Runs

namespace Quanta.Net

open Lib

/-! ## Frames the stack emits -/

/-- A frame of the stack, with the flow it was built for. -/
abbrev Handed := Option (FlowId × NatFlow) × List Byte

/-- A frame of a TCP flow. -/
def Handed.tcp (x : Handed) : Bool :=
  match x.1 with
  | some (_, f) => f.proto == .tcp
  | none => false

/-- The frames emitted, oldest first. -/
def handed : List Item → List Handed
  | [] => []
  | .call (.out flow frame) :: older => handed older ++ [(flow, frame)]
  | _ :: older => handed older

theorem handed_append (L L' : List Item) : handed (L ++ L') = handed L' ++ handed L := by
  induction L with
  | nil => exact (List.append_nil _).symm
  | cons x L ih =>
    cases x with
    | event e => exact ih
    | call c =>
      cases c with
      | out flow frame =>
        show handed (L ++ L') ++ _ = handed L' ++ (handed L ++ _)
        rw [ih, List.append_assoc]
      | _ => exact ih

/-! ## The composition -/

/-- Something that happens to the device's receive side. -/
inductive Moment where
  | offer (x : Handed) (b : Bus)
  | deliver (d : Delivery)
  | reset

structure Link where
  ns : NetStack
  bus : Bus
  trace : List Moment

namespace Link

/-- `net_deliver_to_guest`: hand a frame to the device. -/
def netDeliverToGuest (l : Link) (x : Handed) : Link :=
  { l with
    bus := (platNetRx l.bus x.2).2
    trace := l.trace ++ .offer x l.bus ::
      match netFifoPush l.bus.plat.net x.2 with
      | none => []
      | some n => (deliveries (l.bus.setNet n)).map .deliver }

/-- The stack handles an event, and the device gets the frames it emits meanwhile. -/
def event (io : NetIo) (l : Link) (e : Event) : Link :=
  let ns := l.ns.step io e
  (handed (ns.log.take (ns.log.length - l.ns.log.length))).foldl netDeliverToGuest { l with ns }

/-- `net_backend_tx`: the stack gets a frame of the guest. -/
def netBackendTx (io : NetIo) (l : Link) (frame : List Byte) : Link := l.event io (.input (.ofList frame))

/-- The end of a round of `net_process_tx`: complete the chain and move on. -/
def txDone (used num : Nat) (head : BitVec 16) (b : Bus) : Bus :=
  let b := b.setRam (usedPush b.mem.data used num head 0)
  let n := b.plat.net
  let q := n.vq VIRTIO_NET_TXQ
  b.setNet (n.setVq VIRTIO_NET_TXQ { q with lastAvail := q.lastAvail + 1 })

/-- One round of `net_process_tx` with the stack as backend. -/
def netProcessTxOne (io : NetIo) (avail used : Nat) (l : Link) : Link :=
  let q := l.bus.plat.net.vq VIRTIO_NET_TXQ
  let head := ld16 l.bus.mem.data (avail + 4 + (q.lastAvail.toNat % q.num.toNat) * 2)
  let chain := vqChain l.bus q.descAddr q.num head
  let buf := netGather l.bus (VIRTIO_NET_HDR_LEN + VIRTIO_NET_FRAME_MAX) chain []
  let l := if VIRTIO_NET_HDR_LEN < buf.length then l.netBackendTx io (buf.drop VIRTIO_NET_HDR_LEN) else l
  { l with bus := txDone used q.num.toNat head l.bus }

def netProcessTxLoop (io : NetIo) (avail used : Nat) (l : Link) : Nat → Link
  | 0 => l
  | k + 1 => netProcessTxLoop io avail used (l.netProcessTxOne io avail used) k

/-- `net_process_tx` with the stack as backend. -/
def netProcessTx (io : NetIo) (l : Link) : Link :=
  let q := l.bus.plat.net.vq VIRTIO_NET_TXQ
  if q.ready = 0 ∨ q.num = 0 ∨ V_QUEUE_MAX < q.num.toNat then l
  else
    match dmaPtr l.bus q.availAddr (4 + q.num.setWidth 64 * 2),
          dmaPtr l.bus q.usedAddr (4 + q.num.setWidth 64 * 8) with
    | some avail, some used =>
      let count := (ld16 l.bus.mem.data (avail + 2) - q.lastAvail).toNat
      let l := netProcessTxLoop io avail used l count
      let n := l.bus.plat.net
      if 0 < count then { l with bus := l.bus.setNet { n with interruptStatus := n.interruptStatus ||| 1 } } else l
    | _, _ => l

/-- `virtio_net_write` with the stack as backend. -/
def virtioNetWrite (io : NetIo) (l : Link) (off val : BitVec 32) : Link :=
  if off = 0x050 ∧ val.toNat = VIRTIO_NET_TXQ then l.netProcessTx io
  else
    { l with
      bus := Quanta.virtioNetWrite l.bus off val
      trace := l.trace ++
        if off = 0x050 ∧ val.toNat = VIRTIO_NET_RXQ then (deliveries l.bus).map .deliver
        else if off = 0x070 ∧ val = 0 then [.reset]
        else [] }

end Link

/-- What can happen to the pair: an event of the stack, a store that leaves `data` in RAM, a write to
a register of the device. -/
inductive LinkEvent where
  | host (e : Event)
  | ram (data : Nat → Byte)
  | reg (off val : BitVec 32)

namespace Link

def step (io : NetIo) (l : Link) : LinkEvent → Link
  | .host e => l.event io e
  | .ram data => { l with bus := l.bus.setRam data }
  | .reg off val => l.virtioNetWrite io off val

/-- A loaded machine with memory `mem` and a new stack. -/
def start (io : NetIo) (dns : BitVec 32) (mem : Memory) : Link where
  ns := NetStack.netstackNew.netstackSetIo io dns
  bus := { mem, plat := platAttachRam platInit mem.base mem.size, out := [] }
  trace := []

def run (io : NetIo) (dns : BitVec 32) (mem : Memory) (es : List LinkEvent) : Link := es.foldl (step io) (start io dns mem)

end Link

/-! ## The link as a queue -/

/-- What a moment does to the frames under way. -/
def Moment.move : Moment → Move Handed
  | .offer x b => .offer x (platNetRx b x.2).1
  | .deliver d => .deliver fun x => d.holds x.2
  | .reset => .clear

/-- The frames under way after some moments: those that wait in the device, those that guest memory
held after their delivery, and those lost. -/
def underWay (trace : List Moment) : Lossy Handed := ({} : Lossy Handed).moves (trace.map Moment.move)

def Link.frames (l : Link) : Lossy Handed := underWay l.trace

/-- A delivery takes the frame that waits longest. -/
def Moment.Takes (q : Lossy Handed) : Moment → Prop
  | .deliver d => ∀ x ∈ q.waiting.head?, x.2 = d.frame
  | _ => True

/-- Every delivery of some moments does, with `q` under way before them. -/
def Follows (q : Lossy Handed) : List Moment → Prop
  | [] => True
  | m :: ms => m.Takes q ∧ Follows (q.move m.move) ms

theorem follows_append {q : Lossy Handed} {ms ms' : List Moment} :
    Follows q (ms ++ ms') ↔ Follows q ms ∧ Follows (q.moves (ms.map Moment.move)) ms' := by
  induction ms generalizing q with
  | nil => exact (true_and _).to_iff.symm
  | cons m ms ih => exact (and_congr_right fun _ => ih).trans and_assoc.symm

theorem follows_deliver (ds : List Delivery) {q : Lossy Handed} {rest : List (List Byte)}
    (h : q.waiting.map Prod.snd = ds.map Delivery.frame ++ rest) : Follows q (ds.map .deliver) := by
  induction ds generalizing q with
  | nil => trivial
  | cons d ds ih =>
    obtain ⟨x, w, hw, hx, hrest⟩ := List.map_eq_cons_iff.mp h
    refine ⟨?_, ih ?_⟩
    · intro y hy
      rw [hw] at hy
      cases hy
      exact hx
    · rw [Moment.move, Lossy.waiting_deliver_one, hw]
      exact hrest

/-- The device's ring holds the frames that wait, and they were delivered in order. -/
structure Link.Carries (l : Link) : Prop where
  ring : l.bus.plat.net.FifoOk
  waiting : l.frames.waiting.map Prod.snd = fifoFrames l.bus.plat.net
  follows : Follows {} l.trace

namespace Link

variable {l l' : Link}

theorem frames_append (ms : List Moment) (h : l'.trace = l.trace ++ ms) :
    l'.frames = l.frames.moves (ms.map Moment.move) := by
  unfold frames underWay
  rw [h, List.map_append, Lossy.moves_append]

theorem map_deliver (ds : List Delivery) :
    (ds.map Moment.deliver).map Moment.move = (ds.map fun d (x : Handed) => d.holds x.2).map Move.deliver := by
  rw [List.map_map, List.map_map]
  rfl

/-- A change that leaves the FIFO alone. -/
theorem Carries.same (h : l.Carries) (ht : l'.trace = l.trace) (hc : l'.bus.plat.net.fifoCount = l.bus.plat.net.fifoCount)
    (hh : l'.bus.plat.net.fifoHead = l.bus.plat.net.fifoHead) (hf : l'.bus.plat.net.fifo = l.bus.plat.net.fifo) :
    l'.Carries := by
  have hframes : l'.frames = l.frames := by
    unfold frames
    rw [ht]
  refine ⟨⟨hh ▸ h.ring.head, hc ▸ h.ring.count⟩, ?_, ht ▸ h.follows⟩
  rw [hframes, h.waiting]
  unfold fifoFrames
  rw [hc, hh, hf]

/-- `net_deliver_rx` takes off the ring what the trace says it delivers. -/
theorem Carries.deliver (h : l.Carries) (hb : l'.bus = netDeliverRx l.bus)
    (ht : l'.trace = l.trace ++ (deliveries l.bus).map .deliver) : l'.Carries := by
  obtain ⟨hframes, hok⟩ := deliveries_frames h.ring
  refine ⟨hb ▸ hok, ?_, ?_⟩
  · rw [frames_append _ ht, map_deliver, Lossy.waiting_deliver, List.map_drop, h.waiting, hframes, hb, List.length_map]
    exact List.drop_left' (List.length_map _)
  · rw [ht]
    exact follows_append.mpr ⟨h.follows, follows_deliver _ (h.waiting.trans hframes)⟩

theorem Carries.offer (h : l.Carries) (x : Handed) : (l.netDeliverToGuest x).Carries := by
  cases hp : netFifoPush l.bus.plat.net x.2 with
  | none =>
    have hrx : platNetRx l.bus x.2 = (false, l.bus) := by
      unfold platNetRx
      rw [hp]
    have ht : (l.netDeliverToGuest x).trace = l.trace ++ [.offer x l.bus] := by
      unfold netDeliverToGuest
      rw [hp]
    have hb : (l.netDeliverToGuest x).bus = l.bus := congrArg Prod.snd hrx
    have hmove : Moment.move (.offer x l.bus) = .offer x false := congrArg (Move.offer x) (congrArg Prod.fst hrx)
    refine ⟨hb ▸ h.ring, ?_, by rw [ht]; exact follows_append.mpr ⟨h.follows, trivial, trivial⟩⟩
    rw [frames_append _ ht, hb, List.map_singleton, hmove]
    exact h.waiting
  | some n =>
    have hrx : platNetRx l.bus x.2 = (true, netDeliverRx (l.bus.setNet n)) := by
      unfold platNetRx
      rw [hp]
    have ht : (l.netDeliverToGuest x).trace = l.trace ++ .offer x l.bus :: (deliveries (l.bus.setNet n)).map .deliver := by
      unfold netDeliverToGuest
      rw [hp]
    have hmove : Moment.move (.offer x l.bus) = .offer x true := congrArg (Move.offer x) (congrArg Prod.fst hrx)
    obtain ⟨hpush, hok⟩ := fifoFrames_push h.ring hp
    -- the state between the push and the deliveries
    have hmid : Carries { l with bus := l.bus.setNet n, trace := l.trace ++ [.offer x l.bus] } := by
      refine ⟨hok, ?_, follows_append.mpr ⟨h.follows, trivial, trivial⟩⟩
      rw [frames_append _ rfl, List.map_singleton, hmove]
      show (l.frames.waiting ++ [x]).map Prod.snd = fifoFrames n
      rw [List.map_append, h.waiting, hpush]
      rfl
    refine hmid.deliver (congrArg Prod.snd hrx) ?_
    rw [ht, List.append_assoc]
    rfl

/-- A reset empties the ring. -/
theorem Carries.reset (h : l.Carries) (hb : l'.bus.plat.net = netReset l.bus.plat.net)
    (ht : l'.trace = l.trace ++ [.reset]) : l'.Carries := by
  refine ⟨?_, ?_, by rw [ht]; exact follows_append.mpr ⟨h.follows, trivial, trivial⟩⟩
  · rw [hb]
    exact ⟨(by decide : (0#32).toNat < VIRTIO_NET_FIFO), (by decide : (0#32).toNat ≤ VIRTIO_NET_FIFO)⟩
  · rw [frames_append _ ht, hb]
    rfl

/-! ## Every run of the link -/

/-- What holds throughout: the stack has run, everything it emitted was handed over in order, and the
ring holds what waits. -/
structure Sound (io : NetIo) (dns : BitVec 32) (l : Link) : Prop where
  stack : ∃ es, l.ns = NetStack.run io dns es
  offered : Lossy.offered (l.trace.map Moment.move) = handed l.ns.log
  carries : l.Carries

theorem offered_offer (l : Link) (x : Handed) : Lossy.offered ((l.netDeliverToGuest x).trace.map Moment.move) =
    Lossy.offered (l.trace.map Moment.move) ++ [x] := by
  unfold netDeliverToGuest
  dsimp only
  rw [List.map_append, Lossy.offered_append, List.map_cons]
  congr 1
  refine congrArg (x :: ·) ?_
  split
  · rfl
  · rw [map_deliver]
    exact Lossy.offered_deliver _

theorem fold_offer (xs : List Handed) (h : l.Carries) :
    let l' := xs.foldl netDeliverToGuest l
    l'.Carries ∧ l'.ns = l.ns ∧
      Lossy.offered (l'.trace.map Moment.move) = Lossy.offered (l.trace.map Moment.move) ++ xs := by
  induction xs generalizing l with
  | nil => exact ⟨h, rfl, (List.append_nil _).symm⟩
  | cons x xs ih =>
    obtain ⟨h1, h2, h3⟩ := ih (h.offer x)
    refine ⟨h1, h2, h3.trans ?_⟩
    rw [offered_offer, List.append_assoc]
    rfl

variable {io : NetIo} {dns : BitVec 32}

theorem Sound.event (h : Sound io dns l) (e : Event) : Sound io dns (l.event io e) := by
  obtain ⟨es, hes⟩ := h.stack
  have hgrow : l.ns.log <:+ (l.ns.step io e).log := hes ▸ NetStack.log_suffix_step (NetStack.ready_run es) e
  obtain ⟨new, hnew⟩ := hgrow
  have htake : (l.ns.step io e).log.take ((l.ns.step io e).log.length - l.ns.log.length) = new := by
    rw [← hnew, List.length_append, Nat.add_sub_cancel]
    exact List.take_left' rfl
  have hmid : Carries { l with ns := l.ns.step io e } := ⟨h.carries.ring, h.carries.waiting, h.carries.follows⟩
  unfold Link.event
  dsimp only
  rw [htake]
  obtain ⟨h1, h2, h3⟩ := fold_offer (handed new) hmid
  refine ⟨⟨es ++ [e], ?_⟩, ?_, h1⟩
  · rw [h2, NetStack.run_append, ← hes]
  · rw [h3, h2]
    show Lossy.offered (l.trace.map Moment.move) ++ handed new = handed (l.ns.step io e).log
    rw [h.offered, ← hnew, handed_append]

/-- A change that leaves the stack, the trace and the FIFO alone. -/
theorem Sound.same (h : Sound io dns l) (hn : l'.ns = l.ns) (ht : l'.trace = l.trace)
    (hc : l'.bus.plat.net.fifoCount = l.bus.plat.net.fifoCount) (hh : l'.bus.plat.net.fifoHead = l.bus.plat.net.fifoHead)
    (hf : l'.bus.plat.net.fifo = l.bus.plat.net.fifo) : Sound io dns l' :=
  ⟨hn ▸ h.stack, by rw [ht, hn, h.offered], h.carries.same ht hc hh hf⟩

theorem Sound.netProcessTxOne (h : Sound io dns l) (avail used : Nat) : Sound io dns (l.netProcessTxOne io avail used) := by
  unfold Link.netProcessTxOne
  dsimp only
  split
  · exact (h.event _).same rfl rfl rfl rfl rfl
  · exact h.same rfl rfl rfl rfl rfl

theorem Sound.netProcessTxLoop (avail used k : Nat) (h : Sound io dns l) :
    Sound io dns (l.netProcessTxLoop io avail used k) := by
  induction k generalizing l with
  | zero => exact h
  | succ k ih => exact ih (h.netProcessTxOne avail used)

theorem Sound.netProcessTx (h : Sound io dns l) : Sound io dns (l.netProcessTx io) := by
  unfold Link.netProcessTx
  dsimp only
  split
  · exact h
  · generalize dmaPtr l.bus _ _ = ra
    generalize dmaPtr l.bus _ _ = ru
    cases ra with
    | none => exact h
    | some avail =>
      cases ru with
      | none => exact h
      | some used =>
        have hloop := h.netProcessTxLoop avail used
          (ld16 l.bus.mem.data (avail + 2) - (l.bus.plat.net.vq VIRTIO_NET_TXQ).lastAvail).toNat
        dsimp only
        split
        · exact hloop.same rfl rfl rfl rfl rfl
        · exact hloop

/-- A register write other than a notification or a reset leaves the FIFO alone. -/
theorem virtioNetWrite_fifo (b : Bus) {off val : BitVec 32} (hn : off ≠ 0x050) (hr : ¬(off = 0x070 ∧ val = 0)) :
    let n := (Quanta.virtioNetWrite b off val).plat.net
    n.fifoCount = b.plat.net.fifoCount ∧ n.fifoHead = b.plat.net.fifoHead ∧ n.fifo = b.plat.net.fifo := by
  have hsel : ∀ f, (b.setSelectedVq f).plat.net.fifoCount = b.plat.net.fifoCount ∧
      (b.setSelectedVq f).plat.net.fifoHead = b.plat.net.fifoHead ∧
      (b.setSelectedVq f).plat.net.fifo = b.plat.net.fifo := by
    intro f
    unfold Bus.setSelectedVq
    dsimp only
    split <;> exact ⟨rfl, rfl, rfl⟩
  unfold Quanta.virtioNetWrite
  dsimp only
  split
  case h_6 h => exact absurd (BitVec.eq_of_toNat_eq h) hn
  case h_8 h =>
    have hval : val ≠ 0 := fun hv => hr ⟨BitVec.eq_of_toNat_eq h, hv⟩
    rw [if_neg hval]
    exact ⟨rfl, rfl, rfl⟩
  all_goals first
    | exact hsel _
    | exact ⟨rfl, rfl, rfl⟩

theorem Sound.virtioNetWrite (h : Sound io dns l) (off val : BitVec 32) : Sound io dns (l.virtioNetWrite io off val) := by
  unfold Link.virtioNetWrite
  split
  · exact h.netProcessTx
  next htx =>
  by_cases hn : off = 0x050
  · subst hn
    by_cases hrx : val.toNat = VIRTIO_NET_RXQ
    · have hb : Quanta.virtioNetWrite l.bus 0x050 val = netDeliverRx l.bus := by
        show (if _ then _ else _) = _
        rw [if_neg (fun hv => htx ⟨rfl, hv⟩), if_pos hrx]
      rw [if_pos ⟨rfl, hrx⟩]
      refine ⟨h.stack, ?_, h.carries.deliver hb rfl⟩
      rw [List.map_append, map_deliver, Lossy.offered_append, Lossy.offered_deliver, List.append_nil]
      exact h.offered
    · have hb : Quanta.virtioNetWrite l.bus 0x050 val = l.bus := by
        show (if _ then _ else _) = _
        rw [if_neg (fun hv => htx ⟨rfl, hv⟩), if_neg hrx]
      rw [if_neg (fun hv => hrx hv.2), if_neg (fun hv => absurd hv.1 (by decide)), List.append_nil, hb]
      exact h
  · rw [if_neg (fun hv => hn hv.1)]
    by_cases hr : off = 0x070 ∧ val = 0
    · rw [if_pos hr]
      obtain ⟨rfl, rfl⟩ := hr
      refine ⟨h.stack, ?_, h.carries.reset rfl rfl⟩
      rw [List.map_append, Lossy.offered_append]
      exact (List.append_nil _).trans h.offered
    · rw [if_neg hr, List.append_nil]
      obtain ⟨hc, hh, hf⟩ := virtioNetWrite_fifo l.bus hn hr
      exact h.same rfl rfl hc hh hf

theorem sound_run (io : NetIo) (dns : BitVec 32) (mem : Memory) (es : List LinkEvent) :
    Sound io dns (run io dns mem es) := by
  unfold run
  have hstart : Sound io dns (start io dns mem) :=
    ⟨⟨[], rfl⟩, rfl, ⟨⟨by show (0#32).toNat < _; decide, by show (0#32).toNat ≤ _; decide⟩, rfl, trivial⟩⟩
  generalize start io dns mem = l at hstart
  induction es generalizing l with
  | nil => exact hstart
  | cons e es ih =>
    refine ih _ ?_
    cases e with
    | host e => exact hstart.event e
    | ram data => exact hstart.same rfl rfl rfl rfl rfl
    | reg off val => exact hstart.virtioNetWrite off val

end Link

/-! ## Frames of TCP flows fit the device -/

/-- The device takes frames of this length. -/
def Fitting (x : Handed) : Prop := x.tcp = true → 0 < x.2.length ∧ x.2.length ≤ VIRTIO_NET_FRAME_MAX

theorem fitting_tcpFrame (flow : Option (FlowId × NatFlow)) (mac : BitVec 48) (id : BitVec 16) (h : TcpHeader) (words : Byte)
    {options payload : List Byte} (hlen : options.length + payload.length ≤ 1546) :
    Fitting (flow, tcpFrame mac id h words options payload) := by
  intro _
  have hmax : VIRTIO_NET_FRAME_MAX = 1600 := rfl
  show 0 < (tcpFrame mac id h words options payload).length ∧ (tcpFrame mac id h words options payload).length ≤ _
  rw [length_tcpFrame]
  exact ⟨by omega, by omega⟩

theorem FlowAct.fitting {i : FlowId} {T : List Item} {f f' : NatFlow} {flow : Option (FlowId × NatFlow)} {frame : List Byte}
    (h : FlowAct i T f (some (.out flow frame)) f') : Fitting (flow, frame) := by
  cases h with
  | data mac id buf chunk ht hs hbuf hpos hlen hwnd hchunk =>
    have hmss : NS_TCP_MSS.toNat = 1460 := rfl
    have htake : (buf.take chunk).length ≤ chunk := List.length_take_le ..
    exact fitting_tcpFrame _ mac id _ 5 (by show 0 + (buf.take chunk).length ≤ _; omega)
  | synack mac id ht hs => exact fitting_tcpFrame _ mac id _ 6 (by show 4 + 0 ≤ 1546; decide)
  | udpOut frame hu =>
    intro ht
    have hp : f.proto = .tcp := eq_of_beq ht
    cases hp.symm.trans hu.proto
  | control mac id | fin mac id | guestFin mac id => exact fitting_tcpFrame _ mac id _ 5 (Nat.zero_le _)

/-- Every frame of a TCP flow fits the device. -/
theorem handed_fitting (io : NetIo) (dns : BitVec 32) (es : List Event) :
    ∀ x ∈ handed (NetStack.run io dns es).log, Fitting x := by
  refine NetStack.run_inv (J := fun ns => ∀ x ∈ handed ns.log, Fitting x) (fun _ h => nomatch h) ?_ ?_ es
  · intro ns start e _ hb h
    obtain hlog | ⟨ok, hlog⟩ := hb.log
    · exact hlog ▸ h
    · exact hlog ▸ h
  · intro ns ns' _ ha h
    cases ha with
    | mac m => exact h
    | gateway frame id =>
      intro x hx
      rcases List.mem_append.mp hx with hx | hx
      · exact h x hx
      · obtain rfl := List.mem_singleton.mp hx
        exact nofun
    | opened i e older k f isn ok =>
      rw [NetStack.log_openedAs]
      exact h
    | own i ho =>
      obtain @⟨c, f, id, hact⟩ := ho
      cases c with
      | none => exact h
      | some c =>
        cases c with
        | out flow frame =>
          intro x hx
          rcases List.mem_append.mp hx with hx | hx
          · exact h x hx
          · obtain rfl := List.mem_singleton.mp hx
            exact hact.fitting
        | _ => exact h
    | close i hc =>
      obtain ⟨_⟩ := hc
      exact h

/-! ## When the link loses nothing -/

/-- A moment that does no harm to a TCP flow, with `q` under way: the FIFO has a free cell for its
frame, the chain its frame is written to has room for header and frame in RAM, and the device is
not reset while a frame of it waits. -/
def Moment.Roomy (q : Lossy Handed) : Moment → Prop
  | .offer x b => x.tcp = true → b.plat.net.fifoCount.toNat < VIRTIO_NET_FIFO
  | .deliver d => ∀ x ∈ q.waiting.head?, x.tcp = true → VIRTIO_NET_HDR_LEN + x.2.length ≤ chainRoom d.bus d.chain
  | .reset => ∀ x ∈ q.waiting, x.tcp = false

/-- The driver posts buffers that meet neither each other nor the used ring. -/
def Moment.Separate : Moment → Prop
  | .deliver d => d.Separate
  | _ => True

instance : (m : Moment) → Decidable m.Separate
  | .deliver d => inferInstanceAs (Decidable d.Separate)
  | .offer .. | .reset => .isTrue trivial

theorem platNetRx_accepts (b : Bus) (frame : List Byte) : (platNetRx b frame).1 = (netFifoPush b.plat.net frame).isSome := by
  unfold platNetRx
  cases netFifoPush b.plat.net frame <;> rfl

theorem Moment.keeps_iff {q : Lossy Handed} {m : Moment} (hm : ∀ x b, m = .offer x b → Fitting x) (hs : m.Separate)
    (ht : m.Takes q) : q.Keeps Handed.tcp m.move ↔ m.Roomy q := by
  cases m with
  | offer x b =>
    show (x.tcp = true → (platNetRx b x.2).1 = true) ↔ (x.tcp = true → _)
    rw [platNetRx_accepts, netFifoPush_isSome]
    exact forall_congr' fun ht => and_iff_right (hm x b rfl ht)
  | deliver d =>
    show (∀ x ∈ q.waiting.head?, x.tcp = true → d.holds x.2 = true) ↔ _
    refine forall₂_congr fun x hx => forall_congr' fun _ => ?_
    rw [ht x hx]
    exact Delivery.holds_iff hs
  | reset => exact Iff.rfl

theorem mem_offered {x : Handed} {b : Bus} {trace : List Moment} (h : Moment.offer x b ∈ trace) :
    x ∈ Lossy.offered (trace.map Moment.move) := by
  obtain ⟨pre, post, rfl⟩ := List.append_of_mem h
  rw [List.map_append, Lossy.offered_append]
  exact List.mem_append_right _ List.mem_cons_self

/-- The frames of TCP flows were all found in guest memory on delivery or wait in the device. -/
def Link.Lossless (l : Link) : Prop :=
  (l.frames.arrived ++ l.frames.waiting).filter Handed.tcp = (handed l.ns.log).filter Handed.tcp

/-- What waits is what the device's FIFO holds. Under a driver whose receive buffers are apart, the link
is lossless for TCP flows exactly while every moment has room. -/
theorem link_lossless_iff (io : NetIo) (dns : BitVec 32) (mem : Memory) (es : List LinkEvent) :
    let l := Link.run io dns mem es
    l.frames.waiting.map Prod.snd = fifoFrames l.bus.plat.net ∧
      ((∀ m ∈ l.trace, m.Separate) →
        (l.Lossless ↔ ∀ pre m post, l.trace = pre ++ m :: post → m.Roomy (underWay pre))) := by
  intro l
  have hs : l.Sound io dns := Link.sound_run io dns mem es
  obtain ⟨hes, hrun⟩ := hs.stack
  have hfit : ∀ x b, Moment.offer x b ∈ l.trace → Fitting x := by
    intro x b hx
    refine handed_fitting io dns hes x ?_
    rw [← hrun, ← hs.offered]
    exact mem_offered hx
  refine ⟨hs.carries.waiting, fun hsep => ?_⟩
  have hkeeps : ∀ pre m post, l.trace = pre ++ m :: post →
      ((underWay pre).Keeps Handed.tcp m.move ↔ m.Roomy (underWay pre)) := by
    intro pre m post htrace
    have hmem : m ∈ l.trace := by
      rw [htrace]
      exact List.mem_append_right _ List.mem_cons_self
    have hfollows := hs.carries.follows
    rw [htrace] at hfollows
    refine Moment.keeps_iff ?_ (hsep m hmem) (follows_append.mp hfollows).2.1
    rintro x b rfl
    exact hfit x b hmem
  unfold Link.Lossless Link.frames
  rw [← hs.offered]
  unfold underWay
  rw [Lossy.lossless_iff]
  constructor
  · intro h pre m post htrace
    refine (hkeeps pre m post htrace).mp (h _ m.move (post.map Moment.move) ?_)
    rw [htrace, List.map_append]
    rfl
  · intro h pre m post hmoves
    obtain ⟨pre', rest, htrace, rfl, hrest⟩ := List.map_eq_append_iff.mp hmoves
    obtain ⟨m', post', rfl, rfl, -⟩ := List.map_eq_cons_iff.mp hrest
    exact (hkeeps pre' m' post' htrace).mpr (h pre' m' post' htrace)

/-- Memory with two transmit descriptors, a SYN from port 40000 to port 80 of 1.2.3.4 and the ACK
that completes its handshake; the first `posted` of them are made available. -/
def twoSegments (posted : Byte) : Nat → Byte :=
  let segment (flags : Byte) (seq ack : BitVec 32) : List Byte :=
    List.replicate 12 0 ++
      guestBytes { dst := 0x01020304, sport := 40000, dport := 80, seq, ack, flags, wnd := 0xffff, payload := [] }
  let ram := writeBytes (fun _ => 0) 0 [0x00, 0x04, 0x00, 0x80, 0, 0, 0, 0, 66, 0, 0, 0, 0, 0, 0, 0]
  let ram := writeBytes ram 16 [0x00, 0x05, 0x00, 0x80, 0, 0, 0, 0, 66, 0, 0, 0, 0, 0, 0, 0]
  let ram := writeBytes ram 0x100 [0, 0, posted, 0, 0, 0, 1, 0]
  let ram := writeBytes ram 0x400 (segment TCP_SYN 7 0)
  writeBytes ram 0x500 (segment TCP_ACK 8 0x9001)

def smallMemory : Memory where
  data _ := 0
  base := 0x80000000
  size := 0x1000
  fault := false
  faultAddr := 0
  plat := true

/-- A driver's writes that make queue `q` ready, with two descriptors. -/
def setUpQueue (q desc avail used : BitVec 32) : List LinkEvent :=
  [.reg 0x030 q, .reg 0x038 2, .reg 0x080 desc, .reg 0x090 avail, .reg 0x0a0 used, .reg 0x044 1]

/-- Memory with a receive buffer of 256 bytes, made available. -/
def withBuffer (ram : Nat → Byte) : Nat → Byte :=
  let ram := writeBytes ram 0x600 [0x00, 0x08, 0x00, 0x80, 0, 0, 0, 0, 0, 1, 0, 0, 2, 0, 0, 0]
  writeBytes ram 0x640 [0, 0, 1, 0, 0, 0]

/-- A guest with a receive buffer opens a connection. -/
def quickReader : List LinkEvent :=
  .ram (withBuffer (twoSegments 1)) :: setUpQueue 0 0x80000600 0x80000640 0x80000680 ++
    setUpQueue 1 0x80000000 0x80000100 0x80000200 ++ [.reg 0x050 1, .host (.connected 0)]

/-- The SYN-ACK is found in the buffer. -/
theorem posted_buffer_lossless_iff :
    let l := Link.run plainIo dnsIp smallMemory quickReader
    l.frames.arrived.length = 1 ∧ (∀ m ∈ l.trace, m.Separate) ∧
      (l.Lossless ↔ ∀ pre m post, l.trace = pre ++ m :: post → m.Roomy (underWay pre)) := by
  intro l
  have hsep : ∀ m ∈ l.trace, m.Separate := by decide +kernel
  exact ⟨by decide +kernel, hsep, (link_lossless_iff plainIo dnsIp smallMemory quickReader).2 hsep⟩

/-- A guest that posts no receive buffer opens a connection, and the host sends it 16 bytes one by
one. -/
def slowReader : List LinkEvent :=
  .ram (twoSegments 1) :: setUpQueue 1 0x80000000 0x80000100 0x80000200 ++
    [.reg 0x050 1, .host (.connected 0), .ram (twoSegments 2), .reg 0x050 1] ++
    List.replicate 16 (.host (.recv 0 [0x41]))

/-- The SYN-ACK and 15 bytes fill the FIFO; the last byte leaves the flow's buffer and is refused. -/
theorem full_fifo_loses : ¬(Link.run plainIo dnsIp smallMemory slowReader).Lossless := by
  intro h
  have hlen := congrArg List.length h
  revert hlen
  decide +kernel

end Quanta.Net
