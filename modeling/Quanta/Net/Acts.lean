/-
What the stack does, flow by flow. A flow's trail is what has happened to it since it was opened:
every event, and the calls made for it. Handling an event first updates each flow for the event
itself (`Begun`: the guest's window and acknowledgement, the bytes of a host read), and then the
flow goes through a run of primitive acts (`FlowAct`), each with at most one call. What every
opening, beginning and act preserves holds of every flow at every time (`flow_inv`).
-/
import Quanta.Lib.Run
import Quanta.Net.Stack

namespace Quanta.Net

open Relation

/-! ## Packets of the guest -/

/-- The TCP segment in a frame, if the stack bridges it. -/
def segmentOf (frame : Frame) : Option Segment :=
  if frame.len < ETH_HDR ∨ frame.be16 12 ≠ ETYPE_IP then none
  else
    match parseIp frame with
    | none => none
    | some (ihl, iptotal) =>
      if frame.byte (ETH_HDR + 9) = PROTO_TCP ∧ frame.be32 (ETH_HDR + 16) ≠ gwIp then
        parseTcp frame ihl iptotal
      else none

/-- The UDP datagram in a frame, if the stack relays it. -/
def datagramOf (frame : Frame) : Option Datagram :=
  if frame.len < ETH_HDR ∨ frame.be16 12 ≠ ETYPE_IP then none
  else
    match parseIp frame with
    | none => none
    | some (ihl, iptotal) =>
      let udp := ETH_HDR + ihl
      if frame.byte (ETH_HDR + 9) = PROTO_UDP ∧ ¬ (frame.be16 (udp + 2) = 67 ∧ frame.be16 udp = 68) ∧
          frame.be32 (ETH_HDR + 16) ≠ gwIp then
        parseUdp frame ihl iptotal
      else none

/-! ## The trail of a flow -/

/-- The flow a call is made for. -/
def Call.flow : Call → Option FlowId
  | .out src _ => src.map Prod.fst
  | .openFlow i _ _ _ _ => some i
  | .send i _ _ => some i
  | .shutdown i => some i
  | .close i => some i
  | .malloc _ => none

def Call.opens (i : FlowId) : Call → Bool
  | .openFlow j _ _ _ _ => j == i
  | _ => false

/-- Every event, and the calls made for flow `i`, since it was last opened, newest first. The trail
of a flow that was opened ends with its opening call and the frame that caused it. -/
def trail (i : FlowId) : List Item → List Item
  | [] => []
  | .event e :: older => .event e :: trail i older
  | .call c :: older =>
    if c.opens i then .call c :: older.take 1
    else if c.flow = some i then .call c :: trail i older
    else trail i older

theorem trail_own {i : FlowId} {c : Call} (log : List Item) (h : c.opens i = false) (hc : c.flow = some i) :
    trail i (.call c :: log) = .call c :: trail i log := by
  simp [trail, h, hc]

theorem opens_flow {i : FlowId} {c : Call} (h : c.opens i = true) : c.flow = some i := by
  cases c <;> simp_all [Call.opens, Call.flow]

theorem trail_other {i : FlowId} {c : Call} (log : List Item) (hc : c.flow ≠ some i) :
    trail i (.call c :: log) = trail i log := by
  have h : c.opens i = false := by
    cases ho : c.opens i with
    | false => rfl
    | true => exact absurd (opens_flow ho) hc
  simp [trail, h, hc]

/-- The event being handled. -/
def current : List Item → Option Event
  | [] => none
  | .event e :: _ => some e
  | .call _ :: older => current older

def currentSegment (T : List Item) : Option Segment :=
  match current T with
  | some (.input frame) => segmentOf frame
  | _ => none

def currentDatagram (T : List Item) : Option Datagram :=
  match current T with
  | some (.input frame) => datagramOf frame
  | _ => none

/-! ## Primitive acts -/

namespace NatFlow

/-- A live TCP flow. -/
structure Tcp (f : NatFlow) : Prop where
  proto : f.proto = .tcp
  live : f.state ≠ .free

/-- What a segment's header fields do to its flow. -/
theorem heard_spec (s : Segment) (f : NatFlow) : ∃ una st,
    f.heard s = { f with guestWnd := s.guestWnd, sndUna := una, state := st } ∧
      (una = f.sndUna ∨ una = s.ack ∧ s.ack - f.sndUna ≤ f.sndNxt - f.sndUna) ∧
      (st = f.state ∨ f.state = .synrcvd ∧ st = .estab ∧ una = f.sndNxt) := by
  unfold heard
  dsimp only
  split
  next hack =>
    split
    next hest => exact ⟨s.ack, .estab, rfl, .inr ⟨rfl, hack.2⟩, .inr ⟨hest.1, rfl, hest.2.2⟩⟩
    · exact ⟨s.ack, f.state, rfl, .inr ⟨rfl, hack.2⟩, .inl rfl⟩
  · split
    next hest => exact ⟨f.sndUna, .estab, rfl, .inl rfl, .inr ⟨hest.1, rfl, hest.2.2⟩⟩
    · exact ⟨f.sndUna, f.state, rfl, .inl rfl, .inl rfl⟩

theorem Tcp.heard {f : NatFlow} (s : Segment) (h : f.Tcp) : (f.heard s).Tcp := by
  obtain ⟨una, st, he, _, hst⟩ := heard_spec s f
  rw [he]
  refine ⟨h.proto, ?_⟩
  obtain rfl | ⟨_, rfl, _⟩ := hst
  · exact h.live
  · exact nofun

theorem key_heard (s : Segment) (f : NatFlow) : (f.heard s).key = f.key := by
  obtain ⟨una, st, he, _⟩ := heard_spec s f
  rw [he]
  rfl

/-- A live UDP flow. -/
structure Udp (f : NatFlow) : Prop where
  proto : f.proto = .udp
  live : f.state ≠ .free

end NatFlow

/-- The guest's FIN, which consumes a sequence number. -/
def NatFlow.finned (f : NatFlow) : NatFlow := { f with guestFin := true, rcvNxt := f.rcvNxt + 1 }

/-- A primitive act on flow `i` with trail `T`: the call it makes, if any, and the flow after it. -/
inductive FlowAct (i : FlowId) (T : List Item) (f : NatFlow) : Option Call → NatFlow → Prop where
  | control (mac : BitVec 48) (id : BitVec 16) (flags : Byte) (ht : f.Tcp)
      (hflags : flags &&& TCP_FIN = 0 ∧ flags &&& TCP_SYN = 0) :
      FlowAct i T f (some (.out (some (i, f)) (f.segment mac id flags []))) f
  | synack (mac : BitVec 48) (id : BitVec 16) (ht : f.Tcp) (hs : f.state = .connecting) :
      FlowAct i T f (some (.out (some (i, f)) (f.synack mac id))) { f with sndNxt := f.sndNxt + 1, state := .synrcvd }
  | data (mac : BitVec 48) (id : BitVec 16) (buf : List Byte) (chunk : Nat) (ht : f.Tcp) (hs : f.state = .estab)
      (hbuf : f.h2g = some buf) (hpos : 0 < chunk) (hlen : chunk ≤ buf.length)
      (hwnd : (f.sndNxt - f.sndUna).toNat + chunk ≤ f.guestWnd.toNat) (hmss : chunk ≤ NS_TCP_MSS.toNat) :
      FlowAct i T f (some (.out (some (i, f)) (f.segment mac id TCP_ACK (buf.take chunk))))
        { f with sndNxt := f.sndNxt + BitVec.ofNat 32 chunk, h2g := some (buf.drop chunk) }
  | fin (mac : BitVec 48) (id : BitVec 16) (ht : f.Tcp) (hs : f.state = .estab) (heof : f.hostEof = true)
      (hlen : f.h2gLen = 0) (hsent : f.finSent = false) :
      FlowAct i T f (some (.out (some (i, f)) (f.segment mac id (TCP_FIN ||| TCP_ACK) [])))
        { f with sndNxt := f.sndNxt + 1, finSent := true }
  | allocG2h (ok : Bool) (ht : f.Tcp) (hnone : f.g2h = none) :
      FlowAct i T f (some (.malloc ok)) { f with g2h := if ok then some [] else none }
  | take (s : Segment) (buf : List Byte) (n : Nat) (ht : f.Tcp) (hcur : currentSegment T = some s) (hkey : s.key = f.key)
      (hs : f.state = .estab) (hseq : s.seq = f.rcvNxt) (hfin : f.guestFin = false) (hbuf : f.g2h = some buf)
      (hpos : 0 < n) (hlen : n ≤ s.payload.length) (hroom : n ≤ (NS_TCP_BUF - f.g2hLen).toNat) :
      FlowAct i T f none
        { f with g2h := some (buf ++ s.payload.take n), rcvNxt := f.rcvNxt + BitVec.ofNat 32 n }
  | guestFin (mac : BitVec 48) (id : BitVec 16) (s : Segment) (ht : f.Tcp) (hcur : currentSegment T = some s) (hkey : s.key = f.key)
      (hflag : s.has TCP_FIN) (hfin : f.guestFin = false)
      (hseq : s.seq + BitVec.ofNat 32 s.payload.length = f.rcvNxt) :
      FlowAct i T f (some (.out (some (i, f.finned)) (f.finned.segment mac id TCP_ACK [])))
        { f.finned with shutdownPending := true }
  | send (buf : List Byte) (n : Nat) (ht : f.Tcp) (hbuf : f.g2h = some buf) (hlen : n ≤ buf.length) :
      FlowAct i T f (some (.send i buf (some n))) { f with g2h := some (buf.drop n) }
  | sendFail (buf : List Byte) (ht : f.Tcp) (hbuf : f.g2h = some buf) : FlowAct i T f (some (.send i buf none)) f
  | shutdown (ht : f.Tcp) (hpend : f.shutdownPending = true) (hlen : f.g2hLen = 0) :
      FlowAct i T f (some (.shutdown i)) { f with shutdownPending := false }
  | eof (ht : f.Tcp) (hcur : current T = some (.closed (i.val : Int))) : FlowAct i T f none { f with hostEof := true }
  | udpSend (d : Datagram) (n : Option Nat) (hu : f.Udp) (hcur : currentDatagram T = some d) (hkey : d.key = f.key) :
      FlowAct i T f (some (.send i d.payload n)) f
  | udpOut (frame : List Byte) (hu : f.Udp) : FlowAct i T f (some (.out (some (i, f)) frame)) f

/-- What an act adds to the trail of its flow. -/
def ownItems : Option Call → List Item
  | none => []
  | some (.malloc _) => []
  | some c => [.call c]

@[simp] theorem current_ownItems (c : Option Call) (T : List Item) : current (ownItems c ++ T) = current T := by
  unfold ownItems
  split <;> rfl

namespace FlowAct

variable {i : FlowId} {T : List Item} {f f' : NatFlow} {c : Option Call}

theorem key (h : FlowAct i T f c f') : f'.key = f.key := by
  cases h <;> rfl

theorem proto (h : FlowAct i T f c f') : f'.proto = f.proto := by
  cases h <;> rfl

theorem live (h : FlowAct i T f c f') : f'.state ≠ .free := by
  cases h with
  | synack => exact nofun
  | udpSend d n hu => exact hu.live
  | udpOut frame hu => exact hu.live
  | _ => exact (‹f.Tcp›).live

theorem tcp (h : FlowAct i T f c f') (ht : f.Tcp) : f'.Tcp := ⟨h.proto.trans ht.proto, h.live⟩

/-- An act makes calls for its own flow only, and never opens it. -/
theorem own_call (h : FlowAct i T f c f') {d : Call} (hd : c = some d) :
    d.opens i = false ∧ (d.flow = some i ∨ ∃ ok, d = .malloc ok) := by
  cases h <;> cases hd
  case allocG2h ok _ _ => exact ⟨rfl, .inr ⟨ok, rfl⟩⟩
  all_goals exact ⟨rfl, .inl rfl⟩

theorem trail_own_act (h : FlowAct i T f c f') (log : List Item) :
    trail i ((c.map Item.call).toList ++ log) = ownItems c ++ trail i log := by
  cases c with
  | none => rfl
  | some d =>
    obtain ⟨ho, hf | ⟨ok, rfl⟩⟩ := h.own_call rfl
    · have hitems : ownItems (some d) = [.call d] := by cases d <;> first | rfl | cases hf
      rw [hitems]
      exact trail_own log ho hf
    · exact trail_other log nofun

theorem trail_other_act (h : FlowAct i T f c f') {j : FlowId} (hj : j ≠ i) (log : List Item) :
    trail j ((c.map Item.call).toList ++ log) = trail j log := by
  cases c with
  | none => rfl
  | some d =>
    obtain ⟨_, hf | ⟨ok, rfl⟩⟩ := h.own_call rfl
    · refine trail_other log ?_
      rw [hf]
      exact fun he => hj (Option.some.inj he).symm
    · exact trail_other log nofun

end FlowAct

namespace NetStack

@[simp] theorem flows_setFlow (i : FlowId) (f : NatFlow) (ns : NetStack) : (ns.setFlow i f).flows i = f :=
  Function.update_self ..

/-- The stack after an act on flow `i`. -/
def act (i : FlowId) (c : Option Call) (f : NatFlow) (id : BitVec 16) (ns : NetStack) : NetStack :=
  { ns with flows := Function.update ns.flows i f, log := (c.map Item.call).toList ++ ns.log, ipId := id }

@[simp] theorem flows_act (i : FlowId) (c : Option Call) (f : NatFlow) (id : BitVec 16) (ns : NetStack) :
    (ns.act i c f id).flows i = f := Function.update_self ..

theorem flows_act_of_ne {i j : FlowId} (h : j ≠ i) (c : Option Call) (f : NatFlow) (id : BitVec 16) (ns : NetStack) :
    (ns.act i c f id).flows j = ns.flows j := Function.update_of_ne h ..

/-- An act of flow `i`. -/
inductive Own (i : FlowId) (ns : NetStack) : NetStack → Prop where
  | act {c : Option Call} {f : NatFlow} (id : BitVec 16) (h : FlowAct i (trail i ns.log) (ns.flows i) c f) :
      Own i ns (ns.act i c f id)

/-- The end of flow `i`. -/
inductive Close (i : FlowId) (ns : NetStack) : NetStack → Prop where
  | close (h : (ns.flows i).state ≠ .free) : Close i ns (ns.act i (some (.close i)) {} ns.ipId)

/-! ## Each function of the stack as acts -/

section
variable {i : FlowId} {ns ns' : NetStack} {io : NetIo}

/-- What holds of flow `i` while the stack handles event `e` on it. -/
structure Busy (i : FlowId) (e : Event) (k : Key) (ns : NetStack) : Prop where
  tcp : (ns.flows i).Tcp
  key : (ns.flows i).key = k
  cur : current (trail i ns.log) = some e

theorem Busy.own {e : Event} {k : Key} (h : Own i ns ns') (hb : Busy i e k ns) : Busy i e k ns' := by
  obtain ⟨id, ha⟩ := h
  refine ⟨?_, ?_, ?_⟩
  · rw [flows_act]
    exact ha.tcp hb.tcp
  · rw [flows_act]
    exact ha.key.trans hb.key
  · exact (congrArg current (ha.trail_own_act ns.log)).trans ((current_ownItems _ _).trans hb.cur)

theorem Busy.run {e : Event} {k : Key} (h : ReflTransGen (Own i) ns ns') (hb : Busy i e k ns) : Busy i e k ns' :=
  Run.preserves (fun _ _ => Busy.own) h hb

/-- Acts keep a TCP flow one. -/
theorem tcp_run (h : ReflTransGen (Own i) ns ns') (ht : (ns.flows i).Tcp) : (ns'.flows i).Tcp := by
  refine Run.preserves (P := fun ns => (ns.flows i).Tcp) ?_ h ht
  rintro x _ ⟨id, ha⟩ hx
  rw [flows_act]
  exact ha.tcp hx

theorem own_of_eq {c : Option Call} {f : NatFlow} (id : BitVec 16) (h : FlowAct i (trail i ns.log) (ns.flows i) c f)
    (he : ns' = ns.act i c f id) : Own i ns ns' := he ▸ .act id h

/-- An act that leaves the flow as it is. -/
theorem act_same (c : Option Call) (id : BitVec 16) (ns : NetStack) :
    ns.act i c (ns.flows i) id = { ns with log := (c.map Item.call).toList ++ ns.log, ipId := id } := by
  unfold act
  rw [Function.update_eq_self]

theorem own_tcpOut {flags : Byte} (ht : (ns.flows i).Tcp) (hflags : flags &&& TCP_FIN = 0 ∧ flags &&& TCP_SYN = 0) :
    Own i ns (ns.tcpOut i flags []) := by
  refine own_of_eq (ns.ipId + 1) (.control ns.guestMac ns.ipId flags ht hflags) ?_
  rw [act_same]
  rfl

theorem run_flushLoop (rounds : Nat) (ht : (ns.flows i).Tcp) (hs : (ns.flows i).state = .estab) :
    ReflTransGen (Own i) ns (ns.flushLoop i rounds) := by
  induction rounds generalizing ns with
  | zero => exact .refl
  | succ rounds ih =>
    unfold flushLoop
    dsimp only
    split
    · exact .refl
    next buf hbuf =>
    split
    · exact .refl
    next hne =>
    split
    · exact .refl
    next hwnd =>
    generalize hchunk : min _ NS_TCP_MSS.toNat = chunk
    -- a round sends at least one byte, and no more than the window has room for
    have hlt : ((ns.flows i).sndNxt - (ns.flows i).sndUna).toNat < ((ns.flows i).guestWnd.setWidth 32).toNat := by
      rw [BitVec.le_def] at hwnd
      omega
    have hroom := BitVec.toNat_sub_of_le (BitVec.le_def.mpr (Nat.le_of_lt hlt))
    have hmss : NS_TCP_MSS.toNat = 1460 := rfl
    have hw : ((ns.flows i).guestWnd.setWidth 32).toNat = (ns.flows i).guestWnd.toNat :=
      BitVec.toNat_setWidth_of_le (by decide)
    have hown : Own i ns ((ns.tcpOut i TCP_ACK (buf.take chunk)).setFlow i
        { ns.flows i with sndNxt := (ns.flows i).sndNxt + BitVec.ofNat 32 chunk, h2g := some (buf.drop chunk) }) :=
      own_of_eq (ns.ipId + 1)
        (.data ns.guestMac ns.ipId buf chunk ht hs hbuf (by omega) (by omega) (by omega) (by omega)) rfl
    refine .head hown (ih ?_ ?_)
    · rw [flows_setFlow]
      exact ⟨ht.proto, ht.live⟩
    · rw [flows_setFlow]
      exact hs

theorem state_flushLoop (rounds : Nat) (hs : (ns.flows i).state = .estab) :
    ((ns.flushLoop i rounds).flows i).state = .estab := by
  induction rounds generalizing ns with
  | zero => exact hs
  | succ rounds ih =>
    unfold flushLoop
    dsimp only
    split
    · exact hs
    split
    · exact hs
    split
    · exact hs
    · refine ih ?_
      rw [flows_setFlow]
      exact hs

theorem run_tcpFlushH2g (ht : (ns.flows i).Tcp) : ReflTransGen (Own i) ns (ns.tcpFlushH2g i) := by
  unfold tcpFlushH2g
  split
  · exact .refl
  next hs =>
  have hs : (ns.flows i).state = .estab := Decidable.not_not.mp hs
  have hrun := run_flushLoop (ns.flows i).h2gBytes.length ht hs
  have hs' := state_flushLoop (ns.flows i).h2gBytes.length hs
  have ht' := tcp_run hrun ht
  dsimp only
  generalize ns.flushLoop i _ = mid at *
  split
  next hfin =>
    exact hrun.tail (own_of_eq (mid.ipId + 1) (.fin mid.guestMac mid.ipId ht' hs' hfin.1 hfin.2.1 hfin.2.2) rfl)
  · exact hrun

theorem io_run (h : ReflTransGen (Own i) ns ns') : ns'.io = ns.io := by
  refine Run.preserves (P := fun x => x.io = ns.io) ?_ h rfl
  rintro x _ ⟨id, ha⟩ hx
  exact hx

theorem flowFree_of_live (hl : (ns.flows i).state ≠ .free) (hio : ns.io = some io) :
    ns.flowFree i = ns.act i (some (.close i)) {} ns.ipId := by
  unfold flowFree
  rw [if_neg hl, hio]
  rfl

theorem close_flowFree (hl : (ns.flows i).state ≠ .free) (hio : ns.io = some io) : Close i ns (ns.flowFree i) := by
  rw [flowFree_of_live hl hio]
  exact .close hl

theorem run_drainShutdown (ht : (ns.flows i).Tcp) : ReflTransGen (Own i) ns (ns.drainShutdown i) := by
  unfold drainShutdown
  dsimp only
  split
  next h => exact .single (own_of_eq ns.ipId (.shutdown ht h.1 h.2) rfl)
  · exact .refl

/-- Acts of flow `i` that end, if the flag is down, with its end. -/
def Lasts (i : FlowId) (ns : NetStack) (r : Bool × NetStack) : Prop :=
  if r.1 then ReflTransGen (Own i) ns r.2 else ∃ mid, ReflTransGen (Own i) ns mid ∧ Close i mid r.2

theorem Lasts.after {mid : NetStack} {r : Bool × NetStack} (h : ReflTransGen (Own i) ns mid) (hr : Lasts i mid r) :
    Lasts i ns r := by
  unfold Lasts at hr ⊢
  split
  · rw [if_pos ‹_›] at hr
    exact h.trans hr
  · rw [if_neg ‹_›] at hr
    obtain ⟨m, hm, hc⟩ := hr
    exact ⟨m, h.trans hm, hc⟩

theorem lasts_tcpDrainG2h (ht : (ns.flows i).Tcp) (hio : ns.io = some io) : Lasts i ns (ns.tcpDrainG2h io i) := by
  unfold tcpDrainG2h
  dsimp only
  split
  · exact run_drainShutdown ht
  next buf hbuf =>
  split
  · exact run_drainShutdown ht
  unfold sendOn
  cases io.send ns.log i buf with
  | none =>
    have hsend : Own i ns (ns.call (.send i buf none)) := by
      refine own_of_eq ns.ipId (.sendFail buf ht hbuf) ?_
      rw [act_same]
      rfl
    have hrst := @own_tcpOut i _ TCP_RST (tcp_run (.single hsend) ht) (by decide)
    have hrun := (ReflTransGen.single hsend).tail hrst
    exact ⟨_, hrun, close_flowFree (tcp_run hrun ht).live hio⟩
  | some n =>
    have hsend : Own i ns ((ns.call (.send i buf (some n.val))).setFlow i { ns.flows i with g2h := some (buf.drop n) }) :=
      own_of_eq ns.ipId (.send buf n.val ht hbuf (Nat.le_of_lt_succ n.isLt)) rfl
    exact .head hsend (run_drainShutdown (tcp_run (.single hsend) ht))

theorem lasts_tcpMaybeClose (ht : (ns.flows i).Tcp) (hio : ns.io = some io) :
    Run.ThenMaybe (Own i) (Close i) ns (ns.tcpMaybeClose i) := by
  unfold tcpMaybeClose
  dsimp only
  split
  · exact .of_end (close_flowFree ht.live hio)
  · exact .refl _

variable {frame : Frame} {s : Segment}

theorem Busy.segment {k : Key} (hb : Busy i (.input frame) k ns) (hseg : segmentOf frame = some s) :
    currentSegment (trail i ns.log) = some s := by
  unfold currentSegment
  rw [hb.cur]
  exact hseg

theorem own_bufferG2h {buf : List Byte} {n : Nat} (hb : Busy i (.input frame) s.key ns)
    (hseg : segmentOf frame = some s) (hs : (ns.flows i).state = .estab) (hseq : s.seq = (ns.flows i).rcvNxt)
    (hfin : (ns.flows i).guestFin = false) (hbuf : (ns.flows i).g2h = some buf) (hpos : 0 < n)
    (hlen : n ≤ s.payload.length) (hroom : n ≤ (NS_TCP_BUF - (ns.flows i).g2hLen).toNat) :
    Own i ns (ns.bufferG2h i (s.payload.take n)) := by
  refine own_of_eq ns.ipId (.take s buf n hb.tcp (hb.segment hseg) hb.key.symm hs hseq hfin hbuf hpos hlen hroom) ?_
  unfold bufferG2h
  dsimp only
  rw [hbuf, List.length_take, Nat.min_eq_left hlen]
  rfl

theorem run_take {n : Nat} (io : NetIo) (hb : Busy i (.input frame) s.key ns) (hseg : segmentOf frame = some s)
    (hs : (ns.flows i).state = .estab) (hseq : s.seq = (ns.flows i).rcvNxt) (hfin : (ns.flows i).guestFin = false)
    (hpos : 0 < n) (hlen : n ≤ s.payload.length) (hroom : n ≤ (NS_TCP_BUF - (ns.flows i).g2hLen).toNat) :
    ReflTransGen (Own i) ns ((ns.allocG2h io i).bufferG2h i (s.payload.take n)) := by
  unfold allocG2h
  split
  next buf hbuf => exact .single (own_bufferG2h hb hseg hs hseq hfin hbuf hpos hlen hroom)
  next hnone =>
    dsimp only
    generalize io.malloc ns.log = ok
    have halloc : Own i ns ((ns.call (.malloc ok)).setFlow i
        { ns.flows i with g2h := if ok then some [] else none }) :=
      own_of_eq ns.ipId (.allocG2h ok hb.tcp hnone) rfl
    have hflow := flows_setFlow i { ns.flows i with g2h := if ok then some [] else none } (ns.call (.malloc ok))
    cases ok with
    | false =>
      unfold bufferG2h
      rw [hflow]
      exact .single halloc
    | true =>
      have hempty : (ns.flows i).g2hLen = 0 := by
        unfold NatFlow.g2hLen NatFlow.g2hBytes
        rw [hnone]
        rfl
      have hbuffer := @own_bufferG2h i _ frame s [] n (hb.own halloc) hseg
      rw [hflow] at hbuffer
      refine (ReflTransGen.single halloc).tail (hbuffer hs hseq hfin rfl hpos hlen ?_)
      rw [hempty] at hroom
      exact hroom

theorem lasts_tcpData (hb : Busy i (.input frame) s.key ns) (hseg : segmentOf frame = some s) (hio : ns.io = some io) :
    Lasts i ns (ns.tcpData io i s) := by
  unfold tcpData
  dsimp only
  split
  next h =>
    obtain ⟨hpos, hs, hseq, hfin⟩ := h
    generalize htake : min s.payload.length (NS_TCP_BUF - (ns.flows i).g2hLen).toNat = n
    have hrun : ReflTransGen (Own i) ns
        (if 0 < n then (ns.allocG2h io i).bufferG2h i (s.payload.take n) else ns) := by
      split
      next hn => exact run_take io hb hseg hs hseq hfin hn (by omega) (by omega)
      · exact .refl
    generalize (if 0 < n then (ns.allocG2h io i).bufferG2h i (s.payload.take n) else ns) = mid at *
    have hdrain := lasts_tcpDrainG2h (hb.run hrun).tcp ((io_run hrun).trans hio)
    generalize mid.tcpDrainG2h io i = r at *
    obtain ⟨alive, last⟩ := r
    cases alive with
    | false => exact hdrain.after hrun
    | true => exact (hrun.trans hdrain).tail (own_tcpOut (tcp_run (hrun.trans hdrain) hb.tcp) (by decide))
  next =>
    split
    · exact ReflTransGen.single (own_tcpOut hb.tcp (by decide))
    · exact ReflTransGen.refl

theorem lasts_tcpFin (hb : Busy i (.input frame) s.key ns) (hseg : segmentOf frame = some s) (hio : ns.io = some io) :
    Lasts i ns (ns.tcpFin io i s) := by
  unfold tcpFin
  dsimp only
  split
  next h =>
    obtain ⟨hflag, hfin, hseq⟩ := h
    let f := (ns.flows i).finned
    have hout : ((ns.setFlow i f).tcpOut i TCP_ACK []).flows i = f := flows_setFlow i f ns
    have hown : Own i ns (((ns.setFlow i f).tcpOut i TCP_ACK []).setFlow i { f with shutdownPending := true }) := by
      refine own_of_eq (ns.ipId + 1)
        (.guestFin ns.guestMac ns.ipId s hb.tcp (hb.segment hseg) hb.key.symm hflag hfin hseq) ?_
      unfold tcpOut
      dsimp only
      rw [flows_setFlow]
      unfold act setFlow emit call note
      simp only [Function.update_idem]
      rfl
    have hdrain := lasts_tcpDrainG2h (hb.own hown).tcp hio
    have heq : { ((ns.setFlow i f).tcpOut i TCP_ACK []).flows i with shutdownPending := true } =
        { f with shutdownPending := true } := by rw [hout]
    exact Lasts.after (.single hown) (heq ▸ hdrain)
  · exact ReflTransGen.refl

/-- A segment on a flow, once its window and acknowledgement are noted. -/
theorem runs_tcpArrive (hb : Busy i (.input frame) s.key (ns.setFlow i ((ns.flows i).heard s)))
    (hseg : segmentOf frame = some s) (hio : ns.io = some io) (hrst : s.has TCP_RST = false) :
    Run.ThenMaybe (Own i) (Close i) (ns.setFlow i ((ns.flows i).heard s)) (ns.tcpArrive io i s) := by
  unfold tcpArrive
  rw [hrst, if_neg nofun]
  have hio' : (ns.setFlow i ((ns.flows i).heard s)).io = some io := hio
  generalize ns.setFlow i ((ns.flows i).heard s) = start at *
  have hdata := lasts_tcpData hb hseg hio'
  generalize start.tcpData io i s = r at *
  obtain ⟨alive, mid⟩ := r
  cases alive with
  | false =>
    obtain ⟨m, hm, hc⟩ := hdata
    exact ⟨m, hm, .inr hc⟩
  | true =>
    have hdata : ReflTransGen (Own i) start mid := hdata
    have hmid := hb.run hdata
    have hfin := lasts_tcpFin hmid hseg ((io_run hdata).trans hio')
    dsimp only
    generalize mid.tcpFin io i s = r at *
    obtain ⟨alive, last⟩ := r
    cases alive with
    | false =>
      obtain ⟨m, hm, hc⟩ := hfin
      exact ⟨m, hdata.trans hm, .inr hc⟩
    | true =>
      have hrun := (hdata.trans hfin).trans (run_tcpFlushH2g (tcp_run hfin hmid.tcp))
      exact .after hrun (lasts_tcpMaybeClose (tcp_run hrun hb.tcp) ((io_run hrun).trans hio'))

end

/-! ## Looking flows up -/

section
variable {i : FlowId} {ns : NetStack}

theorem flowFind_some {k : Key} (h : ns.flowFind k = some i) : (ns.flows i).state ≠ .free ∧ (ns.flows i).key = k := by
  have hi := List.find?_some h
  simpa using hi

theorem flowFind_none {k : Key} (h : ns.flowFind k = none) (j : FlowId) (hl : (ns.flows j).state ≠ .free) :
    (ns.flows j).key ≠ k := by
  have hj := List.find?_eq_none.mp h j (List.mem_finRange j)
  simp only [Bool.and_eq_true, bne_iff_ne, ne_eq, beq_iff_eq, not_and] at hj
  exact hj hl

theorem flowById_some {id : Int} (h : ns.flowById id = some i) : id = (i.val : Int) ∧ (ns.flows i).state ≠ .free := by
  unfold flowById at h
  split at h
  next hid =>
    dsimp only at h
    split at h
    · cases h
    next hl =>
      cases h
      exact ⟨(Int.toNat_of_nonneg hid.1).symm, hl⟩
  · cases h

theorem flowById_none {id : Int} (h : ns.flowById id = none) (hid : id = (i.val : Int)) : (ns.flows i).state = .free := by
  subst hid
  unfold flowById at h
  have hi := i.isLt
  rw [dif_pos ⟨by omega, by omega⟩] at h
  dsimp only at h
  split at h
  · assumption
  · cases h

theorem flowAlloc_some {k : Key} {ns' : NetStack} (h : ns.flowAlloc k = some (i, ns')) :
    (ns.flows i).state = .free ∧ ns' = ns.setFlow i (.fresh k (resolve ns.upstreamDns k.ip)) := by
  unfold flowAlloc at h
  split at h
  · cases h
  next hj =>
    cases h
    have hfree := List.find?_some hj
    exact ⟨by simpa using hfree, rfl⟩

end

end NetStack
end Quanta.Net
