/-
The usermode network stack: the virtual gateway (ARP, ICMP echo, DHCP), the NAT flow table, the
UDP relay and the TCP bridge that terminates the guest's connections and streams their bytes to
and from host sockets.

The host side (`NetIo`, and `malloc`) is an oracle: each answer may depend on everything that has
happened so far. The stack keeps a log of that, newest first: the events it was given and the
calls it made.
-/
import Mathlib.Logic.Function.Basic
import Quanta.Net.Frame

namespace Quanta.Net

/-! ## Flows -/

def NS_NAT_MAX : Nat := 64

/-- A flow's index in the table, which is also its name to the backend. -/
abbrev FlowId := Fin NS_NAT_MAX

inductive TcpState where
  | free
  | connecting
  | synrcvd
  | estab
  deriving DecidableEq

/-- A NAT flow. The defaults are those of a zeroed slot; a buffer is `none` until it is allocated. -/
structure NatFlow where
  proto : Proto := .udp
  faceIp : BitVec 32 := 0
  realIp : BitVec 32 := 0
  guestPort : BitVec 16 := 0
  facePort : BitVec 16 := 0
  state : TcpState := .free
  guestFin : Bool := false
  hostEof : Bool := false
  finSent : Bool := false
  shutdownPending : Bool := false
  sndNxt : BitVec 32 := 0
  sndUna : BitVec 32 := 0
  rcvNxt : BitVec 32 := 0
  guestWnd : BitVec 16 := 0
  g2h : Option (List Byte) := none
  h2g : Option (List Byte) := none

/-- Where a flow to `ip` really connects: the virtual DNS server stands for the upstream resolver. -/
def resolve (dns ip : BitVec 32) : BitVec 32 := if ip = dnsIp then dns else ip

namespace NatFlow

/-- A slot filled for a new flow. -/
def fresh (k : Key) (realIp : BitVec 32) : NatFlow :=
  { proto := k.proto, guestPort := k.guestPort, facePort := k.port, faceIp := k.ip, realIp
    state := match k.proto with | .tcp => .connecting | .udp => .estab }

def key (f : NatFlow) : Key := ⟨f.proto, f.guestPort, f.faceIp, f.facePort⟩

def g2hBytes (f : NatFlow) : List Byte := f.g2h.getD []

def h2gBytes (f : NatFlow) : List Byte := f.h2g.getD []

def g2hLen (f : NatFlow) : BitVec 32 := BitVec.ofNat 32 f.g2hBytes.length

def h2gLen (f : NatFlow) : BitVec 32 := BitVec.ofNat 32 f.h2gBytes.length

/-- Our initial sequence number and the guest's SYN. -/
def connect (isn : BitVec 32) (s : Segment) (f : NatFlow) : NatFlow :=
  { f with sndUna := isn, sndNxt := isn, rcvNxt := s.seq + 1, guestWnd := s.guestWnd }

/-- The window, acknowledgement and handshake updates of a segment. -/
def heard (s : Segment) (f : NatFlow) : NatFlow :=
  let f := { f with guestWnd := s.guestWnd }
  let f := if s.has TCP_ACK ∧ s.ack - f.sndUna ≤ f.sndNxt - f.sndUna then { f with sndUna := s.ack } else f
  if f.state = .synrcvd ∧ s.has TCP_ACK ∧ f.sndUna = f.sndNxt then { f with state := .estab } else f

/-- How many bytes the backend may read for a live flow now. -/
def rxRoom (f : NatFlow) : BitVec 32 :=
  if f.proto = .udp then BitVec.ofNat 32 NS_MTU
  else if f.hostEof = true ∨ f.state = .free ∨ f.state = .connecting then 0
  else NS_TCP_BUF - f.h2gLen

def header (f : NatFlow) (flags : Byte) (wnd : BitVec 16) : TcpHeader :=
  { src := f.faceIp, sport := f.facePort, dport := f.guestPort, seq := f.sndNxt, ack := f.rcvNxt, flags, wnd }

/-- A segment with the flow's current sequence and acknowledgement numbers and window. -/
def segment (f : NatFlow) (mac : BitVec 48) (id : BitVec 16) (flags : Byte) (payload : List Byte) : List Byte :=
  tcpFrame mac id (f.header flags ((NS_TCP_BUF - f.g2hLen).setWidth 16)) 5 [] payload

/-- The SYN-ACK, which carries the MSS option. -/
def synack (f : NatFlow) (mac : BitVec 48) (id : BitVec 16) : List Byte :=
  tcpFrame mac id (f.header (TCP_SYN ||| TCP_ACK) (NS_TCP_BUF.setWidth 16)) 6
    ([2, 4] ++ putBe16 (NS_TCP_MSS.setWidth 16)) []

end NatFlow

/-! ## Events, calls and the log -/

/-- What the stack is told: a frame from the guest, or a host event on a flow. -/
inductive Event where
  | input (frame : Frame)
  | connected (id : Int)
  | recv (id : Int) (data : List Byte)
  | closed (id : Int)
  | reset (id : Int)
  | writable (id : Int)

/-- What the stack does to the outside. A frame built for a flow comes with the flow as it was when
the frame was built. `send` records how many bytes were accepted, `none` on a failure. -/
inductive Call where
  | out (flow : Option (FlowId × NatFlow)) (frame : List Byte)
  | openFlow (id : FlowId) (proto : Proto) (ip : BitVec 32) (port : BitVec 16) (ok : Bool)
  | send (id : FlowId) (data : List Byte) (accepted : Option Nat)
  | shutdown (id : FlowId)
  | close (id : FlowId)
  | malloc (ok : Bool)

inductive Item where
  | event (e : Event)
  | call (c : Call)

/-- The host: the socket backend and the allocator. A send accepts at most what it is given, or
fails. -/
structure NetIo where
  openFlow : List Item → FlowId → Proto → BitVec 32 → BitVec 16 → Bool
  send : List Item → FlowId → (data : List Byte) → Option (Fin (data.length + 1))
  malloc : List Item → Bool

/-- A backend that opens every flow, takes every byte and never runs out of memory. -/
def plainIo : NetIo where
  openFlow _ _ _ _ _ := true
  send _ _ data := some (Fin.last data.length)
  malloc _ := true

structure NetStack where
  guestMac : BitVec 48
  ipId : BitVec 16
  io : Option NetIo
  upstreamDns : BitVec 32
  tcpIsn : BitVec 32
  flows : FlowId → NatFlow
  log : List Item

namespace NetStack

def note (x : Item) (ns : NetStack) : NetStack := { ns with log := x :: ns.log }

def call (c : Call) (ns : NetStack) : NetStack := ns.note (.call c)

def setFlow (i : FlowId) (f : NatFlow) (ns : NetStack) : NetStack :=
  { ns with flows := Function.update ns.flows i f }

/-- Emit a frame that takes an IP identification. -/
def emit (flow : Option (FlowId × NatFlow)) (frame : List Byte) (ns : NetStack) : NetStack :=
  { ns.call (.out flow frame) with ipId := ns.ipId + 1 }

/-! ## ARP, ICMP and DHCP -/

def ownsIp (ip : BitVec 32) : Bool := ip == gwIp || ip == dnsIp

def handleArp (frame : Frame) (ns : NetStack) : NetStack :=
  let a := ETH_HDR
  if frame.len < ETH_HDR + 28 then ns
  else if frame.be16 a ≠ 1 ∨ frame.be16 (a + 2) ≠ ETYPE_IP then ns
  else if frame.byte (a + 4) ≠ 6 ∨ frame.byte (a + 5) ≠ 4 then ns
  else if frame.be16 (a + 6) ≠ 1 then ns
  else if ownsIp (frame.be32 (a + 24)) then
    ns.call (.out none (arpReply (frame.be48 (a + 8)) (frame.be32 (a + 14)) (frame.be32 (a + 24))))
  else ns

def handleIcmp (frame : Frame) (ihl iptotal : Nat) (ns : NetStack) : NetStack :=
  let icmp := ETH_HDR + ihl
  if iptotal < ihl + 8 then ns
  else if frame.byte icmp ≠ 8 ∨ frame.byte (icmp + 1) ≠ 0 then ns
  else if frame.be32 (ETH_HDR + 16) ≠ gwIp then ns
  else if NS_MTU - ETH_HDR - 20 < iptotal - ihl then ns
  else ns.emit none
    (icmpReply (frame.be48 6) ns.ipId (frame.be32 (ETH_HDR + 12)) (frame.slice icmp (iptotal - ihl)))

/-- The DHCP message type option of the `len` option bytes at `opt`, from index `i`; 0 if there is
none. Every round consumes an option byte, so `len` rounds suffice. -/
def dhcpMsgtype (frame : Frame) (opt len : Nat) : Nat → Nat → Byte
  | 0, _ => 0
  | rounds + 1, i =>
    if len ≤ i then 0
    else
      let code := frame.byte (opt + i)
      if code = 0 then dhcpMsgtype frame opt len rounds (i + 1)
      else if code = 255 then 0
      else if len ≤ i + 1 then 0
      else
        let l := (frame.byte (opt + i + 1)).toNat
        if len < i + 2 + l then 0
        else if code = 53 ∧ 1 ≤ l then frame.byte (opt + i + 2)
        else dhcpMsgtype frame opt len rounds (i + 2 + l)

def handleDhcp (frame : Frame) (udpoff udpTotal : Nat) (ns : NetStack) : NetStack :=
  let dhcp := udpoff + 8
  if udpTotal < 8 + 240 then ns
  else if frame.be32 (dhcp + 236) ≠ dhcpMagic then ns
  else
    let reply (replyType : Byte) := ns.emit none
      (dhcpReply ns.ipId replyType (frame.be32 (dhcp + 4)) (frame.be16 (dhcp + 10)) (frame.be48 (dhcp + 28)))
    let optLen := udpTotal - 8 - 240
    match dhcpMsgtype frame (dhcp + 240) optLen optLen 0 with
    | 1#8 => reply 2
    | 3#8 => reply 5
    | _ => ns

/-! ## The flow table -/

def flowFind (k : Key) (ns : NetStack) : Option FlowId :=
  (List.finRange NS_NAT_MAX).find? fun i => (ns.flows i).state != .free && (ns.flows i).key == k

/-- The first free slot, filled for `k`. -/
def flowAlloc (k : Key) (ns : NetStack) : Option (FlowId × NetStack) :=
  match (List.finRange NS_NAT_MAX).find? fun i => (ns.flows i).state == .free with
  | none => none
  | some i => some (i, ns.setFlow i (.fresh k (resolve ns.upstreamDns k.ip)))

def flowFree (i : FlowId) (ns : NetStack) : NetStack :=
  if (ns.flows i).state = .free then ns
  else (if ns.io.isSome then ns.call (.close i) else ns).setFlow i {}

/-! ## UDP -/

/-- Deliver a datagram from the host to the guest, cut to what a frame holds. -/
def udpToGuest (i : FlowId) (data : List Byte) (ns : NetStack) : NetStack :=
  let f := ns.flows i
  ns.emit (some (i, f))
    (udpFrame ns.guestMac ns.ipId f.faceIp f.facePort f.guestPort (data.take (NS_MTU - ETH_HDR - 20 - 8)))

/-- Open `i` at the backend for the remote port. -/
def openFlow (io : NetIo) (i : FlowId) (port : BitVec 16) (ns : NetStack) : Bool × NetStack :=
  let f := ns.flows i
  let ok := io.openFlow ns.log i f.proto f.realIp port
  (ok, ns.call (.openFlow i f.proto f.realIp port ok))

def sendOn (io : NetIo) (i : FlowId) (data : List Byte) (ns : NetStack) : Option Nat × NetStack :=
  let n := (io.send ns.log i data).map Fin.val
  (n, ns.call (.send i data n))

def udpNat (io : NetIo) (d : Datagram) (ns : NetStack) : NetStack :=
  match ns.flowFind d.key with
  | some i => (ns.sendOn io i d.payload).2
  | none =>
    match ns.flowAlloc d.key with
    | none => ns
    | some (i, ns) =>
      match ns.openFlow io i d.dport with
      | (false, ns) => ns.flowFree i
      | (true, ns) => (ns.sendOn io i d.payload).2

/-! ## TCP -/

def tcpOut (i : FlowId) (flags : Byte) (payload : List Byte) (ns : NetStack) : NetStack :=
  let f := ns.flows i
  ns.emit (some (i, f)) (f.segment ns.guestMac ns.ipId flags payload)

def tcpSynack (i : FlowId) (ns : NetStack) : NetStack :=
  let f := ns.flows i
  ns.emit (some (i, f)) (f.synack ns.guestMac ns.ipId)

/-- The sending loop of `tcp_flush_h2g`. Each round sends at least one byte, so `h2g_len` rounds
suffice. -/
def flushLoop (i : FlowId) : Nat → NetStack → NetStack
  | 0, ns => ns
  | rounds + 1, ns =>
    let f := ns.flows i
    match f.h2g with
    | none => ns
    | some buf =>
      let inflight := f.sndNxt - f.sndUna
      let wnd := f.guestWnd.setWidth 32
      if buf.length = 0 then ns
      else if wnd ≤ inflight then ns
      else
        let chunk := min (min buf.length (wnd - inflight).toNat) NS_TCP_MSS.toNat
        flushLoop i rounds ((ns.tcpOut i TCP_ACK (buf.take chunk)).setFlow i
          { f with sndNxt := f.sndNxt + BitVec.ofNat 32 chunk, h2g := some (buf.drop chunk) })

/-- Push buffered host bytes as far as the window allows, then the FIN if the host is done. -/
def tcpFlushH2g (i : FlowId) (ns : NetStack) : NetStack :=
  if (ns.flows i).state ≠ .estab then ns
  else
    let ns := ns.flushLoop i (ns.flows i).h2gBytes.length
    let f := ns.flows i
    if f.hostEof = true ∧ f.h2gLen = 0 ∧ f.finSent = false then
      (ns.tcpOut i (TCP_FIN ||| TCP_ACK) []).setFlow i { f with sndNxt := f.sndNxt + 1, finSent := true }
    else ns

/-- Honour a pending half-close once the buffer is empty. -/
def drainShutdown (i : FlowId) (ns : NetStack) : NetStack :=
  let f := ns.flows i
  if f.shutdownPending = true ∧ f.g2hLen = 0 then
    (ns.call (.shutdown i)).setFlow i { f with shutdownPending := false }
  else ns

/-- Drain buffered guest bytes to the host. `false` if a failed send tore the flow down. -/
def tcpDrainG2h (io : NetIo) (i : FlowId) (ns : NetStack) : Bool × NetStack :=
  let f := ns.flows i
  match f.g2h with
  | none => (true, ns.drainShutdown i)
  | some buf =>
    if buf.length = 0 then (true, ns.drainShutdown i)
    else
      match ns.sendOn io i buf with
      | (none, ns) => (false, (ns.tcpOut i TCP_RST []).flowFree i)
      | (some n, ns) => (true, (ns.setFlow i { f with g2h := some (buf.drop n) }).drainShutdown i)

/-- Tear down once both directions are closed and nothing is left to deliver. -/
def tcpMaybeClose (i : FlowId) (ns : NetStack) : NetStack :=
  let f := ns.flows i
  if f.guestFin = true ∧ f.finSent = true ∧ f.g2hLen = 0 ∧ f.h2gLen = 0 then ns.flowFree i else ns

/-- A new connection. The SYN-ACK waits for the host to connect. -/
def tcpConnect (io : NetIo) (s : Segment) (ns : NetStack) : NetStack :=
  match ns.flowAlloc s.key with
  | none => ns
  | some (i, ns) =>
    let isn := ns.tcpIsn + 0x1000
    let ns := { ns with tcpIsn := isn }.setFlow i
      ((ns.flows i).connect isn s)
    match ns.openFlow io i s.dport with
    | (false, ns) => (ns.tcpOut i (TCP_RST ||| TCP_ACK) []).flowFree i
    | (true, ns) => ns

/-- The guest's buffer, allocated if need be. -/
def allocG2h (io : NetIo) (i : FlowId) (ns : NetStack) : NetStack :=
  match (ns.flows i).g2h with
  | some _ => ns
  | none =>
    let ok := io.malloc ns.log
    (ns.call (.malloc ok)).setFlow i { ns.flows i with g2h := if ok then some [] else none }

/-- Take bytes of the guest into its buffer, if there is one. -/
def bufferG2h (i : FlowId) (bytes : List Byte) (ns : NetStack) : NetStack :=
  let f := ns.flows i
  match f.g2h with
  | none => ns
  | some buf => ns.setFlow i { f with g2h := some (buf ++ bytes), rcvNxt := f.rcvNxt + BitVec.ofNat 32 bytes.length }

/-- The payload of a segment: taken if it is the next expected, else acknowledged again. -/
def tcpData (io : NetIo) (i : FlowId) (s : Segment) (ns : NetStack) : Bool × NetStack :=
  let f := ns.flows i
  let plen := s.payload.length
  if 0 < plen ∧ f.state = .estab ∧ s.seq = f.rcvNxt ∧ f.guestFin = false then
    let take := min plen (NS_TCP_BUF - f.g2hLen).toNat
    let ns := if 0 < take then (ns.allocG2h io i).bufferG2h i (s.payload.take take) else ns
    match ns.tcpDrainG2h io i with
    | (false, ns) => (false, ns)
    | (true, ns) => (true, ns.tcpOut i TCP_ACK [])
  else if 0 < plen ∧ s.seq ≠ f.rcvNxt then (true, ns.tcpOut i TCP_ACK [])
  else (true, ns)

/-- The FIN of a segment, once everything before it has been taken. -/
def tcpFin (io : NetIo) (i : FlowId) (s : Segment) (ns : NetStack) : Bool × NetStack :=
  let f := ns.flows i
  if s.has TCP_FIN ∧ f.guestFin = false ∧ s.seq + BitVec.ofNat 32 s.payload.length = f.rcvNxt then
    let ns := (ns.setFlow i { f with guestFin := true, rcvNxt := f.rcvNxt + 1 }).tcpOut i TCP_ACK []
    (ns.setFlow i { ns.flows i with shutdownPending := true }).tcpDrainG2h io i
  else (true, ns)

/-- A segment on a flow. -/
def tcpArrive (io : NetIo) (i : FlowId) (s : Segment) (ns : NetStack) : NetStack :=
  if s.has TCP_RST then ns.flowFree i
  else
    match (ns.setFlow i ((ns.flows i).heard s)).tcpData io i s with
    | (false, ns) => ns
    | (true, ns) =>
      match ns.tcpFin io i s with
      | (false, ns) => ns
      | (true, ns) => (ns.tcpFlushH2g i).tcpMaybeClose i

def handleTcp (io : NetIo) (s : Segment) (ns : NetStack) : NetStack :=
  match ns.flowFind s.key with
  | some i => ns.tcpArrive io i s
  | none => if s.has TCP_SYN then ns.tcpConnect io s else ns

/-! ## IPv4 dispatch -/

def handleUdp (frame : Frame) (ihl iptotal : Nat) (ns : NetStack) : NetStack :=
  let udp := ETH_HDR + ihl
  if iptotal < ihl + 8 then ns
  else if frame.be16 (udp + 2) = 67 ∧ frame.be16 udp = 68 then ns.handleDhcp frame udp (iptotal - ihl)
  else if frame.be32 (ETH_HDR + 16) ≠ gwIp then
    match ns.io, parseUdp frame ihl iptotal with
    | some io, some d => ns.udpNat io d
    | _, _ => ns
  else ns

def handleIp (frame : Frame) (ns : NetStack) : NetStack :=
  match parseIp frame with
  | none => ns
  | some (ihl, iptotal) =>
    let proto := frame.byte (ETH_HDR + 9)
    if proto = PROTO_ICMP then ns.handleIcmp frame ihl iptotal
    else if proto = PROTO_UDP then ns.handleUdp frame ihl iptotal
    else if proto = PROTO_TCP ∧ frame.be32 (ETH_HDR + 16) ≠ gwIp then
      match ns.io, parseTcp frame ihl iptotal with
      | some io, some s => ns.handleTcp io s
      | _, _ => ns
    else ns

def netstackInput (frame : Frame) (ns : NetStack) : NetStack :=
  if frame.len < ETH_HDR then ns
  else
    let ns := { ns with guestMac := frame.be48 6 }
    let etype := frame.be16 12
    if etype = ETYPE_ARP then ns.handleArp frame
    else if etype = ETYPE_IP then ns.handleIp frame
    else ns

/-! ## Host events -/

/-- The live flow of an id the backend names. -/
def flowById (id : Int) (ns : NetStack) : Option FlowId :=
  if h : 0 ≤ id ∧ id < NS_NAT_MAX then
    let i : FlowId := ⟨id.toNat, by omega⟩
    if (ns.flows i).state = .free then none else some i
  else none

def netstackHostConnected (id : Int) (ns : NetStack) : NetStack :=
  match ns.flowById id with
  | none => ns
  | some i =>
    let f := ns.flows i
    if f.proto ≠ .tcp ∨ f.state ≠ .connecting then ns
    else (ns.tcpSynack i).setFlow i { f with sndNxt := f.sndNxt + 1, state := .synrcvd }

/-- The host's buffer, allocated if need be. -/
def allocH2g (io : NetIo) (i : FlowId) (ns : NetStack) : NetStack :=
  match (ns.flows i).h2g with
  | some _ => ns
  | none =>
    let ok := io.malloc ns.log
    (ns.call (.malloc ok)).setFlow i { ns.flows i with h2g := if ok then some [] else none }

/-- Buffer bytes of the host and flush them within the guest's window. -/
def bufferH2g (i : FlowId) (bytes : List Byte) (ns : NetStack) : NetStack :=
  let f := ns.flows i
  match f.h2g with
  | none => ns
  | some buf => (ns.setFlow i { f with h2g := some (buf ++ bytes) }).tcpFlushH2g i

def netstackHostRecv (io : NetIo) (id : Int) (data : List Byte) (ns : NetStack) : NetStack :=
  match ns.flowById id with
  | none => ns
  | some i =>
    let f := ns.flows i
    if data.length = 0 then ns
    else if f.proto = .udp then ns.udpToGuest i data
    else
      let bytes := data.take (NS_TCP_BUF - f.h2gLen).toNat
      if bytes.length = 0 then ns else (ns.allocH2g io i).bufferH2g i bytes

def netstackHostClosed (id : Int) (ns : NetStack) : NetStack :=
  match ns.flowById id with
  | none => ns
  | some i =>
    let f := ns.flows i
    if f.proto = .udp then ns.flowFree i
    else ((ns.setFlow i { f with hostEof := true }).tcpFlushH2g i).tcpMaybeClose i

def netstackHostReset (id : Int) (ns : NetStack) : NetStack :=
  match ns.flowById id with
  | none => ns
  | some i =>
    let f := ns.flows i
    (if f.proto = .tcp ∧ f.finSent = false then ns.tcpOut i (TCP_RST ||| TCP_ACK) [] else ns).flowFree i

def netstackHostWritable (io : NetIo) (id : Int) (ns : NetStack) : NetStack :=
  match ns.flowById id with
  | none => ns
  | some i =>
    let before := (ns.flows i).g2hLen
    if (ns.flows i).proto ≠ .tcp then ns
    else
      match ns.tcpDrainG2h io i with
      | (false, ns) => ns
      | (true, ns) => (if (ns.flows i).g2hLen < before then ns.tcpOut i TCP_ACK [] else ns).tcpMaybeClose i

/-- How many bytes the backend may read for a flow now. -/
def netstackRxRoom (id : Int) (ns : NetStack) : BitVec 32 :=
  match ns.flowById id with
  | none => 0
  | some i => (ns.flows i).rxRoom

/-! ## Life of a stack -/

def netstackNew : NetStack :=
  { guestMac := 0, ipId := 1, io := none, upstreamDns := dnsIp, tcpIsn := 0x8000, flows := fun _ => {}, log := [] }

def netstackSetIo (io : NetIo) (dns : BitVec 32) (ns : NetStack) : NetStack :=
  { ns with io := some io, upstreamDns := dns }

/-- Close every flow that is still open. -/
def netstackFree (ns : NetStack) : NetStack := (List.finRange NS_NAT_MAX).foldl (fun ns i => ns.flowFree i) ns

/-- One event, with the backend's answers. -/
def handle (io : NetIo) (e : Event) (ns : NetStack) : NetStack :=
  match e with
  | .input frame => ns.netstackInput frame
  | .connected id => ns.netstackHostConnected id
  | .recv id data => ns.netstackHostRecv io id data
  | .closed id => ns.netstackHostClosed id
  | .reset id => ns.netstackHostReset id
  | .writable id => ns.netstackHostWritable io id

def step (io : NetIo) (ns : NetStack) (e : Event) : NetStack := (ns.note (.event e)).handle io e

/-- The stack after a sequence of events, attached to a backend and an upstream resolver. -/
def run (io : NetIo) (dns : BitVec 32) (es : List Event) : NetStack :=
  es.foldl (step io) (netstackNew.netstackSetIo io dns)

end NetStack
end Quanta.Net
