/-
Every frame the stack hands out is a valid packet, over whole sessions: whatever the guest sends and
the host does, before a backend is attached and after. What one function of the stack hands out is a
frame of one of five builders, for the MAC the stack has learned (`Emits`); the flow a frame belongs
to still has the key of the packet that opened it.
-/
import Quanta.Net.Packet
import Quanta.Net.Runs

namespace Quanta.Net

open Relation

/-! ## What is handed out -/

/-- A frame of one of the stack's builders, for a guest with address `mac`. -/
inductive Built (mac : BitVec 48) : Option (FlowId × NatFlow) → List Byte → Prop where
  | arp (sha : BitVec 48) (spa tpa : BitVec 32) : Built mac none (arpReply sha spa tpa)
  | icmp (id : BitVec 16) (src : BitVec 32) (icmp : List Byte) (hmin : 8 ≤ icmp.length) (hmax : icmp.length ≤ 1566) :
      Built mac none (icmpReply mac id src icmp)
  | dhcp (id : BitVec 16) (replyType : Byte) (xid : BitVec 32) (flags : BitVec 16) (chaddr : BitVec 48) :
      Built mac none (dhcpReply id replyType xid flags chaddr)
  | udp (i : FlowId) (f : NatFlow) (id : BitVec 16) (data : List Byte) (hmax : data.length ≤ 1558) :
      Built mac (some (i, f)) (udpFrame mac id f.faceIp f.facePort f.guestPort data)
  | tcp (i : FlowId) (f : NatFlow) (id : BitVec 16) (flags : Byte) (wnd : BitVec 16) (words : Byte)
      (options payload : List Byte) (hmax : options.length + payload.length ≤ 1546) :
      Built mac (some (i, f)) (tcpFrame mac id (f.header flags wnd) words options payload)

namespace NetStack

/-- `ns'` is reached from `ns` by calls to the outside, and every frame among them was built for the
guest `ns` knows. -/
structure Emits (ns ns' : NetStack) : Prop where
  mac : ns'.guestMac = ns.guestMac
  calls : ∃ calls : List Call, ns'.log = calls.map Item.call ++ ns.log ∧
    ∀ flow frame, Call.out flow frame ∈ calls → Built ns.guestMac flow frame

section
variable {ns ns' ns'' : NetStack} {io : NetIo} {i : FlowId} (s : Segment)

theorem Emits.refl (ns : NetStack) : Emits ns ns := ⟨rfl, [], rfl, fun _ _ h => nomatch h⟩

theorem Emits.trans (h : Emits ns ns') (h' : Emits ns' ns'') : Emits ns ns'' := by
  obtain ⟨hmac, calls, hlog, hbuilt⟩ := h
  obtain ⟨hmac', calls', hlog', hbuilt'⟩ := h'
  refine ⟨hmac'.trans hmac, calls' ++ calls, ?_, fun flow frame hmem => ?_⟩
  · rw [hlog', hlog, List.map_append, List.append_assoc]
  · rcases List.mem_append.mp hmem with hmem | hmem
    · rw [← hmac]
      exact hbuilt' flow frame hmem
    · exact hbuilt flow frame hmem

/-- What neither the log nor the MAC shows. -/
theorem Emits.silent (hmac : ns'.guestMac = ns.guestMac) (hlog : ns'.log = ns.log) : Emits ns ns' :=
  ⟨hmac, [], hlog, fun _ _ h => nomatch h⟩

theorem Emits.call {c : Call} (hmac : ns'.guestMac = ns.guestMac) (hlog : ns'.log = .call c :: ns.log)
    (hc : ∀ flow frame, c = .out flow frame → Built ns.guestMac flow frame) : Emits ns ns' := by
  refine ⟨hmac, [c], hlog, fun flow frame hmem => hc flow frame ?_⟩
  exact (List.mem_singleton.mp hmem).symm

theorem emits_quiet {c : Call} (hc : ∀ flow frame, c ≠ .out flow frame) : Emits ns (ns.call c) :=
  .call rfl rfl fun flow frame he => absurd he (hc flow frame)

theorem emits_setFlow (f : NatFlow) : Emits ns (ns.setFlow i f) := .silent rfl rfl

theorem Emits.setFlow (h : Emits ns ns') (f : NatFlow) : Emits ns (ns'.setFlow i f) := h.trans (emits_setFlow f)

theorem emits_flowFree : Emits ns (ns.flowFree i) := by
  unfold flowFree
  split
  · exact .refl ns
  · refine Emits.setFlow ?_ _
    split
    · exact emits_quiet fun _ _ h => nomatch h
    · exact .refl ns

theorem emits_sendOn (data : List Byte) : Emits ns (ns.sendOn io i data).2 := emits_quiet fun _ _ h => nomatch h

theorem emits_openFlow (port : BitVec 16) : Emits ns (ns.openFlow io i port).2 := emits_quiet fun _ _ h => nomatch h

theorem emits_flowAlloc {k : Key} (h : ns.flowAlloc k = some (i, ns')) : Emits ns ns' := by
  obtain ⟨_, rfl⟩ := flowAlloc_some h
  exact emits_setFlow _

theorem emits_tcpOut (flags : Byte) {payload : List Byte} (h : payload.length ≤ 1460) :
    Emits ns (ns.tcpOut i flags payload) := by
  refine .call rfl rfl fun flow frame he => ?_
  cases he
  exact .tcp i (ns.flows i) ns.ipId flags _ 5 [] payload (by change 0 + payload.length ≤ 1546; omega)

theorem emits_control (flags : Byte) : Emits ns (ns.tcpOut i flags []) := emits_tcpOut flags (Nat.zero_le _)

theorem emits_tcpSynack : Emits ns (ns.tcpSynack i) := by
  refine .call rfl rfl fun flow frame he => ?_
  cases he
  exact .tcp i (ns.flows i) ns.ipId _ _ 6 _ [] (by decide : 4 + 0 ≤ 1546)

theorem emits_udpToGuest (data : List Byte) : Emits ns (ns.udpToGuest i data) := by
  refine .call rfl rfl fun flow frame he => ?_
  cases he
  exact .udp i (ns.flows i) ns.ipId _ (List.length_take_le ..)

/-! ## Function by function -/

theorem emits_udpNat (d : Datagram) : Emits ns (ns.udpNat io d) := by
  unfold udpNat
  split
  · exact emits_sendOn d.payload
  · split
    · exact .refl ns
    next j mid halloc =>
    have hopen : Emits ns (mid.openFlow io j d.dport).2 := (emits_flowAlloc halloc).trans (emits_openFlow d.dport)
    split
    next last he =>
      rw [he] at hopen
      exact hopen.trans emits_flowFree
    next last he =>
      rw [he] at hopen
      exact hopen.trans (emits_sendOn d.payload)

theorem emits_flushLoop (rounds : Nat) (ns : NetStack) : Emits ns (ns.flushLoop i rounds) := by
  induction rounds generalizing ns with
  | zero => exact .refl ns
  | succ rounds ih =>
    unfold flushLoop
    dsimp only
    split
    · exact .refl ns
    next buf hbuf =>
    split
    · exact .refl ns
    split
    · exact .refl ns
    · refine Emits.trans (Emits.setFlow (emits_tcpOut TCP_ACK ?_) _) (ih _)
      -- a chunk is never longer than the MSS
      have hmss : NS_TCP_MSS.toNat = 1460 := rfl
      exact Nat.le_trans (List.length_take_le ..) (Nat.le_trans (Nat.min_le_right ..) (Nat.le_of_eq hmss))

theorem emits_tcpFlushH2g (ns : NetStack) : Emits ns (ns.tcpFlushH2g i) := by
  unfold tcpFlushH2g
  split
  · exact .refl ns
  · dsimp only
    have hloop := @emits_flushLoop i (ns.flows i).h2gBytes.length ns
    generalize ns.flushLoop i _ = mid at *
    split
    · exact hloop.trans ((emits_control _).setFlow _)
    · exact hloop

theorem emits_drainShutdown (ns : NetStack) : Emits ns (ns.drainShutdown i) := by
  unfold drainShutdown
  dsimp only
  split
  · refine Emits.setFlow (emits_quiet ?_) _
    exact fun _ _ h => nomatch h
  · exact .refl ns

theorem emits_tcpDrainG2h (ns : NetStack) : Emits ns (ns.tcpDrainG2h io i).2 := by
  unfold tcpDrainG2h
  dsimp only
  split
  · exact emits_drainShutdown ns
  next buf hbuf =>
  split
  · exact emits_drainShutdown ns
  have hsend := @emits_sendOn ns io i buf
  split
  next last he =>
    rw [he] at hsend
    exact (hsend.trans (emits_control TCP_RST)).trans emits_flowFree
  next n last he =>
    rw [he] at hsend
    exact (hsend.setFlow _).trans (emits_drainShutdown _)

theorem emits_tcpMaybeClose (ns : NetStack) : Emits ns (ns.tcpMaybeClose i) := by
  unfold tcpMaybeClose
  dsimp only
  split
  · exact emits_flowFree
  · exact .refl ns

theorem emits_allocG2h (ns : NetStack) : Emits ns (ns.allocG2h io i) := by
  unfold allocG2h
  split
  · exact .refl ns
  · refine Emits.setFlow (emits_quiet ?_) _
    exact fun _ _ h => nomatch h

theorem emits_bufferG2h (bytes : List Byte) (ns : NetStack) : Emits ns (ns.bufferG2h i bytes) := by
  unfold bufferG2h
  dsimp only
  split
  · exact .refl ns
  · exact emits_setFlow _

theorem emits_tcpData (ns : NetStack) : Emits ns (ns.tcpData io i s).2 := by
  unfold tcpData
  dsimp only
  split
  · have htake : Emits ns (if 0 < min s.payload.length (NS_TCP_BUF - (ns.flows i).g2hLen).toNat then
        (ns.allocG2h io i).bufferG2h i (s.payload.take (min s.payload.length (NS_TCP_BUF - (ns.flows i).g2hLen).toNat))
      else ns) := by
      split
      · exact (emits_allocG2h ns).trans (emits_bufferG2h _ _)
      · exact .refl ns
    generalize (if 0 < min s.payload.length (NS_TCP_BUF - (ns.flows i).g2hLen).toNat then _ else ns) = mid at *
    have hdrain := htake.trans (@emits_tcpDrainG2h io i mid)
    split
    next last he =>
      rw [he] at hdrain
      exact hdrain
    next last he =>
      rw [he] at hdrain
      exact hdrain.trans (emits_control TCP_ACK)
  · split
    · exact emits_control TCP_ACK
    · exact .refl ns

theorem emits_tcpFin (ns : NetStack) : Emits ns (ns.tcpFin io i s).2 := by
  unfold tcpFin
  dsimp only
  split
  · refine Emits.trans ?_ (emits_tcpDrainG2h _)
    refine Emits.setFlow ?_ _
    exact (emits_setFlow _).trans (emits_control TCP_ACK)
  · exact .refl ns

theorem emits_tcpArrive (ns : NetStack) : Emits ns (ns.tcpArrive io i s) := by
  unfold tcpArrive
  split
  · exact emits_flowFree
  · have hdata := (@emits_setFlow ns i ((ns.flows i).heard s)).trans (@emits_tcpData io i s _)
    split
    next last he =>
      rw [he] at hdata
      exact hdata
    next mid he =>
      rw [he] at hdata
      have hfin := hdata.trans (@emits_tcpFin io i s mid)
      split
      next last he' =>
        rw [he'] at hfin
        exact hfin
      next last he' =>
        rw [he'] at hfin
        exact (hfin.trans (emits_tcpFlushH2g last)).trans (emits_tcpMaybeClose _)

theorem emits_tcpConnect (ns : NetStack) : Emits ns (ns.tcpConnect io s) := by
  unfold tcpConnect
  split
  · exact .refl ns
  next j mid halloc =>
  dsimp only
  generalize mid.tcpIsn + 0x1000 = isn
  have hset : Emits ns ({ mid with tcpIsn := isn }.setFlow j ((mid.flows j).connect isn s)) :=
    (emits_flowAlloc halloc).trans (.silent rfl rfl)
  have hopen := hset.trans (@emits_openFlow _ io j s.dport)
  split
  next last he =>
    rw [he] at hopen
    exact (hopen.trans (emits_control _)).trans emits_flowFree
  next last he =>
    rw [he] at hopen
    exact hopen

theorem emits_handleTcp (ns : NetStack) : Emits ns (ns.handleTcp io s) := by
  unfold handleTcp
  split
  · exact emits_tcpArrive s ns
  · split
    · exact emits_tcpConnect s ns
    · exact .refl ns

theorem emits_handleArp (frame : Frame) (ns : NetStack) : Emits ns (ns.handleArp frame) := by
  unfold handleArp
  dsimp only
  split
  · exact .refl ns
  split
  · exact .refl ns
  split
  · exact .refl ns
  split
  · exact .refl ns
  split
  · refine .call rfl rfl fun flow out he => ?_
    cases he
    exact .arp ..
  · exact .refl ns

theorem emits_handleIcmp {frame : Frame} (ihl iptotal : Nat) (hmac : ns.guestMac = frame.be48 6) :
    Emits ns (ns.handleIcmp frame ihl iptotal) := by
  unfold handleIcmp
  dsimp only
  split
  · exact .refl ns
  next hmin =>
  split
  · exact .refl ns
  split
  · exact .refl ns
  split
  · exact .refl ns
  next hmax =>
    have hbound : NS_MTU - ETH_HDR - 20 = 1566 := rfl
    rw [hbound] at hmax
    refine .call rfl rfl fun flow out he => ?_
    cases he
    rw [← hmac]
    refine .icmp ns.ipId _ _ ?_ ?_
    · rw [Frame.length_slice]
      omega
    · rw [Frame.length_slice]
      omega

theorem emits_handleDhcp (frame : Frame) (udpoff udpTotal : Nat) (ns : NetStack) :
    Emits ns (ns.handleDhcp frame udpoff udpTotal) := by
  have hreply : ∀ replyType, Emits ns (ns.emit none (dhcpReply ns.ipId replyType (frame.be32 (udpoff + 8 + 4))
      (frame.be16 (udpoff + 8 + 10)) (frame.be48 (udpoff + 8 + 28)))) := by
    intro replyType
    refine .call rfl rfl fun flow out he => ?_
    cases he
    exact .dhcp ..
  unfold handleDhcp
  dsimp only
  split
  · exact .refl ns
  split
  · exact .refl ns
  split
  · exact hreply 2
  · exact hreply 5
  · exact .refl ns

theorem emits_handleUdp (frame : Frame) (ihl iptotal : Nat) (ns : NetStack) :
    Emits ns (ns.handleUdp frame ihl iptotal) := by
  unfold handleUdp
  dsimp only
  split
  · exact .refl ns
  split
  · exact emits_handleDhcp frame _ _ ns
  split
  · split
    · exact emits_udpNat _
    · exact .refl ns
  · exact .refl ns

theorem emits_handleIp {frame : Frame} (hmac : ns.guestMac = frame.be48 6) : Emits ns (ns.handleIp frame) := by
  unfold handleIp
  split
  · exact .refl ns
  next ihl iptotal _ =>
  dsimp only
  split
  · exact emits_handleIcmp ihl iptotal hmac
  split
  · exact emits_handleUdp frame ihl iptotal ns
  split
  · split
    · exact emits_handleTcp _ ns
    · exact .refl ns
  · exact .refl ns

/-- A frame with a whole Ethernet header, once its source is learned. -/
theorem emits_netstackInput {frame : Frame} (hlen : ETH_HDR ≤ frame.len) :
    Emits { ns with guestMac := frame.be48 6 } (ns.netstackInput frame) := by
  unfold netstackInput
  rw [if_neg (Nat.not_lt.mpr hlen)]
  dsimp only
  split
  · exact emits_handleArp frame _
  split
  · exact emits_handleIp rfl
  · exact .refl _

theorem emits_netstackHostConnected (id : Int) : Emits ns (ns.netstackHostConnected id) := by
  unfold netstackHostConnected
  split
  · exact .refl ns
  · dsimp only
    split
    · exact .refl ns
    · exact Emits.setFlow emits_tcpSynack _

theorem emits_netstackHostRecv (id : Int) (data : List Byte) : Emits ns (ns.netstackHostRecv io id data) := by
  unfold netstackHostRecv
  split
  · exact .refl ns
  next j _ =>
  dsimp only
  split
  · exact .refl ns
  split
  · exact emits_udpToGuest data
  split
  · exact .refl ns
  · have halloc : Emits ns (ns.allocH2g io j) := by
      unfold allocH2g
      split
      · exact .refl ns
      · refine Emits.setFlow (emits_quiet ?_) _
        exact fun _ _ h => nomatch h
    refine halloc.trans ?_
    unfold bufferH2g
    dsimp only
    split
    · exact .refl _
    · exact (emits_setFlow _).trans (emits_tcpFlushH2g _)

theorem emits_netstackHostClosed (id : Int) : Emits ns (ns.netstackHostClosed id) := by
  unfold netstackHostClosed
  split
  · exact .refl ns
  · dsimp only
    split
    · exact emits_flowFree
    · exact ((emits_setFlow _).trans (emits_tcpFlushH2g _)).trans (emits_tcpMaybeClose _)

theorem emits_netstackHostReset (id : Int) : Emits ns (ns.netstackHostReset id) := by
  unfold netstackHostReset
  split
  · exact .refl ns
  · dsimp only
    refine Emits.trans ?_ emits_flowFree
    split
    · exact emits_control _
    · exact .refl ns

theorem emits_netstackHostWritable (id : Int) : Emits ns (ns.netstackHostWritable io id) := by
  unfold netstackHostWritable
  split
  · exact .refl ns
  next j _ =>
  dsimp only
  split
  · exact .refl ns
  have hdrain := @emits_tcpDrainG2h io j ns
  split
  next last he =>
    rw [he] at hdrain
    exact hdrain
  next last he =>
    rw [he] at hdrain
    refine hdrain.trans (Emits.trans ?_ (emits_tcpMaybeClose _))
    split
    · exact emits_control TCP_ACK
    · exact .refl last

end

/-! ## Sessions -/

/-- A stack that has answered `pre` on its own, was attached to a backend and then handled `es`.
Without a backend there are no flows, so what `io` would answer before does not matter. -/
def session (io : NetIo) (dns : BitVec 32) (pre es : List Event) : NetStack :=
  es.foldl (step io) ((pre.foldl (step io) netstackNew).netstackSetIo io dns)

end NetStack

/-- The guest's address: the source of its last frame with a whole Ethernet header. -/
def lastMac : List Item → Option (BitVec 48)
  | [] => none
  | .event (.input frame) :: older => if ETH_HDR ≤ frame.len then some (frame.be48 6) else lastMac older
  | _ :: older => lastMac older

theorem lastMac_calls (calls : List Call) (log : List Item) : lastMac (calls.map Item.call ++ log) = lastMac log := by
  induction calls with
  | nil => rfl
  | cons c calls ih => exact ih

theorem suffix_calls {x : Item} {older log : List Item} (calls : List Call)
    (h : x :: older <:+ calls.map Item.call ++ log) :
    (∃ c ∈ calls, x = .call c ∧ lastMac older = lastMac log) ∨ x :: older <:+ log := by
  induction calls with
  | nil => exact .inr h
  | cons c calls ih =>
    rcases List.suffix_cons_iff.mp h with he | h
    · obtain ⟨rfl, rfl⟩ := List.cons.inj he
      exact .inl ⟨c, List.mem_cons_self, rfl, lastMac_calls calls log⟩
    · rcases ih h with ⟨d, hd, hx⟩ | h
      · exact .inl ⟨d, List.mem_cons_of_mem c hd, hx⟩
      · exact .inr h

namespace NetStack

/-- Every frame so far was built for the address the guest had then, and the stack knows the one it
has now, if it has sent anything; until then there are no flows. -/
structure Learned (ns : NetStack) : Prop where
  outs : ∀ flow frame older, .call (.out flow frame) :: older <:+ ns.log →
    ∃ mac, lastMac older = some mac ∧ Built mac flow frame
  known : lastMac ns.log = some ns.guestMac ∨ lastMac ns.log = none ∧ ∀ i, (ns.flows i).state = .free

section
variable {ns ns' : NetStack} {io : NetIo}

theorem Learned.emits (h : Learned ns) (hknown : lastMac ns.log = some ns.guestMac) (he : Emits ns ns') : Learned ns' := by
  obtain ⟨hmac, calls, hlog, hbuilt⟩ := he
  constructor
  · intro flow frame older hold
    rw [hlog] at hold
    rcases suffix_calls calls hold with ⟨c, hc, hx, hlast⟩ | hold
    · cases hx
      exact ⟨ns.guestMac, hlast.trans hknown, hbuilt flow frame hc⟩
    · exact h.outs flow frame older hold
  · left
    rw [hlog, lastMac_calls, hmac, hknown]

theorem Learned.note (h : Learned ns) {e : Event} (he : ∀ frame, e = .input frame → frame.len < ETH_HDR) :
    Learned (ns.note (.event e)) := by
  have hlast : lastMac (.event e :: ns.log) = lastMac ns.log := by
    cases e with
    | input frame => exact if_neg (Nat.not_le.mpr (he frame rfl))
    | _ => rfl
  constructor
  · intro flow frame older hold
    rcases List.suffix_cons_iff.mp hold with hx | hold
    · cases hx
    · exact h.outs flow frame older hold
  · change lastMac (.event e :: ns.log) = _ ∨ lastMac (.event e :: ns.log) = none ∧ _
    rw [hlast]
    exact h.known

theorem flowById_free (hfree : ∀ i, (ns.flows i).state = .free) (id : Int) : ns.flowById id = none := by
  cases h : ns.flowById id with
  | none => rfl
  | some i => exact absurd (hfree i) (flowById_some h).2

/-- A host event on a stack without flows does nothing. -/
theorem handle_free (hfree : ∀ i, (ns.flows i).state = .free) {e : Event} (he : ∀ frame, e ≠ .input frame) :
    ns.handle io e = ns := by
  have hid := flowById_free hfree
  cases e with
  | input frame => exact absurd rfl (he frame)
  | connected id =>
    unfold handle netstackHostConnected
    simp only [hid id]
  | recv id data =>
    unfold handle netstackHostRecv
    simp only [hid id]
  | closed id =>
    unfold handle netstackHostClosed
    simp only [hid id]
  | reset id =>
    unfold handle netstackHostReset
    simp only [hid id]
  | writable id =>
    unfold handle netstackHostWritable
    simp only [hid id]

theorem emits_handle {e : Event} (he : ∀ frame, e ≠ .input frame) : Emits ns (ns.handle io e) := by
  cases e with
  | input frame => exact absurd rfl (he frame)
  | connected id => exact emits_netstackHostConnected id
  | recv id data => exact emits_netstackHostRecv id data
  | closed id => exact emits_netstackHostClosed id
  | reset id => exact emits_netstackHostReset id
  | writable id => exact emits_netstackHostWritable id

theorem Learned.host (h : Learned ns) {e : Event} (he : ∀ frame, e ≠ .input frame) : Learned (ns.step io e) := by
  have hnote : Learned (ns.note (.event e)) := h.note fun frame hf => absurd hf (he frame)
  unfold step
  rcases hnote.known with hknown | ⟨_, hfree⟩
  · exact hnote.emits hknown (emits_handle he)
  · rw [handle_free hfree he]
    exact hnote

theorem Learned.input (h : Learned ns) (frame : Frame) : Learned (ns.step io (.input frame)) := by
  change Learned ((ns.note (.event (.input frame))).netstackInput frame)
  by_cases hlen : ETH_HDR ≤ frame.len
  · -- the source is learned before anything is answered
    have hstart : Learned { ns.note (.event (.input frame)) with guestMac := frame.be48 6 } := by
      constructor
      · intro flow out older hold
        rcases List.suffix_cons_iff.mp hold with hx | hold
        · cases hx
        · exact h.outs flow out older hold
      · exact .inl (if_pos hlen)
    exact hstart.emits (if_pos hlen) (emits_netstackInput hlen)
  · have hshort : (ns.note (.event (.input frame))).netstackInput frame = ns.note (.event (.input frame)) :=
      if_pos (Nat.lt_of_not_le hlen)
    rw [hshort]
    refine h.note fun f hf => ?_
    cases hf
    exact Nat.lt_of_not_le hlen

theorem Learned.step (h : Learned ns) (e : Event) : Learned (ns.step io e) := by
  cases e with
  | input frame => exact h.input frame
  | _ => exact h.host nofun

theorem Learned.run (h : Learned ns) (es : List Event) : Learned (es.foldl (NetStack.step io) ns) := by
  induction es generalizing ns with
  | nil => exact h
  | cons e es ih => exact ih (h.step e)

theorem learned_session (io : NetIo) (dns : BitVec 32) (pre es : List Event) : Learned (session io dns pre es) := by
  have hnew : Learned netstackNew := by
    refine ⟨fun flow frame older hold => ?_, .inr ⟨rfl, fun _ => rfl⟩⟩
    cases List.suffix_nil.mp hold
  have hpre : Learned (pre.foldl (NetStack.step io) netstackNew) := hnew.run pre
  have hattached : Learned ((pre.foldl (NetStack.step io) netstackNew).netstackSetIo io dns) := ⟨hpre.outs, hpre.known⟩
  exact hattached.run es

end

end NetStack

/-! ## The key of a flow -/

/-- The flow a packet of the guest is for. -/
def packetKey (frame : Frame) : Option Key :=
  match segmentOf frame with
  | some s => some s.key
  | none => (datagramOf frame).map Datagram.key

/-- The key of the packet that opened a flow with this trail. -/
def openedKey : List Item → Option Key
  | .call (.openFlow _ _ _ _ _) :: .event (.input frame) :: _ => packetKey frame
  | _ :: older => openedKey older
  | [] => none

/-- A live flow has the key of the packet that opened it. -/
def Keeps (_ : FlowId) (T : List Item) (f : NatFlow) : Prop := f.state ≠ .free → openedKey T = some f.key

theorem Opened.openedKey {e : Event} {k : Key} {real : BitVec 32} {f : NatFlow} (h : Opened e k real f) (i : FlowId)
    (ok : Bool) : openedKey [.call (.openFlow i k.proto real k.port ok), .event e] = some f.key := by
  cases h with
  | tcp frame s isn he hseg hsyn hk =>
    subst he hk
    change packetKey frame = some s.key
    unfold packetKey
    rw [hseg]
  | udp frame d he hd hk =>
    subst he hk
    change packetKey frame = some d.key
    unfold packetKey
    rw [NetStack.segmentOf_of_datagram hd, hd]
    rfl

theorem keepsInv (io : NetIo) (dns : BitVec 32) : NetStack.FlowInv io dns (fun _ _ _ => True) Keeps where
  unused i hl := absurd rfl hl
  begun := by
    intro i T e f f' _ hb h hl
    rw [hb.key]
    exact h (hb.live hl)
  opened := by
    intro i e k f ok hopen _
    exact hopen.openedKey i ok
  own := by
    intro i T f c f' ha h _
    have hsame : openedKey (ownItems c ++ T) = openedKey T := by
      cases ha <;> rfl
    rw [hsame, ha.key]
    exact h ha.was_live
  closed _ _ hl := absurd rfl hl

/-- A frame an act hands out is for its own flow. -/
theorem FlowAct.out_key {i : FlowId} {T : List Item} {f f' : NatFlow} {flow : Option (FlowId × NatFlow)}
    {frame : List Byte} (h : FlowAct i T f (some (.out flow frame)) f') : ∃ g, flow = some (i, g) ∧ g.key = f.key := by
  cases h with
  | guestFin => exact ⟨f.finned, rfl, rfl⟩
  | _ => exact ⟨f, rfl, rfl⟩

namespace NetStack

/-- Every frame of a flow so far was built for the key of the packet that opened the flow. -/
def OutsKeep (ns : NetStack) : Prop :=
  ∀ i f frame older, .call (.out (some (i, f)) frame) :: older <:+ ns.log → openedKey (trail i older) = some f.key

section
variable {ns ns' : NetStack} {io : NetIo} {dns : BitVec 32} (frame : Frame)

theorem OutsKeep.cons {x : Item} (h : OutsKeep ns) (hlog : ns'.log = x :: ns.log)
    (hx : ∀ i f frame, x = .call (.out (some (i, f)) frame) → openedKey (trail i ns.log) = some f.key) :
    OutsKeep ns' := by
  intro i f frame older hold
  rw [hlog] at hold
  rcases List.suffix_cons_iff.mp hold with he | hold
  · obtain ⟨hx', rfl⟩ := List.cons.inj he
    exact hx i f frame hx'.symm
  · exact h i f frame older hold

theorem OutsKeep.begins {e : Event} (h : OutsKeep ns) (hb : Begins io e ns ns') : OutsKeep ns' := by
  have hevent : OutsKeep (ns.note (.event e)) := h.cons rfl fun _ _ _ h => nomatch h
  obtain hlog | ⟨ok, hlog⟩ := hb.log
  · exact h.cons hlog fun _ _ _ h => nomatch h
  · exact hevent.cons hlog fun _ _ _ h => nomatch h

theorem OutsKeep.act (h : OutsKeep ns) (hk : Holds Keeps ns) (ha : Act ns ns') : OutsKeep ns' := by
  cases ha with
  | mac m => exact h
  | gateway frame id => exact h.cons rfl fun _ _ _ h => nomatch h
  | opened i e older k f isn ok => exact h.cons (log_openedAs i k f isn ok ns) fun _ _ _ h => nomatch h
  | own i ho =>
    obtain @⟨c, f, id, hact⟩ := ho
    cases c with
    | none => exact h
    | some c =>
      refine h.cons rfl fun j g frame hx => ?_
      cases hx
      obtain ⟨_, hflow, hkey⟩ := hact.out_key
      cases hflow
      rw [hkey]
      exact hk i hact.was_live
  | close i hc =>
    obtain ⟨_⟩ := hc
    exact h.cons rfl fun _ _ _ h => nomatch h

/-- At most one frame, for no flow. -/
structure Answers (ns ns' : NetStack) : Prop where
  io : ns'.io = ns.io
  flows : ns'.flows = ns.flows
  log : ns'.log = ns.log ∨ ∃ frame, ns'.log = .call (.out none frame) :: ns.log

theorem Answers.refl (ns : NetStack) : Answers ns ns := ⟨rfl, rfl, .inl rfl⟩

theorem answers_handleArp (ns : NetStack) : Answers ns (ns.handleArp frame) := by
  unfold handleArp
  dsimp only
  split
  · exact .refl ns
  split
  · exact .refl ns
  split
  · exact .refl ns
  split
  · exact .refl ns
  split
  · exact ⟨rfl, rfl, .inr ⟨_, rfl⟩⟩
  · exact .refl ns

theorem answers_handleIcmp (ihl iptotal : Nat) (ns : NetStack) :
    Answers ns (ns.handleIcmp frame ihl iptotal) := by
  unfold handleIcmp
  dsimp only
  split
  · exact .refl ns
  split
  · exact .refl ns
  split
  · exact .refl ns
  split
  · exact .refl ns
  · exact ⟨rfl, rfl, .inr ⟨_, rfl⟩⟩

theorem answers_handleDhcp (udpoff udpTotal : Nat) (ns : NetStack) :
    Answers ns (ns.handleDhcp frame udpoff udpTotal) := by
  unfold handleDhcp
  dsimp only
  split
  · exact .refl ns
  split
  · exact .refl ns
  split
  · exact ⟨rfl, rfl, .inr ⟨_, rfl⟩⟩
  · exact ⟨rfl, rfl, .inr ⟨_, rfl⟩⟩
  · exact .refl ns

/-- Without a backend only the gateway answers. -/
theorem answers_handleIp (hio : ns.io = none) : Answers ns (ns.handleIp frame) := by
  unfold handleIp
  split
  · exact .refl ns
  next ihl iptotal _ =>
  dsimp only
  split
  · exact answers_handleIcmp frame ihl iptotal ns
  split
  · unfold handleUdp
    dsimp only
    split
    · exact .refl ns
    split
    · exact answers_handleDhcp frame _ _ ns
    split
    · rw [hio]
      exact .refl ns
    · exact .refl ns
  split
  · rw [hio]
    exact .refl ns
  · exact .refl ns

theorem answers_netstackInput (hio : ns.io = none) : Answers ns (ns.netstackInput frame) := by
  unfold netstackInput
  split
  · exact .refl ns
  dsimp only
  split
  · obtain ⟨h1, h2, h3⟩ := answers_handleArp frame { ns with guestMac := frame.be48 6 }
    exact ⟨h1, h2, h3⟩
  split
  · obtain ⟨h1, h2, h3⟩ := @answers_handleIp { ns with guestMac := frame.be48 6 } frame hio
    exact ⟨h1, h2, h3⟩
  · exact ⟨rfl, rfl, .inl rfl⟩

/-- Without a backend no flow is ever opened, and no frame is for one. -/
structure Alone (ns : NetStack) : Prop where
  io : ns.io = none
  free : ∀ i, (ns.flows i).state = .free
  outs : OutsKeep ns

theorem Alone.step (h : Alone ns) (e : Event) : Alone (ns.step io e) := by
  have hnote : Alone (ns.note (.event e)) := ⟨h.io, h.free, h.outs.cons rfl fun _ _ _ h => nomatch h⟩
  unfold NetStack.step
  by_cases he : ∃ frame, e = .input frame
  · obtain ⟨frame, rfl⟩ := he
    have hans : Answers _ ((ns.note (.event (.input frame))).netstackInput frame) := answers_netstackInput frame hnote.io
    refine ⟨hans.io.trans hnote.io, fun i => ?_, ?_⟩
    · change (((ns.note (.event (.input frame))).netstackInput frame).flows i).state = _
      rw [hans.flows]
      exact hnote.free i
    · rcases hans.log with hlog | ⟨out, hlog⟩
      · intro i f frame' older hold
        change _ <:+ ((ns.note (.event (.input frame))).netstackInput frame).log at hold
        rw [hlog] at hold
        exact hnote.outs i f frame' older hold
      · exact hnote.outs.cons hlog fun _ _ _ h => nomatch h
  · rw [handle_free hnote.free fun frame hf => he ⟨frame, hf⟩]
    exact hnote

theorem alone_foldl (h : Alone ns) (es : List Event) : Alone (es.foldl (NetStack.step io) ns) := by
  induction es generalizing ns with
  | nil => exact h
  | cons e es ih => exact ih (h.step e)

/-- Over a session every frame of a flow carries the key of the packet that opened the flow. -/
theorem outsKeep_session (io : NetIo) (dns : BitVec 32) (pre es : List Event) : OutsKeep (session io dns pre es) := by
  have hnew : Alone netstackNew := by
    refine ⟨rfl, fun _ => rfl, fun i f frame older hold => ?_⟩
    cases List.suffix_nil.mp hold
  have hpre : Alone (pre.foldl (NetStack.step io) netstackNew) := alone_foldl hnew pre
  unfold session
  generalize pre.foldl (NetStack.step io) netstackNew = before at *
  have hready : Ready io dns (before.netstackSetIo io dns) := ⟨rfl, rfl, fun i _ hi => absurd (hpre.free i) hi⟩
  have hstart : Holds Keeps (before.netstackSetIo io dns) ∧ OutsKeep (before.netstackSetIo io dns) :=
    ⟨fun i hl => absurd (hpre.free i) hl, hpre.outs⟩
  refine (foldl_inv (J := fun ns => Holds Keeps ns ∧ OutsKeep ns) ?_ ?_ es hready hstart).2
  · intro ns start e _ hb ⟨hk, ho⟩
    exact ⟨(keepsInv io dns).begins (fun _ => trivial) hb hk, ho.begins hb⟩
  · intro ns ns' hr ha ⟨hk, ho⟩
    exact ⟨(keepsInv io dns).act hr ha hk, ho.act hk ha⟩

end

end NetStack

/-! ## Every packet is valid -/

/-- Whom an IPv4 frame is for: a DHCP reply is broadcast, an echo reply goes to the guest, and a
frame of a flow goes to the guest's port, from the remote the guest addressed when it opened the
flow. The guest's address is the last one it used. -/
inductive Destined (frame : List Byte) (older : List Item) : Option (FlowId × NatFlow) → Prop where
  | dhcp (proto : (Frame.ofList frame).byte 23 = PROTO_UDP) (h : Addressed frame 0xffffffffffff gwIp 67 68) :
      Destined frame older none
  | echo (proto : (Frame.ofList frame).byte 23 = PROTO_ICMP) (h : lastMac older = some ((Frame.ofList frame).be48 0)) :
      Destined frame older none
  | flow (i : FlowId) (f : NatFlow) (k : Key) (mac : BitVec 48) (hkey : openedKey (trail i older) = some k)
      (hmac : lastMac older = some mac) (h : Addressed frame mac k.ip k.port k.guestPort) :
      Destined frame older (some (i, f))

/-- Every IPv4 frame the stack emits, whatever the guest and the host do, is a valid packet for the
one it is meant for. -/
theorem emitted_packets_valid (io : NetIo) (dns : BitVec 32) (pre es : List Event) :
    ∀ flow frame older, .call (.out flow frame) :: older <:+ (NetStack.session io dns pre es).log →
      (Frame.ofList frame).be16 12 = ETYPE_IP → ValidPacket frame ∧ Destined frame older flow := by
  intro flow frame older hold hip
  obtain ⟨mac, hmac, hbuilt⟩ := (NetStack.learned_session io dns pre es).outs flow frame older hold
  have hkeep := NetStack.outsKeep_session io dns pre es
  cases hbuilt with
  | arp sha spa tpa =>
    have hetype : (Frame.ofList (arpReply sha spa tpa)).be16 12 = ETYPE_ARP := be16_putBe16 ETYPE_ARP
    rw [hetype] at hip
    cases hip
  | icmp id src icmp hmin hmax =>
    obtain ⟨hvalid, hdest⟩ := validPacket_icmpReply mac id src (by omega : 4 ≤ icmp.length) hmax
    refine ⟨hvalid, .echo rfl ?_⟩
    rw [hdest]
    exact hmac
  | dhcp id replyType xid flags chaddr =>
    obtain ⟨hvalid, haddr⟩ := validPacket_dhcpReply id replyType xid flags chaddr
    exact ⟨hvalid, .dhcp rfl haddr⟩
  | udp i f id data hmax =>
    obtain ⟨hvalid, haddr⟩ := validPacket_udpFrame mac id f.faceIp f.facePort f.guestPort hmax
    exact ⟨hvalid, .flow i f f.key mac (hkeep i f _ older hold) hmac haddr⟩
  | tcp i f id flags wnd words options payload hmax =>
    obtain ⟨hvalid, haddr⟩ := validPacket_tcpFrame mac id (f.header flags wnd) words hmax
    exact ⟨hvalid, .flow i f f.key mac (hkeep i f _ older hold) hmac haddr⟩

/-- A one-byte datagram of the guest, from port 1024 to 8.8.8.8, port 53, and the answer to it. -/
def lookup : List Event :=
  [.input (.ofList (ipFrame gwMac 0 0 PROTO_UDP guestIp 0x08080808 (udpHeader 1024 53 9 ++ [1]))), .recv 0 [7]]

theorem lookup_answer_valid : ∃ x frame older, .call (.out (some x) frame) :: older <:+ (NetStack.session plainIo dnsIp [] lookup).log ∧
    ValidPacket frame ∧ Destined frame older (some x) := by
  refine ⟨_, _, _, List.suffix_rfl, ?_⟩
  refine emitted_packets_valid plainIo dnsIp [] lookup _ _ _ List.suffix_rfl ?_
  exact be16_putBe16 ETYPE_IP

end Quanta.Net
