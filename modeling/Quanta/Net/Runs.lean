/-
Handling an event, as a beginning and a run of acts, and runs of the stack. No two live flows
share a key, so a segment of the guest reaches the one flow it names. What openings, beginnings,
acts and ends preserve holds of every flow with its trail, after every sequence of events.
-/
import Mathlib.Data.List.Induction
import Quanta.Net.Acts

namespace Quanta.Net

open Relation

/-! ## Beginnings and openings -/

/-- What an event itself does to flow `i`: a segment is heard, bytes of the host are buffered, or
lost when the buffer cannot be allocated. -/
inductive Begun (io : NetIo) (i : FlowId) (e : Event) (f : NatFlow) : NatFlow → Prop where
  | heard (frame : Frame) (s : Segment) (he : e = .input frame) (hseg : segmentOf frame = some s)
      (hkey : s.key = f.key) (ht : f.Tcp) (hrst : s.has TCP_RST = false) : Begun io i e f (f.heard s)
  | recv (data : List Byte) (he : e = .recv (i.val : Int) data) (ht : f.Tcp) :
      Begun io i e f { f with h2g := some (f.h2gBytes ++ data.take (NS_TCP_BUF - f.h2gLen).toNat) }
  | lost (data : List Byte) (older : List Item) (he : e = .recv (i.val : Int) data) (ht : f.Tcp)
      (hm : io.malloc (.event e :: older) = false) : Begun io i e f f
  | other (hseg : ∀ frame s, e = .input frame → segmentOf frame = some s → s.key = f.key → f.Tcp → s.has TCP_RST = true)
      (hrecv : ∀ data, e = .recv (i.val : Int) data → f.Tcp → data.take (NS_TCP_BUF - f.h2gLen).toNat = []) :
      Begun io i e f f

/-- The flow a packet of the guest opens under key `k`, connecting to `real`. -/
inductive Opened (e : Event) (k : Key) (real : BitVec 32) : NatFlow → Prop where
  | tcp (frame : Frame) (s : Segment) (isn : BitVec 32) (he : e = .input frame) (hseg : segmentOf frame = some s)
      (hsyn : s.has TCP_SYN = true) (hk : k = s.key) : Opened e k real ((NatFlow.fresh k real).connect isn s)
  | udp (frame : Frame) (d : Datagram) (he : e = .input frame) (hd : datagramOf frame = some d) (hk : k = d.key) :
      Opened e k real (.fresh k real)

namespace NetStack

/-- The stack after opening flow `i` under key `k` as `f`. -/
def openedAs (i : FlowId) (k : Key) (f : NatFlow) (isn : BitVec 32) (ok : Bool) (ns : NetStack) : NetStack :=
  { (ns.setFlow i f).call (.openFlow i k.proto (resolve ns.upstreamDns k.ip) k.port ok) with tcpIsn := isn }

@[simp] theorem flows_openedAs (i : FlowId) (k : Key) (f : NatFlow) (isn : BitVec 32) (ok : Bool) (ns : NetStack) :
    (ns.openedAs i k f isn ok).flows i = f := flows_setFlow ..

theorem log_openedAs (i : FlowId) (k : Key) (f : NatFlow) (isn : BitVec 32) (ok : Bool) (ns : NetStack) :
    (ns.openedAs i k f isn ok).log =
      .call (.openFlow i k.proto (resolve ns.upstreamDns k.ip) k.port ok) :: ns.log := rfl

theorem io_openedAs (i : FlowId) (k : Key) (f : NatFlow) (isn : BitVec 32) (ok : Bool) (ns : NetStack) :
    (ns.openedAs i k f isn ok).io = ns.io := rfl

/-- One thing the stack does while it handles an event. -/
inductive Act (ns : NetStack) : NetStack → Prop where
  | mac (m : BitVec 48) : Act ns { ns with guestMac := m }
  | gateway (frame : List Byte) (id : BitVec 16) : Act ns { ns.call (.out none frame) with ipId := id }
  | opened (i : FlowId) (e : Event) (older : List Item) (k : Key) (f : NatFlow) (isn : BitVec 32) (ok : Bool)
      (hlog : ns.log = .event e :: older) (hfree : (ns.flows i).state = .free) (hnew : ns.flowFind k = none)
      (hopen : Opened e k (resolve ns.upstreamDns k.ip) f) : Act ns (ns.openedAs i k f isn ok)
  | own {ns' : NetStack} (i : FlowId) (h : Own i ns ns') : Act ns ns'
  | close {ns' : NetStack} (i : FlowId) (h : Close i ns ns') : Act ns ns'

/-- No two live flows share a key. -/
def UniqueKeys (ns : NetStack) : Prop :=
  ∀ i j, (ns.flows i).state ≠ .free → (ns.flows j).state ≠ .free → (ns.flows i).key = (ns.flows j).key → i = j

/-- The stack once an event has begun. -/
structure Begins (io : NetIo) (e : Event) (ns start : NetStack) : Prop where
  flows : ∀ i, Begun io i e (ns.flows i) (start.flows i)
  log : start.log = .event e :: ns.log ∨ ∃ ok, start.log = .call (.malloc ok) :: .event e :: ns.log
  io : start.io = ns.io
  dns : start.upstreamDns = ns.upstreamDns

section
variable {io : NetIo} {e : Event} {ns ns' : NetStack} {frame : Frame} {i : FlowId} {s : Segment}

theorem Begins.trail (h : Begins io e ns ns') (i : FlowId) : trail i ns'.log = .event e :: trail i ns.log := by
  obtain hlog | ⟨ok, hlog⟩ := h.log
  · rw [hlog]
    rfl
  · rw [hlog]
    exact trail_other _ nofun

theorem begins_note (h : ∀ i, Begun io i e (ns.flows i) (ns.flows i)) : Begins io e ns (ns.note (.event e)) :=
  ⟨h, .inl rfl, rfl, rfl⟩

/-- An event that is neither a packet of the guest nor bytes of the host changes no flow by itself. -/
theorem begins_plain (hinput : ∀ frame, e = .input frame → segmentOf frame = none)
    (hrecv : ∀ id data, e ≠ .recv id data) : Begins io e ns (ns.note (.event e)) := by
  refine begins_note fun i => .other (fun frame s he hs => ?_) fun data he => absurd he (hrecv _ _)
  rw [hinput frame he] at hs
  cases hs

theorem acts_of_run (h : ReflTransGen (Own i) ns ns') : ReflTransGen Act ns ns' :=
  ReflTransGen.mono (fun _ _ => Act.own i) _ _ h

theorem acts_of_runs (h : Run.ThenMaybe (Own i) (Close i) ns ns') : ReflTransGen Act ns ns' := by
  obtain ⟨mid, hm, rfl | hc⟩ := h
  · exact acts_of_run hm
  · exact (acts_of_run hm).tail (.close i hc)

theorem acts_flowFree (hl : (ns.flows i).state ≠ .free) (hio : ns.io = some io) :
    ReflTransGen Act ns (ns.flowFree i) := .single (.close i (close_flowFree hl hio))

/-! ## Frames for the gateway -/

theorem acts_handleArp (frame : Frame) (ns : NetStack) : ReflTransGen Act ns (ns.handleArp frame) := by
  unfold handleArp
  dsimp only
  split
  · exact .refl
  split
  · exact .refl
  split
  · exact .refl
  split
  · exact .refl
  split
  · exact .single (.gateway _ ns.ipId)
  · exact .refl

theorem acts_handleIcmp (frame : Frame) (ihl iptotal : Nat) (ns : NetStack) :
    ReflTransGen Act ns (ns.handleIcmp frame ihl iptotal) := by
  unfold handleIcmp
  dsimp only
  split
  · exact .refl
  split
  · exact .refl
  split
  · exact .refl
  split
  · exact .refl
  · exact .single (.gateway _ (ns.ipId + 1))

theorem acts_handleDhcp (frame : Frame) (udpoff udpTotal : Nat) (ns : NetStack) :
    ReflTransGen Act ns (ns.handleDhcp frame udpoff udpTotal) := by
  unfold handleDhcp
  dsimp only
  split
  · exact .refl
  split
  · exact .refl
  split
  · exact .single (.gateway _ (ns.ipId + 1))
  · exact .single (.gateway _ (ns.ipId + 1))
  · exact .refl

/-! ## Packets of the guest -/

theorem netstackInput_segment (hseg : segmentOf frame = some s) (hio : ns.io = some io) :
    ns.netstackInput frame = handleTcp io s { ns with guestMac := frame.be48 6 } := by
  unfold segmentOf at hseg
  split at hseg
  · cases hseg
  next hip =>
  obtain ⟨hlen, hetype⟩ := not_or.mp hip
  have hetype : frame.be16 12 = ETYPE_IP := Decidable.not_not.mp hetype
  split at hseg
  · cases hseg
  next ihl iptotal hparse =>
  split at hseg
  next hproto =>
    unfold netstackInput handleIp
    simp only [if_neg hlen, hetype, hparse, hproto.1, hio, hseg]
    rw [if_neg (by decide), if_pos trivial, if_neg (by decide), if_neg (by decide), if_pos ⟨trivial, hproto.2⟩]
  · cases hseg

theorem netstackInput_datagram {d : Datagram} (hd : datagramOf frame = some d) (hio : ns.io = some io) :
    ns.netstackInput frame = udpNat io d { ns with guestMac := frame.be48 6 } := by
  unfold datagramOf at hd
  split at hd
  · cases hd
  next hip =>
  obtain ⟨hlen, hetype⟩ := not_or.mp hip
  have hetype : frame.be16 12 = ETYPE_IP := Decidable.not_not.mp hetype
  split at hd
  · cases hd
  next ihl iptotal hparse =>
  dsimp only at hd
  split at hd
  next hproto =>
    have hsize : ¬ iptotal < ihl + 8 := by
      intro hlt
      unfold parseUdp at hd
      dsimp only at hd
      rw [if_pos hlt] at hd
      cases hd
    unfold netstackInput handleIp handleUdp
    simp only [if_neg hlen, hetype, hparse, hproto.1, hio, hd, if_neg hsize]
    rw [if_neg (by decide), if_pos trivial, if_neg (by decide), if_pos trivial, if_neg hproto.2.1, if_pos hproto.2.2]
  · cases hd

/-- A frame that is no packet for a flow is answered by the gateway, or not at all. -/
theorem acts_netstackInput (hseg : segmentOf frame = none) (hd : datagramOf frame = none) :
    ReflTransGen Act ns (ns.netstackInput frame) := by
  unfold netstackInput
  dsimp only
  split
  · exact .refl
  next hlen =>
  have hmac : Act ns { ns with guestMac := frame.be48 6 } := .mac _
  refine .head hmac ?_
  generalize { ns with guestMac := frame.be48 6 } = ns
  split
  · exact acts_handleArp frame ns
  split
  next hetype =>
    unfold segmentOf at hseg
    unfold datagramOf at hd
    have hip : ¬ (frame.len < ETH_HDR ∨ frame.be16 12 ≠ ETYPE_IP) := not_or.mpr ⟨hlen, not_not.mpr hetype⟩
    rw [if_neg hip] at hseg hd
    unfold handleIp
    split
    · exact .refl
    next ihl iptotal hparse =>
    simp only [hparse] at hseg hd
    dsimp only
    split
    · exact acts_handleIcmp frame ihl iptotal ns
    split
    next hudp =>
      unfold handleUdp
      dsimp only
      split
      · exact .refl
      split
      · exact acts_handleDhcp frame _ _ ns
      next hdhcp =>
      split
      next hgw =>
        rw [if_pos ⟨hudp, hdhcp, hgw⟩] at hd
        rw [hd]
        split
        next heq => cases heq
        · exact .refl
      · exact .refl
    split
    next htcp =>
      rw [if_pos htcp] at hseg
      rw [hseg]
      split
      next heq => cases heq
      · exact .refl
    · exact .refl
  · exact .refl

theorem current_openedAs {e : Event} {older : List Item} (hlog : ns.log = .event e :: older) (k : Key)
    (f : NatFlow) (isn : BitVec 32) (ok : Bool) : current (trail i (ns.openedAs i k f isn ok).log) = some e := by
  unfold openedAs call note setFlow trail Call.opens
  rw [if_pos (beq_self_eq_true i), hlog]
  rfl

theorem own_udpSend {d : Datagram} (hu : (ns.flows i).Udp)
    (hkey : d.key = (ns.flows i).key) (hcur : current (trail i ns.log) = some (.input frame))
    (hd : datagramOf frame = some d) : Own i ns (ns.sendOn io i d.payload).2 := by
  have hcur' : currentDatagram (trail i ns.log) = some d := by
    unfold currentDatagram
    rw [hcur]
    exact hd
  refine own_of_eq ns.ipId (.udpSend d ((io.send ns.log i d.payload).map Fin.val) hu hcur' hkey) ?_
  rw [act_same]
  rfl

theorem acts_udpNat {d : Datagram} {older : List Item} (hlog : ns.log = .event (.input frame) :: older)
    (hd : datagramOf frame = some d) (hio : ns.io = some io) : ReflTransGen Act ns (ns.udpNat io d) := by
  unfold udpNat
  split
  next i hfind =>
    obtain ⟨hl, hkey⟩ := flowFind_some hfind
    have hu : (ns.flows i).Udp := ⟨congrArg Key.proto hkey, hl⟩
    exact .single (.own i (own_udpSend hu hkey.symm (by rw [hlog]; rfl) hd))
  next hnew =>
    split
    · exact .refl
    next i ns' halloc =>
    obtain ⟨hfree, rfl⟩ := flowAlloc_some halloc
    unfold openFlow
    dsimp only
    rw [flows_setFlow]
    generalize io.openFlow _ i _ _ _ = ok
    let f := NatFlow.fresh d.key (resolve ns.upstreamDns d.key.ip)
    have hopen : Act ns (ns.openedAs i d.key f ns.tcpIsn ok) :=
      .opened i _ older _ _ _ ok hlog hfree hnew (.udp frame d rfl hd rfl)
    have hu : ((ns.openedAs i d.key f ns.tcpIsn ok).flows i).Udp := by
      rw [flows_openedAs]
      exact ⟨rfl, nofun⟩
    refine .head hopen ?_
    cases ok with
    | false => exact acts_flowFree hu.live hio
    | true =>
      refine .single (.own i (own_udpSend hu ?_ (current_openedAs hlog ..) hd))
      rw [flows_openedAs]
      rfl

theorem acts_tcpConnect {older : List Item} (hlog : ns.log = .event (.input frame) :: older)
    (hseg : segmentOf frame = some s) (hsyn : s.has TCP_SYN = true) (hnew : ns.flowFind s.key = none)
    (hio : ns.io = some io) : ReflTransGen Act ns (ns.tcpConnect io s) := by
  unfold tcpConnect
  split
  · exact .refl
  next i ns' halloc =>
  obtain ⟨hfree, rfl⟩ := flowAlloc_some halloc
  unfold openFlow
  dsimp only
  rw [flows_setFlow, flows_setFlow]
  generalize io.openFlow _ i _ _ _ = ok
  let f := (NatFlow.fresh s.key (resolve ns.upstreamDns s.key.ip)).connect (ns.tcpIsn + 0x1000) s
  have hopen : Act ns (ns.openedAs i s.key f (ns.tcpIsn + 0x1000) ok) :=
    .opened i _ older _ _ _ ok hlog hfree hnew (.tcp frame s _ rfl hseg hsyn rfl)
  have ht : ((ns.openedAs i s.key f (ns.tcpIsn + 0x1000) ok).flows i).Tcp := by
    rw [flows_openedAs]
    exact ⟨rfl, nofun⟩
  generalize hX : call _ (setFlow i _ _) = X
  have hstate : X = ns.openedAs i s.key f (ns.tcpIsn + 0x1000) ok := by
    rw [← hX]
    unfold openedAs setFlow
    simp only [Function.update_idem]
    rfl
  rw [← hstate] at hopen ht
  refine .head hopen ?_
  cases ok with
  | false =>
    have hrst := own_tcpOut ht (by decide : (TCP_RST ||| TCP_ACK) &&& TCP_FIN = 0 ∧ (TCP_RST ||| TCP_ACK) &&& TCP_SYN = 0)
    have hio' : X.io = some io := by
      rw [hstate, io_openedAs]
      exact hio
    exact .head (.own i hrst) (acts_flowFree (tcp_run (.single hrst) ht).live ((io_run (.single hrst)).trans hio'))
  | true => exact .refl

/-! ## Every event -/

/-- The event begins, and the rest of handling it is acts. -/
def Steps (io : NetIo) (e : Event) (ns ns' : NetStack) : Prop :=
  ∃ start, Begins io e ns start ∧ ReflTransGen Act start ns'

/-- A segment for no flow, or one that resets its flow, changes no flow by itself. -/
theorem begins_segment (hseg : segmentOf frame = some s)
    (h : ∀ i, s.key = (ns.flows i).key → (ns.flows i).Tcp → s.has TCP_RST = true) :
    Begins io (.input frame) ns (ns.note (.event (.input frame))) := by
  refine begins_note fun i => .other ?_ nofun
  intro _ _ he hs hkey ht
  cases he
  rw [hseg] at hs
  cases hs
  exact h i hkey ht

/-- A segment is heard by the one flow it names. -/
theorem begins_heard (hu : ns.UniqueKeys) (hseg : segmentOf frame = some s)
    (hfind : ns.flowFind s.key = some i) (hrst : s.has TCP_RST = false) :
    Begins io (.input frame) ns
      ((ns.note (.event (.input frame))).setFlow i ((ns.flows i).heard s)) := by
  obtain ⟨hl, hkey⟩ := flowFind_some hfind
  refine ⟨fun j => ?_, .inl rfl, rfl, rfl⟩
  by_cases hj : j = i
  · subst hj
    rw [flows_setFlow]
    exact .heard frame s rfl hseg hkey.symm ⟨congrArg Key.proto hkey, hl⟩ hrst
  · have hsame : ((ns.note (.event (.input frame))).setFlow i ((ns.flows i).heard s)).flows j = ns.flows j :=
      Function.update_of_ne hj ..
    rw [hsame]
    refine .other ?_ nofun
    intro _ _ he hs hk ht
    cases he
    rw [hseg] at hs
    cases hs
    exact absurd (hu j i ht.live hl (hk.symm.trans hkey.symm)) hj

theorem steps_segment (hu : ns.UniqueKeys) (hio : ns.io = some io)
    (hseg : segmentOf frame = some s) : Steps io (.input frame) ns (ns.step io (.input frame)) := by
  have hstep : ns.step io (.input frame) =
      handleTcp io s { ns.note (.event (.input frame)) with guestMac := frame.be48 6 } :=
    netstackInput_segment hseg hio
  rw [hstep]
  unfold handleTcp
  split
  next i hfind =>
    obtain ⟨hl, hkey⟩ := flowFind_some hfind
    cases hrst : s.has TCP_RST with
    | true =>
      refine ⟨_, begins_segment hseg fun _ _ _ => hrst, ?_⟩
      unfold tcpArrive
      rw [if_pos hrst]
      exact .head (.mac (frame.be48 6)) (acts_flowFree hl hio)
    | false =>
      have hio' : { ns.note (.event (.input frame)) with guestMac := frame.be48 6 }.io = some io := hio
      have hruns := fun hb => @runs_tcpArrive i _ io frame s hb hseg hio' hrst
      refine ⟨_, begins_heard hu hseg hfind hrst, .head (.mac (frame.be48 6)) (acts_of_runs (hruns ⟨?_, ?_, rfl⟩))⟩
      · rw [flows_setFlow]
        exact NatFlow.Tcp.heard s ⟨congrArg Key.proto hkey, hl⟩
      · rw [flows_setFlow]
        exact (NatFlow.key_heard s _).trans hkey
  next hnone =>
    refine ⟨_, begins_segment hseg fun i hk ht => absurd hk.symm (flowFind_none hnone i ht.live), ?_⟩
    refine .head (.mac (frame.be48 6)) ?_
    split
    next hsyn => exact acts_tcpConnect rfl hseg hsyn hnone hio
    · exact .refl

theorem segmentOf_of_datagram {d : Datagram} (h : datagramOf frame = some d) :
    segmentOf frame = none := by
  unfold datagramOf at h
  unfold segmentOf
  split at h
  · cases h
  next hip =>
  rw [if_neg hip]
  cases hparse : parseIp frame with
  | none => rfl
  | some p =>
    simp only [hparse] at h ⊢
    split at h
    next hproto => rw [hproto.1, if_neg (fun h => nomatch h.1)]
    · cases h

theorem steps_input (hu : ns.UniqueKeys) (hio : ns.io = some io) :
    Steps io (.input frame) ns (ns.step io (.input frame)) := by
  cases hseg : segmentOf frame with
  | some s => exact steps_segment hu hio hseg
  | none =>
    have hbegin : Begins io (.input frame) ns (ns.note (.event (.input frame))) := by
      refine begins_plain ?_ nofun
      intro _ he
      cases he
      exact hseg
    refine ⟨_, hbegin, ?_⟩
    cases hd : datagramOf frame with
    | some d =>
      have hstep : ns.step io (.input frame) =
          udpNat io d { ns.note (.event (.input frame)) with guestMac := frame.be48 6 } :=
        netstackInput_datagram hd hio
      rw [hstep]
      exact .head (.mac (frame.be48 6)) (acts_udpNat rfl hd hio)
    | none => exact acts_netstackInput hseg hd

theorem steps_connected (id : Int) : Steps io (.connected id) ns (ns.step io (.connected id)) := by
  refine ⟨_, begins_plain nofun nofun, ?_⟩
  unfold step handle netstackHostConnected
  dsimp only
  generalize ns.note (.event (.connected id)) = ns
  split
  · exact .refl
  next i hid =>
  split
  · exact .refl
  next h =>
  obtain ⟨hproto, hstate⟩ := not_or.mp h
  have hstate := Decidable.not_not.mp hstate
  have ht : (ns.flows i).Tcp := ⟨Decidable.not_not.mp hproto, (flowById_some hid).2⟩
  exact .single (.own i (own_of_eq (ns.ipId + 1) (.synack ns.guestMac ns.ipId ht hstate) rfl))

theorem proto_tcp {f : NatFlow} (h : f.proto ≠ .udp) : f.proto = .tcp := by
  cases hp : f.proto with
  | tcp => rfl
  | udp => exact absurd hp h

theorem steps_closed (id : Int) (hio : ns.io = some io) : Steps io (.closed id) ns (ns.step io (.closed id)) := by
  refine ⟨_, begins_plain nofun nofun, ?_⟩
  unfold step handle netstackHostClosed
  dsimp only
  split
  · exact .refl
  next i hid =>
  obtain ⟨rfl, hl⟩ := flowById_some hid
  split
  · exact acts_flowFree hl hio
  next hudp =>
  have hio' : (ns.note (.event (.closed (i.val : Int)))).io = some io := hio
  have hcur : current (trail i (ns.note (.event (.closed (i.val : Int)))).log) = some (.closed (i.val : Int)) := rfl
  generalize ns.note (.event (.closed (i.val : Int))) = ns at *
  have ht : (ns.flows i).Tcp := ⟨proto_tcp hudp, hl⟩
  have heof : Own i ns (ns.setFlow i { ns.flows i with hostEof := true }) := own_of_eq ns.ipId (.eof ht hcur) rfl
  have hrun := ReflTransGen.head heof (run_tcpFlushH2g (tcp_run (.single heof) ht))
  exact acts_of_runs (.after hrun (lasts_tcpMaybeClose (tcp_run hrun ht) ((io_run hrun).trans hio')))

theorem steps_reset (id : Int) (hio : ns.io = some io) : Steps io (.reset id) ns (ns.step io (.reset id)) := by
  refine ⟨_, begins_plain nofun nofun, ?_⟩
  unfold step handle netstackHostReset
  dsimp only
  have hio' : (ns.note (.event (.reset id))).io = some io := hio
  generalize ns.note (.event (.reset id)) = ns at *
  split
  · exact .refl
  next i hid =>
  obtain ⟨_, hl⟩ := flowById_some hid
  split
  next h =>
    have hrst : Own i ns (ns.tcpOut i (TCP_RST ||| TCP_ACK) []) := own_tcpOut ⟨h.1, hl⟩ (by decide)
    have ht := tcp_run (.single hrst) ⟨h.1, hl⟩
    exact .head (.own i hrst) (acts_flowFree ht.live ((io_run (.single hrst)).trans hio'))
  · exact acts_flowFree hl hio'

theorem steps_writable (id : Int) (hio : ns.io = some io) : Steps io (.writable id) ns (ns.step io (.writable id)) := by
  refine ⟨_, begins_plain nofun nofun, ?_⟩
  unfold step handle netstackHostWritable
  dsimp only
  have hio' : (ns.note (.event (.writable id))).io = some io := hio
  generalize ns.note (.event (.writable id)) = ns at *
  split
  · exact .refl
  next i hid =>
  obtain ⟨_, hl⟩ := flowById_some hid
  split
  · exact .refl
  next hproto =>
  have ht : (ns.flows i).Tcp := ⟨Decidable.not_not.mp hproto, hl⟩
  have hdrain := lasts_tcpDrainG2h ht hio'
  generalize ns.tcpDrainG2h io i = r at *
  obtain ⟨alive, mid⟩ := r
  cases alive with
  | false =>
    obtain ⟨m, hm, hc⟩ := hdrain
    exact acts_of_runs ⟨m, hm, .inr hc⟩
  | true =>
    have hdrain : ReflTransGen (Own i) ns mid := hdrain
    dsimp only
    split
    · have hack : Own i mid (mid.tcpOut i TCP_ACK []) := own_tcpOut (tcp_run hdrain ht) (by decide)
      have hrun := hdrain.tail hack
      exact acts_of_runs (.after hrun (lasts_tcpMaybeClose (tcp_run hrun ht) ((io_run hrun).trans hio')))
    · exact acts_of_runs (.after hdrain (lasts_tcpMaybeClose (tcp_run hdrain ht) ((io_run hdrain).trans hio')))

/-- Bytes of the host change no flow when there is none to take them. -/
theorem begins_unread {id : Int} {data : List Byte}
    (h : ∀ i : FlowId, id = (i.val : Int) → (ns.flows i).Tcp → data.take (NS_TCP_BUF - (ns.flows i).h2gLen).toNat = []) :
    Begins io (.recv id data) ns (ns.note (.event (.recv id data))) := by
  refine begins_note fun i => .other nofun ?_
  intro d he ht
  cases he
  exact h i rfl ht

/-- Bytes of the host for flow `i` change no other flow. -/
theorem begins_recv {data : List Byte} {start : NetStack}
    (hi : Begun io i (.recv (i.val : Int) data) (ns.flows i) (start.flows i))
    (hj : ∀ j, j ≠ i → start.flows j = ns.flows j)
    (hlog : start.log = .event (.recv (i.val : Int) data) :: ns.log ∨
      ∃ ok, start.log = .call (.malloc ok) :: .event (.recv (i.val : Int) data) :: ns.log) (hio : start.io = ns.io)
    (hdns : start.upstreamDns = ns.upstreamDns) : Begins io (.recv (i.val : Int) data) ns start := by
  refine ⟨fun j => ?_, hlog, hio, hdns⟩
  by_cases h : j = i
  · exact h ▸ hi
  · rw [hj j h]
    refine .other nofun ?_
    intro d he
    have hid := (Event.recv.inj he).1
    exact absurd (Fin.ext (by omega)) h

theorem own_udpToGuest (data : List Byte) (hu : (ns.flows i).Udp) : Own i ns (ns.udpToGuest i data) := by
  have hact : FlowAct i (trail i ns.log) (ns.flows i) (some (.out (some (i, ns.flows i))
      (udpFrame ns.guestMac ns.ipId (ns.flows i).faceIp (ns.flows i).facePort (ns.flows i).guestPort
        (data.take (NS_MTU - ETH_HDR - 20 - 8))))) (ns.flows i) := .udpOut _ hu
  refine own_of_eq (ns.ipId + 1) hact ?_
  rw [act_same]
  rfl

/-- Bytes for a TCP flow with a buffer. -/
theorem steps_bufferH2g {data buf bytes : List Byte} {start : NetStack} (ht : (start.flows i).Tcp)
    (hbuf : (start.flows i).h2g = some buf)
    (hb : Begins io (.recv (i.val : Int) data) ns
      (start.setFlow i { start.flows i with h2g := some (buf ++ bytes) })) :
    Steps io (.recv (i.val : Int) data) ns (start.bufferH2g i bytes) := by
  refine ⟨_, hb, ?_⟩
  unfold bufferH2g
  dsimp only
  rw [hbuf]
  refine acts_of_run (run_tcpFlushH2g ?_)
  rw [flows_setFlow]
  exact ⟨ht.proto, ht.live⟩

theorem steps_recv (id : Int) (data : List Byte) :
    Steps io (.recv id data) ns (ns.step io (.recv id data)) := by
  unfold step handle netstackHostRecv
  dsimp only
  split
  next hid =>
    refine ⟨_, begins_unread fun i hi ht => absurd (flowById_none hid hi) ht.live, .refl⟩
  next i hid =>
  obtain ⟨rfl, hl⟩ := flowById_some hid
  have hinj : ∀ j : FlowId, (i.val : Int) = (j.val : Int) → j = i := fun j h => Fin.ext (by omega)
  split
  next hlen =>
    rw [List.length_eq_zero_iff.mp hlen]
    exact ⟨_, begins_unread fun _ _ _ => List.take_nil, .refl⟩
  split
  next hudp =>
    refine ⟨_, begins_unread fun j hj ht => ?_, .single (.own i (own_udpToGuest data ⟨hudp, hl⟩))⟩
    rw [hinj j hj] at ht
    cases ht.proto.symm.trans hudp
  next hproto =>
  have ht : (ns.flows i).Tcp := ⟨proto_tcp hproto, hl⟩
  split
  next hnone =>
    refine ⟨_, begins_unread fun j hj _ => ?_, .refl⟩
    rw [hinj j hj]
    exact List.length_eq_zero_iff.mp hnone
  have hrecv : Begun io i (.recv (i.val : Int) data) (ns.flows i) { ns.flows i with
      h2g := some ((ns.flows i).h2gBytes ++ data.take (NS_TCP_BUF - (ns.flows i).h2gLen).toNat) } := .recv data rfl ht
  have hothers : ∀ {start : NetStack} {f : NatFlow} (j : FlowId), j ≠ i →
      (start.setFlow i f).flows j = start.flows j := fun _ h => Function.update_of_ne h ..
  unfold allocH2g
  split
  next buf hbuf =>
    have hbytes : (ns.flows i).h2gBytes = buf := congrArg (Option.getD · []) hbuf
    refine steps_bufferH2g ht hbuf (begins_recv ?_ hothers (.inl rfl) rfl rfl)
    rw [flows_setFlow]
    exact hbytes ▸ hrecv
  next hnone =>
    have hbytes : (ns.flows i).h2gBytes = [] := congrArg (Option.getD · []) hnone
    rw [hbytes] at hrecv
    dsimp only
    cases hok : io.malloc (ns.note (.event (.recv (i.val : Int) data))).log with
    | true =>
      have hbuf : ((((ns.note (.event (.recv (i.val : Int) data))).call (.malloc true)).setFlow i
          { ns.flows i with h2g := some [] }).flows i).h2g = some [] := by rw [flows_setFlow]
      refine steps_bufferH2g ?_ hbuf (begins_recv ?_ ?_ (.inr ⟨true, rfl⟩) rfl rfl)
      · rw [flows_setFlow]
        exact ⟨ht.proto, ht.live⟩
      · rw [flows_setFlow, flows_setFlow]
        exact hrecv
      · intro j hj
        rw [hothers j hj, hothers j hj]
        rfl
    | false =>
      have hsame : { ns.flows i with h2g := none } = ns.flows i := by rw [← hnone]; rfl
      have hbegin : Begins io (.recv (i.val : Int) data) ns
          (((ns.note (.event (.recv (i.val : Int) data))).call (.malloc false)).setFlow i
            { ns.flows i with h2g := none }) := by
        refine begins_recv ?_ hothers (.inr ⟨false, rfl⟩) rfl rfl
        rw [flows_setFlow, hsame]
        exact .lost data _ rfl ht hok
      refine ⟨_, hbegin, ?_⟩
      unfold bufferH2g
      dsimp only
      rw [flows_setFlow]
      exact .refl

/-- Every event begins, and the rest of handling it is acts. -/
theorem steps_step (hu : ns.UniqueKeys) (hio : ns.io = some io) (e : Event) : Steps io e ns (ns.step io e) := by
  cases e with
  | input frame => exact steps_input hu hio
  | connected id => exact steps_connected id
  | recv id data => exact steps_recv id data
  | closed id => exact steps_closed id hio
  | reset id => exact steps_reset id hio
  | writable id => exact steps_writable id hio

end

end NetStack

/-! ## What every flow keeps -/

theorem Begun.key {io : NetIo} {i : FlowId} {e : Event} {f f' : NatFlow} (h : Begun io i e f f') : f'.key = f.key := by
  cases h with
  | heard _ s => exact NatFlow.key_heard s f
  | _ => rfl

theorem Begun.live {io : NetIo} {i : FlowId} {e : Event} {f f' : NatFlow} (h : Begun io i e f f')
    (hl : f'.state ≠ .free) : f.state ≠ .free := by
  cases h with
  | heard _ _ _ _ _ ht => exact ht.live
  | _ => exact hl

theorem FlowAct.was_live {i : FlowId} {T : List Item} {f f' : NatFlow} {c : Option Call} (h : FlowAct i T f c f') :
    f.state ≠ .free := by
  cases h with
  | udpSend d n hu => exact hu.live
  | udpOut frame hu => exact hu.live
  | _ => exact (‹f.Tcp›).live

namespace NetStack

/-- The stack is attached, and no two live flows share a key. -/
structure Ready (io : NetIo) (dns : BitVec 32) (ns : NetStack) : Prop where
  io : ns.io = some io
  dns : ns.upstreamDns = dns
  keys : ns.UniqueKeys

section
variable {io : NetIo} {dns : BitVec 32} {ns ns' : NetStack}

theorem Ready.begins {e : Event} (hr : Ready io dns ns) (h : Begins io e ns ns') : Ready io dns ns' := by
  refine ⟨h.io.trans hr.io, h.dns.trans hr.dns, fun i j hi hj hk => ?_⟩
  refine hr.keys i j ((h.flows i).live hi) ((h.flows j).live hj) ?_
  rw [← (h.flows i).key, ← (h.flows j).key]
  exact hk

/-- A change of one flow keeps keys unique if its new key is its own, or that of no live flow. -/
theorem uniqueKeys_update {i : FlowId} {f : NatFlow} (hu : ns.UniqueKeys)
    (hf : f.state ≠ .free → ∀ j, j ≠ i → (ns.flows j).state ≠ .free → (ns.flows j).key ≠ f.key)
    (h : ns'.flows = Function.update ns.flows i f) : ns'.UniqueKeys := by
  intro a b ha hb hk
  rw [h] at ha hb hk
  by_cases hai : a = i
  · by_cases hbi : b = i
    · exact hai.trans hbi.symm
    · subst hai
      rw [Function.update_self, Function.update_of_ne hbi] at hk
      rw [Function.update_self] at ha
      rw [Function.update_of_ne hbi] at hb
      exact absurd hk.symm (hf ha b hbi hb)
  · rw [Function.update_of_ne hai] at ha hk
    by_cases hbi : b = i
    · subst hbi
      rw [Function.update_self] at hb hk
      exact absurd hk (hf hb a hai ha)
    · rw [Function.update_of_ne hbi] at hb hk
      exact hu a b ha hb hk

theorem Ready.act (hr : Ready io dns ns) (h : Act ns ns') : Ready io dns ns' := by
  cases h with
  | mac m => exact ⟨hr.io, hr.dns, hr.keys⟩
  | gateway frame id => exact ⟨hr.io, hr.dns, hr.keys⟩
  | opened i e older k f isn ok hlog hfree hnew hopen =>
    have hkey : f.key = k := by
      cases hopen with
      | tcp => rfl
      | udp => rfl
    refine ⟨hr.io, hr.dns, uniqueKeys_update hr.keys (fun _ j _ hj => ?_) rfl⟩
    rw [hkey]
    exact flowFind_none hnew j hj
  | own i h =>
    obtain ⟨id, ha⟩ := h
    refine ⟨hr.io, hr.dns, uniqueKeys_update hr.keys (fun _ j hji hj hk => hji ?_) rfl⟩
    exact hr.keys j i hj ha.was_live (hk.trans ha.key)
  | close i h =>
    obtain ⟨hl⟩ := h
    exact ⟨hr.io, hr.dns, uniqueKeys_update hr.keys (fun h => absurd rfl h) rfl⟩

theorem ready_acts (hr : Ready io dns ns) (h : ReflTransGen Act ns ns') : Ready io dns ns' :=
  Run.preserves (fun _ _ ha hr => Ready.act hr ha) h hr

theorem ready_step (hr : Ready io dns ns) (e : Event) : Ready io dns (ns.step io e) := by
  obtain ⟨start, hb, hacts⟩ := steps_step hr.keys hr.io e
  exact ready_acts (hr.begins hb) hacts

theorem run_append (es : List Event) (e : Event) : run io dns (es ++ [e]) = (run io dns es).step io e := by
  unfold run
  rw [List.foldl_append]
  rfl

theorem log_suffix_act (h : Act ns ns') : ns.log <:+ ns'.log := by
  cases h with
  | mac m => exact List.suffix_rfl
  | gateway frame id => exact List.suffix_cons ..
  | opened i e older k f isn ok =>
    rw [log_openedAs]
    exact List.suffix_cons ..
  | own i h =>
    obtain ⟨id, _⟩ := h
    exact List.suffix_append ..
  | close i h =>
    obtain ⟨_⟩ := h
    exact List.suffix_append ..

/-- The log only grows. -/
theorem log_suffix_step (hr : Ready io dns ns) (e : Event) : ns.log <:+ (ns.step io e).log := by
  obtain ⟨start, hb, hacts⟩ := steps_step hr.keys hr.io e
  have hstart : ns.log <:+ start.log := by
    obtain hlog | ⟨ok, hlog⟩ := hb.log
    · exact hlog ▸ List.suffix_cons ..
    · exact hlog ▸ (List.suffix_cons ..).trans (List.suffix_cons ..)
  exact Run.preserves (P := fun x => ns.log <:+ x.log) (fun _ _ ha h => h.trans (log_suffix_act ha)) hacts hstart

theorem ready_run (es : List Event) : Ready io dns (run io dns es) := by
  induction es using List.reverseRecOn with
  | nil => exact ⟨rfl, rfl, fun i _ hi => absurd rfl hi⟩
  | append_singleton es e ih =>
    rw [run_append]
    exact ready_step ih e

end

/-- What beginnings and acts keep holds after every further sequence of events. -/
theorem foldl_inv {io : NetIo} {dns : BitVec 32} {J : NetStack → Prop}
    (hbegin : ∀ {ns start e}, Ready io dns ns → Begins io e ns start → J ns → J start)
    (hact : ∀ {ns ns'}, Ready io dns ns → Act ns ns' → J ns → J ns') (es : List Event) {ns : NetStack}
    (hr : Ready io dns ns) (hj : J ns) : J (es.foldl (step io) ns) := by
  induction es generalizing ns with
  | nil => exact hj
  | cons e es ih =>
    obtain ⟨start, hb, hacts⟩ := steps_step hr.keys hr.io e
    have hboth : Ready io dns (ns.step io e) ∧ J (ns.step io e) :=
      Run.preserves (P := fun x => Ready io dns x ∧ J x) (fun _ _ ha h => ⟨h.1.act ha, hact h.1 ha h.2⟩) hacts
        ⟨hr.begins hb, hbegin hr hb hj⟩
    exact ih hboth.1 hboth.2

/-- What beginnings and acts keep holds after every sequence of events. -/
theorem run_inv {io : NetIo} {dns : BitVec 32} {J : NetStack → Prop} (hinit : J (netstackNew.netstackSetIo io dns))
    (hbegin : ∀ {ns start e}, Ready io dns ns → Begins io e ns start → J ns → J start)
    (hact : ∀ {ns ns'}, Ready io dns ns → Act ns ns' → J ns → J ns') (es : List Event) : J (run io dns es) :=
  foldl_inv hbegin hact es (ready_run []) hinit

/-- A property of a flow and its trail that everything the stack does preserves, when the events
are of the kind `A`. -/
structure FlowInv (io : NetIo) (dns : BitVec 32) (A : FlowId → NatFlow → Event → Prop)
    (P : FlowId → List Item → NatFlow → Prop) : Prop where
  unused : ∀ i, P i [] {}
  begun : ∀ {i T e f f'}, A i f e → Begun io i e f f' → P i T f → P i (.event e :: T) f'
  opened : ∀ {i e k f} (ok : Bool), Opened e k (resolve dns k.ip) f →
    P i [.call (.openFlow i k.proto (resolve dns k.ip) k.port ok), .event e] f
  own : ∀ {i T f c f'}, FlowAct i T f c f' → P i T f → P i (ownItems c ++ T) f'
  closed : ∀ {i T f}, f.state ≠ .free → P i T f → P i (.call (.close i) :: T) {}

section
variable {io : NetIo} {dns : BitVec 32} {A : FlowId → NatFlow → Event → Prop}
  {P : FlowId → List Item → NatFlow → Prop} {ns ns' : NetStack}

/-- The property at every flow. -/
def Holds (P : FlowId → List Item → NatFlow → Prop) (ns : NetStack) : Prop := ∀ i, P i (trail i ns.log) (ns.flows i)

theorem FlowInv.act (hP : FlowInv io dns A P) (hr : Ready io dns ns) (h : Act ns ns') (hp : Holds P ns) : Holds P ns' := by
  intro j
  cases h with
  | mac m => exact hp j
  | gateway frame id =>
    have ht : trail j (.call (.out none frame) :: ns.log) = trail j ns.log := trail_other _ nofun
    exact ht ▸ hp j
  | opened i e older k f isn ok hlog hfree hnew hopen =>
    rw [hr.dns] at hopen
    have hcall : (ns.openedAs i k f isn ok).log =
        .call (.openFlow i k.proto (resolve dns k.ip) k.port ok) :: .event e :: older := by
      rw [← hr.dns, ← hlog]
      rfl
    rw [hcall]
    by_cases hj : j = i
    · subst hj
      rw [flows_openedAs]
      have ht : trail j (.call (.openFlow j k.proto (resolve dns k.ip) k.port ok) :: .event e :: older) =
          [.call (.openFlow j k.proto (resolve dns k.ip) k.port ok), .event e] := by
        simp [trail, Call.opens]
      rw [ht]
      exact hP.opened ok hopen
    · have hflow : (ns.openedAs i k f isn ok).flows j = ns.flows j := Function.update_of_ne hj ..
      have ht : trail j (.call (.openFlow i k.proto (resolve dns k.ip) k.port ok) :: .event e :: older) =
          trail j (.event e :: older) := trail_other _ fun h => hj (Option.some.inj h).symm
      rw [hflow, ht, ← hlog]
      exact hp j
  | own i h =>
    obtain ⟨id, ha⟩ := h
    by_cases hj : j = i
    · subst hj
      rw [flows_act]
      exact (ha.trail_own_act ns.log).symm ▸ hP.own ha (hp j)
    · rw [flows_act_of_ne hj]
      exact (ha.trail_other_act hj ns.log).symm ▸ hp j
  | close i h =>
    obtain ⟨hl⟩ := h
    by_cases hj : j = i
    · subst hj
      rw [flows_act]
      have ht : trail j (.call (.close j) :: ns.log) = .call (.close j) :: trail j ns.log := trail_own _ rfl rfl
      exact ht ▸ hP.closed hl (hp j)
    · rw [flows_act_of_ne hj]
      have ht : trail j (.call (.close i) :: ns.log) = trail j ns.log :=
        trail_other _ fun h => hj (Option.some.inj h).symm
      exact ht ▸ hp j

theorem FlowInv.acts (hP : FlowInv io dns A P) (hr : Ready io dns ns) (h : ReflTransGen Act ns ns') (hp : Holds P ns) :
    Holds P ns' := by
  have hboth : Ready io dns ns' ∧ Holds P ns' :=
    Run.preserves (P := fun x => Ready io dns x ∧ Holds P x)
      (fun _ _ ha h => ⟨h.1.act ha, hP.act h.1 ha h.2⟩) h ⟨hr, hp⟩
  exact hboth.2

theorem FlowInv.begins (hP : FlowInv io dns A P) {e : Event} (ha : ∀ i, A i (ns.flows i) e) (hb : Begins io e ns ns')
    (hp : Holds P ns) : Holds P ns' := by
  intro i
  rw [hb.trail i]
  exact hP.begun (ha i) (hb.flows i) (hp i)

theorem FlowInv.step (hP : FlowInv io dns A P) (hr : Ready io dns ns) {e : Event} (ha : ∀ i, A i (ns.flows i) e)
    (hp : Holds P ns) : Holds P (ns.step io e) := by
  obtain ⟨start, hb, hacts⟩ := steps_step hr.keys hr.io e
  exact hP.acts (hr.begins hb) hacts (hP.begins ha hb hp)

/-- Every event of the list is of the kind `A`, for every flow, when it arrives. -/
def Paced (io : NetIo) (dns : BitVec 32) (A : FlowId → NatFlow → Event → Prop) (es : List Event) : Prop :=
  ∀ pre e post, es = pre ++ e :: post → ∀ i, A i ((run io dns pre).flows i) e

/-- What everything preserves holds of every flow after every sequence of events. -/
theorem FlowInv.run (hP : FlowInv io dns A P) {es : List Event} (ha : Paced io dns A es) : Holds P (run io dns es) := by
  induction es using List.reverseRecOn with
  | nil => exact hP.unused
  | append_singleton es e ih =>
    rw [run_append]
    have hpre : Paced io dns A es := fun pre e' post he => ha pre e' (post ++ [e]) (by rw [he]; simp)
    exact hP.step (ready_run es) (ha es e [] rfl) (ih hpre)

end

end NetStack
end Quanta.Net
