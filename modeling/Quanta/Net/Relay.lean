/-
The UDP relay over whole histories. The guest sends datagrams, the host answers on the flows they
opened, and nothing else happens: then no flow is ever released, so the table holds the distinct
flow keys used so far, in order of first use. Every datagram is forwarded and every reply delivered
exactly as long as those keys fit the table and no reply is empty (`udp_relay_iff`).
-/
import Mathlib.Data.Finset.Option
import Mathlib.Data.List.GetD
import Quanta.Net.Flows

namespace Quanta.Net

open Bytes

/-! ## Datagrams on the wire -/

/-- The length of the IPv4 header, as its first byte gives it. -/
def Frame.ihl (frame : Frame) : Nat := (frame.byte ETH_HDR &&& 0x0f#8).toNat * 4

/-- A frame is the datagram `d` from `src`: an IPv4 packet whose lengths agree with each other and
fit the frame. -/
structure IsUdp (frame : Frame) (src : BitVec 32) (d : Datagram) : Prop where
  etype : frame.be16 12 = ETYPE_IP
  version : frame.byte ETH_HDR >>> 4 = 4
  header : 20 ≤ frame.ihl
  total : (frame.be16 (ETH_HDR + 2)).toNat = frame.ihl + 8 + d.payload.length
  fits : ETH_HDR + (frame.ihl + 8 + d.payload.length) ≤ frame.len
  proto : frame.byte (ETH_HDR + 9) = PROTO_UDP
  source : frame.be32 (ETH_HDR + 12) = src
  dest : frame.be32 (ETH_HDR + 16) = d.dst
  sport : frame.be16 (ETH_HDR + frame.ihl) = d.sport
  dport : frame.be16 (ETH_HDR + frame.ihl + 2) = d.dport
  ulen : (frame.be16 (ETH_HDR + frame.ihl + 4)).toNat = 8 + d.payload.length
  payload : frame.slice (ETH_HDR + frame.ihl + 8) d.payload.length = d.payload

/-- A datagram beyond the gateway that is no DHCP request. -/
def Datagram.Outbound (d : Datagram) : Prop := d.dst ≠ gwIp ∧ ¬ (d.dport = 67 ∧ d.sport = 68)

/-- The stack reads every well-formed outbound datagram as it is. -/
theorem datagramOf_isUdp {frame : Frame} {src : BitVec 32} {d : Datagram} (h : IsUdp frame src d)
    (ho : d.Outbound) : datagramOf frame = some d := by
  have hfits := h.fits
  have hheader := h.header
  have hparse : parseIp frame = some (frame.ihl, frame.ihl + 8 + d.payload.length) := by
    unfold parseIp
    rw [if_neg (by omega), if_neg (not_not.mpr h.version), h.total, Nat.min_eq_left (by omega)]
    change (if frame.ihl < 20 ∨ frame.len < ETH_HDR + frame.ihl then none
      else if frame.ihl + 8 + d.payload.length < frame.ihl then none else _) = _
    rw [if_neg (by omega), if_neg (by omega)]
    rfl
  have hudp : parseUdp frame frame.ihl (frame.ihl + 8 + d.payload.length) = some d := by
    unfold parseUdp
    dsimp only
    rw [if_neg (by omega), h.ulen, if_neg (by omega), Nat.add_sub_cancel_left, h.payload, h.dest, h.sport, h.dport]
  unfold datagramOf
  rw [if_neg (by rw [h.etype]; exact not_or.mpr ⟨by omega, not_not.mpr rfl⟩), hparse]
  dsimp only
  rw [h.dport, h.sport, h.dest, if_pos ⟨h.proto, ho.2, ho.1⟩, hudp]

/-- A datagram as the stack writes one. -/
def udpPacket (mac : BitVec 48) (id : BitVec 16) (src : BitVec 32) (d : Datagram) : List Byte :=
  ethHeader mac ETYPE_IP ++ ipHeader (BitVec.ofNat 16 (28 + d.payload.length)) id 0 PROTO_UDP src d.dst ++
    udpHeader d.sport d.dport (BitVec.ofNat 16 (8 + d.payload.length)) ++ d.payload

/-- What the stack writes is a datagram, from the source it was given. -/
theorem isUdp_udpPacket (mac : BitVec 48) (id : BitVec 16) (src : BitVec 32) {d : Datagram}
    (hlen : 28 + d.payload.length < 2 ^ 16) : IsUdp (.ofList (udpPacket mac id src d)) src d := by
  have hfirst : (Frame.ofList (udpPacket mac id src d)).byte ETH_HDR = 0x45#8 := rfl
  have hihl : (Frame.ofList (udpPacket mac id src d)).ihl = 20 := by
    unfold Frame.ihl
    rw [hfirst]
    rfl
  have hsize : (udpPacket mac id src d).length = 42 + d.payload.length := by
    unfold udpPacket
    rw [List.length_append, List.length_append, List.length_append]
    rfl
  constructor
  case etype => exact be16_putBe16 ETYPE_IP
  case version =>
    rw [hfirst]
    rfl
  case header => rw [hihl]
  case total =>
    have hval : (Frame.ofList (udpPacket mac id src d)).be16 (ETH_HDR + 2) =
        BitVec.ofNat 16 (28 + d.payload.length) := be16_putBe16 _
    rw [hval, hihl, BitVec.toNat_ofNat, Nat.mod_eq_of_lt hlen]
  case fits =>
    rw [hihl]
    change 14 + _ ≤ (udpPacket mac id src d).length
    omega
  case proto => rfl
  case source => exact be32_putBe32 src
  case dest => exact be32_putBe32 d.dst
  case sport =>
    rw [hihl]
    exact be16_putBe16 d.sport
  case dport =>
    rw [hihl]
    exact be16_putBe16 d.dport
  case ulen =>
    have hval : (Frame.ofList (udpPacket mac id src d)).be16 (ETH_HDR + 20 + 4) =
        BitVec.ofNat 16 (8 + d.payload.length) := be16_putBe16 _
    rw [hihl, hval, BitVec.toNat_ofNat, Nat.mod_eq_of_lt (by omega)]
  case payload =>
    rw [hihl]
    refine List.ext_getElem (by simp) fun k hk hk' => ?_
    have hbyte : (Frame.ofList (udpPacket mac id src d)).byte (42 + k) = d.payload.getD k 0 := by
      change (udpPacket mac id src d).getD (42 + k) 0 = _
      unfold udpPacket
      rw [List.getD_append_right _ _ _ _ (by exact Nat.le_add_right 42 k)]
      exact congrArg (d.payload.getD · 0) (Nat.add_sub_cancel_left ..)
    simp only [Frame.slice, List.getElem_map, List.getElem_range]
    change (Frame.ofList (udpPacket mac id src d)).byte (42 + k) = _
    rw [hbyte, List.getD_eq_getElem _ _ hk']

/-- Every UDP frame to the guest within the frame limit is a datagram for it. -/
theorem isUdp_udpFrame (mac : BitVec 48) (id : BitVec 16) (src : BitVec 32) (sport dport : BitVec 16)
    {data : List Byte} (hlen : data.length ≤ 1558) :
    IsUdp (.ofList (udpFrame mac id src sport dport data)) src ⟨guestIp, sport, dport, data⟩ := by
  have heq : udpFrame mac id src sport dport data = udpPacket mac id src ⟨guestIp, sport, dport, data⟩ := rfl
  rw [heq]
  refine isUdp_udpPacket mac id src ?_
  change 28 + data.length < _
  omega

/-! ## What is sent and what is delivered -/

/-- The payloads handed to the backend and the flows they went on, newest first. -/
def sends : List Item → List (FlowId × List Byte)
  | [] => []
  | .call (.send i data _) :: older => (i, data) :: sends older
  | _ :: older => sends older

/-- The frames handed to the guest, newest first. -/
def delivered : List Item → List (List Byte)
  | [] => []
  | .call (.out _ frame) :: older => frame :: delivered older
  | _ :: older => delivered older

/-- A backend that opens every flow and takes all of every datagram. -/
structure NetIo.Willing (io : NetIo) : Prop where
  opens : ∀ log i proto ip port, io.openFlow log i proto ip port = true
  sends : ∀ log i data, io.send log i data = some (Fin.last data.length)

/-- A frame that is an outbound datagram. -/
def Outgoing (frame : Frame) (d : Datagram) : Prop := (∃ src, IsUdp frame src d) ∧ d.Outbound

theorem Outgoing.datagramOf {frame : Frame} {d : Datagram} (h : Outgoing frame d) : datagramOf frame = some d := by
  obtain ⟨⟨src, hu⟩, ho⟩ := h
  exact datagramOf_isUdp hu ho

/-- Datagrams of the guest and what the host answers. -/
inductive UdpTraffic : Event → Prop where
  | datagram (frame : Frame) (d : Datagram) (h : Outgoing frame d) : UdpTraffic (.input frame)
  | reply (id : Int) (data : List Byte) : UdpTraffic (.recv id data)

namespace NetStack

variable (es : List Event)

/-- The relay over a history: each datagram's payload is sent once, on a flow opened to its
destination, and each later reply on that flow that fits a frame is delivered once, from that
remote to the guest's port. Nothing else is sent. -/
structure Relays (io : NetIo) (dns : BitVec 32) (es : List Event) : Prop where
  datagram : ∀ pre frame d post, es = pre ++ .input frame :: post → Outgoing frame d →
    ∃ i, sends (run io dns (pre ++ [.input frame])).log = (i, d.payload) :: sends (run io dns pre).log ∧
      remote (trail i (run io dns (pre ++ [.input frame])).log) = some (.udp, resolve dns d.dst, d.dport) ∧
      ∀ mid data rest, post = mid ++ .recv (i.val : Int) data :: rest → data.length ≤ 1558 →
        ∃ out, IsUdp (.ofList out) d.dst ⟨guestIp, d.dport, d.sport, data⟩ ∧
          delivered (run io dns (pre ++ .input frame :: mid ++ [.recv (i.val : Int) data])).log =
            out :: delivered (run io dns (pre ++ .input frame :: mid)).log
  reply : ∀ pre id data post, es = pre ++ .recv id data :: post →
    sends (run io dns (pre ++ [.recv id data])).log = sends (run io dns pre).log

/-! ## The table -/

/-- The flow key an event brings. -/
def keyOf : Event → Option Key
  | .input frame => (datagramOf frame).map Datagram.key
  | _ => none

/-- The distinct keys of a history. -/
def keys (es : List Event) : Finset Key := (es.filterMap keyOf).toFinset

/-- A history the table has room for: no more keys than slots, and no empty reply on a flow in use. -/
structure Fits (es : List Event) : Prop where
  keys : (keys es).card ≤ NS_NAT_MAX
  replies : ∀ pre (i : FlowId) post, es = pre ++ .recv (i.val : Int) [] :: post → (NetStack.keys pre).card ≤ i.val

/-- Note a key, at the end if it is new. -/
def addKey (ks : List Key) : Option Key → List Key
  | none => ks
  | some k => if k ∈ ks then ks else ks ++ [k]

theorem addKey_of_mem {ks : List Key} {k : Key} (h : k ∈ ks) : addKey ks (some k) = ks := if_pos h

theorem addKey_of_not_mem {ks : List Key} {k : Key} (h : k ∉ ks) : addKey ks (some k) = ks ++ [k] := if_neg h

/-- The keys in order of first use. -/
def slots (es : List Event) : List Key := es.foldl (fun ks e => addKey ks (keyOf e)) []

theorem slots_concat (e : Event) : slots (es ++ [e]) = addKey (slots es) (keyOf e) := by
  unfold slots
  rw [List.foldl_append]
  rfl

theorem keys_concat (e : Event) : keys (es ++ [e]) = keys es ∪ (keyOf e).toFinset := by
  unfold keys
  rw [List.filterMap_append, List.toFinset_append]
  cases hk : keyOf e <;> simp [hk, Finset.union_comm]

/-- The ordered keys are the keys, each once. -/
theorem slots_spec : (slots es).Nodup ∧ (slots es).toFinset = keys es := by
  induction es using List.reverseRecOn with
  | nil => exact ⟨List.nodup_nil, rfl⟩
  | append_singleton es e ih =>
    obtain ⟨hnodup, hkeys⟩ := ih
    rw [slots_concat, keys_concat, ← hkeys]
    cases keyOf e with
    | none => exact ⟨hnodup, (Finset.union_empty _).symm⟩
    | some k =>
      by_cases hk : k ∈ slots es
      · rw [addKey_of_mem hk]
        refine ⟨hnodup, ?_⟩
        rw [Option.toFinset_some, eq_comm, Finset.union_eq_left, Finset.singleton_subset_iff]
        exact List.mem_toFinset.mpr hk
      · rw [addKey_of_not_mem hk]
        refine ⟨?_, ?_⟩
        · exact hnodup.append (List.nodup_singleton k) (List.disjoint_singleton.mpr hk)
        · rw [List.toFinset_append]
          rfl

theorem length_slots : (slots es).length = (keys es).card := by
  obtain ⟨hnodup, hkeys⟩ := slots_spec es
  rw [← hkeys, List.toFinset_card_of_nodup hnodup]

/-- The slot that holds the flow of `k`, or an empty one. -/
def slotOf (dns : BitVec 32) : Option Key → NatFlow
  | none => {}
  | some k => .fresh k (resolve dns k.ip)

/-- The stack holds the flows of `ks`, from the first slot on, and no others. -/
structure Table (io : NetIo) (dns : BitVec 32) (ks : List Key) (ns : NetStack) : Prop where
  backend : ns.io = some io
  upstream : ns.upstreamDns = dns
  udp : ∀ k ∈ ks, k.proto = .udp
  nodup : ks.Nodup
  room : ks.length ≤ NS_NAT_MAX
  flows : ∀ i : FlowId, ns.flows i = slotOf dns ks[i.val]?

section
variable {io : NetIo} {dns : BitVec 32} {ks : List Key} {ns : NetStack}

theorem key_slotOf (k : Key) : (slotOf dns (some k)).key = k := rfl

theorem live_slotOf (k : Key) (hk : k.proto = .udp) : (slotOf dns (some k)).state = .estab := by
  obtain ⟨proto, port, ip, rport⟩ := k
  cases hk
  rfl

theorem Table.live (h : Table io dns ks ns) {i : FlowId} {k : Key} (hk : ks[i.val]? = some k) :
    (ns.flows i).state = .estab := by
  rw [h.flows i, hk]
  exact live_slotOf k (h.udp k (List.mem_of_getElem? hk))

theorem Table.free_iff (h : Table io dns ks ns) (i : FlowId) : (ns.flows i).state = .free ↔ ks.length ≤ i.val := by
  constructor
  · intro hfree
    rw [← List.getElem?_eq_none_iff]
    cases hk : ks[i.val]? with
    | none => rfl
    | some k =>
      rw [h.live hk] at hfree
      cases hfree
  · intro hle
    rw [h.flows i, List.getElem?_eq_none hle]
    rfl

/-- A key is found where it stands. -/
theorem Table.flowFind (h : Table io dns ks ns) (k : Key) :
    (∃ i, ns.flowFind k = some i ∧ ks[i.val]? = some k) ∨ ns.flowFind k = none ∧ k ∉ ks := by
  cases hfind : ns.flowFind k with
  | some i =>
    obtain ⟨hlive, hkey⟩ := flowFind_some hfind
    left
    refine ⟨i, rfl, ?_⟩
    rw [h.flows i] at hlive hkey
    cases hk : ks[i.val]? with
    | none =>
      rw [hk] at hlive
      exact absurd rfl hlive
    | some k' =>
      rw [hk, key_slotOf] at hkey
      rw [hkey]
  | none =>
    right
    refine ⟨rfl, fun hmem => ?_⟩
    obtain ⟨n, hn⟩ := List.mem_iff_getElem?.mp hmem
    obtain ⟨hlt, _⟩ := List.getElem?_eq_some_iff.mp hn
    let i : FlowId := ⟨n, Nat.lt_of_lt_of_le hlt h.room⟩
    have hi : ks[i.val]? = some k := hn
    refine flowFind_none hfind i ?_ ?_
    · rw [h.live hi]
      nofun
    · rw [h.flows i, hi]
      rfl

/-- A new flow takes the slot after the last one, if there is one. -/
theorem Table.flowAlloc (h : Table io dns ks ns) (k : Key) :
    ns.flowAlloc k = if hlt : ks.length < NS_NAT_MAX then
      some (⟨ks.length, hlt⟩, ns.setFlow ⟨ks.length, hlt⟩ (.fresh k (resolve dns k.ip))) else none := by
  unfold NetStack.flowAlloc
  split
  next hnone =>
    split
    next hlt =>
      have hused := List.find?_eq_none.mp hnone ⟨ks.length, hlt⟩ (List.mem_finRange _)
      rw [beq_iff_eq, h.free_iff] at hused
      exact absurd le_rfl hused
    · rfl
  next i hi =>
    obtain ⟨hfree, n, hn, hget, hbefore⟩ := List.find?_eq_some_iff_getElem.mp hi
    rw [beq_iff_eq, h.free_iff] at hfree
    rw [List.length_finRange] at hn
    rw [List.getElem_finRange] at hget
    have hlt : ks.length < NS_NAT_MAX := Nat.lt_of_le_of_lt hfree i.isLt
    -- no slot before `i` is free, so `i` is the first one past the keys
    have hfirst : i = ⟨ks.length, hlt⟩ := by
      refine Fin.ext (Nat.le_antisymm ?_ hfree)
      by_contra hgt
      have hin : n = i.val := congrArg Fin.val hget
      have hprev := hbefore ks.length (by rw [hin]; exact Nat.lt_of_not_le hgt)
      rw [List.getElem_finRange, Bool.not_eq_true', beq_eq_false_iff_ne, ne_eq, h.free_iff] at hprev
      exact hprev le_rfl
    rw [dif_pos hlt, hfirst, h.upstream]

theorem Table.same {ns' : NetStack} (h : Table io dns ks ns) (hio : ns'.io = ns.io)
    (hdns : ns'.upstreamDns = ns.upstreamDns) (hflows : ns'.flows = ns.flows) : Table io dns ks ns' where
  backend := hio.trans h.backend
  upstream := hdns.trans h.upstream
  udp := h.udp
  nodup := h.nodup
  room := h.room
  flows := by
    rw [hflows]
    exact h.flows

/-- The table with a flow of `k` in the slot after the last one. -/
theorem Table.add (h : Table io dns ks ns) {k : Key} (hudp : k.proto = .udp) (hk : k ∉ ks)
    (hlt : ks.length < NS_NAT_MAX) :
    Table io dns (ks ++ [k]) (ns.setFlow ⟨ks.length, hlt⟩ (.fresh k (resolve dns k.ip))) where
  backend := h.backend
  upstream := h.upstream
  udp := by
    intro k' hk'
    rcases List.mem_append.mp hk' with hold | hnew
    · exact h.udp k' hold
    · rw [List.mem_singleton.mp hnew]
      exact hudp
  nodup := h.nodup.append (List.nodup_singleton k) (List.disjoint_singleton.mpr hk)
  room := by
    rw [List.length_append]
    exact hlt
  flows := by
    intro i
    by_cases hi : i = ⟨ks.length, hlt⟩
    · rw [hi, flows_setFlow, List.getElem?_concat_length]
      rfl
    · have hne : i.val ≠ ks.length := fun he => hi (Fin.ext he)
      change Function.update ns.flows _ _ i = _
      rw [Function.update_of_ne hi, h.flows i]
      congr 1
      rcases Nat.lt_or_ge i.val ks.length with hlt' | hge
      · rw [List.getElem?_append_left hlt']
      · rw [List.getElem?_eq_none hge, List.getElem?_eq_none]
        rw [List.length_append]
        exact Nat.lt_of_le_of_ne hge hne.symm

/-! ## One event -/

/-- A datagram whose key the table has or has room for. -/
theorem Table.datagram (h : Table io dns ks ns) (hw : io.Willing) {frame : Frame} {d : Datagram}
    (hd : datagramOf frame = some d) (hroom : (addKey ks (some d.key)).length ≤ NS_NAT_MAX) :
    ∃ i : FlowId, (addKey ks (some d.key))[i.val]? = some d.key ∧
      sends (ns.step io (.input frame)).log = (i, d.payload) :: sends ns.log ∧
      Table io dns (addKey ks (some d.key)) (ns.step io (.input frame)) := by
  have hnoted : Table io dns ks { ns.note (.event (.input frame)) with guestMac := frame.be48 6 } :=
    h.same rfl rfl rfl
  have hstep : ns.step io (.input frame) = udpNat io d { ns.note (.event (.input frame)) with guestMac := frame.be48 6 } :=
    netstackInput_datagram hd h.backend
  have hsends : sends { ns.note (.event (.input frame)) with guestMac := frame.be48 6 }.log = sends ns.log := rfl
  rw [hstep]
  generalize { ns.note (.event (.input frame)) with guestMac := frame.be48 6 } = noted at *
  rcases hnoted.flowFind d.key with ⟨i, hfind, hi⟩ | ⟨hfind, hnew⟩
  · rw [addKey_of_mem (List.mem_of_getElem? hi)]
    refine ⟨i, hi, ?_, ?_⟩
    · unfold udpNat
      rw [hfind]
      exact congrArg ((i, d.payload) :: ·) hsends
    · unfold udpNat
      rw [hfind]
      exact hnoted.same rfl rfl rfl
  · rw [addKey_of_not_mem hnew] at hroom ⊢
    have hlt : ks.length < NS_NAT_MAX := by
      rw [List.length_append] at hroom
      exact hroom
    have halloc := hnoted.flowAlloc d.key
    rw [dif_pos hlt] at halloc
    refine ⟨⟨ks.length, hlt⟩, List.getElem?_concat_length, ?_, ?_⟩
    · unfold udpNat openFlow
      rw [hfind]
      dsimp only
      rw [halloc]
      dsimp only
      rw [hw.opens]
      exact congrArg ((_, d.payload) :: ·) hsends
    · unfold udpNat openFlow
      rw [hfind]
      dsimp only
      rw [halloc]
      dsimp only
      rw [hw.opens]
      exact (hnoted.add rfl hnew hlt).same rfl rfl rfl

/-- A datagram of a new key that finds the table full is dropped. -/
theorem Table.dropped (h : Table io dns ks ns) {frame : Frame} {d : Datagram} (hd : datagramOf frame = some d)
    (hnew : d.key ∉ ks) (hfull : NS_NAT_MAX ≤ ks.length) :
    sends (ns.step io (.input frame)).log = sends ns.log := by
  have hnoted : Table io dns ks { ns.note (.event (.input frame)) with guestMac := frame.be48 6 } :=
    h.same rfl rfl rfl
  have hstep : ns.step io (.input frame) = udpNat io d { ns.note (.event (.input frame)) with guestMac := frame.be48 6 } :=
    netstackInput_datagram hd h.backend
  have halloc := hnoted.flowAlloc d.key
  rw [dif_neg (Nat.not_lt.mpr hfull)] at halloc
  rw [hstep]
  rcases hnoted.flowFind d.key with ⟨i, _, hi⟩ | ⟨hfind, _⟩
  · exact absurd (List.mem_of_getElem? hi) hnew
  · unfold udpNat
    rw [hfind]
    dsimp only
    rw [halloc]
    rfl

theorem Table.flowById (h : Table io dns ks ns) {i : FlowId} {k : Key} (hk : ks[i.val]? = some k) :
    ns.flowById (i.val : Int) = some i := by
  cases hid : ns.flowById (i.val : Int) with
  | none =>
    have hfree := flowById_none hid rfl
    rw [h.live hk] at hfree
    cases hfree
  | some j =>
    obtain ⟨hj, _⟩ := flowById_some hid
    exact congrArg some (Fin.ext (Int.ofNat.inj hj.symm))

/-- A reply on a flow is delivered from its remote to the guest's port. -/
theorem Table.deliver (h : Table io dns ks ns) {i : FlowId} {k : Key} (hk : ks[i.val]? = some k) {data : List Byte}
    (hne : data ≠ []) (hlen : data.length ≤ 1558) :
    delivered (ns.step io (.recv (i.val : Int) data)).log =
      udpFrame ns.guestMac ns.ipId k.ip k.port k.guestPort data :: delivered ns.log := by
  have hflow : ns.flows i = slotOf dns (some k) := by rw [h.flows i, hk]
  have hproto : ((ns.note (.event (.recv (i.val : Int) data))).flows i).proto = .udp := by
    change (ns.flows i).proto = .udp
    rw [hflow]
    exact h.udp k (List.mem_of_getElem? hk)
  have hid : (ns.note (.event (.recv (i.val : Int) data))).flowById (i.val : Int) = some i := h.flowById hk
  have hpos : data.length ≠ 0 := fun h0 => hne (List.length_eq_zero_iff.mp h0)
  unfold step handle netstackHostRecv
  dsimp only
  rw [hid]
  dsimp only
  rw [if_neg hpos, if_pos hproto]
  unfold udpToGuest
  dsimp only
  have hcut : data.take (NS_MTU - ETH_HDR - 20 - 8) = data := List.take_of_length_le hlen
  rw [hcut]
  change udpFrame _ _ (ns.flows i).faceIp (ns.flows i).facePort (ns.flows i).guestPort data :: _ = _
  rw [hflow]
  rfl

theorem deliver_empty (id : Int) : delivered (ns.step io (.recv id [])).log = delivered ns.log := by
  unfold step handle netstackHostRecv
  dsimp only
  split <;> rfl

/-- A reply sends nothing and leaves the table as it is. -/
theorem Table.reply (h : Table io dns ks ns) (id : Int) (data : List Byte) :
    sends (ns.step io (.recv id data)).log = sends ns.log ∧ Table io dns ks (ns.step io (.recv id data)) := by
  have hnoted : Table io dns ks (ns.note (.event (.recv id data))) := h.same rfl rfl rfl
  have hsends : sends (ns.note (.event (.recv id data))).log = sends ns.log := rfl
  unfold step handle netstackHostRecv
  generalize ns.note (.event (.recv id data)) = noted at *
  dsimp only
  split
  · exact ⟨hsends, hnoted⟩
  next i hid =>
    split
    · exact ⟨hsends, hnoted⟩
    · have hlive := (flowById_some hid).2
      have hproto : (noted.flows i).proto = .udp := by
        rw [hnoted.flows i] at hlive ⊢
        cases hk : ks[i.val]? with
        | none => rfl
        | some k => exact hnoted.udp k (List.mem_of_getElem? hk)
      rw [if_pos hproto]
      exact ⟨hsends, hnoted.same rfl rfl rfl⟩

end

/-! ## Whole histories -/

theorem slots_grow (es es' : List Event) : slots es <+: slots (es ++ es') := by
  induction es' using List.reverseRecOn with
  | nil =>
    rw [List.append_nil]
  | append_singleton es' e ih =>
    rw [← List.append_assoc, slots_concat]
    cases keyOf e with
    | none => exact ih
    | some k =>
      by_cases hk : k ∈ slots (es ++ es')
      · rw [addKey_of_mem hk]
        exact ih
      · rw [addKey_of_not_mem hk]
        exact ih.trans (List.prefix_append ..)

theorem keyOf_input {frame : Frame} {d : Datagram} (hd : datagramOf frame = some d) :
    keyOf (.input frame) = some d.key := by
  change (datagramOf frame).map Datagram.key = _
  rw [hd]
  rfl

section
variable {io : NetIo} {dns : BitVec 32} {es : List Event}

/-- The table after a history whose keys fit it. -/
theorem table_run (hw : io.Willing) (ht : ∀ e ∈ es, UdpTraffic e) (hroom : (slots es).length ≤ NS_NAT_MAX) :
    Table io dns (slots es) (run io dns es) := by
  induction es using List.reverseRecOn with
  | nil =>
    exact { backend := rfl, upstream := rfl, udp := nofun, nodup := List.nodup_nil, room := Nat.zero_le _
            flows := fun _ => rfl }
  | append_singleton es e ih =>
    have htable := ih (fun e' he' => ht e' (List.mem_append_left _ he'))
      (Nat.le_trans (slots_grow es [e]).length_le hroom)
    rw [run_append]
    rw [slots_concat] at hroom ⊢
    cases ht e (List.mem_append_right _ (List.mem_singleton_self e)) with
    | datagram frame d h =>
      rw [keyOf_input h.datagramOf] at hroom ⊢
      obtain ⟨_, _, _, hnext⟩ := htable.datagram hw h.datagramOf hroom
      exact hnext
    | reply id data => exact (htable.reply id data).2

theorem remote_run (hw : io.Willing) (ht : ∀ e ∈ es, UdpTraffic e) (hroom : (slots es).length ≤ NS_NAT_MAX)
    {i : FlowId} {k : Key} (hk : (slots es)[i.val]? = some k) :
    remote (trail i (run io dns es).log) = some (k.proto, resolve dns k.ip, k.port) := by
  have htable : Table io dns (slots es) (run io dns es) := table_run hw ht hroom
  have hremote := (remoteInv io dns).run (fun _ _ _ _ _ => trivial : Paced io dns (fun _ _ _ => True) es) i
  have hflow : (run io dns es).flows i = slotOf dns (some k) := by rw [htable.flows i, hk]
  have hlive : ((run io dns es).flows i).state ≠ .free := by
    rw [htable.live hk]
    nofun
  have hto := hremote hlive
  rw [hflow] at hto
  exact hto

/-- A datagram whose key has room is sent once, on a flow that keeps its key from then on. -/
theorem served {frame : Frame} {d : Datagram} (hw : io.Willing) (ht : ∀ e ∈ es, UdpTraffic e)
    (hd : Outgoing frame d) (hroom : (slots (es ++ [.input frame])).length ≤ NS_NAT_MAX) :
    ∃ i : FlowId, sends (run io dns (es ++ [.input frame])).log = (i, d.payload) :: sends (run io dns es).log ∧
      ∀ mid, (slots (es ++ .input frame :: mid))[i.val]? = some d.key := by
  have htable : Table io dns (slots es) (run io dns es) :=
    table_run hw ht (Nat.le_trans (slots_grow es _).length_le hroom)
  have hslots := slots_concat es (.input frame)
  rw [keyOf_input hd.datagramOf] at hslots
  rw [hslots] at hroom
  obtain ⟨i, hi, hsend, _⟩ := htable.datagram hw hd.datagramOf hroom
  rw [run_append]
  refine ⟨i, hsend, fun mid => ?_⟩
  obtain ⟨later, hlater⟩ := slots_grow (es ++ [.input frame]) mid
  rw [List.append_assoc] at hlater
  change _ = slots (es ++ .input frame :: mid) at hlater
  rw [← hlater, hslots, List.getElem?_append_left (List.getElem?_eq_some_iff.mp hi).1, hi]

theorem relays_of_fits (hw : io.Willing) (ht : ∀ e ∈ es, UdpTraffic e) (hf : Fits es) : Relays io dns es := by
  have hroom : (slots es).length ≤ NS_NAT_MAX := by
    rw [length_slots]
    exact hf.keys
  -- every earlier stage has room too
  have hpre : ∀ pre post, es = pre ++ post →
      (∀ e ∈ pre, UdpTraffic e) ∧ (slots pre).length ≤ NS_NAT_MAX := by
    rintro pre post rfl
    exact ⟨fun e he => ht e (List.mem_append_left _ he), Nat.le_trans (slots_grow pre post).length_le hroom⟩
  constructor
  · intro pre frame d post hes hd
    obtain ⟨htpre, _⟩ := hpre pre _ hes
    obtain ⟨htnow, hrnow⟩ := hpre (pre ++ [.input frame]) post (by rw [hes, List.append_assoc]; rfl)
    obtain ⟨i, hsend, hkept⟩ := @served io dns pre frame d hw htpre hd hrnow
    refine ⟨i, hsend, remote_run hw htnow hrnow (hkept []), ?_⟩
    intro mid data rest hpost hlen
    have hmid : es = (pre ++ .input frame :: mid) ++ .recv (i.val : Int) data :: rest := by
      rw [hes, hpost, List.append_assoc]
      rfl
    obtain ⟨htmid, hrmid⟩ := hpre _ _ hmid
    have hne : data ≠ [] := by
      rintro rfl
      have hle := hf.replies _ i rest hmid
      rw [← length_slots] at hle
      have hlt := (List.getElem?_eq_some_iff.mp (hkept mid)).1
      omega
    have hdeliver := (@table_run io dns _ hw htmid hrmid).deliver (hkept mid) hne hlen
    rw [← run_append] at hdeliver
    exact ⟨_, isUdp_udpFrame _ _ d.dst d.dport d.sport hlen, hdeliver⟩
  · intro pre id data post hes
    obtain ⟨htpre, hrpre⟩ := hpre pre _ hes
    have htable : Table io dns (slots pre) (run io dns pre) := table_run hw htpre hrpre
    rw [run_append]
    exact (htable.reply id data).1

/-- A history the relay serves in full has no more keys than slots: the datagram that brings the
first key too many is dropped. -/
theorem room_of_relays (hw : io.Willing) (ht : ∀ e ∈ es, UdpTraffic e) (hr : Relays io dns es) :
    ∀ pre post, es = pre ++ post → (slots pre).length ≤ NS_NAT_MAX := by
  intro pre
  induction pre using List.reverseRecOn with
  | nil => exact fun _ _ => Nat.zero_le _
  | append_singleton pre e ih =>
    intro post hes
    have hes' : es = pre ++ e :: post := by
      rw [hes, List.append_assoc]
      rfl
    have hroom := ih (e :: post) hes'
    have htpre : ∀ e' ∈ pre, UdpTraffic e' := by
      intro e' he'
      exact ht e' (by rw [hes']; exact List.mem_append_left _ he')
    have htable : Table io dns (slots pre) (run io dns pre) := table_run hw htpre hroom
    rw [slots_concat]
    cases ht e (by rw [hes']; exact List.mem_append_right _ List.mem_cons_self) with
    | reply id data => exact hroom
    | datagram frame d h =>
      rw [keyOf_input h.datagramOf]
      by_cases hk : d.key ∈ slots pre
      · rw [addKey_of_mem hk]
        exact hroom
      · rw [addKey_of_not_mem hk, List.length_append]
        by_contra hfull
        have hdrop := htable.dropped h.datagramOf hk (Nat.le_of_lt_succ (Nat.lt_of_not_le hfull))
        obtain ⟨i, hsend, _⟩ := hr.datagram pre frame d post hes' h
        rw [run_append, hdrop] at hsend
        exact List.cons_ne_self _ _ hsend.symm

/-- The datagram that took a slot. -/
theorem taken_by {pre : List Event} (ht : ∀ e ∈ pre, UdpTraffic e) {i : FlowId} {k : Key}
    (hk : (slots pre)[i.val]? = some k) :
    ∃ before frame d after, pre = before ++ .input frame :: after ∧ Outgoing frame d ∧ d.key = k := by
  have hmem : k ∈ keys pre := by
    rw [← (slots_spec pre).2]
    exact List.mem_toFinset.mpr (List.mem_of_getElem? hk)
  obtain ⟨e, he, hkey⟩ := List.mem_filterMap.mp (List.mem_toFinset.mp hmem)
  obtain ⟨before, after, rfl⟩ := List.append_of_mem he
  cases ht e he with
  | reply id data => cases hkey
  | datagram frame d h =>
    rw [keyOf_input h.datagramOf] at hkey
    exact ⟨before, frame, d, after, rfl, h, Option.some.inj hkey⟩

theorem fits_of_relays (hw : io.Willing) (ht : ∀ e ∈ es, UdpTraffic e) (hr : Relays io dns es) : Fits es := by
  have hroom := room_of_relays hw ht hr
  constructor
  · rw [← length_slots]
    exact hroom es [] (List.append_nil es).symm
  · intro pre i post hes
    by_contra hlt
    rw [← length_slots, Nat.not_le] at hlt
    have htpre : ∀ e ∈ pre, UdpTraffic e := fun e he => ht e (by rw [hes]; exact List.mem_append_left _ he)
    have hi : (slots pre)[i.val]? = some (slots pre)[i.val] := List.getElem?_eq_getElem hlt
    obtain ⟨before, frame, d, after, hpre, hd, hkey⟩ := taken_by htpre hi
    have hes' : es = before ++ .input frame :: (after ++ .recv (i.val : Int) [] :: post) := by
      rw [hes, hpre, List.append_assoc]
      rfl
    obtain ⟨j, hsend, _, hreplies⟩ := hr.datagram before frame d _ hes' hd
    -- the flow the datagram went on is the one the empty reply is for
    obtain ⟨j', hsend', hkept⟩ := @served io dns before frame d hw
      (fun e he => htpre e (by rw [hpre]; exact List.mem_append_left _ he)) hd
      (hroom _ (after ++ .recv (i.val : Int) [] :: post) (by rw [hes', List.append_assoc]; rfl))
    rw [hsend'] at hsend
    obtain rfl : j' = j := congrArg Prod.fst (List.cons.inj hsend).1
    have hij : i.val = j'.val := by
      have hsame := hkept after
      rw [← hpre, hkey] at hsame
      exact (List.getElem?_inj hlt (slots_spec pre).1).mp (hi.trans hsame.symm)
    obtain ⟨out, _, hout⟩ := hreplies after [] post (by rw [hij]) (Nat.zero_le _)
    rw [run_append, deliver_empty] at hout
    exact List.cons_ne_self _ _ hout.symm

/-- UDP relay. With a backend that always opens and sends, a history of datagrams and replies is
relayed in full exactly if its distinct flow keys fit the table and no empty reply arrives on a flow
in use. -/
theorem udp_relay_iff (io : NetIo) (dns : BitVec 32) (es : List Event) (hw : io.Willing)
    (ht : ∀ e ∈ es, UdpTraffic e) : Relays io dns es ↔ Fits es := by
  constructor
  · exact fits_of_relays hw ht
  · exact relays_of_fits hw ht

end

/-- A one-byte query to 8.8.8.8, port 53, from port `1024 + n`. -/
def query (n : Nat) : Datagram := ⟨0x08080808, BitVec.ofNat 16 (1024 + n), 53, [1]⟩

def queryFrame (n : Nat) : Frame := .ofList (udpPacket gwMac 0 guestIp (query n))

theorem outgoing_query (n : Nat) : Outgoing (queryFrame n) (query n) := by
  refine ⟨⟨guestIp, isUdp_udpPacket gwMac 0 guestIp ?_⟩, ?_, ?_⟩
  · change 28 + 1 < 2 ^ 16
    omega
  · change (0x08080808 : BitVec 32) ≠ gwIp
    decide
  · rintro ⟨hport, _⟩
    change (53 : BitVec 16) = 67 at hport
    exact absurd hport (by decide)

/-- A query from each of the first `n` ports. -/
def queries (n : Nat) : List Event := (List.range n).map fun k => .input (queryFrame k)

theorem udpTraffic_queries (n : Nat) : ∀ e ∈ queries n, UdpTraffic e := by
  intro e he
  obtain ⟨k, _, rfl⟩ := List.mem_map.mp he
  exact .datagram _ _ (outgoing_query k)

theorem keys_queries (n : Nat) : keys (queries n) = ((List.range n).map fun k => (query k).key).toFinset := by
  unfold keys queries
  rw [List.filterMap_map]
  congr 1
  rw [← List.filterMap_eq_map]
  congr 1
  funext k
  exact keyOf_input (outgoing_query k).datagramOf

theorem willing_plainIo : plainIo.Willing := ⟨fun _ _ _ _ _ => rfl, fun _ _ _ => rfl⟩

/-- Two queries from two ports and an answer to each. -/
theorem two_queries_relayed :
    Relays plainIo dnsIp (queries 2 ++ [.recv 1 [7], .recv 0 [8]]) := by
  refine (udp_relay_iff plainIo dnsIp _ willing_plainIo ?_).mpr ⟨?_, ?_⟩
  · intro e he
    rcases List.mem_append.mp he with hq | hr
    · exact udpTraffic_queries 2 e hq
    · simp only [List.mem_cons, List.not_mem_nil, or_false] at hr
      obtain rfl | rfl := hr
      · exact .reply 1 [7]
      · exact .reply 0 [8]
  · have hkeys : keys (queries 2 ++ [.recv 1 [7], .recv 0 [8]]) = keys (queries 2) := by
      unfold keys
      rw [List.filterMap_append]
      rfl
    rw [hkeys, keys_queries]
    decide
  · intro pre i post hes
    have hmem : Event.recv (i.val : Int) [] ∈ queries 2 ++ [.recv 1 [7], .recv 0 [8]] := by
      rw [hes]
      exact List.mem_append_right _ List.mem_cons_self
    simp [queries] at hmem

/-- The sixty-fifth port's query finds every slot taken by a flow nothing will release. -/
theorem sixty_five_queries_not_relayed :
    plainIo.Willing ∧ (∀ e ∈ queries 65, UdpTraffic e) ∧ ¬ Relays plainIo dnsIp (queries 65) := by
  refine ⟨willing_plainIo, udpTraffic_queries 65, ?_⟩
  intro hr
  have hcard := (fits_of_relays willing_plainIo (udpTraffic_queries 65) hr).keys
  rw [keys_queries] at hcard
  exact absurd hcard (by decide +kernel)

end NetStack

end Quanta.Net
