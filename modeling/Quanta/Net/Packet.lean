/-
What makes a frame to the guest a valid packet, and that every frame the stack builds is one: its
IPv4 lengths agree, the header's checksum and that of what it carries verify, and it names the
addresses and ports it was built for.
-/
import Mathlib.Data.List.GetD
import Quanta.Lib.OnesComplement
import Quanta.Net.Stack

namespace Quanta.Net

open Bytes OnesComplement

/-! ## Valid packets -/

/-- What the checksum of a packet covers besides the packet: addresses, protocol and length. -/
def pseudoHeader (frame : List Byte) : List Byte :=
  (frame.drop 26).take 8 ++ [0, (Frame.ofList frame).byte 23] ++ putBe16 (BitVec.ofNat 16 (frame.length - 34))

/-- The checksum of what an IPv4 packet without options carries verifies: that of an ICMP message
over the message, that of a TCP segment with the pseudo-header, and that of a UDP datagram the same
way unless there is none. -/
inductive Checked (frame : List Byte) : Prop where
  | icmp (proto : (Frame.ofList frame).byte 23 = PROTO_ICMP) (csum : sum (frame.drop 34) = 0xffff)
  | tcp (proto : (Frame.ofList frame).byte 23 = PROTO_TCP) (csum : sum (pseudoHeader frame ++ frame.drop 34) = 0xffff)
  | udp (proto : (Frame.ofList frame).byte 23 = PROTO_UDP)
      (csum : (Frame.ofList frame).be16 40 = 0 ∨ sum (pseudoHeader frame ++ frame.drop 34) = 0xffff)

/-- An IPv4 frame to the guest as a receiver checks it. -/
structure ValidPacket (frame : List Byte) : Prop where
  etype : (Frame.ofList frame).be16 12 = ETYPE_IP
  version : (Frame.ofList frame).byte 14 = 0x45
  size : frame.length ≤ NS_MTU
  total : ((Frame.ofList frame).be16 16).toNat = frame.length - ETH_HDR
  header : sum ((frame.drop ETH_HDR).take 20) = 0xffff
  carried : Checked frame

/-! ## Checksums -/

theorem toNat_append_byte (a b : Byte) : (a ++ b).toNat = a.toNat * 256 + b.toNat := by
  have hor := Nat.two_pow_add_eq_or_of_lt b.isLt a.toNat
  rw [BitVec.toNat_append, Nat.shiftLeft_eq, Nat.mul_comm a.toNat (2 ^ 8), ← hor, Nat.mul_comm]

theorem total_putBe16 (v : BitVec 16) : total (putBe16 v) = v.toNat := by
  change (byteAt v 1).toNat * 256 + (byteAt v 0).toNat + 0 = v.toNat
  rw [← toNat_append_byte, be16_putBe16]
  rfl

/-- The running sum does not overflow on anything as short as a frame. -/
theorem toNat_wordSum {l : List Byte} (h : l.length ≤ 65536) : (wordSum l).toNat = OnesComplement.total l := by
  fun_induction wordSum l with
  | case1 => rfl
  | case2 a =>
    have := a.isLt
    change _ = a.toNat * 256 + 0
    rw [BitVec.toNat_shiftLeft, BitVec.toNat_setWidth_of_le (by decide), Nat.shiftLeft_eq]
    omega
  | case3 a b rest ih =>
    rw [List.length_cons, List.length_cons] at h
    have hab := (a ++ b).isLt
    have hrest := total_le rest
    rw [BitVec.toNat_add, ih (by omega), BitVec.toNat_setWidth_of_le (by decide), total_cons, toNat_append_byte]
    have ha := a.isLt
    have hb := b.isLt
    omega

/-- The carry loop leaves the residue of the sum. -/
theorem toNat_foldCarry (s : BitVec 32) : (foldCarry 2 s).toNat = residue s.toNat := by
  have hround : ∀ x : BitVec 32, ((x &&& 0xffff#32) + (x >>> 16)).toNat = x.toNat % 65536 + x.toNat / 65536 := by
    intro x
    have := x.isLt
    have hand : (x &&& 0xffff#32).toNat = x.toNat % 65536 := by
      rw [BitVec.toNat_and]
      exact Nat.and_two_pow_sub_one_eq_mod x.toNat 16
    rw [BitVec.toNat_add, hand, BitVec.toNat_ushiftRight, Nat.shiftRight_eq_div_pow]
    omega
  have hlast : (foldCarry 2 s).toNat < 65536 := by
    have h := foldCarry_two s
    rw [← BitVec.toNat_inj, BitVec.toNat_ushiftRight, Nat.shiftRight_eq_div_pow] at h
    exact (Nat.div_eq_zero_iff_lt (by decide)).mp h
  have hs := s.isLt
  refine eq_residue (by omega) ?_ ?_
  · simp only [foldCarry]
    split
    · rfl
    split
    · rw [hround]
      omega
    · rw [hround, hround]
      omega
  · simp only [foldCarry]
    split
    · rfl
    split
    · rw [hround]
      omega
    · rw [hround, hround]
      omega

theorem toNat_complement {s : BitVec 32} : (~~~ ((foldCarry 2 s).setWidth 16)).toNat = 65535 - residue s.toNat := by
  have hle := residue_le s.toNat
  rw [BitVec.toNat_not, BitVec.toNat_setWidth, toNat_foldCarry, Nat.mod_eq_of_lt (by omega)]

theorem toNat_inetCsum {l : List Byte} (h : l.length ≤ 65536) : (inetCsum l).toNat = 65535 - residue (OnesComplement.total l) := by
  unfold inetCsum
  rw [toNat_complement, toNat_wordSum h]

/-- A message whose checksum field was zero when its checksum was taken. -/
theorem sum_inetCsum {pre post : List Byte} (hpre : 2 ∣ pre.length)
    (hlen : (pre ++ putBe16 0 ++ post).length ≤ 65536) :
    sum (pre ++ putBe16 (inetCsum (pre ++ putBe16 0 ++ post)) ++ post) = 0xffff := by
  have hzero : pre ++ putBe16 0 ++ post = pre ++ 0#8 :: 0#8 :: post := List.append_assoc ..
  have hcsum := toNat_inetCsum hlen
  generalize inetCsum (pre ++ putBe16 0 ++ post) = c at *
  rw [hzero] at hcsum
  have hbytes : (byteAt c 1).toNat * 256 + (byteAt c 0).toNat = c.toNat := by
    rw [← toNat_append_byte, be16_putBe16]
  rw [List.append_assoc]
  exact sum_checksum hpre (hbytes.trans hcsum)

/-! ## IPv4 frames -/

/-- An IPv4 frame from the gateway, without options. -/
def ipFrame (mac : BitVec 48) (id frag : BitVec 16) (proto : Byte) (src dst : BitVec 32) (body : List Byte) : List Byte :=
  ethHeader mac ETYPE_IP ++ ipHeader (BitVec.ofNat 16 (20 + body.length)) id frag proto src dst ++ body

section
variable (mac : BitVec 48) (id frag : BitVec 16) (proto : Byte) (src dst : BitVec 32) (body : List Byte)

theorem length_ipFrame : (ipFrame mac id frag proto src dst body).length = 34 + body.length := by
  have heth : (ethHeader mac ETYPE_IP).length = 14 := rfl
  unfold ipFrame
  rw [List.length_append, List.length_append, heth, length_ipHeader]

theorem drop_ipFrame : (ipFrame mac id frag proto src dst body).drop 34 = body := rfl

theorem header_ipFrame : ((ipFrame mac id frag proto src dst body).drop ETH_HDR).take 20 =
    ipHeader (BitVec.ofNat 16 (20 + body.length)) id frag proto src dst := rfl

theorem pseudoHeader_ipFrame : pseudoHeader (ipFrame mac id frag proto src dst body) =
    putBe32 src ++ putBe32 dst ++ [0, proto] ++ putBe16 (BitVec.ofNat 16 body.length) := by
  unfold pseudoHeader
  rw [length_ipFrame, Nat.add_sub_cancel_left]
  rfl

theorem sum_ipHeader (iptot : BitVec 16) : sum (ipHeader iptot id frag proto src dst) = 0xffff := by
  refine @sum_inetCsum ([0x45, 0] ++ putBe16 iptot ++ putBe16 id ++ putBe16 frag ++ [64, proto])
    (putBe32 src ++ putBe32 dst) ⟨5, rfl⟩ ?_
  change 20 ≤ 65536
  decide

theorem validPacket_ipFrame (hlen : body.length ≤ 1566) (hc : Checked (ipFrame mac id frag proto src dst body)) :
    ValidPacket (ipFrame mac id frag proto src dst body) where
  etype := be16_putBe16 ETYPE_IP
  version := rfl
  size := by
    rw [length_ipFrame]
    change 34 + body.length ≤ 1600
    omega
  total := by
    have hfield : (Frame.ofList (ipFrame mac id frag proto src dst body)).be16 16 =
        BitVec.ofNat 16 (20 + body.length) := be16_putBe16 _
    rw [hfield, length_ipFrame, BitVec.toNat_ofNat, Nat.mod_eq_of_lt (by omega)]
    change _ = 34 + body.length - 14
    omega
  header := by
    rw [header_ipFrame]
    exact sum_ipHeader id frag proto src dst _
  carried := hc

/-- A datagram without a checksum is valid. -/
theorem checked_udp {sport dport len : BitVec 16} {data : List Byte} (hb : body = udpHeader sport dport len ++ data) :
    Checked (ipFrame mac id frag PROTO_UDP src dst body) := by
  refine .udp rfl (.inl ?_)
  rw [hb]
  exact be16_putBe16 0

/-- What `l4_csum` adds up is the sum of the pseudo-header and the segment. -/
theorem toNat_l4Csum {l4 : List Byte} (hlen : l4.length ≤ 1566) :
    (l4Csum src dst PROTO_TCP l4).toNat = 65535 - residue (OnesComplement.total
      (putBe32 src ++ putBe32 dst ++ [0, PROTO_TCP] ++ putBe16 (BitVec.ofNat 16 l4.length) ++ l4)) := by
  have htotal : OnesComplement.total
      (putBe32 src ++ putBe32 dst ++ [0, PROTO_TCP] ++ putBe16 (BitVec.ofNat 16 l4.length) ++ l4) =
      OnesComplement.total (putBe32 src ++ putBe32 dst) + 6 + l4.length + OnesComplement.total l4 := by
    rw [total_append ⟨6, rfl⟩, total_append ⟨5, rfl⟩, total_append ⟨4, rfl⟩, total_putBe16, BitVec.toNat_ofNat,
      Nat.mod_eq_of_lt (by omega)]
    rfl
  have haddrs : OnesComplement.total (putBe32 src ++ putBe32 dst) ≤ 65535 * 8 := total_le _
  have hseg := total_le l4
  have hwords : (wordSum (putBe32 src ++ putBe32 dst)).toNat = OnesComplement.total (putBe32 src ++ putBe32 dst) :=
    toNat_wordSum (by decide : 8 ≤ 65536)
  have hproto : (PROTO_TCP.setWidth 32).toNat = 6 := rfl
  unfold l4Csum
  rw [toNat_complement, htotal, BitVec.toNat_add, BitVec.toNat_add, BitVec.toNat_add, hwords,
    toNat_wordSum (by omega : l4.length ≤ 65536), hproto, BitVec.toNat_ofNat]
  congr 2
  omega

/-- A segment that carries the checksum of itself with the pseudo-header is valid. -/
theorem checked_tcp {head post : List Byte} (hhead : 2 ∣ head.length) (hlen : body.length ≤ 1566)
    (hb : body = head ++ putBe16 (l4Csum src dst PROTO_TCP (head ++ putBe16 0 ++ post)) ++ post) :
    Checked (ipFrame mac id frag PROTO_TCP src dst body) := by
  refine .tcp rfl ?_
  rw [drop_ipFrame, pseudoHeader_ipFrame]
  have hsame : (head ++ putBe16 0 ++ post).length = body.length := by
    rw [hb]
    simp only [List.length_append]
    rfl
  have hcode := toNat_l4Csum src dst (by omega : (head ++ putBe16 0 ++ post).length ≤ 1566)
  rw [hsame] at hcode
  have hpseudo : 2 ∣ (putBe32 src ++ putBe32 dst ++ [0, PROTO_TCP] ++ putBe16 (BitVec.ofNat 16 body.length)).length :=
    ⟨6, rfl⟩
  generalize putBe32 src ++ putBe32 dst ++ [0, PROTO_TCP] ++ putBe16 (BitVec.ofNat 16 body.length) = pseudo at *
  generalize l4Csum src dst PROTO_TCP (head ++ putBe16 0 ++ post) = c at *
  have hpre : 2 ∣ (pseudo ++ head).length := by
    rw [List.length_append]
    exact Nat.dvd_add hpseudo hhead
  have hfield : pseudo ++ (head ++ putBe16 0 ++ post) = pseudo ++ head ++ 0#8 :: 0#8 :: post := by
    simp [putBe16, byteAt]
  have hbytes : (byteAt c 1).toNat * 256 + (byteAt c 0).toNat = c.toNat := by
    rw [← toNat_append_byte, be16_putBe16]
  have hwhole : pseudo ++ body = pseudo ++ head ++ byteAt c 1 :: byteAt c 0 :: post := by
    rw [hb]
    simp [putBe16]
  rw [hfield] at hcode
  rw [hwhole]
  exact sum_checksum hpre (hbytes.trans hcode)

end

/-! ## The frames of the stack -/

/-- Whom a frame is for, and whom it is from. -/
structure Addressed (frame : List Byte) (mac : BitVec 48) (src : BitVec 32) (sport dport : BitVec 16) : Prop where
  mac : (Frame.ofList frame).be48 0 = mac
  src : (Frame.ofList frame).be32 26 = src
  sport : (Frame.ofList frame).be16 34 = sport
  dport : (Frame.ofList frame).be16 36 = dport

theorem be48_putBe48 (v : BitVec 48) :
    (byteAt v 5 ++ byteAt v 4 ++ byteAt v 3 ++ byteAt v 2 : BitVec 32) ++ (byteAt v 1 ++ byteAt v 0) = v := by
  apply BitVec.eq_of_getLsbD_eq
  intro i hi
  simp only [byteAt, BitVec.getLsbD_append, BitVec.getLsbD_setWidth, BitVec.getLsbD_ushiftRight]
  grind

theorem validPacket_icmpReply (mac : BitVec 48) (id : BitVec 16) (src : BitVec 32) {icmp : List Byte}
    (hmin : 4 ≤ icmp.length) (hlen : icmp.length ≤ 1566) :
    ValidPacket (icmpReply mac id src icmp) ∧ (Frame.ofList (icmpReply mac id src icmp)).be48 0 = mac := by
  refine ⟨?_, be48_putBe48 mac⟩
  let rest := icmp.drop 4
  let body := [0, icmp.getD 1 0] ++ putBe16 (inetCsum ([0, icmp.getD 1 0] ++ putBe16 0 ++ rest)) ++ rest
  have hrest : 4 + rest.length = icmp.length := by
    rw [List.length_drop]
    omega
  have hbody : body.length = icmp.length := by
    rw [← hrest, List.length_append]
    rfl
  have hframe : icmpReply mac id src icmp = ipFrame mac id 0 PROTO_ICMP gwIp src body := by
    unfold ipFrame
    rw [hbody]
    rfl
  rw [hframe]
  refine validPacket_ipFrame _ _ _ _ _ _ _ (by omega) (.icmp rfl ?_)
  rw [drop_ipFrame]
  refine sum_inetCsum ⟨1, rfl⟩ ?_
  rw [List.length_append]
  change 4 + rest.length ≤ _
  omega

theorem validPacket_dhcpReply (id : BitVec 16) (replyType : Byte) (xid : BitVec 32) (flags : BitVec 16) (chaddr : BitVec 48) :
    ValidPacket (dhcpReply id replyType xid flags chaddr) ∧
      Addressed (dhcpReply id replyType xid flags chaddr) 0xffffffffffff gwIp 67 68 := by
  constructor
  · let body := udpHeader 67 68 308 ++ dhcpBody replyType xid flags chaddr
    have hbody : body.length = 308 := by
      simp only [body, udpHeader, dhcpBody, List.length_append, List.length_replicate, length_putBe16, length_putBe32,
        length_putBe48, List.length_cons, List.length_nil]
    have hframe : dhcpReply id replyType xid flags chaddr = ipFrame 0xffffffffffff id 0 PROTO_UDP gwIp 0xffffffff body := by
      unfold ipFrame
      rw [hbody]
      exact List.append_assoc ..
    rw [hframe]
    exact validPacket_ipFrame _ _ _ _ _ _ _ (by omega) (checked_udp _ _ _ _ _ _ rfl)
  · exact ⟨be48_putBe48 _, be32_putBe32 gwIp, be16_putBe16 67, be16_putBe16 68⟩

theorem validPacket_udpFrame (mac : BitVec 48) (id : BitVec 16) (src : BitVec 32) (sport dport : BitVec 16)
    {data : List Byte} (hlen : data.length ≤ 1558) :
    ValidPacket (udpFrame mac id src sport dport data) ∧ Addressed (udpFrame mac id src sport dport data) mac src sport dport := by
  constructor
  · let body := udpHeader sport dport (BitVec.ofNat 16 (8 + data.length)) ++ data
    have hbody : body.length = 8 + data.length := List.length_append
    have hframe : udpFrame mac id src sport dport data = ipFrame mac id 0 PROTO_UDP src guestIp body := by
      unfold ipFrame
      rw [hbody, ← Nat.add_assoc]
      exact List.append_assoc ..
    rw [hframe]
    exact validPacket_ipFrame _ _ _ _ _ _ _ (by omega) (checked_udp _ _ _ _ _ _ rfl)
  · exact ⟨be48_putBe48 mac, be32_putBe32 src, be16_putBe16 sport, be16_putBe16 dport⟩

theorem validPacket_tcpFrame (mac : BitVec 48) (id : BitVec 16) (h : TcpHeader) (words : Byte) {options payload : List Byte}
    (hlen : options.length + payload.length ≤ 1546) :
    ValidPacket (tcpFrame mac id h words options payload) ∧
      Addressed (tcpFrame mac id h words options payload) mac h.src h.sport h.dport := by
  constructor
  · let head := putBe16 h.sport ++ putBe16 h.dport ++ putBe32 h.seq ++ putBe32 h.ack ++ [words <<< 4, h.flags] ++
      putBe16 h.wnd
    let post := putBe16 0 ++ (options ++ payload)
    let body := head ++ putBe16 (l4Csum h.src guestIp PROTO_TCP (head ++ putBe16 0 ++ post)) ++ post
    have hbody : body.length = 20 + (options.length + payload.length) := by
      simp only [body, head, post, List.length_append, length_putBe16, length_putBe32, List.length_cons, List.length_nil]
      omega
    have hframe : tcpFrame mac id h words options payload = ipFrame mac id 0x4000 PROTO_TCP h.src guestIp body := by
      unfold ipFrame tcpFrame
      rw [hbody]
      have hsize : 40 + options.length + payload.length = 20 + (20 + (options.length + payload.length)) := by omega
      rw [hsize]
      rfl
    rw [hframe]
    exact validPacket_ipFrame _ _ _ _ _ _ _ (by omega) (checked_tcp _ _ _ _ _ _ ⟨8, rfl⟩ (by omega) rfl)
  · exact ⟨be48_putBe48 mac, be32_putBe32 h.src, be16_putBe16 h.sport, be16_putBe16 h.dport⟩

end Quanta.Net
