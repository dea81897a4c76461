/-
Frames of the usermode network stack: reading the fields of a frame the guest transmitted, the
internet checksum, and the bytes of every frame the stack emits (ARP and ICMP replies, DHCP
offers, UDP datagrams and TCP segments).
-/
import Quanta.Lib.Bytes

namespace Quanta.Net

open Bytes

variable (mac : BitVec 48) (id : BitVec 16)

/-! ## Constants -/

def NS_MTU : Nat := 1600
def NS_TCP_BUF : BitVec 32 := 32768
def NS_TCP_MSS : BitVec 32 := 1460

def ETH_HDR : Nat := 14
def ETYPE_IP : BitVec 16 := 0x0800
def ETYPE_ARP : BitVec 16 := 0x0806

def PROTO_ICMP : Byte := 1
def PROTO_TCP : Byte := 6
def PROTO_UDP : Byte := 17

def TCP_FIN : Byte := 0x01
def TCP_SYN : Byte := 0x02
def TCP_RST : Byte := 0x04
def TCP_ACK : Byte := 0x10

/-! The addresses of the virtual network, in network order. -/

def gwMac : BitVec 48 := 0x52550a000202
def gwIp : BitVec 32 := 0x0a000202
def dnsIp : BitVec 32 := 0x0a000203
def guestIp : BitVec 32 := 0x0a00020f
def netmask : BitVec 32 := 0xffffff00
def dhcpMagic : BitVec 32 := 0x63825363

/-! ## Frames from the guest -/

/-- A frame handed to the stack: the bytes at and after the pointer, and the length it comes with.
The bytes past `len` are whatever the memory there holds. -/
structure Frame where
  byte : Nat → Byte
  len : Nat

namespace Frame

def ofList (l : List Byte) : Frame := ⟨fun i => l.getD i 0, l.length⟩

def be16 (f : Frame) (i : Nat) : BitVec 16 := f.byte i ++ f.byte (i + 1)

def be32 (f : Frame) (i : Nat) : BitVec 32 := f.byte i ++ f.byte (i + 1) ++ f.byte (i + 2) ++ f.byte (i + 3)

def be48 (f : Frame) (i : Nat) : BitVec 48 := f.be32 i ++ f.be16 (i + 4)

/-- The `n` bytes at offset `i`. -/
def slice (f : Frame) (i n : Nat) : List Byte := (List.range n).map fun k => f.byte (i + k)

@[simp] theorem length_slice (f : Frame) (i n : Nat) : (f.slice i n).length = n := by
  simp [slice]

end Frame

/-! ## Packets of the guest -/

inductive Proto where
  | udp
  | tcp
  deriving DecidableEq

/-- What names a flow: protocol, guest port, and the remote endpoint the guest addressed. -/
structure Key where
  proto : Proto
  guestPort : BitVec 16
  ip : BitVec 32
  port : BitVec 16
  deriving DecidableEq

/-- The header length and the packet length of an IPv4 frame, cut to what the frame carries. -/
def parseIp (frame : Frame) : Option (Nat × Nat) :=
  if frame.len < ETH_HDR + 20 then none
  else if frame.byte ETH_HDR >>> 4 ≠ 4 then none
  else
    let ihl := (frame.byte ETH_HDR &&& 0x0f#8).toNat * 4
    let iptotal := min (frame.be16 (ETH_HDR + 2)).toNat (frame.len - ETH_HDR)
    if ihl < 20 ∨ frame.len < ETH_HDR + ihl then none
    else if iptotal < ihl then none
    else some (ihl, iptotal)

/-- A UDP datagram of the guest. -/
structure Datagram where
  dst : BitVec 32
  sport : BitVec 16
  dport : BitVec 16
  payload : List Byte

def Datagram.key (d : Datagram) : Key := ⟨.udp, d.sport, d.dst, d.dport⟩

/-- The datagram in a frame; a length field that does not fit is replaced by the frame's. -/
def parseUdp (frame : Frame) (ihl iptotal : Nat) : Option Datagram :=
  let udp := ETH_HDR + ihl
  if iptotal < ihl + 8 then none
  else
    let len := (frame.be16 (udp + 4)).toNat
    let ulen := if len < 8 ∨ iptotal - ihl < len then iptotal - ihl else len
    some { dst := frame.be32 (ETH_HDR + 16), sport := frame.be16 udp, dport := frame.be16 (udp + 2)
           payload := frame.slice (udp + 8) (ulen - 8) }

/-- A TCP segment of the guest. -/
structure Segment where
  dst : BitVec 32
  sport : BitVec 16
  dport : BitVec 16
  seq : BitVec 32
  ack : BitVec 32
  flags : Byte
  wnd : BitVec 16
  payload : List Byte

namespace Segment

def key (s : Segment) : Key := ⟨.tcp, s.sport, s.dst, s.dport⟩

def has (s : Segment) (flag : Byte) : Bool := s.flags &&& flag != 0

/-- The window the flow keeps. -/
def guestWnd (s : Segment) : BitVec 16 := if s.wnd = 0 then 1 else s.wnd

end Segment

def parseTcp (frame : Frame) (ihl iptotal : Nat) : Option Segment :=
  let t := ETH_HDR + ihl
  if iptotal < ihl + 20 then none
  else
    let doff := (frame.byte (t + 12) >>> 4).toNat * 4
    if doff < 20 ∨ iptotal < ihl + doff then none
    else some
      { dst := frame.be32 (ETH_HDR + 16), sport := frame.be16 t, dport := frame.be16 (t + 2)
        seq := frame.be32 (t + 4), ack := frame.be32 (t + 8), flags := frame.byte (t + 13)
        wnd := frame.be16 (t + 14), payload := frame.slice (t + doff) (iptotal - ihl - doff) }

/-! ## Fields of the frames the stack builds -/

def putBe16 (v : BitVec 16) : List Byte := [byteAt v 1, byteAt v 0]

def putBe32 (v : BitVec 32) : List Byte := [byteAt v 3, byteAt v 2, byteAt v 1, byteAt v 0]

def putBe48 (v : BitVec 48) : List Byte :=
  [byteAt v 5, byteAt v 4, byteAt v 3, byteAt v 2, byteAt v 1, byteAt v 0]

@[simp] theorem length_putBe16 (v : BitVec 16) : (putBe16 v).length = 2 := rfl

@[simp] theorem length_putBe32 (v : BitVec 32) : (putBe32 v).length = 4 := rfl

@[simp] theorem length_putBe48 (v : BitVec 48) : (putBe48 v).length = 6 := rfl

/-- The big-endian 16-bit words of a byte list, summed; a last odd byte is a high byte. -/
def wordSum : List Byte → BitVec 32
  | [] => 0
  | [a] => a.setWidth 32 <<< 8
  | a :: b :: rest => (a ++ b).setWidth 32 + wordSum rest

/-- `while (sum >> 16) sum = (sum & 0xffff) + (sum >> 16)`, for at most `n` rounds. -/
def foldCarry : Nat → BitVec 32 → BitVec 32
  | 0, sum => sum
  | n + 1, sum => if sum >>> 16 = 0 then sum else foldCarry n ((sum &&& 0xffff#32) + (sum >>> 16))

/-- Two rounds end the carry loop. -/
theorem foldCarry_two (sum : BitVec 32) : foldCarry 2 sum >>> 16 = 0 := by
  have hand : ∀ x : BitVec 32, (x &&& 0xffff#32).toNat = x.toNat % 65536 := by
    intro x
    rw [BitVec.toNat_and]
    exact Nat.and_two_pow_sub_one_eq_mod x.toNat 16
  have hshift : ∀ x : BitVec 32, x >>> 16 = 0 ↔ x.toNat < 65536 := by
    intro x
    rw [← BitVec.toNat_inj, BitVec.toNat_ushiftRight, Nat.shiftRight_eq_div_pow]
    exact Nat.div_eq_zero_iff_lt (by decide)
  have hround : ∀ x : BitVec 32, ((x &&& 0xffff#32) + (x >>> 16)).toNat = x.toNat % 65536 + x.toNat / 65536 := by
    intro x
    have := x.isLt
    rw [BitVec.toNat_add, hand, BitVec.toNat_ushiftRight, Nat.shiftRight_eq_div_pow]
    omega
  have := sum.isLt
  simp only [foldCarry]
  split
  · assumption
  split
  · assumption
  · rw [hshift, hround, hround]
    omega

def inetCsum (data : List Byte) : BitVec 16 := ~~~ ((foldCarry 2 (wordSum data)).setWidth 16)

/-- The TCP checksum, over the IPv4 pseudo-header and the segment. -/
def l4Csum (src dst : BitVec 32) (proto : Byte) (l4 : List Byte) : BitVec 16 :=
  ~~~ ((foldCarry 2 (wordSum (putBe32 src ++ putBe32 dst) + proto.setWidth 32 + BitVec.ofNat 32 l4.length +
    wordSum l4)).setWidth 16)

def ethHeader (dst : BitVec 48) (etype : BitVec 16) : List Byte := putBe48 dst ++ putBe48 gwMac ++ putBe16 etype

/-- An IPv4 header without options, for a packet of `iptot` bytes. -/
def ipHeader (iptot id frag : BitVec 16) (proto : Byte) (src dst : BitVec 32) : List Byte :=
  let head := [0x45, 0] ++ putBe16 iptot ++ putBe16 id ++ putBe16 frag ++ [64, proto]
  let addrs := putBe32 src ++ putBe32 dst
  head ++ putBe16 (inetCsum (head ++ putBe16 0 ++ addrs)) ++ addrs

/-! ## The frames the stack emits -/

/-- The reply of `handle_arp` to a request for `tpa` from `sha`, `spa`. -/
def arpReply (sha : BitVec 48) (spa tpa : BitVec 32) : List Byte :=
  ethHeader sha ETYPE_ARP ++ putBe16 1 ++ putBe16 ETYPE_IP ++ [6, 4] ++ putBe16 2 ++ putBe48 gwMac ++
    putBe32 tpa ++ putBe48 sha ++ putBe32 spa

/-- The reply of `handle_icmp` to the echo request `icmp` from `src`. -/
def icmpReply (mac : BitVec 48) (id : BitVec 16) (src : BitVec 32) (icmp : List Byte) : List Byte :=
  let code := icmp.getD 1 0
  let rest := icmp.drop 4
  ethHeader mac ETYPE_IP ++ ipHeader (BitVec.ofNat 16 (20 + icmp.length)) id 0 PROTO_ICMP gwIp src ++
    ([0, code] ++ putBe16 (inetCsum ([0, code, 0, 0] ++ rest)) ++ rest)

/-- A UDP header without a checksum. -/
def udpHeader (sport dport len : BitVec 16) : List Byte :=
  putBe16 sport ++ putBe16 dport ++ putBe16 len ++ putBe16 0

/-- The BOOTP body of a DHCP reply, padded to 300 bytes. -/
def dhcpBody (replyType : Byte) (xid : BitVec 32) (flags : BitVec 16) (chaddr : BitVec 48) : List Byte :=
  [2, 1, 6, 0] ++ putBe32 xid ++ [0, 0] ++ putBe16 flags ++ [0, 0, 0, 0] ++ putBe32 guestIp ++ putBe32 gwIp ++
    [0, 0, 0, 0] ++ putBe48 chaddr ++ List.replicate 202 0 ++ putBe32 dhcpMagic ++
    ([53, 1, replyType, 54, 4] ++ putBe32 gwIp ++ [51, 4] ++ putBe32 86400 ++ [1, 4] ++ putBe32 netmask ++
      [3, 4] ++ putBe32 gwIp ++ [6, 4] ++ putBe32 dnsIp ++ [255]) ++ List.replicate 26 0

/-- The reply of `handle_dhcp`, broadcast from port 67 to port 68. -/
def dhcpReply (id : BitVec 16) (replyType : Byte) (xid : BitVec 32) (flags : BitVec 16) (chaddr : BitVec 48) :
    List Byte :=
  ethHeader 0xffffffffffff ETYPE_IP ++ ipHeader 328 id 0 PROTO_UDP gwIp 0xffffffff ++ udpHeader 67 68 308 ++
    dhcpBody replyType xid flags chaddr

/-- A datagram to the guest, as `udp_to_guest` builds it. -/
def udpFrame (mac : BitVec 48) (id : BitVec 16) (src : BitVec 32) (sport dport : BitVec 16) (data : List Byte) :
    List Byte :=
  ethHeader mac ETYPE_IP ++ ipHeader (BitVec.ofNat 16 (28 + data.length)) id 0 PROTO_UDP src guestIp ++
    udpHeader sport dport (BitVec.ofNat 16 (8 + data.length)) ++ data

/-- The fields of a TCP segment to the guest, apart from its options and payload. -/
structure TcpHeader where
  src : BitVec 32
  sport : BitVec 16
  dport : BitVec 16
  seq : BitVec 32
  ack : BitVec 32
  flags : Byte
  wnd : BitVec 16

/-- A TCP segment to the guest. `words` is the header length with `options`, in words. -/
def tcpFrame (mac : BitVec 48) (id : BitVec 16) (h : TcpHeader) (words : Byte) (options payload : List Byte) :
    List Byte :=
  let head := putBe16 h.sport ++ putBe16 h.dport ++ putBe32 h.seq ++ putBe32 h.ack ++ [words <<< 4, h.flags] ++
    putBe16 h.wnd
  let rest := options ++ payload
  let csum := l4Csum h.src guestIp PROTO_TCP (head ++ putBe16 0 ++ putBe16 0 ++ rest)
  ethHeader mac ETYPE_IP ++
    ipHeader (BitVec.ofNat 16 (40 + options.length + payload.length)) id 0x4000 PROTO_TCP h.src guestIp ++
    (head ++ putBe16 csum ++ putBe16 0 ++ rest)

theorem length_ipHeader (iptot id frag : BitVec 16) (proto : Byte) (src dst : BitVec 32) :
    (ipHeader iptot id frag proto src dst).length = 20 := rfl

theorem length_tcpFrame (h : TcpHeader) (words : Byte) (options payload : List Byte) :
    (tcpFrame mac id h words options payload).length = 54 + (options.length + payload.length) := by
  have heth : (ethHeader mac ETYPE_IP).length = 14 := rfl
  unfold tcpFrame
  dsimp only
  simp only [List.length_append, heth, length_ipHeader, length_putBe16, length_putBe32, List.length_cons, List.length_nil]
  omega

/-- A guest's segment in a frame to the gateway, as a guest without options or checksums writes it. -/
def guestBytes (s : Segment) : List Byte :=
  putBe48 gwMac ++ putBe48 0x525400123456 ++ putBe16 ETYPE_IP ++
    ipHeader (BitVec.ofNat 16 (40 + s.payload.length)) 0 0x4000 PROTO_TCP guestIp s.dst ++
    putBe16 s.sport ++ putBe16 s.dport ++ putBe32 s.seq ++ putBe32 s.ack ++ [0x50, s.flags] ++ putBe16 s.wnd ++
    putBe16 0 ++ putBe16 0 ++ s.payload

/-! ## Reading a TCP segment back -/

def tcpSeq (frame : List Byte) : BitVec 32 := (Frame.ofList frame).be32 38

def tcpAck (frame : List Byte) : BitVec 32 := (Frame.ofList frame).be32 42

def tcpFlags (frame : List Byte) : Byte := (Frame.ofList frame).byte 47

/-- What follows the TCP header, whose length in words is the high half of its thirteenth byte. -/
def tcpPayload (frame : List Byte) : List Byte :=
  frame.drop (34 + 4 * ((Frame.ofList frame).byte 46 >>> 4).toNat)

theorem be16_putBe16 (v : BitVec 16) : byteAt v 1 ++ byteAt v 0 = v := by
  apply BitVec.eq_of_getLsbD_eq
  intro i hi
  simp only [byteAt, BitVec.getLsbD_append, BitVec.getLsbD_setWidth, BitVec.getLsbD_ushiftRight]
  grind

theorem be32_putBe32 (v : BitVec 32) : byteAt v 3 ++ byteAt v 2 ++ byteAt v 1 ++ byteAt v 0 = v := by
  apply BitVec.eq_of_getLsbD_eq
  intro i hi
  simp only [byteAt, BitVec.getLsbD_append, BitVec.getLsbD_setWidth, BitVec.getLsbD_ushiftRight]
  grind

theorem tcpSeq_tcpFrame (h : TcpHeader) (words : Byte) (o p : List Byte) :
    tcpSeq (tcpFrame mac id h words o p) = h.seq := be32_putBe32 h.seq

theorem tcpAck_tcpFrame (h : TcpHeader) (words : Byte) (o p : List Byte) :
    tcpAck (tcpFrame mac id h words o p) = h.ack := be32_putBe32 h.ack

theorem tcpFlags_tcpFrame (h : TcpHeader) (words : Byte) (o p : List Byte) :
    tcpFlags (tcpFrame mac id h words o p) = h.flags := rfl

theorem drop_tcpFrame (h : TcpHeader) (words : Byte) (o p : List Byte) (n : Nat) :
    (tcpFrame mac id h words o p).drop (54 + n) = (o ++ p).drop n := by
  rw [← List.drop_drop]
  rfl

theorem tcpPayload_of_words {mac : BitVec 48} {id : BitVec 16} {h : TcpHeader} {words : Byte} {o p : List Byte}
    {n : Nat} (hw : 34 + 4 * (words <<< 4 >>> 4).toNat = 54 + n) :
    tcpPayload (tcpFrame mac id h words o p) = (o ++ p).drop n := by
  have hbyte : (Frame.ofList (tcpFrame mac id h words o p)).byte 46 = words <<< 4 := rfl
  unfold tcpPayload
  rw [hbyte, hw]
  exact drop_tcpFrame mac id h words o p n

theorem tcpPayload_tcpFrame (h : TcpHeader) (p : List Byte) :
    tcpPayload (tcpFrame mac id h 5 [] p) = p := tcpPayload_of_words (by decide : _ = 54 + 0)

/-- With one four-byte option. -/
theorem tcpPayload_option (h : TcpHeader) (a b c d : Byte) (p : List Byte) :
    tcpPayload (tcpFrame mac id h 6 [a, b, c, d] p) = p := tcpPayload_of_words (by decide : _ = 54 + 4)

end Quanta.Net
