/-
Host to guest: what the bridge does with the bytes a host sends on a TCP flow. The payloads of the
segments it emits are, in order, a prefix of the bytes the host delivered, at consecutive sequence
numbers; its FIN comes once and last; acknowledgements never pass what was sent. A data segment lies
inside the window the guest last advertised exactly when that window is not zero: the stack takes a
zero window for a window of one byte.
-/
import Quanta.Net.Upload

namespace Quanta.Net

/-! ## Reading a trail -/

/-- The bytes the host has delivered to flow `i`. -/
def received (i : FlowId) : List Item → List Byte
  | [] => []
  | .event (.recv id data) :: older => if id = (i.val : Int) then received i older ++ data else received i older
  | _ :: older => received i older

/-- The payloads of the segments emitted, in order. -/
def emitted : List Item → List Byte
  | [] => []
  | .call (.out (some _) frame) :: older => emitted older ++ tcpPayload frame
  | _ :: older => emitted older

def isFin (frame : List Byte) : Bool := tcpFlags frame &&& TCP_FIN != 0

/-- How many FINs were emitted. -/
def fins : List Item → Nat
  | [] => 0
  | .call (.out (some _) frame) :: older => fins older + (isFin frame).toNat
  | _ :: older => fins older

/-- The segment that last advertised the guest's window: the newest that is not a reset, or the SYN
that opened the flow. -/
def lastHeard (syn : Segment) (T : List Item) : Segment :=
  ((segments syn.key T).find? fun s => !s.has TCP_RST).getD syn

/-- `Q` holds of every frame emitted for flow `i`, with the flow and the trail when it was emitted. -/
def Emits (i : FlowId) (Q : NatFlow → List Byte → List Item → Prop) (T : List Item) : Prop :=
  ∀ g frame older, .call (.out (some (i, g)) frame) :: older <:+ T → Q g frame older

/-- What the frames of a TCP flow are, opened by the segment `syn`, with our initial sequence number
`isn`. -/
structure Emitted (i : FlowId) (T : List Item) (syn : Segment) (isn : BitVec 32) : Prop where
  synack : Emits i (fun _ frame _ => tcpFlags frame &&& TCP_SYN ≠ 0 → tcpSeq frame = isn) T
  sent : emitted T <+: received i T
  consecutive : Emits i (fun _ frame older => tcpPayload frame ≠ [] →
    tcpSeq frame = isn + 1 + BitVec.ofNat 32 (emitted older).length) T
  fin_once : fins T ≤ 1
  fin_last : Emits i (fun _ frame older => isFin frame = true →
    emitted older = received i T ∧ tcpSeq frame = isn + 1 + BitVec.ofNat 32 (emitted older).length) T
  window : Emits i (fun g frame older => tcpPayload frame ≠ [] →
    ((tcpSeq frame - g.sndUna).toNat + (tcpPayload frame).length ≤ (lastHeard syn older).wnd.toNat ↔
      (lastHeard syn older).wnd ≠ 0)) T

/-- Whether our SYN was sent, as a number of sequence numbers. -/
def NatFlow.synSent (f : NatFlow) : Nat := if f.state = .connecting then 0 else 1

/-- What is so of the flow itself besides. The guest has acknowledged no more than the SYN, the bytes
and the FIN that were sent, and at most 65535 of the bytes are outstanding, so that `snd_una` cannot
be past `snd_nxt` modulo 2^32 either. -/
structure Download (i : FlowId) (T : List Item) (f : NatFlow) (syn : Segment) (isn : BitVec 32) : Prop
    extends Emitted i T syn isn where
  buffered : f.state ≠ .free → emitted T ++ f.h2gBytes = received i T
  acked : f.state ≠ .free → ∃ acked, f.sndUna = isn + BitVec.ofNat 32 acked ∧
    f.sndNxt = isn + BitVec.ofNat 32 (f.synSent + (emitted T).length + fins T) ∧
    acked ≤ f.synSent + (emitted T).length + fins T ∧ f.synSent + (emitted T).length ≤ acked + 65535

/-! ## The invariant -/

/-- What the stack itself keeps about a live flow. -/
structure Sending (i : FlowId) (T : List Item) (f : NatFlow) (syn : Segment) (isn : BitVec 32) (acked : Nat) : Prop where
  proto : f.proto = .tcp
  key : f.key = syn.key
  una : f.sndUna = isn + BitVec.ofNat 32 acked
  nxt : f.sndNxt = isn + BitVec.ofNat 32 (f.synSent + (emitted T).length + fins T)
  behind : acked ≤ f.synSent + (emitted T).length + fins T
  near : f.synSent + (emitted T).length ≤ acked + 65535
  buffered : emitted T ++ f.h2gBytes = received i T
  bounded : f.h2gBytes.length ≤ NS_TCP_BUF.toNat
  fin : fins T = f.finSent.toNat
  done : f.finSent = true → f.hostEof = true ∧ f.h2gBytes = [] ∧ f.state ≠ .connecting
  waiting : f.state = .connecting → received i T = []
  wnd : f.guestWnd = (lastHeard syn T).guestWnd

def DownloadInv (i : FlowId) (T : List Item) (f : NatFlow) : Prop :=
  ∀ syn, opener T = some syn → ∃ isn, Emitted i T syn isn ∧
    (f.state ≠ .free → ∃ acked, Sending i T f syn isn acked)

/-! ## Frames of a trail -/

section
variable {i : FlowId} {Q : NatFlow → List Byte → List Item → Prop} {T : List Item}

theorem Emits.item {x : Item} (h : Emits i Q T) (hx : ∀ g frame, x ≠ .call (.out (some (i, g)) frame)) :
    Emits i Q (x :: T) := by
  intro g frame older hold
  rcases List.suffix_cons_iff.mp hold with he | hold
  · exact absurd (List.cons.inj he).1.symm (hx g frame)
  · exact h g frame older hold

theorem Emits.out {g : NatFlow} {frame : List Byte} (h : Emits i Q T) (hq : Q g frame T) :
    Emits i Q (.call (.out (some (i, g)) frame) :: T) := by
  intro g' frame' older hold
  rcases List.suffix_cons_iff.mp hold with he | hold
  · cases he
    exact hq
  · exact h g' frame' older hold

end

section
variable {i : FlowId} {T : List Item} {f f' : NatFlow} {syn : Segment} {isn : BitVec 32} {acked : Nat}

/-- An item that is no frame of the flow, when the host delivers nothing with it. -/
theorem Emitted.item {x : Item} (h : Emitted i T syn isn) (hx : ∀ g frame, x ≠ .call (.out (some (i, g)) frame))
    (he : emitted (x :: T) = emitted T) (hf : fins (x :: T) = fins T) (hr : received i (x :: T) = received i T) :
    Emitted i (x :: T) syn isn where
  synack := h.synack.item hx
  sent := by
    rw [he, hr]
    exact h.sent
  consecutive := h.consecutive.item hx
  fin_once := hf ▸ h.fin_once
  fin_last := by
    rw [hr]
    exact h.fin_last.item hx
  window := h.window.item hx

/-- A frame without payload, SYN or FIN. -/
theorem Emitted.control {g : NatFlow} {frame : List Byte} (h : Emitted i T syn isn) (hp : tcpPayload frame = [])
    (hf : isFin frame = false) (hs : tcpFlags frame &&& TCP_SYN = 0) :
    Emitted i (.call (.out (some (i, g)) frame) :: T) syn isn where
  synack := h.synack.out fun hn => absurd hs hn
  sent := by
    unfold emitted
    rw [hp, List.append_nil]
    exact h.sent
  consecutive := h.consecutive.out fun hn => absurd hp hn
  fin_once := by
    unfold fins
    rw [hf]
    exact h.fin_once
  fin_last := h.fin_last.out fun hn => by
    rw [hf] at hn
    cases hn
  window := h.window.out fun hn => absurd hp hn

/-- The bytes in flight, counted without wrapping. -/
theorem Sending.inflight (h : Sending i T f syn isn acked) (hf : fins T ≤ 1) :
    (f.sndNxt - f.sndUna).toNat = f.synSent + (emitted T).length + fins T - acked := by
  have hb := h.behind
  have hn := h.near
  have hi := isn.isLt
  rw [h.nxt, h.una, BitVec.toNat_sub, BitVec.toNat_add, BitVec.toNat_add, BitVec.toNat_ofNat, BitVec.toNat_ofNat]
  omega

theorem toNat_h2gLen (h : f.h2gBytes.length ≤ NS_TCP_BUF.toNat) : f.h2gLen.toNat = f.h2gBytes.length := by
  have hbuf : NS_TCP_BUF.toNat = 32768 := rfl
  unfold NatFlow.h2gLen
  rw [BitVec.toNat_ofNat]
  omega

theorem h2gBytes_of_len (h : f.h2gBytes.length ≤ NS_TCP_BUF.toNat) (h0 : f.h2gLen = 0) : f.h2gBytes = [] := by
  have := toNat_h2gLen h
  rw [h0] at this
  exact List.length_eq_zero_iff.mp this.symm

/-- The fields of a flow that matter here. -/
structure SameDownload (f f' : NatFlow) : Prop where
  state : f'.state = f.state
  proto : f'.proto = f.proto
  key : f'.key = f.key
  sndUna : f'.sndUna = f.sndUna
  sndNxt : f'.sndNxt = f.sndNxt
  h2g : f'.h2gBytes = f.h2gBytes
  finSent : f'.finSent = f.finSent
  hostEof : f.hostEof = true → f'.hostEof = true
  guestWnd : f'.guestWnd = f.guestWnd

theorem SameDownload.refl (f : NatFlow) : SameDownload f f := ⟨rfl, rfl, rfl, rfl, rfl, rfl, rfl, id, rfl⟩

theorem Sending.same (h : Sending i T f syn isn acked) (hs : SameDownload f f') : Sending i T f' syn isn acked := by
  have hsyn : f'.synSent = f.synSent := by
    unfold NatFlow.synSent
    rw [hs.state]
  refine ⟨hs.proto.trans h.proto, hs.key.trans h.key, hs.sndUna.trans h.una, ?_, ?_, ?_, ?_, ?_, ?_, ?_, ?_, ?_⟩
  · rw [hs.sndNxt, hsyn]
    exact h.nxt
  · rw [hsyn]
    exact h.behind
  · rw [hsyn]
    exact h.near
  · rw [hs.h2g]
    exact h.buffered
  · rw [hs.h2g]
    exact h.bounded
  · rw [hs.finSent]
    exact h.fin
  · rw [hs.finSent, hs.h2g, hs.state]
    intro hf
    obtain ⟨h1, h2⟩ := h.done hf
    exact ⟨hs.hostEof h1, h2⟩
  · rw [hs.state]
    exact h.waiting
  · rw [hs.guestWnd]
    exact h.wnd

/-- An item that emits nothing, when the host delivers nothing with it and the guest's window stays. -/
theorem Sending.item {x : Item} (h : Sending i T f syn isn acked) (he : emitted (x :: T) = emitted T)
    (hf : fins (x :: T) = fins T) (hr : received i (x :: T) = received i T)
    (hw : lastHeard syn (x :: T) = lastHeard syn T) : Sending i (x :: T) f syn isn acked := by
  refine ⟨h.proto, h.key, h.una, ?_, ?_, ?_, ?_, h.bounded, ?_, h.done, ?_, ?_⟩
  · rw [he, hf]
    exact h.nxt
  · rw [he, hf]
    exact h.behind
  · rw [he]
    exact h.near
  · rw [he, hr]
    exact h.buffered
  · rw [hf]
    exact h.fin
  · rw [hr]
    exact h.waiting
  · rw [hw]
    exact h.wnd

/-! ## The acts that emit -/

theorem emitted_segment (g : NatFlow) (mac : BitVec 48) (id : BitVec 16) (flags : Byte) (p : List Byte) :
    emitted (.call (.out (some (i, g)) (g.segment mac id flags p)) :: T) = emitted T ++ p :=
  congrArg (emitted T ++ ·) (tcpPayload_tcpFrame ..)

theorem flags_segment (g : NatFlow) (mac : BitVec 48) (id : BitVec 16) (flags : Byte) (p : List Byte) :
    tcpFlags (g.segment mac id flags p) = flags := tcpFlags_tcpFrame ..

theorem isFin_segment (g : NatFlow) (mac : BitVec 48) (id : BitVec 16) (flags : Byte) (p : List Byte) :
    isFin (g.segment mac id flags p) = (flags &&& TCP_FIN != 0) := by
  unfold isFin
  rw [flags_segment]

theorem seq_segment (g : NatFlow) (mac : BitVec 48) (id : BitVec 16) (flags : Byte) (p : List Byte) :
    tcpSeq (g.segment mac id flags p) = g.sndNxt := tcpSeq_tcpFrame ..

/-- A segment without payload, SYN or FIN. -/
theorem sending_control (g : NatFlow) (mac : BitVec 48) (id : BitVec 16) {flags : Byte} (h1 : Emitted i T syn isn)
    (h2 : Sending i T f syn isn acked) (hs : SameDownload f f') (hfin : flags &&& TCP_FIN = 0) (hsyn : flags &&& TCP_SYN = 0) :
    Emitted i (.call (.out (some (i, g)) (g.segment mac id flags [])) :: T) syn isn ∧
      Sending i (.call (.out (some (i, g)) (g.segment mac id flags [])) :: T) f' syn isn acked := by
  have hf : isFin (g.segment mac id flags []) = false := by
    rw [isFin_segment, hfin]
    rfl
  refine ⟨h1.control (tcpPayload_tcpFrame ..) hf ?_, (h2.item ?_ ?_ rfl rfl).same hs⟩
  · rw [flags_segment]
    exact hsyn
  · rw [emitted_segment, List.append_nil]
  · show fins T + _ = _
    rw [hf]
    rfl

/-- The SYN-ACK has our initial sequence number. -/
theorem sending_synack {mac : BitVec 48} {id : BitVec 16} (h1 : Emitted i T syn isn) (h2 : Sending i T f syn isn acked)
    (hs : f.state = .connecting) :
    let T' := .call (.out (some (i, f)) (f.synack mac id)) :: T
    Emitted i T' syn isn ∧ Sending i T' { f with sndNxt := f.sndNxt + 1, state := .synrcvd } syn isn acked := by
  have hp : tcpPayload (f.synack mac id) = [] := tcpPayload_option ..
  have hf : isFin (f.synack mac id) = false := by
    unfold isFin NatFlow.synack
    rw [tcpFlags_tcpFrame]
    exact (by decide : ((TCP_SYN ||| TCP_ACK) &&& TCP_FIN != 0) = false)
  have hnone : received i T = [] := h2.waiting hs
  have he : emitted T = [] := List.prefix_nil.mp (hnone ▸ h1.sent)
  have hfin : f.finSent = false := by
    cases hf : f.finSent with
    | false => rfl
    | true => exact absurd hs (h2.done hf).2.2
  have hfins : fins T = 0 := by
    rw [h2.fin, hfin]
    rfl
  have hsyn : f.synSent = 0 := if_pos hs
  have hnxt : f.sndNxt = isn := by
    rw [h2.nxt, hsyn, he, hfins]
    exact BitVec.add_zero isn
  have he' : emitted (.call (.out (some (i, f)) (f.synack mac id)) :: T) = [] := by
    unfold emitted
    rw [hp, he]
    rfl
  have hfins' : fins (.call (.out (some (i, f)) (f.synack mac id)) :: T) = 0 := by
    unfold fins
    rw [hf, hfins]
    rfl
  have hacked := h2.behind
  rw [hsyn, he, hfins] at hacked
  refine ⟨⟨h1.synack.out fun _ => (tcpSeq_tcpFrame ..).trans hnxt, ?_, h1.consecutive.out fun hn => absurd hp hn, ?_,
    h1.fin_last.out fun hn => (nomatch hf.symm.trans hn), h1.window.out fun hn => absurd hp hn⟩,
    ⟨h2.proto, h2.key, h2.una, ?_, ?_, ?_, ?_, h2.bounded, ?_, ?_, nofun, h2.wnd⟩⟩
  · rw [he']
    exact List.nil_prefix
  · rw [hfins']
    exact Nat.zero_le 1
  · rw [he', hfins', hnxt]
    rfl
  · rw [he', hfins']
    exact Nat.le_trans hacked (Nat.zero_le _)
  · rw [he']
    show 1 + 0 ≤ _
    omega
  · rw [he']
    have := h2.buffered
    rw [he] at this
    exact this
  · rw [hfins']
    exact (congrArg Bool.toNat hfin).symm
  · intro hf
    cases hf.symm.trans hfin

/-- The next sequence number while the connection is open. -/
theorem Sending.opened (h : Sending i T f syn isn acked) (hs : f.state = .estab) (hsent : f.finSent = false) :
    fins T = 0 ∧ f.synSent = 1 ∧ f.sndNxt = isn + 1 + BitVec.ofNat 32 (emitted T).length := by
  have hfins : fins T = 0 := by
    rw [h.fin, hsent]
    rfl
  have hsyn : f.synSent = 1 := if_neg (by rw [hs]; exact nofun)
  refine ⟨hfins, hsyn, ?_⟩
  rw [h.nxt, hsyn, hfins, Nat.add_zero, BitVec.ofNat_add, ← BitVec.add_assoc]
  rfl

/-- A data segment that fits the window the flow keeps fits the advertised one, unless that is zero. -/
theorem inWindow_iff {wnd : BitVec 16} {s : Segment} {inflight chunk : Nat} (hw : wnd = s.guestWnd) (hpos : 0 < chunk)
    (hfit : inflight + chunk ≤ wnd.toNat) : inflight + chunk ≤ s.wnd.toNat ↔ s.wnd ≠ 0 := by
  unfold Segment.guestWnd at hw
  constructor
  · intro hle hz
    rw [hz] at hle
    exact absurd hle (by simp; omega)
  · intro hz
    rw [if_neg hz] at hw
    exact hw ▸ hfit

/-- A data segment carries the next bytes of the buffer. -/
theorem sending_data {mac : BitVec 48} {id : BitVec 16} {buf : List Byte} {chunk : Nat} (h1 : Emitted i T syn isn)
    (h2 : Sending i T f syn isn acked) (hs : f.state = .estab) (hbuf : f.h2g = some buf) (hpos : 0 < chunk)
    (hlen : chunk ≤ buf.length) (hwnd : (f.sndNxt - f.sndUna).toNat + chunk ≤ f.guestWnd.toNat) :
    let T' := .call (.out (some (i, f)) (f.segment mac id TCP_ACK (buf.take chunk))) :: T
    let f' := { f with sndNxt := f.sndNxt + BitVec.ofNat 32 chunk, h2g := some (buf.drop chunk) }
    Emitted i T' syn isn ∧ Sending i T' f' syn isn acked := by
  have hbytes : f.h2gBytes = buf := congrArg (Option.getD · []) hbuf
  have hp : tcpPayload (f.segment mac id TCP_ACK (buf.take chunk)) = buf.take chunk := tcpPayload_tcpFrame ..
  have hf : isFin (f.segment mac id TCP_ACK (buf.take chunk)) = false := (isFin_segment ..).trans (by decide)
  have hseq := seq_segment f mac id TCP_ACK (buf.take chunk)
  have htaken : (buf.take chunk).length = chunk := by rw [List.length_take, Nat.min_eq_left hlen]
  -- no FIN was sent: the buffer would be empty
  have hfin : f.finSent = false := by
    cases hfs : f.finSent with
    | false => rfl
    | true =>
      have := (h2.done hfs).2.1
      rw [hbytes] at this
      subst this
      exact absurd (Nat.lt_of_lt_of_le hpos hlen) (Nat.lt_irrefl 0)
  obtain ⟨hfins, hsyn, hnxt⟩ := h2.opened hs hfin
  have hfly := h2.inflight h1.fin_once
  rw [hsyn, hfins, Nat.add_zero] at hfly
  have hsplit : emitted T ++ buf.take chunk ++ buf.drop chunk = received i T := by
    rw [List.append_assoc, List.take_append_drop, ← hbytes]
    exact h2.buffered
  have he : emitted (.call (.out (some (i, f)) (f.segment mac id TCP_ACK (buf.take chunk))) :: T) =
      emitted T ++ buf.take chunk := emitted_segment ..
  have hfins' : fins (.call (.out (some (i, f)) (f.segment mac id TCP_ACK (buf.take chunk))) :: T) = 0 := by
    unfold fins
    rw [hf, hfins]
    rfl
  have hgrown : (emitted T ++ buf.take chunk).length = (emitted T).length + chunk := by rw [List.length_append, htaken]
  have hbehind := h2.behind
  rw [hsyn, hfins, Nat.add_zero] at hbehind
  have hmax := f.guestWnd.isLt
  refine ⟨⟨h1.synack.out fun hn => absurd ?_ hn, ?_, h1.consecutive.out fun _ => hseq.trans hnxt, ?_,
    h1.fin_last.out fun hn => (nomatch hf.symm.trans hn), h1.window.out fun _ => ?_⟩,
    ⟨h2.proto, h2.key, h2.una, ?_, ?_, ?_, ?_, ?_, ?_, ?_, ?_, h2.wnd⟩⟩
  · rw [flags_segment]
    decide
  · rw [he]
    exact ⟨_, hsplit⟩
  · rw [hfins']
    exact Nat.zero_le 1
  · rw [hseq, hp, htaken]
    exact inWindow_iff h2.wnd hpos hwnd
  · show f.sndNxt + BitVec.ofNat 32 chunk = isn + BitVec.ofNat 32 (f.synSent + _ + _)
    rw [he, hfins', hgrown, h2.nxt, hfins, BitVec.add_assoc, ← BitVec.ofNat_add]
    congr 2
    omega
  · show acked ≤ f.synSent + _ + _
    rw [he, hfins', hgrown, hsyn]
    omega
  · show f.synSent + _ ≤ _
    rw [he, hgrown, hsyn]
    omega
  · rw [he]
    exact hsplit
  · have hle := h2.bounded
    rw [hbytes] at hle
    show (buf.drop chunk).length ≤ _
    rw [List.length_drop]
    omega
  · rw [hfins']
    exact (congrArg Bool.toNat hfin).symm
  · intro hfs
    cases hfs.symm.trans hfin
  · intro hc
    cases hs.symm.trans hc

/-- The FIN comes when everything the host delivered has been sent. -/
theorem sending_fin {mac : BitVec 48} {id : BitVec 16} (h1 : Emitted i T syn isn) (h2 : Sending i T f syn isn acked)
    (hs : f.state = .estab) (heof : f.hostEof = true) (hlen : f.h2gLen = 0) (hsent : f.finSent = false) :
    let T' := .call (.out (some (i, f)) (f.segment mac id (TCP_FIN ||| TCP_ACK) [])) :: T
    let f' := { f with sndNxt := f.sndNxt + 1, finSent := true }
    Emitted i T' syn isn ∧ Sending i T' f' syn isn acked := by
  have hempty := h2gBytes_of_len h2.bounded hlen
  have hp : tcpPayload (f.segment mac id (TCP_FIN ||| TCP_ACK) []) = [] := tcpPayload_tcpFrame ..
  have hf : isFin (f.segment mac id (TCP_FIN ||| TCP_ACK) []) = true := (isFin_segment ..).trans (by decide)
  have hseq := seq_segment f mac id (TCP_FIN ||| TCP_ACK) []
  obtain ⟨hfins, hsyn, hnxt⟩ := h2.opened hs hsent
  have hall : emitted T = received i T := by
    have := h2.buffered
    rw [hempty, List.append_nil] at this
    exact this
  have he : emitted (.call (.out (some (i, f)) (f.segment mac id (TCP_FIN ||| TCP_ACK) [])) :: T) = emitted T := by
    rw [emitted_segment, List.append_nil]
  have hfins' : fins (.call (.out (some (i, f)) (f.segment mac id (TCP_FIN ||| TCP_ACK) [])) :: T) = 1 := by
    unfold fins
    rw [hf, hfins]
    rfl
  have hbehind := h2.behind
  rw [hsyn, hfins, Nat.add_zero] at hbehind
  refine ⟨⟨h1.synack.out fun hn => absurd ?_ hn, ?_, h1.consecutive.out fun hn => absurd hp hn, ?_,
    h1.fin_last.out fun _ => ⟨hall, hseq.trans hnxt⟩, h1.window.out fun hn => absurd hp hn⟩,
    ⟨h2.proto, h2.key, h2.una, ?_, ?_, ?_, ?_, h2.bounded, hfins', fun _ => ⟨heof, hempty, ?_⟩, h2.waiting, h2.wnd⟩⟩
  · rw [flags_segment]
    decide
  · rw [he]
    exact h1.sent
  · exact Nat.le_of_eq hfins'
  · show f.sndNxt + 1 = isn + BitVec.ofNat 32 (f.synSent + _ + _)
    rw [he, hfins', hsyn, hnxt, BitVec.ofNat_add, BitVec.ofNat_add, ← BitVec.add_assoc, ← BitVec.add_assoc]
    rfl
  · show acked ≤ f.synSent + _ + _
    rw [he, hfins', hsyn]
    omega
  · show f.synSent + _ ≤ _
    rw [he]
    exact h2.near
  · rw [he]
    exact h2.buffered
  · show f.state ≠ .connecting
    rw [hs]
    exact nofun

end

/-! ## Every run -/

theorem DownloadInv.act {i : FlowId} {T : List Item} {f f' : NatFlow} {c : Option Call} (h : FlowAct i T f c f')
    (hd : DownloadInv i T f) : DownloadInv i (ownItems c ++ T) f' := by
  intro syn hopen
  obtain ⟨isn, h1, h2⟩ := hd syn ((opener_own h).symm.trans hopen)
  obtain ⟨acked, h2⟩ := h2 h.was_live
  cases h with
  | control mac id flags ht hflags =>
    have hc := sending_control f mac id h1 h2 (.refl f) hflags.1 hflags.2
    exact ⟨isn, hc.1, fun _ => ⟨acked, hc.2⟩⟩
  | synack mac id ht hs =>
    obtain ⟨h3, h4⟩ := sending_synack h1 h2 hs
    exact ⟨isn, h3, fun _ => ⟨acked, h4⟩⟩
  | data mac id buf chunk ht hs hbuf hpos hlen hwnd =>
    obtain ⟨h3, h4⟩ := sending_data h1 h2 hs hbuf hpos hlen hwnd
    exact ⟨isn, h3, fun _ => ⟨acked, h4⟩⟩
  | fin mac id ht hs heof hlen hsent =>
    obtain ⟨h3, h4⟩ := sending_fin h1 h2 hs heof hlen hsent
    exact ⟨isn, h3, fun _ => ⟨acked, h4⟩⟩
  | guestFin mac id s ht hcur hkey hflag hfin hseq =>
    have hs : SameDownload f { f.finned with shutdownPending := true } :=
      ⟨rfl, rfl, rfl, rfl, rfl, rfl, rfl, fun h => h, rfl⟩
    have hc := @sending_control i T f _ syn isn acked f.finned mac id TCP_ACK h1 h2 hs rfl rfl
    exact ⟨isn, hc.1, fun _ => ⟨acked, hc.2⟩⟩
  | udpSend d n hu hcur hkey => cases hu.proto.symm.trans h2.proto
  | udpOut frame hu => cases hu.proto.symm.trans h2.proto
  | eof ht hcur => exact ⟨isn, h1, fun _ => ⟨acked, h2.same ⟨rfl, rfl, rfl, rfl, rfl, rfl, rfl, fun _ => rfl, rfl⟩⟩⟩
  | allocG2h ok ht hnone | take => exact ⟨isn, h1, fun _ => ⟨acked, h2.same ⟨rfl, rfl, rfl, rfl, rfl, rfl, rfl, id, rfl⟩⟩⟩
  | _ =>
    exact ⟨isn, h1.item (fun g frame he => nomatch he) rfl rfl rfl,
      fun _ => ⟨acked, (h2.item rfl rfl rfl rfl).same ⟨rfl, rfl, rfl, rfl, rfl, rfl, rfl, id, rfl⟩⟩⟩

/-- The bytes an event delivers to flow `i`. -/
def arrived (i : FlowId) : Event → List Byte
  | .recv id data => if id = (i.val : Int) then data else []
  | _ => []

theorem arrived_recv (i : FlowId) (data : List Byte) : arrived i (.recv (i.val : Int) data) = data := if_pos rfl

theorem received_event (i : FlowId) (e : Event) (T : List Item) :
    received i (.event e :: T) = received i T ++ arrived i e := by
  cases e with
  | recv id data =>
    rw [received, arrived]
    split
    · rfl
    · rw [List.append_nil]
  | _ => exact (List.append_nil _).symm

/-- The host delivers no more than the room the stack reports for the flow. -/
def Fits (i : FlowId) (f : NatFlow) (e : Event) : Prop :=
  (arrived i e).length ≤ if f.state = .free then 0 else f.rxRoom.toNat

theorem fins_suffix {T T' : List Item} (h : T' <:+ T) : fins T' ≤ fins T := by
  induction T with
  | nil => exact Nat.le_of_eq (congrArg fins (List.suffix_nil.mp h))
  | cons x T ih =>
    rcases List.suffix_cons_iff.mp h with rfl | h
    · exact Nat.le_refl _
    · refine Nat.le_trans (ih h) ?_
      cases x with
      | event e => exact Nat.le_refl _
      | call c =>
        cases c with
        | out flow frame =>
          cases flow with
          | none => exact Nat.le_refl _
          | some g => exact Nat.le_add_right _ _
        | _ => exact Nat.le_refl _

section
variable {i : FlowId} {T : List Item} {f f' : NatFlow} {syn : Segment} {isn : BitVec 32} {acked : Nat} {e : Event}

/-- An event; it delivers nothing once a FIN was sent. -/
theorem Emitted.event (h : Emitted i T syn isn) (hd : arrived i e = [] ∨ fins T = 0) :
    Emitted i (.event e :: T) syn isn := by
  have hx : ∀ g frame, Item.event e ≠ .call (.out (some (i, g)) frame) := fun _ _ he => nomatch he
  refine ⟨h.synack.item hx, ?_, h.consecutive.item hx, h.fin_once, ?_, h.window.item hx⟩
  · rw [received_event]
    exact h.sent.trans (List.prefix_append _ _)
  · rcases hd with hd | hd
    · rw [received_event, hd, List.append_nil]
      exact h.fin_last.item hx
    · intro g frame older hold hf
      rcases List.suffix_cons_iff.mp hold with he | hold
      · cases he
      · have hle := fins_suffix hold
        rw [fins, hf, hd] at hle
        cases hle

/-- Once the host is done, or before it is connected, there is no room. -/
theorem Sending.room (h : Sending i T f syn isn acked) (hl : f.state ≠ .free) (hfit : Fits i f e) :
    arrived i e = [] ∨ f.hostEof = false ∧ f.state ≠ .connecting ∧
      (arrived i e).length ≤ (NS_TCP_BUF - f.h2gLen).toNat := by
  unfold Fits NatFlow.rxRoom at hfit
  rw [if_neg hl, h.proto, if_neg nofun] at hfit
  split at hfit
  · exact .inl (List.length_eq_zero_iff.mp (Nat.le_zero.mp hfit))
  next hroom =>
    obtain ⟨heof, hstate⟩ := not_or.mp hroom
    exact .inr ⟨by simpa using heof, (not_or.mp hstate).2, hfit⟩

theorem emitted_event (e : Event) (T : List Item) : emitted (.event e :: T) = emitted T := rfl

/-- A segment of the guest that is not a reset sets its window. -/
theorem lastHeard_heard {frame : Frame} {s : Segment} (hseg : segmentOf frame = some s) (hkey : s.key = syn.key)
    (hrst : s.has TCP_RST = false) : lastHeard syn (.event (.input frame) :: T) = s := by
  have hs : segments syn.key (.event (.input frame) :: T) = s :: segments syn.key T := segments_carried hseg hkey
  rw [lastHeard, hs, List.find?_cons_of_pos (by rw [hrst]; rfl)]
  rfl

/-- Any other event leaves it. -/
theorem lastHeard_other (h : ∀ frame s, e = .input frame → segmentOf frame = some s → s.key = syn.key →
    s.has TCP_RST = true) : lastHeard syn (.event e :: T) = lastHeard syn T := by
  cases e with
  | input frame =>
    cases hs : segmentOf frame with
    | none => simp [lastHeard, segments, hs]
    | some s =>
      by_cases hk : s.key = syn.key
      · simp [lastHeard, segments, hs, hk, h frame s rfl hs hk]
      · simp [lastHeard, segments, hs, hk]
  | _ => rfl

/-- What the guest acknowledges is at or past what it had acknowledged, and was sent. -/
theorem Sending.acks {una ack : BitVec 32} (h : Sending i T f syn isn acked) (hf : fins T ≤ 1)
    (hu : una = f.sndUna ∨ una = ack ∧ ack - f.sndUna ≤ f.sndNxt - f.sndUna) :
    ∃ acked', acked ≤ acked' ∧ acked' ≤ f.synSent + (emitted T).length + fins T ∧ una = isn + BitVec.ofNat 32 acked' := by
  have hb := h.behind
  rcases hu with rfl | ⟨rfl, hle⟩
  · exact ⟨acked, Nat.le_refl _, hb, h.una⟩
  · have hn : (una - f.sndUna).toNat ≤ (f.sndNxt - f.sndUna).toNat := hle
    rw [h.inflight hf] at hn
    refine ⟨acked + (una - f.sndUna).toNat, Nat.le_add_right _ _, by omega, ?_⟩
    rw [BitVec.ofNat_add, ← BitVec.add_assoc, ← h.una, BitVec.ofNat_toNat, BitVec.setWidth_eq]
    exact (by bv_omega : una = f.sndUna + (una - f.sndUna))

theorem Sending.heard {frame : Frame} {s : Segment} (h : Sending i T f syn isn acked) (hf : fins T ≤ 1)
    (hseg : segmentOf frame = some s) (hkey : s.key = syn.key) (hrst : s.has TCP_RST = false) :
    ∃ acked', Sending i (.event (.input frame) :: T) (f.heard s) syn isn acked' := by
  obtain ⟨una, st, he, hu, hst⟩ := NatFlow.heard_spec s f
  obtain ⟨acked', hle, hbehind, huna⟩ := h.acks hf hu
  have hconn : st = .connecting ↔ f.state = .connecting := by
    rcases hst with rfl | ⟨hs, rfl, _⟩
    · exact Iff.rfl
    · rw [hs]
      exact ⟨nofun, nofun⟩
  have hsyn : (if st = .connecting then 0 else 1) = f.synSent := if_congr hconn rfl rfl
  have hnear := h.near
  refine ⟨acked', ?_⟩
  rw [he]
  refine ⟨h.proto, h.key, huna, ?_, ?_, ?_, h.buffered, h.bounded, h.fin, ?_, ?_, ?_⟩
  · show f.sndNxt = isn + BitVec.ofNat 32 ((if st = .connecting then 0 else 1) + _ + _)
    rw [hsyn]
    exact h.nxt
  · show acked' ≤ (if st = .connecting then 0 else 1) + _ + _
    rw [hsyn]
    exact hbehind
  · show (if st = .connecting then 0 else 1) + (emitted T).length ≤ _
    rw [hsyn]
    omega
  · intro hfs
    obtain ⟨h1, h2, h3⟩ := h.done hfs
    exact ⟨h1, h2, fun hc => h3 (hconn.mp hc)⟩
  · exact fun hc => h.waiting (hconn.mp hc)
  · rw [lastHeard_heard hseg hkey hrst]

/-- Bytes of the host that fit go into the buffer whole. -/
theorem Sending.recv {data : List Byte} (h : Sending i T f syn isn acked) (hstate : f.state ≠ .connecting)
    (heof : f.hostEof = false) (hfit : data.length ≤ (NS_TCP_BUF - f.h2gLen).toNat) :
    Sending i (.event (.recv (i.val : Int) data) :: T)
      { f with h2g := some (f.h2gBytes ++ data.take (NS_TCP_BUF - f.h2gLen).toNat) } syn isn acked := by
  have hlen := toNat_h2gLen h.bounded
  have hbound := h.bounded
  have hbuf : NS_TCP_BUF.toNat = 32768 := rfl
  rw [BitVec.toNat_sub_of_le (by rw [BitVec.le_def]; omega)] at hfit ⊢
  rw [List.take_of_length_le hfit]
  refine ⟨h.proto, h.key, h.una, h.nxt, h.behind, h.near, ?_, ?_, h.fin, ?_, fun hc => absurd hc hstate, ?_⟩
  · rw [received_event, emitted_event, ← h.buffered, arrived, if_pos rfl]
    exact (List.append_assoc _ _ _).symm
  · show (f.h2gBytes ++ data).length ≤ _
    rw [List.length_append]
    omega
  · intro hfs
    cases heof.symm.trans (h.done hfs).1
  · have hw : lastHeard syn (.event (.recv (i.val : Int) data) :: T) = lastHeard syn T := rfl
    rw [hw]
    exact h.wnd

theorem DownloadInv.begun {io : NetIo} (hm : ∀ id data older, io.malloc (.event (.recv id data) :: older) = true)
    (hfit : Fits i f e) (hb : Begun io i e f f') (hd : DownloadInv i T f) : DownloadInv i (.event e :: T) f' := by
  intro syn hopen
  rw [opener_event] at hopen
  obtain ⟨isn, h1, h2⟩ := hd syn hopen
  by_cases hl : f.state = .free
  · -- a free slot stays free and has no room
    unfold Fits at hfit
    rw [if_pos hl] at hfit
    have hnone : arrived i e = [] := List.length_eq_zero_iff.mp (Nat.le_zero.mp hfit)
    exact ⟨isn, h1.event (.inl hnone), fun hl' => absurd hl (hb.live hl')⟩
  obtain ⟨acked, h2⟩ := h2 hl
  have hroom := h2.room hl hfit
  have hsend : arrived i e = [] ∨ fins T = 0 := by
    rcases hroom with hnone | ⟨heof, _⟩
    · exact .inl hnone
    · refine .inr ?_
      rw [h2.fin]
      cases hfs : f.finSent with
      | false => rfl
      | true => cases heof.symm.trans (h2.done hfs).1
  refine ⟨isn, h1.event hsend, fun _ => ?_⟩
  have ht : f.Tcp := ⟨h2.proto, hl⟩
  cases hb with
  | heard frame s he hseg hkey _ hrst =>
    subst he
    exact h2.heard h1.fin_once hseg (hkey.trans h2.key) hrst
  | recv data he =>
    subst he
    rw [arrived_recv] at hroom
    rcases hroom with rfl | ⟨heof, hstate, hle⟩
    · rw [List.take_nil, List.append_nil]
      have hsame : SameDownload f { f with h2g := some f.h2gBytes } := ⟨rfl, rfl, rfl, rfl, rfl, rfl, rfl, id, rfl⟩
      have hr : received i (.event (.recv (i.val : Int) []) :: T) = received i T := by
        rw [received_event, arrived_recv, List.append_nil]
      exact ⟨acked, (h2.item rfl rfl hr rfl).same hsame⟩
    · exact ⟨acked, h2.recv hstate heof hle⟩
  | lost data older he _ hlost =>
    subst he
    cases (hm _ _ _).symm.trans hlost
  | other hseg hrecv =>
    have hnone : arrived i e = [] := by
      cases e with
      | recv id data =>
        by_cases hid : id = (i.val : Int)
        · subst hid
          rw [arrived_recv] at hroom ⊢
          rcases hroom with hnone | ⟨_, _, hle⟩
          · exact hnone
          · have hcut := hrecv data rfl ht
            rwa [List.take_of_length_le hle] at hcut
        · exact if_neg hid
      | _ => rfl
    have hr : received i (.event e :: T) = received i T := by rw [received_event, hnone, List.append_nil]
    have hw : lastHeard syn (.event e :: T) = lastHeard syn T :=
      lastHeard_other fun frame s he hs hk => hseg frame s he hs (hk.trans h2.key.symm) ht
    exact ⟨acked, h2.item rfl rfl hr hw⟩

end

theorem downloadInv {io : NetIo} (hm : ∀ id data older, io.malloc (.event (.recv id data) :: older) = true) (dns : BitVec 32) :
    NetStack.FlowInv io dns Fits DownloadInv where
  unused i := nofun
  begun hfit hb hd := hd.begun hm hfit hb
  opened := by
    intro i e k f ok hopen syn hsyn
    cases hopen with
    | tcp frame s isn he hseg hflag hk =>
      subst he hk
      have hs : segmentOf frame = some syn := hsyn
      obtain rfl : s = syn := Option.some.inj (hseg.symm.trans hs)
      have hnone : ∀ Q, Emits i Q [.call (.openFlow i s.key.proto (resolve dns s.key.ip) s.key.port ok),
          .event (.input frame)] := by
        intro Q g frame older hold
        simp [List.suffix_cons_iff] at hold
      have hw : lastHeard s [.call (.openFlow i s.key.proto (resolve dns s.key.ip) s.key.port ok),
          .event (.input frame)] = s := by
        cases hrst : s.has TCP_RST with
        | false => exact lastHeard_heard (T := []) hseg rfl hrst
        | true =>
          refine lastHeard_other (T := []) fun _ s' he hs' _ => ?_
          cases he
          rwa [Option.some.inj (hseg.symm.trans hs')] at hrst
      refine ⟨isn, ⟨hnone _, List.prefix_rfl, hnone _, Nat.zero_le 1, hnone _, hnone _⟩, fun _ => ⟨0, ?_⟩⟩
      refine ⟨rfl, rfl, ?_, ?_, Nat.zero_le _, ?_, rfl, Nat.zero_le _, rfl, nofun, fun _ => rfl, ?_⟩
      · exact (BitVec.add_zero isn).symm
      · exact (BitVec.add_zero isn).symm
      · exact Nat.zero_le _
      · rw [hw]
        rfl
    | udp frame d he hd hk =>
      subst he hk
      cases (NetStack.segmentOf_of_datagram hd).symm.trans hsyn
  own h hd := hd.act h
  closed := by
    intro i T f hl hd syn hopen
    obtain ⟨isn, h1, _⟩ := hd syn ((opener_call T fun _ => rfl).symm.trans hopen)
    exact ⟨isn, h1.item (fun g frame he => nomatch he) rfl rfl rfl, fun hl => absurd rfl hl⟩

/-- The backend reads no more for a flow than the stack has room for. -/
def withinRoom (io : NetIo) : NetStack → List Event → Bool
  | _, [] => true
  | ns, e :: es =>
    (match e with
      | .recv id data => decide (data.length ≤ (ns.netstackRxRoom id).toNat)
      | _ => true) && withinRoom io (ns.step io e) es

theorem fits_of_withinRoom {io : NetIo} {ns : NetStack} {e : Event} {es : List Event}
    (h : withinRoom io ns (e :: es) = true) (i : FlowId) : Fits i (ns.flows i) e := by
  cases e with
  | recv id data =>
    have hroom : data.length ≤ (ns.netstackRxRoom id).toNat := of_decide_eq_true (Bool.and_eq_true_iff.mp h).1
    by_cases hid : id = (i.val : Int)
    · subst hid
      unfold Fits
      rw [arrived_recv]
      unfold NetStack.netstackRxRoom at hroom
      split at hroom
      next hnone =>
        rw [if_pos (NetStack.flowById_none hnone rfl)]
        exact hroom
      next j hsome =>
        obtain ⟨hj, hl⟩ := NetStack.flowById_some hsome
        obtain rfl : i = j := Fin.ext (Int.ofNat.inj hj)
        rw [if_neg hl]
        exact hroom
    · have hnone : arrived i (.recv id data) = [] := if_neg hid
      unfold Fits
      rw [hnone]
      exact Nat.zero_le _
  | _ => exact Nat.zero_le _

theorem paced_of_withinRoom {io : NetIo} {dns : BitVec 32} {es : List Event}
    (h : withinRoom io (NetStack.run io dns []) es = true) : NetStack.Paced io dns Fits es := by
  intro pre e post he i
  subst he
  unfold NetStack.run at h ⊢
  generalize NetStack.netstackNew.netstackSetIo io dns = ns at h ⊢
  induction pre generalizing ns with
  | nil => exact fits_of_withinRoom h i
  | cons e' pre ih => exact ih (ns.step io e') (Bool.and_eq_true_iff.mp h).2

/-- Host to guest stream and window, for a backend that heeds the room, when the allocations made for
the bytes it delivers succeed. Every frame of every TCP flow is as `Download` says; a data segment lies inside the window
the guest last advertised exactly when that window was not zero. -/
theorem tcp_download_exact {io : NetIo} (hm : ∀ id data older, io.malloc (.event (.recv id data) :: older) = true)
    (dns : BitVec 32) {es : List Event} (hroom : withinRoom io (NetStack.run io dns []) es = true) (i : FlowId) :
    let ns := NetStack.run io dns es
    let T := trail i ns.log
    ((ns.flows i).Tcp → ∃ syn, opener T = some syn) ∧
      ∀ syn, opener T = some syn → ∃ isn, Download i T (ns.flows i) syn isn := by
  obtain ⟨hopen, _⟩ := (uploadInv io dns).run (fun _ _ _ (_ : es = _) _ => trivial) i
  refine ⟨hopen, fun syn hsyn => ?_⟩
  obtain ⟨isn, h1, h2⟩ := (downloadInv hm dns).run (paced_of_withinRoom hroom) i syn hsyn
  refine ⟨isn, h1, fun hl => ?_, fun hl => ?_⟩
  · obtain ⟨_, h2⟩ := h2 hl
    exact h2.buffered
  · obtain ⟨acked, h2⟩ := h2 hl
    exact ⟨acked, h2.una, h2.nxt, h2.behind, h2.near⟩

def firstFlow : FlowId := ⟨0, by decide⟩

/-- A guest on port 40000 that connects to port 80 of 1.2.3.4, completes the handshake with the
window `wnd`, and is sent a byte. -/
def oneByteDownload (wnd : BitVec 16) : List Event :=
  let segment (flags : Byte) (ack : BitVec 32) (wnd : BitVec 16) : Event :=
    .input (.ofList
      (guestBytes { dst := 0x01020304, sport := 40000, dport := 80, seq := 7, ack, flags, wnd, payload := [] }))
  [segment TCP_SYN 0 1000, .connected 0, segment TCP_ACK 0x9001 wnd, .recv 0 [0x41]]

theorem tcp_download_exact_one :
    let ns := NetStack.run plainIo dnsIp (oneByteDownload 1000)
    ∃ syn isn, Download firstFlow (trail firstFlow ns.log) (ns.flows firstFlow) syn isn := by
  obtain ⟨hopen, h⟩ := @tcp_download_exact plainIo (fun _ _ _ => rfl) dnsIp (oneByteDownload 1000) (by decide +kernel)
    firstFlow
  obtain ⟨syn, hsyn⟩ := hopen ⟨by decide +kernel, by decide +kernel⟩
  exact ⟨syn, h syn hsyn⟩

/-- The newest item is a data segment beyond the window last advertised. -/
def sentBeyond (T : List Item) : Bool :=
  match T, opener T with
  | .call (.out (some (i, g)) frame) :: older, some syn =>
    i == firstFlow && tcpPayload frame != [] &&
      decide ((lastHeard syn older).wnd.toNat < (tcpSeq frame - g.sndUna).toNat + (tcpPayload frame).length)
  | _, _ => false

theorem sentBeyond_spec {T : List Item} (h : sentBeyond T = true) : ∃ syn g frame older, opener T = some syn ∧
    .call (.out (some (firstFlow, g)) frame) :: older <:+ T ∧ tcpPayload frame ≠ [] ∧
    ¬(tcpSeq frame - g.sndUna).toNat + (tcpPayload frame).length ≤ (lastHeard syn older).wnd.toNat := by
  unfold sentBeyond at h
  split at h
  next i g frame older syn hopen =>
    rw [Bool.and_eq_true, Bool.and_eq_true, beq_iff_eq, bne_iff_ne, decide_eq_true_eq] at h
    obtain ⟨⟨rfl, hp⟩, hlt⟩ := h
    exact ⟨syn, g, frame, older, hopen, List.suffix_rfl, hp, Nat.not_le.mpr hlt⟩
  · cases h

/-- The guest closes its window, and is sent a byte all the same. -/
theorem data_into_closed_window :
    let T := trail firstFlow (NetStack.run plainIo dnsIp (oneByteDownload 0)).log
    withinRoom plainIo (NetStack.run plainIo dnsIp []) (oneByteDownload 0) = true ∧
      ∃ syn g frame older, opener T = some syn ∧ .call (.out (some (firstFlow, g)) frame) :: older <:+ T ∧
        tcpPayload frame ≠ [] ∧
        ¬(tcpSeq frame - g.sndUna).toNat + (tcpPayload frame).length ≤ (lastHeard syn older).wnd.toNat :=
  ⟨by decide +kernel, sentBeyond_spec (by decide +kernel)⟩

end Quanta.Net
