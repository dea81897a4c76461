/-
Guest to host: what the bridge does with the bytes a guest sends on a TCP flow. The stream the
stack has taken is put together from the guest's segments at consecutive sequence numbers; what
the host accepted is a prefix of it and the rest is in the buffer; no acknowledgement runs ahead
of it; and the host side is shut down at most once, after the whole stream.
-/
import Quanta.Net.Runs

namespace Quanta.Net

/-! ## Reading a trail -/

/-- The guest's segments with key `k`, newest first. -/
def segments (k : Key) : List Item → List Segment
  | [] => []
  | .event (.input frame) :: older =>
    match segmentOf frame with
    | some s => if s.key = k then s :: segments k older else segments k older
    | none => segments k older
  | _ :: older => segments k older

/-- The bytes the host has accepted. -/
def accepted : List Item → List Byte
  | [] => []
  | .call (.send _ data (some n)) :: older => accepted older ++ data.take n
  | _ :: older => accepted older

def shutdowns : List Item → Nat
  | [] => 0
  | .call (.shutdown _) :: older => shutdowns older + 1
  | _ :: older => shutdowns older

/-- The SYN that opened a TCP flow. -/
def opener : List Item → Option Segment
  | [] => none
  | [.call (.openFlow _ _ _ _ _), .event (.input frame)] => segmentOf frame
  | _ :: older => opener older

/-- A stream put together from segments in the order they arrived (newest first here): each adds a
prefix of its payload when it starts at the next sequence number, or nothing. -/
inductive Assembled (first : BitVec 32) : List Segment → List Byte → Prop where
  | nil : Assembled first [] []
  | skip {s : Segment} {older : List Segment} {stream : List Byte} (h : Assembled first older stream) :
      Assembled first (s :: older) stream
  | take {s : Segment} {older : List Segment} {stream : List Byte} (n : Nat) (h : Assembled first older stream)
      (hseq : s.seq = first + BitVec.ofNat 32 stream.length) : Assembled first (s :: older) (stream ++ s.payload.take n)

/-- What is so of a TCP flow opened by the segment `syn`, with `stream` taken so far and the guest's
FIN taken or not. -/
structure Upload (i : FlowId) (T : List Item) (f : NatFlow) (syn : Segment) (stream : List Byte) (fin : Bool) : Prop where
  flag : syn.has TCP_SYN = true
  key : f.state ≠ .free → f.key = syn.key
  assembled : Assembled (syn.seq + 1) (segments syn.key T) stream
  sent : accepted T <+: stream
  fin_at : fin = true → ∃ s ∈ segments syn.key T,
    s.has TCP_FIN ∧ s.seq + BitVec.ofNat 32 s.payload.length = syn.seq + 1 + BitVec.ofNat 32 stream.length
  acks : ∀ g frame, .call (.out (some (i, g)) frame) ∈ T →
    ∃ n ≤ stream.length + fin.toNat, tcpAck frame = syn.seq + 1 + BitVec.ofNat 32 n
  shutdown_once : shutdowns T ≤ 1
  shutdown_after : ∀ older, .call (.shutdown i) :: older <:+ T → fin = true ∧ accepted older = stream
  buffered : f.state ≠ .free → accepted T ++ f.g2hBytes = stream
  rcvNxt : f.state ≠ .free → f.rcvNxt = syn.seq + 1 + BitVec.ofNat 32 (stream.length + fin.toNat)
  guestFin : f.state ≠ .free → f.guestFin = fin
  bounded : f.g2hBytes.length ≤ NS_TCP_BUF.toNat

/-! ## The invariant -/

/-- What the stack itself keeps about a live flow. -/
structure Receiving (T : List Item) (f : NatFlow) (syn : Segment) (stream : List Byte) (fin : Bool) : Prop where
  proto : f.proto = .tcp
  pending : f.shutdownPending = true → fin = true ∧ shutdowns T = 0
  waiting : fin = false → f.shutdownPending = false ∧ shutdowns T = 0
  unused : ∀ s rest, currentSegment T = some s → s.key = syn.key → segments syn.key T = s :: rest →
    s.seq = syn.seq + 1 + BitVec.ofNat 32 stream.length → Assembled (syn.seq + 1) rest stream

def UploadInv (i : FlowId) (T : List Item) (f : NatFlow) : Prop :=
  (f.Tcp → ∃ syn, opener T = some syn) ∧ ∀ syn, opener T = some syn → ∃ stream fin, Upload i T f syn stream fin ∧
    (f.state ≠ .free → Receiving T f syn stream fin)

/-- The fields of a flow that matter here. -/
structure SameUpload (f f' : NatFlow) : Prop where
  live : f'.state ≠ .free → f.state ≠ .free
  proto : f'.proto = f.proto
  key : f'.key = f.key
  g2h : f'.g2hBytes = f.g2hBytes
  rcvNxt : f'.rcvNxt = f.rcvNxt
  guestFin : f'.guestFin = f.guestFin
  shutdownPending : f'.shutdownPending = f.shutdownPending

/-! ## Reading one more item -/

section
variable {T : List Item} {k : Key}

@[simp] theorem opener_event (e : Event) (T : List Item) : opener (.event e :: T) = opener T := by
  simp [opener]

theorem opener_call {c : Call} (T : List Item) (h : ∀ j, c.opens j = false) : opener (.call c :: T) = opener T := by
  cases c with
  | openFlow j => exact absurd (h j) (by simp [Call.opens])
  | _ => simp [opener]

@[simp] theorem segments_call (c : Call) (T : List Item) : segments k (.call c :: T) = segments k T := rfl

/-- An event adds the segment it carries. -/
theorem segments_carried {e : Event} {s : Segment} (h : currentSegment (.event e :: T) = some s) (hk : s.key = k) :
    segments k (.event e :: T) = s :: segments k T := by
  cases e with
  | input frame =>
    have hs : segmentOf frame = some s := h
    simp [segments, hs, hk]
  | _ => cases h

theorem segments_event (e : Event) (T : List Item) :
    segments k (.event e :: T) = segments k T ∨ ∃ s, segments k (.event e :: T) = s :: segments k T := by
  cases e with
  | input frame =>
    cases hs : segmentOf frame with
    | none => exact .inl (by simp [segments, hs])
    | some s =>
      by_cases hk : s.key = k
      · exact .inr ⟨s, by simp [segments, hs, hk]⟩
      · exact .inl (by simp [segments, hs, hk])
  | _ => exact .inl rfl

/-- The segment being handled is the newest of its key. -/
theorem segments_current {s : Segment} (h : currentSegment T = some s) (hk : s.key = k) :
    ∃ rest, segments k T = s :: rest := by
  induction T with
  | nil => cases h
  | cons x T ih =>
    cases x with
    | call c => exact ih h
    | event e => exact ⟨_, segments_carried h hk⟩

end

theorem SameUpload.refl (f : NatFlow) : SameUpload f f := ⟨id, rfl, rfl, rfl, rfl, rfl, rfl⟩

section
variable {i : FlowId} {T : List Item} {f f' : NatFlow} {syn : Segment} {stream : List Byte} {fin : Bool}

theorem Upload.same (h : Upload i T f syn stream fin) (hs : SameUpload f f') : Upload i T f' syn stream fin where
  __ := h
  key hl := hs.key.trans (h.key (hs.live hl))
  buffered hl := hs.g2h ▸ h.buffered (hs.live hl)
  rcvNxt hl := hs.rcvNxt ▸ h.rcvNxt (hs.live hl)
  guestFin hl := hs.guestFin ▸ h.guestFin (hs.live hl)
  bounded := hs.g2h ▸ h.bounded

theorem Receiving.same (h : Receiving T f syn stream fin) (hs : SameUpload f f') : Receiving T f' syn stream fin where
  proto := hs.proto.trans h.proto
  pending := hs.shutdownPending ▸ h.pending
  waiting := hs.shutdownPending ▸ h.waiting
  unused := h.unused

/-- The acknowledgements of a trail, one item longer. -/
theorem Upload.acks_cons {x : Item} (h : Upload i T f syn stream fin)
    (hx : ∀ g frame, x = .call (.out (some (i, g)) frame) → f.state ≠ .free ∧ tcpAck frame = f.rcvNxt) (g : NatFlow)
    (frame : List Byte) (hm : .call (.out (some (i, g)) frame) ∈ x :: T) :
    ∃ n ≤ stream.length + fin.toNat, tcpAck frame = syn.seq + 1 + BitVec.ofNat 32 n := by
  rcases List.mem_cons.mp hm with he | hm
  · obtain ⟨hl, ha⟩ := hx g frame he.symm
    exact ⟨_, Nat.le_refl _, ha.trans (h.rcvNxt hl)⟩
  · exact h.acks g frame hm

/-- The shutdowns of a trail, one item longer. -/
theorem Upload.shutdown_cons {x : Item} (h : Upload i T f syn stream fin) (hx : x ≠ .call (.shutdown i))
    (older : List Item) (hold : .call (.shutdown i) :: older <:+ x :: T) : fin = true ∧ accepted older = stream := by
  rcases List.suffix_cons_iff.mp hold with he | hold
  · exact absurd (List.cons.inj he).1.symm hx
  · exact h.shutdown_after older hold

/-- A call that moves no bytes; a frame acknowledges up to `rcv_nxt`. -/
theorem Upload.call {c : Call} (h : Upload i T f syn stream fin) (hacc : accepted (.call c :: T) = accepted T)
    (hshut : shutdowns (.call c :: T) = shutdowns T) (hne : c ≠ .shutdown i)
    (hack : ∀ g frame, c = .out (some (i, g)) frame → f.state ≠ .free ∧ tcpAck frame = f.rcvNxt) :
    Upload i (.call c :: T) f syn stream fin where
  flag := h.flag
  key := h.key
  assembled := h.assembled
  sent := hacc ▸ h.sent
  fin_at := h.fin_at
  acks := h.acks_cons fun g frame he => hack g frame (Item.call.inj he)
  shutdown_once := hshut ▸ h.shutdown_once
  shutdown_after := h.shutdown_cons fun he => hne (Item.call.inj he)
  buffered hl := hacc ▸ h.buffered hl
  rcvNxt := h.rcvNxt
  guestFin := h.guestFin
  bounded := h.bounded

theorem Receiving.call {c : Call} (h : Receiving T f syn stream fin)
    (hshut : shutdowns (.call c :: T) = shutdowns T) : Receiving (.call c :: T) f syn stream fin where
  proto := h.proto
  pending := hshut ▸ h.pending
  waiting := hshut ▸ h.waiting
  unused := h.unused

theorem Begun.sameUpload {io : NetIo} {e : Event} (h : Begun io i e f f') : SameUpload f f' := by
  cases h with
  | heard frame s he hseg hkey ht =>
    obtain ⟨una, st, hf, _⟩ := NatFlow.heard_spec s f
    rw [hf]
    exact ⟨fun _ => ht.live, rfl, rfl, rfl, rfl, rfl, rfl⟩
  | recv data he ht => exact ⟨id, rfl, rfl, rfl, rfl, rfl, rfl⟩
  | lost => exact .refl f
  | other => exact .refl f

/-- A new event carries at most one more segment, which is not used yet. -/
theorem Upload.event (h : Upload i T f syn stream fin) (e : Event) : Upload i (.event e :: T) f syn stream fin where
  flag := h.flag
  key := h.key
  assembled := by
    rcases segments_event e T with he | ⟨s, he⟩
    · exact he ▸ h.assembled
    · exact he ▸ .skip h.assembled
  sent := h.sent
  fin_at hfin := by
    obtain ⟨s, hm, hseq⟩ := h.fin_at hfin
    refine ⟨s, ?_, hseq⟩
    rcases segments_event e T with he | ⟨s', he⟩
    · exact he ▸ hm
    · exact he ▸ List.mem_cons_of_mem s' hm
  acks := h.acks_cons fun _ _ he => nomatch he
  shutdown_once := h.shutdown_once
  shutdown_after := h.shutdown_cons nofun
  buffered := h.buffered
  rcvNxt := h.rcvNxt
  guestFin := h.guestFin
  bounded := h.bounded

theorem Receiving.event (h : Receiving T f syn stream fin) (e : Event)
    (ha : Assembled (syn.seq + 1) (segments syn.key T) stream) : Receiving (.event e :: T) f syn stream fin where
  proto := h.proto
  pending := h.pending
  waiting := h.waiting
  unused s rest hcur hk hsegs _ := by
    rw [segments_carried hcur hk] at hsegs
    cases hsegs
    exact ha

/-! ## The acts that move bytes -/

theorem toNat_g2hLen (h : f.g2hBytes.length ≤ NS_TCP_BUF.toNat) : f.g2hLen.toNat = f.g2hBytes.length := by
  have hbuf : NS_TCP_BUF.toNat = 32768 := rfl
  unfold NatFlow.g2hLen
  rw [BitVec.toNat_ofNat]
  omega

theorem g2hBytes_of_len (h : f.g2hBytes.length ≤ NS_TCP_BUF.toNat) (h0 : f.g2hLen = 0) : f.g2hBytes = [] := by
  have := toNat_g2hLen h
  rw [h0] at this
  exact List.length_eq_zero_iff.mp this.symm

/-- Two positions of a stream less than a buffer apart have different sequence numbers. -/
theorem seq_ne {first : BitVec 32} {m n : Nat} (hpos : 0 < n) (hn : n ≤ NS_TCP_BUF.toNat) :
    first + BitVec.ofNat 32 m ≠ first + BitVec.ofNat 32 (m + n) := by
  have hbuf : NS_TCP_BUF.toNat = 32768 := rfl
  intro he
  have hmod := congrArg BitVec.toNat he
  rw [BitVec.toNat_add, BitVec.toNat_add, BitVec.toNat_ofNat, BitVec.toNat_ofNat] at hmod
  omega

theorem Upload.take {s : Segment} {buf : List Byte} {n : Nat} (h : Upload i T f syn stream false)
    (hr : Receiving T f syn stream false) (hl : f.state ≠ .free) (hcur : currentSegment T = some s)
    (hkey : s.key = f.key) (hseq : s.seq = f.rcvNxt) (hbuf : f.g2h = some buf) (hpos : 0 < n)
    (hlen : n ≤ s.payload.length) (hroom : n ≤ (NS_TCP_BUF - f.g2hLen).toNat) :
    let f' := { f with g2h := some (buf ++ s.payload.take n), rcvNxt := f.rcvNxt + BitVec.ofNat 32 n }
    Upload i T f' syn (stream ++ s.payload.take n) false ∧ Receiving T f' syn (stream ++ s.payload.take n) false := by
  have hbytes : f.g2hBytes = buf := congrArg (Option.getD · []) hbuf
  have htaken : (s.payload.take n).length = n := by rw [List.length_take, Nat.min_eq_left hlen]
  have hgrown : (stream ++ s.payload.take n).length = stream.length + n := by rw [List.length_append, htaken]
  have hnext : s.seq = syn.seq + 1 + BitVec.ofNat 32 stream.length := hseq.trans (h.rcvNxt hl)
  have hk : s.key = syn.key := hkey.trans (h.key hl)
  -- the buffer's bound leaves room for what was taken
  have hbuflen : NS_TCP_BUF.toNat = 32768 := rfl
  have hle := h.bounded
  have hroom' : (NS_TCP_BUF - f.g2hLen).toNat = NS_TCP_BUF.toNat - buf.length := by
    rw [BitVec.toNat_sub_of_le (by rw [BitVec.le_def, toNat_g2hLen hle]; exact hle), toNat_g2hLen hle, hbytes]
  rw [hroom'] at hroom
  rw [hbytes] at hle
  obtain ⟨rest, hrest⟩ := segments_current hcur hk
  have hassembled : Assembled (syn.seq + 1) (segments syn.key T) (stream ++ s.payload.take n) := by
    rw [hrest]
    exact .take n (hr.unused s rest hcur hk hrest hnext) hnext
  refine ⟨⟨h.flag, h.key, hassembled, h.sent.trans (List.prefix_append _ _), nofun, ?_, h.shutdown_once, ?_, ?_, ?_, h.guestFin, ?_⟩,
    ⟨hr.proto, hr.pending, hr.waiting, ?_⟩⟩
  · intro g frame hm
    obtain ⟨m, hm, ha⟩ := h.acks g frame hm
    exact ⟨m, by omega, ha⟩
  · intro older hold
    cases (h.shutdown_after older hold).1
  · intro _
    have := h.buffered hl
    rw [hbytes] at this
    rw [← this, List.append_assoc]
    rfl
  · intro _
    have := h.rcvNxt hl
    rw [hgrown]
    simp only [Bool.toNat_false, Nat.add_zero] at this ⊢
    rw [this, BitVec.add_assoc, BitVec.ofNat_add]
  · have : (buf ++ s.payload.take n).length = buf.length + n := by rw [List.length_append, htaken]
    show (buf ++ s.payload.take n).length ≤ _
    omega
  · intro s' rest' hcur' _ _ hseq'
    rw [hcur] at hcur'
    cases hcur'
    rw [hgrown, hnext] at hseq'
    exact absurd hseq' (seq_ne hpos (by omega))

theorem Upload.finned {s : Segment} {mac : BitVec 48} {id : BitVec 16} (h : Upload i T f syn stream false)
    (hr : Receiving T f syn stream false) (hl : f.state ≠ .free) (hcur : currentSegment T = some s)
    (hkey : s.key = f.key) (hflag : s.has TCP_FIN) (hseq : s.seq + BitVec.ofNat 32 s.payload.length = f.rcvNxt) :
    let T' := .call (.out (some (i, f.finned)) (f.finned.segment mac id TCP_ACK [])) :: T
    let f' := { f.finned with shutdownPending := true }
    Upload i T' f' syn stream true ∧ Receiving T' f' syn stream true := by
  have hk : s.key = syn.key := hkey.trans (h.key hl)
  have hnext : f.rcvNxt = syn.seq + 1 + BitVec.ofNat 32 stream.length := h.rcvNxt hl
  have hrcv : f.finned.rcvNxt = syn.seq + 1 + BitVec.ofNat 32 (stream.length + true.toNat) := by
    show f.rcvNxt + 1 = _
    rw [hnext, BitVec.add_assoc, Bool.toNat_true, BitVec.ofNat_add]
    rfl
  obtain ⟨rest, hrest⟩ := segments_current hcur hk
  refine ⟨⟨h.flag, h.key, h.assembled, h.sent, ?_, ?_, h.shutdown_once, fun older hold => ?_, fun _ => h.buffered hl, fun _ => hrcv,
    fun _ => rfl, h.bounded⟩, ⟨hr.proto, fun _ => ⟨rfl, (hr.waiting rfl).2⟩, nofun, hr.unused⟩⟩
  · intro _
    refine ⟨s, ?_, hflag, hseq.trans hnext⟩
    rw [segments_call, hrest]
    exact List.mem_cons_self
  · intro g frame hm
    rcases List.mem_cons.mp hm with he | hm
    · cases he
      exact ⟨_, Nat.le_refl _, (tcpAck_tcpFrame ..).trans hrcv⟩
    · obtain ⟨m, hm, ha⟩ := h.acks g frame hm
      exact ⟨m, Nat.le_succ_of_le hm, ha⟩
  · rcases List.suffix_cons_iff.mp hold with he | hold
    · cases he
    · cases (h.shutdown_after older hold).1

theorem Upload.send {buf : List Byte} {n : Nat} (h : Upload i T f syn stream fin) (hr : Receiving T f syn stream fin)
    (hl : f.state ≠ .free) (hbuf : f.g2h = some buf) :
    let T' := .call (.send i buf (some n)) :: T
    let f' := { f with g2h := some (buf.drop n) }
    Upload i T' f' syn stream fin ∧ Receiving T' f' syn stream fin := by
  have hbytes : f.g2hBytes = buf := congrArg (Option.getD · []) hbuf
  have hsplit : accepted T ++ buf.take n ++ buf.drop n = stream := by
    rw [List.append_assoc, List.take_append_drop, ← hbytes]
    exact h.buffered hl
  refine ⟨⟨h.flag, h.key, h.assembled, ⟨_, hsplit⟩, h.fin_at, h.acks_cons (fun _ _ he => nomatch he), h.shutdown_once,
    h.shutdown_cons nofun, fun _ => hsplit, h.rcvNxt, h.guestFin, ?_⟩, ⟨hr.proto, hr.pending, hr.waiting, hr.unused⟩⟩
  have hle := h.bounded
  rw [hbytes] at hle
  show (buf.drop n).length ≤ _
  rw [List.length_drop]
  omega

theorem Upload.shutdown (h : Upload i T f syn stream fin) (hr : Receiving T f syn stream fin) (hl : f.state ≠ .free)
    (hpend : f.shutdownPending = true) (hlen : f.g2hLen = 0) :
    let T' := .call (.shutdown i) :: T
    let f' := { f with shutdownPending := false }
    Upload i T' f' syn stream fin ∧ Receiving T' f' syn stream fin := by
  obtain ⟨hfin, hnone⟩ := hr.pending hpend
  have hall : accepted T = stream := by
    have := h.buffered hl
    rw [g2hBytes_of_len h.bounded hlen, List.append_nil] at this
    exact this
  refine ⟨⟨h.flag, h.key, h.assembled, h.sent, h.fin_at, h.acks_cons (fun _ _ he => nomatch he), ?_, ?_, h.buffered,
    h.rcvNxt, h.guestFin, h.bounded⟩, ⟨hr.proto, nofun, ?_, hr.unused⟩⟩
  · show shutdowns T + 1 ≤ 1
    omega
  · intro older hold
    rcases List.suffix_cons_iff.mp hold with he | hold
    · cases he
      exact ⟨hfin, hall⟩
    · exact h.shutdown_after older hold
  · intro hf
    cases hf.symm.trans hfin

theorem Upload.close (h : Upload i T f syn stream fin) : Upload i (.call (.close i) :: T) {} syn stream fin where
  flag := h.flag
  key hl := absurd rfl hl
  assembled := h.assembled
  sent := h.sent
  fin_at := h.fin_at
  acks := h.acks_cons fun _ _ he => nomatch he
  shutdown_once := h.shutdown_once
  shutdown_after := h.shutdown_cons nofun
  buffered hl := absurd rfl hl
  rcvNxt hl := absurd rfl hl
  guestFin hl := absurd rfl hl
  bounded := Nat.zero_le _

end

/-! ## Every run -/

/-- An act does not open its flow again. -/
theorem opener_own {i : FlowId} {T : List Item} {f f' : NatFlow} {c : Option Call} (h : FlowAct i T f c f') :
    opener (ownItems c ++ T) = opener T := by
  cases c with
  | none => rfl
  | some d =>
    obtain ⟨hi, _⟩ := h.own_call rfl
    cases d with
    | malloc ok => rfl
    | openFlow j =>
      obtain ⟨_, hf | ⟨_, hf⟩⟩ := h.own_call rfl
      · cases hf
        exact absurd hi (by simp [Call.opens])
      · cases hf
    | _ => exact opener_call T fun _ => rfl

/-- A frame of a flow, which keeps what has been taken from the guest. -/
theorem Upload.frame {i : FlowId} {T : List Item} {f f' : NatFlow} {syn : Segment} {stream : List Byte} {fin : Bool}
    {mac : BitVec 48} {id : BitVec 16} {flags words : Byte} {wnd : BitVec 16} {options payload : List Byte}
    (h1 : Upload i T f syn stream fin) (h2 : Receiving T f syn stream fin) (hl : f.state ≠ .free) (hs : SameUpload f f') :
    let T' := .call (.out (some (i, f)) (tcpFrame mac id (f.header flags wnd) words options payload)) :: T
    Upload i T' f' syn stream fin ∧ (f'.state ≠ .free → Receiving T' f' syn stream fin) := by
  refine ⟨(h1.call rfl rfl ?_ ?_).same hs, fun _ => (h2.call rfl).same hs⟩
  · exact nofun
  · intro g frame he
    cases he
    exact ⟨hl, tcpAck_tcpFrame ..⟩

theorem UploadInv.act {i : FlowId} {T : List Item} {f f' : NatFlow} {c : Option Call} (h : FlowAct i T f c f')
    (hu : UploadInv i T f) : UploadInv i (ownItems c ++ T) f' := by
  refine ⟨fun _ => ?_, fun syn hopen => ?_⟩
  · rw [opener_own h]
    exact hu.1 ⟨h.proto ▸ ‹f'.Tcp›.proto, h.was_live⟩
  obtain ⟨stream, fin, h1, h2⟩ := hu.2 syn ((opener_own h).symm.trans hopen)
  have hl := h.was_live
  have h2 := h2 hl
  cases h with
  | control mac id flags ht hflags => exact ⟨stream, fin, h1.frame h2 hl (.refl f)⟩
  | synack | data | fin => exact ⟨stream, fin, h1.frame h2 hl ⟨fun _ => hl, rfl, rfl, rfl, rfl, rfl, rfl⟩⟩
  | allocG2h ok ht hnone =>
    have hbytes : (if ok then some [] else none : Option (List Byte)).getD [] = f.g2h.getD [] := by
      rw [hnone]
      cases ok <;> rfl
    have hs : SameUpload f { f with g2h := if ok then some [] else none } := ⟨fun _ => hl, rfl, rfl, hbytes, rfl, rfl, rfl⟩
    exact ⟨stream, fin, h1.same hs, fun _ => h2.same hs⟩
  | take s buf n ht hcur hkey hs hseq hfin hbuf hpos hlen hroom =>
    obtain rfl : fin = false := (h1.guestFin hl).symm.trans hfin
    obtain ⟨h3, h4⟩ := h1.take h2 hl hcur hkey hseq hbuf hpos hlen hroom
    exact ⟨_, false, h3, fun _ => h4⟩
  | guestFin mac id s ht hcur hkey hflag hfin hseq =>
    obtain rfl : fin = false := (h1.guestFin hl).symm.trans hfin
    obtain ⟨h3, h4⟩ := h1.finned h2 hl hcur hkey hflag hseq
    exact ⟨stream, true, h3, fun _ => h4⟩
  | send buf n ht hbuf hlen =>
    obtain ⟨h3, h4⟩ := h1.send h2 hl hbuf
    exact ⟨stream, fin, h3, fun _ => h4⟩
  | sendFail buf ht hbuf => exact ⟨stream, fin, h1.call rfl rfl nofun (fun _ _ he => nomatch he), fun _ => h2.call rfl⟩
  | shutdown ht hpend hlen =>
    obtain ⟨h3, h4⟩ := h1.shutdown h2 hl hpend hlen
    exact ⟨stream, fin, h3, fun _ => h4⟩
  | eof ht hcur =>
    have hs : SameUpload f { f with hostEof := true } := ⟨fun _ => hl, rfl, rfl, rfl, rfl, rfl, rfl⟩
    exact ⟨stream, fin, h1.same hs, fun _ => h2.same hs⟩
  | udpSend d n hu hcur hkey => cases hu.proto.symm.trans h2.proto
  | udpOut frame hu => cases hu.proto.symm.trans h2.proto

theorem uploadInv (io : NetIo) (dns : BitVec 32) : NetStack.FlowInv io dns (fun _ _ _ => True) UploadInv where
  unused i := ⟨fun ht => absurd rfl ht.live, nofun⟩
  begun := by
    intro i T e f f' _ hb hu
    have hs := hb.sameUpload
    refine ⟨fun ht => ?_, fun syn hopen => ?_⟩
    · rw [opener_event]
      exact hu.1 ⟨hs.proto ▸ ht.proto, hs.live ht.live⟩
    rw [opener_event] at hopen
    obtain ⟨stream, fin, h1, h2⟩ := hu.2 syn hopen
    exact ⟨stream, fin, (h1.event e).same hs, fun hl => ((h2 (hs.live hl)).event e h1.assembled).same hs⟩
  opened := by
    intro i e k f ok hopen
    cases hopen with
    | tcp frame s isn he hseg hflag hk =>
      subst he hk
      refine ⟨fun _ => ⟨s, hseg⟩, fun syn hsyn => ?_⟩
      have hs : segmentOf frame = some syn := hsyn
      obtain rfl : s = syn := Option.some.inj (hseg.symm.trans hs)
      have hsegs : segments s.key [.call (.openFlow i s.key.proto (resolve dns s.key.ip) s.key.port ok),
          .event (.input frame)] = [s] := by simp [segments, hseg]
      refine ⟨[], false, ⟨hflag, fun _ => rfl, ?_, List.prefix_rfl, nofun, ?_, Nat.zero_le _, ?_, fun _ => rfl,
        fun _ => ?_, fun _ => rfl, Nat.zero_le _⟩, fun _ => ⟨rfl, nofun, fun _ => ⟨rfl, rfl⟩, ?_⟩⟩
      · rw [hsegs]
        exact .skip .nil
      · intro g fr hm
        simp at hm
      · intro older hold
        simp [List.suffix_cons_iff] at hold
      · simp [NatFlow.connect]
      · intro s' rest _ _ hrest _
        rw [hsegs] at hrest
        cases hrest
        exact .nil
    | udp frame d he hd hk =>
      subst he hk
      refine ⟨fun ht => (nomatch ht.proto), fun syn hsyn => ?_⟩
      cases (NetStack.segmentOf_of_datagram hd).symm.trans hsyn
  own h hu := hu.act h
  closed := by
    intro i T f hl hu
    refine ⟨fun ht => absurd rfl ht.live, fun syn hopen => ?_⟩
    obtain ⟨stream, fin, h1, _⟩ := hu.2 syn ((opener_call T fun _ => rfl).symm.trans hopen)
    exact ⟨stream, fin, h1.close, fun hl => absurd rfl hl⟩

/-- Guest to host stream integrity. Every TCP flow was opened by a SYN of the guest, and what the
stack has taken from the guest, given to the host, acknowledged and shut down is as `Upload` says. -/
theorem tcp_upload_exact (io : NetIo) (dns : BitVec 32) (es : List Event) (i : FlowId) :
    let ns := NetStack.run io dns es
    let T := trail i ns.log
    ((ns.flows i).Tcp → ∃ syn, opener T = some syn) ∧
      ∀ syn, opener T = some syn → ∃ stream fin, Upload i T (ns.flows i) syn stream fin := by
  obtain ⟨hopen, hu⟩ := (uploadInv io dns).run (fun _ _ _ (_ : es = _) _ => trivial) i
  refine ⟨hopen, fun syn hsyn => ?_⟩
  obtain ⟨stream, fin, h, _⟩ := hu syn hsyn
  exact ⟨stream, fin, h⟩

end Quanta.Net
