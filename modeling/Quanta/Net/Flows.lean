/-
The identity of NAT flows. No two live flows share a key. The backend sees each flow id go round
one cycle, opened, then sends and at most one shutdown, then closed, whatever tears the flow down.
And what is sent on a flow is what the guest addressed to its remote endpoint.
-/
import Quanta.Net.Upload

namespace Quanta.Net

/-! ## What the backend sees of a flow id -/

/-- Where a flow id is in its cycle at the backend; an open one has been shut down or not. -/
inductive Phase where
  | closed
  | opened (shut : Bool)

/-- The phase of id `i` after a call, if the call is in order. -/
def Call.next (i : FlowId) (c : Call) (p : Phase) : Option Phase :=
  if c.flow ≠ some i then some p
  else
    match c, p with
    | .out _ _, p => some p
    | .openFlow _ _ _ _ _, .closed => some (.opened false)
    | .send _ _ _, .opened shut => some (.opened shut)
    | .shutdown _, .opened false => some (.opened true)
    | .close _, .opened _ => some .closed
    | _, _ => none

/-- The phase of id `i` after the calls of a log, if all of them were in order. -/
def phase (i : FlowId) : List Item → Option Phase
  | [] => some .closed
  | .event _ :: older => phase i older
  | .call c :: older => (phase i older).bind (c.next i)

theorem phase_call {i : FlowId} {c : Call} {log : List Item} {p q : Phase} (hp : phase i log = some p)
    (hn : c.next i p = some q) : phase i (.call c :: log) = some q := by
  unfold phase
  rw [hp]
  exact hn

theorem phase_other {i : FlowId} {c : Call} (log : List Item) (h : c.flow ≠ some i) :
    phase i (.call c :: log) = phase i log := by
  have hnext : ∀ p, c.next i p = some p := fun p => if_pos h
  cases hp : phase i log with
  | none => exact (congrArg (Option.bind · (c.next i)) hp).trans rfl
  | some p => exact phase_call hp (hnext p)

section
variable (i : FlowId)

theorem next_out (g : NatFlow) (frame : List Byte) (p : Phase) : (Call.out (some (i, g)) frame).next i p = some p := by
  simp [Call.next, Call.flow]

theorem next_openFlow (k : Proto) (ip : BitVec 32) (port : BitVec 16) (ok : Bool) :
    (Call.openFlow i k ip port ok).next i .closed = some (.opened false) := by
  simp [Call.next, Call.flow]

theorem next_send (data : List Byte) (n : Option Nat) (shut : Bool) :
    (Call.send i data n).next i (.opened shut) = some (.opened shut) := by
  simp [Call.next, Call.flow]

theorem next_shutdown : (Call.shutdown i).next i (.opened false) = some (.opened true) := by
  simp [Call.next, Call.flow]

theorem next_close (shut : Bool) : (Call.close i).next i (.opened shut) = some .closed := by
  simp [Call.next, Call.flow]

end

/-- Whether a flow is shut down fits its flags: only once the guest's FIN has been passed on. -/
structure Shuts (f : NatFlow) (shut : Bool) : Prop where
  shut : shut = true → f.guestFin = true ∧ f.shutdownPending = false
  pending : f.shutdownPending = true → f.guestFin = true

/-- The id of a slot is closed when the slot is free, and open when it is not. -/
structure Tracks (i : FlowId) (log : List Item) (f : NatFlow) : Prop where
  free : f.state = .free → phase i log = some .closed
  live : f.state ≠ .free → ∃ shut, phase i log = some (.opened shut) ∧ Shuts f shut

section
variable {i : FlowId} {log : List Item} {f f' : NatFlow}

theorem tracks_live (hl : f.state ≠ .free) {shut : Bool} (hp : phase i log = some (.opened shut))
    (hs : Shuts f shut) : Tracks i log f := ⟨fun h => absurd h hl, fun _ => ⟨shut, hp, hs⟩⟩

theorem Tracks.phase (h : Tracks i log f) : ∃ p, phase i log = some p := by
  by_cases hl : f.state = .free
  · exact ⟨_, h.free hl⟩
  · obtain ⟨shut, hp, _⟩ := h.live hl
    exact ⟨_, hp⟩

/-- A call for another flow changes nothing. -/
theorem Tracks.other {c : Call} (h : Tracks i log f) (hc : c.flow ≠ some i) : Tracks i (.call c :: log) f := by
  refine ⟨fun hf => ?_, fun hl => ?_⟩
  · rw [phase_other log hc]
    exact h.free hf
  · rw [phase_other log hc]
    exact h.live hl

theorem Tracks.others {j : FlowId} {T : List Item} {g g' : NatFlow} {c : Option Call} (ha : FlowAct j T g c g') (hj : i ≠ j)
    (h : Tracks i log f) : Tracks i ((c.map Item.call).toList ++ log) f := by
  cases c with
  | none => exact h
  | some d =>
    refine h.other ?_
    obtain ⟨_, hf | ⟨ok, rfl⟩⟩ := ha.own_call rfl
    · rw [hf]
      exact fun he => hj (Option.some.inj he).symm
    · exact nofun

theorem Tracks.begun {io : NetIo} {e : Event} (hb : Begun io i e f f') (h : Tracks i log f) : Tracks i log f' := by
  have hs := hb.sameUpload
  have hfree : f'.state = .free → f.state = .free := by
    intro hf
    cases hb with
    | heard frame s he hseg hkey ht => exact absurd hf (ht.heard s).live
    | _ => exact hf
  refine ⟨fun hf => h.free (hfree hf), fun hl => ?_⟩
  obtain ⟨shut, hp, hsh⟩ := h.live (hs.live hl)
  refine ⟨shut, hp, ?_, ?_⟩
  · rw [hs.guestFin, hs.shutdownPending]
    exact hsh.shut
  · rw [hs.guestFin, hs.shutdownPending]
    exact hsh.pending

theorem Tracks.own {T : List Item} {c : Option Call} (ha : FlowAct i T f c f') (h : Tracks i log f) :
    Tracks i ((c.map Item.call).toList ++ log) f' := by
  obtain ⟨shut, hp, hs⟩ := h.live ha.was_live
  have hl := ha.live
  cases ha with
  | take | eof => exact tracks_live hl hp ⟨hs.shut, hs.pending⟩
  | allocG2h ok =>
    have hm : Net.phase i (.call (.malloc ok) :: log) = Net.phase i log := phase_other log nofun
    exact tracks_live hl (hm.trans hp) ⟨hs.shut, hs.pending⟩
  | shutdown ht hpend hlen =>
    cases shut with
    | true => cases (hs.shut rfl).2.symm.trans hpend
    | false => exact tracks_live hl (phase_call hp (next_shutdown i)) ⟨fun _ => ⟨hs.pending hpend, rfl⟩, fun h => nomatch h⟩
  | guestFin mac id s ht hcur hkey hflag hfin hseq =>
    cases shut with
    | true => cases (hs.shut rfl).1.symm.trans hfin
    | false => exact tracks_live hl (phase_call hp (next_out i ..)) ⟨fun h => (nomatch h), fun _ => rfl⟩
  | send buf n => exact tracks_live hl (phase_call hp (next_send i ..)) ⟨hs.shut, hs.pending⟩
  | sendFail buf | udpSend d n => exact tracks_live hl (phase_call hp (next_send i ..)) hs
  | _ => exact tracks_live hl (phase_call hp (next_out i ..)) ⟨hs.shut, hs.pending⟩

end

namespace NetStack

variable {io : NetIo} {dns : BitVec 32} {ns ns' : NetStack}

/-- Every id is in phase with its slot. -/
def InPhase (ns : NetStack) : Prop := ∀ i, Tracks i ns.log (ns.flows i)

theorem InPhase.begins {e : Event} (h : InPhase ns) (hb : Begins io e ns ns') : InPhase ns' := by
  intro i
  have hphase : phase i ns'.log = phase i ns.log := by
    obtain hlog | ⟨ok, hlog⟩ := hb.log
    · rw [hlog]
      rfl
    · rw [hlog]
      exact phase_other _ nofun
  have ht := (h i).begun (hb.flows i)
  exact ⟨hphase ▸ ht.free, hphase ▸ ht.live⟩

theorem InPhase.close {i : FlowId} (h : InPhase ns) (hl : (ns.flows i).state ≠ .free) (id : BitVec 16) :
    InPhase (ns.act i (some (.close i)) {} id) := by
  intro j
  by_cases hj : j = i
  · subst hj
    obtain ⟨shut, hp, _⟩ := (h j).live hl
    rw [flows_act]
    exact ⟨fun _ => phase_call hp (next_close j shut), fun hl => absurd rfl hl⟩
  · rw [flows_act_of_ne hj]
    exact (h j).other fun he => hj (Option.some.inj he).symm

theorem InPhase.act (h : InPhase ns) (ha : Act ns ns') : InPhase ns' := by
  cases ha with
  | mac m => exact h
  | gateway frame id => exact fun j => (h j).other nofun
  | opened i e older k f isn ok hlog hfree hnew hopen =>
    intro j
    by_cases hj : j = i
    · subst hj
      have hclosed : phase j ns.log = some .closed := (h j).free hfree
      rw [flows_openedAs]
      refine tracks_live ?_ (phase_call hclosed (next_openFlow j ..)) ⟨nofun, ?_⟩
      · cases hopen with
        | tcp _ _ _ _ _ _ hk =>
          subst hk
          exact nofun
        | udp _ _ _ _ hk =>
          subst hk
          exact nofun
      · cases hopen <;> exact nofun
    · have hflow : (ns.openedAs i k f isn ok).flows j = ns.flows j := Function.update_of_ne hj ..
      rw [hflow]
      exact (h j).other fun he => hj (Option.some.inj he).symm
  | own i ho =>
    obtain ⟨id, ha⟩ := ho
    intro j
    by_cases hj : j = i
    · subst hj
      rw [flows_act]
      exact (h j).own ha
    · rw [flows_act_of_ne hj]
      exact (h j).others ha hj
  | close i hc =>
    obtain ⟨hl⟩ := hc
    exact h.close hl ns.ipId

theorem inPhase_run (es : List Event) : InPhase (run io dns es) :=
  run_inv (fun _ => ⟨fun _ => rfl, fun hl => absurd rfl hl⟩) (fun _ hb h => h.begins hb) (fun _ ha h => h.act ha) es

/-- Freeing the stack closes every flow that is open. -/
theorem InPhase.netstackFree (h : InPhase ns) (hio : ns.io = some io) : InPhase ns.netstackFree := by
  unfold NetStack.netstackFree
  generalize List.finRange NS_NAT_MAX = ids
  induction ids generalizing ns with
  | nil => exact h
  | cons i ids ih =>
    rw [List.foldl_cons]
    by_cases hl : (ns.flows i).state = .free
    · have hsame : ns.flowFree i = ns := if_pos hl
      rw [hsame]
      exact ih h hio
    · rw [flowFree_of_live hl hio]
      exact ih (h.close hl ns.ipId) hio

end NetStack

/-! ## Where bytes go -/

/-- The endpoint a flow was opened to. -/
def remote : List Item → Option (Proto × BitVec 32 × BitVec 16)
  | [] => none
  | .call (.openFlow _ p ip port _) :: _ => some (p, ip, port)
  | _ :: older => remote older

/-- What is sent on a flow with trail `T` goes where the guest addressed it: the datagram being
handled, or what the host has not accepted yet of the stream of the connection it opened. -/
inductive Routed (dns : BitVec 32) (T : List Item) (data : List Byte) : Prop where
  | udp (d : Datagram) (hd : currentDatagram T = some d) (hdata : data = d.payload)
      (hremote : remote T = some (.udp, resolve dns d.dst, d.dport))
  | tcp (syn : Segment) (stream : List Byte) (hopen : opener T = some syn)
      (hremote : remote T = some (.tcp, resolve dns syn.dst, syn.dport))
      (hstream : Assembled (syn.seq + 1) (segments syn.key T) stream) (hdata : accepted T ++ data = stream)

/-- A live flow is open to the endpoint its key names. -/
def Remote (dns : BitVec 32) (_ : FlowId) (T : List Item) (f : NatFlow) : Prop :=
  f.state ≠ .free → remote T = some (f.key.proto, resolve dns f.key.ip, f.key.port)

theorem remoteInv (io : NetIo) (dns : BitVec 32) : NetStack.FlowInv io dns (fun _ _ _ => True) (Remote dns) where
  unused i hl := absurd rfl hl
  begun := by
    intro i T e f f' _ hb h hl
    rw [hb.key]
    exact h (hb.live hl)
  opened := by
    intro i e k f ok hopen _
    cases hopen <;> rfl
  own := by
    intro i T f c f' ha h _
    have hsame : remote (ownItems c ++ T) = remote T := by
      cases ha <;> rfl
    rw [hsame, ha.key]
    exact h ha.was_live
  closed _ _ hl := absurd rfl hl

namespace NetStack

variable {io : NetIo} {dns : BitVec 32} {ns ns' : NetStack}

/-- Every send so far went where the guest addressed it. -/
def SendsRouted (dns : BitVec 32) (ns : NetStack) : Prop :=
  ∀ i data n older, .call (.send i data n) :: older <:+ ns.log → Routed dns (trail i older) data

theorem SendsRouted.cons {x : Item} (h : SendsRouted dns ns) (hlog : ns'.log = x :: ns.log)
    (hx : ∀ i data n, x = .call (.send i data n) → Routed dns (trail i ns.log) data) : SendsRouted dns ns' := by
  intro i data n older hold
  rw [hlog] at hold
  rcases List.suffix_cons_iff.mp hold with he | hold
  · obtain ⟨hx', rfl⟩ := List.cons.inj he
    exact hx i data n hx'.symm
  · exact h i data n older hold

theorem routed_own {i : FlowId} {T : List Item} {f f' : NatFlow} {c : Option Call} (ha : FlowAct i T f c f')
    (hu : UploadInv i T f) (hr : Remote dns i T f) {j : FlowId} {data : List Byte} {n : Option Nat}
    (hc : c = some (.send j data n)) : j = i ∧ Routed dns T data := by
  have htcp : f.Tcp → f.g2hBytes = data → Routed dns T data := by
    intro ht hdata
    obtain ⟨syn, hopen⟩ := hu.1 ht
    obtain ⟨stream, fin, h, _⟩ := hu.2 syn hopen
    have hremote := hr ht.live
    rw [h.key ht.live] at hremote
    exact .tcp syn stream hopen hremote h.assembled (hdata ▸ h.buffered ht.live)
  cases ha with
  | send buf n ht hbuf hlen | sendFail buf ht hbuf =>
    cases hc
    exact ⟨rfl, htcp ht (congrArg (Option.getD · []) hbuf)⟩
  | udpSend d n hu hcur hkey =>
    cases hc
    have hremote := hr hu.live
    rw [← hkey] at hremote
    exact ⟨rfl, .udp d hcur rfl hremote⟩
  | _ => cases hc

theorem SendsRouted.begins {e : Event} (h : SendsRouted dns ns) (hb : Begins io e ns ns') : SendsRouted dns ns' := by
  have hevent : SendsRouted dns (ns.note (.event e)) := h.cons rfl nofun
  obtain hlog | ⟨ok, hlog⟩ := hb.log
  · exact h.cons hlog nofun
  · exact hevent.cons hlog nofun

theorem SendsRouted.act (h : SendsRouted dns ns) (hu : Holds UploadInv ns) (hr : Holds (Remote dns) ns)
    (ha : Act ns ns') : SendsRouted dns ns' := by
  cases ha with
  | mac m => exact h
  | gateway frame id => exact h.cons rfl nofun
  | opened i e older k f isn ok => exact h.cons (log_openedAs i k f isn ok ns) nofun
  | own i ho =>
    obtain @⟨c, f, id, ha⟩ := ho
    cases c with
    | none => exact h
    | some d =>
      refine h.cons rfl fun j data n hx => ?_
      obtain ⟨rfl, hrouted⟩ := routed_own ha (hu i) (hr i) (congrArg some (Item.call.inj hx))
      exact hrouted
  | close i hc =>
    obtain ⟨hl⟩ := hc
    exact h.cons rfl nofun

theorem sendsRouted_run (es : List Event) : SendsRouted dns (run io dns es) := by
  have hall : Holds UploadInv (run io dns es) ∧ Holds (Remote dns) (run io dns es) ∧ SendsRouted dns (run io dns es) := by
    refine run_inv (J := fun ns => Holds UploadInv ns ∧ Holds (Remote dns) ns ∧ SendsRouted dns ns) ?_ ?_ ?_ es
    · refine ⟨(uploadInv io dns).unused, (remoteInv io dns).unused, fun i data n older hold => ?_⟩
      cases List.suffix_nil.mp hold
    · intro ns start e _ hb ⟨hu, hr, hs⟩
      exact ⟨(uploadInv io dns).begins (fun _ => trivial) hb hu, (remoteInv io dns).begins (fun _ => trivial) hb hr,
        hs.begins hb⟩
    · intro ns ns' hready ha ⟨hu, hr, hs⟩
      exact ⟨(uploadInv io dns).act hready ha hu, (remoteInv io dns).act hready ha hr, hs.act hu hr ha⟩
  exact hall.2.2

/-- NAT flow identity. After every sequence of events no two live flows share a key; the backend has
seen every id go round its cycle in order, and still does when the stack is freed; and everything
sent went to the endpoint the guest addressed. -/
theorem nat_flow_identity (io : NetIo) (dns : BitVec 32) (es : List Event) :
    (run io dns es).UniqueKeys ∧ (∀ i, ∃ p, phase i (run io dns es).log = some p) ∧
      (∀ i, ∃ p, phase i (run io dns es).netstackFree.log = some p) ∧ SendsRouted dns (run io dns es) := by
  have hready : Ready io dns (run io dns es) := ready_run es
  have hphase : InPhase (run io dns es) := inPhase_run es
  have hsends : SendsRouted dns (run io dns es) := sendsRouted_run es
  exact ⟨hready.keys, fun i => (hphase i).phase, fun i => (hphase.netstackFree hready.io i).phase, hsends⟩

end NetStack

end Quanta.Net
