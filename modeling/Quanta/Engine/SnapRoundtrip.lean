/-
The snapshot file written and read back: `snapshot_read` gives the snapshot that `snapshot_write`
was given, and refuses a truncated file and one whose magic, version or layout signature differs.
-/
import Quanta.Engine.SnapFile

namespace Quanta.SnapFile

/-! ## Writing -/

def putU32 (v : BitVec 32) : List Byte := Bytes.bytesLE 4 v

def putU64 (v : BitVec 64) : List Byte := Bytes.bytesLE 8 v

/-- The 32-bit fields of the header, in order: the version, the layout signature, the machine. -/
def headerWords (L : Layout) (s : Snapshot) : List (BitVec 32) :=
  [SNAP_FORMAT_VERSION, BitVec.ofNat 32 L.sizeofCpu, BitVec.ofNat 32 L.sizeofPlatform,
    BitVec.ofNat 32 QUANTA_MAX_HARTS, s.nharts, s.sched, s.mHalted, s.mReason, s.mExit, s.dtbAddr]

def header (L : Layout) (s : Snapshot) : List Byte :=
  SNAP_MAGIC ++ ((headerWords L s).flatMap putU32 ++ [s.memBase, s.memSize, s.diskSize].flatMap putU64)

/-- `snapshot_write`, every write succeeding. -/
def snapshotWrite (L : Layout) (s : Snapshot) : List Byte :=
  header L s ++ (s.harts ++ (s.plat ++ (s.memData.take s.memSize.toNat ++ s.diskData.take s.diskSize.toNat)))

/-- A snapshot of a loaded machine: its buffers have the sizes it gives. -/
structure Snapshot.OfLoaded (L : Layout) (s : Snapshot) : Prop where
  nharts : 1 ≤ s.nharts.toInt ∧ s.nharts.toInt ≤ QUANTA_MAX_HARTS
  harts : s.harts.length = QUANTA_MAX_HARTS * L.sizeofCpu
  plat : s.plat.length = L.sizeofPlatform
  mem : s.memData.length = s.memSize.toNat
  disk : s.diskData.length = s.diskSize.toNat

/-- The struct sizes are 32-bit, as the header's fields for them are. -/
structure Layout.Narrow (L : Layout) : Prop where
  cpu : L.sizeofCpu < 0x100000000
  platform : L.sizeofPlatform < 0x100000000

/-! ## Fields of the header -/

section Words

variable {w n : Nat} (a b : List Byte)

theorem length_bytesLE (v : BitVec w) : (Bytes.bytesLE n v).length = n := by
  simp [Bytes.bytesLE]

theorem getD_put (v : BitVec w) {k : Nat} (hk : k < n) :
    (a ++ (Bytes.bytesLE n v ++ b)).getD (a.length + k) 0 = Bytes.byteAt v k := by
  rw [List.getD_eq_getElem?_getD, List.getElem?_append_right (by omega), Nat.add_sub_cancel_left,
    List.getElem?_append_left (by simpa [length_bytesLE] using hk), Bytes.bytesLE, List.getElem?_map,
    List.getElem?_range hk]
  rfl

/-- A field read where it was put. -/
theorem readLE_put (v : BitVec w) (hw : w ≤ 8 * n) :
    Bytes.readLE w (fun k => (a ++ (Bytes.bytesLE n v ++ b)).getD k 0) a.length n = v := by
  refine Eq.trans (Bytes.readLE_congr fun j hj hj' => ?_) (Bytes.readLE_writeLE (fun _ => 0) a.length n v hw)
  obtain ⟨k, rfl⟩ := Nat.exists_eq_add_of_le hj
  rw [getD_put a b v (by omega), Bytes.writeLE_of_inside hj hj', Nat.add_sub_cancel_left]

theorem length_fields (vs : List (BitVec w)) : (vs.flatMap (Bytes.bytesLE n)).length = n * vs.length := by
  induction vs with
  | nil => rfl
  | cons v vs ih => rw [List.flatMap_cons, List.length_append, length_bytesLE, ih, List.length_cons, Nat.mul_succ, Nat.add_comm]

/-- Word `k` of a run of fields. -/
theorem readLE_fields {vs : List (BitVec w)} {k : Nat} (hw : w ≤ 8 * n) (hk : k < vs.length) :
    Bytes.readLE w (fun k => (a ++ (vs.flatMap (Bytes.bytesLE n) ++ b)).getD k 0) (a.length + n * k) n = vs[k] := by
  induction vs generalizing a k with
  | nil => exact absurd hk (Nat.not_lt_zero k)
  | cons v vs ih =>
    rw [List.flatMap_cons, List.append_assoc]
    cases k with
    | zero => exact readLE_put a _ v hw
    | succ k =>
      have hnext := ih (a ++ Bytes.bytesLE n v) (Nat.lt_of_succ_lt_succ hk)
      rw [List.length_append, length_bytesLE, List.append_assoc] at hnext
      rw [List.getElem_cons_succ, ← hnext, Nat.mul_succ, Nat.add_comm (n * k), Nat.add_assoc]

end Words

section Header

variable {L : Layout} {s : Snapshot}

theorem length_header : (header L s).length = SNAP_HDR_SIZE := by
  unfold header
  rw [List.length_append, List.length_append]
  exact congrArg (8 + ·) (congrArg₂ (· + ·) (length_fields (headerWords L s)) (length_fields [s.memBase, s.memSize, s.diskSize]))

theorem getU32_header (k : Nat) (hk : k < 10) : getU32 (header L s) (8 + 4 * k) = (headerWords L s).get ⟨k, hk⟩ :=
  readLE_fields SNAP_MAGIC _ (by decide) hk

theorem getU64_header (k : Nat) (hk : k < 3) :
    getU64 (header L s) (48 + 8 * k) = [s.memBase, s.memSize, s.diskSize][k] := by
  have hfields : Bytes.readLE 64 _ _ 8 = [s.memBase, s.memSize, s.diskSize][k] :=
    readLE_fields (SNAP_MAGIC ++ (headerWords L s).flatMap (Bytes.bytesLE 4)) [] (by decide) hk
  rw [List.length_append, length_fields, List.append_nil, List.append_assoc] at hfields
  exact hfields

/-- The layout signature is checked as the sizes it was made from. -/
theorem signature_header (hL : L.Narrow) : getU32 (header L s) 8 = SNAP_FORMAT_VERSION ∧
    (getU32 (header L s) 12).toNat = L.sizeofCpu ∧ (getU32 (header L s) 16).toNat = L.sizeofPlatform ∧
    (getU32 (header L s) 20).toNat = QUANTA_MAX_HARTS := by
  refine ⟨getU32_header 0 (by decide), ?_, ?_, ?_⟩
  · exact (congrArg BitVec.toNat (getU32_header 1 (by decide))).trans (Nat.mod_eq_of_lt hL.cpu)
  · exact (congrArg BitVec.toNat (getU32_header 2 (by decide))).trans (Nat.mod_eq_of_lt hL.platform)
  · exact congrArg BitVec.toNat (getU32_header 3 (by decide))

theorem take_header : (header L s).take 8 = SNAP_MAGIC := List.take_left' rfl

end Header

/-! ## The round trip -/

section Roundtrip

variable {L : Layout} {s : Snapshot} {malloc : Nat → Bool}

theorem snapshotWrite_eq (hs : s.OfLoaded L) :
    snapshotWrite L s = header L s ++ (s.harts ++ (s.plat ++ (s.memData ++ (s.diskData ++ [])))) := by
  unfold snapshotWrite
  rw [List.take_of_length_le (Nat.le_of_eq hs.mem), List.take_of_length_le (Nat.le_of_eq hs.disk), List.append_nil]

theorem length_snapshotWrite (hs : s.OfLoaded L) : (snapshotWrite L s).length =
    SNAP_HDR_SIZE + (QUANTA_MAX_HARTS * L.sizeofCpu + (L.sizeofPlatform + (s.memSize.toNat + s.diskSize.toNat))) := by
  rw [snapshotWrite_eq hs, List.length_append, List.length_append, List.length_append, List.length_append,
    List.append_nil, length_header, hs.harts, hs.plat, hs.mem, hs.disk]

theorem snapshotRead_write (hL : L.Narrow) (hs : s.OfLoaded L) (hm : ∀ n, malloc n = true) :
    snapshotRead L malloc (snapshotWrite L s) = some s := by
  have hword := getU32_header (L := L) (s := s)
  have hsize := getU64_header (L := L) (s := s)
  have hmemSize : getU64 (header L s) 56 = s.memSize := hsize 1 (by decide)
  have hdiskSize : getU64 (header L s) 64 = s.diskSize := hsize 2 (by decide)
  have hnharts : getU32 (header L s) 24 = s.nharts := hword 4 (by decide)
  obtain ⟨hver, hcpu, hplatform, hmax⟩ := @signature_header L s hL
  have hn : ¬((getU32 (header L s) 24).slt 1 ∨ (BitVec.ofNat 32 QUANTA_MAX_HARTS).slt (getU32 (header L s) 24)) := by
    rw [hnharts, BitVec.slt_iff_toInt_lt, BitVec.slt_iff_toInt_lt]
    exact not_or.mpr ⟨Int.not_lt.mpr hs.nharts.1, Int.not_lt.mpr hs.nharts.2⟩
  rw [snapshotWrite_eq hs, snapshotRead_of (fread_append length_header _) take_header
    (not_or.mpr ⟨not_not_intro hver, not_or.mpr ⟨not_not_intro hcpu, not_or.mpr ⟨not_not_intro hplatform,
      not_not_intro hmax⟩⟩⟩)
    hn (fread_append hs.harts _) (fread_append hs.plat _) hm
    (fread_append (hs.mem.trans (congrArg BitVec.toNat hmemSize.symm)) _)
    (fread_append (hs.disk.trans (congrArg BitVec.toNat hdiskSize.symm)) _)]
  rw [hnharts, hmemSize, hdiskSize, hword 5 (by decide), hword 6 (by decide), hword 7 (by decide), hword 8 (by decide),
    hword 9 (by decide), hsize 0 (by decide)]
  rfl

/-! ## Rejected files -/

/-- A file that is read has all the bytes its header announces. -/
theorem Accepted.length {f hdr f1 f2 f3 f4 f5 : List Byte} (a : Accepted L f s hdr f1 f2 f3 f4 f5) :
    SNAP_HDR_SIZE + (QUANTA_MAX_HARTS * L.sizeofCpu +
      (L.sizeofPlatform + ((getU64 hdr 56).toNat + (getU64 hdr 64).toNat))) ≤ f.length := by
  obtain ⟨-, rfl⟩ := fread_some a.read
  obtain ⟨-, rfl⟩ := fread_some a.harts
  obtain ⟨-, rfl⟩ := fread_some a.plat
  obtain ⟨-, rfl⟩ := fread_some a.mem
  have hdisk := fread_length a.disk
  have hmem := fread_length a.mem
  have hplat := fread_length a.plat
  have hharts := fread_length a.harts
  have hread := fread_length a.read
  simp only [List.length_drop] at hdisk hmem hplat hharts
  omega

/-- A file cut short is not read: its header, if whole, still announces all the bytes. -/
theorem snapshotRead_truncated (hs : s.OfLoaded L) {n : Nat} (hn : n < (snapshotWrite L s).length) :
    snapshotRead L malloc ((snapshotWrite L s).take n) = none := by
  cases hread : snapshotRead L malloc ((snapshotWrite L s).take n) with
  | none => rfl
  | some s' =>
    obtain ⟨hdr, f1, f2, f3, f4, f5, a⟩ := snapshotRead_accepted hread
    have hlen := a.length
    obtain ⟨hhdr, -⟩ := fread_some a.read
    have hwhole := fread_length a.read
    rw [List.length_take] at hlen hwhole
    have hheader : hdr = header L s := by
      rw [hhdr, List.take_take, Nat.min_eq_left (by omega), snapshotWrite_eq hs]
      exact List.take_left' length_header
    rw [hheader, getU64_header 1 (by decide), getU64_header 2 (by decide)] at hlen
    have htotal := length_snapshotWrite hs
    change _ + (_ + (_ + (s.memSize.toNat + s.diskSize.toNat))) ≤ _ at hlen
    omega

theorem slice_getU32 {f : List Byte} {i : Nat} (h : i + 4 ≤ f.length) : (f.drop i).take 4 = putU32 (getU32 f i) := by
  refine List.ext_getElem (by rw [List.length_take, List.length_drop, putU32, length_bytesLE]; omega) fun k hk _ => ?_
  have hk4 : k < 4 := Nat.lt_of_lt_of_le hk (List.length_take_le _ _)
  rw [List.getElem_take, List.getElem_drop]
  simp only [putU32, Bytes.bytesLE, List.getElem_map, List.getElem_range]
  have hbyte := Bytes.byteAt_readLE (fun j => f.getD j 0) i hk4 (Nat.le_refl 32)
  exact (List.getD_eq_getElem _ 0 (by omega)).symm.trans hbyte.symm

/-- The magic, the version and the layout signature. -/
def signature (L : Layout) : List Byte :=
  SNAP_MAGIC ++ (putU32 SNAP_FORMAT_VERSION ++ (putU32 (BitVec.ofNat 32 L.sizeofCpu) ++
    (putU32 (BitVec.ofNat 32 L.sizeofPlatform) ++ putU32 (BitVec.ofNat 32 QUANTA_MAX_HARTS))))

theorem take_signature : (snapshotWrite L s).take 24 = signature L := rfl

/-- The checks of the header leave one value for its first 24 bytes. -/
theorem Accepted.signature {f hdr f1 f2 f3 f4 f5 : List Byte} (a : Accepted L f s hdr f1 f2 f3 f4 f5) :
    f.take 24 = signature L := by
  obtain ⟨hhdr, -⟩ := fread_some a.read
  have hlen : hdr.length = SNAP_HDR_SIZE := by
    rw [hhdr, List.length_take, Nat.min_eq_left (fread_length a.read)]
  have hlayout := a.layout
  simp only [not_or, ne_eq, not_not] at hlayout
  obtain ⟨hver, hcpu, hplatform, hmax⟩ := hlayout
  have htake : f.take 24 = hdr.take 24 := by rw [hhdr, List.take_take]; rfl
  have hsplit : hdr.take 24 = hdr.take 8 ++ ((hdr.drop 8).take 4 ++ ((hdr.drop 12).take 4 ++
      ((hdr.drop 16).take 4 ++ (hdr.drop 20).take 4))) := by
    have h8 := @List.take_add _ hdr 8 4
    have h12 := @List.take_add _ hdr 12 4
    have h16 := @List.take_add _ hdr 16 4
    have h20 := @List.take_add _ hdr 20 4
    rw [h20, h16, h12, h8, List.append_assoc, List.append_assoc, List.append_assoc]
  rw [htake, hsplit, a.magic, slice_getU32 (by rw [hlen]; decide), slice_getU32 (by rw [hlen]; decide),
    slice_getU32 (by rw [hlen]; decide), slice_getU32 (by rw [hlen]; decide), hver]
  unfold SnapFile.signature
  rw [← hcpu, ← hplatform, ← hmax]
  simp only [BitVec.ofNat_toNat, BitVec.setWidth_eq]

/-- The file that was written reads back as the snapshot; cut short anywhere, or with any other magic, version or
layout signature, it is refused. -/
theorem snapshot_roundtrip (hL : L.Narrow) (hs : s.OfLoaded L) (hm : ∀ n, malloc n = true) :
    snapshotRead L malloc (snapshotWrite L s) = some s ∧
      (∀ n < (snapshotWrite L s).length, snapshotRead L malloc ((snapshotWrite L s).take n) = none) ∧
      ∀ sig : List Byte, sig.length = 24 → sig ≠ (snapshotWrite L s).take 24 →
        snapshotRead L malloc (sig ++ (snapshotWrite L s).drop 24) = none := by
  refine ⟨snapshotRead_write hL hs hm, fun n hn => snapshotRead_truncated hs hn, ?_⟩
  intro sig hlen hne
  cases hread : snapshotRead L malloc (sig ++ (snapshotWrite L s).drop 24) with
  | none => rfl
  | some s' =>
    obtain ⟨hdr, f1, f2, f3, f4, f5, a⟩ := snapshotRead_accepted hread
    have hsig := a.signature
    rw [List.take_left' hlen] at hsig
    exact absurd (hsig.trans take_signature.symm) hne

end Roundtrip

/-- One hart, four bytes of RAM, no disk. -/
def small : Snapshot where
  harts := List.replicate 272256 0
  plat := List.replicate 26368 0
  nharts := 1
  sched := 0
  mHalted := 0
  mReason := 0
  mExit := 0
  dtbAddr := 0
  memBase := 0x80000000
  memSize := 4
  diskSize := 0
  memData := [0x13, 0, 0, 0]
  diskData := []

theorem snapshot_roundtrip_small : lp64.Narrow ∧ small.OfLoaded lp64 ∧
    snapshotRead lp64 (fun _ => true) (snapshotWrite lp64 small) = some small := by
  have hL : lp64.Narrow := ⟨by decide, by decide⟩
  have hs : small.OfLoaded lp64 :=
    ⟨by decide, List.length_replicate, List.length_replicate, rfl, rfl⟩
  exact ⟨hL, hs, (snapshot_roundtrip hL hs fun _ => rfl).1⟩

end Quanta.SnapFile
