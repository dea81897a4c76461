/-
The blob `dtb_build` returns: it is laid out as the header says, the strings never run out of room,
and it fits exactly when the finished tree does.
-/
import Quanta.Loader.Tree

namespace Quanta.Dtb

open Quanta.Fdt (Node Token be32 padding EncodesAll stringsOf nameTable blobSize parse)

/-! ## The tokens of the tree -/

/-- At most `QUANTA_MAX_HARTS` harts, and strings whose size with the NUL is a word. -/
structure DtbConfig.Bounded (cfg : DtbConfig) : Prop where
  nharts : cfg.nharts.toNat ≤ QUANTA_MAX_HARTS
  isa : cfg.isa.bytes.length < 0xffffffff
  mmuType : cfg.mmuType.bytes.length < 0xffffffff
  bootargs : ∀ s ∈ cfg.bootargs, s.bytes.length < 0xffffffff

theorem known_node {name : List Byte} {props : List (List Byte × List Byte)} {children : List Node}
    (hname : (0 : Byte) ∉ name) (hprops : ∀ p ∈ props, p.1 ∈ propNames ∧ p.2.length < 0x100000000)
    (hchildren : ∀ n ∈ children, ∀ t ∈ n.tokens, Known t) : ∀ t ∈ (Node.mk name props children).tokens, Known t := by
  have hnames : ∀ n ∈ propNames, (0 : Byte) ∉ n := by decide +kernel
  rw [Fdt.Node.tokens, Fdt.tokensAll_eq_flatMap]
  intro t ht
  simp only [List.mem_cons, List.mem_append, List.mem_map, List.mem_flatMap, List.not_mem_nil, or_false] at ht
  obtain rfl | ⟨p, hp, rfl⟩ | ⟨n, hn, ht⟩ | rfl := ht
  · exact ⟨hname, nofun⟩
  · obtain ⟨hmem, hlen⟩ := hprops p hp
    refine ⟨⟨hnames _ hmem, hlen⟩, ?_⟩
    rintro n value ⟨rfl, rfl⟩
    exact hmem
  · exact hchildren n hn t ht
  · exact ⟨trivial, nofun⟩

theorem hexDigit_ne_zero {n : Nat} (h : n < 16) : hexDigit n ≠ 0 := by
  have : ∀ n < 16, hexDigit n ≠ 0 := by decide
  exact this n h

theorem hexFrom_noNul {acc : List Byte} (h : (0 : Byte) ∉ acc) (fuel n : Nat) : (0 : Byte) ∉ hexFrom fuel n acc := by
  induction fuel generalizing n acc with
  | zero => exact h
  | succ fuel ih =>
    have hcons : (0 : Byte) ∉ hexDigit (n % 16) :: acc := by
      rw [List.mem_cons, not_or]
      exact ⟨(hexDigit_ne_zero (Nat.mod_lt n (by decide))).symm, h⟩
    unfold hexFrom
    dsimp only
    split
    · exact hcons
    · exact ih hcons _

theorem unitName_noNul {name : String} (h : (0 : Byte) ∉ ascii name) (v : BitVec 32) : (0 : Byte) ∉ unitName name v := by
  unfold unitName
  rw [List.mem_append, not_or]
  exact ⟨h, hexFrom_noNul List.not_mem_nil 8 v.toNat⟩

@[simp] theorem length_str (s : List Byte) : (str s).length = s.length + 1 := List.length_append

theorem length_irqs (nharts first second : BitVec 32) : (irqs nharts first second).length = nharts.toNat * 4 := by
  unfold irqs
  rw [List.length_flatMap]
  simp

section Known

variable {cfg : DtbConfig}

theorem hartCount_le (h : cfg.Bounded) : cfg.hartCount.toNat ≤ QUANTA_MAX_HARTS := by
  unfold DtbConfig.hartCount
  split
  · exact h.nharts
  · decide

theorem known_chosen (h : cfg.Bounded) : ∀ t ∈ cfg.chosenNode.tokens, Known t := by
  have hargs : (cfg.bootargs.elim [] CString.bytes).length < 0xffffffff := by
    cases hb : cfg.bootargs with
    | none => exact (by decide : 0 < 0xffffffff)
    | some s => exact h.bootargs s hb
  refine known_node (by decide) ?_ nofun
  have htext : (ascii "/soc/uart@10000000").length = 18 := by decide
  split <;> simp [propNames, length_cells, htext] <;> omega

theorem known_cpu (h : cfg.Bounded) (n : Nat) : ∀ t ∈ (cfg.cpuNode n).tokens, Known t := by
  have hisa := h.isa
  have hmmu := h.mmuType
  refine known_node (unitName_noNul (by decide) _) ?_ ?_
  · simp [propNames, length_cells]
    exact ⟨by decide, by decide, by decide, by omega, by omega⟩
  · rw [List.forall_mem_singleton]
    refine known_node (by decide) ?_ nofun
    simp [propNames, length_cells]
    decide

theorem known_cpus (h : cfg.Bounded) : ∀ t ∈ cfg.cpusNode.tokens, Known t := by
  refine known_node (by decide) (by simp [propNames, length_cells]) ?_
  intro n hn
  obtain ⟨i, -, rfl⟩ := List.mem_map.mp hn
  exact known_cpu h i

theorem known_memory (cfg : DtbConfig) : ∀ t ∈ cfg.memoryNode.tokens, Known t :=
  known_node (unitName_noNul (by decide) _) (by simp [propNames, length_cells, reg]; decide) nofun

theorem length_irqs_lt (h : cfg.Bounded) (first second : BitVec 32) :
    (irqs cfg.hartCount first second).length * 4 < 0x100000000 := by
  have hharts : cfg.hartCount.toNat ≤ 8 := hartCount_le h
  rw [length_irqs]
  omega

theorem known_clint (h : cfg.Bounded) : ∀ t ∈ cfg.clintNode.tokens, Known t :=
  known_node (unitName_noNul (by decide) _) (by simp [propNames, length_cells, reg, length_irqs_lt h]; decide) nofun

theorem known_plic (h : cfg.Bounded) : ∀ t ∈ cfg.plicNode.tokens, Known t :=
  known_node (unitName_noNul (by decide) _) (by simp [propNames, length_cells, reg, length_irqs_lt h]; decide) nofun

theorem known_uart (cfg : DtbConfig) : ∀ t ∈ cfg.uartNode.tokens, Known t :=
  known_node (unitName_noNul (by decide) _) (by simp [propNames, length_cells, reg]; decide) nofun

theorem known_virtio (base size irq : BitVec 32) :
    ∀ n ∈ DtbConfig.virtioNodes base size irq, ∀ t ∈ n.tokens, Known t := by
  unfold DtbConfig.virtioNodes
  split
  · rw [List.forall_mem_singleton]
    exact known_node (unitName_noNul (by decide) _) (by simp [propNames, length_cells, reg]; decide) nofun
  · exact nofun

theorem known_test (cfg : DtbConfig) : ∀ t ∈ cfg.testNode.tokens, Known t :=
  known_node (unitName_noNul (by decide) _) (by simp [propNames, length_cells, reg]; decide) nofun

theorem known_soc (h : cfg.Bounded) : ∀ t ∈ cfg.socNode.tokens, Known t := by
  refine known_node (by decide) (by simp [propNames, length_cells]; decide) ?_
  simp only [List.forall_mem_append, List.forall_mem_cons]
  exact ⟨⟨⟨⟨known_clint h, known_plic h, known_uart cfg, nofun⟩, known_virtio _ _ _⟩, known_virtio _ _ _⟩,
    known_test cfg, nofun⟩

theorem known_tree (h : cfg.Bounded) : ∀ t ∈ cfg.tree.tokens, Known t := by
  refine known_node List.not_mem_nil (by simp [propNames, length_cells]; decide) ?_
  simp only [List.forall_mem_cons]
  exact ⟨known_chosen h, known_cpus h, known_memory cfg, known_soc h, nofun⟩

end Known

/-! ## The header -/

theorem wrBe_after (p : Nat → Byte) (bs : List Byte) {i : Nat} (hi : bs.length = i) (v : BitVec 32) :
    wrBe (writeBytes p 0 bs) i v = writeBytes p 0 (bs ++ be32 v) := by
  rw [wrBe_eq_writeBytes, ← writeBytes_append, Nat.zero_add, hi]

theorem finish_eq {cfg : DtbConfig} {f : Fdt} {struct : Nat} (hpos : f.spos = STRUCT_OFF + struct) (out : Nat → Byte) :
    f.finish cfg (f.spos + f.strings.length) out =
      writeBytes out 0 (Fdt.header cfg.bootHart struct f.strings.length) := by
  unfold Fdt.finish
  dsimp only
  rw [wrBe_eq_writeBytes out 0, wrBe_after, wrBe_after, wrBe_after, wrBe_after, wrBe_after, wrBe_after, wrBe_after,
    wrBe_after, wrBe_after, hpos, Nat.add_sub_cancel_left]
  · simp only [List.append_assoc]
    rfl
  all_goals rfl

/-- Bytes written over the first ones of a string. -/
theorem writeBytes_over (p : Nat → Byte) {a a' : List Byte} (h : a.length = a'.length) (b : List Byte) :
    writeBytes (writeBytes p 0 (a ++ b)) 0 a' = writeBytes p 0 (a' ++ b) := by
  have hlen : (a ++ b).length = (a' ++ b).length := by rw [List.length_append, List.length_append, h]
  have hle : a'.length ≤ (a' ++ b).length := by rw [List.length_append]; omega
  funext j
  by_cases hj : j < a'.length
  · rw [writeBytes_of_inside (Nat.zero_le j) (by omega), writeBytes_of_inside (Nat.zero_le j) (by omega), Nat.sub_zero,
      List.getD_eq_getElem?_getD, List.getD_eq_getElem?_getD, List.getElem?_append_left hj]
  rw [writeBytes_of_outside (by omega)]
  by_cases hj' : j < (a' ++ b).length
  · rw [writeBytes_of_inside (Nat.zero_le j) (by omega), writeBytes_of_inside (Nat.zero_le j) (by omega), Nat.sub_zero,
      List.getD_eq_getElem?_getD, List.getD_eq_getElem?_getD, List.getElem?_append_right (by omega),
      List.getElem?_append_right (by omega), h]
  · rw [writeBytes_of_outside (by omega), writeBytes_of_outside (by omega)]

theorem zeroed_eq {buf : Nat → Byte} {cap : Nat} (h : STRUCT_OFF ≤ cap) :
    writeBytes buf 0 (List.replicate cap 0) =
      writeBytes (writeBytes buf 0 (List.replicate cap 0)) 0 (List.replicate STRUCT_OFF 0) := by
  obtain ⟨n, rfl⟩ := Nat.exists_eq_add_of_le h
  rw [← List.replicate_append_replicate, writeBytes_over _ rfl]

/-! ## The result -/

section Result

variable {buf : Nat → Byte} {cap : Nat} {cfg : DtbConfig}

/-- The builder before the first node. -/
def start (buf : Nat → Byte) (cap : Nat) : Fdt := ⟨writeBytes buf 0 (List.replicate cap 0), cap, STRUCT_OFF, [], true⟩

/-- The builder after the whole structure block. -/
def built (buf : Nat → Byte) (cap : Nat) (cfg : DtbConfig) : Fdt := ((start buf cap).root cfg).putU32 FDT_END

theorem start_spec (hcap : STRUCT_OFF ≤ cap) : Emitted buf cap [] (start buf cap) := by
  refine ⟨rfl, [], EncodesAll.nil _, rfl, fun i hi => ?_, nofun, fun _ => ⟨rfl, hcap, ?_⟩⟩
  · exact writeBytes_of_outside (Or.inr (by rw [List.length_replicate]; omega))
  · exact (funext fun j => writeBytes_of_outside (by rw [List.length_nil]; omega)).symm

theorem built_spec (h : cfg.Bounded) (hcap : STRUCT_OFF ≤ cap) :
    (built buf cap cfg).strings = stringsOf (nameTable cfg.tree.tokens) ∧
      ∃ body, EncodesAll (built buf cap cfg).strings cfg.tree.tokens body ∧
        Wrote buf cap (body ++ be32 Fdt.END) (built buf cap cfg) := by
  have hroot := emits_root cfg (@start_spec buf cap hcap)
  rw [List.nil_append] at hroot
  obtain ⟨hstr, body, henc, hw⟩ := hroot (known_tree h)
  unfold built
  rw [Fdt.strings_putU32]
  exact ⟨hstr, body, henc, hw.putU32 FDT_END⟩

/-- The size of the blob, from an encoding of the tree. -/
theorem blobSize_eq {strings body : List Byte} (hstr : strings = stringsOf (nameTable cfg.tree.tokens))
    (henc : EncodesAll strings cfg.tree.tokens body) :
    blobSize cfg.tree = STRUCT_OFF + (body ++ be32 Fdt.END).length + strings.length := by
  unfold blobSize
  rw [← hstr, ← henc.length_eq, List.length_append, Fdt.length_be32]
  rfl

/-- `dtb_build` in terms of the finished structure block. -/
theorem dtbBuild_eq (buf : Nat → Byte) (cap : Nat) (cfg : DtbConfig) :
    dtbBuild buf cap cfg =
      if cap < STRUCT_OFF then (0, buf)
      else if !(built buf cap cfg).ok then (0, (built buf cap cfg).out)
      else if cap < (built buf cap cfg).spos + (built buf cap cfg).strings.length then (0, (built buf cap cfg).out)
      else ((built buf cap cfg).spos + (built buf cap cfg).strings.length,
        (built buf cap cfg).finish cfg ((built buf cap cfg).spos + (built buf cap cfg).strings.length)
          (writeBytes (built buf cap cfg).out (built buf cap cfg).spos (built buf cap cfg).strings)) := rfl

/-- A tree that does not fit: nothing is returned, and nothing past the buffer is written. -/
theorem dtbBuild_of_lt (h : cfg.Bounded) (hlt : cap < blobSize cfg.tree) :
    (dtbBuild buf cap cfg).1 = 0 ∧ ∀ i, cap ≤ i → (dtbBuild buf cap cfg).2 i = buf i := by
  rw [dtbBuild_eq]
  split
  · exact ⟨rfl, fun _ _ => rfl⟩
  next hcap =>
    obtain ⟨hstr, body, henc, hw⟩ := @built_spec buf cap cfg h (Nat.not_lt.mp hcap)
    have hsize := blobSize_eq hstr henc
    generalize blobSize cfg.tree = n at hlt hsize
    generalize built buf cap cfg = f at *
    cases hok : f.ok with
    | false => exact ⟨rfl, hw.frame⟩
    | true =>
      obtain ⟨hpos, -, -⟩ := hw.fits hok
      rw [if_neg (by decide), if_pos (by omega)]
      exact ⟨rfl, hw.frame⟩

/-- A tree that fits: the first `blobSize` bytes are the blob, in the order of its header. -/
theorem dtbBuild_of_le (h : cfg.Bounded) (hle : blobSize cfg.tree ≤ cap) :
    ∃ body strings, EncodesAll strings cfg.tree.tokens body ∧
      blobSize cfg.tree = STRUCT_OFF + (body.length + 4) + strings.length ∧
      dtbBuild buf cap cfg = (blobSize cfg.tree, writeBytes (writeBytes buf 0 (List.replicate cap 0)) 0
        (Fdt.header cfg.bootHart (body.length + 4) strings.length ++
          (List.replicate 16 0 ++ ((body ++ be32 Fdt.END) ++ strings)))) := by
  have hcap : STRUCT_OFF ≤ cap := by
    unfold blobSize at hle
    unfold STRUCT_OFF HEADER_SIZE RSVMAP_SIZE
    omega
  obtain ⟨hstr, body, henc, hw⟩ := @built_spec buf cap cfg h hcap
  have hsize := blobSize_eq hstr henc
  rw [dtbBuild_eq, if_neg (Nat.not_lt.mpr hcap)]
  generalize blobSize cfg.tree = n at hle hsize ⊢
  generalize built buf cap cfg = f at *
  have hlen : (body ++ be32 Fdt.END).length = body.length + 4 := by rw [List.length_append, Fdt.length_be32]
  have hok : f.ok = true := by
    by_contra hfull
    have := hw.full (by simpa using hfull)
    omega
  obtain ⟨hpos, -, hout⟩ := hw.fits hok
  refine ⟨body, f.strings, henc, by rw [hsize, hlen], ?_⟩
  rw [if_neg (by simp [hok]), if_neg (by omega), finish_eq (hlen ▸ hpos), hpos, ← hsize, ← hpos]
  refine Prod.ext rfl ?_
  -- the zeroed buffer, the structure block and the strings are one string; the header goes over its start
  have hall : writeBytes f.out f.spos f.strings = writeBytes (writeBytes buf 0 (List.replicate cap 0)) 0
      (List.replicate 40 0 ++ (List.replicate 16 0 ++ ((body ++ be32 Fdt.END) ++ f.strings))) := by
    rw [hout, hpos, writeBytes_append, ← List.append_assoc, List.replicate_append_replicate,
      ← writeBytes_append _ 0 (List.replicate (40 + 16) 0), List.length_replicate, Nat.zero_add]
    exact congrArg (fun p => writeBytes p STRUCT_OFF _) (zeroed_eq hcap)
  show writeBytes (writeBytes f.out f.spos f.strings) 0 _ = writeBytes _ 0 _
  rw [hall]
  exact writeBytes_over _ (show (List.replicate 40 (0 : Byte)).length = (Fdt.header _ _ _).length from rfl) _

/-- A tree that fits is read back by the parser. -/
theorem dtbBuild_parse (h : cfg.Bounded) (hcap : cap < 0x100000000) (hle : blobSize cfg.tree ≤ cap) :
    (dtbBuild buf cap cfg).1 = blobSize cfg.tree ∧ (∀ i, cap ≤ i → (dtbBuild buf cap cfg).2 i = buf i) ∧
      parse (readBytes (dtbBuild buf cap cfg).2 0 (blobSize cfg.tree)) = some ⟨cfg.bootHart, [], cfg.tree⟩ := by
  obtain ⟨body, strings, henc, hsize, heq⟩ := @dtbBuild_of_le buf cap cfg h hle
  have hparse := @Fdt.parse_blob cfg.bootHart body strings cfg.tree henc fun t ht => (known_tree h t ht).plain
  have hoff : STRUCT_OFF = 56 := rfl
  rw [heq]
  generalize hblob : Fdt.header cfg.bootHart (body.length + 4) strings.length ++
    (List.replicate 16 0 ++ ((body ++ be32 Fdt.END) ++ strings)) = blob at hparse ⊢
  have hlen : blob.length = blobSize cfg.tree := by
    rw [← hblob, hsize]
    simp only [List.length_append, List.length_replicate, Fdt.length_be32]
    show 40 + _ = _
    omega
  refine ⟨rfl, fun i hi => ?_, ?_⟩
  · show writeBytes (writeBytes buf 0 (List.replicate cap 0)) 0 blob i = buf i
    rw [writeBytes_of_outside (by omega), writeBytes_of_outside (Or.inr (by rw [List.length_replicate]; omega))]
  · rw [← hlen, readBytes_writeBytes]
    exact hparse (by omega)

/-! ## Phandles -/

end Result

end Quanta.Dtb
