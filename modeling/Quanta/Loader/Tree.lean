/-
What `dtb_build` produces. The builder is followed token by token: as long as everything fits, the
buffer holds an encoding of the tokens asked for so far, and once something does not fit the tokens
are too long for the buffer. A finished blob parses to the tree of the configuration.
-/
import Quanta.Loader.Dtb

namespace Quanta.Dtb

open Quanta.Fdt (Node Token be32 pad padding EncodesAll Encodes stringsOf nameTable addName nameAt blobSize Blob)

variable (cfg : DtbConfig)

/-! ## The intended tree -/

def cells (vs : List (BitVec 32)) : List Byte := vs.flatMap be32

def str (s : List Byte) : List Byte := s ++ [0]

/-- A region: a 64-bit address and a 64-bit size, both with a zero high cell. -/
def reg (base size : BitVec 32) : List Byte := cells [0, base, 0, size]

/-- A node name with its unit address. -/
def unitName (name : String) (v : BitVec 32) : List Byte := ascii name ++ hex v

namespace DtbConfig

def chosenNode (cfg : DtbConfig) : Node :=
  .mk (ascii "chosen")
    ([(ascii "stdout-path", str (ascii "/soc/uart@10000000")),
      (ascii "bootargs", str (cfg.bootargs.elim [] CString.bytes))] ++
      if cfg.initrdStart.ult cfg.initrdEnd then
        [(ascii "linux,initrd-start", cells [0, cfg.initrdStart]), (ascii "linux,initrd-end", cells [0, cfg.initrdEnd])]
      else [])
    []

def intcNode (h : Nat) : Node :=
  .mk (ascii "interrupt-controller")
    [(ascii "#interrupt-cells", cells [1]), (ascii "interrupt-controller", []),
      (ascii "compatible", str (ascii "riscv,cpu-intc")),
      (ascii "phandle", cells [PHANDLE_CPU_INTC (BitVec.ofNat 32 h)])]
    []

def cpuNode (cfg : DtbConfig) (h : Nat) : Node :=
  .mk (unitName "cpu@" (BitVec.ofNat 32 h))
    [(ascii "device_type", str (ascii "cpu")), (ascii "reg", cells [BitVec.ofNat 32 h]),
      (ascii "status", str (ascii "okay")), (ascii "compatible", str (ascii "riscv")),
      (ascii "riscv,isa", str cfg.isa.bytes), (ascii "mmu-type", str cfg.mmuType.bytes)]
    [intcNode h]

def cpusNode (cfg : DtbConfig) : Node :=
  .mk (ascii "cpus")
    [(ascii "#address-cells", cells [1]), (ascii "#size-cells", cells [0]),
      (ascii "timebase-frequency", cells [cfg.timebaseFreq])]
    ((List.range cfg.hartCount.toNat).map cfg.cpuNode)

def memoryNode (cfg : DtbConfig) : Node :=
  .mk (unitName "memory@" cfg.memBase)
    [(ascii "device_type", str (ascii "memory")), (ascii "reg", reg cfg.memBase cfg.memSize)] []

def clintNode (cfg : DtbConfig) : Node :=
  .mk (unitName "clint@" cfg.clintBase)
    [(ascii "compatible", str (ascii "riscv,clint0")), (ascii "reg", reg cfg.clintBase cfg.clintSize),
      (ascii "interrupts-extended", cells (irqs cfg.hartCount 3 7))] []

def plicNode (cfg : DtbConfig) : Node :=
  .mk (unitName "plic@" cfg.plicBase)
    [(ascii "compatible", str (ascii "riscv,plic0")), (ascii "reg", reg cfg.plicBase cfg.plicSize),
      (ascii "#interrupt-cells", cells [1]), (ascii "interrupt-controller", []),
      (ascii "interrupts-extended", cells (irqs cfg.hartCount 11 9)), (ascii "riscv,ndev", cells [cfg.plicNdev]),
      (ascii "phandle", cells [PHANDLE_PLIC])] []

def uartNode (cfg : DtbConfig) : Node :=
  .mk (unitName "uart@" cfg.uartBase)
    [(ascii "compatible", str (ascii "ns16550a")), (ascii "reg", reg cfg.uartBase cfg.uartSize),
      (ascii "clock-frequency", cells [3686400]), (ascii "interrupt-parent", cells [PHANDLE_PLIC]),
      (ascii "interrupts", cells [cfg.uartIrq])] []

def virtioNodes (base size irq : BitVec 32) : List Node :=
  if base ≠ 0 then
    [.mk (unitName "virtio@" base)
      [(ascii "compatible", str (ascii "virtio,mmio")), (ascii "reg", reg base size),
        (ascii "interrupt-parent", cells [PHANDLE_PLIC]), (ascii "interrupts", cells [irq])] []]
  else []

def testNode (cfg : DtbConfig) : Node :=
  .mk (unitName "test@" cfg.testBase)
    [(ascii "compatible", str (ascii "sifive,test1") ++ str (ascii "sifive,test0")),
      (ascii "reg", reg cfg.testBase cfg.testSize)] []

def socNode (cfg : DtbConfig) : Node :=
  .mk (ascii "soc")
    [(ascii "#address-cells", cells [2]), (ascii "#size-cells", cells [2]),
      (ascii "compatible", str (ascii "simple-bus")), (ascii "ranges", [])]
    ([cfg.clintNode, cfg.plicNode, cfg.uartNode] ++
      virtioNodes cfg.virtioBlkBase cfg.virtioBlkSize cfg.virtioBlkIrq ++
      virtioNodes cfg.virtioNetBase cfg.virtioNetSize cfg.virtioNetIrq ++ [cfg.testNode])

/-- The tree of a configuration. -/
def tree (cfg : DtbConfig) : Node :=
  .mk []
    [(ascii "#address-cells", cells [2]), (ascii "#size-cells", cells [2]),
      (ascii "compatible", str (ascii "quanta,virt")), (ascii "model", str (ascii "quanta,virt"))]
    [cfg.chosenNode, cfg.cpusNode, cfg.memoryNode, cfg.socNode]

end DtbConfig

/-! ## Writes to the structure block -/

theorem byte_of_word (v : BitVec 32) (k : Nat) : (v >>> k).setWidth 8 = v.extractLsb' k 8 := by
  apply BitVec.eq_of_getLsbD_eq
  intro i hi
  simp [hi]

theorem wrBe_eq_writeBytes (p : Nat → Byte) (i : Nat) (v : BitVec 32) : wrBe p i v = writeBytes p i (be32 v) := by
  funext j
  have hlow : v.setWidth 8 = v.extractLsb' 0 8 := byte_of_word v 0
  unfold wrBe
  simp only [Function.update_apply, byte_of_word, hlow]
  by_cases hj : i ≤ j ∧ j < i + 4
  · obtain ⟨k, rfl⟩ := Nat.exists_eq_add_of_le hj.1
    rw [writeBytes_of_inside hj.1 (show i + k < i + (be32 v).length from hj.2), Nat.add_sub_cancel_left]
    obtain rfl | rfl | rfl | rfl : k = 0 ∨ k = 1 ∨ k = 2 ∨ k = 3 := by omega
    all_goals simp [be32]
  · rw [writeBytes_of_outside (by rw [Fdt.length_be32]; omega), if_neg (by omega), if_neg (by omega),
      if_neg (by omega), if_neg (by omega)]

/-- The builder after it was asked to write `bs` to the structure block of a buffer. -/
structure Wrote (buf : Nat → Byte) (cap : Nat) (bs : List Byte) (f : Fdt) : Prop where
  cap_eq : f.cap = cap
  frame : ∀ i, cap ≤ i → f.out i = buf i
  full : f.ok = false → cap < STRUCT_OFF + bs.length
  fits : f.ok = true → f.spos = STRUCT_OFF + bs.length ∧ f.spos ≤ cap ∧
    f.out = writeBytes (writeBytes buf 0 (List.replicate cap 0)) STRUCT_OFF bs

/-- What every write of the builder does: the bytes at the cursor, if they fit. -/
def Fdt.put (f : Fdt) (p : List Byte) : Fdt :=
  if f.cap < f.spos + p.length then { f with ok := false }
  else { f with out := writeBytes f.out f.spos p, spos := f.spos + p.length }

theorem Fdt.putU32_eq_put (f : Fdt) (v : BitVec 32) : f.putU32 v = f.put (be32 v) := by
  unfold putU32 put
  rw [wrBe_eq_writeBytes, Fdt.length_be32]

theorem Fdt.strings_put (f : Fdt) (p : List Byte) : (f.put p).strings = f.strings := by
  unfold put
  split <;> rfl

@[simp] theorem Fdt.strings_putU32 (f : Fdt) (v : BitVec 32) : (f.putU32 v).strings = f.strings := by
  rw [putU32_eq_put, strings_put]

@[simp] theorem Fdt.strings_putBytes (f : Fdt) (p : List Byte) : (f.putBytes p).strings = f.strings := by
  unfold putBytes
  split
  · rfl
  · exact strings_put f p

@[simp] theorem Fdt.strings_padRounds (n : Nat) (f : Fdt) : (f.padRounds n).strings = f.strings := by
  induction n generalizing f with
  | zero => rfl
  | succ n ih =>
    unfold padRounds
    split
    · rfl
    · split
      · rfl
      · rw [ih]

@[simp] theorem Fdt.strings_padStruct (f : Fdt) : f.padStruct.strings = f.strings := strings_padRounds 3 f

section Writes

variable {buf : Nat → Byte} {cap : Nat} {bs : List Byte} {f : Fdt}

theorem Wrote.put (h : Wrote buf cap bs f) (p : List Byte) : Wrote buf cap (bs ++ p) (f.put p) := by
  have hlen : (bs ++ p).length = bs.length + p.length := List.length_append
  have hcap := h.cap_eq
  unfold Fdt.put
  split
  next hlt =>
    refine ⟨hcap, h.frame, fun _ => ?_, nofun⟩
    cases hok : f.ok with
    | false =>
      have := h.full hok
      omega
    | true =>
      have := (h.fits hok).1
      omega
  next hle =>
    refine ⟨hcap, fun i hi => ?_, fun hok => ?_, fun hok => ?_⟩
    · rw [← h.frame i hi]
      exact writeBytes_of_outside (by omega)
    · have := h.full hok
      omega
    · obtain ⟨hpos, -, hout⟩ := h.fits hok
      refine ⟨?_, ?_, ?_⟩
      · show f.spos + p.length = _
        omega
      · show f.spos + p.length ≤ cap
        omega
      · show writeBytes f.out f.spos p = _
        rw [hout, hpos, writeBytes_append]

theorem Wrote.putU32 (h : Wrote buf cap bs f) (v : BitVec 32) : Wrote buf cap (bs ++ be32 v) (f.putU32 v) :=
  f.putU32_eq_put v ▸ h.put _

theorem Wrote.putBytes (h : Wrote buf cap bs f) (p : List Byte) : Wrote buf cap (bs ++ p) (f.putBytes p) := by
  unfold Fdt.putBytes
  split
  next h0 =>
    rw [List.eq_nil_of_length_eq_zero h0, List.append_nil]
    exact h
  next => exact h.put p

theorem Wrote.putCells (h : Wrote buf cap bs f) (vs : List (BitVec 32)) :
    Wrote buf cap (bs ++ cells vs) (vs.foldl Fdt.putU32 f) := by
  induction vs generalizing bs f with
  | nil =>
    rw [show cells [] = [] from rfl, List.append_nil]
    exact h
  | cons v vs ih =>
    rw [show cells (v :: vs) = be32 v ++ cells vs from rfl, ← List.append_assoc]
    exact ih (h.putU32 v)

/-- Padding after the buffer is full changes nothing past it. -/
theorem Wrote.padRounds_full (h : Wrote buf cap bs f) (hok : f.ok = false) (n : Nat) :
    Wrote buf cap bs (f.padRounds n) ∧ (f.padRounds n).ok = false := by
  induction n generalizing f with
  | zero => exact ⟨h, hok⟩
  | succ n ih =>
    unfold Fdt.padRounds
    split
    · exact ⟨h, hok⟩
    · split
      · exact ⟨⟨h.cap_eq, h.frame, fun _ => h.full hok, nofun⟩, rfl⟩
      · refine ih ⟨h.cap_eq, fun i hi => ?_, fun _ => h.full hok, fun hok' => absurd (hok.symm.trans hok') nofun⟩ hok
        have hcap := h.cap_eq
        rw [← h.frame i hi]
        exact Function.update_of_ne (by omega) _ _

theorem writeBytes_singleton (p : Nat → Byte) (i : Nat) (b : Byte) : writeBytes p i [b] = Function.update p i b := by
  funext j
  by_cases hj : j = i
  · rw [hj, Function.update_self, writeBytes_of_inside (Nat.le_refl _) (by simp), Nat.sub_self]
    rfl
  · rw [Function.update_of_ne hj, writeBytes_of_outside (by rw [List.length_singleton]; omega)]

theorem Wrote.padRounds (h : Wrote buf cap bs f) {n : Nat} (hn : padding bs.length ≤ n) :
    Wrote buf cap (bs ++ List.replicate (padding bs.length) 0) (f.padRounds n) := by
  have hlen : (bs ++ List.replicate (padding bs.length) (0 : Byte)).length = bs.length + padding bs.length := by
    rw [List.length_append, List.length_replicate]
  cases hok : f.ok with
  | false =>
    obtain ⟨h', hok'⟩ := h.padRounds_full hok n
    refine ⟨h'.cap_eq, h'.frame, fun _ => ?_, fun h'' => absurd (hok'.symm.trans h'') nofun⟩
    have := h.full hok
    omega
  | true =>
    induction n generalizing bs f with
    | zero =>
      rw [Nat.le_zero.mp hn, List.replicate_zero, List.append_nil]
      exact h
    | succ n ih =>
      obtain ⟨hpos, hle, hout⟩ := h.fits hok
      have hoff : STRUCT_OFF = 56 := rfl
      have hcap := h.cap_eq
      have hmod : f.spos % 4 = bs.length % 4 := by omega
      unfold Fdt.padRounds
      split
      next h0 =>
        have hz : padding bs.length = 0 := by
          unfold padding
          omega
        rw [hz, List.replicate_zero, List.append_nil]
        exact h
      next h0 =>
        have hnext : padding bs.length = padding (bs ++ [(0 : Byte)]).length + 1 := by
          unfold padding
          rw [List.length_append, List.length_singleton]
          omega
        split
        next hlt => exact ⟨hcap, h.frame, fun _ => by omega, nofun⟩
        next hge =>
          -- one zero more
          have hput := h.put [0]
          rw [Fdt.put, if_neg (by rw [List.length_singleton]; omega), writeBytes_singleton] at hput
          have hrest := ih hput (by omega)
            (by rw [List.length_append, List.length_replicate]) hok
          rw [hnext, List.replicate_succ, ← List.singleton_append, ← List.append_assoc]
          exact hrest

theorem Wrote.padStruct (h : Wrote buf cap bs f) :
    Wrote buf cap (bs ++ List.replicate (padding bs.length) 0) f.padStruct :=
  h.padRounds (by unfold padding; omega)

end Writes

/-! ## Names -/

theorem takeWhile_stringsOf {name : List Byte} (h : (0 : Byte) ∉ name) (rest : List Byte) :
    (name ++ 0 :: rest).takeWhile (· ≠ 0) = name := by
  rw [List.takeWhile_append_of_pos]
  · simp
  · intro b hb
    exact decide_eq_true fun h0 => h (h0 ▸ hb)

/-- The scan from the start of some name of the table finds the first of the names left equal to `name`. -/
theorem internScan_spec {name : List Byte} {names before : List (List Byte)} (hnul : ∀ n ∈ names, (0 : Byte) ∉ n)
    {fuel : Nat} (hfuel : names.length < fuel) :
    if name ∈ names then
      ∃ a b, names = a ++ name :: b ∧
        Fdt.internScan (stringsOf (before ++ names)) name fuel (stringsOf before).length =
          some (stringsOf (before ++ a)).length
    else Fdt.internScan (stringsOf (before ++ names)) name fuel (stringsOf before).length = none := by
  induction names generalizing before fuel with
  | nil =>
    obtain ⟨fuel, rfl⟩ := Nat.exists_eq_succ_of_ne_zero (Nat.ne_of_gt hfuel)
    rw [if_neg List.not_mem_nil, List.append_nil, Fdt.internScan, if_pos (Nat.le_refl _)]
  | cons n names ih =>
    obtain ⟨fuel, rfl⟩ := Nat.exists_eq_succ_of_ne_zero (Nat.ne_of_gt (Nat.lt_of_le_of_lt (Nat.zero_le _) hfuel))
    rw [List.length_cons] at hfuel
    rw [List.forall_mem_cons] at hnul
    have hdrop : (stringsOf (before ++ n :: names)).drop (stringsOf before).length = n ++ 0 :: stringsOf names := by
      rw [Fdt.stringsOf_append, List.drop_left' rfl, Fdt.stringsOf_cons]
    have hlen : (stringsOf before).length < (stringsOf (before ++ n :: names)).length := by
      rw [Fdt.stringsOf_append, Fdt.stringsOf_cons, List.length_append, List.length_append, List.length_cons]
      omega
    have hscan : Fdt.internScan (stringsOf (before ++ n :: names)) name (fuel + 1) (stringsOf before).length =
        if n = name then some (stringsOf before).length
        else Fdt.internScan (stringsOf ((before ++ [n]) ++ names)) name fuel (stringsOf (before ++ [n])).length := by
      have hnext : (stringsOf before).length + n.length + 1 = (stringsOf (before ++ [n])).length := by
        rw [Fdt.stringsOf_append, Fdt.stringsOf_cons, List.length_append, List.length_append, Nat.add_assoc]
        rfl
      rw [Fdt.internScan, if_neg (Nat.not_le.mpr hlen), hdrop, takeWhile_stringsOf hnul.1, ← hnext, List.append_assoc]
      rfl
    rw [hscan]
    by_cases hn : n = name
    · subst hn
      rw [if_pos List.mem_cons_self, if_pos rfl]
      exact ⟨[], names, rfl, by rw [List.append_nil]⟩
    · have hrest := @ih (before ++ [n]) hnul.2 fuel (by omega)
      rw [if_neg hn]
      by_cases hmem : name ∈ names
      · rw [if_pos hmem] at hrest
        rw [if_pos (List.mem_cons_of_mem _ hmem)]
        obtain ⟨a, b, hab, hres⟩ := hrest
        refine ⟨n :: a, b, by rw [hab, List.cons_append], ?_⟩
        rw [hres, List.append_assoc, List.singleton_append]
      · rw [if_neg hmem] at hrest
        rw [if_neg (fun h => (List.mem_cons.mp h).elim (fun h => hn h.symm) hmem)]
        exact hrest

theorem length_le_stringsOf (table : List (List Byte)) : table.length ≤ (stringsOf table).length := by
  induction table with
  | nil => exact Nat.le_refl _
  | cons n table ih =>
    rw [Fdt.stringsOf_cons, List.length_append, List.length_cons, List.length_cons]
    omega

/-- Interning a name gives its place in the strings, with the name added if it was not there. -/
theorem intern_spec {f : Fdt} {table : List (List Byte)} {name : List Byte} (hf : f.strings = stringsOf table)
    (hnul : ∀ n ∈ addName table name, (0 : Byte) ∉ n) (hroom : (stringsOf (addName table name)).length ≤ STRINGS_SIZE) :
    ∃ off : BitVec 32, nameAt (stringsOf (addName table name)) off.toNat = some name ∧
      f.intern name = (off, { f with strings := stringsOf (addName table name) }) := by
  have hname : (0 : Byte) ∉ name := hnul name (Fdt.mem_addName.mpr (Or.inr rfl))
  have htable : ∀ n ∈ table, (0 : Byte) ∉ n := fun n hn => hnul n (Fdt.mem_addName.mpr (Or.inl hn))
  have hscan := @internScan_spec name table [] htable ((stringsOf table).length + 1)
    (Nat.lt_succ_of_le (length_le_stringsOf table))
  have hword : ∀ n, n ≤ STRINGS_SIZE → (BitVec.ofNat 32 n).toNat = n := by
    intro n hn
    rw [BitVec.toNat_ofNat]
    exact Nat.mod_eq_of_lt (Nat.lt_of_le_of_lt hn (by decide))
  rw [List.nil_append, show (stringsOf []).length = 0 from rfl] at hscan
  unfold Fdt.intern
  rw [hf]
  by_cases hmem : name ∈ table
  · have hadd : addName table name = table := if_pos hmem
    rw [hadd] at hroom ⊢
    rw [if_pos hmem] at hscan
    obtain ⟨a, b, hab, hres⟩ := hscan
    rw [List.nil_append] at hres
    have hstr : stringsOf table = stringsOf a ++ (name ++ 0 :: stringsOf b) := by
      rw [hab, Fdt.stringsOf_append, Fdt.stringsOf_cons]
    refine ⟨BitVec.ofNat 32 (stringsOf a).length, ?_, ?_⟩
    · rw [hword _ (Nat.le_trans (by rw [hstr, List.length_append]; omega) hroom), hstr]
      exact Fdt.nameAt_append hname _
    · rw [hres, ← hf]
  · have hadd : addName table name = table ++ [name] := if_neg hmem
    have hstr : stringsOf (table ++ [name]) = stringsOf table ++ (name ++ [0]) := by
      rw [Fdt.stringsOf_append, Fdt.stringsOf_cons]
      rfl
    rw [hadd, hstr] at hroom ⊢
    rw [if_neg hmem] at hscan
    rw [List.length_append, List.length_append, List.length_singleton] at hroom
    refine ⟨BitVec.ofNat 32 (stringsOf table).length, ?_, ?_⟩
    · rw [hword _ (by omega)]
      exact Fdt.nameAt_append hname []
    · rw [hscan]
      exact if_neg (Nat.not_lt.mpr hroom)

/-! ## Tokens -/

/-- The property names of the tree. -/
def propNames : List (List Byte) :=
  ["#address-cells", "#size-cells", "compatible", "model", "stdout-path", "bootargs", "linux,initrd-start",
    "linux,initrd-end", "timebase-frequency", "device_type", "reg", "status", "riscv,isa", "mmu-type",
    "#interrupt-cells", "interrupt-controller", "phandle", "ranges", "interrupts-extended", "riscv,ndev",
    "clock-frequency", "interrupt-parent", "interrupts"].map ascii

/-- A token the builder can emit: its property is one of the tree's. -/
structure Known (t : Token) : Prop where
  plain : t.Plain
  name : ∀ n value, t = .prop n value → n ∈ propNames

theorem strings_fit {ts : List Token} (h : ∀ t ∈ ts, Known t) : (stringsOf (nameTable ts)).length ≤ STRINGS_SIZE := by
  have hle := @Fdt.length_stringsOf_nameTable_le propNames ts fun n value hm => (h _ hm).name n value rfl
  exact Nat.le_trans hle (by decide +kernel)

theorem names_noNul {ts : List Token} (h : ∀ t ∈ ts, Known t) : ∀ n ∈ nameTable ts, (0 : Byte) ∉ n := by
  intro n hn
  obtain ⟨value, hv⟩ := (Fdt.nameTable_spec ts).2 n hn
  exact (h _ hv).plain.1

/-- The builder after it was asked for the tokens `ts`. -/
structure Emitted (buf : Nat → Byte) (cap : Nat) (ts : List Token) (f : Fdt) : Prop where
  strings : f.strings = stringsOf (nameTable ts)
  body : ∃ body, EncodesAll f.strings ts body ∧ Wrote buf cap body f

section Tokens

variable {buf : Nat → Byte} {cap : Nat} {ts : List Token} {f : Fdt}

theorem four_dvd_size (t : Token) : t.size % 4 = 0 := by
  cases t <;> simp only [Fdt.Token.size, padding] <;> omega

theorem length_mod_four {strings bs : List Byte} (h : EncodesAll strings ts bs) : bs.length % 4 = 0 := by
  rw [h.length_eq]
  clear h
  induction ts with
  | nil => rfl
  | cons t ts ih =>
    have := four_dvd_size t
    rw [Fdt.tokensSize]
    omega

theorem padding_add {m : Nat} (h : m % 4 = 0) (n : Nat) : padding (m + n) = padding n := by
  unfold padding
  omega

/-- A token more: its bytes follow those of the tokens before it, whose names stay where they were. -/
theorem Emitted.concat {f' : Fdt} {t : Token} {body piece : List Byte} (henc : EncodesAll f.strings ts body)
    (more : List Byte) (hmore : f'.strings = f.strings ++ more) (hstr : f'.strings = stringsOf (nameTable (ts ++ [t])))
    (hpiece : Encodes f'.strings t piece) (hw : Wrote buf cap (body ++ piece) f') : Emitted buf cap (ts ++ [t]) f' := by
  refine ⟨hstr, body ++ piece, EncodesAll.append ?_ (.singleton hpiece), hw⟩
  rw [hmore]
  exact henc.mono more

theorem Emitted.beginNode (h : Emitted buf cap ts f) (name : List Byte) :
    Emitted buf cap (ts ++ [.open name]) (f.beginNode name) := by
  obtain ⟨hstr, body, henc, hw⟩ := h
  have hsame : (f.beginNode name).strings = f.strings := by simp [Fdt.beginNode]
  have hpad : padding ((body ++ be32 FDT_BEGIN_NODE) ++ (name ++ [0])).length = padding (name ++ [(0 : Byte)]).length := by
    rw [List.length_append, List.length_append, Fdt.length_be32]
    exact padding_add (by have := length_mod_four henc; omega) _
  have hw' := ((hw.putU32 FDT_BEGIN_NODE).putBytes (name ++ [0])).padStruct
  rw [hpad, List.append_assoc, List.append_assoc] at hw'
  refine Emitted.concat henc [] (hsame.trans (List.append_nil _).symm) ?_ ?_ hw'
  · rw [hsame, hstr, Fdt.nameTable_concat]
    rfl
  · exact rfl

theorem Emitted.endNode (h : Emitted buf cap ts f) : Emitted buf cap (ts ++ [.close]) f.endNode := by
  obtain ⟨hstr, body, henc, hw⟩ := h
  have hsame : f.endNode.strings = f.strings := f.strings_putU32 _
  refine Emitted.concat henc [] (hsame.trans (List.append_nil _).symm) ?_ ?_ (hw.putU32 FDT_END_NODE)
  · rw [hsame, hstr, Fdt.nameTable_concat]
    rfl
  · exact rfl

/-- A property, from its head on: `g` writes the value and pads it. -/
theorem Emitted.property (h : Emitted buf cap ts f) {name value : List Byte}
    (hknown : ∀ t ∈ ts ++ [Token.prop name value], Known t) {g : Fdt → Fdt} (hstrings : ∀ f, (g f).strings = f.strings)
    (hg : ∀ {bs f}, Wrote buf cap bs f → bs.length % 4 = 0 → Wrote buf cap (bs ++ pad value) (g f)) :
    Emitted buf cap (ts ++ [.prop name value]) (g (f.propHead name (BitVec.ofNat 32 value.length))) := by
  obtain ⟨hstr, body, henc, hw⟩ := h
  have htable : nameTable (ts ++ [.prop name value]) = addName (nameTable ts) name := Fdt.nameTable_concat _ _
  have hnul := names_noNul hknown
  have hroom := strings_fit hknown
  rw [htable] at hnul hroom
  -- the interner sees the strings of the tokens before
  obtain ⟨off, hoff, hint⟩ := intern_spec
    (f := (f.putU32 FDT_PROP).putU32 (BitVec.ofNat 32 value.length)) (by simpa using hstr) hnul hroom
  have hhead : f.propHead name (BitVec.ofNat 32 value.length) =
      ({ (f.putU32 FDT_PROP).putU32 (BitVec.ofNat 32 value.length) with
        strings := stringsOf (addName (nameTable ts) name) } : Fdt).putU32 off := by
    unfold Fdt.propHead
    dsimp only
    rw [hint]
  have hsame : (g (f.propHead name (BitVec.ofNat 32 value.length))).strings = stringsOf (addName (nameTable ts) name) := by
    rw [hstrings, hhead, Fdt.strings_putU32]
  obtain ⟨more, hmore⟩ := Fdt.addName_append (nameTable ts) name
  have h2 := (hw.putU32 FDT_PROP).putU32 (BitVec.ofNat 32 value.length)
  have h3 : Wrote buf cap (body ++ be32 FDT_PROP ++ be32 (BitVec.ofNat 32 value.length))
      ({ (f.putU32 FDT_PROP).putU32 (BitVec.ofNat 32 value.length) with
        strings := stringsOf (addName (nameTable ts) name) } : Fdt) := ⟨h2.cap_eq, h2.frame, h2.full, h2.fits⟩
  have h4 := hg (h3.putU32 off) (by
    have := length_mod_four henc
    simp only [List.length_append, Fdt.length_be32]
    omega)
  rw [← hhead, List.append_assoc, List.append_assoc, List.append_assoc] at h4
  refine Emitted.concat henc (stringsOf more) ?_ (hsame.trans (by rw [htable])) ?_ h4
  · rw [hsame, hstr, hmore, Fdt.stringsOf_append]
  · rw [hsame]
    exact ⟨off, hoff, rfl⟩

theorem Emitted.prop (h : Emitted buf cap ts f) {name value : List Byte}
    (hknown : ∀ t ∈ ts ++ [Token.prop name value], Known t) :
    Emitted buf cap (ts ++ [.prop name value]) (f.prop name value (BitVec.ofNat 32 value.length)) := by
  have hlen : (BitVec.ofNat 32 value.length).toNat = value.length := by
    rw [BitVec.toNat_ofNat]
    exact Nat.mod_eq_of_lt (hknown _ (List.mem_append_right _ (List.mem_singleton.mpr rfl))).plain.2
  unfold Fdt.prop
  rw [hlen, List.take_length]
  refine h.property (g := fun f => (f.putBytes value).padStruct) hknown (fun f => by simp) fun hw hmod => ?_
  have hw' := (hw.putBytes value).padStruct
  rw [List.length_append, padding_add hmod, List.append_assoc] at hw'
  exact hw'

theorem length_cells (vs : List (BitVec 32)) : (cells vs).length = vs.length * 4 := by
  induction vs with
  | nil => rfl
  | cons v vs ih =>
    rw [show cells (v :: vs) = be32 v ++ cells vs from rfl, List.length_append, ih, Fdt.length_be32, List.length_cons]
    omega

theorem Emitted.propCells (h : Emitted buf cap ts f) {name : List Byte} {vs : List (BitVec 32)}
    (hknown : ∀ t ∈ ts ++ [Token.prop name (cells vs)], Known t) :
    Emitted buf cap (ts ++ [.prop name (cells vs)]) (f.propCells name vs) := by
  have hlen : BitVec.ofNat 32 vs.length * 4 = BitVec.ofNat 32 (cells vs).length := by
    rw [length_cells, BitVec.ofNat_mul]
    rfl
  have hcells : ∀ (vs : List (BitVec 32)) (f : Fdt), (vs.foldl Fdt.putU32 f).strings = f.strings := by
    intro vs
    induction vs with
    | nil => exact fun _ => rfl
    | cons v vs ih => exact fun f => (ih _).trans (f.strings_putU32 v)
  unfold Fdt.propCells
  rw [hlen]
  refine h.property (g := fun f => (vs.foldl Fdt.putU32 f).padStruct) hknown
    (fun f => by rw [Fdt.strings_padStruct, hcells]) fun hw hmod => ?_
  have hw' := (hw.putCells vs).padStruct
  rw [List.length_append, padding_add hmod, List.append_assoc] at hw'
  exact hw'

end Tokens

/-! ## The builder emits the tree -/

/-- `g` appends the tokens `ts`, as long as they are those of the tree. -/
def Emits (g : Fdt → Fdt) (ts : List Token) : Prop :=
  ∀ ⦃buf cap ts₀ f⦄, Emitted buf cap ts₀ f → (∀ t ∈ ts₀ ++ ts, Known t) → Emitted buf cap (ts₀ ++ ts) (g f)

namespace Emits

variable (name : List Byte)

theorem nil : Emits id [] := by
  intro buf cap ts₀ f h _
  rw [List.append_nil]
  exact h

/-- One step after another. -/
theorem seq {g g' : Fdt → Fdt} {ts ts' : List Token} (h : Emits g ts) (h' : Emits g' ts') :
    Emits (fun f => g' (g f)) (ts ++ ts') := by
  intro buf cap ts₀ f hf hknown
  rw [← List.append_assoc] at hknown ⊢
  exact h' (h hf fun t ht => hknown t (List.mem_append_left _ ht)) hknown

theorem cons {g g' : Fdt → Fdt} {t : Token} {ts : List Token} (h : Emits g [t]) (h' : Emits g' ts) :
    Emits (fun f => g' (g f)) (t :: ts) := h.seq h'

theorem beginNode : Emits (·.beginNode name) [.open name] := fun _ _ _ _ h _ => h.beginNode name

theorem endNode : Emits Fdt.endNode [.close] := fun _ _ _ _ h _ => h.endNode

theorem prop (name value : List Byte) : Emits (·.prop name value (BitVec.ofNat 32 value.length)) [.prop name value] :=
  fun _ _ _ _ h hknown => h.prop hknown

theorem propCells (vs : List (BitVec 32)) : Emits (·.propCells name vs) [.prop name (cells vs)] :=
  fun _ _ _ _ h hknown => h.propCells hknown

theorem propU32 (v : BitVec 32) : Emits (·.propU32 name v) [.prop name (cells [v])] :=
  propCells name [v]

theorem propReg (base size : BitVec 32) : Emits (·.propReg base size) [.prop (ascii "reg") (reg base size)] :=
  propCells (ascii "reg") [0, base, 0, size]

theorem propEmpty : Emits (·.propEmpty name) [.prop name []] := prop name []

theorem propStr (name s : List Byte) : Emits (·.propStr name s) [.prop name (str s)] := by
  have h := prop name (str s)
  rw [show (str s).length = s.length + 1 from List.length_append] at h
  exact h

/-- A loop emits what its rounds emit. -/
theorem foldl {α : Type} {g : Fdt → α → Fdt} {ts : α → List Token} (h : ∀ a, Emits (g · a) (ts a)) (l : List α) :
    Emits (l.foldl g ·) (l.flatMap ts) := by
  induction l with
  | nil => exact nil
  | cons a l ih =>
    rw [List.flatMap_cons]
    exact (h a).seq ih

end Emits

theorem length_hexFrom (fuel n : Nat) (acc : List Byte) : (hexFrom fuel n acc).length ≤ fuel + acc.length := by
  induction fuel generalizing n acc with
  | zero => exact Nat.le_of_eq (Nat.zero_add _).symm
  | succ fuel ih =>
    unfold hexFrom
    dsimp only
    split
    · rw [List.length_cons]
      omega
    · have := ih (n / 16) (hexDigit (n % 16) :: acc)
      rw [List.length_cons] at this
      omega

/-- The unit names fit in the buffer they are printed to. -/
theorem unit_eq {name : String} (h : (ascii name).length ≤ 23) (v : BitVec 32) : unit name v = unitName name v := by
  have hhex : (hex v).length ≤ 8 + 0 := length_hexFrom 8 v.toNat []
  refine List.take_of_length_le ?_
  rw [List.length_append]
  omega

theorem emits_chosen : Emits (Fdt.chosen cfg) cfg.chosenNode.tokens := by
  unfold Fdt.chosen DtbConfig.chosenNode
  rw [Fdt.Node.tokens]
  by_cases hinitrd : cfg.initrdStart.ult cfg.initrdEnd = true
  · simp only [hinitrd, if_true, List.map_cons, List.map_nil, List.cons_append, List.nil_append, Fdt.tokensAll]
    exact ((Emits.beginNode _).cons ((Emits.propStr _ _).cons ((Emits.propStr _ _).cons ((Emits.propCells _ _).cons
      ((Emits.propCells _ _).cons Emits.endNode)))) : Emits _ _)
  · simp only [hinitrd, List.map_cons, List.cons_append, List.nil_append, Fdt.tokensAll]
    exact ((Emits.beginNode _).cons ((Emits.propStr _ _).cons ((Emits.propStr _ _).cons Emits.endNode)) : Emits _ _)

theorem emits_cpu (h : Nat) : Emits (Fdt.cpu cfg · h) (cfg.cpuNode h).tokens := by
  unfold Fdt.cpu DtbConfig.cpuNode DtbConfig.intcNode
  rw [unit_eq (by decide)]
  simp only [Fdt.Node.tokens, List.map_cons, List.map_nil, List.cons_append, List.nil_append, Fdt.tokensAll]
  exact ((Emits.beginNode _).cons ((Emits.propStr _ _).cons ((Emits.propU32 _ _).cons ((Emits.propStr _ _).cons
    ((Emits.propStr _ _).cons ((Emits.propStr _ _).cons ((Emits.propStr _ _).cons ((Emits.beginNode _).cons
      ((Emits.propU32 _ _).cons ((Emits.propEmpty _).cons ((Emits.propStr _ _).cons ((Emits.propU32 _ _).cons
        (Emits.endNode.cons Emits.endNode)))))))))))) : Emits _ _)

theorem emits_cpus : Emits (Fdt.cpus cfg) cfg.cpusNode.tokens := by
  unfold Fdt.cpus DtbConfig.cpusNode
  rw [Fdt.Node.tokens, Fdt.tokensAll_eq_flatMap, List.flatMap_map]
  simp only [List.map_cons, List.map_nil, List.cons_append, List.nil_append]
  exact ((Emits.beginNode _).cons ((Emits.propU32 _ _).cons ((Emits.propU32 _ _).cons ((Emits.propU32 _ _).cons
    ((Emits.foldl (emits_cpu cfg) _).seq Emits.endNode)))) : Emits _ _)

theorem emits_memory : Emits (Fdt.memory cfg) cfg.memoryNode.tokens := by
  unfold Fdt.memory DtbConfig.memoryNode
  rw [unit_eq (by decide), Fdt.Node.tokens]
  simp only [List.map_cons, List.map_nil, List.cons_append, List.nil_append, Fdt.tokensAll]
  exact ((Emits.beginNode _).cons ((Emits.propStr _ _).cons ((Emits.propReg _ _).cons Emits.endNode)) : Emits _ _)

theorem emits_clint : Emits (Fdt.clint cfg) cfg.clintNode.tokens := by
  unfold Fdt.clint DtbConfig.clintNode
  rw [unit_eq (by decide), Fdt.Node.tokens]
  simp only [List.map_cons, List.map_nil, List.cons_append, List.nil_append, Fdt.tokensAll]
  exact ((Emits.beginNode _).cons ((Emits.propStr _ _).cons ((Emits.propReg _ _).cons ((Emits.propCells _ _).cons
    Emits.endNode))) : Emits _ _)

theorem emits_plic : Emits (Fdt.plic cfg) cfg.plicNode.tokens := by
  unfold Fdt.plic DtbConfig.plicNode
  rw [unit_eq (by decide), Fdt.Node.tokens]
  simp only [List.map_cons, List.map_nil, List.cons_append, List.nil_append, Fdt.tokensAll]
  exact ((Emits.beginNode _).cons ((Emits.propStr _ _).cons ((Emits.propReg _ _).cons ((Emits.propU32 _ _).cons
    ((Emits.propEmpty _).cons ((Emits.propCells _ _).cons ((Emits.propU32 _ _).cons ((Emits.propU32 _ _).cons
      Emits.endNode))))))) : Emits _ _)

theorem emits_uart : Emits (Fdt.uart cfg) cfg.uartNode.tokens := by
  unfold Fdt.uart DtbConfig.uartNode
  rw [unit_eq (by decide), Fdt.Node.tokens]
  simp only [List.map_cons, List.map_nil, List.cons_append, List.nil_append, Fdt.tokensAll]
  exact ((Emits.beginNode _).cons ((Emits.propStr _ _).cons ((Emits.propReg _ _).cons ((Emits.propU32 _ _).cons
    ((Emits.propU32 _ _).cons ((Emits.propU32 _ _).cons Emits.endNode))))) : Emits _ _)

theorem emits_virtio (base size irq : BitVec 32) :
    Emits (Fdt.virtio base size irq) ((DtbConfig.virtioNodes base size irq).flatMap Node.tokens) := by
  rw [← Fdt.tokensAll_eq_flatMap]
  unfold Fdt.virtio DtbConfig.virtioNodes
  by_cases hbase : base ≠ 0
  · simp only [if_pos hbase]
    rw [unit_eq (by decide)]
    simp only [Fdt.tokensAll, Fdt.Node.tokens, List.map_cons, List.map_nil, List.cons_append, List.nil_append]
    exact ((Emits.beginNode _).cons ((Emits.propStr _ _).cons ((Emits.propReg _ _).cons ((Emits.propU32 _ _).cons
      ((Emits.propU32 _ _).cons Emits.endNode)))) : Emits _ _)
  · simp only [if_neg hbase]
    exact .nil

theorem emits_test : Emits (Fdt.test cfg) cfg.testNode.tokens := by
  have hcompat : str (ascii "sifive,test1") ++ str (ascii "sifive,test0") = Fdt.testCompat :=
    (List.append_assoc _ _ _).symm
  unfold Fdt.test DtbConfig.testNode
  rw [unit_eq (by decide), hcompat, Fdt.Node.tokens]
  simp only [List.map_cons, List.map_nil, List.cons_append, List.nil_append, Fdt.tokensAll]
  exact ((Emits.beginNode _).cons ((Emits.prop _ _).cons ((Emits.propReg _ _).cons Emits.endNode)) : Emits _ _)

theorem emits_soc : Emits (Fdt.soc cfg) cfg.socNode.tokens := by
  unfold Fdt.soc DtbConfig.socNode
  rw [Fdt.Node.tokens, Fdt.tokensAll_eq_flatMap]
  simp only [List.flatMap_append, List.flatMap_cons, List.flatMap_nil, List.append_assoc, List.append_nil,
    List.map_cons, List.map_nil, List.cons_append, List.nil_append]
  exact ((Emits.beginNode _).cons ((Emits.propU32 _ _).cons ((Emits.propU32 _ _).cons ((Emits.propStr _ _).cons
    ((Emits.propEmpty _).cons ((emits_clint cfg).seq ((emits_plic cfg).seq ((emits_uart cfg).seq
      ((emits_virtio _ _ _).seq ((emits_virtio _ _ _).seq ((emits_test cfg).seq Emits.endNode)))))))))) : Emits _ _)

theorem emits_root : Emits (Fdt.root cfg) cfg.tree.tokens := by
  unfold Fdt.root DtbConfig.tree
  rw [Fdt.Node.tokens, Fdt.tokensAll_eq_flatMap]
  simp only [List.flatMap_cons, List.flatMap_nil, List.append_assoc, List.append_nil, List.map_cons, List.map_nil,
    List.cons_append, List.nil_append]
  exact ((Emits.beginNode _).cons ((Emits.propU32 _ _).cons ((Emits.propU32 _ _).cons ((Emits.propStr _ _).cons
    ((Emits.propStr _ _).cons ((emits_chosen cfg).seq ((emits_cpus cfg).seq ((emits_memory cfg).seq
      ((emits_soc cfg).seq Emits.endNode)))))))) : Emits _ _)

end Quanta.Dtb
