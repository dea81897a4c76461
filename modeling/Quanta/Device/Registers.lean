/-
The word registers of the platform that keep what is stored in them: CLINT `msip` and `mtimecmp`,
PLIC priorities and enables, virtio queue addresses. `plat_write` ignores the size of an access, so
a store of any size below a doubleword replaces the word it falls in by its zero-extended value.
-/
import Quanta.Lib.Bits
import Quanta.Device.Frame

namespace Quanta

open Bytes

/-! ## Registers -/

/-- The areas of a virtqueue whose addresses the driver sets. -/
inductive Area
  | desc | avail | used
  deriving DecidableEq

def Area.off : Area → Nat
  | .desc => 0x80
  | .avail => 0x90
  | .used => 0xa0

/-- The 32-bit registers. `source` counts from 0 for interrupt source 1; `hi` is the upper half of a
64-bit register. -/
inductive WordReg
  | msip (hart : Fin QUANTA_MAX_HARTS)
  | mtimecmp (hart : Fin QUANTA_MAX_HARTS) (hi : Bool)
  | priority (source : Fin (PLIC_NSOURCES - 1))
  | enable (ctx : Fin PLIC_NCONTEXTS)
  | blk (area : Area) (hi : Bool)
  | net (area : Area) (hi : Bool)
  deriving DecidableEq

/-- A half of a 64-bit register. -/
def half (x : BitVec 64) (hi : Bool) : BitVec 32 := if hi then (x >>> 32).setWidth 32 else x.setWidth 32

def setHalf (x : BitVec 64) (hi : Bool) (v : BitVec 32) : BitVec 64 := if hi then setHi x v else setLo x v

def Virtio.area (v : Virtio) : Area → BitVec 64
  | .desc => v.descAddr
  | .avail => v.availAddr
  | .used => v.usedAddr

def Virtio.setArea (v : Virtio) (a : Area) (x : BitVec 64) : Virtio :=
  match a with
  | .desc => { v with descAddr := x }
  | .avail => { v with availAddr := x }
  | .used => { v with usedAddr := x }

def Virtqueue.area (q : Virtqueue) : Area → BitVec 64
  | .desc => q.descAddr
  | .avail => q.availAddr
  | .used => q.usedAddr

def Virtqueue.setArea (q : Virtqueue) (a : Area) (x : BitVec 64) : Virtqueue :=
  match a with
  | .desc => { q with descAddr := x }
  | .avail => { q with availAddr := x }
  | .used => { q with usedAddr := x }

theorem Virtio.area_setArea (v : Virtio) (a : Area) (x : BitVec 64) :
    (v.setArea a x).area = Function.update v.area a x := by
  funext a'
  cases a <;> cases a' <;> rfl

theorem Virtqueue.area_setArea (q : Virtqueue) (a : Area) (x : BitVec 64) :
    (q.setArea a x).area = Function.update q.area a x := by
  funext a'
  cases a <;> cases a' <;> rfl

namespace WordReg

/-- The physical address. -/
def addr : WordReg → Nat
  | .msip h => 0x02000000 + 4 * h
  | .mtimecmp h hi => 0x02004000 + 8 * h + 4 * hi.toNat
  | .priority s => 0x0c000000 + 4 * (s + 1)
  | .enable c => 0x0c002000 + 0x80 * c
  | .blk a hi => 0x10001000 + a.off + 4 * hi.toNat
  | .net a hi => 0x10002000 + a.off + 4 * hi.toNat

/-- What the register holds; a network queue address is that of the selected queue. -/
def value (p : Platform) : WordReg → BitVec 32
  | .msip h => p.clint.msip h
  | .mtimecmp h hi => half (p.clint.mtimecmp h) hi
  | .priority s => p.plic.priority (s + 1)
  | .enable c => p.plic.enable c
  | .blk a hi => half (p.virtio.area a) hi
  | .net a hi => half ((p.net.vq p.net.queueSel.toNat).area a) hi

/-- The bits that are not hard-wired to 0. -/
def mask : WordReg → BitVec 32
  | .msip _ => 1
  | _ => BitVec.allOnes 32

/-- The register is there: a network queue has to be selected. -/
def Present (p : Platform) : WordReg → Prop
  | .net _ _ => p.net.queueSel.toNat < VIRTIO_NET_NQUEUES
  | _ => True

/-- The virtio queue addresses are write-only. -/
def readable : WordReg → Bool
  | .blk _ _ => false
  | .net _ _ => false
  | _ => true

/-- The upper half of the register that this is the lower half of. -/
def upper : WordReg → Option WordReg
  | .mtimecmp h false => some (.mtimecmp h true)
  | .blk a false => some (.blk a true)
  | .net a false => some (.net a true)
  | _ => none

end WordReg

/-! ## Halves -/

theorem half_setHalf (x : BitVec 64) (hi hi' : Bool) (v : BitVec 32) :
    half (setHalf x hi v) hi' = if hi' = hi then v else half x hi' := by
  have hlow : 0x00000000ffffffff#64 = (1#64 <<< 32) - 1#64 := by decide
  have hup : 0xffffffff00000000#64 = ~~~((1#64 <<< 32) - 1#64) := by decide
  have hbit := @Bits.getLsbD_low 64 32 (by decide)
  apply BitVec.eq_of_getLsbD_eq
  intro i h32
  have h64 : i < 64 := by omega
  have hi64 : 32 + i < 64 := by omega
  unfold half setHalf setLo setHi
  rw [hlow, hup]
  cases hi <;> cases hi' <;>
    simp only [BitVec.getLsbD_setWidth, BitVec.getLsbD_or, BitVec.getLsbD_and, BitVec.getLsbD_not, BitVec.getLsbD_shiftLeft,
      BitVec.getLsbD_ushiftRight, hbit, if_true, if_false, Bool.false_eq_true, Bool.true_eq_false]
  · simp only [h32, h64, decide_true, Bool.true_and, Bool.not_true, Bool.and_false, Bool.false_or]
  · rw [BitVec.getLsbD_of_ge v (32 + i) (by omega)]
    simp [h32, hi64]
  · simp only [h32, h64, decide_true, Bool.true_and, Bool.and_true, Bool.not_true, Bool.false_and, Bool.and_false,
      Bool.or_false]
  · simp [h32, h64, hi64, show ¬32 + i < 32 by omega]

/-- Setting a half of one of several registers sets that half only. -/
theorem half_update {ι : Type} [DecidableEq ι] (f : ι → BitVec 64) (i j : ι) (hi hi' : Bool) (v : BitVec 32) :
    half (Function.update f i (setHalf (f i) hi v) j) hi' = if j = i ∧ hi' = hi then v else half (f j) hi' := by
  by_cases hj : j = i
  · subst hj
    rw [Function.update_self, half_setHalf]
    simp
  · rw [Function.update_of_ne hj, if_neg fun h => hj h.1]

/-! ## Windows -/

theorem inWindow_ofNat {n base size : Nat} (hn : n < 2 ^ 32) (hbase : base < 2 ^ 32) (hsize : size < 2 ^ 32) :
    inWindow (BitVec.ofNat 64 n) (BitVec.ofNat 64 base) (BitVec.ofNat 64 size) = true ↔ base ≤ n ∧ n < base + size := by
  unfold inWindow BitVec.ult
  rw [BitVec.toNat_sub, BitVec.toNat_ofNat, BitVec.toNat_ofNat, BitVec.toNat_ofNat, decide_eq_true_eq]
  omega

/-- The word offset of a byte of a register. -/
theorem wordOff_ofNat {base off k : Nat} (hoff : off % 4 = 0) (hk : k < 4) :
    wordOff (BitVec.ofNat 64 (base + off + k)) (BitVec.ofNat 64 base) = BitVec.ofNat 32 off := by
  have hmask : ∀ i < 32, (3#32).getLsbD i = decide (i < 2) := by
    intro i hi
    have h : ∀ i : Fin 32, (3#32).getLsbD i = decide (i.val < 2) := by decide
    exact h ⟨i, hi⟩
  unfold wordOff
  rw [Bits.and_not_low _ hmask]
  apply BitVec.eq_of_toNat_eq
  rw [BitVec.toNat_shiftLeft, BitVec.toNat_ushiftRight, BitVec.toNat_setWidth, BitVec.toNat_sub, BitVec.toNat_ofNat,
    BitVec.toNat_ofNat, BitVec.toNat_ofNat, Nat.shiftLeft_eq, Nat.shiftRight_eq_div_pow]
  omega

/-- The windows of the platform, on addresses below 4 GiB. -/
structure Windows (n : Nat) : Prop where
  test : inWindow (BitVec.ofNat 64 n) TEST_BASE TEST_SIZE = true ↔ 0x00100000 ≤ n ∧ n < 0x00101000
  uart : inWindow (BitVec.ofNat 64 n) UART_BASE UART_SIZE = true ↔ 0x10000000 ≤ n ∧ n < 0x10000100
  clint : inWindow (BitVec.ofNat 64 n) CLINT_BASE CLINT_SIZE = true ↔ 0x02000000 ≤ n ∧ n < 0x02010000
  plic : inWindow (BitVec.ofNat 64 n) PLIC_BASE PLIC_SIZE = true ↔ 0x0c000000 ≤ n ∧ n < 0x10000000
  blk : inWindow (BitVec.ofNat 64 n) VIRTIO_BASE VIRTIO_SIZE = true ↔ 0x10001000 ≤ n ∧ n < 0x10002000
  net : inWindow (BitVec.ofNat 64 n) VIRTIO_NET_BASE VIRTIO_NET_SIZE = true ↔ 0x10002000 ≤ n ∧ n < 0x10003000

theorem windows {n : Nat} (hn : n < 2 ^ 32) : Windows n where
  test := inWindow_ofNat hn (by decide) (by decide)
  uart := inWindow_ofNat hn (by decide) (by decide)
  clint := inWindow_ofNat hn (by decide) (by decide)
  plic := inWindow_ofNat hn (by decide) (by decide)
  blk := inWindow_ofNat hn (by decide) (by decide)
  net := inWindow_ofNat hn (by decide) (by decide)

/-- The windows that hold word registers. -/
inductive Window
  | clint | plic | blk | net
  deriving DecidableEq

namespace Window

@[reducible]
def base : Window → Nat
  | .clint => 0x02000000
  | .plic => 0x0c000000
  | .blk => 0x10001000
  | .net => 0x10002000

@[reducible]
def size : Window → Nat
  | .clint => 0x10000
  | .plic => 0x4000000
  | .blk | .net => 0x1000

variable (w : Window) {off k : Nat} (hoff : off % 4 = 0) (hk : k < 4) (h : off < w.size)
include hoff hk h

/-- The tests `plat_read` and `plat_write` make, and the offset they pass on. -/
theorem tests : let a := BitVec.ofNat 64 (w.base + off + k)
    (inWindow a TEST_BASE TEST_SIZE = false ∧ inWindow a UART_BASE UART_SIZE = false ∧
      inWindow a CLINT_BASE CLINT_SIZE = decide (w = .clint) ∧ inWindow a PLIC_BASE PLIC_SIZE = decide (w = .plic) ∧
      inWindow a VIRTIO_BASE VIRTIO_SIZE = decide (w = .blk) ∧
      inWindow a VIRTIO_NET_BASE VIRTIO_NET_SIZE = decide (w = .net)) ∧
    ∀ b, b = BitVec.ofNat 64 w.base → wordOff a b = BitVec.ofNat 32 off := by
  refine ⟨?_, fun b hb => hb ▸ wordOff_ofNat hoff hk⟩
  have hw : Windows (w.base + off + k) := windows (by cases w <;> dsimp only [base, size] at h ⊢ <;> omega)
  refine ⟨?_, ?_, ?_, ?_, ?_, ?_⟩ <;> rw [Bool.eq_iff_iff]
  all_goals
    simp only [hw.test, hw.uart, hw.clint, hw.plic, hw.blk, hw.net, Bool.false_eq_true, decide_eq_true_eq]
    cases w <;> dsimp only [base, size] at h ⊢ <;> simp only [reduceCtorEq, iff_false, iff_true] <;> omega

theorem platWrite_eq (b : Bus) (v : BitVec 32) : platWrite b (BitVec.ofNat 64 (w.base + off + k)) v =
    match w with
    | .clint => b.setPlat { b.plat with clint := clintWrite b.plat.clint (BitVec.ofNat 32 off) v }
    | .plic => b.setPlat (plicWrite b.plat (BitVec.ofNat 32 off) v)
    | .blk => virtioWrite b (BitVec.ofNat 32 off) v
    | .net => virtioNetWrite b (BitVec.ofNat 32 off) v := by
  obtain ⟨⟨htest, huart, hclint, hplic, hblk, hnet⟩, hword⟩ := w.tests hoff hk h
  unfold platWrite
  rw [htest, huart, hclint, hplic, hblk, hnet]
  cases w with
  | clint => rw [← hword CLINT_BASE rfl]; rfl
  | plic => rw [← hword PLIC_BASE rfl]; rfl
  | blk => rw [← hword VIRTIO_BASE rfl]; rfl
  | net => rw [← hword VIRTIO_NET_BASE rfl]; rfl

theorem platRead_eq (p : Platform) (n : Nat) : platRead p (BitVec.ofNat 64 (w.base + off + k)) n =
    let r := match w with
      | .clint => (clintRead p.clint (BitVec.ofNat 32 off), p)
      | .plic => plicRead p (BitVec.ofNat 32 off)
      | .blk => (virtioRead p (BitVec.ofNat 32 off), p)
      | .net => (virtioNetRead p (BitVec.ofNat 32 off), p)
    (subWord r.1 (BitVec.ofNat 64 (w.base + off + k)) n, r.2) := by
  obtain ⟨⟨htest, huart, hclint, hplic, hblk, hnet⟩, hword⟩ := w.tests hoff hk h
  unfold platRead
  rw [huart, hclint, hplic, hblk, hnet]
  cases w with
  | clint => rw [← hword CLINT_BASE rfl]; rfl
  | plic => rw [← hword PLIC_BASE rfl]; rfl
  | blk => rw [← hword VIRTIO_BASE rfl]; rfl
  | net => rw [← hword VIRTIO_NET_BASE rfl]; rfl

end Window

/-! ## Word writes -/

/-- From `p` to `p'` the register takes `v`, up to its hard-wired bits, and the others keep theirs. -/
structure Stores (p p' : Platform) (r : WordReg) (v : BitVec 32) : Prop where
  here : r.value p' = v &&& r.mask
  there : ∀ r', r' ≠ r → r'.value p' = r'.value p
  present : ∀ r', WordReg.Present p r' → WordReg.Present p' r'

theorem Area.off_bounds (a : Area) (hi : Bool) : (a.off + 4 * hi.toNat) % 4 = 0 ∧ a.off + 4 * hi.toNat < 0x1000 := by
  cases a <;> cases hi <;> decide

section Handlers

variable (v : BitVec 32)

theorem toNat_off {n : Nat} (h : n < 0x4000000) : (BitVec.ofNat 32 n).toNat = n := by
  rw [BitVec.toNat_ofNat]
  omega

theorem clintWrite_msip (c : Clint) {h : Nat} (hh : h < QUANTA_MAX_HARTS) :
    clintWrite c (BitVec.ofNat 32 (4 * h)) v = { c with msip := Function.update c.msip h (v &&& 1) } := by
  have hmax : QUANTA_MAX_HARTS = 8 := rfl
  unfold clintWrite
  rw [toNat_off (by omega), if_pos (by omega), Nat.mul_div_cancel_left _ (by decide)]

theorem clintWrite_mtimecmp (c : Clint) {h : Nat} (hi : Bool) (hh : h < QUANTA_MAX_HARTS) :
    clintWrite c (BitVec.ofNat 32 (0x4000 + (8 * h + 4 * hi.toNat))) v =
      { c with mtimecmp := Function.update c.mtimecmp h (setHalf (c.mtimecmp h) hi v) } := by
  have hmax : QUANTA_MAX_HARTS = 8 := rfl
  have hhi : hi.toNat < 2 := hi.toNat_lt
  have hdiv : (8 * h + 4 * hi.toNat) / 8 = h := by omega
  have hpart : (if (8 * h + 4 * hi.toNat) % 8 < 4 then setLo (c.mtimecmp h) v else setHi (c.mtimecmp h) v) =
      setHalf (c.mtimecmp h) hi v := by
    cases hi
    · exact if_pos (by rw [Bool.toNat_false]; omega)
    · exact if_neg (by rw [Bool.toNat_true]; omega)
  unfold clintWrite
  dsimp only
  rw [toNat_off (by omega), if_neg (by omega), if_pos (by omega), Nat.add_sub_cancel_left, hdiv, hpart]

theorem plicWrite_priority (p : Platform) {s : Nat} (hs : 1 ≤ s ∧ s < PLIC_NSOURCES) :
    plicWrite p (BitVec.ofNat 32 (4 * s)) v =
      { p with plic := { p.plic with priority := Function.update p.plic.priority s v } } := by
  have hmax : PLIC_NSOURCES = 32 := rfl
  unfold plicWrite
  rw [toNat_off (by omega), if_pos (by omega), Nat.mul_div_cancel_left _ (by decide), if_pos hs]

theorem plicWrite_enable (p : Platform) {c : Nat} (hc : c < PLIC_NCONTEXTS) :
    plicWrite p (BitVec.ofNat 32 (0x2000 + 0x80 * c)) v =
      { p with plic := { p.plic with enable := Function.update p.plic.enable c v } } := by
  have hmax : PLIC_NCONTEXTS = 16 := rfl
  unfold plicWrite
  dsimp only
  rw [toNat_off (by omega), if_neg (by omega), if_pos (by omega), Nat.add_sub_cancel_left, if_pos (by omega),
    Nat.mul_div_cancel_left _ (by decide)]

theorem virtioWrite_area (b : Bus) (a : Area) (hi : Bool) :
    virtioWrite b (BitVec.ofNat 32 (a.off + 4 * hi.toNat)) v = b.setPlat { b.plat with
      virtio := b.plat.virtio.setArea a (setHalf (b.plat.virtio.area a) hi v) } := by
  cases a <;> cases hi <;> rfl

theorem virtioNetWrite_area (b : Bus) (a : Area) (hi : Bool) (hsel : b.plat.net.queueSel.toNat < VIRTIO_NET_NQUEUES) :
    virtioNetWrite b (BitVec.ofNat 32 (a.off + 4 * hi.toNat)) v =
      b.setNet (b.plat.net.setVq b.plat.net.queueSel.toNat ((b.plat.net.vq b.plat.net.queueSel.toNat).setArea a
        (setHalf ((b.plat.net.vq b.plat.net.queueSel.toNat).area a) hi v))) := by
  have hvq : ∀ f, b.setSelectedVq f =
      b.setNet (b.plat.net.setVq b.plat.net.queueSel.toNat (f (b.plat.net.vq b.plat.net.queueSel.toNat))) :=
    fun f => if_pos hsel
  unfold virtioNetWrite
  rw [toNat_off (lt_trans (a.off_bounds hi).2 (by decide))]
  cases a <;> cases hi <;> exact hvq _

end Handlers

theorem WordReg.addr_mtimecmp (h : Fin QUANTA_MAX_HARTS) (hi : Bool) :
    (WordReg.mtimecmp h hi).addr = 0x02000000 + (0x4000 + (8 * h + 4 * hi.toNat)) := by
  rw [WordReg.addr]
  omega

theorem WordReg.addr_enable (c : Fin PLIC_NCONTEXTS) : (WordReg.enable c).addr = 0x0c000000 + (0x2000 + 0x80 * c) := by
  rw [WordReg.addr]
  omega

section Stores

variable {b : Bus} (v : BitVec 32) {k : Nat} (hk : k < 4)
include hk

theorem stores_msip (h : Fin QUANTA_MAX_HARTS) :
    Stores b.plat (platWrite b (BitVec.ofNat 64 ((WordReg.msip h).addr + k)) v).plat (.msip h) v := by
  have hh : h.val < 8 := h.isLt
  rw [WordReg.addr, Window.platWrite_eq .clint (by omega) hk (show _ < 0x10000 by omega) b v, clintWrite_msip v _ h.isLt]
  constructor
  · exact Function.update_self ..
  · intro r' hr'
    cases r' with
    | msip h' =>
      have hne : h'.val ≠ h.val := fun e => hr' (by rw [Fin.ext e])
      exact Function.update_of_ne hne ..
    | mtimecmp | priority | enable | blk | net => rfl
  · intro r' hp
    cases r' <;> exact hp

theorem stores_mtimecmp (h : Fin QUANTA_MAX_HARTS) (hi : Bool) :
    Stores b.plat (platWrite b (BitVec.ofNat 64 ((WordReg.mtimecmp h hi).addr + k)) v).plat (.mtimecmp h hi) v := by
  have hh : h.val < 8 := h.isLt
  have hhi : hi.toNat < 2 := hi.toNat_lt
  have hall : (WordReg.mtimecmp h hi).mask = BitVec.allOnes 32 := rfl
  rw [WordReg.addr_mtimecmp, Window.platWrite_eq .clint (by omega) hk (show _ < 0x10000 by omega) b v,
    clintWrite_mtimecmp v _ hi h.isLt]
  constructor
  · rw [hall, BitVec.and_allOnes]
    change half (Function.update b.plat.clint.mtimecmp h.val (setHalf (b.plat.clint.mtimecmp h.val) hi v) h.val) hi = v
    rw [half_update, if_pos ⟨rfl, rfl⟩]
  · intro r' hr'
    cases r' with
    | mtimecmp h' hi' =>
      refine (half_update b.plat.clint.mtimecmp h.val h'.val hi hi' v).trans (if_neg fun e => hr' ?_)
      rw [Fin.ext e.1, e.2]
    | msip | priority | enable | blk | net => rfl
  · intro r' hp
    cases r' <;> exact hp

theorem stores_priority (s : Fin (PLIC_NSOURCES - 1)) :
    Stores b.plat (platWrite b (BitVec.ofNat 64 ((WordReg.priority s).addr + k)) v).plat (.priority s) v := by
  have hs : s.val < 31 := s.isLt
  have hmax : PLIC_NSOURCES = 32 := rfl
  have hall : (WordReg.priority s).mask = BitVec.allOnes 32 := rfl
  rw [WordReg.addr, Window.platWrite_eq .plic (by omega) hk (show _ < 0x4000000 by omega) b v, plicWrite_priority v _ (by omega)]
  constructor
  · rw [hall, BitVec.and_allOnes]
    exact Function.update_self ..
  · intro r' hr'
    cases r' with
    | priority s' =>
      have hne : s'.val + 1 ≠ s.val + 1 := fun e => hr' (by rw [Fin.ext (Nat.succ.inj e)])
      exact Function.update_of_ne hne ..
    | msip | mtimecmp | enable | blk | net => rfl
  · intro r' hp
    cases r' <;> exact hp

theorem stores_enable (c : Fin PLIC_NCONTEXTS) :
    Stores b.plat (platWrite b (BitVec.ofNat 64 ((WordReg.enable c).addr + k)) v).plat (.enable c) v := by
  have hc : c.val < 16 := c.isLt
  have hall : (WordReg.enable c).mask = BitVec.allOnes 32 := rfl
  rw [WordReg.addr_enable, Window.platWrite_eq .plic (by omega) hk (show _ < 0x4000000 by omega) b v, plicWrite_enable v _ c.isLt]
  constructor
  · rw [hall, BitVec.and_allOnes]
    exact Function.update_self ..
  · intro r' hr'
    cases r' with
    | enable c' =>
      have hne : c'.val ≠ c.val := fun e => hr' (by rw [Fin.ext e])
      exact Function.update_of_ne hne ..
    | msip | mtimecmp | priority | blk | net => rfl
  · intro r' hp
    cases r' <;> exact hp

theorem stores_blk (a : Area) (hi : Bool) :
    Stores b.plat (platWrite b (BitVec.ofNat 64 ((WordReg.blk a hi).addr + k)) v).plat (.blk a hi) v := by
  obtain ⟨hoff, hlt⟩ := a.off_bounds hi
  have hall : (WordReg.blk a hi).mask = BitVec.allOnes 32 := rfl
  rw [WordReg.addr, Nat.add_assoc 0x10001000, Window.platWrite_eq .blk hoff hk hlt b v, virtioWrite_area v b a hi]
  constructor
  · rw [hall, BitVec.and_allOnes]
    change half ((b.plat.virtio.setArea a (setHalf (b.plat.virtio.area a) hi v)).area a) hi = v
    rw [Virtio.area_setArea, half_update, if_pos ⟨rfl, rfl⟩]
  · intro r' hr'
    cases r' with
    | blk a' hi' =>
      change half ((b.plat.virtio.setArea a (setHalf (b.plat.virtio.area a) hi v)).area a') hi' =
        half (b.plat.virtio.area a') hi'
      rw [Virtio.area_setArea, half_update, if_neg fun e => hr' (by rw [e.1, e.2])]
    | msip | mtimecmp | priority | enable | net => rfl
  · intro r' hp
    cases r' <;> exact hp

theorem stores_net (a : Area) (hi : Bool) (hsel : b.plat.net.queueSel.toNat < VIRTIO_NET_NQUEUES) :
    Stores b.plat (platWrite b (BitVec.ofNat 64 ((WordReg.net a hi).addr + k)) v).plat (.net a hi) v := by
  obtain ⟨hoff, hlt⟩ := a.off_bounds hi
  have hall : (WordReg.net a hi).mask = BitVec.allOnes 32 := rfl
  rw [WordReg.addr, Nat.add_assoc 0x10002000, Window.platWrite_eq .net hoff hk hlt b v, virtioNetWrite_area v b a hi hsel]
  generalize hq : b.plat.net.vq b.plat.net.queueSel.toNat = q
  have hself : ∀ q' : Virtqueue,
      (b.plat.net.setVq b.plat.net.queueSel.toNat q').vq b.plat.net.queueSel.toNat = q' :=
    fun q' => Function.update_self ..
  constructor
  · rw [hall, BitVec.and_allOnes]
    change half (((b.plat.net.setVq b.plat.net.queueSel.toNat (q.setArea a (setHalf (q.area a) hi v))).vq
      b.plat.net.queueSel.toNat).area a) hi = v
    rw [hself, Virtqueue.area_setArea, half_update, if_pos ⟨rfl, rfl⟩]
  · intro r' hr'
    cases r' with
    | net a' hi' =>
      change half (((b.plat.net.setVq b.plat.net.queueSel.toNat (q.setArea a (setHalf (q.area a) hi v))).vq
        b.plat.net.queueSel.toNat).area a') hi' = half ((b.plat.net.vq b.plat.net.queueSel.toNat).area a') hi'
      rw [hself, Virtqueue.area_setArea, hq, half_update, if_neg fun e => hr' (by rw [e.1, e.2])]
    | msip | mtimecmp | priority | enable | blk => rfl
  · intro r' hp
    cases r' <;> exact hp

/-- Whatever the offset in the word, a write to the platform sets the whole register. -/
theorem stores (r : WordReg) (hr : r.Present b.plat) :
    Stores b.plat (platWrite b (BitVec.ofNat 64 (r.addr + k)) v).plat r v := by
  cases r with
  | msip h => exact stores_msip v hk h
  | mtimecmp h hi => exact stores_mtimecmp v hk h hi
  | priority s => exact stores_priority v hk s
  | enable c => exact stores_enable v hk c
  | blk a hi => exact stores_blk v hk a hi
  | net a hi => exact stores_net v hk a hi hr

end Stores

/-! ## Word reads -/

section Reads

variable (n : Nat) (p : Platform)

theorem and_three {a k : Nat} (ha : a % 4 = 0) (hk : k < 4) : (BitVec.ofNat 64 (a + k) &&& 3).toNat = k := by
  rw [BitVec.toNat_and, BitVec.toNat_ofNat]
  change (a + k) % 2 ^ 64 &&& 2 ^ 2 - 1 = k
  rw [Nat.and_two_pow_sub_one_eq_mod]
  omega

theorem subWord_word {a : Nat} (ha : a % 4 = 0) (w : BitVec 32) : subWord w (BitVec.ofNat 64 (a + 0)) 4 = w := by
  unfold subWord
  rw [and_three ha (by decide), if_neg (by decide), if_neg (by decide)]
  exact BitVec.ushiftRight_zero w

/-- A device read of `n` bytes at offset `k` of a word returns these bytes of the word. -/
theorem subWord_bytes {a k n : Nat} (ha : a % 4 = 0) (hk : k < 4) (hn : n = 1 ∨ n = 2 ∨ n = 4) (w : BitVec 32) :
    (subWord w (BitVec.ofNat 64 (a + k)) n).setWidth 64 &&& (BitVec.allOnes 64 >>> (64 - 8 * n)) =
      (w.extractLsb' (8 * k) (8 * n)).setWidth 64 := by
  have hword : ∀ i < 8 * n, (subWord w (BitVec.ofNat 64 (a + k)) n).getLsbD i = w.getLsbD (8 * k + i) := by
    intro i hi
    unfold subWord
    rw [and_three ha hk]
    obtain rfl | rfl | rfl := hn
    · rw [if_pos rfl, show (0xff : BitVec 32) = (1#32 <<< 8) - 1#32 from rfl, BitVec.getLsbD_and, Bits.getLsbD_low (by decide),
        decide_eq_true hi, Bool.and_true, BitVec.getLsbD_ushiftRight]
    · rw [if_neg (by decide), if_pos rfl, show (0xffff : BitVec 32) = (1#32 <<< 16) - 1#32 from rfl, BitVec.getLsbD_and,
        Bits.getLsbD_low (by decide), decide_eq_true hi, Bool.and_true, BitVec.getLsbD_ushiftRight]
    · rw [if_neg (by decide), if_neg (by decide), BitVec.getLsbD_ushiftRight]
  refine BitVec.eq_of_getLsbD_eq fun i hi => ?_
  rw [BitVec.getLsbD_and, BitVec.getLsbD_ushiftRight, BitVec.getLsbD_allOnes, BitVec.getLsbD_setWidth,
    BitVec.getLsbD_setWidth, BitVec.getLsbD_extractLsb']
  by_cases hin : i < 8 * n
  · rw [hword i hin, decide_eq_true hin, decide_eq_true (show 64 - 8 * n + i < 64 by omega), Bool.and_true, Bool.true_and]
  · rw [decide_eq_false hin, decide_eq_false (show ¬64 - 8 * n + i < 64 by omega), Bool.and_false, Bool.false_and,
      Bool.and_false]

/-- What a read within a register returns; it has no effect. -/
theorem platRead_reg (r : WordReg) {k : Nat} (hk : k < 4) : platRead p (BitVec.ofNat 64 (r.addr + k)) n =
    (subWord (if r.readable then r.value p &&& r.mask else 0) (BitVec.ofNat 64 (r.addr + k)) n, p) := by
  cases r with
  | msip h =>
    have hh : h.val < 8 := h.isLt
    have hmax : QUANTA_MAX_HARTS = 8 := rfl
    rw [WordReg.addr, Window.platRead_eq .clint (by omega) hk (show _ < 0x10000 by omega) p n]
    unfold clintRead
    rw [toNat_off (by omega), if_pos (by omega), Nat.mul_div_cancel_left _ (by decide)]
    rfl
  | mtimecmp h hi =>
    have hh : h.val < 8 := h.isLt
    have hmax : QUANTA_MAX_HARTS = 8 := rfl
    have hhi : hi.toNat < 2 := hi.toNat_lt
    have hpart : (if (8 * h.val + 4 * hi.toNat) % 8 < 4 then (p.clint.mtimecmp h.val).setWidth 32
        else (p.clint.mtimecmp h.val >>> 32).setWidth 32) = half (p.clint.mtimecmp h.val) hi := by
      cases hi
      · exact if_pos (by rw [Bool.toNat_false]; omega)
      · exact if_neg (by rw [Bool.toNat_true]; omega)
    have hall : (WordReg.mtimecmp h hi).mask = BitVec.allOnes 32 := rfl
    rw [WordReg.addr_mtimecmp, Window.platRead_eq .clint (by omega) hk (show _ < 0x10000 by omega) p n, hall, BitVec.and_allOnes]
    unfold clintRead
    dsimp only
    rw [toNat_off (by omega), if_neg (by omega), if_pos (by omega), Nat.add_sub_cancel_left,
      show (8 * h.val + 4 * hi.toNat) / 8 = h.val by omega, hpart]
    rfl
  | priority s =>
    have hs : s.val < 31 := s.isLt
    have hmax : PLIC_NSOURCES = 32 := rfl
    have hall : (WordReg.priority s).mask = BitVec.allOnes 32 := rfl
    rw [WordReg.addr, hall, BitVec.and_allOnes, Window.platRead_eq .plic (by omega) hk (show _ < 0x4000000 by omega) p n]
    unfold plicRead
    rw [toNat_off (by omega), if_pos (by omega), Nat.mul_div_cancel_left _ (by decide), if_pos (by omega)]
    rfl
  | enable c =>
    have hc : c.val < 16 := c.isLt
    have hmax : PLIC_NCONTEXTS = 16 := rfl
    have hall : (WordReg.enable c).mask = BitVec.allOnes 32 := rfl
    rw [WordReg.addr_enable, hall, BitVec.and_allOnes,
      Window.platRead_eq .plic (by omega) hk (show _ < 0x4000000 by omega) p n]
    unfold plicRead
    dsimp only
    rw [toNat_off (by omega), if_neg (by omega), if_neg (by omega), if_pos (by omega), Nat.add_sub_cancel_left,
      if_pos (by omega), Nat.mul_div_cancel_left _ (by decide)]
    rfl
  | blk a hi =>
    obtain ⟨hoff, hlt⟩ := a.off_bounds hi
    rw [WordReg.addr, Nat.add_assoc 0x10001000, Window.platRead_eq .blk hoff hk hlt p n]
    cases a <;> cases hi <;> rfl
  | net a hi =>
    obtain ⟨hoff, hlt⟩ := a.off_bounds hi
    rw [WordReg.addr, Nat.add_assoc 0x10002000, Window.platRead_eq .net hoff hk hlt p n]
    cases a <;> cases hi <;> rfl

end Reads

/-! ## Guest stores and loads -/

section Accesses

variable {b : Bus} {r : WordReg}

theorem WordReg.addr_bounds (r : WordReg) : r.addr % 4 = 0 ∧
    ∀ k, k < 4 → platContains (BitVec.ofNat 64 (r.addr + k)) = true := by
  have hin : r.addr % 4 = 0 ∧ ((0x02000000 ≤ r.addr ∧ r.addr < 0x02010000) ∨ (0x0c000000 ≤ r.addr ∧ r.addr < 0x10000000) ∨
      (0x10001000 ≤ r.addr ∧ r.addr < 0x10002000) ∨ (0x10002000 ≤ r.addr ∧ r.addr < 0x10003000)) := by
    cases r with
    | msip h =>
      have hh : h.val < 8 := h.isLt
      rw [WordReg.addr]
      omega
    | mtimecmp h hi =>
      have hh : h.val < 8 := h.isLt
      have hhi : hi.toNat < 2 := hi.toNat_lt
      rw [WordReg.addr]
      omega
    | priority s =>
      have hs : s.val < 31 := s.isLt
      rw [WordReg.addr]
      omega
    | enable c =>
      have hc : c.val < 16 := c.isLt
      rw [WordReg.addr]
      omega
    | blk a hi | net a hi =>
      have ha := a.off_bounds hi
      rw [WordReg.addr]
      omega
  refine ⟨hin.1, fun k hk => ?_⟩
  have hw := windows (show r.addr + k < 2 ^ 32 by omega)
  unfold platContains
  rw [Bool.or_eq_true, Bool.or_eq_true, Bool.or_eq_true, Bool.or_eq_true, Bool.or_eq_true, hw.test, hw.uart, hw.clint,
    hw.plic, hw.blk, hw.net]
  omega

theorem WordReg.upper_eq {r r₂ : WordReg} (h : r.upper = some r₂) : r₂.addr = r.addr + 4 ∧ r₂ ≠ r ∧
    r₂.readable = r.readable ∧ r.mask = BitVec.allOnes 32 ∧ r₂.mask = BitVec.allOnes 32 ∧
      ∀ p, r.Present p → r₂.Present p := by
  cases r with
  | mtimecmp i hi | blk i hi | net i hi =>
    cases hi with
    | false =>
      cases h
      exact ⟨rfl, by simp, rfl, rfl, rfl, fun _ => id⟩
    | true => cases h
  | msip | priority | enable => cases h

/-- The low `n` bytes, zero-extended. -/
theorem low_bytes (v : BitVec 64) {n : Nat} (hn : n ≤ 4) :
    (v &&& (BitVec.allOnes 64 >>> (64 - 8 * n))).setWidth 32 = (v.setWidth (8 * n)).setWidth 32 := by
  apply BitVec.eq_of_getLsbD_eq
  intro i hi
  rw [BitVec.getLsbD_setWidth, BitVec.getLsbD_setWidth, BitVec.getLsbD_and, BitVec.getLsbD_ushiftRight,
    BitVec.getLsbD_allOnes, BitVec.getLsbD_setWidth, decide_eq_true hi, Bool.true_and, Bool.true_and, Bool.and_comm]
  congr 1
  refine decide_eq_decide.mpr ?_
  omega

variable (hplat : b.mem.plat = true) (v : BitVec 64)
include hplat

theorem memWrite_reg {n k : Nat} (hn : n ≤ 4) (hk : k < 4) : memWrite b (BitVec.ofNat 64 (r.addr + k)) n v =
    platWrite b (BitVec.ofNat 64 (r.addr + k)) ((v.setWidth (8 * n)).setWidth 32) := by
  unfold memWrite Bus.isDevice
  rw [hplat, r.addr_bounds.2 k hk, if_pos (by decide)]
  unfold devWrite
  rw [if_neg (by omega), low_bytes v hn]

theorem memWrite_reg_double : memWrite b (BitVec.ofNat 64 r.addr) 8 v =
    platWrite (platWrite b (BitVec.ofNat 64 r.addr) (half v false)) (BitVec.ofNat 64 (r.addr + 4)) (half v true) := by
  have hnext : BitVec.ofNat 64 r.addr + 4 = BitVec.ofNat 64 (r.addr + 4) := (BitVec.ofNat_add ..).symm
  have hdevice : platContains (BitVec.ofNat 64 r.addr) = true := r.addr_bounds.2 0 (by decide)
  unfold memWrite Bus.isDevice
  rw [hplat, hdevice, if_pos (by decide)]
  unfold devWrite
  rw [if_pos rfl, hnext]
  rfl

/-- A load within a register returns the bytes it addresses. -/
theorem memRead_reg {n k : Nat} (hn : n = 1 ∨ n = 2 ∨ n = 4) (hk : k < 4) :
    (memRead b (BitVec.ofNat 64 (r.addr + k)) n).1 =
      ((if r.readable then r.value b.plat &&& r.mask else 0).extractLsb' (8 * k) (8 * n)).setWidth 64 := by
  unfold memRead Bus.isDevice
  rw [hplat, r.addr_bounds.2 k hk, if_pos (by decide)]
  unfold devRead
  rw [if_neg (by omega), platRead_reg n b.plat r hk]
  exact subWord_bytes r.addr_bounds.1 hk hn _

theorem memRead_reg_double {r₂ : WordReg} (hup : r.upper = some r₂) : (memRead b (BitVec.ofNat 64 r.addr) 8).1 =
    if r.readable then (r₂.value b.plat ++ r.value b.plat : BitVec 64) else 0 := by
  have hnext : BitVec.ofNat 64 r.addr + 4 = BitVec.ofNat 64 (r.addr + 4) := (BitVec.ofNat_add ..).symm
  obtain ⟨haddr, _, hread, hmask, hmask₂, _⟩ := WordReg.upper_eq hup
  have hword : ∀ r : WordReg, r.mask = BitVec.allOnes 32 →
      platRead b.plat (BitVec.ofNat 64 r.addr) 4 = (if r.readable then r.value b.plat else 0, b.plat) := by
    intro r hm
    rw [← Nat.add_zero r.addr, platRead_reg 4 b.plat r (by decide), subWord_word r.addr_bounds.1, hm, BitVec.and_allOnes]
  have hdev : (devRead b.plat (BitVec.ofNat 64 r.addr) 8).1 = (if r.readable then r.value b.plat else 0).setWidth 64 |||
      ((if r.readable then r₂.value b.plat else 0).setWidth 64 <<< 32) := by
    unfold devRead
    rw [if_pos rfl, hword r hmask]
    dsimp only
    rw [hnext, ← haddr, hword r₂ hmask₂, hread]
  have hdevice : platContains (BitVec.ofNat 64 r.addr) = true := r.addr_bounds.2 0 (by decide)
  unfold memRead Bus.isDevice
  rw [hplat, hdevice, if_pos (by decide)]
  refine hdev.trans ?_
  generalize r.value b.plat = lo
  generalize r₂.value b.plat = hi
  cases r.readable with
  | false => simp
  | true =>
    rw [if_pos rfl, if_pos rfl, if_pos rfl, BitVec.or_comm]
    exact Bits.shiftLeft_or_eq_append hi lo

end Accesses

theorem half_append (v : BitVec 64) : (half v true ++ half v false : BitVec 64) = v :=
  Bits.append_eq_iff.mpr ⟨rfl, rfl⟩

/-- The bytes a store put at offset 0 read back there; at the other offsets of the word it left zeros. -/
theorem extract_stored (w mask : BitVec 32) {n k : Nat} (hnk : n ∣ k) (hk : k < 4)
    (hw : ∀ i, 8 * n ≤ i → w.getLsbD i = false) :
    ((w &&& mask).extractLsb' (8 * k) (8 * n)).setWidth 64 = if k = 0 then (w &&& mask).setWidth 64 else 0 := by
  refine BitVec.eq_of_getLsbD_eq fun i hi => ?_
  rw [BitVec.getLsbD_setWidth, BitVec.getLsbD_extractLsb', BitVec.getLsbD_and]
  split
  · next h0 =>
    rw [BitVec.getLsbD_setWidth, BitVec.getLsbD_and, h0, Nat.mul_zero, Nat.zero_add]
    by_cases hin : i < 8 * n
    · rw [decide_eq_true hin, Bool.true_and]
    · rw [hw i (by omega), Bool.false_and, Bool.and_false]
  · next h0 =>
    -- an aligned offset other than 0 is past the bytes stored
    have hle : n ≤ k := Nat.le_of_dvd (by omega) hnk
    rw [hw (8 * k + i) (by omega), Bool.false_and, Bool.and_false, Bool.and_false]
    exact BitVec.getLsbD_zero.symm

/-- A store of `v` at a register and a load of the same size and address. The registers take word
writes: a store of one, two or four bytes sets the whole word, so that it reads back where it starts
at the register's own address, and as 0 at the other offsets. -/
structure RegisterStore (b : Bus) (r : WordReg) (v : BitVec 64) : Prop where
  word : ∀ n k, n = 1 ∨ n = 2 ∨ n = 4 → n ∣ k → k < 4 →
    Stores b.plat (memWrite b (BitVec.ofNat 64 (r.addr + k)) n v).plat r ((v.setWidth (8 * n)).setWidth 32)
  load : ∀ n k, n = 1 ∨ n = 2 ∨ n = 4 → n ∣ k → k < 4 →
    (memRead (memWrite b (BitVec.ofNat 64 (r.addr + k)) n v) (BitVec.ofNat 64 (r.addr + k)) n).1 =
      if r.readable ∧ k = 0 then ((v.setWidth (8 * n)).setWidth 32 &&& r.mask).setWidth 64 else 0
  double : ∀ r₂, r.upper = some r₂ →
    r.value (memWrite b (BitVec.ofNat 64 r.addr) 8 v).plat = half v false ∧
      r₂.value (memWrite b (BitVec.ofNat 64 r.addr) 8 v).plat = half v true ∧
      (∀ r', r' ≠ r → r' ≠ r₂ → r'.value (memWrite b (BitVec.ofNat 64 r.addr) 8 v).plat = r'.value b.plat) ∧
      (memRead (memWrite b (BitVec.ofNat 64 r.addr) 8 v) (BitVec.ofNat 64 r.addr) 8).1 = if r.readable then v else 0

/-- Every register of an attached platform, whatever it holds and whatever is stored. -/
theorem device_register_stores (b : Bus) (hplat : b.mem.plat = true) (r : WordReg) (hr : r.Present b.plat)
    (v : BitVec 64) : RegisterStore b r v where
  word n k hn _ hk := by
    rw [memWrite_reg hplat v (by omega) hk]
    exact stores _ hk r hr
  load n k hn hnk hk := by
    have hstore := stores ((v.setWidth (8 * n)).setWidth 32) hk r hr
    have hzero : ∀ i, 8 * n ≤ i → ((v.setWidth (8 * n)).setWidth 32).getLsbD i = false := by
      intro i hi
      rw [BitVec.getLsbD_setWidth, BitVec.getLsbD_of_ge _ i hi, Bool.and_false]
    rw [memWrite_reg hplat v (by omega) hk, memRead_reg ((platWrite_frame ..).plat.trans hplat) hn hk, hstore.here,
      BitVec.and_assoc, BitVec.and_self]
    cases r.readable with
    | false => simp
    | true => simpa using extract_stored _ r.mask hnk hk hzero
  double r₂ hup := by
    obtain ⟨haddr, hne, _, hmask, hmask₂, hpresent⟩ := WordReg.upper_eq hup
    have hfirst := @stores b (half v false) 0 (by decide) r hr
    have hsecond := @stores (platWrite b (BitVec.ofNat 64 r.addr) (half v false)) (half v true) 0 (by decide) r₂
      (hfirst.present r₂ (hpresent _ hr))
    rw [Nat.add_zero] at hfirst
    rw [Nat.add_zero, haddr] at hsecond
    have hlo : r.value (memWrite b (BitVec.ofNat 64 r.addr) 8 v).plat = half v false := by
      rw [memWrite_reg_double hplat, hsecond.there r hne.symm, hfirst.here, hmask, BitVec.and_allOnes]
    have hhi : r₂.value (memWrite b (BitVec.ofNat 64 r.addr) 8 v).plat = half v true := by
      rw [memWrite_reg_double hplat, hsecond.here, hmask₂, BitVec.and_allOnes]
    refine ⟨hlo, hhi, ?_, ?_⟩
    · intro r' h1 h2
      rw [memWrite_reg_double hplat, hsecond.there r' h2, hfirst.there r' h1]
    · have hplat' : (memWrite b (BitVec.ofNat 64 r.addr) 8 v).mem.plat = true := by
        rw [memWrite_reg_double hplat, (platWrite_frame ..).plat, (platWrite_frame ..).plat, hplat]
      rw [memRead_reg_double hplat' hup, hlo, hhi, half_append]

/-- A platform as it is initialised, attached to 4 KiB of RAM. -/
def freshBus : Bus :=
  { mem := { memInit 0x80000000 0x1000 with plat := true }, plat := platInit, out := [] }

theorem fresh_timer_store : RegisterStore freshBus (.mtimecmp ⟨0, by decide⟩ false) 0x1122334455667788 :=
  device_register_stores freshBus rfl (.mtimecmp ⟨0, by decide⟩ false) trivial 0x1122334455667788

/-- A byte stored in the second byte of hart 0's timer compare clears the word around it, and reads
back as zero. -/
theorem byte_store_sets_word :
    freshBus.plat.clint.mtimecmp 0 = 0xffffffffffffffff ∧
      (memWrite8 freshBus 0x02004001 0xab).plat.clint.mtimecmp 0 = 0xffffffff000000ab ∧
      (memRead8 (memWrite8 freshBus 0x02004001 0xab) 0x02004001).1 = 0 := by
  decide +kernel

end Quanta
