/-
The set-associative LRU cache model of `cache.c`, the observability layer the data accesses of
the core report to. It tallies hits and misses and never returns data.
-/
import Mathlib.Logic.Function.Basic

namespace Quanta

structure CacheLine where
  valid : Bool
  tag : BitVec 32
  used : BitVec 64

/-- `lines` is row-major: set `i` starts at `i * assoc`. -/
structure Cache where
  blockSize : BitVec 32
  numSets : BitVec 32
  assoc : BitVec 32
  offsetBits : Nat
  indexBits : Nat
  lines : Nat → CacheLine
  tick : BitVec 64
  loads : BitVec 64
  stores : BitVec 64
  hits : BitVec 64
  misses : BitVec 64

/-! ## Geometry -/

def isPow2 (x : BitVec 32) : Bool := x != 0 && x &&& (x - 1) == 0

/-- The loop of `log2u` from `n`, with `k` values of `n` below 32 left; `none` is a shift by 32. -/
def log2uFrom (x : BitVec 32) (n : Nat) : Nat → Option Nat
  | 0 => none
  | k + 1 => if (1#32 <<< n).ult x then log2uFrom x (n + 1) k else some n

/-- The base 2 logarithm of a power of two. -/
def log2u (x : BitVec 32) : Option Nat := log2uFrom x 0 32

/-- How `cache_init` ends: it returns 0, or -1 with a diagnostic, or has no defined behaviour. -/
inductive CacheInit
  | done (c : Cache)
  | refused (message : String)
  | undefined

/-- `cache_init`; `calloc` says whether so many lines can be allocated. -/
def cacheInit (calloc : Nat → Bool) (sizeBytes assoc blockSize : BitVec 32) : CacheInit :=
  if !isPow2 blockSize || blockSize.ult 4 then
    .refused ("cache: block size must be a power of two >= 4 (got " ++ toString blockSize.toNat ++ ")\n")
  else if !isPow2 assoc then
    .refused ("cache: associativity must be a power of two (got " ++ toString assoc.toNat ++ ")\n")
  else
    let perSet := assoc * blockSize
    -- `size_bytes % per_set` is evaluated for a nonzero size only
    if sizeBytes ≠ 0 ∧ perSet = 0 then .undefined
    else if sizeBytes = 0 ∨ sizeBytes % perSet ≠ 0 then
      .refused ("cache: size " ++ toString sizeBytes.toNat ++ " must be a multiple of assoc*block (" ++
        toString perSet.toNat ++ ")\n")
    else
      let numSets := sizeBytes / perSet
      if !isPow2 numSets then
        .refused ("cache: " ++ toString sizeBytes.toNat ++ " B / (" ++ toString assoc.toNat ++ "-way * " ++
          toString blockSize.toNat ++ " B) = " ++ toString numSets.toNat ++ " sets is not a power of two\n")
      else if !calloc (numSets.toNat * assoc.toNat) then
        .refused ("cache: cannot allocate " ++ toString (numSets * assoc).toNat ++ " lines\n")
      else
        match log2u blockSize, log2u numSets with
        | some offsetBits, some indexBits =>
          .done
            { blockSize, numSets, assoc, offsetBits, indexBits
              lines := fun _ => ⟨false, 0, 0⟩
              tick := 0, loads := 0, stores := 0, hits := 0, misses := 0 }
        | _, _ => .undefined

/-! ## Accesses -/

/-- The way of the set at `base` that holds `tag`, scanning from way `w` with `n` ways left. -/
def cacheLookup (lines : Nat → CacheLine) (base : Nat) (tag : BitVec 32) (w : Nat) : Nat → Option Nat
  | 0 => none
  | n + 1 =>
    if (lines (base + w)).valid ∧ (lines (base + w)).tag = tag then some w
    else cacheLookup lines base tag (w + 1) n

/-- The way a miss fills: the first empty one, else the least recently used. -/
def cacheVictim (lines : Nat → CacheLine) (base : Nat) (victim w : Nat) : Nat → Nat
  | 0 => victim
  | n + 1 =>
    if !(lines (base + w)).valid then w
    else if (lines (base + w)).used.ult (lines (base + victim)).used then
      cacheVictim lines base w (w + 1) n
    else cacheVictim lines base victim (w + 1) n

/-- `cache_access`: record one data access. -/
def cacheAccess (c : Cache) (addr : BitVec 32) (isStore : Bool) : Cache :=
  let c := if isStore then { c with stores := c.stores + 1 } else { c with loads := c.loads + 1 }
  let c := { c with tick := c.tick + 1 }
  let index : BitVec 32 := (addr >>> c.offsetBits) &&& (c.numSets - 1)
  let tag : BitVec 32 := addr >>> (c.offsetBits + c.indexBits)
  let base := index.toNat * c.assoc.toNat
  match cacheLookup c.lines base tag 0 c.assoc.toNat with
  | some w =>
    let line := { c.lines (base + w) with used := c.tick }
    { c with lines := Function.update c.lines (base + w) line, hits := c.hits + 1 }
  | none =>
    let victim := cacheVictim c.lines base 0 0 c.assoc.toNat
    { c with
      lines := Function.update c.lines (base + victim) ⟨true, tag, c.tick⟩
      misses := c.misses + 1 }

end Quanta
