import FpgaEthash.Arithmetic.LittleEndian
import FpgaEthash.Computation.Checked
import Mathlib.Algebra.Group.Nat.Defs

/-!
# The nodes of the DAG

`compute_dag_item` and `compute_full_dag` of `fpga_ethash.cpp`, over any function `H512` in
the place of `kec_HashBuffer` with 512 bits.

`compute_dag_item` divides by the number of nodes of the cache and reads the cache at the
remainders.  For a cache of whole nodes (`Light.Whole`) both are in order (`Light.Readable`),
and the item is there for each index (`exists_computeDagItem`).  `compute_full_dag` then
writes item `n` to node `n`, one after the other (`fillFrom_spec`).
-/

namespace FpgaEthash
namespace Host

open LittleEndian Checked

/-! ## Words and nodes -/

/-- `fnv_hash`, with `FNV_PRIME`. -/
def fnvHash (x y : BitVec 32) : BitVec 32 := x * 0x01000193 ^^^ y

/-- `hash_node`, by its `words`. -/
abbrev HashNode := Vector (BitVec 32) 16

/-- `words[0]`. -/
def firstWord (node : HashNode) : BitVec 32 := node[0]

/-- The bytes that words have in memory. -/
def wordsBytes (ws : List (BitVec 32)) : List (BitVec 8) :=
  ws.flatMap fun x => (List.range 4).map (byte x)

/-- The node with the given `bytes`. -/
def nodeOfBytes (b : Vector (BitVec 8) 64) : HashNode :=
  Vector.ofFn fun i : Fin 16 =>
    LittleEndian.ofBytes 32 (List.ofFn fun k : Fin 4 => b.get ⟨4 * i + k, by omega⟩)

/-- `light`: the cache, and its size in bytes. -/
structure Light where
  cache : Array HashNode
  cacheSize : BitVec 64

section

variable (H512 : List (BitVec 8) → Vector (BitVec 8) 64)

/-- `kec_HashBuffer(512, ret->bytes, sizeof(hash_node), ret->bytes, 64)`. -/
def hashInPlace (ret : HashNode) : HashNode := nodeOfBytes (H512 (wordsBytes ret.toList))

/-! ## One item -/

/-- `num_parent_nodes`. -/
def Light.numParentNodes (light : Light) : BitVec 32 := (light.cacheSize / 64).setWidth 32

/-- A node of the cache, at the remainder of `x`. -/
def Light.cacheNode (light : Light) (x : BitVec 32) : Except Fault HashNode := do
  let i ← umod x light.numParentNodes
  load light.cache i.toNat

/-- One turn of the loop over the parents. -/
def mixParent (light : Light) (nodeIndex : BitVec 32) (ret : HashNode) (i : Fin 256) :
    Except Fault HashNode := do
  let parent ← light.cacheNode
    (fnvHash (nodeIndex ^^^ BitVec.ofNat 32 i) (ret.get ⟨i % 16, by omega⟩))
  return Vector.zipWith fnvHash ret parent

/-- `compute_dag_item`: what is at `ret` afterwards. -/
def computeDagItem (nodeIndex : BitVec 32) (light : Light) : Except Fault HashNode := do
  let ret ← light.cacheNode nodeIndex
  let ret := hashInPlace H512 (ret.set 0 (firstWord ret ^^^ nodeIndex))
  let ret ← (List.finRange 256).foldlM (mixParent light nodeIndex) ret
  return hashInPlace H512 ret

/-! ## All items -/

/-- Whether turn `n` of the loop ends it: `callback n` says if the call that this turn makes
returns nonzero.  Its argument, a percentage, is not modelled. -/
def stopped (callback : Option (ℕ → Bool)) (maxN : BitVec 32) (n : ℕ) : Except Fault Bool :=
  match callback with
  | none => return false
  | some answer => do
      let r ← umod (BitVec.ofNat 32 n) (maxN / 100)
      return r = 0 ∧ answer n

/-- The loop of `compute_full_dag` from turn `n` on, with `remaining` turns to go: the value
returned, and what is at `mem` afterwards. -/
def fillFrom (light : Light) (callback : Option (ℕ → Bool)) (maxN : BitVec 32) :
    ℕ → ℕ → Array HashNode → Except Fault (Bool × Array HashNode)
  | 0, _, mem => return (true, mem)
  | remaining + 1, n, mem => do
      if ← stopped callback maxN n then return (false, mem)
      let item ← computeDagItem H512 (BitVec.ofNat 32 n) light
      let mem ← store mem n item
      fillFrom light callback maxN remaining (n + 1) mem

/-- `compute_full_dag`. -/
def computeFullDag (mem : Array HashNode) (fullSize : BitVec 64) (light : Light)
    (callback : Option (ℕ → Bool)) : Except Fault (Bool × Array HashNode) :=
  if fullSize % 128 ≠ 0 ∨ fullSize % 64 ≠ 0 then return (false, mem)
  else
    let maxN : BitVec 32 := (fullSize / 64).setWidth 32
    fillFrom H512 light callback maxN maxN.toNat 0 mem

end

/-! ## A cache of whole nodes -/

/-- The cache has whole nodes, at least one and fewer than `2 ^ 32`. -/
structure Light.Whole (light : Light) : Prop where
  cacheSize_eq : light.cacheSize.toNat = 64 * light.cache.size
  nonempty : 0 < light.cache.size
  lt : light.cache.size < 2 ^ 32

variable {light : Light}

theorem toNat_numParentNodes (h : light.Whole) :
    light.numParentNodes.toNat = light.cache.size := by
  have hsize := h.cacheSize_eq
  have hlt := h.lt
  rw [Light.numParentNodes, BitVec.toNat_setWidth, BitVec.toNat_udiv, hsize]
  show 64 * light.cache.size / 64 % 2 ^ 32 = light.cache.size
  omega

/-- What the remainders need: a divisor, and that many nodes. -/
structure Light.Readable (light : Light) : Prop where
  ne_zero : light.numParentNodes ≠ 0
  le_size : light.numParentNodes.toNat ≤ light.cache.size

theorem Light.Whole.readable (h : light.Whole) : light.Readable where
  ne_zero h0 := by
    have hzero := toNat_numParentNodes h
    rw [h0] at hzero
    exact Nat.ne_of_lt h.nonempty hzero
  le_size := Nat.le_of_eq (toNat_numParentNodes h)

/-- A cache with the nodes that its size counts, and at least one. -/
structure Light.Backed (light : Light) : Prop where
  size_eq : light.cache.size = light.cacheSize.toNat / 64
  nonempty : 0 < light.cache.size

theorem Light.Backed.readable (h : light.Backed) (hne : light.numParentNodes ≠ 0) :
    light.Readable where
  ne_zero := hne
  le_size := by
    rw [h.size_eq, Light.numParentNodes, BitVec.toNat_setWidth, BitVec.toNat_udiv]
    exact Nat.mod_le _ _

/-- Without a divisor no node is read. -/
theorem cacheNode_of_eq_zero (h : light.numParentNodes = 0) (x : BitVec 32) :
    light.cacheNode x = .error .divisionByZero := by
  rw [Light.cacheNode, umod, if_pos h]
  rfl

/-- Remainders are inside the cache. -/
theorem exists_cacheNode (h : light.Readable) (x : BitVec 32) :
    ∃ node, light.cacheNode x = .ok node := by
  have hlt : (x % light.numParentNodes).toNat < light.cache.size :=
    Nat.lt_of_lt_of_le (toNat_mod_lt x h.ne_zero) h.le_size
  exact ⟨_, by rw [Light.cacheNode, umod_of_ne_zero x h.ne_zero, ok_bind, load_of_lt hlt]⟩

variable (H512 : List (BitVec 8) → Vector (BitVec 8) 64)

/-- What `compute_dag_item` does to the node that it copied from the cache. -/
def itemFrom (light : Light) (nodeIndex : BitVec 32) (ret : HashNode) : Except Fault HashNode := do
  let ret := hashInPlace H512 (ret.set 0 (firstWord ret ^^^ nodeIndex))
  let ret ← (List.finRange 256).foldlM (mixParent light nodeIndex) ret
  return hashInPlace H512 ret

theorem computeDagItem_eq (nodeIndex : BitVec 32) :
    computeDagItem H512 nodeIndex light =
      light.cacheNode nodeIndex >>= itemFrom H512 light nodeIndex := rfl

/-- The loop over the parents comes back, and its last node is hashed. -/
theorem exists_itemFrom_eq_hashInPlace (h : light.Readable) (nodeIndex : BitVec 32)
    (ret : HashNode) :
    ∃ mixed, itemFrom H512 light nodeIndex ret = .ok (hashInPlace H512 mixed) := by
  have hstep : ∀ ret i, ∃ ret', mixParent light nodeIndex ret i = .ok ret' := by
    intro ret i
    obtain ⟨parent, hparent⟩ := exists_cacheNode h
      (fnvHash (nodeIndex ^^^ BitVec.ofNat 32 i) (ret.get ⟨i % 16, by omega⟩))
    exact ⟨_, by rw [mixParent, hparent, ok_bind]; rfl⟩
  obtain ⟨mixed, hmixed⟩ := exists_foldlM_ok hstep (List.finRange 256)
    (hashInPlace H512 (ret.set 0 (firstWord ret ^^^ nodeIndex)))
  refine ⟨mixed, ?_⟩
  rw [itemFrom, hmixed, ok_bind]
  rfl

theorem exists_itemFrom (h : light.Readable) (nodeIndex : BitVec 32) (ret : HashNode) :
    ∃ item, itemFrom H512 light nodeIndex ret = .ok item := by
  obtain ⟨mixed, hmixed⟩ := exists_itemFrom_eq_hashInPlace H512 h nodeIndex ret
  exact ⟨_, hmixed⟩

/-- **Every index has its item.** -/
theorem exists_computeDagItem (h : light.Readable) (nodeIndex : BitVec 32) :
    ∃ item, computeDagItem H512 nodeIndex light = .ok item := by
  obtain ⟨init, hinit⟩ := exists_cacheNode h nodeIndex
  obtain ⟨item, hitem⟩ := exists_itemFrom H512 h nodeIndex init
  exact ⟨item, by rw [computeDagItem_eq, hinit, ok_bind, hitem]⟩

/-- The nodes below `n` are the items of their indices. -/
def Filled (light : Light) (n : ℕ) (mem : Array HashNode) : Prop :=
  ∀ k (hk : k < mem.size), k < n → computeDagItem H512 (BitVec.ofNat 32 k) light = .ok mem[k]

variable {H512}

/-- One turn of the loop fills one node more. -/
theorem filled_set {n : ℕ} {mem : Array HashNode} {item : HashNode} (hn : n < mem.size)
    (hitem : computeDagItem H512 (BitVec.ofNat 32 n) light = .ok item)
    (hmem : Filled H512 light n mem) : Filled H512 light (n + 1) (mem.set n item) := by
  intro k hk hkn
  rw [Array.size_set] at hk
  rw [Array.getElem_set]
  by_cases hkeq : n = k
  · rw [if_pos hkeq, ← hkeq, hitem]
  · rw [if_neg hkeq]
    exact hmem k hk (by omega)

/-- **The loop fills the array**, when nobody can stop it. -/
theorem fillFrom_spec (h : light.Readable) (maxN : BitVec 32) {remaining n : ℕ}
    {mem : Array HashNode} (hroom : n + remaining ≤ mem.size) (hmem : Filled H512 light n mem) :
    ∃ full, fillFrom H512 light none maxN remaining n mem = .ok (true, full) ∧
      full.size = mem.size ∧ Filled H512 light (n + remaining) full := by
  induction remaining generalizing n mem with
  | zero => exact ⟨mem, rfl, rfl, hmem⟩
  | succ remaining ih =>
    obtain ⟨item, hitem⟩ := exists_computeDagItem H512 h (BitVec.ofNat 32 n)
    have hn : n < mem.size := by omega
    obtain ⟨full, hfull, hsize, hfilled⟩ := ih (n := n + 1)
      (by rw [Array.size_set]; omega) (filled_set hn hitem hmem)
    refine ⟨full, ?_, by rw [hsize, Array.size_set], ?_⟩
    · rw [fillFrom, stopped]
      show (do
        let item ← computeDagItem H512 (BitVec.ofNat 32 n) light
        let mem ← store mem n item
        fillFrom H512 light none maxN remaining (n + 1) mem) = _
      rw [hitem, ok_bind, store_of_lt hn, ok_bind, hfull]
    · rwa [show n + (remaining + 1) = n + 1 + remaining by omega]

/-- Whole pages are whole nodes. -/
theorem mod_fullSize {fullSize : BitVec 64} (hmod : fullSize.toNat % 128 = 0) :
    ¬ (fullSize % 128 ≠ 0 ∨ fullSize % 64 ≠ 0) := by
  have h128 : fullSize % 128 = 0 := BitVec.toNat_inj.mp hmod
  have h64 : fullSize % 64 = 0 :=
    BitVec.toNat_inj.mp (show fullSize.toNat % 64 = 0 by omega)
  exact fun hor => hor.elim (absurd h128) (absurd h64)

/-- The nodes are counted in 32 bits, which is enough below `2 ^ 38`. -/
theorem toNat_maxN {fullSize : BitVec 64} (hlt : fullSize.toNat < 2 ^ 38) :
    ((fullSize / 64).setWidth 32 : BitVec 32).toNat = fullSize.toNat / 64 := by
  rw [BitVec.toNat_setWidth, BitVec.toNat_udiv]
  exact Nat.mod_eq_of_lt (show fullSize.toNat / 64 < 2 ^ 32 by omega)

variable (H512)

/-- **The whole array.** -/
theorem computeFullDag_spec (h : light.Readable) {fullSize : BitVec 64}
    (hlt : fullSize.toNat < 2 ^ 38) (hmod : fullSize.toNat % 128 = 0) {mem : Array HashNode}
    (hmem : mem.size = fullSize.toNat / 64) :
    ∃ full, computeFullDag H512 mem fullSize light none = .ok (true, full) ∧
      full.size = mem.size ∧ Filled H512 light (fullSize.toNat / 64) full := by
  rw [computeFullDag, if_neg (mod_fullSize hmod)]
  dsimp only
  rw [toNat_maxN hlt]
  have hempty : Filled H512 light 0 mem := fun k _ hk => absurd hk (Nat.not_lt_zero k)
  have hfill := fillFrom_spec h ((fullSize / 64).setWidth 32)
    (show 0 + fullSize.toNat / 64 ≤ mem.size by omega) hempty
  rwa [Nat.zero_add] at hfill

end Host
end FpgaEthash
