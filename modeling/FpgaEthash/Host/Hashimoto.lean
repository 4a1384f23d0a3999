import FpgaEthash.Host.Dag

/-!
# The search function of the host

`krnl_ethash_func` of `fpga_ethash.cpp`, over any functions `H512` and `H256` in the place of
`kec_HashBuffer`.  A node of the DAG is read from `full_nodes`, or, if that is `NULL`, computed
by `compute_dag_item`.

The nodes that the function asks for have the indices `2 * index` and `2 * index + 1` for an
`index` below the number of pages.  For a size below `2 ^ 38` they do not overflow, and lie
below the number of nodes (`toNat_nodeIndex`).  So on an array that `compute_full_dag` has
filled both ways give the same node, for all 64 accesses whatever the words of the mix.
-/

namespace FpgaEthash
namespace Host

open LittleEndian Checked

/-! ## The function -/

/-- `return_value_t`. -/
structure ReturnValue where
  result : Vector (BitVec 8) 32
  mixHash : Vector (BitVec 8) 32
  success : Bool

/-- The words of the mix, `mix->words[0]` to `mix->words[31]`: those of `s_mix[1]` and
`s_mix[2]`. -/
abbrev Mix := Vector (BitVec 32) 32

/-- `memcpy(s_mix[0].bytes, &header_hash, 32)`. -/
def copyHeader (node : HashNode) (headerHash : Vector (BitVec 8) 32) : HashNode :=
  Vector.ofFn fun i : Fin 16 =>
    if h : i.val < 8 then
      LittleEndian.ofBytes 32 (List.ofFn fun k : Fin 4 => headerHash.get ⟨4 * i + k, by omega⟩)
    else node.get i

/-- The loop over the words of node `n` of the mix. -/
def mixNode (mix : Mix) (n : Fin 2) (node : HashNode) : Mix :=
  Vector.ofFn fun j : Fin 32 =>
    if j.val / 16 = n then fnvHash (mix.get j) (node.get ⟨j % 16, by omega⟩) else mix.get j

/-- The loop over the two nodes of page `index`, which `dagNode` gives. -/
def mixPage (dagNode : BitVec 32 → Except Fault HashNode) (index : BitVec 32) (mix : Mix) :
    Except Fault Mix :=
  (List.finRange 2).foldlM (fun mix (n : Fin 2) => do
    let node ← dagNode (2 * index + BitVec.ofNat 32 n)
    return mixNode mix n node) mix

/-- One access. -/
def access (dagNode : BitVec 32 → Except Fault HashNode) (numFullPages : BitVec 32)
    (seed : HashNode) (mix : Mix) (i : Fin 64) : Except Fault Mix := do
  let index ← umod (fnvHash (firstWord seed ^^^ BitVec.ofNat 32 i) (mix.get ⟨i % 32, by omega⟩))
    numFullPages
  mixPage dagNode index mix

/-- The mix that the seed is copied to, and the 64 accesses. -/
def accesses (dagNode : BitVec 32 → Except Fault HashNode) (numFullPages : BitVec 32)
    (seed : HashNode) : Except Fault Mix :=
  (List.finRange 64).foldlM (access dagNode numFullPages seed)
    (Vector.ofFn fun w : Fin 32 => seed.get ⟨w % 16, by omega⟩)

/-- The compression, which writes word `w` of the result over word `w` of the mix. -/
def compress (mix : Mix) : Mix :=
  (List.finRange 8).foldl (fun mix (w : Fin 8) =>
    let reduction := mix.get ⟨4 * w, by omega⟩
    let reduction := fnvHash reduction (mix.get ⟨4 * w + 1, by omega⟩)
    let reduction := fnvHash reduction (mix.get ⟨4 * w + 2, by omega⟩)
    let reduction := fnvHash reduction (mix.get ⟨4 * w + 3, by omega⟩)
    mix.set w reduction) mix

section

variable (H512 : List (BitVec 8) → Vector (BitVec 8) 64)
  (H256 : List (BitVec 8) → Vector (BitVec 8) 32)

/-- A node of the DAG: from the array, or computed. -/
def dagNode (fullNodes : Option (Array HashNode)) (light : Light) (k : BitVec 32) :
    Except Fault HashNode :=
  match fullNodes with
  | some nodes => load nodes k.toNat
  | none => computeDagItem H512 k light

/-- `s_mix[0]` after the first hash.  The line that would pack the nonce is a comment in the
source: the last eight of the forty bytes are those that the buffer has. -/
def seedNode (sMix : Vector HashNode 3) (headerHash : Vector (BitVec 8) 32) : HashNode :=
  nodeOfBytes (H512 ((wordsBytes (copyHeader sMix[0] headerHash).toList).take 40))

/-- The end of the function, from the compression on: what is at `ret` afterwards. -/
def writeResult (seed : HashNode) (mix : Mix) (ret : ReturnValue) : ReturnValue :=
  let mix := compress mix
  let mixHash : Vector (BitVec 8) 32 :=
    Vector.ofFn fun i : Fin 32 => byte (mix.get ⟨i / 4, by omega⟩) (i % 4)
  { ret with
    mixHash
    result := H256 (wordsBytes seed.toList ++ mixHash.toList) }

/-- `krnl_ethash_func`, from the content `sMix` of its buffer: what is at `ret` afterwards. -/
def krnlEthashFunc (sMix : Vector HashNode 3) (ret : ReturnValue)
    (fullNodes : Option (Array HashNode)) (light : Light) (fullSize : BitVec 64)
    (headerHash : Vector (BitVec 8) 32) (_nonce : BitVec 64) : Except Fault ReturnValue :=
  if fullSize % 32 ≠ 0 then return ret
  else do
    let seed := seedNode H512 sMix headerHash
    let numFullPages : BitVec 32 := (fullSize / 128).setWidth 32
    let mix ← accesses (dagNode H512 fullNodes light) numFullPages seed
    return writeResult H256 seed mix ret

end

/-! ## The nodes that are asked for -/

variable {H512 : List (BitVec 8) → Vector (BitVec 8) 64}

/-- Page `index` has the nodes `2 * index` and `2 * index + 1`, and no sum overflows. -/
theorem toNat_nodeIndex {pages : ℕ} (hpages : pages < 2 ^ 31) {index : BitVec 32}
    (hindex : index.toNat < pages) (n : Fin 2) :
    (2 * index + BitVec.ofNat 32 n).toNat = 2 * index.toNat + n := by
  rw [BitVec.toNat_add, BitVec.toNat_mul, BitVec.toNat_ofNat]
  show (2 * index.toNat % 2 ^ 32 + n.val % 2 ^ 32) % 2 ^ 32 = 2 * index.toNat + n
  omega

/-- On a filled array the two ways to a node agree. -/
theorem dagNode_filled {light : Light} {full : Array HashNode} {size : ℕ}
    (hfull : Filled H512 light size full) (hsize : size ≤ full.size) {k : BitVec 32}
    (hk : k.toNat < size) : dagNode H512 (some full) light k = dagNode H512 none light k := by
  have hitem := hfull k.toNat (by omega) hk
  rw [BitVec.ofNat_toNat, BitVec.setWidth_eq] at hitem
  rw [dagNode, dagNode, hitem, load_of_lt (by omega)]

section Accesses

variable {light : Light} {pages : BitVec 32}

/-- A page that there is can be read from the array as well as from the cache. -/
theorem mixPage_filled (hlt : pages.toNat < 2 ^ 31) {full : Array HashNode}
    (hfull : Filled H512 light (2 * pages.toNat) full) (hsize : 2 * pages.toNat ≤ full.size)
    {index : BitVec 32} (hindex : index.toNat < pages.toNat) (mix : Mix) :
    mixPage (dagNode H512 (some full) light) index mix =
      mixPage (dagNode H512 none light) index mix := by
  refine foldlM_congr (fun mix n => ?_) _ mix
  have hk := toNat_nodeIndex hlt hindex n
  rw [dagNode_filled hfull hsize (by omega)]

/-- **One access.** -/
theorem access_filled (hpages : pages ≠ 0) (hlt : pages.toNat < 2 ^ 31) {full : Array HashNode}
    (hfull : Filled H512 light (2 * pages.toNat) full) (hsize : 2 * pages.toNat ≤ full.size)
    (seed : HashNode) (mix : Mix) (i : Fin 64) :
    access (dagNode H512 (some full) light) pages seed mix i =
      access (dagNode H512 none light) pages seed mix i := by
  rw [access, access, umod_of_ne_zero _ hpages, ok_bind, ok_bind]
  exact mixPage_filled hlt hfull hsize (toNat_mod_lt _ hpages) mix

theorem exists_mixPage (h : light.Whole) (index : BitVec 32) (mix : Mix) :
    ∃ mix', mixPage (dagNode H512 none light) index mix = .ok mix' := by
  refine exists_foldlM_ok (fun mix n => ?_) _ mix
  obtain ⟨node, hnode⟩ := exists_computeDagItem H512 h.readable (2 * index + BitVec.ofNat 32 n)
  exact ⟨mixNode mix n node, by rw [dagNode, hnode, ok_bind]; rfl⟩

theorem exists_access (h : light.Whole) (hpages : pages ≠ 0) (seed : HashNode) (mix : Mix)
    (i : Fin 64) : ∃ mix', access (dagNode H512 none light) pages seed mix i = .ok mix' := by
  rw [access, umod_of_ne_zero _ hpages, ok_bind]
  exact exists_mixPage h _ mix

/-- **All accesses.**  They are the same on the array and without it, and come back. -/
theorem accesses_filled (h : light.Whole) (hpages : pages ≠ 0) (hlt : pages.toNat < 2 ^ 31)
    {full : Array HashNode} (hfull : Filled H512 light (2 * pages.toNat) full)
    (hsize : 2 * pages.toNat ≤ full.size) (seed : HashNode) :
    ∃ mix, accesses (dagNode H512 (some full) light) pages seed = .ok mix ∧
      accesses (dagNode H512 none light) pages seed = .ok mix := by
  obtain ⟨mix, hmix⟩ := exists_foldlM_ok
    (fun mix i => exists_access h hpages seed mix i) (List.finRange 64)
    (Vector.ofFn fun w : Fin 32 => seed.get ⟨w % 16, by omega⟩)
  refine ⟨mix, ?_, hmix⟩
  rw [accesses, foldlM_congr (access_filled hpages hlt hfull hsize seed)]
  exact hmix

end Accesses

/-! ## The two ways agree -/

section

variable (H512 : List (BitVec 8) → Vector (BitVec 8) 64)
  (H256 : List (BitVec 8) → Vector (BitVec 8) 32)

/-- The number of pages of a DAG. -/
theorem toNat_numFullPages {fullSize : BitVec 64} (hlt : fullSize.toNat < 2 ^ 38) :
    ((fullSize / 128).setWidth 32 : BitVec 32).toNat = fullSize.toNat / 128 := by
  rw [BitVec.toNat_setWidth, BitVec.toNat_udiv]
  exact Nat.mod_eq_of_lt (show fullSize.toNat / 128 < 2 ^ 32 by omega)

theorem numFullPages_ne_zero {fullSize : BitVec 64} (hpos : 0 < fullSize.toNat)
    (hlt : fullSize.toNat < 2 ^ 38) (hmod : fullSize.toNat % 128 = 0) :
    ((fullSize / 128).setWidth 32 : BitVec 32) ≠ 0 := by
  intro h0
  have hpages := toNat_numFullPages hlt
  rw [h0] at hpages
  have hzero : 0 = fullSize.toNat / 128 := hpages
  omega

/-- What the function returns, once its accesses are known. -/
theorem krnlEthashFunc_of_accesses {fullSize : BitVec 64} (hmod : fullSize.toNat % 32 = 0)
    {sMix : Vector HashNode 3} {fullNodes : Option (Array HashNode)} {light : Light}
    {headerHash : Vector (BitVec 8) 32} {mix : Mix}
    (hmix : accesses (dagNode H512 fullNodes light) ((fullSize / 128).setWidth 32)
      (seedNode H512 sMix headerHash) = .ok mix) (ret : ReturnValue) (nonce : BitVec 64) :
    krnlEthashFunc H512 H256 sMix ret fullNodes light fullSize headerHash nonce =
      .ok (writeResult H256 (seedNode H512 sMix headerHash) mix ret) := by
  have hguard : ¬ fullSize % 32 ≠ 0 := not_not_intro (BitVec.toNat_inj.mp hmod)
  rw [krnlEthashFunc, if_neg hguard]
  dsimp only
  rw [hmix]
  rfl

/-- On a filled array the function returns what it returns without an array. -/
theorem krnlEthashFunc_filled {light : Light} (hlight : light.Whole) {fullSize : BitVec 64}
    (hpos : 0 < fullSize.toNat) (hlt : fullSize.toNat < 2 ^ 38) (hmod : fullSize.toNat % 128 = 0)
    {full : Array HashNode} (hsize : full.size = fullSize.toNat / 64)
    (hfilled : Filled H512 light (fullSize.toNat / 64) full) (sMix : Vector HashNode 3)
    (ret : ReturnValue) (headerHash : Vector (BitVec 8) 32) (nonce : BitVec 64) :
    ∃ r, krnlEthashFunc H512 H256 sMix ret (some full) light fullSize headerHash nonce = .ok r ∧
      krnlEthashFunc H512 H256 sMix ret none light fullSize headerHash nonce = .ok r := by
  have hpagesNat := toNat_numFullPages hlt
  have hnodes : fullSize.toNat / 64 =
      2 * ((fullSize / 128).setWidth 32 : BitVec 32).toNat := by omega
  rw [hnodes] at hfilled
  obtain ⟨mix, hfullMix, hlightMix⟩ := accesses_filled hlight
    (numFullPages_ne_zero hpos hlt hmod) (by omega) hfilled (by omega)
    (seedNode H512 sMix headerHash)
  exact ⟨writeResult H256 (seedNode H512 sMix headerHash) mix ret,
    krnlEthashFunc_of_accesses H512 H256 (by omega) hfullMix ret nonce,
    krnlEthashFunc_of_accesses H512 H256 (by omega) hlightMix ret nonce⟩

/-- **Full and light.**  On the array that `compute_full_dag` fills, the function returns what
it returns without an array. -/
theorem krnlEthashFunc_full_eq_light {light : Light} (hlight : light.Whole)
    {fullSize : BitVec 64} (hpos : 0 < fullSize.toNat) (hlt : fullSize.toNat < 2 ^ 38)
    (hmod : fullSize.toNat % 128 = 0) {mem : Array HashNode}
    (hmem : mem.size = fullSize.toNat / 64) (sMix : Vector HashNode 3) (ret : ReturnValue)
    (headerHash : Vector (BitVec 8) 32) (nonce : BitVec 64) :
    ∃ full r, computeFullDag H512 mem fullSize light none = .ok (true, full) ∧
      krnlEthashFunc H512 H256 sMix ret (some full) light fullSize headerHash nonce = .ok r ∧
      krnlEthashFunc H512 H256 sMix ret none light fullSize headerHash nonce = .ok r := by
  obtain ⟨full, hfull, hsize, hfilled⟩ := computeFullDag_spec H512 hlight.readable hlt hmod hmem
  obtain ⟨r, hwith, hwithout⟩ := krnlEthashFunc_filled H512 H256 hlight hpos hlt hmod
    (hsize.trans hmem) hfilled sMix ret headerHash nonce
  exact ⟨full, r, hfull, hwith, hwithout⟩

/-- A cache of two nodes, a DAG of two pages. -/
theorem krnlEthashFunc_full_eq_light_twoPages :
    let H512 : List (BitVec 8) → Vector (BitVec 8) 64 := fun m =>
      Vector.replicate 64 (m.getD 0 0 + 1)
    let H256 : List (BitVec 8) → Vector (BitVec 8) 32 := fun m => Vector.replicate 32 (m.getD 64 0)
    let light : Light := ⟨#[Vector.replicate 16 1, Vector.replicate 16 2], 128⟩
    let sMix : Vector HashNode 3 := Vector.replicate 3 (Vector.replicate 16 0)
    let ret : ReturnValue := ⟨Vector.replicate 32 0, Vector.replicate 32 0, false⟩
    ∃ full r, computeFullDag H512 (Array.replicate 4 (Vector.replicate 16 0)) 256 light none =
        .ok (true, full) ∧
      krnlEthashFunc H512 H256 sMix ret (some full) light 256 (Vector.replicate 32 5) 0 = .ok r ∧
      krnlEthashFunc H512 H256 sMix ret none light 256 (Vector.replicate 32 5) 0 = .ok r :=
  krnlEthashFunc_full_eq_light _ _ ⟨rfl, by decide, by decide⟩ (by decide) (by decide)
    (by decide) rfl _ _ _ _

end

end Host
end FpgaEthash
