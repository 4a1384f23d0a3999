import FpgaEthash.Host.HashimotoSpec

/-!
# The search function of the kernel

`search` of `kernel_func.cpp`, over any functions in the place of `SHA3_512` and
`SHA3_256`.  Its loops are those of `krnl_ethash_func`, on a buffer of the same three nodes,
and are taken from `Host.Hashimoto`.  It differs in three things: the size of the DAG is a
constant, the nodes are always in an array, and the nonce is put into the buffer.  The
nonce is an `unsigned int` that is assigned to a double word, so its upper half is zero.

With the nonce in the buffer nothing that the buffer held before is read, and the function
is hashimoto (`search_eq_hashimoto`).  The number of pages is a constant below `2 ^ 31`, and
both nodes of every page are below the number of nodes, so all 128 reads are in the array.
-/

namespace FpgaEthash
namespace Kernel

open LittleEndian Checked Host

/-! ## The function -/

/-- `DAG_SIZE`. -/
def dagSize : ℕ := 1073739904

/-- `double_words[4] = x`. -/
def setDoubleWord4 (node : HashNode) (x : BitVec 64) : HashNode :=
  (node.set 8 (x.setWidth 32)).set 9 ((x >>> 32).setWidth 32)

section

variable (H512 : List (BitVec 8) → Vector (BitVec 8) 64)
  (H256 : List (BitVec 8) → Vector (BitVec 8) 32)

/-- `s_mix[0]` after the first hash. -/
def searchSeed (sMix : Vector HashNode 3) (headerHash : Vector (BitVec 8) 32)
    (nonce : BitVec 32) : HashNode :=
  let node := setDoubleWord4 (copyHeader (sMix.get 0) headerHash) (nonce.setWidth 64)
  nodeOfBytes (H512 ((wordsBytes node.toList).take 40))

/-- `search`, from the content `sMix` of its buffer: the bytes at `ret_mix` and at `ret_hash`
afterwards. -/
def search (sMix : Vector HashNode 3) (fullNodes : Array HashNode)
    (headerHash : Vector (BitVec 8) 32) (nonce : BitVec 32) :
    Except Fault (Vector (BitVec 8) 32 × Vector (BitVec 8) 32) := do
  let seed := searchSeed H512 sMix headerHash nonce
  let fullSize : BitVec 32 := BitVec.ofNat 32 dagSize
  let numFullPages : BitVec 32 := fullSize / 128
  let mix ← accesses (fun k => load fullNodes k.toNat) numFullPages seed
  let mix := compress mix
  let retMix : Vector (BitVec 8) 32 :=
    Vector.ofFn fun i : Fin 32 => byte (mix.get ⟨i / 4, wordIndex_lt i⟩) (i % 4)
  let retHash := H256 (wordsBytes seed.toList ++ retMix.toList)
  return (retMix, retHash)

end

/-! ## The seed -/

theorem leftNonce_setDoubleWord4 (node : HashNode) (x : BitVec 64) :
    leftNonce (setDoubleWord4 node x) = x := by
  have hlow : (setDoubleWord4 node x)[8] = x.setWidth 32 := by
    rw [setDoubleWord4, Vector.getElem_set_ne _ _ (by decide), Vector.getElem_set_self]
  have hhigh : (setDoubleWord4 node x)[9] = (x >>> 32).setWidth 32 := by
    rw [setDoubleWord4, Vector.getElem_set_self]
  show (setDoubleWord4 node x)[9] ++ (setDoubleWord4 node x)[8] = x
  rw [hlow, hhigh]
  ext i hi
  rw [← BitVec.getLsbD_eq_getElem, ← BitVec.getLsbD_eq_getElem, BitVec.getLsbD_append,
    BitVec.getLsbD_setWidth, BitVec.getLsbD_setWidth, BitVec.getLsbD_ushiftRight]
  by_cases hhalf : i < 32
  · simp [hhalf]
  · simp [hhalf, show i - 32 < 32 by omega, show 32 + (i - 32) = i by omega]

/-- **The forty bytes** are the header and the nonce. -/
theorem searchSeed_eq (H512 : List (BitVec 8) → Vector (BitVec 8) 64) (sMix : Vector HashNode 3)
    (headerHash : Vector (BitVec 8) 32) (nonce : BitVec 32) :
    searchSeed H512 sMix headerHash nonce =
      Ethash.seed H512 headerHash (nonce.setWidth 64) := by
  rw [searchSeed, take_wordsBytes, leftNonce_setDoubleWord4]
  · rfl
  · intro i hi
    rw [setDoubleWord4, Vector.getElem_set_ne _ _ (by omega), Vector.getElem_set_ne _ _ (by omega),
      copyHeader, Vector.getElem_ofFn, dif_pos hi]

/-! ## The function is hashimoto -/

/-- On an array of as many nodes as the DAG has. -/
theorem search_eq_arrayHashimoto (H512 : List (BitVec 8) → Vector (BitVec 8) 64)
    (H256 : List (BitVec 8) → Vector (BitVec 8) 32) {dag : Array HashNode}
    (hsize : dag.size = dagSize / 64) (sMix : Vector HashNode 3)
    (headerHash : Vector (BitVec 8) 32) (nonce : BitVec 32) :
    search H512 H256 sMix dag headerHash nonce =
      .ok ((arrayHashimoto H512 H256 dag headerHash (nonce.setWidth 64)).mixHash,
        (arrayHashimoto H512 H256 dag headerHash (nonce.setWidth 64)).result) := by
  have hpages : (BitVec.ofNat 32 dagSize / 128 : BitVec 32).toNat = dagSize / 128 := by decide
  have hnodes : 2 * (BitVec.ofNat 32 dagSize / 128 : BitVec 32).toNat = dag.size := by
    rw [hpages, hsize]
    decide
  rw [search]
  dsimp only
  rw [accesses_load (by decide) (by rw [hpages]; decide) (Nat.le_of_eq hnodes), ok_bind, hnodes,
    ofFn_compress, wordsBytes_toList, searchSeed_eq]
  rfl

/-- **`search` is hashimoto.**  For all hash functions, every array of as many nodes as the
DAG has, every header and every nonce of 32 bits, and whatever the buffer held: all reads
are in the array, and what is returned are the mix hash and the result for the header and
the nonce with zeros above it. -/
theorem search_eq_hashimoto (H512 : List (BitVec 8) → Vector (BitVec 8) 64)
    (H256 : List (BitVec 8) → Vector (BitVec 8) 32) (sMix : Vector HashNode 3)
    (fullNodes : Vector HashNode (dagSize / 64)) (headerHash : Vector (BitVec 8) 32)
    (nonce : BitVec 32) :
    search H512 H256 sMix fullNodes.toArray headerHash nonce =
      .ok ((arrayHashimoto H512 H256 fullNodes.toArray headerHash (nonce.setWidth 64)).mixHash,
        (arrayHashimoto H512 H256 fullNodes.toArray headerHash (nonce.setWidth 64)).result) :=
  search_eq_arrayHashimoto H512 H256 fullNodes.size_toArray sMix headerHash nonce

end Kernel
end FpgaEthash
