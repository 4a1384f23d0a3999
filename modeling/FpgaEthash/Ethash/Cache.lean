import FpgaEthash.Ethash.Hashimoto
import Mathlib.Logic.Function.Iterate

/-!
# The cache

The cache of Ethash, as its specification has it: `n` nodes of 64 bytes, from a seed of 32.

The nodes are first filled with a chain of hashes.  Then three rounds go over them in order,
and node `i` becomes the hash of the node before it, exclusive or a node that its own first
word chooses.  A round works on the nodes as they are by then: those below `i` have been
renewed, the others have not.
-/

namespace FpgaEthash
namespace Ethash

section

variable (H512 : List (BitVec 8) → Vector (BitVec 8) 64) (n : ℕ)

/-- The hash of a node. -/
def hashNode (node : Node) : Node := nodeOfBytes (H512 (serialize node).toList)

/-- The chain: the hash of the seed, and of each node before. -/
def chain (seed : Vector (BitVec 8) 32) : ℕ → Node
  | 0 => nodeOfBytes (H512 seed.toList)
  | i + 1 => hashNode H512 (chain seed i)

/-- The node before node `i`, of `n` in a circle. -/
def predecessor (i : ℕ) : ℕ := if i = 0 then n - 1 else i - 1

/-- The node that node `i` chooses. -/
def chosen (nodes : ℕ → Node) (i : ℕ) : ℕ := ((nodes i).get ⟨0, firstIndex_lt⟩).toNat % n

/-- Node `i` is renewed. -/
def renew (nodes : ℕ → Node) (i : ℕ) : ℕ → Node :=
  Function.update nodes i (hashNode H512
    (Vector.zipWith (· ^^^ ·) (nodes (predecessor n i)) (nodes (chosen n nodes i))))

/-- One round. -/
def cacheRound (nodes : ℕ → Node) : ℕ → Node := (List.range n).foldl (renew H512 n) nodes

/-- The cache. -/
def cache (seed : Vector (BitVec 8) 32) : ℕ → Node := (cacheRound H512 n)^[3] (chain H512 seed)

end

end Ethash
end FpgaEthash
