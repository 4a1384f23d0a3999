import FpgaEthash.Arithmetic.LittleEndian

/-!
# Hashimoto

The main function of Ethash, as its specification has it: over two hash functions, a
dataset of `n` nodes of 64 bytes, a header and a nonce.  Words are 32 bits and are
serialized with the low byte first.

The seed is the hash of the header and the nonce.  The mix is two copies of it, and takes
in two neighbouring nodes of the dataset in each of 64 accesses; where they are depends on
the seed and on one word of the mix.  The mix is compressed to eight words, four words to
one, and what comes out is hashed together with the seed.

Nothing is overwritten here: each stage is a function of the one before.  Programs
that work in one buffer are compared with this.
-/

namespace FpgaEthash
namespace Ethash

open LittleEndian

/-- FNV, the mixing function, with the prime of Ethash. -/
def fnv (x y : BitVec 32) : BitVec 32 := x * 0x01000193 ^^^ y

/-- A node of the dataset, by its words. -/
abbrev Node := Vector (BitVec 32) 16

/-- The mix: as long as two nodes. -/
abbrev Mix := Vector (BitVec 32) (16 + 16)

theorem byteIndex_lt (i : Fin 16) (k : Fin 4) : 4 * i.val + k.val < 64 := by omega

/-- The node that sixty-four bytes are read as. -/
def nodeOfBytes (b : Vector (BitVec 8) 64) : Node :=
  Vector.ofFn fun i : Fin 16 =>
    ofBytes 32 (List.ofFn fun k : Fin 4 => b.get ⟨4 * i + k, byteIndex_lt i k⟩)

theorem wordIndex_lt {m : ℕ} (i : Fin (4 * m)) : i.val / 4 < m := by omega

/-- The bytes of a vector of words. -/
def serialize {m : ℕ} (v : Vector (BitVec 32) m) : Vector (BitVec 8) (4 * m) :=
  Vector.ofFn fun i : Fin (4 * m) => byte (v.get ⟨i / 4, wordIndex_lt i⟩) (i % 4)

/-- A nonce as eight bytes, the low one first. -/
def nonceBytes (nonce : BitVec 64) : List (BitVec 8) := (List.range 8).map (byte nonce)

/-- What comes out. -/
structure Digest where
  mixHash : Vector (BitVec 8) 32
  result : Vector (BitVec 8) 32

section

variable (H512 : List (BitVec 8) → Vector (BitVec 8) 64)
  (H256 : List (BitVec 8) → Vector (BitVec 8) 32) (lookup : ℕ → Node) (n : ℕ)

/-- The seed. -/
def seed (header : Vector (BitVec 8) 32) (nonce : BitVec 64) : Node :=
  nodeOfBytes (H512 (header.toList ++ nonceBytes nonce))

theorem firstIndex_lt : 0 < 16 := by decide

theorem mixIndex_lt (i : ℕ) : i % 32 < 16 + 16 := by omega

/-- The first of the two nodes of access `i`. -/
def page (s : Node) (mix : Mix) (i : ℕ) : ℕ :=
  (fnv (s.get ⟨0, firstIndex_lt⟩ ^^^ BitVec.ofNat 32 i) (mix.get ⟨i % 32, mixIndex_lt i⟩)).toNat %
    (n / 2) * 2

/-- One access. -/
def mixIn (s : Node) (mix : Mix) (i : ℕ) : Mix :=
  Vector.zipWith fnv mix (lookup (page n s mix i) ++ lookup (page n s mix i + 1))

/-- The 64 accesses. -/
def mixed (s : Node) : Mix := (List.range 64).foldl (mixIn lookup n s) (s ++ s)

theorem quarterIndex_lt (w : Fin 8) (k : Fin 4) : 4 * w.val + k.val < 16 + 16 := by omega

/-- Word `k` of the four that become word `w`. -/
def quarter (mix : Mix) (w : Fin 8) (k : Fin 4) : BitVec 32 :=
  mix.get ⟨4 * w + k, quarterIndex_lt w k⟩

/-- Four words of the mix become one. -/
def compress (mix : Mix) : Vector (BitVec 32) 8 :=
  Vector.ofFn fun w : Fin 8 =>
    fnv (fnv (fnv (quarter mix w 0) (quarter mix w 1)) (quarter mix w 2)) (quarter mix w 3)

/-- The mix hash and the result, from the seed and the compressed mix. -/
def digest (s : Node) (cmix : Vector (BitVec 32) 8) : Digest where
  mixHash := serialize cmix
  result := H256 ((serialize s).toList ++ (serialize cmix).toList)

/-- **Hashimoto**, on a dataset of `n` nodes. -/
def hashimoto (header : Vector (BitVec 8) 32) (nonce : BitVec 64) : Digest :=
  digest H256 (seed H512 header nonce) (compress (mixed lookup n (seed H512 header nonce)))

end

/-! ## The nonce is read -/

theorem nonceBytes_injective : Function.Injective nonceBytes := by
  intro x y hxy
  refine eq_of_byte_eq (m := 8) (by omega) fun k hk => ?_
  have hget := congrArg (fun l => l.getD k 0) hxy
  simpa [nonceBytes, hk] using hget

end Ethash
end FpgaEthash
