import FpgaEthash.Ethash.Hashimoto
import FpgaEthash.Host.Hashimoto

/-!
# Hashimoto in one buffer

`krnl_ethash_func` keeps the seed, the mix and the compressed mix in one buffer of three
nodes.  Stage by stage that is the specification of `Ethash.Hashimoto`:

* the forty bytes that are hashed are the header and a nonce (`take_wordsBytes_copyHeader`);
* two nodes mixed in one after the other are a page mixed in at once (`mixNode_mixNode`),
  and the nodes of a page are in the array (`accesses_load`);
* the compression writes words behind the ones that it still has to read
  (`get_writeBehind`).

## Which nonce

The line that would put the nonce into the buffer is a comment.  What is hashed in its
place are the eight bytes that the buffer had before.  So the function is hashimoto of the
header and `leftNonce`, and takes no notice of its argument (`krnlEthashFunc_eq_hashimoto`).
-/

namespace FpgaEthash
namespace Host

open LittleEndian Checked

theorem get_mk {α : Type} {m : ℕ} (v : Vector α m) {i : ℕ} (hi : i < m) : v.get ⟨i, hi⟩ = v[i] :=
  rfl

/-! ## The bytes of words -/

theorem getElem?_wordsBytes (ws : List (BitVec 32)) (i : ℕ) :
    (wordsBytes ws)[i]? = (ws[i / 4]?).map fun x => byte x (i % 4) := by
  induction ws generalizing i with
  | nil => rfl
  | cons x ws ih =>
    have hlen : ((List.range 4).map (byte x)).length = 4 := rfl
    rw [wordsBytes, List.flatMap_cons]
    by_cases hi : i < 4
    · rw [List.getElem?_append_left (by omega), Nat.div_eq_of_lt hi, Nat.mod_eq_of_lt hi]
      simp [hi]
    · rw [List.getElem?_append_right (by omega), hlen]
      have hrest := ih (i - 4)
      rw [wordsBytes] at hrest
      rw [hrest, show i / 4 = (i - 4) / 4 + 1 by omega, show (i - 4) % 4 = i % 4 by omega,
        List.getElem?_cons_succ]

theorem wordsBytes_toList {m : ℕ} (v : Vector (BitVec 32) m) :
    wordsBytes v.toList = (Ethash.serialize v).toList := by
  refine List.ext_getElem? fun i => ?_
  rw [getElem?_wordsBytes, Vector.getElem?_toList, Vector.getElem?_toList, Ethash.serialize]
  by_cases hi : i < 4 * m
  · simp [hi, show i / 4 < m by omega, Vector.get]
  · simp [hi, show ¬ i / 4 < m by omega]

/-! ## The seed -/

theorem lowIndex_lt : 8 < 16 := by decide

theorem highIndex_lt : 9 < 16 := by decide

/-- Words 8 and 9 as the number that they are in memory. -/
def leftNonce (node : HashNode) : BitVec 64 :=
  node.get ⟨9, highIndex_lt⟩ ++ node.get ⟨8, lowIndex_lt⟩

theorem byte_append (hi lo : BitVec 32) (k : ℕ) :
    byte (hi ++ lo) k = if k < 4 then byte lo k else byte hi (k - 4) := by
  ext i hi'
  rw [← BitVec.getLsbD_eq_getElem, ← BitVec.getLsbD_eq_getElem, getLsbD_byte,
    BitVec.getLsbD_append]
  by_cases hk : k < 4
  · rw [if_pos hk, getLsbD_byte, if_pos (by omega)]
  · rw [if_neg hk, getLsbD_byte, if_neg (by omega), show 8 * k + i - 32 = 8 * (k - 4) + i by omega]

/-- **The forty bytes** that are hashed: the header, and eight more. -/
theorem take_wordsBytes {node : HashNode} {header : Vector (BitVec 8) 32}
    (hnode : ∀ i (hi : i < 8), node[i] =
      LittleEndian.ofBytes 32 (List.ofFn fun k : Fin 4 => header.get ⟨4 * i + k, by omega⟩)) :
    (wordsBytes node.toList).take 40 = header.toList ++ Ethash.nonceBytes (leftNonce node) := by
  have hnonce : (Ethash.nonceBytes (leftNonce node)).length = 8 := by
    rw [Ethash.nonceBytes, List.length_map, List.length_range]
  refine List.ext_getElem? fun i => ?_
  rw [List.getElem?_take, getElem?_wordsBytes, Vector.getElem?_toList]
  by_cases hheader : i < 32
  · -- a byte of the header is one of its word
    have hword := hnode (i / 4) (by omega)
    have hbyte := byte_ofBytes (n := 32) (List.ofFn fun k : Fin 4 => header.get
      ⟨4 * (i / 4) + k, by omega⟩) (show 8 * (i % 4) + 8 ≤ 32 by omega)
    rw [if_pos (by omega), List.getElem?_append_left (by rw [Vector.length_toList]; exact hheader),
      Vector.getElem?_toList, Vector.getElem?_eq_getElem (by omega), Option.map_some, hword, hbyte,
      Vector.getElem?_eq_getElem hheader, Option.some_inj,
      List.getD_eq_getElem?_getD, List.getElem?_eq_getElem (by rw [List.length_ofFn]; omega),
      Option.getD_some, List.getElem_ofFn, get_mk]
    simp only [Nat.div_add_mod]
  · by_cases hlast : i < 40
    · rw [if_pos hlast, List.getElem?_append_right (by rw [Vector.length_toList]; omega),
        Vector.length_toList, Ethash.nonceBytes, List.getElem?_map,
        List.getElem?_range (by omega), Option.map_some, leftNonce, byte_append,
        Vector.getElem?_eq_getElem (by omega), Option.map_some, Option.some_inj]
      by_cases hlow : i - 32 < 4
      · rw [if_pos hlow]
        simp only [show i / 4 = 8 by omega, show i % 4 = i - 32 by omega]
        rfl
      · rw [if_neg hlow]
        simp only [show i / 4 = 9 by omega, show i % 4 = i - 32 - 4 by omega]
        rfl
    · rw [if_neg hlast, List.getElem?_eq_none]
      rw [List.length_append, Vector.length_toList, hnonce]
      omega

theorem take_wordsBytes_copyHeader (node : HashNode) (header : Vector (BitVec 8) 32) :
    (wordsBytes (copyHeader node header).toList).take 40 =
      header.toList ++ Ethash.nonceBytes (leftNonce node) := by
  have hleft : leftNonce (copyHeader node header) = leftNonce node := by
    show (copyHeader node header)[9] ++ (copyHeader node header)[8] = node[9] ++ node[8]
    rw [copyHeader, Vector.getElem_ofFn, Vector.getElem_ofFn, dif_neg (by decide),
      dif_neg (by decide)]
    rfl
  rw [← hleft]
  refine take_wordsBytes fun i hi => ?_
  rw [copyHeader, Vector.getElem_ofFn, dif_pos hi]

/-! ## The accesses -/

/-- Two nodes, one after the other, are a page at once. -/
theorem mixNode_mixNode (mix : Mix) (a b : HashNode) :
    mixNode (mixNode mix 0 a) 1 b = Vector.zipWith Ethash.fnv mix (a ++ b) := by
  refine Vector.ext fun j hj => ?_
  rw [Vector.getElem_zipWith, Vector.getElem_append]
  simp only [mixNode, Vector.getElem_ofFn, get_mk]
  by_cases hfirst : j < 16
  · simp [hfirst, show j / 16 = 0 by omega, show j % 16 = j by omega]
    rfl
  · simp [hfirst, show j / 16 = 1 by omega, show j % 16 = j - 16 by omega]
    rfl

/-- The nodes of the array, as a function. -/
def nodeAt (nodes : Array HashNode) (k : ℕ) : HashNode := nodes[k]?.getD (Vector.replicate 16 0)

theorem load_eq_nodeAt {nodes : Array HashNode} {k : ℕ} (hk : k < nodes.size) :
    load nodes k = .ok (nodeAt nodes k) := by
  rw [load_of_lt hk, nodeAt, Array.getElem?_eq_getElem hk, Option.getD_some]

section Accesses

variable {nodes : Array HashNode} {pages : BitVec 32}

/-- **A page of the array** is there to be mixed in. -/
theorem mixPage_load (hsize : 2 * pages.toNat ≤ nodes.size) (hlt : pages.toNat < 2 ^ 31)
    {index : BitVec 32} (hindex : index.toNat < pages.toNat) (mix : Mix) :
    mixPage (fun k => load nodes k.toNat) index mix =
      .ok (Vector.zipWith Ethash.fnv mix
        (nodeAt nodes (index.toNat * 2) ++ nodeAt nodes (index.toNat * 2 + 1))) := by
  have hfirst := toNat_nodeIndex hlt hindex 0
  have hsecond := toNat_nodeIndex hlt hindex 1
  have hlist : List.finRange 2 = [0, 1] := rfl
  rw [mixPage, hlist]
  simp only [List.foldlM_cons, List.foldlM_nil, hfirst, hsecond, bind_pure]
  rw [load_eq_nodeAt (show 2 * index.toNat + (0 : Fin 2).val < nodes.size by omega),
    load_eq_nodeAt (show 2 * index.toNat + (1 : Fin 2).val < nodes.size by omega), ok_bind,
    pure_bind, ok_bind, mixNode_mixNode, Nat.mul_comm]
  rfl

/-- **One access.** -/
theorem access_load (hpages : pages ≠ 0) (hlt : pages.toNat < 2 ^ 31)
    (hsize : 2 * pages.toNat ≤ nodes.size) (seed : HashNode) (mix : Mix) (i : Fin 64) :
    access (fun k => load nodes k.toNat) pages seed mix i =
      .ok (Ethash.mixIn (nodeAt nodes) (2 * pages.toNat) seed mix i) := by
  rw [access, umod_of_ne_zero _ hpages, ok_bind,
    mixPage_load hsize hlt (toNat_mod_lt _ hpages), BitVec.toNat_umod, Ethash.mixIn, Ethash.page,
    Nat.mul_div_cancel_left _ Nat.two_pos]
  rfl

/-- **All accesses.** -/
theorem accesses_load (hpages : pages ≠ 0) (hlt : pages.toNat < 2 ^ 31)
    (hsize : 2 * pages.toNat ≤ nodes.size) (seed : HashNode) :
    accesses (fun k => load nodes k.toNat) pages seed =
      .ok (Ethash.mixed (nodeAt nodes) (2 * pages.toNat) seed) := by
  have hinit : (Vector.ofFn fun w : Fin 32 => seed.get ⟨w % 16, by omega⟩) = seed ++ seed := by
    refine Vector.ext fun w hw => ?_
    rw [Vector.getElem_ofFn, Vector.getElem_append, get_mk]
    by_cases hfirst : w < 16
    · rw [dif_pos hfirst]
      simp only [Nat.mod_eq_of_lt hfirst]
    · rw [dif_neg hfirst]
      simp only [show w % 16 = w - 16 by omega]
  rw [accesses, foldlM_eq_ok (access_load hpages hlt hsize seed), hinit, Ethash.mixed,
    ← List.map_coe_finRange_eq_range, List.foldl_map]

end Accesses

/-! ## The compression -/

section InPlace

variable {α : Type} {m k : ℕ} {f : Vector α m → Fin k → α} (hkm : k ≤ m)

/-- The loop that writes `f v w` to place `w`. -/
def writeBehind (f : Vector α m → Fin k → α) (hkm : k ≤ m) (L : List (Fin k)) (v : Vector α m) :
    Vector α m :=
  L.foldl (fun v (w : Fin k) => v.set w.val (f v w) (w.castLE hkm).isLt) v

theorem get_writeBehind_of_notMem {L : List (Fin k)} {w : Fin k} (hw : w ∉ L) (v : Vector α m) :
    (writeBehind f hkm L v).get (w.castLE hkm) = v.get (w.castLE hkm) := by
  induction L generalizing v with
  | nil => rfl
  | cons x L ih =>
    rw [List.mem_cons, not_or] at hw
    have hne : x.val ≠ w.val := fun h => hw.1 (Fin.ext h.symm)
    rw [writeBehind, List.foldl_cons]
    refine (ih hw.2 _).trans ?_
    exact Vector.getElem_set_ne _ _ hne

/-- **A loop that writes behind what it reads.**  If what is written at a place depends on
that place and those behind it only, the loop may as well read the vector from before. -/
theorem get_writeBehind {L : List (Fin k)} {v u : Vector α m}
    (hf : ∀ (v u : Vector α m) (w : Fin k),
      (∀ j : Fin m, w.val ≤ j.val → v.get j = u.get j) → f v w = f u w)
    (hL : L.Pairwise fun x y => x.val < y.val)
    (hv : ∀ w ∈ L, ∀ j : Fin m, w.val ≤ j.val → v.get j = u.get j) {w : Fin k} (hw : w ∈ L) :
    (writeBehind f hkm L v).get (w.castLE hkm) = f u w := by
  induction L generalizing v with
  | nil => cases hw
  | cons x L ih =>
    rw [List.pairwise_cons] at hL
    have hx : f v x = f u x := hf v u x (hv x List.mem_cons_self)
    rw [writeBehind, List.foldl_cons]
    by_cases hrest : w ∈ L
    · refine ih hL.2 (fun y hy j hj => ?_) hrest
      have hxj : x.val ≠ j.val := by
        have hxy := hL.1 y hy
        omega
      rw [← hv y (List.mem_cons_of_mem _ hy) j hj]
      exact Vector.getElem_set_ne _ _ hxj
    · obtain rfl : w = x := (List.mem_cons.mp hw).resolve_right hrest
      refine (get_writeBehind_of_notMem hkm hrest _).trans ?_
      rw [← hx]
      exact Vector.getElem_set_self _

end InPlace

/-- **In place and out of place.**  Word `w` is written over a word that no later one is
made of. -/
theorem get_compress (mix : Mix) (w : Fin 8) :
    (compress mix).get (w.castLE (by decide)) = (Ethash.compress mix).get w := by
  have hreads : ∀ (v u : Mix) (w : Fin 8),
      (∀ j : Fin 32, w.val ≤ j.val → v.get j = u.get j) →
      (Ethash.compress v).get w = (Ethash.compress u).get w := by
    intro v u w hvu
    have hquarter : ∀ k, Ethash.quarter v w k = Ethash.quarter u w k := fun k =>
      hvu ⟨4 * w + k, Ethash.quarterIndex_lt w k⟩ (show w.val ≤ 4 * w.val + k.val by omega)
    show (Ethash.compress v)[w.val] = (Ethash.compress u)[w.val]
    simp only [Ethash.compress, Vector.getElem_ofFn, hquarter]
  have hsteps : compress mix =
      writeBehind (fun v w => (Ethash.compress v).get w) (by decide) (List.finRange 8) mix := by
    unfold compress writeBehind
    congr 1
    funext v w
    have hword : (Ethash.compress v).get w = Ethash.fnv (Ethash.fnv (Ethash.fnv
        (Ethash.quarter v w 0) (Ethash.quarter v w 1)) (Ethash.quarter v w 2))
        (Ethash.quarter v w 3) :=
      Vector.getElem_ofFn _
    dsimp only
    rw [hword]
    rfl
  rw [hsteps]
  exact get_writeBehind _ hreads (List.pairwise_lt_finRange 8) (fun _ _ _ _ => rfl)
    (List.mem_finRange w)

/-! ## The function -/

section

variable (H512 : List (BitVec 8) → Vector (BitVec 8) 64)
  (H256 : List (BitVec 8) → Vector (BitVec 8) 32)

theorem seedNode_eq (sMix : Vector HashNode 3) (header : Vector (BitVec 8) 32) :
    seedNode H512 sMix header = Ethash.seed H512 header (leftNonce (sMix.get 0)) := by
  rw [seedNode, take_wordsBytes_copyHeader]
  rfl

theorem wordIndex_lt (i : Fin 32) : i.val / 4 < 32 := by omega

/-- The first 32 bytes of the compressed mix. -/
theorem ofFn_compress (mix : Mix) :
    (Vector.ofFn fun i : Fin 32 => byte ((compress mix).get ⟨i / 4, wordIndex_lt i⟩) (i % 4)) =
      Ethash.serialize (Ethash.compress mix) := by
  refine Vector.ext fun i hi => ?_
  rw [Vector.getElem_ofFn, Ethash.serialize, Vector.getElem_ofFn]
  exact congrArg (byte · (i % 4)) (get_compress mix ⟨i / 4, by omega⟩)

theorem writeResult_eq (seed : HashNode) (mix : Mix) (ret : ReturnValue) :
    writeResult H256 seed mix ret =
      { ret with
        mixHash := (Ethash.digest H256 seed (Ethash.compress mix)).mixHash
        result := (Ethash.digest H256 seed (Ethash.compress mix)).result } := by
  rw [writeResult, ofFn_compress, wordsBytes_toList]
  rfl

/-- The hashimoto of an array of nodes. -/
def arrayHashimoto (nodes : Array HashNode) (header : Vector (BitVec 8) 32) (nonce : BitVec 64) :
    Ethash.Digest :=
  Ethash.hashimoto H512 H256 (nodeAt nodes) nodes.size header nonce

variable {H512 H256}

/-- **`krnl_ethash_func` is hashimoto of what its buffer held.** -/
theorem krnlEthashFunc_eq_hashimoto {fullSize : BitVec 64} (hpos : 0 < fullSize.toNat)
    (hlt : fullSize.toNat < 2 ^ 38) (hmod : fullSize.toNat % 128 = 0) {nodes : Array HashNode}
    (hnodes : nodes.size = fullSize.toNat / 64) (sMix : Vector HashNode 3) (ret : ReturnValue)
    (light : Light) (header : Vector (BitVec 8) 32) (nonce : BitVec 64) :
    krnlEthashFunc H512 H256 sMix ret (some nodes) light fullSize header nonce =
      .ok { ret with
        mixHash := (arrayHashimoto H512 H256 nodes header (leftNonce (sMix.get 0))).mixHash
        result := (arrayHashimoto H512 H256 nodes header (leftNonce (sMix.get 0))).result } := by
  have hpagesNat := toNat_numFullPages hlt
  have hsize : 2 * ((fullSize / 128).setWidth 32 : BitVec 32).toNat = nodes.size := by omega
  have hmix : accesses (dagNode H512 (some nodes) light) ((fullSize / 128).setWidth 32)
      (seedNode H512 sMix header) = _ :=
    accesses_load (numFullPages_ne_zero hpos hlt hmod) (by omega) (Nat.le_of_eq hsize) _
  rw [krnlEthashFunc_of_accesses H512 H256 (by omega) hmix, hsize, writeResult_eq, seedNode_eq]
  rfl

end

/-! ## Hash functions that tell nonces apart -/

section Probe

variable (nodes : Array HashNode) (header : Vector (BitVec 8) 32) (nonce : BitVec 64)

/-- Zeros for the header with the nonce, ones for anything else. -/
def probe512 (m : List (BitVec 8)) : Vector (BitVec 8) 64 :=
  if m = header.toList ++ Ethash.nonceBytes nonce then Vector.replicate 64 0
  else Vector.replicate 64 1

/-- The first byte, over and over. -/
def probe256 (m : List (BitVec 8)) : Vector (BitVec 8) 32 := Vector.replicate 32 (m.getD 0 0)

theorem serialize_zeros :
    (Ethash.serialize (Ethash.nodeOfBytes (Vector.replicate 64 0)))[0] = 0 := by
  decide +kernel

theorem serialize_ones :
    (Ethash.serialize (Ethash.nodeOfBytes (Vector.replicate 64 1)))[0] = 1 := by
  decide +kernel

/-- What the two make of a nonce. -/
theorem result_probe (other : BitVec 64) :
    (arrayHashimoto (probe512 header nonce) probe256 nodes header other).result =
      Vector.replicate 32 (if other = nonce then 0 else 1) := by
  have hfirst : ∀ (s : HashNode) (l : List (BitVec 8)),
      ((Ethash.serialize s).toList ++ l).getD 0 0 = (Ethash.serialize s)[0] := by
    intro s l
    rw [List.getD_eq_getElem?_getD, List.getElem?_append_left (by simp), Vector.getElem?_toList,
      Vector.getElem?_eq_getElem (by decide), Option.getD_some]
  rw [arrayHashimoto, Ethash.hashimoto, Ethash.digest]
  dsimp only
  rw [probe256, hfirst, Ethash.seed, probe512]
  simp only [List.append_cancel_left_eq, Ethash.nonceBytes_injective.eq_iff]
  split_ifs
  · exact congrArg _ serialize_zeros
  · exact congrArg _ serialize_ones

end Probe

/-- **Which nonce is hashed.**  For every size of whole pages below `2 ^ 38`, every array of
that many nodes, every header and every nonce: whatever the hash functions, the function
returns the hashimoto of the header and the nonce, exactly when the bytes of the nonce
happen to be in the buffer. -/
theorem krnlEthashFunc_hashimoto_iff {fullSize : BitVec 64} (hpos : 0 < fullSize.toNat)
    (hlt : fullSize.toNat < 2 ^ 38) (hmod : fullSize.toNat % 128 = 0) {nodes : Array HashNode}
    (hnodes : nodes.size = fullSize.toNat / 64) (sMix : Vector HashNode 3) (ret : ReturnValue)
    (light : Light) (header : Vector (BitVec 8) 32) (nonce : BitVec 64) :
    (∀ (H512 : List (BitVec 8) → Vector (BitVec 8) 64)
        (H256 : List (BitVec 8) → Vector (BitVec 8) 32),
      ∃ r, krnlEthashFunc H512 H256 sMix ret (some nodes) light fullSize header nonce = .ok r ∧
        r.mixHash = (arrayHashimoto H512 H256 nodes header nonce).mixHash ∧
        r.result = (arrayHashimoto H512 H256 nodes header nonce).result) ↔
      leftNonce (sMix.get 0) = nonce := by
  constructor
  · intro hall
    obtain ⟨r, hr, -, hresult⟩ := hall (probe512 header nonce) probe256
    rw [krnlEthashFunc_eq_hashimoto hpos hlt hmod hnodes, Except.ok.injEq] at hr
    rw [← hr, result_probe, result_probe, if_pos rfl] at hresult
    by_contra hne
    rw [if_neg hne] at hresult
    have hbytes : (Vector.replicate 32 1 : Vector (BitVec 8) 32) = Vector.replicate 32 0 := hresult
    exact absurd hbytes (by decide)
  · rintro rfl H512 H256
    exact ⟨_, krnlEthashFunc_eq_hashimoto hpos hlt hmod hnodes sMix ret light header _, rfl, rfl⟩

/-- A page of two nodes, and the nonce zero in a buffer of zeros. -/
theorem krnlEthashFunc_hashimoto_iff_zero :
    ∃ r, krnlEthashFunc (fun _ => Vector.replicate 64 7) (fun _ => Vector.replicate 32 9)
        (Vector.replicate 3 (Vector.replicate 16 0))
        ⟨Vector.replicate 32 0, Vector.replicate 32 0, false⟩
        (some #[Vector.replicate 16 1, Vector.replicate 16 2]) ⟨#[], 0⟩ 128
        (Vector.replicate 32 5) 0 = .ok r ∧
      r.mixHash = (arrayHashimoto (fun _ => Vector.replicate 64 7)
        (fun _ => Vector.replicate 32 9) #[Vector.replicate 16 1, Vector.replicate 16 2]
        (Vector.replicate 32 5) 0).mixHash ∧
      r.result = (arrayHashimoto (fun _ => Vector.replicate 64 7)
        (fun _ => Vector.replicate 32 9) #[Vector.replicate 16 1, Vector.replicate 16 2]
        (Vector.replicate 32 5) 0).result :=
  (krnlEthashFunc_hashimoto_iff (by decide) (by decide) (by decide) rfl _ _ _ _ _).mpr
    (by decide) _ _

/-- **The nonce is not read.**  From a buffer of zeros, the header with nonce 1 has the
result of nonce 0. -/
theorem krnlEthashFunc_nonce_one :
    ∃ r, krnlEthashFunc (probe512 (Vector.replicate 32 5) 1) probe256
        (Vector.replicate 3 (Vector.replicate 16 0))
        ⟨Vector.replicate 32 0, Vector.replicate 32 0, false⟩
        (some #[Vector.replicate 16 1, Vector.replicate 16 2]) ⟨#[], 0⟩ 128
        (Vector.replicate 32 5) 1 = .ok r ∧
      r.result = Vector.replicate 32 1 ∧
      (arrayHashimoto (probe512 (Vector.replicate 32 5) 1) probe256
        #[Vector.replicate 16 1, Vector.replicate 16 2]
        (Vector.replicate 32 5) 1).result = Vector.replicate 32 0 := by
  refine ⟨_, krnlEthashFunc_eq_hashimoto (by decide) (by decide) (by decide) rfl _ _ _ _ _, ?_, ?_⟩
  · rw [result_probe, if_neg (by decide)]
  · rw [result_probe, if_pos rfl]

end Host
end FpgaEthash
