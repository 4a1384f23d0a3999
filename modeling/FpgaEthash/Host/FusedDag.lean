import FpgaEthash.Host.Dag

/-!
# The DAG in one loop

`krnl_generateDAG` of `includes/fpga_ethash.cpp` is `compute_full_dag` with the call of
`compute_dag_item` written out in the loop.  The callee had a pointer `ret` to node `n`.
In its place the loop has `full_nodes[n]` once, where the node is copied from the cache,
and `full_nodes->` from there on, which is node 0 in every turn.

So the turn for node `n` leaves node `n` as the copy from the cache, and runs the item
of `n` over node 0 (`fusedTurn_spec`).  At the end every node but the first is raw, and
the first has been through all turns (`fusedFrom_spec`).  Whether that is the DAG is a
matter of the hash function and the cache; `krnlGenerateDag_eq_iff` says exactly when.
-/

namespace FpgaEthash
namespace Host

open Checked

/-! ## The loop -/

section

variable (H512 : List (BitVec 8) → Vector (BitVec 8) 64)

/-- The part of turn `n` after the call of `callback`: what is at `full_nodes`
afterwards. -/
def fusedTurn (light : Light) (n : ℕ) (mem : Array HashNode) :
    Except Fault (Array HashNode) := do
  let init ← light.cacheNode (BitVec.ofNat 32 n)
  let mem ← store mem n init
  -- full_nodes-> is the first node of the array
  let ret ← load mem 0
  let ret ← itemFrom H512 light (BitVec.ofNat 32 n) ret
  store mem 0 ret

/-- The loop of `krnl_generateDAG` from turn `n` on, with `remaining` turns to go. -/
def fusedFrom (light : Light) (callback : Option (ℕ → Bool)) (maxN : BitVec 32) :
    ℕ → ℕ → Array HashNode → Except Fault (Array HashNode)
  | 0, _, mem => return mem
  | remaining + 1, n, mem => do
      if ← stopped callback maxN n then return mem
      let mem ← fusedTurn H512 light n mem
      fusedFrom light callback maxN remaining (n + 1) mem

/-- `krnl_generateDAG`: what is at `mem` afterwards.  `start` is not read. -/
def krnlGenerateDag (_start : BitVec 32) (mem : Array HashNode) (fullSize : BitVec 64)
    (light : Light) (callback : Option (ℕ → Bool)) : Except Fault (Array HashNode) :=
  if fullSize % 128 ≠ 0 ∨ fullSize % 64 ≠ 0 then return mem
  else
    let maxN : BitVec 32 := (fullSize / 64).setWidth 32
    fusedFrom H512 light callback maxN maxN.toNat 0 mem

end

/-! ## What the turns do -/

section Turns

variable {H512 : List (BitVec 8) → Vector (BitVec 8) 64} {light : Light}
  {raw : ℕ → HashNode} {step : HashNode → ℕ → HashNode}

/-- After `n` turns: `first` in the first node, and behind it the nodes of the cache. -/
structure Fused (raw : ℕ → HashNode) (first : HashNode) (n : ℕ) (mem : Array HashNode) :
    Prop where
  first : mem[0]? = some first
  rest : ∀ k, 0 < k → k < n → mem[k]? = some (raw k)

variable (hraw : ∀ n, light.cacheNode (BitVec.ofNat 32 n) = .ok (raw n))
  (hstep : ∀ ret n, itemFrom H512 light (BitVec.ofNat 32 n) ret = .ok (step ret n))

include hraw hstep

/-- **One turn** copies a node, and works on the first one; the others stay. -/
theorem fusedTurn_eq {mem : Array HashNode} {first : HashNode} {n : ℕ} (hn : n < mem.size)
    (hfirst : (mem.set n (raw n))[0]? = some first) :
    ∃ mem', fusedTurn H512 light n mem = .ok mem' ∧ mem'.size = mem.size ∧
      mem'[0]? = some (step first n) ∧ ∀ k, 0 < k → mem'[k]? = (mem.set n (raw n))[k]? := by
  have hsize : 0 < (mem.set n (raw n)).size := by
    rw [Array.size_set]
    omega
  rw [Array.getElem?_eq_getElem hsize, Option.some_inj] at hfirst
  refine ⟨(mem.set n (raw n)).set 0 (step first n), ?_, ?_, ?_, fun k hk => ?_⟩
  · rw [fusedTurn, hraw, ok_bind, store_of_lt hn, ok_bind, load_of_lt hsize, ok_bind, hstep,
      ok_bind, store_of_lt hsize, hfirst]
  · rw [Array.size_set, Array.size_set]
  · rw [Array.getElem?_set, if_pos rfl]
  · rw [Array.getElem?_set, if_neg (by omega)]

/-- The first turn makes the item of node 0. -/
theorem fusedTurn_zero {mem : Array HashNode} (hsize : 0 < mem.size) :
    ∃ mem', fusedTurn H512 light 0 mem = .ok mem' ∧ mem'.size = mem.size ∧
      Fused raw (step (raw 0) 0) 1 mem' := by
  obtain ⟨mem', hturn, hsize', hfirst, -⟩ :=
    fusedTurn_eq hraw hstep hsize (by rw [Array.getElem?_set, if_pos rfl])
  exact ⟨mem', hturn, hsize', hfirst, fun k hpos hlt => absurd hlt (by omega)⟩

/-- **The turn for node `n`** leaves the raw node there, and runs over node 0. -/
theorem fusedTurn_spec {mem : Array HashNode} {first : HashNode} {n : ℕ} (hpos : 0 < n)
    (hn : n < mem.size) (hmem : Fused raw first n mem) :
    ∃ mem', fusedTurn H512 light n mem = .ok mem' ∧ mem'.size = mem.size ∧
      Fused raw (step first n) (n + 1) mem' := by
  obtain ⟨mem', hturn, hsize, hfirst, hrest⟩ := fusedTurn_eq hraw hstep hn
    (by rw [Array.getElem?_set, if_neg (by omega), hmem.first])
  refine ⟨mem', hturn, hsize, hfirst, fun k hk hkn => ?_⟩
  rw [hrest k hk, Array.getElem?_set]
  by_cases hkeq : n = k
  · rw [if_pos hkeq, hkeq]
  · rw [if_neg hkeq]
    exact hmem.rest k hk (by omega)

/-- **The turns from `n` on.** -/
theorem fusedFrom_spec (maxN : BitVec 32) {remaining n : ℕ} {mem : Array HashNode}
    {first : HashNode} (hpos : 0 < n) (hroom : n + remaining ≤ mem.size)
    (hmem : Fused raw first n mem) :
    ∃ full, fusedFrom H512 light none maxN remaining n mem = .ok full ∧ full.size = mem.size ∧
      Fused raw ((List.range' n remaining).foldl step first) (n + remaining) full := by
  induction remaining generalizing n mem first with
  | zero => exact ⟨mem, rfl, rfl, hmem⟩
  | succ remaining ih =>
    obtain ⟨mem', hturn, hsize, hnext⟩ := fusedTurn_spec hraw hstep hpos (by omega) hmem
    obtain ⟨full, hfull, hfullSize, hfused⟩ := ih (Nat.succ_pos n) (by omega) hnext
    refine ⟨full, ?_, hfullSize.trans hsize, ?_⟩
    · rw [fusedFrom, stopped]
      show (fusedTurn H512 light n mem >>= fusedFrom H512 light none maxN remaining (n + 1)) = _
      rw [hturn, ok_bind, hfull]
    · rwa [List.range'_succ, List.foldl_cons,
        show n + (remaining + 1) = n + 1 + remaining by omega]

/-- **The whole loop.** -/
theorem fusedFrom_zero_spec (maxN : BitVec 32) {nodes : ℕ} {mem : Array HashNode}
    (hpos : 0 < nodes) (hroom : nodes ≤ mem.size) :
    ∃ full, fusedFrom H512 light none maxN nodes 0 mem = .ok full ∧ full.size = mem.size ∧
      Fused raw ((List.range' 1 (nodes - 1)).foldl step (step (raw 0) 0)) nodes full := by
  obtain ⟨remaining, rfl⟩ : ∃ remaining, nodes = remaining + 1 := ⟨nodes - 1, by omega⟩
  obtain ⟨mem', hturn, hsize, hnext⟩ := fusedTurn_zero hraw hstep (show 0 < mem.size by omega)
  obtain ⟨full, hfull, hfullSize, hfused⟩ :=
    fusedFrom_spec hraw hstep maxN Nat.one_pos (show 1 + remaining ≤ mem'.size by omega) hnext
  refine ⟨full, ?_, hfullSize.trans hsize, ?_⟩
  · rw [fusedFrom, stopped]
    show (fusedTurn H512 light 0 mem >>= fusedFrom H512 light none maxN remaining 1) = _
    rw [hturn, ok_bind, hfull]
  · rwa [Nat.add_sub_cancel, Nat.add_comm]

end Turns

/-! ## When it is the DAG -/

section

variable (H512 : List (BitVec 8) → Vector (BitVec 8) 64)

/-- The first node keeps its item through the turns for the others, and the items of the
others are the nodes of the cache that they start from. -/
structure Coincides (light : Light) (nodes : ℕ) : Prop where
  first : (computeDagItem H512 0 light >>= (List.range' 1 (nodes - 1)).foldlM fun ret n =>
    itemFrom H512 light (BitVec.ofNat 32 n) ret) = computeDagItem H512 0 light
  rest : ∀ n, 0 < n → n < nodes →
    computeDagItem H512 (BitVec.ofNat 32 n) light = light.cacheNode (BitVec.ofNat 32 n)

variable {light : Light}

/-- What is at node `n`, for a cache that can be read. -/
theorem krnlGenerateDag_of_readable (start : BitVec 32) (hlight : light.Readable)
    {fullSize : BitVec 64} (hpos : 0 < fullSize.toNat) (hlt : fullSize.toNat < 2 ^ 38)
    (hmod : fullSize.toNat % 128 = 0) {mem : Array HashNode}
    (hmem : mem.size = fullSize.toNat / 64) :
    ∃ full, krnlGenerateDag H512 start mem fullSize light none = .ok full ∧
      full.size = mem.size ∧
      (∀ n, 0 < n → n < fullSize.toNat / 64 →
        load full n = light.cacheNode (BitVec.ofNat 32 n)) ∧
      ((∀ n < fullSize.toNat / 64,
        load full n = computeDagItem H512 (BitVec.ofNat 32 n) light) ↔
        Coincides H512 light (fullSize.toNat / 64)) := by
  choose raw hraw using fun n : ℕ => exists_cacheNode hlight (BitVec.ofNat 32 n)
  choose step hstep using fun (ret : HashNode) (n : ℕ) =>
    exists_itemFrom H512 hlight (BitVec.ofNat 32 n) ret
  have hitem : ∀ n : ℕ, computeDagItem H512 (BitVec.ofNat 32 n) light = .ok (step (raw n) n) := by
    intro n
    rw [computeDagItem_eq, hraw, ok_bind, hstep]
  have hnodes : 0 < fullSize.toNat / 64 := by omega
  obtain ⟨full, hfull, hsize, hfused⟩ := fusedFrom_zero_spec hraw hstep
    ((fullSize / 64).setWidth 32) hnodes (Nat.le_of_eq hmem.symm)
  -- what is at each node is one side of the condition for it
  have hfirst : (computeDagItem H512 0 light >>=
      (List.range' 1 (fullSize.toNat / 64 - 1)).foldlM fun ret n =>
        itemFrom H512 light (BitVec.ofNat 32 n) ret) = load full 0 := by
    have hzero : computeDagItem H512 0 light = .ok (step (raw 0) 0) := hitem 0
    rw [hzero, ok_bind, foldlM_eq_ok hstep, load_of_getElem? hfused.first]
  have hrest : ∀ n, 0 < n → n < fullSize.toNat / 64 →
      light.cacheNode (BitVec.ofNat 32 n) = load full n := by
    intro n hn hlast
    rw [hraw, load_of_getElem? (hfused.rest n hn hlast)]
  refine ⟨full, ?_, hsize, fun n hn hlast => (hrest n hn hlast).symm,
    fun hall => ⟨?_, fun n hn hlast => ?_⟩, fun hco n hlast => ?_⟩
  · rw [krnlGenerateDag, if_neg (mod_fullSize hmod)]
    dsimp only
    rw [toNat_maxN hlt, hfull]
  · rw [hfirst]
    exact hall 0 hnodes
  · rw [hrest n hn hlast, hall n hlast]
  · by_cases hzero : n = 0
    · rw [hzero, ← hfirst]
      exact hco.first
    · rw [← hrest n (by omega) hlast, hco.rest n (by omega) hlast]

/-- Without a divisor the first turn goes wrong, as the first item does. -/
theorem krnlGenerateDag_of_eq_zero (start : BitVec 32) (hzero : light.numParentNodes = 0)
    {fullSize : BitVec 64} (hpos : 0 < fullSize.toNat) (hlt : fullSize.toNat < 2 ^ 38)
    (hmod : fullSize.toNat % 128 = 0) (mem : Array HashNode) :
    krnlGenerateDag H512 start mem fullSize light none = .error .divisionByZero ∧
      computeFullDag H512 mem fullSize light none = .error .divisionByZero := by
  obtain ⟨remaining, hremaining⟩ : ∃ remaining, fullSize.toNat / 64 = remaining + 1 :=
    ⟨fullSize.toNat / 64 - 1, by omega⟩
  have hnode := cacheNode_of_eq_zero hzero (BitVec.ofNat 32 0)
  constructor
  · rw [krnlGenerateDag, if_neg (mod_fullSize hmod)]
    dsimp only
    rw [toNat_maxN hlt, hremaining, fusedFrom, fusedTurn, hnode]
    rfl
  · rw [computeFullDag, if_neg (mod_fullSize hmod)]
    dsimp only
    rw [toNat_maxN hlt, hremaining, fillFrom, computeDagItem_eq, hnode]
    rfl

/-- Where no item is computed, the two sides of `Coincides` go wrong alike. -/
theorem coincides_of_eq_zero (hzero : light.numParentNodes = 0) (nodes : ℕ) :
    Coincides H512 light nodes := by
  have hitem : ∀ x, computeDagItem H512 x light = .error .divisionByZero := by
    intro x
    rw [computeDagItem_eq, cacheNode_of_eq_zero hzero]
    rfl
  refine ⟨?_, fun n _ _ => ?_⟩
  · rw [hitem]
    rfl
  · rw [hitem, cacheNode_of_eq_zero hzero]

/-- **When the one loop makes the DAG.**  For every hash function, every cache with a node
and every size of whole pages below `2 ^ 38`: each node of `mem` is what `compute_dag_item`
computes for it, and `mem` is what `compute_full_dag` makes of it, exactly when the first
node keeps its item through all turns and the other items are nodes of the cache. -/
theorem krnlGenerateDag_eq_iff (start : BitVec 32) {light : Light} (hlight : light.Backed)
    {fullSize : BitVec 64} (hpos : 0 < fullSize.toNat) (hlt : fullSize.toNat < 2 ^ 38)
    (hmod : fullSize.toNat % 128 = 0) {mem : Array HashNode}
    (hmem : mem.size = fullSize.toNat / 64) :
    ((∀ n < fullSize.toNat / 64,
        (krnlGenerateDag H512 start mem fullSize light none >>= (load · n)) =
          computeDagItem H512 (BitVec.ofNat 32 n) light) ↔
      Coincides H512 light (fullSize.toNat / 64)) ∧
    (krnlGenerateDag H512 start mem fullSize light none =
        (computeFullDag H512 mem fullSize light none).map Prod.snd ↔
      Coincides H512 light (fullSize.toNat / 64)) := by
  by_cases hzero : light.numParentNodes = 0
  · obtain ⟨hkrnl, hfull⟩ := krnlGenerateDag_of_eq_zero H512 start hzero hpos hlt hmod mem
    have hco := coincides_of_eq_zero H512 hzero (fullSize.toNat / 64)
    rw [hkrnl, hfull]
    refine ⟨iff_of_true (fun n _ => ?_) hco, iff_of_true rfl hco⟩
    rw [computeDagItem_eq, cacheNode_of_eq_zero hzero]
    rfl
  · have hread := hlight.readable hzero
    obtain ⟨fused, hkrnl, hsize, -, hiff⟩ :=
      krnlGenerateDag_of_readable H512 start hread hpos hlt hmod hmem
    obtain ⟨full, hfull, hfullSize, hfilled⟩ := computeFullDag_spec H512 hread hlt hmod hmem
    rw [hkrnl, hfull]
    refine ⟨hiff, ?_⟩
    show Except.ok fused = Except.ok full ↔ _
    rw [Except.ok.injEq, eq_iff_load (hsize.trans hfullSize.symm), ← hiff, hsize, hmem]
    refine forall₂_congr fun n hn => ?_
    rw [hfilled n (by omega) hn, load_of_lt (show n < full.size by omega)]

end

/-! ## One hash value for everything -/

section

variable {light : Light} (c : Vector (BitVec 8) 64)

theorem itemFrom_const (h : light.Readable) (n : BitVec 32) (ret : HashNode) :
    itemFrom (fun _ => c) light n ret = .ok (nodeOfBytes c) := by
  obtain ⟨mixed, hmixed⟩ := exists_itemFrom_eq_hashInPlace (fun _ => c) h n ret
  exact hmixed

/-- Every item is the one hash value. -/
theorem computeDagItem_const (h : light.Readable) (n : BitVec 32) :
    computeDagItem (fun _ => c) n light = .ok (nodeOfBytes c) := by
  obtain ⟨init, hinit⟩ := exists_cacheNode h n
  rw [computeDagItem_eq, hinit, ok_bind, itemFrom_const c h]

end

/-- A cache of one node, with one word throughout. -/
def uniformCache (word : BitVec 32) : Light := ⟨#[Vector.replicate 16 word], 64⟩

theorem numParentNodes_uniformCache (word : BitVec 32) : (uniformCache word).numParentNodes = 1 :=
  show ((64 : BitVec 64) / 64).setWidth 32 = 1 by decide

theorem readable_uniformCache (word : BitVec 32) : (uniformCache word).Readable := by
  refine ⟨?_, ?_⟩
  · rw [numParentNodes_uniformCache]
    decide
  · rw [numParentNodes_uniformCache]
    exact Nat.le_refl 1

theorem cacheNode_uniformCache (word x : BitVec 32) :
    (uniformCache word).cacheNode x = .ok (Vector.replicate 16 word) := by
  rw [Light.cacheNode, numParentNodes_uniformCache, umod_of_ne_zero x (by decide), ok_bind,
    show x % 1 = 0 from BitVec.umod_one]
  rfl

theorem coincides_uniformCache :
    Coincides (fun _ => Vector.replicate 64 7) (uniformCache 0x07070707) 2 := by
  have hread := readable_uniformCache 0x07070707
  have hnode : nodeOfBytes (Vector.replicate 64 7) = Vector.replicate 16 0x07070707 := by
    decide +kernel
  refine ⟨?_, fun n _ _ => ?_⟩
  · rw [computeDagItem_const _ hread, ok_bind, show List.range' 1 (2 - 1) = [1] from rfl,
      List.foldlM_cons, itemFrom_const _ hread]
    rfl
  · rw [computeDagItem_const _ hread, cacheNode_uniformCache, hnode]

/-- A hash function with one value, and a cache of one node that is that value: the DAG. -/
theorem krnlGenerateDag_eq_iff_seven :
    krnlGenerateDag (fun _ => Vector.replicate 64 7) 0
        #[Vector.replicate 16 0, Vector.replicate 16 0] 128 (uniformCache 0x07070707) none =
      (computeFullDag (fun _ => Vector.replicate 64 7)
        #[Vector.replicate 16 0, Vector.replicate 16 0] 128
        (uniformCache 0x07070707) none).map Prod.snd :=
  (krnlGenerateDag_eq_iff _ 0 ⟨rfl, by decide⟩ (by decide) (by decide) (by decide) rfl).2.mpr
    coincides_uniformCache

/-- **The second node is raw.**  With the same hash function and a cache of one node of
other words, the second node is that node and not its item. -/
theorem krnlGenerateDag_second_raw :
    (krnlGenerateDag (fun _ => Vector.replicate 64 7) 0
        #[Vector.replicate 16 0, Vector.replicate 16 0] 128 (uniformCache 1) none >>= (load · 1)) =
      .ok (Vector.replicate 16 1) ∧
    computeDagItem (fun _ => Vector.replicate 64 7) 1 (uniformCache 1) =
      .ok (Vector.replicate 16 0x07070707) := by
  obtain ⟨full, hfull, -, hrest, -⟩ := krnlGenerateDag_of_readable
    (fun _ => Vector.replicate 64 7) 0 (readable_uniformCache 1)
    (show 0 < (128 : BitVec 64).toNat by decide) (by decide) (by decide)
    (show #[Vector.replicate 16 0, Vector.replicate 16 0].size = _ from rfl)
  rw [hfull, ok_bind, hrest 1 (by decide) (by decide), cacheNode_uniformCache,
    computeDagItem_const _ (readable_uniformCache 1)]
  exact ⟨rfl, by decide +kernel⟩

end Host
end FpgaEthash
