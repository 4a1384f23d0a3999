import FpgaEthash.Computation.Throwing
import FpgaEthash.Host.Hashimoto

/-!
# What the checks of the sizes are good for

`compute_full_dag` and `krnl_ethash_func` begin with a check of `full_size`.  They go on to cut
numbers of nodes and pages to 32 bits, and to divide by them: by the number of nodes, and by a
hundredth of it where there is a callback; by the number of pages; and, for every node that is
computed, by the number of nodes of the cache.  Here the two functions are followed with what they
do besides their results: the nodes that the loop visits (`visitFullDag`), and the indices of the
nodes that are asked for (`krnlUsed`).

The checks do not keep these numbers from being zero, or from being cut.  `visitFullDag_iff` and
`krnlUsed_iff` say for which sizes, caches and callbacks nothing goes wrong.
-/

namespace FpgaEthash
namespace Host

open Checked Throwing

/-! ## The loop over the nodes -/

section

variable (H512 : List (BitVec 8) → Vector (BitVec 8) 64)

/-- `1.0f / max_n`, counted as a division by zero although the quotient is infinity at run time.
It is only used for the percentage, which is not modelled. -/
def progressChange (maxN : BitVec 32) : Except Fault Unit :=
  if maxN = 0 then .error .divisionByZero else .ok ()

/-- `fillFrom`, with the nodes that are visited. -/
def visitFrom (light : Light) (callback : Option (ℕ → Bool)) (maxN : BitVec 32) :
    ℕ → ℕ → Array HashNode → Except Fault (Bool × Array HashNode × List ℕ)
  | 0, _, mem => return (true, mem, [])
  | remaining + 1, n, mem => do
      if ← stopped callback maxN n then return (false, mem, [])
      let item ← computeDagItem H512 (BitVec.ofNat 32 n) light
      let mem ← store mem n item
      let rest ← visitFrom light callback maxN remaining (n + 1) mem
      return (rest.1, rest.2.1, n :: rest.2.2)

/-- `compute_full_dag`, with all its divisions and the nodes that its loop visits. -/
def visitFullDag (mem : Array HashNode) (fullSize : BitVec 64) (light : Light)
    (callback : Option (ℕ → Bool)) : Except Fault (Bool × Array HashNode × List ℕ) :=
  if fullSize % 128 ≠ 0 ∨ fullSize % 64 ≠ 0 then return (false, mem, [])
  else do
    let maxN : BitVec 32 := (fullSize / 64).setWidth 32
    progressChange maxN
    visitFrom H512 light callback maxN maxN.toNat 0 mem

end

variable {H512 : List (BitVec 8) → Vector (BitVec 8) 64} {light : Light}
  {callback : Option (ℕ → Bool)} {maxN : BitVec 32}

/-- The loop returns what `compute_full_dag` returns. -/
theorem map_visitFrom (remaining n : ℕ) (mem : Array HashNode) :
    (visitFrom H512 light callback maxN remaining n mem).map (fun r => (r.1, r.2.1)) =
      fillFrom H512 light callback maxN remaining n mem := by
  induction remaining generalizing n mem with
  | zero => rfl
  | succ remaining ih =>
    rw [visitFrom, fillFrom]
    cases stopped callback maxN n with
    | error fault => rfl
    | ok stop =>
      cases stop with
      | true => rfl
      | false =>
        cases computeDagItem H512 (BitVec.ofNat 32 n) light with
        | error fault => rfl
        | ok item =>
          simp only [ok_bind, Bool.false_eq_true, if_false]
          cases store mem n item with
          | error fault => rfl
          | ok mem' =>
            rw [ok_bind, ok_bind, ← ih]
            cases visitFrom H512 light callback maxN remaining (n + 1) mem' with
            | error fault => rfl
            | ok rest => rfl

/-- `visitFullDag` returns what `compute_full_dag` returns, unless it has divided by zero before. -/
theorem map_visitFullDag {fullSize : BitVec 64} {mem : Array HashNode}
    (hne : (fullSize / 64).setWidth 32 ≠ (0 : BitVec 32)) :
    (visitFullDag H512 mem fullSize light callback).map (fun r => (r.1, r.2.1)) =
      computeFullDag H512 mem fullSize light callback := by
  have hchange : progressChange ((fullSize / 64).setWidth 32) = .ok () := if_neg hne
  rw [visitFullDag, computeFullDag]
  by_cases hguard : fullSize % 128 ≠ 0 ∨ fullSize % 64 ≠ 0
  · rw [if_pos hguard, if_pos hguard]
    rfl
  · rw [if_neg hguard, if_neg hguard]
    dsimp only
    rw [hchange, ok_bind, map_visitFrom]

/-- **Without a stop and with a cache that can be read** every node gets its turn. -/
theorem visitFrom_ok (h : light.Readable) {remaining n : ℕ} {mem : Array HashNode}
    (hroom : n + remaining ≤ mem.size)
    (hstop : ∀ k, n ≤ k → k < n + remaining → stopped callback maxN k = .ok false) :
    ∃ full, visitFrom H512 light callback maxN remaining n mem =
      .ok (true, full, List.range' n remaining) := by
  induction remaining generalizing n mem with
  | zero => exact ⟨mem, rfl⟩
  | succ remaining ih =>
    obtain ⟨item, hitem⟩ := exists_computeDagItem H512 h (BitVec.ofNat 32 n)
    have hn : n < mem.size := by omega
    have hrest : ∃ full, visitFrom H512 light callback maxN remaining (n + 1) (mem.set n item) =
        .ok (true, full, List.range' (n + 1) remaining) :=
      ih (by rw [Array.size_set]; omega) fun k hk hlt => hstop k (by omega) (by omega)
    obtain ⟨full, hfull⟩ := hrest
    refine ⟨full, ?_⟩
    rw [visitFrom, hstop n (Nat.le_refl n) (by omega), ok_bind, if_neg Bool.false_ne_true, hitem,
      ok_bind, store_of_lt hn, ok_bind, hfull]
    rfl

/-- **What a turn was**, in a loop that came back. -/
theorem visitFrom_succ_eq_ok {remaining n : ℕ} {mem : Array HashNode}
    {r : Bool × Array HashNode × List ℕ}
    (hr : visitFrom H512 light callback maxN (remaining + 1) n mem = .ok r) :
    r.2.2 = [] ∨ ∃ item mem' rest, stopped callback maxN n = .ok false ∧
      computeDagItem H512 (BitVec.ofNat 32 n) light = .ok item ∧
      visitFrom H512 light callback maxN remaining (n + 1) mem' = .ok rest ∧
      r.2.2 = n :: rest.2.2 := by
  rw [visitFrom] at hr
  obtain ⟨stop, hstop, hr⟩ := except_bind_eq_ok.mp hr
  cases stop with
  | true =>
    left
    rw [← Except.ok.inj hr]
  | false =>
    rw [if_neg Bool.false_ne_true] at hr
    obtain ⟨item, hitem, hr⟩ := except_bind_eq_ok.mp hr
    obtain ⟨mem', -, hr⟩ := except_bind_eq_ok.mp hr
    obtain ⟨rest, hrest, hr⟩ := except_bind_eq_ok.mp hr
    exact .inr ⟨item, mem', rest, hstop, hitem, hrest, by rw [← Except.ok.inj hr]⟩

/-- A loop visits no more nodes than it has turns. -/
theorem length_visited_le {remaining n : ℕ} {mem : Array HashNode}
    {r : Bool × Array HashNode × List ℕ}
    (hr : visitFrom H512 light callback maxN remaining n mem = .ok r) :
    r.2.2.length ≤ remaining := by
  induction remaining generalizing n mem r with
  | zero =>
    rw [← Except.ok.inj hr]
    exact Nat.le_refl 0
  | succ remaining ih =>
    rcases visitFrom_succ_eq_ok hr with hnil | ⟨item, mem', rest, -, -, hrest, hcons⟩
    · rw [hnil]
      exact Nat.zero_le _
    · rw [hcons, List.length_cons]
      exact Nat.succ_le_succ (ih hrest)

/-- **A loop that visits a node in every turn** was not stopped, and computed its items. -/
theorem of_visitFrom_eq_ok {remaining n : ℕ} {mem : Array HashNode}
    {r : Bool × Array HashNode × List ℕ}
    (hr : visitFrom H512 light callback maxN remaining n mem = .ok r)
    (hlen : r.2.2.length = remaining) {k : ℕ} (hk : n ≤ k) (hlt : k < n + remaining) :
    stopped callback maxN k = .ok false ∧
      ∃ item, computeDagItem H512 (BitVec.ofNat 32 k) light = .ok item := by
  induction remaining generalizing n mem r with
  | zero => omega
  | succ remaining ih =>
    rcases visitFrom_succ_eq_ok hr with hnil | ⟨item, mem', rest, hstop, hitem, hrest, hcons⟩
    · rw [hnil] at hlen
      exact absurd hlen (Nat.succ_ne_zero remaining).symm
    · rcases Nat.eq_or_lt_of_le hk with rfl | hnk
      · exact ⟨hstop, item, hitem⟩
      · rw [hcons, List.length_cons] at hlen
        exact ih hrest (by omega) hnk (by omega)

/-- What keeps a callback from stopping the loop: a hundredth of the nodes to divide by, and zero
as the answer to each call. -/
def NeverStops (callback : Option (ℕ → Bool)) (nodes : ℕ) : Prop :=
  ∀ answer, callback = some answer →
    100 ≤ nodes ∧ ∀ n < nodes, n % (nodes / 100) = 0 → answer n = false

theorem toNat_div_hundred (maxN : BitVec 32) : (maxN / 100).toNat = maxN.toNat / 100 :=
  BitVec.toNat_udiv

/-- The turns that are not the last. -/
theorem stopped_eq_ok_false_iff (hpos : 0 < maxN.toNat) :
    (∀ n < maxN.toNat, stopped callback maxN n = .ok false) ↔ NeverStops callback maxN.toNat := by
  cases callback with
  | none =>
    refine ⟨fun _ answer h => ?_, fun _ _ _ => rfl⟩
    cases h
  | some answer =>
    have hmod : ∀ n < maxN.toNat, maxN / 100 ≠ 0 →
        (BitVec.ofNat 32 n % (maxN / 100) = 0 ↔ n % (maxN.toNat / 100) = 0) := by
      intro n hn _
      have hlt : n < 2 ^ 32 := by omega
      rw [← BitVec.toNat_inj, BitVec.toNat_umod, BitVec.toNat_ofNat, toNat_div_hundred,
        Nat.mod_eq_of_lt hlt]
      rfl
    constructor
    · intro h answer' hanswer
      obtain rfl := Option.some.inj hanswer
      have hne : maxN / 100 ≠ 0 := by
        obtain ⟨_, hdivision, -⟩ := except_bind_eq_ok.mp (h 0 hpos)
        exact (umod_eq_ok hdivision).1
      refine ⟨?_, fun n hn hzero => ?_⟩
      · by_contra hlt
        refine hne (BitVec.toNat_inj.mp ?_)
        rw [toNat_div_hundred]
        exact Nat.div_eq_of_lt (by omega)
      · have hturn := h n hn
        rw [stopped, umod_of_ne_zero _ hne, ok_bind] at hturn
        have hfalse : decide (BitVec.ofNat 32 n % (maxN / 100) = 0 ∧ answer n = true) = false :=
          Except.ok.inj hturn
        rw [decide_eq_false_iff_not, hmod n hn hne] at hfalse
        exact Bool.eq_false_iff.mpr fun htrue => hfalse ⟨hzero, htrue⟩
    · intro h n hn
      obtain ⟨hle, hzero⟩ := h answer rfl
      have hne : maxN / 100 ≠ 0 := fun h0 => by
        have hnat := toNat_div_hundred maxN
        rw [h0] at hnat
        have hzero' : 0 = maxN.toNat / 100 := hnat
        omega
      rw [stopped, umod_of_ne_zero _ hne, ok_bind]
      refine congrArg Except.ok (decide_eq_false ?_)
      rw [hmod n hn hne]
      rintro ⟨hdvd, htrue⟩
      rw [hzero n hn hdvd] at htrue
      exact Bool.false_ne_true htrue

/-- An item is there only if the number of parents is not zero. -/
theorem numParentNodes_ne_zero {k : BitVec 32} {item : HashNode}
    (h : computeDagItem H512 k light = .ok item) : light.numParentNodes ≠ 0 := by
  intro h0
  rw [computeDagItem_eq, cacheNode_of_eq_zero h0] at h
  exact nomatch h

/-- **When `compute_full_dag` divides by no zero and visits the nodes of the DAG**: for a size
that is not zero and below `2 ^ 38`, a cache whose number of nodes is not cut to zero, and a
callback that finds a hundredth of the nodes and lets the loop go on. -/
theorem visitFullDag_iff (hlight : light.Backed) {fullSize : BitVec 64}
    (hmod : fullSize.toNat % 128 = 0) {mem : Array HashNode}
    (hroom : fullSize.toNat / 64 ≤ mem.size) :
    (∃ stop full, visitFullDag H512 mem fullSize light callback =
        .ok (stop, full, List.range (fullSize.toNat / 64))) ↔
      0 < fullSize.toNat ∧ fullSize.toNat < 2 ^ 38 ∧ light.numParentNodes ≠ 0 ∧
        NeverStops callback (fullSize.toNat / 64) := by
  obtain ⟨maxN, hmaxN⟩ : ∃ maxN : BitVec 32, maxN = (fullSize / 64).setWidth 32 := ⟨_, rfl⟩
  have hvisit : visitFullDag H512 mem fullSize light callback =
      progressChange maxN >>= fun _ => visitFrom H512 light callback maxN maxN.toNat 0 mem := by
    rw [visitFullDag, if_neg (mod_fullSize hmod), hmaxN]
  rw [hvisit]
  constructor
  · rintro ⟨stop, full, h⟩
    obtain ⟨_, hchange, hloop⟩ := except_bind_eq_ok.mp h
    have hne : maxN ≠ 0 := fun h0 => by
      have hzero : progressChange maxN = .error .divisionByZero := if_pos h0
      rw [hzero] at hchange
      exact nomatch hchange
    have hpos : 0 < maxN.toNat := Nat.pos_of_ne_zero fun h0 => hne (BitVec.toNat_inj.mp h0)
    -- The loop has as many turns as the DAG has nodes, so none was cut off.
    have hle := length_visited_le hloop
    rw [List.length_range] at hle
    have hmax := maxN.isLt
    have hlt : fullSize.toNat < 2 ^ 38 := by omega
    have hnodes : maxN.toNat = fullSize.toNat / 64 := hmaxN ▸ toNat_maxN hlt
    have hlen : (List.range (fullSize.toNat / 64)).length = maxN.toNat := by
      rw [List.length_range, hnodes]
    have hturn := fun k (hk : k < maxN.toNat) =>
      of_visitFrom_eq_ok hloop hlen (Nat.zero_le k) (by omega)
    obtain ⟨item, hitem⟩ := (hturn 0 hpos).2
    refine ⟨by omega, hlt, numParentNodes_ne_zero hitem, ?_⟩
    rw [← hnodes]
    exact (stopped_eq_ok_false_iff hpos).mp fun k hk => (hturn k hk).1
  · rintro ⟨hsize, hlt, hparents, hcallback⟩
    have hnodes : maxN.toNat = fullSize.toNat / 64 := hmaxN ▸ toNat_maxN hlt
    have hpos : 0 < maxN.toNat := by omega
    have hne : maxN ≠ 0 := fun h0 => by
      rw [h0] at hpos
      exact Nat.lt_irrefl 0 hpos
    rw [← hnodes] at hcallback
    have hstop := (stopped_eq_ok_false_iff hpos).mpr hcallback
    have hchange : progressChange maxN = .ok () := if_neg hne
    have hloop : ∃ full, visitFrom H512 light callback maxN maxN.toNat 0 mem =
        .ok (true, full, List.range' 0 maxN.toNat) :=
      visitFrom_ok (hlight.readable hparents) (by omega) fun k _ hk => hstop k (by omega)
    obtain ⟨full, hfull⟩ := hloop
    refine ⟨true, full, ?_⟩
    rw [hchange, ok_bind, hfull, List.range_eq_range', hnodes]

/-! ## The nodes that are asked for -/

theorem mixWord_lt (i : Fin 64) : i.val % 32 < 32 := Nat.mod_lt _ (by decide)

/-- One access, with the indices of its nodes. -/
def accessUsed (dagNode : BitVec 32 → Except Fault HashNode) (numFullPages : BitVec 32)
    (seed : HashNode) (state : Mix × List (BitVec 32)) (i : Fin 64) :
    Except Fault (Mix × List (BitVec 32)) := do
  let index ← umod (fnvHash (firstWord seed ^^^ BitVec.ofNat 32 i)
    (state.1.get ⟨i % 32, mixWord_lt i⟩)) numFullPages
  let mix ← mixPage dagNode index state.1
  return (mix, state.2 ++ [2 * index, 2 * index + 1])

theorem seedWord_lt (w : Fin 32) : w.val % 16 < 16 := Nat.mod_lt _ (by decide)

/-- The 64 accesses, with the indices of all their nodes. -/
def accessesUsed (dagNode : BitVec 32 → Except Fault HashNode) (numFullPages : BitVec 32)
    (seed : HashNode) : Except Fault (Mix × List (BitVec 32)) :=
  (List.finRange 64).foldlM (accessUsed dagNode numFullPages seed)
    (Vector.ofFn fun w : Fin 32 => seed.get ⟨w % 16, seedWord_lt w⟩, [])

/-- `krnl_ethash_func`, with the indices of the nodes that it asks for. -/
def krnlUsed (H512 : List (BitVec 8) → Vector (BitVec 8) 64)
    (H256 : List (BitVec 8) → Vector (BitVec 8) 32) (sMix : Vector HashNode 3) (ret : ReturnValue)
    (fullNodes : Option (Array HashNode)) (light : Light) (fullSize : BitVec 64)
    (headerHash : Vector (BitVec 8) 32) : Except Fault (ReturnValue × List (BitVec 32)) :=
  if fullSize % 32 ≠ 0 then return (ret, [])
  else do
    let seed := seedNode H512 sMix headerHash
    let numFullPages : BitVec 32 := (fullSize / 128).setWidth 32
    let used ← accessesUsed (dagNode H512 fullNodes light) numFullPages seed
    return (writeResult H256 seed used.1 ret, used.2)

section

variable {dagNode : BitVec 32 → Except Fault HashNode} {pages : BitVec 32} {seed : HashNode}

theorem map_accessUsed (state : Mix × List (BitVec 32)) (i : Fin 64) :
    (accessUsed dagNode pages seed state i).map Prod.fst = access dagNode pages seed state.1 i := by
  rw [accessUsed, access]
  cases umod (fnvHash (firstWord seed ^^^ BitVec.ofNat 32 i)
      (state.1.get ⟨i % 32, mixWord_lt i⟩)) pages with
  | error fault => rfl
  | ok index =>
    rw [ok_bind, ok_bind]
    cases mixPage dagNode index state.1 with
    | error fault => rfl
    | ok mix => rfl

/-- The accesses are those of `krnl_ethash_func`. -/
theorem map_accessesUsed :
    (accessesUsed dagNode pages seed).map Prod.fst = accesses dagNode pages seed := by
  rw [accessesUsed, accesses]
  exact map_foldlM map_accessUsed _ _

/-- **The nodes of an access are below twice the number of pages.**  The index may wrap in 32 bits,
which makes it smaller. -/
theorem toNat_lt_of_mem_accessUsed {state state' : Mix × List (BitVec 32)} {i : Fin 64}
    (h : accessUsed dagNode pages seed state i = .ok state') :
    ∀ k ∈ state'.2, k ∈ state.2 ∨ k.toNat < 2 * pages.toNat := by
  obtain ⟨index, hindex, h⟩ := except_bind_eq_ok.mp h
  obtain ⟨mix, -, h⟩ := except_bind_eq_ok.mp h
  have hlt : index.toNat < pages.toNat := by
    obtain ⟨h0, rfl⟩ := umod_eq_ok hindex
    exact toNat_mod_lt _ h0
  intro k hk
  rw [← Except.ok.inj h] at hk
  rcases List.mem_append.mp hk with hold | hnew
  · exact .inl hold
  · right
    have htwice : (2 * index).toNat ≤ 2 * index.toNat := by
      rw [BitVec.toNat_mul]
      exact Nat.mod_le _ _
    have hnext : (2 * index + 1).toNat ≤ 2 * index.toNat + 1 := by
      rw [BitVec.toNat_add]
      exact Nat.le_trans (Nat.mod_le _ _) (Nat.add_le_add_right htwice 1)
    rcases List.mem_cons.mp hnew with rfl | hlast
    · omega
    · rw [List.mem_singleton.mp hlast]
      omega

/-- All the nodes that are asked for. -/
theorem toNat_lt_of_mem_accessesUsed {used : Mix × List (BitVec 32)}
    (h : accessesUsed dagNode pages seed = .ok used) :
    ∀ k ∈ used.2, k.toNat < 2 * pages.toNat := by
  refine of_foldlM_eq_ok (P := fun state => ∀ k ∈ state.2, k.toNat < 2 * pages.toNat)
    (fun state i state' hstate hstep k hk => ?_) (fun k hk => absurd hk List.not_mem_nil) h
  exact (toNat_lt_of_mem_accessUsed hstep k hk).elim (hstate k) id

/-- **The accesses come back** if there are pages, and every node below twice their number. -/
theorem exists_accessesUsed (hpages : pages ≠ 0)
    (hnode : ∀ k : BitVec 32, k.toNat < 2 * pages.toNat → ∃ node, dagNode k = .ok node) :
    ∃ used, accessesUsed dagNode pages seed = .ok used := by
  refine exists_foldlM_ok (fun state i => ?_) _ _
  have hlt := toNat_mod_lt (fnvHash (firstWord seed ^^^ BitVec.ofNat 32 i)
    (state.1.get ⟨i % 32, mixWord_lt i⟩)) hpages
  rw [accessUsed, umod_of_ne_zero _ hpages, ok_bind]
  generalize fnvHash (firstWord seed ^^^ BitVec.ofNat 32 i)
    (state.1.get ⟨i % 32, mixWord_lt i⟩) % pages = index at hlt ⊢
  have hpage : ∃ mix, mixPage dagNode index state.1 = .ok mix := by
    refine exists_foldlM_ok (fun mix n => ?_) _ _
    have hk : (2 * index + BitVec.ofNat 32 n).toNat < 2 * pages.toNat := by
      have hle : (2 * index + BitVec.ofNat 32 n).toNat ≤ 2 * index.toNat + n := by
        rw [BitVec.toNat_add, BitVec.toNat_mul, BitVec.toNat_ofNat]
        exact Nat.le_trans (Nat.mod_le _ _)
          (Nat.add_le_add (Nat.mod_le _ _) (Nat.mod_le _ _))
      omega
    obtain ⟨node, hnode⟩ := hnode _ hk
    exact ⟨mixNode mix n node, by rw [hnode, ok_bind]; rfl⟩
  obtain ⟨mix, hmix⟩ := hpage
  exact ⟨_, by rw [hmix, ok_bind]; rfl⟩

/-- **What the first access needs**: pages, and a node of the DAG. -/
theorem of_accessesUsed_eq_ok {used : Mix × List (BitVec 32)}
    (h : accessesUsed dagNode pages seed = .ok used) :
    pages ≠ 0 ∧ ∃ k node, dagNode k = .ok node := by
  rw [accessesUsed, List.finRange_succ, List.foldlM_cons] at h
  obtain ⟨state, hstate, -⟩ := except_bind_eq_ok.mp h
  obtain ⟨index, hindex, hstate⟩ := except_bind_eq_ok.mp hstate
  obtain ⟨mix, hmix, -⟩ := except_bind_eq_ok.mp hstate
  refine ⟨(umod_eq_ok hindex).1, ?_⟩
  rw [mixPage, List.finRange_succ, List.foldlM_cons] at hmix
  obtain ⟨mix', hmix', -⟩ := except_bind_eq_ok.mp hmix
  obtain ⟨node, hnode, -⟩ := except_bind_eq_ok.mp hmix'
  exact ⟨_, node, hnode⟩

end

section

variable {H256 : List (BitVec 8) → Vector (BitVec 8) 32} {fullSize : BitVec 64}
  {fullNodes : Option (Array HashNode)} {sMix : Vector HashNode 3} {ret : ReturnValue}
  {headerHash : Vector (BitVec 8) 32}

/-- `krnlUsed` returns what `krnl_ethash_func` returns. -/
theorem map_krnlUsed (nonce : BitVec 64) :
    (krnlUsed H512 H256 sMix ret fullNodes light fullSize headerHash).map Prod.fst =
      krnlEthashFunc H512 H256 sMix ret fullNodes light fullSize headerHash nonce := by
  rw [krnlUsed, krnlEthashFunc]
  by_cases hguard : fullSize % 32 ≠ 0
  · rw [if_pos hguard, if_pos hguard]
    rfl
  · rw [if_neg hguard, if_neg hguard]
    dsimp only
    rw [← map_accessesUsed]
    cases accessesUsed (dagNode H512 fullNodes light) ((fullSize / 128).setWidth 32)
        (seedNode H512 sMix headerHash) with
    | error fault => rfl
    | ok used => rfl

/-- **When `krnl_ethash_func` divides by no zero and asks for nodes of the DAG**: for a number of
pages that is not cut to zero and, where the nodes are computed, a cache whose number of nodes is
not cut to zero. -/
theorem krnlUsed_iff (hlight : light.Backed) (hmod : fullSize.toNat % 32 = 0)
    (hnodes : ∀ nodes, fullNodes = some nodes → fullSize.toNat / 64 ≤ nodes.size) :
    (∃ r used, krnlUsed H512 H256 sMix ret fullNodes light fullSize headerHash = .ok (r, used) ∧
        ∀ k ∈ used, k.toNat < fullSize.toNat / 64) ↔
      fullSize.toNat / 128 % 2 ^ 32 ≠ 0 ∧ (fullNodes = none → light.numParentNodes ≠ 0) := by
  have hguard : ¬ fullSize % 32 ≠ 0 := not_not_intro (BitVec.toNat_inj.mp hmod)
  obtain ⟨pages, hpages⟩ : ∃ pages : BitVec 32, pages = (fullSize / 128).setWidth 32 := ⟨_, rfl⟩
  have hcut : pages.toNat = fullSize.toNat / 128 % 2 ^ 32 := by
    rw [hpages, BitVec.toNat_setWidth, BitVec.toNat_udiv]
    rfl
  have hne : pages ≠ 0 ↔ fullSize.toNat / 128 % 2 ^ 32 ≠ 0 := by
    rw [← hcut, Ne, ← BitVec.toNat_inj]
    rfl
  have hle : 2 * pages.toNat ≤ fullSize.toNat / 64 := by omega
  rw [krnlUsed, if_neg hguard]
  dsimp only
  rw [← hpages, ← hne]
  constructor
  · rintro ⟨r, used, h, -⟩
    obtain ⟨state, hstate, -⟩ := except_bind_eq_ok.mp h
    obtain ⟨hpages0, k, node, hnode⟩ := of_accessesUsed_eq_ok hstate
    refine ⟨hpages0, fun hnone => ?_⟩
    rw [hnone] at hnode
    exact numParentNodes_ne_zero hnode
  · rintro ⟨hpages0, hparents⟩
    have hnode : ∀ k : BitVec 32, k.toNat < 2 * pages.toNat →
        ∃ node, dagNode H512 fullNodes light k = .ok node := by
      intro k hk
      cases fullNodes with
      | none => exact exists_computeDagItem H512 (hlight.readable (hparents rfl)) k
      | some nodes =>
        have hsize := hnodes nodes rfl
        exact ⟨_, load_of_lt (by omega)⟩
    have hreturns : ∃ used, accessesUsed (dagNode H512 fullNodes light) pages
        (seedNode H512 sMix headerHash) = .ok used := exists_accessesUsed hpages0 hnode
    obtain ⟨used, hused⟩ := hreturns
    refine ⟨_, used.2, by rw [hused, ok_bind]; rfl, fun k hk => ?_⟩
    have hlt := toNat_lt_of_mem_accessesUsed hused k hk
    omega

end

/-! ## Both functions -/

/-- **The checks of the sizes**, and what has to hold besides.  The cache has the nodes that its
size counts, and `mem` and `full_nodes` have room for the nodes of the DAG. -/
theorem sizeGuards_iff (H512 : List (BitVec 8) → Vector (BitVec 8) 64)
    (H256 : List (BitVec 8) → Vector (BitVec 8) 32) {light : Light} (hlight : light.Backed)
    (fullSize : BitVec 64) :
    (fullSize.toNat % 128 = 0 → ∀ (callback : Option (ℕ → Bool)) (mem : Array HashNode),
      fullSize.toNat / 64 ≤ mem.size →
      ((∃ stop full, visitFullDag H512 mem fullSize light callback =
          .ok (stop, full, List.range (fullSize.toNat / 64))) ↔
        0 < fullSize.toNat ∧ fullSize.toNat < 2 ^ 38 ∧ light.numParentNodes ≠ 0 ∧
          NeverStops callback (fullSize.toNat / 64))) ∧
    (fullSize.toNat % 32 = 0 → ∀ (fullNodes : Option (Array HashNode)) (sMix : Vector HashNode 3)
      (ret : ReturnValue) (headerHash : Vector (BitVec 8) 32),
      (∀ nodes, fullNodes = some nodes → fullSize.toNat / 64 ≤ nodes.size) →
      ((∃ r used, krnlUsed H512 H256 sMix ret fullNodes light fullSize headerHash =
            .ok (r, used) ∧ ∀ k ∈ used, k.toNat < fullSize.toNat / 64) ↔
        fullSize.toNat / 128 % 2 ^ 32 ≠ 0 ∧ (fullNodes = none → light.numParentNodes ≠ 0))) := by
  constructor
  · intro hmod callback mem hroom
    exact visitFullDag_iff hlight hmod hroom
  · intro hmod fullNodes sMix ret headerHash hnodes
    exact krnlUsed_iff hlight hmod hnodes

/-- A cache of one node. -/
def oneNode : Light := ⟨Array.replicate 1 (Vector.replicate 16 0), 64⟩

theorem oneNode_backed : oneNode.Backed := ⟨rfl, Nat.one_pos⟩

/-- A hash of zeros. -/
def zeros512 (_ : List (BitVec 8)) : Vector (BitVec 8) 64 := Vector.replicate 64 0

/-- A hash of zeros. -/
def zeros256 (_ : List (BitVec 8)) : Vector (BitVec 8) 32 := Vector.replicate 32 0

/-- One page, without a callback and without an array. -/
theorem sizeGuards_one_page :
    (∃ stop full, visitFullDag zeros512 (Array.replicate 2 (Vector.replicate 16 0)) 128 oneNode
        none = .ok (stop, full, List.range 2)) ∧
      ∃ r used, krnlUsed zeros512 zeros256 (Vector.replicate 3 (Vector.replicate 16 0))
          ⟨Vector.replicate 32 0, Vector.replicate 32 0, false⟩ none oneNode 128
          (Vector.replicate 32 0) = .ok (r, used) ∧ ∀ k ∈ used, k.toNat < 2 := by
  have hguards := sizeGuards_iff zeros512 zeros256 oneNode_backed 128
  have hparents : oneNode.numParentNodes ≠ 0 := by decide
  constructor
  · refine (hguards.1 (by decide) none _ (by simp)).mpr ⟨by decide, by decide, hparents, ?_⟩
    intro answer h
    cases h
  · refine (hguards.2 (by decide) none _ _ _ ?_).mpr ⟨by decide, fun _ => hparents⟩
    intro nodes h
    cases h

/-- Sizes that pass the checks, and are divided by zero: two nodes are less than a hundred, no node
at all, and half a page. -/
theorem divisions_by_zero :
    visitFullDag zeros512 (Array.replicate 2 (Vector.replicate 16 0)) 128 oneNode
        (some fun _ => false) = .error .divisionByZero ∧
      visitFullDag zeros512 (Array.replicate 2 (Vector.replicate 16 0)) 0 oneNode none =
        .error .divisionByZero ∧
      krnlUsed zeros512 zeros256 (Vector.replicate 3 (Vector.replicate 16 0))
          ⟨Vector.replicate 32 0, Vector.replicate 32 0, false⟩ none oneNode 64
          (Vector.replicate 32 0) = .error .divisionByZero :=
  ⟨rfl, rfl, rfl⟩

end Host
end FpgaEthash
