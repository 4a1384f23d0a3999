import FpgaEthash.Ethcore.SubmitProof
import FpgaEthash.Ethcore.TelemetryEntries
import FpgaEthash.Stratum.Solutions

/-!
# The rig: farm, manager and client

A solution passes through three hands.  A miner gives it to `Farm::submitProof`, which posts
it.  `Farm::submitProofAsync` evaluates it and calls the handler of the pool manager, and the
handler gives it to the client, if there is a connection.  What the pool says comes back
through `processResponse`, and the manager's handlers call `Farm::accountSolution`.

`Rig` is the three together.  An event is an operation of the farm, a solution on its way, a
message of the pool, or the making and losing of a connection; events come in any order.

## The counters add up

`accountSolution` counts for the farm first and for the miner behind a bounds check, and the
index comes from the network.  The check never fails (`countersAddUp`), because every bound
on an index is a bound by the number of telemetry entries, and that number only grows:

* a miner's index is its position in `m_miners`, and each miner came with an entry;
* a posted solution has the index of a miner, at the time it was posted;
* the maximal id of a connection is 40 plus such an index, or less;
* a response is taken for one to a submission only up to that maximum.
-/

namespace FpgaEthash
namespace Pool

open Devcore Ethcore Jsoncpp Stratum Throwing Runs

/-! ## The farm and its accounts -/

/-- The farm with the accounts of its telemetry.  `threw` says that an exception has left
`accountSolution`. -/
structure AccountedFarm where
  farm : Farm
  telemetry : Telemetry := {}
  threw : Bool := false
  deriving DecidableEq

namespace AccountedFarm

/-- The farm after an operation.  Each entry that it has pushed comes with an account. -/
def withFarm (w : AccountedFarm) (farm : Farm) : AccountedFarm :=
  { w with
    farm
    telemetry := { w.telemetry with
      miners := w.telemetry.miners ++
        List.replicate (farm.telemetryMiners.length - w.telemetry.miners.length) {} } }

/-- `accountSolution`. -/
def account (minerIdx : ℕ) (accounting : SolutionAccountingEnum) :
    EStateM StdException AccountedFarm Unit := fun w =>
  match accountSolution minerIdx accounting w.telemetry with
  | .ok _ telemetry => .ok () { w with telemetry }
  | .error e telemetry => .error e { w with telemetry, threw := true }

/-- What the handler of `onConnected` does to the farm; `draw` is what the random device
yields. -/
def onConnected (draw : BitVec 64) (w : AccountedFarm) : AccountedFarm :=
  let farm := if w.farm.settings.ergodicity = 1 then w.farm.shuffle draw else w.farm
  w.withFarm (if !farm.isMining then farm.start else if farm.paused then farm.resume else farm)

/-- The handlers that `setClientHandlers` sets, as far as `processResponse` calls them. -/
def handlers (draw : BitVec 64) : Handlers AccountedFarm where
  onConnected := modify (onConnected draw)
  onSolutionAccepted _ minerIdx _ := account minerIdx.toNat .accepted
  onSolutionRejected _ minerIdx := account minerIdx.toNat .rejected

theorem handlers_accounts (draw : BitVec 64) : Accounts (handlers draw) account :=
  ⟨fun _ _ _ => rfl, fun _ _ => rfl⟩

/-! ### What an operation of the farm does to the accounts -/

/-- Every entry has an account, and the miners have theirs among them. -/
structure Tied (w : AccountedFarm) : Prop where
  length : w.telemetry.miners.length = w.farm.telemetryMiners.length
  indexed : w.farm.Indexed

/-- The accounts that there are stay as they are, and new ones are empty. -/
structure Grows (w w' : AccountedFarm) : Prop where
  farm : w'.telemetry.farm = w.telemetry.farm
  miners : ∃ n, w'.telemetry.miners =
    w.telemetry.miners ++ List.replicate n ({} : SolutionAccountType)
  threw : w'.threw = w.threw
  tied : Tied w → Tied w'

theorem Grows.refl (w : AccountedFarm) : Grows w w :=
  ⟨rfl, ⟨0, (List.append_nil _).symm⟩, rfl, id⟩

theorem Grows.trans {w w' w'' : AccountedFarm} (h : Grows w w') (h' : Grows w' w'') :
    Grows w w'' := by
  obtain ⟨n, hn⟩ := h.miners
  obtain ⟨n', hn'⟩ := h'.miners
  refine ⟨h'.farm.trans h.farm, ⟨n + n', ?_⟩, h'.threw.trans h.threw, fun ht => h'.tied (h.tied ht)⟩
  rw [hn', hn, List.append_assoc, ← List.replicate_add]

theorem grows_withFarm (w : AccountedFarm) {farm : Farm}
    (hindexed : w.farm.Indexed → farm.Indexed)
    (hle : w.farm.telemetryMiners.length ≤ farm.telemetryMiners.length) :
    Grows w (w.withFarm farm) := by
  refine ⟨rfl, ⟨_, rfl⟩, rfl, fun htied => ⟨?_, hindexed htied.indexed⟩⟩
  rw [← htied.length] at hle
  simp only [withFarm, List.length_append, List.length_replicate]
  omega

theorem grows_perform (w : AccountedFarm) (ethash : EthashLibrary) (op : Farm.Operation)
    {farm : Farm} (h : w.farm.perform ethash op = some farm) : Grows w (w.withFarm farm) :=
  w.grows_withFarm (fun hindexed => hindexed.perform h) (Farm.le_length_perform h)

theorem grows_onConnected (draw : BitVec 64) (w : AccountedFarm) :
    Grows w (w.onConnected draw) := by
  unfold onConnected
  dsimp only
  set farm := if w.farm.settings.ergodicity = 1 then w.farm.shuffle draw else w.farm with hfarm
  have hsame : (w.farm.Indexed → farm.Indexed) ∧
      farm.telemetryMiners = w.farm.telemetryMiners := by
    rw [hfarm]
    split_ifs
    · exact ⟨fun hindexed => hindexed.shuffle draw, rfl⟩
    · exact ⟨id, rfl⟩
  have hoperation : ∀ (op : Farm.Operation) (g : Farm), farm.perform default op = some g →
      Grows w (w.withFarm g) := fun op g hg =>
    w.grows_withFarm (fun hindexed => (hsame.1 hindexed).perform hg)
      (hsame.2 ▸ Farm.le_length_perform hg)
  split_ifs
  · exact hoperation .start _ rfl
  · exact hoperation .resume _ rfl
  · exact w.grows_withFarm hsame.1 (Nat.le_of_eq (congrArg List.length hsame.2.symm))

/-! ### The books -/

/-- Each counter of the farm is the sum of the miners' counters, in their arithmetic, and as
numbers as long as that sum fits.  No account was missing. -/
structure AddsUp (w : AccountedFarm) : Prop where
  threw : w.threw = false
  sum : ∀ kind, w.telemetry.farm.counter kind = w.telemetry.sumOf kind
  natSum : ∀ kind, w.telemetry.natSumOf kind < 2 ^ 32 →
    (w.telemetry.farm.counter kind).toNat = w.telemetry.natSumOf kind

theorem AddsUp.of_sum {w : AccountedFarm} (hthrew : w.threw = false)
    (hsum : ∀ kind, w.telemetry.farm.counter kind = w.telemetry.sumOf kind) : AddsUp w := by
  refine ⟨hthrew, hsum, fun kind hlt => ?_⟩
  rw [hsum kind, Telemetry.toNat_sumOf, Nat.mod_eq_of_lt hlt]

theorem AddsUp.grows {w w' : AccountedFarm} (h : AddsUp w) (hgrows : Grows w w') : AddsUp w' := by
  obtain ⟨n, hn⟩ := hgrows.miners
  refine .of_sum (hgrows.threw.trans h.threw) fun kind => ?_
  rw [hgrows.farm, h.sum kind, Telemetry.sumOf, Telemetry.sumOf, hn,
    Telemetry.sum_append_replicate]

theorem account_of_lt {w : AccountedFarm} {minerIdx : ℕ} (accounting : SolutionAccountingEnum)
    (h : minerIdx < w.telemetry.miners.length) :
    leaves (account minerIdx accounting) w = { w with telemetry :=
      { farm := w.telemetry.farm.count accounting
        miners := w.telemetry.miners.modify minerIdx (·.count accounting) } } := by
  rw [leaves, account, Telemetry.accountSolution_of_lt accounting h]

/-- **One solution is accounted for.** -/
theorem AddsUp.account {w : AccountedFarm} (h : AddsUp w) {minerIdx : ℕ}
    (accounting : SolutionAccountingEnum) (hlt : minerIdx < w.telemetry.miners.length) :
    AddsUp (leaves (account minerIdx accounting) w) := by
  rw [account_of_lt accounting hlt]
  refine .of_sum h.threw fun kind => ?_
  rw [SolutionAccountType.counter_count, h.sum kind]
  exact (Telemetry.sum_modify_count accounting kind w.telemetry.miners hlt).symm

end AccountedFarm

/-! ## The rig -/

/-- The client with the farm as its owner, `p_client && p_client->isConnected()`, the
solutions that `submitProof` has posted, the number of those that `submitProofAsync` has
handled, and the ids of the submissions that were sent on this connection and not answered
yet. -/
structure Rig where
  exchange : Exchange AccountedFarm
  isConnected : Bool := false
  posted : List Solution := []
  handled : ℕ := 0
  awaiting : List (BitVec 32) := []

/-- What happens to a rig.

* `submitProof`: a miner hands in a solution; `submitProofAsync`: the oldest is handled.
* `response`: a message of the pool.
* `connected`: a socket is connected, `disconnect`: the client stops sending, and
  `disconnected`: it is shut down and calls `m_onDisconnected`.
* `rotateConnect`: the manager makes a new client, for the same pool or another. -/
inductive Rig.Event where
  | farm (op : Farm.Operation)
  | submitProof (solution : Solution)
  | submitProofAsync (now : TimePoint)
  | response (now : TimePoint) (draw : BitVec 64) (m : Value)
  | connected (now : TimePoint)
  | disconnect
  | disconnected (now : TimePoint)
  | rotateConnect (conn : Uri) (now : TimePoint)

namespace Rig

/-- The farm and its accounts. -/
def works (s : Rig) : AccountedFarm := s.exchange.owner

/-- The farm has done something. -/
def withWorks (s : Rig) (owner : AccountedFarm) : Rig :=
  { s with exchange := { s.exchange with owner } }

/-- The handler of `onSolutionFound`.  `none` says that an exception leaves it. -/
def onSolutionFound (now : TimePoint) (sol : Solution) (s : Rig) : Option Rig :=
  if s.isConnected then
    match submit now sol s.exchange with
    | .ok _ exchange => some
        { s with
          exchange
          awaiting := if s.exchange.isAuthorized then submissionId sol :: s.awaiting
            else s.awaiting }
    | .error _ _ => none
  else some s

/-- `submitProofAsync`. -/
def handleProof (noEval : Bool) (eval : ℤ → H256 → BitVec 64 → Result) (now : TimePoint)
    (solution : Solution) (s : Rig) : Option Rig :=
  let s := { s with handled := s.handled + 1 }
  match Ethcore.submitProofAsync noEval eval solution with
  | .accounted minerIdx accounting =>
    some (s.withWorks (leaves (AccountedFarm.account minerIdx accounting) s.works))
  | .found sol => s.onSolutionFound now sol

/-- The submissions that still await a response after a message. -/
def unanswered (lib : Library) (m : Value) (awaiting : List (BitVec 32)) : List (BitVec 32) :=
  match answers? lib m with
  | some id => awaiting.erase id
  | none => awaiting

/-- A message, and what it leaves of the members. -/
def hear (lib : Library) (m : Value) (exchange : Exchange AccountedFarm) (s : Rig) : Rig :=
  { s with exchange, awaiting := unanswered lib m s.awaiting }

/-- `processResponse`.  The read loop catches what derives from `std::exception`; anything
else ends the program. -/
def processMessage (lib : Library) (now : TimePoint) (draw : BitVec 64) (m : Value) (s : Rig) :
    Option Rig :=
  match processResponse lib (AccountedFarm.handlers draw) now m s.exchange with
  | .ok _ exchange => some (s.hear lib m exchange)
  | .error e exchange => if e.isStdException then some (s.hear lib m exchange) else none

/-- A new connection: `start_connect` forgets the submissions, and `connect_handler` logs
in. -/
def connect (lib : Library) (now : TimePoint) (s : Rig) : Rig :=
  { s with
    exchange := { s.exchange with solutionSubmittedMaxId := 0 }.login lib now
    isConnected := true
    awaiting := [] }

/-- The end of a connection: `disconnect_finalize`, and the handler of `onDisconnected`,
which suspends mining. -/
def release (now : TimePoint) (s : Rig) : Rig :=
  { s with
    exchange := { s.exchange with
      session := none
      authpending := false
      pleas := s.exchange.pleas.clearResponsePleas now
      solutionSubmittedMaxId := 0
      owner := s.works.withFarm s.works.farm.pause }
    isConnected := false
    awaiting := [] }

/-- A new client. -/
def replaceClient (conn : Uri) (now : TimePoint) (s : Rig) : Rig :=
  { s with
    exchange := { conn, pleas := ⟨0, now, []⟩, owner := s.works }
    isConnected := false
    awaiting := [] }

/-- One event.  A solution is handed in by a miner of the farm. -/
def step (lib : Library) (ethash : EthashLibrary) (noEval : Bool)
    (eval : ℤ → H256 → BitVec 64 → Result) (s : Rig) : Event → Option Rig
  | .farm op => (s.works.farm.perform ethash op).map fun farm => s.withWorks (s.works.withFarm farm)
  | .submitProof solution =>
    if s.works.farm.miners.any (·.index == solution.midx) then
      some { s with posted := s.posted ++ [solution] }
    else none
  | .submitProofAsync now =>
    match s.posted with
    | [] => none
    | solution :: posted => ({ s with posted }).handleProof noEval eval now solution
  | .response now draw m => s.processMessage lib now draw m
  | .connected now => some (s.connect lib now)
  | .disconnect => some { s with isConnected := false }
  | .disconnected now => some (s.release now)
  | .rotateConnect conn now => some (s.replaceClient conn now)

/-- A rig as `main` builds it: a farm that has not been started, and a client. -/
def new (farm : Farm) (conn : Uri) (now : TimePoint) : Rig where
  exchange := { conn, pleas := ⟨0, now, []⟩, owner := { farm } }

/-! ## The counters add up -/

variable {s : Rig}

/-- The number of the miners' accounts. -/
def accounts (s : Rig) : ℕ := s.works.telemetry.miners.length

/-- What every event keeps: the counters add up, and every index on its way has an
account. -/
structure Sound (s : Rig) : Prop where
  tied : s.works.Tied
  addsUp : s.works.AddsUp
  posted : ∀ solution ∈ s.posted, solution.midx < s.accounts
  maxId : s.exchange.solutionSubmittedMaxId.toNat < 40 + s.accounts

/-- An event that brings no index in. -/
theorem Sound.of_works (h : Sound s) {t : Rig} (htied : t.works.Tied) (haddsUp : t.works.AddsUp)
    (hle : s.accounts ≤ t.accounts) (hposted : ∀ solution ∈ t.posted, solution ∈ s.posted)
    (hmax : t.exchange.solutionSubmittedMaxId.toNat ≤ s.exchange.solutionSubmittedMaxId.toNat) :
    Sound t where
  tied := htied
  addsUp := haddsUp
  posted solution hmem := Nat.lt_of_lt_of_le (h.posted solution (hposted solution hmem)) hle
  maxId := by
    have hbound := h.maxId
    omega

/-- An event that moves the farm. -/
theorem Sound.of_grows (h : Sound s) {t : Rig} (hgrows : s.works.Grows t.works)
    (hposted : ∀ solution ∈ t.posted, solution ∈ s.posted)
    (hmax : t.exchange.solutionSubmittedMaxId.toNat ≤ s.exchange.solutionSubmittedMaxId.toNat) :
    Sound t := by
  refine h.of_works (hgrows.tied h.tied) (h.addsUp.grows hgrows) ?_ hposted hmax
  obtain ⟨n, hn⟩ := hgrows.miners
  rw [accounts, accounts, hn, List.length_append]
  exact Nat.le_add_right ..

/-- An event that accounts for a solution. -/
theorem Sound.of_account (h : Sound s) {t : Rig} {minerIdx : ℕ}
    {accounting : SolutionAccountingEnum} (hlt : minerIdx < s.accounts)
    (hworks : t.works = leaves (AccountedFarm.account minerIdx accounting) s.works)
    (hposted : ∀ solution ∈ t.posted, solution ∈ s.posted)
    (hmax : t.exchange.solutionSubmittedMaxId.toNat ≤ s.exchange.solutionSubmittedMaxId.toNat) :
    Sound t := by
  have hlength : t.accounts = s.accounts := by
    rw [accounts, hworks, AccountedFarm.account_of_lt accounting hlt]
    exact List.length_modify ..
  refine h.of_works ?_ ?_ (Nat.le_of_eq hlength.symm) hposted hmax
  · refine ⟨?_, ?_⟩
    · rw [← accounts, hlength, hworks, AccountedFarm.account_of_lt accounting hlt]
      exact h.tied.length
    · rw [hworks, AccountedFarm.account_of_lt accounting hlt]
      exact h.tied.indexed
  · rw [hworks]
    exact h.addsUp.account accounting hlt

theorem toNat_submissionId_le (solution : Solution) :
    (submissionId solution).toNat ≤ 40 + solution.midx := by
  rw [submissionId, BitVec.toNat_add, BitVec.toNat_ofNat]
  have hforty : (40 : BitVec 32).toNat = 40 := rfl
  have hmod := Nat.mod_le solution.midx (2 ^ 32)
  have hsum := Nat.mod_le ((40 : BitVec 32).toNat + solution.midx % 2 ^ 32) (2 ^ 32)
  omega

/-- **What becomes of a solution that is passed on**: it is sent, and awaits a response, if the
client is connected and authorized; otherwise nothing happens. -/
theorem onSolutionFound_cases {now : TimePoint} {sol : Solution} {t : Rig}
    (ht : s.onSolutionFound now sol = some t) :
    (¬ (s.isConnected = true ∧ s.exchange.isAuthorized = true) ∧ t = s) ∨
    ((s.isConnected = true ∧ s.exchange.isAuthorized = true) ∧ ∃ pleas sent, t = { s with
      exchange := { s.exchange with
        pleas, sent
        solutionSubmittedMaxId :=
          if s.exchange.solutionSubmittedMaxId < submissionId sol then submissionId sol
          else s.exchange.solutionSubmittedMaxId }
      awaiting := submissionId sol :: s.awaiting }) := by
  unfold onSolutionFound at ht
  by_cases hconnected : s.isConnected = true
  · rw [if_pos hconnected] at ht
    split at ht
    · next u exchange hsubmit =>
      obtain rfl := Option.some.inj ht
      cases hauthorized : s.exchange.isAuthorized with
      | false =>
        rw [submit_of_not_isAuthorized now sol hauthorized] at hsubmit
        obtain ⟨-, rfl⟩ := EStateM.Result.ok.inj hsubmit
        exact .inl ⟨fun hboth => (nomatch hboth.2), rfl⟩
      | true =>
        obtain ⟨pleas, sent, rfl⟩ := submit_of_isAuthorized now sol hauthorized hsubmit
        exact .inr ⟨⟨hconnected, rfl⟩, pleas, sent, rfl⟩
    · exact nomatch ht
  · rw [if_neg hconnected] at ht
    exact .inl ⟨fun hboth => hconnected hboth.1, (Option.some.inj ht).symm⟩

/-- A solution whose miner has an account goes to the client. -/
theorem Sound.onSolutionFound (h : Sound s) {now : TimePoint} {sol : Solution} {t : Rig}
    (hmidx : sol.midx < s.accounts) (ht : s.onSolutionFound now sol = some t) : Sound t := by
  obtain ⟨-, rfl⟩ | ⟨-, pleas, sent, rfl⟩ := onSolutionFound_cases ht
  · exact h
  · have hmax : (if s.exchange.solutionSubmittedMaxId < submissionId sol then submissionId sol
        else s.exchange.solutionSubmittedMaxId).toNat < 40 + s.accounts := by
      split_ifs
      · exact Nat.lt_of_le_of_lt (toNat_submissionId_le sol) (Nat.add_lt_add_left hmidx 40)
      · exact h.maxId
    exact ⟨h.tied, h.addsUp, h.posted, hmax⟩

theorem Sound.handleProof (h : Sound s) {noEval : Bool} {eval : ℤ → H256 → BitVec 64 → Result}
    {now : TimePoint} {solution : Solution} {t : Rig} (hmidx : solution.midx < s.accounts)
    (ht : s.handleProof noEval eval now solution = some t) : Sound t := by
  unfold Rig.handleProof at ht
  obtain ⟨-, houtcome⟩ | ⟨-, mixHash, houtcome⟩ := submitProofAsync_cases noEval eval solution
  · rw [houtcome] at ht
    obtain rfl := Option.some.inj ht
    exact h.of_account hmidx rfl (fun _ hmem => hmem) (Nat.le_refl _)
  · rw [houtcome] at ht
    have hcounted : Sound { s with handled := s.handled + 1 } :=
      ⟨h.tied, h.addsUp, h.posted, h.maxId⟩
    have hsame : ({ solution with mixHash } : Solution).midx < s.accounts := hmidx
    exact hcounted.onSolutionFound hsame ht

/-- **A message leads to the state that `processResponse` leaves**, whether it returns or
throws. -/
theorem processMessage_eq_some {lib : Library} {now : TimePoint} {draw : BitVec 64} {m : Value}
    {t : Rig} (ht : s.processMessage lib now draw m = some t) :
    t = s.hear lib m
      (leaves (processResponse lib (AccountedFarm.handlers draw) now m) s.exchange) := by
  unfold processMessage at ht
  cases hrun : processResponse lib (AccountedFarm.handlers draw) now m s.exchange with
  | ok u exchange =>
    rw [hrun] at ht
    rw [leaves_of_ok hrun]
    exact (Option.some.inj ht).symm
  | error e exchange =>
    rw [hrun] at ht
    dsimp only at ht
    split_ifs at ht
    rw [leaves_of_error hrun]
    exact (Option.some.inj ht).symm

theorem Sound.processMessage (h : Sound s) {lib : Library} {now : TimePoint} {draw : BitVec 64}
    {m : Value} {t : Rig} (ht : s.processMessage lib now draw m = some t) : Sound t := by
  rw [processMessage_eq_some ht]
  cases hreply : solutionReply? lib s.exchange m with
  | none =>
    obtain ⟨hmax, hgrows⟩ := leaves_other lib (AccountedFarm.handlers draw) now
      AccountedFarm.Grows.refl AccountedFarm.Grows.trans
      (AccountedFarm.grows_onConnected draw) hreply
    exact h.of_grows hgrows (fun _ hmem => hmem) (Nat.le_of_eq (congrArg BitVec.toNat hmax))
  | some e =>
    have hleaves := leaves_solutionReply lib (AccountedFarm.handlers draw) now
      (AccountedFarm.handlers_accounts draw) hreply
    obtain ⟨-, -, -, hle, hmax⟩ := (solutionReply?_eq_some lib).mp hreply
    have hindex : (e.id - 40).toNat < s.accounts := by
      have hbound := h.maxId
      rw [BitVec.le_def] at hle hmax
      rw [BitVec.toNat_sub_of_le (BitVec.le_def.mpr hle)]
      have hforty : (40 : BitVec 32).toNat = 40 := rfl
      omega
    rw [hleaves]
    cases hverdict : verdict lib s.exchange.mode e with
    | error exception => exact ⟨h.tied, h.addsUp, h.posted, h.maxId⟩
    | ok kind => exact h.of_account hindex rfl (fun _ hmem => hmem) (Nat.le_refl _)

/-- **The step lemma.** -/
theorem Sound.step (h : Sound s) {lib : Library} {ethash : EthashLibrary} {noEval : Bool}
    {eval : ℤ → H256 → BitVec 64 → Result} {e : Event} {t : Rig}
    (ht : s.step lib ethash noEval eval e = some t) : Sound t := by
  cases e with
  | farm op =>
    obtain ⟨farm, hfarm, rfl⟩ := Option.map_eq_some_iff.mp ht
    exact h.of_grows (s.works.grows_perform ethash op hfarm) (fun _ hmem => hmem) (Nat.le_refl _)
  | submitProof solution =>
    unfold Rig.step at ht
    dsimp only at ht
    split_ifs at ht with hminer
    obtain rfl := Option.some.inj ht
    refine ⟨h.tied, h.addsUp, fun p hp => ?_, h.maxId⟩
    obtain hp | hp := List.mem_append.mp hp
    · exact h.posted p hp
    · obtain rfl := List.mem_singleton.mp hp
      obtain ⟨miner, hmem, hindex⟩ := List.any_eq_true.mp hminer
      rw [← eq_of_beq hindex]
      exact Nat.lt_of_lt_of_eq (h.tied.indexed.index_lt hmem) h.tied.length.symm
  | submitProofAsync now =>
    unfold Rig.step at ht
    dsimp only at ht
    cases hposted : s.posted with
    | nil =>
      rw [hposted] at ht
      cases ht
    | cons solution posted =>
      rw [hposted] at ht
      have hrest : Sound { s with posted } := by
        refine h.of_works h.tied h.addsUp (Nat.le_refl _) (fun p hp => ?_) (Nat.le_refl _)
        rw [hposted]
        exact List.mem_cons_of_mem solution hp
      refine hrest.handleProof (h.posted solution ?_) ht
      rw [hposted]
      exact List.mem_cons_self
  | response now draw m => exact h.processMessage ht
  | connected now =>
    obtain rfl := Option.some.inj ht
    exact h.of_works h.tied h.addsUp (Nat.le_refl _) (fun _ hmem => hmem) (Nat.zero_le _)
  | disconnect =>
    obtain rfl := Option.some.inj ht
    exact ⟨h.tied, h.addsUp, h.posted, h.maxId⟩
  | disconnected now =>
    obtain rfl := Option.some.inj ht
    exact h.of_grows (s.works.grows_perform default .pause rfl)
      (fun _ hmem => hmem) (Nat.zero_le _)
  | rotateConnect conn now =>
    obtain rfl := Option.some.inj ht
    exact h.of_works h.tied h.addsUp (Nat.le_refl _) (fun _ hmem => hmem) (Nat.zero_le _)

theorem sound_new (settings : FarmSettings) (devices : List DeviceSubscriptionTypeEnum)
    (minerRestart : Bool) (scrambler : BitVec 64) (conn : Uri) (now : TimePoint) :
    Sound (new (Farm.new settings devices minerRestart scrambler) conn now) where
  tied := ⟨rfl, Farm.indexed_new settings devices minerRestart scrambler⟩
  addsUp := .of_sum rfl fun kind => SolutionAccountType.counter_default kind
  posted _ hmem := by cases hmem
  maxId := (by decide : (0 : BitVec 32).toNat < 40)

/-- **The counters add up.**  For every rig, and every run of it: no exception leaves
`accountSolution`, and in every state each counter of the farm is the sum of that counter over
`m_telemetry.miners`. -/
theorem countersAddUp (lib : Library) (ethash : EthashLibrary) (noEval : Bool)
    (eval : ℤ → H256 → BitVec 64 → Result) (settings : FarmSettings)
    (devices : List DeviceSubscriptionTypeEnum) (minerRestart : Bool) (scrambler : BitVec 64)
    (conn : Uri) (now : TimePoint) (es : List Event) :
    Along (step lib ethash noEval eval) (fun s => s.works.AddsUp)
      (new (Farm.new settings devices minerRestart scrambler) conn now) es :=
  (along_of_invariant (fun _ _ _ h ht => h.step ht) es _
    (sound_new settings devices minerRestart scrambler conn now)).mono fun _ h => h.addsUp

end Rig
end Pool
end FpgaEthash
