import FpgaEthash.Computation.Throwing
import FpgaEthash.Ethcore.WorkPackage
import FpgaEthash.Pool.Uri
import FpgaEthash.Stratum.ResponsePleas

/-!
# The stratum client: session, jobs, submissions

The parts of `EthStratumClient` that carry a nonce from the pool to the farm and
back: `processExtranonce`, the blocks of `processResponse` that fill a package from
the session, and `submitSolution`.

A function that may throw runs in `EStateM`, which keeps what was assigned before
the exception, as the members of the client do.
-/

namespace FpgaEthash
namespace Stratum

open Devcore Ethcore Pool Throwing

/-! ## The members -/

/-- `Session`, as far as jobs and submissions read it. -/
structure Session where
  authorized : Bool := false
  extraNonce : BitVec 64 := 0
  extraNonceSizeBytes : BitVec 32 := 0
  nextWorkBoundary : H256 :=
    FixedHash.ofBytes 32 ([0, 0, 0, 0, 0xff, 0xff] ++ List.replicate 26 0)
  workerId : StdString := []
  algo : StdString := "ethash".toList
  epoch : BitVec 32 := 0
  deriving DecidableEq

/-- The stratum modes, in the order of their numbers. -/
inductive StratumMode where
  | stratum
  | ethproxy
  | ethereumstratum
  | ethereumstratum2
  deriving DecidableEq, Repr

/-- The parts of the connection's `URI` that a submission reads. -/
structure Connection where
  user : StdString := []
  workername : StdString := []
  stratumMode : StratumMode
  deriving DecidableEq

/-- The members of the JSON object that `submitSolution` sends. -/
structure Request where
  id : BitVec 32
  method : StdString
  jsonrpc : Option StdString := none
  params : List StdString
  worker : Option StdString := none
  deriving DecidableEq

/-- The members of `EthStratumClient` that `submitSolution` touches.  `sent` is what
`send` was given, in order. -/
structure Client where
  conn : Connection
  session : Option Session := none
  solutionSubmittedMaxId : BitVec 32 := 0
  pleas : Pleas
  sent : List Request := []
  deriving DecidableEq

/-! ## The extranonce -/

/-- `processExtranonce`.  The size is stored before the digits are read. -/
def processExtranonce (enonce : StdString) : EStateM StdException Session Unit := do
  modify fun session =>
    { session with extraNonceSizeBytes := BitVec.ofNat 32 enonce.length }
  let extraNonce ← MonadExcept.ofExcept (stoull (enonce.resize 16 '0'))
  modify fun session => { session with extraNonce }

/-! ## Jobs

What `processResponse` does with `m_current` once the texts of a `mining.notify` have
been read. -/

/-- The job of EthereumStratum/1.0.0. -/
def jobEthereumStratum (session : Session) (sSeedHash sHeaderHash : StdString) :
    EStateM StdException WorkPackage Unit := do
  let seed ← MonadExcept.ofExcept (FixedHash.ofString 32 sSeedHash)
  modify fun current => { current with seed }
  let header ← MonadExcept.ofExcept (FixedHash.ofString 32 sHeaderHash)
  modify fun current =>
    { current with
      header
      boundary := session.nextWorkBoundary
      startNonce := session.extraNonce
      exSizeBytes := session.extraNonceSizeBytes.setWidth 16
      block := -1 }

/-- The job of EthereumStratum/2.0.0. -/
def jobEthereumStratum2 (session : Session) (sHeader : StdString) :
    EStateM StdException WorkPackage Unit := do
  let header ← MonadExcept.ofExcept (FixedHash.ofString 32 sHeader)
  modify fun current => { current with header }
  let boundary ← MonadExcept.ofExcept
    (FixedHash.ofString 32 (session.nextWorkBoundary.hex .add))
  modify fun current =>
    { current with
      boundary
      epoch := session.epoch.toInt
      algo := session.algo
      startNonce := session.extraNonce
      exSizeBytes := session.extraNonceSizeBytes.setWidth 16 }

/-! ## Submissions -/

/-- The nonce without the digits that the pool knows. -/
def residualNonce (solution : Solution) : Except StdException StdString :=
  StdString.substr (toHex solution.nonce .dontAdd) solution.work.exSizeBytes.toNat

/-- The request of `submitSolution`, by mode. -/
def solutionRequest (conn : Connection) (session : Session) (solution : Solution) :
    Except StdException Request :=
  let id := 40 + BitVec.ofNat 32 solution.midx
  let worker := if conn.workername = [] then none else some conn.workername
  match conn.stratumMode with
  | .stratum => .ok
      { id, method := "mining.submit".toList, jsonrpc := some "2.0".toList,
        params := [conn.user, solution.work.job, toHex solution.nonce .add,
          solution.work.header.hex .add, solution.mixHash.hex .add],
        worker }
  | .ethproxy => .ok
      { id, method := "eth_submitWork".toList,
        params := [toHex solution.nonce .add, solution.work.header.hex .add,
          solution.mixHash.hex .add],
        worker }
  | .ethereumstratum => do
      let nonce ← residualNonce solution
      .ok { id, method := "mining.submit".toList,
            params := [userDotWorker conn.user conn.workername, solution.work.job, nonce] }
  | .ethereumstratum2 => do
      let nonce ← residualNonce solution
      .ok { id, method := "mining.submit".toList,
            params := [solution.work.job, nonce, session.workerId] }

/-- `submitSolution` at time `now`.  Nothing is sent without authorization. -/
def submitSolution (solution : Solution) (now : TimePoint) :
    EStateM StdException Client Unit := do
  let client ← get
  match client.session with
  | none => pure ()
  | some session =>
    if session.authorized then
      let id := 40 + BitVec.ofNat 32 solution.midx
      modify fun client =>
        { client with
          solutionSubmittedMaxId :=
            if client.solutionSubmittedMaxId < id then id else client.solutionSubmittedMaxId }
      let request ← MonadExcept.ofExcept (solutionRequest client.conn session solution)
      modify fun client =>
        { client with
          pleas := client.pleas.enqueueResponsePlea now
          sent := client.sent ++ [request] }

/-- The parameter of a submission that holds the nonce. -/
def Request.nonceParam (request : Request) : StratumMode → Option StdString
  | .stratum => request.params[2]?
  | .ethproxy => request.params[0]?
  | .ethereumstratum => request.params[2]?
  | .ethereumstratum2 => request.params[1]?

/-! ## What the functions leave -/

/-- A function that comes back after a conversion has made it. -/
theorem exists_of_ofExcept_bind {ε σ α β : Type} {x : Except ε α} {k : α → EStateM ε σ β}
    {s t : σ} {b : β} (h : (MonadExcept.ofExcept x >>= k) s = .ok b t) :
    ∃ a, x = .ok a ∧ k a s = .ok b t := by
  cases x with
  | error e => injection h
  | ok a => exact ⟨a, rfl, h⟩

/-- **What a job takes from the session.** -/
theorem jobEthereumStratum_ok {session : Session} {sSeedHash sHeaderHash : StdString}
    {current next : WorkPackage}
    (h : jobEthereumStratum session sSeedHash sHeaderHash current = .ok () next) :
    next.startNonce = session.extraNonce ∧
      next.exSizeBytes = session.extraNonceSizeBytes.setWidth 16 := by
  obtain ⟨seed, -, h⟩ := exists_of_ofExcept_bind h
  obtain ⟨header, -, h⟩ := exists_of_ofExcept_bind h
  injection h with _ h
  rw [← h]
  exact ⟨rfl, rfl⟩

theorem jobEthereumStratum2_ok {session : Session} {sHeader : StdString}
    {current next : WorkPackage}
    (h : jobEthereumStratum2 session sHeader current = .ok () next) :
    next.startNonce = session.extraNonce ∧
      next.exSizeBytes = session.extraNonceSizeBytes.setWidth 16 := by
  obtain ⟨header, -, h⟩ := exists_of_ofExcept_bind h
  obtain ⟨boundary, -, h⟩ := exists_of_ofExcept_bind h
  injection h with _ h
  rw [← h]
  exact ⟨rfl, rfl⟩

/-- **What a submission leaves**, when the client is authorized and the request can be
made. -/
theorem submitSolution_of_authorized {client : Client} {session : Session}
    {solution : Solution} {request : Request} (now : TimePoint)
    (hsession : client.session = some session) (hauth : session.authorized = true)
    (hrequest : solutionRequest client.conn session solution = .ok request) :
    submitSolution solution now client = .ok ()
      { client with
        solutionSubmittedMaxId :=
          if client.solutionSubmittedMaxId < 40 + BitVec.ofNat 32 solution.midx then
            40 + BitVec.ofNat 32 solution.midx
          else client.solutionSubmittedMaxId
        pleas := client.pleas.enqueueResponsePlea now
        sent := client.sent ++ [request] } := by
  obtain ⟨conn, session?, maxId, pleas, sent⟩ := client
  dsimp only at hsession hrequest
  subst hsession
  unfold submitSolution
  rw [get_bind]
  dsimp only
  rw [if_pos hauth, hrequest]
  rfl

/-- The request of the modes with an extranonce carries the rest of the nonce. -/
theorem solutionRequest_of_residualNonce {conn : Connection} (session : Session)
    {solution : Solution} {field : StdString}
    (hmode : conn.stratumMode = .ethereumstratum ∨ conn.stratumMode = .ethereumstratum2)
    (hfield : residualNonce solution = .ok field) :
    ∃ request, solutionRequest conn session solution = .ok request ∧
      request.nonceParam conn.stratumMode = some field := by
  unfold solutionRequest
  rcases hmode with hmode | hmode
  · rw [hmode, hfield]
    exact ⟨_, rfl, rfl⟩
  · rw [hmode, hfield]
    exact ⟨_, rfl, rfl⟩

end Stratum
end FpgaEthash
