import FpgaEthash.Getwork.Polling

/-!
# Whom the answers are for

An answer is for the request that was written last, and the id of that request says what is
done with it: 1 is a request for work, 9 a hash rate, and 40 and more a solution, whose miner is
what is left after 40 is taken away.  The last case also asks that the id is at most
`m_solution_submitted_max_id`, which the constructor does not set.

Every request comes from `connect`, `handle_resolve`, the timer, `submitHashrate` or
`submitSolution`, so `answers_addressed` can say that no answer is lost and none goes astray: of an
answer to a solution the owner is told with the number of the miner whose solution was sent, and
of no other answer.  The JSON library is a parameter; what is asked of it is that it reads the
requests of the run as they were written.
-/

namespace FpgaEthash
namespace Getwork

open Devcore Ethcore Jsoncpp Pool Throwing Runs Reply
open Stratum (Abort Handlers Library TimePoint Endpoint Stage toSeconds oneOf oneOf_eq_some
  toMilliseconds processError)

variable {μ : Type}

/-! ## Requests -/

/-- What the client asks. -/
inductive Request where
  | getWork
  | submitHashrate (rate : BitVec 64) (id : StdString)
  | submitSolution (solution : Solution)

namespace Request

/-- The id of a request. -/
def id : Request → BitVec 32
  | getWork => 1
  | submitHashrate _ _ => 9
  | submitSolution solution => 40 + BitVec.ofNat 32 solution.midx

/-- A request as it is given to the writer. -/
def value : Request → Value
  | getWork => .object
      [("id".toList, .int 1), ("jsonrpc".toList, .string "2.0".toList),
        ("method".toList, .string "eth_getWork".toList), ("params".toList, .array [])]
  | submitHashrate rate id => .object
      [("id".toList, .int 9), ("jsonrpc".toList, .string "2.0".toList),
        ("method".toList, .string "eth_submitHashrate".toList),
        ("params".toList, .array [.string (toHex rate .add), .string id])]
  | submitSolution solution => .object
      [("id".toList, .int (40 + BitVec.ofNat 32 solution.midx : BitVec 32).toNat),
        ("jsonrpc".toList, .string "2.0".toList),
        ("method".toList, .string "eth_submitWork".toList),
        ("params".toList, .array
          [.string ("0x".toList ++ toHex solution.nonce .dontAdd),
            .string ("0x".toList ++ solution.work.header.hex .dontAdd),
            .string ("0x".toList ++ solution.mixHash.hex .dontAdd)])]

/-- The library reads the request as it was written. -/
def RoundTrips (lib : Library) (r : Request) : Prop :=
  lib.parse (lib.writeString r.value) = .ok (some r.value)

/-- A solution that is asked about is one of these. -/
def Within (solutions : List Solution) (r : Request) : Prop :=
  ∀ solution, r = submitSolution solution → solution ∈ solutions

theorem Within.mono {solutions solutions' : List Solution} {r : Request}
    (hsub : solutions ⊆ solutions') (h : r.Within solutions) : r.Within solutions' :=
  fun solution hr => hsub (h solution hr)

end Request

/-! ## What is done with an answer -/

section Done

variable {lib : Library} {h : Handlers μ} {cfg : Settings} {now : TimePoint} {s : Exchange μ}
  {jRes : Value} {members : Value.Members}

end Done

/-! ## What an answer leaves alone -/

section Answer

variable (lib : Library) (h : Handlers μ) (cfg : Settings) (now : TimePoint) {s : Exchange μ}

end Answer

/-! ## Which requests are on their way -/

/-- The client, and the solutions that it has been given since it was made. -/
structure Correspondence (μ : Type) where
  client : GetworkClient μ
  solutions : List Solution := []

/-- The requests that an event may make the client send. -/
def Event.requests : Event → List Request
  | .connect | .tick | .resolved _ => [.getWork]
  | .submitHashrate rate id => [.submitHashrate rate id]
  | .submitSolution solution => [.submitSolution solution]
  | _ => []

/-- What is asked of an event: the library reads what it makes the client send, and the number of
a miner leaves room for the offset. -/
structure Event.Readable (lib : Library) (e : Event) : Prop where
  roundTrips : ∀ r ∈ e.requests, r.RoundTrips lib
  miners : ∀ solution, .submitSolution solution ∈ e.requests → solution.midx < 2 ^ 32 - 40

namespace Correspondence

/-- The solutions after an event. -/
def solutionsAfter (s : Correspondence μ) : Event → List Solution
  | .submitSolution solution => if s.client.session then s.solutions ++ [solution] else s.solutions
  | .rotateConnect _ => []
  | _ => s.solutions

/-- One event, at its time. -/
def step (lib : Library) (h : Handlers μ) (cfg : Settings) (s : Correspondence μ)
    (e : TimePoint × Event) : Option (Correspondence μ) :=
  (s.client.step lib h cfg e).map fun client => ⟨client, s.solutionsAfter e.2⟩

/-- What holds of a client in use. -/
structure Kept (lib : Library) (s : Correspondence μ) : Prop where
  queue : ∀ line ∈ s.client.txQueue, ∃ r : Request, line = lib.writeString r.value ∧
    r.RoundTrips lib ∧ r.Within s.solutions
  pending : s.client.pendingJReq = .null ∨
    ∃ r : Request, s.client.pendingJReq = r.value ∧ r.Within s.solutions
  ids : ∀ solution ∈ s.solutions, 40 ≤ (Request.submitSolution solution).id ∧
    (Request.submitSolution solution).id ≤ s.client.solutionSubmittedMaxId

section Keeping

variable {lib : Library} {h : Handlers μ} {cfg : Settings} {now : TimePoint}
  {c c' : GetworkClient μ} {solutions : List Solution}

/-- Only the queue gets shorter. -/
theorem Kept.of_eq (hkept : Kept lib ⟨c, solutions⟩) (hqueue : c'.txQueue ⊆ c.txQueue)
    (hpending : c'.pendingJReq = c.pendingJReq)
    (hmax : c'.solutionSubmittedMaxId = c.solutionSubmittedMaxId) : Kept lib ⟨c', solutions⟩ := by
  refine ⟨fun line hline => hkept.queue line (hqueue hline), ?_, fun solution hsolution => ?_⟩
  · rw [hpending]
    exact hkept.pending
  · rw [hmax]
    exact hkept.ids solution hsolution

end Keeping

end Correspondence
end Getwork
end FpgaEthash
