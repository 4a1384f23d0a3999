import FpgaEthash.Stratum.Exchange

/-!
# `processResponse`

What the client does with one message of the pool.  The function of the source is one
chain of branches; here each branch that answers a message of its own kind is a
function, under the comment the source gives it, and `processResponse` is the chain.

* `essentials` is what every message is asked for: its version, id, error and method.
* `processReply` handles the answers to requests of the client, by id.
* `processNotification` handles what the pool sends on its own, by method, and only
  once the stratum mode is confirmed.
* A job comes as `mining.notify`, or in eth-proxy mode as the result of a request.

`now` is the value of `steady_clock::now()` during the call.  What is only logged is
left out, but not what may throw on the way to the log.
-/

namespace FpgaEthash
namespace Stratum

open Devcore Ethcore Jsoncpp Pool Throwing Talk

variable {μ : Type}

/-! ## What every message is asked for -/

/-- The text that `processError` makes of an array of reasons. -/
def errorsText (lib : Library) : List Value → Except Jsoncpp.Exception StdString
  | [] => .ok []
  | i :: is => do
      let text ← i.asString lib.realText
      let rest ← errorsText lib is
      return text ++ ' ' :: rest

/-- The text that `processError` makes of an object. -/
def errorMembersText (lib : Library) : Value.Members → Except Jsoncpp.Exception StdString
  | [] => .ok []
  | (name, v) :: is => do
      let text ← v.asString lib.realText
      let rest ← errorMembersText lib is
      return name ++ ':' :: text ++ ' ' :: rest

/-- `processError`. -/
def processError (lib : Library) (responseObject : Value.Members) :
    Except Jsoncpp.Exception StdString :=
  match responseObject.get "error".toList .null with
  | .null => .ok "Unknown error".toList
  | .array is => errorsText lib is
  | .object is => errorMembersText lib is
  | error => error.asString lib.realText

/-- The essential values of a message. -/
structure Essentials where
  responseObject : Value.Members
  rpcVer : ℕ
  id : BitVec 32
  isSuccess : Bool
  method : StdString
  isNotification : Bool

/-- Retrieve essential values. -/
def essentials (lib : Library) (mode : Option StratumMode) (responseObject : Value) :
    Except Jsoncpp.Exception Essentials := do
  let responseObject ← responseObject.members
  let rpcVer := if responseObject.isMember "jsonrpc".toList then 2 else 1
  let id ← (responseObject.get "id".toList (.int 0)).asUInt
  let isSuccess := (responseObject.get "error".toList .null).empty
  -- the reason is only logged
  let _errReason ← if isSuccess then .ok [] else processError lib responseObject
  let method ← (responseObject.get "method".toList (.string [])).asString lib.realText
  let isNotification := method != [] || id == 0
  -- notifications of new jobs are like responses to get_work requests
  if isNotification && method == [] && mode == some .ethproxy then
    return {
      responseObject := responseObject.touch "result".toList
      rpcVer, id, isSuccess, isNotification
      method := if (responseObject.item "result".toList).isArray then "mining.notify".toList
        else method }
  else return { responseObject, rpcVer, id, isSuccess, method, isNotification }

namespace Essentials

/-- Very minimal sanity checks: `true` for a message that is not valid jsonrpc. -/
def invalid (e : Essentials) : Bool :=
  (e.rpcVer == 2 &&
    match e.responseObject.item "jsonrpc".toList with
    | .string version => version != "2.0".toList
    | _ => true) ||
  (e.isNotification && (e.responseObject.item "params".toList).empty &&
    (e.responseObject.item "result".toList).empty)

/-- The message after the sanity checks have looked at its members. -/
def checked (e : Essentials) : Value.Members :=
  if e.isNotification then
    if (e.responseObject.item "params".toList).empty then
      (e.responseObject.touch "params".toList).touch "result".toList
    else e.responseObject.touch "params".toList
  else e.responseObject

/-- `responseObject.get("result", Json::Value::null)`. -/
def jResult (e : Essentials) : Value := e.checked.get "result".toList .null

end Essentials

/-! ## Jobs -/

/-- The texts of a `mining.notify` in the modes that carry a share target. -/
structure JobTexts where
  sHeaderHash : StdString
  sSeedHash : StdString
  sShareTarget : StdString

/-- An element of `jPrm`, as a string. -/
def prmText (lib : Library) (jPrm : Value) (i : ℕ) : Except Jsoncpp.Exception StdString := do
  let v ← jPrm.getIndex i (.string [])
  v.asString lib.realText

/-- The texts of a job, from element `prmIdx` on. -/
def jobTexts (lib : Library) (jPrm : Value) (prmIdx : ℕ) :
    Except Jsoncpp.Exception JobTexts := do
  let sHeaderHash ← prmText lib jPrm prmIdx
  let sSeedHash ← prmText lib jPrm (prmIdx + 1)
  let sShareTarget ← prmText lib jPrm (prmIdx + 2)
  return { sHeaderHash, sSeedHash, sShareTarget }

/-- An `unsigned long` assigned to an `int`. -/
def toBlock (v : BitVec 64) : ℤ := (v.setWidth 32).toInt

/-- The largest block number that is believed. -/
abbrev maxBlock : ℤ := 0x9660180

/-- Only some eth-proxy compatible implementations carry the block number.  One out of
range is thrown away by `throw new std::exception()`, which the handler of
`const std::exception&` that follows does not catch. -/
def readBlock (lib : Library) (mode : Option StratumMode) (jPrm : Value) (prmIdx : ℕ) :
    Talk μ Unit :=
  if mode = some .ethproxy ∧ prmIdx < jPrm.size then do
    let text ← ofJson (prmText lib jPrm prmIdx)
    if text.take 2 = "0x".toList then
      match stoull text with
      | .error _ => modify fun s => { s with current := { s.current with block := -1 } }
      | .ok v => do
          modify fun s => { s with current := { s.current with block := toBlock v } }
          if maxBlock < toBlock v then throw .exceptionPointer
    else pure ()
  else pure ()

/-- coinmine.pl fix. -/
def padShareTarget (sShareTarget : StdString) : Except StdException StdString :=
  if sShareTarget.length < 66 then do
    let rest ← sShareTarget.substr 2
    return '0' :: 'x' :: List.replicate (66 - sShareTarget.length) '0' ++ rest
  else .ok sShareTarget

/-- The hashes of a job in the modes that carry a share target. -/
def jobHashes (texts : JobTexts) : EStateM StdException WorkPackage Unit := do
  let sShareTarget ← MonadExcept.ofExcept (padShareTarget texts.sShareTarget)
  let seed ← MonadExcept.ofExcept (FixedHash.ofString 32 texts.sSeedHash)
  modify fun current => { current with seed }
  let header ← MonadExcept.ofExcept (FixedHash.ofString 32 texts.sHeaderHash)
  modify fun current => { current with header }
  let boundary ← MonadExcept.ofExcept (FixedHash.ofString 32 sShareTarget)
  modify fun current => { current with boundary }

/-- A job has been read: it is dispatched at the end of the transmission. -/
def jobProcessed (now : TimePoint) : Talk μ Unit :=
  modify fun s => { s with currentTimestamp := now, newjobprocessed := true }

/-- A job of EthereumStratum/1.0.0. -/
def readJob1 (lib : Library) (now : TimePoint) (session : Session) (jPrm : Value) :
    Talk μ Unit := do
  let sSeedHash ← ofJson (prmText lib jPrm 1)
  let sHeaderHash ← ofJson (prmText lib jPrm 2)
  if sHeaderHash ≠ [] ∧ sSeedHash ≠ [] then
    onCurrent (jobEthereumStratum session sSeedHash sHeaderHash)
    jobProcessed now

/-- A job of the modes that carry a share target. -/
def readJob0 (lib : Library) (now : TimePoint) (mode : Option StratumMode) (jPrm : Value)
    (prmIdx : ℕ) : Talk μ Unit := do
  let texts ← ofJson (jobTexts lib jPrm prmIdx)
  modify fun s => { s with current := { s.current with block := -1 } }
  readBlock lib mode jPrm (prmIdx + 3)
  onCurrent (jobHashes texts)
  jobProcessed now

/-- The parameters of a job and the index of its first hash.  Nanopool sends the job as a
result. -/
def jobParams (mode : Option StratumMode) (responseObject : Value.Members) : Value × ℕ :=
  if mode = some .ethproxy ∧ responseObject.isMember "result".toList then
    (responseObject.get "result".toList .null, 0)
  else (responseObject.get "params".toList .null, 1)

/-- The job in the parameters `jPrm`, its first hash at `prmIdx`. -/
def readJob (lib : Library) (now : TimePoint) (mode : Option StratumMode) (session : Session)
    (jPrm : Value) (prmIdx : ℕ) : Talk μ Unit := do
  let job ← ofJson (prmText lib jPrm 0)
  modify fun s => { s with current := { s.current with job } }
  if mode = some .ethereumstratum then readJob1 lib now session jPrm
  else readJob0 lib now mode jPrm prmIdx

/-- `mining.notify`, except in EthereumStratum/2.0.0.  Jobs are discarded if not properly
subscribed or if a job for this transmission has already been processed. -/
def onNotify (lib : Library) (now : TimePoint) (responseObject : Value.Members) :
    Talk μ Unit := do
  let s ← get
  match s.session with
  | none => pure ()
  | some session =>
    if !session.subscribed || s.newjobprocessed then pure ()
    else
      let prm := jobParams s.mode responseObject
      if prm.1.isArray && !prm.1.empty then
        readJob lib now s.mode session.toSession prm.1 prm.2
      else pure ()

/-- A job of EthereumStratum/2.0.0. -/
def readJob2 (lib : Library) (now : TimePoint) (session : Session) (jPrm : Value) :
    Talk μ Unit := do
  let job ← ofJson (prmText lib jPrm 0)
  modify fun s => { s with current := { s.current with job } }
  let text ← ofJson (prmText lib jPrm 1)
  let block ← ofStd (stoull text)
  modify fun s => { s with current := { s.current with block := toBlock block } }
  let text ← ofJson (prmText lib jPrm 2)
  onCurrent (jobEthereumStratum2 session ('0' :: 'x' :: padLeft text 64 '0'))
  jobProcessed now

/-- `mining.notify` of EthereumStratum/2.0.0. -/
def onNotify2 (lib : Library) (now : TimePoint) (responseObject : Value.Members) :
    Talk μ Unit := do
  let s ← get
  match s.session with
  | none => pure ()
  | some session =>
    let jPrm := responseObject.item "params".toList
    if !session.firstMiningSet then pure ()
    else if !jPrm.isArray || jPrm.size != 4 then pure ()
    else readJob2 lib now session.toSession jPrm

/-! ## Notifications -/

/-- An answer to the pool, with the id and the version of its message. -/
def replyTo (e : Essentials) (members : Value.Members) : Value :=
  .object (("id".toList, .int e.id.toNat) :: members ++
    if e.rpcVer = 2 then [("jsonrpc".toList, .string "2.0".toList)] else [])

/-- The difficulty in the parameters of `mining.set_difficulty`. -/
def difficultyParam (jPrm : Value) : Except Jsoncpp.Exception ℚ := do
  let v ← jPrm.getIndex 0 (.int 1)
  v.asDouble

/-- `h256(dev::getTargetFromDiff(…))`. -/
def difficultyBoundary (lib : Library) (difficulty : ℚ) : Except StdException H256 := do
  let target ← lib.getTargetFromDiff difficulty
  FixedHash.ofString 32 target

/-- `mining.set_difficulty`. -/
def onSetDifficulty (lib : Library) (responseObject : Value.Members) : Talk μ Unit :=
  let jPrm := responseObject.get "params".toList .null
  if jPrm.isArray then do
    let nextWorkDifficulty ← ofJson (difficultyParam jPrm)
    let nextWorkBoundary ← ofStd (difficultyBoundary lib nextWorkDifficulty)
    withSession fun session => { session with nextWorkBoundary }
  else pure ()

/-- `if (!enonce.empty()) processExtranonce(enonce);` -/
def setExtranonce (enonce : StdString) : Talk μ Unit :=
  if enonce = [] then pure () else onSession (processExtranonce enonce)

/-- `mining.set_extranonce`. -/
def onSetExtranonce (lib : Library) (responseObject : Value.Members) : Talk μ Unit :=
  let jPrm := responseObject.get "params".toList .null
  if jPrm.isArray then do
    let enonce ← ofJson (prmText lib jPrm 0)
    setExtranonce enonce
  else pure ()

/-- A member of the parameters of `mining.set`, as a string. -/
def setText (lib : Library) (jPrm : Value.Members) (key default : StdString) :
    Except Jsoncpp.Exception StdString :=
  (jPrm.get key (.string default)).asString lib.realText

/-- The timeout of `mining.set`. -/
def setTimeout (timeout : StdString) : Talk μ Unit :=
  if timeout = [] then pure ()
  else do
    let seconds ← ofStd (stoi timeout)
    withSession fun session => { session with timeout := BitVec.ofInt 32 seconds }

/-- The epoch of `mining.set`. -/
def setEpoch (epoch : StdString) : Talk μ Unit :=
  if epoch = [] then pure ()
  else do
    let number ← ofStd (stoull epoch)
    withSession fun session => { session with epoch := number.setWidth 32 }

/-- The target of `mining.set`. -/
def setTarget (target : StdString) : Talk μ Unit :=
  if target = [] then pure ()
  else do
    let nextWorkBoundary ← ofStd (FixedHash.ofString 32 ('0' :: 'x' :: padLeft target 64 '0'))
    withSession fun session => { session with nextWorkBoundary }

/-- `mining.set`. -/
def onSet (lib : Library) (responseObject : Value.Members) : Talk μ Unit :=
  match responseObject.item "params".toList with
  | .object (m :: ms) => do
      let jPrm := m :: ms
      withSession fun session => { session with firstMiningSet := true }
      let timeout ← ofJson (setText lib jPrm "timeout".toList [])
      let epoch ← ofJson (setText lib jPrm "epoch".toList [])
      let target ← ofJson (setText lib jPrm "target".toList [])
      setTimeout timeout
      setEpoch epoch
      setTarget target
      let algo ← ofJson (setText lib jPrm "algo".toList "ethash".toList)
      withSession fun session => { session with algo }
      let enonce ← ofJson (setText lib jPrm "extranonce".toList [])
      setExtranonce enonce
  | _ => pure ()

/-- Handle unsolicited messages from pool AKA notifications.  No notification is processed
unless login is validated, which means we have detected proper stratum mode.  The branch
of `mining.set_difficulty` for other modes cannot be reached. -/
def processNotification (lib : Library) (now : TimePoint) (e : Essentials) :
    Talk μ Unit := do
  let s ← get
  if s.conn.stratumModeConfirmed then
    if e.method = "mining.notify".toList ∧ s.mode ≠ some .ethereumstratum2 then
      onNotify lib now e.checked
    else if e.method = "mining.notify".toList then
      onNotify2 lib now e.checked
    else if e.method = "mining.set_difficulty".toList ∧ s.mode = some .ethereumstratum then
      onSetDifficulty lib e.checked
    else if e.method = "mining.set_extranonce".toList ∧ s.mode = some .ethereumstratum then
      onSetExtranonce lib e.checked
    else if e.method = "mining.set".toList ∧ s.mode = some .ethereumstratum2 then
      onSet lib e.checked
    else if e.method = "mining.bye".toList ∧ s.mode = some .ethereumstratum2 then
      postDisconnect
    else if e.method = "client.get_version".toList then
      send (replyTo e (("result".toList, .string lib.projectNameWithVersion) ::
        if e.rpcVer = 1 then [("error".toList, .null)] else []))
    else
      -- unknown method: respond back to issuer
      send (replyTo e [("error".toList, .string "Method not found".toList)])
  else pure ()

/-- **`processNotification`, by its branches.**  Once the state has been read, the method
and the mode of the connection select what is run. -/
theorem notification_cases {P : Talk μ Unit → Prop} (lib : Library) (now : TimePoint)
    (e : Essentials) (s : Exchange μ)
    (hnotify : s.conn.stratumModeConfirmed = true → e.method = "mining.notify".toList →
      P (onNotify lib now e.checked))
    (hnotify2 : s.conn.stratumModeConfirmed = true → e.method = "mining.notify".toList →
      P (onNotify2 lib now e.checked))
    (hdifficulty : P (onSetDifficulty lib e.checked))
    (hextranonce : e.method = "mining.set_extranonce".toList → s.mode = some .ethereumstratum →
      P (onSetExtranonce lib e.checked))
    (hset : e.method = "mining.set".toList → s.mode = some .ethereumstratum2 →
      P (onSet lib e.checked))
    (hbye : P postDisconnect) (hsend : ∀ jReq, P (send jReq)) (hnone : P (pure ())) :
    P (if s.conn.stratumModeConfirmed then
        if e.method = "mining.notify".toList ∧ s.mode ≠ some .ethereumstratum2 then
          onNotify lib now e.checked
        else if e.method = "mining.notify".toList then
          onNotify2 lib now e.checked
        else if e.method = "mining.set_difficulty".toList ∧ s.mode = some .ethereumstratum then
          onSetDifficulty lib e.checked
        else if e.method = "mining.set_extranonce".toList ∧ s.mode = some .ethereumstratum then
          onSetExtranonce lib e.checked
        else if e.method = "mining.set".toList ∧ s.mode = some .ethereumstratum2 then
          onSet lib e.checked
        else if e.method = "mining.bye".toList ∧ s.mode = some .ethereumstratum2 then
          postDisconnect
        else if e.method = "client.get_version".toList then
          send (replyTo e (("result".toList, .string lib.projectNameWithVersion) ::
            if e.rpcVer = 1 then [("error".toList, .null)] else []))
        else
          send (replyTo e [("error".toList, .string "Method not found".toList)])
      else pure ()) := by
  refine iteInduction (motive := P) (fun hconfirmed => ?_) fun _ => hnone
  refine iteInduction (motive := P) (fun h => hnotify hconfirmed h.1) fun _ => ?_
  refine iteInduction (motive := P) (fun h => hnotify2 hconfirmed h) fun _ => ?_
  refine iteInduction (motive := P) (fun _ => hdifficulty) fun _ => ?_
  refine iteInduction (motive := P) (fun h => hextranonce h.1 h.2) fun _ => ?_
  refine iteInduction (motive := P) (fun h => hset h.1 h.2) fun _ => ?_
  refine iteInduction (motive := P) (fun _ => hbye) fun _ => ?_
  exact iteInduction (motive := P) (fun _ => hsend _) fun _ => hsend _

/-! ## Replies -/

/-- The request for authorization. -/
def authorizeRequest (conn : Uri) (jsonrpc : Bool) : Value :=
  .object ([("id".toList, .int 3), ("method".toList, .string "mining.authorize".toList),
    ("params".toList,
      .array [.string (userDotWorker conn.user conn.workername ++ conn.path),
        .string conn.pass])] ++
    if jsonrpc then [("jsonrpc".toList, .string "2.0".toList)] else [])

/-- If no autodetection the connection is not usable with this stratum flavor. -/
def negotiationFailed : Talk μ Unit := do
  let s ← get
  if s.conn.stratumModeConfirmed then do
    markUnrecoverable
    postDisconnect
  else postDisconnect

/-- Whether a result is the answer to `mining.hello`. -/
def isHello (lib : Library) (jResult : Value) : Except Jsoncpp.Exception Bool :=
  if jResult.isConvertibleToObject then do
    let ms ← jResult.members
    if ms.isMember "proto".toList then
      let proto ← (ms.item "proto".toList).asString lib.realText
      return proto == "EthereumStratum/2.0.0".toList && ms.isMember "encoding".toList &&
        ms.isMember "resume".toList && ms.isMember "timeout".toList &&
        ms.isMember "maxerrors".toList && ms.isMember "node".toList
    else return false
  else .ok false

/-- Whether a result is the answer to `mining.subscribe` of EthereumStratum/1.0.0. -/
def isSubscription (lib : Library) (jResult : Value) : Except Jsoncpp.Exception Bool :=
  match jResult with
  | .array (.array xs :: _) =>
    if xs.length = 3 then do
      let version ← prmText lib (.array xs) 2
      return version == "EthereumStratum/1.0.0".toList
    else .ok false
  | _ => .ok false

/-- Response to the very first message, `mining.hello`. -/
def onHello (lib : Library) (h : Handlers μ) (now : TimePoint) (jResult : Value) :
    Talk μ Unit := do
  if ← ofJson (isHello lib jResult) then
    confirmStratumMode 3
    startSession h now
    enqueueResponsePlea now
    send (.object [("id".toList, .int 2), ("method".toList, .string "mining.subscribe".toList)])
  else negotiationFailed

/-- Response to `mining.subscribe` of EthereumStratum/1.0.0. -/
def onSubscribe1 (lib : Library) (h : Handlers μ) (now : TimePoint) (jResult : Value) :
    Talk μ Unit := do
  if ← ofJson (isSubscription lib jResult) then
    confirmStratumMode 2
    startSession h now
    withSession fun session => { session with subscribed := true }
    send (.object [("id".toList, .int 2),
      ("method".toList, .string "mining.extranonce.subscribe".toList),
      ("params".toList, .array [])])
    let enonce ← ofJson (prmText lib jResult 1)
    setExtranonce enonce
    setAuthpending true
    enqueueResponsePlea now
    let s ← get
    send (authorizeRequest s.conn false)
  else negotiationFailed

/-- Response to `eth_submitLogin`. -/
def onSubmitLogin (h : Handlers μ) (now : TimePoint) (isSuccess : Bool) : Talk μ Unit :=
  if isSuccess then do
    confirmStratumMode 1
    startSession h now
    withSession fun session => { session with subscribed := true }
    withSession fun session => { session with authorized := true }
    send (.object [("id".toList, .int 5), ("method".toList, .string "eth_getWork".toList),
      ("params".toList, .array [])])
  else negotiationFailed

/-- Response to `mining.subscribe` of the plain stratum mode. -/
def onSubscribe0 (h : Handlers μ) (now : TimePoint) (isSuccess : Bool) : Talk μ Unit :=
  if isSuccess then do
    confirmStratumMode 0
    startSession h now
    withSession fun session => { session with subscribed := true }
    setAuthpending true
    enqueueResponsePlea now
    let s ← get
    send (authorizeRequest s.conn true)
  else negotiationFailed

/-- Id 1: the response to the very first message after connection.  In autodetection an
error of any kind means that the selected stratum flavour is not the pool's. -/
def onLoginReply (lib : Library) (h : Handlers μ) (now : TimePoint) (isSuccess : Bool)
    (jResult : Value) : Talk μ Unit := do
  let _ ← dequeueResponsePlea now
  let s ← get
  if !isSuccess && !s.conn.stratumModeConfirmed then postDisconnect
  else
    match s.mode with
    | some .ethereumstratum2 => onHello lib h now jResult
    | some .ethereumstratum => onSubscribe1 lib h now jResult
    | some .ethproxy => onSubmitLogin h now isSuccess
    | some .stratum => onSubscribe0 h now isSuccess
    | none => send .null

/-- Id 2 in EthereumStratum/2.0.0: the response to `mining.subscribe`. -/
def onSubscribeReply (now : TimePoint) (jResult : Value) : Talk μ Unit := do
  let _ ← dequeueResponsePlea now
  match jResult with
  | .string (c :: sessionId) => do
      withSession fun session => { session with sessionId := c :: sessionId }
      withSession fun session => { session with subscribed := true }
      setAuthpending true
      enqueueResponsePlea now
      let s ← get
      send (authorizeRequest s.conn false)
  | _ => do
      -- got invalid session id which is mandatory
      markUnrecoverable
      postDisconnect

/-- Whether a reply grants what was asked for: some pools answer with a boolean. -/
def granted (isSuccess : Bool) (jResult : Value) : Bool :=
  match jResult with
  | .bool b => isSuccess && b
  | _ => isSuccess

/-- Id 3, except in EthereumStratum/2.0.0: the response to `mining.authorize`. -/
def onAuthorizeReply (now : TimePoint) (isSuccess : Bool) (jResult : Value) :
    Talk μ Unit := do
  let _ ← dequeueResponsePlea now
  setAuthpending false
  withSession fun session => { session with authorized := granted isSuccess jResult }
  if granted isSuccess jResult then pure ()
  else do
    markUnrecoverable
    postDisconnect

/-- Id 3 in EthereumStratum/2.0.0. -/
def onAuthorizeReply2 (now : TimePoint) (isSuccess : Bool) (jResult : Value) :
    Talk μ Unit := do
  let _ ← dequeueResponsePlea now
  match isSuccess, jResult with
  | true, .string (c :: workerId) => do
      setAuthpending false
      withSession fun session => { session with authorized := true }
      withSession fun session => { session with workerId := c :: workerId }
  | _, _ => do
      markUnrecoverable
      postDisconnect

/-- The response to a submission, except in EthereumStratum/2.0.0. -/
def onSubmitReply (h : Handlers μ) (now : TimePoint) (e : Essentials) : Talk μ Unit := do
  let responseDelay ← dequeueResponsePlea now
  let minerIndex := e.id - 40
  if granted e.isSuccess e.jResult then
    call (h.onSolutionAccepted responseDelay minerIndex false)
  else call (h.onSolutionRejected responseDelay minerIndex)

/-- The first digit of the error code of a submission. -/
def errCode (lib : Library) (e : Essentials) : Except Jsoncpp.Exception StdString := do
  let error ← (e.checked.item "error".toList).members
  let code ← (error.get "code".toList (.string [])).asString lib.realText
  return code.take 1

/-- The response to a submission in EthereumStratum/2.0.0.  A 2xx error means the solution
has been accepted but is likely stale. -/
def onSubmitReply2 (lib : Library) (h : Handlers μ) (now : TimePoint) (e : Essentials) :
    Talk μ Unit := do
  let responseDelay ← dequeueResponsePlea now
  let minerIndex := e.id - 40
  if e.isSuccess then call (h.onSolutionAccepted responseDelay minerIndex false)
  else
    let code ← ofJson (errCode lib e)
    if code = "2".toList then call (h.onSolutionAccepted responseDelay minerIndex true)
    else call (h.onSolutionRejected responseDelay minerIndex)

/-- Id 999: ethermine.org responds with this id when error replying to either
`mining.subscribe` or `mining.authorize`. -/
def on999 (isSuccess : Bool) : Talk μ Unit := do
  let s ← get
  if !isSuccess && !s.conn.stratumModeConfirmed then postDisconnect
  else if !isSuccess then
    if !s.isSubscribed then postDisconnect
    else if !s.isAuthorized then postDisconnect
    else pure ()
  else pure ()

/-- Handle awaited responses to our requests. -/
def processReply (lib : Library) (h : Handlers μ) (now : TimePoint) (e : Essentials) :
    Talk μ Unit := do
  let s ← get
  if e.id = 1 then onLoginReply lib h now e.isSuccess e.jResult
  else if e.id = 2 then
    if s.mode = some .ethereumstratum2 then onSubscribeReply now e.jResult else pure ()
  else if e.id = 3 ∧ s.mode ≠ some .ethereumstratum2 then
    onAuthorizeReply now e.isSuccess e.jResult
  else if e.id = 3 then onAuthorizeReply2 now e.isSuccess e.jResult
  else if 40 ≤ e.id ∧ e.id ≤ s.solutionSubmittedMaxId ∧ s.mode ≠ some .ethereumstratum2 then
    onSubmitReply h now e
  else if 40 ≤ e.id ∧ e.id ≤ s.solutionSubmittedMaxId then onSubmitReply2 lib h now e
  else if e.id = 5 then
    -- the response to the first get_work request is changed to a notification
    if s.mode = some .ethproxy ∧ e.jResult.isArray then
      processNotification lib now { e with method := "mining.notify".toList }
    else pure ()
  else if e.id = 9 then pure ()
  else if e.id = 999 then on999 e.isSuccess
  else pure ()

/-- **`processReply`, by its branches.** -/
theorem reply_cases {P : Talk μ Unit → Prop} (lib : Library) (h : Handlers μ) (now : TimePoint)
    (e : Essentials) (s : Exchange μ)
    (hlogin : e.id = 1 → P (onLoginReply lib h now e.isSuccess e.jResult))
    (hsubscribe : P (onSubscribeReply now e.jResult))
    (hauthorize : P (onAuthorizeReply now e.isSuccess e.jResult))
    (hauthorize2 : P (onAuthorizeReply2 now e.isSuccess e.jResult))
    (hsubmit : 40 ≤ e.id → e.id ≤ s.solutionSubmittedMaxId → P (onSubmitReply h now e))
    (hsubmit2 : 40 ≤ e.id → e.id ≤ s.solutionSubmittedMaxId → P (onSubmitReply2 lib h now e))
    (hwork : e.id = 5 → s.mode = some .ethproxy → e.jResult.isArray = true →
      P (processNotification lib now { e with method := "mining.notify".toList }))
    (hhashrate : P (on999 e.isSuccess)) (hnone : P (pure ())) :
    P (if e.id = 1 then onLoginReply lib h now e.isSuccess e.jResult
      else if e.id = 2 then
        if s.mode = some .ethereumstratum2 then onSubscribeReply now e.jResult else pure ()
      else if e.id = 3 ∧ s.mode ≠ some .ethereumstratum2 then
        onAuthorizeReply now e.isSuccess e.jResult
      else if e.id = 3 then onAuthorizeReply2 now e.isSuccess e.jResult
      else if 40 ≤ e.id ∧ e.id ≤ s.solutionSubmittedMaxId ∧
          s.mode ≠ some .ethereumstratum2 then
        onSubmitReply h now e
      else if 40 ≤ e.id ∧ e.id ≤ s.solutionSubmittedMaxId then onSubmitReply2 lib h now e
      else if e.id = 5 then
        if s.mode = some .ethproxy ∧ e.jResult.isArray then
          processNotification lib now { e with method := "mining.notify".toList }
        else pure ()
      else if e.id = 9 then pure ()
      else if e.id = 999 then on999 e.isSuccess
      else pure ()) := by
  refine iteInduction (motive := P) hlogin fun _ => ?_
  refine iteInduction (motive := P) (fun _ => ?_) fun _ => ?_
  · exact iteInduction (motive := P) (fun _ => hsubscribe) fun _ => hnone
  refine iteInduction (motive := P) (fun _ => hauthorize) fun _ => ?_
  refine iteInduction (motive := P) (fun _ => hauthorize2) fun _ => ?_
  refine iteInduction (motive := P) (fun hid => hsubmit hid.1 hid.2.1) fun _ => ?_
  refine iteInduction (motive := P) (fun hid => hsubmit2 hid.1 hid.2) fun _ => ?_
  refine iteInduction (motive := P) (fun h5 => ?_) fun _ => ?_
  · exact iteInduction (motive := P) (fun hjob => hwork h5 hjob.1 hjob.2) fun _ => hnone
  refine iteInduction (motive := P) (fun _ => hnone) fun _ => ?_
  exact iteInduction (motive := P) (fun _ => hhashrate) fun _ => hnone

/-- `processResponse`. -/
def processResponse (lib : Library) (h : Handlers μ) (now : TimePoint)
    (responseObject : Value) : Talk μ Unit := do
  let s ← get
  let e ← ofJson (essentials lib s.mode responseObject)
  if e.invalid then postDisconnect
  else if e.isNotification then processNotification lib now e
  else processReply lib h now e

end Stratum
end FpgaEthash
