import DyeIsLife.Sync.Outbox
import DyeIsLife.Transition.Core
import Mathlib.Data.List.Sort

/-!
# The persistent connection

`FPersistentConnection` carries writes and listens to the server over a socket
that comes and goes.  A write is kept as an outstanding put until the server
answers it; after a reconnect all outstanding puts are sent again in the order
of their numbers.  Answers to writes that arrive while a listen is unanswered
are held back and reported when the last listen is answered.

Every handler below is undefined where an assertion of the source would fail
or where it would send on a socket that is not connected.  Calls of completion
blocks are recorded in `completed`, and `issued` lists the writes in the order
in which they were made.
-/

namespace DyeIsLife.Sync

open DyeIsLife.Store

universe u v

/-- `ConnectionState`. -/
inductive ConnectionState where
  | disconnected
  | gettingToken
  | connecting
  | authenticating
  | connected
  deriving DecidableEq

/-- The state of the `FConnection`: handshake not done, or done. -/
inductive RealtimeState where
  | connecting
  | connected
  deriving DecidableEq

/-- `FQuerySpec`: a location and the parameters of a query. -/
structure FQuerySpec (π : Type u) where
  path : List String
  params : π
  deriving DecidableEq

/-- `FOutstandingPut`; the completion block is named by the write it belongs
to. -/
structure FOutstandingPut (ρ : Type v) where
  request : ρ
  hash : Option String
  onCompleteBlock : Nat
  sent : Bool

/-- The callbacks kept in `requestCBHash`. -/
inductive RequestCallback (π : Type u) where
  | stats
  | auth (restoreStateAfterComplete : Bool)
  | put (index : Nat)
  | listen (query : FQuerySpec π) (listenSpec : Nat)

/-- The callback of `sendListen:`. -/
def RequestCallback.isListen {π : Type u} : RequestCallback π → Bool
  | .listen _ _ => true
  | .stats => false
  | .auth _ => false
  | .put _ => false

/-- The callback of `sendAuthAndRestoreStateAfterComplete:`. -/
def RequestCallback.isAuth {π : Type u} : RequestCallback π → Bool
  | .auth _ => true
  | .stats => false
  | .put _ => false
  | .listen _ _ => false

/-- The status of an accepted request. -/
def statusOk : String := "ok"

/-- `kFErrorWriteCanceled`. -/
def writeCanceled : String := "write_canceled"

/-- `kFTransactionDisconnect`. -/
def transactionDisconnect : String := "disconnect"

/-- `FPersistentConnection`. -/
structure FPersistentConnection (π : Type u) (ρ : Type v) where
  connectionState : ConnectionState
  firstConnection : Bool
  /-- The `FConnection`, when there is one. -/
  realtime : Option RealtimeState
  authToken : Option String
  /-- The listens, each with the identity of its `FOutstandingQuery`. -/
  listens : List (FQuerySpec π × Nat)
  listenCounter : Nat
  outstandingPuts : List (Nat × FOutstandingPut ρ)
  putCounter : Nat
  requestNumber : Nat
  requestCBHash : List (Nat × RequestCallback π)
  unackedListensCount : Nat
  putsToAck : List (Nat × String)
  interruptReasons : List String
  /-- Whether the retry helper has a task scheduled. -/
  scheduledRetry : Bool
  currentFetchTokenAttempt : Nat
  /-- The token requests that have not been answered, by attempt. -/
  fetches : List Nat
  completed : List (Nat × String)
  issued : List Nat

namespace FPersistentConnection

variable {π : Type u} {ρ : Type v}

/-- `initWithRepoInfo:dispatchQueue:config:`: nothing happens before `open`. -/
def init : FPersistentConnection π ρ where
  connectionState := .disconnected
  firstConnection := true
  realtime := none
  authToken := none
  listens := []
  listenCounter := 0
  outstandingPuts := []
  putCounter := 1
  requestNumber := 1
  requestCBHash := []
  unackedListensCount := 0
  putsToAck := []
  interruptReasons := ["waiting_for_open"]
  scheduledRetry := false
  currentFetchTokenAttempt := 0
  fetches := []
  completed := []
  issued := []

/-- `connected`. -/
def connected (conn : FPersistentConnection π ρ) : Bool :=
  conn.connectionState = .authenticating || conn.connectionState = .connected

/-- `canSendWrites`. -/
def canSendWrites (conn : FPersistentConnection π ρ) : Bool :=
  conn.connectionState = .connected

/-- `shouldReconnect`. -/
def shouldReconnect (conn : FPersistentConnection π ρ) : Bool :=
  conn.interruptReasons.isEmpty

/-! ## Sending -/

/-- A request is numbered, and its callback, if it has one, is kept. -/
def numbered (callback : Option (RequestCallback π)) (conn : FPersistentConnection π ρ) :
    FPersistentConnection π ρ :=
  { conn with
    requestNumber := conn.requestNumber + 1
    requestCBHash :=
      conn.requestCBHash ++ (callback.map fun callback => (conn.requestNumber, callback)).toList }

/-- `sendAction:body:sensitive:callback:`; the socket throws unless it is
connected. -/
def sendAction (callback : Option (RequestCallback π)) (conn : FPersistentConnection π ρ) :
    Option (FPersistentConnection π ρ) :=
  if conn.realtime = some .connected then some (conn.numbered callback) else none

/-- Mark an outstanding put as sent. -/
def markSent (index : Nat) (conn : FPersistentConnection π ρ) : FPersistentConnection π ρ :=
  { conn with
    outstandingPuts := conn.outstandingPuts.map fun entry =>
      if entry.1 = index then (entry.1, { entry.2 with sent := true }) else entry }

/-- `sendPut:`. -/
def sendPut (conn : FPersistentConnection π ρ) (index : Nat) :
    Option (FPersistentConnection π ρ) :=
  if conn.canSendWrites ∧ index ∈ keys conn.outstandingPuts then
    (conn.markSent index).sendAction (some (.put index))
  else none

/-- Add a put to `outstandingPuts`. -/
def enqueue (request : ρ) (hash : Option String) (writeId : Nat)
    (conn : FPersistentConnection π ρ) : FPersistentConnection π ρ :=
  { conn with
    putCounter := conn.putCounter + 1
    outstandingPuts :=
      conn.outstandingPuts ++ [(conn.putCounter, FOutstandingPut.mk request hash writeId false)]
    issued := conn.issued ++ [writeId] }

/-- `putInternal:forAction:forPath:withHash:withCallback:`. -/
def putInternal (request : ρ) (hash : Option String) (writeId : Nat)
    (conn : FPersistentConnection π ρ) : Option (FPersistentConnection π ρ) :=
  let next := conn.enqueue request hash writeId
  if next.canSendWrites then next.sendPut conn.putCounter else some next

/-- `sendListen:`. -/
def sendListen (conn : FPersistentConnection π ρ) (listenSpec : FQuerySpec π × Nat) :
    Option (FPersistentConnection π ρ) :=
  (conn.sendAction (some (.listen listenSpec.1 listenSpec.2))).map fun next =>
    { next with unackedListensCount := next.unackedListensCount + 1 }

/-- `sendAuthAndRestoreStateAfterComplete:`. -/
def sendAuth (restoreStateAfterComplete : Bool) (conn : FPersistentConnection π ρ) :
    Option (FPersistentConnection π ρ) :=
  if conn.connected ∧ conn.authToken ≠ none then
    conn.sendAction (some (.auth restoreStateAfterComplete))
  else none

/-- `refreshAuthToken:`. -/
def refreshAuthToken (token : Option String) (conn : FPersistentConnection π ρ) :
    Option (FPersistentConnection π ρ) :=
  let next := { conn with authToken := token }
  if next.connected then
    match token with
    | some _ => next.sendAuth false
    -- `sendUnauth`
    | none => next.sendAction none
  else some next

/-- The numbers of the outstanding puts, sorted. -/
def sortedKeys (conn : FPersistentConnection π ρ) : List Nat :=
  (keys conn.outstandingPuts).insertionSort (· ≤ ·)

/-- `restoreState`: all listens, then all outstanding puts by their numbers. -/
def restoreState (conn : FPersistentConnection π ρ) : Option (FPersistentConnection π ρ) :=
  if conn.connectionState = .connected then
    (conn.listens.foldlM sendListen conn).bind fun next =>
      next.sortedKeys.foldlM
        (fun current index =>
          if index ∈ keys current.outstandingPuts then current.sendPut index else some current)
        next
  else none

/-! ## Connecting -/

/-- `tryScheduleReconnect`. -/
def tryScheduleReconnect (conn : FPersistentConnection π ρ) :
    Option (FPersistentConnection π ρ) :=
  if conn.shouldReconnect then
    if conn.connectionState = .disconnected then some { conn with scheduledRetry := true }
    else none
  else some conn

/-- The scheduled retry: ask for a token. -/
def retry (conn : FPersistentConnection π ρ) : Option (FPersistentConnection π ρ) :=
  if conn.connectionState = .disconnected then
    some { conn with
      scheduledRetry := false
      connectionState := .gettingToken
      currentFetchTokenAttempt := conn.currentFetchTokenAttempt + 1
      fetches := conn.fetches ++ [conn.currentFetchTokenAttempt + 1] }
  else none

/-- The answer to a token request; an error is `none`. -/
def fetchedToken (attempt : Nat) (answer : Option (Option String))
    (conn : FPersistentConnection π ρ) : Option (FPersistentConnection π ρ) :=
  let next := { conn with fetches := conn.fetches.filter fun other => other ≠ attempt }
  if attempt = conn.currentFetchTokenAttempt then
    match answer with
    | none => tryScheduleReconnect { next with connectionState := .disconnected }
    | some token =>
        -- `openNetworkConnectionWithToken:`
        if conn.connectionState = .gettingToken then
          some { next with
            authToken := token
            connectionState := .connecting
            realtime := some .connecting }
        else if conn.connectionState = .disconnected then some next
        else none
  else some next

/-- `sendConnectStats`; the counters always name the version of the SDK. -/
def sendConnectStats (conn : FPersistentConnection π ρ) : Option (FPersistentConnection π ρ) :=
  conn.sendAction (some .stats)

/-- `restoreAuth`. -/
def restoreAuth (conn : FPersistentConnection π ρ) : Option (FPersistentConnection π ρ) :=
  if conn.connectionState = .connecting then
    match conn.authToken with
    | none => restoreState { conn with connectionState := .connected }
    | some _ => sendAuth true { conn with connectionState := .authenticating }
  else none

/-- `onReady:atTime:sessionID:`, called when the handshake is done. -/
def onReady (conn : FPersistentConnection π ρ) : Option (FPersistentConnection π ρ) :=
  let next := { conn with realtime := some .connected }
  ((if next.firstConnection then next.sendConnectStats else some next).bind restoreAuth).map
    fun next => { next with firstConnection := false }

/-- A put of a transaction that was sent. -/
def FOutstandingPut.isSentTransaction (put : FOutstandingPut ρ) : Bool :=
  put.hash.isSome && put.sent

/-- `cancelSentTransactions`. -/
def cancelSentTransactions (conn : FPersistentConnection π ρ) : FPersistentConnection π ρ :=
  { conn with
    outstandingPuts := conn.outstandingPuts.filter fun entry =>
      !FOutstandingPut.isSentTransaction entry.2
    completed := conn.completed ++
      (conn.outstandingPuts.filter fun entry => FOutstandingPut.isSentTransaction entry.2).map
        fun entry => (entry.2.onCompleteBlock, transactionDisconnect) }

/-- `onDisconnect:withReason:`.  The answers held back stay held back. -/
def onDisconnect (conn : FPersistentConnection π ρ) : Option (FPersistentConnection π ρ) :=
  let next := cancelSentTransactions { conn with
    connectionState := .disconnected
    realtime := none }
  let next := { next with
    requestCBHash := []
    unackedListensCount := 0 }
  if next.shouldReconnect then next.tryScheduleReconnect else some next

/-- `[realtime close]`, which calls `onDisconnect` at once. -/
def closeRealtime (conn : FPersistentConnection π ρ) : Option (FPersistentConnection π ρ) :=
  if conn.realtime.isSome then conn.onDisconnect else some conn

/-- `onAuthRevokedWithStatus:andReason:`. -/
def onAuthRevoked (conn : FPersistentConnection π ρ) : Option (FPersistentConnection π ρ) :=
  closeRealtime { conn with authToken := none }

/-- `interruptForReason:`. -/
def interruptForReason (reason : String) (conn : FPersistentConnection π ρ) :
    Option (FPersistentConnection π ρ) :=
  let next := { conn with interruptReasons := reason :: conn.interruptReasons.filter (· ≠ reason) }
  if next.realtime.isSome then next.closeRealtime
  else some { next with scheduledRetry := false, connectionState := .disconnected }

/-- `resumeForReason:`. -/
def resumeForReason (reason : String) (conn : FPersistentConnection π ρ) :
    Option (FPersistentConnection π ρ) :=
  let next := { conn with interruptReasons := conn.interruptReasons.filter (· ≠ reason) }
  if next.shouldReconnect ∧ next.connectionState = .disconnected then next.tryScheduleReconnect
  else some next

/-- The network became reachable, or the app comes to the foreground. -/
def reachable (conn : FPersistentConnection π ρ) : Option (FPersistentConnection π ρ) :=
  if conn.connectionState = .disconnected then conn.tryScheduleReconnect else some conn

/-! ## Answers -/

/-- `ackPuts`. -/
def ackPuts (conn : FPersistentConnection π ρ) : FPersistentConnection π ρ :=
  { conn with completed := conn.completed ++ conn.putsToAck, putsToAck := [] }

/-- The callback of an authentication. -/
def onAuthResponse (restoreStateAfterComplete : Bool) (status : String)
    (conn : FPersistentConnection π ρ) : Option (FPersistentConnection π ρ) :=
  let next := { conn with connectionState := .connected }
  if status = statusOk then
    if restoreStateAfterComplete then next.restoreState else some next
  else closeRealtime { next with authToken := none }

/-- The callback of a put. -/
def onPutResponse (index : Nat) (status : String) (conn : FPersistentConnection π ρ) :
    FPersistentConnection π ρ :=
  match conn.outstandingPuts.lookup index with
  | none => conn
  | some put =>
      let next := { conn with outstandingPuts := alter index none conn.outstandingPuts }
      if conn.unackedListensCount = 0 then
        { next with completed := next.completed ++ [(put.onCompleteBlock, status)] }
      else { next with putsToAck := next.putsToAck ++ [(put.onCompleteBlock, status)] }

section Queries

variable [DecidableEq π]

/-- `listen:tagId:hash:onComplete:`. -/
def listen (query : FQuerySpec π) (conn : FPersistentConnection π ρ) :
    Option (FPersistentConnection π ρ) :=
  if conn.listens.lookup query = none then
    let listenSpec := (query, conn.listenCounter)
    let next := { conn with
      listenCounter := conn.listenCounter + 1
      listens := conn.listens ++ [listenSpec] }
    if next.connected then next.sendListen listenSpec else some next
  else none

/-- `unlisten:tagId:`. -/
def unlisten (query : FQuerySpec π) (conn : FPersistentConnection π ρ) :
    Option (FPersistentConnection π ρ) :=
  let next := { conn with listens := alter query none conn.listens }
  if conn.listens.lookup query ≠ none ∧ next.connected then next.sendAction none else some next

/-- `onListenRevoked:`. -/
def onListenRevoked (path : List String) (conn : FPersistentConnection π ρ) :
    FPersistentConnection π ρ :=
  { conn with listens := conn.listens.filter fun listen => listen.1.path ≠ path }

/-- The callback of a listen; undefined where the count of unanswered listens
would fall below zero. -/
def onListenResponse (query : FQuerySpec π) (listenSpec : Nat) (status : String)
    (conn : FPersistentConnection π ρ) : Option (FPersistentConnection π ρ) :=
  let next :=
    if conn.listens.lookup query = some listenSpec ∧ status ≠ statusOk then
      { conn with listens := alter query none conn.listens }
    else conn
  if next.unackedListensCount = 0 then none
  else
    let next := { next with unackedListensCount := next.unackedListensCount - 1 }
    some (if next.unackedListensCount = 0 then next.ackPuts else next)

/-- `onDataMessage:withMessage:` for the answer to a request. -/
def onDataMessage (requestNumber : Nat) (status : String) (conn : FPersistentConnection π ρ) :
    Option (FPersistentConnection π ρ) :=
  match conn.requestCBHash.lookup requestNumber with
  | none => some conn
  | some callback =>
      let next := { conn with requestCBHash := alter requestNumber none conn.requestCBHash }
      match callback with
      | .stats => some next
      | .auth restoreStateAfterComplete => next.onAuthResponse restoreStateAfterComplete status
      | .put index => some (next.onPutResponse index status)
      | .listen query listenSpec => next.onListenResponse query listenSpec status

end Queries

/-- `purgeOutstandingWrites`. -/
def purgeOutstandingWrites (conn : FPersistentConnection π ρ) : FPersistentConnection π ρ :=
  let next := conn.ackPuts
  { next with
    outstandingPuts := []
    completed := next.completed ++ next.sortedKeys.filterMap fun index =>
      (next.outstandingPuts.lookup index).map fun put => (put.onCompleteBlock, writeCanceled) }

/-! ## Steps -/

/-- What happens to the connection. -/
inductive Action (π : Type u) (ρ : Type v) where
  | putInternal (request : ρ) (hash : Option String) (writeId : Nat)
  | listen (query : FQuerySpec π)
  | unlisten (query : FQuerySpec π)
  | onListenRevoked (path : List String)
  | refreshAuthToken (token : Option String)
  | onAuthRevoked
  | interruptForReason (reason : String)
  | resumeForReason (reason : String)
  | reachable
  | retry
  | fetchedToken (attempt : Nat) (answer : Option (Option String))
  | onReady
  | onDisconnect
  | onDataMessage (requestNumber : Nat) (status : String)
  | purgeOutstandingWrites

/-- One call of a handler; `none` means that an assertion failed. -/
def step [DecidableEq π] : Transition.Step (FPersistentConnection π ρ) (Action π ρ) :=
  fun conn action =>
    match action with
    | .putInternal request hash writeId => conn.putInternal request hash writeId
    | .listen query => conn.listen query
    | .unlisten query => conn.unlisten query
    | .onListenRevoked path => some (conn.onListenRevoked path)
    | .refreshAuthToken token => conn.refreshAuthToken token
    | .onAuthRevoked => conn.onAuthRevoked
    | .interruptForReason reason => conn.interruptForReason reason
    | .resumeForReason reason => conn.resumeForReason reason
    | .reachable => conn.reachable
    | .retry => conn.retry
    | .fetchedToken attempt answer => conn.fetchedToken attempt answer
    | .onReady => conn.onReady
    | .onDisconnect => conn.onDisconnect
    | .onDataMessage requestNumber status => conn.onDataMessage requestNumber status
    | .purgeOutstandingWrites => some conn.purgeOutstandingWrites

/-- When a handler can be called: a query is listened to once at a time, a
retry runs when one is scheduled, a token request is answered once, and only
an `FConnection` that exists reports anything. -/
def Enabled [DecidableEq π] (conn : FPersistentConnection π ρ) : Action π ρ → Prop
  | .listen query => conn.listens.lookup query = none
  | .retry => conn.scheduledRetry = true
  | .fetchedToken attempt _ => attempt ∈ conn.fetches
  | .onReady => conn.realtime = some .connecting
  | .onDisconnect => conn.realtime ≠ none
  | .onAuthRevoked => conn.realtime = some .connected
  | .onDataMessage _ _ => conn.realtime = some .connected
  | .putInternal _ _ _ => True
  | .unlisten _ => True
  | .onListenRevoked _ => True
  | .refreshAuthToken _ => True
  | .interruptForReason _ => True
  | .resumeForReason _ => True
  | .reachable => True
  | .purgeOutstandingWrites => True

instance Enabled.decidable [DecidableEq π] (conn : FPersistentConnection π ρ) :
    (action : Action π ρ) → Decidable (conn.Enabled action)
  | .listen query => inferInstanceAs (Decidable (conn.listens.lookup query = none))
  | .retry => inferInstanceAs (Decidable (conn.scheduledRetry = true))
  | .fetchedToken attempt _ => inferInstanceAs (Decidable (attempt ∈ conn.fetches))
  | .onReady => inferInstanceAs (Decidable (conn.realtime = some .connecting))
  | .onDisconnect => inferInstanceAs (Decidable (conn.realtime ≠ none))
  | .onAuthRevoked => inferInstanceAs (Decidable (conn.realtime = some .connected))
  | .onDataMessage _ _ => inferInstanceAs (Decidable (conn.realtime = some .connected))
  | .putInternal _ _ _ => isTrue trivial
  | .unlisten _ => isTrue trivial
  | .onListenRevoked _ => isTrue trivial
  | .refreshAuthToken _ => isTrue trivial
  | .interruptForReason _ => isTrue trivial
  | .resumeForReason _ => isTrue trivial
  | .reachable => isTrue trivial
  | .purgeOutstandingWrites => isTrue trivial

/-! ## Soundness -/

end FPersistentConnection

/-- The socket that belongs to a state of the connection. -/
def ConnectionState.realtime : ConnectionState → Option RealtimeState
  | .disconnected => none
  | .gettingToken => none
  | .connecting => some .connecting
  | .authenticating => some .connected
  | .connected => some .connected

namespace FPersistentConnection

variable {π : Type u} {ρ : Type v}

/-- What holds of the connection between any two calls. -/
structure Sound (conn : FPersistentConnection π ρ) : Prop where
  /-- The socket is in the state the connection takes it to be in. -/
  live : conn.realtime = conn.connectionState.realtime
  /-- A retry is scheduled only while disconnected. -/
  idle : conn.scheduledRetry = true → conn.connectionState = .disconnected
  /-- Answers are awaited only while the socket is connected. -/
  quiet : conn.connected = false → conn.requestCBHash = []
  /-- The count of unanswered listens is the number of their callbacks. -/
  counted : conn.unackedListensCount = conn.requestCBHash.countP fun entry => entry.2.isListen
  /-- The latest token request is awaited only before the socket is opened. -/
  fetching : conn.currentFetchTokenAttempt ∈ conn.fetches →
    conn.connectionState = .disconnected ∨ conn.connectionState = .gettingToken
  past : ∀ attempt ∈ conn.fetches, attempt ≤ conn.currentFetchTokenAttempt
  /-- The numbers of the requests ascend and have all been used. -/
  sorted : (keys conn.requestCBHash).Pairwise (· < ·)
  below : ∀ number ∈ keys conn.requestCBHash, number < conn.requestNumber

theorem sound_init : (init : FPersistentConnection π ρ).Sound := by
  constructor <;> simp [init, keys, connected, ConnectionState.realtime]

/-- Requests have distinct numbers. -/
theorem Sound.distinct {conn : FPersistentConnection π ρ} (sound : conn.Sound) :
    (keys conn.requestCBHash).Nodup :=
  sound.sorted.imp fun less => Nat.ne_of_lt less

section Sending

variable {conn : FPersistentConnection π ρ}

theorem connected_iff : conn.connected = true ↔
    conn.connectionState = .authenticating ∨ conn.connectionState = .connected := by
  simp [connected]

theorem Sound.realtime_of_connected (sound : conn.Sound) (live : conn.connected = true) :
    conn.realtime = some .connected := by
  rw [sound.live]
  rcases connected_iff.mp live with state | state <;> rw [state] <;> rfl

theorem Sound.connected_of_realtime (sound : conn.Sound) (live : conn.realtime = some .connected) :
    conn.connected = true := by
  rw [sound.live] at live
  rw [connected_iff]
  cases state : conn.connectionState <;> rw [state] at live <;> simp [ConnectionState.realtime] at live ⊢

theorem Sound.sendAction_eq (sound : conn.Sound) (live : conn.connected = true)
    (callback : Option (RequestCallback π)) :
    conn.sendAction callback = some (conn.numbered callback) :=
  if_pos (sound.realtime_of_connected live)

theorem keys_numbered (callback : Option (RequestCallback π)) :
    keys (conn.numbered callback).requestCBHash =
      keys conn.requestCBHash ++ (callback.map fun _ => conn.requestNumber).toList := by
  cases callback <;> simp [numbered, keys]

/-- A request keeps the connection sound when listens are counted. -/
theorem Sound.numbered (sound : conn.Sound) (live : conn.connected = true)
    {callback : Option (RequestCallback π)} {count : Nat}
    (counted : count = conn.unackedListensCount + callback.toList.countP RequestCallback.isListen) :
    Sound { conn.numbered callback with unackedListensCount := count } where
  live := sound.live
  idle := sound.idle
  quiet := by
    intro dead
    exact absurd (live.symm.trans dead) (by decide)
  counted := by
    rw [counted, sound.counted]
    cases callback <;> simp [FPersistentConnection.numbered, List.countP_append]
  fetching := sound.fetching
  past := sound.past
  sorted := by
    rw [show keys _ = _ from keys_numbered callback]
    cases callback with
    | none => simpa using sound.sorted
    | some present =>
        rw [Option.map_some, Option.toList_some, List.pairwise_append]
        refine ⟨sound.sorted, List.pairwise_singleton _ _, ?_⟩
        intro number member last lastMember
        obtain rfl := List.mem_singleton.mp lastMember
        exact sound.below number member
  below := by
    intro number member
    rw [show keys _ = _ from keys_numbered callback] at member
    change number < conn.requestNumber + 1
    rcases List.mem_append.mp member with old | new
    · have := sound.below number old
      omega
    · cases callback with
      | none => simp at new
      | some present =>
          simp only [Option.map_some, Option.toList_some, List.mem_singleton] at new
          omega

/-- What the connection keeps of the writes. -/
def outbox (conn : FPersistentConnection π ρ) : Outbox Nat String where
  counter := conn.putCounter
  waiting := conn.outstandingPuts.map fun entry => (entry.1, entry.2.onCompleteBlock)
  held := conn.putsToAck
  completed := conn.completed
  issued := conn.issued

/-- The callbacks awaited, in the order of their requests. -/
def callbacks (conn : FPersistentConnection π ρ) : List (RequestCallback π) :=
  conn.requestCBHash.map Prod.snd

/-- The hashes of the outstanding puts; only transactions have one. -/
def hashes (conn : FPersistentConnection π ρ) : List (Option String) :=
  conn.outstandingPuts.map fun entry => entry.2.hash

/-- `next` is `conn` after requests that await `sent`. -/
structure Sends (sent : List (RequestCallback π)) (conn next : FPersistentConnection π ρ) :
    Prop where
  sound : next.Sound
  state : next.connectionState = conn.connectionState
  outbox : next.outbox = conn.outbox
  hashes : next.hashes = conn.hashes
  callbacks : next.callbacks = conn.callbacks ++ sent

theorem Sends.refl (sound : conn.Sound) : Sends [] conn conn where
  sound := sound
  state := rfl
  outbox := rfl
  hashes := rfl
  callbacks := (List.append_nil _).symm

theorem Sends.trans {first second : List (RequestCallback π)}
    {middle next : FPersistentConnection π ρ} (before : Sends first conn middle)
    (after : Sends second middle next) : Sends (first ++ second) conn next where
  sound := after.sound
  state := after.state.trans before.state
  outbox := after.outbox.trans before.outbox
  hashes := after.hashes.trans before.hashes
  callbacks := by rw [after.callbacks, before.callbacks, List.append_assoc]

/-- Soundness does not depend on the writes. -/
theorem Sound.of_link {next : FPersistentConnection π ρ} (sound : conn.Sound)
    (same : { conn with
      outstandingPuts := next.outstandingPuts
      putCounter := next.putCounter
      putsToAck := next.putsToAck
      completed := next.completed
      issued := next.issued
      listens := next.listens
      listenCounter := next.listenCounter
      authToken := next.authToken
      firstConnection := next.firstConnection
      interruptReasons := next.interruptReasons } = next) : next.Sound := by
  rw [← same]
  exact ⟨sound.live, sound.idle, sound.quiet, sound.counted, sound.fetching, sound.past,
    sound.sorted, sound.below⟩

theorem Sends.not_first {sent : List (RequestCallback π)} {next : FPersistentConnection π ρ}
    (sends : Sends sent conn next) : Sends sent conn { next with firstConnection := false } where
  sound := sends.sound.of_link rfl
  state := sends.state
  outbox := sends.outbox
  hashes := sends.hashes
  callbacks := sends.callbacks

theorem callbacks_numbered (callback : Option (RequestCallback π)) :
    (conn.numbered callback).callbacks = conn.callbacks ++ callback.toList := by
  cases callback <;> simp [numbered, callbacks]

theorem Sound.sends_numbered (sound : conn.Sound) (live : conn.connected = true)
    (callback : Option (RequestCallback π)) {count : Nat}
    (counted : count = conn.unackedListensCount + callback.toList.countP RequestCallback.isListen) :
    Sends callback.toList conn { conn.numbered callback with unackedListensCount := count } where
  sound := sound.numbered live counted
  state := rfl
  outbox := rfl
  hashes := rfl
  callbacks := callbacks_numbered callback

theorem Sound.sends_sendAction (sound : conn.Sound) (live : conn.connected = true)
    (callback : Option (RequestCallback π))
    (other : callback.toList.countP RequestCallback.isListen = 0) :
    ∃ next, conn.sendAction callback = some next ∧ Sends callback.toList conn next :=
  ⟨_, sound.sendAction_eq live callback,
    sound.sends_numbered live callback (by rw [other]; rfl)⟩

theorem Sound.sends_sendListen (sound : conn.Sound) (live : conn.connected = true)
    (listenSpec : FQuerySpec π × Nat) :
    ∃ next, conn.sendListen listenSpec = some next ∧
      Sends [.listen listenSpec.1 listenSpec.2] conn next := by
  unfold sendListen
  rw [sound.sendAction_eq live]
  exact ⟨_, rfl, sound.sends_numbered live (some (.listen listenSpec.1 listenSpec.2)) rfl⟩

@[simp]
theorem outbox_markSent (index : Nat) : (conn.markSent index).outbox = conn.outbox := by
  simp only [outbox, markSent, List.map_map, Outbox.mk.injEq, true_and, and_true]
  apply List.map_congr_left
  intro entry _
  simp only [Function.comp]
  split <;> rfl

@[simp]
theorem hashes_markSent (index : Nat) : (conn.markSent index).hashes = conn.hashes := by
  simp only [hashes, markSent, List.map_map]
  apply List.map_congr_left
  intro entry _
  simp only [Function.comp]
  split <;> rfl

theorem Sound.sends_sendPut (sound : conn.Sound) (live : conn.connectionState = .connected)
    {index : Nat} (member : index ∈ keys conn.outstandingPuts) :
    ∃ next, conn.sendPut index = some next ∧ Sends [.put index] conn next := by
  have marked : (conn.markSent index).Sound := sound.of_link rfl
  have connected : (conn.markSent index).connected = true := connected_iff.mpr (.inr live)
  obtain ⟨next, sent, sends⟩ :=
    marked.sends_sendAction connected (some (.put index)) rfl
  refine ⟨next, ?_, ?_⟩
  · rw [sendPut, if_pos ⟨by simpa [canSendWrites] using live, member⟩, sent]
  · exact ⟨sends.sound, sends.state, sends.outbox.trans (outbox_markSent index),
      sends.hashes.trans (hashes_markSent index), sends.callbacks⟩

theorem keys_outstandingPuts_of_outbox_eq {next : FPersistentConnection π ρ}
    (same : next.outbox = conn.outbox) : keys next.outstandingPuts = keys conn.outstandingPuts := by
  have waiting := congrArg (fun box => keys box.waiting) same
  simpa [outbox, keys, Function.comp_def] using waiting

/-- The callback that awaits the answer to a listen. -/
def listenCallback (listenSpec : FQuerySpec π × Nat) : RequestCallback π :=
  .listen listenSpec.1 listenSpec.2

/-- The first loop of `restoreState`. -/
theorem Sound.sends_listens (sound : conn.Sound) (live : conn.connectionState = .connected) :
    ∃ next, conn.listens.foldlM sendListen conn = some next ∧
      Sends (conn.listens.map listenCallback) conn next := by
  apply Transition.exists_foldlM_eq_some fun done next => Sends (done.map listenCallback) conn next
  · intro done listenSpec current _ sends
    have connected : current.connected = true := connected_iff.mpr (.inr (sends.state.trans live))
    obtain ⟨next, sent, more⟩ := sends.sound.sends_sendListen connected listenSpec
    refine ⟨next, sent, ?_⟩
    rw [List.map_append]
    exact sends.trans more
  · exact Sends.refl sound

/-- The second loop of `restoreState`; no put disappears while it runs. -/
theorem Sound.sends_puts (sound : conn.Sound) (live : conn.connectionState = .connected)
    {indexes : List Nat} (present : ∀ index ∈ indexes, index ∈ keys conn.outstandingPuts) :
    ∃ next, indexes.foldlM
        (fun current index =>
          if index ∈ keys current.outstandingPuts then current.sendPut index else some current)
        conn = some next ∧
      Sends (indexes.map .put) conn next := by
  apply Transition.exists_foldlM_eq_some fun done next => Sends (done.map .put) conn next
  · intro done index current member sends
    have kept : index ∈ keys current.outstandingPuts := by
      rw [keys_outstandingPuts_of_outbox_eq sends.outbox]
      exact present index member
    obtain ⟨next, sent, more⟩ := sends.sound.sends_sendPut (sends.state.trans live) kept
    refine ⟨next, by rw [if_pos kept, sent], ?_⟩
    rw [List.map_append]
    exact sends.trans more
  · exact Sends.refl sound

theorem sortedKeys_of_outbox_eq {next : FPersistentConnection π ρ}
    (same : next.outbox = conn.outbox) : next.sortedKeys = conn.sortedKeys := by
  rw [sortedKeys, sortedKeys, keys_outstandingPuts_of_outbox_eq same]

theorem Sound.sends_restoreState (sound : conn.Sound) (live : conn.connectionState = .connected) :
    ∃ next, conn.restoreState = some next ∧
      Sends (conn.listens.map listenCallback ++ conn.sortedKeys.map .put) conn next := by
  obtain ⟨middle, listened, listens⟩ := sound.sends_listens live
  have present : ∀ index ∈ middle.sortedKeys, index ∈ keys middle.outstandingPuts := by
    intro index member
    exact (List.mem_insertionSort (· ≤ ·)).mp member
  obtain ⟨next, sent, puts⟩ := listens.sound.sends_puts (listens.state.trans live) present
  refine ⟨next, ?_, ?_⟩
  · rw [restoreState, if_pos live, listened]
    exact sent
  · rw [sortedKeys_of_outbox_eq listens.outbox] at puts
    exact listens.trans puts

end Sending

/-! ## What a call can do -/

/-- The connection after the socket is lost, before a retry is scheduled. -/
def disconnected (conn : FPersistentConnection π ρ) : FPersistentConnection π ρ :=
  { cancelSentTransactions { conn with connectionState := .disconnected, realtime := none } with
    requestCBHash := []
    unackedListensCount := 0 }

/-- The connection after the handshake. -/
def joined (state : ConnectionState) (conn : FPersistentConnection π ρ) :
    FPersistentConnection π ρ :=
  { conn with realtime := some .connected, connectionState := state }

/-- The requests sent before `restoreAuth`. -/
def greetings (conn : FPersistentConnection π ρ) : List (RequestCallback π) :=
  if conn.firstConnection then [.stats] else []

/-- The requests of `restoreState`. -/
def restored (conn : FPersistentConnection π ρ) : List (RequestCallback π) :=
  conn.listens.map listenCallback ++ conn.sortedKeys.map .put

/-- An answered request is no longer awaited. -/
def answered (number : Nat) (conn : FPersistentConnection π ρ) : FPersistentConnection π ρ :=
  { conn with requestCBHash := alter number none conn.requestCBHash }

/-- The write an action makes. -/
def Action.writeId : Action π ρ → Option Nat
  | .putInternal _ _ writeId => some writeId
  | _ => none

/-- The actions by which the socket is lost. -/
def LosesSocket (conn : FPersistentConnection π ρ) : Action π ρ → Prop
  | .onDisconnect => True
  | .onAuthRevoked => True
  | .interruptForReason _ => True
  | .onDataMessage number status =>
      status ≠ statusOk ∧ (conn.requestCBHash.lookup number).any RequestCallback.isAuth = true
  | _ => False

/-- All that a call can do to a sound connection. -/
inductive Outcome (conn : FPersistentConnection π ρ) (action : Action π ρ)
    (next : FPersistentConnection π ρ) : Prop
  /-- Listens and authentications may be sent at any time. -/
  | sends (other : action.writeId = none) {sent : List (RequestCallback π)}
      (routine : ∀ callback ∈ sent, callback = .auth false ∨ callback.isListen = true)
      (sends : Sends sent conn next)
  /-- A write is sent only when the client is connected. -/
  | issues {request : ρ} {hash : Option String} {writeId : Nat}
      (put : action = .putInternal request hash writeId)
      (sends : Sends (if conn.connectionState = .connected then [.put conn.putCounter] else [])
        (conn.enqueue request hash writeId) next)
  | drops (other : action.writeId = none) (loses : conn.LosesSocket action)
      (sends : Sends [] conn.disconnected next)
  /-- Nothing is sent while there is no socket. -/
  | waits (other : action.writeId = none) (closed : conn.connected = false) (sound : next.Sound)
      (idle : next.connected = false)
      (outbox : next.outbox = conn.outbox) (hashes : next.hashes = conn.hashes)
  | joins (other : action.writeId = none) (connecting : conn.connectionState = .connecting)
      (sends : Sends (conn.greetings ++ conn.restored) (conn.joined .connected) next)
  | authenticates (other : action.writeId = none)
      (connecting : conn.connectionState = .connecting)
      (sends : Sends (conn.greetings ++ [.auth true]) (conn.joined .authenticating) next)
  | hearsStats {number : Nat} {status : String} (answer : action = .onDataMessage number status)
      (found : conn.requestCBHash.lookup number = some .stats)
      (sends : Sends [] (conn.answered number) next)
  | hearsAuth {number : Nat} {status : String} {restoreStateAfterComplete : Bool}
      (answer : action = .onDataMessage number status)
      (found : conn.requestCBHash.lookup number = some (.auth restoreStateAfterComplete))
      (sends : Sends (if restoreStateAfterComplete then conn.restored else [])
        ((conn.answered number).joined .connected) next)
  | hearsPut {number index : Nat} {status : String} (answer : action = .onDataMessage number status)
      (found : conn.requestCBHash.lookup number = some (.put index))
      (sends : Sends [] ((conn.answered number).onPutResponse index status) next)
  | hearsListen {number listenSpec : Nat} {query : FQuerySpec π} {status : String}
      (answer : action = .onDataMessage number status)
      (found : conn.requestCBHash.lookup number = some (.listen query listenSpec))
      (sends : Sends [] (if conn.unackedListensCount = 1 then (conn.answered number).ackPuts
        else conn.answered number) next)
  | purges (purge : action = .purgeOutstandingWrites)
      (sends : Sends [] conn.purgeOutstandingWrites next)

section Calls

variable {conn : FPersistentConnection π ρ}

theorem Outcome.sound {action : Action π ρ} {next : FPersistentConnection π ρ}
    (outcome : Outcome conn action next) : next.Sound := by
  cases outcome with
  | waits other closed sound idle outbox hashes => exact sound
  | sends other routine sends => exact sends.sound
  | issues put sends => exact sends.sound
  | drops other loses sends => exact sends.sound
  | joins other connecting sends => exact sends.sound
  | authenticates other connecting sends => exact sends.sound
  | hearsStats answer found sends => exact sends.sound
  | hearsAuth answer found sends => exact sends.sound
  | hearsPut answer found sends => exact sends.sound
  | hearsListen answer found sends => exact sends.sound
  | purges purge sends => exact sends.sound

/-- What is sent is compared only with what `Sends` looks at. -/
theorem Sends.of_view {other next : FPersistentConnection π ρ} {sent : List (RequestCallback π)}
    (sends : Sends sent other next) (state : other.connectionState = conn.connectionState)
    (outbox : other.outbox = conn.outbox) (hashes : other.hashes = conn.hashes)
    (callbacks : other.callbacks = conn.callbacks) : Sends sent conn next :=
  ⟨sends.sound, sends.state.trans state, sends.outbox.trans outbox, sends.hashes.trans hashes,
    callbacks ▸ sends.callbacks⟩

theorem Outcome.quiet {action : Action π ρ} {next : FPersistentConnection π ρ}
    (other : action.writeId = none) (sends : Sends [] conn next) : Outcome conn action next :=
  .sends other (fun _ member => absurd member List.not_mem_nil) sends

theorem Sends.nil_of_link {next : FPersistentConnection π ρ} (sound : next.Sound)
    (state : next.connectionState = conn.connectionState) (outbox : next.outbox = conn.outbox)
    (hashes : next.hashes = conn.hashes) (callbacks : next.callbacks = conn.callbacks) :
    Sends [] conn next :=
  ⟨sound, state, outbox, hashes, callbacks.trans (List.append_nil _).symm⟩

/-! ### Scheduling -/

theorem Sound.sends_tryScheduleReconnect (sound : conn.Sound)
    (idle : conn.connectionState = .disconnected) :
    ∃ next, conn.tryScheduleReconnect = some next ∧ Sends [] conn next := by
  rw [tryScheduleReconnect, if_pos idle]
  split
  · exact ⟨_, rfl, .nil_of_link { sound with idle := fun _ => idle } rfl rfl rfl rfl⟩
  · exact ⟨conn, rfl, Sends.refl sound⟩

theorem Sound.disconnected (sound : conn.Sound) : conn.disconnected.Sound where
  live := rfl
  idle := fun _ => rfl
  quiet := fun _ => rfl
  counted := rfl
  fetching := fun _ => .inl rfl
  past := sound.past
  sorted := List.Pairwise.nil
  below := fun _ member => nomatch member

theorem Sound.sends_onDisconnect (sound : conn.Sound) :
    ∃ next, conn.onDisconnect = some next ∧ Sends [] conn.disconnected next := by
  have returned : conn.onDisconnect =
      if conn.disconnected.shouldReconnect then conn.disconnected.tryScheduleReconnect
      else some conn.disconnected := rfl
  rw [returned]
  split
  · exact sound.disconnected.sends_tryScheduleReconnect rfl
  · exact ⟨_, rfl, Sends.refl sound.disconnected⟩

theorem Sound.sends_closeRealtime (sound : conn.Sound) (present : conn.realtime ≠ none) :
    ∃ next, conn.closeRealtime = some next ∧ Sends [] conn.disconnected next := by
  rw [closeRealtime, if_pos (Option.isSome_iff_ne_none.mpr present)]
  exact sound.sends_onDisconnect

theorem Sound.not_connected_of_realtime (sound : conn.Sound) (absent : conn.realtime = none) :
    conn.connected = false := by
  rw [sound.live] at absent
  cases state : conn.connectionState <;> rw [state] at absent <;>
    simp [ConnectionState.realtime] at absent <;> simp [connected, state]

theorem Sound.outcome_interruptForReason (sound : conn.Sound) (reason : String) :
    ∃ next, conn.interruptForReason reason = some next ∧
      Outcome conn (.interruptForReason reason) next := by
  have same : Sound { conn with
      interruptReasons := reason :: conn.interruptReasons.filter (· ≠ reason) } :=
    sound.of_link rfl
  simp only [interruptForReason]
  split
  · rename_i present
    obtain ⟨next, returned, sends⟩ :=
      same.sends_closeRealtime (Option.isSome_iff_ne_none.mp present)
    exact ⟨next, returned, .drops rfl trivial (sends.of_view rfl rfl rfl rfl)⟩
  · rename_i absent
    have closed := Option.not_isSome_iff_eq_none.mp absent
    have before := sound.not_connected_of_realtime closed
    refine ⟨_, rfl, .waits rfl before ?_ rfl rfl rfl⟩
    exact { same with
      live := closed
      idle := fun _ => rfl
      quiet := fun _ => sound.quiet before
      fetching := fun _ => .inl rfl }

theorem Sound.outcome_resumeForReason (sound : conn.Sound) (reason : String) :
    ∃ next, conn.resumeForReason reason = some next ∧
      Outcome conn (.resumeForReason reason) next := by
  have same : Sound { conn with interruptReasons := conn.interruptReasons.filter (· ≠ reason) } :=
    sound.of_link rfl
  simp only [resumeForReason]
  split
  · rename_i ready
    obtain ⟨next, returned, sends⟩ := same.sends_tryScheduleReconnect ready.2
    exact ⟨next, returned, .quiet rfl (sends.of_view rfl rfl rfl rfl)⟩
  · exact ⟨_, rfl, .quiet rfl (.nil_of_link same rfl rfl rfl rfl)⟩

theorem Sound.outcome_reachable (sound : conn.Sound) :
    ∃ next, conn.reachable = some next ∧ Outcome conn .reachable next := by
  unfold reachable
  split
  · rename_i idle
    obtain ⟨next, returned, sends⟩ := sound.sends_tryScheduleReconnect idle
    exact ⟨next, returned, .quiet rfl sends⟩
  · exact ⟨conn, rfl, .quiet rfl (Sends.refl sound)⟩

/-- A retry makes its token request the latest one. -/
theorem Sound.outcome_retry (sound : conn.Sound) (scheduled : conn.scheduledRetry = true) :
    ∃ next, conn.retry = some next ∧ Outcome conn .retry next := by
  have idle := sound.idle scheduled
  have closed : conn.realtime = none := by
    rw [sound.live, idle]
    rfl
  have before := sound.not_connected_of_realtime closed
  rw [retry, if_pos idle]
  refine ⟨_, rfl, .waits rfl before ?_ rfl rfl rfl⟩
  exact { sound with
    live := closed
    idle := fun impossible => nomatch impossible
    quiet := fun _ => sound.quiet before
    fetching := fun _ => .inr rfl
    past := by
      intro attempt member
      rcases List.mem_append.mp member with old | new
      · exact Nat.le_succ_of_le (sound.past attempt old)
      · exact Nat.le_of_eq (List.mem_singleton.mp new) }

/-- Only the latest token request opens the socket, and only once. -/
theorem Sound.outcome_fetchedToken (sound : conn.Sound) {attempt : Nat}
    (answer : Option (Option String)) (asked : attempt ∈ conn.fetches) :
    ∃ next, conn.fetchedToken attempt answer = some next ∧
      Outcome conn (.fetchedToken attempt answer) next := by
  have fewer : ∀ other ∈ conn.fetches.filter (fun other => other ≠ attempt),
      other ∈ conn.fetches := fun other member => (List.mem_filter.mp member).1
  have settled : attempt = conn.currentFetchTokenAttempt →
      conn.currentFetchTokenAttempt ∉ conn.fetches.filter (fun other => other ≠ attempt) := by
    rintro rfl member
    simpa using (List.mem_filter.mp member).2
  have dropped : Sound { conn with
      fetches := conn.fetches.filter fun other => other ≠ attempt } := { sound with
    fetching := fun member => sound.fetching (fewer _ member)
    past := fun other member => sound.past other (fewer other member) }
  have unchanged : Outcome conn (.fetchedToken attempt answer) _ :=
    .quiet rfl (.nil_of_link dropped rfl rfl rfl rfl)
  simp only [fetchedToken]
  split
  · rename_i latest
    have early := sound.fetching (latest ▸ asked)
    have closed : conn.realtime = none := by
      rw [sound.live]
      rcases early with state | state <;> rw [state] <;> rfl
    have before := sound.not_connected_of_realtime closed
    have quiet := sound.quiet before
    cases answer with
    | none =>
        have idle : Sound { conn with
            fetches := conn.fetches.filter fun other => other ≠ attempt
            connectionState := .disconnected } := { dropped with
          live := closed
          idle := fun _ => rfl
          quiet := fun _ => quiet
          fetching := fun _ => .inl rfl }
        obtain ⟨next, returned, sends⟩ := idle.sends_tryScheduleReconnect rfl
        refine ⟨next, returned, .waits rfl before sends.sound ?_ sends.outbox sends.hashes⟩
        simp [connected, sends.state]
    | some token =>
        dsimp only
        rcases early with state | state
        · rw [if_neg (by rw [state]; decide), if_pos state]
          exact ⟨_, rfl, unchanged⟩
        · rw [if_pos state]
          refine ⟨_, rfl, .waits rfl before ?_ rfl rfl rfl⟩
          exact { dropped with
            live := rfl
            idle := by
              intro scheduled
              rw [sound.idle scheduled] at state
              contradiction
            quiet := fun _ => quiet
            fetching := fun member => absurd member (settled latest) }
  · exact ⟨_, rfl, unchanged⟩

/-! ### The handshake -/

theorem Sound.joined (sound : conn.Sound) (connecting : conn.connectionState = .connecting)
    {state : ConnectionState} (live : state.realtime = some .connected) :
    (conn.joined state).Sound where
  live := live.symm
  idle := by
    intro scheduled
    have idle := sound.idle scheduled
    rw [connecting] at idle
    contradiction
  quiet := by
    intro _
    apply sound.quiet
    simp [connected, connecting]
  counted := sound.counted
  fetching := by
    intro member
    rcases sound.fetching member with state | state <;> rw [connecting] at state <;> contradiction
  past := sound.past
  sorted := sound.sorted
  below := sound.below

/-- The statistics are sent on the first connection, as if the state had changed
already. -/
def greeted (state : ConnectionState) (conn : FPersistentConnection π ρ) :
    FPersistentConnection π ρ :=
  if conn.firstConnection then (conn.joined state).numbered (some .stats) else conn.joined state

theorem onReady_eq (connecting : conn.connectionState = .connecting) :
    conn.onReady =
      ((if conn.authToken = none then (conn.greeted .connected).restoreState
        else (conn.greeted .authenticating).sendAuth true).map fun next =>
          { next with firstConnection := false }) := by
  cases first : conn.firstConnection <;> cases token : conn.authToken <;>
    simp [onReady, restoreAuth, sendConnectStats, sendAction, greeted, joined, numbered, first, token,
      connecting]

theorem connected_joined {state : ConnectionState}
    (live : state.realtime = some .connected) : (conn.joined state).connected = true := by
  cases state <;> simp [ConnectionState.realtime] at live <;> simp [connected, joined]

theorem Sound.sends_greeted (sound : conn.Sound) (connecting : conn.connectionState = .connecting)
    {state : ConnectionState} (live : state.realtime = some .connected) :
    Sends conn.greetings (conn.joined state) (conn.greeted state) := by
  have joined := sound.joined connecting live
  unfold greetings greeted
  split
  · exact joined.sends_numbered (connected_joined live) (some .stats) rfl
  · exact Sends.refl joined

theorem listens_greeted (state : ConnectionState) : (conn.greeted state).listens = conn.listens := by
  unfold greeted
  split <;> rfl

theorem authToken_greeted (state : ConnectionState) :
    (conn.greeted state).authToken = conn.authToken := by
  unfold greeted
  split <;> rfl

theorem Sound.connecting_of_realtime (sound : conn.Sound)
    (opening : conn.realtime = some .connecting) : conn.connectionState = .connecting := by
  rw [sound.live] at opening
  cases state : conn.connectionState <;> rw [state] at opening <;>
    simp [ConnectionState.realtime] at opening

/-- Without a token everything is sent after the handshake; with one the client
authenticates first. -/
theorem Sound.outcome_onReady (sound : conn.Sound) (opening : conn.realtime = some .connecting) :
    ∃ next, conn.onReady = some next ∧ Outcome conn .onReady next := by
  have connecting := sound.connecting_of_realtime opening
  by_cases absent : conn.authToken = none
  · have greeted : Sends conn.greetings (conn.joined .connected) (conn.greeted .connected) :=
      sound.sends_greeted connecting rfl
    obtain ⟨next, returned, sends⟩ := greeted.sound.sends_restoreState greeted.state
    rw [listens_greeted, sortedKeys_of_outbox_eq greeted.outbox] at sends
    refine ⟨_, ?_, .joins rfl connecting (greeted.trans sends).not_first⟩
    rw [onReady_eq connecting, if_pos absent, returned]
    rfl
  · have greeted : Sends conn.greetings (conn.joined .authenticating)
        (conn.greeted .authenticating) := sound.sends_greeted connecting rfl
    have live : (conn.greeted .authenticating).connected = true :=
      connected_iff.mpr (.inl greeted.state)
    obtain ⟨next, sent, sends⟩ := greeted.sound.sends_sendAction live (some (.auth true)) rfl
    refine ⟨_, ?_, .authenticates rfl connecting (greeted.trans sends).not_first⟩
    rw [onReady_eq connecting, if_neg absent, sendAuth,
      if_pos ⟨live, (authToken_greeted _).symm ▸ absent⟩, sent]
    rfl

/-! ### Requests -/

theorem Sound.outcome_putInternal (sound : conn.Sound) (request : ρ) (hash : Option String)
    (writeId : Nat) :
    ∃ next, conn.putInternal request hash writeId = some next ∧
      Outcome conn (.putInternal request hash writeId) next := by
  have queued : (conn.enqueue request hash writeId).Sound := sound.of_link rfl
  simp only [putInternal]
  by_cases live : conn.connectionState = .connected
  · have able : (conn.enqueue request hash writeId).canSendWrites = true :=
      decide_eq_true live
    have member : conn.putCounter ∈ keys (conn.enqueue request hash writeId).outstandingPuts := by
      simp [enqueue, keys]
    obtain ⟨next, returned, sends⟩ := queued.sends_sendPut live member
    refine ⟨next, by rw [if_pos able, returned], .issues rfl ?_⟩
    rw [if_pos live]
    exact sends
  · have unable : ¬ (conn.enqueue request hash writeId).canSendWrites = true :=
      fun able => live (of_decide_eq_true able)
    refine ⟨_, if_neg unable, .issues rfl ?_⟩
    rw [if_neg live]
    exact Sends.refl queued

theorem Sound.outcome_refreshAuthToken (sound : conn.Sound) (token : Option String) :
    ∃ next, conn.refreshAuthToken token = some next ∧
      Outcome conn (.refreshAuthToken token) next := by
  have same : Sound { conn with authToken := token } := sound.of_link rfl
  simp only [refreshAuthToken]
  split
  · rename_i live
    cases token with
    | none =>
        obtain ⟨next, returned, sends⟩ := same.sends_sendAction live none rfl
        exact ⟨next, returned, .quiet rfl (sends.of_view rfl rfl rfl rfl)⟩
    | some token =>
        simp only [sendAuth]
        rw [if_pos ⟨live, Option.some_ne_none token⟩]
        obtain ⟨next, returned, sends⟩ := same.sends_sendAction live (some (.auth false)) rfl
        refine ⟨next, returned, .sends rfl ?_ (sends.of_view rfl rfl rfl rfl)⟩
        intro callback member
        exact .inl (List.mem_singleton.mp member)
  · exact ⟨_, rfl, .quiet rfl (.nil_of_link same rfl rfl rfl rfl)⟩

theorem Sound.outcome_onAuthRevoked (sound : conn.Sound) (live : conn.realtime = some .connected) :
    ∃ next, conn.onAuthRevoked = some next ∧ Outcome conn .onAuthRevoked next := by
  have same : Sound { conn with authToken := none } := sound.of_link rfl
  have present : conn.realtime ≠ none := by
    rw [live]
    exact Option.some_ne_none _
  obtain ⟨next, returned, sends⟩ := same.sends_closeRealtime present
  exact ⟨next, returned, .drops rfl trivial (sends.of_view rfl rfl rfl rfl)⟩

/-! ### Answers -/

/-- One awaited callback less. -/
theorem Sound.perm_requestCBHash (sound : conn.Sound) {number : Nat}
    {callback : RequestCallback π} (found : conn.requestCBHash.lookup number = some callback) :
    conn.requestCBHash.Perm ((number, callback) :: (conn.answered number).requestCBHash) :=
  Outbox.perm_cons_alter_none sound.distinct found

/-- The connection is sound after an answer, once the listens are counted
again. -/
theorem Sound.answered (sound : conn.Sound) (live : conn.connected = true) {number count : Nat}
    {callback : RequestCallback π} (found : conn.requestCBHash.lookup number = some callback)
    (counted : conn.unackedListensCount = count + [callback].countP RequestCallback.isListen) :
    Sound { conn.answered number with unackedListensCount := count } where
  live := sound.live
  idle := sound.idle
  quiet := fun dead => absurd (live.symm.trans dead) (by decide)
  counted := by
    have fewer := (sound.perm_requestCBHash found).countP_eq fun entry => entry.2.isListen
    rw [← sound.counted, counted, List.countP_cons] at fewer
    simp only [List.countP_cons, List.countP_nil] at fewer
    change count = (conn.answered number).requestCBHash.countP _
    omega
  fetching := sound.fetching
  past := sound.past
  sorted := sound.sorted.sublist (List.filter_sublist.map Prod.fst)
  below := by
    intro other member
    apply sound.below
    exact (List.filter_sublist.map Prod.fst).subset member

/-- Being connected does not depend on being authenticated. -/
theorem Sound.rejoined (sound : conn.Sound) (live : conn.connected = true) :
    (conn.joined .connected).Sound := { sound with
  live := rfl
  idle := by
    intro scheduled
    have idle := sound.idle scheduled
    simp [connected, idle] at live
  quiet := fun dead => absurd dead (by simp [connected, FPersistentConnection.joined])
  fetching := by
    intro member
    rcases sound.fetching member with state | state <;> simp [connected, state] at live }

theorem Sound.onPutResponse (sound : conn.Sound) (index : Nat) (status : String) :
    (conn.onPutResponse index status).Sound := by
  unfold FPersistentConnection.onPutResponse
  split
  · exact sound
  · split
    · exact sound.of_link rfl
    · exact sound.of_link rfl

/-- The answer to an authentication restores the state or loses the socket. -/
theorem Sound.onAuthResponse_cases (sound : conn.Sound) (live : conn.connected = true)
    (restoreStateAfterComplete : Bool) (status : String) :
    ∃ next, conn.onAuthResponse restoreStateAfterComplete status = some next ∧
      (Sends (if restoreStateAfterComplete then conn.restored else []) (conn.joined .connected) next ∨
        (status ≠ statusOk ∧ Sends [] conn.disconnected next)) := by
  have connectedSocket := sound.realtime_of_connected live
  have joined := sound.rejoined live
  have same : { conn with connectionState := .connected } = conn.joined .connected := by
    rw [FPersistentConnection.joined, ← connectedSocket]
  simp only [onAuthResponse]
  rw [same]
  split
  · cases restoreStateAfterComplete with
    | true =>
        obtain ⟨next, returned, sends⟩ := joined.sends_restoreState rfl
        exact ⟨next, returned, .inl sends⟩
    | false => exact ⟨_, rfl, .inl (Sends.refl joined)⟩
  · rename_i refused
    have anonymous : Sound { conn with connectionState := .connected, authToken := none } := by
      rw [← same] at joined
      exact joined.of_link rfl
    have present : conn.realtime ≠ none := by
      rw [connectedSocket]
      exact Option.some_ne_none _
    obtain ⟨next, returned, sends⟩ := anonymous.sends_closeRealtime present
    exact ⟨next, returned, .inr ⟨refused, sends.of_view rfl rfl rfl rfl⟩⟩

/-- The callback of a listen is itself counted, so the count is not zero when it
is called. -/
theorem Sound.exists_count (sound : conn.Sound) {number listenSpec : Nat} {query : FQuerySpec π}
    (found : conn.requestCBHash.lookup number = some (.listen query listenSpec)) :
    ∃ count, conn.unackedListensCount = count + 1 := by
  apply Nat.exists_eq_succ_of_ne_zero
  rw [sound.counted]
  apply Nat.ne_of_gt
  exact List.countP_pos_iff.mpr ⟨_, mem_of_lookup_eq_some found, rfl⟩

section Queries

variable [DecidableEq π]

theorem Sound.outcome_listen (sound : conn.Sound) {query : FQuerySpec π}
    (fresh : conn.listens.lookup query = none) :
    ∃ next, conn.listen query = some next ∧ Outcome conn (.listen query) next := by
  have same : Sound { conn with
      listenCounter := conn.listenCounter + 1
      listens := conn.listens ++ [(query, conn.listenCounter)] } := sound.of_link rfl
  simp only [listen]
  rw [if_pos fresh]
  split
  · rename_i live
    obtain ⟨next, returned, sends⟩ := same.sends_sendListen live (query, conn.listenCounter)
    refine ⟨next, returned, .sends rfl ?_ (sends.of_view rfl rfl rfl rfl)⟩
    intro callback member
    rw [List.mem_singleton.mp member]
    exact .inr rfl
  · exact ⟨_, rfl, .quiet rfl (.nil_of_link same rfl rfl rfl rfl)⟩

theorem Sound.outcome_unlisten (sound : conn.Sound) (query : FQuerySpec π) :
    ∃ next, conn.unlisten query = some next ∧ Outcome conn (.unlisten query) next := by
  have same : Sound { conn with listens := alter query none conn.listens } := sound.of_link rfl
  simp only [unlisten]
  split
  · rename_i able
    obtain ⟨next, returned, sends⟩ := same.sends_sendAction able.2 none rfl
    exact ⟨next, returned, .quiet rfl (sends.of_view rfl rfl rfl rfl)⟩
  · exact ⟨_, rfl, .quiet rfl (.nil_of_link same rfl rfl rfl rfl)⟩

/-- The listens left after the answer to one of them. -/
def listensAfter (query : FQuerySpec π) (listenSpec : Nat) (status : String)
    (conn : FPersistentConnection π ρ) : List (FQuerySpec π × Nat) :=
  if conn.listens.lookup query = some listenSpec ∧ status ≠ statusOk then
    alter query none conn.listens
  else conn.listens

theorem onListenResponse_eq (query : FQuerySpec π) (listenSpec : Nat) (status : String)
    {count : Nat} (counted : conn.unackedListensCount = count + 1) :
    conn.onListenResponse query listenSpec status =
      some (if count = 0 then
        ackPuts { conn with
          listens := conn.listensAfter query listenSpec status
          unackedListensCount := count }
      else { conn with
          listens := conn.listensAfter query listenSpec status
          unackedListensCount := count }) := by
  by_cases refused : conn.listens.lookup query = some listenSpec ∧ status ≠ statusOk
  · simp only [onListenResponse, listensAfter, if_pos refused, counted, Nat.succ_ne_zero, if_false,
      Nat.add_sub_cancel]
  · simp only [onListenResponse, listensAfter, if_neg refused, counted, Nat.succ_ne_zero, if_false,
      Nat.add_sub_cancel]

theorem Sound.outcome_onDataMessage (sound : conn.Sound) (connectedSocket : conn.realtime = some .connected)
    (number : Nat) (status : String) :
    ∃ next, conn.onDataMessage number status = some next ∧
      Outcome conn (.onDataMessage number status) next := by
  have live := sound.connected_of_realtime connectedSocket
  unfold onDataMessage
  split
  · exact ⟨conn, rfl, .quiet rfl (Sends.refl sound)⟩
  · rename_i callback found
    cases callback with
    | stats =>
        have kept : (conn.answered number).Sound := sound.answered live found rfl
        exact ⟨_, rfl, .hearsStats rfl found (Sends.refl kept)⟩
    | auth restoreStateAfterComplete =>
        have kept : (conn.answered number).Sound := sound.answered live found rfl
        obtain ⟨next, returned, restored | ⟨refused, dropped⟩⟩ :=
          kept.onAuthResponse_cases live restoreStateAfterComplete status
        · exact ⟨next, returned, .hearsAuth rfl found restored⟩
        · exact ⟨next, returned, .drops rfl ⟨refused, by rw [found]; rfl⟩ (dropped.of_view rfl rfl rfl rfl)⟩
    | put index =>
        have kept : (conn.answered number).Sound := sound.answered live found rfl
        exact ⟨_, rfl, .hearsPut rfl found (Sends.refl (kept.onPutResponse index status))⟩
    | listen query listenSpec =>
        obtain ⟨count, counted⟩ := sound.exists_count found
        have kept := sound.answered live found counted
        have same : (conn.answered number).unackedListensCount = count + 1 := counted
        change ∃ next, (conn.answered number).onListenResponse query listenSpec status = some next ∧ _
        rw [onListenResponse_eq query listenSpec status same]
        refine ⟨_, rfl, .hearsListen rfl found ?_⟩
        rw [counted]
        by_cases last : count = 0
        · rw [if_pos last, if_pos (by omega)]
          exact .nil_of_link (kept.of_link rfl) rfl rfl rfl rfl
        · rw [if_neg last, if_neg (by omega)]
          exact .nil_of_link (kept.of_link rfl) rfl rfl rfl rfl

/-- No handler fails in a sound connection when it can be called, and this is
all it can do. -/
theorem Sound.exists_outcome (sound : conn.Sound) {action : Action π ρ}
    (enabled : conn.Enabled action) :
    ∃ next, step conn action = some next ∧ Outcome conn action next := by
  cases action with
  | putInternal request hash writeId => exact sound.outcome_putInternal request hash writeId
  | listen query => exact sound.outcome_listen enabled
  | unlisten query => exact sound.outcome_unlisten query
  | onListenRevoked path =>
      exact ⟨_, rfl, .quiet rfl (.nil_of_link (sound.of_link rfl) rfl rfl rfl rfl)⟩
  | refreshAuthToken token => exact sound.outcome_refreshAuthToken token
  | onAuthRevoked => exact sound.outcome_onAuthRevoked enabled
  | interruptForReason reason => exact sound.outcome_interruptForReason reason
  | resumeForReason reason => exact sound.outcome_resumeForReason reason
  | reachable => exact sound.outcome_reachable
  | retry => exact sound.outcome_retry enabled
  | fetchedToken attempt answer => exact sound.outcome_fetchedToken answer enabled
  | onReady => exact sound.outcome_onReady enabled
  | onDisconnect =>
      obtain ⟨next, returned, sends⟩ := sound.sends_onDisconnect
      exact ⟨next, returned, .drops rfl trivial sends⟩
  | onDataMessage number status => exact sound.outcome_onDataMessage enabled number status
  | purgeOutstandingWrites => exact ⟨_, rfl, .purges rfl (Sends.refl (sound.of_link rfl))⟩

/-- In every run in which handlers are called only when they can be, no
assertion fails, and the connection is sound in the end. -/
theorem exists_sound_run {actions : List (Action π ρ)}
    (enabled : Transition.Permitted step Enabled init actions) :
    ∃ final : FPersistentConnection π ρ,
      Transition.run step init actions = some final ∧ final.Sound := by
  apply Transition.exists_run_of_permitted (fun _ conn => conn.Sound) ?_ sound_init enabled
  intro _ conn action sound able
  obtain ⟨next, returned, outcome⟩ := sound.exists_outcome able
  exact ⟨next, returned, outcome.sound⟩

/-- A write is made offline and answered behind an open listen; the socket is
lost, and the next write is purged. -/
theorem exists_sound_run_reconnected :
    ∃ final : FPersistentConnection Unit Unit,
      Transition.run step init [
        .putInternal () none 0, .resumeForReason "waiting_for_open", .listen ⟨["posts"], ()⟩,
        .retry, .fetchedToken 1 (some (some "token")), .onReady, .onDataMessage 2 "ok",
        .onDataMessage 4 "ok", .onDisconnect, .retry, .fetchedToken 2 (some (some "token")),
        .onReady, .putInternal () none 1, .onDataMessage 5 "ok",
        .onDataMessage 6 "permission_denied", .interruptForReason "app", .purgeOutstandingWrites] =
          some final ∧ final.Sound :=
  exists_sound_run (by decide +kernel)

end Queries

end Calls

end FPersistentConnection

end DyeIsLife.Sync
