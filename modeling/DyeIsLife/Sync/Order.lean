import DyeIsLife.Sync.Acknowledgement

/-!
# The order of acknowledgements

While the client is connected, the puts whose answers are awaited are exactly
the outstanding ones, in the order of their numbers.  While it authenticates no
put has been sent, and the authentication that will restore the state is
answered before everything that was sent after it.  From this the answers, when
they come in the order of the requests, are the answers to the outstanding puts
in their order.
-/

namespace DyeIsLife.Sync

open DyeIsLife.Store

universe u v

variable {π : Type u} {ρ : Type v}

/-! ## The line of callbacks -/

/-- The put a callback belongs to. -/
def RequestCallback.putIndex : RequestCallback π → Option Nat
  | .put index => some index
  | .stats => none
  | .auth _ => none
  | .listen _ _ => none

/-- The puts whose answers are awaited, in the order in which they were sent. -/
def putIndexes (callbacks : List (RequestCallback π)) : List Nat :=
  callbacks.filterMap RequestCallback.putIndex

/-- Requests that may be sent at any time. -/
def Routine (callbacks : List (RequestCallback π)) : Prop :=
  ∀ callback ∈ callbacks, callback = .auth false ∨ callback.isListen = true

theorem putIndexes_of_routine {callbacks : List (RequestCallback π)} (routine : Routine callbacks) :
    putIndexes callbacks = [] := by
  rw [putIndexes, List.filterMap_eq_nil_iff]
  intro callback member
  rcases routine callback member with rfl | isListen
  · rfl
  · cases callback <;> first | rfl | contradiction

theorem Routine.not_mem {callbacks : List (RequestCallback π)} (routine : Routine callbacks) :
    .auth true ∉ callbacks := by
  intro member
  rcases routine _ member with impossible | impossible
  · cases impossible
  · contradiction

/-- How the callbacks stand in line: in a given state, when the puts with the
given numbers are outstanding. -/
structure InLine (state : ConnectionState) (callbacks : List (RequestCallback π))
    (indexes : List Nat) : Prop where
  /-- When the client is connected, all outstanding puts were sent in order and
  no answer will restore the state again. -/
  connected : state = .connected →
    .auth true ∉ callbacks ∧
      (putIndexes callbacks).filter (fun index => decide (index ∈ indexes)) = indexes
  /-- While it authenticates, no put was sent and only statistics precede the
  authentication. -/
  authenticating : state = .authenticating →
    ∃ before after, callbacks = before ++ .auth true :: after ∧
      (∀ callback ∈ before, callback = .stats) ∧ Routine after

namespace InLine

variable {state : ConnectionState} {callbacks : List (RequestCallback π)} {indexes : List Nat}

theorem of_idle (idle : state ≠ .connected ∧ state ≠ .authenticating) :
    InLine state callbacks indexes where
  connected := fun live => absurd live idle.1
  authenticating := fun live => absurd live idle.2

/-- Routine requests go to the end of the line. -/
theorem append (line : InLine state callbacks indexes) {sent : List (RequestCallback π)}
    (routine : Routine sent) : InLine state (callbacks ++ sent) indexes where
  connected := by
    intro live
    obtain ⟨absent, order⟩ := line.connected live
    constructor
    · intro member
      rcases List.mem_append.mp member with old | new
      · exact absent old
      · exact routine.not_mem new
    · rw [putIndexes, List.filterMap_append]
      change (putIndexes callbacks ++ putIndexes sent).filter _ = indexes
      rw [putIndexes_of_routine routine, List.append_nil, order]
  authenticating := by
    intro live
    obtain ⟨before, after, rfl, stats, routineAfter⟩ := line.authenticating live
    refine ⟨before, after ++ sent, by simp, stats, ?_⟩
    intro callback member
    rcases List.mem_append.mp member with old | new
    · exact routineAfter callback old
    · exact routine callback new

/-- A new put goes to the end of the line when the client is connected. -/
theorem issue (line : InLine state callbacks indexes) {counter : Nat}
    (below : ∀ index ∈ putIndexes callbacks, index < counter) :
    InLine state (callbacks ++ if state = .connected then [.put counter] else [])
      (indexes ++ [counter]) where
  connected := by
    intro live
    obtain ⟨absent, order⟩ := line.connected live
    rw [if_pos live]
    constructor
    · intro member
      rcases List.mem_append.mp member with old | new
      · exact absent old
      · cases List.mem_singleton.mp new
    · have same : (putIndexes callbacks).filter (fun index => decide (index ∈ indexes ++ [counter])) =
          (putIndexes callbacks).filter (fun index => decide (index ∈ indexes)) := by
        apply List.filter_congr
        intro index member
        have differ : index ≠ counter := Nat.ne_of_lt (below index member)
        simp [differ]
      rw [putIndexes, List.filterMap_append]
      change (putIndexes callbacks ++ [counter]).filter _ = _
      rw [List.filter_append, same, order]
      simp
  authenticating := by
    intro live
    rw [if_neg (by rw [live]; decide), List.append_nil]
    exact line.authenticating live

/-- After the state was restored all outstanding puts stand in line. -/
theorem restore {listens : List (RequestCallback π)}
    (free : putIndexes callbacks = []) (absent : .auth true ∉ callbacks)
    (isListen : ∀ callback ∈ listens, callback.isListen = true) :
    InLine .connected (callbacks ++ (listens ++ indexes.map .put)) indexes where
  connected := by
    intro _
    have routine : Routine listens := fun callback member => .inr (isListen callback member)
    have puts : putIndexes (indexes.map .put : List (RequestCallback π)) = indexes := by
      simp [putIndexes, RequestCallback.putIndex, List.filterMap_map, Function.comp_def]
    constructor
    · intro member
      simp only [List.mem_append, List.mem_map] at member
      rcases member with old | listen | ⟨index, _, impossible⟩
      · exact absent old
      · exact routine.not_mem listen
      · cases impossible
    · rw [putIndexes, List.filterMap_append, List.filterMap_append]
      change (putIndexes callbacks ++ (putIndexes listens ++ putIndexes _)).filter _ = indexes
      rw [free, putIndexes_of_routine routine, puts, List.nil_append, List.nil_append,
        List.filter_eq_self]
      intro index member
      exact decide_eq_true member
  authenticating := fun impossible => nomatch impossible

/-- Statistics come first, then the authentication. -/
theorem authenticate (stats : ∀ callback ∈ callbacks, callback = .stats) :
    InLine .authenticating (callbacks ++ [.auth true]) indexes where
  connected := fun impossible => nomatch impossible
  authenticating := fun _ => ⟨callbacks, [], rfl, stats, fun _ member => nomatch member⟩

/-- The first in line is answered; it is neither a put nor the authentication. -/
theorem tail {callback : RequestCallback π} (line : InLine state (callback :: callbacks) indexes)
    (noPut : callback.putIndex = none) (noAuth : callback ≠ .auth true) :
    InLine state callbacks indexes where
  connected := by
    intro live
    obtain ⟨absent, order⟩ := line.connected live
    constructor
    · exact fun member => absent (List.mem_cons_of_mem _ member)
    · rw [putIndexes, List.filterMap_cons_none noPut] at order
      exact order
  authenticating := by
    intro live
    obtain ⟨before, after, split, stats, routine⟩ := line.authenticating live
    cases before with
    | nil =>
        rw [List.nil_append, List.cons.injEq] at split
        exact absurd split.1 noAuth
    | cons first rest =>
        rw [List.cons_append, List.cons.injEq] at split
        exact ⟨rest, after, split.2, fun callback member =>
          stats callback (List.mem_cons_of_mem first member), routine⟩

/-- While the client authenticates, statistics or the authentication that
restores the state are first in line. -/
theorem head_of_authenticating {callback : RequestCallback π}
    (line : InLine .authenticating (callback :: callbacks) indexes) :
    callback = .stats ∨ (callback = .auth true ∧ Routine callbacks) := by
  obtain ⟨before, after, split, stats, routine⟩ := line.authenticating rfl
  cases before with
  | nil =>
      rw [List.nil_append, List.cons.injEq] at split
      exact .inr ⟨split.1, split.2 ▸ routine⟩
  | cons first rest =>
      rw [List.cons_append, List.cons.injEq] at split
      exact .inl (split.1 ▸ stats first List.mem_cons_self)

/-- An authentication is answered: the state was restored before, or it will be
restored now. -/
theorem tail_auth {restore : Bool} (line : InLine state (.auth restore :: callbacks) indexes)
    (live : state = .authenticating ∨ state = .connected) :
    (restore = false ∧ InLine .connected callbacks indexes) ∨
      (restore = true ∧ Routine callbacks) := by
  rcases live with rfl | rfl
  · rcases line.head_of_authenticating with impossible | ⟨restores, routine⟩
    · cases impossible
    · cases restores
      exact .inr ⟨rfl, routine⟩
  · cases restore with
    | true => exact absurd List.mem_cons_self (line.connected rfl).1
    | false => exact .inl ⟨rfl, line.tail rfl (by intro impossible; cases impossible)⟩

/-- A put is answered: it was given up before, or it is the first outstanding
one. -/
theorem tail_put {index : Nat} (line : InLine state (.put index :: callbacks) indexes)
    (live : state = .authenticating ∨ state = .connected) :
    (index ∉ indexes ∧ InLine state callbacks indexes) ∨
      ∃ rest, indexes = index :: rest ∧ InLine state callbacks rest := by
  rcases live with rfl | rfl
  · rcases line.head_of_authenticating with impossible | ⟨impossible, _⟩ <;> cases impossible
  · obtain ⟨absent, order⟩ := line.connected rfl
    have fewer : .auth true ∉ callbacks := fun member => absent (List.mem_cons_of_mem _ member)
    change (index :: putIndexes callbacks).filter _ = indexes at order
    by_cases member : index ∈ indexes
    · rw [List.filter_cons, if_pos (decide_eq_true member)] at order
      refine .inr ⟨_, order.symm, fun _ => ⟨fewer, ?_⟩, fun impossible => nomatch impossible⟩
      apply List.filter_congr
      intro other sent
      simp [List.mem_filter, sent]
    · rw [List.filter_cons, if_neg (by simpa using member)] at order
      exact .inl ⟨member, fun _ => ⟨fewer, order⟩, fun impossible => nomatch impossible⟩

theorem purge (line : InLine state callbacks indexes) : InLine state callbacks [] where
  connected := by
    intro live
    exact ⟨(line.connected live).1, by simp⟩
  authenticating := line.authenticating

end InLine

/-! ## Runs in order -/

namespace FPersistentConnection

/-- No write belongs to a transaction: none is put with a hash. -/
def Untransacted : Action π ρ → Prop
  | .putInternal _ hash _ => hash = none
  | _ => True

/-- The server answers requests of every kind in the order of their numbers. -/
def AnswersInOrder (conn : FPersistentConnection π ρ) : Action π ρ → Prop
  | .onDataMessage number _ => ∀ other ∈ keys conn.requestCBHash, number ≤ other
  | _ => True

/-- The socket is not lost while an answer is held back. -/
def HoldsSocket (conn : FPersistentConnection π ρ) (action : Action π ρ) : Prop :=
  conn.LosesSocket action → conn.putsToAck = []

instance Untransacted.decidable : (action : Action π ρ) → Decidable (Untransacted action)
  | .putInternal _ hash _ => inferInstanceAs (Decidable (hash = none))
  | .onDataMessage _ _ => isTrue trivial
  | .onDisconnect => isTrue trivial
  | .onAuthRevoked => isTrue trivial
  | .interruptForReason _ => isTrue trivial
  | .listen _ => isTrue trivial
  | .unlisten _ => isTrue trivial
  | .onListenRevoked _ => isTrue trivial
  | .refreshAuthToken _ => isTrue trivial
  | .resumeForReason _ => isTrue trivial
  | .reachable => isTrue trivial
  | .retry => isTrue trivial
  | .fetchedToken _ _ => isTrue trivial
  | .onReady => isTrue trivial
  | .purgeOutstandingWrites => isTrue trivial

instance AnswersInOrder.decidable (conn : FPersistentConnection π ρ) :
    (action : Action π ρ) → Decidable (conn.AnswersInOrder action)
  | .onDataMessage number _ =>
      inferInstanceAs (Decidable (∀ other ∈ keys conn.requestCBHash, number ≤ other))
  | .putInternal _ _ _ => isTrue trivial
  | .onDisconnect => isTrue trivial
  | .onAuthRevoked => isTrue trivial
  | .interruptForReason _ => isTrue trivial
  | .listen _ => isTrue trivial
  | .unlisten _ => isTrue trivial
  | .onListenRevoked _ => isTrue trivial
  | .refreshAuthToken _ => isTrue trivial
  | .resumeForReason _ => isTrue trivial
  | .reachable => isTrue trivial
  | .retry => isTrue trivial
  | .fetchedToken _ _ => isTrue trivial
  | .onReady => isTrue trivial
  | .purgeOutstandingWrites => isTrue trivial

instance LosesSocket.decidable (conn : FPersistentConnection π ρ) :
    (action : Action π ρ) → Decidable (conn.LosesSocket action)
  | .onDisconnect => isTrue trivial
  | .onAuthRevoked => isTrue trivial
  | .interruptForReason _ => isTrue trivial
  | .onDataMessage number status => inferInstanceAs (Decidable (status ≠ statusOk ∧
      (conn.requestCBHash.lookup number).any RequestCallback.isAuth = true))
  | .putInternal _ _ _ => isFalse id
  | .listen _ => isFalse id
  | .unlisten _ => isFalse id
  | .onListenRevoked _ => isFalse id
  | .refreshAuthToken _ => isFalse id
  | .resumeForReason _ => isFalse id
  | .reachable => isFalse id
  | .retry => isFalse id
  | .fetchedToken _ _ => isFalse id
  | .onReady => isFalse id
  | .purgeOutstandingWrites => isFalse id

instance HoldsSocket.decidable (conn : FPersistentConnection π ρ) (action : Action π ρ) :
    Decidable (conn.HoldsSocket action) :=
  inferInstanceAs (Decidable (conn.LosesSocket action → conn.putsToAck = []))

/-- A call that keeps reports in the order of the writes. -/
structure InOrder (conn : FPersistentConnection π ρ) (action : Action π ρ) : Prop where
  untransacted : Untransacted action
  answers : conn.AnswersInOrder action
  holds : conn.HoldsSocket action

/-- What holds of the writes after the given calls, when they were in order. -/
structure Queued (actions : List (Action π ρ)) (conn : FPersistentConnection π ρ) : Prop where
  sound : conn.Sound
  ascending : conn.outbox.Ascending
  ordered : conn.outbox.Ordered
  issued : conn.issued = actions.filterMap Action.writeId
  plain : ∀ hash ∈ conn.hashes, hash = none
  /-- Answers are held back only behind a listen. -/
  behind : (∀ callback ∈ conn.callbacks, callback.isListen = false) → conn.putsToAck = []
  below : ∀ index ∈ putIndexes conn.callbacks, index < conn.putCounter
  line : InLine conn.connectionState conn.callbacks (keys conn.outbox.waiting)

theorem queued_init : Queued [] (init : FPersistentConnection π ρ) where
  sound := sound_init
  ascending := ⟨List.Pairwise.nil, fun _ member => absurd member List.not_mem_nil⟩
  ordered := rfl
  issued := rfl
  plain := fun _ member => absurd member List.not_mem_nil
  behind := fun _ => rfl
  below := fun _ member => absurd member List.not_mem_nil
  line := .of_idle (by constructor <;> simp [init])

section

variable {conn next : FPersistentConnection π ρ} {action : Action π ρ}

/-- An answer in order is the answer to the first in line. -/
theorem Sound.callbacks_eq_cons (sound : conn.Sound) {number : Nat}
    {callback : RequestCallback π} (found : conn.requestCBHash.lookup number = some callback)
    (first : ∀ other ∈ keys conn.requestCBHash, number ≤ other) :
    conn.callbacks = callback :: (conn.answered number).callbacks := by
  have sorted := sound.sorted
  have distinct := sound.distinct
  simp only [callbacks, FPersistentConnection.answered]
  cases awaited : conn.requestCBHash with
  | nil => simp [awaited] at found
  | cons entry rest =>
      rcases entry with ⟨key, value⟩
      rw [awaited] at found first sorted distinct
      have member : number ∈ keys ((key, value) :: rest) :=
        mem_keys_of_lookup_ne_none (by rw [found]; exact Option.some_ne_none _)
      have same : number = key := by
        have least := first key List.mem_cons_self
        rcases List.mem_cons.mp member with same | later
        · exact same
        · have less := (List.pairwise_cons.mp sorted).1 number later
          omega
      subst same
      rw [List.lookup_cons_self] at found
      cases found
      rw [Outbox.alter_none_cons distinct]
      rfl

/-- Without transactions nothing is given up when the socket is lost. -/
theorem outstandingPuts_disconnected (plain : ∀ hash ∈ conn.hashes, hash = none) :
    conn.disconnected.outstandingPuts = conn.outstandingPuts ∧
      conn.disconnected.completed = conn.completed := by
  have absent : ∀ entry ∈ conn.outstandingPuts, FOutstandingPut.isSentTransaction entry.2 = false := by
    intro entry member
    have none := plain entry.2.hash (List.mem_map_of_mem member)
    simp [FOutstandingPut.isSentTransaction, none]
  constructor
  · change conn.outstandingPuts.filter _ = conn.outstandingPuts
    rw [List.filter_eq_self]
    intro entry member
    rw [absent entry member]
    rfl
  · change conn.completed ++ (conn.outstandingPuts.filter _).map _ = conn.completed
    rw [List.filter_eq_nil_iff.mpr]
    · simp
    · intro entry member
      simp [absent entry member]

theorem Queued.outbox_disconnected {done : List (Action π ρ)} (queued : Queued done conn) :
    conn.disconnected.outbox = conn.outbox := by
  obtain ⟨puts, completed⟩ := outstandingPuts_disconnected queued.plain
  unfold outbox
  rw [puts, completed]
  rfl

theorem Queued.hashes_disconnected {done : List (Action π ρ)} (queued : Queued done conn) :
    conn.disconnected.hashes = conn.hashes := by
  unfold hashes
  rw [(outstandingPuts_disconnected queued.plain).1]

/-- Nothing is held back when no listen is unanswered. -/
theorem Queued.held_eq_nil {done : List (Action π ρ)} (queued : Queued done conn)
    (none : conn.unackedListensCount = 0) : conn.putsToAck = [] := by
  apply queued.behind
  rw [queued.sound.counted, List.countP_eq_zero] at none
  intro callback member
  obtain ⟨entry, present, rfl⟩ := List.mem_map.mp member
  simpa using none entry present

/-- A connection that awaits an answer is live. -/
theorem Queued.live {done : List (Action π ρ)} (queued : Queued done conn) {number : Nat}
    {callback : RequestCallback π} (found : conn.requestCBHash.lookup number = some callback) :
    conn.connectionState = .authenticating ∨ conn.connectionState = .connected := by
  rw [← connected_iff]
  by_contra dead
  rw [queued.sound.quiet (by simpa using dead)] at found
  contradiction

/-- The answer to a put in order is the answer to the first outstanding one. -/
theorem Queued.waiting_cases {done : List (Action π ρ)} (queued : Queued done conn) {number index : Nat}
    (found : conn.requestCBHash.lookup number = some (.put index))
    (first : ∀ other ∈ keys conn.requestCBHash, number ≤ other) :
    (conn.outbox.waiting.lookup index = none ∧
        InLine conn.connectionState (conn.answered number).callbacks (keys conn.outbox.waiting)) ∨
      ∃ ticket rest, conn.outbox.waiting = (index, ticket) :: rest ∧
        InLine conn.connectionState (conn.answered number).callbacks (keys rest) := by
  have line := queued.line
  rw [queued.sound.callbacks_eq_cons found first] at line
  rcases line.tail_put (queued.live found) with ⟨gone, kept⟩ | ⟨rest, split, kept⟩
  · exact .inl ⟨(lookup_eq_none_iff_not_mem_keys _ _).mpr gone, kept⟩
  · right
    cases waiting : conn.outbox.waiting with
    | nil => simp [waiting] at split
    | cons entry others =>
        rw [waiting, keys_cons, List.cons.injEq] at split
        obtain ⟨same, rfl⟩ := split
        exact ⟨entry.2, others, by rw [← same], kept⟩

/-- Forgetting the callback and what the answer does do not interfere. -/
theorem onPutResponse_answered (number index : Nat) (status : String) :
    (conn.answered number).onPutResponse index status =
      (conn.onPutResponse index status).answered number := by
  simp only [onPutResponse, answered]
  cases conn.outstandingPuts.lookup index with
  | none => rfl
  | some put => by_cases none : conn.unackedListensCount = 0 <;> simp [none]

theorem outbox_answered (number : Nat) : (conn.answered number).outbox = conn.outbox :=
  rfl

/-- A put that is answered changes neither the state nor the line. -/
theorem onPutResponse_frame (index : Nat) (status : String) :
    (conn.onPutResponse index status).connectionState = conn.connectionState ∧
      (conn.onPutResponse index status).callbacks = conn.callbacks ∧
      (conn.onPutResponse index status).putCounter = conn.putCounter ∧
      (conn.onPutResponse index status).hashes ⊆ conn.hashes := by
  unfold onPutResponse
  split
  · exact ⟨rfl, rfl, rfl, List.Subset.refl _⟩
  · split
    · exact ⟨rfl, rfl, rfl, (List.filter_sublist.map _).subset⟩
    · exact ⟨rfl, rfl, rfl, (List.filter_sublist.map _).subset⟩

theorem Queued.advances {done : List (Action π ρ)} (queued : Queued done conn)
    (outcome : Outcome conn action next) (inOrder : conn.InOrder action) :
    Outbox.Advances conn.outbox next.outbox := by
  cases outcome with
  | sends other routine sends => exact sends.outbox ▸ .stay
  | issues put sends =>
      rw [sends.outbox, outbox_enqueue]
      exact .issue _
  | drops other loses sends =>
      rw [sends.outbox, queued.outbox_disconnected]
      exact .stay
  | waits other closed sound idle outbox hashes => exact outbox ▸ .stay
  | joins other connecting sends => exact sends.outbox ▸ .stay
  | authenticates other connecting sends => exact sends.outbox ▸ .stay
  | hearsStats answer found sends => exact sends.outbox ▸ .stay
  | hearsAuth answer found sends => exact sends.outbox ▸ .stay
  | @hearsPut number index status answer found sends =>
      subst answer
      rw [sends.outbox]
      rcases queued.waiting_cases found inOrder.answers with ⟨gone, _⟩ | ⟨ticket, rest, split, _⟩
      · rw [onPutResponse_answered, outbox_answered, onPutResponse_of_lookup_eq_none status gone]
        exact .stay
      · have waiting : conn.outbox.waiting.lookup index = some ticket := by
          rw [split, List.lookup_cons_self]
        rw [onPutResponse_answered, outbox_answered, outbox_onPutResponse status waiting]
        split
        · rename_i none
          exact .answer status split (queued.held_eq_nil none)
        · exact .hold status split
  | hearsListen answer found sends =>
      rw [sends.outbox]
      split
      · exact .release
      · exact .stay
  | purges purge sends =>
      rw [sends.outbox, outbox_purgeOutstandingWrites queued.ascending]
      exact .purge _

theorem Queued.plain_next {done : List (Action π ρ)} (queued : Queued done conn)
    (outcome : Outcome conn action next) (inOrder : conn.InOrder action) :
    ∀ hash ∈ next.hashes, hash = none := by
  have kept {sent : List (RequestCallback π)} {other : FPersistentConnection π ρ}
      (sends : Sends sent other next) (same : other.hashes ⊆ conn.hashes) :
      ∀ hash ∈ next.hashes, hash = none := by
    intro hash member
    rw [sends.hashes] at member
    exact queued.plain hash (same member)
  cases outcome with
  | sends other routine sends => exact kept sends (List.Subset.refl _)
  | @issues request hash writeId put sends =>
      subst put
      intro other member
      have plain : hash = none := inOrder.untransacted
      rw [sends.hashes, hashes, enqueue, List.map_append, List.mem_append] at member
      rcases member with old | new
      · exact queued.plain other old
      · rw [List.mem_singleton.mp new, ← plain]
  | drops other loses sends => exact kept sends (queued.hashes_disconnected ▸ List.Subset.refl _)
  | waits other closed sound idle outbox hashes => exact hashes ▸ queued.plain
  | joins other connecting sends => exact kept sends (List.Subset.refl _)
  | authenticates other connecting sends => exact kept sends (List.Subset.refl _)
  | hearsStats answer found sends => exact kept sends (List.Subset.refl _)
  | hearsAuth answer found sends => exact kept sends (List.Subset.refl _)
  | hearsPut answer found sends => exact kept sends (onPutResponse_frame _ _).2.2.2
  | hearsListen answer found sends =>
      apply kept sends
      split <;> exact List.Subset.refl _
  | purges purge sends => exact kept sends (List.nil_subset _)

theorem putIndexes_append (first second : List (RequestCallback π)) :
    putIndexes (first ++ second) = putIndexes first ++ putIndexes second :=
  List.filterMap_append

theorem putIndexes_answered_subset (number : Nat) :
    putIndexes (conn.answered number).callbacks ⊆ putIndexes conn.callbacks :=
  ((List.filter_sublist.map Prod.snd).filterMap RequestCallback.putIndex).subset

/-- Restoring the state sends the outstanding puts and no others. -/
theorem Queued.restored_eq {done : List (Action π ρ)} (queued : Queued done conn) :
    conn.restored = conn.listens.map listenCallback ++ (keys conn.outbox.waiting).map .put := by
  rw [restored, sortedKeys_eq queued.ascending, keys_waiting]

theorem putIndexes_greetings : putIndexes conn.greetings = [] := by
  unfold greetings
  split <;> rfl

theorem Queued.putIndexes_restored {done : List (Action π ρ)} (queued : Queued done conn) :
    putIndexes conn.restored = keys conn.outbox.waiting := by
  have listens : putIndexes (conn.listens.map listenCallback) = [] := by
    apply putIndexes_of_routine
    intro callback member
    obtain ⟨listenSpec, _, rfl⟩ := List.mem_map.mp member
    exact .inr rfl
  rw [queued.restored_eq, putIndexes_append, listens, List.nil_append]
  simp [putIndexes, RequestCallback.putIndex, List.filterMap_map, Function.comp_def]

theorem Queued.below_next {done : List (Action π ρ)} (queued : Queued done conn)
    (outcome : Outcome conn action next) :
    ∀ index ∈ putIndexes next.callbacks, index < next.putCounter := by
  have counted {sent : List (RequestCallback π)} {other : FPersistentConnection π ρ}
      (sends : Sends sent other next) (same : other.putCounter = conn.putCounter)
      (fewer : putIndexes other.callbacks ⊆ putIndexes conn.callbacks)
      (old : putIndexes sent ⊆ keys conn.outbox.waiting) :
      ∀ index ∈ putIndexes next.callbacks, index < next.putCounter := by
    intro index member
    rw [sends.callbacks, putIndexes_append] at member
    have counter : next.putCounter = conn.putCounter :=
      (congrArg Outbox.counter sends.outbox).trans same
    rw [counter]
    rcases List.mem_append.mp member with before | now
    · exact queued.below index (fewer before)
    · exact queued.ascending.below index (old now)
  have restored : putIndexes conn.restored ⊆ keys conn.outbox.waiting := by
    rw [queued.putIndexes_restored]
    exact List.Subset.refl _
  cases outcome with
  | sends other routine sends =>
      apply counted sends rfl (List.Subset.refl _)
      rw [putIndexes_of_routine routine]
      exact List.nil_subset _
  | issues put sends =>
      intro index member
      have counter : next.putCounter = conn.putCounter + 1 := congrArg Outbox.counter sends.outbox
      rw [sends.callbacks, putIndexes_append] at member
      rw [counter]
      rcases List.mem_append.mp member with before | now
      · exact Nat.lt_succ_of_lt (queued.below index before)
      · split at now
        · rw [List.mem_singleton.mp now]
          exact Nat.lt_succ_self _
        · exact absurd now List.not_mem_nil
  | drops other loses sends =>
      exact counted sends rfl (List.nil_subset _) (List.nil_subset _)
  | waits other closed sound idle outbox hashes =>
      intro index member
      rw [callbacks, sound.quiet idle] at member
      exact absurd member List.not_mem_nil
  | joins other connecting sends =>
      apply counted sends rfl (List.Subset.refl _)
      rw [putIndexes_append, putIndexes_greetings]
      exact restored
  | authenticates other connecting sends =>
      apply counted sends rfl (List.Subset.refl _)
      rw [putIndexes_append, putIndexes_greetings]
      exact List.nil_subset _
  | hearsStats answer found sends =>
      exact counted sends rfl (putIndexes_answered_subset _) (List.nil_subset _)
  | hearsAuth answer found sends =>
      apply counted sends rfl (putIndexes_answered_subset _)
      split
      · exact restored
      · exact List.nil_subset _
  | hearsPut answer found sends =>
      obtain ⟨_, callbacks, counter, _⟩ := onPutResponse_frame _ _
      apply counted sends counter ?_ (List.nil_subset _)
      rw [callbacks]
      exact putIndexes_answered_subset _
  | hearsListen answer found sends =>
      refine counted sends ?_ ?_ (List.nil_subset _)
      · split <;> rfl
      · split <;> exact putIndexes_answered_subset _
  | purges purge sends => exact counted sends rfl (List.Subset.refl _) (List.nil_subset _)

theorem Sound.count_callbacks (sound : conn.Sound) :
    conn.unackedListensCount = conn.callbacks.countP RequestCallback.isListen := by
  rw [sound.counted, callbacks, List.countP_map]
  rfl

theorem putsToAck_onPutResponse {index : Nat} {status : String}
    (none : conn.unackedListensCount = 0) :
    (conn.onPutResponse index status).putsToAck = conn.putsToAck := by
  unfold onPutResponse
  split
  · rfl
  · rw [if_pos none]

theorem Queued.behind_next {done : List (Action π ρ)} (queued : Queued done conn)
    (outcome : Outcome conn action next) (inOrder : conn.InOrder action)
    (quiet : ∀ callback ∈ next.callbacks, callback.isListen = false) : next.putsToAck = [] := by
  have behind {sent : List (RequestCallback π)} {other : FPersistentConnection π ρ}
      (sends : Sends sent other next) (held : other.putsToAck = conn.putsToAck)
      (before : ∀ callback ∈ conn.callbacks,
        callback.isListen = false ∨ callback ∈ other.callbacks) : next.putsToAck = [] := by
    have same : next.putsToAck = conn.putsToAck := (congrArg Outbox.held sends.outbox).trans held
    rw [same]
    apply queued.behind
    intro callback member
    rcases before callback member with other | kept
    · exact other
    · apply quiet
      rw [sends.callbacks]
      exact List.mem_append_left sent kept
  have answered {number : Nat} {callback : RequestCallback π}
      (found : conn.requestCBHash.lookup number = some callback)
      (first : ∀ other ∈ keys conn.requestCBHash, number ≤ other)
      (other : callback.isListen = false) :
      ∀ callback ∈ conn.callbacks,
        callback.isListen = false ∨ callback ∈ (conn.answered number).callbacks := by
    rw [queued.sound.callbacks_eq_cons found first]
    intro callback member
    rcases List.mem_cons.mp member with rfl | kept
    · exact .inl other
    · exact .inr kept
  cases outcome with
  | sends other routine sends => exact behind sends rfl fun _ member => .inr member
  | issues put sends => exact behind sends rfl fun _ member => .inr member
  | drops other loses sends =>
      have held : next.putsToAck = conn.putsToAck := congrArg Outbox.held sends.outbox
      rw [held, inOrder.holds loses]
  | waits other closed sound idle outbox hashes =>
      have held : next.putsToAck = conn.putsToAck := congrArg Outbox.held outbox
      rw [held]
      apply queued.behind
      intro callback member
      rw [callbacks, queued.sound.quiet closed] at member
      exact absurd member List.not_mem_nil
  | joins other connecting sends => exact behind sends rfl fun _ member => .inr member
  | authenticates other connecting sends => exact behind sends rfl fun _ member => .inr member
  | hearsStats answer found sends =>
      subst answer
      exact behind sends rfl (answered found inOrder.answers rfl)
  | hearsAuth answer found sends =>
      subst answer
      exact behind sends rfl (answered found inOrder.answers rfl)
  | @hearsPut number index status answer found sends =>
      subst answer
      have kept := answered found inOrder.answers rfl
      have silent : conn.unackedListensCount = 0 := by
        rw [queued.sound.count_callbacks, List.countP_eq_zero]
        intro callback member
        rcases kept callback member with other | later
        · simp [other]
        · have heard := quiet callback (by
            rw [sends.callbacks, (onPutResponse_frame index status).2.1]
            exact List.mem_append_left _ later)
          simp [heard]
      apply behind sends
      · exact putsToAck_onPutResponse silent
      · rw [(onPutResponse_frame index status).2.1]
        exact kept
  | @hearsListen number listenSpec query status answer found sends =>
      subst answer
      have callbacks : next.callbacks = (conn.answered number).callbacks := by
        rw [sends.callbacks, List.append_nil]
        split <;> rfl
      have last : conn.unackedListensCount = 1 := by
        rw [queued.sound.count_callbacks, queued.sound.callbacks_eq_cons found inOrder.answers,
          List.countP_cons, ← callbacks, List.countP_eq_zero.mpr]
        · rfl
        · intro callback member
          simp [quiet callback member]
      rw [if_pos last] at sends
      exact congrArg Outbox.held sends.outbox
  | purges purge sends => exact congrArg Outbox.held sends.outbox

theorem Queued.callbacks_of_connecting {done : List (Action π ρ)} (queued : Queued done conn)
    (connecting : conn.connectionState = .connecting) : conn.callbacks = [] := by
  rw [callbacks, queued.sound.quiet (by simp [connected, connecting])]
  rfl

theorem stats_of_mem_greetings : ∀ callback ∈ conn.greetings, callback = .stats := by
  unfold greetings
  split <;> simp

theorem not_mem_greetings : .auth true ∉ conn.greetings := by
  intro member
  cases stats_of_mem_greetings _ member

/-- The line after the state was restored. -/
theorem Queued.line_restored {done : List (Action π ρ)} (queued : Queued done conn)
    {callbacks : List (RequestCallback π)} (free : putIndexes callbacks = [])
    (absent : .auth true ∉ callbacks) :
    InLine .connected (callbacks ++ conn.restored) (keys conn.outbox.waiting) := by
  rw [queued.restored_eq]
  apply InLine.restore free absent
  intro callback member
  obtain ⟨listenSpec, _, rfl⟩ := List.mem_map.mp member
  rfl

/-- The first outstanding put is answered. -/
theorem Queued.waiting_onPutResponse {done : List (Action π ρ)} (queued : Queued done conn)
    {index ticket : Nat} {rest : List (Nat × Nat)} (status : String)
    (split : conn.outbox.waiting = (index, ticket) :: rest) :
    (conn.onPutResponse index status).outbox.waiting = rest := by
  have waiting : conn.outbox.waiting.lookup index = some ticket := by
    rw [split, List.lookup_cons_self]
  have distinct := queued.ascending.nodup
  rw [split] at distinct
  rw [outbox_onPutResponse status waiting]
  split_ifs
  · rw [Outbox.answer, split, Outbox.alter_none_cons distinct]
  · rw [Outbox.hold, split, Outbox.alter_none_cons distinct]

theorem Queued.line_next {done : List (Action π ρ)} (queued : Queued done conn)
    (outcome : Outcome conn action next) (inOrder : conn.InOrder action) :
    InLine next.connectionState next.callbacks (keys next.outbox.waiting) := by
  cases outcome with
  | sends other routine sends =>
      rw [sends.state, sends.callbacks, sends.outbox]
      exact queued.line.append routine
  | @issues request hash writeId put sends =>
      have waiting : keys (conn.outbox.issue writeId).waiting =
          keys conn.outbox.waiting ++ [conn.putCounter] := List.map_append
      rw [sends.state, sends.callbacks, sends.outbox, outbox_enqueue, waiting]
      exact queued.line.issue queued.below
  | drops other loses sends =>
      rw [sends.state]
      exact .of_idle (by constructor <;> simp [disconnected, cancelSentTransactions])
  | waits other closed sound idle outbox hashes =>
      apply InLine.of_idle
      simp only [connected, Bool.or_eq_false_iff, decide_eq_false_iff_not] at idle
      exact ⟨idle.2, idle.1⟩
  | joins other connecting sends =>
      rw [sends.state, sends.callbacks, sends.outbox]
      change InLine .connected (conn.callbacks ++ _) (keys conn.outbox.waiting)
      rw [queued.callbacks_of_connecting connecting, List.nil_append]
      exact queued.line_restored putIndexes_greetings not_mem_greetings
  | authenticates other connecting sends =>
      rw [sends.state, sends.callbacks, sends.outbox]
      change InLine .authenticating (conn.callbacks ++ _) (keys conn.outbox.waiting)
      rw [queued.callbacks_of_connecting connecting, List.nil_append]
      exact .authenticate stats_of_mem_greetings
  | hearsStats answer found sends =>
      subst answer
      have line := queued.line
      rw [queued.sound.callbacks_eq_cons found inOrder.answers] at line
      rw [sends.state, sends.callbacks, sends.outbox, List.append_nil]
      exact line.tail rfl (by intro impossible; cases impossible)
  | hearsAuth answer found sends =>
      subst answer
      have line := queued.line
      rw [queued.sound.callbacks_eq_cons found inOrder.answers] at line
      rw [sends.state, sends.callbacks, sends.outbox]
      rcases line.tail_auth (queued.live found) with ⟨rfl, kept⟩ | ⟨rfl, routine⟩
      · rw [if_neg Bool.false_ne_true, List.append_nil]
        exact kept
      · exact queued.line_restored (putIndexes_of_routine routine) routine.not_mem
  | @hearsPut number index status answer found sends =>
      subst answer
      obtain ⟨state, callbacks, _, _⟩ :=
        @onPutResponse_frame _ _ (conn.answered number) index status
      rw [sends.state, sends.callbacks, sends.outbox, List.append_nil, state, callbacks,
        onPutResponse_answered, outbox_answered]
      rcases queued.waiting_cases found inOrder.answers with ⟨gone, kept⟩ | ⟨ticket, rest, split, kept⟩
      · rw [onPutResponse_of_lookup_eq_none status gone]
        exact kept
      · rw [queued.waiting_onPutResponse status split]
        exact kept
  | hearsListen answer found sends =>
      subst answer
      have line := queued.line
      rw [queued.sound.callbacks_eq_cons found inOrder.answers] at line
      have kept := line.tail rfl (by intro impossible; cases impossible)
      rw [sends.state, sends.callbacks, sends.outbox, List.append_nil]
      split
      · exact kept
      · exact kept
  | purges purge sends =>
      rw [sends.state, sends.callbacks, sends.outbox, List.append_nil]
      exact queued.line.purge

theorem Queued.outcome {done : List (Action π ρ)} (queued : Queued done conn)
    (outcome : Outcome conn action next) (inOrder : conn.InOrder action) :
    Queued (done ++ [action]) next := by
  have advances := queued.advances outcome inOrder
  constructor
  · exact outcome.sound
  · exact queued.ascending.moves advances.moves
  · exact queued.ordered.advances queued.ascending advances
  · rw [outcome.issued_eq, queued.issued, List.filterMap_append]
    cases issued : action.writeId <;> simp [issued]
  · exact queued.plain_next outcome inOrder
  · exact queued.behind_next outcome inOrder
  · exact queued.below_next outcome
  · exact queued.line_next outcome inOrder

/-- Calls that do not come from the repository; the server never answers with
the client's own status for a canceled write. -/
def External : Action π ρ → Prop
  | .putInternal _ _ _ => False
  | .purgeOutstandingWrites => False
  | .onDataMessage _ status => status ≠ writeCanceled
  | _ => True

instance External.decidable : (action : Action π ρ) → Decidable (External action)
  | .putInternal _ _ _ => isFalse id
  | .purgeOutstandingWrites => isFalse id
  | .onDataMessage _ status => inferInstanceAs (Decidable (status ≠ writeCanceled))
  | .onDisconnect => isTrue trivial
  | .onAuthRevoked => isTrue trivial
  | .interruptForReason _ => isTrue trivial
  | .listen _ => isTrue trivial
  | .unlisten _ => isTrue trivial
  | .onListenRevoked _ => isTrue trivial
  | .refreshAuthToken _ => isTrue trivial
  | .resumeForReason _ => isTrue trivial
  | .reachable => isTrue trivial
  | .retry => isTrue trivial
  | .fetchedToken _ _ => isTrue trivial
  | .onReady => isTrue trivial

theorem writeId_eq_none_of_external (external : External action) : action.writeId = none := by
  cases action <;> first | rfl | exact external.elim

theorem untransacted_of_external (external : External action) : Untransacted action := by
  cases action <;> trivial

/-- What a call reports was held back before or comes from the server. -/
theorem Queued.exists_reports {done : List (Action π ρ)} (queued : Queued done conn)
    (outcome : Outcome conn action next) (external : External action) :
    ∃ reports, next.completed = conn.completed ++ reports ∧
      ∀ report ∈ reports ++ next.putsToAck,
        report ∈ conn.putsToAck ∨ report.2 ≠ writeCanceled := by
  have silent (same : next.outbox = conn.outbox) :
      ∃ reports, next.completed = conn.completed ++ reports ∧
        ∀ report ∈ reports ++ next.putsToAck,
          report ∈ conn.putsToAck ∨ report.2 ≠ writeCanceled := by
    refine ⟨[], ?_, ?_⟩
    · rw [List.append_nil]
      exact congrArg Outbox.completed same
    · intro report member
      have held : next.putsToAck = conn.putsToAck := congrArg Outbox.held same
      rw [List.nil_append, held] at member
      exact .inl member
  cases outcome with
  | sends other routine sends => exact silent sends.outbox
  | issues put sends =>
      subst put
      exact external.elim
  | drops other loses sends => exact silent (sends.outbox.trans queued.outbox_disconnected)
  | waits other closed sound idle outbox hashes => exact silent outbox
  | joins other connecting sends => exact silent sends.outbox
  | authenticates other connecting sends => exact silent sends.outbox
  | hearsStats answer found sends => exact silent sends.outbox
  | hearsAuth answer found sends => exact silent sends.outbox
  | @hearsPut number index status answer found sends =>
      subst answer
      have same := sends.outbox
      rw [onPutResponse_answered, outbox_answered] at same
      cases waiting : conn.outbox.waiting.lookup index with
      | none =>
          rw [onPutResponse_of_lookup_eq_none status waiting] at same
          exact silent same
      | some ticket =>
          rw [outbox_onPutResponse status waiting] at same
          split at same
          · refine ⟨[(ticket, status)], congrArg Outbox.completed same, ?_⟩
            intro report member
            have held : next.putsToAck = conn.putsToAck := congrArg Outbox.held same
            rw [held] at member
            rcases List.mem_cons.mp member with rfl | kept
            · exact .inr external
            · exact .inl kept
          · refine ⟨[], ?_, ?_⟩
            · rw [List.append_nil]
              exact congrArg Outbox.completed same
            · intro report member
              have held : next.putsToAck = conn.putsToAck ++ [(ticket, status)] :=
                congrArg Outbox.held same
              rw [List.nil_append, held] at member
              rcases List.mem_append.mp member with kept | new
              · exact .inl kept
              · rw [List.mem_singleton.mp new]
                exact .inr external
  | hearsListen answer found sends =>
      have same := sends.outbox
      split at same
      · refine ⟨conn.putsToAck, congrArg Outbox.completed same, ?_⟩
        intro report member
        have held : next.putsToAck = [] := congrArg Outbox.held same
        rw [held, List.append_nil] at member
        exact .inl member
      · exact silent same
  | purges purge sends =>
      subst purge
      exact external.elim

end

section Runs

variable [DecidableEq π]

/-- The completion blocks are called in the order of the writes, as long as no
write is a transaction, the server answers all requests in order and the socket
is not lost while an answer is held back: first come the writes reported, then
those whose answers are held back, then those outstanding. -/
theorem writes_eq_of_run {actions : List (Action π ρ)}
    (enabled : Transition.Permitted step Enabled init actions)
    (untransacted : ∀ action ∈ actions, Untransacted action)
    (answers : Transition.Permitted step AnswersInOrder init actions)
    (holds : Transition.Permitted step HoldsSocket init actions) :
    ∃ final : FPersistentConnection π ρ, Transition.run step init actions = some final ∧
      actions.filterMap Action.writeId =
        final.completed.map Prod.fst ++ final.putsToAck.map Prod.fst ++ final.outstandingWrites := by
  have permitted := (enabled.and (Transition.permitted_of_mem init untransacted)).and
    (answers.and holds)
  obtain ⟨final, executed, queued⟩ : ∃ final, Transition.run step init actions = some final ∧
      Queued actions final := by
    apply Transition.exists_run_of_permitted Queued ?_ queued_init permitted
    rintro done conn action queued ⟨⟨able, plain⟩, ordered, held⟩
    obtain ⟨next, returned, outcome⟩ := queued.sound.exists_outcome able
    exact ⟨next, returned, queued.outcome outcome ⟨plain, ordered, held⟩⟩
  refine ⟨final, executed, ?_⟩
  have ordered := queued.ordered
  rw [Outbox.Ordered, show final.outbox.issued = _ from queued.issued] at ordered
  rw [ordered]
  simp [Outbox.reports, outbox, outstandingWrites, Function.comp_def]

/-- Two writes are made offline and sent after the handshake; the first one is
answered, and the socket is lost. -/
theorem writes_eq_of_run_offline :
    ∃ final : FPersistentConnection Unit Unit,
      Transition.run step init [
        .putInternal () none 0, .putInternal () none 1, .resumeForReason "waiting_for_open",
        .retry, .fetchedToken 1 (some (some "token")), .onReady, .onDataMessage 1 "ok",
        .onDataMessage 2 "ok", .onDataMessage 3 "ok", .onDisconnect, .putInternal () none 2] =
          some final ∧
      [0, 1, 2] =
        final.completed.map Prod.fst ++ final.putsToAck.map Prod.fst ++ final.outstandingWrites :=
  writes_eq_of_run (by decide +kernel) (by decide +kernel) (by decide +kernel) (by decide +kernel)

end Runs

end FPersistentConnection

end DyeIsLife.Sync
