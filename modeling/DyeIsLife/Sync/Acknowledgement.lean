import DyeIsLife.Sync.Connection

/-!
# Acknowledgement of writes

The writes of a connection form an outbox.  Whatever the socket does, a write
is reported at most once and is never lost.  Reports come in the order of the
writes as long as the server answers in order and the socket is not lost while
an answer is held back: `onDisconnect` forgets the unanswered listens that hold
an answer back, so a later answer would be reported first.
-/

namespace DyeIsLife.Sync

open DyeIsLife.Store

universe u v

namespace FPersistentConnection

variable {π : Type u} {ρ : Type v}

/-! ## What the handlers do to the outbox -/

section Outbox

variable {conn : FPersistentConnection π ρ}

theorem lookup_map_values {β γ : Type*} (view : β → γ) (index : Nat) (entries : List (Nat × β)) :
    (entries.map fun entry => (entry.1, view entry.2)).lookup index =
      (entries.lookup index).map view := by
  induction entries with
  | nil => rfl
  | cons entry rest ih =>
      rcases entry with ⟨key, value⟩
      rw [List.map_cons, lookup_cons_eq_ite, lookup_cons_eq_ite, ih]
      split <;> rfl

theorem alter_none_map_values {β γ : Type*} (view : β → γ) (index : Nat)
    (entries : List (Nat × β)) :
    alter index none (entries.map fun entry => (entry.1, view entry.2)) =
      (alter index none entries).map fun entry => (entry.1, view entry.2) := by
  simp [alter, List.filter_map, Function.comp_def]

theorem outbox_enqueue (request : ρ) (hash : Option String) (writeId : Nat) :
    (conn.enqueue request hash writeId).outbox = conn.outbox.issue writeId := by
  simp [outbox, enqueue, Outbox.issue]

/-- The put that awaits `index` was sent and belongs to a transaction. -/
def isSentTransaction (conn : FPersistentConnection π ρ) (index : Nat) : Bool :=
  (conn.outstandingPuts.lookup index).any FOutstandingPut.isSentTransaction

theorem isSentTransaction_eq (distinct : (keys conn.outstandingPuts).Nodup)
    {entry : Nat × FOutstandingPut ρ} (member : entry ∈ conn.outstandingPuts) :
    conn.isSentTransaction entry.1 = FOutstandingPut.isSentTransaction entry.2 := by
  rw [isSentTransaction, lookup_eq_some_of_mem distinct member]
  rfl

theorem keys_waiting (conn : FPersistentConnection π ρ) :
    keys conn.outbox.waiting = keys conn.outstandingPuts := by
  simp [outbox, keys, Function.comp_def]

theorem outbox_disconnected (ascending : conn.outbox.Ascending) :
    conn.disconnected.outbox =
      conn.outbox.cancel conn.isSentTransaction transactionDisconnect := by
  have distinct := ascending.nodup
  rw [keys_waiting] at distinct
  have kept : (conn.outstandingPuts.filter fun entry => !FOutstandingPut.isSentTransaction entry.2) =
      conn.outstandingPuts.filter fun entry => !conn.isSentTransaction entry.1 := by
    apply List.filter_congr
    intro entry member
    rw [isSentTransaction_eq distinct member]
  have given : (conn.outstandingPuts.filter fun entry => FOutstandingPut.isSentTransaction entry.2) =
      conn.outstandingPuts.filter fun entry => conn.isSentTransaction entry.1 := by
    apply List.filter_congr
    intro entry member
    rw [isSentTransaction_eq distinct member]
  simp only [outbox, disconnected, cancelSentTransactions, kept, given, Outbox.cancel]
  simp [List.filter_map, Function.comp_def]

/-- The numbers of the puts are sorted already. -/
theorem sortedKeys_eq (ascending : conn.outbox.Ascending) :
    conn.sortedKeys = keys conn.outstandingPuts := by
  have sorted := ascending.sorted
  rw [keys_waiting] at sorted
  exact List.Pairwise.insertionSort_eq (sorted.imp fun less => Nat.le_of_lt less)

/-- Reading a list back through its keys. -/
theorem filterMap_lookup_keys {β γ : Type*} (view : β → γ) {entries : List (Nat × β)}
    (distinct : (keys entries).Nodup) :
    (keys entries).filterMap (fun index => (entries.lookup index).map view) =
      entries.map fun entry => view entry.2 := by
  rw [keys, List.filterMap_map, ← List.filterMap_eq_map]
  apply List.filterMap_congr
  intro entry member
  simp [lookup_eq_some_of_mem distinct member]

theorem outbox_purgeOutstandingWrites (ascending : conn.outbox.Ascending) :
    conn.purgeOutstandingWrites.outbox = conn.outbox.purge writeCanceled := by
  have distinct := ascending.nodup
  rw [keys_waiting] at distinct
  have sorted := sortedKeys_eq ascending
  have reported := filterMap_lookup_keys
    (fun put : FOutstandingPut ρ => (put.onCompleteBlock, writeCanceled)) distinct
  have canceled : conn.purgeOutstandingWrites.completed =
      conn.completed ++ conn.putsToAck ++
        conn.outstandingPuts.map fun entry => (entry.2.onCompleteBlock, writeCanceled) := by
    rw [← reported, ← sorted]
    rfl
  simp only [outbox, Outbox.purge, canceled, List.map_map, Function.comp_def]
  rfl

theorem lookup_waiting (conn : FPersistentConnection π ρ) (index : Nat) :
    conn.outbox.waiting.lookup index =
      (conn.outstandingPuts.lookup index).map FOutstandingPut.onCompleteBlock :=
  lookup_map_values FOutstandingPut.onCompleteBlock index conn.outstandingPuts

theorem onPutResponse_of_lookup_eq_none {index : Nat} (status : String)
    (gone : conn.outbox.waiting.lookup index = none) : conn.onPutResponse index status = conn := by
  rw [lookup_waiting, Option.map_eq_none_iff] at gone
  simp only [onPutResponse, gone]

theorem outbox_onPutResponse {index ticket : Nat} (status : String)
    (found : conn.outbox.waiting.lookup index = some ticket) :
    (conn.onPutResponse index status).outbox =
      if conn.unackedListensCount = 0 then conn.outbox.answer index ticket status
      else conn.outbox.hold index ticket status := by
  rw [lookup_waiting, Option.map_eq_some_iff] at found
  obtain ⟨put, found, rfl⟩ := found
  have removed := alter_none_map_values FOutstandingPut.onCompleteBlock index conn.outstandingPuts
  simp only [onPutResponse, found]
  split
  · simp [outbox, Outbox.answer, removed]
  · simp [outbox, Outbox.hold, removed]

/-- Every call is a move of the outbox. -/
theorem Outcome.moves {action : Action π ρ} {next : FPersistentConnection π ρ}
    (outcome : Outcome conn action next) (ascending : conn.outbox.Ascending) :
    Outbox.Moves conn.outbox next.outbox := by
  cases outcome with
  | sends other routine sends => exact sends.outbox ▸ .stay
  | issues put sends =>
      rw [sends.outbox, outbox_enqueue]
      exact .issue _
  | drops other loses sends =>
      rw [sends.outbox, outbox_disconnected ascending]
      exact .cancel _ _
  | waits other closed sound idle outbox hashes => exact outbox ▸ .stay
  | joins other connecting sends => exact sends.outbox ▸ .stay
  | authenticates other connecting sends => exact sends.outbox ▸ .stay
  | hearsStats answer found sends => exact sends.outbox ▸ .stay
  | hearsAuth answer found sends => exact sends.outbox ▸ .stay
  | @hearsPut number index status answer found sends =>
      rw [sends.outbox]
      cases waiting : (conn.answered number).outbox.waiting.lookup index with
      | none =>
          rw [onPutResponse_of_lookup_eq_none status waiting]
          exact .stay
      | some ticket =>
          rw [outbox_onPutResponse status waiting]
          split
          · exact .answer status waiting
          · exact .hold status waiting
  | hearsListen answer found sends =>
      rw [sends.outbox]
      split
      · exact .release
      · exact .stay
  | purges purge sends =>
      rw [sends.outbox, outbox_purgeOutstandingWrites ascending]
      exact .purge _

/-- The writes are the ones that were made. -/
theorem Outcome.issued_eq {action : Action π ρ} {next : FPersistentConnection π ρ}
    (outcome : Outcome conn action next) : next.issued = conn.issued ++ action.writeId.toList := by
  have unchanged {sent : List (RequestCallback π)} {other : FPersistentConnection π ρ}
      (none : action.writeId = none) (sends : Sends sent other next)
      (same : other.issued = conn.issued) : next.issued = conn.issued ++ action.writeId.toList := by
    rw [none, Option.toList_none, List.append_nil, ← same]
    exact congrArg Outbox.issued sends.outbox
  cases outcome with
  | sends other routine sends => exact unchanged other sends rfl
  | issues put sends =>
      rw [put]
      exact congrArg Outbox.issued sends.outbox
  | drops other loses sends => exact unchanged other sends rfl
  | waits other closed sound idle outbox hashes =>
      rw [other, Option.toList_none, List.append_nil]
      exact congrArg Outbox.issued outbox
  | joins other connecting sends => exact unchanged other sends rfl
  | authenticates other connecting sends => exact unchanged other sends rfl
  | hearsStats answer found sends => exact unchanged (answer ▸ rfl) sends rfl
  | hearsAuth answer found sends => exact unchanged (answer ▸ rfl) sends rfl
  | hearsPut answer found sends =>
      apply unchanged (answer ▸ rfl) sends
      unfold onPutResponse
      split
      · rfl
      · split <;> rfl
  | hearsListen answer found sends =>
      apply unchanged (answer ▸ rfl) sends
      split <;> rfl
  | purges purge sends => exact unchanged (purge ▸ rfl) sends rfl

/-- A put adds its write and does nothing else to the outbox. -/
theorem Outcome.outbox_of_put {request : ρ} {hash : Option String} {writeId : Nat}
    {next : FPersistentConnection π ρ}
    (outcome : Outcome conn (.putInternal request hash writeId) next) :
    next.outbox = conn.outbox.issue writeId := by
  cases outcome with
  | issues put sends =>
      cases put
      rw [sends.outbox, outbox_enqueue]
  | sends other routine sends => cases other
  | drops other loses sends => cases other
  | waits other closed sound idle outbox hashes => cases other
  | joins other connecting sends => cases other
  | authenticates other connecting sends => cases other
  | hearsStats answer found sends => cases answer
  | hearsAuth answer found sends => cases answer
  | hearsPut answer found sends => cases answer
  | hearsListen answer found sends => cases answer
  | purges purge sends => cases purge

end Outbox

/-! ## Every write is reported at most once and none is lost -/

section Runs

variable [DecidableEq π]

/-- The write ids of the puts the server has not answered. -/
def outstandingWrites (conn : FPersistentConnection π ρ) : List Nat :=
  conn.outstandingPuts.map fun entry => entry.2.onCompleteBlock

/-- What holds of the writes after the given calls. -/
structure Accounted (actions : List (Action π ρ)) (conn : FPersistentConnection π ρ) : Prop where
  sound : conn.Sound
  ascending : conn.outbox.Ascending
  conserved : conn.outbox.Conserved
  issued : conn.issued = actions.filterMap Action.writeId

omit [DecidableEq π] in
theorem accounted_init : Accounted [] (init : FPersistentConnection π ρ) where
  sound := sound_init
  ascending := ⟨List.Pairwise.nil, fun _ member => absurd member List.not_mem_nil⟩
  conserved := List.Perm.refl _
  issued := rfl

theorem Accounted.exists_step {done : List (Action π ρ)} {conn : FPersistentConnection π ρ}
    (accounted : Accounted done conn) {action : Action π ρ} (enabled : conn.Enabled action) :
    ∃ next, step conn action = some next ∧ Accounted (done ++ [action]) next := by
  obtain ⟨next, returned, outcome⟩ := accounted.sound.exists_outcome enabled
  have moves := outcome.moves accounted.ascending
  refine ⟨next, returned, outcome.sound, accounted.ascending.moves moves,
    accounted.conserved.moves accounted.ascending moves, ?_⟩
  rw [outcome.issued_eq, accounted.issued, List.filterMap_append]
  cases issued : action.writeId <;> simp [issued]

/-- In every run each write is reported once, held back once or outstanding
once. -/
theorem perm_of_run {actions : List (Action π ρ)}
    (enabled : Transition.Permitted step Enabled init actions) :
    ∃ final : FPersistentConnection π ρ, Transition.run step init actions = some final ∧
      (actions.filterMap Action.writeId).Perm
        (final.completed.map Prod.fst ++ final.putsToAck.map Prod.fst ++ final.outstandingWrites) := by
  obtain ⟨final, executed, accounted⟩ := Transition.exists_run_of_permitted Accounted
    (fun _ _ _ accounted able => accounted.exists_step able) accounted_init enabled
  refine ⟨final, executed, ?_⟩
  have conserved := accounted.conserved
  rw [Outbox.Conserved, show final.outbox.issued = _ from accounted.issued] at conserved
  simpa [Outbox.reports, outbox, outstandingWrites, Function.comp_def] using conserved

/-- The first write is answered while a listen is open and the socket is lost
before the listen is answered; the second write stays outstanding. -/
theorem perm_of_run_held :
    ∃ final : FPersistentConnection Unit Unit,
      Transition.run step init [
        .resumeForReason "waiting_for_open", .retry, .fetchedToken 1 (some none), .onReady,
        .putInternal () none 0, .putInternal () none 1, .listen ⟨["posts"], ()⟩,
        .onDataMessage 2 "ok", .onDisconnect] = some final ∧
      [0, 1].Perm
        (final.completed.map Prod.fst ++ final.putsToAck.map Prod.fst ++ final.outstandingWrites) :=
  perm_of_run (by decide +kernel)

end Runs

end FPersistentConnection

end DyeIsLife.Sync
