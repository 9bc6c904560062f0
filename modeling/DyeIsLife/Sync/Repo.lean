import DyeIsLife.Sync.Order
import DyeIsLife.Sync.WriteTree

/-!
# The repository of a client

`FRepo` numbers the user's writes, shows them at once through the tree of
pending writes, and hands them to the connection.  When the connection reports
a write, `ackWrite` takes it out of the tree.

As long as the server answers in order, and neither the socket is lost nor the
writes are purged while an answer is held back, reports come in the order of
the writes, so the write taken out is always the oldest one.  The tree therefore
holds exactly the writes that were not reported, and what the user sees is the
server's data with these writes applied to it in their order.

Values that the server fills in are left aside; the written data is final.
-/

namespace DyeIsLife.Sync

open DyeIsLife.Store

universe u v

/-- `FRepo`, without its listeners and transactions. -/
structure FRepo (π : Type u) (ν : Type v) where
  connection : FPersistentConnection π (List String × UserWrite ν)
  /-- The `pendingWriteTree` of the `serverSyncTree`. -/
  pendingWriteTree : FWriteTree ν
  writeIdCounter : Nat

namespace FRepo

open FPersistentConnection

variable {π : Type u} {ν : Type v}

/-- `initWithRepoInfo:config:database:`. -/
def init : FRepo π ν :=
  ⟨.init, .init, 0⟩

/-- `ackWrite:rerunTransactionsAtPath:status:`; undefined where the write does
not exist. -/
def ackWrite (tree : FWriteTree ν) (report : Nat × String) : Option (FWriteTree ν) :=
  if report.2 = writeCanceled then some tree
  else (tree.removeWriteId report.1).map Prod.fst

/-- A handler of the connection runs, and the completion blocks it calls
acknowledge their writes one after the other. -/
def handle (next : FPersistentConnection π (List String × UserWrite ν)) (repo : FRepo π ν) :
    Option (FRepo π ν) :=
  let reports := next.completed.drop repo.connection.completed.length
  (reports.foldlM ackWrite repo.pendingWriteTree).map fun tree =>
    { repo with connection := next, pendingWriteTree := tree }

/-- `set:withNode:withCallback:`. -/
def set (path : List String) (node : FNode ν) (repo : FRepo π ν) : Option (FRepo π ν) :=
  let writeId := repo.writeIdCounter
  let next := { repo with
    writeIdCounter := writeId + 1
    pendingWriteTree := repo.pendingWriteTree.addOverwriteAtPath path node writeId true }
  (repo.connection.putInternal (path, .overwrite node) none writeId).bind fun connection =>
    next.handle connection

/-- `update:withNodes:withCallback:`; an update without data does nothing. -/
def update (path : List String) (nodes : FCompoundWrite ν) (repo : FRepo π ν) :
    Option (FRepo π ν) :=
  if nodes.isEmpty then some repo
  else
    let writeId := repo.writeIdCounter
    let next := { repo with
      writeIdCounter := writeId + 1
      pendingWriteTree := repo.pendingWriteTree.addMergeAtPath path nodes writeId }
    (repo.connection.putInternal (path, .merge nodes) none writeId).bind fun connection =>
      next.handle connection

/-- `purgeOutstandingWrites`: the writes leave the tree before the connection
reports them. -/
def purgeOutstandingWrites (repo : FRepo π ν) : Option (FRepo π ν) :=
  let next := { repo with pendingWriteTree := repo.pendingWriteTree.removeAllWrites.1 }
  next.handle repo.connection.purgeOutstandingWrites

/-- What happens to the repository. -/
inductive Action (π : Type u) (ν : Type v) where
  | set (path : List String) (node : FNode ν)
  | update (path : List String) (nodes : FCompoundWrite ν)
  | purgeOutstandingWrites
  | connection (action : FPersistentConnection.Action π (List String × UserWrite ν))

/-- One call; `none` means that an assertion failed. -/
def step [DecidableEq π] : Transition.Step (FRepo π ν) (Action π ν) :=
  fun repo action =>
    match action with
    | .set path node => repo.set path node
    | .update path nodes => repo.update path nodes
    | .purgeOutstandingWrites => repo.purgeOutstandingWrites
    | .connection action =>
        (FPersistentConnection.step repo.connection action).bind fun connection =>
          repo.handle connection

/-- What the user sees at a location, given what the server sent for it. -/
def eventCache (path : List String) (serverCache : FNode ν) (repo : FRepo π ν) :
    Option (FNode ν) :=
  repo.pendingWriteTree.calculateCompleteEventCacheAtPath path (some serverCache) none false

/-! ## Acknowledging the oldest writes -/

/-- The ids of the pending writes. -/
def writeIds (tree : FWriteTree ν) : List Nat :=
  tree.allWrites.map FWriteRecord.writeId

theorem exists_ackWrite {tree : FWriteTree ν} (tidy : tree.Tidy) {report : Nat × String}
    {rest : List Nat} (status : report.2 ≠ writeCanceled)
    (oldest : writeIds tree = report.1 :: rest) :
    ∃ next, ackWrite tree report = some next ∧ next.Tidy ∧ writeIds next = rest ∧
      next.allWrites = tree.allWrites.tail := by
  cases pending : tree.allWrites with
  | nil => simp [writeIds, pending] at oldest
  | cons removed others =>
      rw [writeIds, pending, List.map_cons, List.cons.injEq] at oldest
      obtain ⟨sameId, restIds⟩ := oldest
      obtain ⟨next, reevaluate, returned, all, nextTidy⟩ :=
        tidy.exists_removeWriteId (pending : tree.allWrites = [] ++ removed :: others)
          (fun _ member => absurd member List.not_mem_nil)
          (fun _ member => absurd member List.not_mem_nil)
      rw [List.nil_append] at all
      refine ⟨next, ?_, nextTidy, ?_, all⟩
      · rw [ackWrite, if_neg status, ← sameId, returned]
        rfl
      · rw [writeIds, all, restIds]

/-- Reports of the oldest writes, in order, take exactly these out. -/
theorem exists_foldlM_ackWrite {tree : FWriteTree ν} (tidy : tree.Tidy)
    {reports : List (Nat × String)} {rest : List Nat}
    (statuses : ∀ report ∈ reports, report.2 ≠ writeCanceled)
    (oldest : writeIds tree = reports.map Prod.fst ++ rest) :
    ∃ next, reports.foldlM ackWrite tree = some next ∧ next.Tidy ∧ writeIds next = rest ∧
      next.allWrites = tree.allWrites.drop reports.length := by
  induction reports generalizing tree with
  | nil => exact ⟨tree, rfl, tidy, oldest, rfl⟩
  | cons report reports ih =>
      obtain ⟨middle, returned, middleTidy, middleIds, middleWrites⟩ :=
        exists_ackWrite tidy (statuses report List.mem_cons_self) oldest
      obtain ⟨next, finished, nextTidy, nextIds, nextWrites⟩ :=
        ih middleTidy (fun other member => statuses other (List.mem_cons_of_mem report member))
          middleIds
      refine ⟨next, ?_, nextTidy, nextIds, ?_⟩
      · rw [List.foldlM_cons, returned]
        exact finished
      · rw [nextWrites, middleWrites, List.drop_tail, List.length_cons]

/-! ## The pending writes are those not reported -/

/-- The writes in the tree are those the connection has not reported, in their
order. -/
structure Synced (repo : FRepo π ν) : Prop where
  queued : ∃ done, Queued done repo.connection
  tidy : repo.pendingWriteTree.Tidy
  pending : writeIds repo.pendingWriteTree =
    repo.connection.putsToAck.map Prod.fst ++ repo.connection.outstandingWrites
  statuses : ∀ report ∈ repo.connection.putsToAck, report.2 ≠ writeCanceled

theorem synced_init : (init : FRepo π ν).Synced where
  queued := ⟨[], queued_init⟩
  tidy := FWriteTree.tidy_init
  pending := rfl
  statuses := fun _ member => absurd member List.not_mem_nil

/-- When a call can be made: the handlers of the connection when they can be
called; puts and purges come from the repository only. -/
def Enabled [DecidableEq π] (repo : FRepo π ν) : Action π ν → Prop
  | .connection action => External action ∧ repo.connection.Enabled action
  | _ => True

/-- Updates name children only: their paths are at most one key long. -/
def NamesChildren : Action π ν → Prop
  | .update _ nodes => ∀ child ∈ nodes.enumerateWrites, child.1.length ≤ 1
  | _ => True

/-- The server answers requests in the order of their numbers. -/
def AnswersInOrder (repo : FRepo π ν) : Action π ν → Prop
  | .connection action => repo.connection.AnswersInOrder action
  | _ => True

/-- The socket is not lost while an answer is held back. -/
def HoldsSocket (repo : FRepo π ν) : Action π ν → Prop
  | .connection action => repo.connection.HoldsSocket action
  | _ => True

/-- Writes are not purged while an answer is held back: they leave the tree
first, and the answer would be for a write that is gone. -/
def HoldsPurge (repo : FRepo π ν) : Action π ν → Prop
  | .purgeOutstandingWrites => repo.connection.putsToAck = []
  | _ => True

instance Enabled.decidable [DecidableEq π] (repo : FRepo π ν) :
    (action : Action π ν) → Decidable (repo.Enabled action)
  | .set _ _ => isTrue trivial
  | .update _ _ => isTrue trivial
  | .purgeOutstandingWrites => isTrue trivial
  | .connection action =>
      inferInstanceAs (Decidable (External action ∧ repo.connection.Enabled action))

instance NamesChildren.decidable : (action : Action π ν) → Decidable (NamesChildren action)
  | .set _ _ => isTrue trivial
  | .update _ nodes =>
      inferInstanceAs (Decidable (∀ child ∈ nodes.enumerateWrites, child.1.length ≤ 1))
  | .purgeOutstandingWrites => isTrue trivial
  | .connection _ => isTrue trivial

instance AnswersInOrder.decidable (repo : FRepo π ν) :
    (action : Action π ν) → Decidable (repo.AnswersInOrder action)
  | .set _ _ => isTrue trivial
  | .update _ _ => isTrue trivial
  | .purgeOutstandingWrites => isTrue trivial
  | .connection action => inferInstanceAs (Decidable (repo.connection.AnswersInOrder action))

instance HoldsSocket.decidable (repo : FRepo π ν) :
    (action : Action π ν) → Decidable (repo.HoldsSocket action)
  | .set _ _ => isTrue trivial
  | .update _ _ => isTrue trivial
  | .purgeOutstandingWrites => isTrue trivial
  | .connection action => inferInstanceAs (Decidable (repo.connection.HoldsSocket action))

instance HoldsPurge.decidable (repo : FRepo π ν) :
    (action : Action π ν) → Decidable (repo.HoldsPurge action)
  | .set _ _ => isTrue trivial
  | .update _ _ => isTrue trivial
  | .purgeOutstandingWrites => inferInstanceAs (Decidable (repo.connection.putsToAck = []))
  | .connection _ => isTrue trivial

/-- A call that keeps the tree in step with the connection. -/
structure InOrder [DecidableEq π] (repo : FRepo π ν) (action : Action π ν) : Prop where
  enabled : repo.Enabled action
  children : NamesChildren action
  answers : repo.AnswersInOrder action
  socket : repo.HoldsSocket action
  purge : repo.HoldsPurge action

instance InOrder.decidable [DecidableEq π] (repo : FRepo π ν) (action : Action π ν) :
    Decidable (repo.InOrder action) :=
  decidable_of_iff (repo.Enabled action ∧ NamesChildren action ∧ repo.AnswersInOrder action ∧
      repo.HoldsSocket action ∧ repo.HoldsPurge action)
    ⟨fun ⟨enabled, children, answers, socket, purge⟩ =>
        ⟨enabled, children, answers, socket, purge⟩,
      fun ⟨enabled, children, answers, socket, purge⟩ =>
        ⟨enabled, children, answers, socket, purge⟩⟩

variable {repo : FRepo π ν}

theorem outstandingWrites_eq (conn : FPersistentConnection π (List String × UserWrite ν)) :
    conn.outstandingWrites = conn.outbox.waiting.map Prod.snd := by
  simp [outstandingWrites, outbox, Function.comp_def]

/-- The write of a call; an update without data is none. -/
def Action.write : Action π ν → Option (List String × UserWrite ν)
  | .set path node => some (path, .overwrite node)
  | .update path nodes => if nodes.isEmpty then none else some (path, .merge nodes)
  | .purgeOutstandingWrites => none
  | .connection _ => none

/-- The record of a visible write. -/
def recordOf (writeId : Nat) (request : List String × UserWrite ν) : FWriteRecord ν :=
  ⟨request.1, request.2, writeId, true⟩

/-- The records of the writes made in a run, numbered from zero. -/
def records (actions : List (Action π ν)) : List (FWriteRecord ν) :=
  (actions.filterMap Action.write).mapIdx recordOf

/-- What a call leaves: its own write is added behind the pending writes, and
pending writes are taken out from the oldest on. -/
structure Advanced (repo : FRepo π ν) (action : Action π ν) (next : FRepo π ν) : Prop where
  synced : next.Synced
  counter : next.writeIdCounter = repo.writeIdCounter + action.write.toList.length
  suffix : next.pendingWriteTree.allWrites <:+
    repo.pendingWriteTree.allWrites ++ action.write.toList.map (recordOf repo.writeIdCounter)

/-- A handler that reports the oldest writes is handled. -/
theorem exists_handle {next : FPersistentConnection π (List String × UserWrite ν)}
    {done : List (FPersistentConnection.Action π (List String × UserWrite ν))}
    (queued : Queued done next) (tidy : repo.pendingWriteTree.Tidy) {reports : List (Nat × String)}
    (grown : next.completed = repo.connection.completed ++ reports)
    (statuses : ∀ report ∈ reports ++ next.putsToAck, report.2 ≠ writeCanceled)
    (oldest : writeIds repo.pendingWriteTree =
      reports.map Prod.fst ++ (next.putsToAck.map Prod.fst ++ next.outstandingWrites)) :
    ∃ after, repo.handle next = some after ∧ after.Synced ∧
      after.writeIdCounter = repo.writeIdCounter ∧
      after.pendingWriteTree.allWrites = repo.pendingWriteTree.allWrites.drop reports.length := by
  obtain ⟨tree, acknowledged, treeTidy, treeIds, treeWrites⟩ := exists_foldlM_ackWrite tidy
    (fun report member => statuses report (List.mem_append_left _ member)) oldest
  refine ⟨{ repo with connection := next, pendingWriteTree := tree }, ?_, ?_, rfl, treeWrites⟩
  · simp only [handle]
    rw [grown, List.drop_left, acknowledged]
    rfl
  · exact ⟨⟨done, queued⟩, treeTidy, treeIds, fun report member =>
      statuses report (List.mem_append_right _ member)⟩

/-- A write is queued behind all others. -/
theorem Synced.exists_write (synced : repo.Synced) {action : Action π ν} {tree : FWriteTree ν}
    {request : List String × UserWrite ν} (write : action.write = some request) (tidy : tree.Tidy)
    (added : tree.allWrites =
      repo.pendingWriteTree.allWrites ++ [recordOf repo.writeIdCounter request]) :
    ∃ connection after, repo.connection.putInternal request none repo.writeIdCounter = some connection ∧
      handle connection { repo with
        writeIdCounter := repo.writeIdCounter + 1
        pendingWriteTree := tree } = some after ∧ repo.Advanced action after := by
  obtain ⟨done, queued⟩ := synced.queued
  obtain ⟨connection, returned, outcome⟩ :=
    queued.sound.outcome_putInternal request none repo.writeIdCounter
  have after := queued.outcome outcome ⟨rfl, trivial, fun loses => loses.elim⟩
  have issued := outcome.outbox_of_put
  have held : connection.putsToAck = repo.connection.putsToAck := congrArg Outbox.held issued
  have grown : connection.completed = repo.connection.completed ++ [] := by
    rw [List.append_nil]
    exact congrArg Outbox.completed issued
  have oldest : writeIds tree = [] ++
      (connection.putsToAck.map Prod.fst ++ connection.outstandingWrites) := by
    rw [writeIds, added, List.map_append, show List.map _ repo.pendingWriteTree.allWrites = _ from
      synced.pending, held, outstandingWrites_eq, outstandingWrites_eq, issued]
    simp [Outbox.issue, recordOf]
  obtain ⟨final, handled, finalSynced, counter, dropped⟩ := @exists_handle _ _
    { repo with writeIdCounter := repo.writeIdCounter + 1, pendingWriteTree := tree }
    _ _ after tidy _ grown
    (fun report member => synced.statuses report (by rw [← held]; exact member)) oldest
  refine ⟨connection, final, returned, handled, finalSynced, ?_, ?_⟩
  · rw [counter, write]
    rfl
  · rw [dropped, write, added]
    exact List.suffix_refl _

theorem Synced.exists_set (synced : repo.Synced) (path : List String) (node : FNode ν) :
    ∃ next, repo.set path node = some next ∧ repo.Advanced (.set path node) next := by
  obtain ⟨connection, after, returned, handled, advanced⟩ := synced.exists_write
    (show Action.write (.set path node) = some (path, .overwrite node) from rfl)
    (synced.tidy.addOverwriteAtPath path node repo.writeIdCounter) rfl
  refine ⟨after, ?_, advanced⟩
  simp only [set]
  rw [returned]
  exact handled

theorem Synced.exists_update (synced : repo.Synced) (path : List String)
    {nodes : FCompoundWrite ν} (children : ∀ child ∈ nodes.enumerateWrites, child.1.length ≤ 1) :
    ∃ next, repo.update path nodes = some next ∧ repo.Advanced (.update path nodes) next := by
  simp only [update]
  by_cases empty : nodes.isEmpty = true
  · rw [if_pos empty]
    refine ⟨repo, rfl, synced, ?_, ?_⟩
    · simp [Action.write, empty]
    · simp [Action.write, empty]
  · rw [if_neg empty]
    obtain ⟨connection, after, returned, handled, advanced⟩ := synced.exists_write
      (show Action.write (.update path nodes) = some (path, .merge nodes) from if_neg empty)
      (synced.tidy.addMergeAtPath path children repo.writeIdCounter) rfl
    refine ⟨after, ?_, advanced⟩
    rw [returned]
    exact handled

/-- Reports of canceled writes change nothing. -/
theorem foldlM_ackWrite_of_canceled (tree : FWriteTree ν) {reports : List (Nat × String)}
    (canceled : ∀ report ∈ reports, report.2 = writeCanceled) :
    reports.foldlM ackWrite tree = some tree := by
  induction reports with
  | nil => rfl
  | cons report reports ih =>
      rw [List.foldlM_cons, ackWrite, if_pos (canceled report List.mem_cons_self)]
      exact ih fun other member => canceled other (List.mem_cons_of_mem report member)

/-- Purging reports canceled writes only, which are no longer in the tree. -/
theorem Synced.exists_purge (synced : repo.Synced) (settled : repo.connection.putsToAck = []) :
    ∃ next, repo.purgeOutstandingWrites = some next ∧
      repo.Advanced .purgeOutstandingWrites next := by
  obtain ⟨done, queued⟩ := synced.queued
  have outcome : Outcome repo.connection .purgeOutstandingWrites
      repo.connection.purgeOutstandingWrites :=
    .purges rfl (Sends.refl (queued.sound.of_link rfl))
  have after := queued.outcome outcome ⟨trivial, trivial, fun loses => loses.elim⟩
  have purged := outbox_purgeOutstandingWrites queued.ascending
  have completed : repo.connection.purgeOutstandingWrites.completed =
      repo.connection.completed ++ repo.connection.outbox.waiting.map
        fun entry => (entry.2, writeCanceled) := by
    have grown := congrArg Outbox.completed purged
    rw [Outbox.purge, show repo.connection.outbox.held = [] from settled, List.append_nil] at grown
    exact grown
  have acknowledged : (repo.connection.purgeOutstandingWrites.completed.drop
      repo.connection.completed.length).foldlM ackWrite repo.pendingWriteTree.removeAllWrites.1 =
        some repo.pendingWriteTree.removeAllWrites.1 := by
    rw [completed, List.drop_left]
    apply foldlM_ackWrite_of_canceled
    intro report member
    obtain ⟨entry, _, rfl⟩ := List.mem_map.mp member
    rfl
  have held : repo.connection.purgeOutstandingWrites.putsToAck = [] := congrArg Outbox.held purged
  refine ⟨{ repo with
      connection := repo.connection.purgeOutstandingWrites
      pendingWriteTree := repo.pendingWriteTree.removeAllWrites.1 }, ?_, ?_, rfl, List.nil_suffix⟩
  · simp only [purgeOutstandingWrites, handle]
    rw [acknowledged]
    rfl
  · constructor
    · exact ⟨_, after⟩
    · exact ⟨FWriteTree.layered_init, FWriteTree.tidy_init.visible, FWriteTree.tidy_init.shallow⟩
    · change _ = repo.connection.purgeOutstandingWrites.putsToAck.map Prod.fst ++
        repo.connection.purgeOutstandingWrites.outstandingWrites
      rw [held, outstandingWrites_eq, purged]
      rfl
    · intro report member
      change report ∈ repo.connection.purgeOutstandingWrites.putsToAck at member
      rw [held] at member
      exact absurd member List.not_mem_nil

/-- What the connection reports is taken out of the tree, from its beginning. -/
theorem Synced.exists_connection [DecidableEq π] (synced : repo.Synced)
    {action : FPersistentConnection.Action π (List String × UserWrite ν)}
    (external : External action) (enabled : repo.connection.Enabled action)
    (answers : repo.connection.AnswersInOrder action)
    (holds : repo.connection.HoldsSocket action) :
    ∃ next, step repo (.connection action) = some next ∧
      repo.Advanced (.connection action) next := by
  obtain ⟨done, queued⟩ := synced.queued
  obtain ⟨connection, returned, outcome⟩ := queued.sound.exists_outcome enabled
  have after := queued.outcome outcome ⟨untransacted_of_external external, answers, holds⟩
  obtain ⟨reports, grown, sources⟩ := queued.exists_reports outcome external
  have issued : connection.issued = repo.connection.issued := by
    rw [outcome.issued_eq, writeId_eq_none_of_external external]
    simp
  have oldest : writeIds repo.pendingWriteTree =
      reports.map Prod.fst ++ (connection.putsToAck.map Prod.fst ++ connection.outstandingWrites) := by
    rw [synced.pending, outstandingWrites_eq, outstandingWrites_eq]
    exact (queued.ordered.reports_append after.ordered issued grown).symm
  have statuses : ∀ report ∈ reports ++ connection.putsToAck, report.2 ≠ writeCanceled := by
    intro report member
    rcases sources report member with held | fresh
    · exact synced.statuses report held
    · exact fresh
  obtain ⟨next, handled, nextSynced, counter, dropped⟩ :=
    exists_handle after synced.tidy grown statuses oldest
  refine ⟨next, ?_, nextSynced, counter, ?_⟩
  · simp only [step]
    rw [returned]
    exact handled
  · rw [dropped]
    simpa [Action.write] using List.drop_suffix reports.length repo.pendingWriteTree.allWrites

theorem Synced.exists_step [DecidableEq π] (synced : repo.Synced) {action : Action π ν}
    (inOrder : repo.InOrder action) :
    ∃ next, step repo action = some next ∧ repo.Advanced action next := by
  cases action with
  | set path node => exact synced.exists_set path node
  | update path nodes => exact synced.exists_update path inOrder.children
  | purgeOutstandingWrites => exact synced.exists_purge inOrder.purge
  | connection action =>
      exact synced.exists_connection inOrder.enabled.1 inOrder.enabled.2 inOrder.answers
        inOrder.socket

/-! ## The pending writes are the latest of the run -/

/-- What holds of the repository after the given calls. -/
structure Recorded (actions : List (Action π ν)) (repo : FRepo π ν) : Prop where
  synced : repo.Synced
  counter : repo.writeIdCounter = (actions.filterMap Action.write).length
  suffix : repo.pendingWriteTree.allWrites <:+ records actions

theorem recorded_init : Recorded [] (init : FRepo π ν) where
  synced := synced_init
  counter := rfl
  suffix := List.suffix_refl _

theorem records_concat (actions : List (Action π ν)) (action : Action π ν) :
    records (actions ++ [action]) = records actions ++
      action.write.toList.map (recordOf (actions.filterMap Action.write).length) := by
  rw [records, List.filterMap_append, List.mapIdx_append, records]
  cases write : action.write <;> simp [write]

theorem Recorded.exists_step [DecidableEq π] {done : List (Action π ν)}
    (recorded : Recorded done repo) {action : Action π ν} (inOrder : repo.InOrder action) :
    ∃ next, step repo action = some next ∧ Recorded (done ++ [action]) next := by
  obtain ⟨next, taken, advanced⟩ := recorded.synced.exists_step inOrder
  refine ⟨next, taken, advanced.synced, ?_, ?_⟩
  · rw [advanced.counter, recorded.counter, List.filterMap_append, List.length_append]
    cases write : action.write <;> simp [write]
  · rw [records_concat, ← recorded.counter]
    obtain ⟨older, split⟩ := recorded.suffix
    refine advanced.suffix.trans ⟨older, ?_⟩
    rw [← List.append_assoc, split]

theorem exists_run [DecidableEq π] {actions : List (Action π ν)}
    (inOrder : Transition.Permitted step InOrder init actions) :
    ∃ final : FRepo π ν, Transition.run step init actions = some final ∧
      Recorded actions final :=
  Transition.exists_run_of_permitted Recorded
    (fun _ _ _ recorded allowed => recorded.exists_step allowed) recorded_init inOrder

theorem permitted_inOrder [DecidableEq π] {actions : List (Action π ν)}
    (enabled : Transition.Permitted step Enabled init actions)
    (children : ∀ action ∈ actions, NamesChildren action)
    (answers : Transition.Permitted step AnswersInOrder init actions)
    (socket : Transition.Permitted step HoldsSocket init actions)
    (purge : Transition.Permitted step HoldsPurge init actions) :
    Transition.Permitted step InOrder (init : FRepo π ν) actions := by
  have permitted := ((enabled.and (Transition.permitted_of_mem init children)).and answers).and
    (socket.and purge)
  apply permitted.imp
  rintro repo action ⟨⟨⟨able, named⟩, answered⟩, held, settled⟩
  exact ⟨able, named, answered, held, settled⟩

/-! ## What the user sees -/

/-- The single writes that were not reported, in the order in which they were
made. -/
def pendingElements (repo : FRepo π ν) : List (List String × FNode ν) :=
  repo.pendingWriteTree.allWrites.flatMap FWriteRecord.elements

theorem elements_subset_of_suffix {pending all : List (FWriteRecord ν)} (suffix : pending <:+ all) :
    pending.flatMap FWriteRecord.elements ⊆ all.flatMap FWriteRecord.elements := by
  obtain ⟨older, rfl⟩ := suffix
  rw [List.flatMap_append]
  exact List.subset_append_right _ _

/-- The user writes a post and its likes while the client is offline; the
client connects, and the server answers the first write. -/
def offlinePost : List (Action Unit Nat) := [
  .set ["posts", "a", "id"] (some (.leafNode 1 none)),
  .update ["posts", "a"] (FCompoundWrite.addWrite (some (.leafNode 2 none)) ["likes"]
    FCompoundWrite.emptyWrite),
  .connection (.resumeForReason "waiting_for_open"), .connection .retry,
  .connection (.fetchedToken 1 (some none)), .connection .onReady,
  .connection (.onDataMessage 1 "ok"), .connection (.onDataMessage 2 "ok")]

/-- The single writes of the run. -/
theorem elements_offlinePost :
    (records offlinePost).flatMap FWriteRecord.elements =
      [(["posts", "a", "id"], some (.leafNode 1 none)),
        (["posts", "a", "likes"], some (.leafNode 2 none))] :=
  rfl

/-- Its keys do not tie. -/
theorem named_offlinePost {elements : List (List String × FNode Nat)}
    (listed : elements ⊆ (records offlinePost).flatMap FWriteRecord.elements) {server : FNode Nat}
    (within : server.contents.Everywhere (· ⊆ ["posts", "a", "id", "likes"])) :
    FWriteTree.Named ["posts", "a", "id", "likes"] elements server where
  paths := by
    intro write member
    have paths : ∀ write ∈ (records offlinePost).flatMap FWriteRecord.elements,
        write.1 ⊆ ["posts", "a", "id", "likes"] := by
      rw [elements_offlinePost]
      decide
    exact paths write (listed member)
  nodes := by
    intro write member
    have both := listed member
    rw [elements_offlinePost, List.mem_cons, List.mem_singleton] at both
    rcases both with rfl | rfl <;> exact FNode.everywhere_leafNode _ _ _
  base := within

theorem effective_offlinePost {elements : List (List String × FNode Nat)}
    (listed : elements ⊆ (records offlinePost).flatMap FWriteRecord.elements)
    (server : FNode Nat) : FWriteTree.Effective elements server := by
  rw [elements_offlinePost] at listed
  constructor
  · intro write member
    rcases List.mem_cons.mp (listed member) with rfl | last
    · decide
    · rw [List.mem_singleton.mp last]
      decide
  · intro write member
    rcases List.mem_cons.mp (listed member) with rfl | last
    · exact .inl (by simp)
    · rw [List.mem_singleton.mp last]
      exact .inl (by simp)

/-- A purge while an answer is held back fails an assertion. -/
example : (Transition.run step (init : FRepo Unit Nat) [
    .connection (.resumeForReason "waiting_for_open"), .connection .retry,
    .connection (.fetchedToken 1 (some none)), .connection .onReady,
    .set ["a"] (some (.leafNode 1 none)), .connection (.listen ⟨[], ()⟩),
    .connection (.onDataMessage 1 "ok"), .connection (.onDataMessage 2 "ok"),
    .purgeOutstandingWrites]).isNone = true := by
  decide +kernel

/-- A pending update deeper than one key is lost with a write below its own
path. -/
example : (Transition.run step (init : FRepo Unit Nat) [
    .connection (.resumeForReason "waiting_for_open"), .connection .retry,
    .connection (.fetchedToken 1 (some none)), .connection .onReady,
    .connection (.onDataMessage 1 "ok"), .set ["a", "b", "c"] (some (.leafNode 1 none)),
    .update ["a"] (FCompoundWrite.addWrite (some (.leafNode 2 none)) ["b", "c", "d"]
      FCompoundWrite.emptyWrite),
    .connection (.onDataMessage 2 "ok")]).bind (fun repo =>
      (repo.eventCache ["a"] none).map fun node => node.contents ["b", "c", "d"]) =
    some none := by
  decide +kernel

/-- The server's data after both writes. -/
def storedPost : FNode Nat :=
  some (.childrenNode none "posts" (.childrenNode none "a"
    (.childrenNode none "id" (.leafNode 1 none) [("likes", .leafNode 2 none)]) []) [])

theorem within_storedPost :
    storedPost.contents.Everywhere (· ⊆ ["posts", "a", "id", "likes"]) := by
  apply FNode.everywhere_children
  intro posts member
  rw [List.mem_singleton.mp member]
  refine ⟨by decide, FNode.everywhere_children ?_⟩
  intro post member
  rw [List.mem_singleton.mp member]
  refine ⟨by decide, FNode.everywhere_children ?_⟩
  intro field member
  rcases List.mem_cons.mp member with rfl | last
  · exact ⟨by decide, FNode.everywhere_leafNode _ _ _⟩
  · rw [List.mem_singleton.mp last]
    exact ⟨by decide, FNode.everywhere_leafNode _ _ _⟩

end FRepo

end DyeIsLife.Sync
