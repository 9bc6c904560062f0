import DyeIsLife.Store.Tree
import Mathlib.Data.List.Perm.Basic

/-!
# Outboxes

An outbox numbers the requests it takes and keeps each one until it is
answered.  An answer is either reported at once or held back and reported
later together with the other answers held back.  Requests can also be given
up: some of them, or all of them.

Two statements are proved about every history of an outbox.  No request is lost
or reported twice.  When answers come in the order of the requests and none is
reported past one held back, the reports are in the order of the requests.
-/

namespace DyeIsLife.Sync

open DyeIsLife.Store

universe u v

/-- The requests of an outbox: waiting for their answer, answered and held
back, or reported; `issued` lists all of them. -/
structure Outbox (ι : Type u) (ς : Type v) where
  counter : Nat
  waiting : List (Nat × ι)
  held : List (ι × ς)
  completed : List (ι × ς)
  issued : List ι

namespace Outbox

variable {ι : Type u} {ς : Type v}

/-- Take a request. -/
def issue (ticket : ι) (box : Outbox ι ς) : Outbox ι ς :=
  { box with
    counter := box.counter + 1
    waiting := box.waiting ++ [(box.counter, ticket)]
    issued := box.issued ++ [ticket] }

/-- Report the answer to a request. -/
def answer (index : Nat) (ticket : ι) (status : ς) (box : Outbox ι ς) : Outbox ι ς :=
  { box with
    waiting := alter index none box.waiting
    completed := box.completed ++ [(ticket, status)] }

/-- Hold the answer to a request back. -/
def hold (index : Nat) (ticket : ι) (status : ς) (box : Outbox ι ς) : Outbox ι ς :=
  { box with
    waiting := alter index none box.waiting
    held := box.held ++ [(ticket, status)] }

/-- Report all answers held back. -/
def release (box : Outbox ι ς) : Outbox ι ς :=
  { box with
    held := []
    completed := box.completed ++ box.held }

/-- Give the chosen requests up. -/
def cancel (chosen : Nat → Bool) (status : ς) (box : Outbox ι ς) : Outbox ι ς :=
  { box with
    waiting := box.waiting.filter fun entry => !chosen entry.1
    completed := box.completed ++
      (box.waiting.filter fun entry => chosen entry.1).map fun entry => (entry.2, status) }

/-- Give all requests up, after the answers held back. -/
def purge (status : ς) (box : Outbox ι ς) : Outbox ι ς :=
  { box with
    waiting := []
    held := []
    completed := box.completed ++ box.held ++ box.waiting.map fun entry => (entry.2, status) }

/-- What can happen to an outbox. -/
inductive Moves (box : Outbox ι ς) : Outbox ι ς → Prop
  | stay : Moves box box
  | issue (ticket : ι) : Moves box (box.issue ticket)
  | answer {index : Nat} {ticket : ι} (status : ς)
      (found : box.waiting.lookup index = some ticket) :
      Moves box (box.answer index ticket status)
  | hold {index : Nat} {ticket : ι} (status : ς)
      (found : box.waiting.lookup index = some ticket) :
      Moves box (box.hold index ticket status)
  | release : Moves box box.release
  | cancel (chosen : Nat → Bool) (status : ς) : Moves box (box.cancel chosen status)
  | purge (status : ς) : Moves box (box.purge status)

/-- The requests in the order in which they are, or will be, reported. -/
def reports (box : Outbox ι ς) : List ι :=
  box.completed.map Prod.fst ++ box.held.map Prod.fst ++ box.waiting.map Prod.snd

/-- The numbers of the waiting requests ascend and have all been used. -/
structure Ascending (box : Outbox ι ς) : Prop where
  sorted : (keys box.waiting).Pairwise (· < ·)
  below : ∀ index ∈ keys box.waiting, index < box.counter

variable {box next : Outbox ι ς}

theorem Ascending.nodup (ascending : box.Ascending) : (keys box.waiting).Nodup :=
  ascending.sorted.imp fun less => Nat.ne_of_lt less

/-- Requests may be dropped. -/
theorem Ascending.sublist (ascending : box.Ascending) (counter : box.counter = next.counter)
    (sublist : next.waiting.Sublist box.waiting) : next.Ascending where
  sorted := ascending.sorted.sublist (sublist.map Prod.fst)
  below := by
    intro index member
    rw [← counter]
    exact ascending.below index ((sublist.map Prod.fst).subset member)

theorem Ascending.issue (ascending : box.Ascending) (ticket : ι) :
    (box.issue ticket).Ascending where
  sorted := by
    simp only [Outbox.issue, keys, List.map_append, List.map_cons, List.map_nil]
    rw [List.pairwise_append]
    refine ⟨ascending.sorted, List.pairwise_singleton _ _, ?_⟩
    intro index member last lastMember
    obtain rfl := List.mem_singleton.mp lastMember
    exact ascending.below index member
  below := by
    intro index member
    simp only [Outbox.issue, keys, List.map_append, List.map_cons, List.map_nil,
      List.mem_append, List.mem_singleton] at member ⊢
    rcases member with old | rfl
    · have := ascending.below index old
      omega
    · omega

theorem Ascending.moves (ascending : box.Ascending) (moves : Moves box next) :
    next.Ascending := by
  cases moves with
  | stay => exact ascending
  | issue ticket => exact ascending.issue ticket
  | answer status found => exact ascending.sublist rfl List.filter_sublist
  | hold status found => exact ascending.sublist rfl List.filter_sublist
  | release => exact ascending.sublist rfl (List.Sublist.refl _)
  | cancel chosen status => exact ascending.sublist rfl List.filter_sublist
  | purge status => exact ascending.sublist rfl (List.nil_sublist _)

/-! ## Nothing is lost, nothing is reported twice -/

/-- Every request is reported exactly once, or will be. -/
def Conserved (box : Outbox ι ς) : Prop :=
  box.issued.Perm box.reports

/-- Dropping the first of several distinct keys leaves the others. -/
theorem alter_none_cons {index : Nat} {ticket : ι} {rest : List (Nat × ι)}
    (distinct : (keys ((index, ticket) :: rest)).Nodup) :
    alter index none ((index, ticket) :: rest) = rest := by
  rw [keys_cons, List.nodup_cons] at distinct
  have others : rest.filter (fun entry => entry.1 ≠ index) = rest := by
    rw [List.filter_eq_self]
    intro entry member
    have differ : entry.1 ≠ index := by
      rintro rfl
      exact distinct.1 (mem_keys_of_mem member)
    simpa using differ
  simpa [alter] using others

/-- Taking an entry out of a list with distinct keys. -/
theorem perm_cons_alter_none {index : Nat} {ticket : ι} {entries : List (Nat × ι)}
    (distinct : (keys entries).Nodup) (found : entries.lookup index = some ticket) :
    entries.Perm ((index, ticket) :: alter index none entries) := by
  induction entries with
  | nil => simp at found
  | cons entry rest ih =>
      rcases entry with ⟨key, value⟩
      rw [lookup_cons_eq_ite] at found
      rw [keys_cons, List.nodup_cons] at distinct
      by_cases hit : index = key
      · subst hit
        rw [if_pos rfl] at found
        obtain rfl := Option.some.inj found
        rw [alter_none_cons (keys_cons _ _ ▸ List.nodup_cons.mpr distinct)]
      · rw [if_neg hit] at found
        have kept : alter index none ((key, value) :: rest) = (key, value) :: alter index none rest := by
          simp [alter, Ne.symm hit]
        rw [kept]
        exact ((ih distinct.2 found).cons _).trans (List.Perm.swap _ _ _)

/-- An answered request is no longer waiting. -/
theorem Ascending.perm_waiting (ascending : box.Ascending) {index : Nat} {ticket : ι}
    (found : box.waiting.lookup index = some ticket) :
    (box.waiting.map Prod.snd).Perm (ticket :: (alter index none box.waiting).map Prod.snd) :=
  (perm_cons_alter_none ascending.nodup found).map Prod.snd

theorem Conserved.moves (conserved : box.Conserved) (ascending : box.Ascending)
    (moves : Moves box next) : next.Conserved := by
  unfold Conserved reports at *
  cases moves with
  | stay => exact conserved
  | issue ticket =>
      simp only [Outbox.issue, List.map_append, List.map_cons, List.map_nil]
      rw [← List.append_assoc]
      exact conserved.append_right [ticket]
  | @answer index ticket status found =>
      simp only [Outbox.answer, List.map_append, List.map_cons, List.map_nil]
      refine conserved.trans (((ascending.perm_waiting found).append_left _).trans ?_)
      simp only [List.append_assoc]
      exact List.Perm.append_left _ List.perm_middle
  | @hold index ticket status found =>
      simp only [Outbox.hold, List.map_append, List.map_cons, List.map_nil]
      refine conserved.trans (((ascending.perm_waiting found).append_left _).trans ?_)
      simp
  | release => simpa [Outbox.release] using conserved
  | cancel chosen status =>
      refine conserved.trans ?_
      have split := (List.filter_append_perm (fun entry => chosen entry.1) box.waiting).symm.map
        Prod.snd
      simp only [Outbox.cancel, List.map_append, List.map_map]
      refine (split.append_left _).trans ?_
      simp only [List.map_append, List.append_assoc, Function.comp_def]
      exact List.Perm.append_left _
        ((List.perm_append_comm_assoc _ _ _))
  | purge status =>
      refine conserved.trans (List.Perm.of_eq ?_)
      simp [Outbox.purge, Function.comp_def]

/-! ## The order of the reports -/

/-- The reports come in the order of the requests. -/
def Ordered (box : Outbox ι ς) : Prop :=
  box.issued = box.reports

/-- What happens to an outbox when answers come in the order of the requests,
nothing is reported while an answer is held back, and single requests are not
given up. -/
inductive Advances (box : Outbox ι ς) : Outbox ι ς → Prop
  | stay : Advances box box
  | issue (ticket : ι) : Advances box (box.issue ticket)
  | answer {index : Nat} {ticket : ι} {rest : List (Nat × ι)} (status : ς)
      (first : box.waiting = (index, ticket) :: rest) (free : box.held = []) :
      Advances box (box.answer index ticket status)
  | hold {index : Nat} {ticket : ι} {rest : List (Nat × ι)} (status : ς)
      (first : box.waiting = (index, ticket) :: rest) :
      Advances box (box.hold index ticket status)
  | release : Advances box box.release
  | purge (status : ς) : Advances box (box.purge status)

theorem Advances.moves (advances : Advances box next) : Moves box next := by
  cases advances with
  | stay => exact .stay
  | issue ticket => exact .issue ticket
  | answer status first free => exact .answer status (by rw [first, List.lookup_cons_self])
  | hold status first => exact .hold status (by rw [first, List.lookup_cons_self])
  | release => exact .release
  | purge status => exact .purge status

theorem Ordered.advances (ordered : box.Ordered) (ascending : box.Ascending)
    (advances : Advances box next) : next.Ordered := by
  unfold Ordered reports at *
  cases advances with
  | stay => exact ordered
  | issue ticket => simp [Outbox.issue, ordered]
  | @answer index ticket rest status first free =>
      have distinct := ascending.nodup
      rw [first] at distinct
      simp [Outbox.answer, ordered, first, free, alter_none_cons distinct]
  | @hold index ticket rest status first =>
      have distinct := ascending.nodup
      rw [first] at distinct
      simp [Outbox.hold, ordered, first, alter_none_cons distinct]
  | release => simpa [Outbox.release] using ordered
  | purge status => simpa [Outbox.purge, Function.comp_def] using ordered

/-- When nothing new is issued, the reports are the next ones in line. -/
theorem Ordered.reports_append (before : box.Ordered) (after : next.Ordered)
    (same : next.issued = box.issued) {reports : List (ι × ς)}
    (grown : next.completed = box.completed ++ reports) :
    reports.map Prod.fst ++ (next.held.map Prod.fst ++ next.waiting.map Prod.snd) =
      box.held.map Prod.fst ++ box.waiting.map Prod.snd := by
  unfold Ordered Outbox.reports at before after
  rw [same, before, grown] at after
  simpa using after.symm

end Outbox

end DyeIsLife.Sync
