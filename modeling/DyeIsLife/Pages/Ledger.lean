import DyeIsLife.Pages.LoginRegister

/-!
# Following calls, accounts and registrations

One step of the registry moves calls from phase to phase, may create one
account, may issue one registration and may settle the write of one.  The
lemmas below trace each of these back to the state before the step and forward
to the state after it.  From them every account created by a press is followed
through its registration: the continuation of its sign-up is still to run, or
its record is on its way, or the write of the record has been settled.
-/

namespace DyeIsLife.Pages

open DyeIsLife.Auth
open DyeIsLife.Firebase
open DyeIsLife.Records
open DyeIsLife.Transition

namespace Registry

/-- Some device has started this call. -/
def HasCall (registry : Registry) (call : Call (Option Ticket)) : Prop :=
  ∃ device, call ∈ (registry.sessions device).calls

/-- A sign-up that has been granted and whose continuation has not run, or a
record still on its way to the database. -/
def Underway (registry : Registry) (uid : Uid) : Prop :=
  (∃ call, registry.HasCall call ∧ call.caller = .register ∧
      call.phase = .resolved (some uid)) ∨
    ∃ registration ∈ registry.registrations,
      registration.uid = uid ∧ registration.status = .pending

/-! ## Calls across a step -/

theorem hasCall_setSession {registry : Registry} {device : Nat}
    {session : Session (Option Ticket)} {call : Call (Option Ticket)}
    (has : (registry.setSession device session).HasCall call) :
    call ∈ session.calls ∨ registry.HasCall call := by
  rcases has with ⟨other, member⟩
  by_cases same : other = device
  · subst other
    simp only [setSession, Function.update_self] at member
    exact .inl member
  · simp only [setSession, Function.update_of_ne same] at member
    exact .inr ⟨other, member⟩

theorem hasCall_setSession_of_mem {registry : Registry} {device : Nat}
    {session : Session (Option Ticket)} {call : Call (Option Ticket)}
    (member : call ∈ session.calls) : (registry.setSession device session).HasCall call :=
  ⟨device, by simpa only [setSession, Function.update_self] using member⟩

/-- A call stays when the session of its device keeps it. -/
theorem HasCall.setSession {registry : Registry} {device : Nat}
    {session : Session (Option Ticket)} {call : Call (Option Ticket)}
    (has : registry.HasCall call)
    (stays : call ∈ (registry.sessions device).calls → call ∈ session.calls) :
    (registry.setSession device session).HasCall call := by
  rcases has with ⟨other, member⟩
  by_cases same : other = device
  · subst other
    exact hasCall_setSession_of_mem (stays member)
  · refine ⟨other, ?_⟩
    simpa only [Registry.setSession, Function.update_of_ne same] using member

/-- Replacing one entry of a list keeps the others. -/
theorem mem_set_of_mem {ε : Type} {entries : List ε} {index : Nat} {old entry : ε}
    (found : entries[index]? = some old) (member : entry ∈ entries) (new : ε) :
    entry = old ∨ entry ∈ entries.set index new := by
  rcases List.mem_iff_getElem?.mp member with ⟨other, foundOther⟩
  by_cases same : other = index
  · subst other
    exact .inl (Option.some.inj (foundOther.symm.trans found))
  · right
    rw [List.mem_iff_getElem?]
    exact ⟨other, (List.getElem?_set_ne (Ne.symm same)).trans foundOther⟩

/-- A sign-up creates its account when it is answered, or when it fails after
that; otherwise nothing is created. -/
theorem created_cases {caller : Caller} (ticket : Option Ticket) {outcome : Outcome}
    {before after : Option Uid} {phase : Phase}
    (acted : firebaseEffect before caller.operation outcome = some (after, phase)) :
    (∃ pressed user, caller = .register ∧ ticket = some pressed ∧ outcome = .granted user ∧
      phase = .resolved (some user) ∧
      created ⟨caller, ticket, .started⟩ outcome = [⟨user, pressed.email, some pressed, false⟩]) ∨
    (∃ pressed user, caller = .register ∧ outcome = .createdOnly user ∧ phase = .finished ∧
      created ⟨caller, ticket, .started⟩ outcome = [⟨user, pressed.email, some pressed, true⟩]) ∨
    (created ⟨caller, ticket, .started⟩ outcome = [] ∧
      (caller = .register → ticket ≠ none → phase = .finished)) := by
  by_cases register : caller = .register
  · subst caller
    cases ticket with
    | none => exact .inr (.inr ⟨rfl, fun _ present => absurd rfl present⟩)
    | some pressed =>
        cases outcome with
        | granted user =>
            simp only [Caller.operation, firebaseEffect, Option.some.injEq,
              Prod.mk.injEq] at acted
            exact .inl ⟨pressed, user, rfl, rfl, rfl, acted.2.symm, rfl⟩
        | done => simp [Caller.operation, firebaseEffect] at acted
        | failed =>
            simp only [Caller.operation, firebaseEffect, Option.some.injEq,
              Prod.mk.injEq] at acted
            exact .inr (.inr ⟨rfl, fun _ _ => acted.2.symm⟩)
        | createdOnly user =>
            simp only [Caller.operation, firebaseEffect, Option.some.injEq,
              Prod.mk.injEq] at acted
            exact .inr (.inl ⟨pressed, user, rfl, rfl, acted.2.symm, rfl⟩)
  · refine .inr (.inr ⟨?_, fun same => absurd same register⟩)
    cases caller with
    | register => contradiction
    | mappingInit => rfl
    | homeInit => rfl
    | login => rfl
    | logout => rfl

/-- The calls after a step, traced back: a call was there before, has only moved
to another phase, or has just been started.  A register call is started by the
submit button only, and its account is there once it is answered. -/
theorem Moves.hasCall {registry next : Registry} {action : RegistryAction}
    {call : Call (Option Ticket)} (moves : Moves registry action next)
    (has : next.HasCall call) :
    registry.HasCall call ∨
      (∃ old, registry.HasCall old ∧ old.caller = call.caller ∧ old.ticket = call.ticket ∧
        (call.caller = .register → call.ticket ≠ none → call.phase = .finished ∨
          old.phase = .started ∧ ∃ ticket user, call.ticket = some ticket ∧
            call.phase = .resolved (some user) ∧
            ⟨user, ticket.email, some ticket, false⟩ ∈ next.accounts)) ∨
      (call.phase = .started ∧ (call.caller = .register →
        ∃ index saved, action = .submit index ∧ next.pages[index]? = some saved ∧
          call.ticket = some ⟨index, saved.email, saved.password, saved.username⟩)) := by
  cases moves with
  | onPages kept => exact .inl has
  | @submitted index page saved found valid =>
      rcases hasCall_setSession has with member | earlier
      · rcases List.mem_append.mp member with old | new
        · exact .inl ⟨_, old⟩
        · cases List.mem_singleton.mp new
          have inside := (List.getElem?_eq_some_iff.mp found).1
          exact .inr (.inr ⟨rfl, fun _ => ⟨index, saved, rfl, List.getElem?_set_self inside, rfl⟩⟩)
      · exact .inl earlier
  | called other =>
      rcases hasCall_setSession has with member | earlier
      · rcases List.mem_append.mp member with old | new
        · exact .inl ⟨_, old⟩
        · cases List.mem_singleton.mp new
          exact .inr (.inr ⟨rfl, fun register => absurd register other⟩)
      · exact .inl earlier
  | acted found admits taken =>
      rcases (Session.effect_eq_some_iff _ _ _ _).mp taken with
        ⟨caller, ticket, user, phase, started, effect, rfl⟩
      cases found.symm.trans started
      rcases hasCall_setSession has with member | earlier
      · rcases List.mem_or_eq_of_mem_set member with old | rfl
        · exact .inl ⟨_, old⟩
        · refine .inr (.inl ⟨_, ⟨_, List.mem_of_getElem? started⟩, rfl, rfl, ?_⟩)
          intro register present
          rcases created_cases ticket effect with ⟨pressed, user', _, sameTicket, _, answered, new⟩ |
            ⟨_, _, _, _, finished, _⟩ | ⟨_, finished⟩
          · refine .inr ⟨rfl, pressed, user', sameTicket, answered, ?_⟩
            simp only [setSession, new]
            exact List.mem_append_right _ List.mem_cons_self
          · exact .inl finished
          · exact .inl (finished register present)
      · exact .inl earlier
  | resumed found taken =>
      rcases (Session.resume_eq_some_iff _ _ _).mp taken with
        ⟨caller, ticket, user, resolved, rfl⟩
      rcases hasCall_setSession has with member | earlier
      · rcases List.mem_or_eq_of_mem_set member with old | rfl
        · exact .inl ⟨_, old⟩
        · exact .inr (.inl ⟨_, ⟨_, List.mem_of_getElem? resolved⟩, rfl, rfl,
            fun _ _ => .inl rfl⟩)
      · exact .inl earlier
  | stored found pending => exact .inl has
  | rejected found pending => exact .inl has

/-- An answered call stays until its continuation runs. -/
theorem Moves.keeps_resolved {registry next : Registry} {action : RegistryAction}
    {call : Call (Option Ticket)} {answer : Option Uid} (moves : Moves registry action next)
    (has : registry.HasCall call) (resolved : call.phase = .resolved answer) :
    next.HasCall call ∨
      next.registrations = registry.registrations ++ registry.registered call := by
  cases moves with
  | onPages kept => exact .inl has
  | submitted found valid =>
      left
      apply HasCall.setSession has
      exact List.mem_append_left _
  | called other =>
      left
      apply HasCall.setSession has
      exact List.mem_append_left _
  | acted found admits taken =>
      rcases (Session.effect_eq_some_iff _ _ _ _).mp taken with
        ⟨caller, ticket, user, phase, started, _, rfl⟩
      left
      apply HasCall.setSession has
      intro member
      rcases mem_set_of_mem started member ⟨caller, ticket, phase⟩ with rfl | stays
      · cases resolved
      · exact stays
  | @resumed device index call' session found taken =>
      rcases (Session.resume_eq_some_iff _ _ _).mp taken with
        ⟨caller, ticket, user, answered, rfl⟩
      by_cases same : call = call'
      · subst call'
        exact .inr rfl
      · left
        apply HasCall.setSession has
        intro member
        rcases mem_set_of_mem found member ⟨caller, ticket, .finished⟩ with same' | stays
        · exact absurd same' same
        · exact stays
  | stored found pending => exact .inl has
  | rejected found pending => exact .inl has

/-! ## Accounts and registrations across a step -/

/-- The accounts stay, up to the one of a sign-up that has just been granted or
has failed after creating it. -/
theorem Moves.accounts {registry next : Registry} {action : RegistryAction}
    (moves : Moves registry action next) :
    next.accounts = registry.accounts ∨
      (∃ call ticket user, next.HasCall call ∧ call.caller = .register ∧
        call.phase = .resolved (some user) ∧ user ∉ registry.accounts.map Account.uid ∧
        next.accounts = registry.accounts ++ [⟨user, ticket.email, some ticket, false⟩]) ∨
      ∃ ticket user, (∃ device index, action = .effect device index (.createdOnly user)) ∧
        user ∉ registry.accounts.map Account.uid ∧
        next.accounts = registry.accounts ++ [⟨user, ticket.email, some ticket, true⟩] := by
  cases moves with
  | onPages kept => exact .inl rfl
  | submitted found valid => exact .inl rfl
  | called other => exact .inl rfl
  | acted found admits taken =>
      rcases (Session.effect_eq_some_iff _ _ _ _).mp taken with
        ⟨caller, ticket, user, phase, started, effect, rfl⟩
      cases found.symm.trans started
      have inside := (List.getElem?_eq_some_iff.mp found).1
      rcases created_cases ticket effect with ⟨pressed, user', register, _, granted, answered, new⟩ |
        ⟨pressed, user', register, failed, _, new⟩ | ⟨unchanged, _⟩
      · subst granted
        refine .inr (.inl ⟨⟨caller, ticket, phase⟩, pressed, user', ?_, register, answered,
          admits.1 register, ?_⟩)
        · apply hasCall_setSession_of_mem
          exact List.mem_set inside _
        · simp only [setSession, new]
      · subst failed
        refine .inr (.inr ⟨pressed, user', ⟨_, _, rfl⟩, admits, ?_⟩)
        simp only [setSession, new]
      · left
        simp only [setSession, unchanged, List.append_nil]
  | resumed found taken => exact .inl rfl
  | stored found pending => exact .inl rfl
  | rejected found pending => exact .inl rfl

theorem Moves.accounts_subset {registry next : Registry} {action : RegistryAction}
    (moves : Moves registry action next) : registry.accounts ⊆ next.accounts := by
  rcases moves.accounts with same | ⟨_, _, _, _, _, _, _, appended⟩ | ⟨_, _, _, _, appended⟩
  · rw [same]
    exact List.Subset.refl _
  · rw [appended]
    exact List.subset_append_left _ _
  · rw [appended]
    exact List.subset_append_left _ _

/-- The registration that a call issues. -/
theorem mem_registered_iff (registry : Registry) (call : Call (Option Ticket))
    (registration : Registration) :
    registration ∈ registry.registered call ↔
      ∃ user ticket page, call.caller = .register ∧ call.phase = .resolved (some user) ∧
        call.ticket = some ticket ∧ registry.pages[ticket.page]? = some page ∧
        registration = ⟨user, page.username, page.email, .pending, page.mounted, false⟩ := by
  unfold registered
  constructor
  · intro member
    split at member
    · rename_i user ticket register resolved pressed
      split at member
      · rename_i page found
        exact ⟨user, ticket, page, register, resolved, pressed, found, List.mem_singleton.mp member⟩
      · contradiction
    · contradiction
  · rintro ⟨user, ticket, page, register, resolved, pressed, found, rfl⟩
    simp only [register, resolved, pressed, found, List.mem_singleton]

/-- A registration is an old one, has just been issued by the continuation of a
register call, or is an old one whose write has been settled. -/
theorem Moves.registration {registry next : Registry} {action : RegistryAction}
    {registration : Registration} (moves : Moves registry action next)
    (member : registration ∈ next.registrations) :
    registration ∈ registry.registrations ∨
      (∃ call, registry.HasCall call ∧ registration ∈ registry.registered call) ∨
      ∃ old ∈ registry.registrations,
        (registration = { old with status := .stored } ∧
          next.database = (Write.register old.uid old.username old.email).apply
            registry.database) ∨
        (registration = { old with status := .rejected } ∧ ∃ index, action = .rejected index) := by
  cases moves with
  | onPages kept => exact .inl member
  | submitted found valid => exact .inl member
  | called other => exact .inl member
  | acted found admits taken => exact .inl member
  | resumed found taken =>
      rcases List.mem_append.mp member with old | new
      · exact .inl old
      · exact .inr (.inl ⟨_, ⟨_, List.mem_of_getElem? found⟩, new⟩)
  | stored found pending =>
      rcases List.mem_or_eq_of_mem_set member with old | rfl
      · exact .inl old
      · exact .inr (.inr ⟨_, List.mem_of_getElem? found, .inl ⟨rfl, rfl⟩⟩)
  | rejected found pending =>
      rcases List.mem_or_eq_of_mem_set member with old | rfl
      · exact .inl old
      · exact .inr (.inr ⟨_, List.mem_of_getElem? found, .inr ⟨rfl, _, rfl⟩⟩)

/-- A registration stays, up to the outcome of its write. -/
theorem Moves.keeps_registration {registry next : Registry} {action : RegistryAction}
    {registration : Registration} (moves : Moves registry action next)
    (member : registration ∈ registry.registrations) :
    registration ∈ next.registrations ∨
      ∃ settled ∈ next.registrations, settled.uid = registration.uid ∧
        settled.status ≠ .pending := by
  have kept : ∀ (index : Nat) (old : Registration) (status : WriteStatus),
      registry.registrations[index]? = some old → status ≠ .pending →
        registration ∈ registry.registrations.set index { old with status } ∨
          ∃ settled ∈ registry.registrations.set index { old with status },
            settled.uid = registration.uid ∧ settled.status ≠ .pending := by
    intro index old status found other
    have inside := (List.getElem?_eq_some_iff.mp found).1
    rcases mem_set_of_mem found member { old with status } with rfl | stays
    · exact .inr ⟨_, List.mem_set inside _, rfl, other⟩
    · exact .inl stays
  cases moves with
  | onPages _ => exact .inl member
  | submitted found valid => exact .inl member
  | called other => exact .inl member
  | acted found admits taken => exact .inl member
  | resumed found taken => exact .inl (List.mem_append_left _ member)
  | stored found pending => exact kept _ _ _ found (by decide)
  | rejected found pending => exact kept _ _ _ found (by decide)

/-- Only the performed write of a registration changes the database. -/
theorem Moves.database {registry next : Registry} {action : RegistryAction}
    (moves : Moves registry action next) :
    next.database = registry.database ∨
      ∃ registration ∈ registry.registrations,
        next.database = (Write.register registration.uid registration.username
          registration.email).apply registry.database := by
  cases moves with
  | onPages kept => exact .inl rfl
  | submitted found valid => exact .inl rfl
  | called other => exact .inl rfl
  | acted found admits taken => exact .inl rfl
  | resumed found taken => exact .inl rfl
  | stored found pending => exact .inr ⟨_, List.mem_of_getElem? found, rfl⟩
  | rejected found pending => exact .inl rfl

theorem Moves.pages_length {registry next : Registry} {action : RegistryAction}
    (moves : Moves registry action next) : registry.pages.length ≤ next.pages.length := by
  cases moves with
  | onPages kept =>
      by_contra shorter
      rw [Nat.not_le] at shorter
      rcases kept _ _ (List.getElem?_eq_getElem shorter) with ⟨_, found, _⟩
      exact absurd (List.getElem?_eq_some_iff.mp found).1 (Nat.lt_irrefl _)
  | submitted found valid => exact Nat.le_of_eq (List.length_set).symm
  | called other => exact Nat.le_refl _
  | acted found admits taken => exact Nat.le_refl _
  | resumed found taken => exact Nat.le_refl _
  | stored found pending => exact Nat.le_refl _
  | rejected found pending => exact Nat.le_refl _

/-! ## Every account is accounted for -/

/-- The write of a registration for `uid` has been performed or refused. -/
def Settled (registry : Registry) (uid : Uid) : Prop :=
  ∃ registration ∈ registry.registrations,
    registration.uid = uid ∧ registration.status ≠ .pending

/-- Register calls know their page, and the registration of every account
created by a press is underway or settled, unless the sign-up failed. -/
structure Ledger (registry : Registry) : Prop where
  paged : ∀ call, registry.HasCall call → call.caller = .register →
    ∃ ticket, call.ticket = some ticket ∧ ticket.page < registry.pages.length
  followed : ∀ account ∈ registry.accounts, account.press ≠ none → account.failed = false →
    registry.Underway account.uid ∨ registry.Settled account.uid

theorem ledger_launch {accounts : List Account} (database : Database)
    (remembered : Nat → Option Uid) (earlier : ∀ account ∈ accounts, account.press = none) :
    Ledger (launch accounts database remembered) where
  paged call has register := by
    rcases has with ⟨device, member⟩
    cases List.mem_singleton.mp member
    contradiction
  followed account member pressed _ := absurd (earlier account member) pressed

/-- A registration underway goes on or is settled. -/
theorem Ledger.underway {registry next : Registry} {action : RegistryAction} {uid : Uid}
    (ledger : Ledger registry) (moves : Moves registry action next)
    (underway : registry.Underway uid) : next.Underway uid ∨ next.Settled uid := by
  rcases underway with ⟨call, has, register, resolved⟩ | ⟨registration, member, rfl, pending⟩
  · rcases moves.keeps_resolved has resolved with stays | issued
    · exact .inl (.inl ⟨call, stays, register, resolved⟩)
    · -- the continuation has run, and its page exists, so the write has been issued
      rcases ledger.paged call has register with ⟨ticket, pressed, inside⟩
      have new := (mem_registered_iff registry call _).mpr
        ⟨uid, ticket, _, register, resolved, pressed, List.getElem?_eq_getElem inside, rfl⟩
      left
      right
      rw [issued]
      exact ⟨_, List.mem_append_right _ new, rfl, rfl⟩
  · rcases moves.keeps_registration member with stays | ⟨settled, settledMember, same, other⟩
    · exact .inl (.inr ⟨registration, stays, rfl, pending⟩)
    · exact .inr ⟨settled, settledMember, same, other⟩

theorem Ledger.settled {registry next : Registry} {action : RegistryAction} {uid : Uid}
    (moves : Moves registry action next) (settled : registry.Settled uid) : next.Settled uid := by
  rcases settled with ⟨registration, member, rfl, other⟩
  rcases moves.keeps_registration member with stays | settledNow
  · exact ⟨registration, stays, rfl, other⟩
  · exact settledNow

theorem Ledger.step {registry next : Registry} {action : RegistryAction}
    (ledger : Ledger registry) (moves : Moves registry action next) : Ledger next where
  paged call has register := by
    rcases moves.hasCall has with earlier | ⟨old, earlier, sameCaller, sameTicket, _⟩ | ⟨_, new⟩
    · rcases ledger.paged call earlier register with ⟨ticket, pressed, inside⟩
      exact ⟨ticket, pressed, Nat.lt_of_lt_of_le inside moves.pages_length⟩
    · rcases ledger.paged old earlier (sameCaller.trans register) with ⟨ticket, pressed, inside⟩
      exact ⟨ticket, sameTicket.symm.trans pressed, Nat.lt_of_lt_of_le inside moves.pages_length⟩
    · rcases new register with ⟨index, saved, _, found, pressed⟩
      exact ⟨_, pressed, (List.getElem?_eq_some_iff.mp found).1⟩
  followed account member pressed answered := by
    have earlier : account ∈ registry.accounts →
        next.Underway account.uid ∨ next.Settled account.uid := by
      intro old
      rcases ledger.followed account old pressed answered with underway | settled
      · exact ledger.underway moves underway
      · exact .inr (Ledger.settled moves settled)
    rcases moves.accounts with same |
      ⟨call, ticket, user, has, register, resolved, _, appended⟩ | ⟨_, _, _, _, appended⟩
    · rw [same] at member
      exact earlier member
    · rw [appended] at member
      rcases List.mem_append.mp member with old | new
      · exact earlier old
      · cases List.mem_singleton.mp new
        exact .inl (.inl ⟨call, has, register, resolved⟩)
    · rw [appended] at member
      rcases List.mem_append.mp member with old | new
      · exact earlier old
      · cases List.mem_singleton.mp new
        contradiction

end Registry

end DyeIsLife.Pages
