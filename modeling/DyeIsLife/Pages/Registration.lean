import DyeIsLife.Pages.Ledger

/-!
# Registration in two services

A registration creates an account in one service and then writes the profile
record to the other.  The write is not awaited, so its failure is noticed
neither by the `try` around it nor by the user: the home page is pushed, no
dialog is shown, and the account is left without the record that the profile
page takes for granted.  The same account is left behind, this time with a
dialog, when the sign-up has created it and fails on a later request.

Registration is all-or-nothing along every run in which no write of a
registration is refused and no sign-up fails after it has created its account.
A refused write breaks the promise at once, and an account that was left behind
breaks it as soon as no registration is in progress.
-/

namespace DyeIsLife.Pages

open DyeIsLife.Auth
open DyeIsLife.Firebase
open DyeIsLife.Records
open DyeIsLife.Transition

namespace Registry

/-! ## All or nothing -/

/-- No sign-up is in flight and no record is on its way. -/
def Idle (registry : Registry) : Prop :=
  (∀ call, registry.HasCall call → call.caller = .register → call.phase = .finished) ∧
    ∀ registration ∈ registry.registrations, registration.status ≠ .pending

/-- With no registration in progress every account has its whole record and the
profile page can show every signed-in user; a registration whose write failed
has said so and has not gone on to the home page. -/
structure AllOrNothing (registry : Registry) : Prop where
  complete : registry.Idle →
    ∀ account ∈ registry.accounts, Complete registry.database account.uid
  shown : registry.Idle → ∀ device user,
    (registry.sessions device).firebaseUser = some user →
      ∃ info, getProfileInfo registry.database (some user.val) = some info ∧ info.Shown
  reported : ∀ registration ∈ registry.registrations, registration.status = .rejected →
    registration.reported = true ∧ registration.proceeded = false

/-- The step neither refuses the write of a registration nor lets a sign-up
fail after it has created its account. -/
def Accepts (_ : Registry) : RegistryAction → Prop
  | .rejected _ => False
  | .effect _ _ (.createdOnly _) => False
  | _ => True

/-- The invariant of runs of accepted steps. -/
structure Sound (registry : Registry) : Prop extends Ledger registry where
  earlier : ∀ account ∈ registry.accounts, account.press = none →
    Complete registry.database account.uid
  answered : ∀ account ∈ registry.accounts, account.press ≠ none → account.failed = false
  stored : ∀ registration ∈ registry.registrations, registration.status = .stored →
    Complete registry.database registration.uid
  accepted : ∀ registration ∈ registry.registrations, registration.status ≠ .rejected
  silent : ∀ registration ∈ registry.registrations, registration.reported = false
  known : ∀ device user, (registry.sessions device).firebaseUser = some user →
    user ∈ registry.accounts.map Account.uid

theorem Sound.allOrNothing {registry : Registry} (sound : Sound registry) :
    AllOrNothing registry := by
  have complete : registry.Idle →
      ∀ account ∈ registry.accounts, Complete registry.database account.uid := by
    rintro ⟨noCall, noWrite⟩ account member
    by_cases pressed : account.press = none
    · exact sound.earlier account member pressed
    · rcases sound.followed account member pressed (sound.answered account member pressed) with
        (⟨call, has, register, resolved⟩ | ⟨registration, recorded, _, pending⟩) |
          ⟨registration, recorded, same, settled⟩
      · rw [noCall call has register] at resolved
        contradiction
      · exact absurd pending (noWrite registration recorded)
      · have stored : registration.status = .stored := by
          cases status : registration.status with
          | pending => exact absurd status settled
          | stored => rfl
          | rejected => exact absurd status (sound.accepted registration recorded)
        rw [← same]
        exact sound.stored registration recorded stored
  constructor
  · exact complete
  · intro idle device user signedIn
    rcases List.mem_map.mp (sound.known device user signedIn) with ⟨account, member, rfl⟩
    exact getProfileInfo_of_complete (complete idle account member)
  · intro registration member rejected
    exact absurd rejected (sound.accepted registration member)

theorem firebaseUser_setSession {registry : Registry} {device other : Nat}
    {session : Session (Option Ticket)} {user : Uid}
    (signedIn : ((registry.setSession other session).sessions device).firebaseUser = some user) :
    (device = other ∧ session.firebaseUser = some user) ∨
      (registry.sessions device).firebaseUser = some user := by
  by_cases same : device = other
  · subst other
    simp only [setSession, Function.update_self] at signedIn
    exact .inl ⟨rfl, signedIn⟩
  · simp only [setSession, Function.update_of_ne same] at signedIn
    exact .inr signedIn

/-- A user that Firebase signs in has an account. -/
theorem Sound.known_step {registry next : Registry} {action : RegistryAction}
    (sound : Sound registry) (moves : Moves registry action next) {device : Nat} {user : Uid}
    (signedIn : (next.sessions device).firebaseUser = some user) :
    user ∈ next.accounts.map Account.uid := by
  have subset := List.map_subset Account.uid moves.accounts_subset
  have before : (registry.sessions device).firebaseUser = some user →
      user ∈ next.accounts.map Account.uid := fun earlier =>
    subset (sound.known device user earlier)
  cases moves with
  | onPages kept => exact before signedIn
  | submitted found valid =>
      rcases firebaseUser_setSession signedIn with ⟨rfl, here⟩ | elsewhere
      · exact before here
      · exact before elsewhere
  | called differ =>
      rcases firebaseUser_setSession signedIn with ⟨rfl, here⟩ | elsewhere
      · exact before here
      · exact before elsewhere
  | acted found admits taken =>
      rcases firebaseUser_setSession signedIn with ⟨rfl, here⟩ | elsewhere
      · rcases (Session.effect_eq_some_iff _ _ _ _).mp taken with
          ⟨caller, ticket, after, phase, started, effect, rfl⟩
        cases found.symm.trans started
        rcases Session.firebaseEffect_cases effect with
          ⟨granted, operation, rfl, rfl, rfl⟩ | ⟨_, _, rfl, _⟩ | ⟨_, _, rfl, _⟩ | ⟨_, rfl, _⟩
        · cases here
          -- a granted login has an account already, a granted sign-up gets one
          cases caller with
          | login =>
              rcases admits.2 rfl with ⟨account, member, rfl, _⟩
              exact subset (List.mem_map_of_mem member)
          | register =>
              rcases sound.paged _ ⟨_, List.mem_of_getElem? found⟩ rfl with ⟨pressed, rfl, _⟩
              apply List.mem_map_of_mem (f := Account.uid)
                (a := ⟨user, pressed.email, some pressed, false⟩)
              exact List.mem_append_right _ List.mem_cons_self
          | mappingInit => simp [Caller.operation] at operation
          | homeInit => simp [Caller.operation] at operation
          | logout => simp [Caller.operation] at operation
        · exact before here
        · cases here
        · exact before here
      · exact before elsewhere
  | resumed found taken =>
      rcases firebaseUser_setSession signedIn with ⟨rfl, here⟩ | elsewhere
      · rcases (Session.resume_eq_some_iff _ _ _).mp taken with ⟨_, _, _, _, rfl⟩
        exact before here
      · exact before elsewhere
  | stored found pending => exact before signedIn
  | rejected found pending => exact before signedIn

/-- A complete record stays complete. -/
theorem Moves.complete {registry next : Registry} {action : RegistryAction} {uid : Uid}
    (moves : Moves registry action next) (complete : Complete registry.database uid) :
    Complete next.database uid := by
  rcases moves.database with same | ⟨registration, _, written⟩
  · rw [same]
    exact complete
  · rw [written]
    exact complete.register registration.uid registration.username registration.email

/-- Nothing that happens to a registration shows a dialog for it. -/
theorem Moves.silent {registry next : Registry} {action : RegistryAction}
    (moves : Moves registry action next)
    (silent : ∀ registration ∈ registry.registrations, registration.reported = false) :
    ∀ registration ∈ next.registrations, registration.reported = false := by
  intro registration member
  rcases moves.registration member with
    old | ⟨call, _, issued⟩ | ⟨old, recorded, ⟨rfl, _⟩ | ⟨rfl, _⟩⟩
  · exact silent registration old
  · rcases (mem_registered_iff _ _ _).mp issued with ⟨_, _, _, _, _, _, _, rfl⟩
    rfl
  · exact silent old recorded
  · exact silent old recorded

theorem Sound.step {registry next : Registry} {action : RegistryAction}
    (sound : Sound registry) (accepts : registry.Accepts action)
    (moves : Moves registry action next) : Sound next where
  toLedger := sound.toLedger.step moves
  earlier account member unpressed := by
    rcases moves.accounts with same | ⟨_, _, _, _, _, _, _, appended⟩ | ⟨_, _, _, _, appended⟩
    · rw [same] at member
      exact moves.complete (sound.earlier account member unpressed)
    · rw [appended] at member
      rcases List.mem_append.mp member with old | new
      · exact moves.complete (sound.earlier account old unpressed)
      · cases List.mem_singleton.mp new
        contradiction
    · rw [appended] at member
      rcases List.mem_append.mp member with old | new
      · exact moves.complete (sound.earlier account old unpressed)
      · cases List.mem_singleton.mp new
        contradiction
  answered account member pressed := by
    rcases moves.accounts with same | ⟨_, _, _, _, _, _, _, appended⟩ |
      ⟨_, _, ⟨_, _, lost⟩, _⟩
    · rw [same] at member
      exact sound.answered account member pressed
    · rw [appended] at member
      rcases List.mem_append.mp member with old | new
      · exact sound.answered account old pressed
      · cases List.mem_singleton.mp new
        rfl
    · rw [lost] at accepts
      exact accepts.elim
  stored registration member stored := by
    rcases moves.registration member with
      old | ⟨call, _, issued⟩ | ⟨old, _, ⟨rfl, written⟩ | ⟨rfl, _⟩⟩
    · exact moves.complete (sound.stored registration old stored)
    · rcases (mem_registered_iff _ _ _).mp issued with ⟨_, _, _, _, _, _, _, rfl⟩
      contradiction
    · rw [written]
      exact complete_register _ _ _ _
    · contradiction
  accepted registration member := by
    rcases moves.registration member with
      old | ⟨call, _, issued⟩ | ⟨old, _, ⟨rfl, _⟩ | ⟨rfl, index, rejected⟩⟩
    · exact sound.accepted registration old
    · rcases (mem_registered_iff _ _ _).mp issued with ⟨_, _, _, _, _, _, _, rfl⟩
      simp
    · simp
    · rw [rejected] at accepts
      exact accepts.elim
  silent := moves.silent sound.silent
  known device user signedIn := sound.known_step moves signedIn

theorem sound_launch {accounts : List Account} {database : Database}
    {remembered : Nat → Option Uid}
    (earlier : ∀ account ∈ accounts, account.press = none ∧ Complete database account.uid)
    (known : ∀ device user, remembered device = some user → user ∈ accounts.map Account.uid) :
    Sound (launch accounts database remembered) where
  toLedger := ledger_launch database remembered fun account member => (earlier account member).1
  earlier account member _ := (earlier account member).2
  answered account member pressed := absurd (earlier account member).1 pressed
  stored _ member := absurd member List.not_mem_nil
  accepted _ member := absurd member List.not_mem_nil
  silent _ member := absurd member List.not_mem_nil
  known device user signedIn := known device user signedIn

/-! ## Accounts left behind -/

/-- In every run: what is answered or recorded belongs to an account whose
sign-up has not failed, complete records belong to accounts, and no registration
has shown a dialog. -/
structure Traced (registry : Registry) : Prop extends Ledger registry where
  called : ∀ call user, registry.HasCall call → call.caller = .register →
    call.phase = .resolved (some user) →
      ∃ account ∈ registry.accounts, account.uid = user ∧ account.failed = false
  recorded : ∀ registration ∈ registry.registrations,
    ∃ account ∈ registry.accounts, account.uid = registration.uid ∧ account.failed = false
  owned : ∀ uid, Complete registry.database uid → uid ∈ registry.accounts.map Account.uid
  quiet : ∀ registration ∈ registry.registrations, registration.reported = false

/-- The only sign-up for an account failed after it had created it, and the
account has no complete record. -/
structure LeftBehind (registry : Registry) (uid : Uid) : Prop where
  known : uid ∈ registry.accounts.map Account.uid
  failed : ∀ account ∈ registry.accounts, account.uid = uid → account.failed = true
  missing : ¬ Complete registry.database uid

/-- Some account was left behind. -/
def Flawed (registry : Registry) : Prop :=
  ∃ uid, LeftBehind registry uid

theorem traced_launch {accounts : List Account} {database : Database}
    (remembered : Nat → Option Uid) (earlier : ∀ account ∈ accounts, account.press = none)
    (owned : ∀ uid, Complete database uid → uid ∈ accounts.map Account.uid) :
    Traced (launch accounts database remembered) where
  toLedger := ledger_launch database remembered earlier
  called call user has register := by
    rcases has with ⟨device, member⟩
    cases List.mem_singleton.mp member
    contradiction
  recorded _ member := absurd member List.not_mem_nil
  owned := owned
  quiet _ member := absurd member List.not_mem_nil

theorem Traced.step {registry next : Registry} {action : RegistryAction}
    (traced : Traced registry) (moves : Moves registry action next) : Traced next where
  toLedger := traced.toLedger.step moves
  called call user has register resolved := by
    rcases moves.hasCall has with old | ⟨old, hasOld, sameCaller, sameTicket, progress⟩ |
      ⟨started, _⟩
    · rcases traced.called call user old register resolved with ⟨account, member, same⟩
      exact ⟨account, moves.accounts_subset member, same⟩
    · rcases traced.paged old hasOld (sameCaller.trans register) with ⟨ticket, pressed, _⟩
      have present : call.ticket ≠ none := by simp [← sameTicket, pressed]
      rcases progress register present with finished | ⟨_, _, granted, _, answered, member⟩
      · rw [finished] at resolved
        contradiction
      · cases resolved.symm.trans answered
        exact ⟨_, member, rfl, rfl⟩
    · rw [started] at resolved
      contradiction
  recorded registration member := by
    have earlier : ∀ old ∈ registry.registrations, ∃ account ∈ next.accounts,
        account.uid = old.uid ∧ account.failed = false := by
      intro old oldMember
      rcases traced.recorded old oldMember with ⟨account, known, same⟩
      exact ⟨account, moves.accounts_subset known, same⟩
    rcases moves.registration member with
      old | ⟨call, has, issued⟩ | ⟨old, oldMember, ⟨rfl, _⟩ | ⟨rfl, _⟩⟩
    · exact earlier registration old
    · rcases (mem_registered_iff _ _ _).mp issued with ⟨user, _, _, register, resolved, _, _, rfl⟩
      rcases traced.called call user has register resolved with ⟨account, known, same⟩
      exact ⟨account, moves.accounts_subset known, same⟩
    · exact earlier old oldMember
    · exact earlier old oldMember
  owned uid complete := by
    have subset := List.map_subset Account.uid moves.accounts_subset
    rcases moves.database with same | ⟨registration, member, written⟩
    · rw [same] at complete
      exact subset (traced.owned uid complete)
    · by_cases own : registration.uid = uid
      · rcases traced.recorded registration member with ⟨account, known, same, _⟩
        rw [← own, ← same]
        exact subset (List.mem_map_of_mem known)
      · rw [written] at complete
        apply subset
        apply traced.owned
        intro name field
        rw [← field_register_of_ne _ own]
        exact complete name field
  quiet := moves.silent traced.quiet

/-- An account that was left behind stays so. -/
theorem LeftBehind.step {registry next : Registry} {action : RegistryAction} {uid : Uid}
    (left : LeftBehind registry uid) (traced : Traced registry)
    (moves : Moves registry action next) : LeftBehind next uid where
  known := List.map_subset Account.uid moves.accounts_subset left.known
  failed account member same := by
    have new : ∀ {user : Uid}, user ∉ registry.accounts.map Account.uid → user ≠ uid := by
      rintro user unknown rfl
      exact unknown left.known
    rcases moves.accounts with unchanged | ⟨_, _, _, _, _, _, unknown, appended⟩ |
      ⟨_, _, _, unknown, appended⟩
    · rw [unchanged] at member
      exact left.failed account member same
    · rw [appended] at member
      rcases List.mem_append.mp member with old | last
      · exact left.failed account old same
      · cases List.mem_singleton.mp last
        exact absurd same (new unknown)
    · rw [appended] at member
      rcases List.mem_append.mp member with old | last
      · exact left.failed account old same
      · cases List.mem_singleton.mp last
        rfl
  missing complete := by
    apply left.missing
    rcases moves.database with same | ⟨registration, member, written⟩
    · rw [← same]
      exact complete
    · -- the record that was written belongs to another account
      rcases traced.recorded registration member with ⟨account, known, sameUid, answered⟩
      have other : registration.uid ≠ uid := by
        intro own
        have failed := left.failed account known (sameUid.trans own)
        rw [answered] at failed
        contradiction
      intro name field
      rw [← field_register_of_ne _ other]
      rw [written] at complete
      exact complete name field

theorem LeftBehind.not_allOrNothing {registry : Registry} {uid : Uid}
    (left : LeftBehind registry uid) (idle : registry.Idle) : ¬ AllOrNothing registry := by
  intro allOrNothing
  rcases List.mem_map.mp left.known with ⟨account, member, rfl⟩
  exact left.missing (allOrNothing.complete idle account member)

/-- A refused write breaks the promise at once: nothing reports it. -/
theorem Traced.broken_by_rejection {registry next : Registry} {index : Nat}
    (traced : Traced registry) (taken : Registry.step registry (.rejected index) = some next) :
    ¬ AllOrNothing next := by
  intro allOrNothing
  rcases Option.bind_eq_some_iff.mp taken with ⟨registration, found, settled⟩
  split at settled
  · cases settled
    have inside := (List.getElem?_eq_some_iff.mp found).1
    have reported := allOrNothing.reported _ (List.mem_set inside _) rfl
    have quiet := traced.quiet registration (List.mem_of_getElem? found)
    exact Bool.false_ne_true (quiet.symm.trans reported.1)
  · contradiction

/-- A sign-up that fails after creating its account leaves it behind. -/
theorem Traced.leftBehind {registry next : Registry} {device index : Nat} {user : Uid}
    (traced : Traced registry)
    (taken : Registry.step registry (.effect device index (.createdOnly user)) = some next) :
    LeftBehind next user := by
  rcases Option.bind_eq_some_iff.mp taken with ⟨call, found, acted⟩
  split at acted
  · rename_i unknown
    rcases Option.map_eq_some_iff.mp acted with ⟨session, effect, rfl⟩
    have missing : ¬ Complete registry.database user := fun complete =>
      unknown (traced.owned user complete)
    rcases (Session.effect_eq_some_iff _ _ _ _).mp effect with
      ⟨caller, ticket, after, phase, started, moved, rfl⟩
    cases found.symm.trans started
    have register : caller = .register := by
      cases caller <;> first | rfl | simp [Caller.operation, firebaseEffect] at moved
    rcases traced.paged _ ⟨device, List.mem_of_getElem? found⟩ register with ⟨pressed, rfl, _⟩
    subst register
    refine ⟨?_, ?_, missing⟩
    · simp [setSession, created]
    · intro account member sameUid
      rcases List.mem_append.mp member with old | last
      · exact absurd (List.mem_map.mpr ⟨account, old, sameUid⟩) unknown
      · cases List.mem_singleton.mp last
        rfl
  · contradiction

/-- **When registration is all-or-nothing.**  The accounts that exist at launch
have complete records and the remembered users have accounts.  Then the promise
holds in every state of every run in which no write of a registration is refused
and no sign-up fails after it has created its account; and these are all runs
that keep it and end with no registration in progress, if complete records
belong to accounts at launch. -/
theorem allOrNothing_of_accepts (accounts : List Account) (database : Database)
    (remembered : Nat → Option Uid)
    (earlier : ∀ account ∈ accounts, account.press = none ∧ Complete database account.uid)
    (known : ∀ device user, remembered device = some user → user ∈ accounts.map Account.uid)
    (actions : List RegistryAction) :
    (Guarded step Accepts (launch accounts database remembered) actions →
      Always step AllOrNothing (launch accounts database remembered) actions) ∧
    ∀ final, run step (launch accounts database remembered) actions = some final → final.Idle →
      (∀ uid, Complete database uid → uid ∈ accounts.map Account.uid) →
      Always step AllOrNothing (launch accounts database remembered) actions →
        Guarded step Accepts (launch accounts database remembered) actions := by
  constructor
  · intro accepts
    apply always_of_guarded (fun _ sound => sound.allOrNothing) _ (sound_launch earlier known)
      accepts
    intro registry action next sound accepted taken
    exact sound.step accepted (moves_of_step taken)
  · intro final executed idle owned always
    have pressless : ∀ account ∈ accounts, account.press = none :=
      fun account member => (earlier account member).1
    have shows : Flawed final → ¬ AllOrNothing final := by
      rintro ⟨uid, left⟩
      exact left.not_allOrNothing idle
    apply guarded_of_always _ _ _ shows (traced_launch remembered pressless owned) executed always
    · intro registry action next traced taken
      exact traced.step (moves_of_step taken)
    · intro registry action next traced unaccepted taken
      unfold Accepts at unaccepted
      split at unaccepted
      · exact .inl (traced.broken_by_rejection taken)
      · exact .inr ⟨_, traced.leftBehind taken⟩
      · exact absurd trivial unaccepted
    · rintro registry action next traced ⟨uid, left⟩ taken
      exact ⟨uid, left.step traced (moves_of_step taken)⟩

/-! ## Runs at fixed inputs -/

/-- Opening the register form of a fresh login page and submitting it, up to
the continuation of the sign-up. -/
def registering (user : Uid) : List RegistryAction :=
  [.opened 0, .moveToRegister 0, .enter 0 .email "a@x", .enter 0 .username "a",
    .enter 0 .password "secret", .submit 0, .effect 0 1 (.granted user), .resume 0 1]

theorem allOrNothing_registering :
    Always step AllOrNothing (launch [] .empty fun _ => none)
      (registering firstUid ++ [.stored 0]) := by
  apply (allOrNothing_of_accepts [] .empty (fun _ => none) (by simp) (by simp) _).1
  exact .cons rfl trivial (.cons rfl trivial (.cons rfl trivial (.cons rfl trivial
    (.cons rfl trivial (.cons rfl trivial (.cons rfl trivial (.cons rfl trivial
      (.cons rfl trivial trivial))))))))

/-- The write is refused: the new user is on the home page without a record,
nobody has been told, and the profile page fails. -/
theorem incomplete_after_rejection :
    ∃ final, run step (launch [] .empty fun _ => none)
        (registering firstUid ++ [.rejected 0]) = some final ∧
      final.Idle ∧
      (final.sessions 0).firebaseUser = some firstUid ∧
      getProfileInfo final.database (some firstUid.val) = none ∧
      (∃ registration ∈ final.registrations, registration.status = .rejected ∧
        registration.proceeded = true ∧ registration.reported = false) ∧
      ¬ AllOrNothing final := by
  refine ⟨_, rfl, ⟨?_, ?_⟩, rfl, rfl, ⟨_, List.mem_cons_self, rfl, rfl, rfl⟩, ?_⟩
  · rintro call ⟨device, member⟩ register
    cases device with
    | zero =>
        change call ∈ [⟨.mappingInit, none, .started⟩, _] at member
        simp only [List.mem_cons, List.not_mem_nil, or_false] at member
        rcases member with rfl | rfl
        · contradiction
        · rfl
    | succ device =>
        change call ∈ [⟨.mappingInit, none, .started⟩] at member
        cases List.mem_singleton.mp member
        contradiction
  · intro registration member
    cases List.mem_singleton.mp member
    exact nofun
  · intro allOrNothing
    exact Bool.false_ne_true (allOrNothing.reported _ List.mem_cons_self rfl).1

end Registry

end DyeIsLife.Pages
