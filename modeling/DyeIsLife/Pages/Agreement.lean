import DyeIsLife.Pages.Ledger

/-!
# When a registration record agrees with its account

`signUp` is called with the e-mail saved at a press, but the record is built
after the await from the fields `_email` and `_username` of the page.  A second
press made in between saves the form again, so the record of the first account
may carry the e-mail and the username of the second press.

Records do agree with their accounts along every run in which no press changes
the saved e-mail or username of a page that has a sign-up in flight.
-/

namespace DyeIsLife.Pages

open DyeIsLife.Auth
open DyeIsLife.Firebase
open DyeIsLife.Records
open DyeIsLife.Transition

namespace Registry

/-- Every record written for an account that a press created, on its way or
stored, has the e-mail of the account and the username of the press; and the
record is stored once the registration is no longer underway, unless the
sign-up failed, so that no record is written. -/
structure RecordsAgree (registry : Registry) : Prop where
  written : ∀ account ∈ registry.accounts, ∀ ticket, account.press = some ticket →
    ∀ registration ∈ registry.registrations, registration.uid = account.uid →
      registration.email = account.email ∧ registration.username = ticket.username
  stored : ∀ account ∈ registry.accounts, ∀ ticket, account.press = some ticket →
    account.failed = false → registry.Underway account.uid ∨
      (field registry.database account.uid "email" = some account.email ∧
        field registry.database account.uid "username" = some ticket.username)

/-- The step is not a press that saves, on a page with a sign-up in flight,
another e-mail or username than those of the sign-up. -/
def KeepsFields (registry : Registry) : RegistryAction → Prop
  | .submit index =>
      ∀ page saved, registry.pages[index]? = some page → page.validateAndSave = some saved →
        ∀ call ticket, registry.HasCall call → call.caller = .register →
          call.phase ≠ .finished → call.ticket = some ticket → ticket.page = index →
            ticket.email = saved.email ∧ ticket.username = saved.username
  | _ => True

/-! ## The invariant of runs that keep the fields -/

structure Agreeing (registry : Registry) : Prop extends Ledger registry where
  distinct : (registry.accounts.map Account.uid).Nodup
  accepted : ∀ registration ∈ registry.registrations, registration.status ≠ .rejected
  /-- a sign-up in flight will find its own fields on its page -/
  reads : ∀ call ticket, registry.HasCall call → call.caller = .register →
    call.phase ≠ .finished → call.ticket = some ticket →
      ∃ page, registry.pages[ticket.page]? = some page ∧ page.email = ticket.email ∧
        page.username = ticket.username
  founded : ∀ call ticket user, registry.HasCall call → call.caller = .register →
    call.ticket = some ticket → call.phase = .resolved (some user) →
      ⟨user, ticket.email, some ticket, false⟩ ∈ registry.accounts
  agreed : ∀ registration ∈ registry.registrations, ∃ ticket,
    ⟨registration.uid, ticket.email, some ticket, false⟩ ∈ registry.accounts ∧
      registration.email = ticket.email ∧ registration.username = ticket.username
  kept : ∀ registration ∈ registry.registrations, registration.status = .stored →
    field registry.database registration.uid "email" = some registration.email ∧
      field registry.database registration.uid "username" = some registration.username

/-- There is one account for each uid. -/
theorem Agreeing.account_eq {registry : Registry} (agreeing : Agreeing registry)
    {first second : Account} (firstMember : first ∈ registry.accounts)
    (secondMember : second ∈ registry.accounts) (same : first.uid = second.uid) :
    first = second :=
  List.inj_on_of_nodup_map agreeing.distinct firstMember secondMember same

theorem Agreeing.recordsAgree {registry : Registry} (agreeing : Agreeing registry) :
    RecordsAgree registry := by
  have written : ∀ account ∈ registry.accounts, ∀ ticket, account.press = some ticket →
      ∀ registration ∈ registry.registrations, registration.uid = account.uid →
        registration.email = account.email ∧ registration.username = ticket.username := by
    intro account member ticket pressed registration recorded same
    rcases agreeing.agreed registration recorded with ⟨own, ownMember, email, username⟩
    cases agreeing.account_eq ownMember member same
    cases pressed
    exact ⟨email, username⟩
  constructor
  · exact written
  · intro account member ticket pressed answered
    have created : account.press ≠ none := by simp [pressed]
    rcases agreeing.followed account member created answered with
      underway | ⟨registration, recorded, same, settled⟩
    · exact .inl underway
    · have stored : registration.status = .stored := by
        cases status : registration.status with
        | pending => exact absurd status settled
        | stored => rfl
        | rejected => exact absurd status (agreeing.accepted registration recorded)
      rcases agreeing.kept registration recorded stored with ⟨email, username⟩
      rcases written account member ticket pressed registration recorded same with
        ⟨sameEmail, sameUsername⟩
      rw [same, sameEmail] at email
      rw [same, sameUsername] at username
      exact .inr ⟨email, username⟩

theorem agreeing_launch {accounts : List Account} (database : Database)
    (remembered : Nat → Option Uid) (earlier : ∀ account ∈ accounts, account.press = none)
    (distinct : (accounts.map Account.uid).Nodup) :
    Agreeing (launch accounts database remembered) where
  toLedger := ledger_launch database remembered earlier
  distinct := distinct
  accepted _ member := absurd member List.not_mem_nil
  reads call _ has register := by
    rcases has with ⟨device, member⟩
    cases List.mem_singleton.mp member
    contradiction
  founded call _ _ has register := by
    rcases has with ⟨device, member⟩
    cases List.mem_singleton.mp member
    contradiction
  agreed _ member := absurd member List.not_mem_nil
  kept _ member := absurd member List.not_mem_nil

/-- The saved fields of a page change at an accepted press only. -/
theorem Moves.page {registry next : Registry} {action : RegistryAction} {index : Nat}
    {page : LoginRegisterPage} (moves : Moves registry action next)
    (found : registry.pages[index]? = some page) :
    ∃ page', next.pages[index]? = some page' ∧
      (page'.email = page.email ∧ page'.username = page.username ∨
        action = .submit index ∧ page.validateAndSave = some page') := by
  cases moves with
  | onPages kept =>
      rcases kept index page found with ⟨page', found', same⟩
      exact ⟨page', found', .inl same⟩
  | @submitted pressed page' saved foundPressed valid =>
      by_cases same : index = pressed
      · subst pressed
        have inside := (List.getElem?_eq_some_iff.mp found).1
        cases found.symm.trans foundPressed
        exact ⟨saved, List.getElem?_set_self inside, .inr ⟨rfl, valid⟩⟩
      · exact ⟨page, (List.getElem?_set_ne (Ne.symm same)).trans found, .inl ⟨rfl, rfl⟩⟩
  | called other => exact ⟨page, found, .inl ⟨rfl, rfl⟩⟩
  | acted foundCall admits taken => exact ⟨page, found, .inl ⟨rfl, rfl⟩⟩
  | resumed foundCall taken => exact ⟨page, found, .inl ⟨rfl, rfl⟩⟩
  | stored foundRegistration pending => exact ⟨page, found, .inl ⟨rfl, rfl⟩⟩
  | rejected foundRegistration pending => exact ⟨page, found, .inl ⟨rfl, rfl⟩⟩

theorem Agreeing.reads_step {registry next : Registry} {action : RegistryAction}
    (agreeing : Agreeing registry) (keeps : registry.KeepsFields action)
    (moves : Moves registry action next) {call : Call (Option Ticket)} {ticket : Ticket}
    (has : next.HasCall call) (register : call.caller = .register)
    (inFlight : call.phase ≠ .finished) (pressed : call.ticket = some ticket) :
    ∃ page, next.pages[ticket.page]? = some page ∧ page.email = ticket.email ∧
      page.username = ticket.username := by
  have earlier : ∀ old, registry.HasCall old → old.caller = .register →
      old.phase ≠ .finished → old.ticket = some ticket →
        ∃ page, next.pages[ticket.page]? = some page ∧ page.email = ticket.email ∧
          page.username = ticket.username := by
    intro old hasOld registerOld inFlightOld pressedOld
    rcases agreeing.reads old ticket hasOld registerOld inFlightOld pressedOld with
      ⟨page, found, email, username⟩
    rcases moves.page found with ⟨page', found', ⟨sameEmail, sameUsername⟩ | ⟨rfl, valid⟩⟩
    · exact ⟨page', found', sameEmail.trans email, sameUsername.trans username⟩
    · rcases keeps page page' found valid old ticket hasOld registerOld inFlightOld pressedOld
        rfl with ⟨savedEmail, savedUsername⟩
      exact ⟨page', found', savedEmail.symm, savedUsername.symm⟩
  rcases moves.hasCall has with
    old | ⟨old, hasOld, sameCaller, sameTicket, progress⟩ | ⟨_, new⟩
  · exact earlier call old register inFlight pressed
  · have present : call.ticket ≠ none := by simp [pressed]
    rcases progress register present with finished | ⟨started, _⟩
    · exact absurd finished inFlight
    · have inFlightOld : old.phase ≠ .finished := by simp [started]
      exact earlier old hasOld (sameCaller.trans register) inFlightOld
        (sameTicket.trans pressed)
  · rcases new register with ⟨index, saved, _, found, pressedNow⟩
    cases pressed.symm.trans pressedNow
    exact ⟨saved, found, rfl, rfl⟩

theorem Agreeing.founded_step {registry next : Registry} {action : RegistryAction}
    (agreeing : Agreeing registry) (moves : Moves registry action next)
    {call : Call (Option Ticket)} {ticket : Ticket} {user : Uid} (has : next.HasCall call)
    (register : call.caller = .register) (pressed : call.ticket = some ticket)
    (resolved : call.phase = .resolved (some user)) :
    ⟨user, ticket.email, some ticket, false⟩ ∈ next.accounts := by
  rcases moves.hasCall has with old | ⟨_, _, _, _, progress⟩ | ⟨started, _⟩
  · exact moves.accounts_subset (agreeing.founded call ticket user old register pressed resolved)
  · have present : call.ticket ≠ none := by simp [pressed]
    rcases progress register present with
      finished | ⟨_, pressedThen, granted, sameTicket, answered, member⟩
    · rw [finished] at resolved
      contradiction
    · cases pressed.symm.trans sameTicket
      cases resolved.symm.trans answered
      exact member
  · rw [started] at resolved
    contradiction

theorem Agreeing.agreed_step {registry next : Registry} {action : RegistryAction}
    (agreeing : Agreeing registry) (moves : Moves registry action next)
    {registration : Registration} (member : registration ∈ next.registrations) :
    ∃ ticket, ⟨registration.uid, ticket.email, some ticket, false⟩ ∈ next.accounts ∧
      registration.email = ticket.email ∧ registration.username = ticket.username := by
  have earlier : ∀ old ∈ registry.registrations, ∃ ticket,
      ⟨old.uid, ticket.email, some ticket, false⟩ ∈ next.accounts ∧ old.email = ticket.email ∧
        old.username = ticket.username := by
    intro old oldMember
    rcases agreeing.agreed old oldMember with ⟨ticket, account, same⟩
    exact ⟨ticket, moves.accounts_subset account, same⟩
  rcases moves.registration member with
    old | ⟨call, has, issued⟩ | ⟨old, recorded, ⟨rfl, _⟩ | ⟨rfl, _⟩⟩
  · exact earlier registration old
  · -- the continuation has read the fields of the page, which are those of its press
    rcases (mem_registered_iff _ _ _).mp issued with
      ⟨user, ticket, page, register, resolved, pressed, found, rfl⟩
    have inFlight : call.phase ≠ .finished := by simp [resolved]
    rcases agreeing.reads call ticket has register inFlight pressed with
      ⟨page', found', email, username⟩
    cases found.symm.trans found'
    have account := agreeing.founded call ticket user has register pressed resolved
    exact ⟨ticket, moves.accounts_subset account, email, username⟩
  · exact earlier old recorded
  · exact earlier old recorded

theorem Agreeing.kept_step {registry next : Registry} {action : RegistryAction}
    (agreeing : Agreeing registry) (moves : Moves registry action next)
    {registration : Registration} (member : registration ∈ next.registrations)
    (stored : registration.status = .stored) :
    field next.database registration.uid "email" = some registration.email ∧
      field next.database registration.uid "username" = some registration.username := by
  rcases moves.registration member with
    old | ⟨call, _, issued⟩ | ⟨old, recorded, ⟨rfl, written⟩ | ⟨rfl, _⟩⟩
  · rcases moves.database with same | ⟨other, recorded, written⟩
    · rw [same]
      exact agreeing.kept registration old stored
    · rw [written]
      by_cases sameUid : other.uid = registration.uid
      · -- two registrations of one uid belong to one account and write the same
        rcases agreeing.agreed registration old with ⟨ticket, account, email, username⟩
        rcases agreeing.agreed other recorded with
          ⟨ticket', account', otherEmail, otherUsername⟩
        have sameAccount := agreeing.account_eq account account' sameUid.symm
        cases Option.some.inj (congrArg Account.press sameAccount)
        rw [← sameUid, field_register, field_register, email, username, ← otherEmail,
          ← otherUsername]
        exact ⟨rfl, rfl⟩
      · rw [field_register_of_ne _ sameUid, field_register_of_ne _ sameUid]
        exact agreeing.kept registration old stored
  · rcases (mem_registered_iff _ _ _).mp issued with ⟨_, _, _, _, _, _, _, rfl⟩
    contradiction
  · rw [written, field_register, field_register]
    exact ⟨rfl, rfl⟩
  · contradiction

theorem Agreeing.step {registry next : Registry} {action : RegistryAction}
    (agreeing : Agreeing registry) (keeps : registry.KeepsFields action)
    (succeeds : ∀ index, action ≠ .rejected index) (moves : Moves registry action next) :
    Agreeing next where
  toLedger := agreeing.toLedger.step moves
  distinct := by
    have joined : ∀ {user : Uid}, user ∉ registry.accounts.map Account.uid →
        (registry.accounts.map Account.uid ++ [user]).Nodup := by
      intro user unknown
      rw [List.nodup_append]
      refine ⟨agreeing.distinct, List.nodup_singleton _, ?_⟩
      intro first firstMember second secondMember same
      rw [same, List.mem_singleton.mp secondMember] at firstMember
      exact unknown firstMember
    rcases moves.accounts with same | ⟨_, _, _, _, _, _, unknown, appended⟩ |
      ⟨_, _, _, unknown, appended⟩
    · rw [same]
      exact agreeing.distinct
    · rw [appended, List.map_append]
      exact joined unknown
    · rw [appended, List.map_append]
      exact joined unknown
  accepted registration member := by
    rcases moves.registration member with
      old | ⟨_, _, issued⟩ | ⟨old, _, ⟨rfl, _⟩ | ⟨_, index, rejected⟩⟩
    · exact agreeing.accepted registration old
    · rcases (mem_registered_iff _ _ _).mp issued with ⟨_, _, _, _, _, _, _, rfl⟩
      simp
    · simp
    · exact absurd rejected (succeeds index)
  reads _ _ has register inFlight pressed :=
    agreeing.reads_step keeps moves has register inFlight pressed
  founded _ _ _ has register pressed resolved :=
    agreeing.founded_step moves has register pressed resolved
  agreed _ member := agreeing.agreed_step moves member
  kept _ member stored := agreeing.kept_step moves member stored

/-- **Records agree with their accounts while presses keep the fields.**  In
every run on any number of devices and pages in which every write is performed
and no press changes the saved e-mail or username of a page that has a sign-up
in flight, the record of every account created by a press has the e-mail of the
account and the username of the press. -/
theorem recordsAgree_of_keepsFields (accounts : List Account) (database : Database)
    (remembered : Nat → Option Uid) (actions : List RegistryAction) (final : Registry)
    (earlier : ∀ account ∈ accounts, account.press = none)
    (distinct : (accounts.map Account.uid).Nodup)
    (succeed : ∀ action ∈ actions, ∀ index, action ≠ .rejected index)
    (keep : Guarded step KeepsFields (launch accounts database remembered) actions)
    (executed : run step (launch accounts database remembered) actions = some final) :
    RecordsAgree final := by
  apply Agreeing.recordsAgree
  apply invariant_of_guarded _ (agreeing_launch database remembered earlier distinct)
    (keep.and_of_mem succeed) executed
  rintro registry action next agreeing ⟨keeps, succeeds⟩ taken
  exact agreeing.step keeps succeeds (moves_of_step taken)

/-! ## Runs at fixed inputs -/

/-- A login page on which the register form has been filled in. -/
def filledIn : List RegistryAction :=
  [.opened 0, .moveToRegister 0, .enter 0 .email "a@x", .enter 0 .username "a",
    .enter 0 .password "secret"]

/-- The form is submitted twice before the first sign-up is answered; the second
one fails, since the e-mail is taken by then. -/
def pressedTwice : List RegistryAction :=
  filledIn ++ [.submit 0, .submit 0, .effect 0 1 (.granted firstUid), .effect 0 2 .failed,
    .resume 0 1, .stored 0]

theorem recordsAgree_pressedTwice :
    ∃ final, run step (launch [] .empty fun _ => none) pressedTwice = some final ∧
      field final.database firstUid "email" = some "a@x" ∧
      field final.database firstUid "username" = some "a" ∧
      RecordsAgree final := by
  refine ⟨_, rfl, rfl, rfl, recordsAgree_of_keepsFields [] .empty (fun _ => none) pressedTwice
    _ (by simp) List.nodup_nil (by simp [pressedTwice, filledIn]) ?_ rfl⟩
  refine .cons rfl trivial (.cons rfl trivial (.cons rfl trivial (.cons rfl trivial
    (.cons rfl trivial (.cons rfl ?_ (.cons rfl ?_ (.cons rfl trivial (.cons rfl trivial
      (.cons rfl trivial (.cons rfl trivial trivial))))))))))
  · rintro page saved found valid call ticket ⟨device, member⟩ register
    cases List.mem_singleton.mp member
    contradiction
  · rintro page saved found valid call ticket ⟨device, member⟩ register _ pressed _
    cases found
    cases valid
    cases device with
    | zero =>
        change call ∈ [⟨.mappingInit, none, .started⟩, _] at member
        simp only [List.mem_cons, List.not_mem_nil, or_false] at member
        rcases member with rfl | rfl
        · contradiction
        · cases pressed
          exact ⟨rfl, rfl⟩
    | succ device =>
        change call ∈ [⟨.mappingInit, none, .started⟩] at member
        cases List.mem_singleton.mp member
        contradiction

/-- The form is changed and submitted again before the first sign-up is
answered; then the first sign-up goes through. -/
def overlappingRegistrations : List RegistryAction :=
  filledIn ++ [.submit 0, .enter 0 .email "b@x", .enter 0 .username "b", .submit 0,
    .effect 0 1 (.granted firstUid), .resume 0 1, .stored 0]

/-- The account is created for the first e-mail and its record holds the
second. -/
theorem recordsDisagree_overlapping :
    ∃ final, run step (launch [] .empty fun _ => none) overlappingRegistrations = some final ∧
      final.accounts = [⟨firstUid, "a@x", some ⟨0, "a@x", "secret", "a"⟩, false⟩] ∧
      field final.database firstUid "email" = some "b@x" ∧
      field final.database firstUid "username" = some "b" ∧
      ¬ RecordsAgree final := by
  refine ⟨_, rfl, rfl, rfl, rfl, fun agree => ?_⟩
  have email := (agree.written _ List.mem_cons_self _ rfl _ List.mem_cons_self rfl).1
  exact absurd email (by decide)

end Registry

end DyeIsLife.Pages
