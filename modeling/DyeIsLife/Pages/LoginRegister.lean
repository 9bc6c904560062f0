import DyeIsLife.Pages.Upload
import DyeIsLife.Records.UserInfo
import Mathlib.Logic.Function.Basic

/-!
# Logging in and registering

`validateAndSubmit` of `LoginRegisterPage` saves the form, calls `signIn` or
`signUp` with the saved fields, and after the await pushes `HomePage`.  The
register branch first writes the profile record, re-reading the saved fields,
and does not await that write.

The state covers any number of devices and of login pages on them, the accounts
of the project, the registrations that have reached their write, and the
database.  Other pages of the devices appear only through the calls they start.
A call of `validateAndSubmit` carries a ticket with what was saved at its press;
of the ticket the code itself only uses the e-mail and password it passes on.
-/

namespace DyeIsLife.Pages

open DyeIsLife.Auth
open DyeIsLife.Firebase
open DyeIsLife.Records
open DyeIsLife.Transition

/-! ## The page -/

inductive FormType where
  | login
  | register
  deriving DecidableEq

/-- The fields of `_LoginRegisterState`, the texts its form shows, the device it
is on and whether it is mounted. -/
structure LoginRegisterPage where
  device : Nat
  mounted : Bool
  formType : FormType
  email : String
  password : String
  username : String
  emailText : String
  usernameText : String
  passwordText : String
  deriving DecidableEq

/-- The text fields of `createInputs`. -/
inductive InputField where
  | email
  | username
  | password
  deriving DecidableEq

namespace LoginRegisterPage

/-- The page when it is created. -/
def initial (device : Nat) : LoginRegisterPage where
  device
  mounted := true
  formType := .login
  email := ""
  password := ""
  username := ""
  emailText := ""
  usernameText := ""
  passwordText := ""

/-- Typing into a field. -/
def enter (page : LoginRegisterPage) : InputField → String → LoginRegisterPage
  | .email, text => { page with emailText := text }
  | .username, text => { page with usernameText := text }
  | .password, text => { page with passwordText := text }

/-- `validateAndSave`: the fields after `form.save()`, or nothing when
validation fails.  All three fields are required in both modes. -/
def validateAndSave (page : LoginRegisterPage) : Option LoginRegisterPage :=
  if validate [required "Email is required" page.emailText,
      required "Username is required" page.usernameText,
      required "Password is required" page.passwordText] then
    some { page with
      email := page.emailText
      username := page.usernameText
      password := page.passwordText }
  else
    none

/-- `formKey.currentState.reset()`. -/
def reset (page : LoginRegisterPage) : LoginRegisterPage :=
  { page with emailText := "", usernameText := "", passwordText := "" }

/-- `moveToRegister`. -/
def moveToRegister (page : LoginRegisterPage) : LoginRegisterPage :=
  { page.reset with formType := .register }

/-- `moveToLogin`. -/
def moveToLogin (page : LoginRegisterPage) : LoginRegisterPage :=
  { page.reset with formType := .login }

end LoginRegisterPage

/-! ## Accounts and registrations -/

/-- What was saved at an accepted press of the submit button. -/
structure Ticket where
  page : Nat
  email : String
  password : String
  username : String
  deriving DecidableEq

/-- An account of the project.  `press` is the press that created it, if it was
created during the run. -/
structure Account where
  uid : Uid
  email : String
  press : Option Ticket
  /-- the sign-up that created the account failed after that -/
  failed : Bool

/-- Where the write of a registration stands. -/
inductive WriteStatus where
  | pending
  | stored
  | rejected
  deriving DecidableEq

/-- A registration that has issued its write: the data of the write, how the
write went, and what the handler did afterwards. -/
structure Registration where
  uid : Uid
  username : String
  email : String
  status : WriteStatus
  /-- `HomePage` was pushed -/
  proceeded : Bool
  /-- the error dialog was shown -/
  reported : Bool

/-- The devices, the accounts, and the database. -/
structure Registry where
  accounts : List Account
  sessions : Nat → Session (Option Ticket)
  pages : List LoginRegisterPage
  registrations : List Registration
  database : Database

inductive RegistryAction where
  /-- a login page is created on a device -/
  | opened (device : Nat)
  /-- a login page is disposed of -/
  | closed (page : Nat)
  | enter (page : Nat) (input : InputField) (text : String)
  | moveToRegister (page : Nat)
  | moveToLogin (page : Nat)
  /-- the submit button -/
  | submit (page : Nat)
  /-- another page of the device starts a call -/
  | call (device : Nat) (caller : Caller)
  | effect (device call : Nat) (outcome : Outcome)
  | resume (device call : Nat)
  /-- the database performs the write of a registration -/
  | stored (registration : Nat)
  /-- the database refuses the write of a registration -/
  | rejected (registration : Nat)

/-- The operation that the submit button starts. -/
def FormType.caller : FormType → Caller
  | .login => .login
  | .register => .register

namespace Registry

/-- Change one login page that is mounted. -/
def changePage (registry : Registry) (index : Nat)
    (change : LoginRegisterPage → LoginRegisterPage) : Option Registry :=
  registry.pages[index]?.bind fun page =>
    if page.mounted then
      some { registry with pages := registry.pages.set index (change page) }
    else
      none

/-- Replace the session of one device. -/
def setSession (registry : Registry) (device : Nat) (session : Session (Option Ticket)) :
    Registry :=
  { registry with sessions := Function.update registry.sessions device session }

/-- `validateAndSubmit` up to its await. -/
def validateAndSubmit (registry : Registry) (index : Nat) : Option Registry :=
  registry.pages[index]?.bind fun page =>
    if page.mounted then
      match page.validateAndSave with
      | none => some registry
      | some saved =>
          let ticket : Ticket := ⟨index, saved.email, saved.password, saved.username⟩
          some ({ registry with pages := registry.pages.set index saved }.setSession page.device
            ((registry.sessions page.device).start saved.formType.caller (some ticket)))
    else
      none

/-- Firebase creates accounts under new uids only and signs in to existing
accounts only. -/
def Admits (accounts : List Account) (call : Call (Option Ticket)) : Outcome → Prop
  | .granted user =>
      (call.caller = .register → user ∉ accounts.map Account.uid) ∧
        (call.caller = .login → ∃ account ∈ accounts, account.uid = user ∧
          call.ticket.map Ticket.email = some account.email)
  | .createdOnly user => user ∉ accounts.map Account.uid
  | _ => True

instance (accounts : List Account) (call : Call (Option Ticket)) :
    (outcome : Outcome) → Decidable (Admits accounts call outcome)
  | .granted user => inferInstanceAs (Decidable ((_ → user ∉ _) ∧ (_ → ∃ _ ∈ accounts, _)))
  | .done => isTrue trivial
  | .failed => isTrue trivial
  | .createdOnly user => inferInstanceAs (Decidable (user ∉ accounts.map Account.uid))

/-- The account that a sign-up creates, whether or not its call succeeds. -/
def created (call : Call (Option Ticket)) (outcome : Outcome) : List Account :=
  match call.caller, call.ticket, outcome with
  | .register, some ticket, .granted user => [⟨user, ticket.email, some ticket, false⟩]
  | .register, some ticket, .createdOnly user => [⟨user, ticket.email, some ticket, true⟩]
  | _, _, _ => []

/-- Firebase acts on a call. -/
def effect (registry : Registry) (device index : Nat) (outcome : Outcome) : Option Registry :=
  (registry.sessions device).calls[index]?.bind fun call =>
    if Admits registry.accounts call outcome then
      ((registry.sessions device).effect index outcome).map fun session =>
        { registry with accounts := registry.accounts ++ created call outcome }.setSession
          device session
    else
      none

/-- The register branch after its await: the write is issued with the fields as
they are now, then `HomePage` is pushed.  On a page that has been disposed of
the push throws, and so does the error dialog. -/
def registered (registry : Registry) (call : Call (Option Ticket)) : List Registration :=
  match call.caller, call.phase, call.ticket with
  | .register, .resolved (some user), some ticket =>
      match registry.pages[ticket.page]? with
      | some page => [{
          uid := user
          username := page.username
          email := page.email
          status := .pending
          proceeded := page.mounted
          reported := false }]
      | none => []
  | _, _, _ => []

/-- The code after an await, of `AuthImplementation` and of its caller. -/
def resume (registry : Registry) (device index : Nat) : Option Registry :=
  (registry.sessions device).calls[index]?.bind fun call =>
    ((registry.sessions device).resume index).map fun session =>
      { registry with
        registrations := registry.registrations ++ registry.registered call }.setSession
          device session

/-- The outcome of the write of a registration. -/
def settle (registry : Registry) (index : Nat) (status : WriteStatus) : Option Registry :=
  registry.registrations[index]?.bind fun registration =>
    if registration.status = .pending then
      some { registry with
        registrations := registry.registrations.set index { registration with status }
        database :=
          if status = .stored then
            (Write.register registration.uid registration.username registration.email).apply
              registry.database
          else registry.database }
    else
      none

/-- One step of the registry. -/
def step : Step Registry RegistryAction
  | registry, .opened device =>
      some { registry with pages := registry.pages ++ [LoginRegisterPage.initial device] }
  | registry, .closed index =>
      registry.changePage index fun page => { page with mounted := false }
  | registry, .enter index input text =>
      registry.changePage index fun page => page.enter input text
  | registry, .moveToRegister index =>
      registry.changePage index LoginRegisterPage.moveToRegister
  | registry, .moveToLogin index =>
      registry.changePage index LoginRegisterPage.moveToLogin
  | registry, .submit index => registry.validateAndSubmit index
  | registry, .call device caller =>
      if caller = .login ∨ caller = .register then none
      else some (registry.setSession device ((registry.sessions device).start caller none))
  | registry, .effect device index outcome => registry.effect device index outcome
  | registry, .resume device index => registry.resume device index
  | registry, .stored index => registry.settle index .stored
  | registry, .rejected index => registry.settle index .rejected

/-- The freshly launched devices, over the accounts and the database as they
stand. -/
def launch (accounts : List Account) (database : Database) (remembered : Nat → Option Uid) :
    Registry where
  accounts
  sessions device := Session.launch (remembered device) none
  pages := []
  registrations := []
  database

/-! ## What one step can do -/

/-- Every page is still there with the same saved e-mail and username. -/
def SavedFieldsKept (old new : List LoginRegisterPage) : Prop :=
  ∀ (index : Nat) (page : LoginRegisterPage), old[index]? = some page →
    ∃ page', new[index]? = some page' ∧ page'.email = page.email ∧
      page'.username = page.username

/-- The steps of the registry, one constructor for each kind. -/
inductive Moves (registry : Registry) : RegistryAction → Registry → Prop
  | onPages {action : RegistryAction} {pages : List LoginRegisterPage}
      (kept : SavedFieldsKept registry.pages pages) :
      Moves registry action { registry with pages }
  | submitted {index : Nat} {page saved : LoginRegisterPage}
      (found : registry.pages[index]? = some page)
      (valid : page.validateAndSave = some saved) :
      Moves registry (.submit index)
        ({ registry with pages := registry.pages.set index saved }.setSession page.device
          ((registry.sessions page.device).start saved.formType.caller
            (some ⟨index, saved.email, saved.password, saved.username⟩)))
  | called {device : Nat} {caller : Caller} (other : caller ≠ .register) :
      Moves registry (.call device caller)
        (registry.setSession device ((registry.sessions device).start caller none))
  | acted {device index : Nat} {outcome : Outcome} {call : Call (Option Ticket)}
      {session : Session (Option Ticket)}
      (found : (registry.sessions device).calls[index]? = some call)
      (admits : Admits registry.accounts call outcome)
      (taken : (registry.sessions device).effect index outcome = some session) :
      Moves registry (.effect device index outcome)
        ({ registry with accounts := registry.accounts ++ created call outcome }.setSession
          device session)
  | resumed {device index : Nat} {call : Call (Option Ticket)}
      {session : Session (Option Ticket)}
      (found : (registry.sessions device).calls[index]? = some call)
      (taken : (registry.sessions device).resume index = some session) :
      Moves registry (.resume device index)
        ({ registry with
          registrations := registry.registrations ++ registry.registered call }.setSession
            device session)
  | stored {index : Nat} {registration : Registration}
      (found : registry.registrations[index]? = some registration)
      (pending : registration.status = .pending) :
      Moves registry (.stored index)
        { registry with
          registrations := registry.registrations.set index
            { registration with status := .stored }
          database := (Write.register registration.uid registration.username
            registration.email).apply registry.database }
  | rejected {index : Nat} {registration : Registration}
      (found : registry.registrations[index]? = some registration)
      (pending : registration.status = .pending) :
      Moves registry (.rejected index)
        { registry with
          registrations := registry.registrations.set index
            { registration with status := .rejected } }

theorem savedFieldsKept_refl (pages : List LoginRegisterPage) : SavedFieldsKept pages pages :=
  fun _ page found => ⟨page, found, rfl, rfl⟩

/-- A change of one page that leaves the saved fields alone. -/
theorem moves_of_changePage {registry next : Registry} {index : Nat}
    {change : LoginRegisterPage → LoginRegisterPage}
    (taken : registry.changePage index change = some next)
    (sameFields : ∀ page, (change page).email = page.email ∧
      (change page).username = page.username) (action : RegistryAction) :
    Moves registry action next := by
  rcases Option.bind_eq_some_iff.mp taken with ⟨page, found, changed⟩
  split at changed
  · cases changed
    apply Moves.onPages
    intro other page' found'
    by_cases same : other = index
    · subst other
      have inside := (List.getElem?_eq_some_iff.mp found).1
      cases found.symm.trans found'
      exact ⟨change page, List.getElem?_set_self inside, sameFields page⟩
    · exact ⟨page', (List.getElem?_set_ne (Ne.symm same)).trans found', rfl, rfl⟩
  · contradiction

theorem moves_of_step {registry next : Registry} {action : RegistryAction}
    (taken : step registry action = some next) : Moves registry action next := by
  cases action with
  | opened device =>
      cases taken
      apply Moves.onPages
      intro index page found
      have inside := (List.getElem?_eq_some_iff.mp found).1
      exact ⟨page, (List.getElem?_append_left inside).trans found, rfl, rfl⟩
  | closed index => exact moves_of_changePage taken (fun _ => ⟨rfl, rfl⟩) _
  | enter index input text =>
      exact moves_of_changePage taken (fun _ => by cases input <;> exact ⟨rfl, rfl⟩) _
  | moveToRegister index => exact moves_of_changePage taken (fun _ => ⟨rfl, rfl⟩) _
  | moveToLogin index => exact moves_of_changePage taken (fun _ => ⟨rfl, rfl⟩) _
  | submit index =>
      rcases Option.bind_eq_some_iff.mp taken with ⟨page, found, submitted⟩
      split at submitted
      · split at submitted
        · cases submitted
          exact .onPages (savedFieldsKept_refl _)
        · rename_i saved valid
          cases submitted
          exact .submitted found valid
      · contradiction
  | call device caller =>
      simp only [step] at taken
      split at taken
      · contradiction
      · rename_i other
        cases taken
        exact .called fun register => other (.inr register)
  | effect device index outcome =>
      rcases Option.bind_eq_some_iff.mp taken with ⟨call, found, acted⟩
      split at acted
      · rename_i admits
        rcases Option.map_eq_some_iff.mp acted with ⟨session, effect, rfl⟩
        exact .acted found admits effect
      · contradiction
  | resume device index =>
      rcases Option.bind_eq_some_iff.mp taken with ⟨call, found, resumed⟩
      rcases Option.map_eq_some_iff.mp resumed with ⟨session, effect, rfl⟩
      exact .resumed found effect
  | stored index =>
      rcases Option.bind_eq_some_iff.mp taken with ⟨registration, found, settled⟩
      split at settled
      · rename_i pending
        cases settled
        exact .stored found pending
      · contradiction
  | rejected index =>
      rcases Option.bind_eq_some_iff.mp taken with ⟨registration, found, settled⟩
      split at settled
      · rename_i pending
        cases settled
        exact .rejected found pending
      · contradiction

end Registry

end DyeIsLife.Pages
