import DyeIsLife.Auth.Session
import DyeIsLife.Navigation.Page
import DyeIsLife.Records.Writes

/-!
# The app on one device

A device has its session, the status that `MappingPage` shows, the pages above
it, and the uploads in flight.  Each action of the user, of Firebase or of the
storage service moves the device and issues at most one write.

Pages have an identity, since the code after an await uses the context of the
page that started it: `Navigator.push` through the context of a disposed page
throws.  The texts that forms supply are part of the actions, whatever was
typed.
-/

namespace DyeIsLife.App

open DyeIsLife.Auth
open DyeIsLife.Firebase
open DyeIsLife.Navigation
open DyeIsLife.Records

/-- A page on the stack. -/
structure Route where
  id : Nat
  page : Page
  deriving DecidableEq

structure Device where
  /-- a call carries the page whose context its continuation uses -/
  session : Session (Option Route)
  authStatus : AuthStatus
  /-- the pages above `MappingPage`, the top one first -/
  pushed : List Route
  nextId : Nat
  /-- the pages of the uploads in flight -/
  uploads : List Route

inductive DeviceAction where
  /-- the submit button of a login page, in one of its two modes -/
  | submit (caller : Caller)
  | effect (call : Nat) (outcome : Outcome)
  /-- the code after an await; the texts are the saved fields of a register
  form -/
  | resume (call : Nat) (username email : String)
  | logout
  | tap (page : Page)
  | back
  /-- `_EditProfilePageState.saveToDatabase` -/
  | saveProfile (myUsername myLocation myBio : String)
  /-- `_UploadDiscussionPageState.saveToDatabase` -/
  | saveDiscussion (key myTitle myBody time : String)
  /-- `_CommentPageState.saveToDatabase` -/
  | saveComment (key myComment time : String)
  /-- an accepted press of `uploadStatusImage` -/
  | startUpload
  /-- the URL of an upload arrives -/
  | finishUpload (upload : Nat) (url key : String) (myValue myLocation : Option String)
      (time : String)
  | failUpload (upload : Nat)

namespace Device

/-- `MappingPage`, as the page it shows. -/
def root (device : Device) : Route :=
  ⟨0, device.authStatus.shows⟩

/-- The page on top of the stack. -/
def top (device : Device) : Route :=
  device.pushed.headD device.root

def Mounted (device : Device) (route : Route) : Prop :=
  route ∈ device.root :: device.pushed

instance (device : Device) (route : Route) : Decidable (device.Mounted route) :=
  inferInstanceAs (Decidable (route ∈ device.root :: device.pushed))

/-- A page is created; `HomePage.initState` calls `getCurrentUser`. -/
def initState (device : Device) (page : Page) : Device :=
  if page = .home then
    { device with session := device.session.start .homeInit none }
  else
    device

/-- `Navigator.push`. -/
def push (device : Device) (page : Page) : Device :=
  { device with
    pushed := ⟨device.nextId, page⟩ :: device.pushed
    nextId := device.nextId + 1 }.initState page

/-- `Navigator.push` through the context of a page. -/
def pushFrom (device : Device) (route : Option Route) (page : Page) : Device :=
  match route with
  | some route => if device.Mounted route then device.push page else device
  | none => device

/-- What the caller of an answered call does after `AuthImplementation` has set
`currentUser`. -/
def proceed (device : Device) (call : Call (Option Route)) (username email : String) :
    Device × Option Write :=
  match call.caller, call.phase with
  | .mappingInit, .resolved none => ({ device with authStatus := .notSignedIn }, none)
  | .mappingInit, .resolved (some _) =>
      ({ device with authStatus := .signedIn }.initState .home, none)
  | .login, .resolved (some _) => (device.pushFrom call.ticket .home, none)
  | .register, .resolved (some user) =>
      (device.pushFrom call.ticket .home, some (.register user username email))
  | _, _ => (device, none)

/-- The code after the await of an answered call. -/
def resume (device : Device) (index : Nat) (username email : String) :
    Option (Device × Option Write) :=
  device.session.calls[index]?.bind fun call =>
    (device.session.resume index).map fun session =>
      { device with session }.proceed call username email

/-- The write of an upload page when its URL has arrived; `child(null)` throws. -/
def uploadWrite (currentUser : Option String) (url key : String)
    (myValue myLocation : Option String) (time : String) : Page → Option Write
  | .uploadPhoto => some (.photo key currentUser url myValue myLocation time)
  | .changeProfilePhoto => currentUser.map fun currentUser => .changePhoto currentUser url
  | _ => none

/-- `uploadStatusImage` after its awaits: on a disposed page `goToHomePage`
throws before anything is saved. -/
def finishUpload (device : Device) (index : Nat) (url key : String)
    (myValue myLocation : Option String) (time : String) : Option (Device × Option Write) :=
  device.uploads[index]?.bind fun route =>
    let device := { device with uploads := device.uploads.eraseIdx index }
    if device.Mounted route then
      route.page.afterUpload.map fun page =>
        (device.push page,
          uploadWrite device.session.currentUser url key myValue myLocation time route.page)
    else
      some (device, none)

/-- One step of a device, with the write it issues. -/
def step (device : Device) : DeviceAction → Option (Device × Option Write)
  | .submit caller =>
      if device.top.page = .loginRegister ∧ (caller = .login ∨ caller = .register) then
        some ({ device with session := device.session.start caller (some device.top) }, none)
      else
        none
  | .effect index outcome =>
      (device.session.effect index outcome).map fun session => ({ device with session }, none)
  | .resume index username email => device.resume index username email
  | .logout =>
      if device.top.page = .profile then
        some ({ device with session := device.session.start .logout none }.push .loginRegister,
          none)
      else
        none
  | .tap page =>
      if page ∈ device.top.page.opens then some (device.push page, none) else none
  | .back =>
      match device.pushed with
      | [] => none
      | _ :: rest => some ({ device with pushed := rest }, none)
  | .saveProfile myUsername myLocation myBio =>
      if device.top.page = .editProfile then
        match device.session.currentUser with
        | none => some (device, none)
        | some currentUser =>
            some (device.push .profile,
              some (.editProfile currentUser myUsername myLocation myBio))
      else
        none
  | .saveDiscussion key myTitle myBody time =>
      if device.top.page = .uploadDiscussion then
        some (device.push .home,
          some (.discussion key device.session.currentUser myTitle myBody time))
      else
        none
  | .saveComment key myComment time =>
      if device.top.page = .comment then
        some (device.push .comment,
          some (.comment key device.session.currentUser myComment time))
      else
        none
  | .startUpload =>
      if device.top.page.afterUpload ≠ none then
        some ({ device with uploads := device.uploads ++ [device.top] }, none)
      else
        none
  | .finishUpload index url key myValue myLocation time =>
      device.finishUpload index url key myValue myLocation time
  | .failUpload index =>
      if index < device.uploads.length then
        some ({ device with uploads := device.uploads.eraseIdx index }, none)
      else
        none

/-- The freshly launched app. -/
def launch (remembered : Option Uid) : Device where
  session := Session.launch remembered none
  authStatus := .notSignedIn
  pushed := []
  nextId := 1
  uploads := []

/-! ## What one step can do -/

/-- Somebody has got past the login page that `MappingPage` shows at launch. -/
def Past (device : Device) : Prop :=
  device.authStatus = .signedIn ∨ device.pushed ≠ []

/-- A page other than the login page is on top only past the login page. -/
theorem past_of_top {device : Device} (other : device.top.page ≠ .loginRegister) :
    device.Past := by
  cases routes : device.pushed with
  | cons route rest => exact .inr (by simp [routes])
  | nil =>
      cases status : device.authStatus with
      | signedIn => exact .inl status
      | notSignedIn => simp [top, routes, root, status, AuthStatus.shows] at other

/-- A page other than a login page is on the stack. -/
def Entered (device : Device) : Prop :=
  ∃ route, device.Mounted route ∧ route.page ≠ .loginRegister

theorem mounted_top (device : Device) : device.Mounted device.top := by
  unfold Mounted top
  cases device.pushed with
  | nil => exact List.mem_cons_self
  | cons route rest => exact List.mem_cons_of_mem _ List.mem_cons_self

theorem entered_of_top {device : Device} (other : device.top.page ≠ .loginRegister) :
    device.Entered :=
  ⟨device.top, device.mounted_top, other⟩

theorem Entered.past {device : Device} (entered : device.Entered) : device.Past := by
  rcases entered with ⟨route, mounted, other⟩
  rcases List.mem_cons.mp mounted with rfl | above
  · cases status : device.authStatus with
    | signedIn => exact .inl status
    | notSignedIn => simp [root, status, AuthStatus.shows] at other
  · exact .inr (List.ne_nil_of_mem above)

/-- The steps of a device, by what they do to its session and its stack. -/
inductive Moves (device : Device) (action : DeviceAction) : Device → Prop
  | stays {uploads : List Route} : Moves device action { device with uploads }
  | pops {route : Route} {rest : List Route} (onTop : device.pushed = route :: rest) :
      Moves device action { device with pushed := rest }
  | starts {caller : Caller} {ticket : Option Route} :
      Moves device action { device with session := device.session.start caller ticket }
  | acts {index : Nat} {outcome : Outcome} {session : Session (Option Route)}
      (same : action = .effect index outcome)
      (taken : device.session.effect index outcome = some session) :
      Moves device action { device with session }
  | resumes {index : Nat} {username email : String} {call : Call (Option Route)}
      {session : Session (Option Route)} (same : action = .resume index username email)
      (found : device.session.calls[index]? = some call)
      (taken : device.session.resume index = some session) :
      Moves device action ({ device with session }.proceed call username email).1
  | pushes {session : Session (Option Route)} {uploads : List Route} {page : Page}
      (entered : device.Entered)
      (origin : session = device.session ∨ session = device.session.start .logout none) :
      Moves device action ({ device with session, uploads }.push page)

theorem moves_of_step {device next : Device} {action : DeviceAction} {write : Option Write}
    (taken : device.step action = some (next, write)) : Moves device action next := by
  have opened : ∀ {page opened : Page}, device.top.page = page → page ≠ .loginRegister →
      Moves device action (device.push opened) := by
    intro page opened onTop other
    rw [← onTop] at other
    exact .pushes (entered_of_top other) (.inl rfl)
  cases action with
  | submit caller =>
      simp only [step] at taken
      split at taken
      · cases taken
        exact .starts
      · contradiction
  | effect index outcome =>
      rcases Option.map_eq_some_iff.mp taken with ⟨session, moved, same⟩
      cases same
      exact .acts rfl moved
  | resume index username email =>
      rcases Option.bind_eq_some_iff.mp taken with ⟨call, found, resumed⟩
      rcases Option.map_eq_some_iff.mp resumed with ⟨session, moved, proceeded⟩
      have same : (proceed _ _ _ _).1 = next := congrArg Prod.fst proceeded
      rw [← same]
      exact .resumes rfl found moved
  | logout =>
      simp only [step] at taken
      split at taken
      · rename_i onTop
        cases taken
        apply Moves.pushes
        · apply entered_of_top
          rw [onTop]
          exact nofun
        · exact .inr rfl
      · contradiction
  | tap page =>
      simp only [step] at taken
      split at taken
      · rename_i opens
        cases taken
        apply opened rfl
        intro login
        rw [login, Page.opens_loginRegister] at opens
        contradiction
      · contradiction
  | back =>
      simp only [step] at taken
      split at taken
      · contradiction
      · rename_i route rest routes
        cases taken
        exact .pops routes
  | saveProfile myUsername myLocation myBio =>
      simp only [step] at taken
      split at taken
      · rename_i onTop
        split at taken
        · cases taken
          exact .stays
        · cases taken
          exact opened onTop nofun
      · contradiction
  | saveDiscussion key myTitle myBody time =>
      simp only [step] at taken
      split at taken
      · rename_i onTop
        cases taken
        exact opened onTop nofun
      · contradiction
  | saveComment key myComment time =>
      simp only [step] at taken
      split at taken
      · rename_i onTop
        cases taken
        exact opened onTop nofun
      · contradiction
  | startUpload =>
      simp only [step] at taken
      split at taken
      · cases taken
        exact .stays
      · contradiction
  | finishUpload index url key myValue myLocation time =>
      rcases Option.bind_eq_some_iff.mp taken with ⟨route, found, finished⟩
      simp only at finished
      split at finished
      · rename_i mounted
        rcases Option.map_eq_some_iff.mp finished with ⟨page, uploads, moved⟩
        cases moved
        refine .pushes ⟨route, mounted, ?_⟩ (.inl rfl)
        intro login
        rw [login] at uploads
        contradiction
      · cases finished
        exact .stays
  | failUpload index =>
      simp only [step] at taken
      split at taken
      · cases taken
        exact .stays
      · contradiction

/-! ## `currentUser` past the login page -/

/-- As long as `currentUser` is null, the login page of `MappingPage` is all
there is. -/
def Assigned (device : Device) : Prop :=
  device.session.currentUser = none → device.authStatus = .notSignedIn ∧ device.pushed = []

theorem assigned_of_ne_none {device : Device} (present : device.session.currentUser ≠ none) :
    device.Assigned :=
  fun absent => absurd absent present

theorem Assigned.ne_none {device : Device} (assigned : device.Assigned) (past : device.Past) :
    device.session.currentUser ≠ none := by
  intro absent
  rcases assigned absent with ⟨status, nothing⟩
  rcases past with signedIn | above
  · rw [status] at signedIn
    contradiction
  · exact above nothing

@[simp]
theorem initState_currentUser (device : Device) (page : Page) :
    (device.initState page).session.currentUser = device.session.currentUser := by
  unfold initState
  split
  · rfl
  · rfl

@[simp]
theorem push_currentUser (device : Device) (page : Page) :
    (device.push page).session.currentUser = device.session.currentUser := by
  rw [push, initState_currentUser]

@[simp]
theorem pushFrom_currentUser (device : Device) (route : Option Route) (page : Page) :
    (device.pushFrom route page).session.currentUser = device.session.currentUser := by
  unfold pushFrom
  split
  · split
    · exact push_currentUser device page
    · rfl
  · rfl

@[simp]
theorem proceed_currentUser (device : Device) (call : Call (Option Route))
    (username email : String) :
    (device.proceed call username email).1.session.currentUser = device.session.currentUser := by
  unfold proceed
  split <;> simp

/-- Actions that keep the stack and do not clear `currentUser`. -/
theorem Assigned.of_eq {device next : Device} (assigned : device.Assigned)
    (authStatus : next.authStatus = device.authStatus) (pushed : next.pushed = device.pushed)
    (stays : device.session.currentUser ≠ none → next.session.currentUser ≠ none) :
    next.Assigned := by
  intro absent
  rw [authStatus, pushed]
  apply assigned
  by_contra present
  exact stays present absent

/-- The code after an await assigns `currentUser` before it pushes a page. -/
theorem Assigned.proceed {device : Device} {index : Nat} {username email : String}
    {call : Call (Option Route)} {session : Session (Option Route)} (assigned : device.Assigned)
    (found : device.session.calls[index]? = some call)
    (taken : device.session.resume index = some session) :
    ({ device with session }.proceed call username email).1.Assigned := by
  rcases (Session.resume_eq_some_iff _ _ _).mp taken with ⟨caller, ticket, answer, resolved, rfl⟩
  cases found.symm.trans resolved
  cases answer with
  | some user =>
      by_cases leaving : caller.operation = .signOut
      · -- a sign-out has no code after its Firebase call
        have logout : caller = .logout := by
          cases caller <;> first | rfl | contradiction
        subst logout
        exact assigned.of_eq rfl rfl id
      · apply assigned_of_ne_none
        rw [proceed_currentUser, Session.afterAwait_some leaving]
        exact Option.some_ne_none _
  | none =>
      cases caller with
      | mappingInit => exact fun absent => ⟨rfl, (assigned absent).2⟩
      | homeInit => exact assigned.of_eq rfl rfl id
      | login => exact assigned.of_eq rfl rfl id
      | register => exact assigned.of_eq rfl rfl id
      | logout => exact assigned.of_eq rfl rfl id

/-- Past the login page `currentUser` is assigned, and stays so. -/
theorem Assigned.step {device next : Device} {action : DeviceAction} {write : Option Write}
    (assigned : device.Assigned) (taken : device.step action = some (next, write)) :
    next.Assigned := by
  cases moves_of_step taken with
  | stays => exact assigned.of_eq rfl rfl id
  | pops onTop =>
      apply assigned_of_ne_none
      apply assigned.ne_none
      right
      rw [onTop]
      exact nofun
  | @starts caller ticket =>
      have stepped : device.session.step (.start caller ticket) =
          some (device.session.start caller ticket) := rfl
      exact assigned.of_eq rfl rfl fun present =>
        Session.step_currentUser_ne_none present stepped
  | @acts index outcome session same moved =>
      have stepped : device.session.step (.effect index outcome) = some session := moved
      exact assigned.of_eq rfl rfl fun present =>
        Session.step_currentUser_ne_none present stepped
  | resumes same found moved => exact assigned.proceed found moved
  | pushes entered origin =>
      apply assigned_of_ne_none
      rw [push_currentUser]
      rcases origin with rfl | rfl
      · exact assigned.ne_none entered.past
      · exact Option.some_ne_none ""

/-! ## The calls of a device -/

/-- The call that a new `HomePage` starts. -/
def homeCall : Call (Option Route) :=
  ⟨.homeInit, none, .started⟩

section Calls

variable {device : Device} {page : Page} {call : Call (Option Route)}

theorem mem_calls_initState (member : call ∈ (device.initState page).session.calls) :
    call ∈ device.session.calls ∨ call = homeCall := by
  unfold initState at member
  split at member
  · rcases List.mem_append.mp member with old | new
    · exact .inl old
    · exact .inr (List.mem_singleton.mp new)
  · exact .inl member

theorem mem_calls_push (member : call ∈ (device.push page).session.calls) :
    call ∈ device.session.calls ∨ call = homeCall := by
  rcases mem_calls_initState member with old | new
  · exact .inl old
  · exact .inr new

theorem mem_calls_pushFrom {route : Option Route}
    (member : call ∈ (device.pushFrom route page).session.calls) :
    call ∈ device.session.calls ∨ call = homeCall := by
  unfold pushFrom at member
  split at member
  · split at member
    · exact mem_calls_push member
    · exact .inl member
  · exact .inl member

theorem mem_calls_proceed {answered : Call (Option Route)} {username email : String}
    (member : call ∈ (device.proceed answered username email).1.session.calls) :
    call ∈ device.session.calls ∨ call = homeCall := by
  unfold proceed at member
  split at member
  · exact .inl member
  · rcases mem_calls_initState member with old | new
    · exact .inl old
    · exact .inr new
  · exact mem_calls_pushFrom member
  · exact mem_calls_pushFrom member
  · exact .inl member

/-- A sign-up that is there after a step was there before, or the step has
submitted a register form. -/
theorem register_of_step {next : Device} {action : DeviceAction} {write : Option Write}
    (taken : device.step action = some (next, write)) (member : call ∈ next.session.calls)
    (register : call.caller = .register) :
    (∃ old ∈ device.session.calls, old.caller = .register ∧ old.ticket = call.ticket) ∨
      (action = .submit .register ∧ call.ticket = some device.top) := by
  have earlier : call ∈ device.session.calls →
      ∃ old ∈ device.session.calls, old.caller = .register ∧ old.ticket = call.ticket :=
    fun old => ⟨call, old, register, rfl⟩
  have pushed : ∀ {page : Page}, call ∈ (device.push page).session.calls →
      ∃ old ∈ device.session.calls, old.caller = .register ∧ old.ticket = call.ticket := by
    intro page inPushed
    rcases mem_calls_push inPushed with old | rfl
    · exact earlier old
    · contradiction
  have changed : ∀ {index : Nat} {caller : Caller} {ticket : Option Route} {phase phase' : Phase},
      device.session.calls[index]? = some ⟨caller, ticket, phase⟩ →
      call ∈ device.session.calls.set index ⟨caller, ticket, phase'⟩ →
      ∃ old ∈ device.session.calls, old.caller = .register ∧ old.ticket = call.ticket := by
    intro index caller ticket phase phase' found inChanged
    rcases List.mem_or_eq_of_mem_set inChanged with old | rfl
    · exact earlier old
    · exact ⟨_, List.mem_of_getElem? found, register, rfl⟩
  cases action with
  | submit caller =>
      simp only [step] at taken
      split at taken
      · cases taken
        rcases List.mem_append.mp member with old | new
        · exact .inl (earlier old)
        · cases List.mem_singleton.mp new
          cases register
          exact .inr ⟨rfl, rfl⟩
      · contradiction
  | effect index outcome =>
      rcases Option.map_eq_some_iff.mp taken with ⟨session, moved, same⟩
      cases same
      rcases (Session.effect_eq_some_iff _ _ _ _).mp moved with
        ⟨caller, ticket, user, phase, found, _, rfl⟩
      exact .inl (changed found member)
  | resume index username email =>
      rcases Option.bind_eq_some_iff.mp taken with ⟨answered, found, resumed⟩
      rcases Option.map_eq_some_iff.mp resumed with ⟨session, moved, proceeded⟩
      have same : (proceed _ _ _ _).1 = next := congrArg Prod.fst proceeded
      rw [← same] at member
      rcases (Session.resume_eq_some_iff _ _ _).mp moved with ⟨caller, ticket, answer, call', rfl⟩
      rcases mem_calls_proceed member with old | rfl
      · exact .inl (changed call' old)
      · contradiction
  | logout =>
      simp only [step] at taken
      split at taken
      · cases taken
        rcases mem_calls_push member with started | rfl
        · rcases List.mem_append.mp started with old | new
          · exact .inl (earlier old)
          · cases List.mem_singleton.mp new
            contradiction
        · contradiction
      · contradiction
  | tap page =>
      simp only [step] at taken
      split at taken
      · cases taken
        exact .inl (pushed member)
      · contradiction
  | back =>
      simp only [step] at taken
      split at taken
      · contradiction
      · cases taken
        exact .inl (earlier member)
  | saveProfile myUsername myLocation myBio =>
      simp only [step] at taken
      split at taken
      · split at taken
        · cases taken
          exact .inl (earlier member)
        · cases taken
          exact .inl (pushed member)
      · contradiction
  | saveDiscussion key myTitle myBody time =>
      simp only [step] at taken
      split at taken
      · cases taken
        exact .inl (pushed member)
      · contradiction
  | saveComment key myComment time =>
      simp only [step] at taken
      split at taken
      · cases taken
        exact .inl (pushed member)
      · contradiction
  | startUpload =>
      simp only [step] at taken
      split at taken
      · cases taken
        exact .inl (earlier member)
      · contradiction
  | finishUpload index url key myValue myLocation time =>
      rcases Option.bind_eq_some_iff.mp taken with ⟨route, found, finished⟩
      simp only at finished
      split at finished
      · rcases Option.map_eq_some_iff.mp finished with ⟨page, uploads, moved⟩
        cases moved
        rcases mem_calls_push member with old | rfl
        · exact .inl (earlier old)
        · contradiction
      · cases finished
        exact .inl (earlier member)
  | failUpload index =>
      simp only [step] at taken
      split at taken
      · cases taken
        exact .inl (earlier member)
      · contradiction

end Calls

/-! ## The writes of a device -/

/-- The writes that an action issues, one constructor for each place in the
code. -/
inductive Issues (device : Device) : DeviceAction → Write → Prop
  | register {index : Nat} {username email : String} {ticket : Option Route} {user : Uid}
      (answered : device.session.calls[index]? =
        some ⟨.register, ticket, .resolved (some user)⟩) :
      Issues device (.resume index username email) (.register user username email)
  | editProfile {myUsername myLocation myBio currentUser : String}
      (current : device.session.currentUser = some currentUser) :
      Issues device (.saveProfile myUsername myLocation myBio)
        (.editProfile currentUser myUsername myLocation myBio)
  | discussion {key myTitle myBody time : String} :
      Issues device (.saveDiscussion key myTitle myBody time)
        (.discussion key device.session.currentUser myTitle myBody time)
  | comment {key myComment time : String} (onTop : device.top.page = .comment) :
      Issues device (.saveComment key myComment time)
        (.comment key device.session.currentUser myComment time)
  | photo {index : Nat} {url key time : String} {myValue myLocation : Option String} :
      Issues device (.finishUpload index url key myValue myLocation time)
        (.photo key device.session.currentUser url myValue myLocation time)
  | changePhoto {index : Nat} {url key time currentUser : String}
      {myValue myLocation : Option String} {route : Route}
      (found : device.uploads[index]? = some route)
      (page : route.page = .changeProfilePhoto) (mounted : device.Mounted route)
      (current : device.session.currentUser = some currentUser) :
      Issues device (.finishUpload index url key myValue myLocation time)
        (.changePhoto currentUser url)

theorem issues_of_proceed {device : Device} {call : Call (Option Route)}
    {username email : String} {write : Write}
    (issued : (device.proceed call username email).2 = some write) :
    ∃ user, call.caller = .register ∧ call.phase = .resolved (some user) ∧
      write = .register user username email := by
  unfold proceed at issued
  split at issued
  · contradiction
  · contradiction
  · contradiction
  · rename_i user register resolved
    exact ⟨user, register, resolved, (Option.some.inj issued).symm⟩
  · contradiction

theorem issues_of_step {device next : Device} {action : DeviceAction} {write : Write}
    (taken : device.step action = some (next, some write)) : Issues device action write := by
  cases action with
  | submit caller =>
      simp only [Device.step] at taken
      split at taken <;> cases taken
  | effect index outcome =>
      rcases Option.map_eq_some_iff.mp taken with ⟨session, moved, same⟩
      cases same
  | resume index username email =>
      rcases Option.bind_eq_some_iff.mp taken with ⟨call, found, resumed⟩
      rcases Option.map_eq_some_iff.mp resumed with ⟨session, moved, proceeded⟩
      rcases issues_of_proceed (congrArg Prod.snd proceeded) with ⟨user, register, resolved, rfl⟩
      rcases call with ⟨caller, ticket, phase⟩
      cases register
      cases resolved
      exact .register found
  | logout =>
      simp only [Device.step] at taken
      split at taken <;> cases taken
  | tap page =>
      simp only [Device.step] at taken
      split at taken <;> cases taken
  | back =>
      simp only [Device.step] at taken
      split at taken <;> cases taken
  | saveProfile myUsername myLocation myBio =>
      simp only [Device.step] at taken
      split at taken
      · split at taken
        · cases taken
        · rename_i current
          cases taken
          exact .editProfile current
      · contradiction
  | saveDiscussion key myTitle myBody time =>
      simp only [Device.step] at taken
      split at taken
      · cases taken
        exact .discussion
      · contradiction
  | saveComment key myComment time =>
      simp only [Device.step] at taken
      split at taken
      · rename_i onTop
        cases taken
        exact .comment onTop
      · contradiction
  | startUpload =>
      simp only [Device.step] at taken
      split at taken <;> cases taken
  | finishUpload index url key myValue myLocation time =>
      rcases Option.bind_eq_some_iff.mp taken with ⟨route, found, finished⟩
      simp only at finished
      split at finished
      · rename_i mounted
        rcases Option.map_eq_some_iff.mp finished with ⟨page, uploads, moved⟩
        have issued := congrArg Prod.snd moved
        unfold uploadWrite at issued
        split at issued
        · cases issued
          exact .photo
        · rename_i changes
          rcases Option.map_eq_some_iff.mp issued with ⟨currentUser, current, rfl⟩
          exact .changePhoto found changes mounted current
        · contradiction
      · cases finished
  | failUpload index =>
      simp only [Device.step] at taken
      split at taken <;> cases taken

end Device

end DyeIsLife.App
