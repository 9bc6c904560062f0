import DyeIsLife.App.Device

/-!
# Pages and their sessions

A session begins when Firebase grants a login or a registration and ends when a
sign-out takes effect or another session begins; a user whom Firebase remembers
at launch is in a session already.  The history of a device says in which
session each page came to be shown, so that one can ask whether a page outlives
its session.

Pages do.  `logoutUser` pushes a login page over the profile page instead of
removing it, and the submit button stays enabled while a login is on its way,
so that a second session may begin over the home page of the first.  No page
outlives its session exactly when sessions begin and end only while nothing but
login pages is on the stack, and the code after an await opens the home page
only while somebody is signed in.
-/

namespace DyeIsLife.App

open DyeIsLife.Auth
open DyeIsLife.Firebase
open DyeIsLife.Navigation
open DyeIsLife.Transition

/-- A device with its history, which no code reads: how many sessions have
begun since the launch, and the session in which each page, by its identity,
came to be shown. -/
structure Visit where
  device : Device
  sessions : Nat
  opened : Nat → Option Nat

namespace Visit

/-- The session that is signed in. -/
def current (visit : Visit) : Option Nat :=
  visit.device.session.firebaseUser.map fun _ => visit.sessions

/-- The action begins a session. -/
def begins : DeviceAction → Bool
  | .effect _ (.granted _) => true
  | _ => false

/-- The history goes on: a page that is new, and `MappingPage` when it has come
to show another page, is shown in the session of that moment. -/
def goOn (visit : Visit) (action : DeviceAction) (next : Device) : Visit :=
  let sessions := if begins action then visit.sessions + 1 else visit.sessions
  { device := next
    sessions
    opened := fun id =>
      if id < visit.device.nextId ∧ (id = 0 → next.authStatus = visit.device.authStatus) then
        visit.opened id
      else
        next.session.firebaseUser.map fun _ => sessions }

/-- One step of a device with its history. -/
def step : Step Visit DeviceAction := fun visit action =>
  (visit.device.step action).map fun moved => visit.goOn action moved.1

/-- The freshly launched app. -/
def launch (remembered : Option Uid) : Visit where
  device := Device.launch remembered
  sessions := 0
  opened _ := none

/-- Every page on the stack other than a login page was opened during the
session that is signed in now; so nobody being signed in, there is none. -/
def NoStalePage (visit : Visit) : Prop :=
  ∀ route, visit.device.Mounted route → route.page ≠ .loginRegister →
    visit.current ≠ none ∧ visit.opened route.id = visit.current

end Visit

/-- The code after the await of a call makes `MappingPage` show the home page or
pushes one. -/
def Device.OpensHome (device : Device) (index : Nat) : Prop :=
  match device.session.calls[index]? with
  | some ⟨.mappingInit, _, .resolved (some _)⟩ => True
  | some ⟨.login, some route, .resolved (some _)⟩ => device.Mounted route
  | some ⟨.register, some route, .resolved (some _)⟩ => device.Mounted route
  | _ => False

namespace Visit

/-- A session begins or ends only while nothing but login pages is on the stack,
and the code after an await opens the home page only while somebody is signed
in. -/
def Timely (visit : Visit) : DeviceAction → Prop
  | .effect _ (.granted _) => ¬ visit.device.Entered
  | .effect index .done =>
      (∃ ticket, visit.device.session.calls[index]? = some ⟨.logout, ticket, .started⟩) →
        ¬ visit.device.Entered
  | .resume index _ _ =>
      visit.device.OpensHome index → visit.device.session.firebaseUser ≠ none
  | _ => True

end Visit

/-! ## What a push leaves alone -/

namespace Device

variable (device : Device) (page : Page)

theorem push_firebaseUser :
    (device.push page).session.firebaseUser = device.session.firebaseUser := by
  unfold push initState
  split <;> rfl

theorem push_pushed :
    (device.push page).pushed = ⟨device.nextId, page⟩ :: device.pushed := by
  unfold push initState
  split <;> rfl

theorem push_nextId : (device.push page).nextId = device.nextId + 1 := by
  unfold push initState
  split <;> rfl

theorem push_authStatus : (device.push page).authStatus = device.authStatus := by
  unfold push initState
  split <;> rfl

/-- A push through the context of a page happens when the page is mounted. -/
theorem pushFrom_cases (ticket : Option Route) :
    (∃ route, ticket = some route ∧ device.Mounted route ∧
      device.pushFrom ticket page = device.push page) ∨
    device.pushFrom ticket page = device := by
  unfold pushFrom
  split
  · rename_i route
    split
    · rename_i mounted
      exact .inl ⟨route, rfl, mounted, rfl⟩
    · exact .inr rfl
  · exact .inr rfl

end Device

/-! ## Runs of timely steps -/

namespace Visit

/-- Pages have identities of their own, and none outlives its session. -/
structure Clean (visit : Visit) : Prop where
  positive : 0 < visit.device.nextId
  ids : ∀ route ∈ visit.device.pushed, 0 < route.id ∧ route.id < visit.device.nextId
  noStale : NoStalePage visit

theorem clean_launch (remembered : Option Uid) : Clean (launch remembered) where
  positive := Nat.one_pos
  ids := nofun
  noStale route mounted other := by
    cases List.mem_singleton.mp mounted
    exact absurd rfl other

theorem Clean.current_ne_none {visit : Visit} (clean : Clean visit)
    (entered : visit.device.Entered) : visit.current ≠ none := by
  rcases entered with ⟨route, mounted, other⟩
  exact (clean.noStale route mounted other).1

theorem current_of_user {visit : Visit} (present : visit.device.session.firebaseUser ≠ none) :
    visit.current ≠ none := by
  simpa [current] using present

/-- The action neither begins a session nor changes the Firebase user. -/
structure Quiet (visit : Visit) (action : DeviceAction) (next : Device) : Prop where
  same : begins action = false
  user : next.session.firebaseUser = visit.device.session.firebaseUser

theorem Quiet.current {visit : Visit} {action : DeviceAction} {next : Device}
    (quiet : Quiet visit action next) : (visit.goOn action next).current = visit.current := by
  simp [Visit.current, goOn, quiet.same, quiet.user]

/-- A page that was pushed before keeps the session it was opened in. -/
theorem Clean.opened_pushed {visit : Visit} (clean : Clean visit) (action : DeviceAction)
    (next : Device) {route : Route} (member : route ∈ visit.device.pushed) :
    (visit.goOn action next).opened route.id = visit.opened route.id := by
  rcases clean.ids route member with ⟨positive, old⟩
  exact if_pos ⟨old, fun root => absurd root (Nat.ne_of_gt positive)⟩

/-- What was not there before is opened in the session that is signed in. -/
theorem Quiet.opened_new {visit : Visit} {action : DeviceAction} {next : Device}
    (quiet : Quiet visit action next) {id : Nat}
    (new : ¬ (id < visit.device.nextId ∧ (id = 0 → next.authStatus = visit.device.authStatus))) :
    (visit.goOn action next).opened id = visit.current := by
  rw [← quiet.current]
  exact if_neg new

/-- `MappingPage` shows what it showed, or the login page, or it comes to show
the home page while somebody is signed in. -/
theorem Clean.root {visit : Visit} {action : DeviceAction} {next : Device} (clean : Clean visit)
    (quiet : Quiet visit action next)
    (status : next.authStatus = visit.device.authStatus ∨ next.authStatus = .notSignedIn ∨
      visit.current ≠ none) (other : next.root.page ≠ .loginRegister) :
    visit.current ≠ none ∧ (visit.goOn action next).opened 0 = visit.current := by
  by_cases same : next.authStatus = visit.device.authStatus
  · have before : visit.device.root.page ≠ .loginRegister := by
      rw [Device.root, ← same]
      exact other
    rcases clean.noStale visit.device.root List.mem_cons_self before with ⟨present, opened⟩
    constructor
    · exact present
    · rw [← opened]
      exact if_pos ⟨clean.positive, fun _ => same⟩
  · constructor
    · rcases status with unchanged | loggedOut | present
      · exact absurd unchanged same
      · rw [Device.root, loggedOut] at other
        exact absurd rfl other
      · exact present
    · exact quiet.opened_new fun old => same (old.2 rfl)

/-- A step that pushes nothing. -/
theorem Clean.keep {visit : Visit} {action : DeviceAction} {next : Device} (clean : Clean visit)
    (quiet : Quiet visit action next)
    (less : ∀ route ∈ next.pushed, route ∈ visit.device.pushed)
    (nextId : next.nextId = visit.device.nextId)
    (status : next.authStatus = visit.device.authStatus ∨ next.authStatus = .notSignedIn ∨
      visit.current ≠ none) : Clean (visit.goOn action next) where
  positive := by
    change 0 < next.nextId
    rw [nextId]
    exact clean.positive
  ids route member := by
    change _ ∧ route.id < next.nextId
    rw [nextId]
    exact clean.ids route (less route member)
  noStale route mounted other := by
    rw [quiet.current]
    rcases List.mem_cons.mp mounted with rfl | above
    · exact clean.root quiet status other
    · have earlier := less route above
      rw [clean.opened_pushed action next earlier]
      exact clean.noStale route (List.mem_cons_of_mem _ earlier) other

/-- The stack of the device is that of the visit. -/
structure SameStack (visit : Visit) (device : Device) : Prop where
  pushed : device.pushed = visit.device.pushed
  nextId : device.nextId = visit.device.nextId
  authStatus : device.authStatus = visit.device.authStatus

theorem sameStack_session (visit : Visit) (session : Session (Option Route)) :
    SameStack visit { visit.device with session } :=
  ⟨rfl, rfl, rfl⟩

theorem SameStack.mounted_iff {visit : Visit} {device : Device} (same : SameStack visit device)
    (route : Route) : device.Mounted route ↔ visit.device.Mounted route := by
  rw [Device.Mounted, Device.Mounted, Device.root, Device.root, same.authStatus, same.pushed]

/-- A step that leaves the stack alone. -/
theorem Clean.same {visit : Visit} {action : DeviceAction} {next : Device} (clean : Clean visit)
    (quiet : Quiet visit action next) (same : SameStack visit next) :
    Clean (visit.goOn action next) := by
  apply clean.keep quiet _ same.nextId (.inl same.authStatus)
  intro route member
  rw [← same.pushed]
  exact member

/-- A step that pushes one page, while somebody is signed in unless it is a
login page. -/
theorem Clean.push {visit : Visit} {action : DeviceAction} {device : Device} {page : Page}
    (clean : Clean visit) (quiet : Quiet visit action device) (same : SameStack visit device)
    (present : page ≠ .loginRegister → visit.current ≠ none) :
    Clean (visit.goOn action (device.push page)) := by
  have pushed : (device.push page).pushed = ⟨visit.device.nextId, page⟩ :: visit.device.pushed := by
    rw [device.push_pushed, same.pushed, same.nextId]
  have nextId : (device.push page).nextId = visit.device.nextId + 1 := by
    rw [device.push_nextId, same.nextId]
  have quiet : Quiet visit action (device.push page) :=
    ⟨quiet.same, (device.push_firebaseUser page).trans quiet.user⟩
  constructor
  · change 0 < (device.push page).nextId
    rw [nextId]
    exact Nat.succ_pos _
  · intro route member
    change _ ∧ route.id < (device.push page).nextId
    change route ∈ (device.push page).pushed at member
    rw [pushed] at member
    rw [nextId]
    rcases List.mem_cons.mp member with rfl | earlier
    · exact ⟨clean.positive, Nat.lt_succ_self _⟩
    · rcases clean.ids route earlier with ⟨positive, old⟩
      exact ⟨positive, Nat.lt_succ_of_lt old⟩
  · intro route mounted other
    rw [quiet.current]
    rcases List.mem_cons.mp mounted with rfl | above
    · exact clean.root quiet (.inl ((device.push_authStatus page).trans same.authStatus)) other
    · change route ∈ (device.push page).pushed at above
      rw [pushed] at above
      rcases List.mem_cons.mp above with rfl | earlier
      · exact ⟨present other, quiet.opened_new fun old => Nat.lt_irrefl _ old.1⟩
      · rw [clean.opened_pushed action _ earlier]
        exact clean.noStale route (List.mem_cons_of_mem _ earlier) other

/-- A step that pushes the home page through the context of a page. -/
theorem Clean.pushFrom {visit : Visit} {action : DeviceAction} (clean : Clean visit)
    (device : Device) (ticket : Option Route) (quiet : Quiet visit action device)
    (same : SameStack visit device)
    (present : ∀ route, ticket = some route → visit.device.Mounted route →
      visit.device.session.firebaseUser ≠ none) :
    Clean (visit.goOn action (device.pushFrom ticket .home)) := by
  rcases device.pushFrom_cases .home ticket with ⟨route, named, mounted, opened⟩ | unopened
  · rw [opened]
    apply clean.push quiet same
    intro _
    exact current_of_user (present route named ((same.mounted_iff route).mp mounted))
  · rw [unopened]
    exact clean.same quiet same

/-- A step that changes the session while only login pages are on the stack. -/
theorem Clean.alone {visit : Visit} {action : DeviceAction} {next : Device} (clean : Clean visit)
    (alone : ¬ visit.device.Entered) (same : SameStack visit next) :
    Clean (visit.goOn action next) where
  positive := by
    change 0 < next.nextId
    rw [same.nextId]
    exact clean.positive
  ids route member := by
    change _ ∧ route.id < next.nextId
    change route ∈ next.pushed at member
    rw [same.pushed] at member
    rw [same.nextId]
    exact clean.ids route member
  noStale route mounted other :=
    absurd ⟨route, (same.mounted_iff route).mp mounted, other⟩ alone

/-! ## One step -/

/-- The code after the await of a call. -/
theorem Clean.proceed {visit : Visit} {index : Nat} {username email : String}
    {call : Call (Option Route)} {session : Session (Option Route)} (clean : Clean visit)
    (timely : visit.Timely (.resume index username email))
    (found : visit.device.session.calls[index]? = some call)
    (taken : visit.device.session.resume index = some session) :
    Clean (visit.goOn (.resume index username email)
      ({ visit.device with session }.proceed call username email).1) := by
  rcases (Session.resume_eq_some_iff _ _ _).mp taken with ⟨caller, ticket, answer, resolved, rfl⟩
  cases found.symm.trans resolved
  cases caller with
  | homeInit => exact clean.same ⟨rfl, rfl⟩ ⟨rfl, rfl, rfl⟩
  | logout => exact clean.same ⟨rfl, rfl⟩ ⟨rfl, rfl, rfl⟩
  | mappingInit =>
      cases answer with
      | none => exact clean.keep ⟨rfl, rfl⟩ (fun _ => id) rfl (.inr (.inl rfl))
      | some user =>
          have present := timely (by simp [Device.OpensHome, resolved])
          exact clean.keep ⟨rfl, rfl⟩ (fun _ => id) rfl (.inr (.inr (current_of_user present)))
  | login =>
      cases answer with
      | none => exact clean.same ⟨rfl, rfl⟩ ⟨rfl, rfl, rfl⟩
      | some user =>
          refine clean.pushFrom _ ticket ⟨rfl, rfl⟩ ⟨rfl, rfl, rfl⟩ ?_
          rintro route rfl mounted
          exact timely (by simpa [Device.OpensHome, resolved] using mounted)
  | register =>
      cases answer with
      | none => exact clean.same ⟨rfl, rfl⟩ ⟨rfl, rfl, rfl⟩
      | some user =>
          refine clean.pushFrom _ ticket ⟨rfl, rfl⟩ ⟨rfl, rfl, rfl⟩ ?_
          rintro route rfl mounted
          exact timely (by simpa [Device.OpensHome, resolved] using mounted)

/-- Firebase acts on a call. -/
theorem Clean.effect {visit : Visit} {index : Nat} {outcome : Outcome}
    {session : Session (Option Route)} (clean : Clean visit)
    (timely : visit.Timely (.effect index outcome))
    (taken : visit.device.session.effect index outcome = some session) :
    Clean (visit.goOn (.effect index outcome) { visit.device with session }) := by
  rcases (Session.effect_eq_some_iff _ _ _ _).mp taken with
    ⟨caller, ticket, after, phase, found, acted, rfl⟩
  rcases Session.firebaseEffect_cases acted with
    ⟨granted, _, rfl, rfl, rfl⟩ | ⟨_, rfl, rfl, rfl⟩ | ⟨leaving, rfl, rfl, rfl⟩ |
      ⟨failed, rfl, rfl⟩
  · exact clean.alone timely ⟨rfl, rfl, rfl⟩
  · exact clean.same ⟨rfl, rfl⟩ ⟨rfl, rfl, rfl⟩
  · have logout : caller = .logout := by
      cases caller <;> first | rfl | contradiction
    subst logout
    exact clean.alone (timely ⟨ticket, found⟩) ⟨rfl, rfl, rfl⟩
  · have quiet : begins (.effect index outcome) = false := by
      rcases failed with rfl | ⟨_, user, rfl⟩
      · rfl
      · rfl
    exact clean.same ⟨quiet, rfl⟩ ⟨rfl, rfl, rfl⟩

theorem Clean.step {visit next : Visit} {action : DeviceAction} (clean : Clean visit)
    (timely : visit.Timely action) (taken : Visit.step visit action = some next) :
    Clean next := by
  rcases Option.map_eq_some_iff.mp taken with ⟨⟨device, write⟩, moved, rfl⟩
  by_cases acts : ∃ index outcome, action = .effect index outcome
  · rcases acts with ⟨index, outcome, rfl⟩
    rcases Option.map_eq_some_iff.mp moved with ⟨session, acted, same⟩
    cases same
    exact clean.effect timely acted
  · have quiet : begins action = false := by
      cases action with
      | effect index outcome => exact absurd ⟨index, outcome, rfl⟩ acts
      | _ => rfl
    cases Device.moves_of_step moved with
    | stays => exact clean.same ⟨quiet, rfl⟩ ⟨rfl, rfl, rfl⟩
    | pops onTop =>
        refine clean.keep ⟨quiet, rfl⟩ ?_ rfl (.inl rfl)
        intro route member
        rw [onTop]
        exact List.mem_cons_of_mem _ member
    | starts => exact clean.same ⟨quiet, rfl⟩ ⟨rfl, rfl, rfl⟩
    | acts same acted => exact absurd ⟨_, _, same⟩ acts
    | resumes same found resumed =>
        subst same
        exact clean.proceed timely found resumed
    | pushes entered origin =>
        refine clean.push ⟨quiet, ?_⟩ ⟨rfl, rfl, rfl⟩ fun _ => clean.current_ne_none entered
        rcases origin with rfl | rfl
        · rfl
        · rfl

/-! ## Untimely steps -/

/-- A page on the stack keeps the session it was opened in while the stack stays
as it is. -/
theorem Clean.opened_mounted {visit : Visit} (clean : Clean visit) (action : DeviceAction)
    {next : Device} (same : SameStack visit next) {route : Route}
    (mounted : visit.device.Mounted route) :
    (visit.goOn action next).opened route.id = visit.opened route.id := by
  rcases List.mem_cons.mp mounted with rfl | above
  · exact if_pos ⟨clean.positive, fun _ => same.authStatus⟩
  · exact clean.opened_pushed action next above

/-- A session that begins over a page of another one makes that page stale. -/
theorem Clean.stale_of_granted {visit next : Visit} {index : Nat} {user : Uid}
    (clean : Clean visit) (entered : visit.device.Entered)
    (taken : Visit.step visit (.effect index (.granted user)) = some next) :
    ¬ NoStalePage next := by
  intro noStale
  rcases entered with ⟨route, mounted, other⟩
  rcases Option.map_eq_some_iff.mp taken with ⟨moved, stepped, rfl⟩
  rcases Option.map_eq_some_iff.mp stepped with ⟨session, acted, rfl⟩
  rcases (Session.effect_eq_some_iff _ _ _ _).mp acted with ⟨_, _, after, _, _, effect, rfl⟩
  rcases Session.firebaseEffect_cases effect with
    ⟨granted, _, _, rfl, _⟩ | ⟨_, wrong, _⟩ | ⟨_, wrong, _⟩ | ⟨wrong | ⟨_, _, wrong⟩, _⟩
  · have before := (clean.noStale route mounted other).2
    have now := (noStale route mounted other).2
    rw [clean.opened_mounted _ (sameStack_session visit _) mounted, before] at now
    have numbers : visit.current = some (visit.sessions + 1) := now
    unfold current at numbers
    rcases Option.map_eq_some_iff.mp numbers with ⟨_, _, same⟩
    exact absurd same (Nat.ne_of_lt (Nat.lt_succ_self _))
  · contradiction
  · contradiction
  · contradiction
  · contradiction

/-- A sign-out that takes effect below a page makes that page stale. -/
theorem stale_of_signOut {visit next : Visit} {index : Nat} {ticket : Option Route}
    (entered : visit.device.Entered)
    (found : visit.device.session.calls[index]? = some ⟨.logout, ticket, .started⟩)
    (taken : Visit.step visit (.effect index .done) = some next) : ¬ NoStalePage next := by
  intro noStale
  rcases entered with ⟨route, mounted, other⟩
  rcases Option.map_eq_some_iff.mp taken with ⟨moved, stepped, rfl⟩
  rcases Option.map_eq_some_iff.mp stepped with ⟨session, acted, rfl⟩
  rcases (Session.effect_eq_some_iff _ _ _ _).mp acted with
    ⟨caller, _, after, _, started, effect, rfl⟩
  cases found.symm.trans started
  cases effect
  exact (noStale route mounted other).1 rfl

/-- The home page that opens while nobody is signed in is stale. -/
theorem stale_of_opensHome {visit next : Visit} {index : Nat} {username email : String}
    (opens : visit.device.OpensHome index) (nobody : visit.device.session.firebaseUser = none)
    (taken : Visit.step visit (.resume index username email) = some next) :
    ¬ NoStalePage next := by
  intro noStale
  rcases Option.map_eq_some_iff.mp taken with ⟨moved, stepped, rfl⟩
  rcases Option.bind_eq_some_iff.mp stepped with ⟨call, found, resumed⟩
  rcases Option.map_eq_some_iff.mp resumed with ⟨session, resume, rfl⟩
  rcases (Session.resume_eq_some_iff _ _ _).mp resume with ⟨caller, ticket, answer, resolved, rfl⟩
  cases found.symm.trans resolved
  have alone : ∀ {next : Device},
      NoStalePage (visit.goOn (.resume index username email) next) →
      next.session.firebaseUser = none → ¬ next.Entered := by
    rintro next noStale signedOut ⟨route, mounted, other⟩
    apply (noStale route mounted other).1
    simp [current, goOn, signedOut]
  have opened : ∀ {device : Device} {route : Route},
      NoStalePage (visit.goOn (.resume index username email)
        (device.pushFrom (some route) .home)) →
      device.session.firebaseUser = none → ¬ device.Mounted route := by
    intro device route noStale signedOut mounted
    have pushed : device.pushFrom (some route) .home = device.push .home := if_pos mounted
    rw [pushed] at noStale
    apply alone noStale ((device.push_firebaseUser .home).trans signedOut)
    refine ⟨⟨device.nextId, .home⟩, ?_, by simp⟩
    rw [Device.Mounted, device.push_pushed]
    exact List.mem_cons_of_mem _ List.mem_cons_self
  unfold Device.OpensHome at opens
  rw [resolved] at opens
  split at opens
  · rename_i same
    cases same
    exact alone noStale nobody ⟨⟨0, .home⟩, List.mem_cons_self, by simp⟩
  · rename_i same
    cases same
    exact opened noStale nobody opens
  · rename_i same
    cases same
    exact opened noStale nobody opens
  · exact opens

theorem Clean.stale {visit next : Visit} {action : DeviceAction} (clean : Clean visit)
    (untimely : ¬ visit.Timely action) (taken : Visit.step visit action = some next) :
    ¬ NoStalePage next := by
  cases action with
  | effect index outcome =>
      cases outcome with
      | granted user => exact clean.stale_of_granted (Classical.not_not.mp untimely) taken
      | done =>
          rcases Classical.not_imp.mp untimely with ⟨⟨ticket, found⟩, entered⟩
          exact stale_of_signOut (Classical.not_not.mp entered) found taken
      | failed => exact absurd trivial untimely
      | createdOnly user => exact absurd trivial untimely
  | resume index username email =>
      rcases Classical.not_imp.mp untimely with ⟨opens, nobody⟩
      exact stale_of_opensHome opens (Classical.not_not.mp nobody) taken
  | _ => exact absurd trivial untimely

/-- **When no page outlives its session.**  In every state of a run of a device
from the launch of the app all pages other than login pages were opened in the
session that is signed in, if and only if every step of the run is timely: no
session begins or ends while a page other than a login page is on the stack, and
the code after an await opens the home page only while somebody is signed in. -/
theorem noStalePage_iff_timely (remembered : Option Uid) (actions : List DeviceAction) :
    Always step NoStalePage (launch remembered) actions ↔
      Guarded step Timely (launch remembered) actions := by
  have holds : ∀ visit : Visit, visit.Clean → visit.NoStalePage := fun _ clean => clean.noStale
  apply always_iff_guarded holds
  · exact fun _ _ _ clean timely taken => clean.step timely taken
  · exact fun _ _ _ clean untimely taken => clean.stale untimely taken
  · exact clean_launch remembered

/-! ## Runs at fixed inputs -/

/-- Log in, open the profile page, log out, and press back. -/
def backAfterLogout : List DeviceAction :=
  [.submit .login, .effect 1 (.granted firstUid), .resume 1 "" "", .tap .profile, .logout,
    .effect 3 .done, .back]

/-- Log in twice from one page, the second time before the first answer. -/
def loginTwice : List DeviceAction :=
  [.submit .login, .effect 1 (.granted firstUid), .submit .login, .resume 1 "" "",
    .effect 2 (.granted secondUid), .resume 2 "" ""]

/-- After the logout back leads from the login page to the profile page of the
session that has ended.  Without any logout, the home page of the first login is
below that of the second. -/
theorem stalePages_backAfterLogout_loginTwice :
    (∃ final, run step (launch none) backAfterLogout = some final ∧
      final.current = none ∧ final.device.top.page = .profile ∧ ¬ NoStalePage final) ∧
    (∃ final, run step (launch none) loginTwice = some final ∧
      final.current = some 2 ∧
      final.device.pushed.map (fun route => (route.page, final.opened route.id)) =
        [(.home, some 2), (.home, some 1)] ∧ ¬ NoStalePage final) := by
  constructor
  · have reached : (run step (launch none) backAfterLogout).map (fun visit =>
        (visit.current, visit.device.top.page)) = some (none, .profile) := by
      decide +kernel
    rcases Option.map_eq_some_iff.mp reached with ⟨final, executed, same⟩
    simp only [Prod.mk.injEq] at same
    refine ⟨final, executed, same.1, same.2, fun noStale => ?_⟩
    apply (noStale final.device.top final.device.mounted_top _).1 same.1
    rw [same.2]
    decide
  · have reached : (run step (launch none) loginTwice).map (fun visit =>
        (visit.current, visit.device.pushed.map fun route =>
          (route.page, visit.opened route.id))) =
        some (some 2, [(.home, some 2), (.home, some 1)]) := by
      decide +kernel
    rcases Option.map_eq_some_iff.mp reached with ⟨final, executed, same⟩
    simp only [Prod.mk.injEq] at same
    refine ⟨final, executed, same.1, same.2, fun noStale => ?_⟩
    have below : (Page.home, some 1) ∈ final.device.pushed.map fun route =>
        (route.page, final.opened route.id) := by
      rw [same.2]
      decide
    rcases List.mem_map.mp below with ⟨route, member, equal⟩
    simp only [Prod.mk.injEq] at equal
    have home : route.page ≠ .loginRegister := by
      rw [equal.1]
      decide
    have now := (noStale route (List.mem_cons_of_mem _ member) home).2
    rw [equal.2, same.1] at now
    exact absurd now (by decide)

end Visit

end DyeIsLife.App
