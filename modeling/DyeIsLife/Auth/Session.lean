import DyeIsLife.Firebase.Database
import DyeIsLife.Transition.Core

/-!
# Authentication sessions

One device has one Firebase user and one static variable
`AuthImplementation.currentUser`.  The four operations of `AuthImplementation`
are asynchronous: each is started by a page, takes effect in Firebase at some
later moment or fails there, and `signIn`, `signUp` and `getCurrentUser` then
run the Dart code after their await.  `signOut` clears the variable first and
does not await the Firebase call, so it has no code left to run.

Any number of calls may be in flight.  A call keeps the ticket its caller
started it with; what the ticket holds is up to the page that is modelled.
-/

namespace DyeIsLife.Auth

open DyeIsLife.Firebase
open DyeIsLife.Transition

/-! ## The Dart code around the Firebase calls -/

namespace AuthImplementation

/-- `signIn` after its await: `currentUser = user.uid`. -/
def signIn (user : Uid) : Option String := some user.val

/-- `signUp` after its await: `currentUser = user.uid`. -/
def signUp (user : Uid) : Option String := some user.val

/-- `getCurrentUser` after its await: a null user leaves `currentUser` as it
is. -/
def getCurrentUser (user : Option Uid) (currentUser : Option String) : Option String :=
  match user with
  | none => currentUser
  | some user => some user.val

/-- `signOut` before the Firebase call: `currentUser = ""`. -/
def signOut : Option String := some ""

end AuthImplementation

/-- The operations of `AuthImplementation`. -/
inductive Operation where
  | signIn
  | signUp
  | getCurrentUser
  | signOut
  deriving DecidableEq

/-- The places in the pages that start an operation. -/
inductive Caller where
  /-- `_MappingPageState.initState` -/
  | mappingInit
  /-- `_HomePageState.initState` -/
  | homeInit
  /-- `validateAndSubmit` of a login form -/
  | login
  /-- `validateAndSubmit` of a register form -/
  | register
  /-- `_ProfilePageState.logoutUser` -/
  | logout
  deriving DecidableEq

/-- The operation a caller starts. -/
def Caller.operation : Caller → Operation
  | .mappingInit => .getCurrentUser
  | .homeInit => .getCurrentUser
  | .login => .signIn
  | .register => .signUp
  | .logout => .signOut

/-- How Firebase disposes of a call. -/
inductive Outcome where
  /-- a sign-in or sign-up succeeds for this user -/
  | granted (user : Uid)
  /-- the current user has been read, or the sign-out has been carried out -/
  | done
  /-- the call fails and the Firebase user stays as it is -/
  | failed
  /-- a sign-up creates this account, and a later request of the same call fails:
  the call fails and the Firebase user stays as it is -/
  | createdOnly (user : Uid)
  deriving DecidableEq

/-- Where a call stands. -/
inductive Phase where
  /-- Firebase has not acted on the call yet -/
  | started
  /-- Firebase has answered; the code after the await has not run yet -/
  | resolved (user : Option Uid)
  /-- nothing of the call is left to run -/
  | finished
  deriving DecidableEq

structure Call (π : Type) where
  caller : Caller
  ticket : π
  phase : Phase

/-- The session state of one device, with every call started on it so far. -/
structure Session (π : Type) where
  firebaseUser : Option Uid
  currentUser : Option String
  calls : List (Call π)

inductive Action (π : Type) where
  | start (caller : Caller) (ticket : π)
  | effect (call : Nat) (outcome : Outcome)
  | resume (call : Nat)

variable {π : Type}

/-- The atomic effect of a call on the Firebase user, with the phase the call
is in afterwards.  An outcome that does not belong to the operation has no
effect to model. -/
def firebaseEffect (user : Option Uid) : Operation → Outcome → Option (Option Uid × Phase)
  | .signIn, .granted granted => some (some granted, .resolved (some granted))
  | .signUp, .granted granted => some (some granted, .resolved (some granted))
  | .getCurrentUser, .done => some (user, .resolved user)
  | .signOut, .done => some (none, .finished)
  | .getCurrentUser, .granted _ => none
  | .signOut, .granted _ => none
  | .signIn, .done => none
  | .signUp, .done => none
  | .signUp, .createdOnly _ => some (user, .finished)
  | .signIn, .createdOnly _ => none
  | .getCurrentUser, .createdOnly _ => none
  | .signOut, .createdOnly _ => none
  | _, .failed => some (user, .finished)

/-- `currentUser` after the code that follows an operation's await. -/
def afterAwait (operation : Operation) (user : Option Uid) (currentUser : Option String) :
    Option String :=
  match operation, user with
  | .signIn, some user => AuthImplementation.signIn user
  | .signUp, some user => AuthImplementation.signUp user
  | .getCurrentUser, user => AuthImplementation.getCurrentUser user currentUser
  | _, _ => currentUser

namespace Session

/-- Start a call.  Only `signOut` touches `currentUser` before its Firebase
call. -/
def start (session : Session π) (caller : Caller) (ticket : π) : Session π :=
  { session with
    currentUser :=
      if caller.operation = .signOut then AuthImplementation.signOut else session.currentUser
    calls := session.calls ++ [⟨caller, ticket, .started⟩] }

/-- Let Firebase act on a started call. -/
def effect (session : Session π) (index : Nat) (outcome : Outcome) : Option (Session π) :=
  match session.calls[index]? with
  | some ⟨caller, ticket, .started⟩ =>
      (firebaseEffect session.firebaseUser caller.operation outcome).map fun (user, phase) =>
        { session with
          firebaseUser := user
          calls := session.calls.set index ⟨caller, ticket, phase⟩ }
  | _ => none

/-- Run the code after the await of an answered call. -/
def resume (session : Session π) (index : Nat) : Option (Session π) :=
  match session.calls[index]? with
  | some ⟨caller, ticket, .resolved user⟩ =>
      some { session with
        currentUser := afterAwait caller.operation user session.currentUser
        calls := session.calls.set index ⟨caller, ticket, .finished⟩ }
  | _ => none

/-- One step of a session. -/
def step : Step (Session π) (Action π)
  | session, .start caller ticket => some (session.start caller ticket)
  | session, .effect index outcome => session.effect index outcome
  | session, .resume index => session.resume index

/-- The session of a freshly launched app: Firebase may remember a user,
`currentUser` is null, and `MappingPage.initState` has started its call. -/
def launch (remembered : Option Uid) (ticket : π) : Session π where
  firebaseUser := remembered
  currentUser := none
  calls := [⟨.mappingInit, ticket, .started⟩]

/-! ## What one step can do -/

theorem effect_eq_some_iff (session next : Session π) (index : Nat) (outcome : Outcome) :
    session.effect index outcome = some next ↔
      ∃ caller ticket user phase,
        session.calls[index]? = some ⟨caller, ticket, .started⟩ ∧
        firebaseEffect session.firebaseUser caller.operation outcome = some (user, phase) ∧
        next = { session with
          firebaseUser := user
          calls := session.calls.set index ⟨caller, ticket, phase⟩ } := by
  unfold effect
  constructor
  · intro taken
    split at taken
    · rename_i caller ticket found
      obtain ⟨⟨user, phase⟩, acted, rfl⟩ := Option.map_eq_some_iff.mp taken
      exact ⟨caller, ticket, user, phase, found, acted, rfl⟩
    · contradiction
  · rintro ⟨caller, ticket, user, phase, found, acted, rfl⟩
    rw [found]
    simp [acted]

theorem resume_eq_some_iff (session next : Session π) (index : Nat) :
    session.resume index = some next ↔
      ∃ caller ticket user,
        session.calls[index]? = some ⟨caller, ticket, .resolved user⟩ ∧
        next = { session with
          currentUser := afterAwait caller.operation user session.currentUser
          calls := session.calls.set index ⟨caller, ticket, .finished⟩ } := by
  unfold resume
  constructor
  · intro taken
    split at taken
    · rename_i caller ticket user found
      exact ⟨caller, ticket, user, found, (Option.some.inj taken).symm⟩
    · contradiction
  · rintro ⟨caller, ticket, user, found, rfl⟩
    rw [found]

/-- The ways in which Firebase can act on a call. -/
theorem firebaseEffect_cases {before after : Option Uid} {operation : Operation}
    {outcome : Outcome} {phase : Phase}
    (acted : firebaseEffect before operation outcome = some (after, phase)) :
    (∃ user, (operation = .signIn ∨ operation = .signUp) ∧ outcome = .granted user ∧
      after = some user ∧ phase = .resolved (some user)) ∨
    (operation = .getCurrentUser ∧ outcome = .done ∧ after = before ∧
      phase = .resolved before) ∨
    (operation = .signOut ∧ outcome = .done ∧ after = none ∧ phase = .finished) ∨
    ((outcome = .failed ∨ operation = .signUp ∧ ∃ user, outcome = .createdOnly user) ∧
      after = before ∧ phase = .finished) := by
  cases operation <;> cases outcome <;>
    simp only [firebaseEffect, Option.some.injEq, Prod.mk.injEq, reduceCtorEq] at acted <;>
    obtain ⟨rfl, rfl⟩ := acted <;> simp

theorem afterAwait_some {operation : Operation} (awaited : operation ≠ .signOut) (user : Uid)
    (currentUser : Option String) :
    afterAwait operation (some user) currentUser = some user.val := by
  cases operation with
  | signOut => contradiction
  | signIn => rfl
  | signUp => rfl
  | getCurrentUser => rfl

theorem afterAwait_none (operation : Operation) (currentUser : Option String) :
    afterAwait operation none currentUser = currentUser := by
  cases operation <;> rfl

/-- The code after an await never assigns null. -/
theorem afterAwait_ne_none {operation : Operation} {user : Option Uid}
    {currentUser : Option String} (present : currentUser ≠ none) :
    afterAwait operation user currentUser ≠ none := by
  cases operation <;> cases user <;>
    simp [afterAwait, AuthImplementation.signIn, AuthImplementation.signUp,
      AuthImplementation.getCurrentUser, present]

/-- Once `currentUser` is assigned it is never null again. -/
theorem step_currentUser_ne_none {session next : Session π} {action : Action π}
    (present : session.currentUser ≠ none) (taken : step session action = some next) :
    next.currentUser ≠ none := by
  cases action with
  | start caller ticket =>
      cases taken
      simp only [start]
      split
      · simp [AuthImplementation.signOut]
      · exact present
  | effect index outcome =>
      obtain ⟨_, _, _, _, _, _, rfl⟩ := (effect_eq_some_iff _ _ _ _).mp taken
      exact present
  | resume index =>
      obtain ⟨_, _, _, _, rfl⟩ := (resume_eq_some_iff _ _ _).mp taken
      exact afterAwait_ne_none present

end Session

end DyeIsLife.Auth
