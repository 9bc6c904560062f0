import DyeIsLife.Auth.Session

/-!
# When `currentUser` agrees with Firebase

With no call in flight, `AuthImplementation.currentUser` should be the uid of
the Firebase user, or null or empty when there is none.  It is not so in every
run: an answered `getCurrentUser` may run its code after a logout, and a
sign-out that fails in Firebase has cleared the variable already.

The agreement does hold along every run in which no call is disturbed: an
answer is used while Firebase still has the user it names, a sign-out takes
effect while the variable is still empty, and neither a sign-out of a signed-in
user nor the first read of a remembered user fails.
-/

namespace DyeIsLife.Auth

open DyeIsLife.Firebase
open DyeIsLife.Transition

variable {π : Type}

/-- `currentUser` is null, as at launch, or empty, as after `signOut`. -/
def Cleared (currentUser : Option String) : Prop :=
  currentUser = none ∨ currentUser = some ""

instance (currentUser : Option String) : Decidable (Cleared currentUser) :=
  inferInstanceAs (Decidable (_ ∨ _))

namespace Session

/-- `currentUser` is the uid of the Firebase user, or cleared when there is no
such user. -/
def Coherent (session : Session π) : Prop :=
  (∀ user, session.firebaseUser = some user → session.currentUser = some user.val) ∧
    (session.firebaseUser = none → Cleared session.currentUser)

/-- No call is in flight. -/
def Quiescent (session : Session π) : Prop :=
  ∀ call ∈ session.calls, call.phase = .finished

instance (session : Session π) : Decidable session.Quiescent :=
  inferInstanceAs (Decidable (∀ call ∈ session.calls, call.phase = .finished))

/-- The conditions under which a step disturbs no other call. -/
def Undisturbed (session : Session π) : Action π → Prop
  | .start _ _ => True
  | .effect index outcome =>
      ∀ call, session.calls[index]? = some call →
        (call.caller.operation = .signOut → outcome = .done → Cleared session.currentUser) ∧
        (call.caller.operation = .signOut → outcome = .failed →
          session.firebaseUser = none) ∧
        (call.caller.operation = .getCurrentUser → outcome = .failed →
          session.firebaseUser = none ∨ session.currentUser ≠ none)
  | .resume index =>
      ∀ call user, session.calls[index]? = some call → call.phase = .resolved (some user) →
        session.firebaseUser = some user

/-! ## The invariant of undisturbed runs -/

/-- A call in flight that will make `currentUser` agree with Firebase: an
answer still to be used, a sign-out still to take effect, or the first read
still to be made. -/
def Repairs (session : Session π) (call : Call π) : Prop :=
  (∃ user, call.phase = .resolved (some user) ∧ session.firebaseUser = some user) ∨
    (call.caller.operation = .signOut ∧ call.phase = .started) ∨
    (call.caller.operation = .getCurrentUser ∧ call.phase = .started ∧
      session.currentUser = none)

/-- Without a Firebase user the variable is cleared; with one it names that
user, or a call in flight will repair it.  Sign-outs never wait for an
answer. -/
structure Settling (session : Session π) : Prop where
  signedOut : session.firebaseUser = none → Cleared session.currentUser
  signedIn : ∀ user, session.firebaseUser = some user →
    session.currentUser = some user.val ∨
      ∃ (index : Nat) (call : Call π), session.calls[index]? = some call ∧ session.Repairs call
  awaited : ∀ (index : Nat) (call : Call π) (answer : Option Uid),
    session.calls[index]? = some call → call.phase = .resolved answer →
      call.caller.operation ≠ .signOut

theorem settling_launch (remembered : Option Uid) (ticket : π) :
    Settling (launch remembered ticket) where
  signedOut _ := .inl rfl
  signedIn _ _ := .inr ⟨0, _, rfl, .inr (.inr ⟨rfl, rfl, rfl⟩)⟩
  awaited index call answer found resolved := by
    obtain rfl := List.mem_singleton.mp (List.mem_of_getElem? found)
    contradiction

theorem Settling.coherent {session : Session π} (settling : Settling session)
    (quiescent : session.Quiescent) : session.Coherent := by
  constructor
  · intro user signedIn
    rcases settling.signedIn user signedIn with agrees | ⟨index, call, found, repairs⟩
    · exact agrees
    · have finished := quiescent call (List.mem_of_getElem? found)
      rcases repairs with ⟨_, resolved, _⟩ | ⟨_, started⟩ | ⟨_, started, _⟩
      · rw [finished] at resolved
        contradiction
      · rw [finished] at started
        contradiction
      · rw [finished] at started
        contradiction
  · exact settling.signedOut

/-- A new call disturbs nothing; a new sign-out is itself a call in flight that
repairs the cleared variable. -/
theorem Settling.start {session : Session π} (settling : Settling session) (caller : Caller)
    (ticket : π) : Settling (session.start caller ticket) where
  signedOut nobody := by
    simp only [Session.start] at nobody ⊢
    split
    · exact .inr rfl
    · exact settling.signedOut nobody
  signedIn user signedIn := by
    by_cases leaving : caller.operation = .signOut
    · exact .inr ⟨session.calls.length, ⟨caller, ticket, .started⟩, by simp [Session.start],
        .inr (.inl ⟨leaving, rfl⟩)⟩
    · rcases settling.signedIn user signedIn with agrees | ⟨index, call, found, repairs⟩
      · left
        simpa [Session.start, leaving] using agrees
      · right
        refine ⟨index, call, ?_, by simpa [Session.start, Repairs, leaving] using repairs⟩
        have inside := (List.getElem?_eq_some_iff.mp found).1
        simpa [Session.start, List.getElem?_append_left inside] using found
  awaited index call answer found resolved := by
    rcases List.mem_append.mp (List.mem_of_getElem? found) with earlier | new
    · obtain ⟨other, foundOther⟩ := List.mem_iff_getElem?.mp earlier
      exact settling.awaited other call answer foundOther resolved
    · obtain rfl := List.mem_singleton.mp new
      contradiction

/-- A call other than the one whose phase changes still repairs. -/
theorem repaired_of_other_call {session : Session π} {index other : Nat} {call : Call π}
    (moved : Call π) (found : session.calls[other]? = some call)
    (repairs : session.Repairs call) (apart : other ≠ index) :
    ∃ (index' : Nat) (call : Call π),
      (session.calls.set index moved)[index']? = some call ∧
        { session with calls := session.calls.set index moved }.Repairs call :=
  ⟨other, call, (List.getElem?_set_ne (Ne.symm apart)).trans found, repairs⟩

/-- Changing the phase of one call keeps sign-outs from waiting for an answer,
when that call is no waiting sign-out itself. -/
theorem Settling.awaited_set {session : Session π} (settling : Settling session)
    {index : Nat} {moved : Call π}
    (fine : ∀ answer, moved.phase = .resolved answer → moved.caller.operation ≠ .signOut)
    (other : Nat) (call : Call π) (answer : Option Uid)
    (found : (session.calls.set index moved)[other]? = some call)
    (resolved : call.phase = .resolved answer) : call.caller.operation ≠ .signOut := by
  rcases List.mem_or_eq_of_mem_set (List.mem_of_getElem? found) with earlier | rfl
  · obtain ⟨position, foundThere⟩ := List.mem_iff_getElem?.mp earlier
    exact settling.awaited position call answer foundThere resolved
  · exact fine answer resolved

theorem Settling.effect {session next : Session π} {index : Nat} {outcome : Outcome}
    (settling : Settling session) (undisturbed : session.Undisturbed (.effect index outcome))
    (taken : session.effect index outcome = some next) : Settling next := by
  obtain ⟨caller, ticket, user, phase, found, acted, rfl⟩ :=
    (effect_eq_some_iff _ _ _ _).mp taken
  obtain ⟨whenOut, whenFailed, whenUnread⟩ := undisturbed _ found
  have inside : index < session.calls.length := (List.getElem?_eq_some_iff.mp found).1
  rcases firebaseEffect_cases acted with
    ⟨granted, entering, _, rfl, rfl⟩ | ⟨reading, _, rfl, rfl⟩ | ⟨leaving, rfl, rfl, rfl⟩ |
      ⟨failed, rfl, rfl⟩
  · -- a granted sign-in waits to be used
    constructor
    · exact nofun
    · intro user signedIn
      exact .inr ⟨index, _, List.getElem?_set_self inside, .inl ⟨granted, rfl, rfl⟩⟩
    · apply settling.awaited_set
      rcases entering with signIn | signUp
      · simp [signIn]
      · simp [signUp]
  · -- a read of the current user waits to be used
    constructor
    · exact settling.signedOut
    · intro user signedIn
      exact .inr ⟨index, _, List.getElem?_set_self inside,
        .inl ⟨user, congrArg _ signedIn, signedIn⟩⟩
    · apply settling.awaited_set
      simp [reading]
  · exact ⟨fun _ => whenOut leaving rfl, nofun, settling.awaited_set nofun⟩
  · -- a failed call repairs nothing, so something else does
    constructor
    · exact settling.signedOut
    · intro user signedIn
      rcases settling.signedIn user signedIn with agrees | ⟨other, call, foundOther, repairs⟩
      · exact .inl agrees
      · by_cases same : other = index
        · subst other
          obtain rfl := Option.some.inj (found.symm.trans foundOther)
          rcases repairs with ⟨_, resolved, _⟩ | ⟨leaving, _⟩ | ⟨reading, _, unread⟩
          · contradiction
          · rcases failed with failed | ⟨signUp, _⟩
            · cases (whenFailed leaving failed).symm.trans signedIn
            · cases leaving.symm.trans signUp
          · rcases failed with failed | ⟨signUp, _⟩
            · rcases whenUnread reading failed with nobody | assigned
              · cases nobody.symm.trans signedIn
              · contradiction
            · cases reading.symm.trans signUp
        · exact .inr (repaired_of_other_call _ foundOther repairs same)
    · exact settling.awaited_set nofun

theorem Settling.resume {session next : Session π} {index : Nat}
    (settling : Settling session) (undisturbed : session.Undisturbed (.resume index))
    (taken : session.resume index = some next) : Settling next := by
  obtain ⟨caller, ticket, answer, found, rfl⟩ := (resume_eq_some_iff _ _ _).mp taken
  have awaited := settling.awaited index _ answer found rfl
  cases answer with
  | none =>
      -- nobody was signed in when the read was made: the variable stays
      rw [afterAwait_none]
      constructor
      · exact settling.signedOut
      · intro user signedIn
        rcases settling.signedIn user signedIn with agrees | ⟨other, call, foundOther, repairs⟩
        · exact .inl agrees
        · by_cases same : other = index
          · subst other
            obtain rfl := Option.some.inj (found.symm.trans foundOther)
            rcases repairs with ⟨_, resolved, _⟩ | ⟨_, started⟩ | ⟨_, started, _⟩
            · cases resolved
            · cases started
            · cases started
          · exact .inr (repaired_of_other_call _ foundOther repairs same)
      · exact settling.awaited_set nofun
  | some user =>
      have still : session.firebaseUser = some user := undisturbed _ user found rfl
      rw [afterAwait_some awaited]
      constructor
      · intro nobody
        cases still.symm.trans nobody
      · intro other signedIn
        obtain rfl := Option.some.inj (still.symm.trans signedIn)
        exact .inl rfl
      · exact settling.awaited_set nofun

theorem Settling.step {session next : Session π} {action : Action π}
    (settling : Settling session) (undisturbed : session.Undisturbed action)
    (taken : step session action = some next) : Settling next := by
  cases action with
  | start caller ticket =>
      cases taken
      exact settling.start caller ticket
  | effect index outcome => exact settling.effect undisturbed taken
  | resume index => exact settling.resume undisturbed taken

/-- **Session coherence.**  Along every run from the launch of the app in which
no call is disturbed, `currentUser` agrees with Firebase in every state reached
without a call in flight. -/
theorem coherent_of_undisturbed (remembered : Option Uid) (ticket : π)
    (actions : List (Action π)) (final : Session π)
    (undisturbed : Guarded Session.step Undisturbed (launch remembered ticket) actions)
    (executed : run Session.step (launch remembered ticket) actions = some final)
    (quiescent : final.Quiescent) : final.Coherent :=
  (invariant_of_guarded (fun _ _ _ settling met taken => settling.step met taken)
    (settling_launch remembered ticket) undisturbed executed).coherent quiescent

/-! ## Runs at fixed inputs -/

/-- A launch with a remembered user, followed by a logout. -/
def quietLogout : List (Action Unit) :=
  [.effect 0 .done, .resume 0, .start .logout (), .effect 1 .done]

theorem coherent_quietLogout :
    ∃ final, run Session.step (launch (some firstUid) ()) quietLogout = some final ∧
      final.currentUser = some "" ∧ final.Coherent := by
  refine ⟨_, rfl, rfl, coherent_of_undisturbed (some firstUid) () quietLogout _ ?_ rfl ?_⟩
  · refine .cons rfl (fun call found => ?_) (.cons rfl (fun call user found resolved => ?_)
      (.cons rfl trivial (.cons rfl (fun call found => ?_) trivial)))
    · cases found
      exact ⟨nofun, nofun, nofun⟩
    · cases found
      cases resolved
      rfl
    · cases found
      exact ⟨fun _ _ => .inr rfl, nofun, nofun⟩
  · decide

/-- `HomePage.initState` has its answer when the user logs out; its code runs
after the sign-out took effect. -/
def undoneLogout : List (Action Unit) :=
  [.effect 0 .done, .resume 0, .start .homeInit (), .effect 1 .done, .start .logout (),
    .effect 2 .done, .resume 1]

/-- The sign-out fails in Firebase. -/
def failedLogout : List (Action Unit) :=
  [.effect 0 .done, .resume 0, .start .logout (), .effect 1 .failed]

/-- Both runs end with no call in flight and without coherence: after the
completed logout `currentUser` is a uid again although nobody is signed in, and
after the failed logout it is empty although Firebase kept its user. -/
theorem incoherent_logouts :
    (∃ final, run Session.step (launch (some firstUid) ()) undoneLogout = some final ∧
      final.Quiescent ∧ final.firebaseUser = none ∧ final.currentUser = some firstUid.val ∧
      ¬ final.Coherent) ∧
    (∃ final, run Session.step (launch (some firstUid) ()) failedLogout = some final ∧
      final.Quiescent ∧ final.firebaseUser = some firstUid ∧ final.currentUser = some "" ∧
      ¬ final.Coherent) := by
  refine ⟨⟨_, rfl, ?_, rfl, rfl, fun coherent => ?_⟩, ⟨_, rfl, ?_, rfl, rfl, fun coherent => ?_⟩⟩
  · decide
  · exact absurd (coherent.2 rfl) (by decide)
  · decide
  · exact absurd (coherent.1 firstUid rfl) (by decide)

end Session

end DyeIsLife.Auth
