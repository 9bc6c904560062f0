import DyeIsLife.App.World
import DyeIsLife.Records.UserInfo

/-!
# Profile writes and the session

The registration, the profile edit and the photo change locate the record they
write by a uid: the answer of `signUp`, or `AuthImplementation.currentUser`.
A logout leaves the pages of the session on the stack and sets `currentUser` to
the empty string, and `child("")` is `UserInfo` itself.  A save from a page left
behind then puts texts where the records of the accounts should be.

As long as the profile pages save while `currentUser` is the uid of the user
signed in, whose record exists, and `signUp` continues while its account is the
one signed in, `UserInfo` keeps its shape and every write stays inside the
record of the signed-in user.
-/

namespace DyeIsLife.App

open DyeIsLife.Auth
open DyeIsLife.Firebase
open DyeIsLife.Records
open DyeIsLife.Store
open DyeIsLife.Transition

/-- Every child of `UserInfo` is the complete record of an account. -/
def Shaped (accounts : List Uid) (db : Database) : Prop :=
  ∀ key ∈ keys (children (db.value userInfoRef)),
    ∃ uid ∈ accounts, uid.val = key ∧ Complete db uid

/-- A step that writes to `UserInfo` is taken while a user is signed in on the
device, and changes nothing in the database outside the record of that user. -/
def WritesConfined (world : World) (action : WorldAction) (next : World) : Prop :=
  ∀ device write, (world.devices action.device).step action.action = some (device, some write) →
    write.area = "UserInfo" →
      ∃ user, (world.devices action.device).session.firebaseUser = some user ∧
        ∀ other, Apart (recordRef user) other →
          next.database.value other = world.database.value other

/-- A user is signed in on the device, `currentUser` is that user's uid, and the
user has a record. -/
def ownRecord (world : World) (device : Device) : Bool :=
  match device.session.firebaseUser with
  | none => false
  | some user =>
      device.session.currentUser = some user.val && (world.database.value (recordRef user)).isSome

/-- The profile pages save while the device has its own record to write to, and
the code after a sign-up runs while the new account is the one signed in. -/
def upheld (world : World) (action : WorldAction) : Bool :=
  let device := world.devices action.device
  match action.action with
  | .saveProfile _ _ _ => ownRecord world device
  | .finishUpload index _ _ _ _ _ =>
      match device.uploads[index]? with
      | some route =>
          route.page ≠ .changeProfilePhoto || !device.Mounted route || ownRecord world device
      | none => true
  | .resume index _ _ =>
      match device.session.calls[index]? with
      | some ⟨.register, _, .resolved (some user)⟩ => device.session.firebaseUser = some user
      | _ => true
  | _ => true

/-! ## Shape -/

theorem Shaped.mono {accounts accounts' : List Uid} {db : Database}
    (shaped : Shaped accounts db) (more : accounts ⊆ accounts') : Shaped accounts' db := by
  intro key member
  rcases shaped key member with ⟨uid, known, same, complete⟩
  exact ⟨uid, more known, same, complete⟩

/-- Where a record exists it is the complete record of an account. -/
theorem Shaped.complete {accounts : List Uid} {db : Database} (shaped : Shaped accounts db)
    {user : Uid} (present : (db.value (recordRef user)).isSome = true) :
    user ∈ accounts ∧ Complete db user := by
  have member : user.val ∈ keys (children (db.value userInfoRef)) := by
    rw [recordRef, child_uid, Database.value_append, get_cons, get_nil] at present
    apply mem_keys_of_lookup_ne_none
    intro absent
    rw [absent] at present
    contradiction
  rcases shaped user.val member with ⟨uid, known, same, complete⟩
  cases Uid.ext_val same
  exact ⟨known, complete⟩

theorem Shaped.elsewhere {accounts : List Uid} {db : Database} (shaped : Shaped accounts db)
    {write : Write} (other : write.area ≠ "UserInfo") : Shaped accounts (write.apply db) := by
  have same : ∀ below, (write.apply db).value (userInfoRef ++ below) =
      db.value (userInfoRef ++ below) := by
    intro below
    rw [userInfoRef_eq]
    exact write.value_apply_of_area_ne db other below
  intro key member
  have here := same []
  rw [List.append_nil] at here
  rw [here] at member
  rcases shaped key member with ⟨uid, known, sameKey, complete⟩
  refine ⟨uid, known, sameKey, ?_⟩
  intro name field
  rw [Records.field, recordRef, child_uid, List.append_assoc, same, ← List.append_assoc,
    ← child_uid]
  exact complete name field

/-- A write confined to the record of an account, which is complete afterwards,
keeps the shape. -/
theorem Shaped.confined {accounts : List Uid} {db : Database} (shaped : Shaped accounts db)
    {write : Write} {user : Uid} (known : user ∈ accounts) (confined : Confined write user)
    (complete : Complete (write.apply db) user) : Shaped accounts (write.apply db) := by
  intro key member
  by_cases own : key = user.val
  · exact ⟨user, known, own.symm, complete⟩
  · have apart : Apart (recordRef user) (userInfoRef ++ [key]) := by
      rw [recordRef, child_uid]
      exact apart_append_of_ne userInfoRef [] [] (Ne.symm own)
    have same := confined.value_apply db apart
    rw [Database.value_append, Database.value_append, get_cons, get_nil, get_cons, get_nil]
      at same
    have before : key ∈ keys (children (db.value userInfoRef)) := by
      apply mem_keys_of_lookup_ne_none
      rw [← same]
      intro absent
      exact (lookup_eq_none_iff_not_mem_keys _ _).mp absent member
    rcases shaped key before with ⟨uid, uidKnown, rfl, uidComplete⟩
    have differ : user ≠ uid := fun equal => own (congrArg Uid.val equal.symm)
    refine ⟨uid, uidKnown, rfl, ?_⟩
    intro name field
    rw [confined.field_apply db differ]
    exact uidComplete name field

/-! ## Answered sign-ups have accounts -/

/-- The accounts of all sign-ups that have been answered. -/
def Answered (world : World) : Prop :=
  ∀ index, ∀ call ∈ (world.devices index).session.calls, ∀ user,
    call.caller = .register → call.phase = .resolved (some user) → user ∈ world.accounts

/-- A sign-up that is answered after a step was answered before, or the step
has created its account. -/
theorem answered_of_step {device next : Device} {action : DeviceAction} {write : Option Write}
    (taken : device.step action = some (next, write)) {call : Call (Option Route)} {user : Uid}
    (member : call ∈ next.session.calls) (register : call.caller = .register)
    (resolved : call.phase = .resolved (some user)) :
    call ∈ device.session.calls ∨ user ∈ created device action := by
  have unstarted : call.phase ≠ .started := by simp [resolved]
  have started : ∀ {caller : Caller} {ticket : Option Route},
      call ∈ (device.session.start caller ticket).calls → call ∈ device.session.calls := by
    intro caller ticket inStarted
    rcases List.mem_append.mp inStarted with old | new
    · exact old
    · cases List.mem_singleton.mp new
      contradiction
  cases Device.moves_of_step taken with
  | stays => exact .inl member
  | pops onTop => exact .inl member
  | starts => exact .inl (started member)
  | acts same moved =>
      rcases (Session.effect_eq_some_iff _ _ _ _).mp moved with
        ⟨caller, ticket, after, phase, found, acted, rfl⟩
      rcases List.mem_or_eq_of_mem_set member with old | rfl
      · exact .inl old
      · right
        cases register
        cases resolved
        rcases Session.firebaseEffect_cases acted with
          ⟨granted, _, rfl, _, answered⟩ | ⟨operation, _⟩ | ⟨operation, _⟩ | ⟨_, _, finished⟩
        · cases answered
          simp [same, created, found]
        · contradiction
        · contradiction
        · contradiction
  | resumes same found moved =>
      rcases (Session.resume_eq_some_iff _ _ _).mp moved with ⟨caller, ticket, answer, _, rfl⟩
      rcases Device.mem_calls_proceed member with inSession | rfl
      · rcases List.mem_or_eq_of_mem_set inSession with old | rfl
        · exact .inl old
        · contradiction
      · contradiction
  | pushes entered origin =>
      rcases Device.mem_calls_push member with inSession | rfl
      · rcases origin with rfl | rfl
        · exact .inl inSession
        · exact .inl (started inSession)
      · contradiction

theorem Answered.step {world next : World} {action : WorldAction} (answered : Answered world)
    (taken : World.step world action = some next) : Answered next := by
  have moves := World.moves_of_step taken
  intro index call member user register resolved
  rw [moves.accounts]
  rcases moves.device with ⟨device, write, moved, devices⟩
  rw [devices] at member
  by_cases same : index = action.device
  · subst same
    rw [Function.update_self] at member
    rcases answered_of_step moved member register resolved with old | new
    · exact List.mem_append_left _ (answered _ call old user register resolved)
    · exact List.mem_append_right _ new
  · rw [Function.update_of_ne same] at member
    exact List.mem_append_left _ (answered index call member user register resolved)

/-! ## The invariant of upheld runs -/

structure Kept (world : World) : Prop where
  shaped : Shaped world.accounts world.database
  answered : Answered world

theorem exists_of_ownRecord {world : World} {device : Device}
    (own : ownRecord world device = true) :
    ∃ user, device.session.firebaseUser = some user ∧
      device.session.currentUser = some user.val ∧
      (world.database.value (recordRef user)).isSome = true := by
  unfold ownRecord at own
  split at own
  · contradiction
  · rename_i user signedIn
    simp only [Bool.and_eq_true, decide_eq_true_eq] at own
    exact ⟨user, signedIn, own.1, own.2⟩

/-- A profile write of an upheld step goes to the record of the account signed
in, and leaves that record complete. -/
theorem Kept.confined_write {world : World} (kept : Kept world) {index : Nat}
    {action : DeviceAction} (met : upheld world ⟨index, action⟩ = true) {write : Write}
    (issues : (world.devices index).Issues action write) (area : write.area = "UserInfo") :
    ∃ user, (world.devices index).session.firebaseUser = some user ∧
      user ∈ world.accounts ∧ Confined write user ∧
      Complete (write.apply world.database) user := by
  cases issues with
  | @register call username email ticket user answered =>
      simp only [upheld, answered, decide_eq_true_eq] at met
      have known := kept.answered index _ (List.mem_of_getElem? answered) user rfl rfl
      exact ⟨user, met, known, confined_register user username email,
        complete_register world.database user username email⟩
  | editProfile current =>
      rcases exists_of_ownRecord met with ⟨user, signedIn, own, present⟩
      cases current.symm.trans own
      rcases kept.shaped.complete present with ⟨known, complete⟩
      exact ⟨user, signedIn, known, confined_editProfile user _ _ _,
        complete.editProfile _ _ _⟩
  | changePhoto found page mounted current =>
      have own : ownRecord world (world.devices index) = true := by
        simpa [upheld, found, page, mounted] using met
      rcases exists_of_ownRecord own with ⟨user, signedIn, same, present⟩
      cases current.symm.trans same
      rcases kept.shaped.complete present with ⟨known, complete⟩
      exact ⟨user, signedIn, known, confined_changePhoto user _, complete.changePhoto _⟩
  | discussion => simp [Write.area] at area
  | comment onTop => simp [Write.area] at area
  | photo => simp [Write.area] at area

theorem Kept.step {world next : World} {action : WorldAction} (kept : Kept world)
    (met : upheld world action = true) (taken : World.step world action = some next) :
    Kept next ∧ WritesConfined world action next := by
  have answered := kept.answered.step taken
  rcases action with ⟨index, action⟩
  cases World.moves_of_step taken with
  | silent moved =>
      constructor
      · exact ⟨kept.shaped.mono (List.subset_append_left _ _), answered⟩
      · intro device write written
        cases moved.symm.trans written
  | @writes device write moved issues fresh =>
      have more := List.subset_append_left world.accounts
        (created (world.devices index) action)
      by_cases area : write.area = "UserInfo"
      · rcases kept.confined_write met issues area with
          ⟨user, signedIn, known, confined, complete⟩
        constructor
        · exact ⟨(kept.shaped.confined known confined complete).mono more, answered⟩
        · intro _ _ _ _
          exact ⟨user, signedIn, fun other apart => confined.value_apply world.database apart⟩
      · constructor
        · exact ⟨(kept.shaped.elsewhere area).mono more, answered⟩
        · intro device' write' written inArea
          cases moved.symm.trans written
          exact absurd inArea area

/-- **`UserInfo` keeps its shape and its records apart along upheld runs.**
Over every number of devices and users, every child of `UserInfo` stays the
complete record of an account, and every step that writes to `UserInfo` stays
inside the record of the user signed in on the device that takes it. -/
theorem userInfo_kept_of_upheld (accounts : List Uid) (db : Database)
    (remembered : Nat → Option Uid) (actions : List WorldAction) (final : World)
    (shaped : Shaped accounts db)
    (met : Guarded World.step (fun world action => upheld world action = true)
      (World.launch accounts db remembered) actions)
    (executed : run World.step (World.launch accounts db remembered) actions = some final) :
    Shaped final.accounts final.database ∧
      Stepwise World.step WritesConfined (World.launch accounts db remembered) actions := by
  have launched : Kept (World.launch accounts db remembered) := by
    constructor
    · exact shaped
    · intro index call member user register
      cases List.mem_singleton.mp member
      contradiction
  have kept := invariant_of_guarded
    (fun _ _ _ kept met taken => (Kept.step kept met taken).1) launched met executed
  constructor
  · exact kept.shaped
  · apply stepwise_of_guarded _ launched met
    intro world action next kept met taken
    exact Kept.step kept met taken

/-! ## Runs at fixed inputs -/

/-- Register and edit the profile. -/
def editAfterRegistration : List WorldAction :=
  [⟨0, .submit .register⟩, ⟨0, .effect 1 (.granted firstUid)⟩, ⟨0, .resume 1 "a" "a@x"⟩,
    ⟨0, .tap .profile⟩, ⟨0, .tap .editProfile⟩, ⟨0, .saveProfile "b" "here" "hello"⟩]

theorem userInfo_kept_editAfterRegistration :
    ∃ final, run World.step (World.launch [] .empty fun _ => none) editAfterRegistration =
        some final ∧
      final.log.map Issued.write =
        [.register firstUid "a" "a@x", .editProfile firstUid.val "b" "here" "hello"] ∧
      Shaped final.accounts final.database ∧
      Stepwise World.step WritesConfined (World.launch [] .empty fun _ => none)
        editAfterRegistration := by
  have shaped : Shaped [] .empty := nofun
  have met : Guarded World.step (fun world action => upheld world action = true)
      (World.launch [] .empty fun _ => none) editAfterRegistration := by
    decide +kernel
  have written : (run World.step (World.launch [] .empty fun _ => none)
      editAfterRegistration).map (fun world => world.log.map Issued.write) =
        some [.register firstUid "a" "a@x", .editProfile firstUid.val "b" "here" "hello"] := by
    decide +kernel
  rcases Option.map_eq_some_iff.mp written with ⟨final, executed, log⟩
  exact ⟨final, executed, log,
    userInfo_kept_of_upheld [] .empty (fun _ => none) editAfterRegistration final shaped met
      executed⟩

/-- After the edit, log out and go back to the edit page. -/
def backToEditPage : List WorldAction :=
  editAfterRegistration ++ [⟨0, .logout⟩, ⟨0, .effect 3 .done⟩, ⟨0, .back⟩, ⟨0, .back⟩]

/-- Save again from there. -/
def saveAfterLogout : List WorldAction :=
  backToEditPage ++ [⟨0, .saveProfile "x" "y" "z"⟩]

/-- With nobody signed in the texts are written next to the records. -/
theorem userInfo_broken_saveAfterLogout :
    (∃ final, run World.step (World.launch [] .empty fun _ => none) saveAfterLogout =
        some final ∧
      keys (children (final.database.value userInfoRef)) =
        [firstUid.val, "username", "location", "bio"] ∧
      ¬ Shaped final.accounts final.database) ∧
    ¬ Stepwise World.step WritesConfined (World.launch [] .empty fun _ => none)
      saveAfterLogout := by
  constructor
  · have reached : (run World.step (World.launch [] .empty fun _ => none) saveAfterLogout).map
        (fun world => (keys (children (world.database.value userInfoRef)), world.accounts)) =
        some ([firstUid.val, "username", "location", "bio"], [firstUid]) := by
      decide +kernel
    rcases Option.map_eq_some_iff.mp reached with ⟨final, executed, same⟩
    simp only [Prod.mk.injEq] at same
    rcases same with ⟨children, accounts⟩
    refine ⟨final, executed, children, ?_⟩
    intro shaped
    have member : "username" ∈ keys (Store.children (final.database.value userInfoRef)) := by
      rw [children]
      decide
    rcases shaped "username" member with ⟨uid, known, named, _⟩
    rw [accounts] at known
    cases List.mem_singleton.mp known
    exact absurd named (by decide)
  · intro confined
    have reached : (run World.step (World.launch [] .empty fun _ => none) backToEditPage).map
        (fun world => ((world.devices 0).session.firebaseUser,
          ((world.devices 0).step (.saveProfile "x" "y" "z")).map Prod.snd,
          (World.step world ⟨0, .saveProfile "x" "y" "z"⟩).isSome)) =
        some (none, some (some (.editProfile "" "x" "y" "z")), true) := by
      decide +kernel
    rcases Option.map_eq_some_iff.mp reached with ⟨world, executed, same⟩
    simp only [Prod.mk.injEq] at same
    rcases same with ⟨nobody, writes, enabled⟩
    rcases Option.map_eq_some_iff.mp writes with ⟨⟨device, write⟩, stepped, rfl⟩
    rcases Option.isSome_iff_exists.mp enabled with ⟨next, taken⟩
    rcases confined.at_step executed taken device _ stepped rfl with ⟨user, signedIn, _⟩
    rw [nobody] at signedIn
    contradiction

end DyeIsLife.App
