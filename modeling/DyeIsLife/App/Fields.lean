import DyeIsLife.App.World
import DyeIsLife.Pages.LoginRegister
import DyeIsLife.Pages.Required

/-!
# The forms on the devices

The actions of a device carry the texts that its forms supply.  Here the texts
come from the pages: the user types, clears or leaves fields untouched on the
page on top, and a button saves what the fields of its page hold.  The code
after an await reads the fields of the page that started it, as they are then.

Photos and registrations are saved after their validators have accepted the
form.  The buttons of the discussion, comment and profile pages call
`saveToDatabase` at once.  So the required fields are enforced in the database
exactly when nobody presses one of these three buttons with a required field
empty.
-/

namespace DyeIsLife.App

open DyeIsLife.Auth
open DyeIsLife.Firebase
open DyeIsLife.Navigation
open DyeIsLife.Pages
open DyeIsLife.Records
open DyeIsLife.Transition

/-- The fields of a page, by the kind of page it is; a page uses its own kind
only. -/
structure Fields where
  photo : UploadPhotoPage
  discussion : UploadDiscussionPage
  comment : CommentPage
  profile : EditProfilePage
  login : LoginRegisterPage

/-- The fields of a new page. -/
def Fields.initial (device : Nat) : Fields where
  photo := .initial
  discussion := .initial
  comment := .initial
  profile := .initial
  login := .initial device

/-- All devices with the fields of their pages, by device and by the identity
of the page. -/
structure Forms where
  world : World
  fields : Nat → Nat → Fields

inductive FormAction where
  /-- `ImagePicker.pickImage` returns to a photo page -/
  | getImage (page : Nat) (image : Option File)
  | editPhoto (change : PhotoEdit)
  | editDiscussion (input : DiscussionField) (value : String)
  | editComment (value : String)
  | editProfile (input : ProfileField) (value : String)
  | enter (input : InputField) (text : String)
  | moveToRegister
  | moveToLogin
  /-- the submit button of a login page -/
  | validateAndSubmit
  /-- the code after an await of `AuthImplementation` -/
  | resume (call : Nat)
  /-- the button of a photo page -/
  | uploadStatusImage
  /-- the URL of an upload arrives -/
  | gotUrl (upload : Nat) (url key time : String)
  /-- the button of a discussion page -/
  | saveDiscussion (key time : String)
  /-- the button of a comment page -/
  | saveComment (key time : String)
  /-- the button of a profile page -/
  | saveProfile
  /-- the button of a page for the profile picture, whose form has no fields -/
  | changePicture
  | effect (call : Nat) (outcome : Outcome)
  | logout
  | tap (page : Page)
  | back
  | failUpload (upload : Nat)

/-- An action on one of the devices. -/
structure FormsAction where
  device : Nat
  action : FormAction

namespace Forms

/-- The page on top of a device. -/
def top (forms : Forms) (index : Nat) : Route :=
  (forms.world.devices index).top

/-- The fields of the page on top. -/
def topFields (forms : Forms) (index : Nat) : Fields :=
  forms.fields index (forms.top index).id

/-- Replace the fields of one page. -/
def setFields (forms : Forms) (index page : Nat) (fields : Fields) : Forms :=
  { forms with
    fields := Function.update forms.fields index
      (Function.update (forms.fields index) page fields) }

/-- Change the fields of the page on top, which is of the given kind. -/
def edit (forms : Forms) (index : Nat) (page : Page) (change : Fields → Fields) : Option Forms :=
  if (forms.top index).page = page then
    some (forms.setFields index (forms.top index).id (change (forms.topFields index)))
  else
    none

/-- A step of the device with the texts that the page supplies. -/
def act (forms : Forms) (index : Nat) (action : DeviceAction) : Option Forms :=
  (World.step forms.world ⟨index, action⟩).map fun world => { forms with world }

/-- The login page whose context a call continues in. -/
def loginOf (forms : Forms) (index call : Nat) : LoginRegisterPage :=
  match (forms.world.devices index).session.calls[call]? with
  | some ⟨_, some route, _⟩ => (forms.fields index route.id).login
  | _ => .initial index

/-- `validateAndSubmit` up to its await. -/
def validateAndSubmit (forms : Forms) (index : Nat) : Option Forms :=
  if (forms.top index).page = .loginRegister then
    match (forms.topFields index).login.validateAndSave with
    | none => some forms
    | some saved =>
        (forms.setFields index (forms.top index).id
          { forms.topFields index with login := saved }).act index (.submit saved.formType.caller)
  else
    none

/-- `uploadStatusImage` of a photo page up to its first await.  The form is
shown while an image is selected. -/
def uploadStatusImage (forms : Forms) (index : Nat) : Option Forms :=
  if (forms.top index).page = .uploadPhoto ∧ (forms.topFields index).photo.sampleImage ≠ none then
    match (forms.topFields index).photo.validateAndSave with
    | none => some forms
    | some saved =>
        (forms.setFields index (forms.top index).id
          { forms.topFields index with photo := saved }).act index .startUpload
  else
    none

/-- `uploadStatusImage` after its awaits. -/
def finishUpload (forms : Forms) (index upload : Nat) (url key time : String) : Option Forms :=
  (forms.world.devices index).uploads[upload]?.bind fun route =>
    let photo := UploadPhotoPage.handler.setUrl url (forms.fields index route.id).photo
    (forms.setFields index route.id { forms.fields index route.id with photo }).act index
      (.finishUpload upload url key photo.myValue photo.myLocation time)

/-- One step of the devices with their forms. -/
def step : Step Forms FormsAction
  | forms, ⟨index, .getImage page image⟩ =>
      -- `setState` throws on a disposed page
      if (forms.world.devices index).Mounted ⟨page, .uploadPhoto⟩ then
        some (forms.setFields index page
          { forms.fields index page with
            photo := (forms.fields index page).photo.getImage image })
      else
        some forms
  | forms, ⟨index, .editPhoto change⟩ =>
      if (forms.topFields index).photo.sampleImage ≠ none then
        forms.edit index .uploadPhoto fun fields =>
          { fields with photo := fields.photo.edit change }
      else
        none
  | forms, ⟨index, .editDiscussion input value⟩ =>
      forms.edit index .uploadDiscussion fun fields =>
        { fields with discussion := fields.discussion.onChanged input value }
  | forms, ⟨index, .editComment value⟩ =>
      forms.edit index .comment fun fields =>
        { fields with comment := fields.comment.onChanged value }
  | forms, ⟨index, .editProfile input value⟩ =>
      forms.edit index .editProfile fun fields =>
        { fields with profile := fields.profile.onChanged input value }
  | forms, ⟨index, .enter input text⟩ =>
      forms.edit index .loginRegister fun fields =>
        { fields with login := fields.login.enter input text }
  | forms, ⟨index, .moveToRegister⟩ =>
      forms.edit index .loginRegister fun fields =>
        { fields with login := fields.login.moveToRegister }
  | forms, ⟨index, .moveToLogin⟩ =>
      forms.edit index .loginRegister fun fields =>
        { fields with login := fields.login.moveToLogin }
  | forms, ⟨index, .validateAndSubmit⟩ => forms.validateAndSubmit index
  | forms, ⟨index, .resume call⟩ =>
      forms.act index
        (.resume call (forms.loginOf index call).username (forms.loginOf index call).email)
  | forms, ⟨index, .uploadStatusImage⟩ => forms.uploadStatusImage index
  | forms, ⟨index, .gotUrl upload url key time⟩ => forms.finishUpload index upload url key time
  | forms, ⟨index, .saveDiscussion key time⟩ =>
      let page := (forms.topFields index).discussion
      forms.act index (.saveDiscussion key page.myTitle page.myBody time)
  | forms, ⟨index, .saveComment key time⟩ =>
      forms.act index (.saveComment key (forms.topFields index).comment.myComment time)
  | forms, ⟨index, .saveProfile⟩ =>
      let page := (forms.topFields index).profile
      forms.act index (.saveProfile page.myUsername page.myLocation page.myBio)
  | forms, ⟨index, .changePicture⟩ =>
      if (forms.top index).page = .changeProfilePhoto then forms.act index .startUpload else none
  | forms, ⟨index, .effect call outcome⟩ => forms.act index (.effect call outcome)
  | forms, ⟨index, .logout⟩ => forms.act index .logout
  | forms, ⟨index, .tap page⟩ => forms.act index (.tap page)
  | forms, ⟨index, .back⟩ => forms.act index .back
  | forms, ⟨index, .failUpload upload⟩ => forms.act index (.failUpload upload)

/-- The freshly launched devices over an empty database. -/
def launch (accounts : List Uid) (remembered : Nat → Option Uid) : Forms where
  world := .launch accounts .empty remembered
  fields index _ := .initial index

/-- A button that saves without validating is pressed only while the required
fields of its page are not empty. -/
def Filled (forms : Forms) : FormsAction → Prop
  | ⟨index, .saveDiscussion _ _⟩ =>
      (forms.topFields index).discussion.myTitle ≠ "" ∧
        (forms.topFields index).discussion.myBody ≠ ""
  | ⟨index, .saveComment _ _⟩ => (forms.topFields index).comment.myComment ≠ ""
  | ⟨index, .saveProfile⟩ =>
      (forms.topFields index).profile.myUsername ≠ "" ∧
        (forms.topFields index).profile.myBio ≠ ""
  | _ => True

end Forms

/-! ## Saved fields -/

/-- The saved texts of a photo page, if any, pass its validators. -/
def PhotoPasses (page : UploadPhotoPage) : Prop :=
  page.myValue ≠ some "" ∧ page.myLocation ≠ some ""

/-- The saved texts of a login page pass its validators. -/
def LoginPasses (page : LoginRegisterPage) : Prop :=
  page.username ≠ "" ∧ page.email ≠ ""

theorem photoPasses_of_validateAndSave {page saved : UploadPhotoPage}
    (valid : page.validateAndSave = some saved) : PhotoPasses saved := by
  unfold UploadPhotoPage.validateAndSave at valid
  split at valid
  · rename_i accepted
    cases valid
    simpa [validate, PhotoPasses] using accepted
  · contradiction

theorem loginPasses_of_validateAndSave {page saved : LoginRegisterPage}
    (valid : page.validateAndSave = some saved) : LoginPasses saved := by
  unfold LoginRegisterPage.validateAndSave at valid
  split at valid
  · rename_i accepted
    cases valid
    simp only [validate, List.all_cons, List.all_nil, Bool.and_true, Bool.and_eq_true,
      Option.isNone_iff_eq_none, required_eq_none_iff] at accepted
    exact ⟨accepted.2.1, accepted.1⟩
  · contradiction

/-- A change of the fields that leaves passing saved texts passing. -/
structure Fields.Keeps (before after : Fields) : Prop where
  photo : PhotoPasses before.photo → PhotoPasses after.photo
  login : LoginPasses before.login → LoginPasses after.login

/-- The texts of an action pass the validators of their form. -/
def Passing (device : Device) : DeviceAction → Prop
  | .resume call username email =>
      ∀ ticket user, device.session.calls[call]? = some ⟨.register, ticket, .resolved (some user)⟩ →
        username ≠ "" ∧ email ≠ ""
  | .saveProfile myUsername _ myBio => myUsername ≠ "" ∧ myBio ≠ ""
  | .saveDiscussion _ myTitle myBody _ => myTitle ≠ "" ∧ myBody ≠ ""
  | .saveComment _ myComment _ => myComment ≠ ""
  | .finishUpload _ _ _ myValue myLocation _ => myValue ≠ some "" ∧ myLocation ≠ some ""
  | _ => True

theorem passes_of_issues {device : Device} {action : DeviceAction} {write : Write}
    (issues : device.Issues action write) (passing : Passing device action) : Passes write := by
  cases issues with
  | register answered => exact passing _ _ answered
  | editProfile current => exact passing
  | discussion => exact passing
  | comment onTop => exact passing
  | photo => exact passing
  | changePhoto found page mounted current => exact trivial

/-! ## The invariant -/

namespace Forms

/-- The database is enforced, what the pages have saved passes, and every
sign-up was submitted from a page that had saved its fields. -/
structure Sound (forms : Forms) : Prop where
  enforced : Enforced forms.world.database
  photos : ∀ index page, PhotoPasses (forms.fields index page).photo
  signUps : ∀ index, ∀ call ∈ (forms.world.devices index).session.calls,
    call.caller = .register →
      ∃ route, call.ticket = some route ∧ LoginPasses (forms.fields index route.id).login
  assigned : ∀ index, (forms.world.devices index).Assigned

theorem fields_setFields (forms : Forms) (index page index' page' : Nat) (fields : Fields) :
    (forms.setFields index page fields).fields index' page' =
      if index' = index ∧ page' = page then fields else forms.fields index' page' := by
  simp only [setFields, Function.update_apply]
  split <;> simp_all [Function.update_apply]

theorem sound_launch (accounts : List Uid) (remembered : Nat → Option Uid) :
    (launch accounts remembered).Sound where
  enforced := enforced_empty
  photos _ _ := ⟨nofun, nofun⟩
  signUps := by
    intro index call member register
    cases List.mem_singleton.mp member
    contradiction
  assigned _ _ := ⟨rfl, rfl⟩

theorem Sound.setFields {forms : Forms} (sound : forms.Sound) {index page : Nat} {fields : Fields}
    (keeps : (forms.fields index page).Keeps fields) :
    (forms.setFields index page fields).Sound where
  enforced := sound.enforced
  photos := by
    intro index' page'
    rw [fields_setFields]
    split
    · exact keeps.photo (sound.photos index page)
    · exact sound.photos index' page'
  signUps := by
    intro index' call member register
    rcases sound.signUps index' call member register with ⟨route, ticket, passes⟩
    refine ⟨route, ticket, ?_⟩
    rw [fields_setFields]
    split
    · rename_i same
      rw [same.1, same.2] at passes
      exact keeps.login passes
    · exact passes
  assigned := sound.assigned

theorem Sound.edit {forms next : Forms} (sound : forms.Sound) {index : Nat} {page : Page}
    {change : Fields → Fields} (taken : forms.edit index page change = some next)
    (keeps : ∀ fields : Fields, fields.Keeps (change fields)) : next.Sound := by
  unfold Forms.edit at taken
  split at taken
  · cases taken
    exact sound.setFields (keeps _)
  · contradiction

/-- A step of a device whose texts pass. -/
theorem Sound.act {forms next : Forms} (sound : forms.Sound) {index : Nat} {action : DeviceAction}
    (taken : forms.act index action = some next)
    (passing : Passing (forms.world.devices index) action)
    (submitted : action = .submit .register → LoginPasses (forms.topFields index).login) :
    next.Sound := by
  rcases Option.map_eq_some_iff.mp taken with ⟨world, moved, rfl⟩
  have moves := World.moves_of_step moved
  constructor
  · cases moves with
    | silent stepped => exact sound.enforced
    | writes stepped issues fresh =>
        exact (enforced_apply_iff sound.enforced _).mpr (passes_of_issues issues passing)
  · exact sound.photos
  · intro index' call member register
    rcases moves.device with ⟨device, write, stepped, devices⟩
    simp only [devices] at member
    by_cases same : index' = index
    · subst same
      rw [Function.update_self] at member
      rcases Device.register_of_step stepped member register with
        ⟨old, oldMember, oldRegister, ticket⟩ | ⟨submits, ticket⟩
      · rw [← ticket]
        exact sound.signUps index' old oldMember oldRegister
      · exact ⟨_, ticket, submitted submits⟩
    · rw [Function.update_of_ne same] at member
      exact sound.signUps index' call member register
  · exact World.assigned_step sound.assigned moved

theorem topFields_setFields (forms : Forms) (index : Nat) (fields : Fields) :
    (forms.setFields index (forms.top index).id fields).topFields index = fields := by
  change (forms.setFields index (forms.top index).id fields).fields index (forms.top index).id = _
  rw [fields_setFields, if_pos ⟨rfl, rfl⟩]

theorem Sound.validateAndSubmit {forms next : Forms} (sound : forms.Sound) {index : Nat}
    (taken : forms.validateAndSubmit index = some next) : next.Sound := by
  unfold Forms.validateAndSubmit at taken
  split at taken
  · split at taken
    · cases taken
      exact sound
    · rename_i saved valid
      have passes := loginPasses_of_validateAndSave valid
      have kept : (forms.topFields index).Keeps { forms.topFields index with login := saved } :=
        ⟨id, fun _ => passes⟩
      apply (sound.setFields kept).act taken trivial
      intro _
      rw [topFields_setFields]
      exact passes
  · contradiction

theorem Sound.uploadStatusImage {forms next : Forms} (sound : forms.Sound) {index : Nat}
    (taken : forms.uploadStatusImage index = some next) : next.Sound := by
  unfold Forms.uploadStatusImage at taken
  split at taken
  · split at taken
    · cases taken
      exact sound
    · rename_i saved valid
      have kept : (forms.topFields index).Keeps { forms.topFields index with photo := saved } :=
        ⟨fun _ => photoPasses_of_validateAndSave valid, id⟩
      exact (sound.setFields kept).act taken trivial nofun
  · contradiction

theorem Sound.finishUpload {forms next : Forms} (sound : forms.Sound) {index upload : Nat}
    {url key time : String} (taken : forms.finishUpload index upload url key time = some next) :
    next.Sound := by
  rcases Option.bind_eq_some_iff.mp taken with ⟨route, _, finished⟩
  have kept : (forms.fields index route.id).Keeps
      { forms.fields index route.id with
        photo := UploadPhotoPage.handler.setUrl url (forms.fields index route.id).photo } :=
    ⟨id, id⟩
  have passes : PhotoPasses (forms.fields index route.id).photo := sound.photos index route.id
  exact (sound.setFields kept).act finished passes nofun

/-- The fields that the code after the await of a sign-up reads. -/
theorem Sound.loginOf {forms : Forms} (sound : forms.Sound) {index call : Nat}
    {ticket : Option Route} {phase : Phase}
    (found : (forms.world.devices index).session.calls[call]? = some ⟨.register, ticket, phase⟩) :
    LoginPasses (forms.loginOf index call) := by
  rcases sound.signUps index _ (List.mem_of_getElem? found) rfl with ⟨route, rfl, passes⟩
  simp only [Forms.loginOf, found]
  exact passes

theorem Sound.step {forms next : Forms} {action : FormsAction} (sound : forms.Sound)
    (filled : forms.Filled action) (taken : Forms.step forms action = some next) :
    next.Sound := by
  unfold Forms.step at taken
  rcases action with ⟨index, action⟩
  cases action with
  | getImage page image =>
      simp only at taken
      split at taken
      · cases taken
        exact sound.setFields ⟨id, id⟩
      · cases taken
        exact sound
  | editPhoto change =>
      simp only at taken
      split at taken
      · apply sound.edit taken
        intro fields
        cases change <;> exact ⟨id, id⟩
      · contradiction
  | editDiscussion input value => exact sound.edit taken fun _ => ⟨id, id⟩
  | editComment value => exact sound.edit taken fun _ => ⟨id, id⟩
  | editProfile input value => exact sound.edit taken fun _ => ⟨id, id⟩
  | enter input text =>
      apply sound.edit taken
      intro fields
      cases input <;> exact ⟨id, id⟩
  | moveToRegister => exact sound.edit taken fun _ => ⟨id, id⟩
  | moveToLogin => exact sound.edit taken fun _ => ⟨id, id⟩
  | validateAndSubmit => exact sound.validateAndSubmit taken
  | resume call => exact sound.act taken (fun _ _ answered => sound.loginOf answered) nofun
  | uploadStatusImage => exact sound.uploadStatusImage taken
  | gotUrl upload url key time => exact sound.finishUpload taken
  | saveDiscussion key time => exact sound.act taken filled nofun
  | saveComment key time => exact sound.act taken filled nofun
  | saveProfile => exact sound.act taken filled nofun
  | changePicture =>
      simp only at taken
      split at taken
      · exact sound.act taken trivial nofun
      · contradiction
  | effect call outcome => exact sound.act taken trivial nofun
  | logout => exact sound.act taken trivial nofun
  | tap page => exact sound.act taken trivial nofun
  | back => exact sound.act taken trivial nofun
  | failUpload upload => exact sound.act taken trivial nofun

/-! ## Buttons that do not validate -/

/-- A step of a device that always writes. -/
theorem written_of_act {forms next : Forms} {index : Nat} {action : DeviceAction}
    (taken : forms.act index action = some next)
    (loud : ∀ device, (forms.world.devices index).step action ≠ some (device, none)) :
    ∃ write, (forms.world.devices index).Issues action write ∧
      next.world.database = write.apply forms.world.database := by
  rcases Option.map_eq_some_iff.mp taken with ⟨world, moved, rfl⟩
  cases World.moves_of_step moved with
  | silent stepped => exact absurd stepped (loud _)
  | writes stepped issues fresh => exact ⟨_, issues, rfl⟩

theorem database_of_saveDiscussion {forms next : Forms} {index : Nat} {key time : String}
    (taken : step forms ⟨index, .saveDiscussion key time⟩ = some next) :
    next.world.database = ((forms.topFields index).discussion.saveToDatabase
      (forms.world.devices index).session.currentUser key time).apply forms.world.database := by
  have loud : ∀ device, (forms.world.devices index).step (.saveDiscussion key
      (forms.topFields index).discussion.myTitle (forms.topFields index).discussion.myBody
      time) ≠ some (device, none) := by
    intro device silent
    simp only [Device.step] at silent
    split at silent <;> cases silent
  rcases written_of_act taken loud with ⟨write, issues, database⟩
  cases issues
  exact database

theorem database_of_saveComment {forms next : Forms} {index : Nat} {key time : String}
    (taken : step forms ⟨index, .saveComment key time⟩ = some next) :
    next.world.database = ((forms.topFields index).comment.saveToDatabase
      (forms.world.devices index).session.currentUser key time).apply forms.world.database := by
  have loud : ∀ device, (forms.world.devices index).step (.saveComment key
      (forms.topFields index).comment.myComment time) ≠ some (device, none) := by
    intro device silent
    simp only [Device.step] at silent
    split at silent <;> cases silent
  rcases written_of_act taken loud with ⟨write, issues, database⟩
  cases issues
  exact database

/-- Past the login page `child(currentUser)` does not throw. -/
theorem Sound.database_of_saveProfile {forms next : Forms} (sound : forms.Sound) {index : Nat}
    (taken : Forms.step forms ⟨index, .saveProfile⟩ = some next) :
    ∃ write, (forms.topFields index).profile.saveToDatabase
        (forms.world.devices index).session.currentUser = some write ∧
      next.world.database = write.apply forms.world.database := by
  have loud : ∀ device, (forms.world.devices index).step (.saveProfile
      (forms.topFields index).profile.myUsername (forms.topFields index).profile.myLocation
      (forms.topFields index).profile.myBio) ≠ some (device, none) := by
    intro device silent
    simp only [Device.step] at silent
    split at silent
    · rename_i onTop
      have past : (forms.world.devices index).Past := by
        apply Device.past_of_top
        simp [onTop]
      split at silent
      · rename_i absent
        exact (sound.assigned index).ne_none past absent
      · cases silent
    · cases silent
  rcases written_of_act taken loud with ⟨write, issues, database⟩
  cases issues
  rename_i current
  refine ⟨_, ?_, database⟩
  rw [EditProfilePage.saveToDatabase, current]
  rfl

theorem Sound.not_enforced {forms next : Forms} {action : FormsAction} (sound : forms.Sound)
    (unfilled : ¬ forms.Filled action) (taken : Forms.step forms action = some next) :
    ¬ Enforced next.world.database := by
  rcases action with ⟨index, action⟩
  cases action with
  | saveDiscussion key time =>
      rw [database_of_saveDiscussion taken, enforced_apply_iff sound.enforced]
      exact unfilled
  | saveComment key time =>
      rw [database_of_saveComment taken, enforced_apply_iff sound.enforced]
      exact unfilled
  | saveProfile =>
      rcases sound.database_of_saveProfile taken with ⟨write, saved, database⟩
      rcases Option.map_eq_some_iff.mp saved with ⟨currentUser, _, rfl⟩
      rw [database, enforced_apply_iff sound.enforced]
      exact unfilled
  | _ => exact absurd trivial unfilled

/-- From an empty database, for every sequence of edits, presses and other
steps on any devices: the required fields are enforced in the database all
along exactly when no button that saves without validating is pressed with a
required field empty. -/
theorem enforced_iff_filled (accounts : List Uid) (remembered : Nat → Option Uid)
    (actions : List FormsAction) :
    Always step (fun forms => Enforced forms.world.database) (launch accounts remembered) actions ↔
      Guarded step Filled (launch accounts remembered) actions := by
  have holds : ∀ forms : Forms, forms.Sound → Enforced forms.world.database :=
    fun _ sound => sound.enforced
  apply always_iff_guarded holds
  · intro forms action next sound filled taken
    exact sound.step filled taken
  · intro forms action next sound unfilled taken
    exact sound.not_enforced unfilled taken
  · exact sound_launch accounts remembered

/-- A remembered user opens the discussion page, types a title, clears it
again, and presses the button. -/
def clearedTitle : List FormsAction :=
  [⟨0, .effect 0 .done⟩, ⟨0, .resume 0⟩, ⟨0, .tap .choosePost⟩,
    ⟨0, .tap .uploadDiscussion⟩, ⟨0, .editDiscussion .title "Indigo"⟩,
    ⟨0, .editDiscussion .title ""⟩, ⟨0, .saveDiscussion "key" "time"⟩]

/-- The discussion is stored with an empty title. -/
theorem empty_title_stored :
    ∃ final, run step (launch [firstUid] fun _ => some firstUid) clearedTitle = some final ∧
      Store.leaf? (final.world.database.value (discussionsRef ++ ["key", "title"])) = some "" ∧
      ¬ Enforced final.world.database := by
  have stored : (run step (launch [firstUid] fun _ => some firstUid) clearedTitle).map
      (fun forms => Store.leaf? (forms.world.database.value
        (discussionsRef ++ ["key", "title"]))) = some (some "") := by
    decide +kernel
  rcases Option.map_eq_some_iff.mp stored with ⟨final, executed, title⟩
  refine ⟨final, executed, title, fun enforced => ?_⟩
  have passed := enforced _ "" title _ (.title "key")
  exact (required_eq_none_iff _ "").mp passed rfl

end Forms

end DyeIsLife.App
