import DyeIsLife.Auth.Session
import DyeIsLife.Navigation.Page
import DyeIsLife.Records.Writes

/-!
# Upload pages

`UploadPhotoPage` and `ChangeProfilePhotoPage` carry separately written copies
of one handler, `uploadStatusImage`: validate the form, start uploading the
selected image, wait for the upload and then for its URL, push the next page,
and save to the database.  `Handler` holds what the copies differ in, and
`Screen` is one such page during a run: its fields, whether it is still
mounted, the pages above it, the session of the device, every upload pressed so
far and every write issued so far.

The user may pick, type and press while uploads are in flight, navigate above
the page and back, sign out and in, and pop the page itself.  Each upload keeps
a copy of the fields and of the signed-in user of its press; the handler never
looks at these copies.
-/

namespace DyeIsLife.Pages

open DyeIsLife.Auth
open DyeIsLife.Firebase
open DyeIsLife.Navigation
open DyeIsLife.Records
open DyeIsLife.Transition

/-! ## Forms -/

/-- The validator of a required text field: the message to show, if any. -/
def required (message value : String) : Option String :=
  if value = "" then some message else none

/-- `FormState.validate`: no validator has a message to show. -/
def validate (messages : List (Option String)) : Bool :=
  messages.all Option.isNone

/-! ## The handler -/

/-- A local image file. -/
abbrev File := String

/-- The parts in which the copies of `uploadStatusImage` differ, over the
fields `σ` of the page's state and the edits `ε` of its form. -/
structure Handler (σ ε : Type) where
  /-- the storage folder -/
  folder : String
  sampleImage : σ → Option File
  /-- `setState` in `getImage` -/
  setImage : Option File → σ → σ
  /-- typing into a form field -/
  edit : ε → σ → σ
  /-- the fields after `form.save()`, or nothing when validation fails -/
  validateAndSave : σ → Option σ
  /-- `url = imageUrl.toString()` -/
  setUrl : String → σ → σ
  /-- the write of `saveToDatabase(url)`, or nothing when it throws; `key` is
  the pushed key, `time` the formatted time -/
  saveToDatabase : σ → (currentUser : Option String) → (url key time : String) → Option Write
  /-- the page that `goToHomePage` pushes -/
  goToHomePage : Page

/-- Where an upload stands. -/
inductive UploadPhase where
  /-- `uploadTask.onComplete` is awaited -/
  | uploading
  /-- `getDownloadURL()` is awaited -/
  | fetching
  /-- the URL has arrived and the rest of the handler has run or thrown -/
  | completed
  /-- one of the two awaits failed -/
  | failed
  deriving DecidableEq

/-- An accepted press of the upload button. -/
structure Upload (σ : Type) where
  file : File
  /-- the storage path given to `putFile` -/
  path : String
  phase : UploadPhase
  /-- the fields of the page after `form.save()` at the press -/
  pressed : σ
  /-- the user signed in at the press -/
  signedIn : Option Uid

namespace Upload

variable {σ : Type}

/-- The handler of this press has not come back yet. -/
def InFlight (upload : Upload σ) : Prop :=
  upload.phase = .uploading ∨ upload.phase = .fetching

end Upload

/-- An upload page during a run. -/
structure Screen (σ : Type) where
  page : σ
  mounted : Bool
  /-- the pages above the upload page, the top one first -/
  above : List Page
  session : Session Unit
  uploads : List (Upload σ)
  /-- the writes issued so far, each with the press that caused it -/
  writes : List (Nat × Write)

inductive UploadAction (ε : Type) where
  /-- `ImagePicker.pickImage` returns an image, or null when cancelled -/
  | picked (image : Option File)
  | edit (change : ε)
  /-- the upload button; `timeKey` is `DateTime.now().toString()` -/
  | press (timeKey : String)
  /-- `uploadTask.onComplete` completes -/
  | uploaded (index : Nat)
  /-- `getDownloadURL()` completes -/
  | gotUrl (index : Nat) (key time : String)
  /-- one of the two awaits completes with an error -/
  | failed (index : Nat)
  /-- a page above pushes another page -/
  | opened (page : Page)
  /-- system back -/
  | back
  /-- a step of the session of the device -/
  | auth (action : Action Unit)

namespace Handler

variable {σ ε : Type} (handler : Handler σ ε)

/-- `uploadStatusImage` up to its first await.  The button is part of the form,
which is shown while an image is selected. -/
def uploadStatusImage (screen : Screen σ) (timeKey : String) : Option (Screen σ) :=
  (handler.sampleImage screen.page).map fun image =>
    match handler.validateAndSave screen.page with
    | none => screen
    | some saved =>
        { screen with
          page := saved
          uploads := screen.uploads ++ [{
            file := image
            path := handler.folder ++ "/" ++ timeKey ++ ".jpg"
            phase := .uploading
            pressed := saved
            signedIn := screen.session.firebaseUser }] }

/-- Move an upload to another phase. -/
def setPhase (screen : Screen σ) (index : Nat) (upload : Upload σ) (phase : UploadPhase) :
    Screen σ :=
  { screen with uploads := screen.uploads.set index { upload with phase } }

/-- `uploadStatusImage` after its awaits.  `goToHomePage` throws when the page
has been disposed of, and then nothing is saved. -/
def finish (screen : Screen σ) (index : Nat) (upload : Upload σ) (url key time : String) :
    Screen σ :=
  let page := handler.setUrl url screen.page
  let screen := { setPhase screen index upload .completed with page }
  if screen.mounted then
    let screen := { screen with above := handler.goToHomePage :: screen.above }
    match handler.saveToDatabase page screen.session.currentUser url key time with
    | none => screen
    | some write => { screen with writes := screen.writes ++ [(index, write)] }
  else
    screen

variable (urlOf : Nat → File → String)

/-- One step of an upload page.  `urlOf index file` is the URL that the storage
service returns for the upload of `file` by that press. -/
def step : Step (Screen σ) (UploadAction ε)
  | screen, .picked image =>
      -- `setState` throws on a disposed page
      some (if screen.mounted then
        { screen with page := handler.setImage image screen.page } else screen)
  | screen, .edit change =>
      if screen.mounted ∧ screen.above = [] ∧ (handler.sampleImage screen.page).isSome then
        some { screen with page := handler.edit change screen.page }
      else
        none
  | screen, .press timeKey =>
      if screen.mounted ∧ screen.above = [] then
        handler.uploadStatusImage screen timeKey
      else
        none
  | screen, .uploaded index =>
      screen.uploads[index]?.bind fun upload =>
        if upload.phase = .uploading then some (setPhase screen index upload .fetching)
        else none
  | screen, .gotUrl index key time =>
      screen.uploads[index]?.bind fun upload =>
        if upload.phase = .fetching then
          some (handler.finish screen index upload (urlOf index upload.file) key time)
        else none
  | screen, .failed index =>
      screen.uploads[index]?.bind fun upload =>
        if upload.phase = .uploading ∨ upload.phase = .fetching then
          some (setPhase screen index upload .failed)
        else none
  | screen, .opened page =>
      if screen.above ≠ [] then some { screen with above := page :: screen.above } else none
  | screen, .back =>
      match screen.above with
      | _ :: rest => some { screen with above := rest }
      | [] => if screen.mounted then some { screen with mounted := false } else none
  | screen, .auth action =>
      (screen.session.step action).map fun session => { screen with session }

/-- The page when it is opened on a device with the given session. -/
def openedOn (page : σ) (session : Session Unit) : Screen σ where
  page
  mounted := true
  above := []
  session
  uploads := []
  writes := []

/-! ## What one step can do -/

/-- The steps of an upload page, one constructor for each kind. -/
inductive Moves (screen : Screen σ) : UploadAction ε → Screen σ → Prop
  | edits {action : UploadAction ε} {page : σ}
      (change : (∃ image, page = handler.setImage image screen.page) ∨
        ∃ edit, page = handler.edit edit screen.page) :
      Moves screen action { screen with page }
  | navigates {action : UploadAction ε} {mounted : Bool} {above : List Page}
      (stays : mounted = true → screen.mounted = true) :
      Moves screen action { screen with mounted, above }
  | presses {timeKey : String} {next : Screen σ} (mounted : screen.mounted = true)
      (taken : handler.uploadStatusImage screen timeKey = some next) :
      Moves screen (.press timeKey) next
  | proceeds {action : UploadAction ε} {index : Nat} {upload : Upload σ} {phase : UploadPhase}
      (found : screen.uploads[index]? = some upload) (inFlight : upload.InFlight)
      (unfinished : phase ≠ .completed) :
      Moves screen action (setPhase screen index upload phase)
  | finishes {index : Nat} {upload : Upload σ} {key time : String}
      (found : screen.uploads[index]? = some upload) (fetching : upload.phase = .fetching) :
      Moves screen (.gotUrl index key time)
        (handler.finish screen index upload (urlOf index upload.file) key time)
  | auth {action : Action Unit} {session : Session Unit}
      (taken : screen.session.step action = some session) :
      Moves screen (.auth action) { screen with session }

variable {handler urlOf}

theorem moves_of_step {screen next : Screen σ} {action : UploadAction ε}
    (taken : handler.step urlOf screen action = some next) :
    handler.Moves urlOf screen action next := by
  cases action with
  | picked image =>
      cases taken
      split
      · exact .edits (.inl ⟨image, rfl⟩)
      · exact .navigates id
  | edit change =>
      simp only [step] at taken
      split at taken
      · cases taken
        exact .edits (.inr ⟨change, rfl⟩)
      · contradiction
  | press timeKey =>
      simp only [step] at taken
      split at taken
      · rename_i onTop
        exact .presses onTop.1 taken
      · contradiction
  | uploaded index =>
      rcases Option.bind_eq_some_iff.mp taken with ⟨upload, found, moved⟩
      split at moved
      · rename_i uploading
        cases moved
        exact .proceeds found (.inl uploading) nofun
      · contradiction
  | gotUrl index key time =>
      rcases Option.bind_eq_some_iff.mp taken with ⟨upload, found, moved⟩
      split at moved
      · rename_i fetching
        cases moved
        exact .finishes found fetching
      · contradiction
  | failed index =>
      rcases Option.bind_eq_some_iff.mp taken with ⟨upload, found, moved⟩
      split at moved
      · rename_i inFlight
        cases moved
        exact .proceeds found inFlight nofun
      · contradiction
  | opened page =>
      simp only [step] at taken
      split at taken
      · cases taken
        exact .navigates id
      · contradiction
  | back =>
      simp only [step] at taken
      split at taken
      · cases taken
        exact .navigates id
      · split at taken
        · cases taken
          exact .navigates nofun
        · contradiction
  | auth action =>
      rcases Option.map_eq_some_iff.mp taken with ⟨session, moved, rfl⟩
      exact .auth moved

end Handler

/-! ## The two pages -/

/-- The fields of `_UploadPhotoPageState` and the texts its form shows. -/
structure UploadPhotoPage where
  sampleImage : Option File
  myValue : Option String
  myLocation : Option String
  url : Option String
  descriptionText : String
  locationText : String
  deriving DecidableEq

inductive PhotoEdit where
  | description (text : String)
  | location (text : String)

namespace UploadPhotoPage

/-- The page when it is created. -/
def initial : UploadPhotoPage where
  sampleImage := none
  myValue := none
  myLocation := none
  url := none
  descriptionText := ""
  locationText := ""

/-- `getImage`.  Without an image the form is not shown and loses its texts. -/
def getImage (image : Option File) (page : UploadPhotoPage) : UploadPhotoPage :=
  { page with
    sampleImage := image
    descriptionText := if image.isSome then page.descriptionText else ""
    locationText := if image.isSome then page.locationText else "" }

def edit : PhotoEdit → UploadPhotoPage → UploadPhotoPage
  | .description text, page => { page with descriptionText := text }
  | .location text, page => { page with locationText := text }

/-- `validateAndSave`. -/
def validateAndSave (page : UploadPhotoPage) : Option UploadPhotoPage :=
  if validate [required "Description is required" page.descriptionText,
      required "location is required" page.locationText] then
    some { page with
      myValue := some page.descriptionText
      myLocation := some page.locationText }
  else
    none

/-- `saveToDatabase(url)`. -/
def saveToDatabase (page : UploadPhotoPage) (currentUser : Option String)
    (url key time : String) : Option Write :=
  some (.photo key currentUser url page.myValue page.myLocation time)

/-- The copy of the handler in `PhotoUpload.dart`. -/
def handler : Handler UploadPhotoPage PhotoEdit where
  folder := "Post Images"
  sampleImage := UploadPhotoPage.sampleImage
  setImage := getImage
  edit := edit
  validateAndSave := validateAndSave
  setUrl url page := { page with url := some url }
  saveToDatabase := saveToDatabase
  goToHomePage := .home

end UploadPhotoPage

/-- The fields of `_ChangeProfilePhotoPageState`; its form has no fields. -/
structure ChangeProfilePhotoPage where
  sampleImage : Option File
  url : Option String
  deriving DecidableEq

namespace ChangeProfilePhotoPage

/-- The page when it is created. -/
def initial : ChangeProfilePhotoPage where
  sampleImage := none
  url := none

/-- `saveToDatabase(url)`: `child(currentUser)` throws when it is null. -/
def saveToDatabase (_ : ChangeProfilePhotoPage) (currentUser : Option String)
    (url _key _time : String) : Option Write :=
  currentUser.map fun currentUser => .changePhoto currentUser url

/-- The copy of the handler in `ChangeProfilePhoto.dart`. -/
def handler : Handler ChangeProfilePhotoPage Empty where
  folder := "Profile Images"
  sampleImage := ChangeProfilePhotoPage.sampleImage
  setImage image page := { page with sampleImage := image }
  edit change := nomatch change
  validateAndSave page := if validate [] then some page else none
  setUrl url page := { page with url := some url }
  saveToDatabase := saveToDatabase
  goToHomePage := .profile

end ChangeProfilePhotoPage

end DyeIsLife.Pages
