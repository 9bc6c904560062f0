import DyeIsLife.Pages.Upload
import DyeIsLife.Records.Profiles

/-!
# Forms that save what was typed

`UploadDiscussionPage`, `CommentPage` and `EditProfilePage` copy each text from
`onChanged` into a field of their state, and their buttons call
`saveToDatabase` directly.  The `validateAndSave` methods of the first and the
last are never called, so neither validators nor `onSaved` callbacks run.  A
field that was not typed into still holds its initial text.

For the profile page this decides what an edit does to the rest of the record:
the three texts are always written, typed or not.
-/

namespace DyeIsLife.Pages

open DyeIsLife.Firebase
open DyeIsLife.Records

/-! ## The pages -/

/-- The fields of `_UploadDiscussionPageState`. -/
structure UploadDiscussionPage where
  myBody : String
  myTitle : String
  deriving DecidableEq

/-- The text fields of `UploadDiscussionPage`. -/
inductive DiscussionField where
  | title
  | body
  deriving DecidableEq

namespace UploadDiscussionPage

/-- The page when it is created. -/
def initial : UploadDiscussionPage where
  myBody := " "
  myTitle := " "

/-- `onChanged` of a text field. -/
def onChanged (page : UploadDiscussionPage) : DiscussionField → String → UploadDiscussionPage
  | .title, value => { page with myTitle := value }
  | .body, value => { page with myBody := value }

/-- `saveToDatabase`. -/
def saveToDatabase (page : UploadDiscussionPage) (currentUser : Option String)
    (key time : String) : Write :=
  .discussion key currentUser page.myTitle page.myBody time

end UploadDiscussionPage

/-- The field of `_CommentPageState` that its form fills. -/
structure CommentPage where
  myComment : String
  deriving DecidableEq

namespace CommentPage

/-- The page when it is created. -/
def initial : CommentPage where
  myComment := ""

/-- `onChanged` of the text field. -/
def onChanged (_ : CommentPage) (value : String) : CommentPage where
  myComment := value

/-- `saveToDatabase`. -/
def saveToDatabase (page : CommentPage) (currentUser : Option String) (key time : String) :
    Write :=
  .comment key currentUser page.myComment time

end CommentPage

/-- The fields of `_EditProfilePageState`. -/
structure EditProfilePage where
  myUsername : String
  myBio : String
  myLocation : String
  deriving DecidableEq

/-- The text fields of `EditProfilePage`. -/
inductive ProfileField where
  | username
  | location
  | bio
  deriving DecidableEq

/-- The key under which `saveToDatabase` stores a field. -/
def ProfileField.key : ProfileField → String
  | .username => "username"
  | .location => "location"
  | .bio => "bio"

namespace EditProfilePage

/-- The page when it is created. -/
def initial : EditProfilePage where
  myUsername := " "
  myBio := " "
  myLocation := " "

/-- `onChanged` of a text field. -/
def onChanged (page : EditProfilePage) : ProfileField → String → EditProfilePage
  | .username, value => { page with myUsername := value }
  | .location, value => { page with myLocation := value }
  | .bio, value => { page with myBio := value }

/-- `saveToDatabase`: `child(currentUser)` throws when it is null. -/
def saveToDatabase (page : EditProfilePage) (currentUser : Option String) : Option Write :=
  currentUser.map fun currentUser =>
    .editProfile currentUser page.myUsername page.myLocation page.myBio

/-! ## Editing a profile -/

/-- A text typed into one of the fields. -/
structure Edit where
  input : ProfileField
  value : String

/-- The page after a sequence of edits. -/
def edited (edits : List Edit) : EditProfilePage :=
  edits.foldl (fun page edit => page.onChanged edit.input edit.value) initial

/-- The last text typed into a field, if it was edited at all. -/
def lastText (input : ProfileField) (edits : List Edit) : Option String :=
  (edits.filterMap fun edit => if edit.input = input then some edit.value else none).getLast?

/-- The text that the page holds for a field. -/
def text (page : EditProfilePage) : ProfileField → String
  | .username => page.myUsername
  | .location => page.myLocation
  | .bio => page.myBio

theorem text_onChanged (page : EditProfilePage) (input other : ProfileField) (value : String) :
    (page.onChanged input value).text other =
      (if input = other then some value else none).getD (page.text other) := by
  cases input <;> cases other <;> rfl

/-- A field holds the last text typed into it, or else a blank. -/
theorem text_edited (edits : List Edit) (input : ProfileField) :
    (edited edits).text input = (lastText input edits).getD " " := by
  induction edits using List.reverseRecOn with
  | nil => cases input <;> rfl
  | append_singleton edits edit ih =>
      rw [lastText, getLast?_filterMap_append_singleton]
      change (edited (edits ++ [edit])).text input =
        (if edit.input = input then some edit.value else none).getD
          ((lastText input edits).getD " ")
      rw [← ih, ← text_onChanged, edited, List.foldl_append]
      rfl

/-- Every field of the form is written, as the page holds it. -/
theorem field_save (db : Database) (uid : Uid) (page : EditProfilePage) (input : ProfileField) :
    field ((Write.editProfile uid.val page.myUsername page.myLocation page.myBio).apply db) uid
      input.key = some (page.text input) := by
  rw [field_editProfile]
  cases input <;> rfl

/-- The record of `uid` after a save differs from the one before in the edited
fields only, which hold the last texts. -/
structure OnlyEdited (before after : Database) (uid : Uid) (edits : List Edit) : Prop where
  changed : ∀ input value, lastText input edits = some value →
    field after uid input.key = some value
  kept : ∀ input, lastText input edits = none →
    field after uid input.key = field before uid input.key
  email : field after uid "email" = field before uid "email"
  pic : field after uid "pic" = field before uid "pic"

/-- **When editing a profile changes only what was edited.**  Pressing "Save
profile changes" on a freshly opened page after any edits keeps the fields that
were not edited exactly when each of them held a single blank before. -/
theorem onlyEdited_iff_edited_or_blank (db : Database) (uid : Uid) (edits : List Edit) :
    ∃ write, (edited edits).saveToDatabase (some uid.val) = some write ∧
      (OnlyEdited db (write.apply db) uid edits ↔
        ∀ input, lastText input edits ≠ none ∨ field db uid input.key = some " ") := by
  refine ⟨_, rfl, ?_⟩
  constructor
  · intro onlyEdited input
    cases last : lastText input edits with
    | some value => exact .inl nofun
    | none =>
        right
        rw [← onlyEdited.kept input last, field_save, text_edited, last]
        rfl
  · intro editedOrBlank
    constructor
    · intro input value last
      rw [field_save, text_edited, last]
      rfl
    · intro input untouched
      have blank := (editedOrBlank input).resolve_left (· untouched)
      rw [field_save, text_edited, untouched, blank]
      rfl
    · exact field_editProfile db uid _ _ _ "email"
    · exact field_editProfile db uid _ _ _ "pic"

/-- A registered user types a new username only and saves. -/
def usernameOnly : List Edit := [⟨.username, "dyer"⟩]

/-- The database after one registration. -/
def oneProfile : Database :=
  (Write.register firstUid "a" "a@x").apply .empty

theorem location_lost :
    Complete oneProfile firstUid ∧ lastText .location usernameOnly = none ∧
      ∃ write, (edited usernameOnly).saveToDatabase (some firstUid.val) = some write ∧
        field oneProfile firstUid "location" = some "United States of America" ∧
        field (write.apply oneProfile) firstUid "location" = some " " ∧
        ¬ OnlyEdited oneProfile (write.apply oneProfile) firstUid usernameOnly := by
  constructor
  · exact complete_register .empty firstUid "a" "a@x"
  · refine ⟨rfl, _, rfl, rfl, rfl, ?_⟩
    intro onlyEdited
    have kept := onlyEdited.kept .location rfl
    exact absurd kept (by decide)

end EditProfilePage

end DyeIsLife.Pages
