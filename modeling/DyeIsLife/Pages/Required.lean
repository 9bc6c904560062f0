import DyeIsLife.Pages.Forms

/-!
# Required fields in the database

Five forms have validators that require a text.  Here these are listed by the
location at which the database holds the text, together with what they mean for
the whole database: every text stored at such a location passes the validator.
Whether a write keeps this depends on the texts it carries only.
-/

namespace DyeIsLife.Pages

open DyeIsLife.Firebase
open DyeIsLife.Records
open DyeIsLife.Store

/-- The validators of the forms, by the location of the text.  A profile is
stored below `UserInfo` at `child(currentUser)`, which for an empty
`currentUser` is `UserInfo` itself. -/
inductive Validated : DatabaseReference → (String → Option String) → Prop
  /-- the form of `UploadPhotoPage` -/
  | description (key : String) :
      Validated (postsRef ++ [key, "description"]) (required "Description is required")
  | location (key : String) :
      Validated (postsRef ++ [key, "location"]) (required "location is required")
  /-- the form of `UploadDiscussionPage` -/
  | title (key : String) :
      Validated (discussionsRef ++ [key, "title"]) (required "Title is required")
  | bodyText (key : String) :
      Validated (discussionsRef ++ [key, "bodyText"]) (required "Body is required")
  /-- the form of `CommentPage` -/
  | commentBody (key : String) :
      Validated (commentsRef ++ [key, "commentBody"]) (required "Please enter a comment")
  /-- the forms of `EditProfilePage` and `LoginRegisterPage` -/
  | username (below : List String) :
      Validated (userInfoRef ++ below ++ ["username"]) (required "Username is required")
  | bio (below : List String) :
      Validated (userInfoRef ++ below ++ ["bio"]) (required "Bio is required")
  | email (below : List String) :
      Validated (userInfoRef ++ below ++ ["email"]) (required "Email is required")

/-- Every stored text passes the validators of its form. -/
def Enforced (db : Database) : Prop :=
  Checked (fun ref text => ∀ validator, Validated ref validator → validator text = none) db.root

/-- The texts of a write pass the validators of its form. -/
def Passes : Write → Prop
  | .photo _ _ _ myValue myLocation _ => myValue ≠ some "" ∧ myLocation ≠ some ""
  | .discussion _ _ myTitle myBody _ => myTitle ≠ "" ∧ myBody ≠ ""
  | .comment _ _ myComment _ => myComment ≠ ""
  | .register _ username email => username ≠ "" ∧ email ≠ ""
  | .editProfile _ myUsername _ myBio => myUsername ≠ "" ∧ myBio ≠ ""
  | .changePhoto _ _ => True

@[simp]
theorem required_eq_none_iff (message value : String) :
    required message value = none ↔ value ≠ "" := by
  unfold required
  split <;> simp_all

/-! ## Locations -/

/-- A field at this location has a validator. -/
def IsRequired (ref : DatabaseReference) : Prop :=
  ∃ validator, Validated ref validator

theorem Validated.eq_required {ref : DatabaseReference} {validator : String → Option String}
    (validated : Validated ref validator) : ∃ message, validator = required message := by
  cases validated <;> exact ⟨_, rfl⟩

theorem isRequired_post_iff (key name : String) :
    IsRequired (postsRef ++ [key] ++ [name]) ↔ name ∈ ["description", "location"] := by
  constructor
  · generalize located : postsRef ++ [key] ++ [name] = ref
    rintro ⟨validator, validated⟩
    cases validated <;> simp_all [postsRef_eq, discussionsRef_eq, commentsRef_eq, userInfoRef_eq]
  · intro member
    simp only [List.mem_cons, List.not_mem_nil, or_false] at member
    rcases member with rfl | rfl
    · exact ⟨_, .description key⟩
    · exact ⟨_, .location key⟩

theorem isRequired_discussion_iff (key name : String) :
    IsRequired (discussionsRef ++ [key] ++ [name]) ↔ name ∈ ["title", "bodyText"] := by
  constructor
  · generalize located : discussionsRef ++ [key] ++ [name] = ref
    rintro ⟨validator, validated⟩
    cases validated <;> simp_all [postsRef_eq, discussionsRef_eq, commentsRef_eq, userInfoRef_eq]
  · intro member
    simp only [List.mem_cons, List.not_mem_nil, or_false] at member
    rcases member with rfl | rfl
    · exact ⟨_, .title key⟩
    · exact ⟨_, .bodyText key⟩

theorem isRequired_comment_iff (key name : String) :
    IsRequired (commentsRef ++ [key] ++ [name]) ↔ name ∈ ["commentBody"] := by
  constructor
  · generalize located : commentsRef ++ [key] ++ [name] = ref
    rintro ⟨validator, validated⟩
    cases validated <;> simp_all [postsRef_eq, discussionsRef_eq, commentsRef_eq, userInfoRef_eq]
  · intro member
    obtain rfl := List.mem_singleton.mp member
    exact ⟨_, .commentBody key⟩

theorem isRequired_profile_iff (currentUser name : String) :
    IsRequired (userInfoRef.child currentUser ++ [name]) ↔
      name ∈ ["username", "bio", "email"] := by
  rw [DatabaseReference.child]
  generalize components currentUser = below
  constructor
  · -- a location ends in its name, however deep it lies
    have last : ∀ {other : List String} {name' : String},
        userInfoRef ++ below ++ [name] = userInfoRef ++ other ++ [name'] → name = name' :=
      fun located => (List.append_singleton_inj.mp located).2
    generalize located : userInfoRef ++ below ++ [name] = ref
    rintro ⟨validator, validated⟩
    cases validated with
    | username other => simp [last located]
    | bio other => simp [last located]
    | email other => simp [last located]
    | _ => simp [postsRef_eq, discussionsRef_eq, commentsRef_eq, userInfoRef_eq] at located
  · intro member
    simp only [List.mem_cons, List.not_mem_nil, or_false] at member
    rcases member with rfl | rfl | rfl
    · exact ⟨_, .username below⟩
    · exact ⟨_, .bio below⟩
    · exact ⟨_, .email below⟩

/-! ## Writes -/

theorem enforced_empty : Enforced .empty :=
  checked_none

/-- The texts of a map pass when none of its required fields is empty. -/
theorem fields_pass_iff {ref : DatabaseReference} {names : List String} (data : MapLiteral)
    (located : ∀ name, IsRequired (ref ++ [name]) ↔ name ∈ names) :
    (∀ name text, (name, some text) ∈ data.entries →
        ∀ validator, Validated (ref ++ [name]) validator → validator text = none) ↔
      ∀ name ∈ names, (name, some "") ∉ data.entries := by
  constructor
  · intro passes name member stored
    rcases (located name).mpr member with ⟨validator, validated⟩
    rcases validated.eq_required with ⟨message, rfl⟩
    exact (required_eq_none_iff message "").mp (passes name "" stored _ validated) rfl
  · intro nonempty name text stored validator validated
    rcases validated.eq_required with ⟨message, rfl⟩
    rw [required_eq_none_iff]
    rintro rfl
    exact nonempty name ((located name).mp ⟨_, validated⟩) stored

/-- A write keeps the fields enforced exactly when its texts pass. -/
theorem enforced_apply_iff {db : Database} (enforced : Enforced db) (write : Write) :
    Enforced (write.apply db) ↔ Passes write := by
  cases write with
  | photo key userId url myValue myLocation time =>
      rw [Enforced, Write.apply, Database.push, Database.checked_set_iff enforced,
        fields_pass_iff _ (isRequired_post_iff key)]
      simp [photoData, Passes, @eq_comm _ (some "")]
  | discussion key userId myTitle myBody time =>
      rw [Enforced, Write.apply, Database.push, Database.checked_set_iff enforced,
        fields_pass_iff _ (isRequired_discussion_iff key)]
      simp [discussionData, Passes, @eq_comm _ ""]
  | comment key userId myComment time =>
      rw [Enforced, Write.apply, Database.push, Database.checked_set_iff enforced,
        fields_pass_iff _ (isRequired_comment_iff key)]
      simp [commentData, Passes, @eq_comm _ ""]
  | register uid username email =>
      rw [Enforced, Write.apply, Database.checked_set_iff enforced,
        fields_pass_iff _ (isRequired_profile_iff uid.val)]
      simp [registrationData, Passes, @eq_comm _ ""]
  | editProfile currentUser myUsername myLocation myBio =>
      rw [Enforced, Write.apply, Database.checked_update_iff enforced,
        fields_pass_iff _ (isRequired_profile_iff currentUser)]
      simp [profileData, Passes, @eq_comm _ ""]
  | changePhoto currentUser url =>
      rw [Enforced, Write.apply, Database.checked_update_iff enforced,
        fields_pass_iff _ (isRequired_profile_iff currentUser)]
      simp [picData, Passes]

end DyeIsLife.Pages
