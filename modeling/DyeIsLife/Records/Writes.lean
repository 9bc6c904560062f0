import DyeIsLife.Firebase.Database
import DyeIsLife.Transition.Core

/-!
# The records the app writes

The app writes to the database in six places: the `saveToDatabase` methods of
the photo, discussion, comment, profile and profile photo pages, and the
register branch of `validateAndSubmit`.  Each is one value of `Write` with the
data the page supplies; `apply` performs it, and `touched` lists the locations
it replaces, so that everything else is known to stay.
-/

namespace DyeIsLife.Records

open DyeIsLife.Firebase
open DyeIsLife.Store
open DyeIsLife.Transition

/-! ## Map literals -/

/-- `data` in `_UploadPhotoPageState.saveToDatabase`. -/
def photoData (userId : Option String) (url : String) (myValue myLocation : Option String)
    (time : String) : MapLiteral where
  entries := [
    ("userId", userId),
    ("username", some "@henryhevans"),
    ("image", some url),
    ("description", myValue),
    ("location", myLocation),
    ("time", some time),
    ("comments", none),
    ("likes", none)]

/-- `data` in `_UploadDiscussionPageState.saveToDatabase`. -/
def discussionData (userId : Option String) (myTitle myBody time : String) : MapLiteral where
  entries := [
    ("userId", userId),
    ("title", some myTitle),
    ("bodyText", some myBody),
    ("time", some time)]

/-- `data` in `_CommentPageState.saveToDatabase`. -/
def commentData (userId : Option String) (myComment time : String) : MapLiteral where
  entries := [
    ("userId", userId),
    ("commentBody", some myComment),
    ("time", some time)]

/-- The profile picture of a new account. -/
def defaultPic : String :=
  "https://firebasestorage.googleapis.com/v0/b/blogapp-ece3e.appspot.com/o/" ++
    "Profile%20Images%2FScreen%20Shot%202020-04-26%20at%205.07.11%20PM.png" ++
    "?alt=media&token=39ad6760-abae-4142-8f75-619213fce9e9"

/-- `data` in the register branch of `validateAndSubmit`. -/
def registrationData (username email : String) : MapLiteral where
  entries := [
    ("username", some username),
    ("email", some email),
    ("bio", some "live fast, dye young"),
    ("location", some "United States of America"),
    ("pic", some defaultPic)]

/-- `data` in `_EditProfilePageState.saveToDatabase`. -/
def profileData (myUsername myLocation myBio : String) : MapLiteral where
  entries := [
    ("username", some myUsername),
    ("location", some myLocation),
    ("bio", some myBio)]

/-- `data` in `_ChangeProfilePhotoPageState.saveToDatabase`. -/
def picData (url : String) : MapLiteral where
  entries := [("pic", some url)]

/-! ## Locations -/

/-- `postID` of `_CommentPageState`. -/
def postID : String := "-M5u8zi8IikFVUkmtDNk"

/-- `ref.child("Posts")`. -/
def postsRef : DatabaseReference := reference.child "Posts"

/-- `ref.child("Discussions")`. -/
def discussionsRef : DatabaseReference := reference.child "Discussions"

/-- `ref.child("Posts").child(postID)`. -/
def postRef : DatabaseReference := postsRef.child postID

/-- `ref.child("Posts").child(postID).child("comments")`. -/
def commentsRef : DatabaseReference := postRef.child "comments"

/-- `ref.child("UserInfo")`. -/
def userInfoRef : DatabaseReference := reference.child "UserInfo"

theorem postsRef_eq : postsRef = ["Posts"] := by decide

theorem discussionsRef_eq : discussionsRef = ["Discussions"] := by decide

theorem postRef_eq : postRef = ["Posts", postID] := by decide

theorem commentsRef_eq : commentsRef = ["Posts", postID, "comments"] := by decide

theorem userInfoRef_eq : userInfoRef = ["UserInfo"] := by decide

/-! ## Writes -/

/-- A write of the app.  Keys are those that `push` generates; `userId` and
`currentUser` are what `AuthImplementation.currentUser` was. -/
inductive Write where
  | photo (key : String) (userId : Option String) (url : String)
      (myValue myLocation : Option String) (time : String)
  | discussion (key : String) (userId : Option String) (myTitle myBody time : String)
  | comment (key : String) (userId : Option String) (myComment time : String)
  | register (uid : Uid) (username email : String)
  | editProfile (currentUser : String) (myUsername myLocation myBio : String)
  | changePhoto (currentUser : String) (url : String)
  deriving DecidableEq

namespace Write

/-- Perform a write. -/
def apply (db : Database) : Write → Database
  | photo key userId url myValue myLocation time =>
      db.push postsRef key (photoData userId url myValue myLocation time)
  | discussion key userId myTitle myBody time =>
      db.push discussionsRef key (discussionData userId myTitle myBody time)
  | comment key userId myComment time =>
      db.push commentsRef key (commentData userId myComment time)
  | register uid username email =>
      db.set (userInfoRef.child uid.val) (registrationData username email)
  | editProfile currentUser myUsername myLocation myBio =>
      db.update (userInfoRef.child currentUser) (profileData myUsername myLocation myBio)
  | changePhoto currentUser url =>
      db.update (userInfoRef.child currentUser) (picData url)

/-- The key of a push does not occur yet where it is pushed. -/
def Fresh (db : Database) : Write → Prop
  | photo key _ _ _ _ _ => db.Fresh postsRef key
  | discussion key _ _ _ _ => db.Fresh discussionsRef key
  | comment key _ _ _ => db.Fresh commentsRef key
  | register _ _ _ => True
  | editProfile _ _ _ _ => True
  | changePhoto _ _ => True

instance (db : Database) : (write : Write) → Decidable (write.Fresh db)
  | photo key _ _ _ _ _ => inferInstanceAs (Decidable (db.Fresh postsRef key))
  | discussion key _ _ _ _ => inferInstanceAs (Decidable (db.Fresh discussionsRef key))
  | comment key _ _ _ => inferInstanceAs (Decidable (db.Fresh commentsRef key))
  | register _ _ _ => isTrue trivial
  | editProfile _ _ _ _ => isTrue trivial
  | changePhoto _ _ => isTrue trivial

/-- The locations a write replaces. -/
def touched : Write → List DatabaseReference
  | photo key _ _ _ _ _ => [postsRef ++ [key]]
  | discussion key _ _ _ _ => [discussionsRef ++ [key]]
  | comment key _ _ _ => [commentsRef ++ [key]]
  | register uid _ _ => [userInfoRef.child uid.val]
  | editProfile currentUser _ _ _ =>
      ["username", "location", "bio"].map fun name => userInfoRef.child currentUser ++ [name]
  | changePhoto currentUser _ => [userInfoRef.child currentUser ++ ["pic"]]

/-- A write leaves every location apart from those it touches alone. -/
theorem value_apply_of_apart (db : Database) {write : Write} {other : DatabaseReference}
    (apart : ∀ ref ∈ write.touched, Apart ref other) :
    (write.apply db).value other = db.value other := by
  cases write with
  | photo key => exact db.value_set_of_apart (apart _ List.mem_cons_self) _
  | discussion key => exact db.value_set_of_apart (apart _ List.mem_cons_self) _
  | comment key => exact db.value_set_of_apart (apart _ List.mem_cons_self) _
  | register uid => exact db.value_set_of_apart (apart _ List.mem_cons_self) _
  | editProfile currentUser =>
      exact db.value_update_of_apart _ fun name member =>
        apart _ (List.mem_map_of_mem (f := fun name => userInfoRef.child currentUser ++ [name])
          member)
  | changePhoto currentUser =>
      apply db.value_update_of_apart
      intro name member
      obtain rfl := List.mem_singleton.mp member
      exact apart _ List.mem_cons_self

/-- The location a write is made at. -/
def target : Write → DatabaseReference
  | photo key _ _ _ _ _ => postsRef ++ [key]
  | discussion key _ _ _ _ => discussionsRef ++ [key]
  | comment key _ _ _ => commentsRef ++ [key]
  | register uid _ _ => userInfoRef.child uid.val
  | editProfile currentUser _ _ _ => userInfoRef.child currentUser
  | changePhoto currentUser _ => userInfoRef.child currentUser

/-- The map a write is made with. -/
def data : Write → MapLiteral
  | photo _ userId url myValue myLocation time => photoData userId url myValue myLocation time
  | discussion _ userId myTitle myBody time => discussionData userId myTitle myBody time
  | comment _ userId myComment time => commentData userId myComment time
  | register _ username email => registrationData username email
  | editProfile _ myUsername myLocation myBio => profileData myUsername myLocation myBio
  | changePhoto _ url => picData url

/-- The write is an `update` and not a `set`. -/
def merges : Write → Bool
  | photo _ _ _ _ _ _ => false
  | discussion _ _ _ _ _ => false
  | comment _ _ _ _ => false
  | register _ _ _ => false
  | editProfile _ _ _ _ => true
  | changePhoto _ _ => true

theorem apply_eq (db : Database) (write : Write) :
    write.apply db =
      if write.merges then db.update write.target write.data else db.set write.target write.data := by
  cases write <;> rfl

/-- The child of the root that a write goes to. -/
def area : Write → String
  | photo _ _ _ _ _ _ => "Posts"
  | discussion _ _ _ _ _ => "Discussions"
  | comment _ _ _ _ => "Posts"
  | register _ _ _ => "UserInfo"
  | editProfile _ _ _ _ => "UserInfo"
  | changePhoto _ _ => "UserInfo"

theorem head?_target (write : Write) : write.target.head? = some write.area := by
  cases write <;> rfl

theorem touched_in_area (write : Write) {ref : DatabaseReference}
    (member : ref ∈ write.touched) : ∃ below, ref = write.area :: below := by
  cases write with
  | photo key =>
      rw [List.mem_singleton.mp member, postsRef_eq]
      exact ⟨_, rfl⟩
  | discussion key =>
      rw [List.mem_singleton.mp member, discussionsRef_eq]
      exact ⟨_, rfl⟩
  | comment key =>
      rw [List.mem_singleton.mp member, commentsRef_eq]
      exact ⟨_, rfl⟩
  | register uid =>
      rw [List.mem_singleton.mp member, userInfoRef_eq]
      exact ⟨_, rfl⟩
  | editProfile currentUser =>
      rcases List.mem_map.mp member with ⟨name, _, rfl⟩
      rw [userInfoRef_eq]
      exact ⟨_, rfl⟩
  | changePhoto currentUser =>
      rw [List.mem_singleton.mp member, userInfoRef_eq]
      exact ⟨_, rfl⟩

/-- A write leaves the other areas alone. -/
theorem value_apply_of_area_ne (db : Database) {write : Write} {other : String}
    (differ : write.area ≠ other) (below : List String) :
    (write.apply db).value (other :: below) = db.value (other :: below) := by
  apply value_apply_of_apart
  intro ref member
  rcases write.touched_in_area member with ⟨rest, rfl⟩
  exact .inl differ

end Write

/-- The database performs writes one at a time; keys of pushes are fresh. -/
def step : Step Database Write := fun db write =>
  if write.Fresh db then some (write.apply db) else none

theorem step_eq_some_iff (db next : Database) (write : Write) :
    step db write = some next ↔ write.Fresh db ∧ next = write.apply db := by
  unfold step
  constructor
  · intro taken
    split at taken
    · rename_i fresh
      exact ⟨fresh, (Option.some.inj taken).symm⟩
    · contradiction
  · rintro ⟨fresh, rfl⟩
    rw [if_pos fresh]

end DyeIsLife.Records
