import DyeIsLife.Firebase.Export
import DyeIsLife.Records.Writes

/-!
# Profile records

The children of `UserInfo` are the profile records, one for each account, keyed
by uid.  A registration writes a whole record, a profile edit three of its
fields and a photo change one.  This file says what each of the three does to
the record of its own user and that it leaves the records of others alone.
-/

namespace DyeIsLife.Records

open DyeIsLife.Firebase
open DyeIsLife.Store

/-- The location of a user's record. -/
def recordRef (uid : Uid) : DatabaseReference :=
  userInfoRef.child uid.val

theorem recordRef_eq (uid : Uid) : recordRef uid = ["UserInfo", uid.val] := by
  rw [recordRef, child_uid, userInfoRef_eq]
  rfl

/-- The text of one field of a user's record, or nothing when the field is not
stored. -/
def field (db : Database) (uid : Uid) (name : String) : Option String :=
  leaf? (db.value (recordRef uid ++ [name]))

/-- The fields of a profile record. -/
def profileFields : List String :=
  ["username", "email", "bio", "location", "pic"]

/-- The record of `uid` holds all five fields. -/
def Complete (db : Database) (uid : Uid) : Prop :=
  ∀ name ∈ profileFields, field db uid name ≠ none

instance (db : Database) (uid : Uid) : Decidable (Complete db uid) :=
  inferInstanceAs (Decidable (∀ name ∈ profileFields, field db uid name ≠ none))

/-! ## Reading a profile -/

/-- What `ProfilePage` shows of a record. -/
structure ProfileInfo where
  pic : Option String
  username : Option String
  bio : Option String
  location : Option String
  deriving DecidableEq

/-- The builder of `_ProfilePageState.getProfileInfo`, once the read is done:
`child(null)` throws, and so does taking anything but a map for `values`. -/
def getProfileInfo (db : Database) (currentUser : Option String) : Option ProfileInfo :=
  (userInfoRef.child? currentUser).bind fun ref =>
    (asMap? (db.value ref)).map fun values =>
      { pic := leaf? (values.lookup "pic")
        username := leaf? (values.lookup "username")
        bio := leaf? (values.lookup "bio")
        location := leaf? (values.lookup "location") }

/-- Every field that the profile page shows is there. -/
def ProfileInfo.Shown (info : ProfileInfo) : Prop :=
  info.pic ≠ none ∧ info.username ≠ none ∧ info.bio ≠ none ∧ info.location ≠ none

/-- A complete record is read without an error and without nulls. -/
theorem getProfileInfo_of_complete {db : Database} {uid : Uid} (complete : Complete db uid) :
    ∃ info, getProfileInfo db (some uid.val) = some info ∧ info.Shown := by
  have inside : ∀ name, field db uid name =
      leaf? ((children (db.value (recordRef uid))).lookup name) := by
    intro name
    rw [field, Database.value_append]
    rfl
  have present : ∀ name ∈ profileFields,
      leaf? ((children (db.value (recordRef uid))).lookup name) ≠ none := by
    intro name member
    rw [← inside]
    exact complete name member
  have located : userInfoRef.child? (some uid.val) = some (recordRef uid) := rfl
  rw [getProfileInfo, located, Option.bind_some]
  cases stored : db.value (recordRef uid) with
  | none =>
      rw [stored] at present
      exact absurd rfl (present "pic" (by decide))
  | some tree =>
      rw [stored] at present
      cases tree with
      | leaf text => exact absurd rfl (present "pic" (by decide))
      | node entries =>
          have isMap : asMap? (some (.node entries)) = some entries := by
            apply asMap?_of_lookup (by decide : integerKey "pic" = none)
            intro absent
            apply present "pic" (by decide)
            rw [children_node, absent]
            rfl
          rw [isMap]
          exact ⟨_, rfl, present "pic" (by decide), present "username" (by decide),
            present "bio" (by decide), present "location" (by decide)⟩

/-! ## The effect of the three profile writes -/

/-- The fields of a registration are stored under the new uid. -/
theorem field_register (db : Database) (uid : Uid) (username email name : String) :
    field ((Write.register uid username email).apply db) uid name =
      leaf? ((registrationData username email).stored.lookup name) := by
  rw [field, Database.value_append]
  change leaf? (get [name] ((db.set (recordRef uid) _).value (recordRef uid))) = _
  rw [Database.value_set_self, get_cons, get_nil, MapLiteral.value, children_ofChildren]

theorem complete_register (db : Database) (uid : Uid) (username email : String) :
    Complete ((Write.register uid username email).apply db) uid := by
  intro name member
  rw [field_register]
  simp only [profileFields, List.mem_cons, List.not_mem_nil, or_false] at member
  rcases member with rfl | rfl | rfl | rfl | rfl
  · exact Option.some_ne_none username
  · exact Option.some_ne_none email
  · exact Option.some_ne_none "live fast, dye young"
  · exact Option.some_ne_none "United States of America"
  · exact Option.some_ne_none defaultPic

theorem field_editProfile (db : Database) (uid : Uid)
    (myUsername myLocation myBio name : String) :
    field ((Write.editProfile uid.val myUsername myLocation myBio).apply db) uid name =
      if name = "username" then some myUsername
      else if name = "location" then some myLocation
      else if name = "bio" then some myBio
      else field db uid name := by
  change leaf? ((db.update (recordRef uid) _).value (recordRef uid ++ [name])) = _
  rw [Database.value_update_field]
  simp only [Database.updates, profileData, List.map_cons, List.map_nil, lookup_cons_eq_ite,
    List.lookup_nil]
  split
  · rfl
  · split
    · rfl
    · split
      · rfl
      · rfl

theorem field_changePhoto (db : Database) (uid : Uid) (url name : String) :
    field ((Write.changePhoto uid.val url).apply db) uid name =
      if name = "pic" then some url else field db uid name := by
  change leaf? ((db.update (recordRef uid) _).value (recordRef uid ++ [name])) = _
  rw [Database.value_update_field]
  simp only [Database.updates, picData, List.map_cons, List.map_nil, lookup_cons_eq_ite,
    List.lookup_nil]
  split
  · rfl
  · rfl

/-! ## Writes confined to one record -/

/-- The write replaces nothing outside the record of `uid`. -/
def Confined (write : Write) (uid : Uid) : Prop :=
  ∀ ref ∈ write.touched, ∃ below, ref = recordRef uid ++ below

theorem confined_register (uid : Uid) (username email : String) :
    Confined (.register uid username email) uid := by
  intro ref member
  rw [List.mem_singleton.mp member]
  exact ⟨[], (List.append_nil _).symm⟩

theorem confined_editProfile (uid : Uid) (myUsername myLocation myBio : String) :
    Confined (.editProfile uid.val myUsername myLocation myBio) uid := by
  intro ref member
  rcases List.mem_map.mp member with ⟨name, _, rfl⟩
  exact ⟨[name], rfl⟩

theorem confined_changePhoto (uid : Uid) (url : String) :
    Confined (.changePhoto uid.val url) uid := by
  intro ref member
  rw [List.mem_singleton.mp member]
  exact ⟨["pic"], rfl⟩

/-- A confined write leaves every location apart from the record alone. -/
theorem Confined.value_apply {write : Write} {uid : Uid} (confined : Confined write uid)
    (db : Database) {other : DatabaseReference} (apart : Apart (recordRef uid) other) :
    (write.apply db).value other = db.value other := by
  apply Write.value_apply_of_apart
  intro ref member
  rcases confined ref member with ⟨below, rfl⟩
  exact apart.append_left below

/-- The locations of different users' records are apart. -/
theorem apart_recordRef {first second : Uid} (differ : first ≠ second) (below : List String) :
    Apart (recordRef first) (recordRef second ++ below) := by
  have different : first.val ≠ second.val := fun same => differ (Uid.ext_val same)
  rw [recordRef_eq, recordRef_eq]
  exact apart_append_of_ne ["UserInfo"] [] below different

theorem Confined.field_apply {write : Write} {uid other : Uid} (confined : Confined write uid)
    (db : Database) (differ : uid ≠ other) (name : String) :
    field (write.apply db) other name = field db other name := by
  rw [field, confined.value_apply db (apart_recordRef differ [name]), field]

theorem field_register_of_ne (db : Database) {uid other : Uid} (differ : uid ≠ other)
    (username email name : String) :
    field ((Write.register uid username email).apply db) other name = field db other name :=
  (confined_register uid username email).field_apply db differ name

theorem Complete.editProfile {db : Database} {uid : Uid} (complete : Complete db uid)
    (myUsername myLocation myBio : String) :
    Complete ((Write.editProfile uid.val myUsername myLocation myBio).apply db) uid := by
  intro name member
  rw [field_editProfile]
  split
  · exact Option.some_ne_none myUsername
  · split
    · exact Option.some_ne_none myLocation
    · split
      · exact Option.some_ne_none myBio
      · exact complete name member

theorem Complete.changePhoto {db : Database} {uid : Uid} (complete : Complete db uid)
    (url : String) : Complete ((Write.changePhoto uid.val url).apply db) uid := by
  intro name member
  rw [field_changePhoto]
  split
  · exact Option.some_ne_none url
  · exact complete name member

/-- Once complete, a record stays complete under every registration. -/
theorem Complete.register {db : Database} {uid : Uid} (complete : Complete db uid)
    (other : Uid) (username email : String) :
    Complete ((Write.register other username email).apply db) uid := by
  by_cases same : other = uid
  · subst other
    exact complete_register db uid username email
  · intro name member
    rw [field_register_of_ne db same]
    exact complete name member

end DyeIsLife.Records
