import DyeIsLife.Records.UserInfo
import Mathlib.Data.List.Induction

/-!
# Concurrent profile updates

`EditProfilePage` and `ChangeProfilePhotoPage` update different fields of the
record of their user.  Whatever order the updates of all users and devices are
applied in, a record holds the e-mail of its registration, the three texts of
the last profile edit and the picture of the last photo change; updates that
are not two edits or two photo changes of one user can be swapped without any
trace in the database.
-/

namespace DyeIsLife.Records

open DyeIsLife.Firebase
open DyeIsLife.Store

/-- A user and the data of the registration. -/
structure Registrant where
  uid : Uid
  username : String
  email : String

/-- A call of one of the two `saveToDatabase` methods, made while
`AuthImplementation.currentUser` is the uid of `user`. -/
inductive ProfileUpdate where
  | edit (user : Uid) (myUsername myLocation myBio : String)
  | photo (user : Uid) (url : String)

namespace ProfileUpdate

def user : ProfileUpdate → Uid
  | edit user _ _ _ => user
  | photo user _ => user

def write : ProfileUpdate → Write
  | edit user myUsername myLocation myBio =>
      .editProfile user.val myUsername myLocation myBio
  | photo user url => .changePhoto user.val url

/-- The map that `update` is called with. -/
def data : ProfileUpdate → MapLiteral
  | edit _ myUsername myLocation myBio => profileData myUsername myLocation myBio
  | photo _ url => picData url

theorem apply_write (update : ProfileUpdate) (db : Database) :
    update.write.apply db = db.update (recordRef update.user) update.data := by
  cases update <;> rfl

end ProfileUpdate

/-- The database after the registrations have been written. -/
def registered (db : Database) (registrants : List Registrant) : Database :=
  registrants.foldl
    (fun db registrant =>
      (Write.register registrant.uid registrant.username registrant.email).apply db) db

/-- The database after the updates have been applied in this order. -/
def updated (db : Database) (log : List ProfileUpdate) : Database :=
  log.foldl (fun db update => update.write.apply db) db

/-! ## What a record should hold -/

/-- The three texts that a profile edit writes together. -/
structure ProfileTexts where
  username : String
  location : String
  bio : String
  deriving DecidableEq

/-- The texts that the registration wrote. -/
def Registrant.texts (registrant : Registrant) : ProfileTexts :=
  ⟨registrant.username, "United States of America", "live fast, dye young"⟩

/-- The texts of an edit of the given user. -/
def editOf (uid : Uid) : ProfileUpdate → Option ProfileTexts
  | .edit user myUsername myLocation myBio =>
      if user = uid then some ⟨myUsername, myLocation, myBio⟩ else none
  | .photo _ _ => none

/-- The URL of a photo change of the given user. -/
def photoOf (uid : Uid) : ProfileUpdate → Option String
  | .edit _ _ _ _ => none
  | .photo user url => if user = uid then some url else none

/-- The texts of the last edit of the given user. -/
def lastEdit (uid : Uid) (log : List ProfileUpdate) : Option ProfileTexts :=
  (log.filterMap (editOf uid)).getLast?

/-- The URL of the last photo change of the given user. -/
def lastPhoto (uid : Uid) (log : List ProfileUpdate) : Option String :=
  (log.filterMap (photoOf uid)).getLast?

/-- The record of `uid` holds this e-mail, these texts and this picture. -/
structure Holds (db : Database) (uid : Uid) (email : String) (texts : ProfileTexts)
    (pic : String) : Prop where
  email : field db uid "email" = some email
  username : field db uid "username" = some texts.username
  location : field db uid "location" = some texts.location
  bio : field db uid "bio" = some texts.bio
  pic : field db uid "pic" = some pic

theorem Holds.complete {db : Database} {uid : Uid} {email pic : String} {texts : ProfileTexts}
    (holds : Holds db uid email texts pic) : Complete db uid := by
  intro name member
  simp only [profileFields, List.mem_cons, List.not_mem_nil, or_false] at member
  rcases member with rfl | rfl | rfl | rfl | rfl
  · simp [holds.username]
  · simp [holds.email]
  · simp [holds.bio]
  · simp [holds.location]
  · simp [holds.pic]

/-! ## Registrations -/

theorem Holds.of_field_eq {db db' : Database} {uid : Uid} {email pic : String}
    {texts : ProfileTexts} (holds : Holds db uid email texts pic)
    (same : ∀ name, field db' uid name = field db uid name) :
    Holds db' uid email texts pic where
  email := (same _).trans holds.email
  username := (same _).trans holds.username
  location := (same _).trans holds.location
  bio := (same _).trans holds.bio
  pic := (same _).trans holds.pic

theorem holds_register (db : Database) (registrant : Registrant) :
    Holds ((Write.register registrant.uid registrant.username registrant.email).apply db)
      registrant.uid registrant.email registrant.texts defaultPic where
  email := field_register db registrant.uid registrant.username registrant.email "email"
  username := field_register db registrant.uid registrant.username registrant.email "username"
  location := field_register db registrant.uid registrant.username registrant.email "location"
  bio := field_register db registrant.uid registrant.username registrant.email "bio"
  pic := field_register db registrant.uid registrant.username registrant.email "pic"

theorem field_registered_of_not_mem (db : Database) {uid : Uid} {registrants : List Registrant}
    (absent : uid ∉ registrants.map Registrant.uid) (name : String) :
    field (registered db registrants) uid name = field db uid name := by
  induction registrants generalizing db with
  | nil => rfl
  | cons registrant rest ih =>
      rw [List.map_cons, List.mem_cons, not_or] at absent
      calc
        field (registered db (registrant :: rest)) uid name =
            field ((Write.register registrant.uid registrant.username registrant.email).apply db)
              uid name := ih _ absent.2
        _ = field db uid name := field_register_of_ne db (Ne.symm absent.1) _ _ name

/-- Every registrant's record is the one that the registration wrote. -/
theorem holds_registered (db : Database) {registrants : List Registrant}
    (distinct : (registrants.map Registrant.uid).Nodup) {registrant : Registrant}
    (member : registrant ∈ registrants) :
    Holds (registered db registrants) registrant.uid registrant.email registrant.texts
      defaultPic := by
  induction registrants generalizing db with
  | nil => contradiction
  | cons first rest ih =>
      rw [List.map_cons, List.nodup_cons] at distinct
      rcases List.mem_cons.mp member with rfl | later
      · exact (holds_register db registrant).of_field_eq
          (field_registered_of_not_mem _ distinct.1)
      · exact ih _ distinct.2 later

/-! ## Updates -/

/-- One update replaces the texts or the picture of its own user's record as a
whole and nothing else. -/
theorem Holds.update {db : Database} {uid : Uid} {email pic : String} {texts : ProfileTexts}
    (holds : Holds db uid email texts pic) (update : ProfileUpdate) :
    Holds (update.write.apply db) uid email ((editOf uid update).getD texts)
      ((photoOf uid update).getD pic) := by
  cases update with
  | edit user myUsername myLocation myBio =>
      by_cases same : user = uid
      · subst user
        simp only [editOf, photoOf, if_true, Option.getD_some, Option.getD_none]
        constructor
        · exact (field_editProfile db uid myUsername myLocation myBio "email").trans holds.email
        · exact field_editProfile db uid myUsername myLocation myBio "username"
        · exact field_editProfile db uid myUsername myLocation myBio "location"
        · exact field_editProfile db uid myUsername myLocation myBio "bio"
        · exact (field_editProfile db uid myUsername myLocation myBio "pic").trans holds.pic
      · simp only [editOf, photoOf, same, if_false, Option.getD_none]
        exact holds.of_field_eq ((confined_editProfile user _ _ _).field_apply db same)
  | photo user url =>
      by_cases same : user = uid
      · subst user
        simp only [editOf, photoOf, if_true, Option.getD_some, Option.getD_none]
        constructor
        · exact (field_changePhoto db uid url "email").trans holds.email
        · exact (field_changePhoto db uid url "username").trans holds.username
        · exact (field_changePhoto db uid url "location").trans holds.location
        · exact (field_changePhoto db uid url "bio").trans holds.bio
        · exact field_changePhoto db uid url "pic"
      · simp only [editOf, photoOf, same, if_false, Option.getD_none]
        exact holds.of_field_eq ((confined_changePhoto user _).field_apply db same)

theorem updated_append_singleton (db : Database) (log : List ProfileUpdate)
    (update : ProfileUpdate) :
    updated db (log ++ [update]) = update.write.apply (updated db log) := by
  rw [updated, List.foldl_append]
  rfl

/-- The last hit of a partial function over a list that grows at its end. -/
theorem getLast?_filterMap_append_singleton {α β : Type} (hit : α → Option β) (log : List α)
    (entry : α) (default : β) :
    ((log ++ [entry]).filterMap hit).getLast?.getD default =
      (hit entry).getD ((log.filterMap hit).getLast?.getD default) := by
  rw [List.filterMap_append, List.getLast?_append]
  cases found : hit entry with
  | none => simp [found]
  | some value => simp [found]

/-- A record that the registration left holds the last texts and the last
picture after any log of updates. -/
theorem Holds.updated {db : Database} {uid : Uid} {email pic : String} {texts : ProfileTexts}
    (holds : Holds db uid email texts pic) (log : List ProfileUpdate) :
    Holds (updated db log) uid email ((lastEdit uid log).getD texts)
      ((lastPhoto uid log).getD pic) := by
  induction log using List.reverseRecOn with
  | nil => exact holds
  | append_singleton log update ih =>
      rw [updated_append_singleton, lastEdit, lastPhoto, getLast?_filterMap_append_singleton,
        getLast?_filterMap_append_singleton]
      exact ih.update update

/-! ## Swapping updates -/

/-- Updates of different users, or an edit and a photo change. -/
def Independent : ProfileUpdate → ProfileUpdate → Prop
  | .edit user _ _ _, .edit user' _ _ _ => user ≠ user'
  | .photo user _, .photo user' _ => user ≠ user'
  | .edit _ _ _ _, .photo _ _ => True
  | .photo _ _, .edit _ _ _ _ => True

theorem value_ne_none_of_complete {db : Database} {uid : Uid} (complete : Complete db uid)
    {name : String} (member : name ∈ profileFields) :
    db.value (recordRef uid ++ [name]) ≠ none := by
  intro absent
  apply complete name member
  rw [field, absent]
  rfl

theorem ProfileUpdate.names_subset (update : ProfileUpdate) :
    ∀ name ∈ keys update.data.entries, name ∈ profileFields := by
  cases update with
  | edit => simp [data, profileData, keys, profileFields]
  | photo => simp [data, picData, keys, profileFields]

theorem ProfileUpdate.data_full (update : ProfileUpdate) :
    ∀ entry ∈ update.data.entries, entry.2 ≠ none := by
  cases update with
  | edit => simp [data, profileData]
  | photo => simp [data, picData]

/-- Independent updates replace locations apart. -/
theorem Independent.apart {first second : ProfileUpdate} (independent : Independent first second) :
    ∀ name ∈ keys first.data.entries, ∀ name' ∈ keys second.data.entries,
      Apart (recordRef first.user ++ [name]) (recordRef second.user ++ [name']) := by
  intro name member name' member'
  by_cases same : first.user = second.user
  · -- an edit and a photo change have no field in common
    have differ : name ≠ name' := by
      rintro rfl
      cases first <;> cases second <;>
        simp_all [Independent, ProfileUpdate.data, ProfileUpdate.user, profileData, picData, keys]
    rw [same]
    exact apart_append_of_ne _ [] [] differ
  · exact (apart_recordRef same [name']).append_left [name]

theorem Independent.comm {first second : ProfileUpdate} (independent : Independent first second)
    {db : Database} (complete : Complete db first.user) (complete' : Complete db second.user) :
    first.write.apply (second.write.apply db) = second.write.apply (first.write.apply db) := by
  simp only [ProfileUpdate.apply_write]
  apply Database.update_comm
  · exact independent.apart
  · exact first.data_full
  · exact second.data_full
  · exact fun name member => value_ne_none_of_complete complete (first.names_subset name member)
  · exact fun name member => value_ne_none_of_complete complete' (second.names_subset name member)

/-- **Profile updates neither interfere nor tear.**  After every prefix of any
log of updates by registered users, each record holds the e-mail of its
registration, the three texts of its user's last edit and the picture of its
user's last photo change; and swapping two neighbouring independent updates
gives the same database. -/
theorem profiles_exact (db : Database) (registrants : List Registrant)
    (log : List ProfileUpdate) (distinct : (registrants.map Registrant.uid).Nodup)
    (known : ∀ update ∈ log, update.user ∈ registrants.map Registrant.uid) :
    (∀ applied, applied <+: log → ∀ registrant ∈ registrants,
      Holds (updated (registered db registrants) applied) registrant.uid registrant.email
        ((lastEdit registrant.uid applied).getD registrant.texts)
        ((lastPhoto registrant.uid applied).getD defaultPic)) ∧
    (∀ before first second after, log = before ++ first :: second :: after →
      Independent first second →
        updated (registered db registrants) (before ++ second :: first :: after) =
          updated (registered db registrants) log) := by
  constructor
  · intro applied _ registrant member
    exact (holds_registered db distinct member).updated applied
  · rintro before first second after rfl independent
    have complete : ∀ update ∈ before ++ first :: second :: after,
        Complete (updated (registered db registrants) before) update.user := by
      intro update member
      rcases List.mem_map.mp (known update member) with ⟨registrant, present, same⟩
      rw [← same]
      exact ((holds_registered db distinct present).updated before).complete
    have swapped := independent.comm (complete first (by simp)) (complete second (by simp))
    simp only [updated, List.foldl_append, List.foldl_cons] at swapped ⊢
    rw [swapped]

/-! ## A log at fixed inputs -/

def twoRegistrants : List Registrant :=
  [⟨firstUid, "a", "a@x"⟩, ⟨secondUid, "b", "b@x"⟩]

/-- Updates of two users in between each other. -/
def mixedLog : List ProfileUpdate :=
  [.edit firstUid "c" "here" "hello", .photo firstUid "first.jpg",
    .edit secondUid "d" "there" "hi", .edit firstUid "e" "away" "bye"]

theorem profiles_mixedLog :
    Holds (updated (registered .empty twoRegistrants) mixedLog) firstUid "a@x"
        ⟨"e", "away", "bye"⟩ "first.jpg" ∧
      Holds (updated (registered .empty twoRegistrants) mixedLog) secondUid "b@x"
        ⟨"d", "there", "hi"⟩ defaultPic ∧
      updated (registered .empty twoRegistrants)
          [.photo firstUid "first.jpg", .edit firstUid "c" "here" "hello",
            .edit secondUid "d" "there" "hi", .edit firstUid "e" "away" "bye"] =
        updated (registered .empty twoRegistrants) mixedLog := by
  have distinct : (twoRegistrants.map Registrant.uid).Nodup := by decide
  have known : ∀ update ∈ mixedLog, update.user ∈ twoRegistrants.map Registrant.uid := by
    simp [mixedLog, twoRegistrants, ProfileUpdate.user]
  rcases profiles_exact .empty twoRegistrants mixedLog distinct known with ⟨held, swapped⟩
  constructor
  · exact held mixedLog List.prefix_rfl ⟨firstUid, "a", "a@x"⟩ List.mem_cons_self
  · constructor
    · exact held mixedLog List.prefix_rfl ⟨secondUid, "b", "b@x"⟩
        (List.mem_cons_of_mem _ List.mem_cons_self)
    · exact swapped [] _ _ _ rfl trivial

end DyeIsLife.Records
