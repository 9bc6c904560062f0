import DyeIsLife.Pages.Feed
import DyeIsLife.Pages.Forms

/-!
# The discussion feed

`UploadDiscussionPage` stores a discussion under the names `userId`, `title`,
`bodyText` and `time`; `HomePage.initState` reads `username`, `title`,
`bodyText` and `time`.  Every saved discussion is therefore found again, once
and with its three texts, but without a username.
-/

namespace DyeIsLife.Pages

open DyeIsLife.Firebase
open DyeIsLife.Records
open DyeIsLife.Store
open DyeIsLife.Transition

/-- The texts of a discussion. -/
def discussionFields (record : Tree String String) : Discussions where
  username := textOf record "username"
  title := textOf record "title"
  bodyText := textOf record "bodyText"
  time := textOf record "time"

/-! ## What is saved -/

/-- A call of `_UploadDiscussionPageState.saveToDatabase`: the user signed in,
the fields of the page, the pushed key and the formatted time. -/
structure SavedDiscussion where
  user : Uid
  page : UploadDiscussionPage
  key : String
  time : String

namespace SavedDiscussion

def write (saved : SavedDiscussion) : Write :=
  saved.page.saveToDatabase (some saved.user.val) saved.key saved.time

/-- The record that the call stores. -/
def record (saved : SavedDiscussion) : Tree String String :=
  .node (discussionData (some saved.user.val) saved.page.myTitle saved.page.myBody
    saved.time).stored

/-- What the home page makes of the record. -/
def shown (saved : SavedDiscussion) : Discussions where
  username := none
  title := some saved.page.myTitle
  bodyText := some saved.page.myBody
  time := some saved.time

theorem readDiscussion_record (saved : SavedDiscussion) :
    readDiscussion saved.record = some (discussionFields saved.record) := by
  have isMap : asMap? (some saved.record) = some (discussionData (some saved.user.val)
      saved.page.myTitle saved.page.myBody saved.time).stored :=
    asMap?_of_lookup (by decide : integerKey "title" = none) nofun
  rw [readDiscussion, isMap]
  rfl

/-- A save appends its record to the discussions. -/
theorem children_write {db : Database} {saved : SavedDiscussion} (fresh : saved.write.Fresh db) :
    children ((saved.write.apply db).value discussionsRef) =
      children (db.value discussionsRef) ++ [(saved.key, saved.record)] :=
  db.children_value_push fresh rfl

/-- A run of saves appends their records in order. -/
theorem children_of_run {saves : List SavedDiscussion} {db final : Database}
    (executed : run Records.step db (saves.map write) = some final) :
    children (final.value discussionsRef) =
      children (db.value discussionsRef) ++ saves.map fun saved => (saved.key, saved.record) := by
  induction saves generalizing db with
  | nil =>
      cases executed
      exact (List.append_nil _).symm
  | cons saved rest ih =>
      rcases (run_cons_eq_some_iff _ _ _ _ _).mp executed with ⟨next, taken, executedRest⟩
      rcases (step_eq_some_iff _ _ _).mp taken with ⟨fresh, rfl⟩
      rw [ih executedRest, children_write fresh, List.append_assoc]
      rfl

end SavedDiscussion

/-! ## What is read back -/

/-- No field is null. -/
def Discussions.Full (discussions : Discussions) : Prop :=
  discussions.username ≠ none ∧ discussions.title ≠ none ∧ discussions.bodyText ≠ none ∧
    discussions.time ≠ none

/-- The texts that a discussion carries besides the username. -/
def Discussions.texts (discussions : Discussions) : Option String × Option String × Option String :=
  (discussions.title, discussions.bodyText, discussions.time)

/-- One object for each saved discussion, with the saved texts and without
nulls. -/
structure RoundTrip (list : List Discussions) (saves : List SavedDiscussion) : Prop where
  texts : (list.map Discussions.texts).Perm (saves.map fun saved =>
    (some saved.page.myTitle, some saved.page.myBody, some saved.time))
  full : ∀ discussions ∈ list, discussions.Full

/-- The list of discussions after both reads is that of the read of
`Discussions`, whichever read completes first. -/
theorem discussionsList_initState (iterate : Entries → Entries)
    (posts discussions : Value String String) {order : List HomeRead}
    (either : EitherOrder order) :
    (HomePage.initState iterate posts discussions order).discussionsList =
      reload iterate readDiscussion discussions [] := by
  rcases either with rfl | rfl
  · rfl
  · rfl

/-- What the home page makes of the saved discussions: each of them once when
they arrive as a map, and nothing when they arrive as an array. -/
theorem reload_saved {iterate : Entries → Entries}
    (each : ∀ entries, (iterate entries).Perm entries) {saves : List SavedDiscussion}
    {db final : Database} (absent : db.value discussionsRef = none)
    (executed : run Records.step db (saves.map SavedDiscussion.write) = some final) :
    (reload iterate readDiscussion (final.value discussionsRef) []).Perm
        (saves.map SavedDiscussion.shown) ∨
      (saves ≠ [] ∧ reload iterate readDiscussion (final.value discussionsRef) [] = []) := by
  have stored := SavedDiscussion.children_of_run executed
  have distinct : (keys (children (final.value discussionsRef))).Nodup :=
    final.wellFormed discussionsRef
  rw [absent, children_none, List.nil_append] at stored
  cases value : final.value discussionsRef with
  | none =>
      rw [value, children_none, eq_comm, List.map_eq_nil_iff] at stored
      subst stored
      exact .inl (List.Perm.refl _)
  | some tree =>
      rw [value] at stored distinct
      cases tree with
      | leaf text =>
          rw [eq_comm, children, List.map_eq_nil_iff] at stored
          subst stored
          exact .inl (List.Perm.refl _)
      | node data =>
          rw [children_node] at stored distinct
          by_cases isMap : ExportsMap (keys data)
          · left
            have readable : ∀ entry ∈ data,
                readDiscussion entry.2 = some (discussionFields entry.2) := by
              intro entry member
              rw [stored] at member
              rcases List.mem_map.mp member with ⟨saved, _, rfl⟩
              exact saved.readDiscussion_record
            have perm := reload_perm each isMap distinct readable []
            have shown : data.map (fun entry => discussionFields entry.2) =
                saves.map SavedDiscussion.shown := by
              rw [stored, List.map_map]
              rfl
            rw [← shown]
            exact perm
          · right
            constructor
            · rintro rfl
              rw [stored] at isMap
              exact isMap exportsMap_nil
            · exact reload_array isMap []

/-- **When discussions survive the round trip.**  From a database without
discussions, after any saves of signed-in users and whichever read completes
first, the home page lists one object per saved discussion with the saved texts
and no nulls exactly when nothing was saved: the writer stores no username. -/
theorem roundTrip_iff_nothing_saved (iterate : Entries → Entries) (db final : Database)
    (saves : List SavedDiscussion) (posts : Value String String) (order : List HomeRead)
    (each : ∀ entries, (iterate entries).Perm entries)
    (absent : db.value discussionsRef = none)
    (executed : run Records.step db (saves.map SavedDiscussion.write) = some final)
    (either : EitherOrder order) :
    RoundTrip (HomePage.initState iterate posts (final.value discussionsRef) order).discussionsList
      saves ↔ saves = [] := by
  rw [discussionsList_initState iterate posts _ either]
  constructor
  · intro roundTrip
    cases saves with
    | nil => rfl
    | cons saved rest =>
        rcases reload_saved each absent executed with perm | ⟨_, nothing⟩
        · have listed := perm.mem_iff.mpr List.mem_cons_self
          exact absurd rfl (roundTrip.full _ listed).1
        · have texts := roundTrip.texts
          rw [nothing] at texts
          exact absurd texts.length_eq (by simp)
  · rintro rfl
    rcases reload_saved each absent executed with perm | ⟨some_saved, _⟩
    · rw [perm.eq_nil]
      exact ⟨List.Perm.refl _, nofun⟩
    · exact absurd rfl some_saved

/-! ## Saves at fixed inputs -/

/-- Two discussions of two users. -/
def twoDiscussions : List SavedDiscussion :=
  [⟨firstUid, ⟨"Use cold water.", "Rinsing"⟩, "d1", "noon"⟩,
    ⟨secondUid, ⟨"Which brand?", "Bleach"⟩, "d2", "evening"⟩]

theorem roundTrip_twoDiscussions :
    ∃ final, run Records.step .empty (twoDiscussions.map SavedDiscussion.write) = some final ∧
      (RoundTrip (HomePage.initState List.reverse none (final.value discussionsRef)
        [.posts, .discussions]).discussionsList twoDiscussions ↔ twoDiscussions = []) :=
  ⟨_, rfl, roundTrip_iff_nothing_saved List.reverse .empty _ twoDiscussions none
    [.posts, .discussions] List.reverse_perm rfl rfl (.inl rfl)⟩

/-- Both discussions come back, and both without a username. -/
theorem usernames_lost :
    ∃ final, run Records.step .empty (twoDiscussions.map SavedDiscussion.write) = some final ∧
      (HomePage.initState List.reverse none (final.value discussionsRef)
        [.posts, .discussions]).discussionsList =
        [⟨none, some "Bleach", some "Which brand?", some "evening"⟩,
          ⟨none, some "Rinsing", some "Use cold water.", some "noon"⟩] ∧
      ¬ RoundTrip (HomePage.initState List.reverse none (final.value discussionsRef)
        [.posts, .discussions]).discussionsList twoDiscussions := by
  refine ⟨_, rfl, rfl, ?_⟩
  intro roundTrip
  exact absurd rfl (roundTrip.full _ List.mem_cons_self).1

end DyeIsLife.Pages
