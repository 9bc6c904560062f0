import DyeIsLife.Pages.Reading
import DyeIsLife.Pages.Upload

/-!
# The photo feed

All clients write to one database: photos and discussions are pushed, comments
are pushed below one fixed post, profiles are set and updated.  Whatever the
interleaving, the home page reads back exactly the posts that were there and
the posts that were saved, with none of their fields missing.  It does so as
long as the posts arrive as a map: posts that are all keyed by small integers
arrive as an array, which the page cannot read.  `push` generates no such keys.

Comments go below a post and would create a record without fields if the post
did not exist.  They are issued from a form that is only there once the post
has been read, and no write removes a post.
-/

namespace DyeIsLife.Pages

open DyeIsLife.Auth
open DyeIsLife.Firebase
open DyeIsLife.Records
open DyeIsLife.Store
open DyeIsLife.Transition

/-! ## Photos are saved with their texts -/

namespace UploadPhotoPage

variable {urlOf : Nat → File → String}

/-- A post with a description and a location. -/
def HasTexts (write : Write) : Prop :=
  ∃ key userId url description location time,
    write = .photo key userId url (some description) (some location) time

/-- Once a press has been accepted the texts are saved, and stay saved. -/
structure Described (screen : Screen UploadPhotoPage) : Prop where
  texts : screen.uploads ≠ [] → ∃ description location,
    screen.page.myValue = some description ∧ screen.page.myLocation = some location
  writes : ∀ entry ∈ screen.writes, HasTexts entry.2

theorem Described.of_eq {screen next : Screen UploadPhotoPage} (described : Described screen)
    (uploads : next.uploads = [] ↔ screen.uploads = [])
    (myValue : next.page.myValue = screen.page.myValue)
    (myLocation : next.page.myLocation = screen.page.myLocation)
    (writes : next.writes = screen.writes) : Described next where
  texts present := by
    rw [myValue, myLocation]
    exact described.texts fun none_before => present (uploads.mpr none_before)
  writes := by
    rw [writes]
    exact described.writes

theorem Described.setPhase {screen : Screen UploadPhotoPage} (described : Described screen)
    (index : Nat) (upload : Upload UploadPhotoPage) (phase : UploadPhase) :
    Described (Handler.setPhase screen index upload phase) :=
  described.of_eq (List.set_eq_nil_iff _ _) rfl rfl rfl

theorem Described.press {screen next : Screen UploadPhotoPage} {timeKey : String}
    (described : Described screen)
    (taken : handler.uploadStatusImage screen timeKey = some next) : Described next := by
  rcases Option.map_eq_some_iff.mp taken with ⟨image, _, rfl⟩
  cases valid : handler.validateAndSave screen.page with
  | none => exact described
  | some saved =>
      constructor
      · intro _
        simp only [handler, validateAndSave] at valid
        split at valid
        · cases valid
          exact ⟨_, _, rfl, rfl⟩
        · contradiction
      · exact described.writes

theorem Described.finish {screen : Screen UploadPhotoPage} {index : Nat}
    {upload : Upload UploadPhotoPage} (described : Described screen)
    (found : screen.uploads[index]? = some upload) (url key time : String) :
    Described (handler.finish screen index upload url key time) := by
  have present : screen.uploads ≠ [] := by
    intro nothing
    rw [nothing] at found
    contradiction
  rcases described.texts present with ⟨description, location, value, place⟩
  unfold Handler.finish
  by_cases mounted : screen.mounted = true
  · simp only [Handler.setPhase, mounted, if_true, handler, saveToDatabase]
    constructor
    · exact fun _ => ⟨description, location, value, place⟩
    · intro entry member
      rcases List.mem_append.mp member with earlier | last
      · exact described.writes entry earlier
      · cases List.mem_singleton.mp last
        rw [value, place]
        exact ⟨_, _, _, _, _, _, rfl⟩
  · have unmounted : screen.mounted = false := by simpa using mounted
    simp only [Handler.setPhase, unmounted, Bool.false_eq_true, if_false]
    exact described.of_eq (List.set_eq_nil_iff _ _) rfl rfl rfl

theorem Described.step {screen next : Screen UploadPhotoPage} {action : UploadAction PhotoEdit}
    (described : Described screen) (taken : handler.step urlOf screen action = some next) :
    Described next := by
  cases Handler.moves_of_step taken with
  | edits change =>
      rcases change with ⟨image, rfl⟩ | ⟨edit, rfl⟩
      · exact described.of_eq Iff.rfl rfl rfl rfl
      · cases edit <;> exact described.of_eq Iff.rfl rfl rfl rfl
  | navigates stays => exact described.of_eq Iff.rfl rfl rfl rfl
  | presses mounted pressed => exact described.press pressed
  | proceeds found inFlight unfinished => exact described.setPhase _ _ _
  | finishes found fetching => exact described.finish found _ _ _
  | auth moved => exact described.of_eq Iff.rfl rfl rfl rfl

/-- The write is one that some run of an upload page issues. -/
def Issues (write : Write) : Prop :=
  ∃ urlOf session actions final,
    run (handler.step urlOf) (Handler.openedOn initial session) actions = some final ∧
      write ∈ final.writes.map Prod.snd

theorem hasTexts_of_issues {write : Write} (issues : Issues write) : HasTexts write := by
  rcases issues with ⟨urlOf, session, actions, final, executed, member⟩
  have initially : Described (Handler.openedOn initial session) := ⟨fun present =>
    absurd rfl present, nofun⟩
  have described := invariant_of_run
    (fun _ _ _ described taken => Described.step described taken) initially executed
  rcases List.mem_map.mp member with ⟨entry, entryMember, rfl⟩
  exact described.writes entry entryMember

end UploadPhotoPage

/-! ## The shared database -/

/-- The database, and whether some client shows the comment form. -/
structure Feed where
  database : Database
  rendered : Bool

inductive FeedAction where
  /-- a `CommentPage` has read its post and shows the form -/
  | render
  | write (write : Write)

/-- The write is issued by the comment form. -/
def fromCommentForm : Write → Bool
  | .comment _ _ _ _ => true
  | _ => false

/-- One step of the clients together. -/
def Feed.step (iterate : Entries → Entries) : Step Feed FeedAction
  | feed, .render =>
      if (combined iterate (feed.database.value postRef)).isSome then
        some { feed with rendered := true }
      else
        none
  | feed, .write write =>
      if write.Fresh feed.database ∧ (fromCommentForm write = true → feed.rendered = true) then
        some { feed with database := write.apply feed.database }
      else
        none

/-- Photos are written by upload pages. -/
def FeedAction.Issued : FeedAction → Prop
  | .write (.photo key userId url myValue myLocation time) =>
      UploadPhotoPage.Issues (.photo key userId url myValue myLocation time)
  | _ => True

/-- The post that an action saves. -/
def FeedAction.saved : FeedAction → Option Posts
  | .write (.photo _ _ url myValue myLocation time) =>
      some ⟨some "@henryhevans", some url, myValue, myLocation, some time⟩
  | _ => none

/-- The key under which an action saves a post. -/
def FeedAction.savedKey : FeedAction → Option String
  | .write (.photo key _ _ _ _ _) => some key
  | _ => none

/-- The keys of the posts that a database holds. -/
def postKeys (db : Database) : List String :=
  keys (children (db.value postsRef))

/-- The posts that a database holds. -/
def listing (db : Database) : List Posts :=
  (children (db.value postsRef)).map fun entry => postFields entry.2

/-! ## What the writes do to the listing -/

/-- A saved photo is a new entry at the end. -/
theorem children_photo {db : Database} {key : String} (fresh : db.Fresh postsRef key)
    (userId : Option String) (url : String) (myValue myLocation : Option String)
    (time : String) :
    children (((Write.photo key userId url myValue myLocation time).apply db).value postsRef) =
      children (db.value postsRef) ++
        [(key, .node (photoData userId url myValue myLocation time).stored)] := by
  apply db.children_value_push fresh
  cases userId <;> rfl

theorem postKeys_photo {db : Database} {key : String} (fresh : db.Fresh postsRef key)
    (userId : Option String) (url : String) (myValue myLocation : Option String)
    (time : String) :
    postKeys ((Write.photo key userId url myValue myLocation time).apply db) =
      postKeys db ++ [key] := by
  rw [postKeys, children_photo fresh, keys, List.map_append]
  rfl

theorem listing_photo {db : Database} {key : String} (fresh : db.Fresh postsRef key)
    (userId : Option String) (url : String) (myValue myLocation : Option String)
    (time : String) :
    listing ((Write.photo key userId url myValue myLocation time).apply db) =
      listing db ++ [⟨some "@henryhevans", some url, myValue, myLocation, some time⟩] := by
  have fields : postFields (.node (photoData userId url myValue myLocation time).stored) =
      ⟨some "@henryhevans", some url, myValue, myLocation, some time⟩ := by
    cases userId <;> cases myValue <;> cases myLocation <;> rfl
  rw [listing, children_photo fresh, List.map_append, List.map_singleton, fields, listing]

/-- The texts of a post do not depend on its comments. -/
theorem postFields_set_comments {record record' : Tree String String} {path : List String}
    {new : Value String String}
    (written : set ("comments" :: path) new (some record) = some record') :
    postFields record' = postFields record := by
  have same : ∀ name, "comments" ≠ name → textOf record' name = textOf record name := by
    intro name other
    have apart : Apart ("comments" :: path) [name] := Or.inl other
    rw [textOf, ← written, get_set_of_apart apart, textOf]
  simp only [postFields, same _ (by decide : "comments" ≠ "username"),
    same _ (by decide : "comments" ≠ "image"), same _ (by decide : "comments" ≠ "description"),
    same _ (by decide : "comments" ≠ "location"), same _ (by decide : "comments" ≠ "time")]

/-- A comment on an existing post replaces the entry of that post by one with
the same texts. -/
theorem children_comment (db : Database) (key : String) (userId : Option String) (myComment time : String) :
    ∃ record, children (((Write.comment key userId myComment time).apply db).value postsRef) =
        insert postID record (children (db.value postsRef)) ∧
      ∀ entry ∈ children (db.value postsRef), entry.1 = postID →
        postFields record = postFields entry.2 := by
  have below : commentsRef ++ [key] = postsRef ++ [postID, "comments", key] := by
    rw [commentsRef_eq, postsRef_eq]
    rfl
  have data : (commentData userId myComment time).value ≠ none := by
    cases userId <;> exact nofun
  have written : ((Write.comment key userId myComment time).apply db).value postsRef =
      set [postID, "comments", key] (commentData userId myComment time).value
        (db.value postsRef) := by
    change get postsRef (Store.set (commentsRef ++ [key]) _ db.root) = _
    rw [below, get_set_append]
    rfl
  rcases Option.ne_none_iff_exists'.mp (set_ne_none ["comments", key] data
    ((children (db.value postsRef)).lookup postID)) with ⟨record, replaced⟩
  refine ⟨record, ?_, ?_⟩
  · rw [written, children_set_cons, replaced, alter]
  · rintro ⟨_, old⟩ member rfl
    have distinct : (keys (children (db.value postsRef))).Nodup := db.wellFormed postsRef
    rw [lookup_eq_some_of_mem distinct member] at replaced
    exact postFields_set_comments replaced

theorem postKeys_comment {db : Database} (present : postID ∈ postKeys db) (key : String)
    (userId : Option String) (myComment time : String) :
    postKeys ((Write.comment key userId myComment time).apply db) = postKeys db := by
  rcases children_comment db key userId myComment time with ⟨record, replaced, _⟩
  rw [postKeys, replaced, keys_insert]
  exact if_pos present

theorem listing_comment {db : Database} (present : postID ∈ postKeys db)
    (key : String) (userId : Option String) (myComment time : String) :
    listing ((Write.comment key userId myComment time).apply db) = listing db := by
  rcases children_comment db key userId myComment time with ⟨record, replaced, same⟩
  rw [listing, replaced]
  exact map_insert_of_mem postFields present same

/-- The writes outside `Posts` leave it alone. -/
theorem value_postsRef_of_area_ne {write : Write} (other : write.area ≠ "Posts")
    (db : Database) : (write.apply db).value postsRef = db.value postsRef := by
  rw [postsRef_eq]
  exact write.value_apply_of_area_ne db other []

/-! ## The invariant -/

/-- Every post has its texts, and where the comment form is shown its post
exists. -/
structure Feed.Renderable (feed : Feed) : Prop where
  full : ∀ posts ∈ listing feed.database, posts.Full
  formed : feed.rendered = true → postID ∈ postKeys feed.database

theorem postID_mem_of_combined {iterate : Entries → Entries} {db : Database}
    (read : (combined iterate (db.value postRef)).isSome = true) :
    postID ∈ postKeys db := by
  have below : postRef = postsRef ++ [postID] := by
    rw [postRef_eq, postsRef_eq]
    rfl
  rw [below, Database.value_append, get_cons, get_nil] at read
  apply mem_keys_of_lookup_ne_none
  intro absent
  rw [absent] at read
  contradiction

theorem Feed.Renderable.photo {feed : Feed} (renderable : feed.Renderable) {key : String}
    {userId : Option String} {url : String} {myValue myLocation : Option String} {time : String}
    (fresh : feed.database.Fresh postsRef key)
    (texts : UploadPhotoPage.HasTexts (.photo key userId url myValue myLocation time)) :
    Feed.Renderable { feed with
      database := (Write.photo key userId url myValue myLocation time).apply feed.database } where
  full posts member := by
    rw [listing_photo fresh] at member
    rcases List.mem_append.mp member with earlier | new
    · exact renderable.full posts earlier
    · rcases texts with ⟨_, _, _, description, location, _, same⟩
      cases same
      cases List.mem_singleton.mp new
      simp [Posts.Full]
  formed rendered := by
    rw [postKeys_photo fresh]
    exact List.mem_append_left _ (renderable.formed rendered)

theorem Feed.Renderable.comment {feed : Feed} (renderable : feed.Renderable)
    (rendered : feed.rendered = true) (key : String) (userId : Option String)
    (myComment time : String) :
    Feed.Renderable { feed with
      database := (Write.comment key userId myComment time).apply feed.database } where
  full := by
    rw [listing_comment (renderable.formed rendered)]
    exact renderable.full
  formed _ := by
    rw [postKeys_comment (renderable.formed rendered)]
    exact renderable.formed rendered

theorem Feed.Renderable.elsewhere {feed : Feed} (renderable : feed.Renderable) {write : Write}
    (other : write.area ≠ "Posts") :
    Feed.Renderable { feed with database := write.apply feed.database } where
  full := by
    rw [listing, value_postsRef_of_area_ne other]
    exact renderable.full
  formed := by
    rw [postKeys, value_postsRef_of_area_ne other]
    exact renderable.formed

/-- The action adds the post it saves to those of the database, under its key. -/
structure FeedAction.Adds (action : FeedAction) (db next : Database) : Prop where
  listed : listing next = listing db ++ action.saved.toList
  keyed : postKeys next = postKeys db ++ action.savedKey.toList

/-- One step keeps every post and adds the one it saves. -/
theorem Feed.Renderable.step {iterate : Entries → Entries} {feed next : Feed}
    {action : FeedAction} (renderable : feed.Renderable) (issued : action.Issued)
    (taken : Feed.step iterate feed action = some next) :
    next.Renderable ∧ action.Adds feed.database next.database := by
  cases action with
  | render =>
      simp only [Feed.step] at taken
      split at taken
      · rename_i read
        cases taken
        constructor
        · exact ⟨renderable.full, fun _ => postID_mem_of_combined read⟩
        · exact ⟨(List.append_nil _).symm, (List.append_nil _).symm⟩
      · contradiction
  | write write =>
      simp only [Feed.step] at taken
      split at taken
      · rename_i enabled
        rcases enabled with ⟨fresh, form⟩
        cases taken
        have unchanged : listing (write.apply feed.database) = listing feed.database →
            postKeys (write.apply feed.database) = postKeys feed.database →
            FeedAction.saved (.write write) = none → FeedAction.savedKey (.write write) = none →
            FeedAction.Adds (.write write) feed.database (write.apply feed.database) := by
          intro listed keyed noPost noKey
          constructor
          · rw [listed, noPost]
            exact (List.append_nil _).symm
          · rw [keyed, noKey]
            exact (List.append_nil _).symm
        have elsewhere : write.area ≠ "Posts" → FeedAction.saved (.write write) = none →
            FeedAction.savedKey (.write write) = none →
            Feed.Renderable { feed with database := write.apply feed.database } ∧
              FeedAction.Adds (.write write) feed.database (write.apply feed.database) := by
          intro other noPost noKey
          have same := value_postsRef_of_area_ne other feed.database
          exact ⟨renderable.elsewhere other, unchanged (by rw [listing, same, listing])
            (by rw [postKeys, same, postKeys]) noPost noKey⟩
        cases write with
        | photo key userId url myValue myLocation time =>
            constructor
            · exact renderable.photo fresh (UploadPhotoPage.hasTexts_of_issues issued)
            · exact ⟨listing_photo fresh userId url myValue myLocation time,
                postKeys_photo fresh userId url myValue myLocation time⟩
        | comment key userId myComment time =>
            have rendered := form rfl
            have present := renderable.formed rendered
            constructor
            · exact renderable.comment rendered key userId myComment time
            · exact unchanged (listing_comment present key userId myComment time)
                (postKeys_comment present key userId myComment time) rfl rfl
        | discussion key userId myTitle myBody time =>
            exact elsewhere (by simp [Write.area]) rfl rfl
        | register uid username email => exact elsewhere (by simp [Write.area]) rfl rfl
        | editProfile currentUser myUsername myLocation myBio =>
            exact elsewhere (by simp [Write.area]) rfl rfl
        | changePhoto currentUser url => exact elsewhere (by simp [Write.area]) rfl rfl
      · contradiction

theorem filterMap_cons_eq {α β : Type} (f : α → Option β) (first : α) (rest : List α) :
    (first :: rest).filterMap f = (f first).toList ++ rest.filterMap f := by
  cases found : f first with
  | none => simp [found]
  | some value => simp [found]

/-- A run keeps every post and adds the saved ones. -/
theorem Feed.Renderable.run {iterate : Entries → Entries} {feed final : Feed}
    {actions : List FeedAction} (renderable : feed.Renderable)
    (issued : ∀ action ∈ actions, action.Issued)
    (executed : Transition.run (Feed.step iterate) feed actions = some final) :
    final.Renderable ∧
      listing final.database = listing feed.database ++ actions.filterMap FeedAction.saved ∧
      postKeys final.database = postKeys feed.database ++ actions.filterMap FeedAction.savedKey := by
  induction actions generalizing feed with
  | nil =>
      cases executed
      exact ⟨renderable, (List.append_nil _).symm, (List.append_nil _).symm⟩
  | cons action rest ih =>
      rcases (run_cons_eq_some_iff _ _ _ _ _).mp executed with ⟨next, taken, executedRest⟩
      rcases renderable.step (issued action List.mem_cons_self) taken with ⟨kept, adds⟩
      rcases ih kept (fun other member => issued other (List.mem_cons_of_mem action member))
        executedRest with ⟨keptRest, listed, keyed⟩
      constructor
      · exact keptRest
      · constructor
        · rw [listed, adds.listed, List.append_assoc, filterMap_cons_eq]
        · rw [keyed, adds.keyed, List.append_assoc, filterMap_cons_eq]

/-! ## Reading the feed -/

/-- The two reads of `initState` complete in one order or the other. -/
def EitherOrder (order : List HomeRead) : Prop :=
  order = [.posts, .discussions] ∨ order = [.discussions, .posts]

/-- The list of posts after both reads is that of the read of `Posts`,
whichever read completes first. -/
theorem postsList_initState (iterate : Entries → Entries) (posts discussions : Value String String)
    {order : List HomeRead} (either : EitherOrder order) :
    (HomePage.initState iterate posts discussions order).postsList =
      reload iterate readPost posts [] := by
  rcases either with rfl | rfl
  · rfl
  · rfl

/-- The list that `initState` builds of a map is a permutation of what the
database holds. -/
theorem reload_listing {iterate : Entries → Entries}
    (each : ∀ entries, (iterate entries).Perm entries) {db : Database}
    (full : ∀ posts ∈ listing db, posts.Full) (isMap : ExportsMap (postKeys db)) :
    (reload iterate readPost (db.value postsRef) []).Perm (listing db) := by
  have distinct : (keys (children (db.value postsRef))).Nodup := db.wellFormed postsRef
  unfold listing at full ⊢
  unfold postKeys at isMap
  cases stored : db.value postsRef with
  | none => exact List.Perm.refl _
  | some tree =>
      cases tree with
      | leaf text => exact List.Perm.refl _
      | node data =>
          rw [stored] at full distinct isMap
          apply reload_perm each isMap distinct
          intro entry member
          exact readPost_of_full (full _ (List.mem_map_of_mem member))

/-- Of an array it builds nothing. -/
theorem reload_listing_array {iterate : Entries → Entries} {db : Database}
    (isArray : ¬ ExportsMap (postKeys db)) :
    reload iterate readPost (db.value postsRef) [] = [] := by
  unfold postKeys at isArray
  cases stored : db.value postsRef with
  | none => rfl
  | some tree =>
      cases tree with
      | leaf text => rfl
      | node data =>
          rw [stored] at isArray
          exact reload_array isArray []

/-- A database with the post that comments go to. -/
def onePostDatabase : Database :=
  (Write.photo postID (some firstUid.val) "a.jpg" (some "first") (some "here") "noon").apply .empty

/-- The press of an upload page that saves a second post. -/
def secondPress : List (UploadAction PhotoEdit) :=
  [.picked (some "b.jpg"), .edit (.description "second"), .edit (.location "there"), .press "t",
    .uploaded 0, .gotUrl 0 "key" "evening"]

theorem issues_secondPress :
    UploadPhotoPage.Issues
      (.photo "key" (some secondUid.val) "b.jpg" (some "second") (some "there") "evening") :=
  ⟨fun _ file => file, ⟨some secondUid, some secondUid.val, []⟩, secondPress, _, rfl,
    List.mem_cons_self⟩

/-- A comment, an update with an empty `currentUser`, and a second post. -/
def mixedWrites : List FeedAction :=
  [.render, .write (.comment "c" (some secondUid.val) "nice" "later"),
    .write (.editProfile "" "x" "y" "z"),
    .write (.photo "key" (some secondUid.val) "b.jpg" (some "second") (some "there") "evening")]

/-- A database whose only post has the key 0. -/
def numberedPost : Database :=
  (Write.photo "0" (some firstUid.val) "a.jpg" (some "first") (some "here") "noon").apply .empty

end DyeIsLife.Pages
