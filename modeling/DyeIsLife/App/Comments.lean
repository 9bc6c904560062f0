import DyeIsLife.App.World
import DyeIsLife.Pages.Reading

/-!
# Comments are neither lost nor duplicated

All comments go to one fixed post.  Along every run of all devices from the
launch of the app the database holds the comments that were there and one for
each call of `saveToDatabase`, each with an author: a comment page is only
reached past a login, and from the first login on `currentUser` is never null
again, not even after a logout.  The comment page lists them as long as the
post and its comments arrive as maps.
-/

namespace DyeIsLife.App

open DyeIsLife.Firebase
open DyeIsLife.Pages
open DyeIsLife.Records
open DyeIsLife.Store
open DyeIsLife.Transition

/-- The comments that a database holds, with their keys. -/
def commentEntries (db : Database) : List (String × Comment) :=
  (children (db.value commentsRef)).map fun entry => (entry.1, commentFields entry.2)

/-- The comment that a write stores, with its key. -/
def commentOf : Write → Option (String × Comment)
  | .comment key userId myComment time => some (key, ⟨userId, some myComment, some time⟩)
  | _ => none

/-- The comments of a database are a map below its post. -/
def CommentsStored (db : Database) : Prop :=
  ∃ values comments, db.value postRef = some (.node values) ∧
    values.lookup "comments" = some (.node comments)

/-! ## What the writes do to the comments -/

theorem commentsRef_below : commentsRef = postRef ++ ["comments"] := by
  rw [commentsRef_eq, postRef_eq]
  rfl

theorem postRef_below : postRef = postsRef ++ [postID] := by
  rw [postRef_eq, postsRef_eq]
  rfl

theorem value_commentsRef (db : Database) :
    db.value commentsRef = get ["comments"] (db.value postRef) := by
  rw [commentsRef_below, Database.value_append]

theorem commentEntries_comment {db : Database} {key : String}
    (fresh : db.Fresh commentsRef key) (userId : Option String) (myComment time : String) :
    commentEntries ((Write.comment key userId myComment time).apply db) =
      commentEntries db ++ [(key, ⟨userId, some myComment, some time⟩)] := by
  have stored : (commentData userId myComment time).value =
      some (.node (commentData userId myComment time).stored) := by
    cases userId <;> rfl
  have fields : commentFields (.node (commentData userId myComment time).stored) =
      ⟨userId, some myComment, some time⟩ := by
    cases userId <;> rfl
  rw [commentEntries, Write.apply, db.children_value_push fresh stored, List.map_append,
    List.map_singleton, fields, commentEntries]

theorem commentsStored_comment (db : Database) (key : String) (userId : Option String)
    (myComment time : String) :
    CommentsStored ((Write.comment key userId myComment time).apply db) := by
  have data : (commentData userId myComment time).value ≠ none := by
    cases userId <;> exact nofun
  have below : commentsRef ++ [key] = postRef ++ ["comments", key] := by
    rw [commentsRef_below, List.append_assoc]
    rfl
  have written : ((Write.comment key userId myComment time).apply db).value postRef =
      set ["comments", key] (commentData userId myComment time).value (db.value postRef) := by
    change get postRef (Store.set (commentsRef ++ [key]) _ db.root) = _
    rw [below, get_set_append]
    rfl
  rcases set_cons_eq_node "comments" [key] data (db.value postRef) with ⟨values, post⟩
  rcases set_cons_eq_node key [] data (get ["comments"] (db.value postRef)) with
    ⟨comments, entry⟩
  refine ⟨values, comments, written.trans post, ?_⟩
  have inside : get ["comments"] (some (.node values)) = some (.node comments) := by
    rw [← post, ← entry]
    exact get_set_append ["comments"] [key] _ _
  exact inside

/-- A photo is a new post, so it is not the one that has the comments. -/
theorem value_postRef_photo {db : Database} (present : db.value postRef ≠ none) {key : String}
    (fresh : db.Fresh postsRef key) (userId : Option String) (url : String)
    (myValue myLocation : Option String) (time : String) :
    ((Write.photo key userId url myValue myLocation time).apply db).value postRef =
      db.value postRef := by
  have known : postID ∈ keys (children (db.value postsRef)) := by
    rw [postRef_below, Database.value_append, get_cons, get_nil] at present
    exact mem_keys_of_lookup_ne_none present
  have differ : key ≠ postID := by
    rintro rfl
    exact fresh known
  apply Write.value_apply_of_apart
  intro ref member
  rw [List.mem_singleton.mp member, postRef_below]
  exact apart_append_of_ne postsRef [] [] differ

/-- A write that is no comment leaves the post alone. -/
theorem value_postRef_apply {db : Database} {write : Write} (present : db.value postRef ≠ none)
    (fresh : write.Fresh db) (other : commentOf write = none) :
    (write.apply db).value postRef = db.value postRef := by
  have elsewhere : write.area ≠ "Posts" → (write.apply db).value postRef = db.value postRef := by
    intro outside
    rw [postRef_eq]
    exact write.value_apply_of_area_ne db outside [postID]
  cases write with
  | photo key userId url myValue myLocation time =>
      exact value_postRef_photo present fresh userId url myValue myLocation time
  | comment key userId myComment time => contradiction
  | discussion key userId myTitle myBody time => exact elsewhere (by simp [Write.area])
  | register uid username email => exact elsewhere (by simp [Write.area])
  | editProfile currentUser myUsername myLocation myBio =>
      exact elsewhere (by simp [Write.area])
  | changePhoto currentUser url => exact elsewhere (by simp [Write.area])

/-! ## Calls -/

/-- The comment that a call of `_CommentPageState.saveToDatabase` submits: its
key, the `currentUser` of that moment, the text and the time. -/
def commentCall (world : World) (action : WorldAction) : Option (String × Comment) :=
  match action.action with
  | .saveComment key myComment time =>
      some (key, ⟨(world.devices action.device).session.currentUser, some myComment, some time⟩)
  | _ => none

/-- The calls of a run, in order. -/
def commentCalls (world : World) (actions : List WorldAction) : List (String × Comment) :=
  collect World.step commentCall world actions

theorem commentCall_of_silent {world : World} {index : Nat} {next : Device}
    {action : DeviceAction} (taken : (world.devices index).step action = some (next, none)) :
    commentCall world ⟨index, action⟩ = none := by
  cases action with
  | saveComment key myComment time =>
      simp only [Device.step] at taken
      split at taken <;> cases taken
  | _ => rfl

/-- The comment that an action writes is that of its call. -/
theorem commentOf_of_issues {world : World} {index : Nat} {action : DeviceAction} {write : Write}
    (issues : (world.devices index).Issues action write) :
    commentOf write = commentCall world ⟨index, action⟩ := by
  cases issues <;> rfl

/-- A submitted comment has an author. -/
theorem full_of_issues {device : Device} (assigned : device.Assigned) {action : DeviceAction}
    {write : Write} (issues : device.Issues action write) {key : String} {comment : Comment}
    (stored : commentOf write = some (key, comment)) : comment.Full := by
  cases issues with
  | comment onTop =>
      cases stored
      have present : device.session.currentUser ≠ none := by
        apply assigned.ne_none
        apply Device.past_of_top
        rw [onTop]
        exact nofun
      exact ⟨present, nofun, nofun⟩
  | register answered => contradiction
  | editProfile current => contradiction
  | discussion => contradiction
  | photo => contradiction
  | changePhoto found page mounted current => contradiction

/-! ## Runs -/

/-- What some calls have made of the comments: theirs have been added, each with
its three texts, and without a call the post is what it was. -/
structure Commented (db : Database) (calls : List (String × Comment)) (next : Database) :
    Prop where
  entries : commentEntries next = commentEntries db ++ calls
  full : ∀ call ∈ calls, call.2.Full
  unchanged : calls = [] → next.value postRef = db.value postRef
  stored : calls ≠ [] → CommentsStored next

theorem commented_refl (db : Database) : Commented db [] db where
  entries := (List.append_nil _).symm
  full := nofun
  unchanged _ := rfl
  stored some_call := absurd rfl some_call

theorem Commented.present {db next : Database} {calls : List (String × Comment)}
    (commented : Commented db calls next) (present : db.value postRef ≠ none) :
    next.value postRef ≠ none := by
  by_cases nothing : calls = []
  · rw [commented.unchanged nothing]
    exact present
  · rcases commented.stored nothing with ⟨values, comments, post, _⟩
    rw [post]
    exact nofun

theorem Commented.trans {first second third : Database} {calls more : List (String × Comment)}
    (commented : Commented first calls second) (then_ : Commented second more third) :
    Commented first (calls ++ more) third where
  entries := by rw [then_.entries, commented.entries, List.append_assoc]
  full call member := by
    rcases List.mem_append.mp member with earlier | later
    · exact commented.full call earlier
    · exact then_.full call later
  unchanged nothing := by
    rcases List.append_eq_nil_iff.mp nothing with ⟨noCalls, noMore⟩
    rw [then_.unchanged noMore, commented.unchanged noCalls]
  stored some_call := by
    by_cases noMore : more = []
    · have some_earlier : calls ≠ [] := by
        rintro rfl
        exact some_call noMore
      rcases commented.stored some_earlier with ⟨values, comments, post, inside⟩
      exact ⟨values, comments, (then_.unchanged noMore).trans post, inside⟩
    · exact then_.stored noMore

/-- One step adds the comment of its call, if it is one. -/
theorem commented_step {world next : World} {action : WorldAction}
    (assigned : ∀ index, (world.devices index).Assigned)
    (present : world.database.value postRef ≠ none) (taken : World.step world action = some next) :
    Commented world.database (commentCall world action).toList next.database := by
  rcases action with ⟨index, action⟩
  cases World.moves_of_step taken with
  | silent moved =>
      rw [commentCall_of_silent moved]
      exact commented_refl world.database
  | @writes device write moved issues fresh =>
      have same := commentOf_of_issues issues
      rw [← same]
      cases call : commentOf write with
      | none =>
          have kept := value_postRef_apply present fresh call
          constructor
          · change commentEntries (write.apply world.database) = _
            rw [commentEntries, value_commentsRef, kept, ← value_commentsRef]
            exact (List.append_nil _).symm
          · exact nofun
          · exact fun _ => kept
          · exact fun some_call => absurd rfl some_call
      | some call' =>
          rcases call' with ⟨key, comment⟩
          have full := full_of_issues (assigned index) issues call
          cases write with
          | comment pushed userId myComment time =>
              cases call
              constructor
              · exact commentEntries_comment fresh userId myComment time
              · intro entry member
                cases List.mem_singleton.mp member
                exact full
              · exact nofun
              · exact fun _ => commentsStored_comment world.database _ userId myComment time
          | photo => contradiction
          | discussion => contradiction
          | register => contradiction
          | editProfile => contradiction
          | changePhoto => contradiction

/-- A run adds one comment for each call. -/
theorem commented_of_run {world final : World} {actions : List WorldAction}
    (assigned : ∀ index, (world.devices index).Assigned)
    (present : world.database.value postRef ≠ none)
    (executed : run World.step world actions = some final) :
    Commented world.database (commentCalls world actions) final.database := by
  induction actions generalizing world with
  | nil =>
      cases executed
      exact commented_refl _
  | cons action rest ih =>
      rcases (run_cons_eq_some_iff _ _ _ _ _).mp executed with ⟨next, taken, executedRest⟩
      have step := commented_step assigned present taken
      rw [commentCalls, collect_cons commentCall taken]
      exact step.trans (ih (World.assigned_step assigned taken) (step.present present) executedRest)

/-- A call of `saveToDatabase` changes nothing but its own new entry: no other
comment, no other field of the post, no other post and nothing outside
`Posts`. -/
def CommentConfined (world : World) (action : WorldAction) (next : World) : Prop :=
  ∀ key myComment time, action.action = .saveComment key myComment time →
    ∀ other, Apart (commentsRef ++ [key]) other →
      next.database.value other = world.database.value other

theorem commentConfined_of_step {world next : World} {action : WorldAction}
    (taken : World.step world action = some next) : CommentConfined world action next := by
  intro key myComment time call other apart
  rcases action with ⟨index, action⟩
  cases call
  cases World.moves_of_step taken with
  | silent moved => rfl
  | writes moved issues fresh =>
      cases issues
      apply Write.value_apply_of_apart
      intro ref member
      rw [List.mem_singleton.mp member]
      exact apart

/-! ## Reading the comments -/

/-- The post and its comments arrive as maps, given the keys that were pushed:
before the first push the post must be a map and its comments no text, and the
keys of the comments must not make an array. -/
structure ArriveAsMaps (db : Database) (pushed : List String) : Prop where
  post : pushed = [] → (asMap? (db.value postRef)).isSome = true
  noText : pushed = [] → leaf? (db.value commentsRef) = none
  comments : ExportsMap (keys (commentEntries db) ++ pushed)

instance (db : Database) (pushed : List String) : Decidable (ArriveAsMaps db pushed) :=
  decidable_of_iff
    ((pushed = [] → (asMap? (db.value postRef)).isSome = true) ∧
      (pushed = [] → leaf? (db.value commentsRef) = none) ∧
      ExportsMap (keys (commentEntries db) ++ pushed))
    ⟨fun ⟨post, noText, comments⟩ => ⟨post, noText, comments⟩,
      fun maps => ⟨maps.post, maps.noText, maps.comments⟩⟩

theorem keys_commentEntries (db : Database) :
    keys (commentEntries db) = keys (children (db.value commentsRef)) := by
  rw [commentEntries, keys, List.map_map]
  rfl

/-- After some calls the page can read the post exactly when the post and its
comments arrive as maps. -/
theorem Commented.maps_iff {db next : Database} {calls : List (String × Comment)}
    (commented : Commented db calls next) :
    ((asMap? (next.value postRef)).isSome = true ∧ leaf? (next.value commentsRef) = none ∧
      ExportsMap (keys (children (next.value commentsRef)))) ↔
    ArriveAsMaps db (keys calls) := by
  have keyed : keys (children (next.value commentsRef)) = keys (commentEntries db) ++ keys calls := by
    rw [← keys_commentEntries, commented.entries, keys, List.map_append]
    rfl
  rw [keyed]
  by_cases nothing : calls = []
  · have post := commented.unchanged nothing
    rw [value_commentsRef next, post, ← value_commentsRef]
    subst nothing
    constructor
    · rintro ⟨isMap, noText, comments⟩
      exact ⟨fun _ => isMap, fun _ => noText, comments⟩
    · intro maps
      exact ⟨maps.post rfl, maps.noText rfl, maps.comments⟩
  · rcases commented.stored nothing with ⟨values, comments, post, inside⟩
    have some_key : keys calls ≠ [] := by
      intro noKey
      exact nothing (List.map_eq_nil_iff.mp noKey)
    have isMap : asMap? (next.value postRef) = some values := by
      rw [post]
      apply asMap?_of_lookup (by decide : integerKey "comments" = none)
      rw [inside]
      exact nofun
    have noText : leaf? (next.value commentsRef) = none := by
      rw [value_commentsRef, post, get_cons, get_nil, children_node, inside]
      rfl
    constructor
    · rintro ⟨_, _, comments⟩
      exact ⟨fun noKey => absurd noKey some_key, fun noKey => absurd noKey some_key, comments⟩
    · intro maps
      exact ⟨Option.isSome_of_eq_some isMap, noText, maps.comments⟩

/-- A database with the post that comments go to, and one comment. -/
def commentedPost : Database :=
  (Write.comment "c0" (some secondUid.val) "first" "morning").apply
    ((Write.photo postID (some secondUid.val) "a.jpg" (some "desk") (some "here") "dawn").apply
      .empty)

/-- Log in, comment, log out, go back and comment again. -/
def commentingTwice : List WorldAction :=
  [⟨0, .submit .login⟩, ⟨0, .effect 1 (.granted firstUid)⟩, ⟨0, .resume 1 "" ""⟩,
    ⟨0, .tap .comment⟩, ⟨0, .saveComment "c1" "nice" "noon"⟩, ⟨0, .back⟩, ⟨0, .back⟩,
    ⟨0, .tap .profile⟩, ⟨0, .logout⟩, ⟨0, .back⟩, ⟨0, .back⟩, ⟨0, .tap .comment⟩,
    ⟨0, .saveComment "c2" "bye" "night"⟩]

/-- A database in which the only comment on the post has the key 0. -/
def numberedComment : Database :=
  (Write.comment "0" (some secondUid.val) "first" "morning").apply
    ((Write.photo postID (some secondUid.val) "a.jpg" (some "desk") (some "here") "dawn").apply
      .empty)

end DyeIsLife.App
