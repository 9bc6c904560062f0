import DyeIsLife.Firebase.Export
import DyeIsLife.Records.Writes

/-!
# What the pages read back

`HomePage.initState` reads `Posts` and `Discussions`, and `CommentPage.combined`
reads one post with its comments.  The values are untyped and taken for maps:
looking up an absent key gives null, using null, a string or an array as a map
throws, and so does assigning a map or an array to a `String`.

The order in which a Dart map iterates over its entries is a parameter, of
which only is assumed that every entry comes up once.
-/

namespace DyeIsLife.Pages

open DyeIsLife.Firebase
open DyeIsLife.Records
open DyeIsLife.Store

/-- The entries of a map that was read from the database. -/
abbrev Entries := List (String × Tree String String)

/-! ## Records -/

/-- The fields of `Posts`. -/
structure Posts where
  username : Option String
  image : Option String
  description : Option String
  location : Option String
  time : Option String
  deriving DecidableEq

/-- The fields of `Discussions`. -/
structure Discussions where
  username : Option String
  title : Option String
  bodyText : Option String
  time : Option String
  deriving DecidableEq

/-- The fields of `Comment`. -/
structure Comment where
  userId : Option String
  commentBody : Option String
  time : Option String
  deriving DecidableEq

/-- `record[name]` used as a `String`: null when the key is absent, an error
when it holds a map or an array. -/
def readText (record : Entries) (name : String) : Option (Option String) :=
  match record.lookup name with
  | none => some none
  | some (.leaf text) => some (some text)
  | some (.node _) => none

/-- `new Posts(...)` in `_HomePageState.initState`. -/
def readPost (data : Tree String String) : Option Posts := do
  let record ← asMap? (some data)
  let username ← readText record "username"
  let image ← readText record "image"
  let description ← readText record "description"
  let location ← readText record "location"
  let time ← readText record "time"
  pure ⟨username, image, description, location, time⟩

/-- `new Discussions(...)` in `_HomePageState.initState`. -/
def readDiscussion (data : Tree String String) : Option Discussions := do
  let record ← asMap? (some data)
  let username ← readText record "username"
  let title ← readText record "title"
  let bodyText ← readText record "bodyText"
  let time ← readText record "time"
  pure ⟨username, title, bodyText, time⟩

/-- `new Comment(...)` in `_CommentPageState.combined`. -/
def readComment (data : Tree String String) : Option Comment := do
  let record ← asMap? (some data)
  let userId ← readText record "userId"
  let commentBody ← readText record "commentBody"
  let time ← readText record "time"
  pure ⟨userId, commentBody, time⟩

/-! ## The readers -/

section Readers

variable (iterate : Entries → Entries)

/-- The loop over `keys` in the callbacks of `initState`.  An error ends the
loop; what has been added stays. -/
def addEach {ρ : Type} (read : Tree String String → Option ρ) (data : Entries) :
    List String → List ρ → List ρ
  | [], list => list
  | key :: rest, list =>
      match (data.lookup key).bind read with
      | some record => addEach read data rest (list ++ [record])
      | none => list

/-- A callback of `initState`: `snap.value.keys` throws on anything but a map,
before the list is cleared. -/
def reload {ρ : Type} (read : Tree String String → Option ρ)
    (snapshot : Value String String) (list : List ρ) : List ρ :=
  match asMap? snapshot with
  | some data => addEach read data (keys (iterate data)) []
  | none => list

/-- The two lists of `_HomePageState`. -/
structure HomePage where
  postsList : List Posts
  discussionsList : List Discussions
  deriving DecidableEq

/-- The two reads that `initState` starts. -/
inductive HomeRead where
  | posts
  | discussions
  deriving DecidableEq

namespace HomePage

/-- One of the reads completes with its snapshot. -/
def complete (posts discussions : Value String String) (home : HomePage) :
    HomeRead → HomePage
  | .posts => { home with postsList := reload iterate readPost posts home.postsList }
  | .discussions =>
      { home with
        discussionsList := reload iterate readDiscussion discussions home.discussionsList }

/-- `initState` with its reads completing in the given order. -/
def initState (posts discussions : Value String String) (order : List HomeRead) : HomePage :=
  order.foldl (complete iterate posts discussions) ⟨[], []⟩

end HomePage

/-- What `combined` takes from a post; the fields are untyped. -/
structure CommentView where
  pic : Value String String
  posterUserID : Value String String
  description : Value String String
  time : Value String String
  location : Value String String
  commentsList : List Comment

/-- `comments.forEach(...)`, skipped when there are no comments; the closure
takes two arguments, which only the `forEach` of a map passes. -/
def readComments : Value String String → Option (List Comment)
  | none => some []
  | some data => do
      let comments ← asMap? (some data)
      (iterate comments).mapM fun entry => readComment entry.2

/-- The builder of `_CommentPageState.combined`. -/
def combined (snapshot : Value String String) : Option CommentView := do
  let values ← asMap? snapshot
  let commentsList ← readComments iterate (values.lookup "comments")
  return {
    pic := values.lookup "image"
    posterUserID := values.lookup "userId"
    description := values.lookup "description"
    time := values.lookup "time"
    location := values.lookup "location"
    commentsList }

end Readers

/-! ## What a record holds -/

/-- The text that a record holds under a name. -/
def textOf (record : Tree String String) (name : String) : Option String :=
  leaf? (get [name] (some record))

/-- The texts of a post. -/
def postFields (record : Tree String String) : Posts where
  username := textOf record "username"
  image := textOf record "image"
  description := textOf record "description"
  location := textOf record "location"
  time := textOf record "time"

/-- The texts of a comment. -/
def commentFields (record : Tree String String) : Comment where
  userId := textOf record "userId"
  commentBody := textOf record "commentBody"
  time := textOf record "time"

/-- No field is null. -/
def Posts.Full (posts : Posts) : Prop :=
  posts.username ≠ none ∧ posts.image ≠ none ∧ posts.description ≠ none ∧
    posts.location ≠ none ∧ posts.time ≠ none

@[inherit_doc Posts.Full]
def Comment.Full (comment : Comment) : Prop :=
  comment.userId ≠ none ∧ comment.commentBody ≠ none ∧ comment.time ≠ none

theorem readText_of_textOf {record : Entries} {name : String}
    (present : textOf (.node record) name ≠ none) :
    readText record name = some (textOf (.node record) name) := by
  simp only [textOf, get_cons, get_nil, children_node] at present ⊢
  unfold readText
  cases found : record.lookup name with
  | none =>
      rw [found] at present
      exact absurd rfl present
  | some tree =>
      rw [found] at present
      cases tree with
      | leaf text => rfl
      | node entries => exact absurd rfl present

/-- A record with a text under a name that is no integer is a map. -/
theorem asMap?_of_textOf {record : Entries} {name : String} (named : integerKey name = none)
    (present : textOf (.node record) name ≠ none) : asMap? (some (.node record)) = some record := by
  apply asMap?_of_lookup named
  intro absent
  apply present
  rw [textOf, get_cons, get_nil, children_node, absent]
  rfl

theorem readPost_of_full {record : Tree String String} (full : (postFields record).Full) :
    readPost record = some (postFields record) := by
  cases record with
  | leaf text => exact absurd rfl full.1
  | node record =>
      rcases full with ⟨username, image, description, location, time⟩
      have isMap := asMap?_of_textOf (by decide) username
      simp [readPost, isMap, readText_of_textOf username, readText_of_textOf image,
        readText_of_textOf description, readText_of_textOf location, readText_of_textOf time]
      rfl

theorem readComment_of_full {record : Tree String String} (full : (commentFields record).Full) :
    readComment record = some (commentFields record) := by
  cases record with
  | leaf text => exact absurd rfl full.1
  | node record =>
      rcases full with ⟨userId, commentBody, time⟩
      have isMap := asMap?_of_textOf (by decide) userId
      simp [readComment, isMap, readText_of_textOf userId, readText_of_textOf commentBody,
        readText_of_textOf time]
      rfl

/-! ## The readers on readable maps -/

theorem addEach_keys {ρ : Type} {read : Tree String String → Option ρ}
    {fields : Tree String String → ρ} {data entries : Entries}
    (readable : ∀ entry ∈ entries, (data.lookup entry.1).bind read = some (fields entry.2))
    (list : List ρ) :
    addEach read data (keys entries) list = list ++ entries.map fun entry => fields entry.2 := by
  induction entries generalizing list with
  | nil => simp [addEach]
  | cons entry rest ih =>
      rw [keys_cons, addEach, readable entry List.mem_cons_self]
      change addEach read data (keys rest) (list ++ [fields entry.2]) = _
      rw [ih fun other member => readable other (List.mem_cons_of_mem entry member)]
      simp

/-- When every record is readable the list ends up with each of them once. -/
theorem reload_perm {iterate : Entries → Entries}
    (each : ∀ entries, (iterate entries).Perm entries) {ρ : Type}
    {read : Tree String String → Option ρ} {fields : Tree String String → ρ} {data : Entries}
    (isMap : ExportsMap (keys data)) (distinct : (keys data).Nodup)
    (readable : ∀ entry ∈ data, read entry.2 = some (fields entry.2)) (list : List ρ) :
    (reload iterate read (some (.node data)) list).Perm
      (data.map fun entry => fields entry.2) := by
  have found : ∀ entry ∈ iterate data,
      (data.lookup entry.1).bind read = some (fields entry.2) := by
    intro entry member
    have stored := (each data).mem_iff.mp member
    rw [lookup_eq_some_of_mem distinct stored]
    exact readable entry stored
  rw [reload, asMap?_node isMap]
  change (addEach read data (keys (iterate data)) []).Perm _
  rw [addEach_keys found, List.nil_append]
  exact (each data).map _

/-- An array leaves the list as it is. -/
theorem reload_array {iterate : Entries → Entries} {ρ : Type}
    {read : Tree String String → Option ρ} {data : Entries}
    (isArray : ¬ ExportsMap (keys data)) (list : List ρ) :
    reload iterate read (some (.node data)) list = list := by
  rw [reload, asMap?_array isArray]

theorem mapM_eq_some_of_forall {α β : Type} {read : α → Option β} {value : α → β}
    {list : List α} (readable : ∀ entry ∈ list, read entry = some (value entry)) :
    list.mapM read = some (list.map value) := by
  induction list with
  | nil => rfl
  | cons entry rest ih =>
      rw [List.mapM_cons, readable entry List.mem_cons_self,
        ih fun other member => readable other (List.mem_cons_of_mem entry member)]
      rfl

/-- When a post and its comments are maps and every comment is readable,
`combined` lists each of them once. -/
theorem combined_of_full {iterate : Entries → Entries}
    (each : ∀ entries, (iterate entries).Perm entries) {snapshot : Value String String}
    (full : ∀ entry ∈ children (get ["comments"] snapshot), (commentFields entry.2).Full)
    (isMap : (asMap? snapshot).isSome = true)
    (noText : leaf? (get ["comments"] snapshot) = none)
    (commentsMap : ExportsMap (keys (children (get ["comments"] snapshot)))) :
    ∃ view, combined iterate snapshot = some view ∧
      view.commentsList.Perm
        ((children (get ["comments"] snapshot)).map fun entry => commentFields entry.2) := by
  rcases Option.isSome_iff_exists.mp isMap with ⟨values, arrived⟩
  cases ((asMap?_eq_some_iff _ _).mp arrived).1
  rw [get_cons, get_nil, children_node] at full noText commentsMap ⊢
  rw [combined, arrived]
  cases found : values.lookup "comments" with
  | none => exact ⟨_, by simp only [Option.bind_eq_bind, Option.bind_some, found]; rfl, .refl _⟩
  | some tree =>
      rw [found] at full noText commentsMap
      cases tree with
      | leaf text => contradiction
      | node comments =>
          rw [children_node] at full commentsMap
          have readable : ∀ entry ∈ iterate comments,
              readComment entry.2 = some (commentFields entry.2) := fun entry member =>
            readComment_of_full (full entry ((each comments).mem_iff.mp member))
          have listed : readComments iterate (some (.node comments)) =
              some ((iterate comments).map fun entry => commentFields entry.2) := by
            rw [readComments, asMap?_node commentsMap]
            exact mapM_eq_some_of_forall readable
          simp only [Option.bind_eq_bind, Option.bind_some, found, listed]
          exact ⟨_, rfl, (each comments).map _⟩

/-- What `combined` reads without an error is a map, with no comments or with a
map of them. -/
theorem maps_of_combined {iterate : Entries → Entries} {snapshot : Value String String}
    {view : CommentView} (read : combined iterate snapshot = some view) :
    (asMap? snapshot).isSome = true ∧ leaf? (get ["comments"] snapshot) = none ∧
      ExportsMap (keys (children (get ["comments"] snapshot))) := by
  rcases Option.bind_eq_some_iff.mp read with ⟨values, arrived, listed⟩
  rcases Option.bind_eq_some_iff.mp listed with ⟨commentsList, found, _⟩
  refine ⟨Option.isSome_of_eq_some arrived, ?_⟩
  cases ((asMap?_eq_some_iff _ _).mp arrived).1
  rw [get_cons, get_nil, children_node]
  cases looked : values.lookup "comments" with
  | none => exact ⟨rfl, exportsMap_nil⟩
  | some tree =>
      rw [looked] at found
      rcases Option.bind_eq_some_iff.mp found with ⟨comments, isMap, _⟩
      rcases (asMap?_eq_some_iff _ _).mp isMap with ⟨same, commentsMap⟩
      cases same
      exact ⟨rfl, commentsMap⟩

end DyeIsLife.Pages
