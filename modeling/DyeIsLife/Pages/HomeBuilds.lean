import DyeIsLife.Pages.Reading
import DyeIsLife.Transition.Core
import Mathlib.Logic.Function.Basic

/-!
# What the home page shows

`HomePage.initState` starts its two reads and calls `setState` at once; the
callbacks of the reads fill the lists without calling it.  A build copies the
lists as they are into the widgets of the page, so records that arrive after
the last build stay invisible until something else asks for a build.

The state is a mounted page: its lists, the selected tab, the reads that have
not completed, whether a requested build is outstanding, and the widget that the
last build put under the tabs.  Mounting builds the page once, before any read
can complete.
-/

namespace DyeIsLife.Pages

open DyeIsLife.Firebase
open DyeIsLife.Store
open DyeIsLife.Transition

/-! ## The page -/

/-- The tabs, with the keys of `logoWidgets`: 0 and 1. -/
inductive Tab where
  | socialFeed
  | discussion
  deriving DecidableEq

/-- The read that fills the list of a tab. -/
def Tab.read : Tab → HomeRead
  | .socialFeed => .posts
  | .discussion => .discussions

/-- An item of a feed, by the method that builds it. -/
inductive Card where
  | postsUI (posts : Posts)
  | discussionUI (discussions : Discussions)
  deriving DecidableEq

/-- The items for the records in the list of a tab. -/
def HomePage.cards (home : HomePage) : Tab → List Card
  | .socialFeed => home.postsList.map .postsUI
  | .discussion => home.discussionsList.map .discussionUI

/-- What stands under the tabs. -/
inductive FeedWidget where
  | text (data : String)
  | listView (items : List Card)
  deriving DecidableEq

/-- `getPostWidgets`, at one of its keys.  The lists are filled once, so the
items that a `ListView` builds later are those of the list as it is now. -/
def HomePage.getPostWidgets (home : HomePage) (tab : Tab) : FeedWidget :=
  if (home.cards tab).length = 0 then .text "No Posts available"
  else .listView (home.cards tab)

/-- A mounted home page.  `sharedValue` is a variable of the library, which all
home pages share; here it belongs to the one page that is modelled. -/
structure HomeState where
  home : HomePage
  sharedValue : Tab
  /-- the reads that have not completed -/
  pending : HomeRead → Bool
  /-- `setState` has asked for a build that has not run yet -/
  requested : Bool
  /-- `postWidgets[sharedValue]` of the last build -/
  body : FeedWidget

inductive HomeAction where
  /-- the callback of a read runs -/
  | completed (read : HomeRead)
  /-- a build, requested or not -/
  | build
  /-- `onValueChanged` of the segmented control -/
  | selected (tab : Tab)

/-- A collection of records in the database, not empty. -/
structure Collection where
  entries : Entries
  nonempty : entries ≠ []
  distinct : (keys entries).Nodup

/-- The contents of `Posts` and `Discussions`. -/
structure Content where
  posts : Collection
  discussions : Collection

namespace Content

/-- The collection of a tab. -/
def collection (content : Content) : Tab → Collection
  | .socialFeed => content.posts
  | .discussion => content.discussions

end Content

/-- The item for a record, if the record can be read. -/
def readCard : Tab → Tree String String → Option Card
  | .socialFeed, record => (readPost record).map .postsUI
  | .discussion, record => (readDiscussion record).map .discussionUI

namespace HomeState

variable (iterate : Entries → Entries) (content : Content)

/-- The page when it has been mounted: `initState` and the first build. -/
def mounted : HomeState where
  home := ⟨[], []⟩
  sharedValue := .socialFeed
  pending _ := true
  requested := false
  body := HomePage.getPostWidgets ⟨[], []⟩ .socialFeed

/-- `build`. -/
def build (state : HomeState) : HomeState :=
  { state with
    requested := false
    body := state.home.getPostWidgets state.sharedValue }

/-- The callback of a read. -/
def complete (state : HomeState) (read : HomeRead) : HomeState :=
  { state with
    home := state.home.complete iterate (some (.node content.posts.entries))
      (some (.node content.discussions.entries)) read
    pending := Function.update state.pending read false }

/-- One step of a mounted home page. -/
def step : Step HomeState HomeAction
  | state, .completed read =>
      if state.pending read then some (state.complete iterate content read) else none
  | state, .build => some state.build
  | state, .selected tab => some { state with sharedValue := tab, requested := true }

/-! ## What should be shown -/

/-- One item for each record of the collection. -/
def Lists (tab : Tab) : FeedWidget → Prop
  | .text _ => False
  | .listView items =>
      (items.map some).Perm ((content.collection tab).entries.map fun entry =>
        readCard tab entry.2)

/-- Once both reads have completed and no requested build is outstanding, the
selected tab lists its collection. -/
def ShowsLoaded (state : HomeState) : Prop :=
  (∀ read, state.pending read = false) → state.requested = false →
    Lists content state.sharedValue state.body

/-- The collection of a tab arrives as a map, and every record of it can be
read. -/
structure Readable (tab : Tab) : Prop where
  isMap : ExportsMap (keys (content.collection tab).entries)
  records : ∀ entry ∈ (content.collection tab).entries, (readCard tab entry.2).isSome

/-- When the second read completes, a requested build is outstanding, or the
read is not that of the selected tab and the page shows what the selected tab
has loaded; and a build after both reads finds a readable collection. -/
def Refreshed (state : HomeState) : HomeAction → Prop
  | .completed read =>
      (∀ other, other ≠ read → state.pending other = false) →
        state.requested = true ∨
          (read ≠ state.sharedValue.read ∧
            state.body = state.home.getPostWidgets state.sharedValue ∧
            Readable content state.sharedValue)
  | .build => (∀ read, state.pending read = false) → Readable content state.sharedValue
  | .selected _ => True

/-! ## What the reads load -/

/-- The items of a tab after its read has completed. -/
def loaded : Tab → List Card
  | .socialFeed =>
      (reload iterate readPost (some (.node content.posts.entries)) []).map .postsUI
  | .discussion =>
      (reload iterate readDiscussion (some (.node content.discussions.entries)) []).map
        .discussionUI

variable {iterate content}

/-- A read fills the list of its tab, which nothing has filled before. -/
theorem cards_complete {state : HomeState} {tab : Tab} (empty : state.home.cards tab = []) :
    (state.complete iterate content tab.read).home.cards tab = loaded iterate content tab := by
  cases tab with
  | socialFeed =>
      have nothing : state.home.postsList = [] := List.map_eq_nil_iff.mp empty
      change (reload iterate readPost _ state.home.postsList).map Card.postsUI = _
      rw [nothing]
      rfl
  | discussion =>
      have nothing : state.home.discussionsList = [] := List.map_eq_nil_iff.mp empty
      change (reload iterate readDiscussion _ state.home.discussionsList).map
        Card.discussionUI = _
      rw [nothing]
      rfl

theorem cards_complete_of_ne {state : HomeState} {read : HomeRead} {tab : Tab}
    (other : tab.read ≠ read) :
    (state.complete iterate content read).home.cards tab = state.home.cards tab := by
  cases read <;> cases tab <;> first | rfl | exact absurd rfl other

theorem pending_complete (state : HomeState) (read other : HomeRead) :
    (state.complete iterate content read).pending other =
      if other = read then false else state.pending other :=
  Function.update_apply state.pending read false other

/-- A read of readable records loads each of them once. -/
theorem reload_map_some_perm (each : ∀ entries, (iterate entries).Perm entries) {ρ : Type}
    {read : Tree String String → Option ρ} {data : Entries} (isMap : ExportsMap (keys data))
    (distinct : (keys data).Nodup) (readable : ∀ entry ∈ data, (read entry.2).isSome)
    (unread : ρ) :
    ((reload iterate read (some (.node data)) []).map some).Perm
      (data.map fun entry => read entry.2) := by
  let fields : Tree String String → ρ := fun record => (read record).getD unread
  have found : ∀ entry ∈ data, read entry.2 = some (fields entry.2) := by
    intro entry member
    rcases Option.isSome_iff_exists.mp (readable entry member) with ⟨record, same⟩
    change _ = some ((read entry.2).getD unread)
    rw [same]
    rfl
  have perm := (reload_perm each isMap distinct found []).map some
  rw [List.map_map] at perm
  rw [List.map_congr_left found]
  exact perm

theorem loaded_perm (each : ∀ entries, (iterate entries).Perm entries) {tab : Tab}
    (readable : Readable content tab) :
    ((loaded iterate content tab).map some).Perm
      ((content.collection tab).entries.map fun entry => readCard tab entry.2) := by
  cases tab with
  | socialFeed =>
      have records : ∀ entry ∈ content.posts.entries, (readPost entry.2).isSome := by
        intro entry member
        simpa [readCard] using readable.records entry member
      have perm := (reload_map_some_perm each readable.isMap content.posts.distinct records
        ⟨none, none, none, none, none⟩).map (Option.map Card.postsUI)
      simpa [List.map_map, Function.comp_def, loaded, readCard, Content.collection] using perm
  | discussion =>
      have records : ∀ entry ∈ content.discussions.entries, (readDiscussion entry.2).isSome := by
        intro entry member
        simpa [readCard] using readable.records entry member
      have perm := (reload_map_some_perm each readable.isMap content.discussions.distinct records
        ⟨none, none, none, none⟩).map (Option.map Card.discussionUI)
      simpa [List.map_map, Function.comp_def, loaded, readCard, Content.collection] using perm

theorem getPostWidgets_of_nil {home : HomePage} {tab : Tab} (nothing : home.cards tab = []) :
    home.getPostWidgets tab = .text "No Posts available" := by
  rw [HomePage.getPostWidgets, nothing]
  rfl

/-- A build after the read of the selected tab lists a readable collection. -/
theorem lists_of_loaded (each : ∀ entries, (iterate entries).Perm entries) {home : HomePage}
    {tab : Tab} (filled : home.cards tab = loaded iterate content tab)
    (readable : Readable content tab) : Lists content tab (home.getPostWidgets tab) := by
  have perm := loaded_perm each readable
  have some_item : ¬ (loaded iterate content tab).length = 0 := by
    intro empty
    rw [List.eq_nil_of_length_eq_zero empty, List.map_nil, List.nil_perm,
      List.map_eq_nil_iff] at perm
    exact (content.collection tab).nonempty perm
  rw [HomePage.getPostWidgets, filled, if_neg some_item]
  exact perm

/-- A collection that arrives as an array loads nothing. -/
theorem loaded_array {tab : Tab}
    (isArray : ¬ ExportsMap (keys (content.collection tab).entries)) :
    loaded iterate content tab = [] := by
  cases tab with
  | socialFeed => exact congrArg (List.map Card.postsUI) (reload_array isArray [])
  | discussion => exact congrArg (List.map Card.discussionUI) (reload_array isArray [])

/-- A build after the read of the selected tab lists only readable
collections. -/
theorem readable_of_lists {home : HomePage} {tab : Tab}
    (filled : home.cards tab = loaded iterate content tab)
    (lists : Lists content tab (home.getPostWidgets tab)) : Readable content tab := by
  have isMap : ExportsMap (keys (content.collection tab).entries) := by
    by_contra isArray
    rw [getPostWidgets_of_nil (filled.trans (loaded_array isArray))] at lists
    exact lists
  refine ⟨isMap, ?_⟩
  cases body : home.getPostWidgets tab with
  | text data =>
      rw [body] at lists
      exact lists.elim
  | listView items =>
      rw [body] at lists
      intro entry member
      have shown := List.Perm.mem_iff lists |>.mpr
        (List.mem_map_of_mem (f := fun entry => readCard tab entry.2) member)
      rcases List.mem_map.mp shown with ⟨item, _, same⟩
      rw [← same]
      rfl

/-! ## The invariant -/

variable (iterate content)

/-- The lists hold what has been loaded, the page shows no items or those of the
selected tab, and it shows them when it should. -/
structure Tracked (state : HomeState) : Prop where
  waiting : ∀ tab, state.pending tab.read = true → state.home.cards tab = []
  filled : ∀ tab, state.pending tab.read = false →
    state.home.cards tab = loaded iterate content tab
  shown : state.requested = false → state.body = .text "No Posts available" ∨
    (state.pending state.sharedValue.read = false ∧
      state.body = state.home.getPostWidgets state.sharedValue)
  lists : ShowsLoaded content state

variable {iterate content}

theorem tracked_mounted : Tracked iterate content mounted where
  waiting tab _ := by cases tab <;> rfl
  filled tab completed := by contradiction
  shown _ := .inl rfl
  lists completed := absurd (completed .posts) (by decide)

/-- A read completes. -/
theorem Tracked.completed (each : ∀ entries, (iterate entries).Perm entries) {state : HomeState}
    {read : HomeRead} (tracked : Tracked iterate content state)
    (unread : state.pending read = true) (refreshed : Refreshed content state (.completed read)) :
    Tracked iterate content (state.complete iterate content read) where
  waiting tab waits := by
    rw [pending_complete] at waits
    split at waits
    · contradiction
    · rename_i other
      rw [cards_complete_of_ne other]
      exact tracked.waiting tab waits
  filled tab completed := by
    rw [pending_complete] at completed
    split at completed
    · rename_i same
      subst same
      exact cards_complete (tracked.waiting tab unread)
    · rename_i other
      rw [cards_complete_of_ne other]
      exact tracked.filled tab completed
  shown settled := by
    rcases tracked.shown settled with nothing | ⟨completed, current⟩
    · exact .inl nothing
    · have other : state.sharedValue.read ≠ read := by
        intro same
        rw [same, unread] at completed
        contradiction
      right
      constructor
      · rw [pending_complete]
        exact (if_neg other).trans completed
      · have same : (state.complete iterate content read).home.cards state.sharedValue =
            state.home.cards state.sharedValue := cards_complete_of_ne other
        change state.body = HomePage.getPostWidgets _ state.sharedValue
        rw [current, HomePage.getPostWidgets, HomePage.getPostWidgets, same]
  lists completed settled := by
    have others : ∀ other, other ≠ read → state.pending other = false := by
      intro other different
      rw [← completed other, pending_complete, if_neg different]
    rcases refreshed others with requested | ⟨other, current, readable⟩
    · exact nomatch requested.symm.trans settled
    · change Lists content state.sharedValue state.body
      rw [current]
      exact lists_of_loaded each
        (tracked.filled state.sharedValue (others _ (Ne.symm other))) readable

/-- A build. -/
theorem Tracked.build (each : ∀ entries, (iterate entries).Perm entries) {state : HomeState}
    (tracked : Tracked iterate content state) (refreshed : Refreshed content state .build) :
    Tracked iterate content state.build where
  waiting := tracked.waiting
  filled := tracked.filled
  shown _ := by
    cases waits : state.pending state.sharedValue.read with
    | true => exact .inl (getPostWidgets_of_nil (tracked.waiting _ waits))
    | false => exact .inr ⟨waits, rfl⟩
  lists completed _ :=
    lists_of_loaded each (tracked.filled _ (completed _)) (refreshed completed)

theorem Tracked.step (each : ∀ entries, (iterate entries).Perm entries) {state next : HomeState}
    {action : HomeAction} (tracked : Tracked iterate content state)
    (refreshed : Refreshed content state action)
    (taken : HomeState.step iterate content state action = some next) :
    Tracked iterate content next := by
  cases action with
  | completed read =>
      simp only [HomeState.step] at taken
      split at taken
      · rename_i unread
        cases taken
        exact tracked.completed each unread refreshed
      · contradiction
  | build =>
      cases taken
      exact tracked.build each refreshed
  | selected tab =>
      cases taken
      exact ⟨tracked.waiting, tracked.filled, nofun, nofun⟩

/-- A step that is not refreshed leaves a page that hides what was loaded. -/
theorem Tracked.hidden {state next : HomeState} {action : HomeAction}
    (tracked : Tracked iterate content state) (stale : ¬ Refreshed content state action)
    (taken : HomeState.step iterate content state action = some next) :
    ¬ ShowsLoaded content next := by
  intro shows
  cases action with
  | completed read =>
      simp only [HomeState.step] at taken
      split at taken
      · rename_i unread
        cases taken
        apply stale
        intro others
        by_contra unrequested
        rw [not_or, Bool.not_eq_true] at unrequested
        rcases unrequested with ⟨settled, hidden⟩
        have completed : ∀ other, (state.complete iterate content read).pending other = false := by
          intro other
          rw [pending_complete]
          split
          · rfl
          · rename_i different
            exact others other different
        have lists : Lists content state.sharedValue state.body := shows completed settled
        rcases tracked.shown settled with nothing | ⟨finished, current⟩
        · rw [nothing] at lists
          exact lists
        · apply hidden
          constructor
          · intro same
            rw [← same, unread] at finished
            contradiction
          · rw [current] at lists
            exact ⟨current, readable_of_lists (tracked.filled _ finished) lists⟩
      · contradiction
  | build =>
      cases taken
      exact stale fun completed =>
        readable_of_lists (tracked.filled _ (completed _)) (shows completed rfl)
  | selected tab => exact stale trivial

/-- One post and one discussion. -/
def oneOfEach : Content where
  posts := ⟨[("p", .node [("username", .leaf "@henryhevans"), ("image", .leaf "a.jpg"),
    ("description", .leaf "first"), ("location", .leaf "here"), ("time", .leaf "noon")])],
    by decide, by decide⟩
  discussions := ⟨[("d", .node [("title", .leaf "Bleach"), ("bodyText", .leaf "Which brand?"),
    ("time", .leaf "evening")])], by decide, by decide⟩

/-- The user selects the discussions while the second read is on its way. -/
def selectedInTime : List HomeAction :=
  [.completed .posts, .selected .discussion, .completed .discussions, .build]

/-- Both reads complete and nothing else happens. -/
def bothCompleted : List HomeAction :=
  [.completed .posts, .completed .discussions]

end HomeState

end DyeIsLife.Pages
