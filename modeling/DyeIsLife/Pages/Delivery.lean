import DyeIsLife.Pages.Upload

/-!
# Which accepted uploads are saved

`uploadStatusImage` pushes the next page before it saves, through the context
of the upload page.  If that page has been popped in the meantime the push
throws, and an upload that succeeded is never saved.  In every other case a
press whose URL arrives causes exactly one write, and a press that fails causes
none, for any number of presses and any order of completions.
-/

namespace DyeIsLife.Pages

open DyeIsLife.Auth
open DyeIsLife.Records
open DyeIsLife.Transition

/-- A push under `Posts` by `UploadPhotoPage`. -/
def IsPhotoPush : Write → Prop
  | .photo _ _ _ _ _ _ => True
  | _ => False

/-- An update of `pic` below `UserInfo` by `ChangeProfilePhotoPage`. -/
def IsPicUpdate : Write → Prop
  | .changePhoto _ _ => True
  | _ => False

namespace Screen

variable {σ : Type}

/-- The number of writes that a press has caused. -/
def writesOf (screen : Screen σ) (index : Nat) : Nat :=
  (screen.writes.map Prod.fst).count index

/-- Every write is of the page's kind, every press whose upload and URL have
arrived has caused exactly one write, and every other press none. -/
def Delivered (kind : Write → Prop) (screen : Screen σ) : Prop :=
  (∀ entry ∈ screen.writes, kind entry.2) ∧
    ∀ (index : Nat) (upload : Upload σ), screen.uploads[index]? = some upload →
      screen.writesOf index = if upload.phase = .completed then 1 else 0

/-- What runs preserve: deliveries are exact, writes belong to presses, and
`currentUser` is not null. -/
structure Tracked (kind : Write → Prop) (screen : Screen σ) : Prop where
  delivered : screen.Delivered kind
  known : ∀ entry ∈ screen.writes, entry.1 < screen.uploads.length
  assigned : screen.session.currentUser ≠ none

variable {kind : Write → Prop}

theorem Tracked.of_eq {screen next : Screen σ} (tracked : Tracked kind screen)
    (uploads : next.uploads = screen.uploads) (writes : next.writes = screen.writes)
    (session : next.session = screen.session) : Tracked kind next := by
  obtain ⟨⟨kinds, counted⟩, known, assigned⟩ := tracked
  constructor
  · constructor
    · rwa [writes]
    · intro index upload found
      rw [uploads] at found
      simpa [writesOf, writes] using counted index upload found
  · rwa [writes, uploads]
  · rwa [session]

/-- A press that is not known yet has caused no write. -/
theorem Tracked.writesOf_length {screen : Screen σ} (tracked : Tracked kind screen) :
    screen.writesOf screen.uploads.length = 0 := by
  apply List.count_eq_zero.mpr
  intro member
  obtain ⟨entry, entryMember, same⟩ := List.mem_map.mp member
  exact absurd (tracked.known entry entryMember) (by rw [same]; exact Nat.lt_irrefl _)

/-- Moving an upload between phases other than `completed`. -/
theorem Tracked.setPhase {screen : Screen σ} (tracked : Tracked kind screen) {index : Nat}
    {upload : Upload σ} {phase : UploadPhase} (found : screen.uploads[index]? = some upload)
    (before : upload.phase ≠ .completed) (after : phase ≠ .completed) :
    Tracked kind (Handler.setPhase screen index upload phase) where
  delivered := by
    refine ⟨tracked.delivered.1, fun other moved foundMoved => ?_⟩
    by_cases same : other = index
    · subst other
      have inside := (List.getElem?_eq_some_iff.mp found).1
      obtain rfl := Option.some.inj ((List.getElem?_set_self inside).symm.trans foundMoved)
      have none_yet := tracked.delivered.2 index upload found
      rw [if_neg before] at none_yet
      rw [if_neg after]
      exact none_yet
    · have foundOther : screen.uploads[other]? = some moved :=
        (List.getElem?_set_ne (Ne.symm same)).symm.trans foundMoved
      exact tracked.delivered.2 other moved foundOther
  known entry member := by
    simpa [Handler.setPhase] using tracked.known entry member
  assigned := tracked.assigned

end Screen

namespace Handler

variable {σ ε : Type} {handler : Handler σ ε} {kind : Write → Prop}
variable {urlOf : Nat → File → String}

/-- The URL of an upload arrives while the page is mounted. -/
def ArrivesMounted (screen : Screen σ) : UploadAction ε → Prop
  | .gotUrl _ _ _ => screen.mounted = true
  | _ => True

theorem tracked_openedOn (page : σ) {session : Session Unit}
    (assigned : session.currentUser ≠ none) :
    Screen.Tracked kind (openedOn page session) :=
  ⟨⟨nofun, nofun⟩, nofun, assigned⟩

theorem tracked_uploadStatusImage {screen next : Screen σ} {timeKey : String}
    (tracked : Screen.Tracked kind screen)
    (taken : handler.uploadStatusImage screen timeKey = some next) :
    Screen.Tracked kind next := by
  obtain ⟨image, _, rfl⟩ := Option.map_eq_some_iff.mp taken
  cases valid : handler.validateAndSave screen.page with
  | none => exact tracked
  | some saved =>
      refine ⟨⟨tracked.delivered.1, fun index upload found => ?_⟩, ?_, tracked.assigned⟩
      · rcases Nat.lt_or_ge index screen.uploads.length with old | new
        · rw [List.getElem?_append_left old] at found
          exact tracked.delivered.2 index upload found
        · rw [List.getElem?_append_right new] at found
          obtain ⟨inside, rfl⟩ := List.getElem?_eq_some_iff.mp found
          have last : index = screen.uploads.length := by
            simp only [List.length_singleton] at inside
            omega
          subst index
          simpa [Screen.writesOf] using tracked.writesOf_length
      · intro entry member
        have earlier := tracked.known entry member
        simp only [List.length_append, List.length_singleton]
        omega

/-- With the page mounted, the arrival of a URL causes the one write. -/
theorem tracked_finish
    (saves : ∀ page currentUser url key time, currentUser ≠ none →
      ∃ write, handler.saveToDatabase page currentUser url key time = some write ∧ kind write)
    {screen : Screen σ} (tracked : Screen.Tracked kind screen) {index : Nat}
    {upload : Upload σ} (found : screen.uploads[index]? = some upload)
    (fetching : upload.phase = .fetching) (mounted : screen.mounted = true)
    (url key time : String) :
    Screen.Tracked kind (handler.finish screen index upload url key time) := by
  obtain ⟨write, saved, ofKind⟩ := saves (handler.setUrl url screen.page)
    screen.session.currentUser url key time tracked.assigned
  have inside := (List.getElem?_eq_some_iff.mp found).1
  simp only [finish, setPhase, mounted, if_true, saved]
  refine ⟨⟨?_, fun other moved foundMoved => ?_⟩, ?_, tracked.assigned⟩
  · intro entry member
    rcases List.mem_append.mp member with earlier | last
    · exact tracked.delivered.1 entry earlier
    · rw [List.mem_singleton.mp last]
      exact ofKind
  · simp only [Screen.writesOf, List.map_append, List.map_cons, List.map_nil, List.count_append]
    by_cases same : other = index
    · subst other
      obtain rfl := Option.some.inj ((List.getElem?_set_self inside).symm.trans foundMoved)
      have none_yet := tracked.delivered.2 index upload found
      rw [fetching, if_neg (by decide), Screen.writesOf] at none_yet
      simp [none_yet]
    · have foundOther : screen.uploads[other]? = some moved :=
        (List.getElem?_set_ne (Ne.symm same)).symm.trans foundMoved
      have counted := tracked.delivered.2 other moved foundOther
      rw [Screen.writesOf] at counted
      simp [counted, Ne.symm same]
  · intro entry member
    rw [List.length_set]
    rcases List.mem_append.mp member with earlier | last
    · exact tracked.known entry earlier
    · rw [List.mem_singleton.mp last]
      exact inside

theorem tracked_step
    (saves : ∀ page currentUser url key time, currentUser ≠ none →
      ∃ write, handler.saveToDatabase page currentUser url key time = some write ∧ kind write)
    {screen next : Screen σ} {action : UploadAction ε} (tracked : Screen.Tracked kind screen)
    (arrives : ArrivesMounted screen action)
    (taken : handler.step urlOf screen action = some next) : Screen.Tracked kind next := by
  cases moves_of_step taken with
  | edits change => exact tracked.of_eq rfl rfl rfl
  | navigates stays => exact tracked.of_eq rfl rfl rfl
  | presses mounted pressed => exact tracked_uploadStatusImage tracked pressed
  | proceeds found inFlight unfinished =>
      apply tracked.setPhase found _ unfinished
      intro completed
      rcases inFlight with uploading | fetching
      · rw [completed] at uploading
        contradiction
      · rw [completed] at fetching
        contradiction
  | finishes found fetching => exact tracked_finish saves tracked found fetching arrives _ _ _
  | auth moved =>
      exact ⟨tracked.delivered, tracked.known,
        Session.step_currentUser_ne_none tracked.assigned moved⟩

/-- A URL that arrives after the page was popped is lost at once. -/
theorem not_delivered_of_arrival_unmounted {screen next : Screen σ} {action : UploadAction ε}
    (tracked : Screen.Tracked kind screen) (late : ¬ ArrivesMounted screen action)
    (taken : handler.step urlOf screen action = some next) : ¬ next.Delivered kind := by
  cases action with
  | gotUrl index key time =>
      obtain ⟨upload, found, moved⟩ := Option.bind_eq_some_iff.mp taken
      split at moved
      · rename_i fetching
        have unmounted : screen.mounted = false := by simpa [ArrivesMounted] using late
        have inside := (List.getElem?_eq_some_iff.mp found).1
        cases moved
        simp only [finish, setPhase, unmounted, Bool.false_eq_true, if_false]
        rintro ⟨_, counted⟩
        have one := counted index _ (List.getElem?_set_self inside)
        have none_yet := tracked.delivered.2 index upload found
        rw [fetching, if_neg (by decide)] at none_yet
        rw [if_pos rfl] at one
        exact absurd (none_yet.symm.trans one) (by decide)
      · contradiction
  | _ => exact absurd trivial late

/-- A run of an upload page delivers exactly when every URL arrives while the
page is mounted. -/
theorem always_delivered_iff
    (saves : ∀ page currentUser url key time, currentUser ≠ none →
      ∃ write, handler.saveToDatabase page currentUser url key time = some write ∧ kind write)
    (page : σ) {session : Session Unit} (assigned : session.currentUser ≠ none)
    (actions : List (UploadAction ε)) :
    Always (handler.step urlOf) (Screen.Delivered kind) (openedOn page session) actions ↔
      Guarded (handler.step urlOf) ArrivesMounted (openedOn page session) actions :=
  always_iff_guarded (fun _ tracked => Screen.Tracked.delivered tracked)
    (fun _ _ _ tracked arrives taken => tracked_step saves tracked arrives taken)
    (fun _ _ _ tracked late taken => not_delivered_of_arrival_unmounted tracked late taken)
    (tracked_openedOn page assigned) actions

end Handler

theorem UploadPhotoPage.saves (page : UploadPhotoPage) (currentUser : Option String)
    (url key time : String) (_ : currentUser ≠ none) :
    ∃ write, handler.saveToDatabase page currentUser url key time = some write ∧
      IsPhotoPush write :=
  ⟨_, rfl, trivial⟩

theorem ChangeProfilePhotoPage.saves (page : ChangeProfilePhotoPage)
    (currentUser : Option String) (url key time : String) (assigned : currentUser ≠ none) :
    ∃ write, handler.saveToDatabase page currentUser url key time = some write ∧
      IsPicUpdate write := by
  obtain ⟨uid, rfl⟩ := Option.ne_none_iff_exists'.mp assigned
  exact ⟨_, rfl, trivial⟩

/-- **No accepted upload is lost or duplicated, exactly as long as URLs arrive
on mounted pages.**  For both upload pages, opened on a device whose
`currentUser` has been assigned: in every state of a run each press whose
upload and URL have arrived has caused exactly one write of the page's kind and
each other press none, if and only if every URL of the run arrives while the
page is on the navigator. -/
theorem delivered_iff_arrivals_mounted (urlOf : Nat → File → String)
    (session : Session Unit) (assigned : session.currentUser ≠ none) :
    (∀ actions,
      Always (UploadPhotoPage.handler.step urlOf) (Screen.Delivered IsPhotoPush)
          (Handler.openedOn UploadPhotoPage.initial session) actions ↔
        Guarded (UploadPhotoPage.handler.step urlOf) Handler.ArrivesMounted
          (Handler.openedOn UploadPhotoPage.initial session) actions) ∧
    (∀ actions,
      Always (ChangeProfilePhotoPage.handler.step urlOf) (Screen.Delivered IsPicUpdate)
          (Handler.openedOn ChangeProfilePhotoPage.initial session) actions ↔
        Guarded (ChangeProfilePhotoPage.handler.step urlOf) Handler.ArrivesMounted
          (Handler.openedOn ChangeProfilePhotoPage.initial session) actions) :=
  ⟨Handler.always_delivered_iff UploadPhotoPage.saves UploadPhotoPage.initial assigned,
    Handler.always_delivered_iff ChangeProfilePhotoPage.saves ChangeProfilePhotoPage.initial
      assigned⟩

/-! ## Runs at fixed inputs -/

/-- A device on which one user is signed in and no call is in flight. -/
def settledSession : Session Unit :=
  ⟨some Firebase.firstUid, some Firebase.firstUid.val, []⟩

/-- URLs for runs at fixed inputs: the file name itself. -/
def fileName (_ : Nat) (file : File) : String := file

/-- Select a picture, press, and wait for the upload and its URL. -/
def picChange : List (UploadAction Empty) :=
  [.picked (some "a.jpg"), .press "t", .uploaded 0, .gotUrl 0 "" ""]

theorem delivered_picChange :
    Always (ChangeProfilePhotoPage.handler.step fileName) (Screen.Delivered IsPicUpdate)
      (Handler.openedOn ChangeProfilePhotoPage.initial settledSession) picChange :=
  ((delivered_iff_arrivals_mounted fileName settledSession nofun).2 picChange).mpr
    (.cons rfl trivial (.cons rfl trivial (.cons rfl trivial (.cons rfl rfl trivial))))

/-- Press, go back while the upload is in flight, and let it succeed. -/
def leftTooEarly : List (UploadAction PhotoEdit) :=
  [.picked (some "a.jpg"), .edit (.description "d"), .edit (.location "l"), .press "t",
    .back, .uploaded 0, .gotUrl 0 "key" "time"]

/-- The same on the profile photo page. -/
def leftTooEarlyPic : List (UploadAction Empty) :=
  [.picked (some "a.jpg"), .press "t", .back, .uploaded 0, .gotUrl 0 "" ""]

/-- On both pages an upload that succeeds after its page was popped is not
saved. -/
theorem lost_uploads :
    (∃ final, run (UploadPhotoPage.handler.step fileName)
        (Handler.openedOn UploadPhotoPage.initial settledSession) leftTooEarly = some final ∧
      final.uploads.map Upload.phase = [.completed] ∧ final.writes = [] ∧
      ¬ final.Delivered IsPhotoPush) ∧
    (∃ final, run (ChangeProfilePhotoPage.handler.step fileName)
        (Handler.openedOn ChangeProfilePhotoPage.initial settledSession) leftTooEarlyPic =
          some final ∧
      final.uploads.map Upload.phase = [.completed] ∧ final.writes = [] ∧
      ¬ final.Delivered IsPicUpdate) := by
  refine ⟨⟨_, rfl, rfl, rfl, fun delivered => ?_⟩, ⟨_, rfl, rfl, rfl, fun delivered => ?_⟩⟩
  · exact absurd (delivered.2 0 _ rfl) (by decide)
  · exact absurd (delivered.2 0 _ rfl) (by decide)

end DyeIsLife.Pages
