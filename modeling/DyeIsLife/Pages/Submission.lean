import DyeIsLife.Pages.Delivery

/-!
# Whether a saved post is the post that was submitted

`saveToDatabase` of `UploadPhotoPage` is given the URL of its own upload, but
reads the description, the location and `AuthImplementation.currentUser` when
the upload is done.  A second submission or a change of user in the meantime
shows up in the record of the first.  Posts are not mixed along every run in
which the submissions in flight agree: presses are made by a signed-in user, a
press is accepted only with the texts of those still in flight, and
`currentUser` is not changed while one of them is in flight.
-/

namespace DyeIsLife.Pages

open DyeIsLife.Auth
open DyeIsLife.Firebase
open DyeIsLife.Records
open DyeIsLife.Transition

namespace UploadPhotoPage

variable {urlOf : Nat → File → String}

/-- The write is the post of this press: the URL of the image selected at the
press, the texts validated at the press, and the uid of the user signed in at
the press. -/
def PostOf (urlOf : Nat → File → String) (index : Nat) (upload : Upload UploadPhotoPage)
    (write : Write) : Prop :=
  ∃ user key time, upload.signedIn = some user ∧
    write = .photo key (some user.val) (urlOf index upload.file)
      (some upload.pressed.descriptionText) (some upload.pressed.locationText) time

/-- Every saved post belongs to one press, no press has two, and each is the
post of its press. -/
def Unmixed (urlOf : Nat → File → String) (screen : Screen UploadPhotoPage) : Prop :=
  (screen.writes.map Prod.fst).Nodup ∧
    ∀ entry ∈ screen.writes, ∃ upload, screen.uploads[entry.1]? = some upload ∧
      PostOf urlOf entry.1 upload entry.2

/-- The upload may still be saved: it is in flight and its page is mounted. -/
def Pending (screen : Screen UploadPhotoPage) (upload : Upload UploadPhotoPage) : Prop :=
  screen.mounted = true ∧ upload ∈ screen.uploads ∧ upload.InFlight

/-- The conditions under which a step keeps the submissions in flight in
agreement. -/
def KeepsAgreement (screen : Screen UploadPhotoPage) : UploadAction PhotoEdit → Prop
  | .press _ =>
      ∀ saved, validateAndSave screen.page = some saved →
        (∃ user, screen.session.firebaseUser = some user ∧
          screen.session.currentUser = some user.val) ∧
        ∀ upload, Pending screen upload →
          upload.pressed.descriptionText = screen.page.descriptionText ∧
          upload.pressed.locationText = screen.page.locationText
  | .auth (.start caller _) =>
      caller.operation = .signOut → ∀ upload, ¬ Pending screen upload
  | .auth (.resume index) =>
      ∀ call user, screen.session.calls[index]? = some call →
        call.phase = .resolved (some user) →
        ∀ upload, Pending screen upload → upload.signedIn = some user
  | _ => True

/-! ## The invariant of agreeing runs -/

/-- The fields that `saveToDatabase` will read are those of the press. -/
def ReadsAs (screen : Screen UploadPhotoPage) (upload : Upload UploadPhotoPage) : Prop :=
  screen.page.myValue = some upload.pressed.descriptionText ∧
    screen.page.myLocation = some upload.pressed.locationText ∧
    ∃ user, upload.signedIn = some user ∧ screen.session.currentUser = some user.val

/-- Every pending submission reads as it was pressed, has not been saved yet,
and the posts saved so far are not mixed. -/
structure Agreeing (urlOf : Nat → File → String) (screen : Screen UploadPhotoPage) : Prop where
  reads : ∀ upload, Pending screen upload → ReadsAs screen upload
  unsaved : ∀ (index : Nat) (upload : Upload UploadPhotoPage),
    screen.uploads[index]? = some upload → upload.InFlight →
      index ∉ screen.writes.map Prod.fst
  unmixed : Unmixed urlOf screen

theorem agreeing_openedOn (session : Session Unit) :
    Agreeing urlOf (Handler.openedOn initial session) where
  reads _ pending := absurd pending.2.1 List.not_mem_nil
  unsaved index upload found := by simp [Handler.openedOn] at found
  unmixed := ⟨List.nodup_nil, nofun⟩

/-- A step that keeps the uploads and writes, and under which what pending
submissions read stays. -/
theorem Agreeing.of_eq {screen next : Screen UploadPhotoPage}
    (agreeing : Agreeing urlOf screen) (uploads : next.uploads = screen.uploads)
    (writes : next.writes = screen.writes)
    (reads : ∀ upload, Pending next upload → ReadsAs next upload) :
    Agreeing urlOf next where
  reads := reads
  unsaved index upload found inFlight := by
    rw [uploads] at found
    rw [writes]
    exact agreeing.unsaved index upload found inFlight
  unmixed := by
    simpa only [Unmixed, uploads, writes] using agreeing.unmixed

/-- Steps that only touch the image, the texts of the form and the stack. -/
theorem Agreeing.of_fields_eq {screen next : Screen UploadPhotoPage}
    (agreeing : Agreeing urlOf screen) (uploads : next.uploads = screen.uploads)
    (writes : next.writes = screen.writes) (session : next.session = screen.session)
    (myValue : next.page.myValue = screen.page.myValue)
    (myLocation : next.page.myLocation = screen.page.myLocation)
    (mounted : next.mounted = true → screen.mounted = true) : Agreeing urlOf next := by
  apply agreeing.of_eq uploads writes
  intro upload pending
  have pendingBefore : Pending screen upload :=
    ⟨mounted pending.1, uploads ▸ pending.2.1, pending.2.2⟩
  simpa only [ReadsAs, myValue, myLocation, session] using agreeing.reads upload pendingBefore

/-- The saved fields after a successful validation. -/
theorem validateAndSave_eq_some {page saved : UploadPhotoPage}
    (valid : validateAndSave page = some saved) :
    saved = { page with
      myValue := some page.descriptionText
      myLocation := some page.locationText } := by
  unfold validateAndSave at valid
  split at valid
  · exact (Option.some.inj valid).symm
  · contradiction

theorem Agreeing.press {screen next : Screen UploadPhotoPage} {timeKey : String}
    (agreeing : Agreeing urlOf screen) (mounted : screen.mounted = true)
    (keeps : KeepsAgreement screen (.press timeKey))
    (taken : handler.uploadStatusImage screen timeKey = some next) : Agreeing urlOf next := by
  obtain ⟨image, _, rfl⟩ := Option.map_eq_some_iff.mp taken
  cases valid : handler.validateAndSave screen.page with
  | none => exact agreeing
  | some saved =>
      obtain ⟨⟨user, signedIn, current⟩, agree⟩ := keeps saved valid
      obtain rfl := validateAndSave_eq_some valid
      constructor
      · rintro upload ⟨_, member, inFlight⟩
        rcases List.mem_append.mp member with earlier | new
        · have pending : Pending screen upload := ⟨mounted, earlier, inFlight⟩
          obtain ⟨description, location⟩ := agree upload pending
          obtain ⟨_, _, sameUser⟩ := agreeing.reads upload pending
          exact ⟨congrArg some description.symm, congrArg some location.symm, sameUser⟩
        · obtain rfl := List.mem_singleton.mp new
          exact ⟨rfl, rfl, user, signedIn, current⟩
      · intro index upload found inFlight
        rcases Nat.lt_or_ge index screen.uploads.length with old | new
        · rw [List.getElem?_append_left old] at found
          exact agreeing.unsaved index upload found inFlight
        · -- the new press is not known to any earlier write
          intro member
          obtain ⟨entry, entryMember, rfl⟩ := List.mem_map.mp member
          obtain ⟨other, foundOther, _⟩ := agreeing.unmixed.2 entry entryMember
          exact absurd (List.getElem?_eq_some_iff.mp foundOther).1 (Nat.not_lt.mpr new)
      · constructor
        · exact agreeing.unmixed.1
        · intro entry member
          obtain ⟨upload, found, post⟩ := agreeing.unmixed.2 entry member
          have inside := (List.getElem?_eq_some_iff.mp found).1
          exact ⟨upload, (List.getElem?_append_left inside).trans found, post⟩

/-- Changing the phase of an upload keeps the posts of all presses. -/
theorem postOf_setPhase {uploads : List (Upload UploadPhotoPage)} {index : Nat}
    {upload : Upload UploadPhotoPage} (found : uploads[index]? = some upload)
    (phase : UploadPhase) {entry : Nat × Write}
    (post : ∃ upload, uploads[entry.1]? = some upload ∧ PostOf urlOf entry.1 upload entry.2) :
    ∃ moved, (uploads.set index { upload with phase })[entry.1]? = some moved ∧
      PostOf urlOf entry.1 moved entry.2 := by
  obtain ⟨owner, foundOwner, isPost⟩ := post
  by_cases same : entry.1 = index
  · have inside := (List.getElem?_eq_some_iff.mp found).1
    rw [same] at foundOwner isPost ⊢
    obtain rfl := Option.some.inj (found.symm.trans foundOwner)
    exact ⟨_, List.getElem?_set_self inside, isPost⟩
  · exact ⟨owner, (List.getElem?_set_ne (Ne.symm same)).trans foundOwner, isPost⟩

theorem Agreeing.setPhase {screen : Screen UploadPhotoPage} {index : Nat}
    {upload : Upload UploadPhotoPage} (agreeing : Agreeing urlOf screen)
    (found : screen.uploads[index]? = some upload) (inFlight : upload.InFlight)
    (phase : UploadPhase) : Agreeing urlOf (Handler.setPhase screen index upload phase) where
  reads moved pending := by
    rcases List.mem_or_eq_of_mem_set pending.2.1 with earlier | rfl
    · exact agreeing.reads moved ⟨pending.1, earlier, pending.2.2⟩
    · exact agreeing.reads upload ⟨pending.1, List.mem_of_getElem? found, inFlight⟩
  unsaved other moved foundMoved movedInFlight := by
    by_cases same : other = index
    · rw [same]
      exact agreeing.unsaved index upload found inFlight
    · have foundOther : screen.uploads[other]? = some moved :=
        (List.getElem?_set_ne (Ne.symm same)).symm.trans foundMoved
      exact agreeing.unsaved other moved foundOther movedInFlight
  unmixed := ⟨agreeing.unmixed.1, fun entry member =>
    postOf_setPhase found phase (agreeing.unmixed.2 entry member)⟩

/-- The arrival of a URL on a mounted page saves the post of its press. -/
theorem Agreeing.finish {screen : Screen UploadPhotoPage} {index : Nat}
    {upload : Upload UploadPhotoPage} (agreeing : Agreeing urlOf screen)
    (found : screen.uploads[index]? = some upload) (fetching : upload.phase = .fetching)
    (key time : String) :
    Agreeing urlOf
      (handler.finish screen index upload (urlOf index upload.file) key time) := by
  have inFlight : upload.InFlight := .inr fetching
  have moved := agreeing.setPhase found inFlight .completed
  unfold Handler.finish
  by_cases mounted : screen.mounted = true
  · obtain ⟨value, location, user, signedIn, current⟩ :=
      agreeing.reads upload ⟨mounted, List.mem_of_getElem? found, inFlight⟩
    have inside := (List.getElem?_eq_some_iff.mp found).1
    simp only [Handler.setPhase, mounted, if_true, handler, saveToDatabase]
    constructor
    · rintro later ⟨_, member, laterInFlight⟩
      exact moved.reads later ⟨mounted, member, laterInFlight⟩
    · -- the saved press is completed, so it is not the one in flight
      intro other later foundLater laterInFlight
      have different : other ≠ index := by
        rintro rfl
        obtain rfl := Option.some.inj ((List.getElem?_set_self inside).symm.trans foundLater)
        exact absurd laterInFlight (by simp [Upload.InFlight])
      have before : other ∉ screen.writes.map Prod.fst :=
        moved.unsaved other later foundLater laterInFlight
      simpa [different] using before
    · constructor
      · rw [List.map_append, List.nodup_append]
        have apart : ∀ first ∈ screen.writes.map Prod.fst, ∀ second ∈ [index],
            first ≠ second := by
          intro first firstMember second secondMember equal
          rw [equal, List.mem_singleton.mp secondMember] at firstMember
          exact agreeing.unsaved index upload found inFlight firstMember
        exact ⟨agreeing.unmixed.1, List.nodup_singleton _, apart⟩
      · intro entry member
        rcases List.mem_append.mp member with earlier | last
        · exact postOf_setPhase found .completed (agreeing.unmixed.2 entry earlier)
        · obtain rfl := List.mem_singleton.mp last
          refine ⟨_, List.getElem?_set_self inside, user, key, time, signedIn, ?_⟩
          simp only [value, location, current]
  · -- on a disposed page nothing is pending and nothing is saved
    have unmounted : screen.mounted = false := by simpa using mounted
    simp only [Handler.setPhase, unmounted, Bool.false_eq_true, if_false]
    constructor
    · rintro later ⟨stillMounted, _⟩
      contradiction
    · exact moved.unsaved
    · exact moved.unmixed

/-- A session step keeps what pending submissions read, as long as it does not
change `currentUser` for them. -/
theorem Agreeing.auth {screen : Screen UploadPhotoPage} {session : Session Unit}
    {action : Action Unit} (agreeing : Agreeing urlOf screen)
    (keeps : KeepsAgreement screen (.auth action))
    (moved : screen.session.step action = some session) :
    Agreeing urlOf { screen with session } := by
  refine agreeing.of_eq rfl rfl fun upload pending => ?_
  obtain ⟨value, location, user, signedIn, current⟩ := agreeing.reads upload pending
  refine ⟨value, location, user, signedIn, ?_⟩
  cases action with
  | start caller ticket =>
      cases moved
      have staying : caller.operation ≠ .signOut := fun leaving => keeps leaving upload pending
      simpa [Session.start, staying] using current
  | effect index outcome =>
      obtain ⟨_, _, _, _, _, _, rfl⟩ := (Session.effect_eq_some_iff _ _ _ _).mp moved
      exact current
  | resume index =>
      obtain ⟨caller, ticket, answer, found, rfl⟩ := (Session.resume_eq_some_iff _ _ _).mp moved
      cases answer with
      | none => simpa [Session.afterAwait_none] using current
      | some answered =>
          have same := keeps _ answered found rfl upload pending
          obtain rfl := Option.some.inj (signedIn.symm.trans same)
          by_cases awaited : caller.operation = .signOut
          · simpa [awaited, afterAwait] using current
          · exact Session.afterAwait_some awaited user _

theorem Agreeing.step {screen next : Screen UploadPhotoPage}
    {action : UploadAction PhotoEdit} (agreeing : Agreeing urlOf screen)
    (keeps : KeepsAgreement screen action)
    (taken : handler.step urlOf screen action = some next) : Agreeing urlOf next := by
  cases Handler.moves_of_step taken with
  | edits change =>
      rcases change with ⟨image, rfl⟩ | ⟨edit, rfl⟩
      · exact agreeing.of_fields_eq rfl rfl rfl rfl rfl id
      · cases edit <;> exact agreeing.of_fields_eq rfl rfl rfl rfl rfl id
  | navigates stays => exact agreeing.of_fields_eq rfl rfl rfl rfl rfl stays
  | presses mounted pressed => exact agreeing.press mounted keeps pressed
  | proceeds found inFlight unfinished => exact agreeing.setPhase found inFlight _
  | finishes found fetching => exact agreeing.finish found fetching _ _
  | auth moved => exact agreeing.auth keeps moved

/-- **Submissions are not mixed while those in flight agree.**  In every run of
the page, opened on a device with any session, whose steps all keep the
submissions in flight in agreement, every saved post belongs to one press and
is the post of that press. -/
theorem unmixed_of_agreement (urlOf : Nat → File → String) (session : Session Unit)
    (actions : List (UploadAction PhotoEdit)) (final : Screen UploadPhotoPage)
    (agreement : Guarded (handler.step urlOf) KeepsAgreement
      (Handler.openedOn initial session) actions)
    (executed : run (handler.step urlOf) (Handler.openedOn initial session) actions =
      some final) : Unmixed urlOf final :=
  (invariant_of_guarded (fun _ _ _ agreeing keeps taken => agreeing.step keeps taken)
    (agreeing_openedOn session) agreement executed).unmixed

/-! ## Runs at fixed inputs -/

/-- A second image is submitted with the same texts before the first upload is
done, and is done first. -/
def twoImages : List (UploadAction PhotoEdit) :=
  [.picked (some "a.jpg"), .edit (.description "first"), .edit (.location "here"), .press "t",
    .picked (some "b.jpg"), .press "u", .uploaded 1, .gotUrl 1 "key" "time", .uploaded 0,
    .gotUrl 0 "other" "later"]

theorem unmixed_twoImages :
    ∃ final, run (handler.step fileName) (Handler.openedOn initial settledSession) twoImages =
        some final ∧
      final.writes =
        [(1, .photo "key" (some firstUid.val) "b.jpg" (some "first") (some "here") "time"),
          (0, .photo "other" (some firstUid.val) "a.jpg" (some "first") (some "here") "later")] ∧
      Unmixed fileName final := by
  refine ⟨_, rfl, rfl, unmixed_of_agreement fileName settledSession twoImages _ ?_ rfl⟩
  refine .cons rfl trivial (.cons rfl trivial (.cons rfl trivial (.cons rfl ?_
    (.cons rfl trivial (.cons rfl ?_ (.cons rfl trivial (.cons rfl trivial
      (.cons rfl trivial (.cons rfl trivial trivial)))))))))
  · exact fun saved valid => ⟨⟨firstUid, rfl, rfl⟩, fun upload pending =>
      absurd pending.2.1 List.not_mem_nil⟩
  · intro saved valid
    refine ⟨⟨firstUid, rfl, rfl⟩, fun upload pending => ?_⟩
    cases List.mem_singleton.mp pending.2.1
    exact ⟨rfl, rfl⟩

/-- A second description is submitted before the first upload is done. -/
def twoPosts : List (UploadAction PhotoEdit) :=
  [.picked (some "a.jpg"), .edit (.description "first"), .edit (.location "here"), .press "t",
    .edit (.description "second"), .press "t'", .uploaded 0, .gotUrl 0 "key" "time"]

/-- The first image is saved with the second description. -/
theorem mixed_twoPosts :
    ∃ final, run (handler.step fileName) (Handler.openedOn initial settledSession) twoPosts =
        some final ∧
      final.writes = [(0, .photo "key" (some firstUid.val) "a.jpg" (some "second")
        (some "here") "time")] ∧
      ¬ Unmixed fileName final := by
  refine ⟨_, rfl, rfl, fun unmixed => ?_⟩
  obtain ⟨upload, found, _, _, _, _, post⟩ := unmixed.2 _ List.mem_cons_self
  cases found
  simp only [Write.photo.injEq] at post
  exact absurd post.2.2.2.1 (by decide)

end UploadPhotoPage

end DyeIsLife.Pages
