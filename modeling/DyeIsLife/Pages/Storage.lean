import DyeIsLife.Pages.Delivery
import DyeIsLife.Time.Stamp
import Mathlib.Logic.Function.Basic

/-!
# Uploaded images

All clients upload into two folders of one storage.  `uploadStatusImage` names
an object after the local wall clock of its device, and `putFile` replaces an
object that is already there.  The names are unique as long as no two presses
into one folder read the same local time, whichever clients make them.

The state has every upload page of every client, each with all its uploads, the
calls of `putFile` so far and the objects.  A client has a time zone; what its
clock says is part of each action, so clocks may be wrong, jump and be set back.
-/

namespace DyeIsLife.Pages

open DyeIsLife.Time
open DyeIsLife.Transition

/-! ## Storage -/

/-- An upload page of a client. -/
structure PageId where
  client : Nat
  page : Nat
  deriving DecidableEq

/-- An upload page of either kind. -/
inductive Uploader where
  | photo (id : PageId)
  | profile (id : PageId)
  deriving DecidableEq

/-- A call of `putFile`: the folder, what the wall clock of the device showed,
and the press it belongs to. -/
structure Put where
  folder : String
  localTime : Int
  uploader : Uploader
  index : Nat

/-- The storage path of a call. -/
def Put.path (put : Put) : String :=
  put.folder ++ "/" ++ (WallClock.ofMicroseconds put.localTime).toString ++ ".jpg"

structure Storage where
  /-- the calls of `putFile`, the first one first -/
  puts : List Put
  objects : String → Option File

/-- No earlier press into the folder read this local time. -/
def Storage.Unused (storage : Storage) (folder : String) (localTime : Int) : Prop :=
  ∀ put ∈ storage.puts, put.folder = folder → put.localTime ≠ localTime

namespace Handler

variable {σ ε : Type} (handler : Handler σ ε)

/-- A press reads the clock: `timeKey` is `DateTime.now().toString()`. -/
def stamped (localTime : Int) : UploadAction ε → UploadAction ε
  | .press _ => .press (WallClock.ofMicroseconds localTime).toString
  | action => action

/-- What a step of an upload page does to the storage.  An accepted press calls
`putFile`; the object is there once the upload has completed. -/
def stored (uploader : Uploader) (localTime : Int) (screen next : Screen σ) (storage : Storage) :
    UploadAction ε → Storage
  | .press _ =>
      if screen.uploads.length < next.uploads.length then
        { storage with
          puts := storage.puts ++ [⟨handler.folder, localTime, uploader, screen.uploads.length⟩] }
      else
        storage
  | .uploaded index =>
      match screen.uploads[index]? with
      | some upload =>
          { storage with
            objects := Function.update storage.objects upload.path (some upload.file) }
      | none => storage
  | _ => storage

/-- One step of an upload page together with the storage. -/
def putStep (urlOf : Nat → File → String) (uploader : Uploader) (localTime : Int)
    (screen : Screen σ) (storage : Storage) (action : UploadAction ε) :
    Option (Screen σ × Storage) :=
  (handler.step urlOf screen (stamped localTime action)).map fun next =>
    (next, handler.stored uploader localTime screen next storage action)

/-- An accepted press reads a local time that is unused in its folder. -/
def Clear (localTime : Int) (screen : Screen σ) (storage : Storage) : UploadAction ε → Prop
  | .press _ =>
      handler.validateAndSave screen.page ≠ none → storage.Unused handler.folder localTime
  | _ => True

end Handler

/-- All clients and the storage. -/
structure Gallery where
  photos : PageId → Screen UploadPhotoPage
  profiles : PageId → Screen ChangeProfilePhotoPage
  storage : Storage

/-- An action on an upload page, with what the clock of its client says: the
microseconds since the epoch. -/
inductive GalleryAction where
  | photo (id : PageId) (now : Int) (action : UploadAction PhotoEdit)
  | profile (id : PageId) (now : Int) (action : UploadAction Empty)

namespace Gallery

variable (zones : Nat → TimeZone) (urlOf : Uploader → Nat → File → String)

/-- One step of all clients together. -/
def step : Step Gallery GalleryAction
  | gallery, .photo id now action =>
      (UploadPhotoPage.handler.putStep (urlOf (.photo id)) (.photo id)
        ((zones id.client).localTime now) (gallery.photos id) gallery.storage action).map
          fun (screen, storage) =>
            { gallery with photos := Function.update gallery.photos id screen, storage }
  | gallery, .profile id now action =>
      (ChangeProfilePhotoPage.handler.putStep (urlOf (.profile id)) (.profile id)
        ((zones id.client).localTime now) (gallery.profiles id) gallery.storage action).map
          fun (screen, storage) =>
            { gallery with profiles := Function.update gallery.profiles id screen, storage }

/-- The freshly opened pages over an empty storage. -/
def opened (sessions : Nat → Auth.Session Unit) : Gallery where
  photos id := Handler.openedOn UploadPhotoPage.initial (sessions id.client)
  profiles id := Handler.openedOn ChangeProfilePhotoPage.initial (sessions id.client)
  storage := ⟨[], fun _ => none⟩

/-- Every accepted press reads a local time that is unused in its folder. -/
def Clear (gallery : Gallery) : GalleryAction → Prop
  | .photo id now action =>
      UploadPhotoPage.handler.Clear ((zones id.client).localTime now) (gallery.photos id)
        gallery.storage action
  | .profile id now action =>
      ChangeProfilePhotoPage.handler.Clear ((zones id.client).localTime now) (gallery.profiles id)
        gallery.storage action

end Gallery

/-! ## What the uploads hold -/

/-- The part of an upload that the storage is about. -/
structure Transfer where
  path : String
  file : File
  phase : UploadPhase

namespace Screen

variable {σ : Type}

def transfers (screen : Screen σ) : List Transfer :=
  screen.uploads.map fun upload => ⟨upload.path, upload.file, upload.phase⟩

/-- The presses whose image URL has been saved to the database. -/
def savedPresses (screen : Screen σ) : List Nat :=
  screen.writes.map Prod.fst

end Screen

/-- The uploads of all pages, the saved presses, and the storage. -/
structure Holdings where
  transfers : Uploader → List Transfer
  saved : Uploader → List Nat
  storage : Storage

namespace Gallery

def transfers (gallery : Gallery) : Uploader → List Transfer
  | .photo id => (gallery.photos id).transfers
  | .profile id => (gallery.profiles id).transfers

def saved (gallery : Gallery) : Uploader → List Nat
  | .photo id => (gallery.photos id).savedPresses
  | .profile id => (gallery.profiles id).savedPresses

def holdings (gallery : Gallery) : Holdings where
  transfers := gallery.transfers
  saved := gallery.saved
  storage := gallery.storage

/-- No two calls of `putFile` have the same path, and behind every image URL
that has been saved is the file of its own press. -/
structure NeverOverwritten (gallery : Gallery) : Prop where
  distinct : (gallery.storage.puts.map Put.path).Nodup
  intact : ∀ uploader, ∀ index ∈ gallery.saved uploader, ∃ transfer,
    (gallery.transfers uploader)[index]? = some transfer ∧
      gallery.storage.objects transfer.path = some transfer.file

end Gallery

/-! ## Paths -/

/-- The folder is one of the two. -/
def Put.Filed (put : Put) : Prop :=
  put.folder = UploadPhotoPage.handler.folder ∨ put.folder = ChangeProfilePhotoPage.handler.folder

/-- The path determines the folder and the local time. -/
theorem Put.eq_of_path_eq {put put' : Put} (filed : put.Filed) (filed' : put'.Filed)
    (same : put.path = put'.path) :
    put.folder = put'.folder ∧ put.localTime = put'.localTime := by
  have folders : put.folder = put'.folder := by
    -- the names of the folders differ in their second letter
    have letters := congrArg (fun path => path.toList[1]?) same
    rcases filed with folder | folder <;> rcases filed' with folder' | folder'
    · rw [folder, folder']
    · simp [Put.path, folder, folder', UploadPhotoPage.handler, ChangeProfilePhotoPage.handler]
        at letters
    · simp [Put.path, folder, folder', UploadPhotoPage.handler, ChangeProfilePhotoPage.handler]
        at letters
    · rw [folder, folder']
  constructor
  · exact folders
  · apply WallClock.toString_ofMicroseconds_injective
    rw [Put.path, Put.path, folders] at same
    apply String.toList_injective
    have lists := congrArg String.toList same
    simp only [String.toList_append, List.append_assoc] at lists
    exact List.append_cancel_right (List.append_cancel_left (List.append_cancel_left lists))

/-! ## What one step can do -/

/-- The steps of a page by what they do to its uploads and to the storage. -/
inductive Stores (folder : String) (localTime : Int) (uploader : Uploader) (clear : Prop)
    (transfers : List Transfer) (saved : List Nat) (storage : Storage) :
    List Transfer → List Nat → Storage → Prop
  | keeps : Stores folder localTime uploader clear transfers saved storage transfers saved storage
  | puts {put : Put} {file : File} (called : put = ⟨folder, localTime, uploader, transfers.length⟩)
      (unused : clear → storage.Unused folder localTime) :
      Stores folder localTime uploader clear transfers saved storage
        (transfers ++ [⟨put.path, file, .uploading⟩]) saved
        { storage with puts := storage.puts ++ [put] }
  | arrives {index : Nat} {transfer : Transfer} (found : transfers[index]? = some transfer)
      (unfinished : transfer.phase ≠ .completed) :
      Stores folder localTime uploader clear transfers saved storage
        (transfers.set index { transfer with phase := .fetching }) saved
        { storage with objects := Function.update storage.objects transfer.path (some transfer.file) }
  | fails {index : Nat} {transfer : Transfer} (found : transfers[index]? = some transfer)
      (unfinished : transfer.phase ≠ .completed) :
      Stores folder localTime uploader clear transfers saved storage
        (transfers.set index { transfer with phase := .failed }) saved storage
  | finishes {index : Nat} {transfer : Transfer} {saved' : List Nat}
      (found : transfers[index]? = some transfer) (fetching : transfer.phase = .fetching)
      (more : ∀ other ∈ saved', other ∈ saved ∨ other = index) :
      Stores folder localTime uploader clear transfers saved storage
        (transfers.set index { transfer with phase := .completed }) saved' storage

namespace Handler

variable {σ ε : Type} {handler : Handler σ ε} {urlOf : Nat → File → String}

theorem transfers_setPhase (screen : Screen σ) (index : Nat) (upload : Upload σ)
    (phase : UploadPhase) :
    (setPhase screen index upload phase).transfers =
      screen.transfers.set index ⟨upload.path, upload.file, phase⟩ :=
  List.map_set

theorem transfers_getElem? {screen : Screen σ} {index : Nat} {upload : Upload σ}
    (found : screen.uploads[index]? = some upload) :
    screen.transfers[index]? = some ⟨upload.path, upload.file, upload.phase⟩ := by
  rw [Screen.transfers, List.getElem?_map, found]
  rfl

/-- An accepted press calls `putFile`. -/
theorem transfers_of_press {screen next : Screen σ} {timeKey : String}
    (taken : handler.uploadStatusImage screen timeKey = some next) :
    (handler.validateAndSave screen.page = none ∧ next = screen) ∨
      ∃ file, handler.validateAndSave screen.page ≠ none ∧
        next.transfers = screen.transfers ++
          [⟨handler.folder ++ "/" ++ timeKey ++ ".jpg", file, .uploading⟩] ∧
        next.writes = screen.writes := by
  rcases Option.map_eq_some_iff.mp taken with ⟨image, _, rfl⟩
  cases valid : handler.validateAndSave screen.page with
  | none => exact .inl ⟨rfl, rfl⟩
  | some saved =>
      right
      exact ⟨image, nofun, List.map_append, rfl⟩

theorem finish_eq {screen : Screen σ} {index : Nat} {upload : Upload σ} {url key time : String} :
    (handler.finish screen index upload url key time).transfers =
        screen.transfers.set index ⟨upload.path, upload.file, .completed⟩ ∧
      ∀ other ∈ (handler.finish screen index upload url key time).savedPresses,
        other ∈ screen.savedPresses ∨ other = index := by
  have moved := transfers_setPhase screen index upload .completed
  simp only [finish]
  split
  · split
    · exact ⟨moved, fun other member => .inl member⟩
    · constructor
      · exact moved
      · intro other member
        simpa [Screen.savedPresses, setPhase] using member
  · exact ⟨moved, fun other member => .inl member⟩

theorem stored_of_transfers {uploader : Uploader} {localTime : Int} {screen next : Screen σ}
    {storage : Storage} {timeKey : String} {transfer : Transfer}
    (transfers : next.transfers = screen.transfers ++ [transfer]) :
    handler.stored uploader localTime screen next storage (.press timeKey) =
      { storage with
        puts := storage.puts ++
          [⟨handler.folder, localTime, uploader, screen.transfers.length⟩] } := by
  have size : screen.transfers.length = screen.uploads.length := List.length_map _
  have longer : screen.uploads.length < next.uploads.length := by
    have lengths := congrArg List.length transfers
    simp only [Screen.transfers, List.length_map, List.length_append,
      List.length_singleton] at lengths
    omega
  simp only [stored, longer, if_true, size]

theorem stores_of_press {uploader : Uploader} {localTime : Int} {screen next : Screen σ}
    (storage : Storage) (timeKey : String)
    (taken : handler.uploadStatusImage screen (WallClock.ofMicroseconds localTime).toString =
      some next) :
    Stores handler.folder localTime uploader
      (handler.Clear localTime screen storage (.press timeKey)) screen.transfers
      screen.savedPresses storage next.transfers next.savedPresses
      (handler.stored uploader localTime screen next storage (.press timeKey)) := by
  rcases transfers_of_press taken with ⟨_, rfl⟩ | ⟨file, valid, transfers, writes⟩
  · simp only [stored, Nat.lt_irrefl, if_false]
    exact .keeps
  · let put : Put := ⟨handler.folder, localTime, uploader, screen.transfers.length⟩
    have called : handler.stored uploader localTime screen next storage (.press timeKey) =
        { storage with puts := storage.puts ++ [put] } := stored_of_transfers transfers
    have named : handler.folder ++ "/" ++ (WallClock.ofMicroseconds localTime).toString ++ ".jpg" =
        put.path := by
      rw [Put.path]
    have unsaved : next.savedPresses = screen.savedPresses := congrArg (List.map Prod.fst) writes
    rw [called, transfers, named, unsaved]
    exact Stores.puts rfl fun clear => clear valid

theorem stores_of_putStep {uploader : Uploader} {localTime : Int} {screen next : Screen σ}
    {storage storage' : Storage} {action : UploadAction ε}
    (taken : handler.putStep urlOf uploader localTime screen storage action =
      some (next, storage')) :
    Stores handler.folder localTime uploader (handler.Clear localTime screen storage action)
      screen.transfers screen.savedPresses storage next.transfers next.savedPresses storage' := by
  rcases Option.map_eq_some_iff.mp taken with ⟨_, moved, same⟩
  cases same
  cases action with
  | picked image =>
      cases moved
      split
      · exact .keeps
      · exact .keeps
  | edit change =>
      simp only [stamped, step] at moved
      split at moved
      · cases moved
        exact .keeps
      · contradiction
  | opened page =>
      simp only [stamped, step] at moved
      split at moved
      · cases moved
        exact .keeps
      · contradiction
  | back =>
      simp only [stamped, step] at moved
      split at moved
      · cases moved
        exact .keeps
      · split at moved
        · cases moved
          exact .keeps
        · contradiction
  | auth action =>
      rcases Option.map_eq_some_iff.mp moved with ⟨session, _, rfl⟩
      exact .keeps
  | press timeKey =>
      simp only [stamped, step] at moved
      split at moved
      · exact stores_of_press storage timeKey moved
      · contradiction
  | uploaded index =>
      rcases Option.bind_eq_some_iff.mp moved with ⟨upload, found, proceeded⟩
      split at proceeded
      · rename_i uploading
        cases proceeded
        simp only [stored, found]
        rw [transfers_setPhase]
        apply Stores.arrives (transfers_getElem? found)
        simp [uploading]
      · contradiction
  | gotUrl index key time =>
      rcases Option.bind_eq_some_iff.mp moved with ⟨upload, found, proceeded⟩
      split at proceeded
      · rename_i fetching
        cases proceeded
        rcases finish_eq with ⟨transfers, more⟩
        rw [transfers]
        exact .finishes (transfers_getElem? found) fetching more
      · contradiction
  | failed index =>
      rcases Option.bind_eq_some_iff.mp moved with ⟨upload, found, proceeded⟩
      split at proceeded
      · rename_i inFlight
        cases proceeded
        rw [transfers_setPhase]
        apply Stores.fails (transfers_getElem? found)
        rcases inFlight with uploading | fetching
        · simp [uploading]
        · simp [fetching]
      · contradiction

end Handler

/-! ## The invariant -/

namespace Holdings

/-- The upload of a press. -/
def Has (holdings : Holdings) (uploader : Uploader) (index : Nat) (transfer : Transfer) : Prop :=
  (holdings.transfers uploader)[index]? = some transfer

/-- Every upload has its own call of `putFile`, the paths of the calls are
distinct, an upload that has arrived is behind its path, and only completed
uploads are saved. -/
structure Kept (holdings : Holdings) : Prop where
  filed : ∀ put ∈ holdings.storage.puts, put.Filed
  distinct : (holdings.storage.puts.map Put.path).Nodup
  listed : ∀ {uploader index transfer}, holdings.Has uploader index transfer →
    ∃ put ∈ holdings.storage.puts, put.uploader = uploader ∧ put.index = index ∧
      put.path = transfer.path
  arrived : ∀ {uploader index transfer}, holdings.Has uploader index transfer →
    transfer.phase = .fetching ∨ transfer.phase = .completed →
      holdings.storage.objects transfer.path = some transfer.file
  completed : ∀ {uploader index}, index ∈ holdings.saved uploader →
    ∃ transfer, holdings.Has uploader index transfer ∧ transfer.phase = .completed

/-- Replace what one page contributes. -/
def moved (holdings : Holdings) (uploader : Uploader) (transfers : List Transfer)
    (saved : List Nat) (storage : Storage) : Holdings where
  transfers := Function.update holdings.transfers uploader transfers
  saved := Function.update holdings.saved uploader saved
  storage := storage

section Moved

variable {holdings : Holdings} {uploader other : Uploader} {transfers : List Transfer}
  {saved : List Nat} {storage : Storage} {index : Nat} {transfer : Transfer}

theorem has_moved_self :
    (holdings.moved uploader transfers saved storage).Has uploader index transfer ↔
      transfers[index]? = some transfer := by
  simp only [Has, moved, Function.update_self]

theorem has_moved_of_ne (differ : other ≠ uploader) :
    (holdings.moved uploader transfers saved storage).Has other index transfer ↔
      holdings.Has other index transfer := by
  simp only [Has, moved, Function.update_of_ne differ]

theorem saved_moved_self : (holdings.moved uploader transfers saved storage).saved uploader = saved :=
  Function.update_self ..

theorem saved_moved_of_ne (differ : other ≠ uploader) :
    (holdings.moved uploader transfers saved storage).saved other = holdings.saved other :=
  Function.update_of_ne differ ..

/-- An upload after a press is an earlier one or the new one. -/
theorem has_moved_append {new : Transfer}
    (found : (holdings.moved uploader (holdings.transfers uploader ++ [new]) saved storage).Has
      other index transfer) :
    holdings.Has other index transfer ∨
      (other = uploader ∧ index = (holdings.transfers uploader).length ∧ transfer = new) := by
  by_cases same : other = uploader
  · subst same
    rw [has_moved_self] at found
    rcases Nat.lt_or_ge index (holdings.transfers other).length with old | beyond
    · rw [List.getElem?_append_left old] at found
      exact .inl found
    · rw [List.getElem?_append_right beyond] at found
      rcases List.getElem?_eq_some_iff.mp found with ⟨inside, last⟩
      rw [List.length_singleton] at inside
      rw [List.getElem_singleton] at last
      exact .inr ⟨rfl, by omega, last.symm⟩
  · exact .inl ((has_moved_of_ne same).mp found)

/-- A press keeps the earlier uploads. -/
theorem Has.moved_append (found : holdings.Has other index transfer) (new : Transfer) :
    (holdings.moved uploader (holdings.transfers uploader ++ [new]) saved storage).Has other index
      transfer := by
  by_cases same : other = uploader
  · subst same
    rw [has_moved_self, List.getElem?_append_left (List.getElem?_eq_some_iff.mp found).1]
    exact found
  · exact (has_moved_of_ne same).mpr found

/-- An upload after a change of one upload is the changed one, or another one as
it was. -/
theorem has_moved_set {new changed : Transfer} (changes : holdings.Has uploader index changed)
    {index' : Nat}
    (found : (holdings.moved uploader ((holdings.transfers uploader).set index new) saved
      storage).Has other index' transfer) :
    (other = uploader ∧ index' = index ∧ transfer = new) ∨
      (holdings.Has other index' transfer ∧ ¬ (other = uploader ∧ index' = index)) := by
  by_cases same : other = uploader
  · subst same
    rw [has_moved_self] at found
    by_cases sameIndex : index' = index
    · subst sameIndex
      rw [List.getElem?_set_self (List.getElem?_eq_some_iff.mp changes).1] at found
      exact .inl ⟨rfl, rfl, (Option.some.inj found).symm⟩
    · rw [List.getElem?_set_ne (Ne.symm sameIndex)] at found
      exact .inr ⟨found, fun both => sameIndex both.2⟩
  · exact .inr ⟨(has_moved_of_ne same).mp found, fun both => same both.1⟩

end Moved

/-- Different uploads have different paths. -/
theorem Kept.unique {holdings : Holdings} (kept : holdings.Kept) {uploader uploader' : Uploader}
    {index index' : Nat} {transfer transfer' : Transfer}
    (found : holdings.Has uploader index transfer)
    (found' : holdings.Has uploader' index' transfer')
    (same : transfer.path = transfer'.path) : uploader = uploader' ∧ index = index' := by
  rcases kept.listed found with ⟨put, member, rfl, rfl, path⟩
  rcases kept.listed found' with ⟨put', member', rfl, rfl, path'⟩
  have equal : put = put' := List.inj_on_of_nodup_map kept.distinct member member'
    (path.trans (same.trans path'.symm))
  subst equal
  exact ⟨rfl, rfl⟩

/-- The path of a call at an unused local time is new. -/
theorem Kept.path_not_mem {holdings : Holdings} (kept : holdings.Kept) {put : Put}
    (filed : put.Filed) (unused : holdings.storage.Unused put.folder put.localTime) :
    put.path ∉ holdings.storage.puts.map Put.path := by
  intro member
  rcases List.mem_map.mp member with ⟨earlier, earlierMember, same⟩
  rcases Put.eq_of_path_eq (kept.filed earlier earlierMember) filed same with ⟨folder, localTime⟩
  exact unused earlier earlierMember folder localTime

/-- A new call of `putFile` at an unused local time. -/
theorem Kept.puts {holdings : Holdings} (kept : holdings.Kept) {put : Put} (file : File)
    (filed : put.Filed) (next : put.index = (holdings.transfers put.uploader).length)
    (unused : holdings.storage.Unused put.folder put.localTime) :
    (holdings.moved put.uploader
      (holdings.transfers put.uploader ++ [⟨put.path, file, .uploading⟩])
      (holdings.saved put.uploader)
      { holdings.storage with puts := holdings.storage.puts ++ [put] }).Kept := by
  constructor
  · intro other member
    rcases List.mem_append.mp member with earlier | last
    · exact kept.filed other earlier
    · rw [List.mem_singleton.mp last]
      exact filed
  · change ((holdings.storage.puts ++ [put]).map Put.path).Nodup
    rw [List.map_append, List.map_singleton, List.nodup_append]
    refine ⟨kept.distinct, List.nodup_singleton _, ?_⟩
    intro path member path' member' same
    rw [same, List.mem_singleton.mp member'] at member
    exact kept.path_not_mem filed unused member
  · intro uploader index transfer found
    rcases has_moved_append found with earlier | ⟨rfl, rfl, rfl⟩
    · rcases kept.listed earlier with ⟨other, member, owner⟩
      exact ⟨other, List.mem_append_left _ member, owner⟩
    · exact ⟨put, List.mem_append_right _ List.mem_cons_self, rfl, next, rfl⟩
  · intro uploader index transfer found phase
    rcases has_moved_append found with earlier | ⟨rfl, rfl, rfl⟩
    · exact kept.arrived earlier phase
    · rcases phase with fetching | completed <;> contradiction
  · intro uploader index member
    have before : index ∈ holdings.saved uploader := by
      by_cases same : uploader = put.uploader
      · subst same
        rwa [saved_moved_self] at member
      · rwa [saved_moved_of_ne same] at member
    rcases kept.completed before with ⟨transfer, found, phase⟩
    exact ⟨transfer, found.moved_append _, phase⟩

/-- An upload moves to another phase; behind other paths nothing changes. -/
theorem Kept.setPhase {holdings : Holdings} (kept : holdings.Kept) {uploader : Uploader}
    {index : Nat} {transfer : Transfer} {phase : UploadPhase} {saved : List Nat}
    {objects : String → Option File} (found : holdings.Has uploader index transfer)
    (elsewhere : ∀ path, path ≠ transfer.path → objects path = holdings.storage.objects path)
    (here : phase = .fetching ∨ phase = .completed → objects transfer.path = some transfer.file)
    (more : ∀ other ∈ saved, other ∈ holdings.saved uploader ∨ other = index)
    (finished : index ∈ saved → phase = .completed) :
    (holdings.moved uploader ((holdings.transfers uploader).set index { transfer with phase })
      saved { holdings.storage with objects }).Kept := by
  have inside := (List.getElem?_eq_some_iff.mp found).1
  have elsewhere_of_ne : ∀ {uploader' index' transfer'}, holdings.Has uploader' index' transfer' →
      ¬ (uploader' = uploader ∧ index' = index) →
      objects transfer'.path = holdings.storage.objects transfer'.path :=
    fun before other => elsewhere _ fun same => other (kept.unique before found same)
  constructor
  · exact kept.filed
  · exact kept.distinct
  · intro uploader' index' transfer' found'
    rcases has_moved_set found found' with ⟨rfl, rfl, rfl⟩ | ⟨before, _⟩
    · rcases kept.listed found with ⟨put, member, owner⟩
      exact ⟨put, member, owner⟩
    · exact kept.listed before
  · intro uploader' index' transfer' found' arrived
    rcases has_moved_set found found' with ⟨rfl, rfl, rfl⟩ | ⟨before, other⟩
    · exact here arrived
    · exact (elsewhere_of_ne before other).trans (kept.arrived before arrived)
  · intro uploader' index' member
    by_cases same : uploader' = uploader
    · subst same
      rw [saved_moved_self] at member
      by_cases sameIndex : index' = index
      · subst sameIndex
        exact ⟨{ transfer with phase }, has_moved_self.mpr (List.getElem?_set_self inside),
          finished member⟩
      · rcases kept.completed ((more index' member).resolve_right sameIndex) with
          ⟨other, before, phase'⟩
        refine ⟨other, has_moved_self.mpr ?_, phase'⟩
        rw [List.getElem?_set_ne (Ne.symm sameIndex)]
        exact before
    · rw [saved_moved_of_ne same] at member
      rcases kept.completed member with ⟨other, before, phase'⟩
      exact ⟨other, (has_moved_of_ne same).mpr before, phase'⟩

/-- A step of a page at an unused local time. -/
theorem Kept.stores {holdings : Holdings} (kept : holdings.Kept) {folder : String}
    {localTime : Int} {uploader : Uploader} {clear : Prop} {transfers : List Transfer}
    {saved : List Nat} {storage : Storage}
    (filed : folder = UploadPhotoPage.handler.folder ∨
      folder = ChangeProfilePhotoPage.handler.folder)
    (stores : Stores folder localTime uploader clear (holdings.transfers uploader)
      (holdings.saved uploader) holdings.storage transfers saved storage) (met : clear) :
    (holdings.moved uploader transfers saved storage).Kept := by
  have unsaved : ∀ {index transfer}, holdings.Has uploader index transfer →
      transfer.phase ≠ .completed → index ∉ holdings.saved uploader := by
    intro index transfer found unfinished member
    rcases kept.completed member with ⟨other, found', completed⟩
    cases found.symm.trans found'
    exact unfinished completed
  cases stores with
  | keeps =>
      have same : holdings.moved uploader (holdings.transfers uploader) (holdings.saved uploader)
          holdings.storage = holdings := by
        simp only [moved, Function.update_eq_self]
      rw [same]
      exact kept
  | @puts put file called unused =>
      subst called
      have filedPut : Put.Filed ⟨folder, localTime, uploader, (holdings.transfers uploader).length⟩ :=
        filed
      exact kept.puts file filedPut rfl (unused met)
  | @arrives index transfer found unfinished =>
      apply kept.setPhase found
      · intro path other
        exact Function.update_of_ne other _ _
      · intro _
        exact Function.update_self ..
      · exact fun _ member => .inl member
      · exact fun member => absurd member (unsaved found unfinished)
  | @fails index transfer found unfinished =>
      apply kept.setPhase found
      · exact fun _ _ => rfl
      · rintro (fetching | completed) <;> contradiction
      · exact fun _ member => .inl member
      · exact fun member => absurd member (unsaved found unfinished)
  | @finishes index transfer _ found fetching more =>
      apply kept.setPhase found
      · exact fun _ _ => rfl
      · exact fun _ => kept.arrived found (.inl fetching)
      · exact more
      · exact fun _ => rfl

end Holdings

/-! ## All clients -/

namespace Gallery

variable {zones : Nat → TimeZone} {urlOf : Uploader → Nat → File → String}

theorem holdings_photo (gallery : Gallery) (id : PageId) (screen : Screen UploadPhotoPage)
    (storage : Storage) :
    holdings { gallery with photos := Function.update gallery.photos id screen, storage } =
      gallery.holdings.moved (.photo id) screen.transfers screen.savedPresses storage := by
  have other : ∀ {id'}, Uploader.photo id' ≠ .photo id → id' ≠ id :=
    fun differ same => differ (congrArg Uploader.photo same)
  simp only [holdings, Holdings.moved, Holdings.mk.injEq, and_true, Function.eq_update_iff]
  constructor
  · constructor
    · simp only [transfers, Function.update_self]
    · rintro (id' | id') differ
      · simp only [transfers, Function.update_of_ne (other differ)]
      · rfl
  · constructor
    · simp only [saved, Function.update_self]
    · rintro (id' | id') differ
      · simp only [saved, Function.update_of_ne (other differ)]
      · rfl

theorem holdings_profile (gallery : Gallery) (id : PageId)
    (screen : Screen ChangeProfilePhotoPage) (storage : Storage) :
    holdings { gallery with profiles := Function.update gallery.profiles id screen, storage } =
      gallery.holdings.moved (.profile id) screen.transfers screen.savedPresses storage := by
  have other : ∀ {id'}, Uploader.profile id' ≠ .profile id → id' ≠ id :=
    fun differ same => differ (congrArg Uploader.profile same)
  simp only [holdings, Holdings.moved, Holdings.mk.injEq, and_true, Function.eq_update_iff]
  constructor
  · constructor
    · simp only [transfers, Function.update_self]
    · rintro (id' | id') differ
      · rfl
      · simp only [transfers, Function.update_of_ne (other differ)]
  · constructor
    · simp only [saved, Function.update_self]
    · rintro (id' | id') differ
      · rfl
      · simp only [saved, Function.update_of_ne (other differ)]

/-- One step of all clients is a step of one page. -/
theorem kept_step {gallery next : Gallery} {action : GalleryAction} (kept : gallery.holdings.Kept)
    (clear : gallery.Clear zones action) (taken : step zones urlOf gallery action = some next) :
    next.holdings.Kept := by
  cases action with
  | photo id now action =>
      rcases Option.map_eq_some_iff.mp taken with ⟨⟨screen, storage⟩, moved, rfl⟩
      rw [holdings_photo]
      exact kept.stores (.inl rfl) (Handler.stores_of_putStep moved) clear
  | profile id now action =>
      rcases Option.map_eq_some_iff.mp taken with ⟨⟨screen, storage⟩, moved, rfl⟩
      rw [holdings_profile]
      exact kept.stores (.inr rfl) (Handler.stores_of_putStep moved) clear

theorem kept_opened (sessions : Nat → Auth.Session Unit) : (opened sessions).holdings.Kept := by
  have noTransfers : ∀ uploader, (opened sessions).transfers uploader = [] := by
    rintro (id | id) <;> rfl
  have noneSaved : ∀ uploader, (opened sessions).saved uploader = [] := by
    rintro (id | id) <;> rfl
  have nothing : ∀ {uploader index transfer},
      ¬ (opened sessions).holdings.Has uploader index transfer := by
    intro uploader index transfer found
    simp only [Holdings.Has, holdings, noTransfers] at found
    contradiction
  constructor
  · intro put member
    contradiction
  · exact List.nodup_nil
  · exact fun found => absurd found nothing
  · exact fun found => absurd found nothing
  · intro uploader index member
    simp only [holdings, noneSaved] at member
    contradiction

theorem neverOverwritten_of_kept {gallery : Gallery} (kept : gallery.holdings.Kept) :
    gallery.NeverOverwritten := by
  constructor
  · exact kept.distinct
  · intro uploader index member
    rcases kept.completed member with ⟨transfer, found, phase⟩
    exact ⟨transfer, found, kept.arrived found (.inr phase)⟩

end Gallery

namespace Handler

variable {σ ε : Type} {handler : Handler σ ε} {urlOf : Nat → File → String}

/-- An accepted press at a local time that is in use calls `putFile` on a path
of an earlier call. -/
theorem not_nodup_of_not_clear {uploader : Uploader} {localTime : Int} {screen next : Screen σ}
    {storage storage' : Storage} {action : UploadAction ε}
    (unclear : ¬ handler.Clear localTime screen storage action)
    (taken : handler.putStep urlOf uploader localTime screen storage action =
      some (next, storage')) :
    ¬ (storage'.puts.map Put.path).Nodup := by
  cases action with
  | press timeKey =>
      simp only [Clear, Storage.Unused, Classical.not_imp, not_forall, not_not] at unclear
      rcases unclear with ⟨valid, earlier, member, folder, sameTime⟩
      rcases Option.map_eq_some_iff.mp taken with ⟨_, moved, same⟩
      cases same
      simp only [stamped, step] at moved
      split at moved
      · rcases transfers_of_press moved with ⟨invalid, _⟩ | ⟨file, _, transfers, _⟩
        · exact absurd invalid valid
        · rw [stored_of_transfers transfers]
          intro distinct
          simp only [List.map_append, List.map_singleton, List.nodup_append] at distinct
          apply distinct.2.2 _ (List.mem_map_of_mem member) _ List.mem_cons_self
          rw [Put.path, Put.path, folder, sameTime]
      · contradiction
  | _ => exact absurd trivial unclear

end Handler

namespace Gallery

/-- In every run of any number of clients, whatever their clocks, time zones
and sessions, no upload overwrites another exactly when no two accepted presses
into one folder read the same local time. -/
theorem neverOverwritten_iff_clear (zones : Nat → TimeZone)
    (urlOf : Uploader → Nat → File → String) (sessions : Nat → Auth.Session Unit)
    (actions : List GalleryAction) :
    Always (step zones urlOf) NeverOverwritten (opened sessions) actions ↔
      Guarded (step zones urlOf) (Clear zones) (opened sessions) actions := by
  have holds : ∀ gallery : Gallery, gallery.holdings.Kept → gallery.NeverOverwritten :=
    fun _ => neverOverwritten_of_kept
  apply always_iff_guarded holds
  · intro gallery action next kept clear taken
    exact kept_step kept clear taken
  · intro gallery action next _ unclear taken overwritten
    cases action with
    | photo id now action =>
        rcases Option.map_eq_some_iff.mp taken with ⟨⟨screen, storage⟩, moved, rfl⟩
        exact Handler.not_nodup_of_not_clear unclear moved overwritten.distinct
    | profile id now action =>
        rcases Option.map_eq_some_iff.mp taken with ⟨⟨screen, storage⟩, moved, rfl⟩
        exact Handler.not_nodup_of_not_clear unclear moved overwritten.distinct
  · exact kept_opened sessions

/-- Client 1 is one hour ahead of client 0. -/
def neighbours : Nat → TimeZone
  | 0 => fun _ => 0
  | _ => fun _ => 3600000000

/-- At ten o'clock client 1 uploads a picture and saves it; an hour later
client 0 presses the button.  Both wall clocks show eleven. -/
def anHourApart : List GalleryAction :=
  [.profile ⟨1, 0⟩ 36000000000 (.picked (some "a.jpg")),
    .profile ⟨1, 0⟩ 36000000000 (.press ""),
    .profile ⟨1, 0⟩ 36000000000 (.uploaded 0),
    .profile ⟨1, 0⟩ 36000000000 (.gotUrl 0 "" ""),
    .profile ⟨0, 0⟩ 39600000000 (.picked (some "b.jpg")),
    .profile ⟨0, 0⟩ 39600000000 (.press "")]

/-- When the upload of client 0 completes, it replaces the picture that client 1
has saved. -/
theorem picture_replaced :
    ∃ before final transfer,
      run (step neighbours fun _ => fileName) (opened fun _ => settledSession) anHourApart =
        some before ∧
      before.saved (.profile ⟨1, 0⟩) = [0] ∧
      (before.transfers (.profile ⟨1, 0⟩))[0]? = some transfer ∧
      transfer.file = "a.jpg" ∧
      step neighbours (fun _ => fileName) before (.profile ⟨0, 0⟩ 39600000000 (.uploaded 0)) =
        some final ∧
      final.storage.objects transfer.path = some "b.jpg" ∧
      ¬ final.NeverOverwritten := by
  let path := Put.path ⟨"Profile Images", 39600000000, .profile ⟨0, 0⟩, 0⟩
  -- the state before the last step is kept abstract: only these facts matter
  obtain ⟨before, executed, saved, first, second, paths⟩ :
      ∃ before, run (step neighbours fun _ => fileName) (opened fun _ => settledSession)
          anHourApart = some before ∧
        before.saved (.profile ⟨1, 0⟩) = [0] ∧
        (before.transfers (.profile ⟨1, 0⟩))[0]? = some ⟨path, "a.jpg", .completed⟩ ∧
        (∃ pressed signedIn, (before.profiles ⟨0, 0⟩).uploads[0]? =
          some ⟨"b.jpg", path, .uploading, pressed, signedIn⟩) ∧
        before.storage.puts.map Put.path = [path, path] :=
    ⟨_, rfl, rfl, rfl, ⟨_, _, rfl⟩, rfl⟩
  rcases second with ⟨pressed, signedIn, second⟩
  obtain ⟨final, taken, objects, puts⟩ :
      ∃ final, step neighbours (fun _ => fileName) before
          (.profile ⟨0, 0⟩ 39600000000 (.uploaded 0)) = some final ∧
        final.storage.objects =
          Function.update before.storage.objects path (some "b.jpg") ∧
        final.storage.puts = before.storage.puts := by
    simp only [step, Handler.putStep, Handler.stamped, Handler.stored, Handler.step, second]
    exact ⟨_, rfl, rfl, rfl⟩
  refine ⟨before, final, _, executed, saved, first, rfl, taken, ?_, ?_⟩
  · rw [objects]
    exact Function.update_self ..
  · intro kept
    have distinct := kept.distinct
    rw [puts, paths] at distinct
    exact (List.nodup_cons.mp distinct).1 List.mem_cons_self

end Gallery

end DyeIsLife.Pages
