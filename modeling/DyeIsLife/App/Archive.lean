import DyeIsLife.App.Comments
import DyeIsLife.Store.Overlay

/-!
# Posts, discussions and comments are kept for ever

The pages push posts, discussions and comments under fresh keys and never
update them.  So below `Posts` and `Discussions` the database is an archive: in
every run of all devices it holds the texts it held before and those of the
records that were pushed since, and no others.
-/

namespace DyeIsLife.App

open DyeIsLife.Firebase
open DyeIsLife.Records
open DyeIsLife.Store
open DyeIsLife.Transition

/-- The places that records are pushed to. -/
def places : List DatabaseReference :=
  [postsRef, commentsRef, discussionsRef]

/-- A location in the archive: below `Posts` or `Discussions`, and not at or
above a place that records are pushed to. -/
def Archived (ref : DatabaseReference) : Prop :=
  (postsRef <+: ref ∨ discussionsRef <+: ref) ∧ ∀ place ∈ places, ¬ ref <+: place

instance (ref : DatabaseReference) : Decidable (Archived ref) :=
  inferInstanceAs (Decidable ((postsRef <+: ref ∨ discussionsRef <+: ref) ∧
    ∀ place ∈ places, ¬ ref <+: place))

/-- The database holds a text at a location. -/
def Holds (db : Database) (ref : DatabaseReference) (text : String) : Prop :=
  leaf? (db.value ref) = some text

instance (db : Database) (ref : DatabaseReference) (text : String) :
    Decidable (Holds db ref text) :=
  inferInstanceAs (Decidable (leaf? (db.value ref) = some text))

/-- A write has a text for a location. -/
def Brings (write : Write) (ref : DatabaseReference) (text : String) : Prop :=
  ∃ name, ref = write.target ++ [name] ∧ (name, some text) ∈ write.data.entries

/-! ## One write -/

/-- A push adds its texts and keeps all others. -/
theorem holds_push {db : Database} {place : DatabaseReference} {key : String}
    (listed : place ∈ places) (fresh : db.Fresh place key) (data : MapLiteral)
    {ref : DatabaseReference} (archived : Archived ref) (text : String) :
    Holds (db.push place key data) ref text ↔
      Holds db ref text ∨
        ∃ name, ref = place ++ [key] ++ [name] ∧ (name, some text) ∈ data.entries := by
  rcases prefix_or_apart (place ++ [key]) ref with ⟨rest, rfl⟩ | ⟨rest, split, proper⟩ | apart
  · -- nothing was held below the fresh key
    have before : ¬ Holds db (place ++ [key] ++ rest) text := by
      rw [Holds, List.append_assoc, Database.value_append, List.singleton_append, get_cons,
        (lookup_eq_none_iff_not_mem_keys key _).mpr fresh, get_none]
      exact nofun
    rw [Holds, Database.push, Database.value, Database.set, get_append_set, data.leaf?_get_value]
    constructor
    · rintro ⟨name, rfl, stored⟩
      exact .inr ⟨name, rfl, stored⟩
    · rintro (held | ⟨name, same, stored⟩)
      · exact absurd held before
      · exact ⟨name, List.append_cancel_left same, stored⟩
  · -- the archive has nothing above a place
    have above : ref <+: place ++ [key] := ⟨rest, split.symm⟩
    rcases List.prefix_concat_iff.mp above with same | above
    · rw [same] at split
      exact absurd (List.append_cancel_left (split.symm.trans (List.append_nil _).symm)) proper
    · exact absurd above (archived.2 place listed)
  · rw [Holds, Database.push, db.value_set_of_apart apart]
    constructor
    · exact .inl
    · rintro (held | ⟨name, same, -⟩)
      · exact held
      · exact absurd same (apart.ne_below [name])

/-- The records of users are not in the archive. -/
theorem Archived.head?_ne {ref : DatabaseReference} (archived : Archived ref) :
    ref.head? ≠ some "UserInfo" := by
  rcases archived.1 with ⟨below, rfl⟩ | ⟨below, rfl⟩
  · rw [postsRef_eq]
    simp
  · rw [discussionsRef_eq]
    simp

theorem holds_of_userInfo {db : Database} {write : Write} (area : write.area = "UserInfo")
    {ref : DatabaseReference} (archived : Archived ref) (text : String) :
    Holds (write.apply db) ref text ↔ Holds db ref text ∨ Brings write ref text := by
  have outside := archived.head?_ne
  have kept : (write.apply db).value ref = db.value ref := by
    apply write.value_apply_of_apart
    intro touched member
    obtain ⟨below, rfl⟩ := write.touched_in_area member
    rw [area]
    cases ref with
    | nil => exact absurd List.nil_prefix (archived.2 postsRef (by simp [places]))
    | cons front ref => exact .inl fun same => outside (congrArg some same.symm)
  rw [Holds, kept]
  constructor
  · exact .inl
  · rintro (held | ⟨name, rfl, -⟩)
    · exact held
    · rw [List.head?_append, write.head?_target, area] at outside
      exact absurd rfl outside

/-- After a write under a fresh key the archive holds what it held and what the
write brought. -/
theorem holds_apply {db : Database} {write : Write} (fresh : write.Fresh db)
    {ref : DatabaseReference} (archived : Archived ref) (text : String) :
    Holds (write.apply db) ref text ↔ Holds db ref text ∨ Brings write ref text := by
  cases write with
  | photo => exact holds_push (by simp [places]) fresh _ archived text
  | discussion => exact holds_push (by simp [places]) fresh _ archived text
  | comment => exact holds_push (by simp [places]) fresh _ archived text
  | register => exact holds_of_userInfo rfl archived text
  | editProfile => exact holds_of_userInfo rfl archived text
  | changePhoto => exact holds_of_userInfo rfl archived text

/-! ## Every run -/

/-- The log has grown at its end, and its new writes account for the archive. -/
def Accounted (start world : World) : Prop :=
  ∃ added, world.log = start.log ++ added ∧ ∀ ref text, Archived ref →
    (Holds world.database ref text ↔
      Holds start.database ref text ∨ ∃ issued ∈ added, Brings issued.write ref text)

theorem accounted_refl (start : World) : Accounted start start := by
  refine ⟨[], (List.append_nil _).symm, ?_⟩
  intro ref text _
  simp

theorem Accounted.step {start world next : World} {action : WorldAction}
    (accounted : Accounted start world) (taken : World.step world action = some next) :
    Accounted start next := by
  obtain ⟨added, log, archive⟩ := accounted
  cases World.moves_of_step taken with
  | silent moved => exact ⟨added, log, archive⟩
  | @writes device write moved issues fresh =>
      refine ⟨added ++ [⟨action.device, write⟩], ?_, ?_⟩
      · rw [← List.append_assoc, ← log]
      · intro ref text archived
        refine (holds_apply fresh archived text).trans ?_
        rw [archive ref text archived]
        simp [or_assoc]

/-- In every run of all devices, the archive at the end holds exactly the texts
it held at the start and those of the records pushed in between: no text is
lost, changed or made up. -/
theorem archive_of_run {start final : World} {actions : List WorldAction}
    (executed : run World.step start actions = some final) :
    ∃ added, final.log = start.log ++ added ∧ ∀ ref text, Archived ref →
      (Holds final.database ref text ↔
        Holds start.database ref text ∨ ∃ issued ∈ added, Brings issued.write ref text) := by
  have accounted : Accounted start final :=
    invariant_of_run (fun _ _ _ accounted taken => accounted.step taken) (accounted_refl start)
      executed
  exact accounted

theorem archive_of_run_commentingTwice :
    ∃ final, run World.step (World.launch [firstUid, secondUid] commentedPost fun _ => none)
        commentingTwice = some final ∧
      Holds final.database (commentsRef ++ ["c0", "commentBody"]) "first" := by
  obtain ⟨final, executed⟩ := Option.isSome_iff_exists.mp (show (run World.step
    (World.launch [firstUid, secondUid] commentedPost fun _ => none) commentingTwice).isSome = true
      by decide +kernel)
  obtain ⟨added, -, archive⟩ := archive_of_run executed
  have archived : Archived (commentsRef ++ ["c0", "commentBody"]) := by decide
  exact ⟨final, executed, (archive _ "first" archived).mpr (.inl (by decide))⟩

end DyeIsLife.App
