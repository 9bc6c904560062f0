import DyeIsLife.Store.Tree

/-!
# The Realtime Database as the app uses it

The database is a tree of strings.  The app reaches it through
`FirebaseDatabase.instance.reference()`, chains of `child`, and the three
writes `set`, `update` and `push().set`.  Map literals may hold nulls; a
null-valued field is not stored.  `child` splits its argument at slashes and
drops empty components, so `child("")` denotes the same location as its parent,
and `child(null)` throws.
-/

namespace DyeIsLife.Firebase

open DyeIsLife.Store

/-- The path components of an argument of `child`. -/
def components (path : String) : List String :=
  ((path.toList.splitOn '/').filter fun part => part ≠ []).map String.ofList

/-- A Firebase account id.  It is a single path component, so in particular it
is not the empty string. -/
structure Uid where
  val : String
  isComponent : components val = [val]
  deriving DecidableEq

theorem Uid.ext_val {first second : Uid} (same : first.val = second.val) : first = second := by
  cases first
  cases second
  cases same
  rfl

/-- Two account ids for runs at fixed inputs. -/
def firstUid : Uid := ⟨"uid-1", by decide⟩

@[inherit_doc firstUid]
def secondUid : Uid := ⟨"uid-2", by decide⟩

/-- A location, as the list of its path components from the root. -/
abbrev DatabaseReference := List String

/-- `FirebaseDatabase.instance.reference()`. -/
def reference : DatabaseReference := []

namespace DatabaseReference

/-- `ref.child(path)`. -/
def child (ref : DatabaseReference) (path : String) : DatabaseReference :=
  ref ++ components path

/-- `ref.child(path)` for a nullable argument: null throws. -/
def child? (ref : DatabaseReference) (path : Option String) : Option DatabaseReference :=
  path.map ref.child

end DatabaseReference

@[simp]
theorem child_uid (ref : DatabaseReference) (uid : Uid) :
    DatabaseReference.child ref uid.val = ref ++ [uid.val] := by
  rw [DatabaseReference.child, uid.isComponent]

/-- A Dart map literal from field names to nullable strings. -/
structure MapLiteral where
  entries : List (String × Option String)
  distinct : (keys entries).Nodup := by simp [keys]

namespace MapLiteral

/-- The fields that are stored: those with a value. -/
def stored (data : MapLiteral) : List (String × Tree String String) :=
  data.entries.filterMap fun field => field.2.map fun text => (field.1, .leaf text)

/-- What `set(data)` stores. -/
def value (data : MapLiteral) : Value String String :=
  ofChildren data.stored

theorem stored_keys_sublist (data : MapLiteral) :
    (keys data.stored).Sublist (keys data.entries) := by
  have general : ∀ entries : List (String × Option String),
      (keys (entries.filterMap fun field => field.2.map fun text =>
        (field.1, (Tree.leaf text : Tree String String)))).Sublist (keys entries) := by
    intro entries
    induction entries with
    | nil => exact .slnil
    | cons field rest ih =>
        rcases field with ⟨name, _ | text⟩
        · exact ih.cons name
        · exact ih.cons_cons name
  exact general data.entries

theorem wellFormed_value (data : MapLiteral) : WellFormed data.value := by
  intro path
  cases path with
  | nil =>
      rw [get_nil, value, children_ofChildren]
      exact data.distinct.sublist data.stored_keys_sublist
  | cons key path =>
      -- below a field there is a leaf or nothing
      rw [get_cons, value, children_ofChildren]
      cases found : data.stored.lookup key with
      | none => simp
      | some tree =>
          obtain ⟨field, _, stored⟩ := List.mem_filterMap.mp (mem_of_lookup_eq_some found)
          obtain ⟨text, _, same⟩ := Option.map_eq_some_iff.mp stored
          cases same
          cases path <;> simp [children]

/-- The texts below a stored map are those of its fields. -/
theorem leaf?_get_value (data : MapLiteral) (path : List String) (text : String) :
    leaf? (get path data.value) = some text ↔
      ∃ name, path = [name] ∧ (name, some text) ∈ data.entries := by
  constructor
  · intro found
    cases path with
    | nil =>
        rw [get_nil, value, leaf?_ofChildren] at found
        contradiction
    | cons name path =>
        rw [get_cons, value, children_ofChildren] at found
        cases looked : data.stored.lookup name with
        | none =>
            rw [looked, get_none] at found
            contradiction
        | some tree =>
            obtain ⟨field, member, stored⟩ := List.mem_filterMap.mp (mem_of_lookup_eq_some looked)
            obtain ⟨other, named, same⟩ := Option.map_eq_some_iff.mp stored
            cases same
            rw [looked] at found
            cases path with
            | nil =>
                cases found
                rw [← named]
                exact ⟨field.1, rfl, member⟩
            | cons below path =>
                rw [get_cons] at found
                change leaf? (get path none) = some text at found
                rw [get_none] at found
                contradiction
  · rintro ⟨name, rfl, member⟩
    have stored : (name, Tree.leaf text) ∈ data.stored :=
      List.mem_filterMap.mpr ⟨(name, some text), member, rfl⟩
    rw [get_cons, value, children_ofChildren,
      lookup_eq_some_of_mem (data.distinct.sublist data.stored_keys_sublist) stored]
    rfl

end MapLiteral

/-- The database: a tree in which no location has two children of one key. -/
structure Database where
  root : Value String String
  wellFormed : WellFormed root

namespace Database

/-- The empty database. -/
def empty : Database :=
  ⟨none, wellFormed_none⟩

/-- The value a snapshot of `ref` carries: `ref.once()` then `snapshot.value`. -/
def value (db : Database) (ref : DatabaseReference) : Value String String :=
  get ref db.root

/-- `ref.set(data)`. -/
def set (db : Database) (ref : DatabaseReference) (data : MapLiteral) : Database :=
  ⟨Store.set ref data.value db.root, data.wellFormed_value.set db.wellFormed ref⟩

/-- The children `update(data)` replaces; a null removes its child. -/
def updates (data : MapLiteral) : List (String × Value String String) :=
  data.entries.map fun field => (field.1, field.2.map Tree.leaf)

/-- `ref.update(data)`. -/
def update (db : Database) (ref : DatabaseReference) (data : MapLiteral) : Database :=
  ⟨Store.update ref (updates data) db.root, db.wellFormed.update ref (by
    intro field member path
    obtain ⟨entry, _, rfl⟩ := List.mem_map.mp member
    rcases entry with ⟨name, _ | text⟩
    · simp
    · cases path <;> simp [children])⟩

/-- `ref.push().set(data)`, with the key that `push` generates. -/
def push (db : Database) (ref : DatabaseReference) (key : String) (data : MapLiteral) :
    Database :=
  db.set (ref ++ [key]) data

/-- Keys generated by `push` do not occur below the location pushed to. -/
def Fresh (db : Database) (ref : DatabaseReference) (key : String) : Prop :=
  key ∉ keys (children (db.value ref))

instance (db : Database) (ref : DatabaseReference) (key : String) :
    Decidable (db.Fresh ref key) :=
  inferInstanceAs (Decidable (key ∉ keys (children (db.value ref))))

theorem eq_of_root {first second : Database} (same : first.root = second.root) :
    first = second := by
  cases first
  cases second
  cases same
  rfl

theorem value_append (db : Database) (ref below : DatabaseReference) :
    db.value (ref ++ below) = get below (db.value ref) :=
  get_append ref below db.root

theorem value_set_self (db : Database) (ref : DatabaseReference) (data : MapLiteral) :
    (db.set ref data).value ref = data.value :=
  get_set_self ref data.value db.root

theorem value_set_of_apart (db : Database) {ref other : DatabaseReference}
    (apart : Apart ref other) (data : MapLiteral) :
    (db.set ref data).value other = db.value other :=
  get_set_of_apart apart data.value db.root

theorem value_update_of_apart (db : Database) {ref other : DatabaseReference}
    (data : MapLiteral)
    (apart : ∀ name ∈ keys data.entries, Apart (ref ++ [name]) other) :
    (db.update ref data).value other = db.value other := by
  apply get_update_of_apart
  intro field member
  obtain ⟨entry, entryMember, rfl⟩ := List.mem_map.mp member
  exact apart entry.1 (List.mem_map_of_mem entryMember)

theorem keys_updates (data : MapLiteral) : keys (updates data) = keys data.entries := by
  simp only [updates, keys, List.map_map]
  rfl

/-- After an update a field is the one written, or what it was. -/
theorem value_update_field (db : Database) (ref : DatabaseReference) (data : MapLiteral)
    (name : String) :
    (db.update ref data).value (ref ++ [name]) =
      ((updates data).lookup name).getD (db.value (ref ++ [name])) := by
  apply get_update
  rw [keys_updates]
  exact data.distinct

/-- Updates without nulls commute when their fields are apart and all present. -/
theorem update_comm (db : Database) {ref ref' : DatabaseReference} {data data' : MapLiteral}
    (apart : ∀ name ∈ keys data.entries, ∀ name' ∈ keys data'.entries,
      Apart (ref ++ [name]) (ref' ++ [name']))
    (full : ∀ field ∈ data.entries, field.2 ≠ none)
    (full' : ∀ field ∈ data'.entries, field.2 ≠ none)
    (present : ∀ name ∈ keys data.entries, db.value (ref ++ [name]) ≠ none)
    (present' : ∀ name ∈ keys data'.entries, db.value (ref' ++ [name]) ≠ none) :
    (db.update ref' data').update ref data = (db.update ref data).update ref' data' := by
  have named : ∀ (data : MapLiteral), ∀ field ∈ updates data,
      field.1 ∈ keys data.entries := by
    intro data field member
    rw [← keys_updates]
    exact mem_keys_of_mem member
  have valued : ∀ (data : MapLiteral), (∀ field ∈ data.entries, field.2 ≠ none) →
      ∀ field ∈ updates data, field.2 ≠ none := by
    intro data full field member
    rcases List.mem_map.mp member with ⟨entry, entryMember, rfl⟩
    simpa using full entry entryMember
  have roots : Store.update ref (updates data) (Store.update ref' (updates data') db.root) =
      Store.update ref' (updates data') (Store.update ref (updates data) db.root) := by
    apply Store.update_comm
    · exact fun field member field' member' =>
        apart field.1 (named data field member) field'.1 (named data' field' member')
    · exact valued data full
    · exact valued data' full'
    · exact fun field member => present field.1 (named data field member)
    · exact fun field member => present' field.1 (named data' field member)
  exact eq_of_root roots

/-- Pushing appends one entry below the location pushed to. -/
theorem children_value_push (db : Database) {ref : DatabaseReference} {key : String}
    {data : MapLiteral} {tree : Tree String String} (fresh : db.Fresh ref key)
    (stored : data.value = some tree) :
    children ((db.push ref key data).value ref) =
      children (db.value ref) ++ [(key, tree)] := by
  change children (get ref (Store.set (ref ++ [key]) data.value db.root)) = _
  rw [get_set_append, children_set_cons, set_nil, stored, alter]
  exact insert_of_not_mem tree fresh

/-- A written map keeps the texts checked exactly when its own texts pass. -/
theorem checked_set_iff {check : DatabaseReference → String → Prop} {db : Database}
    (checked : Checked check db.root) (ref : DatabaseReference) (data : MapLiteral) :
    Checked check (db.set ref data).root ↔
      ∀ name text, (name, some text) ∈ data.entries → check (ref ++ [name]) text := by
  rw [set, Store.checked_set_iff checked]
  constructor
  · intro written name text member
    exact written [name] text ((data.leaf?_get_value _ _).mpr ⟨name, rfl, member⟩)
  · intro passed path text found
    rcases (data.leaf?_get_value _ _).mp found with ⟨name, rfl, member⟩
    exact passed name text member

@[inherit_doc checked_set_iff]
theorem checked_update_iff {check : DatabaseReference → String → Prop} {db : Database}
    (checked : Checked check db.root) (ref : DatabaseReference) (data : MapLiteral) :
    Checked check (db.update ref data).root ↔
      ∀ name text, (name, some text) ∈ data.entries → check (ref ++ [name]) text := by
  have distinct : (keys (updates data)).Nodup := by
    rw [keys_updates]
    exact data.distinct
  rw [update, Store.checked_update_iff checked ref distinct]
  constructor
  · intro written name text member
    simpa using written (name, some (.leaf text)) (List.mem_map.mpr ⟨_, member, rfl⟩) [] text rfl
  · intro passed field member below text found
    rcases List.mem_map.mp member with ⟨⟨name, stored⟩, entryMember, rfl⟩
    cases stored with
    | none =>
        change leaf? (get below none) = some text at found
        rw [get_none] at found
        contradiction
    | some stored =>
        cases below with
        | nil =>
            cases found
            simpa using passed name _ entryMember
        | cons key below =>
            change leaf? (get below none) = some text at found
            rw [get_none] at found
            contradiction

end Database

end DyeIsLife.Firebase
