import Mathlib.Data.List.Nodup

/-!
# Tree-shaped key-value stores

A store is a tree whose inner nodes map keys to subtrees and whose leaves hold
values.  An absent location is `none`, and there are no empty nodes: removing
the last child of a node removes the node.  Locations are lists of keys.

Entries keep their position when they are overwritten and new entries go to the
end, so two writes to entries that are present already commute on the nose.
-/

namespace DyeIsLife.Store

universe u v

/-! ## Association lists -/

section Entries

variable {κ : Type u} {β : Type v} [DecidableEq κ]

/-- The keys of an association list, in order. -/
def keys (entries : List (κ × β)) : List κ :=
  entries.map Prod.fst

omit [DecidableEq κ] in
@[simp]
theorem keys_nil : keys ([] : List (κ × β)) = [] :=
  rfl

omit [DecidableEq κ] in
@[simp]
theorem keys_cons (entry : κ × β) (rest : List (κ × β)) :
    keys (entry :: rest) = entry.1 :: keys rest :=
  rfl

omit [DecidableEq κ] in
theorem mem_keys_of_mem {key : κ} {value : β} {entries : List (κ × β)}
    (member : (key, value) ∈ entries) : key ∈ keys entries :=
  List.mem_map_of_mem (f := Prod.fst) member

/-- Overwrite the entry of `key` in place, or append a new one. -/
def insert (key : κ) (value : β) (entries : List (κ × β)) : List (κ × β) :=
  if key ∈ keys entries then
    entries.map fun entry => if entry.1 = key then (key, value) else entry
  else
    entries ++ [(key, value)]

/-- Insert a present value, or drop the entry when the value is absent. -/
def alter (key : κ) : Option β → List (κ × β) → List (κ × β)
  | some value, entries => insert key value entries
  | none, entries => entries.filter fun entry => entry.1 ≠ key

/-- Looking a key up in a nonempty list, as a conditional on equality. -/
theorem lookup_cons_eq_ite (key asked : κ) (value : β) (rest : List (κ × β)) :
    ((key, value) :: rest).lookup asked =
      if asked = key then some value else rest.lookup asked := by
  rw [List.lookup_cons]
  by_cases same : asked = key
  · simp [same]
  · have miss : (asked == key) = false := by simp [same]
    simp [same, miss]

theorem lookup_eq_none_iff_not_mem_keys (key : κ) (entries : List (κ × β)) :
    entries.lookup key = none ↔ key ∉ keys entries := by
  induction entries with
  | nil => simp
  | cons entry rest ih =>
      rcases entry with ⟨first, value⟩
      rw [lookup_cons_eq_ite]
      by_cases same : key = first
      · simp [same]
      · simpa [same] using ih

theorem mem_keys_of_lookup_ne_none {key : κ} {entries : List (κ × β)}
    (present : entries.lookup key ≠ none) : key ∈ keys entries := by
  by_contra absent
  exact present ((lookup_eq_none_iff_not_mem_keys key entries).mpr absent)

/-- With distinct keys, looking an entry's key up finds that entry. -/
theorem lookup_eq_some_of_mem {key : κ} {value : β} {entries : List (κ × β)}
    (distinct : (keys entries).Nodup) (member : (key, value) ∈ entries) :
    entries.lookup key = some value := by
  induction entries with
  | nil => simp at member
  | cons entry rest ih =>
      rcases entry with ⟨first, old⟩
      rw [lookup_cons_eq_ite]
      rw [keys_cons, List.nodup_cons] at distinct
      rcases List.mem_cons.mp member with same | memberRest
      · cases same
        simp
      · have other : key ≠ first := by
          rintro rfl
          exact distinct.1 (mem_keys_of_mem memberRest)
        rw [if_neg other]
        exact ih distinct.2 memberRest

theorem mem_of_lookup_eq_some {key : κ} {value : β} {entries : List (κ × β)}
    (found : entries.lookup key = some value) : (key, value) ∈ entries := by
  induction entries with
  | nil => simp at found
  | cons entry rest ih =>
      rcases entry with ⟨first, old⟩
      rw [lookup_cons_eq_ite] at found
      by_cases same : key = first
      · rw [if_pos same] at found
        cases found
        exact List.mem_cons.mpr (.inl (by rw [same]))
      · rw [if_neg same] at found
        exact List.mem_cons_of_mem _ (ih found)

private theorem lookup_overwrite (key other : κ) (value : β) (entries : List (κ × β)) :
    (entries.map fun entry => if entry.1 = key then (key, value) else entry).lookup other =
      if other = key ∧ key ∈ keys entries then some value else entries.lookup other := by
  induction entries with
  | nil => simp
  | cons entry rest ih =>
      rcases entry with ⟨first, old⟩
      rw [List.map_cons]
      by_cases hit : first = key
      · rw [if_pos hit, lookup_cons_eq_ite, lookup_cons_eq_ite, ih]
        by_cases asked : other = key <;> simp [hit, asked]
      · rw [if_neg hit, lookup_cons_eq_ite, lookup_cons_eq_ite, ih]
        by_cases asked : other = key
        · subst other
          simp [Ne.symm hit]
        · simp [asked]

theorem lookup_insert (key other : κ) (value : β) (entries : List (κ × β)) :
    (insert key value entries).lookup other =
      if other = key then some value else entries.lookup other := by
  unfold insert
  by_cases present : key ∈ keys entries
  · rw [if_pos present, lookup_overwrite]
    simp [present]
  · rw [if_neg present, List.lookup_append, lookup_cons_eq_ite]
    by_cases asked : other = key
    · subst other
      rw [(lookup_eq_none_iff_not_mem_keys key entries).mpr present]
      simp
    · simp [asked]

private theorem lookup_drop (key other : κ) (entries : List (κ × β)) :
    (entries.filter fun entry => entry.1 ≠ key).lookup other =
      if other = key then none else entries.lookup other := by
  induction entries with
  | nil => simp
  | cons entry rest ih =>
      rcases entry with ⟨first, old⟩
      by_cases hit : first = key
      · rw [List.filter_cons_of_neg (by simp [hit]), ih, lookup_cons_eq_ite]
        by_cases asked : other = key <;> simp [hit, asked]
      · rw [List.filter_cons_of_pos (by simp [hit]), lookup_cons_eq_ite, ih,
          lookup_cons_eq_ite]
        by_cases asked : other = first <;> simp [asked, hit]

@[simp]
theorem lookup_alter (key other : κ) (value : Option β) (entries : List (κ × β)) :
    (alter key value entries).lookup other =
      if other = key then value else entries.lookup other := by
  cases value with
  | some value => exact lookup_insert key other value entries
  | none => exact lookup_drop key other entries

theorem keys_insert (key : κ) (value : β) (entries : List (κ × β)) :
    keys (insert key value entries) =
      if key ∈ keys entries then keys entries else keys entries ++ [key] := by
  unfold insert
  split
  · simp only [keys, List.map_map]
    apply List.map_congr_left
    intro entry _
    by_cases hit : entry.1 = key <;> simp [hit]
  · simp [keys]

/-- Overwriting, inserting and dropping keep the keys distinct. -/
theorem nodup_keys_alter (key : κ) (value : Option β) {entries : List (κ × β)}
    (distinct : (keys entries).Nodup) : (keys (alter key value entries)).Nodup := by
  cases value with
  | some value =>
      rw [alter, keys_insert]
      split
      · exact distinct
      · rename_i absent
        exact List.nodup_append.mpr ⟨distinct, List.nodup_singleton key, by
          intro first member second last equal
          rw [List.mem_singleton.mp last] at equal
          exact absent (equal ▸ member)⟩
  | none => exact distinct.sublist (List.filter_sublist.map Prod.fst)

theorem insert_of_not_mem {key : κ} {entries : List (κ × β)} (value : β)
    (absent : key ∉ keys entries) : insert key value entries = entries ++ [(key, value)] :=
  if_neg absent

/-- Overwriting an entry by one that looks the same changes nothing that is
looked at. -/
theorem map_insert_of_mem {γ : Type*} (view : β → γ) {key : κ} {value : β}
    {entries : List (κ × β)} (present : key ∈ keys entries)
    (same : ∀ entry ∈ entries, entry.1 = key → view value = view entry.2) :
    ((insert key value entries).map fun entry => view entry.2) =
      entries.map fun entry => view entry.2 := by
  rw [insert, if_pos present, List.map_map]
  apply List.map_congr_left
  intro entry member
  by_cases hit : entry.1 = key
  · simp [hit, same entry member hit]
  · simp [hit]

theorem insert_insert (key : κ) (old value : β) (entries : List (κ × β)) :
    insert key value (insert key old entries) = insert key value entries := by
  by_cases present : key ∈ keys entries
  · have again : key ∈ keys (insert key old entries) := by
      rw [keys_insert, if_pos present]
      exact present
    rw [insert, if_pos again, insert, if_pos present, insert, if_pos present, List.map_map]
    apply List.map_congr_left
    intro entry _
    by_cases hit : entry.1 = key <;> simp [hit]
  · rw [insert_of_not_mem old present, insert_of_not_mem value present]
    have again : key ∈ keys (entries ++ [(key, old)]) := by simp [keys]
    rw [insert, if_pos again, List.map_append]
    have untouched : entries.map (fun entry => if entry.1 = key then (key, value) else entry) =
        entries := by
      refine (List.map_congr_left fun entry member => ?_).trans (List.map_id entries)
      have differs : entry.1 ≠ key := by
        rintro rfl
        exact present (mem_keys_of_mem member)
      simp [differs]
    simp [untouched]

/-- Overwriting two different present entries commutes. -/
theorem insert_comm {first second : κ} (differ : first ≠ second) (x y : β)
    {entries : List (κ × β)} (firstPresent : first ∈ keys entries)
    (secondPresent : second ∈ keys entries) :
    insert first x (insert second y entries) = insert second y (insert first x entries) := by
  have firstStays : first ∈ keys (insert second y entries) := by
    rw [keys_insert, if_pos secondPresent]
    exact firstPresent
  have secondStays : second ∈ keys (insert first x entries) := by
    rw [keys_insert, if_pos firstPresent]
    exact secondPresent
  rw [insert, if_pos firstStays, insert, if_pos secondPresent, insert, if_pos secondStays,
    insert, if_pos firstPresent, List.map_map, List.map_map]
  apply List.map_congr_left
  intro entry _
  by_cases hitFirst : entry.1 = first
  · simp [hitFirst, differ]
  · by_cases hitSecond : entry.1 = second
    · simp [hitSecond, Ne.symm differ]
    · simp [hitFirst, hitSecond]

end Entries

/-! ## Trees and locations -/

/-- A tree with keys in `κ` and leaf values in `ν`. -/
inductive Tree (κ : Type u) (ν : Type v) where
  | leaf (value : ν)
  | node (children : List (κ × Tree κ ν))

/-- What a location holds: a tree, or nothing. -/
abbrev Value (κ : Type u) (ν : Type v) := Option (Tree κ ν)

variable {κ : Type u} {ν : Type v}

/-- The entries below a location; a leaf and an absent location have none. -/
def children : Value κ ν → List (κ × Tree κ ν)
  | some (.node entries) => entries
  | some (.leaf _) => []
  | none => []

/-- The text of a leaf. -/
def leaf? : Value κ ν → Option ν
  | some (.leaf value) => some value
  | some (.node _) => none
  | none => none

/-- A location with the given entries; with no entries it is absent. -/
def ofChildren : List (κ × Tree κ ν) → Value κ ν
  | [] => none
  | entry :: rest => some (.node (entry :: rest))

@[simp]
theorem children_ofChildren (entries : List (κ × Tree κ ν)) :
    children (ofChildren entries) = entries := by
  cases entries <;> rfl

@[simp]
theorem children_none : children (none : Value κ ν) = [] :=
  rfl

@[simp]
theorem children_node (entries : List (κ × Tree κ ν)) :
    children (some (.node entries)) = entries :=
  rfl

@[simp]
theorem leaf?_leaf (value : ν) : leaf? (some (.leaf value) : Value κ ν) = some value :=
  rfl

variable [DecidableEq κ]

/-- Read the value at a location. -/
def get : List κ → Value κ ν → Value κ ν
  | [], value => value
  | key :: path, value => get path ((children value).lookup key)

/-- Replace the value at a location, creating the nodes on the way to it. -/
def set : List κ → Value κ ν → Value κ ν → Value κ ν
  | [], new, _ => new
  | key :: path, new, old =>
      ofChildren (alter key (set path new ((children old).lookup key)) (children old))

/-- Replace several children of one location, leaving its other children. -/
def update (path : List κ) (fields : List (κ × Value κ ν)) (value : Value κ ν) : Value κ ν :=
  fields.foldl (fun current field => set (path ++ [field.1]) field.2 current) value

@[simp]
theorem get_nil (value : Value κ ν) : get [] value = value :=
  rfl

@[simp]
theorem get_cons (key : κ) (path : List κ) (value : Value κ ν) :
    get (key :: path) value = get path ((children value).lookup key) :=
  rfl

@[simp]
theorem set_nil (new old : Value κ ν) : set [] new old = new :=
  rfl

@[simp]
theorem children_set_cons (key : κ) (path : List κ) (new old : Value κ ν) :
    children (set (key :: path) new old) =
      alter key (set path new ((children old).lookup key)) (children old) := by
  simp [set]

@[simp]
theorem get_none (path : List κ) : get path (none : Value κ ν) = none := by
  induction path with
  | nil => rfl
  | cons key path ih => simpa using ih

theorem get_append (path below : List κ) (value : Value κ ν) :
    get (path ++ below) value = get below (get path value) := by
  induction path generalizing value with
  | nil => rfl
  | cons key path ih => simpa using ih _

/-- Reading at or below a written location reads the written value. -/
theorem get_append_set (path below : List κ) (new old : Value κ ν) :
    get (path ++ below) (set path new old) = get below new := by
  induction path generalizing old with
  | nil => rfl
  | cons key path ih => simp [ih]

@[simp]
theorem get_set_self (path : List κ) (new old : Value κ ν) :
    get path (set path new old) = new := by
  simpa using get_append_set path [] new old

/-- Reading at a prefix of a written location sees the write below it. -/
theorem get_set_append (path below : List κ) (new old : Value κ ν) :
    get path (set (path ++ below) new old) = set below new (get path old) := by
  induction path generalizing old with
  | nil => rfl
  | cons key path ih => simp [ih]

/-! ## Locations apart -/

/-- Two locations are apart when neither is at or below the other. -/
def Apart : List κ → List κ → Prop
  | first :: path, second :: path' => first ≠ second ∨ (first = second ∧ Apart path path')
  | [], _ => False
  | _ :: _, [] => False

instance decidableApart : (path path' : List κ) → Decidable (Apart path path')
  | first :: path, second :: path' =>
      have := decidableApart path path'
      inferInstanceAs (Decidable (first ≠ second ∨ (first = second ∧ Apart path path')))
  | [], _ => isFalse not_false
  | _ :: _, [] => isFalse not_false

omit [DecidableEq κ] in
theorem Apart.symm {path path' : List κ} (apart : Apart path path') : Apart path' path := by
  induction path generalizing path' with
  | nil => exact apart.elim
  | cons first path ih =>
      cases path' with
      | nil => exact apart.elim
      | cons second path' =>
          rcases apart with differ | ⟨same, apart⟩
          · exact .inl (Ne.symm differ)
          · exact .inr ⟨same.symm, ih apart⟩

omit [DecidableEq κ] in
theorem Apart.append_left {path path' : List κ} (apart : Apart path path') (below : List κ) :
    Apart (path ++ below) path' := by
  induction path generalizing path' with
  | nil => exact apart.elim
  | cons first path ih =>
      cases path' with
      | nil => exact apart.elim
      | cons second path' =>
          rcases apart with differ | ⟨same, apart⟩
          · exact .inl differ
          · exact .inr ⟨same, ih apart⟩

omit [DecidableEq κ] in
theorem apart_append_of_ne (path below below' : List κ) {first second : κ}
    (differ : first ≠ second) :
    Apart (path ++ first :: below) (path ++ second :: below') := by
  induction path with
  | nil => exact .inl differ
  | cons key path ih => exact .inr ⟨rfl, ih⟩

/-- A write leaves every location apart from it alone. -/
theorem get_set_of_apart {path path' : List κ} (apart : Apart path path')
    (new old : Value κ ν) : get path' (set path new old) = get path' old := by
  induction path generalizing path' old with
  | nil => exact apart.elim
  | cons first path ih =>
      cases path' with
      | nil => exact apart.elim
      | cons second path' =>
          rcases apart with differ | ⟨same, apart⟩
          · simp [Ne.symm differ]
          · subst second
            simp [ih apart]

/-- An update leaves every location apart from all its fields alone. -/
theorem get_update_of_apart {path path' : List κ} {fields : List (κ × Value κ ν)}
    (apart : ∀ field ∈ fields, Apart (path ++ [field.1]) path') (value : Value κ ν) :
    get path' (update path fields value) = get path' value := by
  induction fields generalizing value with
  | nil => rfl
  | cons field rest ih =>
      rw [update, List.foldl_cons]
      change get path' (update path rest _) = _
      rw [ih fun other member => apart other (List.mem_cons_of_mem field member),
        get_set_of_apart (apart field List.mem_cons_self)]

theorem set_ne_none (path : List κ) {new : Value κ ν} (present : new ≠ none)
    (old : Value κ ν) : set path new old ≠ none := by
  induction path generalizing old with
  | nil => exact present
  | cons key path ih =>
      obtain ⟨tree, written⟩ := Option.ne_none_iff_exists'.mp (ih ((children old).lookup key))
      rw [set, written, alter, insert]
      split
      · rename_i member
        cases entries : children old with
        | nil => simp [entries, keys] at member
        | cons entry rest => simp [ofChildren]
      · cases children old <;> simp [ofChildren]

/-- Above a written value there is a node. -/
theorem set_cons_eq_node (key : κ) (path : List κ) {new : Value κ ν} (present : new ≠ none)
    (old : Value κ ν) : ∃ entries, set (key :: path) new old = some (.node entries) := by
  cases written : set (key :: path) new old with
  | none => exact absurd written (set_ne_none (key :: path) present old)
  | some tree =>
      cases tree with
      | leaf value =>
          rw [set] at written
          cases entries : alter key (set path new ((children old).lookup key)) (children old) with
          | nil => simp [entries, ofChildren] at written
          | cons entry rest => simp [entries, ofChildren] at written
      | node entries => exact ⟨entries, rfl⟩

/-- Writes of present values to present locations apart commute. -/
theorem set_comm {path path' : List κ} (apart : Apart path path')
    {x y value : Value κ ν} (xPresent : x ≠ none) (yPresent : y ≠ none)
    (present : get path value ≠ none) (present' : get path' value ≠ none) :
    set path x (set path' y value) = set path' y (set path x value) := by
  induction path generalizing path' value with
  | nil => exact apart.elim
  | cons first path ih =>
      cases path' with
      | nil => exact apart.elim
      | cons second path' =>
          rw [get_cons] at present present'
          obtain ⟨treeX, writtenX⟩ := Option.ne_none_iff_exists'.mp
            (set_ne_none path xPresent ((children value).lookup first))
          obtain ⟨treeY, writtenY⟩ := Option.ne_none_iff_exists'.mp
            (set_ne_none path' yPresent ((children value).lookup second))
          rcases apart with differ | ⟨same, apart⟩
          · have firstMember : first ∈ keys (children value) :=
              mem_keys_of_lookup_ne_none fun absent => present (by rw [absent, get_none])
            have secondMember : second ∈ keys (children value) :=
              mem_keys_of_lookup_ne_none fun absent => present' (by rw [absent, get_none])
            rw [set, children_set_cons, lookup_alter, if_neg differ, set, children_set_cons,
              lookup_alter, if_neg (Ne.symm differ), writtenX, writtenY]
            exact congrArg ofChildren (insert_comm differ treeX treeY firstMember secondMember)
          · subst second
            have swapped := ih apart present present'
            obtain ⟨tree, written⟩ := Option.ne_none_iff_exists'.mp
              (set_ne_none path xPresent (set path' y ((children value).lookup first)))
            rw [set, children_set_cons, lookup_alter, if_pos rfl, set, children_set_cons,
              lookup_alter, if_pos rfl, ← swapped, written, writtenX, writtenY]
            simp only [alter, insert_insert]

/-- After an update a field is the one written, or what it was. -/
theorem get_update (path : List κ) (key : κ) {fields : List (κ × Value κ ν)}
    (distinct : (keys fields).Nodup) (value : Value κ ν) :
    get (path ++ [key]) (update path fields value) =
      (fields.lookup key).getD (get (path ++ [key]) value) := by
  induction fields generalizing value with
  | nil => rfl
  | cons field rest ih =>
      rcases field with ⟨first, new⟩
      rw [keys_cons, List.nodup_cons] at distinct
      rw [update, List.foldl_cons]
      change get (path ++ [key]) (update path rest (set (path ++ [first]) new value)) = _
      rw [ih distinct.2, lookup_cons_eq_ite]
      by_cases same : key = first
      · subst first
        rw [(lookup_eq_none_iff_not_mem_keys key rest).mpr distinct.1, if_pos rfl, get_set_self]
        rfl
      · rw [if_neg same, get_set_of_apart (apart_append_of_ne path [] [] (Ne.symm same))]

/-- Writing a present value to a location keeps the children of another one
present. -/
theorem get_set_ne_none {path : List κ} {first second : κ} {new value : Value κ ν}
    (newPresent : new ≠ none) (present : get (path ++ [second]) value ≠ none) :
    get (path ++ [second]) (set (path ++ [first]) new value) ≠ none := by
  by_cases same : first = second
  · subst second
    rw [get_set_self]
    exact newPresent
  · rw [get_set_of_apart (apart_append_of_ne path [] [] same)]
    exact present

/-- A write commutes with an update of locations apart from it, all of them
present. -/
theorem set_update_comm {path path' : List κ} {x : Value κ ν}
    {fields : List (κ × Value κ ν)} {value : Value κ ν}
    (apart : ∀ field ∈ fields, Apart path (path' ++ [field.1])) (xPresent : x ≠ none)
    (fieldsPresent : ∀ field ∈ fields, field.2 ≠ none) (present : get path value ≠ none)
    (present' : ∀ field ∈ fields, get (path' ++ [field.1]) value ≠ none) :
    set path x (update path' fields value) = update path' fields (set path x value) := by
  induction fields generalizing value with
  | nil => rfl
  | cons field rest ih =>
      have first := List.mem_cons_self (a := field) (l := rest)
      have later : ∀ other ∈ rest, other ∈ field :: rest := fun other member =>
        List.mem_cons_of_mem field member
      rw [update, update, List.foldl_cons, List.foldl_cons]
      change set path x (update path' rest _) = update path' rest _
      rw [ih (fun other member => apart other (later other member))
        (fun other member => fieldsPresent other (later other member))]
      · rw [set_comm (apart field first) xPresent (fieldsPresent field first) present
          (present' field first)]
      · rw [get_set_of_apart (apart field first).symm]
        exact present
      · intro other member
        exact get_set_ne_none (fieldsPresent field first) (present' other (later other member))

/-- Updates of locations apart, all of them present, commute. -/
theorem update_comm {path path' : List κ} {fields fields' : List (κ × Value κ ν)}
    {value : Value κ ν}
    (apart : ∀ field ∈ fields, ∀ field' ∈ fields',
      Apart (path ++ [field.1]) (path' ++ [field'.1]))
    (fieldsPresent : ∀ field ∈ fields, field.2 ≠ none)
    (fieldsPresent' : ∀ field ∈ fields', field.2 ≠ none)
    (present : ∀ field ∈ fields, get (path ++ [field.1]) value ≠ none)
    (present' : ∀ field ∈ fields', get (path' ++ [field.1]) value ≠ none) :
    update path fields (update path' fields' value) =
      update path' fields' (update path fields value) := by
  induction fields generalizing value with
  | nil => rfl
  | cons field rest ih =>
      have first := List.mem_cons_self (a := field) (l := rest)
      have later : ∀ other ∈ rest, other ∈ field :: rest := fun other member =>
        List.mem_cons_of_mem field member
      rw [update, List.foldl_cons]
      change update path rest (set _ _ (update path' fields' value)) =
        update path' fields' (update path rest _)
      rw [set_update_comm (apart field first) (fieldsPresent field first) fieldsPresent'
        (present field first) present']
      apply ih
      · exact fun other member => apart other (later other member)
      · exact fun other member => fieldsPresent other (later other member)
      · exact fun other member =>
          get_set_ne_none (fieldsPresent field first) (present other (later other member))
      · intro other member
        rw [get_set_of_apart (apart field first other member)]
        exact present' other member

/-! ## Well-formed stores -/

/-- At every location the children have distinct keys. -/
def WellFormed (value : Value κ ν) : Prop :=
  ∀ path, (keys (children (get path value))).Nodup

theorem wellFormed_none : WellFormed (none : Value κ ν) := by
  intro path
  simp [keys]

theorem WellFormed.get {value : Value κ ν} (wellFormed : WellFormed value)
    (path : List κ) : WellFormed (get path value) := by
  intro below
  rw [← get_append]
  exact wellFormed (path ++ below)

theorem WellFormed.set {new old : Value κ ν} (newWellFormed : WellFormed new)
    (oldWellFormed : WellFormed old) (path : List κ) : WellFormed (set path new old) := by
  induction path generalizing old with
  | nil => exact newWellFormed
  | cons key path ih =>
      intro query
      cases query with
      | nil =>
          rw [get_nil, children_set_cons]
          exact nodup_keys_alter key _ (oldWellFormed [])
      | cons asked query =>
          rw [get_cons, children_set_cons, lookup_alter]
          split
          · exact ih (oldWellFormed.get [key]) query
          · exact oldWellFormed (asked :: query)

theorem WellFormed.update {value : Value κ ν} (wellFormed : WellFormed value)
    (path : List κ) {fields : List (κ × Value κ ν)}
    (fieldsWellFormed : ∀ field ∈ fields, WellFormed field.2) :
    WellFormed (update path fields value) := by
  induction fields generalizing value with
  | nil => exact wellFormed
  | cons field rest ih =>
      exact ih ((fieldsWellFormed field List.mem_cons_self).set wellFormed _)
        fun other member => fieldsWellFormed other (List.mem_cons_of_mem field member)

/-! ## Checked texts -/

/-- Every text of a store passes the check of its location. -/
def Checked (check : List κ → ν → Prop) (value : Value κ ν) : Prop :=
  ∀ path text, leaf? (get path value) = some text → check path text

section Checked

variable {check : List κ → ν → Prop} {old new : Value κ ν}

theorem checked_none : Checked check (none : Value κ ν) := by
  intro path text found
  rw [get_none] at found
  contradiction

omit [DecidableEq κ] in
theorem leaf?_ofChildren (entries : List (κ × Tree κ ν)) : leaf? (ofChildren entries) = none := by
  cases entries <;> rfl

/-- A write keeps the texts checked when the written ones are. -/
theorem Checked.set (checked : Checked check old) {path : List κ}
    (written : Checked (fun below => check (path ++ below)) new) :
    Checked check (set path new old) := by
  induction path generalizing check old with
  | nil => exact written
  | cons key path ih =>
      intro query text found
      cases query with
      | nil =>
          rw [get_nil, Store.set, leaf?_ofChildren] at found
          contradiction
      | cons asked query =>
          rw [get_cons, children_set_cons, lookup_alter] at found
          split at found
          · rename_i same
            subst same
            exact ih (fun below => checked (asked :: below)) written query text found
          · exact checked (asked :: query) text found

theorem checked_set_iff (checked : Checked check old) (path : List κ) :
    Checked check (set path new old) ↔ Checked (fun below => check (path ++ below)) new := by
  constructor
  · intro after below text found
    apply after
    rw [get_append_set]
    exact found
  · exact checked.set

theorem Checked.update (checked : Checked check old) {path : List κ}
    {fields : List (κ × Value κ ν)}
    (written : ∀ field ∈ fields, Checked (fun below => check (path ++ [field.1] ++ below)) field.2) :
    Checked check (update path fields old) := by
  induction fields generalizing old with
  | nil => exact checked
  | cons field rest ih =>
      exact ih (checked.set (written field List.mem_cons_self))
        fun other member => written other (List.mem_cons_of_mem field member)

theorem checked_update_iff (checked : Checked check old) (path : List κ)
    {fields : List (κ × Value κ ν)} (distinct : (keys fields).Nodup) :
    Checked check (update path fields old) ↔
      ∀ field ∈ fields, Checked (fun below => check (path ++ [field.1] ++ below)) field.2 := by
  constructor
  · rintro after ⟨key, value⟩ member below text found
    apply after
    rw [get_append, get_update path key distinct, lookup_eq_some_of_mem distinct member]
    exact found
  · exact checked.update

end Checked

end DyeIsLife.Store
