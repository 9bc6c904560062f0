import DyeIsLife.Records.Writes
import DyeIsLife.Sync.Repo
import DyeIsLife.Sync.Update

/-!
# What a client shows of the app's writes

The app's writes reach the server through the repository of the client: maps
become nodes or compound writes, which are pending until the connection reports
them.  Until then the client shows them over the data of the server.

Here the two levels meet.  Under the conditions of the repository, what a client
shows at a location is what the database would hold there if the writes that
were not reported had been applied to it, one after the other.
-/

namespace DyeIsLife.App

open DyeIsLife.Firebase
open DyeIsLife.Records
open DyeIsLife.Store
open DyeIsLife.Sync

/-! ## The database as contents -/

section Contents

variable {μ : Type}

/-- The texts of the database, by location. -/
def textsOf (value : Value String String) : Contents String (Json μ) :=
  fun path => (leaf? (get path value)).map Json.string

@[simp]
theorem textsOf_cons (value : Value String String) (key : String) (path : List String) :
    textsOf (μ := μ) value (key :: path) = textsOf ((children value).lookup key) path :=
  rfl

theorem textsOf_none (path : List String) : textsOf (μ := μ) none path = none := by
  rw [textsOf, get_none]
  rfl

theorem textsOf_below (value : Value String String) (path : List String) :
    (textsOf (μ := μ) value).below path = textsOf (get path value) := by
  funext rest
  rw [Contents.below_apply, textsOf, get_append]
  rfl

/-- A write of something is seen as a write of its texts. -/
theorem textsOf_set {new : Value String String} (occupied : ¬ (textsOf (μ := μ) new).Vacant)
    (path : List String) (old : Value String String) :
    textsOf (μ := μ) (Store.set path new old) = Contents.put path (textsOf new) (textsOf old) := by
  induction path generalizing old with
  | nil => rfl
  | cons key path ih =>
      funext query
      cases query with
      | nil =>
          rw [Contents.put_cons_nil, if_neg occupied, textsOf, get_nil, Store.set, leaf?_ofChildren]
          rfl
      | cons asked query =>
          rw [textsOf_cons, children_set_cons, lookup_alter]
          by_cases same : asked = key
          · subst same
            rw [if_pos rfl, Contents.put_cons_same, ih, textsOf_below]
            rfl
          · rw [if_neg same, Contents.put_cons_other same, textsOf_cons]

theorem textsOf_update {fields : List (String × Value String String)}
    (occupied : ∀ field ∈ fields, ¬ (textsOf (μ := μ) field.2).Vacant) (path : List String)
    (value : Value String String) :
    textsOf (μ := μ) (Store.update path fields value) =
      putAll (fields.map fun field => (path ++ [field.1], textsOf field.2)) (textsOf value) := by
  induction fields generalizing value with
  | nil => rfl
  | cons field fields ih =>
      rw [Store.update, List.foldl_cons]
      change textsOf (Store.update path fields _) = _
      rw [ih fun other member => occupied other (List.mem_cons_of_mem field member),
        textsOf_set (occupied field List.mem_cons_self)]
      rfl

end Contents

/-! ## Maps as nodes -/

section Maps

open Snapshot

variable {μ : Type}

/-- A nullable text, as the platform passes it on. -/
def nullable : Option String → Json μ
  | some text => .string text
  | none => .null

/-- The entries of a map. -/
def dictionaryOf (data : MapLiteral) : List (String × Json μ) :=
  data.entries.map fun field => (field.1, nullable field.2)

/-- A map whose keys can be stored. -/
structure Ordinary (data : MapLiteral) : Prop where
  valid : ∀ field ∈ data.entries, isValidKey field.1 = true
  ordered : (keys data.entries).Pairwise fun first second => compareKey first second ≠ .eq

/-- A map whose texts are not too long. -/
def Small (data : MapLiteral) : Prop :=
  ∀ field ∈ data.entries, ∀ text ∈ field.2, text.utf8ByteSize ≤ maxLeafSize

instance (data : MapLiteral) : Decidable (Small data) :=
  inferInstanceAs (Decidable (∀ field ∈ data.entries, ∀ text ∈ field.2,
    text.utf8ByteSize ≤ maxLeafSize))

/-- The node of a nullable text. -/
def fieldNode (text : Option String) : FNode (Json μ) :=
  text.map fun text => .leafNode (.string text) none

/-- The nodes of the fields that have a text. -/
def fieldNodes (entries : List (String × Option String)) : List (String × Filled (Json μ)) :=
  entries.filterMap fun field => field.2.map fun text => (field.1, .leafNode (.string text) none)

variable (isNaN : μ → Bool)

theorem internalNodeFrom_nullable {text : Option String}
    (small : ∀ present ∈ text, present.utf8ByteSize ≤ maxLeafSize) {depth : Nat}
    (shallow : depth ≤ maxObjectDepth) (fn : String) (path : List String) :
    internalNodeFrom isNaN fn depth path .null (nullable text) = .ok (fieldNode text) := by
  cases text with
  | none => exact internalNodeFrom_leaf shallow (show StorableLeaf isNaN .null from trivial) fn path
  | some text =>
      exact internalNodeFrom_leaf shallow
        (show StorableLeaf isNaN (.string text) from small text rfl) fn path

theorem entryNodes_nullable {entries : List (String × Option String)}
    (ordinary : ∀ field ∈ entries, isValidKey field.1 = true)
    (small : ∀ field ∈ entries, ∀ text ∈ field.2, text.utf8ByteSize ≤ maxLeafSize)
    (fn : String) (path : List String) :
    entryNodes isNaN fn 0 path (entries.map fun field => (field.1, nullable field.2)) =
      .ok (fieldNodes entries) := by
  induction entries with
  | nil => rfl
  | cons field entries ih =>
      have first := internalNodeFrom_nullable isNaN (small field List.mem_cons_self)
        (show 1 ≤ maxObjectDepth by decide) fn (path ++ [field.1])
      have rest := ih (fun other member => ordinary other (List.mem_cons_of_mem field member))
        (fun other member => small other (List.mem_cons_of_mem field member))
      rw [List.map_cons, entryNodes_cons (ordinary field List.mem_cons_self) first rest]
      rcases field with ⟨name, _ | text⟩ <;> rfl

theorem lookup_dictionaryOf {data : MapLiteral} (ordinary : Ordinary data) (key : String)
    (metadata : isValidKey key = false) : (dictionaryOf (μ := μ) data).lookup key = none := by
  rw [lookup_eq_none_iff_not_mem_keys]
  intro member
  obtain ⟨entry, listed, rfl⟩ := List.mem_map.mp member
  obtain ⟨field, stored, rfl⟩ := List.mem_map.mp listed
  rw [ordinary.valid field stored] at metadata
  contradiction

theorem keys_fieldNodes_sublist (entries : List (String × Option String)) :
    (keys (fieldNodes (μ := μ) entries)).Sublist (keys entries) := by
  induction entries with
  | nil => exact List.Sublist.refl _
  | cons field entries ih =>
      rcases field with ⟨name, _ | text⟩
      · exact ih.cons name
      · exact ih.cons_cons name

/-- The node of a map has the nodes of its fields as children. -/
theorem internalNodeFrom_dictionaryOf {data : MapLiteral} (ordinary : Ordinary data)
    (small : Small data) (fn : String) :
    internalNodeFrom isNaN fn 0 [] .null (.dictionary (dictionaryOf data)) =
      .ok (FNode.ofChildren none (fieldNodes data.entries)) := by
  have noPriority := lookup_dictionaryOf (μ := μ) ordinary priorityKey (by decide)
  have noValue := lookup_dictionaryOf (μ := μ) ordinary valueKey (by decide)
  have noServerValue := lookup_dictionaryOf (μ := μ) ordinary serverValueKey (by decide)
  have priority : payloadPriority isNaN fn [] .null (.dictionary (dictionaryOf data)) = .ok none := by
    rw [payloadPriority, priorityFrom_null]
    simp [entriesOf, noPriority, bind, Except.bind, pure, Except.pure]
  have leaf : payloadLeaf isNaN fn [] (.dictionary (dictionaryOf data)) = .ok none := by
    rw [payloadLeaf]
    simp [entriesOf, noValue, isValidLeafValue, noServerValue, bind, Except.bind, pure,
      Except.pure]
  have nodes : entryNodes isNaN fn 0 [] (dictionaryOf data) = .ok (fieldNodes data.entries) :=
    entryNodes_nullable isNaN ordinary.valid small fn []
  have built : childrenNode none (fieldNodes (μ := μ) data.entries) =
      .ok (FNode.ofChildren none (fieldNodes data.entries)) :=
    childrenNode_eq_ok_iff.mpr ⟨ordinary.ordered.sublist (keys_fieldNodes_sublist _), rfl⟩
  simp [internalNodeFrom, priority, leaf, nodes, built, bind, Except.bind]

theorem contents_fieldNode (text : Option String) :
    (fieldNode (μ := μ) text).contents = textsOf (text.map Tree.leaf) := by
  funext path
  cases path with
  | nil => cases text <;> rfl
  | cons key path =>
      rw [FNode.contents_cons, textsOf_cons]
      cases text <;> exact (FNode.contents_none path).trans (textsOf_none path).symm

theorem contents_lookup_fieldNodes (entries : List (String × Option String)) (key : String) :
    FNode.contents ((fieldNodes (μ := μ) entries).lookup key) =
      textsOf ((entries.filterMap fun field => field.2.map fun text =>
        (field.1, (Tree.leaf text : Tree String String))).lookup key) := by
  induction entries with
  | nil =>
      funext path
      exact (FNode.contents_none path).trans (textsOf_none path).symm
  | cons field entries ih =>
      rcases field with ⟨name, _ | text⟩
      · exact ih
      · change FNode.contents (((name, Filled.leafNode (Json.string text) none) ::
          fieldNodes entries).lookup key) = textsOf (((name, Tree.leaf text) :: _).lookup key)
        rw [lookup_cons_eq_ite, lookup_cons_eq_ite]
        split
        · exact contents_fieldNode (some text)
        · exact ih

/-- The texts of the node of a map are those the database stores for it. -/
theorem contents_ofChildren_fieldNodes (data : MapLiteral) :
    (FNode.ofChildren none (fieldNodes (μ := μ) data.entries)).contents = textsOf data.value := by
  funext path
  cases path with
  | nil =>
      rw [FNode.contents_ofChildren_nil, textsOf, get_nil, MapLiteral.value, leaf?_ofChildren]
      rfl
  | cons key path =>
      rw [FNode.contents_cons, FNode.children_ofChildren, contents_lookup_fieldNodes, textsOf_cons,
        MapLiteral.value, children_ofChildren]
      rfl

/-- The single writes of an update with a map. -/
def fieldWrites (entries : List (String × Option String)) : List (List String × FNode (Json μ)) :=
  entries.map fun field => ([field.1], fieldNode field.2)

theorem pathWithString_of_isValidKey {key : String} (valid : isValidKey key = true) :
    FPath.pathWithString key = [key] := by
  have piece : FPath.Piece key := by
    rw [isValidKey, Bool.and_eq_true, decide_eq_true_eq, List.all_eq_true] at valid
    constructor
    · intro nothing
      exact valid.1 (String.toList_eq_nil_iff.mp nothing)
    · intro slash
      exact absurd (valid.2 '/' slash) (by decide)
  have pieces : ∀ other ∈ [key], FPath.Piece other := by simpa using piece
  have printed := FPath.pathWithString_wireFormat pieces
  rw [FPath.wireFormat, List.map_nil] at printed
  simpa using printed

theorem updateWrites_dictionaryOf {entries : List (String × Option String)}
    (ordinary : ∀ field ∈ entries, isValidKey field.1 = true)
    (small : ∀ field ∈ entries, ∀ text ∈ field.2, text.utf8ByteSize ≤ maxLeafSize) (fn : String) :
    updateWrites isNaN fn (entries.map fun field => (field.1, nullable field.2)) =
      .ok (fieldWrites entries) := by
  induction entries with
  | nil => rfl
  | cons field entries ih =>
      have valid := ordinary field List.mem_cons_self
      have node := internalNodeFrom_nullable isNaN (small field List.mem_cons_self)
        (Nat.zero_le maxObjectDepth) fn []
      have rest := ih (fun other member => ordinary other (List.mem_cons_of_mem field member))
        (fun other member => small other (List.mem_cons_of_mem field member))
      have checked : validateUpdateKey isNaN fn (nullable field.2) [field.1] = .ok () := by
        rw [validateUpdateKey, if_neg (ne_of_isValidKey valid).1, if_pos valid]
      have first : updateWrite isNaN fn (field.1, nullable field.2) =
          .ok ([field.1], fieldNode field.2) := by
        rw [updateWrite, pathWithString_of_isValidKey valid, checked, node]
        rfl
      rw [List.map_cons, updateWrites, first, rest]
      rfl

theorem pairwise_apart_fieldWrites (data : MapLiteral) :
    (fieldWrites (μ := μ) data.entries).Pairwise fun first second => Apart first.1 second.1 := by
  apply List.pairwise_map.mpr
  have distinct := List.pairwise_map.mp data.distinct
  exact distinct.imp fun differ => .inl differ

/-- An update with a map is accepted as the writes of its fields. -/
theorem compoundWriteFromDictionary_dictionaryOf {data : MapLiteral} (ordinary : Ordinary data)
    (small : Small data) (fn : String) :
    compoundWriteFromDictionary isNaN fn (dictionaryOf data) =
      .ok (FCompoundWrite.addAll (fieldWrites data.entries) FCompoundWrite.emptyWrite) := by
  have writes : updateWrites isNaN fn (dictionaryOf data) = .ok (fieldWrites data.entries) :=
    updateWrites_dictionaryOf isNaN ordinary.valid small fn
  have checked : checkPaths fn (sortPaths ((fieldWrites (μ := μ) data.entries).map Prod.fst)) =
      .ok () :=
    checkPaths_of_apart (List.pairwise_map.mpr (pairwise_apart_fieldWrites data))
  rw [compoundWriteFromDictionary, writes]
  simp only [bind, Except.bind]
  rw [checked]
  rfl

end Maps

/-! ## What the app's writes write -/

section Requests

open FCompoundWrite FNode

variable {μ : Type}

/-- Every write of the app can be stored if its texts are not too long. -/
theorem ordinary_data (write : Write) : Ordinary write.data where
  valid := by
    cases write <;>
      simp only [Write.data, photoData, discussionData, commentData, registrationData,
        profileData, picData, List.forall_mem_cons, List.not_mem_nil, false_imp_iff,
        implies_true] <;>
      decide
  ordered := by
    cases write <;>
      simp only [Write.data, photoData, discussionData, commentData, registrationData,
        profileData, picData, keys_cons, keys_nil] <;>
      decide +kernel

/-- Every write of the app writes something. -/
theorem exists_text (write : Write) : ∃ name text, (name, some text) ∈ write.data.entries := by
  cases write with
  | photo _ _ url => exact ⟨"image", url, by simp [Write.data, photoData]⟩
  | discussion _ _ myTitle => exact ⟨"title", myTitle, by simp [Write.data, discussionData]⟩
  | comment _ _ myComment => exact ⟨"commentBody", myComment, by simp [Write.data, commentData]⟩
  | register _ username => exact ⟨"username", username, by simp [Write.data, registrationData]⟩
  | editProfile _ myUsername => exact ⟨"username", myUsername, by simp [Write.data, profileData]⟩
  | changePhoto _ url => exact ⟨"pic", url, by simp [Write.data, picData]⟩

/-- The updates of the app remove nothing. -/
theorem exists_text_of_merges {write : Write} (merges : write.merges = true)
    {field : String × Option String} (member : field ∈ write.data.entries) :
    ∃ text, field.2 = some text := by
  cases write with
  | editProfile =>
      simp only [Write.data, profileData, List.mem_cons, List.not_mem_nil, or_false] at member
      rcases member with rfl | rfl | rfl <;> exact ⟨_, rfl⟩
  | changePhoto =>
      simp only [Write.data, picData, List.mem_cons, List.not_mem_nil, or_false] at member
      rw [member]
      exact ⟨_, rfl⟩
  | photo => contradiction
  | discussion => contradiction
  | comment => contradiction
  | register => contradiction

theorem not_vacant_value (write : Write) : ¬ (textsOf (μ := μ) write.data.value).Vacant := by
  intro vacant
  obtain ⟨name, text, member⟩ := exists_text write
  have nothing := vacant [name]
  rw [textsOf, (write.data.leaf?_get_value [name] text).mpr ⟨name, rfl, member⟩] at nothing
  contradiction

/-- What a write puts where. -/
def puts (write : Write) : List (List String × Contents String (Json μ)) :=
  if write.merges then
    write.data.entries.map fun field => (write.target ++ [field.1], textsOf (field.2.map Tree.leaf))
  else [(write.target, textsOf write.data.value)]

/-- The database performs a write as its puts. -/
theorem textsOf_apply (db : Database) (write : Write) :
    textsOf (μ := μ) (write.apply db).root = putAll (puts write) (textsOf db.root) := by
  rw [Write.apply_eq, puts]
  by_cases merges : write.merges = true
  · rw [if_pos merges, if_pos merges]
    refine (textsOf_update ?_ write.target db.root).trans ?_
    · intro field member vacant
      obtain ⟨entry, listed, rfl⟩ := List.mem_map.mp member
      obtain ⟨text, present⟩ := exists_text_of_merges merges listed
      have nothing := vacant []
      rw [present] at nothing
      contradiction
    · rw [Database.updates, List.map_map]
      rfl
  · rw [if_neg merges, if_neg merges]
    exact textsOf_set (not_vacant_value write) write.target db.root

/-- The write that the repository is asked for. -/
def request (write : Write) : List String × UserWrite (Json μ) :=
  (write.target,
    if write.merges then .merge (addAll (fieldWrites write.data.entries) emptyWrite)
    else .overwrite (ofChildren none (fieldNodes write.data.entries)))

/-- The single writes of a request. -/
def elementsOf (write : Write) : List (List String × FNode (Json μ)) :=
  (FRepo.recordOf 0 (request write)).elements

theorem perm_elementsOf (write : Write) :
    ((elementsOf (μ := μ) write).map fun element => (element.1, element.2.contents)).Perm
      (puts write) := by
  rw [elementsOf, request, puts]
  by_cases merges : write.merges = true
  · rw [if_pos merges, if_pos merges]
    have listed := perm_enumerateWrites (pairwise_apart_fieldWrites (μ := μ) write.data)
    have renamed := listed.map fun child : List String × FNode (Json μ) =>
      (write.target ++ child.1, child.2.contents)
    rw [fieldWrites, List.map_map] at renamed
    simp only [FRepo.recordOf, FWriteRecord.elements, List.map_map]
    refine renamed.trans (List.Perm.of_eq ?_)
    apply List.map_congr_left
    intro field _
    exact Prod.ext rfl (contents_fieldNode field.2)
  · rw [if_neg merges, if_neg merges]
    refine List.Perm.of_eq ?_
    exact congrArg (fun texts => [(write.target, texts)]) (contents_ofChildren_fieldNodes write.data)

theorem pairwise_apart_puts (write : Write) :
    (puts (μ := μ) write).Pairwise fun first second => Apart first.1 second.1 := by
  rw [puts]
  split
  · apply List.pairwise_map.mpr
    have distinct := List.pairwise_map.mp write.data.distinct
    exact distinct.imp fun differ => apart_append_of_ne _ [] [] differ
  · exact List.pairwise_singleton _ _

/-- The keys of a write: those of its location and of its fields. -/
def writeKeys (write : Write) : List String :=
  write.target ++ keys write.data.entries

theorem everywhere_puts {write : Write} {put : List String × Contents String (Json μ)}
    (member : put ∈ puts write) :
    put.1 ⊆ writeKeys write ∧ put.2.Everywhere (· ⊆ writeKeys write) := by
  rw [puts] at member
  split at member
  · obtain ⟨field, listed, rfl⟩ := List.mem_map.mp member
    constructor
    · apply List.append_subset.mpr
      refine ⟨List.subset_append_left _ _, ?_⟩
      exact List.cons_subset.mpr
        ⟨List.mem_append_right _ (mem_keys_of_mem listed), List.nil_subset _⟩
    · -- a text has nothing below it
      intro path text found
      cases path with
      | nil => exact List.nil_subset _
      | cons key path =>
          change textsOf ((Store.children (field.2.map Tree.leaf)).lookup key) path = _ at found
          cases value : field.2 with
          | none =>
              rw [value] at found
              exact absurd ((textsOf_none path).symm.trans found) (by simp)
          | some leaf =>
              rw [value] at found
              exact absurd ((textsOf_none path).symm.trans found) (by simp)
  · rw [List.mem_singleton.mp member]
    refine ⟨List.subset_append_left _ _, ?_⟩
    intro path text found
    obtain ⟨held, found, -⟩ := Option.map_eq_some_iff.mp found
    obtain ⟨name, rfl, listed⟩ := (write.data.leaf?_get_value path held).mp found
    exact List.cons_subset.mpr
      ⟨List.mem_append_right _ (mem_keys_of_mem listed), List.nil_subset _⟩

/-- The keys of the single writes are those of the write. -/
theorem everywhere_elementsOf {write : Write} {element : List String × FNode (Json μ)}
    (member : element ∈ elementsOf write) :
    element.1 ⊆ writeKeys write ∧ element.2.contents.Everywhere (· ⊆ writeKeys write) :=
  everywhere_puts ((perm_elementsOf write).subset (List.mem_map_of_mem member))

theorem plain_elementsOf {write : Write} (plain : Plain write.target) :
    ∀ element ∈ elementsOf (μ := μ) write, Plain element.1 := by
  intro element member
  have listed := (perm_elementsOf write).subset (List.mem_map_of_mem member)
  rw [puts] at listed
  split at listed
  · obtain ⟨field, stored, same⟩ := List.mem_map.mp listed
    rw [← congrArg Prod.fst same, plain_append]
    refine ⟨plain, ?_⟩
    rw [plain_cons]
    exact ⟨(Snapshot.ne_of_isValidKey ((ordinary_data write).valid field stored)).1, List.not_mem_nil⟩
  · rw [congrArg Prod.fst (List.mem_singleton.mp listed)]
    exact plain

/-- No write of the app removes anything. -/
theorem ne_none_of_mem_elementsOf {write : Write} {element : List String × FNode (Json μ)}
    (member : element ∈ elementsOf write) : element.2 ≠ none := by
  rw [elementsOf, request] at member
  by_cases merges : write.merges = true
  · rw [if_pos merges] at member
    obtain ⟨child, listed, rfl⟩ := List.mem_map.mp member
    have written := (perm_enumerateWrites (pairwise_apart_fieldWrites write.data)).subset listed
    obtain ⟨field, stored, rfl⟩ := List.mem_map.mp written
    obtain ⟨text, present⟩ := exists_text_of_merges merges stored
    rw [present]
    exact Option.some_ne_none _
  · rw [if_neg merges] at member
    rw [List.mem_singleton.mp member]
    intro nothing
    apply not_vacant_value (μ := μ) write
    rw [← contents_ofChildren_fieldNodes write.data]
    exact (vacant_contents_iff _).mpr nothing

/-- A write is put as it is performed by the database. -/
theorem putAll_elementsOf (write : Write) (db : Database) :
    putAll ((elementsOf (μ := μ) write).map fun element => (element.1, element.2.contents))
        (textsOf db.root) =
      textsOf (write.apply db).root := by
  have apart := ((perm_elementsOf write).pairwise_iff fun aside => Apart.symm aside).mpr
    (pairwise_apart_puts (μ := μ) write)
  rw [putAll_of_perm (perm_elementsOf write) apart, textsOf_apply]

theorem putAll_flatMap_elementsOf (writes : List Write) (db : Database) :
    putAll ((writes.flatMap (elementsOf (μ := μ))).map fun element =>
        (element.1, element.2.contents)) (textsOf db.root) =
      textsOf (writes.foldl Write.apply db).root := by
  induction writes generalizing db with
  | nil => rfl
  | cons write writes ih =>
      rw [List.flatMap_cons, List.map_append, putAll_append, putAll_elementsOf, ih]
      rfl

/-- The keys of writes and of a base are among the names. -/
theorem named_flatMap_elementsOf {names : List String} {writes : List Write}
    (known : ∀ write ∈ writes, writeKeys write ⊆ names) {base : FNode (Json μ)}
    (within : base.contents.Everywhere (· ⊆ names)) :
    FWriteTree.Named names (writes.flatMap elementsOf) base where
  paths := by
    intro element member
    obtain ⟨write, listed, written⟩ := List.mem_flatMap.mp member
    exact List.Subset.trans (everywhere_elementsOf written).1 (known write listed)
  nodes := by
    intro element member
    obtain ⟨write, listed, written⟩ := List.mem_flatMap.mp member
    exact (everywhere_elementsOf written).2.imp fun _ subset =>
      List.Subset.trans subset (known write listed)
  base := within

/-- The writes of the app are not at priorities and remove nothing. -/
theorem effective_flatMap_elementsOf {writes : List Write}
    (plain : ∀ write ∈ writes, Plain write.target) (base : FNode (Json μ)) :
    FWriteTree.Effective (writes.flatMap elementsOf) base where
  plain := by
    intro element member
    obtain ⟨write, listed, written⟩ := List.mem_flatMap.mp member
    exact plain_elementsOf (plain write listed) element written
  clear := by
    intro element member
    obtain ⟨write, listed, written⟩ := List.mem_flatMap.mp member
    exact .inl (ne_none_of_mem_elementsOf written)

end Requests

/-! ## The client -/

section Client

open Snapshot FCompoundWrite FNode FPersistentConnection

variable {π μ : Type}

/-- `validateFrom:writablePath:`. -/
def validateWritablePath (fn : String) (path : List String) : Except FException Unit :=
  if path.head? = some ".info" then
    .error ⟨"WritablePathValidation", "(" ++ fn ++ ") failed to path " ++
      FPath.toStringWithTrailingSlash false path ++ ": Can't modify data under .info"⟩
  else .ok ()

/-- `setValueInternal:andPriority:withCompletionBlock:from:`, without a
priority. -/
def setValueInternal (isNaN : μ → Bool) (fn : String) (path : List String) (value : Json μ) :
    Except FException (FRepo.Action π (Json μ)) := do
  validateWritablePath fn path
  let newNode ← internalNodeFrom isNaN fn 0 [] .null value
  return .set path newNode

/-- `updateChildValuesInternal:withCompletionBlock:from:`. -/
def updateChildValuesInternal (isNaN : μ → Bool) (fn : String) (path : List String)
    (values : List (String × Json μ)) : Except FException (FRepo.Action π (Json μ)) := do
  validateWritablePath fn path
  let merge ← compoundWriteFromDictionary isNaN fn values
  return .update path merge

/-- The call of the repository that a write leads to. -/
def call (isNaN : μ → Bool) (fn : String) (write : Write) :
    Except FException (FRepo.Action π (Json μ)) :=
  if write.merges then
    updateChildValuesInternal isNaN fn write.target (dictionaryOf write.data)
  else setValueInternal isNaN fn write.target (.dictionary (dictionaryOf write.data))

/-- What happens to a client. -/
inductive ClientAction (π μ : Type) where
  | write (write : Write)
  | purgeOutstandingWrites
  | connection (action : FPersistentConnection.Action π (List String × UserWrite (Json μ)))

/-- One step of a client; `none` means that an exception was thrown or an
assertion failed. -/
def clientStep [DecidableEq π] (isNaN : μ → Bool) (fn : String) :
    Transition.Step (FRepo π (Json μ)) (ClientAction π μ) :=
  fun repo action =>
    match action with
    | .write write => (call isNaN fn write).toOption.bind (FRepo.step repo)
    | .purgeOutstandingWrites => FRepo.step repo .purgeOutstandingWrites
    | .connection action => FRepo.step repo (.connection action)

/-- The writes of a run. -/
def ClientAction.write? : ClientAction π μ → Option Write
  | .write made => some made
  | .purgeOutstandingWrites => none
  | .connection _ => none

/-- The call of the repository that an accepted write leads to. -/
def writeAction (write : Write) : FRepo.Action π (Json μ) :=
  if write.merges then
    .update write.target (addAll (fieldWrites write.data.entries) emptyWrite)
  else .set write.target (ofChildren none (fieldNodes write.data.entries))

/-- What an action in order does to the repository. -/
def repoAction : ClientAction π μ → FRepo.Action π (Json μ)
  | .write write => writeAction write
  | .purgeOutstandingWrites => .purgeOutstandingWrites
  | .connection action => .connection action

theorem validateWritablePath_target (fn : String) (write : Write) :
    validateWritablePath fn write.target = .ok () := by
  rw [validateWritablePath, write.head?_target, if_neg]
  cases write <;> simp [Write.area]

theorem call_eq_ok (isNaN : μ → Bool) (fn : String) {write : Write} (small : Small write.data) :
    call isNaN fn write = .ok (writeAction (π := π) write) := by
  have ordinary := ordinary_data write
  rw [call, writeAction, setValueInternal, updateChildValuesInternal, validateWritablePath_target,
    internalNodeFrom_dictionaryOf isNaN ordinary small,
    compoundWriteFromDictionary_dictionaryOf isNaN ordinary small]
  split <;> rfl

theorem write_writeAction (write : Write) :
    (writeAction (π := π) (μ := μ) write).write = some (request write) := by
  rw [writeAction, request]
  split
  · rename_i merges
    rw [FRepo.Action.write, if_neg]
    intro empty
    obtain ⟨name, text, member⟩ := exists_text write
    have listed : ([name], fieldNode (μ := μ) (some text)) ∈ fieldWrites write.data.entries :=
      List.mem_map.mpr ⟨_, member, rfl⟩
    have present := (valueAtPath_addAll_eq_some_iff (pairwise_apart_fieldWrites write.data) _ _).mpr
      listed
    rw [ImmutableTree.valueAtPath_of_isEmpty empty] at present
    contradiction
  · rfl

/-- The updates of the app name children only. -/
theorem namesChildren_repoAction (action : ClientAction π μ) :
    FRepo.NamesChildren (repoAction action) := by
  cases action with
  | write write =>
      rw [repoAction, writeAction]
      split
      · intro child member
        have written := (perm_enumerateWrites (pairwise_apart_fieldWrites write.data)).subset member
        obtain ⟨field, -, rfl⟩ := List.mem_map.mp written
        exact Nat.le_refl 1
      · trivial
  | purgeOutstandingWrites => trivial
  | connection action => trivial

/-- Actions whose texts are not too long are what they do to the repository. -/
theorem simulates [DecidableEq π] (isNaN : μ → Bool) (fn : String) (repo : FRepo π (Json μ))
    {action : ClientAction π μ} (small : ∀ write ∈ action.write?, Small write.data) :
    clientStep isNaN fn repo action = FRepo.step repo (repoAction action) := by
  cases action with
  | write write =>
      rw [clientStep, call_eq_ok isNaN fn (small write rfl)]
      rfl
  | purgeOutstandingWrites => rfl
  | connection action => rfl

theorem filterMap_write_repoAction (actions : List (ClientAction π μ)) :
    (actions.map repoAction).filterMap FRepo.Action.write =
      (actions.filterMap ClientAction.write?).map request := by
  induction actions with
  | nil => rfl
  | cons action actions ih =>
      rw [List.map_cons, List.filterMap_cons, List.filterMap_cons, ih]
      cases action with
      | write write => rw [repoAction, write_writeAction]; rfl
      | purgeOutstandingWrites => rfl
      | connection action => rfl

/-- The latest records are those of the latest writes. -/
theorem exists_writes_of_suffix {actions : List (ClientAction π μ)}
    {records : List (FWriteRecord (Json μ))}
    (suffix : records <:+ FRepo.records (actions.map repoAction)) :
    ∃ writes, writes <:+ actions.filterMap ClientAction.write? ∧ writes.length = records.length ∧
      records.flatMap FWriteRecord.elements = writes.flatMap elementsOf := by
  have requests : (FRepo.records (actions.map repoAction)).map FWriteRecord.elements =
      (actions.filterMap ClientAction.write?).map elementsOf := by
    rw [FRepo.records, filterMap_write_repoAction]
    apply List.ext_getElem
    · simp
    · intro index _ _
      simp [elementsOf, FWriteRecord.elements, FRepo.recordOf]
  obtain ⟨older, split⟩ := suffix
  rw [← split, List.map_append] at requests
  obtain ⟨before, writes, all, _, latest⟩ := List.map_eq_append_iff.mp requests.symm
  refine ⟨writes, ⟨before, all.symm⟩, ?_, ?_⟩
  · simpa using congrArg List.length latest
  · rw [List.flatMap_def, List.flatMap_def, latest]

/-- A user registers and edits the profile while the client is offline; the
client connects, and the server answers the first write. -/
def offlineProfile : List (ClientAction Unit Nat) := [
  .write (.register firstUid "dyer" "dyer@example.org"),
  .write (.editProfile "uid-1" "dyer" "Leiden" "dye young"),
  .connection (.resumeForReason "waiting_for_open"), .connection .retry,
  .connection (.fetchedToken 1 (some none)), .connection .onReady,
  .connection (.onDataMessage 1 "ok"), .connection (.onDataMessage 2 "ok")]

end Client

end DyeIsLife.App
