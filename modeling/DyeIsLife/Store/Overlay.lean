import DyeIsLife.Store.Tree
import Mathlib.Data.List.Induction
import Mathlib.Data.List.Pairwise

/-!
# Writes laid over a store

The contents of a tree-shaped store are the texts at its locations, as a
function of the location.  Writing new contents at a location replaces what
lies at or below it; a write of something also removes a text above it, because
a location with entries below it holds no text.  A write of nothing leaves the
texts above it alone.

A family of writes assigns contents to some locations, no two of them one above
the other.  `Overlays` says what such a family makes of a base, and
`Overlays.put` is the law that the whole development rests on: one more write
over an overlaid base is the overlay of the family that absorbed the write.
-/

namespace DyeIsLife.Store

universe u v

variable {κ : Type u} {ν : Type v}

/-- The text at each location. -/
abbrev Contents (κ : Type u) (ν : Type v) := List κ → Option ν

namespace Contents

/-- No location holds a text. -/
def Vacant (contents : Contents κ ν) : Prop :=
  ∀ path, contents path = none

/-- The contents at and below a location. -/
def below (path : List κ) (contents : Contents κ ν) : Contents κ ν :=
  fun rest => contents (path ++ rest)

@[simp]
theorem below_apply (path rest : List κ) (contents : Contents κ ν) :
    contents.below path rest = contents (path ++ rest) :=
  rfl

@[simp]
theorem below_nil (contents : Contents κ ν) : contents.below [] = contents :=
  rfl

theorem below_append (path rest : List κ) (contents : Contents κ ν) :
    contents.below (path ++ rest) = (contents.below path).below rest := by
  funext query
  simp

open Classical in
/-- Write new contents at a location. -/
noncomputable def put : List κ → Contents κ ν → Contents κ ν → Contents κ ν
  | [], new, _ => new
  | key :: path, new, old => fun query =>
      match query with
      | [] => if new.Vacant then old [] else none
      | asked :: query =>
          if asked = key then put path new (old.below [key]) query else old (asked :: query)

@[simp]
theorem put_nil (new old : Contents κ ν) : put [] new old = new :=
  rfl

open Classical in
theorem put_cons_nil (key : κ) (path : List κ) (new old : Contents κ ν) :
    put (key :: path) new old [] = if new.Vacant then old [] else none :=
  rfl

theorem put_cons_same (key : κ) (path query : List κ) (new old : Contents κ ν) :
    put (key :: path) new old (key :: query) = put path new (old.below [key]) query :=
  if_pos rfl

theorem put_cons_other {key asked : κ} (differ : asked ≠ key) (path query : List κ)
    (new old : Contents κ ν) :
    put (key :: path) new old (asked :: query) = old (asked :: query) :=
  if_neg differ

/-- At and below a written location stands what was written. -/
theorem put_append (path query : List κ) (new old : Contents κ ν) :
    put path new old (path ++ query) = new query := by
  induction path generalizing old with
  | nil => rfl
  | cons key path ih => rw [List.cons_append, put_cons_same, ih]

/-- Above a written location a text stays exactly when nothing was written. -/
theorem put_above_of_vacant {new : Contents κ ν} (vacant : new.Vacant) (path : List κ)
    {rest : List κ} (proper : rest ≠ []) (old : Contents κ ν) :
    put (path ++ rest) new old path = old path := by
  induction path generalizing old with
  | nil =>
      cases rest with
      | nil => contradiction
      | cons key rest => rw [List.nil_append, put_cons_nil, if_pos vacant]
  | cons key path ih => rw [List.cons_append, put_cons_same, ih, below_apply, List.singleton_append]

@[inherit_doc put_above_of_vacant]
theorem put_above_of_not_vacant {new : Contents κ ν} (occupied : ¬ new.Vacant) (path : List κ)
    {rest : List κ} (proper : rest ≠ []) (old : Contents κ ν) :
    put (path ++ rest) new old path = none := by
  induction path generalizing old with
  | nil =>
      cases rest with
      | nil => contradiction
      | cons key rest => rw [List.nil_append, put_cons_nil, if_neg occupied]
  | cons key path ih => rw [List.cons_append, put_cons_same, ih]

/-- A write leaves the locations apart from it alone. -/
theorem put_of_apart {path query : List κ} (apart : Apart path query) (new old : Contents κ ν) :
    put path new old query = old query := by
  induction path generalizing query old with
  | nil => exact apart.elim
  | cons key path ih =>
      cases query with
      | nil => exact apart.elim
      | cons asked query =>
          rcases apart with differ | ⟨same, apart⟩
          · exact put_cons_other (Ne.symm differ) path query new old
          · subst asked
            rw [put_cons_same, ih apart, below_apply, List.singleton_append]

/-- Reading at a location above the written one sees the write below it. -/
theorem below_put_append (path rest : List κ) (new old : Contents κ ν) :
    (put (path ++ rest) new old).below path = put rest new (old.below path) := by
  induction path generalizing old with
  | nil => rfl
  | cons key path ih =>
      funext query
      have inner := congrFun (ih (old.below [key])) query
      rw [← below_append, List.singleton_append] at inner
      rw [← inner, below_apply, List.cons_append, List.cons_append, put_cons_same, below_apply]

/-- A write below another key is not seen below this one. -/
theorem below_put_cons_other {key asked : κ} (differ : asked ≠ key) (path : List κ)
    (new old : Contents κ ν) : (put (key :: path) new old).below [asked] = old.below [asked] := by
  funext query
  exact put_cons_other differ path query new old

/-- A write below a key is seen below that key. -/
theorem below_put_cons_same (key : κ) (path : List κ) (new old : Contents κ ν) :
    (put (key :: path) new old).below [key] = put path new (old.below [key]) := by
  funext query
  exact put_cons_same key path query new old

/-- Writes that lie apart can change places. -/
theorem put_comm {path other : List κ} (apart : Apart path other) (new new' old : Contents κ ν) :
    put path new (put other new' old) = put other new' (put path new old) := by
  induction path generalizing other old with
  | nil => exact apart.elim
  | cons key path ih =>
      cases other with
      | nil => exact apart.elim
      | cons key' other =>
          funext query
          cases query with
          | nil =>
              rw [put_cons_nil, put_cons_nil, put_cons_nil, put_cons_nil]
              split <;> split <;> rfl
          | cons asked query =>
              by_cases same : asked = key
              · subst key
                by_cases same' : asked = key'
                · subst key'
                  rcases apart with differ | ⟨_, apart⟩
                  · contradiction
                  · rw [put_cons_same, put_cons_same, below_put_cons_same, below_put_cons_same,
                      ih apart]
                · rw [put_cons_same, put_cons_other same', put_cons_same,
                    below_put_cons_other same']
              · by_cases same' : asked = key'
                · subst key'
                  rw [put_cons_other same, put_cons_same, put_cons_same, below_put_cons_other same]
                · rw [put_cons_other same, put_cons_other same', put_cons_other same',
                    put_cons_other same]

/-- Writing nothing over nothing leaves nothing. -/
theorem Vacant.put {new old : Contents κ ν} (newVacant : new.Vacant) (oldVacant : old.Vacant)
    (path : List κ) : (put path new old).Vacant := by
  induction path generalizing old with
  | nil => exact newVacant
  | cons key path ih =>
      intro query
      cases query with
      | nil => rw [put_cons_nil, if_pos newVacant, oldVacant]
      | cons asked query =>
          by_cases same : asked = key
          · subst asked
            rw [put_cons_same]
            exact ih (fun rest => oldVacant (_ :: rest)) query
          · rw [put_cons_other same, oldVacant]

/-- Something that was written is there. -/
theorem not_vacant_put {new : Contents κ ν} (occupied : ¬ new.Vacant) (path : List κ)
    (old : Contents κ ν) : ¬ (Contents.put path new old).Vacant := by
  intro vacant
  apply occupied
  intro query
  rw [← put_append path query new old]
  exact vacant (path ++ query)

/-- All locations that hold a text satisfy a property. -/
def Everywhere (property : List κ → Prop) (contents : Contents κ ν) : Prop :=
  ∀ path text, contents path = some text → property path

theorem Vacant.everywhere {contents : Contents κ ν} (vacant : contents.Vacant)
    (property : List κ → Prop) : contents.Everywhere property := by
  intro path text found
  rw [vacant path] at found
  contradiction

theorem Everywhere.imp {property weaker : List κ → Prop} {contents : Contents κ ν}
    (everywhere : contents.Everywhere property) (implied : ∀ path, property path → weaker path) :
    contents.Everywhere weaker :=
  fun path text found => implied path (everywhere path text found)

theorem Everywhere.below {property : List κ → Prop} {contents : Contents κ ν}
    (everywhere : contents.Everywhere property) (path : List κ) :
    (contents.below path).Everywhere fun rest => property (path ++ rest) :=
  fun rest text found => everywhere (path ++ rest) text found

/-- A text after a write was written, or it was there before. -/
theorem Everywhere.put {property : List κ → Prop} {path : List κ} {new old : Contents κ ν}
    (written : new.Everywhere fun rest => property (path ++ rest))
    (everywhere : old.Everywhere property) : (put path new old).Everywhere property := by
  induction path generalizing old property with
  | nil => exact written
  | cons key path ih =>
      intro query text found
      cases query with
      | nil =>
          rw [put_cons_nil] at found
          split at found
          · exact everywhere [] text found
          · contradiction
      | cons asked query =>
          by_cases same : asked = key
          · subst asked
            rw [put_cons_same] at found
            exact ih written (everywhere.below [key]) query text found
          · rw [put_cons_other same] at found
            exact everywhere (asked :: query) text found

theorem put_self_eq_self {path : List κ} {new old : Contents κ ν} (same : old.below path = new)
    (clear : ¬ new.Vacant → ∀ above rest, path = above ++ rest → rest ≠ [] → old above = none) :
    put path new old = old := by
  subst same
  induction path generalizing old with
  | nil => rfl
  | cons key path ih =>
      funext query
      cases query with
      | nil =>
          rw [put_cons_nil]
          split
          · rfl
          · rename_i occupied
            exact (clear occupied [] (key :: path) rfl (by simp)).symm
      | cons asked query =>
          by_cases same : asked = key
          · subst asked
            rw [put_cons_same]
            have inner : (old.below (key :: path)) = (old.below [key]).below path := by
              rw [← below_append, List.singleton_append]
            rw [inner, ih]
            · rfl
            · intro occupied above rest split proper
              rw [← inner] at occupied
              exact clear occupied (key :: above) rest (by rw [split, List.cons_append]) proper
          · exact put_cons_other same path query _ old

end Contents

/-! ## Three ways two locations can lie -/

/-- One location is at or below another, strictly above it, or apart from it. -/
theorem prefix_or_apart (path query : List κ) :
    (∃ rest, query = path ++ rest) ∨ (∃ rest, path = query ++ rest ∧ rest ≠ []) ∨
      Apart path query := by
  induction path generalizing query with
  | nil => exact .inl ⟨query, rfl⟩
  | cons key path ih =>
      cases query with
      | nil => exact .inr (.inl ⟨key :: path, rfl, by simp⟩)
      | cons asked query =>
          by_cases same : key = asked
          · subst asked
            rcases ih query with ⟨rest, rfl⟩ | ⟨rest, rfl, proper⟩ | apart
            · exact .inl ⟨rest, rfl⟩
            · exact .inr (.inl ⟨rest, rfl, proper⟩)
            · exact .inr (.inr (.inr ⟨rfl, apart⟩))
          · exact .inr (.inr (.inl same))

theorem not_apart_append (path rest : List κ) : ¬ Apart path (path ++ rest) := by
  induction path with
  | nil => exact not_false
  | cons key path ih =>
      rintro (differ | ⟨_, apart⟩)
      · exact differ rfl
      · exact ih apart

theorem Apart.ne_below {path query : List κ} (apart : Apart path query) (rest : List κ) :
    query ≠ path ++ rest := by
  rintro rfl
  exact not_apart_append path rest apart

theorem Apart.ne_append {path query : List κ} (apart : Apart path query) (rest : List κ) :
    query ++ rest ≠ path := by
  intro same
  exact (apart.symm.append_left rest).symm.ne_below [] (by rw [same, List.append_nil])

/-! ## Families of writes -/

/-- The written contents at some locations. -/
abbrev Writes (κ : Type u) (ν : Type v) := List κ → Option (Contents κ ν)

namespace Writes

/-- No write lies strictly below another. -/
def Independent (writes : Writes κ ν) : Prop :=
  ∀ path rest new, writes path = some new → rest ≠ [] → writes (path ++ rest) = none

/-- No write lies at or above a location. -/
def Uncovered (writes : Writes κ ν) (path : List κ) : Prop :=
  ∀ above rest, path = above ++ rest → writes above = none

/-- Every write at or below a location writes nothing. -/
def Clearing (writes : Writes κ ν) (path : List κ) : Prop :=
  ∀ rest new, writes (path ++ rest) = some new → new.Vacant

/-- Seen from a location that no write covers from strictly above. -/
theorem uncovered_append {writes : Writes κ ν} {path query : List κ}
    (uncovered : ∀ above rest, path = above ++ rest → rest ≠ [] → writes above = none)
    (free : Uncovered (fun rest => writes (path ++ rest)) query) :
    writes.Uncovered (path ++ query) := by
  intro above rest split
  rcases prefix_or_apart path above with ⟨extra, rfl⟩ | ⟨extra, rfl, proper⟩ | apart
  · rw [List.append_assoc] at split
    exact free extra rest (List.append_cancel_left split)
  · exact uncovered above extra rfl proper
  · exact absurd (split ▸ (apart.symm.append_left rest).symm) (not_apart_append path query)

end Writes

/-- `result` is `base` with a family of writes laid over it. -/
structure Overlays (writes : Writes κ ν) (base result : Contents κ ν) : Prop where
  /-- At and below a write stands what it wrote. -/
  covered : ∀ path rest new, writes path = some new → result (path ++ rest) = new rest
  /-- Above a write of something there is no text. -/
  hidden : ∀ path rest new, writes.Uncovered path → writes (path ++ rest) = some new →
    ¬ new.Vacant → result path = none
  /-- All other texts are those of the base. -/
  kept : ∀ path, writes.Uncovered path → writes.Clearing path → result path = base path

/-- No text stands strictly above a location. -/
def Contents.ClearAbove (base : Contents κ ν) (path : List κ) : Prop :=
  ∀ above rest, path = above ++ rest → rest ≠ [] → base above = none

namespace Overlays

variable {writes : Writes κ ν} {base result : Contents κ ν}

theorem empty (base : Contents κ ν) : Overlays (fun _ => none) base base where
  covered := by
    intro path rest new absent
    contradiction
  hidden := by
    intro path rest new _ absent
    contradiction
  kept := fun _ _ _ => rfl

/-- A family and a base determine the overlaid contents. -/
theorem unique {other : Contents κ ν} (overlays : Overlays writes base result)
    (overlays' : Overlays writes base other) : result = other := by
  classical
  funext path
  by_cases uncovered : writes.Uncovered path
  · by_cases clearing : writes.Clearing path
    · rw [overlays.kept path uncovered clearing, overlays'.kept path uncovered clearing]
    · simp only [Writes.Clearing, not_forall] at clearing
      obtain ⟨rest, new, written, occupied⟩ := clearing
      rw [overlays.hidden path rest new uncovered written occupied,
        overlays'.hidden path rest new uncovered written occupied]
  · simp only [Writes.Uncovered, not_forall] at uncovered
    obtain ⟨above, rest, rfl, written⟩ := uncovered
    obtain ⟨new, written⟩ := Option.ne_none_iff_exists'.mp written
    rw [overlays.covered above rest new written, overlays'.covered above rest new written]

/-- Reading below a location sees the writes below it, when none covers it. -/
theorem below (overlays : Overlays writes base result) {path : List κ}
    (uncovered : ∀ above rest, path = above ++ rest → rest ≠ [] → writes above = none) :
    Overlays (fun rest => writes (path ++ rest)) (base.below path) (result.below path) where
  covered := by
    intro above rest new written
    rw [Contents.below_apply, ← List.append_assoc]
    exact overlays.covered (path ++ above) rest new written
  hidden := by
    intro query rest new free written occupied
    rw [← List.append_assoc] at written
    exact overlays.hidden (path ++ query) rest new (Writes.uncovered_append uncovered free) written occupied
  kept := by
    intro query free clearing
    apply overlays.kept (path ++ query) (Writes.uncovered_append uncovered free)
    intro rest new written
    rw [List.append_assoc] at written
    exact clearing rest new written

section Put

variable {writes' : Writes κ ν} {path : List κ} {new : Contents κ ν}

/-- Where the base has no text, neither have the overlaid contents. -/
theorem eq_none_of_base (overlays : Overlays writes base result) (uncovered : writes.Uncovered path)
    (absent : base path = none) : result path = none := by
  classical
  by_cases clearing : writes.Clearing path
  · rw [overlays.kept path uncovered clearing, absent]
  · simp only [Writes.Clearing, not_forall] at clearing
    obtain ⟨rest, new, written, occupied⟩ := clearing
    exact overlays.hidden path rest new uncovered written occupied

/-- One more write where no write covers: the family has it in place of the
writes below it. -/
theorem put_of_uncovered (overlays : Overlays writes base result)
    (uncovered : writes.Uncovered path) (here : writes' path = some new)
    (under : ∀ rest, rest ≠ [] → writes' (path ++ rest) = none)
    (elsewhere : ∀ query, (∀ rest, query ≠ path ++ rest) → writes' query = writes query)
    (clear : new.Vacant → writes.Clearing path ∨ base.ClearAbove path) :
    Overlays writes' base (Contents.put path new result) := by
  classical
  -- a location that is not at or below the write is covered by the old family
  -- exactly when it is covered by the new one
  have free : ∀ query, (∀ rest, query ≠ path ++ rest) → writes'.Uncovered query →
      writes.Uncovered query := by
    intro query outside free above rest split
    rw [← elsewhere above fun extra same => outside (extra ++ rest) (by
      rw [split, same, List.append_assoc])]
    exact free above rest split
  have above : ∀ query extra, path = query ++ extra → writes.Uncovered query :=
    fun query extra split root more split' => uncovered root (more ++ extra) (by
      rw [split, split', List.append_assoc])
  -- what the new family writes is the new write, or an old one elsewhere
  have cases' : ∀ query written, writes' query = some written →
      (query = path ∧ written = new) ∨
        ((∀ rest, query ≠ path ++ rest) ∧ writes query = some written) := by
    intro query written found
    by_cases outside : ∀ rest, query ≠ path ++ rest
    · exact .inr ⟨outside, elsewhere query outside ▸ found⟩
    · simp only [not_forall, not_not] at outside
      obtain ⟨rest, rfl⟩ := outside
      by_cases nothing : rest = []
      · subst rest
        rw [List.append_nil] at found ⊢
        exact .inl ⟨rfl, Option.some.inj (found.symm.trans here)⟩
      · rw [under rest nothing] at found
        contradiction
  constructor
  · intro root rest written found
    rcases cases' root written found with ⟨rfl, rfl⟩ | ⟨outside, found⟩
    · exact Contents.put_append root rest written result
    · rcases prefix_or_apart path root with ⟨extra, same⟩ | ⟨extra, split, _⟩ | apart
      · exact absurd same (outside extra)
      · rw [uncovered root extra split] at found
        contradiction
      · rw [Contents.put_of_apart (apart.symm.append_left rest).symm]
        exact overlays.covered root rest written found
  · intro query rest written free' found occupied
    rcases prefix_or_apart path query with ⟨extra, rfl⟩ | ⟨extra, split, proper⟩ | apart
    · rw [free' path extra rfl] at here
      contradiction
    · by_cases vacant : new.Vacant
      · rcases cases' _ written found with ⟨_, rfl⟩ | ⟨_, found⟩
        · exact absurd vacant occupied
        · rw [split, Contents.put_above_of_vacant vacant query proper]
          exact overlays.hidden query rest written (above query extra split) found occupied
      · rw [split]
        exact Contents.put_above_of_not_vacant vacant query proper result
    · rw [Contents.put_of_apart apart]
      rw [elsewhere (query ++ rest) (apart.symm.append_left rest).symm.ne_below] at found
      exact overlays.hidden query rest written (free query apart.ne_below free') found occupied
  · intro query free' clearing
    rcases prefix_or_apart path query with ⟨extra, rfl⟩ | ⟨extra, split, proper⟩ | apart
    · rw [free' path extra rfl] at here
      contradiction
    · have vacant := clearing extra new (split ▸ here)
      have kept : result query = base query := by
        rcases clear vacant with cleared | clearAbove
        · apply overlays.kept query (above query extra split)
          intro rest written found
          by_cases outside : ∀ more, query ++ rest ≠ path ++ more
          · exact clearing rest written ((elsewhere _ outside).trans found)
          · simp only [not_forall, not_not] at outside
            obtain ⟨more, same⟩ := outside
            exact cleared more written (same ▸ found)
        · have absent := clearAbove query extra split proper
          rw [overlays.eq_none_of_base (above query extra split) absent, absent]
      rw [split, Contents.put_above_of_vacant vacant query proper, kept]
    · rw [Contents.put_of_apart apart]
      apply overlays.kept query (free query apart.ne_below free')
      intro rest written found
      rw [← elsewhere (query ++ rest) (apart.symm.append_left rest).symm.ne_below] at found
      exact clearing rest written found

/-- One more write at or below an old one: the family has it inside that one. -/
theorem put_of_covered (overlays : Overlays writes base result) (independent : writes.Independent)
    {old : Contents κ ν} {rest : List κ} (covered : writes path = some old)
    (here : writes' path = some (Contents.put rest new old))
    (elsewhere : ∀ query, query ≠ path → writes' query = writes query)
    (clear : new.Vacant → old.Vacant ∨ base.ClearAbove (path ++ rest)) :
    Overlays writes' base (Contents.put (path ++ rest) new result) := by
  classical
  have free : ∀ query, writes'.Uncovered query → writes.Uncovered query := by
    intro query free root more split
    by_cases same : root = path
    · subst root
      rw [free path more split] at here
      contradiction
    · rw [← elsewhere root same]
      exact free root more split
  have inside : result.below path = old := by
    funext query
    exact overlays.covered path query old covered
  have split' : ∀ {query extra : List κ}, path = query ++ extra →
      path ++ rest = query ++ (extra ++ rest) := by
    rintro query extra rfl
    exact List.append_assoc query extra rest
  constructor
  · intro root more written found
    by_cases same : root = path
    · subst root
      have lowered := congrFun (Contents.below_put_append path rest new result) more
      rw [Contents.below_apply, inside] at lowered
      rw [lowered]
      exact congrFun (Option.some.inj (here.symm.trans found)) more
    · rw [elsewhere root same] at found
      have apart : Apart path root := by
        rcases prefix_or_apart path root with ⟨extra, rfl⟩ | ⟨extra, split, proper⟩ | apart
        · have proper : extra ≠ [] := by
            rintro rfl
            exact same (List.append_nil path)
          rw [independent path extra old covered proper] at found
          contradiction
        · rw [split, independent root extra written found proper] at covered
          contradiction
        · exact apart
      rw [Contents.put_of_apart ((apart.append_left rest).symm.append_left more).symm]
      exact overlays.covered root more written found
  · intro query more written free' found occupied
    rcases prefix_or_apart path query with ⟨extra, rfl⟩ | ⟨extra, split, proper⟩ | apart
    · rw [free' path extra rfl] at here
      contradiction
    · have proper' : extra ++ rest ≠ [] := by simp [proper]
      by_cases vacant : new.Vacant
      · rw [split' split, Contents.put_above_of_vacant vacant query proper']
        by_cases same : query ++ more = path
        · rw [same, here] at found
          cases found
          rcases clear vacant with oldVacant | clearAbove
          · exact absurd (vacant.put oldVacant rest) occupied
          · exact overlays.eq_none_of_base (free query free')
              (clearAbove query _ (split' split) proper')
        · rw [elsewhere _ same] at found
          exact overlays.hidden query more written (free query free') found occupied
      · rw [split' split]
        exact Contents.put_above_of_not_vacant vacant query proper' result
    · rw [Contents.put_of_apart (apart.append_left rest)]
      rw [elsewhere (query ++ more) (apart.ne_append more)] at found
      exact overlays.hidden query more written (free query free') found occupied
  · intro query free' clearing
    rcases prefix_or_apart path query with ⟨extra, rfl⟩ | ⟨extra, split, proper⟩ | apart
    · rw [free' path extra rfl] at here
      contradiction
    · have proper' : extra ++ rest ≠ [] := by simp [proper]
      have vacant : new.Vacant := by
        intro more
        rw [← Contents.put_append rest more new old]
        exact clearing extra _ (split ▸ here) (rest ++ more)
      have kept : result query = base query := by
        rcases clear vacant with oldVacant | clearAbove
        · apply overlays.kept query (free query free')
          intro more written found
          by_cases same : query ++ more = path
          · rw [same, covered] at found
            cases found
            exact oldVacant
          · exact clearing more written ((elsewhere _ same).trans found)
        · have absent := clearAbove query _ (split' split) proper'
          rw [overlays.eq_none_of_base (free query free') absent, absent]
      rw [split' split, Contents.put_above_of_vacant vacant query proper', kept]
    · rw [Contents.put_of_apart (apart.append_left rest)]
      apply overlays.kept query (free query free')
      intro more written found
      rw [← elsewhere (query ++ more) (apart.ne_append more)] at found
      exact clearing more written found

end Put

end Overlays

/-! ## Writes one after the other -/

/-- Apply a list of writes, first to last. -/
noncomputable def putAll (list : List (List κ × Contents κ ν)) (base : Contents κ ν) :
    Contents κ ν :=
  list.foldl (fun current write => Contents.put write.1 write.2 current) base

theorem putAll_append (first second : List (List κ × Contents κ ν)) (base : Contents κ ν) :
    putAll (first ++ second) base = putAll second (putAll first base) :=
  List.foldl_append

theorem Contents.Everywhere.putAll {property : List κ → Prop}
    {list : List (List κ × Contents κ ν)} {base : Contents κ ν}
    (written : ∀ write ∈ list, write.2.Everywhere fun rest => property (write.1 ++ rest))
    (everywhere : base.Everywhere property) : (putAll list base).Everywhere property := by
  induction list generalizing base with
  | nil => exact everywhere
  | cons write list ih =>
      apply ih fun other member => written other (List.mem_cons_of_mem write member)
      exact .put (written write List.mem_cons_self) everywhere

/-- The order of writes that lie apart makes no difference. -/
theorem putAll_of_perm {first second : List (List κ × Contents κ ν)} (perm : first.Perm second)
    (apart : first.Pairwise fun one other => Apart one.1 other.1) (base : Contents κ ν) :
    putAll first base = putAll second base := by
  have symmetric : Std.Symm fun one other : List κ × Contents κ ν => Apart one.1 other.1 :=
    ⟨fun _ _ aside => aside.symm⟩
  apply perm.foldl_eq'
  intro one listed other listed' current
  by_cases same : one = other
  · rw [same]
  · exact Contents.put_comm (apart.forall listed' listed (Ne.symm same)) _ _ current

section PutAll

variable {writes : Writes κ ν} {list : List (List κ × Contents κ ν)}

open Classical in
/-- Writes that lie apart from each other lay their family over the base. -/
theorem overlays_putAll_of_mem (listed : ∀ write ∈ list, writes write.1 = some write.2)
    (apart : list.Pairwise fun first second => Apart first.1 second.1) (base : Contents κ ν) :
    Overlays (fun path => if path ∈ list.map Prod.fst then writes path else none) base
      (putAll list base) := by
  induction list using List.reverseRecOn with
  | nil => simpa [putAll] using Overlays.empty base
  | append_singleton list write ih =>
      obtain ⟨path, new⟩ := write
      rw [List.pairwise_append] at apart
      obtain ⟨apartList, _, apartLast⟩ := apart
      have aside : ∀ {other}, other ∈ list.map Prod.fst → Apart other path := by
        intro other member
        obtain ⟨write, listedFirst, rfl⟩ := List.mem_map.mp member
        exact apartLast write listedFirst (path, new) (List.mem_singleton_self _)
      have before := ih (fun write member => listed write (List.mem_append_left _ member)) apartList
      rw [putAll_append]
      apply before.put_of_uncovered
      · intro root rest split
        apply if_neg
        intro member
        exact (aside member).ne_below rest split
      · rw [if_pos (by simp)]
        exact listed (path, new) (by simp)
      · intro rest proper
        apply if_neg
        rw [List.map_append, List.mem_append]
        rintro (member | member)
        · exact (aside member).symm.ne_below rest rfl
        · simp [proper] at member
      · intro query outside
        have differs : query ≠ path := fun same => outside [] (by rw [same, List.append_nil])
        simp [differs]
      · intro _
        refine .inl fun rest written found => ?_
        have absent : path ++ rest ∉ list.map Prod.fst :=
          fun member => (aside member).symm.ne_below rest rfl
        simp [absent] at found

@[inherit_doc overlays_putAll_of_mem]
theorem overlays_putAll (mem : ∀ path new, (path, new) ∈ list ↔ writes path = some new)
    (apart : list.Pairwise fun first second => Apart first.1 second.1) (base : Contents κ ν) :
    Overlays writes base (putAll list base) := by
  classical
  have overlays := overlays_putAll_of_mem (fun write member => (mem _ _).mp member) apart base
  have same : (fun path => if path ∈ list.map Prod.fst then writes path else none) = writes := by
    funext path
    split
    · rfl
    · rename_i absent
      cases found : writes path with
      | none => rfl
      | some new => exact absurd (List.mem_map_of_mem ((mem path new).mpr found)) absent
  rw [same] at overlays
  exact overlays

end PutAll

end DyeIsLife.Store
