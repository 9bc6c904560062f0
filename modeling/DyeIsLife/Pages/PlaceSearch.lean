import DyeIsLife.Web.Query

/-!
# The place search

While the user types into the location field of `UploadPhotoPage`,
`getLocationResults` asks the places service for completions.  The URL is put
together from the typed text as it is; the only escaping is the one that the
HTTP client applies to the whole URL, and that leaves reserved characters and
existing escapes alone.  The response is only printed.

The HTTP client and the key are not part of the repository: the client's URI
handling is a parameter, and so is the key.
-/

namespace DyeIsLife.Pages

open DyeIsLife.Web

/-! ## The request -/

/-- `baseUrl` in `getLocationResults`. -/
def baseUrl : String := "https://maps.googleapis.com/maps/api/place/autocomplete/json"

/-- `request` in `getLocationResults`. -/
def request (placesApiKey input : String) : String :=
  baseUrl ++ "?input=" ++ input ++ "&key=" ++ placesApiKey

/-- The URI handling of the HTTP client: characters that are illegal in a URI
are percent-encoded, reserved characters and existing escapes stay. -/
structure EscapesIllegal (handle : List Char → List Char) : Prop where
  nil : handle [] = []
  kept : ∀ c rest, Legal c ∨ StartsEscape (c :: rest) → handle (c :: rest) = c :: handle rest
  escaped : ∀ c rest, ¬ Legal c → ¬ StartsEscape (c :: rest) →
    handle (c :: rest) = percentEncode c ++ handle rest

theorem escapesIllegal_escapeIllegal : EscapesIllegal escapeIllegal where
  nil := rfl
  kept _ _ kept := if_pos kept
  escaped _ _ illegal other := if_neg (not_or.mpr ⟨illegal, other⟩)

/-- The rules leave no choice. -/
theorem EscapesIllegal.eq_escapeIllegal {handle : List Char → List Char}
    (escapes : EscapesIllegal handle) (url : List Char) : handle url = escapeIllegal url := by
  induction url with
  | nil => exact escapes.nil
  | cons c rest ih =>
      rw [escapeIllegal]
      split
      · rename_i kept
        rw [escapes.kept c rest kept, ih]
      · rename_i changed
        rcases not_or.mp changed with ⟨illegal, other⟩
        rw [escapes.escaped c rest illegal other, ih]

/-- The URL carries the typed text and the key, and nothing else. -/
def Faithful (handle : List Char → List Char) (placesApiKey input : String) : Prop :=
  (parameters (handle (request placesApiKey input).toList)).Perm
    [(some "input".toList, some input.toList), (some "key".toList, some placesApiKey.toList)]

/-- The text has no ampersand, no number sign, no plus sign and no escape. -/
def Transparent (input : List Char) : Prop :=
  '&' ∉ input ∧ '#' ∉ input ∧ Plain input

instance (input : List Char) : Decidable (Transparent input) :=
  inferInstanceAs (Decidable ('&' ∉ input ∧ '#' ∉ input ∧ Plain input))

/-! ## The query of the request -/

theorem request_toList (placesApiKey input : String) :
    (request placesApiKey input).toList =
      baseUrl.toList ++ '?' :: ("input=".toList ++
        (input.toList ++ '&' :: ("key=".toList ++ placesApiKey.toList))) := by
  simp [request]

/-- What precedes the typed text is legal, so the client leaves it alone. -/
theorem query_request (placesApiKey input : String)
    (plainKey : ∀ c ∈ placesApiKey.toList, Unreserved c) :
    query (escapeIllegal (request placesApiKey input).toList) =
      ("input=".toList ++ (escapeIllegal input.toList ++
        '&' :: ("key=".toList ++ placesApiKey.toList))).takeWhile (· ≠ '#') := by
  have beginning : ∀ c ∈ baseUrl.toList ++ "?input=".toList, Legal c :=
    List.all_iff_forall_prop.mp (by decide)
  have ending : ∀ c ∈ "key=".toList ++ placesApiKey.toList, Legal c := by
    intro c member
    rcases List.mem_append.mp member with name | key
    · have legal : ∀ c ∈ "key=".toList, Legal c :=
        List.all_iff_forall_prop.mp (by decide)
      exact legal c name
    · exact .inl (plainKey c key)
  have joined : (request placesApiKey input).toList =
      (baseUrl.toList ++ "?input=".toList) ++
        (input.toList ++ '&' :: ("key=".toList ++ placesApiKey.toList)) := by
    rw [request_toList, List.append_assoc]
    rfl
  have unchanged := escapeIllegal_legal_append ending []
  rw [List.append_nil, escapeIllegal, List.append_nil] at unchanged
  rw [joined, escapeIllegal_legal_append beginning,
    escapeIllegal_append_cons separator_ampersand, unchanged, List.append_assoc]
  exact query_append_cons (by decide) (by decide) _

/-- The query starts with the typed text up to its first number sign; an
ampersand or nothing follows. -/
theorem query_request_eq (placesApiKey input : String)
    (plainKey : ∀ c ∈ placesApiKey.toList, Unreserved c) :
    ∃ rest, (rest = [] ∨ ∃ others, rest = '&' :: others) ∧
      query (escapeIllegal (request placesApiKey input).toList) =
        "input=".toList ++ escapeIllegal (input.toList.takeWhile (· ≠ '#')) ++ rest := by
  rw [query_request placesApiKey input plainKey, takeWhile_ne_append (by decide)]
  by_cases fragment : '#' ∈ input.toList
  · rcases List.eq_append_cons_of_mem fragment with ⟨before, after, same, absent⟩
    have cut : input.toList.takeWhile (· ≠ '#') = before := by
      rw [same, takeWhile_ne_append absent, List.takeWhile_cons_of_neg (by decide),
        List.append_nil]
    have clean : '#' ∉ escapeIllegal before :=
      not_mem_escapeIllegal separator_numberSign absent
    refine ⟨[], .inl rfl, ?_⟩
    rw [cut, same, escapeIllegal_append_cons separator_numberSign, List.append_assoc,
      takeWhile_ne_append clean, List.cons_append, List.takeWhile_cons_of_neg (by decide),
      List.append_nil, List.append_nil]
  · have clean : '#' ∉ escapeIllegal input.toList :=
      not_mem_escapeIllegal separator_numberSign fragment
    rw [takeWhile_ne_eq_self_iff.mpr fragment, takeWhile_ne_append clean,
      List.takeWhile_cons_of_pos (by decide)]
    exact ⟨_, .inr ⟨_, rfl⟩, List.append_assoc _ _ _ |>.symm⟩

/-- The part with the typed text has no separators beyond those of the text. -/
theorem not_mem_input {c : Char} (separates : Separator c) (unnamed : c ∉ "input=".toList)
    {text : List Char} (absent : c ∉ text) : c ∉ "input=".toList ++ escapeIllegal text := by
  rw [List.mem_append, not_or]
  exact ⟨unnamed, not_mem_escapeIllegal separates absent⟩

/-- The first part of such a query ends at the first ampersand. -/
theorem splitOn_input (text rest : List Char)
    (follows : rest = [] ∨ ∃ others, rest = '&' :: others) :
    ∃ value parts, value <+: text ∧ (value = text → '&' ∉ text) ∧
      ("input=".toList ++ escapeIllegal text ++ rest).splitOn '&' =
        ("input=".toList ++ escapeIllegal value) :: parts := by
  have clean : ∀ {value : List Char}, '&' ∉ value →
      '&' ∉ "input=".toList ++ escapeIllegal value :=
    not_mem_input separator_ampersand (by decide)
  by_cases inside : '&' ∈ text
  · rcases List.eq_append_cons_of_mem inside with ⟨before, after, same, absent⟩
    have divided := List.splitOn_append_cons_self_of_not_mem (clean absent)
      (escapeIllegal after ++ rest)
    refine ⟨before, (escapeIllegal after ++ rest).splitOn '&', ⟨_, same.symm⟩, ?_, ?_⟩
    · intro whole
      rw [← whole]
      exact absent
    · rw [← divided, same, escapeIllegal_append_cons separator_ampersand]
      simp only [List.append_assoc, List.cons_append]
  · rcases follows with rfl | ⟨others, rfl⟩
    · rw [List.append_nil]
      exact ⟨text, [], List.prefix_rfl, fun _ => inside,
        List.splitOn_eq_singleton (clean inside)⟩
    · exact ⟨text, _, List.prefix_rfl, fun _ => inside,
        List.splitOn_append_cons_self_of_not_mem (clean inside) _⟩

/-- The part that starts with the typed text is the parameter `input`. -/
theorem parameter_input (value : List Char) :
    parameter ("input=".toList ++ escapeIllegal value) =
      (some "input".toList, decode (escapeIllegal value)) := by
  have named : decode "input".toList = some "input".toList :=
    decode_eq_some_iff.mpr (by decide)
  have noEquals : '=' ∉ "input".toList := by decide
  have divided := parameter_append_cons noEquals (escapeIllegal value)
  rw [named] at divided
  exact divided

/-- A beginning of a text that arrives as the whole text is the whole text. -/
theorem eq_of_decode_prefix {value text : List Char} (beginning : value <+: text)
    (arrives : decode (escapeIllegal value) = some text) : value = text := by
  rcases beginning with ⟨rest, rfl⟩
  have bytes := congrArg List.length (decode_eq_some_iff.mp arrives)
  have shorter := length_decodeBytes_escapeIllegal_le value
  rw [utf8_append, List.length_append] at bytes
  have nothing : utf8 rest = [] := List.eq_nil_of_length_eq_zero (by omega)
  cases rest with
  | nil => exact (List.append_nil value).symm
  | cons c rest =>
      rw [utf8_cons] at nothing
      exact absurd (List.append_eq_nil_iff.mp nothing).1 String.utf8EncodeChar_ne_nil

/-- A key of unreserved characters arrives as it is. -/
theorem decode_unreserved {key : List Char} (plain : ∀ c ∈ key, Unreserved c) :
    decode key = some key := by
  rw [decode_eq_some_iff]
  induction key with
  | nil => rfl
  | cons c rest ih =>
      have first := plain c List.mem_cons_self
      have noPercent : c ≠ '%' := by
        rintro rfl
        exact absurd first (by decide)
      have noPlus : c ≠ '+' := by
        rintro rfl
        exact absurd first (by decide)
      rw [decodeBytes_cons noPercent, if_neg noPlus, utf8_cons,
        ih fun other member => plain other (List.mem_cons_of_mem c member)]

/-! ## The search as a whole -/

theorem transparent_of_faithful {placesApiKey input : String}
    (plainKey : ∀ c ∈ placesApiKey.toList, Unreserved c)
    (faithful : Faithful escapeIllegal placesApiKey input) : Transparent input.toList := by
  rcases query_request_eq placesApiKey input plainKey with ⟨rest, follows, asked⟩
  rcases splitOn_input (input.toList.takeWhile (· ≠ '#')) rest follows with
    ⟨value, parts, beginning, noAmpersand, divided⟩
  have first : (some "input".toList, decode (escapeIllegal value)) ∈
      parameters (escapeIllegal (request placesApiKey input).toList) := by
    rw [parameters, asked, divided, ← parameter_input]
    apply List.mem_map_of_mem
    rw [List.filter_cons_of_pos (by simp)]
    exact List.mem_cons_self
  have listed := faithful.mem_iff.mp first
  have arrives : decode (escapeIllegal value) = some input.toList := by
    simp only [List.mem_cons, List.not_mem_nil, or_false, Prod.mk.injEq] at listed
    rcases listed with ⟨_, same⟩ | ⟨other, _⟩
    · exact same
    · exact absurd other (by decide)
  -- everything that was cut off would be missing from the value
  have whole : value = input.toList :=
    eq_of_decode_prefix (beginning.trans (List.takeWhile_prefix _)) arrives
  have uncut : input.toList.takeWhile (· ≠ '#') = input.toList := by
    apply (List.takeWhile_prefix _).eq_of_length_le
    have longer := beginning.length_le
    rwa [whole] at longer
  rw [uncut] at noAmpersand
  rw [whole] at arrives
  constructor
  · exact noAmpersand whole
  · constructor
    · exact takeWhile_ne_eq_self_iff.mp uncut
    · exact (decodeBytes_escapeIllegal_eq_iff _).mp (decode_eq_some_iff.mp arrives)

theorem faithful_of_transparent {placesApiKey input : String}
    (plainKey : ∀ c ∈ placesApiKey.toList, Unreserved c)
    (transparent : Transparent input.toList) : Faithful escapeIllegal placesApiKey input := by
  rcases transparent with ⟨noAmpersand, noFragment, plain⟩
  have keyAbsent : ∀ c, ¬ Unreserved c → c ∉ "key=".toList →
      c ∉ "key=".toList ++ placesApiKey.toList := by
    intro c other unnamed member
    rcases List.mem_append.mp member with name | key
    · exact unnamed name
    · exact other (plainKey c key)
  have asked : query (escapeIllegal (request placesApiKey input).toList) =
      ("input=".toList ++ escapeIllegal input.toList) ++
        '&' :: ("key=".toList ++ placesApiKey.toList) := by
    rw [query_request placesApiKey input plainKey, ← List.append_assoc,
      takeWhile_ne_append (not_mem_input separator_numberSign (by decide) noFragment),
      List.takeWhile_cons_of_pos (by decide)]
    rw [takeWhile_ne_eq_self_iff.mpr (keyAbsent '#' (by decide) (by decide))]
  have divided := List.splitOn_append_cons_self_of_not_mem
    (not_mem_input separator_ampersand (by decide) noAmpersand)
    ("key=".toList ++ placesApiKey.toList)
  have arrives : decode (escapeIllegal input.toList) = some input.toList :=
    decode_eq_some_iff.mpr ((decodeBytes_escapeIllegal_eq_iff _).mpr plain)
  have keyNamed : decode "key".toList = some "key".toList :=
    decode_eq_some_iff.mpr (by decide)
  have noEquals : '=' ∉ "key".toList := by decide
  have keyed := parameter_append_cons noEquals placesApiKey.toList
  rw [keyNamed, decode_unreserved plainKey] at keyed
  rw [Faithful, parameters, asked, divided,
    List.splitOn_eq_singleton (keyAbsent '&' (by decide) (by decide)),
    List.filter_cons_of_pos (by simp), List.filter_cons_of_pos (by simp), List.filter_nil,
    List.map_cons, parameter_input, arrives, List.map_singleton]
  exact List.Perm.of_eq (congrArg _ (congrArg (· :: []) keyed))

/-- **When the place search sends what was typed.**  With a key of unreserved
characters, the URL of the request carries the typed text and the key and
nothing else exactly when the text has no `&`, no `#`, no `+` and no percent
escape. -/
theorem faithful_iff_transparent (dio : List Char → List Char) (escapes : EscapesIllegal dio)
    (placesApiKey : String) (plainKey : ∀ c ∈ placesApiKey.toList, Unreserved c)
    (input : String) : Faithful dio placesApiKey input ↔ Transparent input.toList := by
  have handled : Faithful dio placesApiKey input ↔ Faithful escapeIllegal placesApiKey input := by
    rw [Faithful, Faithful, escapes.eq_escapeIllegal]
  rw [handled]
  constructor
  · exact transparent_of_faithful plainKey
  · exact faithful_of_transparent plainKey

/-! ## Searches at fixed inputs -/

theorem faithful_saoPaulo :
    (∀ c ∈ "AIza-key".toList, Unreserved c) ∧
      (Faithful escapeIllegal "AIza-key" "São Paulo, 50%" ↔
        Transparent "São Paulo, 50%".toList) ∧
      Transparent "São Paulo, 50%".toList := by
  have plainKey : ∀ c ∈ "AIza-key".toList, Unreserved c :=
    List.all_iff_forall_prop.mp (by decide)
  exact ⟨plainKey, faithful_iff_transparent escapeIllegal escapesIllegal_escapeIllegal "AIza-key"
    plainKey "São Paulo, 50%", by decide⟩

/-- Typing an ampersand or a number sign loses a part of the text, and with the
number sign the key; a plus sign and an escape arrive as other characters. -/
theorem unfaithful_inputs :
    ¬ Faithful escapeIllegal "AIza-key" "A&M" ∧ ¬ Faithful escapeIllegal "AIza-key" "#1" ∧
      ¬ Faithful escapeIllegal "AIza-key" "C++" ∧ ¬ Faithful escapeIllegal "AIza-key" "%41" := by
  have plainKey : ∀ c ∈ "AIza-key".toList, Unreserved c :=
    List.all_iff_forall_prop.mp (by decide)
  have refused : ∀ input : String, ¬ Transparent input.toList →
      ¬ Faithful escapeIllegal "AIza-key" input :=
    fun input separators faithful => separators (transparent_of_faithful plainKey faithful)
  constructor
  · exact refused _ (by decide)
  · constructor
    · exact refused _ (by decide)
    · constructor
      · exact refused _ (by decide)
      · exact refused _ (by decide)

end DyeIsLife.Pages
