import DyeIsLife.Store.Overlay

/-!
# Keys and paths

A path is a list of keys; `FPath` reads it from a text with slashes and prints
it again in two forms.  Keys are ordered by `compareKey:toKey:`: keys that are
32-bit integers come first, by value and then by length, and all others follow
in the order of their UTF-16 code units.

The order is total and transitive, but two keys of the same length can tie
without being equal: `-0` and `00` are both the integer zero.  These are the
only ties.
-/

namespace DyeIsLife.Sync

open DyeIsLife.Store

/-! ## Code units -/

/-- The UTF-16 code units of a character. -/
def utf16 (char : Char) : List Nat :=
  if char.toNat < 65536 then [char.toNat]
  else [55296 + (char.toNat - 65536) / 1024, 56320 + (char.toNat - 65536) % 1024]

/-- The characters of an `NSString`. -/
def units (key : String) : List Nat :=
  key.toList.flatMap utf16

/-- Surrogates are not characters. -/
theorem toNat_not_surrogate (char : Char) :
    char.toNat < 55296 ∨ 57343 < char.toNat ∧ char.toNat < 1114112 :=
  char.valid

theorem utf16_append_inj {first second : Char} {rest others : List Nat}
    (same : utf16 first ++ rest = utf16 second ++ others) : first = second ∧ rest = others := by
  have firstScalar := toNat_not_surrogate first
  have secondScalar := toNat_not_surrogate second
  have code : first.toNat = second.toNat ∧ rest = others := by
    unfold utf16 at same
    split at same <;> split at same <;>
      simp only [List.cons_append, List.nil_append, List.cons.injEq] at same
    · exact same
    · omega
    · omega
    · exact ⟨by omega, same.2.2⟩
  exact ⟨Char.toNat_inj.mp code.1, code.2⟩

theorem units_injective {first second : String} (same : units first = units second) :
    first = second := by
  apply String.toList_injective
  unfold units at same
  generalize first.toList = chars at same
  generalize second.toList = others at same
  induction chars generalizing others with
  | nil =>
      cases others with
      | nil => rfl
      | cons char others =>
          simp only [List.flatMap_nil, List.flatMap_cons, utf16] at same
          split at same <;> simp at same
  | cons char chars ih =>
      cases others with
      | nil =>
          simp only [List.flatMap_nil, List.flatMap_cons, utf16] at same
          split at same <;> simp at same
      | cons other others =>
          obtain ⟨rfl, rest⟩ := utf16_append_inj same
          rw [ih others rest]

/-! ## Integer keys -/

/-- The digits of an integer key. -/
def parseDigits : Nat → List Nat → Option Nat
  | value, [] => some value
  | value, unit :: rest =>
      if unit < 48 ∨ unit > 57 then none else parseDigits (value * 10 + (unit - 48)) rest

/-- An integer of 32 bits. -/
def within32 (value : Int) : Option Int :=
  if value < -2147483648 ∨ value > 2147483647 then none else some value

/-- `tryParseStringToInt`. -/
def tryParseStringToInt (key : String) : Option Int :=
  if (units key).length > 11 ∨ (units key).length = 0 then none
  else if (units key).head? = some 45 then
    if (units key).length = 1 then none
    else (parseDigits 0 (units key).tail).bind fun value => within32 (-value)
  else (parseDigits 0 (units key)).bind fun value => within32 value

/-- `compareKey:toKey:`. -/
def compareKey (a b : String) : Ordering :=
  match tryParseStringToInt a, tryParseStringToInt b with
  | some aAsInt, some bAsInt =>
      if aAsInt > bAsInt then .gt
      else if aAsInt < bAsInt then .lt
      else if (units a).length > (units b).length then .gt
      else if (units a).length < (units b).length then .lt
      else .eq
  | some _, none => .lt
  | none, some _ => .gt
  | none, none => compare (units a) (units b)

/-! ## The order of keys -/

/-- What `compareKey:toKey:` compares. -/
def rank (key : String) : List Int :=
  match tryParseStringToInt key with
  | some value => [0, value, (units key).length]
  | none => 1 :: (units key).map Int.ofNat

theorem compare_map_ofNat (first second : List Nat) :
    compare (first.map Int.ofNat) (second.map Int.ofNat) = compare first second := by
  induction first generalizing second with
  | nil => cases second <;> rfl
  | cons unit first ih =>
      cases second with
      | nil => rfl
      | cons other second =>
          rw [List.map_cons, List.map_cons, List.compare_cons_cons, List.compare_cons_cons, ih]
          congr 1
          rcases Nat.lt_trichotomy unit other with less | same | more
          · rw [Nat.compare_eq_lt.mpr less, show compare (Int.ofNat unit) (Int.ofNat other) = _ from
              Int.compare_eq_lt.mpr (Int.ofNat_lt.mpr less)]
          · rw [same]
            simp
          · rw [Nat.compare_eq_gt.mpr more, show compare (Int.ofNat unit) (Int.ofNat other) = _ from
              Int.compare_eq_gt.mpr (Int.ofNat_lt.mpr more)]

theorem compareKey_eq (a b : String) : compareKey a b = compare (rank a) (rank b) := by
  unfold compareKey rank
  cases tryParseStringToInt a with
  | none =>
      cases tryParseStringToInt b with
      | none =>
          rw [List.compare_cons_cons, compare_map_ofNat]
          rfl
      | some bAsInt => rfl
  | some aAsInt =>
      cases tryParseStringToInt b with
      | none => rfl
      | some bAsInt =>
          simp only [List.compare_cons_cons, Std.ReflOrd.compare_self, Ordering.eq_then,
            Ordering.then_eq, Int.compare_eq_ite_lt]
          rcases Int.lt_trichotomy aAsInt bAsInt with less | same | more
          · rw [if_neg (by omega), if_pos less, if_pos less]
            rfl
          · subst same
            simp only [gt_iff_lt, Int.lt_irrefl, if_false, Ordering.eq_then]
            rcases Nat.lt_trichotomy (units a).length (units b).length with less | equal | more
            · rw [if_neg (by omega), if_pos less, if_pos (by omega)]
            · rw [if_neg (by omega), if_neg (by omega), if_neg (by omega), if_neg (by omega)]
            · rw [if_pos more, if_neg (by omega), if_pos (by omega)]
          · rw [if_pos more, if_neg (by omega), if_pos more]
            rfl

instance : Std.OrientedCmp compareKey where
  eq_swap := by
    intro a b
    rw [compareKey_eq, compareKey_eq]
    exact Std.OrientedCmp.eq_swap

instance : Std.TransCmp compareKey where
  isLE_trans := by
    intro a b c first second
    rw [compareKey_eq] at first second ⊢
    exact Std.TransCmp.isLE_trans first second

/-! ## Ties -/

theorem parseDigits_inj {digits others : List Nat} (length : digits.length = others.length)
    {value other result : Nat} (first : parseDigits value digits = some result)
    (second : parseDigits other others = some result) : value = other ∧ digits = others := by
  induction digits generalizing others value other with
  | nil =>
      obtain rfl := List.eq_nil_of_length_eq_zero length.symm
      cases first
      cases second
      exact ⟨rfl, rfl⟩
  | cons digit digits ih =>
      cases others with
      | nil => contradiction
      | cons unit others =>
          rw [parseDigits] at first second
          split at first
          · contradiction
          · split at second
            · contradiction
            · obtain ⟨same, rfl⟩ := ih (Nat.succ.inj length) first second
              constructor
              · omega
              · congr 1
                omega

theorem parseDigits_eq_zero {digits : List Nat} {value : Nat}
    (parsed : parseDigits value digits = some 0) :
    value = 0 ∧ digits = List.replicate digits.length 48 := by
  induction digits generalizing value with
  | nil =>
      cases parsed
      exact ⟨rfl, rfl⟩
  | cons digit digits ih =>
      rw [parseDigits] at parsed
      split at parsed
      · contradiction
      · obtain ⟨zero, zeros⟩ := ih parsed
        refine ⟨by omega, ?_⟩
        rw [List.length_cons, List.replicate_succ, ← zeros]
        congr 1
        omega

/-- Two keys for the integer zero: the one with a sign, and the one with one
more digit instead. -/
def ZeroTwins (a b : String) : Prop :=
  ∃ count ≤ 10, 0 < count ∧ a.toList = '-' :: List.replicate count '0' ∧
    b.toList = List.replicate (count + 1) '0'

/-- How an integer key is written. -/
theorem tryParseStringToInt_cases {key : String} {value : Int}
    (parsed : tryParseStringToInt key = some value) :
    (units key).length ≤ 11 ∧
      ((∃ digits number, units key = 45 :: digits ∧ digits ≠ [] ∧
          parseDigits 0 digits = some number ∧ value = -(number : Int)) ∨
        ∃ number, parseDigits 0 (units key) = some number ∧ value = number) := by
  have within {number result : Int} (small : within32 number = some result) : result = number := by
    rw [within32] at small
    split at small
    · contradiction
    · exact (Option.some.inj small).symm
  unfold tryParseStringToInt at parsed
  split at parsed
  · contradiction
  · rename_i length
    refine ⟨by omega, ?_⟩
    split at parsed
    · rename_i sign
      split at parsed
      · contradiction
      · rename_i several
        obtain ⟨number, digits, small⟩ := Option.bind_eq_some_iff.mp parsed
        left
        cases written : units key with
        | nil => simp [written] at sign
        | cons unit rest =>
            rw [written, List.head?_cons, Option.some.injEq] at sign
            rw [written, List.tail_cons] at digits
            refine ⟨rest, number, by rw [sign], ?_, digits, within small⟩
            rintro rfl
            simp [written] at several
    · obtain ⟨number, digits, small⟩ := Option.bind_eq_some_iff.mp parsed
      exact .inr ⟨number, digits, within small⟩

theorem units_of_toList {key : String} {chars : List Char} (written : key.toList = chars)
    (ascii : ∀ char ∈ chars, char.toNat < 65536) : units key = chars.map Char.toNat := by
  rw [units, written]
  clear written
  induction chars with
  | nil => rfl
  | cons char chars ih =>
      rw [List.flatMap_cons, List.map_cons, utf16, if_pos (ascii char List.mem_cons_self),
        ih fun other member => ascii other (List.mem_cons_of_mem char member)]
      rfl

/-- Code units that spell characters are those of the text. -/
theorem toList_of_units {key : String} {chars : List Char} (spelled : units key = chars.map Char.toNat)
    (ascii : ∀ char ∈ chars, char.toNat < 65536) : key.toList = chars := by
  have same : units key = units (String.ofList chars) := by
    rw [spelled, units_of_toList String.toList_ofList ascii]
  rw [units_injective same, String.toList_ofList]

theorem parseDigits_zeros (count : Nat) : parseDigits 0 (List.replicate count 48) = some 0 := by
  induction count with
  | zero => rfl
  | succ count ih =>
      rw [List.replicate_succ, parseDigits, if_neg (by omega)]
      exact ih

theorem units_signed_zeros {key : String} {count : Nat}
    (written : key.toList = '-' :: List.replicate count '0') :
    units key = 45 :: List.replicate count 48 := by
  rw [units_of_toList written]
  · simp
  · intro char member
    rcases List.mem_cons.mp member with rfl | zero
    · decide
    · rw [List.eq_of_mem_replicate zero]
      decide

theorem units_zeros {key : String} {count : Nat}
    (written : key.toList = List.replicate count '0') : units key = List.replicate count 48 := by
  rw [units_of_toList written]
  · simp
  · intro char member
    rw [List.eq_of_mem_replicate member]
    decide

theorem ZeroTwins.rank_eq {a b : String} (twins : ZeroTwins a b) : rank a = rank b := by
  obtain ⟨count, small, positive, first, second⟩ := twins
  have signed := units_signed_zeros first
  have plain := units_zeros second
  have zero : within32 0 = some 0 := by decide
  have firstValue : tryParseStringToInt a = some 0 := by
    rw [tryParseStringToInt, signed, if_neg (by simp; omega), if_pos (List.head?_cons),
      if_neg (by simp; omega), List.tail_cons, parseDigits_zeros]
    exact zero
  have secondValue : tryParseStringToInt b = some 0 := by
    rw [tryParseStringToInt, plain, if_neg (by simp; omega), if_neg (by simp [List.replicate_succ]),
      parseDigits_zeros]
    exact zero
  simp [rank, firstValue, secondValue, signed, plain]

/-- Integer keys of the same length and value are equal or twins. -/
theorem eq_or_zeroTwins {a b : String} {value : Int} (first : tryParseStringToInt a = some value)
    (second : tryParseStringToInt b = some value) (length : (units a).length = (units b).length) :
    a = b ∨ ZeroTwins a b ∨ ZeroTwins b a := by
  -- a key with a sign and one without agree only at zero
  have mixed {a b : String} {digits : List Nat} {number other : Nat} (short : (units a).length ≤ 11)
      (length : (units a).length = (units b).length) (signed : units a = 45 :: digits)
      (some : digits ≠ []) (parsed : parseDigits 0 digits = Option.some number)
      (plain : parseDigits 0 (units b) = Option.some other) (same : -(number : Int) = other) :
      ZeroTwins a b := by
    obtain ⟨rfl, rfl⟩ : number = 0 ∧ other = 0 := by omega
    have zeros := (parseDigits_eq_zero parsed).2
    have others := (parseDigits_eq_zero plain).2
    rw [signed, List.length_cons] at length short
    refine ⟨digits.length, by omega, List.length_pos_of_ne_nil some, ?_, ?_⟩
    · apply toList_of_units
      · rw [signed, zeros]
        simp
      · intro char member
        rcases List.mem_cons.mp member with rfl | zero
        · decide
        · rw [List.eq_of_mem_replicate zero]
          decide
    · apply toList_of_units
      · rw [others, ← length]
        simp
      · intro char member
        rw [List.eq_of_mem_replicate member]
        decide
  obtain ⟨firstShort, ⟨digits, number, signed, some, parsed, rfl⟩ | ⟨number, parsed, rfl⟩⟩ :=
    tryParseStringToInt_cases first
  · obtain ⟨-, ⟨others, other, signed', _, parsed', same⟩ | ⟨other, parsed', same⟩⟩ :=
      tryParseStringToInt_cases second
    · left
      apply units_injective
      rw [signed, signed', List.length_cons, List.length_cons] at length
      rw [show other = number by omega] at parsed'
      rw [signed, signed', (parseDigits_inj (Nat.succ.inj length) parsed parsed').2]
    · exact .inr (.inl (mixed firstShort length signed some parsed parsed' same))
  · obtain ⟨secondShort, ⟨others, other, signed', some, parsed', same⟩ | ⟨other, parsed', same⟩⟩ :=
      tryParseStringToInt_cases second
    · exact .inr (.inr (mixed secondShort length.symm signed' some parsed' parsed same.symm))
    · left
      apply units_injective
      rw [show other = number by omega] at parsed'
      exact (parseDigits_inj length parsed parsed').2

theorem compareKey_eq_eq_iff {a b : String} :
    compareKey a b = .eq ↔ a = b ∨ ZeroTwins a b ∨ ZeroTwins b a := by
  rw [compareKey_eq, Std.LawfulEqCmp.compare_eq_iff_eq]
  constructor
  · intro same
    unfold rank at same
    cases first : tryParseStringToInt a with
    | none =>
        cases second : tryParseStringToInt b with
        | none =>
            simp only [first, second, List.cons.injEq, true_and] at same
            exact .inl (units_injective (List.map_injective_iff.mpr (fun _ _ => Int.ofNat.inj) same))
        | some value => simp [first, second] at same
    | some value =>
        cases second : tryParseStringToInt b with
        | none => simp [first, second] at same
        | some other =>
            simp only [first, second, List.cons.injEq, true_and, and_true] at same
            obtain ⟨rfl, length⟩ := same
            exact eq_or_zeroTwins first second (Int.ofNat.inj length)
  · rintro (rfl | twins | twins)
    · rfl
    · exact twins.rank_eq
    · exact twins.rank_eq.symm

/-- Keys are ordered totally, and they tie only when they are equal or twins. -/
theorem compareKey_laws :
    (∀ a b, compareKey a b = (compareKey b a).swap) ∧
      (∀ a b c, (compareKey a b).isLE = true → (compareKey b c).isLE = true →
        (compareKey a c).isLE = true) ∧
      ∀ a b, compareKey a b = .eq ↔ a = b ∨ ZeroTwins a b ∨ ZeroTwins b a :=
  ⟨fun _ _ => Std.OrientedCmp.eq_swap, fun _ _ _ first second => Std.TransCmp.isLE_trans first second,
    fun _ _ => compareKey_eq_eq_iff⟩

/-! ## Paths as texts -/

namespace FPath

/-- The pieces between slashes that are not empty. -/
def pieces (chars : List Char) : List (List Char) :=
  (chars.splitOn '/').filter fun piece => piece ≠ []

/-- `pathWithString:`. -/
def pathWithString (text : String) : List String :=
  (pieces text.toList).map String.ofList

/-- `toStringWithTrailingSlash:`. -/
def toStringWithTrailingSlash (trailingSlash : Bool) : List String → String
  | [] => "/"
  | piece :: path =>
      String.join ((piece :: path).map fun piece => "/" ++ piece) ++ if trailingSlash then "/" else ""

/-- `wireFormat`: only the later pieces have a slash before them. -/
def wireFormat : List String → String
  | [] => "/"
  | piece :: path => piece ++ String.join (path.map fun piece => "/" ++ piece)

/-- A piece a path can have. -/
def Piece (piece : String) : Prop :=
  piece.toList ≠ [] ∧ '/' ∉ piece.toList

theorem pieces_append (first second : List Char) :
    pieces (first ++ '/' :: second) = pieces first ++ pieces second := by
  rw [pieces, List.splitOn_append_cons_self, List.filter_append]
  rfl

/-- Texts joined by a slash are paths one below the other. -/
theorem pathWithString_append (first second : String) :
    pathWithString (first ++ "/" ++ second) = pathWithString first ++ pathWithString second := by
  have joined : (first ++ "/" ++ second).toList = first.toList ++ '/' :: second.toList := by
    simp [String.toList_append]
  rw [pathWithString, joined, pieces_append, List.map_append]
  rfl

theorem not_mem_of_mem_splitOn {chars piece : List Char} (member : piece ∈ chars.splitOn '/') :
    '/' ∉ piece := by
  induction chars generalizing piece with
  | nil =>
      rw [List.splitOn_nil, List.mem_singleton] at member
      rw [member]
      exact List.not_mem_nil
  | cons char chars ih =>
      rw [List.splitOn_cons_eq_if_modifyHead] at member
      split at member
      · rcases List.mem_cons.mp member with rfl | member
        · exact List.not_mem_nil
        · exact ih member
      · rename_i other
        cases divided : chars.splitOn '/' with
        | nil => exact absurd divided (List.splitOn_ne_nil _ _)
        | cons first rest =>
            rw [divided] at member ih
            rcases List.mem_cons.mp member with rfl | member
            · intro slash
              rcases List.mem_cons.mp slash with rfl | slash
              · exact other (beq_self_eq_true _)
              · exact ih List.mem_cons_self slash
            · exact ih (List.mem_cons_of_mem first member)

/-- Every text gives a path of proper pieces. -/
theorem piece_of_mem_pathWithString {text piece : String} (member : piece ∈ pathWithString text) :
    Piece piece := by
  obtain ⟨chars, listed, rfl⟩ := List.mem_map.mp member
  obtain ⟨split, filled⟩ := List.mem_filter.mp listed
  rw [Piece, String.toList_ofList]
  exact ⟨of_decide_eq_true filled, not_mem_of_mem_splitOn split⟩

theorem pieces_of_piece {piece : String} (proper : Piece piece) :
    pieces piece.toList = [piece.toList] := by
  rw [pieces, List.splitOn_eq_singleton proper.2, List.filter_cons_of_pos (by simpa using proper.1)]
  rfl

/-- The characters of the later pieces, each behind a slash. -/
theorem toList_join_slashes (path : List String) :
    (String.join (path.map fun piece => "/" ++ piece)).toList =
      path.flatMap fun piece => '/' :: piece.toList := by
  induction path with
  | nil => rfl
  | cons piece path ih =>
      rw [List.map_cons, String.join_cons, String.toList_append, String.toList_append, ih]
      rfl

theorem pieces_append_slashes (chars : List Char) {path : List String}
    (proper : ∀ piece ∈ path, Piece piece) (last : List Char) (slash : last = [] ∨ last = ['/']) :
    pieces (chars ++ (path.flatMap fun piece => '/' :: piece.toList) ++ last) =
      pieces chars ++ path.map String.toList := by
  induction path generalizing chars with
  | nil =>
      rcases slash with rfl | rfl
      · simp
      · rw [List.flatMap_nil, List.append_nil, pieces_append]
        rfl
  | cons piece path ih =>
      have rest := ih piece.toList fun other member => proper other (List.mem_cons_of_mem piece member)
      rw [List.flatMap_cons, List.cons_append, List.append_assoc, List.cons_append, pieces_append,
        rest, pieces_of_piece (proper piece List.mem_cons_self)]
      rfl

theorem map_ofList_toList (path : List String) : (path.map String.toList).map String.ofList = path := by
  simp [Function.comp_def, String.ofList_toList]

theorem pathWithString_slash : pathWithString "/" = [] := by
  decide

theorem pathWithString_toStringWithTrailingSlash {path : List String}
    (proper : ∀ piece ∈ path, Piece piece) (trailingSlash : Bool) :
    pathWithString (toStringWithTrailingSlash trailingSlash path) = path := by
  cases path with
  | nil => exact pathWithString_slash
  | cons piece path =>
      have last : (if trailingSlash then "/" else "").toList = [] ∨
          (if trailingSlash then "/" else "").toList = ['/'] := by
        cases trailingSlash with
        | false => exact .inl rfl
        | true => exact .inr rfl
      have divided := pieces_append_slashes [] proper _ last
      rw [pathWithString, toStringWithTrailingSlash, String.toList_append, toList_join_slashes]
      rw [List.nil_append] at divided
      rw [divided]
      exact map_ofList_toList (piece :: path)

theorem pathWithString_wireFormat {path : List String} (proper : ∀ piece ∈ path, Piece piece) :
    pathWithString (wireFormat path) = path := by
  cases path with
  | nil => exact pathWithString_slash
  | cons piece path =>
      have divided := pieces_append_slashes piece.toList
        (fun other member => proper other (List.mem_cons_of_mem piece member)) [] (.inl rfl)
      rw [pathWithString, wireFormat, String.toList_append, toList_join_slashes]
      rw [List.append_nil] at divided
      rw [divided, pieces_of_piece (proper piece List.mem_cons_self)]
      exact map_ofList_toList (piece :: path)

/-- The path of a text is read again from each form in which it is printed, and
texts joined by a slash are read as one path below the other. -/
theorem pathWithString_printed (text : String) :
    (∀ trailingSlash,
      pathWithString (toStringWithTrailingSlash trailingSlash (pathWithString text)) =
        pathWithString text) ∧
      pathWithString (wireFormat (pathWithString text)) = pathWithString text ∧
      ∀ below, pathWithString
          (wireFormat (pathWithString text) ++ "/" ++ wireFormat (pathWithString below)) =
        pathWithString text ++ pathWithString below := by
  have proper (text : String) : ∀ piece ∈ pathWithString text, Piece piece :=
    fun _ member => piece_of_mem_pathWithString member
  refine ⟨?_, pathWithString_wireFormat (proper text), ?_⟩
  · intro trailingSlash
    exact pathWithString_toStringWithTrailingSlash (proper text) trailingSlash
  · intro below
    rw [pathWithString_append, pathWithString_wireFormat (proper text),
      pathWithString_wireFormat (proper below)]

/-! ## The order of paths -/

/-- `compare:`. -/
def compare : List String → List String → Ordering :=
  List.compareLex compareKey

/-- `contains:`. -/
def contains (path other : List String) : Bool :=
  path.isPrefixOf other

/-- Keys that only tie with themselves. -/
def Untwinned (keys : List String) : Prop :=
  ∀ a ∈ keys, ∀ b ∈ keys, compareKey a b = .eq → a = b

instance (keys : List String) : Decidable (Untwinned keys) :=
  inferInstanceAs (Decidable (∀ a ∈ keys, ∀ b ∈ keys, compareKey a b = .eq → a = b))

theorem Untwinned.mono {keys fewer : List String} (untwinned : Untwinned keys)
    (subset : fewer ⊆ keys) : Untwinned fewer :=
  fun a first b second => untwinned a (subset first) b (subset second)

/-- Keys of which no two tie: neither in the order of keys, by which nodes look
children up, nor under `[a compare:b]`, by which immutable trees do.  The latter
is Foundation's; texts that are canonically equivalent tie there. -/
structure Untied (stringComparator : String → String → Ordering) (keys : List String) : Prop where
  untwinned : Untwinned keys
  uncombined : ∀ a ∈ keys, ∀ b ∈ keys, stringComparator a b = .eq → a = b

/-- The order of code units; for keys of ASCII characters it is `[a compare:b]`. -/
def compareUnits (a b : String) : Ordering :=
  Ord.compare (units a) (units b)

/-- A location leaves another one at keys that do not tie. -/
def Discerned : List String → List String → Prop
  | key :: path, other :: query =>
      (compareKey key other = .eq → key = other) ∧ (key = other → Discerned path query)
  | _, _ => True

theorem discerned_append (path rest : List String) : Discerned path (path ++ rest) := by
  induction path with
  | nil => exact trivial
  | cons key path ih => exact ⟨fun _ => rfl, fun _ => ih⟩

theorem Discerned.left {path rest query : List String} (discerned : Discerned (path ++ rest) query) :
    Discerned path query := by
  induction path generalizing query with
  | nil => exact trivial
  | cons key path ih =>
      cases query with
      | nil => exact trivial
      | cons other query => exact ⟨discerned.1, fun same => ih (discerned.2 same)⟩

theorem discerned_append_iff {path rest query : List String} :
    Discerned (path ++ rest) (path ++ query) ↔ Discerned rest query := by
  induction path with
  | nil => exact Iff.rfl
  | cons key path ih =>
      constructor
      · exact fun discerned => ih.mp (discerned.2 rfl)
      · exact fun discerned => ⟨fun _ => rfl, fun _ => ih.mpr discerned⟩

/-- What is told from a location apart from it is told from all below that. -/
theorem Discerned.append_of_apart {path other : List String} (discerned : Discerned path other)
    (apart : Apart other path) (rest : List String) : Discerned path (other ++ rest) := by
  induction path generalizing other with
  | nil => exact trivial
  | cons key path ih =>
      cases other with
      | nil => exact apart.elim
      | cons first other =>
          refine ⟨discerned.1, fun same => ?_⟩
          rcases apart with differ | ⟨_, aside⟩
          · exact absurd same.symm differ
          · exact ih (discerned.2 same) aside

theorem Untwinned.discerned {keys path other : List String} (untwinned : Untwinned keys)
    (named : path ⊆ keys) (otherNamed : other ⊆ keys) : Discerned path other := by
  induction path generalizing other with
  | nil => exact trivial
  | cons key path ih =>
      cases other with
      | nil => exact trivial
      | cons first other =>
          rw [List.cons_subset] at named otherNamed
          exact ⟨untwinned key named.1 first otherNamed.1, fun _ => ih named.2 otherNamed.2⟩

instance : Std.TransCmp compare :=
  inferInstanceAs (Std.TransCmp (List.compareLex compareKey))

theorem eq_of_compare {path other : List String} (untwinned : Untwinned (path ++ other))
    (same : compare path other = .eq) : path = other := by
  induction path generalizing other with
  | nil =>
      cases other with
      | nil => rfl
      | cons key other => contradiction
  | cons key path ih =>
      cases other with
      | nil => contradiction
      | cons first other =>
          rw [compare, List.compareLex_cons_cons, Ordering.then_eq_eq] at same
          obtain rfl := untwinned key (by simp) first (by simp) same.1
          rw [ih (untwinned.mono (by intro key member; simp at member ⊢; tauto)) same.2]

/-- A path comes before those below it. -/
theorem isLE_of_contains {path other : List String} (inside : contains path other = true) :
    (compare path other).isLE = true := by
  induction path generalizing other with
  | nil => cases other <;> rfl
  | cons key path ih =>
      cases other with
      | nil => contradiction
      | cons first other =>
          rw [contains, List.isPrefixOf_cons_cons, Bool.and_eq_true, beq_iff_eq] at inside
          obtain ⟨rfl, inside⟩ := inside
          have same : compareKey key key = .eq := Std.ReflCmp.compare_self
          rw [compare, List.compareLex_cons_cons, same, Ordering.eq_then]
          exact ih inside

/-- What lies between a path and one below it lies below the path, too. -/
theorem contains_of_between {path below between : List String}
    (untwinned : Untwinned (path ++ between)) (inside : contains path below = true)
    (least : (compare path between).isLE = true) (most : (compare between below).isLE = true) :
    contains path between = true := by
  induction path generalizing below between with
  | nil => rfl
  | cons key path ih =>
      cases below with
      | nil => contradiction
      | cons first below =>
          rw [contains, List.isPrefixOf_cons_cons, Bool.and_eq_true, beq_iff_eq] at inside
          obtain ⟨rfl, inside⟩ := inside
          cases between with
          | nil => contradiction
          | cons other between =>
              rw [compare, List.compareLex_cons_cons] at least most
              have oriented : compareKey other key = (compareKey key other).swap :=
                Std.OrientedCmp.eq_swap
              cases order : compareKey key other with
              | lt =>
                  rw [oriented, order] at most
                  contradiction
              | gt =>
                  rw [order] at least
                  contradiction
              | eq =>
                  obtain rfl := untwinned key (by simp) other (by simp) order
                  rw [order] at least most
                  have rest := ih (untwinned.mono (by intro key member; simp at member ⊢; tauto))
                    inside least most
                  rw [contains, List.isPrefixOf_cons_cons, beq_self_eq_true, Bool.true_and]
                  exact rest

end FPath

end DyeIsLife.Sync
