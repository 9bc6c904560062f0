import Mathlib.Data.Bool.AllAny
import Mathlib.Data.List.Infix
import Mathlib.Data.List.TakeWhile

/-!
# Query strings

The part of the URI rules that a client and a server share: percent escapes,
the parameters of a query, and the escaping that a client applies to a whole
URL, which touches only characters that may not occur in a URI at all.

Texts are lists of characters.  Decoding goes through bytes, since an escape
stands for a byte of the UTF-8 encoding.
-/

namespace DyeIsLife.Web

/-! ## Characters -/

/-- Letters, digits and four marks. -/
def Unreserved (c : Char) : Prop :=
  c.isAlphanum = true ∨ c ∈ ['-', '.', '_', '~']

instance (c : Char) : Decidable (Unreserved c) :=
  inferInstanceAs (Decidable (c.isAlphanum = true ∨ c ∈ ['-', '.', '_', '~']))

/-- The characters that have a meaning of their own in a URI. -/
def reserved : List Char :=
  [':', '/', '?', '#', '[', ']', '@', '!', '$', '&', Char.ofNat 39, '(', ')', '*', '+', ',', ';',
    '=']

/-- The characters that may occur in a URI outside escapes. -/
def Legal (c : Char) : Prop :=
  Unreserved c ∨ c ∈ reserved

instance (c : Char) : Decidable (Legal c) :=
  inferInstanceAs (Decidable (Unreserved c ∨ c ∈ reserved))

def hexDigits : List Char :=
  ['0', '1', '2', '3', '4', '5', '6', '7', '8', '9', 'A', 'B', 'C', 'D', 'E', 'F', 'a', 'b', 'c',
    'd', 'e', 'f']

/-- The value of a hexadecimal digit. -/
def hexValue (c : Char) : Nat :=
  if c.toNat ≤ 57 then c.toNat - 48
  else if c.toNat ≤ 70 then c.toNat - 55
  else c.toNat - 87

/-- The upper-case digit of a value below sixteen. -/
def hexDigit (value : Nat) : Char :=
  hexDigits.getD value '0'

/-- The text starts with an escape: a percent sign and two hexadecimal digits. -/
def StartsEscape : List Char → Prop
  | '%' :: high :: low :: _ => high ∈ hexDigits ∧ low ∈ hexDigits
  | _ => False

instance : (text : List Char) → Decidable (StartsEscape text)
  | [] => isFalse id
  | [_] => isFalse (by simp [StartsEscape])
  | [_, _] => isFalse (by simp [StartsEscape])
  | c :: high :: low :: rest =>
      if percent : c = '%' then
        decidable_of_iff (high ∈ hexDigits ∧ low ∈ hexDigits) (by rw [percent, StartsEscape])
      else
        isFalse (by
          intro starts
          unfold StartsEscape at starts
          split at starts
          · rename_i same
            cases same
            exact percent rfl
          · exact starts)

/-! ## Escaping -/

/-- The UTF-8 encoding of a text. -/
def utf8 (text : List Char) : List UInt8 :=
  text.flatMap String.utf8EncodeChar

def escapeByte (byte : UInt8) : List Char :=
  ['%', hexDigit (byte.toNat / 16), hexDigit (byte.toNat % 16)]

/-- A character as the escapes of its UTF-8 bytes. -/
def percentEncode (c : Char) : List Char :=
  (String.utf8EncodeChar c).flatMap escapeByte

/-- Escape the characters that may not occur in a URI; reserved characters and
escapes that are there stay as they are. -/
def escapeIllegal : List Char → List Char
  | [] => []
  | c :: rest =>
      if Legal c ∨ StartsEscape (c :: rest) then c :: escapeIllegal rest
      else percentEncode c ++ escapeIllegal rest

/-! ## Parsing -/

/-- The bytes that a component of a query stands for. -/
def decodeBytes : List Char → List UInt8
  | [] => []
  | '%' :: high :: low :: rest =>
      if high ∈ hexDigits ∧ low ∈ hexDigits then
        UInt8.ofNat (16 * hexValue high + hexValue low) :: decodeBytes rest
      else
        String.utf8EncodeChar '%' ++ decodeBytes (high :: low :: rest)
  | c :: rest => String.utf8EncodeChar (if c = '+' then ' ' else c) ++ decodeBytes rest

/-- The text that a component of a query stands for, if its bytes are UTF-8. -/
def decode (component : List Char) : Option (List Char) :=
  (decodeBytes component).toByteArray.utf8Decode?.map Array.toList

/-- The query of a URL: from the first question mark up to the fragment. -/
def query (url : List Char) : List Char :=
  ((url.takeWhile (· ≠ '#')).dropWhile (· ≠ '?')).drop 1

/-- The name and the value of one part of a query, divided at the first equals
sign and decoded. -/
def parameter (part : List Char) : Option (List Char) × Option (List Char) :=
  (decode (part.takeWhile (· ≠ '=')), decode ((part.dropWhile (· ≠ '=')).drop 1))

/-- The parameters of a URL; empty parts do not count. -/
def parameters (url : List Char) : List (Option (List Char) × Option (List Char)) :=
  (((query url).splitOn '&').filter (· ≠ [])).map parameter

/-! ## Small facts about escapes -/

theorem not_legal_percent : ¬ Legal '%' := by
  decide

theorem legal_of_hex {c : Char} (hex : c ∈ hexDigits) : Legal c := by
  have subset : ∀ c ∈ hexDigits, Unreserved c :=
    List.all_iff_forall_prop.mp (by decide)
  exact .inl (subset c hex)

theorem startsEscape_iff {c : Char} {rest : List Char} :
    StartsEscape (c :: rest) ↔
      ∃ high low after, c = '%' ∧ rest = high :: low :: after ∧
        high ∈ hexDigits ∧ low ∈ hexDigits := by
  constructor
  · intro starts
    unfold StartsEscape at starts
    split at starts
    · rename_i high low after same
      cases same
      exact ⟨high, low, after, rfl, rfl, starts⟩
    · exact starts.elim
  · rintro ⟨high, low, after, rfl, rfl, digits⟩
    exact digits

/-- A character that is no hexadecimal digit ends every escape. -/
theorem startsEscape_append_cons {c separator : Char} (other : separator ∉ hexDigits)
    (text rest : List Char) :
    StartsEscape (c :: text ++ separator :: rest) ↔ StartsEscape (c :: text) := by
  match text with
  | [] =>
      constructor
      · intro starts
        rcases startsEscape_iff.mp starts with ⟨high, low, after, _, same, digit, _⟩
        cases same
        exact absurd digit other
      · intro starts
        rcases startsEscape_iff.mp starts with ⟨high, low, after, _, same, _⟩
        cases same
  | [first] =>
      constructor
      · intro starts
        rcases startsEscape_iff.mp starts with ⟨high, low, after, _, same, _, digit⟩
        cases same
        exact absurd digit other
      · intro starts
        rcases startsEscape_iff.mp starts with ⟨high, low, after, _, same, _⟩
        cases same
  | first :: second :: others =>
      constructor
      · intro starts
        rcases startsEscape_iff.mp starts with ⟨high, low, after, percent, same, digits⟩
        cases same
        exact startsEscape_iff.mpr ⟨_, _, _, percent, rfl, digits⟩
      · intro starts
        rcases startsEscape_iff.mp starts with ⟨high, low, after, percent, same, digits⟩
        cases same
        exact startsEscape_iff.mpr ⟨_, _, _, percent, rfl, digits⟩

/-! ## Escaping and joining -/

/-- A legal beginning stays as it is. -/
theorem escapeIllegal_legal_append {beginning : List Char} (legal : ∀ c ∈ beginning, Legal c)
    (rest : List Char) : escapeIllegal (beginning ++ rest) = beginning ++ escapeIllegal rest := by
  induction beginning with
  | nil => rfl
  | cons c beginning ih =>
      rw [List.cons_append, escapeIllegal, if_pos (.inl (legal c List.mem_cons_self)),
        ih fun other member => legal other (List.mem_cons_of_mem c member)]
      rfl

/-- A legal character that is no hexadecimal digit, so no part of an escape. -/
def Separator (c : Char) : Prop :=
  Legal c ∧ c ∉ hexDigits

theorem separator_ampersand : Separator '&' := by
  constructor <;> decide

theorem separator_numberSign : Separator '#' := by
  constructor <;> decide

theorem Separator.ne_percent {c : Char} (separates : Separator c) : c ≠ '%' := by
  rintro rfl
  exact not_legal_percent separates.1

/-- No escape reaches over a separator. -/
theorem escapeIllegal_append_cons {separator : Char} (separates : Separator separator)
    (text rest : List Char) :
    escapeIllegal (text ++ separator :: rest) =
      escapeIllegal text ++ separator :: escapeIllegal rest := by
  induction text with
  | nil => exact if_pos (Or.inl separates.1)
  | cons c text ih =>
      have same := startsEscape_append_cons (c := c) separates.2 text rest
      rw [List.cons_append] at same ⊢
      rw [escapeIllegal, escapeIllegal, ih]
      by_cases kept : Legal c ∨ StartsEscape (c :: text)
      · rw [if_pos kept, if_pos (kept.imp_right same.mpr)]
        rfl
      · rw [if_neg kept, if_neg fun kept' => kept (kept'.imp_right same.mp), List.append_assoc]

theorem hexDigit_mem : ∀ value < 16, hexDigit value ∈ hexDigits := by
  decide

theorem hexValue_hexDigit : ∀ value < 16, hexValue (hexDigit value) = value := by
  decide

/-- Escaping brings in percent signs and hexadecimal digits only. -/
theorem not_mem_escapeIllegal {c : Char} (separates : Separator c) {text : List Char}
    (absent : c ∉ text) : c ∉ escapeIllegal text := by
  have inEscape : ∀ byte, c ∉ escapeByte byte := by
    intro byte member
    have high : byte.toNat / 16 < 16 := Nat.div_lt_of_lt_mul byte.toNat_lt
    have low : byte.toNat % 16 < 16 := Nat.mod_lt _ (by decide)
    simp only [escapeByte, List.mem_cons, List.not_mem_nil, or_false] at member
    rcases member with rfl | rfl | rfl
    · exact separates.ne_percent rfl
    · exact separates.2 (hexDigit_mem _ high)
    · exact separates.2 (hexDigit_mem _ low)
  induction text with
  | nil => exact absent
  | cons first rest ih =>
      rw [List.mem_cons, not_or] at absent
      rw [escapeIllegal]
      split
      · rw [List.mem_cons, not_or]
        exact ⟨absent.1, ih absent.2⟩
      · rw [List.mem_append, not_or]
        constructor
        · intro member
          rcases List.mem_flatMap.mp member with ⟨byte, _, inside⟩
          exact inEscape byte inside
        · exact ih absent.2

/-! ## Decoding -/

theorem decodeBytes_cons {c : Char} (other : c ≠ '%') (rest : List Char) :
    decodeBytes (c :: rest) =
      String.utf8EncodeChar (if c = '+' then ' ' else c) ++ decodeBytes rest := by
  rw [decodeBytes]
  intro high low after same
  exact absurd same other

theorem decodeBytes_escape {high low : Char} (hexHigh : high ∈ hexDigits)
    (hexLow : low ∈ hexDigits) (rest : List Char) :
    decodeBytes ('%' :: high :: low :: rest) =
      UInt8.ofNat (16 * hexValue high + hexValue low) :: decodeBytes rest := by
  rw [decodeBytes, if_pos ⟨hexHigh, hexLow⟩]

theorem decodeBytes_escapeByte (byte : UInt8) (rest : List Char) :
    decodeBytes (escapeByte byte ++ rest) = byte :: decodeBytes rest := by
  have high : byte.toNat / 16 < 16 := Nat.div_lt_of_lt_mul byte.toNat_lt
  have low : byte.toNat % 16 < 16 := Nat.mod_lt _ (by decide)
  change decodeBytes ('%' :: hexDigit (byte.toNat / 16) :: hexDigit (byte.toNat % 16) :: rest) = _
  rw [decodeBytes_escape (hexDigit_mem _ high) (hexDigit_mem _ low), hexValue_hexDigit _ high,
    hexValue_hexDigit _ low, Nat.div_add_mod, UInt8.ofNat_toNat]

/-- Escaped characters are decoded to themselves. -/
theorem decodeBytes_percentEncode (c : Char) (rest : List Char) :
    decodeBytes (percentEncode c ++ rest) = String.utf8EncodeChar c ++ decodeBytes rest := by
  have general : ∀ bytes : List UInt8,
      decodeBytes (bytes.flatMap escapeByte ++ rest) = bytes ++ decodeBytes rest := by
    intro bytes
    induction bytes with
    | nil => rfl
    | cons byte bytes ih =>
        rw [List.flatMap_cons, List.append_assoc, decodeBytes_escapeByte, ih]
        rfl
  exact general _

theorem decode_eq_some_iff {component text : List Char} :
    decode component = some text ↔ decodeBytes component = utf8 text := by
  constructor
  · intro decoded
    rcases Option.map_eq_some_iff.mp decoded with ⟨array, found, rfl⟩
    have bytes := ByteArray.utf8Encode_get_utf8Decode?
      (b := (decodeBytes component).toByteArray) (h := by rw [found]; rfl)
    simp only [found, Option.get_some, List.utf8Encode] at bytes
    exact (List.toByteArray_inj.mp bytes).symm
  · intro bytes
    rw [decode, bytes]
    change Option.map _ text.utf8Encode.utf8Decode? = _
    rw [List.utf8Decode?_utf8Encode]
    rfl

/-! ## Parsing joined parts -/

theorem decide_ne_of_not_mem {c : Char} {text : List Char} (absent : c ∉ text) :
    ∀ other ∈ text, decide (other ≠ c) = true := by
  intro other member
  exact decide_eq_true fun same => absent (same ▸ member)

theorem takeWhile_ne_append {c : Char} {text : List Char} (absent : c ∉ text) (rest : List Char) :
    (text ++ rest).takeWhile (· ≠ c) = text ++ rest.takeWhile (· ≠ c) :=
  List.takeWhile_append_of_pos (decide_ne_of_not_mem absent)

theorem takeWhile_ne_eq_self_iff {c : Char} {text : List Char} :
    text.takeWhile (· ≠ c) = text ↔ c ∉ text := by
  rw [List.takeWhile_eq_self_iff]
  constructor
  · intro all member
    exact of_decide_eq_true (all c member) rfl
  · exact decide_ne_of_not_mem

/-- The query starts behind the first question mark and ends at the fragment. -/
theorem query_append_cons {beginning : List Char} (noMark : '?' ∉ beginning)
    (noFragment : '#' ∉ beginning) (rest : List Char) :
    query (beginning ++ '?' :: rest) = rest.takeWhile (· ≠ '#') := by
  rw [query, takeWhile_ne_append noFragment,
    List.dropWhile_append_of_pos (decide_ne_of_not_mem noMark)]
  rfl

/-- A part of a query is divided at its first equals sign. -/
theorem parameter_append_cons {name : List Char} (noEquals : '=' ∉ name) (value : List Char) :
    parameter (name ++ '=' :: value) = (decode name, decode value) := by
  rw [parameter, takeWhile_ne_append noEquals,
    List.dropWhile_append_of_pos (decide_ne_of_not_mem noEquals),
    List.takeWhile_cons_of_neg (by decide), List.append_nil]
  rfl

/-! ## What arrives -/

/-- Induction over a text, taking each escape as a whole. -/
@[elab_as_elim]
theorem escapeInduction {motive : List Char → Prop} (nil : motive [])
    (escape : ∀ high low rest, high ∈ hexDigits → low ∈ hexDigits → motive rest →
      motive ('%' :: high :: low :: rest))
    (cons : ∀ c rest, ¬ StartsEscape (c :: rest) → motive rest → motive (c :: rest))
    (text : List Char) : motive text := by
  have bounded : ∀ n (text : List Char), text.length ≤ n → motive text := by
    intro n
    induction n with
    | zero =>
        intro text short
        rw [List.eq_nil_of_length_eq_zero (Nat.le_zero.mp short)]
        exact nil
    | succ n ih =>
        intro text short
        cases text with
        | nil => exact nil
        | cons c rest =>
            by_cases starts : StartsEscape (c :: rest)
            · rcases startsEscape_iff.mp starts with ⟨high, low, after, rfl, rfl, hexHigh, hexLow⟩
              apply escape high low after hexHigh hexLow
              apply ih
              simp only [List.length_cons] at short
              omega
            · exact cons c rest starts (ih rest (Nat.le_of_succ_le_succ short))
  exact bounded text.length text (Nat.le_refl _)

/-- An escape that was there arrives as the byte it stands for. -/
theorem decodeBytes_escapeIllegal_escape {high low : Char} (hexHigh : high ∈ hexDigits)
    (hexLow : low ∈ hexDigits) (rest : List Char) :
    decodeBytes (escapeIllegal ('%' :: high :: low :: rest)) =
      UInt8.ofNat (16 * hexValue high + hexValue low) :: decodeBytes (escapeIllegal rest) := by
  have kept : escapeIllegal ('%' :: high :: low :: rest) =
      '%' :: high :: low :: escapeIllegal rest := by
    have digits : ∀ c ∈ [high, low], Legal c := by
      intro c member
      simp only [List.mem_cons, List.not_mem_nil, or_false] at member
      rcases member with rfl | rfl
      · exact legal_of_hex hexHigh
      · exact legal_of_hex hexLow
    have starts : StartsEscape ('%' :: high :: low :: rest) := ⟨hexHigh, hexLow⟩
    rw [escapeIllegal, if_pos (Or.inr starts)]
    exact congrArg ('%' :: ·) (escapeIllegal_legal_append digits rest)
  rw [kept, decodeBytes_escape hexHigh hexLow]

/-- Any other character arrives as itself, except that a plus sign arrives as a
blank. -/
theorem decodeBytes_escapeIllegal_cons {c : Char} {rest : List Char}
    (other : ¬ StartsEscape (c :: rest)) :
    decodeBytes (escapeIllegal (c :: rest)) =
      String.utf8EncodeChar (if c = '+' then ' ' else c) ++ decodeBytes (escapeIllegal rest) := by
  rw [escapeIllegal]
  by_cases legal : Legal c
  · rw [if_pos (.inl legal), decodeBytes_cons]
    rintro rfl
    exact not_legal_percent legal
  · have noPlus : c ≠ '+' := by
      rintro rfl
      exact legal (by decide)
    rw [if_neg (not_or.mpr ⟨legal, other⟩), decodeBytes_percentEncode, if_neg noPlus]

theorem utf8_cons (c : Char) (text : List Char) :
    utf8 (c :: text) = String.utf8EncodeChar c ++ utf8 text :=
  List.flatMap_cons

theorem utf8_append (first second : List Char) : utf8 (first ++ second) = utf8 first ++ utf8 second :=
  List.flatMap_append

/-- A plus sign and a blank take one byte each. -/
theorem length_utf8EncodeChar_plus (c : Char) :
    (String.utf8EncodeChar (if c = '+' then ' ' else c)).length =
      (String.utf8EncodeChar c).length := by
  split
  · rename_i plus
    rw [plus]
    rfl
  · rfl

theorem length_utf8_escape (high low : Char) (rest : List Char) :
    (utf8 rest).length + 1 < (utf8 ('%' :: high :: low :: rest)).length := by
  have positive : ∀ c : Char, 0 < (String.utf8EncodeChar c).length := fun c =>
    List.length_pos_iff.mpr String.utf8EncodeChar_ne_nil
  have percent := positive '%'
  have first := positive high
  have second := positive low
  simp only [utf8_cons, List.length_append]
  omega

/-- No more bytes arrive than were typed. -/
theorem length_decodeBytes_escapeIllegal_le (text : List Char) :
    (decodeBytes (escapeIllegal text)).length ≤ (utf8 text).length := by
  induction text using escapeInduction with
  | nil => exact Nat.le_refl _
  | escape high low rest hexHigh hexLow ih =>
      rw [decodeBytes_escapeIllegal_escape hexHigh hexLow, List.length_cons]
      have longer := length_utf8_escape high low rest
      omega
  | cons c rest other ih =>
      rw [decodeBytes_escapeIllegal_cons other, utf8_cons, List.length_append, List.length_append,
        length_utf8EncodeChar_plus]
      omega

/-- There is no plus sign and no escape in the text. -/
def Plain (text : List Char) : Prop :=
  '+' ∉ text ∧ ∀ rest, rest <:+ text → ¬ StartsEscape rest

instance (text : List Char) : Decidable (Plain text) :=
  decidable_of_iff ('+' ∉ text ∧ ∀ rest ∈ text.tails, ¬ StartsEscape rest)
    (by simp only [List.mem_tails, Plain])

theorem plain_cons {c : Char} {rest : List Char} (other : ¬ StartsEscape (c :: rest)) :
    Plain (c :: rest) ↔ c ≠ '+' ∧ Plain rest := by
  constructor
  · rintro ⟨noPlus, noEscape⟩
    rw [List.mem_cons, not_or] at noPlus
    exact ⟨Ne.symm noPlus.1, noPlus.2, fun after inside =>
      noEscape after (inside.trans (List.suffix_cons c rest))⟩
  · rintro ⟨noPlus, plain⟩
    constructor
    · rw [List.mem_cons, not_or]
      exact ⟨Ne.symm noPlus, plain.1⟩
    · intro after inside
      rcases List.suffix_cons_iff.mp inside with rfl | inRest
      · exact other
      · exact plain.2 after inRest

/-- A text arrives as it was typed exactly when it has no plus signs and no
escapes. -/
theorem decodeBytes_escapeIllegal_eq_iff (text : List Char) :
    decodeBytes (escapeIllegal text) = utf8 text ↔ Plain text := by
  induction text using escapeInduction with
  | nil =>
      constructor
      · intro _
        constructor
        · exact List.not_mem_nil
        · intro rest inside starts
          rw [List.suffix_nil.mp inside] at starts
          exact starts
      · exact fun _ => rfl
  | escape high low rest hexHigh hexLow ih =>
      constructor
      · intro same
        have lengths := congrArg List.length same
        rw [decodeBytes_escapeIllegal_escape hexHigh hexLow, List.length_cons] at lengths
        have shorter := length_decodeBytes_escapeIllegal_le rest
        have longer := length_utf8_escape high low rest
        omega
      · intro plain
        exact absurd ⟨hexHigh, hexLow⟩ (plain.2 _ (List.suffix_refl _))
  | cons c rest other ih =>
      rw [decodeBytes_escapeIllegal_cons other, utf8_cons, plain_cons other, ← ih]
      constructor
      · intro same
        rcases List.append_inj same (length_utf8EncodeChar_plus c) with ⟨first, others⟩
        constructor
        · rintro rfl
          exact absurd first (by decide)
        · exact others
      · rintro ⟨noPlus, others⟩
        rw [if_neg noPlus, others]

end DyeIsLife.Web
