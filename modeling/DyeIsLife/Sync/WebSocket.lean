import DyeIsLife.Sync.Path

/-!
# Messages as frames

`send:` cuts a long message into segments and announces their number in a frame
of its own; `handleIncomingFrame:` puts the segments together again.  A frame
of at most four characters that reads as a positive number is taken for such an
announcement, every other one for a whole message.

A reader that starts idle gets exactly the messages that were sent, as long as
no message has more than 9999 segments and no segment boundary cuts a surrogate
pair: the socket drops a segment that is not valid text.
-/

namespace DyeIsLife.Sync

/-- What a socket keeps while it puts a message together. -/
structure FWebSocketConnection where
  frame : Option (List Nat)
  totalFrames : Int
  deriving DecidableEq

namespace FWebSocketConnection

/-! ## Sending -/

/-- `kWebsocketMaxFrameSize`. -/
def maxFrameSize : Nat := 16384

/-- The loop of `splitString:intoMaxSize:`, from position `c` on. -/
def splitFrom (str : List Nat) (size : Nat) : Nat → Nat → List (List Nat)
  | 0, _ => []
  | fuel + 1, c =>
      if c < str.length then
        (str.drop c).take (if c + size > str.length then size - ((c + size) - str.length) else size) ::
          splitFrom str size fuel (c + size)
      else []

/-- `splitString:intoMaxSize:`; a text has no more segments than characters. -/
def splitString (str : List Nat) (size : Nat) : List (List Nat) :=
  if str.length ≤ size then [str] else splitFrom str size str.length 0

/-- `%u`. -/
def decimal (count : Nat) : List Nat :=
  (Nat.toDigits 10 count).map Char.toNat

/-- The frames that `send:` hands to the socket. -/
def frames (data : List Nat) : List (List Nat) :=
  let dataSegs := splitString data maxFrameSize
  (if dataSegs.length > 1 then [decimal dataSegs.length] else []) ++ dataSegs

/-- Text without a surrogate that stands alone; only such text can be converted
to UTF-8. -/
def convertible : List Nat → Bool
  | [] => true
  | [unit] => unit < 55296 || 57343 < unit
  | unit :: next :: rest =>
      if 55296 ≤ unit ∧ unit ≤ 56319 then 56320 ≤ next && next ≤ 57343 && convertible rest
      else (unit < 55296 || 57343 < unit) && convertible (next :: rest)

/-- What the socket's `send:` puts on the wire: text that cannot be converted
is dropped. -/
def transmit (sent : List (List Nat)) : List (List Nat) :=
  sent.filter convertible

/-! ## Receiving -/

/-- The digits at the front of a text. -/
def scanDigits : Nat → List Nat → Nat
  | value, [] => value
  | value, unit :: rest =>
      if unit < 48 ∨ unit > 57 then value else scanDigits (value * 10 + (unit - 48)) rest

/-- `intValue`: blanks, a sign and digits are read, the rest is ignored, and
what is too large is cut off. -/
def intValue (message : List Nat) : Int :=
  match message.dropWhile fun unit => unit = 32 || (9 ≤ unit && unit ≤ 13) with
  | 45 :: rest => max (-2147483648) (-(scanDigits 0 rest : Int))
  | 43 :: rest => min 2147483647 (scanDigits 0 rest : Int)
  | rest => min 2147483647 (scanDigits 0 rest : Int)

/-- `initWith:andQueue:lastSessionID:`. -/
def init : FWebSocketConnection :=
  ⟨none, 0⟩

/-- `handleNewFrameCount:`. -/
def handleNewFrameCount (numFrames : Int) : FWebSocketConnection :=
  ⟨some [], numFrames⟩

/-- `extractFrameCount:`. -/
def extractFrameCount (message : List Nat) : FWebSocketConnection × Option (List Nat) :=
  if message.length ≤ 4 ∧ intValue message > 0 then (handleNewFrameCount (intValue message), none)
  else (handleNewFrameCount 1, some message)

/-- `appendFrame:`, with the text that is passed on, if any. -/
def appendFrame (message : List Nat) (conn : FWebSocketConnection) :
    FWebSocketConnection × List (List Nat) :=
  let frame := conn.frame.map fun frame => frame ++ message
  if conn.totalFrames - 1 = 0 then (⟨none, 0⟩, frame.toList)
  else (⟨frame, conn.totalFrames - 1⟩, [])

/-- `handleIncomingFrame:`. -/
def handleIncomingFrame (conn : FWebSocketConnection) (message : List Nat) :
    FWebSocketConnection × List (List Nat) :=
  if conn.frame.isSome then conn.appendFrame message
  else
    match extractFrameCount message with
    | (next, some remaining) => next.appendFrame remaining
    | (next, none) => (next, [])

/-- All frames of a stream, with the texts passed on. -/
def receive (conn : FWebSocketConnection) : List (List Nat) →
    FWebSocketConnection × List (List Nat)
  | [] => (conn, [])
  | message :: stream =>
      let handled := conn.handleIncomingFrame message
      let rest := receive handled.1 stream
      (rest.1, handled.2 ++ rest.2)

theorem receive_append (conn : FWebSocketConnection) (first second : List (List Nat)) :
    conn.receive (first ++ second) =
      (((conn.receive first).1.receive second).1,
        (conn.receive first).2 ++ ((conn.receive first).1.receive second).2) := by
  induction first generalizing conn with
  | nil => rfl
  | cons message first ih =>
      simp only [List.cons_append, receive, ih, List.append_assoc]

/-! ## Segments -/

section Segments

variable {str : List Nat} {size : Nat}

/-- One round of the loop takes at most `size` characters. -/
theorem splitFrom_succ (fuel : Nat) {c : Nat} (inside : c < str.length) :
    splitFrom str size (fuel + 1) c =
      (str.drop c).take size :: splitFrom str size fuel (c + size) := by
  rw [splitFrom, if_pos inside]
  congr 1
  split
  · rw [List.take_of_length_le, List.take_of_length_le]
    · rw [List.length_drop]
      omega
    · rw [List.length_drop]
      omega
  · rfl

theorem flatten_splitFrom {fuel c : Nat}
    (enough : str.length ≤ c + fuel * size) :
    (splitFrom str size fuel c).flatten = str.drop c := by
  induction fuel generalizing c with
  | zero =>
      rw [List.drop_of_length_le (by omega)]
      rfl
  | succ fuel ih =>
      by_cases inside : c < str.length
      · rw [splitFrom_succ fuel inside, List.flatten_cons, ih (by rw [Nat.succ_mul] at enough; omega),
          ← List.drop_drop, List.take_append_drop]
      · rw [splitFrom, if_neg inside, List.drop_of_length_le (by omega)]
        rfl

theorem length_splitFrom {fuel c : Nat} (positive : 0 < size)
    (enough : str.length ≤ c + fuel * size) :
    (splitFrom str size fuel c).length = (str.length - c + (size - 1)) / size := by
  induction fuel generalizing c with
  | zero =>
      rw [splitFrom, List.length_nil, Nat.div_eq_of_lt]
      omega
  | succ fuel ih =>
      by_cases inside : c < str.length
      · rw [splitFrom_succ fuel inside, List.length_cons,
          ih (by rw [Nat.succ_mul] at enough; omega)]
        rw [← Nat.add_div_right _ positive]
        by_cases full : c + size ≤ str.length
        · congr 1
          omega
        · -- the last segment is not full
          rw [show str.length - (c + size) + (size - 1) + size = (size - 1) + size by omega,
            show str.length - c + (size - 1) = (str.length - c - 1) + size by omega,
            Nat.add_div_right _ positive, Nat.add_div_right _ positive, Nat.div_eq_of_lt (by omega),
            Nat.div_eq_of_lt (by omega)]
      · rw [splitFrom, if_neg inside, List.length_nil, Nat.div_eq_of_lt]
        omega

theorem flatten_splitString (positive : 0 < size) : (splitString str size).flatten = str := by
  rw [splitString]
  split
  · rw [List.flatten_singleton]
  · rw [flatten_splitFrom, List.drop_zero]
    rw [Nat.zero_add]
    exact Nat.le_mul_of_pos_right _ positive

theorem length_splitString (positive : 0 < size) (filled : 0 < str.length) :
    (splitString str size).length = (str.length + (size - 1)) / size := by
  rw [splitString]
  split
  · rw [List.length_singleton, show str.length + (size - 1) = (str.length - 1) + size by omega,
      Nat.add_div_right _ positive, Nat.div_eq_of_lt (by omega)]
  · rw [length_splitFrom positive, Nat.sub_zero]
    rw [Nat.zero_add]
    exact Nat.le_mul_of_pos_right _ positive

end Segments

/-! ## Announcements -/

theorem scanDigits_digits {chars : List Char} (digits : ∀ char ∈ chars, char.isDigit = true)
    (value : Nat) : scanDigits value (chars.map Char.toNat) = Nat.ofDigitChars 10 chars value := by
  induction chars generalizing value with
  | nil => rfl
  | cons char chars ih =>
      have digit := Char.isDigit_iff_toNat.mp (digits char List.mem_cons_self)
      have least : 48 ≤ char.toNat := digit.1
      have most : char.toNat ≤ 57 := digit.2
      rw [List.map_cons, scanDigits, if_neg (by omega), Nat.ofDigitChars_cons, Nat.mul_comm]
      exact ih (fun other member => digits other (List.mem_cons_of_mem char member)) _

/-- A text that starts with neither a blank nor a sign. -/
theorem intValue_cons {unit : Nat} (rest : List Nat) (ordinary : 45 < unit) :
    intValue (unit :: rest) = min 2147483647 (scanDigits 0 (unit :: rest) : Int) := by
  have kept : (unit :: rest).dropWhile (fun unit => unit = 32 || (9 ≤ unit && unit ≤ 13)) =
      unit :: rest := by
    apply List.dropWhile_cons_of_neg
    simp
    omega
  rw [intValue, kept]
  split
  · rename_i same
    rw [List.cons.injEq] at same
    omega
  · rename_i same
    rw [List.cons.injEq] at same
    omega
  · rfl

theorem intValue_decimal {count : Nat} (small : count ≤ 2147483647) :
    intValue (decimal count) = count := by
  have digits : ∀ char ∈ Nat.toDigits 10 count, char.isDigit = true :=
    fun _ member => Nat.isDigit_of_mem_toDigits (by decide) (by decide) member
  have value := scanDigits_digits digits 0
  rw [Nat.ofDigitChars_ten_toDigits] at value
  rw [decimal]
  cases written : Nat.toDigits 10 count with
  | nil => exact absurd written Nat.toDigits_ne_nil
  | cons char chars =>
      rw [written] at digits value
      have least : 48 ≤ char.toNat := (Char.isDigit_iff_toNat.mp (digits char List.mem_cons_self)).1
      rw [List.map_cons] at value ⊢
      rw [intValue_cons _ (by omega), value]
      omega

/-- A text that starts with a brace is not a number. -/
theorem intValue_brace (rest : List Nat) : intValue (123 :: rest) = 0 :=
  intValue_cons rest (by decide)

theorem length_decimal_le_iff (count : Nat) : (decimal count).length ≤ 4 ↔ count < 10000 := by
  rw [decimal, List.length_map]
  exact Nat.length_toDigits_le_iff (by decide) (by decide)

/-! ## One message -/

/-- Segments that were announced are put together. -/
theorem receive_segments {segments : List (List Nat)} (some : segments ≠ []) (frame : List Nat) :
    receive ⟨Option.some frame, segments.length⟩ segments =
      (init, [frame ++ segments.flatten]) := by
  induction segments generalizing frame with
  | nil => contradiction
  | cons segment segments ih =>
      simp only [receive, handleIncomingFrame, Option.isSome_some, if_true, appendFrame]
      cases segments with
      | nil =>
          simp [receive, init]
      | cons next segments =>
          have more : ¬ ((segment :: next :: segments).length : Int) - 1 = 0 := by
            simp only [List.length_cons]
            omega
          have left : ((segment :: next :: segments).length : Int) - 1 =
              (next :: segments).length := by
            simp only [List.length_cons]
            omega
          rw [if_neg more]
          simp only [left]
          rw [Option.map_some, ih (by simp)]
          simp

/-- Segments that were announced and are too few leave the reader waiting. -/
theorem receive_too_few {segments : List (List Nat)} {count : Nat}
    (few : segments.length < count) (frame : List Nat) :
    (receive ⟨some frame, count⟩ segments).2 = [] := by
  induction segments generalizing frame count with
  | nil => rfl
  | cons segment segments ih =>
      rw [List.length_cons] at few
      have more : ¬ (count : Int) - 1 = 0 := by omega
      have left : (count : Int) - 1 = ((count - 1 : Nat) : Int) := by omega
      simp only [receive, handleIncomingFrame, Option.isSome_some, if_true, appendFrame]
      rw [if_neg more]
      simp only [left]
      rw [Option.map_some, ih (by omega)]
      rfl

/-- An announcement. -/
theorem receive_decimal {count : Nat} (positive : 0 < count) (small : count < 10000)
    (stream : List (List Nat)) :
    init.receive (decimal count :: stream) = receive ⟨some [], count⟩ stream := by
  have value := intValue_decimal (show count ≤ 2147483647 by omega)
  have announces : (decimal count).length ≤ 4 ∧ intValue (decimal count) > 0 :=
    ⟨(length_decimal_le_iff count).mpr small, by omega⟩
  simp only [receive, handleIncomingFrame, init, Option.isSome_none, Bool.false_eq_true, if_false,
    extractFrameCount]
  rw [if_pos announces]
  simp [handleNewFrameCount, value]

/-- A frame that announces nothing is a whole message. -/
theorem receive_whole {message : List Nat} (whole : ¬ (message.length ≤ 4 ∧ intValue message > 0))
    (stream : List (List Nat)) :
    init.receive (message :: stream) =
      ((init.receive stream).1, message :: (init.receive stream).2) := by
  simp only [receive, handleIncomingFrame, init, Option.isSome_none, Bool.false_eq_true, if_false,
    extractFrameCount]
  rw [if_neg whole]
  simp [handleNewFrameCount, appendFrame]

/-- A message that `send:` can be given: the JSON of a dictionary, with
positions that an integer of the loop can hold. -/
structure Message where
  data : List Nat
  object : data.head? = some 123
  addressable : data.length + maxFrameSize ≤ 2147483648

/-- A message that arrives: its segments can be counted with four digits and
are all valid text. -/
def Message.Fits (message : Message) : Prop :=
  message.data.length ≤ 9999 * maxFrameSize ∧
    ∀ segment ∈ splitString message.data maxFrameSize, convertible segment = true

theorem convertible_of_lt {text : List Nat} (small : ∀ unit ∈ text, unit < 55296) :
    convertible text = true := by
  induction text with
  | nil => rfl
  | cons unit text ih =>
      have here := small unit List.mem_cons_self
      have rest := ih fun other member => small other (List.mem_cons_of_mem unit member)
      cases text with
      | nil => simp [convertible, here]
      | cons next text =>
          rw [convertible, if_neg (by omega), rest]
          simp [here]

theorem convertible_decimal (count : Nat) : convertible (decimal count) = true := by
  apply convertible_of_lt
  intro unit member
  obtain ⟨char, written, rfl⟩ := List.mem_map.mp member
  have digit := Nat.isDigit_of_mem_toDigits (by decide) (by decide) written
  have most : char.toNat ≤ 57 := (Char.isDigit_iff_toNat.mp digit).2
  omega

theorem head?_decimal_ne (count : Nat) : (decimal count).head? ≠ some 123 := by
  intro braced
  rw [decimal, List.head?_map, Option.map_eq_some_iff] at braced
  obtain ⟨char, front, same⟩ := braced
  have digit := Nat.isDigit_of_mem_toDigits (by decide) (by decide) (List.mem_of_head? front)
  have most : char.toNat ≤ 57 := (Char.isDigit_iff_toNat.mp digit).2
  omega

theorem Message.exists_cons (message : Message) : ∃ rest, message.data = 123 :: rest := by
  cases written : message.data with
  | nil =>
      have object := message.object
      rw [written] at object
      contradiction
  | cons unit rest =>
      have object := message.object
      rw [written, List.head?_cons, Option.some.injEq] at object
      exact ⟨rest, by rw [object]⟩

/-- The number of segments of a message. -/
theorem Message.length_segments (message : Message) :
    (splitString message.data maxFrameSize).length = (message.data.length + 16383) / 16384 := by
  obtain ⟨rest, written⟩ := message.exists_cons
  apply length_splitString (by decide)
  rw [written]
  exact Nat.succ_pos _

/-- The frames of a message with one segment are that segment. -/
theorem Message.frames_of_short (message : Message) (short : message.data.length ≤ maxFrameSize) :
    frames message.data = [message.data] := by
  have one : splitString message.data maxFrameSize = [message.data] := by
    rw [splitString, if_pos short]
  rw [frames, one]
  rfl

/-- What a long message puts on the wire: the number of its segments and those
that are valid text. -/
theorem Message.transmit_of_long (message : Message) (long : ¬ message.data.length ≤ maxFrameSize) :
    transmit (frames message.data) =
      decimal (splitString message.data maxFrameSize).length ::
        transmit (splitString message.data maxFrameSize) := by
  have several : (splitString message.data maxFrameSize).length > 1 := by
    rw [message.length_segments]
    rw [maxFrameSize] at long
    omega
  rw [frames, if_pos several, transmit, List.singleton_append,
    List.filter_cons_of_pos (convertible_decimal _)]
  rfl

theorem transmit_of_convertible {sent : List (List Nat)}
    (valid : ∀ frame ∈ sent, convertible frame = true) : transmit sent = sent :=
  List.filter_eq_self.mpr valid

/-- A message that is not too long and has no surrogates fits. -/
theorem Message.fits_of_lt {message : Message}
    (short : message.data.length ≤ 9999 * maxFrameSize)
    (small : ∀ unit ∈ message.data, unit < 55296) : message.Fits := by
  constructor
  · exact short
  · intro segment member
    apply convertible_of_lt
    intro unit inside
    have whole : (splitString message.data maxFrameSize).flatten = message.data :=
      flatten_splitString (by decide)
    apply small
    rw [← whole]
    exact List.mem_flatten.mpr ⟨segment, member, inside⟩

theorem Message.whole (message : Message) :
    ¬ (message.data.length ≤ 4 ∧ intValue message.data > 0) := by
  obtain ⟨rest, written⟩ := message.exists_cons
  rw [written, intValue_brace]
  omega

/-- A message that fits is passed on, and the reader is idle again. -/
theorem Message.Fits.receive {message : Message} (fits : message.Fits) (stream : List (List Nat)) :
    init.receive (transmit (frames message.data) ++ stream) =
      ((init.receive stream).1, message.data :: (init.receive stream).2) := by
  by_cases short : message.data.length ≤ maxFrameSize
  · have valid : convertible message.data = true := by
      apply fits.2
      rw [splitString, if_pos short]
      exact List.mem_singleton_self _
    rw [message.frames_of_short short, transmit_of_convertible (by simpa using valid)]
    exact receive_whole message.whole stream
  · have count := message.length_segments
    have most := fits.1
    rw [maxFrameSize] at most
    have small : (splitString message.data maxFrameSize).length < 10000 := by omega
    have positive : 0 < (splitString message.data maxFrameSize).length := by
      rw [maxFrameSize] at short
      omega
    have parts := receive_segments (List.ne_nil_of_length_pos positive) []
    rw [message.transmit_of_long short, transmit_of_convertible fits.2, List.cons_append,
      receive_decimal positive small, receive_append, parts, List.nil_append,
      flatten_splitString (by decide)]
    rfl

/-- A message arrives exactly when it has at most 9999 segments and no segment
boundary cuts a surrogate pair. -/
theorem receive_eq_iff_fits (message : Message) :
    init.receive (transmit (frames message.data)) = (init, [message.data]) ↔ message.Fits := by
  constructor
  · intro arrived
    have passed := congrArg Prod.snd arrived
    by_cases short : message.data.length ≤ maxFrameSize
    · constructor
      · exact Nat.le_trans short (by decide)
      · rw [splitString, if_pos short]
        rw [message.frames_of_short short] at passed
        intro segment member
        rw [List.mem_singleton.mp member]
        by_contra invalid
        rw [transmit, List.filter_cons_of_neg invalid] at passed
        contradiction
    · rw [message.transmit_of_long short] at passed
      have count := message.length_segments
      have positive : 0 < (splitString message.data maxFrameSize).length := by
        rw [maxFrameSize] at short
        omega
      by_cases small : (splitString message.data maxFrameSize).length < 10000
      · constructor
        · rw [maxFrameSize]
          omega
        · rw [receive_decimal positive small] at passed
          by_contra invalid
          have few : (transmit (splitString message.data maxFrameSize)).length <
              (splitString message.data maxFrameSize).length := by
            apply List.length_filter_lt_length_iff_exists.mpr
            simpa using invalid
          rw [receive_too_few few] at passed
          contradiction
      · -- a longer number is taken for a message, and a message starts with a brace
        have number : ¬ ((decimal (splitString message.data maxFrameSize).length).length ≤ 4 ∧
            intValue (decimal (splitString message.data maxFrameSize).length) > 0) := by
          rw [length_decimal_le_iff]
          omega
        rw [receive_whole number, List.cons.injEq] at passed
        have braced := message.object
        rw [← passed.1] at braced
        exact absurd braced (head?_decimal_ne _)
  · intro fits
    have received := fits.receive []
    rw [List.append_nil] at received
    exact received

/-! ## Every stream -/

/-- What is sent over a socket: messages, and the `0` of `nop:`. -/
inductive Transmission where
  | message (message : Message)
  | keepAlive

/-- The frames on the wire. -/
def Transmission.wire : Transmission → List (List Nat)
  | .message sent => transmit (frames sent.data)
  | .keepAlive => transmit [[48]]

/-- The text that the reader is to pass on. -/
def Transmission.text : Transmission → List Nat
  | .message sent => sent.data
  | .keepAlive => [48]

/-- A reader passes on what was sent, in order, and is idle at the end. -/
theorem receive_wire {sent : List Transmission}
    (fits : ∀ message, Transmission.message message ∈ sent → message.Fits) :
    init.receive (sent.flatMap Transmission.wire) = (init, sent.map Transmission.text) := by
  induction sent with
  | nil => rfl
  | cons transmission sent ih =>
      have rest := ih fun message member => fits message (List.mem_cons_of_mem transmission member)
      rw [List.flatMap_cons, List.map_cons]
      cases transmission with
      | message message =>
          rw [Transmission.wire, (fits message List.mem_cons_self).receive, rest]
          rfl
      | keepAlive =>
          have idle : ¬ (([48] : List Nat).length ≤ 4 ∧ intValue [48] > 0) := by decide
          rw [Transmission.wire, show transmit [[48]] = [[48]] by decide, List.singleton_append,
            receive_whole idle, rest]
          rfl

/-- A message of two segments. -/
def longMessage : Message where
  data := 123 :: List.replicate 16384 97
  object := rfl
  addressable := by
    rw [List.length_cons, List.length_replicate]
    decide

theorem receive_wire_longMessage :
    init.receive ([.message longMessage, .keepAlive, .message longMessage].flatMap
        Transmission.wire) =
      (init, [longMessage.data, [48], longMessage.data]) := by
  have fits : longMessage.Fits := by
    apply Message.fits_of_lt
    · rw [longMessage, List.length_cons, List.length_replicate]
      decide
    · intro unit member
      rcases List.mem_cons.mp member with rfl | member
      · decide
      · rw [List.eq_of_mem_replicate member]
        decide
  apply receive_wire
  intro message member
  simp only [List.mem_cons, Transmission.message.injEq, reduceCtorEq, List.not_mem_nil, or_false,
    false_or] at member
  rcases member with rfl | rfl <;> exact fits

end FWebSocketConnection

end DyeIsLife.Sync
