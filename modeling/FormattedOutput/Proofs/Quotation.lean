import FormattedOutput.Checked.PositionScan
import FormattedOutput.Proofs.Pieces

/-!
# What an error quotes

The check of a format literal by positions always has a result, and it is that of the check over
characters: each position at which a quoted text starts or stops lies between two characters. The
main statement is what is quoted then: the first directive that is not complete and supported, as
far as the one character that is no conversion, or as far as the literal goes.
-/

namespace FormattedOutput

open Bytes
open WordMachine (slice?)

theorem WordMachine.slice?_append (front middle back : Bytes) :
    slice? (front ++ middle ++ back) front.length (front ++ middle).length = some middle := by
  have order : front.length ≤ (front ++ middle).length := by simp
  have inside : (front ++ middle).length ≤ (front ++ middle ++ back).length := by simp
  rw [slice?, if_pos ⟨order, inside⟩, List.take_left, List.drop_left]

/-- An encoding stands for its text. -/
theorem Bytes.fromUTF8?_ofChars (text : List Char) :
    String.fromUTF8? (ofChars text).toByteArray = some (String.ofList text) := by
  have valid : (ofChars text).toByteArray.IsValidUTF8 := .intro text rfl
  rw [String.fromUTF8?, dif_pos valid]
  rfl

namespace PositionScan

section Boundaries

variable {character : Char} {position : Nat}

/-- Whether a position is a boundary does not hang on what stands in front of it. -/
theorem isBoundary_append (front back : Bytes) (offset : Nat) :
    isBoundary (front ++ back) (front.length + offset) = isBoundary back offset := by
  rw [isBoundary, isBoundary, List.getElem?_append_right (Nat.le_add_right _ _),
    Nat.add_sub_cancel_left, List.length_append]
  simp only [Nat.add_left_cancel_iff]

theorem isBoundary_zero (text : List Char) : isBoundary (ofChars text) 0 = true := by
  cases text with
  | nil => rfl
  | cons character rest =>
    have nonempty := List.length_pos_iff.mpr (String.utf8EncodeChar_ne_nil (c := character))
    have first : (String.utf8EncodeChar character)[0].IsUTF8FirstByte :=
      UInt8.isUTF8FirstByte_getElem_utf8EncodeChar.mpr rfl
    rw [isBoundary, ofChars_cons, List.getElem?_append_left nonempty,
      List.getElem?_eq_getElem nonempty]
    exact decide_eq_true first

/-- No position inside of a character is a boundary. -/
theorem isBoundary_inside (positive : 0 < position)
    (inside : position < (String.utf8EncodeChar character).length) (back : Bytes) :
    isBoundary (String.utf8EncodeChar character ++ back) position = false := by
  have later : ¬ (String.utf8EncodeChar character)[position].IsUTF8FirstByte := by
    rw [UInt8.isUTF8FirstByte_getElem_utf8EncodeChar]
    exact Nat.ne_of_gt positive
  rw [isBoundary, List.getElem?_append_left inside, List.getElem?_eq_getElem inside]
  exact decide_eq_false later

/-- The boundaries in an encoded text are the positions at which a first part of it ends. -/
theorem isBoundary_iff {text : List Char} :
    isBoundary (ofChars text) position = true ↔
      ∃ front back, text = front ++ back ∧ position = (ofChars front).length := by
  constructor
  · intro boundary
    induction text generalizing position with
    | nil => exact ⟨[], [], rfl, of_decide_eq_true boundary⟩
    | cons character rest ih =>
      rw [ofChars_cons] at boundary
      rcases Nat.lt_or_ge position (String.utf8EncodeChar character).length with inside | behind
      · rcases Nat.eq_zero_or_pos position with rfl | positive
        · exact ⟨[], character :: rest, rfl, rfl⟩
        · rw [isBoundary_inside positive inside] at boundary
          cases boundary
      · obtain ⟨offset, rfl⟩ := Nat.exists_eq_add_of_le behind
        rw [isBoundary_append] at boundary
        obtain ⟨front, back, rfl, rfl⟩ := ih boundary
        exact ⟨character :: front, back, rfl, by rw [ofChars_cons, List.length_append]⟩
  · rintro ⟨front, back, rfl, rfl⟩
    have start := isBoundary_append (ofChars front) (ofChars back) 0
    rwa [isBoundary_zero, Nat.add_zero, ← ofChars_append] at start

theorem isBoundary_ofChars (front back : List Char) :
    isBoundary (ofChars (front ++ back)) (ofChars front).length = true :=
  isBoundary_iff.mpr ⟨front, back, rfl, rfl⟩

/-- Any part of a text can be quoted. -/
theorem quote?_ofChars (front middle back : List Char) :
    quote? (ofChars (front ++ middle ++ back)) (ofChars front).length
      (ofChars (front ++ middle)).length = some (String.ofList middle) := by
  have start := isBoundary_ofChars front (middle ++ back)
  rw [← List.append_assoc] at start
  rw [quote?, if_pos ⟨start, isBoundary_ofChars (front ++ middle) back⟩]
  simp only [ofChars_append, WordMachine.slice?_append, Option.bind_some, fromUTF8?_ofChars]

/-- The first boundary behind the first byte of a character is behind the whole character. -/
theorem nextBoundary_ofChars (front : List Char) (character : Char) (back : List Char) :
    nextBoundary (ofChars (front ++ [character] ++ back)) ((ofChars front).length + 1) =
      (ofChars (front ++ [character])).length := by
  have positive := List.length_pos_iff.mpr (String.utf8EncodeChar_ne_nil (c := character))
  have stop : (ofChars (front ++ [character])).length =
      (ofChars front).length + (String.utf8EncodeChar character).length := by
    simp [ofChars]
  have whole : (ofChars (front ++ [character] ++ back)).length =
      (ofChars (front ++ [character])).length + (ofChars back).length := by
    rw [ofChars_append, List.length_append]
  have found : (List.range' ((ofChars front).length + 1)
      ((ofChars (front ++ [character] ++ back)).length + 1 - ((ofChars front).length + 1))).find?
        (isBoundary (ofChars (front ++ [character] ++ back))) =
          some (ofChars (front ++ [character])).length := by
    rw [List.find?_range'_eq_some, List.mem_range'_1]
    refine ⟨isBoundary_ofChars _ back, by omega, ?_⟩
    intro earlier behind before
    obtain ⟨offset, rfl⟩ := Nat.exists_eq_add_of_le (Nat.le_of_succ_le behind)
    have inside : isBoundary (String.utf8EncodeChar character ++ ofChars back) offset = false :=
      isBoundary_inside (by omega) (by omega) _
    rw [List.append_assoc, ofChars_append, isBoundary_append, List.singleton_append, ofChars_cons,
      inside]
    rfl
  rw [nextBoundary, found, Option.getD_some]

end Boundaries

section Modifiers

variable {modifiers : Modifiers} {rest : Bytes}

theorem getElem?_length_append (before rest : Bytes) :
    (before ++ rest)[before.length]? = rest.head? := by
  rw [List.getElem?_append_right (Nat.le_refl _), Nat.sub_self, List.head?_eq_getElem?]

/-- An optional byte is there if it stands at its place. -/
theorem getElem?_optionally (before : Bytes) {wanted : UInt8} {present : Bool}
    (greedy : present = false → rest.head? ≠ some wanted) :
    (before ++ (optionally wanted present ++ rest))[before.length]? = some wanted ↔
      present = true := by
  rw [getElem?_length_append]
  cases present with
  | true => simp
  | false => simp [greedy rfl]

theorem skip_optionally (before : Bytes) {wanted : Char} {present : Bool}
    (greedy : present = false → rest.head? ≠ some wanted.toUInt8) :
    skip (before ++ (optionally wanted.toUInt8 present ++ rest)) wanted before.length =
      (before ++ optionally wanted.toUInt8 present).length := by
  rw [skip, if_congr (getElem?_optionally before greedy) rfl rfl]
  cases present <;> simp

theorem skipDigits_append (before : Bytes) {digits : Bytes}
    (all : ∀ digit ∈ digits, isDigit digit = true)
    (stops : ∀ byte, rest.head? = some byte → isDigit byte = false) :
    skipDigits (before ++ (digits ++ rest)) before.length = (before ++ digits).length := by
  induction digits generalizing before with
  | nil =>
    have here := getElem?_length_append before ([] ++ rest)
    rw [skipDigits, List.append_nil]
    split
    next byte found => simp [stops byte (here.symm.trans found)]
    next => rfl
  | cons digit digits ih =>
    have here := getElem?_length_append before (digit :: digits ++ rest)
    have onward := ih (before ++ [digit]) fun other member =>
      all other (List.mem_cons_of_mem _ member)
    simp only [List.append_assoc, List.singleton_append] at onward
    rw [skipDigits]
    split
    next byte found =>
      cases here.symm.trans found
      rw [if_pos (all digit List.mem_cons_self), List.cons_append, ← onward]
      simp
    next found => cases here.symm.trans found

/-- The conversion is found behind the modifiers. -/
theorem findConversion_text_append (h : modifiers.GreedyBefore .full rest) :
    findConversion (modifiers.text ++ rest) = (modifiers.text.length, modifiers.long) := by
  have minus := skip_optionally [] h.minus_taken
  have zero := skip_optionally (optionally '-'.toUInt8 modifiers.left) h.zero_taken
  have digits := skipDigits_append
    (optionally '-'.toUInt8 modifiers.left ++ optionally '0'.toUInt8 modifiers.zero) h.digits
    h.digits_taken
  have marker := skip_optionally (optionally '-'.toUInt8 modifiers.left ++
    optionally '0'.toUInt8 modifiers.zero ++ modifiers.digits) (h.long_taken rfl)
  have long := getElem?_optionally (optionally '-'.toUInt8 modifiers.left ++
    optionally '0'.toUInt8 modifiers.zero ++ modifiers.digits) (h.long_taken rfl)
  -- each of these is about the same text, read on from where the one before it ends
  simp only [List.nil_append, List.length_nil, List.append_assoc] at minus zero digits marker long
  simp only [findConversion, Modifiers.text_append, minus, zero, digits, marker, long]
  simp [Modifiers.text]

end Modifiers

section Scan

theorem scanFrom?_length (text : Bytes) : scanFrom? text text.length = some (.ok []) := by
  rw [scanFrom?]
  split
  next => rfl
  next found => simp at found

/-- Bytes other than a percent sign are passed one by one. -/
theorem scanFrom?_plain (before : Bytes) {plain : Bytes} (other : '%'.toUInt8 ∉ plain)
    (after : Bytes) :
    scanFrom? (before ++ (plain ++ after)) before.length =
      scanFrom? (before ++ (plain ++ after)) (before ++ plain).length := by
  induction plain generalizing before with
  | nil => rw [List.append_nil]
  | cons byte plain ih =>
    simp only [List.mem_cons, not_or] at other
    have onward := ih (before ++ [byte]) other.2
    simp only [List.append_assoc, List.singleton_append] at onward
    rw [List.cons_append, ← onward, scanFrom?]
    split
    next found => simp at found
    next first found =>
      have same : byte = first := by simpa using found
      rw [if_neg (same ▸ Ne.symm other.1), List.length_append, List.length_singleton]

section Percent

variable {text before rest : Bytes} {modifiers : Modifiers}

/-- What is done at a percent sign, by the byte that stands behind the modifiers. -/
theorem scanFrom?_percent (greedy : modifiers.GreedyBefore .full rest)
    (spelled : text = before ++ '%'.toUInt8 :: (modifiers.text ++ rest)) :
    scanFrom? text before.length =
      match rest.head? with
      | none =>
        (quote? text before.length text.length).map fun quoted => .error (.incomplete quoted)
      | some conversion =>
        match Piece.ofConversion? modifiers.long (Char.ofUInt8 conversion) with
        | none =>
          (quote? text before.length (nextBoundary text
            ((before ++ '%'.toUInt8 :: modifiers.text).length + 1))).map
              fun quoted => .error (.unsupported quoted)
        | some pieces =>
          (scanFrom? text ((before ++ '%'.toUInt8 :: modifiers.text).length + 1)).map
            fun later => later.map (pieces ++ ·) := by
  have here : text[before.length]? = some '%'.toUInt8 := by simp [spelled]
  have spec : slice? text (before.length + 1) text.length = some (modifiers.text ++ rest) := by
    simpa [spelled] using
      WordMachine.slice?_append (before ++ ['%'.toUInt8]) (modifiers.text ++ rest) []
  have conversion := getElem?_length_append modifiers.text rest
  have behind : (before ++ '%'.toUInt8 :: modifiers.text).length + 1 =
      before.length + 1 + modifiers.text.length + 1 := by
    simp only [List.length_append, List.length_cons]
    omega
  rw [scanFrom?]
  split
  next found => cases here.symm.trans found
  next first found =>
    cases here.symm.trans found
    rw [if_pos rfl, spec]
    simp only [Option.bind_eq_bind, Option.bind_some, findConversion_text_append greedy,
      conversion, behind, Option.map_eq_bind]
    rfl

end Percent

section Options

variable {rest after : List Char} {conversion : Char}

/-- A text with a directive in it, taken apart at its conversion. -/
theorem append_options (front : List Char)
    (behind : (Piece.options rest).rest = conversion :: after) :
    front ++ '%' :: rest = front ++ '%' :: (Piece.options rest).text ++ [conversion] ++ after := by
  have whole := Piece.options_append rest
  rw [behind] at whole
  simp only [List.append_assoc, List.cons_append, List.nil_append, whole]

/-- The options behind a percent sign are spelled by greedy modifiers. -/
theorem exists_modifiers (rest : List Char) :
    ∃ modifiers : Modifiers, modifiers.GreedyBefore .full (ofChars (Piece.options rest).rest) ∧
      modifiers.long = (Piece.options rest).long ∧ ∀ front : List Char,
        ofChars (front ++ '%' :: (Piece.options rest).text) =
            ofChars front ++ '%'.toUInt8 :: modifiers.text ∧
          ofChars (front ++ '%' :: rest) = ofChars front ++
            '%'.toUInt8 :: (modifiers.text ++ ofChars (Piece.options rest).rest) := by
  obtain ⟨behind, long, text⟩ := Piece.split_ofChars rest
  have greedy := Modifiers.split_greedyBefore .full (ofChars rest)
  have whole := Modifiers.text_split .full (ofChars rest)
  have percent : String.utf8EncodeChar '%' = ['%'.toUInt8] := utf8EncodeChar_of_lt (by decide)
  rw [behind] at greedy whole
  refine ⟨_, greedy, long, fun front => ⟨?_, ?_⟩⟩
  · rw [ofChars_append, ofChars_cons, percent, text, List.singleton_append]
  · rw [ofChars_append, ofChars_cons, percent, whole, List.singleton_append]

theorem scanFrom?_incomplete (front : List Char) (behind : (Piece.options rest).rest = []) :
    scanFrom? (ofChars (front ++ '%' :: rest)) (ofChars front).length =
      some (.error (.incomplete (String.ofList ('%' :: rest)))) := by
  obtain ⟨modifiers, greedy, -, spelled⟩ := exists_modifiers rest
  have quoted := quote?_ofChars front ('%' :: rest) []
  rw [List.append_nil] at quoted
  rw [scanFrom?_percent greedy (spelled front).2, behind]
  simp only [ofChars_nil, List.head?_nil, quoted, Option.map_some]

/-- A character that is no conversion is quoted as a whole. -/
theorem scanFrom?_unsupported (front : List Char)
    (behind : (Piece.options rest).rest = conversion :: after)
    (unsupported : Piece.ofConversion? (Piece.options rest).long conversion = none) :
    scanFrom? (ofChars (front ++ '%' :: rest)) (ofChars front).length =
      some (.error (.unsupported
        (String.ofList ('%' :: (Piece.options rest).text ++ [conversion])))) := by
  obtain ⟨modifiers, greedy, long, spelled⟩ := exists_modifiers rest
  obtain ⟨first, more, encoded⟩ :=
    List.exists_cons_of_ne_nil (String.utf8EncodeChar_ne_nil (c := conversion))
  have stop := nextBoundary_ofChars (front ++ '%' :: (Piece.options rest).text) conversion after
  have quoted := quote?_ofChars front ('%' :: (Piece.options rest).text ++ [conversion]) after
  simp only [← List.append_assoc] at quoted
  rw [scanFrom?_percent greedy (spelled front).2, behind, ofChars_cons, encoded,
    ← (spelled front).1, append_options front behind, stop]
  simp only [List.cons_append, List.head?_cons, Piece.ofConversion?_first encoded, long,
    unsupported]
  rw [quoted]
  rfl

/-- Behind a conversion, which is a single byte, the scan goes on. -/
theorem scanFrom?_supported (front : List Char) {pieces : List Piece}
    (behind : (Piece.options rest).rest = conversion :: after)
    (supported : Piece.ofConversion? (Piece.options rest).long conversion = some pieces) :
    scanFrom? (ofChars (front ++ '%' :: rest)) (ofChars front).length =
      (scanFrom? (ofChars (front ++ '%' :: rest))
        (ofChars (front ++ '%' :: (Piece.options rest).text ++ [conversion])).length).map
          fun later => later.map (pieces ++ ·) := by
  obtain ⟨modifiers, greedy, long, spelled⟩ := exists_modifiers rest
  have encoded := Piece.utf8EncodeChar_of_supported supported
  have stop : (ofChars (front ++ '%' :: (Piece.options rest).text ++ [conversion])).length =
      (ofChars (front ++ '%' :: (Piece.options rest).text)).length + 1 := by
    rw [ofChars_append _ [conversion], ofChars_cons, encoded]
    simp
  rw [scanFrom?_percent greedy (spelled front).2, stop, (spelled front).1, behind, ofChars_cons,
    encoded]
  simp only [List.cons_append, List.head?_cons, Piece.ofConversion?_first encoded, long, supported]

end Options

/-- From the end of a first part on, the scan by positions gives what the scan of the remaining
    characters gives. -/
theorem scanFrom?_ofChars (front rest : List Char) :
    scanFrom? (ofChars (front ++ rest)) (ofChars front).length = some (Piece.scan rest) := by
  -- along the scan of characters, each step of which is one or more steps of positions
  fun_induction Piece.scan rest generalizing front with
  | case1 => rw [List.append_nil, scanFrom?_length]
  | case2 rest found behind => exact scanFrom?_incomplete front behind
  | case3 rest found conversion after behind unsupported =>
    exact scanFrom?_unsupported front behind unsupported
  | case4 rest found conversion after behind pieces supported ih =>
    have onward := ih (front ++ '%' :: found.text ++ [conversion])
    rw [← append_options front behind] at onward
    rw [scanFrom?_supported front behind supported, onward]
    rfl
  | case5 character rest other ih =>
    have plain := scanFrom?_plain (ofChars front) (Piece.percent_notMem_utf8EncodeChar other)
      (ofChars rest)
    have onward := ih (front ++ [character])
    rw [← List.append_cons] at onward
    rw [← ofChars_cons, ← ofChars_append] at plain
    rw [plain, ← onward]
    simp [ofChars]

/-- The check by positions always has a result, and it is that of the check over characters. -/
theorem check?_ofChars (literal : List Char) :
    check? (ofChars literal) = some (Piece.ofFormat literal) := by
  rw [check?, Piece.ofFormat]
  by_cases nul : '\x00' ∈ literal
  · rw [if_pos (zero_mem_ofChars.mpr nul), if_pos nul]
  · rw [if_neg (mt zero_mem_ofChars.mp nul), if_neg nul]
    exact scanFrom?_ofChars [] literal

end Scan

/-- Every directive in a text is complete and supported: the text is spelled by bytes that stand for
    themselves and by directives of the grammar. -/
def Complete (text : List Char) : Prop :=
  ∃ segments : List Segment, (∀ segment ∈ segments, segment.WellFormed .full) ∧
    ofChars text = segments.flatMap Segment.text

/-- The characters are an optional minus sign, an optional zero, digits and an optional marker `l`,
    each of them taken greedily in front of `rest`. -/
def GreedyOptions (options rest : List Char) : Prop :=
  ∃ modifiers : Modifiers, ofChars options = modifiers.text ∧
    modifiers.GreedyBefore .full (ofChars rest)

/-- The characters that stand for a conversion. -/
def conversions : List Char := ['d', 'i', 'u', 'x', 'X', 'c', 's', 'n', 'f', '%']

theorem notMem_conversions {long : Bool} {character : Char}
    (unsupported : Piece.ofConversion? long character = none) : character ∉ conversions := by
  have known : conversions.all (fun other => (Piece.ofConversion? long other).isSome) = true := by
    cases long <;> rfl
  intro member
  have supported := List.all_eq_true.mp known character member
  rw [unsupported] at supported
  cases supported

/-- The part of a literal that an error quotes, between two boundaries. -/
structure Quotes (literal front quoted : List Char) : Prop where
  start : isBoundary (ofChars literal) (ofChars front).length = true
  stop : isBoundary (ofChars literal) (ofChars (front ++ quoted)).length = true
  order : (ofChars front).length ≤ (ofChars (front ++ quoted)).length
  inside : (ofChars (front ++ quoted)).length ≤ (ofChars literal).length
  quoted : quote? (ofChars literal) (ofChars front).length (ofChars (front ++ quoted)).length =
    some (String.ofList quoted)

theorem quotes_append (front quoted after : List Char) :
    Quotes (front ++ quoted ++ after) front quoted := by
  refine ⟨?_, isBoundary_ofChars _ after, ?_, ?_, quote?_ofChars front quoted after⟩
  · rw [List.append_assoc]
    exact isBoundary_ofChars front _
  · rw [ofChars_append, List.length_append]
    exact Nat.le_add_right _ _
  · rw [ofChars_append _ after, List.length_append]
    exact Nat.le_add_right _ _

/-- The options of a directive are spelled by its modifiers, if all around them is spelled alike. -/
theorem ofChars_options {front options rest : List Char} {before : Bytes} {modifiers : Modifiers}
    (spelled : ofChars front = before)
    (text : before ++ '%'.toUInt8 :: (modifiers.text ++ ofChars rest) =
      ofChars (front ++ '%' :: options ++ rest)) : ofChars options = modifiers.text := by
  have percent : ofChars ('%' :: options) = '%'.toUInt8 :: ofChars options := rfl
  rw [ofChars_append, ofChars_append, spelled, percent, ← List.cons_append, ← List.append_assoc]
    at text
  have same := List.append_cancel_left (List.append_cancel_right text)
  exact (List.cons.inj same).2.symm

/-- A check that refuses a literal quotes the first directive for which it has to, and quotes whole
    characters. By positions the check has a result for every literal, so no text is ever cut inside
    of a character or outside of the literal. If a literal without NUL is refused, all directives
    in front of the quoted text are complete and supported. What is quoted is a percent sign and the
    options behind it, taken greedily, either as far as the end of the literal, or as far as the one
    character behind them, which takes one to four bytes and is no conversion. -/
theorem refusal_quotes_first (literal : List Char) :
    check? (ofChars literal) = some (Piece.ofFormat literal) ∧
      ('\x00' ∉ literal → ∀ error, Piece.ofFormat literal = .error error →
        ∃ front quoted after, literal = front ++ quoted ++ after ∧ Complete front ∧
          Quotes literal front quoted ∧
          ((∃ options, error = .incomplete (String.ofList quoted) ∧ after = [] ∧
              quoted = '%' :: options ∧ GreedyOptions options []) ∨
            ∃ options conversion, error = .unsupported (String.ofList quoted) ∧
              quoted = '%' :: options ++ [conversion] ∧ GreedyOptions options [conversion] ∧
              conversion ∉ conversions ∧ 1 ≤ (String.utf8EncodeChar conversion).length ∧
              (String.utf8EncodeChar conversion).length ≤ 4)) := by
  refine ⟨check?_ofChars literal, ?_⟩
  intro nulFree error refused
  obtain ⟨front, bad, whole, spelled, reports⟩ := Piece.scan_reports literal
  have wellFormed :=
    Layout.wellFormed_ofText .full (ofChars literal) (mt zero_mem_ofChars.mp nulFree)
  have text := Layout.text_ofText .full (ofChars literal)
  rw [Piece.ofFormat_of_nulFree nulFree] at refused
  generalize Layout.ofText .full (ofChars literal) = layout at spelled reports wellFormed text
  rw [refused] at reports
  cases reports with
  | incomplete segments options modifiers =>
    have whole : literal = front ++ '%' :: options ++ [] := whole.trans (List.append_nil _).symm
    have spelledWhole : segments.flatMap Segment.text ++
        '%'.toUInt8 :: (modifiers.text ++ ofChars []) =
          ofChars (front ++ '%' :: options ++ []) := by
      rw [← whole, ← text, ofChars_nil, List.append_nil]
      rfl
    refine ⟨front, '%' :: options, [], whole, ⟨segments, wellFormed.1, spelled⟩,
      whole ▸ quotes_append front ('%' :: options) [], Or.inl ?_⟩
    exact ⟨options, rfl, rfl, rfl, modifiers, ofChars_options spelled spelledWhole, wellFormed.2⟩
  | unsupported segments options conversion after modifiers first more encoded =>
    have spelledWhole : segments.flatMap Segment.text ++
        '%'.toUInt8 :: (modifiers.text ++ ofChars (conversion :: after)) =
          ofChars (front ++ '%' :: options ++ conversion :: after) := by
      rw [List.append_assoc, ← whole, ← text, ofChars_cons, encoded]
      rfl
    have whole : literal = front ++ ('%' :: options ++ [conversion]) ++ after := by
      rw [whole, List.append_assoc, List.append_assoc, List.singleton_append]
    have greedy : modifiers.GreedyBefore .full (ofChars [conversion]) :=
      wellFormed.2.1.congr (by rw [ofChars_cons, encoded, List.cons_append, List.head?_cons,
        List.head?_cons])
    have unsupported : Piece.ofConversion? modifiers.long conversion = none := by
      rw [Piece.ofConversion?_eq _ encoded, wellFormed.2.2.2, Option.map_none]
    have size := String.length_utf8EncodeChar conversion
    refine ⟨front, '%' :: options ++ [conversion], after, whole, ⟨segments, wellFormed.1, spelled⟩,
      whole ▸ quotes_append front ('%' :: options ++ [conversion]) after, Or.inr ?_⟩
    exact ⟨options, conversion, rfl, rfl, ⟨modifiers, ofChars_options spelled spelledWhole, greedy⟩,
      notMem_conversions unsupported, size ▸ conversion.utf8Size_pos,
      size ▸ conversion.utf8Size_le_four⟩

/-- A literal with a character of three bytes behind the options, and other directives around it. -/
theorem refusal_quotes_first_wide :
    let literal := "é%d%-0€%q".toList
    '\x00' ∉ literal ∧ Piece.ofFormat literal = .error (.unsupported "%-0€") ∧
      check? (ofChars literal) = some (.error (.unsupported "%-0€")) ∧
      ∃ front after, literal = front ++ "%-0€".toList ++ after ∧ Complete front ∧
        Quotes literal front "%-0€".toList := by
  intro literal
  have nulFree : '\x00' ∉ literal := by decide +kernel
  have refused : Piece.ofFormat literal = .error (.unsupported "%-0€") := by decide +kernel
  obtain ⟨result, quotes⟩ := refusal_quotes_first literal
  rw [refused] at result
  obtain ⟨front, quoted, after, whole, complete, quotes, cases⟩ := quotes nulFree _ refused
  have text : quoted = "%-0€".toList := by
    obtain ⟨-, error, -⟩ | ⟨-, -, error, -⟩ := cases
    · cases error
    · have same : "%-0€" = String.ofList quoted := FormatError.unsupported.inj error
      rw [same, String.toList_ofList]
  subst text
  exact ⟨nulFree, refused, result, front, after, whole, complete, quotes⟩

end PositionScan

end FormattedOutput
