import Ebus.Lib.JsonText
import Ebus.Verification.Lexing
import Mathlib.Data.List.DropRight

/-!
# The reader on a whole text

A text that is there as a whole is read lexeme by lexeme: `At` says which lexemes lie ahead of the
reader, and `At.next` what a call of `next` does with the first one. Strings are read in units, so
that `\u` goes with the four characters behind it; brackets and quotes are counted by
`skipToClosing`, for which a backslash goes with one character. Lexemes on which the two agree are
`Readable`, and of a document of them `skipValue` and `rawValue` take the same as `next`.
-/

namespace Ebus

open Json

namespace JsonReader

/-- What the reader finds again as it stands in the text. -/
def Readable : Lexeme → Prop
  | .string content => Paired content ∧ Units content
  | l => l.Loose isNumberChar

namespace Readable

variable {l : Lexeme}

theorem loose (h : Readable l) : l.Loose isNumberChar := by
  cases l with
  | string content => exact h.1
  | _ => exact h

theorem of_wellFormed (h : l.WellFormed) : Readable l := by
  cases l with
  | string content => exact ⟨StringContent.paired h, StringContent.units h⟩
  | number text =>
      obtain ⟨c, rest, rfl, hc⟩ := NumberText.exists_cons h
      exact ⟨c, rest, rfl, hc, fun char hmem => isNumberChar_of_mem h (List.mem_cons_of_mem _ hmem)⟩
  | _ => trivial

end Readable

theorem readString_units {content : List UInt8} (h : Units content) (tail : List UInt8) :
    readString (content ++ quote :: tail) = some (content, tail) := by
  induction h with
  | nil => exact readString_quote tail
  | char hquote hescape _ ih =>
      rw [List.cons_append, readString_char hquote hescape, ih]
      rfl
  | pair hchar _ ih =>
      rw [List.cons_append, List.cons_append, readString_escape hchar, ih]
      rfl
  | unicode a b c d _ ih =>
      simp only [List.cons_append]
      rw [readString_unicode, ih]
      rfl

/-- A string that is read is one of units. -/
theorem units_of_readString {text content tail : List UInt8}
    (h : readString text = some (content, tail)) :
    Units content ∧ text = content ++ quote :: tail := by
  fun_induction readString text generalizing content with
  | case1 => cases h
  | case2 => cases h
  | case3 a b c d rest ih =>
      obtain ⟨⟨s, after⟩, hs, heq⟩ := Option.map_eq_some_iff.mp h
      cases heq
      obtain ⟨hunits, rfl⟩ := ih hs
      exact ⟨.unicode _ _ _ _ hunits, rfl⟩
  | case4 => cases h
  | case5 next rest hnext ih =>
      obtain ⟨⟨s, after⟩, hs, heq⟩ := Option.map_eq_some_iff.mp h
      cases heq
      obtain ⟨hunits, rfl⟩ := ih hs
      exact ⟨.pair hnext hunits, rfl⟩
  | case6 rest hescape =>
      cases h
      exact ⟨.nil, rfl⟩
  | case7 c rest hescape hquote ih =>
      obtain ⟨⟨s, after⟩, hs, heq⟩ := Option.map_eq_some_iff.mp h
      cases heq
      obtain ⟨hunits, rfl⟩ := ih hs
      exact ⟨.char hquote hescape hunits, rfl⟩

/-- The reader of a text that does not go on, outside of all values. -/
structure Whole (r : JsonReader) : Prop where
  ended : r.ended = true
  outside : r.skipToClosingInString = false
  depth : r.skipToClosingDepth = 1

/-- The reader behind a lexeme; behind a key it is in front of the colon. -/
def consumed (r : JsonReader) (l : Lexeme) (tail : List UInt8) : JsonReader :=
  { r with
    value := if (tokenOf (colonAhead tail) l).hasValue then valueOf l else r.value
    rest := if tokenOf (colonAhead tail) l = .key then tail.dropWhile isSpace else tail
    needMoreData := false }

section Token
variable {r : JsonReader} {l : Lexeme} {c : UInt8} {rest tail : List UInt8}

theorem Whole.consumed (h : Whole r) (l : Lexeme) (tail : List UInt8) :
    Whole (r.consumed l tail) := ⟨h.ended, h.outside, h.depth⟩

theorem keyword_eq {token : Token} {word : List UInt8} (hrest : r.rest = word ++ tail) :
    r.keyword token word = (token, { r with value := word, rest := tail }) := by
  rw [keyword, if_pos (by rw [hrest]; exact List.prefix_append _ _), hrest, List.drop_left]

/-- The branches of `next` for a lexeme that is there as a whole. -/
theorem token_lexeme (hended : r.ended = true) (hdata : r.needMoreData = false) (hl : Readable l)
    (hsep : l.isSeparator = false) (hrest : r.rest = l.bytes ++ tail) (hc : r.rest = c :: rest)
    (hstop : (∃ digits, l = .number digits) → ∀ char ∈ tail.head?, isNumberChar char = false) :
    r.token c rest = (tokenOf (colonAhead tail) l, r.consumed l tail) := by
  have heq := hc.symm.trans hrest
  have hsame (value rest : List UInt8) :
      ({ r with value, rest } : JsonReader) = { r with value, rest, needMoreData := false } := by
    rw [← hdata]
  cases l with
  | colon | comma => cases hsep
  | openObject =>
      obtain ⟨rfl, rfl⟩ := List.cons.inj heq
      exact congrArg (Prod.mk _) (hsame r.value _)
  | closeObject =>
      obtain ⟨rfl, rfl⟩ := List.cons.inj heq
      exact congrArg (Prod.mk _) (hsame r.value _)
  | openArray =>
      obtain ⟨rfl, rfl⟩ := List.cons.inj heq
      exact congrArg (Prod.mk _) (hsame r.value _)
  | closeArray =>
      obtain ⟨rfl, rfl⟩ := List.cons.inj heq
      exact congrArg (Prod.mk _) (hsame r.value _)
  | string content =>
      rw [Lexeme.bytes, List.cons_append, List.append_assoc, List.singleton_append] at heq
      obtain ⟨rfl, rfl⟩ := List.cons.inj heq
      have htoken : r.token quote (content ++ quote :: tail) =
          if (tail.dropWhile isSpace).head? = some 0x3a then
            (.key, { r with value := content, rest := tail.dropWhile isSpace })
          else (.string, { r with value := content, rest := tail }) := by
        rw [token, readString_units hl.2]
        rfl
      rw [htoken]
      by_cases hahead : (tail.dropWhile isSpace).head? = some 0x3a
      · have hcolon : colonAhead tail = true := decide_eq_true hahead
        rw [if_pos hahead, consumed, hcolon]
        exact congrArg (Prod.mk _) (hsame content _)
      · have hcolon : colonAhead tail = false := decide_eq_false hahead
        rw [if_neg hahead, consumed, hcolon]
        exact congrArg (Prod.mk _) (hsame content _)
  | number text =>
      obtain ⟨first, more, rfl, hfirst, hmore⟩ := hl
      rw [Lexeme.bytes, List.cons_append] at heq
      obtain ⟨rfl, rfl⟩ := List.cons.inj heq
      obtain ⟨htake, hdrop⟩ := span_number hmore (hstop ⟨_, rfl⟩)
      rw [token_number hfirst, htake, hdrop, if_neg (by simp [hended])]
      exact congrArg (Prod.mk _) (hsame _ tail)
  | bool value =>
      cases value with
      | true =>
          obtain ⟨rfl, -⟩ := List.cons.inj heq
          exact (keyword_eq hrest).trans (congrArg (Prod.mk _) (hsame _ tail))
      | false =>
          obtain ⟨rfl, -⟩ := List.cons.inj heq
          exact (keyword_eq hrest).trans (congrArg (Prod.mk _) (hsame _ tail))
  | null =>
      obtain ⟨rfl, -⟩ := List.cons.inj heq
      exact (keyword_eq hrest).trans (congrArg (Prod.mk _) (hsame _ tail))

end Token

theorem validNumberChar_of_isNumberChar {c : UInt8} (h : isNumberChar c = true) :
    validNumberChar c = true := by
  rw [validNumberChar, h, Bool.true_or]

theorem stops_validNumberChar : Stops validNumberChar := by
  intro c hc
  simp only [isSpace, Bool.or_eq_true, decide_eq_true_eq, or_assoc] at hc
  obtain rfl | rfl | rfl | rfl | rfl | rfl | rfl | rfl := hc <;> decide

theorem stops_isNumberChar : Stops isNumberChar := by
  intro c hc
  by_contra hchar
  have hvalid := validNumberChar_of_isNumberChar (Bool.not_eq_false _ ▸ hchar)
  rw [stops_validNumberChar c hc] at hvalid
  cases hvalid

theorem Readable.valid {l : Lexeme} (h : Readable l) : l.Loose validNumberChar :=
  h.loose.mono fun _ => validNumberChar_of_isNumberChar

/-- These lexemes lie ahead of the reader, white space aside. -/
structure At (r : JsonReader) (items : List Spaced) (trailing : List UInt8) : Prop where
  whole : Whole r
  rest : r.rest.dropWhile isSpace = (text items trailing).dropWhile isSpace
  spacing : Spacing items trailing
  adjacent : Adjacent (items.map Spaced.lexeme)
  loose : ∀ l ∈ items.map Spaced.lexeme, l.Loose validNumberChar

/-- At most one separator, which the reader goes over. -/
def Gap (items : List Spaced) : Prop :=
  items = [] ∨ ∃ item, items = [item] ∧ item.lexeme.isSeparator = true

theorem dropWhile_text {item : Spaced} {items : List Spaced} {trailing : List UInt8}
    (hspaces : ∀ char ∈ item.spaces, isSpace char = true)
    (hl : item.lexeme.Loose validNumberChar) :
    (text (item :: items) trailing).dropWhile isSpace =
      item.lexeme.bytes ++ text items trailing := by
  obtain ⟨c, rest, hbytes, -, hc⟩ := hl.exists_cons
  rw [text_cons, hbytes, List.cons_append]
  exact dropWhile_spaces hspaces hc

/-- The first character tells a separator. -/
theorem char_iff {l : Lexeme} {c : UInt8} {rest : List UInt8} (hl : l.Loose validNumberChar)
    (hbytes : l.bytes = c :: rest) : (c = 0x3a ↔ l = .colon) ∧ (c = 0x2c ↔ l = .comma) := by
  obtain ⟨c', rest', hbytes', hkind, -⟩ := hl.exists_cons
  obtain ⟨rfl, -⟩ := List.cons.inj (hbytes'.symm.trans hbytes)
  refine ⟨⟨?_, ?_⟩, ⟨?_, ?_⟩⟩
  · rintro rfl
    cases l with
    | bool value => cases value <;> cases hkind
    | colon => rfl
    | _ => cases hkind
  · rintro rfl
    exact (List.cons.inj hbytes).1.symm
  · rintro rfl
    cases l with
    | bool value => cases value <;> cases hkind
    | comma => rfl
    | _ => cases hkind
  · rintro rfl
    exact (List.cons.inj hbytes).1.symm

/-- A colon ahead in the text is the next lexeme. -/
theorem colonAhead_text {items : List Spaced} {trailing : List UInt8}
    (hspacing : Spacing items trailing)
    (hloose : ∀ l ∈ items.map Spaced.lexeme, l.Loose validNumberChar) :
    colonAhead (text items trailing) = isColon (items.map Spaced.lexeme) := by
  cases items with
  | nil =>
      rw [colonAhead, text_nil, List.dropWhile_eq_nil_iff.mpr hspacing.trailing]
      rfl
  | cons item items =>
      have hl := hloose item.lexeme List.mem_cons_self
      obtain ⟨c, rest, hbytes, -⟩ := hl.exists_cons
      rw [colonAhead, dropWhile_text hspacing.head hl, hbytes, isColon, List.map_cons]
      simp [(char_iff hl hbytes).1]

namespace At

variable {r s : JsonReader} {item : Spaced} {items gap : List Spaced} {trailing : List UInt8}

theorem whitespace (h : At r items trailing) : r.skipWhitespace.rest =
    (text items trailing).dropWhile isSpace := h.rest

theorem congr (h : At r items trailing) (hs : Whole s)
    (hrest : s.rest.dropWhile isSpace = r.rest.dropWhile isSpace) : At s items trailing :=
  ⟨hs, hrest.trans h.rest, h.spacing, h.adjacent, h.loose⟩

theorem tail (h : At r (item :: items) trailing) (hs : Whole s)
    (hrest : s.rest.dropWhile isSpace = (text items trailing).dropWhile isSpace) :
    At s items trailing :=
  ⟨hs, hrest, h.spacing.tail, h.adjacent.tail, fun l hl => h.loose l (List.mem_cons_of_mem _ hl)⟩

/-- A separator aside, too. -/
theorem behind_gap (h : At r (gap ++ items) trailing) (hgap : Gap gap) (hs : Whole s)
    (hrest : s.rest.dropWhile isSpace = (text items trailing).dropWhile isSpace) :
    At s items trailing := by
  obtain rfl | ⟨other, rfl, -⟩ := hgap
  · exact ⟨hs, hrest, h.spacing, h.adjacent, h.loose⟩
  · exact h.tail hs hrest

/-- Behind the first lexeme are the others. -/
theorem consumed (h : At r (gap ++ item :: items) trailing) (hgap : Gap gap) (l : Lexeme) :
    At (r.consumed l (text items trailing)) items trailing := by
  have hitem : At { r with rest := text (item :: items) trailing } (item :: items) trailing :=
    h.behind_gap hgap ⟨h.whole.ended, h.whole.outside, h.whole.depth⟩ rfl
  refine hitem.tail (h.whole.consumed _ _) ?_
  dsimp only [JsonReader.consumed]
  split
  · exact List.dropWhile_idempotent _ _
  · rfl

/-- The lexemes ahead, with nothing in front of the first of them. -/
theorem exists_front (h : At r items trailing) : ∃ items' trailing',
    items'.map Spaced.lexeme = items.map Spaced.lexeme ∧ Spacing items' trailing' ∧
      r.rest.dropWhile isSpace = text items' trailing' := by
  cases items with
  | nil =>
      refine ⟨[], [], rfl, ⟨by simp, by simp⟩, ?_⟩
      rw [h.rest, text_nil, text_nil]
      exact List.dropWhile_eq_nil_iff.mpr h.spacing.trailing
  | cons item items =>
      refine ⟨⟨[], item.lexeme⟩ :: items, trailing, rfl, ⟨?_, h.spacing.trailing⟩, ?_⟩
      · intro other hother
        obtain rfl | hmem := List.mem_cons.mp hother
        · simp
        · exact h.spacing.tail.items other hmem
      · rw [h.rest, dropWhile_text h.spacing.head (h.loose item.lexeme List.mem_cons_self),
          text_cons, List.nil_append]

/-- The text tells which lexemes lie ahead. -/
theorem lexemes_unique {items' : List Spaced} {trailing' : List UInt8} (h : At r items trailing)
    (h' : At r items' trailing') : items.map Spaced.lexeme = items'.map Spaced.lexeme := by
  obtain ⟨front, behind, hfront, hspacing, htext⟩ := h.exists_front
  obtain ⟨front', behind', hfront', hspacing', htext'⟩ := h'.exists_front
  rw [← hfront, ← hfront']
  refine text_injective stops_validNumberChar hspacing hspacing' ?_ ?_ ?_ ?_
    (htext.symm.trans htext')
  · exact hfront ▸ h.adjacent
  · exact hfront' ▸ h'.adjacent
  · exact hfront ▸ h.loose
  · exact hfront' ▸ h'.loose

theorem next_nil (h : At r [] trailing) : r.next = (.end, { r with rest := [] }) := by
  have hrest : r.skipWhitespace.rest = [] := by
    rw [h.whitespace, text_nil]
    exact List.dropWhile_eq_nil_iff.mpr h.spacing.trailing
  rw [Ahead.next_of_nil hrest, if_pos h.whole.ended]
  exact congrArg (fun rest => (Token.end, { r with rest : JsonReader })) hrest

/-- A lexeme does not begin with the character of a separator. -/
theorem exists_char (h : At r (item :: items) trailing) (hsep : item.lexeme.isSeparator = false) :
    ∃ c rest, r.skipWhitespace.rest = c :: rest ∧ ¬ (c = 0x3a ∨ c = 0x2c) ∧
      item.lexeme.bytes ++ text items trailing = c :: rest := by
  have hl := h.loose item.lexeme List.mem_cons_self
  obtain ⟨c, rest, hbytes, -⟩ := hl.exists_cons
  have hrest := h.whitespace.trans (dropWhile_text h.spacing.head hl)
  rw [hbytes, List.cons_append] at hrest
  refine ⟨c, rest ++ text items trailing, hrest, ?_, by rw [hbytes, List.cons_append]⟩
  rw [(char_iff hl hbytes).1, (char_iff hl hbytes).2]
  rintro (hlexeme | hlexeme) <;> rw [hlexeme] at hsep <;> cases hsep

/-- A separator is one character. -/
theorem exists_separator (h : At r (item :: items) trailing)
    (hsep : item.lexeme.isSeparator = true) :
    ∃ c, r.skipWhitespace.rest = c :: text items trailing ∧ (c = 0x3a ∨ c = 0x2c) := by
  have hrest := h.whitespace.trans
    (dropWhile_text h.spacing.head (h.loose item.lexeme List.mem_cons_self))
  cases hlexeme : item.lexeme with
  | colon =>
      rw [hlexeme] at hrest
      exact ⟨_, hrest, .inl rfl⟩
  | comma =>
      rw [hlexeme] at hrest
      exact ⟨_, hrest, .inr rfl⟩
  | _ =>
      rw [hlexeme] at hsep
      cases hsep

/-- A call of `next` goes over a separator and looks at the first character of a lexeme. -/
theorem next_eq (h : At r (gap ++ item :: items) trailing) (hgap : Gap gap)
    (hsep : item.lexeme.isSeparator = false) :
    ∃ c rest, item.lexeme.bytes ++ text items trailing = c :: rest ∧
      r.next = JsonReader.token { r with rest := c :: rest, needMoreData := false } c rest := by
  obtain rfl | ⟨other, rfl, hother⟩ := hgap
  · obtain ⟨c, rest, hrest, hc, hbytes⟩ := exists_char h hsep
    refine ⟨c, rest, hbytes, ?_⟩
    rw [Ahead.next_of_cons (r := r) rfl hrest, if_neg hc]
    exact congrArg
      (fun tail => JsonReader.token { r with rest := tail, needMoreData := false } c rest) hrest
  · have hseparator : At r (other :: item :: items) trailing := h
    obtain ⟨d, hrest, hd⟩ := hseparator.exists_separator hother
    have htail : At { r with rest := text (item :: items) trailing, needMoreData := false }
        (item :: items) trailing :=
      hseparator.tail ⟨h.whole.ended, h.whole.outside, h.whole.depth⟩ rfl
    obtain ⟨c, rest, hc, -, hbytes⟩ := htail.exists_char hsep
    have hbehind : ({ r.skipWhitespace with
        rest := text (item :: items) trailing, needMoreData := false } :
          JsonReader).skipWhitespace.rest = c :: rest := hc
    refine ⟨c, rest, hbytes, ?_⟩
    rw [Ahead.next_of_cons (r := r) rfl hrest, if_pos hd, hbehind]
    exact congrArg
      (fun tail => JsonReader.token { r with rest := tail, needMoreData := false } c rest) hbehind

theorem stops (h : At r (gap ++ item :: items) trailing) :
    (∃ digits, item.lexeme = .number digits) →
      ∀ char ∈ (text items trailing).head?, isNumberChar char = false := by
  have hadjacent := h.adjacent
  rw [List.map_append] at hadjacent
  exact Adjacent.stops hadjacent.right h.spacing.right.tail stops_isNumberChar

theorem colonAhead_eq (h : At r (gap ++ item :: items) trailing) :
    colonAhead (text items trailing) = isColon (items.map Spaced.lexeme) := by
  refine colonAhead_text h.spacing.right.tail fun l hl => h.loose l ?_
  rw [List.map_append, List.map_cons]
  exact List.mem_append_right _ (List.mem_cons_of_mem _ hl)

/-- A call of `next` takes a lexeme. -/
theorem next (h : At r (gap ++ item :: items) trailing) (hgap : Gap gap)
    (hl : Readable item.lexeme) (hsep : item.lexeme.isSeparator = false) :
    r.next = (tokenOf (isColon (items.map Spaced.lexeme)) item.lexeme,
      r.consumed item.lexeme (text items trailing)) := by
  obtain ⟨c, rest, hbytes, hnext⟩ := h.next_eq hgap hsep
  rw [hnext, ← h.colonAhead_eq]
  exact token_lexeme (r := { r with rest := c :: rest, needMoreData := false }) h.whole.ended rfl hl
    hsep hbytes.symm rfl h.stops

end At

section Closing
variable {depth : Nat} {c : UInt8} {tail : List UInt8}

theorem closingLoop_zero (tail : List UInt8) :
    closingLoop false 0 tail = { rest := tail, inString := false, depth := 0 } := by
  cases tail with
  | nil => rfl
  | cons c tail => exact (closingLoop.eq_def ..).trans (if_pos rfl)

/-- A byte inside of a container. -/
theorem closingLoop_cons (inString : Bool) (depth : Nat) (c : UInt8) (tail : List UInt8) :
    closingLoop inString (depth + 1) (c :: tail) =
      if inString then
        if c = backslash then
          match tail with
          | [] => { rest := [c], inString, depth := depth + 1, cut := true }
          | _ :: tail => closingLoop true (depth + 1) tail
        else closingLoop (c ≠ quote) (depth + 1) tail
      else if c = quote then closingLoop true (depth + 1) tail
      else if c = 0x7b ∨ c = 0x5b then closingLoop false (depth + 2) tail
      else if c = 0x7d ∨ c = 0x5d then closingLoop false depth tail
      else closingLoop false (depth + 1) tail :=
  (closingLoop.eq_def ..).trans (if_neg (Nat.succ_ne_zero depth))

theorem closingLoop_char (hquote : c ≠ quote)
    (hc : c ≠ 0x7b ∧ c ≠ 0x5b ∧ c ≠ 0x7d ∧ c ≠ 0x5d) :
    closingLoop false (depth + 1) (c :: tail) = closingLoop false (depth + 1) tail := by
  simp [closingLoop_cons, hquote, hc.1, hc.2.1, hc.2.2.1, hc.2.2.2]

theorem closingLoop_chars {chars : List UInt8}
    (h : ∀ c ∈ chars, c ≠ quote ∧ c ≠ 0x7b ∧ c ≠ 0x5b ∧ c ≠ 0x7d ∧ c ≠ 0x5d) :
    closingLoop false (depth + 1) (chars ++ tail) = closingLoop false (depth + 1) tail := by
  induction chars with
  | nil => rfl
  | cons c chars ih =>
      obtain ⟨hc, hchars⟩ := List.forall_mem_cons.mp h
      rw [List.cons_append, closingLoop_char hc.1 hc.2, ih hchars]

theorem closingLoop_quote :
    closingLoop false (depth + 1) (quote :: tail) = closingLoop true (depth + 1) tail :=
  closingLoop_cons false depth quote tail

theorem closingLoop_string {content : List UInt8} (h : Paired content) :
    closingLoop true (depth + 1) (content ++ quote :: tail) =
      closingLoop false (depth + 1) tail := by
  induction h with
  | nil => exact closingLoop_cons true depth quote tail
  | char hquote hescape _ ih =>
      rw [List.cons_append, closingLoop_cons, if_pos rfl, if_neg hescape, decide_eq_true hquote, ih]
  | pair c _ ih => exact (closingLoop_cons ..).trans ih

/-- How many containers are open behind a lexeme. -/
def level (depth : Nat) : Lexeme → Nat
  | .openObject | .openArray => depth + 1
  | .closeObject | .closeArray => depth - 1
  | _ => depth

theorem level_string (content : List UInt8) : level depth (.string content) = depth := rfl

theorem level_colon : level depth .colon = depth := rfl

theorem closingLoop_lexeme {l : Lexeme} (h : l.Loose validNumberChar) :
    closingLoop false (depth + 1) (l.bytes ++ tail) =
      closingLoop false (level (depth + 1) l) tail := by
  cases l with
  | string content =>
      rw [Lexeme.bytes, List.cons_append, List.append_assoc, List.singleton_append,
        closingLoop_quote, closingLoop_string h, level_string]
  | number text =>
      obtain ⟨c, rest, rfl, hc, hrest⟩ := h
      have hdigit {c : UInt8} (hc : isDigit c = true ∨ c = 0x2d) : validNumberChar c = true := by
        obtain hc | rfl := hc
        · simp [validNumberChar, isNumberChar, hc]
        · decide
      have hchar {c : UInt8} (hc : validNumberChar c = true) :
          c ≠ quote ∧ c ≠ 0x7b ∧ c ≠ 0x5b ∧ c ≠ 0x7d ∧ c ≠ 0x5d := by
        refine ⟨?_, ?_, ?_, ?_, ?_⟩ <;> rintro rfl <;> revert hc <;> decide
      refine closingLoop_chars fun d hd => hchar ?_
      obtain rfl | hd := List.mem_cons.mp hd
      · exact hdigit hc
      · exact hrest d hd
  | openObject | openArray | closeObject | closeArray =>
      exact closingLoop_cons ..
  | bool value => cases value <;> exact closingLoop_chars (by decide +kernel)
  | _ => exact closingLoop_chars (by decide +kernel)

theorem closingLoop_spaces {spaces : List UInt8} (h : ∀ char ∈ spaces, isSpace char = true) :
    closingLoop false (depth + 1) (spaces ++ tail) = closingLoop false (depth + 1) tail := by
  refine closingLoop_chars fun c hc => ?_
  have hspace := h c hc
  refine ⟨?_, ?_, ?_, ?_, ?_⟩ <;> rintro rfl <;> revert hspace <;> decide

theorem closingLoop_text {item : Spaced} {items : List Spaced} {trailing : List UInt8}
    (hspaces : ∀ char ∈ item.spaces, isSpace char = true)
    (hl : item.lexeme.Loose validNumberChar) :
    closingLoop false (depth + 1) (text (item :: items) trailing) =
      closingLoop false (level (depth + 1) item.lexeme) (text items trailing) := by
  rw [text_cons, closingLoop_spaces hspaces, closingLoop_lexeme hl]

/-- A document closes what it opens. By induction on it. -/
theorem closingLoop_document {n : Nonterminal} (doc : Document n) {items : List Spaced}
    (hitems : items.map Spaced.lexeme = doc.lexemes) (hspacing : Spacing items [])
    (hloose : ∀ l ∈ doc.lexemes, l.Loose validNumberChar) :
    closingLoop false (depth + 1) (text items tail) = closingLoop false (depth + 1) tail := by
  have hbehind {n : Nonterminal} {rest : Document n} {items : List Spaced} {depth : Nat}
      {tail : List UInt8} (hitems : items.map Spaced.lexeme = rest.behind)
      (hspacing : Spacing items []) (hloose : ∀ l ∈ rest.behind, l.Loose validNumberChar)
      (ih : ∀ items : List Spaced, items.map Spaced.lexeme = rest.lexemes → Spacing items [] →
        (∀ l ∈ rest.lexemes, l.Loose validNumberChar) →
        closingLoop false (depth + 1) (text items tail) = closingLoop false (depth + 1) tail) :
      closingLoop false (depth + 1) (text items tail) = closingLoop false (depth + 1) tail := by
    unfold Document.behind at hitems hloose
    split at hitems
    · rw [List.map_eq_nil_iff.mp hitems, text_nil]
    · rename_i hempty
      rw [if_neg hempty] at hloose
      obtain ⟨item, others, rfl, hcomma, hothers⟩ := List.map_eq_cons_iff.mp hitems
      rw [closingLoop_text hspacing.head (hcomma ▸ trivial), hcomma]
      exact ih others hothers hspacing.tail fun l hl => hloose l (List.mem_cons_of_mem _ hl)
  have hcontainer {n : Nonterminal} {inner : Document n} {opens closes : Lexeme} {depth : Nat}
      {tail : List UInt8} (hopens : level (depth + 1) opens = depth + 2)
      (hcloses : level (depth + 2) closes = depth + 1) {items : List Spaced}
      (hitems : items.map Spaced.lexeme = opens :: (inner.lexemes ++ [closes]))
      (hspacing : Spacing items [])
      (hloose : ∀ l ∈ opens :: (inner.lexemes ++ [closes]), l.Loose validNumberChar)
      (ih : ∀ (items : List Spaced) (tail : List UInt8),
        items.map Spaced.lexeme = inner.lexemes → Spacing items [] →
        (∀ l ∈ inner.lexemes, l.Loose validNumberChar) →
        closingLoop false (depth + 2) (text items tail) = closingLoop false (depth + 2) tail) :
      closingLoop false (depth + 1) (text items tail) = closingLoop false (depth + 1) tail := by
    obtain ⟨item, others, rfl, rfl, hothers⟩ := List.map_eq_cons_iff.mp hitems
    obtain ⟨between, last, rfl, hbetween, hlast⟩ := List.map_eq_append_iff.mp hothers
    obtain ⟨item', others', rfl, rfl, hnil⟩ := List.map_eq_cons_iff.mp hlast
    obtain rfl := List.map_eq_nil_iff.mp hnil
    rw [closingLoop_text hspacing.head (hloose _ List.mem_cons_self), hopens, text_append,
      ih _ _ hbetween ⟨fun other hmem => hspacing.tail.items other (by simp [hmem]), by simp⟩
        fun l hl => hloose l (by simp [hl]),
      closingLoop_text (hspacing.items item' (by simp)) (hloose _ (by simp)), hcloses, text_nil]
  induction doc generalizing items depth tail with
  | string content | number text | bool value | null =>
      obtain ⟨item, others, rfl, hlexeme, hothers⟩ := List.map_eq_cons_iff.mp hitems
      rw [closingLoop_text hspacing.head (hloose _ (by simp [Document.lexemes, hlexeme])),
        List.map_eq_nil_iff.mp hothers, text_nil, hlexeme]
      rfl
  | object members ih =>
      exact hcontainer rfl rfl hitems hspacing hloose fun _ _ hitems hspacing hloose =>
        ih hitems hspacing hloose
  | array elements ih =>
      exact hcontainer rfl rfl hitems hspacing hloose fun _ _ hitems hspacing hloose =>
        ih hitems hspacing hloose
  | noMembers | noElements => rw [List.map_eq_nil_iff.mp hitems, text_nil]
  | member key value rest ih ih' =>
      rw [Document.lexemes_member] at hitems hloose
      obtain ⟨item, others, rfl, hkey, hothers⟩ := List.map_eq_cons_iff.mp hitems
      obtain ⟨item', others', rfl, hcolon, hothers'⟩ := List.map_eq_cons_iff.mp hothers
      obtain ⟨inner, after, rfl, hinner, hafter⟩ := List.map_eq_append_iff.mp hothers'
      rw [closingLoop_text hspacing.head (hkey ▸ hloose _ List.mem_cons_self), hkey,
        level_string, closingLoop_text hspacing.tail.head (hcolon ▸ trivial), hcolon, level_colon,
        text_append, ih hinner ⟨fun other hmem => hspacing.items other (by simp [hmem]), by simp⟩
          fun l hl => hloose l (by simp [hl])]
      exact hbehind hafter ⟨fun other hmem => hspacing.items other (by simp [hmem]), by simp⟩
        (fun l hl => hloose l (by simp [hl])) fun _ hitems hspacing hloose =>
          ih' hitems hspacing hloose
  | element value rest ih ih' =>
      rw [Document.lexemes_element] at hitems hloose
      obtain ⟨inner, after, rfl, hinner, hafter⟩ := List.map_eq_append_iff.mp hitems
      rw [text_append,
        ih hinner ⟨fun other hmem => hspacing.items other (by simp [hmem]), by simp⟩
          fun l hl => hloose l (by simp [hl])]
      exact hbehind hafter ⟨fun other hmem => hspacing.items other (by simp [hmem]), by simp⟩
        (fun l hl => hloose l (by simp [hl])) fun _ hitems hspacing hloose =>
          ih' hitems hspacing hloose

/-- The bracket that closes the container that the reader is in. -/
theorem closingLoop_closes {n : Nonterminal} (inner : Document n) {between after : List Spaced}
    {last : Spaced} {trailing : List UInt8} (hcloses : level 1 last.lexeme = 0)
    (hbetween : between.map Spaced.lexeme = inner.lexemes)
    (hspacing : Spacing (between ++ last :: after) trailing)
    (hloose : ∀ l ∈ (between ++ last :: after).map Spaced.lexeme, l.Loose validNumberChar) :
    closingLoop false 1 (text (between ++ last :: after) trailing) =
      { rest := text after trailing, inString := false, depth := 0 } := by
  have hinner : ∀ l ∈ inner.lexemes, l.Loose validNumberChar := by
    intro l hl
    rw [← hbetween] at hl
    obtain ⟨item, hitem, rfl⟩ := List.mem_map.mp hl
    exact hloose _ (List.mem_map.mpr ⟨item, List.mem_append_left _ hitem, rfl⟩)
  rw [text_append, closingLoop_document inner hbetween
      ⟨fun other hmem => hspacing.items other (by simp [hmem]), by simp⟩ hinner,
    closingLoop_text (hspacing.items last (by simp)) (hloose _ (by simp)), hcloses,
    closingLoop_zero]

end Closing

theorem Whole.skipToClosing {r : JsonReader} (h : Whole r) {tail : List UInt8}
    (hclosing : closingLoop false 1 r.rest = { rest := tail, inString := false, depth := 0 }) :
    r.skipToClosing = { r with rest := tail, needMoreData := false } := by
  rw [JsonReader.skipToClosing, h.outside, h.depth, hclosing]
  cases r
  cases h.outside
  cases h.depth
  rfl

/-- The tokens that a value begins with. -/
def Token.beginsValue : Token → Bool
  | .objectStart | .arrayStart | .string | .number | .boolean | .null => true
  | _ => false

/-- The text of a value, from its first character to its last one. -/
def source (inner : List Spaced) : List UInt8 := (text inner []).dropWhile isSpace

theorem dropWhile_source {inner after : List Spaced} {trailing : List UInt8}
    (hinner : inner ≠ []) (hspacing : Spacing (inner ++ after) trailing)
    (hloose : ∀ l ∈ inner.map Spaced.lexeme, l.Loose validNumberChar) :
    (text (inner ++ after) trailing).dropWhile isSpace = source inner ++ text after trailing := by
  obtain ⟨item, others, rfl⟩ := List.exists_cons_of_ne_nil hinner
  have hl := hloose item.lexeme List.mem_cons_self
  have hothers : text (others ++ after) trailing = text others [] ++ text after trailing := by
    simp [text]
  rw [source, dropWhile_text hspacing.left.head hl, List.append_assoc, ← hothers]
  exact dropWhile_text hspacing.left.head hl

/-- A value is ahead, and `skipValue` stops in front of `tail`. -/
structure Skips (r : JsonReader) (tail : List UInt8) : Prop where
  begins : r.next.1.beginsValue = true
  whole : Whole r.skipValue
  rest : r.skipValue.rest = tail
  needMoreData : r.skipValue.needMoreData = false

namespace At

variable {r : JsonReader} {item : Spaced} {gap inner after : List Spaced} {trailing : List UInt8}

/-- A value of one lexeme. -/
theorem skips_scalar (h : At r (gap ++ item :: after) trailing) (hgap : Gap gap)
    (hl : Readable item.lexeme) (hafter : isColon (after.map Spaced.lexeme) = false)
    (hbegins : (tokenOf false item.lexeme).beginsValue = true)
    (hscalar : ¬ (tokenOf false item.lexeme = .objectStart ∨
      tokenOf false item.lexeme = .arrayStart)) : Skips r (text after trailing) := by
  have hsep : item.lexeme.isSeparator = false := by
    cases hlexeme : item.lexeme with
    | colon | comma =>
        rw [hlexeme] at hbegins
        cases hbegins
    | _ => rfl
  have hnext := h.next hgap hl hsep
  rw [hafter] at hnext
  have hskip : r.skipValue = r.consumed item.lexeme (text after trailing) := by
    rw [JsonReader.skipValue, hnext]
    exact if_neg hscalar
  have hkey : tokenOf false item.lexeme ≠ .key := by
    intro hkey
    rw [hkey] at hbegins
    cases hbegins
  refine ⟨by rw [hnext]; exact hbegins, hskip ▸ h.whole.consumed _ _, ?_, by rw [hskip]; rfl⟩
  rw [hskip, JsonReader.consumed, h.colonAhead_eq, hafter]
  exact if_neg hkey

/-- A container goes on to the bracket that closes it. -/
theorem skips_container {n : Nonterminal} {contents : Document n} {opens closes : Lexeme}
    (h : At r (gap ++ (inner ++ after)) trailing) (hgap : Gap gap)
    (hinner : inner.map Spaced.lexeme = opens :: (contents.lexemes ++ [closes]))
    (hopens : opens = .openObject ∨ opens = .openArray) (hcloses : level 1 closes = 0) :
    Skips r (text after trailing) := by
  obtain ⟨item, others, rfl, rfl, hothers⟩ := List.map_eq_cons_iff.mp hinner
  obtain ⟨between, final, rfl, hbetween, hfinal⟩ := List.map_eq_append_iff.mp hothers
  obtain ⟨last, nothing, rfl, rfl, hnothing⟩ := List.map_eq_cons_iff.mp hfinal
  obtain rfl := List.map_eq_nil_iff.mp hnothing
  rw [List.cons_append, List.append_assoc, List.singleton_append] at h
  have hopen : Readable item.lexeme ∧ item.lexeme.isSeparator = false := by
    obtain hopens | hopens := hopens <;> rw [hopens] <;> exact ⟨trivial, rfl⟩
  have hstart : ∀ colon, tokenOf colon item.lexeme = .objectStart ∨
      tokenOf colon item.lexeme = .arrayStart := by
    intro colon
    obtain hopens | hopens := hopens <;> rw [hopens]
    · exact .inl rfl
    · exact .inr rfl
  have hnext := h.next hgap hopen.1 hopen.2
  have hclosing := closingLoop_closes contents hcloses hbetween h.spacing.right.tail fun l hl =>
    h.loose l (by
      rw [List.map_append, List.map_cons]
      exact List.mem_append_right _ (List.mem_cons_of_mem _ hl))
  have hwhole := h.whole.consumed item.lexeme (text (between ++ last :: after) trailing)
  have hrest : (r.consumed item.lexeme (text (between ++ last :: after) trailing)).rest =
      text (between ++ last :: after) trailing := by
    refine if_neg fun hkey => ?_
    have := hstart (colonAhead (text (between ++ last :: after) trailing))
    rw [hkey] at this
    simp at this
  have hskip : r.skipValue =
      { r.consumed item.lexeme (text (between ++ last :: after) trailing) with
        rest := text after trailing, needMoreData := false } := by
    rw [JsonReader.skipValue, hnext]
    dsimp only
    rw [if_pos (hstart _)]
    exact hwhole.skipToClosing ((congrArg (closingLoop false 1) hrest).trans hclosing)
  refine ⟨?_, ?_, by rw [hskip], by rw [hskip]⟩
  · rw [hnext]
    dsimp only
    obtain hstart | hstart := hstart (isColon ((between ++ last :: after).map Spaced.lexeme)) <;>
      rw [hstart] <;> rfl
  · rw [hskip]
    exact ⟨hwhole.ended, hwhole.outside, hwhole.depth⟩

/-- A value is skipped as a whole. -/
theorem skips (v : Document .value) (h : At r (gap ++ (inner ++ after)) trailing)
    (hgap : Gap gap) (hinner : inner.map Spaced.lexeme = v.lexemes)
    (hreadable : ∀ l ∈ v.lexemes, Readable l)
    (hafter : isColon (after.map Spaced.lexeme) = false) : Skips r (text after trailing) := by
  cases v with
  | object members => exact h.skips_container hgap hinner (.inl rfl) rfl
  | array elements => exact h.skips_container hgap hinner (.inr rfl) rfl
  | string _ | number _ | bool _ | null =>
      obtain ⟨item, others, rfl, hlexeme, hothers⟩ := List.map_eq_cons_iff.mp hinner
      obtain rfl := List.map_eq_nil_iff.mp hothers
      refine skips_scalar h hgap (hreadable _ (hlexeme ▸ List.mem_singleton_self _)) hafter ?_ ?_
      · rw [hlexeme]
        rfl
      · rw [hlexeme]
        simp [tokenOf]

/-- `rawValue` first goes over white space and a separator. -/
theorem rawValue_of_skips {s : JsonReader} {tail : List UInt8}
    (hs : (match r.skipWhitespace.rest with
      | c :: rest =>
          if c = 0x3a ∨ c = 0x2c then
            ({ r.skipWhitespace with rest } : JsonReader).skipWhitespace
          else r.skipWhitespace
      | [] => r.skipWhitespace) = s)
    (h : Skips s tail) :
    r.rawValue = (s.rest.take (s.rest.length - tail.length), s.skipValue) := by
  have hskip : s.skipValue = if s.next.1 = .objectStart ∨ s.next.1 = .arrayStart then
      s.next.2.skipToClosing else s.next.2 := rfl
  have hraw : r.rawValue =
      if s.next.1 = .needMoreData then ([], s.next.2)
      else if (s.next.1 = .objectStart ∨ s.next.1 = .arrayStart) ∧ s.skipValue.needMoreData then
        ([], s.skipValue)
      else if s.next.1 = .end ∨ s.next.1 = .error then ([], s.skipValue)
      else (s.rest.take (s.rest.length - s.skipValue.rest.length), s.skipValue) := by
    rw [← hs]
    rfl
  have hbegins := h.begins
  rw [hraw, h.rest, h.needMoreData]
  cases htoken : s.next.1 with
  | objectStart | arrayStart | string | number | boolean | null => simp
  | _ =>
      rw [htoken] at hbegins
      cases hbegins

/-- Where the reader stands behind white space and a separator. -/
theorem exists_behind_gap {items : List Spaced} (h : At r (gap ++ item :: items) trailing)
    (hgap : Gap gap) (hsep : item.lexeme.isSeparator = false) :
    ∃ s, (match r.skipWhitespace.rest with
      | c :: rest =>
          if c = 0x3a ∨ c = 0x2c then
            ({ r.skipWhitespace with rest } : JsonReader).skipWhitespace
          else r.skipWhitespace
      | [] => r.skipWhitespace) = s ∧ At s (item :: items) trailing ∧
      s.rest = (text (item :: items) trailing).dropWhile isSpace := by
  have hidempotent {s : JsonReader} :
      s.skipWhitespace.rest.dropWhile isSpace = s.rest.dropWhile isSpace :=
    List.dropWhile_idempotent _ _
  have hwhole : Whole r.skipWhitespace := ⟨h.whole.ended, h.whole.outside, h.whole.depth⟩
  obtain rfl | ⟨other, rfl, hother⟩ := hgap
  · have hitem : At r (item :: items) trailing := h
    obtain ⟨c, rest, hrest, hc, -⟩ := hitem.exists_char hsep
    refine ⟨r.skipWhitespace, ?_, hitem.congr hwhole hidempotent, hitem.whitespace⟩
    rw [hrest]
    exact if_neg hc
  · have hseparator : At r (other :: item :: items) trailing := h
    obtain ⟨c, hrest, hc⟩ := hseparator.exists_separator hother
    refine ⟨({ r.skipWhitespace with rest := text (item :: items) trailing } :
      JsonReader).skipWhitespace, ?_, ?_, rfl⟩
    · rw [hrest]
      exact if_pos hc
    · exact hseparator.tail ⟨h.whole.ended, h.whole.outside, h.whole.depth⟩ hidempotent

theorem rawValue_value (v : Document .value) (h : At r (gap ++ (inner ++ after)) trailing)
    (hgap : Gap gap) (hinner : inner.map Spaced.lexeme = v.lexemes)
    (hreadable : ∀ l ∈ v.lexemes, Readable l)
    (hafter : isColon (after.map Spaced.lexeme) = false) :
    r.rawValue.1 = source inner ∧ r.rawValue.2.rest = text after trailing ∧
      Whole r.rawValue.2 := by
  obtain ⟨l, more, hlexemes, hstarts⟩ := Document.exists_lexemes_cons v.isEmpty_value
  obtain ⟨item, others, rfl, rfl, hothers⟩ := List.map_eq_cons_iff.mp (hinner.trans hlexemes)
  have hbehind : At r (gap ++ item :: (others ++ after)) trailing := h
  obtain ⟨s, hs, hat, hrest⟩ := hbehind.exists_behind_gap hgap hstarts.1
  have hskips := @skips _ [] _ _ _ v hat (.inl rfl) hinner hreadable hafter
  have htext : s.rest = source (item :: others) ++ text after trailing :=
    hrest.trans (@dropWhile_source (item :: others) _ _ (by simp) hat.spacing fun l hl =>
      hat.loose l (by
        rw [← List.cons_append, List.map_append]
        exact List.mem_append_left _ hl))
  rw [rawValue_of_skips hs hskips, htext, List.length_append, Nat.add_sub_cancel,
    List.take_left']
  · exact ⟨rfl, hskips.rest, hskips.whole⟩
  · rfl

end At

theorem length_le_text {items : List Spaced} {trailing : List UInt8}
    (h : ∀ l ∈ items.map Spaced.lexeme, l.Loose validNumberChar) :
    items.length ≤ (text items trailing).length := by
  induction items with
  | nil => exact Nat.zero_le _
  | cons item items ih =>
      obtain ⟨hl, hrest⟩ := List.forall_mem_cons.mp h
      obtain ⟨c, more, hbytes, -⟩ := hl.exists_cons
      have hle := ih hrest
      rw [text_cons, hbytes, List.length_append, List.length_append, List.length_cons,
        List.length_cons]
      omega

theorem At.length_le {r : JsonReader} {items : List Spaced} {trailing : List UInt8}
    (h : At r items trailing) : items.length ≤ r.rest.length := by
  refine Nat.le_trans ?_ (List.dropWhile_suffix (p := isSpace) : _ <:+ r.rest).length_le
  rw [h.rest]
  cases items with
  | nil => exact Nat.zero_le _
  | cons item items =>
      obtain ⟨hl, hrest⟩ := List.forall_mem_cons.mp h.loose
      obtain ⟨c, more, hbytes, -⟩ := hl.exists_cons
      have hle := @length_le_text items trailing hrest
      rw [dropWhile_text h.spacing.head hl, hbytes, List.length_append, List.length_cons,
        List.length_cons]
      omega

theorem at_ofText {items : List Spaced} {trailing : List UInt8} (hspacing : Spacing items trailing)
    (hadjacent : Adjacent (items.map Spaced.lexeme))
    (hloose : ∀ l ∈ items.map Spaced.lexeme, l.Loose validNumberChar) :
    At (ofText (text items trailing)) items trailing :=
  ⟨⟨rfl, rfl, rfl⟩, List.dropWhile_idempotent _ _, hspacing, hadjacent, hloose⟩

theorem valueOf_eq_nil {l : Lexeme} {colon : Bool} (h : (tokenOf colon l).hasValue = false) :
    valueOf l = [] := by
  cases l with
  | string content => cases colon <;> cases h
  | number | bool | null => cases h
  | _ => rfl

/-- The lexemes that the reader finds next, behind a separator or at once. -/
structure Reads (r : JsonReader) (ls : List Lexeme) : Prop where
  exists_at : ∃ gap items trailing, Gap gap ∧ items.map Spaced.lexeme = ls ∧
    At r (gap ++ items) trailing
  readable : ∀ l ∈ ls, Readable l

namespace Reads

variable {r s : JsonReader} {l : Lexeme} {ls rest : List Lexeme}

theorem whole (h : Reads r ls) : Whole r := by
  obtain ⟨gap, items, trailing, -, -, hat⟩ := h.exists_at
  exact hat.whole

theorem congr (h : Reads r ls) (hs : Whole s) (hrest : s.rest = r.rest) : Reads s ls := by
  obtain ⟨gap, items, trailing, hgap, hls, hat⟩ := h.exists_at
  exact ⟨⟨gap, items, trailing, hgap, hls, hat.congr hs (by rw [hrest])⟩, h.readable⟩

/-- A separator counts as a part of what it is in front of. -/
theorem separator (h : Reads r (l :: rest)) (hsep : l.isSeparator = true) : Reads r rest := by
  obtain ⟨gap, items, trailing, hgap, hls, hat⟩ := h.exists_at
  obtain ⟨item, others, rfl, rfl, rfl⟩ := List.map_eq_cons_iff.mp hls
  refine ⟨?_, fun l hl => h.readable l (List.mem_cons_of_mem _ hl)⟩
  obtain rfl | ⟨other, rfl, hother⟩ := hgap
  · exact ⟨[item], others, trailing, .inr ⟨item, rfl, hsep⟩, rfl, hat⟩
  · have hfollows := hat.adjacent.1.1 hother
    rw [hsep] at hfollows
    cases hfollows

theorem next_nil (h : Reads r []) : r.next = (.end, { r with rest := [] }) := by
  obtain ⟨gap, items, trailing, hgap, hls, hat⟩ := h.exists_at
  obtain rfl := List.map_eq_nil_iff.mp hls
  obtain rfl | ⟨other, rfl, hother⟩ := hgap
  · exact At.next_nil hat
  · have hlast : other.lexeme.isSeparator = false := hat.adjacent
    rw [hother] at hlast
    cases hlast

theorem next_nil_reads (h : Reads r []) : Reads { r with rest := [] } [] :=
  ⟨⟨[], [], [], .inl rfl, rfl, ⟨h.whole.ended, h.whole.outside, h.whole.depth⟩, rfl,
    ⟨nofun, nofun⟩, trivial, nofun⟩, nofun⟩

theorem exists_next (h : Reads r (l :: rest)) (hsep : l.isSeparator = false) :
    ∃ tail, colonAhead tail = isColon rest ∧
      r.next = (tokenOf (isColon rest) l, r.consumed l tail) ∧ Reads r.next.2 rest := by
  obtain ⟨gap, items, trailing, hgap, hls, hat⟩ := h.exists_at
  obtain ⟨item, others, rfl, rfl, rfl⟩ := List.map_eq_cons_iff.mp hls
  have hnext := hat.next hgap (h.readable _ List.mem_cons_self) hsep
  refine ⟨text others trailing, hat.colonAhead_eq, hnext, ?_, ?_⟩
  · rw [hnext]
    exact ⟨[], others, trailing, .inl rfl, rfl, hat.consumed hgap item.lexeme⟩
  · exact fun l hl => h.readable l (List.mem_cons_of_mem _ hl)

/-- What a call of `next` reports, and what it leaves. -/
theorem next (h : Reads r (l :: rest)) (hsep : l.isSeparator = false) :
    r.next.1 = tokenOf (isColon rest) l ∧ Reads r.next.2 rest := by
  obtain ⟨tail, -, hnext, hreads⟩ := h.exists_next hsep
  exact ⟨by rw [hnext], hreads⟩

theorem next_value (h : Reads r (l :: rest)) (hsep : l.isSeparator = false)
    (hvalue : (tokenOf (isColon rest) l).hasValue = true) : r.next.2.value = valueOf l := by
  obtain ⟨tail, hcolon, hnext, -⟩ := h.exists_next hsep
  rw [hnext]
  exact if_pos (hcolon ▸ hvalue)

theorem report (h : Reads r (l :: rest)) (hsep : l.isSeparator = false) :
    report r.next.1 r.next.2 = (tokenOf (isColon rest) l, valueOf l) := by
  rw [(h.next hsep).1, JsonReader.report]
  split
  · rename_i hvalue
    rw [h.next_value hsep hvalue]
  · rename_i hvalue
    rw [valueOf_eq_nil (Bool.not_eq_true _ ▸ hvalue)]

theorem exists_skips (v : Document .value) (h : Reads r (v.lexemes ++ rest))
    (hrest : isColon rest = false) : r.next.1.beginsValue = true ∧ Reads r.skipValue rest := by
  obtain ⟨gap, items, trailing, hgap, hls, hat⟩ := h.exists_at
  obtain ⟨inner, after, rfl, hinner, rfl⟩ := List.map_eq_append_iff.mp hls
  have hskips := hat.skips v hgap hinner
    (fun l hl => h.readable l (List.mem_append_left _ hl)) hrest
  refine ⟨hskips.begins, ⟨[], after, trailing, .inl rfl, rfl, hskips.whole,
    by rw [hskips.rest]; rfl, hat.spacing.right.right, ?_, ?_⟩,
    fun l hl => h.readable l (List.mem_append_right _ hl)⟩
  · have hadjacent := hat.adjacent
    rw [List.map_append, List.map_append] at hadjacent
    exact hadjacent.right.right
  · intro l hl
    refine hat.loose l ?_
    rw [List.map_append, List.map_append]
    exact List.mem_append_right _ (List.mem_append_right _ hl)

/-- A value is skipped as a whole. -/
theorem skipValue (v : Document .value) (h : Reads r (v.lexemes ++ rest))
    (hrest : isColon rest = false) : Reads r.skipValue rest := (h.exists_skips v hrest).2

theorem beginsValue (v : Document .value) (h : Reads r (v.lexemes ++ rest))
    (hrest : isColon rest = false) : r.next.1.beginsValue = true := (h.exists_skips v hrest).1

/-- No more lexemes are ahead than there are bytes. -/
theorem length_le (h : Reads r ls) : ls.length ≤ r.rest.length := by
  obtain ⟨gap, items, trailing, -, rfl, hat⟩ := h.exists_at
  rw [List.length_map]
  exact (List.sublist_append_right gap items).length_le.trans hat.length_le

end Reads

end JsonReader

end Ebus
