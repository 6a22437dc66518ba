import Ebus.Utils.JsonReader
import Mathlib.Data.List.TakeWhile

/-!
# The reader, lexeme by lexeme

A call of `next` skips white space and at most one separator and then reads one lexeme. While
the text is being fed, what is left of it is the part that the reader has and the part that is
still to come. `Ahead` says that the two together are the text of some lexemes, and
`Ahead.next` what one call does to it: it reports the first lexeme, or waits for more of it.

The only report that depends on how far the text was fed is the one of a key: without the
colon it is reported as a string. `KeyCut` says that the text was fed just that far.
-/

namespace Ebus

open Json

namespace JsonReader

/-- The token of a lexeme; a string is a key if a colon is ahead. -/
def tokenOf (colonAhead : Bool) : Lexeme → Token
  | .openObject => .objectStart
  | .closeObject => .objectEnd
  | .openArray => .arrayStart
  | .closeArray => .arrayEnd
  | .string _ => if colonAhead then .key else .string
  | .number _ => .number
  | .bool _ => .boolean
  | .null => .null
  | .colon | .comma => .error

def valueOf : Lexeme → List UInt8
  | .string content => content
  | .number text => text
  | .bool true => Lexeme.trueText
  | .bool false => Lexeme.falseText
  | .null => Lexeme.nullText
  | _ => []

def isColon (lexemes : List Lexeme) : Bool := lexemes.head? = some .colon

/-- The tokens of a text, without the one for its end. -/
def tokens : List Lexeme → List (Token × List UInt8)
  | [] => []
  | lexeme :: rest =>
      if lexeme.isSeparator then tokens rest
      else (tokenOf (isColon rest) lexeme, valueOf lexeme) :: tokens rest

theorem readString_cons (c : UInt8) (rest : List UInt8) :
    readString (c :: rest) =
      if c = backslash then
        match rest with
        | [] => none
        | next :: rest =>
            if next = Json.unicode then
              match rest with
              | a :: b :: c' :: d :: rest =>
                  (readString rest).map fun (s, after) =>
                    (c :: next :: a :: b :: c' :: d :: s, after)
              | _ => none
            else (readString rest).map fun (s, after) => (c :: next :: s, after)
      else if c = quote then some ([], rest)
      else (readString rest).map fun (s, after) => (c :: s, after) :=
  readString.eq_def _

theorem readString_quote (rest : List UInt8) : readString (quote :: rest) = some ([], rest) :=
  readString_cons quote rest

theorem readString_char {c : UInt8} (hquote : c ≠ quote) (hescape : c ≠ backslash)
    (rest : List UInt8) :
    readString (c :: rest) = (readString rest).map fun (s, after) => (c :: s, after) := by
  rw [readString_cons, if_neg hescape, if_neg hquote]

theorem readString_escape {c : UInt8} (h : c ≠ Json.unicode) (rest : List UInt8) :
    readString (backslash :: c :: rest) =
      (readString rest).map fun (s, after) => (backslash :: c :: s, after) := by
  rw [readString_cons, if_pos rfl]
  exact if_neg h

theorem readString_unicode (a b c d : UInt8) (rest : List UInt8) :
    readString (backslash :: Json.unicode :: a :: b :: c :: d :: rest) =
      (readString rest).map fun (s, after) =>
        (backslash :: Json.unicode :: a :: b :: c :: d :: s, after) := by
  rw [readString_cons, if_pos rfl]
  exact if_pos rfl

/-- The digits of an escape are not all there. -/
theorem readString_short {rest : List UInt8} (h : rest.length < 4) :
    readString (backslash :: Json.unicode :: rest) = none := by
  rw [readString_cons]
  match rest with
  | [] | [_] | [_, _] | [_, _, _] => rfl
  | _ :: _ :: _ :: _ :: _ =>
      simp only [List.length_cons] at h
      omega

theorem ne_unicode {char : UInt8} (h : isSimpleEscape char = true) : char ≠ Json.unicode := by
  rintro rfl
  revert h
  decide

theorem readString_content {content : List UInt8} (h : StringContent content)
    (tail : List UInt8) : readString (content ++ quote :: tail) = some (content, tail) := by
  induction h with
  | nil => exact readString_quote tail
  | char hquote hescape _ _ ih =>
      rw [List.cons_append, readString_char hquote hescape, ih]
      rfl
  | escape hchar _ ih =>
      rw [List.cons_append, List.cons_append, readString_escape (ne_unicode hchar), ih]
      rfl
  | unicode _ _ _ _ _ ih =>
      simp only [List.cons_append]
      rw [readString_unicode, ih]
      rfl

/-- Without its closing quote a string is not read. -/
theorem readString_prefix {content front : List UInt8} (h : StringContent content)
    (hfront : front <+: content) : readString front = none := by
  induction h generalizing front with
  | nil =>
      rw [List.prefix_nil] at hfront
      rw [hfront]
      rfl
  | char hquote hescape _ _ ih =>
      cases front with
      | nil => rfl
      | cons c front =>
          obtain ⟨rfl, hrest⟩ := List.cons_prefix_cons.mp hfront
          rw [readString_char hquote hescape, ih hrest]
          rfl
  | escape hchar _ ih =>
      match front with
      | [] => rfl
      | [c] =>
          obtain ⟨rfl, -⟩ := List.cons_prefix_cons.mp hfront
          rfl
      | c :: c' :: front =>
          obtain ⟨rfl, hnext⟩ := List.cons_prefix_cons.mp hfront
          obtain ⟨rfl, hrest⟩ := List.cons_prefix_cons.mp hnext
          rw [readString_escape (ne_unicode hchar), ih hrest]
          rfl
  | unicode _ _ _ _ _ ih =>
      match front with
      | [] => rfl
      | [c] =>
          obtain ⟨rfl, -⟩ := List.cons_prefix_cons.mp hfront
          rfl
      | c :: c' :: front =>
          obtain ⟨rfl, hnext⟩ := List.cons_prefix_cons.mp hfront
          obtain ⟨rfl, hdigits⟩ := List.cons_prefix_cons.mp hnext
          by_cases hshort : front.length < 4
          · exact readString_short hshort
          · match front with
            | x :: y :: z :: v :: front =>
                simp only [List.cons_prefix_cons] at hdigits
                obtain ⟨rfl, rfl, rfl, rfl, hrest⟩ := hdigits
                rw [readString_unicode, ih hrest]
                rfl
            | [] | [_] | [_, _] | [_, _, _] => simp at hshort

theorem isNumberChar_of_mem {text : List UInt8} (h : NumberText text) {char : UInt8}
    (hmem : char ∈ text) : isNumberChar char = true := by
  have := h.mem char hmem
  simpa [isNumberChar, or_assoc] using this

theorem span_number {text tail : List UInt8} (htext : ∀ char ∈ text, isNumberChar char = true)
    (htail : ∀ char ∈ tail.head?, isNumberChar char = false) :
    (text ++ tail).takeWhile isNumberChar = text ∧
      (text ++ tail).dropWhile isNumberChar = tail := by
  rw [List.takeWhile_append_of_pos htext, List.dropWhile_append_of_pos htext]
  cases tail with
  | nil => simp
  | cons char tail => simp [htail char rfl]

/-- The first character of a lexeme. -/
theorem exists_bytes_cons {l : Lexeme} (h : l.WellFormed) :
    ∃ c rest, l.bytes = c :: rest ∧ isSpace c = false ∧ (c = 0x3a ↔ l = .colon) ∧
      (c = 0x2c ↔ l = .comma) := by
  cases l with
  | number text =>
      obtain ⟨c, rest, rfl, hc⟩ := NumberText.exists_cons h
      refine ⟨c, rest, rfl, ?_⟩
      obtain hdigit | rfl := hc
      · have hne : ∀ d : UInt8, isDigit d = false → c ≠ d := by
          rintro d hd rfl
          rw [hd] at hdigit
          cases hdigit
        refine ⟨?_, by simp [hne 0x3a (by decide)], by simp [hne 0x2c (by decide)]⟩
        simp [isSpace, hne 0x20 (by decide), hne 0x09 (by decide), hne 0x0a (by decide),
          hne 0x0d (by decide)]
      · exact ⟨by decide, by simp, by simp⟩
  | bool value => cases value <;> exact ⟨_, _, rfl, by decide, by decide, by decide⟩
  | _ => exact ⟨_, _, rfl, by decide, by simp [quote], by simp [quote]⟩

theorem bytes_ne_nil {l : Lexeme} (h : l.WellFormed) : l.bytes ≠ [] := by
  obtain ⟨c, rest, hbytes, -⟩ := exists_bytes_cons h
  simp [hbytes]

/-- A colon is the next thing in the text. -/
def colonAhead (tail : List UInt8) : Bool := (tail.dropWhile isSpace).head? = some 0x3a

/-- What a reader that has read a lexeme is left with: the text behind it, but for some white
space. -/
structure Behind (r : JsonReader) (tail : List UInt8) (r' : JsonReader) : Prop where
  ended : r'.ended = r.ended
  rest : ∃ spaces, (∀ char ∈ spaces, isSpace char = true) ∧ spaces ++ r'.rest = tail

theorem Behind.exact (r : JsonReader) (value tail : List UInt8) :
    r.Behind tail { r with value, rest := tail } := ⟨rfl, [], by simp, rfl⟩

section Token
variable {r : JsonReader} {c : UInt8} {rest tail : List UInt8}

theorem keyword_complete {token : Token} {word : List UInt8} (hrest : r.rest = word ++ tail)
    (htoken : token.hasValue = true) :
    ∃ r', r.keyword token word = (token, r') ∧ report token r' = (token, word) ∧
      r.Behind tail r' := by
  refine ⟨{ r with value := word, rest := tail }, ?_, ?_, .exact r word tail⟩
  · rw [keyword, if_pos (by rw [hrest]; exact List.prefix_append _ _), hrest, List.drop_left]
  · rw [report, if_pos htoken]

theorem string_complete {content : List UInt8} (h : StringContent content)
    (hrest : rest = content ++ quote :: tail) :
    ∃ r', r.token quote rest = (tokenOf (colonAhead tail) (.string content), r') ∧
      report (tokenOf (colonAhead tail) (.string content)) r' =
        (tokenOf (colonAhead tail) (.string content), content) ∧
      r.Behind tail r' := by
  have htoken : r.token quote rest =
      if (tail.dropWhile isSpace).head? = some 0x3a then
        (.key, { r with value := content, rest := tail.dropWhile isSpace })
      else (.string, { r with value := content, rest := tail }) := by
    rw [hrest, token, readString_content h]
    rfl
  rw [htoken]
  by_cases hahead : (tail.dropWhile isSpace).head? = some 0x3a
  · have hcolon : colonAhead tail = true := decide_eq_true hahead
    rw [if_pos hahead, hcolon]
    refine ⟨_, rfl, rfl, rfl, tail.takeWhile isSpace, fun char hmem => ?_,
      List.takeWhile_append_dropWhile⟩
    exact List.mem_takeWhile_imp hmem
  · have hcolon : colonAhead tail = false := decide_eq_false hahead
    rw [if_neg hahead, hcolon]
    exact ⟨_, rfl, rfl, .exact r content tail⟩

/-- The branch of numbers. -/
theorem token_number (hdigit : isDigit c = true ∨ c = 0x2d) :
    r.token c rest =
      if r.ended = false ∧ rest.dropWhile isNumberChar = [] then r.waitForData
      else (.number, { r with
        value := c :: rest.takeWhile isNumberChar, rest := rest.dropWhile isNumberChar }) := by
  have hne : ∀ d : UInt8, isDigit d = false → d ≠ 0x2d → c ≠ d := by
    rintro d hd hd' rfl
    rw [hd] at hdigit
    simp [hd'] at hdigit
  rw [token, if_neg (hne _ (by decide) (by decide)), if_neg (hne _ (by decide) (by decide)),
    if_neg (hne _ (by decide) (by decide)), if_neg (hne _ (by decide) (by decide)),
    if_neg (hne _ (by decide) (by decide)), if_neg (hne _ (by decide) (by decide)),
    if_neg (hne _ (by decide) (by decide)), if_neg (hne _ (by decide) (by decide)),
    if_pos hdigit]

/-- A lexeme that is there as a whole. -/
theorem token_complete {l : Lexeme} (hl : l.WellFormed) (hsep : l.isSeparator = false)
    (hrest : r.rest = l.bytes ++ tail) (hc : r.rest = c :: rest)
    (hnumber : (∃ text, l = .number text) →
      (∀ char ∈ tail.head?, isNumberChar char = false) ∧ (tail = [] → r.ended = true)) :
    ∃ r', r.token c rest = (tokenOf (colonAhead tail) l, r') ∧
      report (tokenOf (colonAhead tail) l) r' = (tokenOf (colonAhead tail) l, valueOf l) ∧
      r.Behind tail r' := by
  have heq := hc.symm.trans hrest
  cases l with
  | colon => cases hsep
  | comma => cases hsep
  | openObject =>
      obtain ⟨rfl, rfl⟩ := List.cons.inj heq
      exact ⟨_, rfl, rfl, .exact r r.value _⟩
  | closeObject =>
      obtain ⟨rfl, rfl⟩ := List.cons.inj heq
      exact ⟨_, rfl, rfl, .exact r r.value _⟩
  | openArray =>
      obtain ⟨rfl, rfl⟩ := List.cons.inj heq
      exact ⟨_, rfl, rfl, .exact r r.value _⟩
  | closeArray =>
      obtain ⟨rfl, rfl⟩ := List.cons.inj heq
      exact ⟨_, rfl, rfl, .exact r r.value _⟩
  | string content =>
      rw [Lexeme.bytes, List.cons_append, List.append_assoc, List.singleton_append] at heq
      obtain ⟨rfl, hcontent⟩ := List.cons.inj heq
      exact string_complete hl hcontent
  | number text =>
      obtain ⟨first, more, rfl, hfirst⟩ := NumberText.exists_cons hl
      rw [Lexeme.bytes, List.cons_append] at heq
      obtain ⟨rfl, rfl⟩ := List.cons.inj heq
      obtain ⟨hend, hopen⟩ := hnumber ⟨_, rfl⟩
      have hmore : ∀ char ∈ more, isNumberChar char = true := fun char hmem =>
        isNumberChar_of_mem hl (List.mem_cons_of_mem _ hmem)
      obtain ⟨htake, hdrop⟩ := span_number hmore hend
      have hnot : ¬ (r.ended = false ∧ tail = []) := by
        rintro ⟨hended, hnil⟩
        rw [hopen hnil] at hended
        cases hended
      rw [token_number hfirst, htake, hdrop, if_neg hnot]
      exact ⟨_, rfl, rfl, .exact r _ tail⟩
  | bool value =>
      cases value with
      | true =>
          obtain ⟨rfl, -⟩ := List.cons.inj heq
          exact keyword_complete hrest rfl
      | false =>
          obtain ⟨rfl, -⟩ := List.cons.inj heq
          exact keyword_complete hrest rfl
  | null =>
      obtain ⟨rfl, -⟩ := List.cons.inj heq
      exact keyword_complete hrest rfl

theorem keyword_incomplete {token : Token} {word : List UInt8} (hended : r.ended = false)
    (hshort : r.rest.length < word.length) : r.keyword token word = r.waitForData := by
  have hnot : ¬ word <+: r.rest := fun h => absurd h.length_le (by omega)
  rw [keyword, if_neg hnot, if_pos ⟨hended, hshort⟩]

/-- A lexeme of which a part is there, or a number that may go on. -/
theorem token_incomplete {l : Lexeme} (hl : l.WellFormed) (hended : r.ended = false)
    (hrest : r.rest <+: l.bytes) (hc : r.rest = c :: rest)
    (hpart : r.rest ≠ l.bytes ∨ ∃ text, l = .number text) :
    ∃ r', r.token c rest = (.needMoreData, r') ∧ r'.rest = r.rest ∧ r'.ended = false := by
  have hshort : (∀ text, l ≠ .number text) → r.rest.length < l.bytes.length := by
    intro hno
    obtain hne | ⟨text, rfl⟩ := hpart
    · exact Nat.lt_of_le_of_ne hrest.length_le fun h => hne (hrest.eq_of_length h)
    · exact absurd rfl (hno text)
  have hfirst := hrest
  rw [hc] at hfirst
  cases l with
  | string content =>
      obtain ⟨rfl, hfront⟩ := List.cons_prefix_cons.mp hfirst
      have hshort := hshort (by simp)
      have hnone : readString rest = none := by
        refine readString_prefix hl ?_
        have hlength : rest.length ≤ content.length := by
          simp only [hc, Lexeme.bytes, List.length_cons, List.length_append, List.length_nil]
            at hshort
          omega
        exact List.prefix_of_prefix_length_le hfront (List.prefix_append content [quote]) hlength
      refine ⟨{ r with value := [], needMoreData := true }, ?_, rfl, hended⟩
      have htoken : r.token quote rest =
          ({ r with value := [] } : JsonReader).incomplete := by
        rw [token, hnone]
        rfl
      rw [htoken, incomplete, if_neg (by simp [hended])]
      rfl
  | number text =>
      obtain ⟨first, more, rfl, hdigit⟩ := NumberText.exists_cons hl
      obtain ⟨rfl, hfront⟩ := List.cons_prefix_cons.mp hfirst
      have hall : ∀ char ∈ rest, isNumberChar char = true := fun char hmem =>
        isNumberChar_of_mem hl (List.mem_cons_of_mem _ (hfront.subset hmem))
      rw [token_number hdigit, List.dropWhile_eq_nil_iff.mpr hall, if_pos ⟨hended, rfl⟩]
      exact ⟨_, rfl, rfl, hended⟩
  | bool value =>
      have hshort := hshort (by simp)
      cases value with
      | true =>
          obtain ⟨rfl, -⟩ := List.cons_prefix_cons.mp hfirst
          exact ⟨_, keyword_incomplete hended hshort, rfl, hended⟩
      | false =>
          obtain ⟨rfl, -⟩ := List.cons_prefix_cons.mp hfirst
          exact ⟨_, keyword_incomplete hended hshort, rfl, hended⟩
  | null =>
      obtain ⟨rfl, -⟩ := List.cons_prefix_cons.mp hfirst
      exact ⟨_, keyword_incomplete hended (hshort (by simp)), rfl, hended⟩
  | _ =>
      -- one character is there as a whole
      have hshort := hshort (by simp)
      simp [hc, Lexeme.bytes] at hshort

end Token

/-- The text behind a string begins with a colon, and `k` bytes before its end lies between the
string and the colon. -/
def KeyAt (k : Nat) (trailing : List UInt8) : List Spaced → Prop
  | [] => False
  | item :: items => item.lexeme = .colon ∧
      (text ({ item with spaces := [] } :: items) trailing).length ≤ k ∧
      k ≤ (text (item :: items) trailing).length

/-- `k` bytes before its end the text is between a key and its colon. -/
def KeyCut (k : Nat) (trailing : List UInt8) : List Spaced → Prop
  | [] => False
  | item :: items =>
      ((∃ content, item.lexeme = .string content) ∧ KeyAt k trailing items) ∨
        KeyCut k trailing items

/-- The string of the key is in front of the cut, and so is everything before it. -/
theorem KeyCut.length_le {k : Nat} {item : Spaced} {items : List Spaced} {trailing : List UInt8}
    (h : KeyCut k trailing (item :: items)) (hlinear : Linear ((item :: items).map Spaced.lexeme)) :
    k + item.lexeme.bytes.length ≤ (text (item :: items) trailing).length ∧
      ((∀ content, item.lexeme ≠ .string content) →
        k + item.lexeme.bytes.length < (text (item :: items) trailing).length) := by
  induction items generalizing item with
  | nil =>
      obtain ⟨-, hat⟩ | hcut := h
      · cases hat
      · cases hcut
  | cons other items ih =>
      obtain ⟨⟨content, hcontent⟩, hat⟩ | hcut := h
      · rw [text_cons, List.length_append, List.length_append]
        have hle := hat.2.2
        exact ⟨by omega, fun hno => absurd hcontent (hno content)⟩
      · have hle := (ih hcut hlinear.tail).1
        have hpos := List.length_pos_of_ne_nil (bytes_ne_nil hlinear.tail.wellFormed)
        rw [text_cons, List.length_append, List.length_append]
        exact ⟨by omega, fun _ => by omega⟩

/-- Texts of the same lexemes, with their keys at the same distance from the end. -/
structure Alike (items : List Spaced) (trailing : List UInt8) (items' : List Spaced)
    (trailing' : List UInt8) : Prop where
  lexemes : items'.map Spaced.lexeme = items.map Spaced.lexeme
  cuts : ∀ k, KeyCut k trailing' items' ↔ KeyCut k trailing items
  shorter : (text items' trailing').length ≤ (text items trailing).length

/-- What the reader has and what is still to come is the text of these lexemes. -/
structure Ahead (r : JsonReader) (future : List UInt8) (items : List Spaced)
    (trailing : List UInt8) : Prop where
  linear : Linear (items.map Spaced.lexeme)
  spacing : Spacing items trailing
  text : r.rest ++ future = Json.text items trailing
  ended : r.ended = true → future = []

/-- White space that the text begins with lies in front of its first lexeme. -/
theorem exists_of_spaces {items : List Spaced} {trailing spaces rest : List UInt8}
    (hlinear : Linear (items.map Spaced.lexeme)) (hspacing : Spacing items trailing)
    (hspaces : ∀ char ∈ spaces, isSpace char = true)
    (htext : spaces ++ rest = text items trailing) :
    ∃ items' trailing', rest = text items' trailing' ∧ Spacing items' trailing' ∧
      Alike items trailing items' trailing' := by
  have hshorter : rest.length ≤ (text items trailing).length := by
    rw [← htext, List.length_append]
    exact Nat.le_add_left _ _
  cases items with
  | nil =>
      rw [text_nil] at htext
      refine ⟨[], rest, rfl, ⟨by simp, fun char hmem => ?_⟩, rfl, fun k => Iff.rfl, hshorter⟩
      exact hspacing.trailing char (htext ▸ List.mem_append_right _ hmem)
  | cons item items =>
      rw [text_cons] at htext
      obtain ⟨c, more, hbytes, hc, -⟩ := exists_bytes_cons hlinear.wellFormed
      obtain ⟨spaces', hitem⟩ : ∃ spaces', item.spaces = spaces ++ spaces' := by
        obtain ⟨extra, hextra, -⟩ | ⟨extra, hextra, hrest⟩ := List.append_eq_append_iff.mp htext
        · exact ⟨extra, hextra⟩
        · cases extra with
          | nil => exact ⟨[], by simpa using hextra.symm⟩
          | cons d extra =>
              -- the first character of the lexeme would be white space
              rw [hbytes, List.cons_append, List.cons_append] at hrest
              obtain ⟨rfl, -⟩ := List.cons.inj hrest
              have hspace := hspaces c (by rw [hextra]; simp)
              rw [hc] at hspace
              cases hspace
      have hrest : rest = text ({ item with spaces := spaces' } :: items) trailing := by
        rw [hitem, List.append_assoc] at htext
        rw [text_cons]
        exact List.append_cancel_left htext
      refine ⟨{ item with spaces := spaces' } :: items, trailing, hrest, ⟨?_, hspacing.trailing⟩,
        rfl, fun k => Iff.rfl, hrest ▸ hshorter⟩
      · intro other hmem char hchar
        obtain rfl | hmem := List.mem_cons.mp hmem
        · exact hspacing.head char (by rw [hitem]; exact List.mem_append_right _ hchar)
        · exact hspacing.tail.items other hmem char hchar

namespace Ahead
variable {r r' : JsonReader} {future : List UInt8} {items : List Spaced} {trailing : List UInt8}

/-- A reader that is behind some white space of the same text. -/
theorem advance (h : Ahead r future items trailing) {spaces : List UInt8}
    (hspaces : ∀ char ∈ spaces, isSpace char = true) (hrest : spaces ++ r'.rest = r.rest)
    (hended : r'.ended = r.ended) :
    ∃ items' trailing', Ahead r' future items' trailing' ∧
      Alike items trailing items' trailing' := by
  have htext : spaces ++ (r'.rest ++ future) = Json.text items trailing := by
    rw [← List.append_assoc, hrest]
    exact h.text
  obtain ⟨items', trailing', htext', hspacing, halike⟩ :=
    exists_of_spaces h.linear h.spacing hspaces htext
  exact ⟨items', trailing', ⟨halike.lexemes ▸ h.linear, hspacing, htext', hended ▸ h.ended⟩, halike⟩

theorem skipWhitespace (h : Ahead r future items trailing) :
    ∃ items' trailing', Ahead r.skipWhitespace future items' trailing' ∧
      Alike items trailing items' trailing' :=
  h.advance (fun _ hmem => List.mem_takeWhile_imp hmem) List.takeWhile_append_dropWhile rfl

/-- Behind white space the text begins with a lexeme. -/
theorem exists_cons (h : Ahead r future items trailing) {c : UInt8} {rest : List UInt8}
    (hrest : r.rest = c :: rest) (hc : isSpace c = false) :
    ∃ lexeme others, items = ⟨[], lexeme⟩ :: others ∧
      (lexeme.isSeparator = true ↔ c = 0x3a ∨ c = 0x2c) := by
  have htext := h.text
  rw [hrest, List.cons_append] at htext
  cases items with
  | nil =>
      have hspace := h.spacing.trailing c (by rw [← text_nil trailing, ← htext]; simp)
      rw [hc] at hspace
      cases hspace
  | cons item others =>
      cases hitem : item.spaces with
      | nil =>
          refine ⟨item.lexeme, others, by rw [← hitem], ?_⟩
          obtain ⟨d, more, hbytes, -, hcolon, hcomma⟩ :=
            exists_bytes_cons (show item.lexeme.WellFormed from h.linear.wellFormed)
          rw [text_cons, hitem, hbytes, List.nil_append, List.cons_append] at htext
          rw [(List.cons.inj htext).1, hcolon, hcomma]
          cases item.lexeme <;> simp [Lexeme.isSeparator]
      | cons d spaces =>
          rw [text_cons, hitem, List.cons_append] at htext
          obtain ⟨rfl, -⟩ := List.cons.inj htext
          have hspace := h.spacing.head c (by simp [hitem])
          rw [hc] at hspace
          cases hspace

/-- At the end of the whole text no lexeme is left. -/
theorem eq_nil (h : Ahead r future items trailing) (hended : r.ended = true) (hrest : r.rest = []) :
    items = [] := by
  have htext := h.text
  rw [hrest, h.ended hended, List.append_nil] at htext
  cases items with
  | nil => rfl
  | cons item items =>
      rw [text_cons] at htext
      have hbytes := bytes_ne_nil h.linear.wellFormed
      simp [hbytes] at htext

end Ahead

theorem isSpace_of_skipWhitespace {r : JsonReader} {c : UInt8} {rest : List UInt8}
    (h : r.skipWhitespace.rest = c :: rest) : isSpace c = false := by
  have hhead := List.head?_dropWhile_not isSpace r.rest
  have hdrop : r.rest.dropWhile isSpace = c :: rest := h
  rw [hdrop] at hhead
  exact hhead

/-- The first character of a text that no number goes on with. -/
theorem isNumberChar_text {items : List Spaced} {trailing : List UInt8}
    (hspacing : Spacing items trailing) (hlinear : Linear (items.map Spaced.lexeme))
    (hends : ∀ lexeme ∈ (items.map Spaced.lexeme).head?, lexeme.endsValue = true) :
    ∀ char ∈ (text items trailing).head?, isNumberChar char = false := by
  have hspace {char : UInt8} (h : isSpace char = true) : isNumberChar char = false := by
    simp only [isSpace, Bool.or_eq_true, decide_eq_true_eq] at h
    obtain ((rfl | rfl) | rfl) | rfl := h <;> decide
  cases items with
  | nil =>
      intro char hmem
      exact hspace (hspacing.trailing char (List.mem_of_mem_head? hmem))
  | cons item items =>
      intro char hmem
      rw [text_cons] at hmem
      cases hitem : item.spaces with
      | cons d spaces =>
          rw [hitem, List.cons_append, List.head?_cons, Option.mem_some_iff] at hmem
          exact hmem ▸ hspace (hspacing.head d (by simp [hitem]))
      | nil =>
          obtain ⟨d, hbytes, hd⟩ := Lexeme.bytes_of_endsValue (hends item.lexeme rfl)
          rw [hitem, hbytes, List.nil_append, List.singleton_append, List.head?_cons,
            Option.mem_some_iff] at hmem
          subst hmem
          obtain rfl | rfl | rfl | rfl := hd <;> decide

theorem colonAhead_spaces {spaces : List UInt8} (h : ∀ char ∈ spaces, isSpace char = true) :
    colonAhead spaces = false := by
  simp [colonAhead, List.dropWhile_eq_nil_iff.mpr h]

theorem colonAhead_append {spaces : List UInt8} (h : ∀ char ∈ spaces, isSpace char = true)
    {c : UInt8} (hc : isSpace c = false) (rest : List UInt8) :
    colonAhead (spaces ++ c :: rest) = true ↔ c = 0x3a := by
  rw [colonAhead, List.dropWhile_append_of_pos h, List.dropWhile_cons_of_neg (by simp [hc])]
  simp

/-- Of the text behind a string the reader has `tail`: it sees the colon of a key unless the
text was cut in front of it. -/
theorem colonAhead_iff {items : List Spaced} {trailing tail future : List UInt8}
    (hspacing : Spacing items trailing) (hlinear : Linear (items.map Spaced.lexeme))
    (htext : tail ++ future = text items trailing) :
    colonAhead tail = true ↔
      isColon (items.map Spaced.lexeme) = true ∧ ¬ KeyAt future.length trailing items := by
  cases items with
  | nil =>
      rw [text_nil] at htext
      rw [colonAhead_spaces fun c hmem => hspacing.trailing c (htext ▸ List.mem_append_left _ hmem)]
      simp [isColon]
  | cons item items =>
      obtain ⟨c, more, hbytes, hc, hcolon, -⟩ := exists_bytes_cons hlinear.wellFormed
      have hlexeme : isColon ((item :: items).map Spaced.lexeme) = true ↔ c = 0x3a := by
        rw [hcolon]
        simp [isColon]
      have hkey : KeyAt future.length trailing (item :: items) ↔
          c = 0x3a ∧ (item.lexeme.bytes ++ text items trailing).length ≤ future.length := by
        have hle : future.length ≤ (text (item :: items) trailing).length := by
          rw [← htext, List.length_append]
          omega
        simp only [KeyAt, hcolon, text_cons, List.nil_append] at hle ⊢
        exact ⟨fun h => ⟨h.1, h.2.1⟩, fun h => ⟨h.1, h.2, hle⟩⟩
      rw [hlexeme, hkey]
      rw [text_cons] at htext
      obtain ⟨extra, hspaces, hfuture⟩ | ⟨extra, htail, hrest⟩ := List.append_eq_append_iff.mp htext
      · rw [colonAhead_spaces fun d hmem => hspacing.head d (by rw [hspaces]; simp [hmem]), hfuture]
        simp
      · rw [htail, hrest]
        cases extra with
        | nil =>
            rw [List.append_nil, colonAhead_spaces hspacing.head]
            simp
        | cons d extra =>
            rw [hbytes, List.cons_append, List.cons_append] at hrest
            obtain ⟨rfl, -⟩ := List.cons.inj hrest
            rw [colonAhead_append hspacing.head hc, List.length_append, List.length_cons]
            exact ⟨fun heq => ⟨heq, fun hle => by omega⟩, And.left⟩

namespace Ahead
variable {r : JsonReader} {future : List UInt8} {items : List Spaced} {trailing : List UInt8}

/-- What a call does that finds a lexeme: it reports it, or waits for more of it. -/
structure Reports (r : JsonReader) (future : List UInt8) (items : List Spaced)
    (trailing : List UInt8) (lexeme : Lexeme) (result : Token × JsonReader) : Prop where
  proper : result.1 ≠ .end ∧ result.1 ≠ .error ∧ result.1 ≠ .needMoreData
  ended : result.2.ended = r.ended
  shorter : result.2.rest.length < r.rest.length
  report : report result.1 result.2 =
      (tokenOf (isColon (items.map Spaced.lexeme)) lexeme, valueOf lexeme) ↔
    ¬ ((∃ content, lexeme = .string content) ∧ KeyAt future.length trailing items)
  ahead : ∃ items' trailing', Ahead result.2 future items' trailing' ∧
    Alike items trailing items' trailing'

theorem tokenOf_proper {l : Lexeme} (h : l.isSeparator = false) (colonAhead : Bool) :
    tokenOf colonAhead l ≠ .end ∧ tokenOf colonAhead l ≠ .error ∧
      tokenOf colonAhead l ≠ .needMoreData := by
  cases l with
  | colon | comma => cases h
  | string content => cases colonAhead <;> simp [tokenOf]
  | bool value => simp [tokenOf]
  | _ => simp [tokenOf]

theorem tokenOf_inj {l : Lexeme} {a b : Bool} :
    tokenOf a l = tokenOf b l ↔ (∃ content, l = .string content) → a = b := by
  cases l with
  | string content => cases a <;> cases b <;> simp [tokenOf]
  | _ => simp [tokenOf]

theorem not_keyCut_of_nil (h : Ahead r future items trailing) (hrest : r.rest = []) :
    ¬ KeyCut future.length trailing items := by
  intro hcut
  cases items with
  | nil => exact hcut
  | cons item items =>
      have hle := (hcut.length_le h.linear).1
      have hpos := List.length_pos_of_ne_nil (bytes_ne_nil h.linear.wellFormed)
      rw [← h.text, hrest, List.nil_append] at hle
      omega

theorem token {lexeme : Lexeme} {c : UInt8} {rest : List UInt8}
    (h : Ahead r future (⟨[], lexeme⟩ :: items) trailing) (hsep : lexeme.isSeparator = false)
    (hrest : r.rest = c :: rest) :
    (r.ended = false ∧ ¬ KeyCut future.length trailing (⟨[], lexeme⟩ :: items) ∧
      ∃ r', r.token c rest = (.needMoreData, r') ∧ r'.rest = r.rest ∧ r'.ended = false) ∨
    Reports r future items trailing lexeme (r.token c rest) := by
  have hl : lexeme.WellFormed := h.linear.wellFormed
  have htext : r.rest ++ future = lexeme.bytes ++ Json.text items trailing := by
    rw [h.text, text_cons, List.nil_append]
  -- the lexeme is not there as a whole
  by_cases hpart : r.rest <+: lexeme.bytes ∧ r.ended = false ∧
      (r.rest ≠ lexeme.bytes ∨ ∃ text, lexeme = .number text)
  · obtain ⟨hfront, hended, hpart⟩ := hpart
    refine .inl ⟨hended, fun hcut => ?_, token_incomplete hl hended hfront hrest hpart⟩
    have hle := hcut.length_le h.linear
    rw [← h.text, List.length_append, Nat.add_comm, Nat.add_le_add_iff_right,
      Nat.add_lt_add_iff_right] at hle
    obtain hne | ⟨text, rfl⟩ := hpart
    · exact hne (hfront.eq_of_length_le hle.1)
    · exact Nat.not_lt.mpr hfront.length_le (hle.2 (by simp))
  · refine .inr ?_
    obtain ⟨tail, htail⟩ : ∃ tail, r.rest = lexeme.bytes ++ tail := by
      obtain ⟨extra, hbytes, hfuture⟩ | ⟨tail, htail, -⟩ := List.append_eq_append_iff.mp htext
      · cases extra with
        | nil => exact ⟨[], by simpa using hbytes.symm⟩
        | cons d extra =>
            refine absurd ⟨⟨_, hbytes.symm⟩, ?_, .inl ?_⟩ hpart
            · rw [← Bool.not_eq_true]
              intro hended
              rw [h.ended hended] at hfuture
              cases hfuture
            · intro heq
              have hlength := congrArg List.length hbytes
              rw [heq, List.length_append, List.length_cons] at hlength
              omega
      · exact ⟨tail, htail⟩
    rw [htail, List.append_assoc] at htext
    have htext := List.append_cancel_left htext
    have hlinear : Linear (items.map Spaced.lexeme) := h.linear.tail
    have hspacing := h.spacing.tail
    have hnumber : (∃ text, lexeme = .number text) →
        (∀ char ∈ tail.head?, isNumberChar char = false) ∧ (tail = [] → r.ended = true) := by
      intro hnum
      refine ⟨fun char hmem => ?_, fun hnil => ?_⟩
      · refine isNumberChar_text hspacing hlinear (fun b hb => ?_) char ?_
        · obtain ⟨others, hothers⟩ := List.head?_eq_some_iff.mp hb
          have hall := h.linear
          rw [List.map_cons, hothers] at hall
          exact hall.2.1.2 hnum
        · obtain ⟨others, rfl⟩ := List.head?_eq_some_iff.mp hmem
          rw [← htext]
          rfl
      · by_contra hended
        rw [Bool.not_eq_true] at hended
        rw [hnil, List.append_nil] at htail
        exact hpart ⟨htail ▸ List.prefix_refl _, hended, .inr hnum⟩
    obtain ⟨r', htoken, hreport, hbehind⟩ := token_complete hl hsep htail hrest hnumber
    have hcolon := colonAhead_iff hspacing hlinear htext
    rw [htoken]
    refine ⟨tokenOf_proper hsep _, hbehind.ended, ?_, ?_, ?_⟩
    · obtain ⟨spaces, -, hrest'⟩ := hbehind.rest
      have hbytes := List.length_pos_of_ne_nil (bytes_ne_nil hl)
      simp only [htail, ← hrest', List.length_append]
      omega
    · rw [hreport, Prod.mk.injEq, tokenOf_inj, Bool.eq_iff_iff, hcolon, not_and]
      have hkey : KeyAt future.length trailing items →
          isColon (items.map Spaced.lexeme) = true := by
        cases items with
        | nil => exact False.elim
        | cons item items => exact fun hat => by simp [isColon, hat.1]
      have hseen : (isColon (items.map Spaced.lexeme) = true ∧
          ¬ KeyAt future.length trailing items ↔ isColon (items.map Spaced.lexeme) = true) ↔
            ¬ KeyAt future.length trailing items :=
        ⟨fun h hat => (h.mpr (hkey hat)).2 hat, fun hno => ⟨And.left, fun hcolon => ⟨hcolon, hno⟩⟩⟩
      rw [hseen, eq_self_iff_true, and_true]
    · obtain ⟨spaces, hspaces, hrest'⟩ := hbehind.rest
      have hbefore : Ahead { r with rest := tail } future items trailing :=
        ⟨hlinear, hspacing, htext, h.ended⟩
      exact hbefore.advance hspaces hrest' hbehind.ended

/-- A call of `next` and what it leaves of the text. -/
inductive Next (r : JsonReader) (future : List UInt8) (items : List Spaced)
    (trailing : List UInt8) (result : Token × JsonReader) : Prop
  | end (hnil : items = []) (hended : r.ended = true) (htoken : result.1 = .end)
  | waits (hended : r.ended = false) (htoken : result.1 = .needMoreData)
      (hended' : result.2.ended = false) (items' : List Spaced) (trailing' : List UInt8)
      (hahead : Ahead result.2 future items' trailing')
      (htokens : tokens (items'.map Spaced.lexeme) = tokens (items.map Spaced.lexeme))
      (hcuts : ∀ k, KeyCut k trailing' items' ↔ KeyCut k trailing items)
      (hcut : ¬ KeyCut future.length trailing items)
  | reports (lexeme : Lexeme) (others : List Spaced) (trailing' : List UInt8)
      (hreports : Reports r future others trailing' lexeme result)
      (htokens : tokens (items.map Spaced.lexeme) =
        (tokenOf (isColon (others.map Spaced.lexeme)) lexeme, valueOf lexeme) ::
          tokens (others.map Spaced.lexeme))
      (hcuts : ∀ k, KeyCut k trailing items ↔
        ((∃ content, lexeme = .string content) ∧ KeyAt k trailing' others) ∨
          KeyCut k trailing' others)

/-- The call goes on behind white space or a separator. -/
theorem Next.behind {s : JsonReader} {items' : List Spaced} {trailing' : List UInt8}
    {result : Token × JsonReader} (h : Next s future items' trailing' result)
    (hended : s.ended = r.ended) (hlength : s.rest.length ≤ r.rest.length)
    (hnil : items' = [] → items = [])
    (htokens : tokens (items'.map Spaced.lexeme) = tokens (items.map Spaced.lexeme))
    (hcuts : ∀ k, KeyCut k trailing' items' ↔ KeyCut k trailing items) :
    Next r future items trailing result := by
  cases h with
  | «end» hnil' hended' htoken => exact .end (hnil hnil') (hended ▸ hended') htoken
  | waits hopen htoken hopen' items'' trailing'' hahead htokens' hcuts' hcut =>
      exact .waits (hended ▸ hopen) htoken hopen' items'' trailing'' hahead
        (htokens'.trans htokens) (fun k => (hcuts' k).trans (hcuts k)) (by rwa [← hcuts])
  | reports lexeme others trailing'' hreports htokens' hcuts' =>
      refine .reports lexeme others trailing'' ?_ (htokens.symm.trans htokens')
        fun k => (hcuts k).symm.trans (hcuts' k)
      exact ⟨hreports.proper, hreports.ended.trans hended,
        Nat.lt_of_lt_of_le hreports.shorter hlength, hreports.report, hreports.ahead⟩

theorem next_of_nil (hrest : r.skipWhitespace.rest = []) :
    r.next = if r.ended then (.end, r.skipWhitespace) else r.skipWhitespace.waitForData := by
  rw [JsonReader.next, hrest]
  rfl

theorem next_of_cons {s : JsonReader} {c : UInt8} {rest : List UInt8} (hs : r.skipWhitespace = s)
    (hrest : s.rest = c :: rest) :
    r.next =
      if c = 0x3a ∨ c = 0x2c then
        match ({ s with rest, needMoreData := false } : JsonReader).skipWhitespace.rest with
        | [] => ({ s with rest, needMoreData := false } : JsonReader).skipWhitespace.incomplete
        | d :: rest' =>
            ({ s with rest, needMoreData := false } : JsonReader).skipWhitespace.token d rest'
      else JsonReader.token { s with needMoreData := false } c rest := by
  unfold JsonReader.next
  generalize r.skipWhitespace = t at hs
  subst hs
  cases t with
  | mk rest' =>
      cases hrest
      exact rfl

/-- The reader is in front of a lexeme. -/
theorem next_token {c : UInt8} {rest : List UInt8} (h : Ahead r future items trailing)
    (hrest : r.rest = c :: rest) (hc : isSpace c = false)
    (hfirst : ∀ item ∈ items.head?, item.lexeme.isSeparator = false) :
    Next r future items trailing (r.token c rest) := by
  obtain ⟨lexeme, others, rfl, -⟩ := h.exists_cons hrest hc
  have hsep : lexeme.isSeparator = false := hfirst _ rfl
  obtain ⟨hended, hcut, r', htoken, hrest', hended'⟩ | hreports := h.token hsep hrest
  · rw [htoken]
    refine .waits hended rfl hended' _ _ ⟨h.linear, h.spacing, ?_, ?_⟩ rfl (fun _ => Iff.rfl) hcut
    · rw [hrest']
      exact h.text
    · rw [hended']
      exact nofun
  · refine .reports lexeme others trailing hreports ?_ fun k => Iff.rfl
    rw [List.map_cons, tokens, if_neg (by simp [hsep])]

/-- Behind a separator there is a lexeme, and it is no separator. -/
theorem tail_separator {lexeme : Lexeme} {others : List Spaced}
    (h : Ahead r future (⟨[], lexeme⟩ :: others) trailing) (hsep : lexeme.isSeparator = true)
    {c : UInt8} {rest : List UInt8} (hrest : r.rest = c :: rest) :
    Ahead { r with rest, needMoreData := false } future others trailing ∧ others ≠ [] ∧
      ∀ b ∈ (others.map Spaced.lexeme).head?, b.isSeparator = false := by
  have hlinear := h.linear
  have htext := h.text
  have hbytes : ∃ d, lexeme.bytes = [d] := by
    cases lexeme with
    | colon | comma => exact ⟨_, rfl⟩
    | _ => cases hsep
  obtain ⟨d, hbytes⟩ := hbytes
  rw [hrest, text_cons, List.nil_append, hbytes, List.cons_append] at htext
  refine ⟨⟨hlinear.tail, h.spacing.tail, (List.cons.inj htext).2, h.ended⟩, ?_, ?_⟩
  · rintro rfl
    have hlast := hlinear.2
    rw [hsep] at hlast
    cases hlast
  · intro b hb
    obtain ⟨rest', hrest'⟩ := List.head?_eq_some_iff.mp hb
    rw [List.map_cons, hrest'] at hlinear
    exact hlinear.2.1.1 hsep

/-- White space does not change which lexeme comes first. -/
theorem first_separator {items' : List Spaced} {trailing' : List UInt8}
    (halike : Alike items trailing items' trailing')
    (h : ∀ b ∈ (items.map Spaced.lexeme).head?, b.isSeparator = false) :
    ∀ item ∈ items'.head?, item.lexeme.isSeparator = false := by
  intro item hitem
  refine h item.lexeme ?_
  rw [← halike.lexemes, List.head?_map, hitem]
  rfl

/-- The reader is in front of a separator. -/
theorem next_separator {s : JsonReader} {lexeme : Lexeme} {others : List Spaced}
    (h : Ahead r future (⟨[], lexeme⟩ :: others) trailing) (hsep : lexeme.isSeparator = true)
    {c : UInt8} {rest : List UInt8} (hrest : r.rest = c :: rest)
    (hs : JsonReader.skipWhitespace { r with rest, needMoreData := false } = s) :
    Next r future (⟨[], lexeme⟩ :: others) trailing
      (match s.rest with
        | [] => s.incomplete
        | d :: rest' => s.token d rest') := by
  obtain ⟨hbehind, hothers, hfirst⟩ := h.tail_separator hsep hrest
  obtain ⟨items', trailing', hahead, halike⟩ := hbehind.skipWhitespace
  rw [hs] at hahead
  have hended : s.ended = r.ended := by
    rw [← hs]
    rfl
  have hlength : s.rest.length ≤ r.rest.length := by
    rw [← hs, hrest]
    exact Nat.le_succ_of_le (List.dropWhile_suffix _).length_le
  have hitems' : items' ≠ [] := by
    rintro rfl
    exact hothers (by simpa using halike.lexemes.symm)
  suffices Next s future items' trailing'
      (match s.rest with
        | [] => s.incomplete
        | d :: rest' => s.token d rest') by
    refine this.behind hended hlength (absurd · hitems') ?_ fun k => (halike.cuts k).trans ?_
    · rw [halike.lexemes, List.map_cons, tokens, if_pos hsep]
    · refine ⟨.inr, fun hcut => hcut.resolve_left ?_⟩
      rintro ⟨⟨content, rfl⟩, -⟩
      cases hsep
  cases hrest' : s.rest with
  | nil =>
      have hopen : s.ended = false := by
        rw [← Bool.not_eq_true]
        exact fun hend => hitems' (hahead.eq_nil hend hrest')
      have hwait : s.incomplete = s.waitForData := if_neg (by simp [hopen])
      dsimp only
      rw [hwait]
      exact .waits hopen rfl hopen items' trailing'
        ⟨hahead.linear, hahead.spacing, hahead.text, hahead.ended⟩ rfl (fun k => Iff.rfl)
        (hahead.not_keyCut_of_nil hrest')
  | cons d rest' =>
      refine hahead.next_token hrest' ?_ (first_separator halike hfirst)
      exact isSpace_of_skipWhitespace ((congrArg JsonReader.rest hs).trans hrest')

/-- A call skips white space and a separator; the rest of it is about one lexeme. -/
theorem next (h : Ahead r future items trailing) : Next r future items trailing r.next := by
  obtain ⟨items₁, trailing₁, h₁, halike⟩ := h.skipWhitespace
  have hshorter : r.skipWhitespace.rest.length ≤ r.rest.length :=
    (List.dropWhile_suffix _).length_le
  have htokens : tokens (items₁.map Spaced.lexeme) = tokens (items.map Spaced.lexeme) := by
    rw [halike.lexemes]
  have hnil : items₁ = [] → items = [] := by
    rintro rfl
    simpa using halike.lexemes.symm
  suffices Next r.skipWhitespace future items₁ trailing₁ r.next from
    this.behind rfl hshorter hnil htokens halike.cuts
  cases hrest : r.skipWhitespace.rest with
  | nil =>
      rw [next_of_nil hrest]
      cases hended : r.ended with
      | true => exact .end (h₁.eq_nil hended hrest) hended rfl
      | false =>
          exact .waits hended rfl hended items₁ trailing₁
            ⟨h₁.linear, h₁.spacing, h₁.text, h₁.ended⟩ rfl (fun k => Iff.rfl)
            (h₁.not_keyCut_of_nil hrest)
  | cons c rest =>
      have hc := isSpace_of_skipWhitespace hrest
      obtain ⟨lexeme, others, rfl, hsep⟩ := h₁.exists_cons hrest hc
      rw [next_of_cons rfl hrest]
      by_cases hchar : c = 0x3a ∨ c = 0x2c
      · rw [if_pos hchar]
        exact h₁.next_separator (hsep.mpr hchar) hrest rfl
      · rw [if_neg hchar]
        have h₂ : Ahead { r.skipWhitespace with needMoreData := false } future
            (⟨[], lexeme⟩ :: others) trailing₁ := ⟨h₁.linear, h₁.spacing, h₁.text, h₁.ended⟩
        have hfirst : ∀ item ∈ (⟨[], lexeme⟩ :: others : List Spaced).head?,
            item.lexeme.isSeparator = false := by
          rintro _ ⟨⟩
          simpa [hchar] using hsep
        exact (h₂.next_token hrest hc hfirst).behind rfl (Nat.le_refl _) id rfl fun k => Iff.rfl

end Ahead

end JsonReader

end Ebus
