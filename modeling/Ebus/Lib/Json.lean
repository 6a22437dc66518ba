import Mathlib.Tactic.Common
import Mathlib.Data.List.Basic

/-!
# JSON texts

A text is a list of lexemes with white space in front of each and behind the last one. The
lexemes are those of a value by the grammar `Derives`; strings are kept in the form in which
they stand in the text, with their escapes.

A reader that goes from lexeme to lexeme needs less than the grammar: `Linear` says which
lexemes may follow each other, and `Derives.linear` that a derivation keeps to it.
-/

namespace Json

def isSpace (char : UInt8) : Bool :=
  char = 0x20 || char = 0x09 || char = 0x0a || char = 0x0d

def isDigit (char : UInt8) : Bool := 0x30 ≤ char && char ≤ 0x39

def isHexDigit (char : UInt8) : Bool :=
  isDigit char || (0x41 ≤ char && char ≤ 0x46) || (0x61 ≤ char && char ≤ 0x66)

def quote : UInt8 := 0x22
def backslash : UInt8 := 0x5c
/-- The `u` of an escape with four hexadecimal digits. -/
def unicode : UInt8 := 0x75

/-- The characters that stand behind a backslash alone: `"`, `\`, `/`, `b`, `f`, `n`, `r`, `t`. -/
def isSimpleEscape (char : UInt8) : Bool :=
  char = 0x22 || char = 0x5c || char = 0x2f || char = 0x62 || char = 0x66 || char = 0x6e ||
    char = 0x72 || char = 0x74

/-- What may stand between the quotes of a string. -/
inductive StringContent : List UInt8 → Prop
  | nil : StringContent []
  | char {char : UInt8} {rest : List UInt8} (hquote : char ≠ quote) (hescape : char ≠ backslash)
      (hcontrol : ¬ char < 0x20) (hrest : StringContent rest) : StringContent (char :: rest)
  | escape {char : UInt8} {rest : List UInt8} (hchar : isSimpleEscape char = true)
      (hrest : StringContent rest) : StringContent (backslash :: char :: rest)
  | unicode {a b c d : UInt8} {rest : List UInt8} (ha : isHexDigit a = true)
      (hb : isHexDigit b = true) (hc : isHexDigit c = true) (hd : isHexDigit d = true)
      (hrest : StringContent rest) :
      StringContent (backslash :: Json.unicode :: a :: b :: c :: d :: rest)

def Digits (text : List UInt8) : Prop := text ≠ [] ∧ ∀ char ∈ text, isDigit char = true

/-- `-` or nothing, the integer without leading zeros, a fraction and an exponent. -/
structure NumberText (text : List UInt8) : Prop where
  parts : ∃ sign int frac exp, text = sign ++ int ++ frac ++ exp ∧
    (sign = [] ∨ sign = [0x2d]) ∧ Digits int ∧ (int = [0x30] ∨ int.head? ≠ some 0x30) ∧
    (frac = [] ∨ ∃ digits, frac = 0x2e :: digits ∧ Digits digits) ∧
    (exp = [] ∨ ∃ e s digits, exp = e :: (s ++ digits) ∧ (e = 0x65 ∨ e = 0x45) ∧
      (s = [] ∨ s = [0x2b] ∨ s = [0x2d]) ∧ Digits digits)

/-- A digit is a number. -/
theorem numberText_digit {c : UInt8} (h : isDigit c = true) : NumberText [c] :=
  ⟨[], [c], [], [], rfl, .inl rfl, ⟨by simp, by simpa using h⟩,
    by by_cases hc : c = 0x30 <;> simp [hc], .inl rfl, .inl rfl⟩

theorem Digits.exists_cons {text : List UInt8} (h : Digits text) :
    ∃ char rest, text = char :: rest ∧ isDigit char = true := by
  obtain ⟨char, rest, rfl⟩ := List.exists_cons_of_ne_nil h.1
  exact ⟨char, rest, rfl, h.2 char List.mem_cons_self⟩

/-- A number begins with a digit or its sign. -/
theorem NumberText.exists_cons {text : List UInt8} (h : NumberText text) :
    ∃ char rest, text = char :: rest ∧ (isDigit char = true ∨ char = 0x2d) := by
  obtain ⟨sign, int, frac, exp, rfl, hsign, hint, -⟩ := h.parts
  obtain ⟨char, rest, rfl, hchar⟩ := hint.exists_cons
  obtain rfl | rfl := hsign
  · exact ⟨char, _, rfl, .inl hchar⟩
  · exact ⟨0x2d, _, rfl, .inr rfl⟩

theorem NumberText.mem {text : List UInt8} (h : NumberText text) :
    ∀ char ∈ text, isDigit char = true ∨ char = 0x2e ∨ char = 0x65 ∨ char = 0x45 ∨ char = 0x2b ∨
      char = 0x2d := by
  obtain ⟨sign, int, frac, exp, rfl, hsign, hint, -, hfrac, hexp⟩ := h.parts
  intro char hmem
  simp only [List.mem_append] at hmem
  obtain ((hmem | hmem) | hmem) | hmem := hmem
  · obtain rfl | rfl := hsign
    · cases hmem
    · simp [List.mem_singleton.mp hmem]
  · exact .inl (hint.2 char hmem)
  · obtain rfl | ⟨digits, rfl, hdigits⟩ := hfrac
    · cases hmem
    · obtain rfl | hmem := List.mem_cons.mp hmem
      · simp
      · exact .inl (hdigits.2 char hmem)
  · obtain rfl | ⟨e, s, digits, rfl, he, hs, hdigits⟩ := hexp
    · cases hmem
    · rw [List.mem_cons, List.mem_append] at hmem
      obtain rfl | hmem | hmem := hmem
      · obtain rfl | rfl := he <;> simp
      · obtain rfl | rfl | rfl := hs
        · cases hmem
        · simp [List.mem_singleton.mp hmem]
        · simp [List.mem_singleton.mp hmem]
      · exact .inl (hdigits.2 char hmem)

inductive Lexeme where
  | openObject
  | closeObject
  | openArray
  | closeArray
  | colon
  | comma
  /-- the characters between the quotes -/
  | string (content : List UInt8)
  | number (text : List UInt8)
  | bool (value : Bool)
  | null
  deriving DecidableEq, Repr

namespace Lexeme

def trueText : List UInt8 := [0x74, 0x72, 0x75, 0x65]
def falseText : List UInt8 := [0x66, 0x61, 0x6c, 0x73, 0x65]
def nullText : List UInt8 := [0x6e, 0x75, 0x6c, 0x6c]

def bytes : Lexeme → List UInt8
  | .openObject => [0x7b]
  | .closeObject => [0x7d]
  | .openArray => [0x5b]
  | .closeArray => [0x5d]
  | .colon => [0x3a]
  | .comma => [0x2c]
  | .string content => quote :: (content ++ [quote])
  | .number text => text
  | .bool true => trueText
  | .bool false => falseText
  | .null => nullText

def WellFormed : Lexeme → Prop
  | .string content => StringContent content
  | .number text => NumberText text
  | _ => True

def isSeparator : Lexeme → Bool
  | .colon | .comma => true
  | _ => false

/-- A number ends in front of these. -/
def endsValue : Lexeme → Bool
  | .colon | .comma | .closeObject | .closeArray => true
  | _ => false

theorem bytes_of_endsValue {l : Lexeme} (h : l.endsValue = true) :
    ∃ char, l.bytes = [char] ∧ (char = 0x3a ∨ char = 0x2c ∨ char = 0x7d ∨ char = 0x5d) := by
  cases l with
  | colon | comma | closeObject | closeArray => exact ⟨_, rfl, by simp⟩
  | _ => cases h

/-- Which lexemes stand next to each other in a text: never two separators, and behind a number
only what ends it. -/
def Follows (a b : Lexeme) : Prop :=
  (a.isSeparator = true → b.isSeparator = false) ∧
    ((∃ text, a = .number text) → b.endsValue = true)

end Lexeme

/-- The lexemes are well formed, next to each other only as they may be, and the last one is no
separator. -/
def Linear : List Lexeme → Prop
  | [] => True
  | [a] => a.WellFormed ∧ a.isSeparator = false
  | a :: b :: rest => a.WellFormed ∧ a.Follows b ∧ Linear (b :: rest)

inductive Nonterminal where
  | value
  | members
  | elements

open Lexeme in
inductive Derives : Nonterminal → List Lexeme → Prop
  | string {content : List UInt8} (h : StringContent content) : Derives .value [.string content]
  | number {text : List UInt8} (h : NumberText text) : Derives .value [.number text]
  | bool (value : Bool) : Derives .value [.bool value]
  | null : Derives .value [.null]
  | emptyObject : Derives .value [openObject, closeObject]
  | object {members : List Lexeme} (h : Derives .members members) :
      Derives .value (openObject :: (members ++ [closeObject]))
  | emptyArray : Derives .value [openArray, closeArray]
  | array {elements : List Lexeme} (h : Derives .elements elements) :
      Derives .value (openArray :: (elements ++ [closeArray]))
  | member {key : List UInt8} {value : List Lexeme} (hkey : StringContent key)
      (hvalue : Derives .value value) : Derives .members (.string key :: colon :: value)
  | members {key : List UInt8} {value rest : List Lexeme} (hkey : StringContent key)
      (hvalue : Derives .value value) (hrest : Derives .members rest) :
      Derives .members (.string key :: colon :: (value ++ comma :: rest))
  | element {value : List Lexeme} (hvalue : Derives .value value) : Derives .elements value
  | elements {value rest : List Lexeme} (hvalue : Derives .value value)
      (hrest : Derives .elements rest) : Derives .elements (value ++ comma :: rest)

/-- What may come behind something that was derived. -/
def Closes (tail : List Lexeme) : Prop :=
  Linear tail ∧ ∀ lexeme ∈ tail.head?, lexeme.endsValue = true

namespace Linear

theorem wellFormed {a : Lexeme} {rest : List Lexeme} (h : Linear (a :: rest)) : a.WellFormed := by
  cases rest with
  | nil => exact h.1
  | cons b rest => exact h.1

theorem tail {a : Lexeme} {rest : List Lexeme} (h : Linear (a :: rest)) : Linear rest := by
  cases rest with
  | nil => trivial
  | cons b rest => exact h.2.2

/-- A lexeme that is neither a separator nor a number. -/
theorem cons {a : Lexeme} {rest : List Lexeme} (ha : a.WellFormed) (hsep : a.isSeparator = false)
    (hnum : ∀ text, a ≠ .number text) (h : Linear rest) : Linear (a :: rest) := by
  cases rest with
  | nil => exact ⟨ha, hsep⟩
  | cons b rest =>
      exact ⟨ha, ⟨fun hsep' => absurd hsep' (by simp [hsep]), fun ⟨text, htext⟩ =>
        absurd htext (hnum text)⟩, h⟩

/-- A separator in front of what does not begin with one. -/
theorem separator {a b : Lexeme} {rest : List Lexeme} (ha : a = .colon ∨ a = .comma)
    (hb : b.isSeparator = false) (h : Linear (b :: rest)) : Linear (a :: b :: rest) := by
  refine ⟨?_, ⟨fun _ => hb, ?_⟩, h⟩
  · obtain rfl | rfl := ha <;> trivial
  · rintro ⟨text, rfl⟩
    obtain h | h := ha <;> cases h

end Linear

namespace Derives

/-- What is derived begins with a lexeme that is no separator. -/
theorem exists_cons {n : Nonterminal} {lexemes : List Lexeme} (h : Derives n lexemes) :
    ∃ a rest, lexemes = a :: rest ∧ a.isSeparator = false := by
  induction h with
  | element _ ih => exact ih
  | elements _ _ ih _ =>
      obtain ⟨a, rest, rfl, ha⟩ := ih
      exact ⟨a, _, rfl, ha⟩
  | _ => exact ⟨_, _, rfl, rfl⟩

theorem linear_separator {n : Nonterminal} {a : Lexeme} {lexemes tail : List Lexeme}
    (h : Derives n lexemes) (ha : a = .colon ∨ a = .comma) (htail : Linear (lexemes ++ tail)) :
    Linear (a :: (lexemes ++ tail)) := by
  obtain ⟨b, rest, rfl, hb⟩ := h.exists_cons
  exact .separator ha hb htail

/-- By induction on the derivation, with what comes behind it. -/
theorem linear_append {n : Nonterminal} {lexemes : List Lexeme} (h : Derives n lexemes)
    {tail : List Lexeme} (htail : Closes tail) : Linear (lexemes ++ tail) := by
  have hclose {a : Lexeme} (ha : a = .closeObject ∨ a = .closeArray) {tail : List Lexeme}
      (htail : Linear tail) : Closes (a :: tail) := by
    obtain rfl | rfl := ha
    · exact ⟨.cons trivial rfl (by simp) htail, by simp [Lexeme.endsValue]⟩
    · exact ⟨.cons trivial rfl (by simp) htail, by simp [Lexeme.endsValue]⟩
  induction h generalizing tail with
  | string h => exact .cons h rfl (by simp) htail.1
  | number h =>
      cases tail with
      | nil => exact ⟨h, rfl⟩
      | cons b rest =>
          exact ⟨h, ⟨nofun, fun _ => htail.2 b rfl⟩, htail.1⟩
  | bool value => exact .cons trivial rfl (by simp) htail.1
  | null => exact .cons trivial rfl (by simp) htail.1
  | emptyObject => exact .cons trivial rfl (by simp) (hclose (.inl rfl) htail.1).1
  | object _ ih =>
      rw [List.cons_append, List.append_assoc]
      exact .cons trivial rfl (by simp) (ih (hclose (.inl rfl) htail.1))
  | emptyArray => exact .cons trivial rfl (by simp) (hclose (.inr rfl) htail.1).1
  | array _ ih =>
      rw [List.cons_append, List.append_assoc]
      exact .cons trivial rfl (by simp) (ih (hclose (.inr rfl) htail.1))
  | member hkey hvalue ih =>
      exact .cons hkey rfl (by simp) (hvalue.linear_separator (.inl rfl) (ih htail))
  | members hkey hvalue hrest ih ih' =>
      rw [List.cons_append, List.cons_append, List.append_assoc, List.cons_append]
      refine .cons hkey rfl (by simp) (hvalue.linear_separator (.inl rfl) (ih ⟨?_, ?_⟩))
      · exact hrest.linear_separator (.inr rfl) (ih' htail)
      · simp [Lexeme.endsValue]
  | element _ ih => exact ih htail
  | elements hvalue hrest ih ih' =>
      rw [List.append_assoc, List.cons_append]
      refine ih ⟨?_, ?_⟩
      · exact hrest.linear_separator (.inr rfl) (ih' htail)
      · simp [Lexeme.endsValue]

theorem linear {n : Nonterminal} {lexemes : List Lexeme} (h : Derives n lexemes) :
    Linear lexemes := by
  have htail : Closes [] := ⟨trivial, by simp⟩
  simpa using h.linear_append htail

end Derives

/-- A lexeme and the white space in front of it. -/
structure Spaced where
  spaces : List UInt8
  lexeme : Lexeme
  deriving DecidableEq, Repr

namespace Spaced

def bytes (item : Spaced) : List UInt8 := item.spaces ++ item.lexeme.bytes

end Spaced

/-- The text of some lexemes, with the white space behind the last one. -/
def text (items : List Spaced) (trailing : List UInt8) : List UInt8 :=
  items.flatMap Spaced.bytes ++ trailing

@[simp] theorem text_nil (trailing : List UInt8) : text [] trailing = trailing := rfl

@[simp] theorem text_cons (item : Spaced) (items : List Spaced) (trailing : List UInt8) :
    text (item :: items) trailing = item.spaces ++ (item.lexeme.bytes ++ text items trailing) := by
  simp [text, Spaced.bytes]

theorem text_append (items items' : List Spaced) (trailing : List UInt8) :
    text (items ++ items') trailing = text items (text items' trailing) := by
  simp [text]

/-- Only white space stands between the lexemes. -/
structure Spacing (items : List Spaced) (trailing : List UInt8) : Prop where
  items : ∀ item ∈ items, ∀ char ∈ item.spaces, isSpace char = true
  trailing : ∀ char ∈ trailing, isSpace char = true

namespace Spacing

variable {item : Spaced} {items : List Spaced} {trailing : List UInt8}

theorem head (h : Spacing (item :: items) trailing) :
    ∀ char ∈ item.spaces, isSpace char = true := h.items item List.mem_cons_self

theorem tail (h : Spacing (item :: items) trailing) : Spacing items trailing :=
  ⟨fun other hmem => h.items other (List.mem_cons_of_mem _ hmem), h.trailing⟩

theorem left {items' : List Spaced} (h : Spacing (items ++ items') trailing) : Spacing items [] :=
  ⟨fun other hmem => h.items other (List.mem_append_left _ hmem), by simp⟩

theorem right {items' : List Spaced} (h : Spacing (items ++ items') trailing) :
    Spacing items' trailing :=
  ⟨fun other hmem => h.items other (List.mem_append_right _ hmem), h.trailing⟩

end Spacing

/-- A text of some lexemes with white space anywhere around them, as it is written from the front
to the end. -/
inductive Renders : List UInt8 → List Lexeme → Prop
  | nil : Renders [] []
  | space {char : UInt8} {bytes : List UInt8} {lexemes : List Lexeme}
      (hchar : isSpace char = true) (hrest : Renders bytes lexemes) :
      Renders (char :: bytes) lexemes
  | lexeme (lexeme : Lexeme) {bytes : List UInt8} {lexemes : List Lexeme}
      (hrest : Renders bytes lexemes) : Renders (lexeme.bytes ++ bytes) (lexeme :: lexemes)

namespace Renders

variable {bytes bytes' : List UInt8} {lexemes lexemes' : List Lexeme}

theorem append (h : Renders bytes lexemes) (h' : Renders bytes' lexemes') :
    Renders (bytes ++ bytes') (lexemes ++ lexemes') := by
  induction h with
  | nil => exact h'
  | space hchar _ ih => exact .space hchar ih
  | lexeme lexeme _ ih =>
      rw [List.append_assoc]
      exact .lexeme lexeme ih

theorem single (lexeme : Lexeme) : Renders lexeme.bytes [lexeme] := by
  simpa using Renders.lexeme lexeme .nil

/-- A text of two runs of lexemes is cut between them. -/
theorem exists_append (h : Renders bytes (lexemes ++ lexemes')) :
    ∃ front back, bytes = front ++ back ∧ Renders front lexemes ∧ Renders back lexemes' := by
  generalize hall : lexemes ++ lexemes' = all at h
  induction h generalizing lexemes with
  | nil =>
      obtain ⟨rfl, rfl⟩ := List.append_eq_nil_iff.mp hall
      exact ⟨[], [], rfl, .nil, .nil⟩
  | space hchar _ ih =>
      obtain ⟨front, back, rfl, hfront, hback⟩ := ih hall
      exact ⟨_ :: front, back, rfl, .space hchar hfront, hback⟩
  | lexeme l hrest ih =>
      cases lexemes with
      | nil =>
          obtain rfl : lexemes' = _ := hall
          exact ⟨[], _, rfl, .nil, .lexeme l hrest⟩
      | cons l' ls =>
          obtain ⟨rfl, hls⟩ := List.cons.inj hall
          obtain ⟨front, back, rfl, hfront, hback⟩ := ih hls
          exact ⟨l'.bytes ++ front, back, (List.append_assoc _ _ _).symm, .lexeme l' hfront, hback⟩

theorem exists_cons {l : Lexeme} (h : Renders bytes (l :: lexemes)) :
    ∃ spaces rest, (∀ char ∈ spaces, isSpace char = true) ∧ bytes = spaces ++ (l.bytes ++ rest) ∧
      Renders rest lexemes := by
  generalize hall : l :: lexemes = all at h
  induction h with
  | nil => cases hall
  | @space char bytes all hchar _ ih =>
      obtain ⟨spaces, rest, hspaces, rfl, hrest⟩ := ih hall
      refine ⟨char :: spaces, rest, fun c hc => ?_, rfl, hrest⟩
      obtain rfl | hmem := List.mem_cons.mp hc
      · exact hchar
      · exact hspaces c hmem
  | lexeme l' hrest _ =>
      obtain ⟨rfl, rfl⟩ := List.cons.inj hall
      exact ⟨[], _, by simp, rfl, hrest⟩

theorem spaces (h : Renders bytes []) : ∀ char ∈ bytes, isSpace char = true := by
  generalize hall : ([] : List Lexeme) = all at h
  induction h with
  | nil => simp
  | space hchar _ ih =>
      intro c hc
      obtain rfl | hmem := List.mem_cons.mp hc
      · exact hchar
      · exact ih hall c hmem
  | lexeme l' _ _ => cases hall

theorem exists_text (h : Renders bytes lexemes) :
    ∃ items trailing, Spacing items trailing ∧ items.map Spaced.lexeme = lexemes ∧
      bytes = text items trailing := by
  induction h with
  | nil => exact ⟨[], [], ⟨by simp, by simp⟩, rfl, rfl⟩
  | @space char bytes lexemes hchar _ ih =>
      obtain ⟨items, trailing, hspacing, hlexemes, rfl⟩ := ih
      cases items with
      | nil =>
          refine ⟨[], char :: trailing, ⟨by simp, fun c hmem => ?_⟩, hlexemes, rfl⟩
          obtain rfl | hmem := List.mem_cons.mp hmem
          · exact hchar
          · exact hspacing.trailing c hmem
      | cons item items =>
          refine ⟨{ item with spaces := char :: item.spaces } :: items, trailing,
            ⟨fun other hother c hmem => ?_, hspacing.trailing⟩, hlexemes, by simp⟩
          obtain rfl | hother := List.mem_cons.mp hother
          · obtain rfl | hmem := List.mem_cons.mp hmem
            · exact hchar
            · exact hspacing.head c hmem
          · exact hspacing.tail.items other hother c hmem
  | lexeme lexeme _ ih =>
      obtain ⟨items, trailing, hspacing, rfl, rfl⟩ := ih
      refine ⟨⟨[], lexeme⟩ :: items, trailing, ⟨fun other hother => ?_, hspacing.trailing⟩, rfl,
        by simp⟩
      obtain rfl | hother := List.mem_cons.mp hother
      · exact nofun
      · exact hspacing.items other hother

end Renders

end Json
