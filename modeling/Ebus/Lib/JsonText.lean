import Ebus.Lib.Document
import Mathlib.Data.List.TakeWhile

/-!
# One reading of a text

A scanner takes a string up to the first quote that no backslash escapes and a number as far as
its characters go. Lexemes that it finds again are `Loose`; how numbers may go on is a parameter.
A text of loose lexemes that are `Adjacent` has no other reading: `text_injective` finds the
lexemes again and `Document.lexemes_injective` the document.
-/

namespace Json

/-- No quote stands in the text but behind a backslash, and a backslash goes with the character
behind it. -/
inductive Paired : List UInt8 → Prop
  | nil : Paired []
  | char {char : UInt8} {rest : List UInt8} (hquote : char ≠ quote) (hescape : char ≠ backslash)
      (hrest : Paired rest) : Paired (char :: rest)
  | pair (char : UInt8) {rest : List UInt8} (hrest : Paired rest) :
      Paired (backslash :: char :: rest)

/-- The same, but `\u` goes with the four characters behind it. -/
inductive Units : List UInt8 → Prop
  | nil : Units []
  | char {char : UInt8} {rest : List UInt8} (hquote : char ≠ quote) (hescape : char ≠ backslash)
      (hrest : Units rest) : Units (char :: rest)
  | pair {char : UInt8} {rest : List UInt8} (hchar : char ≠ unicode) (hrest : Units rest) :
      Units (backslash :: char :: rest)
  | unicode (a b c d : UInt8) {rest : List UInt8} (hrest : Units rest) :
      Units (backslash :: Json.unicode :: a :: b :: c :: d :: rest)

theorem StringContent.units {content : List UInt8} (h : StringContent content) :
    Units content := by
  induction h with
  | nil => exact .nil
  | char hquote hescape _ _ ih => exact .char hquote hescape ih
  | escape hchar _ ih =>
      refine .pair ?_ ih
      rintro rfl
      revert hchar
      decide
  | unicode _ _ _ _ _ ih => exact .unicode _ _ _ _ ih

theorem StringContent.paired {content : List UInt8} (h : StringContent content) :
    Paired content := by
  have hdigit {c : UInt8} (hc : isHexDigit c = true) : c ≠ quote ∧ c ≠ backslash := by
    constructor <;> rintro rfl <;> revert hc <;> decide
  induction h with
  | nil => exact .nil
  | char hquote hescape _ _ ih => exact .char hquote hescape ih
  | escape _ _ ih => exact .pair _ ih
  | unicode ha hb hc hd _ ih =>
      exact .pair _ <| .char (hdigit ha).1 (hdigit ha).2 <| .char (hdigit hb).1 (hdigit hb).2 <|
        .char (hdigit hc).1 (hdigit hc).2 <| .char (hdigit hd).1 (hdigit hd).2 ih

/-- The closing quote is found again. -/
theorem Paired.injective {content content' tail tail' : List UInt8} (h : Paired content)
    (h' : Paired content') (heq : content ++ quote :: tail = content' ++ quote :: tail') :
    content = content' ∧ tail = tail' := by
  induction h generalizing content' with
  | nil =>
      cases h' with
      | nil => exact ⟨rfl, (List.cons.inj heq).2⟩
      | char hquote => exact absurd (List.cons.inj heq).1.symm hquote
      | pair => exact absurd (List.cons.inj heq).1 (by decide)
  | char hquote hescape _ ih =>
      cases h' with
      | nil => exact absurd (List.cons.inj heq).1 hquote
      | char _ _ hrest =>
          obtain ⟨rfl, htext⟩ := List.cons.inj heq
          obtain ⟨rfl, htail⟩ := ih hrest htext
          exact ⟨rfl, htail⟩
      | pair => exact absurd (List.cons.inj heq).1 hescape
  | pair c _ ih =>
      cases h' with
      | nil => exact absurd (List.cons.inj heq).1 (by decide)
      | char _ hescape => exact absurd (List.cons.inj heq).1.symm hescape
      | pair c' hrest =>
          obtain ⟨rfl, htext⟩ := List.cons.inj (List.cons.inj heq).2
          obtain ⟨rfl, htail⟩ := ih hrest htext
          exact ⟨rfl, htail⟩

namespace Lexeme

/-- A string with all its quotes escaped, and a number that begins with a digit or its sign. -/
def Loose (numberChar : UInt8 → Bool) : Lexeme → Prop
  | .string content => Paired content
  | .number text => ∃ c rest, text = c :: rest ∧ (isDigit c = true ∨ c = 0x2d) ∧
      ∀ char ∈ rest, numberChar char = true
  | _ => True

/-- What the first character of a lexeme says about it. -/
inductive Kind where
  | punctuation (char : UInt8)
  | string
  | number
  deriving DecidableEq

def kind : Lexeme → Kind
  | .string _ => .string
  | .number _ => .number
  | .openObject => .punctuation 0x7b
  | .closeObject => .punctuation 0x7d
  | .openArray => .punctuation 0x5b
  | .closeArray => .punctuation 0x5d
  | .colon => .punctuation 0x3a
  | .comma => .punctuation 0x2c
  | .bool true => .punctuation 0x74
  | .bool false => .punctuation 0x66
  | .null => .punctuation 0x6e

def kindOf (char : UInt8) : Kind :=
  if char = quote then .string
  else if isDigit char ∨ char = 0x2d then .number
  else .punctuation char

variable {numberChar : UInt8 → Bool}

theorem Loose.mono {numberChar' : UInt8 → Bool}
    (hmono : ∀ c, numberChar c = true → numberChar' c = true) {l : Lexeme}
    (h : l.Loose numberChar) : l.Loose numberChar' := by
  cases l with
  | number text =>
      obtain ⟨c, rest, rfl, hc, hrest⟩ := h
      exact ⟨c, rest, rfl, hc, fun char hchar => hmono char (hrest char hchar)⟩
  | _ => exact h

theorem Loose.exists_cons {l : Lexeme} (h : l.Loose numberChar) :
    ∃ c rest, l.bytes = c :: rest ∧ kindOf c = l.kind ∧ isSpace c = false := by
  cases l with
  | number text =>
      obtain ⟨c, rest, rfl, hc, -⟩ := h
      have hquote : c ≠ quote := by
        rintro rfl
        revert hc
        decide
      refine ⟨c, rest, rfl, by rw [kindOf, if_neg hquote, if_pos hc]; rfl, ?_⟩
      have hne : ∀ d : UInt8, isDigit d = false → d ≠ 0x2d → c ≠ d := by
        rintro d hd hd' rfl
        simp [hd, hd'] at hc
      simp [isSpace, hne 0x20 (by decide) (by decide), hne 0x09 (by decide) (by decide),
        hne 0x0a (by decide) (by decide), hne 0x0d (by decide) (by decide)]
  | bool value => cases value <;> exact ⟨_, _, rfl, by decide, by decide⟩
  | _ => exact ⟨_, _, rfl, rfl, by decide⟩

/-- A lexeme in front of a text is found again, a number if the text does not go on with it. -/
theorem Loose.injective {l l' : Lexeme} {tail tail' : List UInt8} (h : l.Loose numberChar)
    (h' : l'.Loose numberChar) (hstop : (∃ text, l = .number text) →
      ∀ char ∈ tail.head?, numberChar char = false)
    (hstop' : (∃ text, l' = .number text) → ∀ char ∈ tail'.head?, numberChar char = false)
    (heq : l.bytes ++ tail = l'.bytes ++ tail') : l = l' ∧ tail = tail' := by
  have hkind : l.kind = l'.kind := by
    obtain ⟨c, rest, hbytes, hc, -⟩ := h.exists_cons
    obtain ⟨c', rest', hbytes', hc', -⟩ := h'.exists_cons
    rw [hbytes, hbytes'] at heq
    rw [← hc, ← hc', (List.cons.inj heq).1]
  cases l with
  | string content =>
      cases l' with
      | string content' =>
          simp only [bytes, List.cons_append, List.append_assoc, List.nil_append] at heq
          obtain ⟨rfl, rfl⟩ := Paired.injective h h' (List.cons.inj heq).2
          exact ⟨rfl, rfl⟩
      | bool value => cases value <;> cases hkind
      | _ => cases hkind
  | number text =>
      cases l' with
      | number text' =>
          obtain ⟨c, rest, rfl, -, hrest⟩ := h
          obtain ⟨c', rest', rfl, -, hrest'⟩ := h'
          have hspan {rest tail : List UInt8} (hrest : ∀ char ∈ rest, numberChar char = true)
              (hstop : ∀ char ∈ tail.head?, numberChar char = false) :
              (rest ++ tail).takeWhile numberChar = rest ∧
                (rest ++ tail).dropWhile numberChar = tail := by
            rw [List.takeWhile_append_of_pos hrest, List.dropWhile_append_of_pos hrest]
            cases tail with
            | nil => simp
            | cons char tail => simp [hstop char rfl]
          obtain ⟨rfl, htext⟩ := List.cons.inj heq
          obtain ⟨htake, hdrop⟩ := hspan hrest (hstop ⟨_, rfl⟩)
          obtain ⟨htake', hdrop'⟩ := hspan hrest' (hstop' ⟨_, rfl⟩)
          have hsame : rest = rest' :=
            htake.symm.trans ((congrArg (List.takeWhile numberChar) htext).trans htake')
          have htail : tail = tail' :=
            hdrop.symm.trans ((congrArg (List.dropWhile numberChar) htext).trans hdrop')
          exact ⟨by rw [hsame], htail⟩
      | bool value => cases value <;> cases hkind
      | _ => cases hkind
  | bool value =>
      cases l' with
      | bool value' =>
          cases value <;> cases value' <;> cases hkind <;> exact ⟨rfl, List.append_cancel_left heq⟩
      | _ => cases value <;> cases hkind
  | _ =>
      cases l' with
      | bool value => cases value <;> cases hkind
      | _ => cases hkind <;> exact ⟨rfl, List.append_cancel_left heq⟩

end Lexeme

/-- The numbers of a scanner end in front of white space and of what may follow them. -/
def Stops (numberChar : UInt8 → Bool) : Prop :=
  ∀ c, isSpace c = true ∨ c = 0x3a ∨ c = 0x2c ∨ c = 0x7d ∨ c = 0x5d → numberChar c = false

theorem Spacing.head_stops {items : List Spaced} {trailing : List UInt8}
    {numberChar : UInt8 → Bool} (h : Spacing items trailing) (hstops : Stops numberChar)
    (hhead : ∀ l ∈ (items.map Spaced.lexeme).head?, l.endsValue = true) :
    ∀ char ∈ (text items trailing).head?, numberChar char = false := by
  intro char hchar
  obtain ⟨rest, hrest⟩ := List.head?_eq_some_iff.mp hchar
  cases items with
  | nil =>
      rw [text_nil] at hrest
      exact hstops char (.inl (h.trailing char (by simp [hrest])))
  | cons item items =>
      rw [text_cons] at hrest
      cases hspaces : item.spaces with
      | nil =>
          obtain ⟨c, hbytes, hc⟩ := Lexeme.bytes_of_endsValue (hhead item.lexeme rfl)
          rw [hspaces, hbytes] at hrest
          obtain ⟨rfl, -⟩ := List.cons.inj hrest
          exact hstops c (.inr hc)
      | cons c spaces =>
          rw [hspaces] at hrest
          obtain ⟨rfl, -⟩ := List.cons.inj hrest
          exact hstops c (.inl (h.head c (by simp [hspaces])))

theorem Adjacent.stops {item : Spaced} {items : List Spaced} {trailing : List UInt8}
    {numberChar : UInt8 → Bool} (h : Adjacent ((item :: items).map Spaced.lexeme))
    (hspacing : Spacing items trailing) (hstops : Stops numberChar) :
    (∃ digits, item.lexeme = .number digits) →
      ∀ char ∈ (text items trailing).head?, numberChar char = false := by
  intro hnumber
  refine hspacing.head_stops hstops fun l hl => ?_
  obtain ⟨rest, hrest⟩ := List.head?_eq_some_iff.mp hl
  rw [List.map_cons, hrest] at h
  exact h.1.2 hnumber

theorem dropWhile_spaces {spaces rest : List UInt8} {c : UInt8}
    (hspaces : ∀ char ∈ spaces, isSpace char = true) (hc : isSpace c = false) :
    (spaces ++ c :: rest).dropWhile isSpace = c :: rest := by
  rw [List.dropWhile_append_of_pos hspaces, List.dropWhile_cons_of_neg (by simp [hc])]

/-- The lexemes of a text are found again. -/
theorem text_injective {numberChar : UInt8 → Bool} (hstops : Stops numberChar)
    {items items' : List Spaced} {trailing trailing' : List UInt8}
    (hspacing : Spacing items trailing) (hspacing' : Spacing items' trailing')
    (hadjacent : Adjacent (items.map Spaced.lexeme))
    (hadjacent' : Adjacent (items'.map Spaced.lexeme))
    (hloose : ∀ l ∈ items.map Spaced.lexeme, l.Loose numberChar)
    (hloose' : ∀ l ∈ items'.map Spaced.lexeme, l.Loose numberChar)
    (heq : text items trailing = text items' trailing') :
    items.map Spaced.lexeme = items'.map Spaced.lexeme := by
  have hend {item : Spaced} {items : List Spaced} {trailing trailing' : List UInt8}
      (hspaces : ∀ char ∈ trailing', isSpace char = true)
      (hloose : item.lexeme.Loose numberChar) (heq : trailing' = text (item :: items) trailing) :
      False := by
    obtain ⟨c, rest, hbytes, -, hc⟩ := hloose.exists_cons
    have hmem : c ∈ trailing' := by simp [heq, hbytes]
    rw [hspaces c hmem] at hc
    cases hc
  induction items generalizing items' with
  | nil =>
      cases items' with
      | nil => rfl
      | cons item items' =>
          exact (hend hspacing.trailing (hloose' _ List.mem_cons_self) heq).elim
  | cons item items ih =>
      cases items' with
      | nil =>
          exact (hend hspacing'.trailing (hloose _ List.mem_cons_self) heq.symm).elim
      | cons item' items' =>
          have hfirst := hloose _ List.mem_cons_self
          have hfirst' := hloose' _ List.mem_cons_self
          obtain ⟨c, rest, hbytes, -, hc⟩ := hfirst.exists_cons
          obtain ⟨c', rest', hbytes', -, hc'⟩ := hfirst'.exists_cons
          have hdrop := congrArg (List.dropWhile isSpace) heq
          rw [text_cons, text_cons, hbytes, hbytes', List.cons_append, List.cons_append,
            dropWhile_spaces hspacing.head hc, dropWhile_spaces hspacing'.head hc',
            ← List.cons_append, ← List.cons_append, ← hbytes, ← hbytes'] at hdrop
          obtain ⟨hlexeme, htail⟩ := hfirst.injective hfirst'
            (hadjacent.stops hspacing.tail hstops) (hadjacent'.stops hspacing'.tail hstops) hdrop
          have hrest := ih hspacing.tail hspacing'.tail hadjacent.tail hadjacent'.tail
            (fun l hl => hloose l (List.mem_cons_of_mem _ hl))
            (fun l hl => hloose' l (List.mem_cons_of_mem _ hl)) htail
          rw [List.map_cons, List.map_cons, hlexeme, hrest]

namespace Document

/-- What may stand behind members and elements for them to end there. -/
def EndsAt : Nonterminal → List Lexeme → Prop
  | .value, _ => True
  | _, tail => ∀ l ∈ tail.head?, l = .closeObject ∨ l = .closeArray

theorem eq_of_isEmpty {n : Nonterminal} {d d' : Document n} (h : d.isEmpty = true)
    (h' : d'.isEmpty = true) : d = d' := by
  cases d with
  | noMembers | noElements => cases d' <;> first | rfl | cases h'
  | _ => cases h

/-- The lexemes of a document are no front of those of another one. By induction on the
document: what it begins with says what it is. -/
theorem lexemes_append_injective {n : Nonterminal} {d d' : Document n} {tail tail' : List Lexeme}
    (htail : EndsAt n tail) (htail' : EndsAt n tail')
    (h : d.lexemes ++ tail = d'.lexemes ++ tail') : d = d' ∧ tail = tail' := by
  have hbehind {n : Nonterminal} {rest rest' : Document n} {tail tail' : List Lexeme}
      (htail : ∀ l ∈ tail.head?, l = Lexeme.closeObject ∨ l = .closeArray)
      (htail' : ∀ l ∈ tail'.head?, l = Lexeme.closeObject ∨ l = .closeArray)
      (ih : rest.lexemes ++ tail = rest'.lexemes ++ tail' → rest = rest' ∧ tail = tail')
      (h : rest.behind ++ tail = rest'.behind ++ tail') : rest = rest' ∧ tail = tail' := by
    have hcomma {tail : List Lexeme} {rest : List Lexeme}
        (htail : ∀ l ∈ tail.head?, l = Lexeme.closeObject ∨ l = .closeArray)
        (h : tail = .comma :: rest) : False := by
      have := htail .comma (by rw [h]; rfl)
      simp at this
    unfold behind at h
    cases hrest : rest.isEmpty <;> cases hrest' : rest'.isEmpty <;>
      simp only [hrest, hrest', if_true, Bool.false_eq_true, if_false, List.nil_append,
        List.cons_append] at h
    · exact ih (List.cons.inj h).2
    · exact (hcomma htail' h.symm).elim
    · exact (hcomma htail h).elim
    · exact ⟨eq_of_isEmpty hrest hrest', h⟩
  induction d generalizing tail tail' with
  | string content =>
      cases d' <;> cases h
      exact ⟨rfl, rfl⟩
  | number text =>
      cases d' <;> cases h
      exact ⟨rfl, rfl⟩
  | bool value =>
      cases d' <;> cases h
      exact ⟨rfl, rfl⟩
  | null =>
      cases d' <;> cases h
      exact ⟨rfl, rfl⟩
  | object members ih =>
      cases d' with
      | object members' =>
          simp only [lexemes, List.cons_append, List.append_assoc] at h
          obtain ⟨rfl, hrest⟩ := ih (by simp [EndsAt]) (by simp [EndsAt]) (List.cons.inj h).2
          exact ⟨rfl, (List.cons.inj hrest).2⟩
      | _ => cases h
  | array elements ih =>
      cases d' with
      | array elements' =>
          simp only [lexemes, List.cons_append, List.append_assoc] at h
          obtain ⟨rfl, hrest⟩ := ih (by simp [EndsAt]) (by simp [EndsAt]) (List.cons.inj h).2
          exact ⟨rfl, (List.cons.inj hrest).2⟩
      | _ => cases h
  | noMembers =>
      cases d' with
      | noMembers => exact ⟨rfl, h⟩
      | member key value rest =>
          have := htail _ (by rw [show tail = _ from h]; rfl)
          simp at this
  | member key value rest ih ih' =>
      cases d' with
      | noMembers =>
          have := htail' _ (by rw [show tail' = _ from h.symm]; rfl)
          simp at this
      | member key' value' rest' =>
          simp only [lexemes_member, List.cons_append, List.append_assoc, List.cons.injEq,
            Lexeme.string.injEq, true_and] at h
          obtain ⟨rfl, h⟩ := h
          obtain ⟨rfl, hrest⟩ := ih trivial trivial h
          obtain ⟨rfl, htails⟩ := hbehind htail htail' (ih' htail htail') hrest
          exact ⟨rfl, htails⟩
  | noElements =>
      cases d' with
      | noElements => exact ⟨rfl, h⟩
      | element value rest =>
          obtain ⟨a, more, hmore, hstarts⟩ := exists_lexemes_cons value.isEmpty_value
          rw [lexemes_element, hmore] at h
          have := htail a (by rw [show tail = _ from h]; rfl)
          exact absurd this (by simp [hstarts.2.1, hstarts.2.2])
  | element value rest ih ih' =>
      cases d' with
      | noElements =>
          obtain ⟨a, more, hmore, hstarts⟩ := exists_lexemes_cons value.isEmpty_value
          rw [lexemes_element, hmore] at h
          have := htail' a (by rw [show tail' = _ from h.symm]; rfl)
          exact absurd this (by simp [hstarts.2.1, hstarts.2.2])
      | element value' rest' =>
          simp only [lexemes_element, List.append_assoc] at h
          obtain ⟨rfl, hrest⟩ := ih trivial trivial h
          obtain ⟨rfl, htails⟩ := hbehind htail htail' (ih' htail htail') hrest
          exact ⟨rfl, htails⟩

theorem lexemes_injective {n : Nonterminal} {d d' : Document n} (h : d.lexemes = d'.lexemes) :
    d = d' := by
  have hnil : EndsAt n [] := by cases n <;> simp [EndsAt]
  exact (lexemes_append_injective hnil hnil (congrArg (· ++ []) h)).1

end Document

end Json
