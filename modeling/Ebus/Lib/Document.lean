import Ebus.Lib.Json

/-!
# Documents

The tree of a JSON text: a value, or the members or elements of a container. `lexemes` writes
it down, `child` and `follow` walk into it. What the strings and numbers of a tree have to be is
left open here, since scanners differ in it; `Adjacent` is the part of `Linear` that holds for
every document.
-/

namespace Json

/-- The lexemes are next to each other only as they may be, and the last one is no separator. -/
def Adjacent : List Lexeme → Prop
  | [] => True
  | [a] => a.isSeparator = false
  | a :: b :: rest => a.Follows b ∧ Adjacent (b :: rest)

namespace Adjacent

theorem tail {a : Lexeme} {rest : List Lexeme} (h : Adjacent (a :: rest)) : Adjacent rest := by
  cases rest with
  | nil => trivial
  | cons b rest => exact h.2

theorem right {front rest : List Lexeme} (h : Adjacent (front ++ rest)) : Adjacent rest := by
  induction front with
  | nil => exact h
  | cons a front ih => exact ih h.tail

/-- A lexeme that is neither a separator nor a number. -/
theorem cons {a : Lexeme} {rest : List Lexeme} (hsep : a.isSeparator = false)
    (hnum : ∀ text, a ≠ .number text) (h : Adjacent rest) : Adjacent (a :: rest) := by
  cases rest with
  | nil => exact hsep
  | cons b rest =>
      exact ⟨⟨fun hsep' => absurd hsep' (by simp [hsep]), fun ⟨text, htext⟩ =>
        absurd htext (hnum text)⟩, h⟩

/-- A separator in front of what does not begin with one. -/
theorem separator {a b : Lexeme} {rest : List Lexeme} (ha : a = .colon ∨ a = .comma)
    (hb : b.isSeparator = false) (h : Adjacent (b :: rest)) : Adjacent (a :: b :: rest) := by
  refine ⟨⟨fun _ => hb, ?_⟩, h⟩
  rintro ⟨text, rfl⟩
  obtain h | h := ha <;> cases h

end Adjacent

theorem linear_iff {lexemes : List Lexeme} :
    Linear lexemes ↔ Adjacent lexemes ∧ ∀ l ∈ lexemes, l.WellFormed := by
  induction lexemes with
  | nil => simp [Linear, Adjacent]
  | cons a rest ih =>
      cases rest with
      | nil => simp [Linear, Adjacent, and_comm]
      | cons b rest =>
          rw [Linear, Adjacent, ih, List.forall_mem_cons (a := a)]
          exact ⟨fun ⟨ha, hab, hadj, hall⟩ => ⟨⟨hab, hadj⟩, ha, hall⟩,
            fun ⟨⟨hab, hadj⟩, ha, hall⟩ => ⟨ha, hab, hadj, hall⟩⟩

/-- A value, or the members or elements of a container. -/
inductive Document : Nonterminal → Type
  | string (content : List UInt8) : Document .value
  | number (text : List UInt8) : Document .value
  | bool (value : Bool) : Document .value
  | null : Document .value
  | object (members : Document .members) : Document .value
  | array (elements : Document .elements) : Document .value
  | noMembers : Document .members
  | member (key : List UInt8) (value : Document .value) (rest : Document .members) :
      Document .members
  | noElements : Document .elements
  | element (value : Document .value) (rest : Document .elements) : Document .elements

namespace Document

def isEmpty : {n : Nonterminal} → Document n → Bool
  | _, .noMembers | _, .noElements => true
  | _, _ => false

open Lexeme in
def lexemes : {n : Nonterminal} → Document n → List Lexeme
  | _, .string content => [.string content]
  | _, .number text => [.number text]
  | _, .bool value => [.bool value]
  | _, .null => [.null]
  | _, .object members => openObject :: (members.lexemes ++ [closeObject])
  | _, .array elements => openArray :: (elements.lexemes ++ [closeArray])
  | _, .noMembers => []
  | _, .member key value rest =>
      .string key :: colon ::
        (value.lexemes ++ if rest.isEmpty then [] else comma :: rest.lexemes)
  | _, .noElements => []
  | _, .element value rest =>
      value.lexemes ++ if rest.isEmpty then [] else comma :: rest.lexemes

/-- How many containers are nested in each other. -/
def depth : {n : Nonterminal} → Document n → Nat
  | _, .object members => members.depth + 1
  | _, .array elements => elements.depth + 1
  | _, .member _ value rest => max value.depth rest.depth
  | _, .element value rest => max value.depth rest.depth
  | _, _ => 0

def toMembers : Document .members → List (List UInt8 × Document .value)
  | .noMembers => []
  | .member key value rest => (key, value) :: rest.toMembers

def toElements : Document .elements → List (Document .value)
  | .noElements => []
  | .element value rest => value :: rest.toElements

/-- The lexemes behind a member or an element. -/
def behind {n : Nonterminal} (rest : Document n) : List Lexeme :=
  if rest.isEmpty then [] else .comma :: rest.lexemes

theorem lexemes_member (key : List UInt8) (value : Document .value) (rest : Document .members) :
    (member key value rest).lexemes =
      .string key :: .colon :: (value.lexemes ++ rest.behind) := rfl

theorem lexemes_element (value : Document .value) (rest : Document .elements) :
    (element value rest).lexemes = value.lexemes ++ rest.behind := rfl

theorem lexemes_eq_nil {n : Nonterminal} {doc : Document n} (h : doc.isEmpty = true) :
    doc.lexemes = [] := by
  cases doc <;> first | rfl | cases h

/-- One step of a path: the first member of that name, or the element of that index. -/
def child (index : List UInt8 → Option Nat) : Document .value → List UInt8 →
    Option (Document .value)
  | .object members, segment => (members.toMembers.find? (·.1 = segment)).map (·.2)
  | .array elements, segment => (index segment).bind fun i => elements.toElements[i]?
  | _, _ => none

def follow (index : List UInt8 → Option Nat) (doc : Document .value)
    (path : List (List UInt8)) : Option (Document .value) :=
  path.foldlM (child index) doc

/-- Where a value, members or elements may begin. -/
def Starts (l : Lexeme) : Prop := l.isSeparator = false ∧ l ≠ .closeObject ∧ l ≠ .closeArray

theorem exists_lexemes_cons {n : Nonterminal} {doc : Document n} (h : doc.isEmpty = false) :
    ∃ a rest, doc.lexemes = a :: rest ∧ Starts a := by
  induction doc with
  | noMembers | noElements => cases h
  | element value rest ih _ =>
      have hvalue : value.isEmpty = false := by cases value <;> rfl
      obtain ⟨a, more, hlexemes, ha⟩ := ih hvalue
      exact ⟨a, more ++ rest.behind, by rw [lexemes_element, hlexemes, List.cons_append], ha⟩
  | _ => exact ⟨_, _, rfl, rfl, nofun, nofun⟩

theorem isEmpty_value (doc : Document .value) : doc.isEmpty = false := by
  cases doc <;> rfl

/-- What stands behind a member ends it. -/
theorem endsValue_behind {n : Nonterminal} (rest : Document n) {tail : List Lexeme}
    (htail : ∀ l ∈ tail.head?, l.endsValue = true) :
    ∀ l ∈ (rest.behind ++ tail).head?, l.endsValue = true := by
  rw [behind]
  split
  · exact htail
  · rintro l ⟨⟩
    rfl

/-- Every derivation is the one of a document. -/
theorem exists_of_derives {n : Nonterminal} {ls : List Lexeme} (h : Derives n ls) :
    ∃ doc : Document n, doc.lexemes = ls ∧ doc.isEmpty = false := by
  induction h with
  | @string content => exact ⟨.string content, rfl, rfl⟩
  | @number text => exact ⟨.number text, rfl, rfl⟩
  | bool value => exact ⟨.bool value, rfl, rfl⟩
  | null => exact ⟨.null, rfl, rfl⟩
  | emptyObject => exact ⟨.object .noMembers, rfl, rfl⟩
  | object _ ih =>
      obtain ⟨members, rfl, -⟩ := ih
      exact ⟨.object members, rfl, rfl⟩
  | emptyArray => exact ⟨.array .noElements, rfl, rfl⟩
  | array _ ih =>
      obtain ⟨elements, rfl, -⟩ := ih
      exact ⟨.array elements, rfl, rfl⟩
  | @member key _ _ _ ih =>
      obtain ⟨value, rfl, -⟩ := ih
      exact ⟨.member key value .noMembers, by simp [Document.lexemes, isEmpty], rfl⟩
  | @members key _ _ _ _ _ ih ih' =>
      obtain ⟨value, rfl, -⟩ := ih
      obtain ⟨rest, rfl, hrest⟩ := ih'
      exact ⟨.member key value rest, by simp [Document.lexemes, hrest], rfl⟩
  | element _ ih =>
      obtain ⟨value, rfl, -⟩ := ih
      exact ⟨.element value .noElements, by simp [Document.lexemes, isEmpty], rfl⟩
  | elements _ _ ih ih' =>
      obtain ⟨value, rfl, -⟩ := ih
      obtain ⟨rest, rfl, hrest⟩ := ih'
      exact ⟨.element value rest, by simp [Document.lexemes, hrest], rfl⟩

theorem derives {n : Nonterminal} (doc : Document n) (h : doc.isEmpty = false)
    (hall : ∀ l ∈ doc.lexemes, l.WellFormed) : Derives n doc.lexemes := by
  induction doc with
  | string content => exact .string (hall _ List.mem_cons_self)
  | number text => exact .number (hall _ List.mem_cons_self)
  | bool value => exact .bool value
  | null => exact .null
  | object members ih =>
      cases hmembers : members.isEmpty with
      | true =>
          rw [lexemes, lexemes_eq_nil hmembers]
          exact .emptyObject
      | false =>
          exact .object (ih hmembers fun l hl => hall l (by simp [lexemes, hl]))
  | array elements ih =>
      cases helements : elements.isEmpty with
      | true =>
          rw [lexemes, lexemes_eq_nil helements]
          exact .emptyArray
      | false =>
          exact .array (ih helements fun l hl => hall l (by simp [lexemes, hl]))
  | noMembers | noElements => cases h
  | member key value rest ih ih' =>
      have hkey : StringContent key := hall (.string key) (by simp [lexemes])
      have hvalue := ih value.isEmpty_value fun l hl => hall l (by simp [lexemes, hl])
      rw [lexemes]
      cases hrest : rest.isEmpty with
      | true =>
          rw [if_pos rfl, List.append_nil]
          exact .member hkey hvalue
      | false =>
          rw [if_neg (by decide)]
          exact .members hkey hvalue
            (ih' hrest fun l hl => hall l (by simp [lexemes, hrest, hl]))
  | element value rest ih ih' =>
      have hvalue := ih value.isEmpty_value fun l hl => hall l (by simp [lexemes, hl])
      rw [lexemes]
      cases hrest : rest.isEmpty with
      | true =>
          rw [if_pos rfl, List.append_nil]
          exact .element hvalue
      | false =>
          rw [if_neg (by decide)]
          exact .elements hvalue (ih' hrest fun l hl => hall l (by simp [lexemes, hrest, hl]))

/-- The values of the grammar are the documents of well-formed strings and numbers. -/
theorem derives_value_iff {ls : List Lexeme} :
    Derives .value ls ↔ ∃ doc : Document .value, doc.lexemes = ls ∧ ∀ l ∈ ls, l.WellFormed := by
  constructor
  · intro h
    obtain ⟨doc, hdoc, -⟩ := exists_of_derives h
    exact ⟨doc, hdoc, (linear_iff.mp h.linear).2⟩
  · rintro ⟨doc, rfl, hall⟩
    exact doc.derives doc.isEmpty_value hall

/-- By induction on the document, with what comes behind it. -/
theorem adjacent_append {n : Nonterminal} (doc : Document n) {tail : List Lexeme}
    (htail : Adjacent tail) (hhead : ∀ l ∈ tail.head?, l.endsValue = true) :
    Adjacent (doc.lexemes ++ tail) := by
  have hclose {a : Lexeme} (ha : a = .closeObject ∨ a = .closeArray) {tail : List Lexeme}
      (htail : Adjacent tail) :
      Adjacent (a :: tail) ∧ ∀ l ∈ (a :: tail).head?, l.endsValue = true := by
    obtain rfl | rfl := ha
    · exact ⟨htail.cons rfl nofun, by rintro l ⟨⟩; rfl⟩
    · exact ⟨htail.cons rfl nofun, by rintro l ⟨⟩; rfl⟩
  have hbehind {n : Nonterminal} (rest : Document n) {tail : List Lexeme}
      (htail : Adjacent tail) (ih : Adjacent (rest.lexemes ++ tail)) :
      Adjacent (rest.behind ++ tail) := by
    rw [behind]
    split
    · exact htail
    · rename_i hrest
      obtain ⟨a, more, hmore, ha⟩ := exists_lexemes_cons (Bool.not_eq_true _ ▸ hrest)
      rw [hmore] at ih ⊢
      exact .separator (.inr rfl) ha.1 ih
  induction doc generalizing tail with
  | string content => exact htail.cons rfl nofun
  | number text =>
      cases tail with
      | nil => exact rfl
      | cons b rest => exact ⟨⟨nofun, fun _ => hhead b rfl⟩, htail⟩
  | bool value => exact htail.cons rfl nofun
  | null => exact htail.cons rfl nofun
  | object members ih =>
      rw [lexemes, List.cons_append, List.append_assoc]
      have hbracket := hclose (.inl rfl) htail
      exact (ih hbracket.1 hbracket.2).cons rfl nofun
  | array elements ih =>
      rw [lexemes, List.cons_append, List.append_assoc]
      have hbracket := hclose (.inr rfl) htail
      exact (ih hbracket.1 hbracket.2).cons rfl nofun
  | noMembers | noElements => exact htail
  | member key value rest ih ih' =>
      rw [lexemes_member, List.cons_append, List.cons_append, List.append_assoc]
      have hvalue := ih (hbehind rest htail (ih' htail hhead)) (rest.endsValue_behind hhead)
      obtain ⟨a, more, hmore, ha⟩ := exists_lexemes_cons value.isEmpty_value
      rw [hmore] at hvalue ⊢
      exact Adjacent.cons rfl nofun (.separator (.inl rfl) ha.1 hvalue)
  | element value rest ih ih' =>
      rw [lexemes_element, List.append_assoc]
      exact ih (hbehind rest htail (ih' htail hhead)) (rest.endsValue_behind hhead)

theorem adjacent {n : Nonterminal} (doc : Document n) : Adjacent doc.lexemes := by
  simpa using doc.adjacent_append (show Adjacent [] from trivial) (by simp)

end Document

end Json
