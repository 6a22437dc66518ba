import Mathlib.Algebra.GroupWithZero.Nat
import Ebus.Lib.JsonText

/-!
# The pieces of a text

To a reader that goes over values as a whole, a text is a row of pieces: keys, values, and the
brackets that close what it is inside of. `Shows` says which lexemes stand for a row of pieces;
separators stand for nothing.
-/

namespace Json

inductive Piece where
  | key (name : List UInt8)
  | value (v : Document .value)
  | objectEnd
  | arrayEnd

/-- No colon is next. -/
def NoColon (lexemes : List Lexeme) : Prop := lexemes.head? ≠ some .colon

namespace Piece

def lexemes : Piece → List Lexeme
  | .key name => [.string name]
  | .value v => v.lexemes
  | .objectEnd => [.closeObject]
  | .arrayEnd => [.closeArray]

/-- How many lexemes some pieces have, separators aside. -/
def size (pieces : List Piece) : Nat := (pieces.map fun piece => piece.lexemes.length).sum

theorem size_cons (piece : Piece) (pieces : List Piece) :
    size (piece :: pieces) = piece.lexemes.length + size pieces := rfl

theorem size_append (pieces pieces' : List Piece) :
    size (pieces ++ pieces') = size pieces + size pieces' := by
  rw [size, size, size, List.map_append, List.sum_append]

theorem size_tail_le (pieces : List Piece) : size pieces.tail ≤ size pieces := by
  cases pieces with
  | nil => exact Nat.le_refl _
  | cons piece pieces => exact Nat.le_add_left _ _

/-- The pieces that some lexemes stand for: a colon stands behind each key and nowhere else. -/
inductive Shows : List Piece → List Lexeme → Prop
  | nil : Shows [] []
  | comma {pieces : List Piece} {rest : List Lexeme} (hrest : Shows pieces rest) :
      Shows pieces (.comma :: rest)
  | key (name : List UInt8) {pieces : List Piece} {rest : List Lexeme}
      (hrest : Shows pieces rest) : Shows (.key name :: pieces) (.string name :: .colon :: rest)
  | value (v : Document .value) {pieces : List Piece} {rest : List Lexeme}
      (hrest : Shows pieces rest) : Shows (.value v :: pieces) (v.lexemes ++ rest)
  | objectEnd {pieces : List Piece} {rest : List Lexeme} (hrest : Shows pieces rest) :
      Shows (.objectEnd :: pieces) (.closeObject :: rest)
  | arrayEnd {pieces : List Piece} {rest : List Lexeme} (hrest : Shows pieces rest) :
      Shows (.arrayEnd :: pieces) (.closeArray :: rest)

namespace Shows

variable {pieces : List Piece} {ls : List Lexeme}

theorem noColon (h : Shows pieces ls) : NoColon ls := by
  cases h with
  | value v hrest =>
      obtain ⟨l, more, hmore, hstarts⟩ := Document.exists_lexemes_cons v.isEmpty_value
      rw [hmore]
      rintro ⟨⟩
      cases hstarts.1
  | _ => simp [NoColon]

/-- The pieces of some lexemes are found again, a comma in front of them aside. -/
theorem unique {pieces' : List Piece} (h : Shows pieces ls) (h' : Shows pieces' ls) :
    pieces = pieces' := by
  have hstart {v : Document .value} {rest : List Lexeme} {a : Lexeme} {others : List Lexeme}
      (h : v.lexemes ++ rest = a :: others) : Document.Starts a := by
    obtain ⟨l, more, hmore, hstarts⟩ := Document.exists_lexemes_cons v.isEmpty_value
    rw [hmore] at h
    exact (List.cons.inj h).1 ▸ hstarts
  induction h generalizing pieces' with
  | nil =>
      generalize hls : ([] : List Lexeme) = ls at h'
      cases h' with
      | nil => rfl
      | value v _ =>
          obtain ⟨l, more, hmore, -⟩ := Document.exists_lexemes_cons v.isEmpty_value
          rw [hmore] at hls
          cases hls
      | _ => cases hls
  | @comma pieces rest _ ih =>
      generalize hls : Lexeme.comma :: rest = ls at h'
      cases h' with
      | comma hrest =>
          cases hls
          exact ih hrest
      | value v _ => cases (hstart hls.symm).1
      | _ => cases hls
  | @key name pieces rest _ ih =>
      generalize hls : Lexeme.string name :: .colon :: rest = ls at h'
      cases h' with
      | key name' hrest =>
          cases hls
          rw [ih hrest]
      | @value v pieces' rest' hrest =>
          cases v with
          | string content =>
              have hcolon := (List.cons.inj hls).2
              exact absurd (congrArg List.head? hcolon).symm hrest.noColon
          | _ => cases hls
      | _ => cases hls
  | @value v pieces rest hrest ih =>
      generalize hls : v.lexemes ++ rest = ls at h'
      cases h' with
      | value v' hrest' =>
          have hvalue : v = v' ∧ _ :=
            Document.lexemes_append_injective (n := .value) trivial trivial hls
          obtain ⟨rfl, rfl⟩ := hvalue
          rw [ih hrest']
      | nil =>
          obtain ⟨l, more, hmore, -⟩ := Document.exists_lexemes_cons v.isEmpty_value
          rw [hmore] at hls
          cases hls
      | comma _ => cases (hstart hls).1
      | @key name pieces' rest' hrest' =>
          cases v with
          | string content =>
              have hcolon := (List.cons.inj hls).2
              exact absurd (congrArg List.head? hcolon) hrest.noColon
          | _ => cases hls
      | objectEnd _ => exact absurd rfl (hstart hls).2.1
      | arrayEnd _ => exact absurd rfl (hstart hls).2.2
  | @objectEnd pieces rest _ ih =>
      generalize hls : Lexeme.closeObject :: rest = ls at h'
      cases h' with
      | objectEnd hrest =>
          cases hls
          rw [ih hrest]
      | value v _ => exact absurd rfl (hstart hls.symm).2.1
      | _ => cases hls
  | @arrayEnd pieces rest _ ih =>
      generalize hls : Lexeme.closeArray :: rest = ls at h'
      cases h' with
      | arrayEnd hrest =>
          cases hls
          rw [ih hrest]
      | value v _ => exact absurd rfl (hstart hls.symm).2.2
      | _ => cases hls

theorem size_le (h : Shows pieces ls) : size pieces ≤ ls.length := by
  induction h with
  | nil => exact Nat.le_refl _
  | comma _ ih => exact Nat.le_succ_of_le ih
  | value v _ ih =>
      rw [size_cons, List.length_append]
      exact Nat.add_le_add_left ih _
  | key name _ ih =>
      rw [size_cons, List.length_cons, List.length_cons, lexemes, List.length_singleton]
      omega
  | objectEnd _ ih | arrayEnd _ ih =>
      rw [size_cons, List.length_cons, lexemes, List.length_singleton]
      omega

end Shows

end Piece

namespace Document

/-- A value is one piece, a member two. -/
def pieces : {n : Nonterminal} → Document n → List Piece
  | _, .noMembers | _, .noElements => []
  | _, .member key value rest => .key key :: .value value :: rest.pieces
  | _, .element value rest => .value value :: rest.pieces
  | _, .string content => [.value (.string content)]
  | _, .number text => [.value (.number text)]
  | _, .bool value => [.value (.bool value)]
  | _, .null => [.value .null]
  | _, .object members => [.value (.object members)]
  | _, .array elements => [.value (.array elements)]

theorem pieces_value (v : Document .value) : v.pieces = [.value v] := by
  cases v <;> rfl

theorem pieces_elements : (elements : Document .elements) →
    elements.pieces = elements.toElements.map .value
  | .noElements => by simp [pieces, toElements]
  | .element value rest => by simp [pieces, toElements, rest.pieces_elements]

/-- The lexemes of a document, in front of others. By induction on the document. -/
theorem shows_append {n : Nonterminal} (doc : Document n) {pieces : List Piece}
    {tail : List Lexeme} (htail : Piece.Shows pieces tail) :
    Piece.Shows (doc.pieces ++ pieces) (doc.lexemes ++ tail) := by
  have hbehind {n : Nonterminal} {rest : Document n} {pieces : List Piece} {tail : List Lexeme}
      (htail : Piece.Shows pieces tail)
      (ih : Piece.Shows (rest.pieces ++ pieces) (rest.lexemes ++ tail)) :
      Piece.Shows (rest.pieces ++ pieces) (rest.behind ++ tail) := by
    rw [behind]
    split
    · rename_i hempty
      rwa [lexemes_eq_nil hempty] at ih
    · exact .comma ih
  induction doc generalizing pieces tail with
  | noMembers | noElements => exact htail
  | member key value rest ih ih' =>
      rw [lexemes_member, List.cons_append, List.cons_append, List.append_assoc]
      exact .key key (.value value (hbehind htail (ih' htail)))
  | element value rest ih ih' =>
      rw [lexemes_element, List.append_assoc]
      exact .value value (hbehind htail (ih' htail))
  | string content => exact .value (.string content) htail
  | number text => exact .value (.number text) htail
  | bool value => exact .value (.bool value) htail
  | null => exact .value .null htail
  | object members => exact .value (.object members) htail
  | array elements => exact .value (.array elements) htail

theorem size_pieces_le {n : Nonterminal} (doc : Document n) :
    Piece.size doc.pieces ≤ doc.lexemes.length := by
  have hshows := doc.shows_append Piece.Shows.nil
  rw [List.append_nil, List.append_nil] at hshows
  exact hshows.size_le

/-- The members of a document, at any depth. -/
def allMembers : {n : Nonterminal} → Document n → List (List UInt8 × Document .value)
  | _, .member key value rest => (key, value) :: (value.allMembers ++ rest.allMembers)
  | _, .element value rest => value.allMembers ++ rest.allMembers
  | _, .object members => members.allMembers
  | _, .array elements => elements.allMembers
  | _, _ => []

/-- The first member of a name, and the members behind it. -/
def lookup (name : List UInt8) : Document .members → Option (Document .value × Document .members)
  | .noMembers => none
  | .member key value rest => if key = name then some (value, rest) else rest.lookup name

theorem lookup_eq (name : List UInt8) : (members : Document .members) →
    (members.lookup name).map Prod.fst = (members.toMembers.find? (·.1 = name)).map (·.2)
  | .noMembers => by simp [lookup, toMembers]
  | .member key value rest => by
      rw [lookup, toMembers, List.find?_cons]
      by_cases hkey : key = name
      · simp [hkey]
      · simp [hkey, rest.lookup_eq name]

/-- One step of a path: the value and the pieces behind it. -/
def place (index : List UInt8 → Option Nat) (segment : List UInt8) (behind : List Piece) :
    Document .value → Option (Document .value × List Piece)
  | .object members =>
      (members.lookup segment).map fun (v, rest) => (v, rest.pieces ++ .objectEnd :: behind)
  | .array elements =>
      (index segment).bind fun i => elements.toElements[i]?.map fun v =>
        (v, (elements.toElements.drop (i + 1)).map .value ++ .arrayEnd :: behind)
  | _ => none

theorem place_eq (index : List UInt8 → Option Nat) (segment : List UInt8) (behind : List Piece)
    (v : Document .value) :
    (v.place index segment behind).map Prod.fst = v.child index segment := by
  cases v with
  | object members =>
      rw [child, ← lookup_eq, place, Option.map_map]
      rfl
  | array elements =>
      rw [child, place]
      cases index segment with
      | none => rfl
      | some i => simp [Option.map_map, Function.comp_def]
  | _ => rfl

end Document

namespace Piece

/-- The pieces have no members but these, and the value of a member behind each key. -/
inductive Within (ms : List (List UInt8 × Document .value)) : List Piece → Prop
  | nil : Within ms []
  | key {name : List UInt8} {v : Document .value} {pieces : List Piece} (hmem : (name, v) ∈ ms)
      (hrest : Within ms (.value v :: pieces)) : Within ms (.key name :: .value v :: pieces)
  | value {v : Document .value} {pieces : List Piece} (hv : v.allMembers ⊆ ms)
      (hrest : Within ms pieces) : Within ms (.value v :: pieces)
  | objectEnd {pieces : List Piece} (hrest : Within ms pieces) : Within ms (.objectEnd :: pieces)
  | arrayEnd {pieces : List Piece} (hrest : Within ms pieces) : Within ms (.arrayEnd :: pieces)

theorem Within.tail {ms : List (List UInt8 × Document .value)} {piece : Piece}
    {pieces : List Piece} (h : Within ms (piece :: pieces)) : Within ms pieces := by
  cases h with
  | key _ hrest | value _ hrest | objectEnd hrest | arrayEnd hrest => exact hrest

end Piece

/-- The pieces of a document have its members. By induction on the document. -/
theorem Document.within_append {n : Nonterminal} (doc : Document n)
    {ms : List (List UInt8 × Document .value)} {pieces : List Piece} (h : doc.allMembers ⊆ ms)
    (hpieces : Piece.Within ms pieces) : Piece.Within ms (doc.pieces ++ pieces) := by
  induction doc generalizing pieces with
  | noMembers | noElements => exact hpieces
  | member key value rest _ ih =>
      obtain ⟨hmem, hmembers⟩ := List.cons_subset.mp h
      obtain ⟨hvalue, hrest⟩ := List.append_subset.mp hmembers
      exact .key hmem (.value hvalue (ih hrest hpieces))
  | element value rest _ ih =>
      obtain ⟨hvalue, hrest⟩ := List.append_subset.mp h
      exact .value hvalue (ih hrest hpieces)
  | string content | number text | bool value | null => exact .value h hpieces
  | object members _ | array elements _ => exact .value h hpieces

end Json
