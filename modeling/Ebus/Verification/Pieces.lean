import Ebus.Lib.Pieces
import Ebus.Verification.Tokens

/-!
# The reader, piece by piece

`Sees` says which pieces lie ahead of a reader. A call of `next` takes one of them, or goes into
the container that it is; `skipValue` takes any one piece as a whole, also where it is no value.
-/

namespace Ebus

open Json

namespace JsonReader

/-- What is reported for the first token of a value. -/
def firstReport : Document .value → Token × List UInt8
  | .string content => (.string, content)
  | .number text => (.number, text)
  | .bool value => (.boolean, valueOf (.bool value))
  | .null => (.null, Lexeme.nullText)
  | .object _ => (.objectStart, [])
  | .array _ => (.arrayStart, [])

def isScalar : Document .value → Bool
  | .object _ | .array _ => false
  | _ => true

def pieceReport : Piece → Token × List UInt8
  | .key name => (.key, name)
  | .value v => firstReport v
  | .objectEnd => (.objectEnd, [])
  | .arrayEnd => (.arrayEnd, [])

/-- What lies in a container behind its first token. -/
def inside : Piece → List Piece
  | .value (.object members) => members.pieces ++ [.objectEnd]
  | .value (.array elements) => elements.pieces ++ [.arrayEnd]
  | _ => []

/-- A container has fewer lexemes in it than it has itself. -/
theorem size_inside_lt (piece : Piece) (pieces : List Piece) :
    Piece.size (inside piece ++ pieces) < Piece.size (piece :: pieces) := by
  have hcontainer {n : Nonterminal} (contents : Document n) (last : Piece) {opens closes : Lexeme}
      (hlast : last.lexemes.length = 1) :
      Piece.size (contents.pieces ++ [last]) <
        (opens :: (contents.lexemes ++ [closes])).length := by
    have hle := contents.size_pieces_le
    rw [Piece.size_append, Piece.size_cons, hlast, List.length_cons, List.length_append]
    simp only [List.length_singleton, Piece.size, List.map_nil, List.sum_nil] at hle ⊢
    omega
  rw [Piece.size_append, Piece.size_cons]
  refine Nat.add_lt_add_right ?_ _
  cases piece with
  | value v =>
      cases v with
      | object members => exact hcontainer members .objectEnd rfl
      | array elements => exact hcontainer elements .arrayEnd rfl
      | _ => exact Nat.one_pos
  | _ => exact Nat.one_pos

/-- A loop that takes one token for each round has fuel for the next one. -/
theorem exists_fuel {piece : Piece} {pieces : List Piece} {fuel : Nat}
    (h : Piece.size (piece :: pieces) < fuel) :
    ∃ fuel', fuel = fuel' + 1 ∧ Piece.size (inside piece ++ pieces) < fuel' := by
  obtain ⟨fuel', rfl⟩ := Nat.exists_eq_add_one.mpr (Nat.zero_lt_of_lt h)
  exact ⟨fuel', rfl, (size_inside_lt piece pieces).trans_le (Nat.le_of_lt_succ h)⟩

theorem inside_of_isScalar {v : Document .value} (h : isScalar v = true) :
    inside (.value v) = [] := by
  cases v <;> first | rfl | cases h

theorem hasValue_of_isScalar {v : Document .value} (h : isScalar v = true) :
    (firstReport v).1.hasValue = true := by
  cases v <;> first | rfl | cases h

/-- These pieces lie ahead of the reader. -/
def Sees (r : JsonReader) (pieces : List Piece) : Prop :=
  ∃ ls, Piece.Shows pieces ls ∧ Reads r ls

theorem isColon_of_noColon {ls : List Lexeme} (h : NoColon ls) : isColon ls = false :=
  decide_eq_false h

namespace Sees

variable {r s : JsonReader} {piece : Piece} {pieces : List Piece}

theorem whole (h : Sees r pieces) : Whole r := by
  obtain ⟨ls, -, hreads⟩ := h
  exact hreads.whole

theorem congr (h : Sees r pieces) (hs : Whole s) (hrest : s.rest = r.rest) : Sees s pieces := by
  obtain ⟨ls, hshows, hreads⟩ := h
  exact ⟨ls, hshows, hreads.congr hs hrest⟩

theorem size_le (h : Sees r pieces) : Piece.size pieces ≤ r.rest.length := by
  obtain ⟨ls, hshows, hreads⟩ := h
  exact hshows.size_le.trans hreads.length_le

/-- What lies ahead is told by the text. -/
theorem unique {pieces' : List Piece} (h : Sees r pieces) (h' : Sees r pieces') :
    pieces = pieces' := by
  obtain ⟨ls, hshows, ⟨gap, items, trailing, hgap, rfl, hat⟩, -⟩ := h
  obtain ⟨ls', hshows', ⟨gap', items', trailing', hgap', rfl, hat'⟩, -⟩ := h'
  -- a comma in front stands for nothing, and a colon is in front of no pieces
  have hlexemes := hat.lexemes_unique hat'
  rw [List.map_append, List.map_append] at hlexemes
  have hcases {gap : List Spaced} (h : Gap gap) : gap.map Spaced.lexeme = [] ∨
      gap.map Spaced.lexeme = [.comma] ∨ gap.map Spaced.lexeme = [.colon] := by
    obtain rfl | ⟨item, rfl, hsep⟩ := h
    · exact .inl rfl
    · rw [List.map_singleton]
      cases hitem : item.lexeme <;> simp_all [Lexeme.isSeparator]
  have hnoColon {ls ls' : List Lexeme} {pieces : List Piece} (h : Piece.Shows pieces ls)
      (hls : ls = .colon :: ls') : False := h.noColon (congrArg List.head? hls)
  obtain hgap | hgap | hgap := hcases hgap <;> obtain hgap' | hgap' | hgap' := hcases hgap' <;>
    simp only [hgap, hgap', List.nil_append, List.singleton_append] at hlexemes
  · exact hshows.unique (hlexemes ▸ hshows')
  · exact hshows.unique (hlexemes ▸ hshows'.comma)
  · exact (hnoColon hshows hlexemes).elim
  · exact (hlexemes ▸ hshows.comma : Piece.Shows pieces _).unique hshows'
  · exact hshows.unique ((List.cons.inj hlexemes).2 ▸ hshows')
  · cases hlexemes
  · exact (hnoColon hshows' hlexemes.symm).elim
  · cases hlexemes
  · exact hshows.unique ((List.cons.inj hlexemes).2 ▸ hshows')

/-- Commas aside. -/
theorem exists_reads (h : Sees r pieces) :
    ∃ ls, Piece.Shows pieces ls ∧ Reads r ls ∧ ls.head? ≠ some .comma := by
  obtain ⟨ls, hshows, hreads⟩ := h
  induction hshows with
  | nil => exact ⟨_, .nil, hreads, by simp⟩
  | comma _ ih => exact ih (hreads.separator rfl)
  | key name hrest => exact ⟨_, .key name hrest, hreads, by simp⟩
  | value v hrest =>
      refine ⟨_, .value v hrest, hreads, ?_⟩
      obtain ⟨l, more, hmore, hstarts⟩ := Document.exists_lexemes_cons v.isEmpty_value
      rw [hmore]
      rintro ⟨⟩
      cases hstarts.1
  | objectEnd hrest => exact ⟨_, .objectEnd hrest, hreads, by simp⟩
  | arrayEnd hrest => exact ⟨_, .arrayEnd hrest, hreads, by simp⟩

theorem next_nil (h : Sees r []) : r.next.1 = .end ∧ Sees r.next.2 [] := by
  obtain ⟨ls, hshows, hreads, hcomma⟩ := h.exists_reads
  cases hshows with
  | nil =>
      rw [hreads.next_nil]
      exact ⟨rfl, [], .nil, hreads.next_nil_reads⟩
  | comma => exact absurd rfl hcomma

theorem next (h : Sees r (piece :: pieces)) :
    report r.next.1 r.next.2 = pieceReport piece ∧ Sees r.next.2 (inside piece ++ pieces) := by
  obtain ⟨ls, hshows, hreads, hcomma⟩ := h.exists_reads
  have hcontainer {n : Nonterminal} {contents : Document n} {closes : Lexeme} {last : Piece}
      {rest : List Lexeme}
      (hlast : Piece.Shows (last :: pieces) (closes :: rest))
      (hnext : Reads r.next.2 ((contents.lexemes ++ [closes]) ++ rest)) :
      Sees r.next.2 ((contents.pieces ++ [last]) ++ pieces) := by
    rw [List.append_assoc, List.singleton_append] at hnext ⊢
    exact ⟨_, contents.shows_append hlast, hnext⟩
  cases hshows with
  | comma => exact absurd rfl hcomma
  | key name hrest =>
      exact ⟨hreads.report rfl, _, hrest, (hreads.next rfl).2.separator rfl⟩
  | objectEnd hrest => exact ⟨hreads.report rfl, _, hrest, (hreads.next rfl).2⟩
  | arrayEnd hrest => exact ⟨hreads.report rfl, _, hrest, (hreads.next rfl).2⟩
  | value v hrest =>
      have hcolon := isColon_of_noColon hrest.noColon
      cases v with
      | string content =>
          refine ⟨(hreads.report rfl).trans ?_, _, hrest, (hreads.next rfl).2⟩
          exact congrArg (fun colon => (tokenOf colon (.string content), content)) hcolon
      | number _ | bool _ | null =>
          exact ⟨hreads.report rfl, _, hrest, (hreads.next rfl).2⟩
      | object members =>
          exact ⟨hreads.report rfl, hcontainer (.objectEnd hrest) (hreads.next rfl).2⟩
      | array elements =>
          exact ⟨hreads.report rfl, hcontainer (.arrayEnd hrest) (hreads.next rfl).2⟩

theorem token (h : Sees r (piece :: pieces)) : r.next.1 = (pieceReport piece).1 :=
  congrArg Prod.fst h.next.1

theorem value (h : Sees r (piece :: pieces)) (hvalue : (pieceReport piece).1.hasValue = true) :
    r.next.2.value = (pieceReport piece).2 := by
  have hreport := congrArg Prod.snd h.next.1
  rwa [report, h.token, if_pos hvalue] at hreport

/-- A scalar is taken by one call of `next`. -/
theorem exists_next {v : Document .value} (h : Sees r (.value v :: pieces))
    (hv : isScalar v = true) :
    ∃ r', r.next = ((firstReport v).1, r') ∧ r'.value = (firstReport v).2 ∧ Sees r' pieces := by
  have hnext := h.next.2
  rw [inside_of_isScalar hv] at hnext
  exact ⟨r.next.2, Prod.ext h.token rfl, h.value (hasValue_of_isScalar hv), hnext⟩

theorem skipValue_of_not_start (h : ¬ (r.next.1 = .objectStart ∨ r.next.1 = .arrayStart)) :
    r.skipValue = r.next.2 := if_neg h

theorem skipValue_nil (h : Sees r []) : Sees r.skipValue [] := by
  obtain ⟨htoken, hsees⟩ := h.next_nil
  rw [skipValue_of_not_start (by simp [htoken])]
  exact hsees

/-- Whatever comes next is skipped. -/
theorem skipValue (h : Sees r (piece :: pieces)) : Sees r.skipValue pieces := by
  obtain ⟨ls, hshows, hreads, hcomma⟩ := h.exists_reads
  cases hshows with
  | comma => exact absurd rfl hcomma
  | value v hrest => exact ⟨_, hrest, hreads.skipValue v (isColon_of_noColon hrest.noColon)⟩
  | key _ _ | objectEnd _ | arrayEnd _ =>
      have hsees := h.next.2
      rwa [skipValue_of_not_start (by simp [h.token, pieceReport])]

end Sees

section Members
variable {σ : Type} {func : List UInt8 → σ → JsonReader → Bool × σ × JsonReader}
variable {step : List UInt8 → Document .value → σ → σ → Prop}

/-- A run over the members of an object, one step for each. -/
inductive Steps (step : List UInt8 → Document .value → σ → σ → Prop) :
    List (List UInt8 × Document .value) → σ → σ → Prop
  | nil (state : σ) : Steps step [] state state
  | cons {key : List UInt8} {v : Document .value} {state state' state'' : σ}
      {members : List (List UInt8 × Document .value)} (hstep : step key v state state')
      (hrest : Steps step members state' state'') : Steps step ((key, v) :: members) state state''

/-- What a callback does with a member: it makes a step, and takes the value or leaves it for
the loop to skip. -/
def StepsMember (func : List UInt8 → σ → JsonReader → Bool × σ × JsonReader)
    (step : List UInt8 → Document .value → σ → σ → Prop) (key : List UInt8)
    (v : Document .value) : Prop :=
  ∀ state r rest, Sees r (.value v :: rest) → ∃ taken state' r',
    func key state r = (taken, state', r') ∧ step key v state state' ∧
      Sees r' (if taken then rest else .value v :: rest)

theorem fieldLoop_end {fuel : Nat} {state : σ} {r : JsonReader}
    (h : r.next.1 = .objectEnd ∨ r.next.1 = .end) :
    fieldLoop func (fuel + 1) state r = (state, r.next.2) :=
  if_pos (h.imp_right .inl)

theorem fieldLoop_key {fuel : Nat} {state state' : σ} {r r' : JsonReader} {taken : Bool}
    (h : r.next.1 = .key) (hcall : func r.next.2.value state r.next.2 = (taken, state', r')) :
    fieldLoop func (fuel + 1) state r =
      fieldLoop func fuel state' (if taken then r' else r'.skipValue) := by
  have hstop : ¬ (r.next.1 = .objectEnd ∨ r.next.1 = .end ∨ r.next.1 = .error ∨
      r.next.1 = .needMoreData) := by
    rw [h]
    simp
  have hround : fieldLoop func (fuel + 1) state r =
      fieldLoop func fuel (func r.next.2.value state r.next.2).2.1
        (if (func r.next.2.value state r.next.2).1 then (func r.next.2.value state r.next.2).2.2
          else (func r.next.2.value state r.next.2).2.2.skipValue) :=
    (if_neg hstop).trans (if_pos h)
  rw [hround, hcall]

/-- By recursion over the members: the loop takes one after the other. -/
theorem fieldLoop_steps {fuel : Nat} {state : σ} {r : JsonReader} {rest : List Piece} :
    (members : Document .members) →
    (∀ member ∈ members.toMembers, StepsMember func step member.1 member.2) →
    Sees r (members.pieces ++ .objectEnd :: rest) →
    Piece.size (members.pieces ++ .objectEnd :: rest) < fuel →
    ∃ state' r', fieldLoop func fuel state r = (state', r') ∧ Sees r' rest ∧
      Steps step members.toMembers state state'
  | .noMembers, _, h, hfuel => by
      have hend : Sees r (.objectEnd :: rest) := h
      obtain ⟨fuel, rfl⟩ := Nat.exists_eq_add_one.mpr (Nat.zero_lt_of_lt hfuel)
      exact ⟨state, r.next.2, fieldLoop_end (.inl hend.token), hend.next.2,
        by rw [Document.toMembers]; exact .nil state⟩
  | .member key v more, hfunc, h, hfuel => by
      rw [Document.toMembers, List.forall_mem_cons] at hfunc
      have hkey : Sees r (.key key :: .value v :: (more.pieces ++ .objectEnd :: rest)) := h
      obtain ⟨fuel, rfl, hfuel'⟩ := @exists_fuel (.key key)
        (.value v :: (more.pieces ++ .objectEnd :: rest)) fuel hfuel
      have hsize : Piece.size (more.pieces ++ .objectEnd :: rest) < fuel :=
        Nat.lt_of_le_of_lt (Nat.le_add_left _ _) hfuel'
      obtain ⟨taken, state₁, r₁, hcall, hstep, hsees⟩ := hfunc.1 state r.next.2 _ hkey.next.2
      have hbehind : Sees (if taken then r₁ else r₁.skipValue)
          (more.pieces ++ .objectEnd :: rest) := by
        cases taken with
        | true => exact hsees
        | false => exact hsees.skipValue
      obtain ⟨state', r', hloop, hrest, hsteps⟩ :=
        fieldLoop_steps more hfunc.2 hbehind hsize
      refine ⟨state', r', ?_, hrest, by rw [Document.toMembers]; exact .cons hstep hsteps⟩
      have hvalue : r.next.2.value = key := hkey.value rfl
      exact (fieldLoop_key hkey.token (hvalue.symm ▸ hcall)).trans hloop

theorem forEachField_steps (state : σ) {r : JsonReader} {rest : List Piece}
    {members : Document .members}
    (hfunc : ∀ member ∈ members.toMembers, StepsMember func step member.1 member.2)
    (h : Sees r (members.pieces ++ .objectEnd :: rest)) :
    ∃ state' r', r.forEachField func state = (state', r') ∧ Sees r' rest ∧
      Steps step members.toMembers state state' :=
  fieldLoop_steps members hfunc h (Nat.lt_succ_of_le h.size_le)

end Members

/-- A text of a document, with white space anywhere around its lexemes. -/
structure IsText (json : List UInt8) (doc : Document .value) : Prop where
  exists_items : ∃ items trailing, items.map Spaced.lexeme = doc.lexemes ∧
    Spacing items trailing ∧ json = text items trailing
  wellFormed : ∀ l ∈ doc.lexemes, l.WellFormed

/-- The text without white space. -/
theorem isText_of_lexemes {json : List UInt8} {doc : Document .value}
    (hjson : json = text (doc.lexemes.map (Spaced.mk [])) [])
    (hwellFormed : ∀ l ∈ doc.lexemes, l.WellFormed) : IsText json doc := by
  refine ⟨⟨doc.lexemes.map (Spaced.mk []), [], ?_, ⟨by simp, by simp⟩, hjson⟩, hwellFormed⟩
  rw [List.map_map]
  exact List.map_id _

theorem IsText.sees {json : List UInt8} {doc : Document .value} (h : IsText json doc) :
    Sees (ofText json) [.value doc] := by
  obtain ⟨items, trailing, hitems, hspacing, rfl⟩ := h.exists_items
  have hreadable : ∀ l ∈ doc.lexemes, Readable l := fun l hl =>
    .of_wellFormed (h.wellFormed l hl)
  refine ⟨doc.lexemes, ?_, ⟨[], items, trailing, .inl rfl, hitems, ?_⟩, hreadable⟩
  · have hshows := Piece.Shows.value doc .nil
    rwa [List.append_nil] at hshows
  · refine at_ofText hspacing ?_ fun l hl => (hreadable l (hitems ▸ hl)).valid
    rw [hitems]
    exact doc.adjacent

end JsonReader

end Ebus
