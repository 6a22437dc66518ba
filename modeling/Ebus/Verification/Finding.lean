import Ebus.Verification.Navigation

/-!
# Searching an array

`find` calls its predicate in front of an element and, where that one fails, goes back to behind
the first token of the element. From there it skips a value as if there were more of the element:
the rest of an empty container, but the next element behind a scalar.
-/

namespace Ebus

open Json

namespace JsonReader

section Loop
variable {σ : Type} (pred : σ → JsonReader → Bool × σ × JsonReader)

/-- The predicate, with the readers that it is called with written down. -/
def logged (state : σ × List JsonReader) (r : JsonReader) :
    Bool × (σ × List JsonReader) × JsonReader :=
  let (found, next, after) := pred state.1 r
  (found, (next, state.2 ++ [r]), after)

/-- The readers that the loop calls the predicate with. -/
def calls (fuel : Nat) (state : σ) (r : JsonReader) : List JsonReader :=
  (findLoop (logged pred) fuel (state, []) r).2.1.2

/-- The reader back in front of a token that it took. -/
def rewound (r : JsonReader) : JsonReader := { r.next.2 with rest := r.rest }

/-- Where the loop goes on if the predicate fails. -/
def resumed (r after : JsonReader) : JsonReader :=
  ({ after with rest := r.next.2.rest : JsonReader }).skipValue

/-- The tokens that end the loop. -/
def Ends (token : Token) : Prop :=
  token = .arrayEnd ∨ token = .end ∨ token = .error ∨ token = .needMoreData

variable {fuel : Nat} {state : σ} {r : JsonReader} {pred}

theorem findLoop_of_ends (h : Ends r.next.1) :
    findLoop pred (fuel + 1) state r = (false, state, r.next.2) := if_pos h

theorem findLoop_of_found (h : ¬ Ends r.next.1) (hfound : (pred state (rewound r)).1 = true) :
    findLoop pred (fuel + 1) state r = (true, (pred state (rewound r)).2) :=
  (if_neg h).trans (if_pos hfound)

theorem findLoop_of_not_found (h : ¬ Ends r.next.1)
    (hfound : (pred state (rewound r)).1 = false) :
    findLoop pred (fuel + 1) state r =
      findLoop pred fuel (pred state (rewound r)).2.1
        (resumed r (pred state (rewound r)).2.2) :=
  (if_neg h).trans (if_neg (Bool.eq_false_iff.mp hfound))

/-- Writing down the calls changes nothing else. By induction on the fuel. -/
theorem findLoop_logged (log : List JsonReader) :
    findLoop (logged pred) fuel (state, log) r =
      ((findLoop pred fuel state r).1,
        ((findLoop pred fuel state r).2.1, log ++ calls pred fuel state r),
        (findLoop pred fuel state r).2.2) := by
  induction fuel generalizing state r log with
  | zero => simp [calls, findLoop]
  | succ fuel ih =>
      by_cases h : Ends r.next.1
      · rw [calls, findLoop_of_ends h, findLoop_of_ends h, findLoop_of_ends h, List.append_nil]
      · cases hfound : (pred state r.rewound).1 with
        | true =>
            have hlogged (log : List JsonReader) :
                (logged pred (state, log) r.rewound).1 = true := hfound
            rw [calls, findLoop_of_found h hfound, findLoop_of_found h (hlogged log),
              findLoop_of_found h (hlogged [])]
            rfl
        | false =>
            have hlogged (log : List JsonReader) :
                findLoop (logged pred) (fuel + 1) (state, log) r =
                  findLoop (logged pred) fuel ((pred state r.rewound).2.1, log ++ [r.rewound])
                    (resumed r (pred state r.rewound).2.2) := findLoop_of_not_found h hfound
            rw [calls, findLoop_of_not_found h hfound, hlogged, hlogged, ih, ih, List.nil_append,
              List.append_assoc]

theorem calls_of_ends (h : Ends r.next.1) : calls pred (fuel + 1) state r = [] := by
  rw [calls, findLoop_of_ends h]

theorem calls_of_found (h : ¬ Ends r.next.1) (hfound : (pred state (rewound r)).1 = true) :
    calls pred (fuel + 1) state r = [rewound r] := by
  have hlogged : (logged pred (state, []) r.rewound).1 = true := hfound
  rw [calls, findLoop_of_found h hlogged]
  rfl

theorem calls_of_not_found (h : ¬ Ends r.next.1) (hfound : (pred state (rewound r)).1 = false) :
    calls pred (fuel + 1) state r =
      rewound r :: calls pred fuel (pred state (rewound r)).2.1
        (resumed r (pred state (rewound r)).2.2) := by
  have hlogged : findLoop (logged pred) (fuel + 1) (state, []) r =
      findLoop (logged pred) fuel ((pred state r.rewound).2.1, [r.rewound])
        (resumed r (pred state r.rewound).2.2) := findLoop_of_not_found h hfound
  rw [calls, hlogged, findLoop_logged, List.singleton_append]

theorem exists_calls (h : ¬ Ends r.next.1) :
    ∃ readers, calls pred (fuel + 1) state r = rewound r :: readers := by
  cases hfound : (pred state r.rewound).1 with
  | true => exact ⟨[], calls_of_found h hfound⟩
  | false => exact ⟨_, calls_of_not_found h hfound⟩

end Loop

namespace Sees

variable {r : JsonReader} {piece : Piece} {pieces : List Piece}

theorem rewound (h : Sees r pieces) : Sees r.rewound pieces := by
  cases pieces with
  | nil =>
      have hwhole := h.next_nil.2.whole
      exact h.congr ⟨hwhole.ended, hwhole.outside, hwhole.depth⟩ rfl
  | cons piece pieces =>
      have hwhole := h.next.2.whole
      exact h.congr ⟨hwhole.ended, hwhole.outside, hwhole.depth⟩ rfl

theorem skipValue_tail (h : Sees r pieces) : Sees r.skipValue pieces.tail := by
  cases pieces with
  | nil => exact h.skipValue_nil
  | cons piece pieces => exact h.skipValue

/-- The loop skips what is next behind the first token of the element. -/
theorem resumed {after : JsonReader} (h : Sees r (piece :: pieces)) (hafter : Whole after) :
    Sees (resumed r after) (inside piece ++ pieces).tail := by
  refine skipValue_tail (h.next.2.congr ?_ rfl)
  exact ⟨hafter.ended, hafter.outside, hafter.depth⟩

theorem ends_nil (h : Sees r []) : Ends r.next.1 := .inr (.inl h.next_nil.1)

theorem ends_iff (h : Sees r (piece :: pieces)) : Ends r.next.1 ↔ piece = .arrayEnd := by
  rw [h.token, Ends]
  cases piece with
  | value v => cases v <;> simp [pieceReport, firstReport]
  | _ => simp [pieceReport]

end Sees

section Claimed
variable (sat : Document .value → Bool)

/-- The verdict is that of `sat` on the element in front of the predicate. How much of the element
the predicate takes does not matter. -/
structure ElementPredicate {σ : Type} (pred : σ → JsonReader → Bool × σ × JsonReader) : Prop where
  verdict : ∀ state r v rest, Sees r (.value v :: rest) → (pred state r).1 = sat v
  keeps : ∀ state r v rest, Sees r (.value v :: rest) → Whole (pred state r).2.2

/-- What lies ahead at each call: an element and all that is behind it, up to the first element
that satisfies the predicate. -/
def tested (behind : List Piece) : List (Document .value) → List (List Piece)
  | [] => []
  | v :: vs => (.value v :: (vs.map .value ++ behind)) :: if sat v then [] else tested behind vs

/-- The elements are tested in order, once each; the search succeeds if one of them satisfies the
predicate, and otherwise it ends behind the array. -/
structure Tests (behind : List Piece) (elements : List (Document .value))
    (readers : List JsonReader) (found : Bool) (after : JsonReader) : Prop where
  inOrder : List.Forall₂ Sees readers (tested sat (.arrayEnd :: behind) elements)
  found_iff : found = true ↔ ∃ v ∈ elements, sat v = true
  consumed : found = false → Sees after behind

def FindTests {σ : Type} (pred : σ → JsonReader → Bool × σ × JsonReader) (state : σ)
    (r : JsonReader) (elements : Document .elements) (behind : List Piece) : Prop :=
  Tests sat behind elements.toElements (r.find (logged pred) (state, [])).2.1.2
    (r.find pred state).1 (r.find pred state).2.2

def isEmptyContainer : Document .value → Bool
  | .object .noMembers | .array .noElements => true
  | _ => false

/-- The elements in front of the first one that satisfies the predicate are empty containers, a
scalar at the end of the array and of the text aside. -/
def Passes (behind : List Piece) : List (Document .value) → Prop
  | [] => True
  | v :: vs => sat v = true ∨ (isEmptyContainer v = true ∧ Passes behind vs) ∨
      (isScalar v = true ∧ vs = [] ∧ behind = [])

end Claimed

/-- How a value goes on behind its first token. -/
theorem inside_cases (v : Document .value) :
    (isScalar v = true ∧ isEmptyContainer v = false ∧ inside (.value v) = []) ∨
    (isScalar v = false ∧ isEmptyContainer v = true ∧ ∃ last, inside (.value v) = [last]) ∨
    (isScalar v = false ∧ isEmptyContainer v = false ∧
      ∃ first second rest, inside (.value v) = first :: second :: rest) := by
  cases v with
  | object members =>
      cases members with
      | noMembers => exact .inr (.inl ⟨rfl, rfl, .objectEnd, rfl⟩)
      | member key value rest => exact .inr (.inr ⟨rfl, rfl, _, _, _, rfl⟩)
  | array elements =>
      cases elements with
      | noElements => exact .inr (.inl ⟨rfl, rfl, .arrayEnd, rfl⟩)
      | element value rest =>
          refine .inr (.inr ⟨rfl, rfl, .value value, ?_⟩)
          cases rest with
          | noElements => exact ⟨_, _, rfl⟩
          | element _ _ => exact ⟨_, _, rfl⟩
  | _ => exact .inl ⟨rfl, rfl, rfl⟩

section Run
variable {σ : Type} {pred : σ → JsonReader → Bool × σ × JsonReader}
variable {sat : Document .value → Bool} {behind pieces : List Piece}
variable {v : Document .value} {vs : List (Document .value)}
variable {fuel : Nat} {state : σ} {r after : JsonReader}

/-- A first call in front of an element that fails, and the calls behind it. -/
theorem tests_cons {readers : List JsonReader} {found : Bool} (hsat : sat v = false)
    (h : Sees r (.value v :: (vs.map .value ++ .arrayEnd :: behind))) :
    Tests sat behind (v :: vs) (r :: readers) found after ↔
      Tests sat behind vs readers found after := by
  have hsat' : ¬ sat v = true := by simp [hsat]
  have hexists : (∃ w ∈ v :: vs, sat w = true) ↔ ∃ w ∈ vs, sat w = true := by simp [hsat]
  constructor
  · rintro ⟨hcalls, hfound, hconsumed⟩
    rw [tested, if_neg hsat', List.forall₂_cons] at hcalls
    exact ⟨hcalls.2, hfound.trans hexists, hconsumed⟩
  · rintro ⟨hcalls, hfound, hconsumed⟩
    refine ⟨?_, hfound.trans hexists.symm, hconsumed⟩
    rw [tested, if_neg hsat']
    exact .cons h hcalls

/-- A loop that tests the elements has them ahead, unless nothing at all is ahead. -/
theorem pieces_of_tests (h : Sees r pieces) (hfuel : Piece.size pieces < fuel)
    (htests : Tests sat behind vs (calls pred fuel state r) (findLoop pred fuel state r).1
      (findLoop pred fuel state r).2.2) :
    pieces = vs.map .value ++ .arrayEnd :: behind ∨ (pieces = [] ∧ vs = [] ∧ behind = []) := by
  obtain ⟨fuel, rfl⟩ := Nat.exists_eq_add_one.mpr (Nat.zero_lt_of_lt hfuel)
  have hended (hends : Ends r.next.1) : vs = [] ∧ Sees r.next.2 behind := by
    obtain ⟨hcalls, -, hconsumed⟩ := htests
    rw [calls_of_ends hends] at hcalls
    rw [findLoop_of_ends hends] at hconsumed
    refine ⟨?_, hconsumed rfl⟩
    cases vs with
    | nil => rfl
    | cons v vs => cases hcalls
  cases pieces with
  | nil =>
      obtain ⟨hvs, hbehind⟩ := hended h.ends_nil
      exact .inr ⟨rfl, hvs, hbehind.unique h.next_nil.2⟩
  | cons piece pieces =>
      by_cases hpiece : piece = .arrayEnd
      · obtain ⟨rfl, hbehind⟩ := hended (h.ends_iff.mpr hpiece)
        subst hpiece
        exact .inl (congrArg (Piece.arrayEnd :: ·) (h.next.2.unique hbehind))
      · have hcalls := htests.inOrder
        obtain ⟨readers, hreaders⟩ := exists_calls (mt h.ends_iff.mp hpiece)
        rw [hreaders] at hcalls
        cases vs with
        | nil => cases hcalls
        | cons v vs =>
            rw [tested, List.forall₂_cons] at hcalls
            exact .inl (h.rewound.unique hcalls.1)

/-- By induction on the elements. Behind one that fails the loop goes on with what is left of an
empty container, or with what should have been tested. -/
theorem findLoop_tests_iff (hpred : ElementPredicate sat pred)
    (h : Sees r (vs.map .value ++ .arrayEnd :: behind))
    (hfuel : Piece.size (vs.map .value ++ .arrayEnd :: behind) < fuel) :
    Tests sat behind vs (calls pred fuel state r) (findLoop pred fuel state r).1
      (findLoop pred fuel state r).2.2 ↔ Passes sat behind vs := by
  induction vs generalizing fuel state r with
  | nil =>
      obtain ⟨fuel, rfl⟩ := Nat.exists_eq_add_one.mpr (Nat.zero_lt_of_lt hfuel)
      have hends := h.ends_iff.mpr rfl
      rw [calls_of_ends hends, findLoop_of_ends hends]
      exact iff_of_true ⟨.nil, by simp, fun _ => h.next.2⟩ trivial
  | cons v vs ih =>
      rw [List.map_cons, List.cons_append] at h hfuel
      obtain ⟨fuel, rfl, hfuel'⟩ := exists_fuel hfuel
      have hends : ¬ Ends r.next.1 := mt h.ends_iff.mp (by simp)
      have hverdict := hpred.verdict state _ _ _ h.rewound
      rw [Passes]
      cases hsat : sat v with
      | true =>
          rw [hsat] at hverdict
          rw [calls_of_found hends hverdict, findLoop_of_found hends hverdict]
          refine iff_of_true ⟨?_, by simp [hsat], nofun⟩ (.inl rfl)
          rw [tested, if_pos hsat]
          exact .cons h.rewound .nil
      | false =>
          have hresumed := h.resumed (hpred.keeps state _ _ _ h.rewound)
          rw [hsat] at hverdict
          rw [calls_of_not_found hends hverdict, findLoop_of_not_found hends hverdict,
            tests_cons hsat h.rewound]
          obtain ⟨hscalar, hempty, hinside⟩ | ⟨hscalar, hempty, last, hinside⟩ |
            ⟨hscalar, hempty, first, second, rest, hinside⟩ := inside_cases v
          · rw [hinside, List.nil_append] at hresumed hfuel'
            have htail := Nat.lt_of_le_of_lt (Piece.size_tail_le _) hfuel'
            simp only [hscalar, hempty, Bool.false_eq_true, false_and, false_or, true_and]
            constructor
            · intro htests
              obtain heq | ⟨-, hnil⟩ := pieces_of_tests hresumed htail htests
              · have hlength := congrArg List.length heq
                simp at hlength
              · exact hnil
            · rintro ⟨rfl, rfl⟩
              obtain ⟨fuel, rfl⟩ := Nat.exists_eq_add_one.mpr (Nat.zero_lt_of_lt hfuel')
              have hends : Ends (resumed r (pred state (rewound r)).2.2).next.1 :=
                hresumed.ends_nil
              rw [calls_of_ends hends, findLoop_of_ends hends]
              exact ⟨.nil, by simp, fun _ => hresumed.next_nil.2⟩
          · rw [hinside, List.singleton_append] at hresumed hfuel'
            have htail := Nat.lt_of_le_of_lt (Piece.size_tail_le _) hfuel'
            simp only [hscalar, hempty, Bool.false_eq_true, false_and, false_or, true_and,
              or_false]
            exact ih hresumed htail
          · rw [hinside, List.cons_append, List.cons_append] at hresumed hfuel'
            have htail := Nat.lt_of_le_of_lt (Piece.size_tail_le _) hfuel'
            simp only [hscalar, hempty, Bool.false_eq_true, false_and, or_false, iff_false]
            intro htests
            obtain heq | ⟨hnil, -⟩ := pieces_of_tests hresumed htail htests
            · have hlength := congrArg List.length heq
              simp at hlength
              omega
            · cases hnil

end Run

/-- `find` tests each element once exactly if it goes past the elements that fail. -/
theorem findTests_iff {σ : Type} {pred : σ → JsonReader → Bool × σ × JsonReader}
    {sat : Document .value → Bool} (hpred : ElementPredicate sat pred) (state : σ)
    {r : JsonReader} {elements : Document .elements} {behind : List Piece}
    (h : Sees r (elements.pieces ++ .arrayEnd :: behind)) :
    FindTests sat pred state r elements behind ↔ Passes sat behind elements.toElements := by
  rw [elements.pieces_elements] at h
  exact findLoop_tests_iff hpred h (Nat.lt_succ_of_le h.size_le)

/-- The predicate that a value is this number or this keyword, for the examples. -/
def isFirst (token : Token) (value : List UInt8) (state : Unit) (r : JsonReader) :
    Bool × Unit × JsonReader :=
  (report r.next.1 r.next.2 = (token, value), state, r.next.2)

theorem elementPredicate_isFirst (token : Token) (value : List UInt8) :
    ElementPredicate (fun v => firstReport v = (token, value)) (isFirst token value) := by
  refine ⟨fun state r v rest h => ?_, fun state r v rest h => h.next.2.whole⟩
  rw [isFirst, h.next.1]
  rfl

/-- The reader of `[1,2]` behind the bracket that opens it. -/
theorem sees_behind_start {json : List UInt8} {elements : Document .elements}
    (h : IsText json (.array elements)) :
    Sees (ofText json).next.2 (elements.pieces ++ .arrayEnd :: []) := by
  have hnext := h.sees.next.2
  rwa [inside, List.append_nil] at hnext

/-- Empty containers, a string and a nested array. -/
def severalElements : Document .elements :=
  .element (.array .noElements) <|
  .element (.object .noMembers) <|
  .element (.string [0x61]) <|
  .element (.array <| .element (.number [0x31]) <|
    .element (.array <| .element .null .noElements) .noElements) .noElements

def severalElementsText : List UInt8 := Chars.ofString "[[],\x7b\x7d,\"a\",[1,[null]]]"

theorem isText_severalElements : IsText severalElementsText (.array severalElements) := by
  refine isText_of_lexemes (by decide) ?_
  simp only [severalElements, Document.lexemes, Document.isEmpty, if_true, Bool.false_eq_true,
    if_false, List.append_nil, List.nil_append, List.cons_append, List.forall_mem_cons]
  exact ⟨trivial, trivial, trivial, trivial, trivial, trivial, trivial,
    .char (by decide) (by decide) (by decide) .nil, trivial, trivial, numberText_digit (by decide),
    trivial, trivial, trivial, trivial, trivial, trivial, List.forall_mem_nil _⟩

/-- The string is found behind the empty containers; a search for `null` goes past the string and
loses the array. -/
theorem findTests_iff_several :
    (ElementPredicate (fun v => firstReport v = (.string, [0x61])) (isFirst .string [0x61]) ∧
      Sees (ofText severalElementsText).next.2 (severalElements.pieces ++ .arrayEnd :: []) ∧
      Passes (fun v => firstReport v = (.string, [0x61])) [] severalElements.toElements ∧
      FindTests (fun v => firstReport v = (.string, [0x61])) (isFirst .string [0x61]) ()
        (ofText severalElementsText).next.2 severalElements []) ∧
    ¬ Passes (fun v => firstReport v = (.null, Lexeme.nullText)) [] severalElements.toElements ∧
      ¬ FindTests (fun v => firstReport v = (.null, Lexeme.nullText))
        (isFirst .null Lexeme.nullText) () (ofText severalElementsText).next.2
        severalElements [] := by
  have hsees := sees_behind_start isText_severalElements
  have hstring := elementPredicate_isFirst .string [0x61]
  have hnull := elementPredicate_isFirst .null Lexeme.nullText
  have hpasses : Passes (fun v => firstReport v = (.string, [0x61])) []
      severalElements.toElements := by
    simp only [severalElements, Document.toElements]
    exact .inr (.inl ⟨rfl, .inr (.inl ⟨rfl, .inl (by decide)⟩)⟩)
  have hnot : ¬ Passes (fun v => firstReport v = (.null, Lexeme.nullText)) []
      severalElements.toElements := by
    simp [severalElements, Document.toElements, Passes, isEmptyContainer, firstReport]
  exact ⟨⟨hstring, hsees, hpasses, (findTests_iff hstring () hsees).mpr hpasses⟩, hnot,
    fun htests => hnot ((findTests_iff hnull () hsees).mp htests)⟩

/-- In `[1,2]` the second element is never tested. -/
theorem not_findTests :
    ¬ ∀ (sat : Document .value → Bool) (pred : Unit → JsonReader → Bool × Unit × JsonReader)
      (r : JsonReader) (elements : Document .elements) (behind : List Piece),
      ElementPredicate sat pred → Sees r (elements.pieces ++ .arrayEnd :: behind) →
        FindTests sat pred () r elements behind := by
  intro h
  have htext : IsText [0x5b, 0x31, 0x2c, 0x32, 0x5d]
      (.array (.element (.number [0x31]) (.element (.number [0x32]) .noElements))) := by
    refine isText_of_lexemes rfl ?_
    simp only [Document.lexemes, Document.isEmpty, if_true, Bool.false_eq_true, if_false,
      List.append_nil, List.nil_append, List.cons_append, List.forall_mem_cons]
    exact ⟨trivial, numberText_digit (by decide), trivial, numberText_digit (by decide), trivial,
      List.forall_mem_nil _⟩
  have htests := h _ _ _ _ _ (elementPredicate_isFirst .number [0x32]) (sees_behind_start htext)
  have hfound := htests.found_iff.mpr ⟨.number [0x32], by simp [Document.toElements], by decide⟩
  have hfind : ((ofText [0x5b, 0x31, 0x2c, 0x32, 0x5d]).next.2.find
      (isFirst .number [0x32]) ()).1 = false := by decide
  rw [hfind] at hfound
  cases hfound

end JsonReader

end Ebus
