import Ebus.Verification.Pieces

/-!
# Search by path

`get` walks over the pieces of a text. In an object it looks for a key up to the bracket that
closes the object; in an array it skips as many pieces as the index says, and does not see where
the array ends. `reach` is this walk on documents (`get_reaches`). An index that is too large
leads out of the array, to whatever stands there: `Strays` says when it finds something.
-/

namespace Ebus

open Json

namespace JsonReader

variable {index : List UInt8 → Option Nat} {segment : List UInt8} {path : List (List UInt8)}
  {behind : List Piece}

/-- The piece that one segment leads to, and the pieces behind it. -/
def seek (index : List UInt8 → Option Nat) (segment : List UInt8) (behind : List Piece) :
    Document .value → Option (Piece × List Piece)
  | .array elements =>
      (index segment).bind fun i =>
        match (elements.pieces ++ .arrayEnd :: behind).drop i with
        | [] | .arrayEnd :: _ => none
        | piece :: rest => some (piece, rest)
  | v => (v.place index segment behind).map fun (u, rest) => (.value u, rest)

/-- The piece that a path leads to. -/
def reach (index : List UInt8 → Option Nat) : List (List UInt8) → Piece → List Piece → Option Piece
  | [], piece, _ => some piece
  | segment :: path, .value v, behind =>
      (seek index segment behind v).bind fun (piece, rest) => reach index path piece rest
  | _ :: _, _, _ => none

/-- The path leaves an array at its end and finds something behind it. -/
inductive Strays (index : List UInt8 → Option Nat) :
    List (List UInt8) → Document .value → List Piece → Prop
  /-- Further down the path. -/
  | child {segment : List UInt8} {path : List (List UInt8)} {v u : Document .value}
      {behind rest : List Piece} (hplace : v.place index segment behind = some (u, rest))
      (h : Strays index path u rest) : Strays index (segment :: path) v behind
  /-- The last index is larger than the array is long, and leads to a key or a brace. -/
  | token {segment : List UInt8} {elements : Document .elements} {behind rest : List Piece}
      {i : Nat} {piece : Piece} (hindex : index segment = some i)
      (hlength : elements.toElements.length < i)
      (hpiece : behind.drop (i - elements.toElements.length - 1) = piece :: rest)
      (htoken : piece = .objectEnd ∨ ∃ name, piece = .key name) :
      Strays index [segment] (.array elements) behind
  /-- An index is larger than the array is long, and leads to a value in which the rest of the path
  finds something. -/
  | value {segment : List UInt8} {path : List (List UInt8)} {elements : Document .elements}
      {behind rest : List Piece} {i : Nat} {u : Document .value}
      (hindex : index segment = some i) (hlength : elements.toElements.length < i)
      (hpiece : behind.drop (i - elements.toElements.length - 1) = .value u :: rest)
      (hpath : u.follow index path ≠ none) : Strays index (segment :: path) (.array elements) behind
  /-- The same, and the rest of the path strays again. -/
  | again {segment : List UInt8} {path : List (List UInt8)} {elements : Document .elements}
      {behind rest : List Piece} {i : Nat} {u : Document .value}
      (hindex : index segment = some i) (hlength : elements.toElements.length < i)
      (hpiece : behind.drop (i - elements.toElements.length - 1) = .value u :: rest)
      (hpath : Strays index path u rest) : Strays index (segment :: path) (.array elements) behind

/-- Inside of the array. -/
theorem seek_of_place {v u : Document .value} {rest : List Piece}
    (h : v.place index segment behind = some (u, rest)) :
    seek index segment behind v = some (.value u, rest) := by
  cases v with
  | array elements =>
      obtain ⟨i, hindex, hmap⟩ := Option.bind_eq_some_iff.mp h
      obtain ⟨u', hu, heq⟩ := Option.map_eq_some_iff.mp hmap
      obtain ⟨rfl, rfl⟩ := Prod.mk.inj heq
      obtain ⟨hi, rfl⟩ := List.getElem?_eq_some_iff.mp hu
      have hdrop : (elements.pieces ++ .arrayEnd :: behind).drop i =
          .value elements.toElements[i] ::
            ((elements.toElements.drop (i + 1)).map .value ++ .arrayEnd :: behind) := by
        rw [Document.pieces_elements, List.drop_append_of_le_length (by simpa using hi.le),
          ← List.map_drop, List.drop_eq_getElem_cons hi]
        rfl
      rw [seek, hindex, Option.bind_some, hdrop]
  | _ =>
      rw [seek, h]
      · rfl
      · simp

/-- Behind the array. -/
theorem seek_beyond {elements : Document .elements} {i : Nat} (hindex : index segment = some i)
    (hlength : elements.toElements.length < i) :
    seek index segment behind (.array elements) =
      match behind.drop (i - elements.toElements.length - 1) with
      | [] | .arrayEnd :: _ => none
      | piece :: rest => some (piece, rest) := by
  obtain ⟨k, rfl⟩ := Nat.exists_eq_add_of_lt hlength
  have hpieces : elements.pieces.length = elements.toElements.length := by
    rw [Document.pieces_elements, List.length_map]
  have hdrop : (elements.pieces ++ .arrayEnd :: behind).drop
      (elements.toElements.length + k + 1) = behind.drop k := by
    rw [← hpieces, Nat.add_assoc, List.drop_append, List.drop_eq_nil_of_le (by omega)]
    simp
  have hk : elements.toElements.length + k + 1 - elements.toElements.length - 1 = k := by omega
  rw [seek, hindex, Option.bind_some, hdrop, hk]

theorem seek_of_place_none {v : Document .value} (h : v.place index segment behind = none) :
    seek index segment behind v = none ∨
    ∃ elements i, v = .array elements ∧ index segment = some i ∧
      elements.toElements.length < i := by
  cases v with
  | array elements =>
      cases hindex : index segment with
      | none =>
          refine .inl ?_
          rw [seek, hindex]
          rfl
      | some i =>
          have hi : elements.toElements.length ≤ i := by
            rw [Document.place, hindex, Option.bind_some, Option.map_eq_none_iff] at h
            exact List.getElem?_eq_none_iff.mp h
          obtain rfl | hlt := hi.eq_or_lt
          · have hlength : elements.pieces.length = elements.toElements.length := by
              rw [Document.pieces_elements, List.length_map]
            refine .inl ?_
            rw [seek, hindex, Option.bind_some, ← hlength, List.drop_left]
          · exact .inr ⟨elements, i, rfl, rfl, hlt⟩
  | _ =>
      refine .inl ?_
      rw [seek, h]
      · rfl
      · simp

theorem length_of_place {elements : Document .elements} {u : Document .value} {rest : List Piece}
    {i : Nat} (h : (Document.array elements).place index segment behind = some (u, rest))
    (hindex : index segment = some i) : i < elements.toElements.length := by
  rw [Document.place, hindex, Option.bind_some] at h
  obtain ⟨u', hu, -⟩ := Option.map_eq_some_iff.mp h
  exact (List.getElem?_eq_some_iff.mp hu).1

/-- A path that stays in its containers goes on with the rest of the path. -/
theorem strays_of_place {v u : Document .value} {rest : List Piece}
    (h : v.place index segment behind = some (u, rest)) :
    Strays index (segment :: path) v behind ↔ Strays index path u rest := by
  constructor
  · intro hstrays
    cases hstrays with
    | child hplace hrest =>
        obtain ⟨rfl, rfl⟩ := Prod.mk.inj (Option.some.inj (hplace.symm.trans h))
        exact hrest
    | token hindex hlength | value hindex hlength | again hindex hlength =>
        exact absurd (length_of_place h hindex) (Nat.lt_asymm hlength)
  · exact .child h

/-- What an index beyond the array finds. -/
theorem strays_beyond {elements : Document .elements} {i : Nat} (hindex : index segment = some i)
    (hlength : elements.toElements.length < i) :
    Strays index (segment :: path) (.array elements) behind ↔
      ∃ piece rest, behind.drop (i - elements.toElements.length - 1) = piece :: rest ∧
        (path = [] ∧ (piece = .objectEnd ∨ ∃ name, piece = .key name) ∨
          ∃ u, piece = .value u ∧ (u.follow index path ≠ none ∨ Strays index path u rest)) := by
  constructor
  · intro hstrays
    cases hstrays with
    | child hplace => exact absurd (length_of_place hplace hindex) (Nat.lt_asymm hlength)
    | token hindex' _ hpiece htoken =>
        obtain rfl := Option.some.inj (hindex.symm.trans hindex')
        exact ⟨_, _, hpiece, .inl ⟨rfl, htoken⟩⟩
    | value hindex' _ hpiece hpath =>
        obtain rfl := Option.some.inj (hindex.symm.trans hindex')
        exact ⟨_, _, hpiece, .inr ⟨_, rfl, .inl hpath⟩⟩
    | again hindex' _ hpiece hpath =>
        obtain rfl := Option.some.inj (hindex.symm.trans hindex')
        exact ⟨_, _, hpiece, .inr ⟨_, rfl, .inr hpath⟩⟩
  · rintro ⟨piece, rest, hpiece, ⟨rfl, htoken⟩ | ⟨u, rfl, hpath | hpath⟩⟩
    · exact .token hindex hlength hpiece htoken
    · exact .value hindex hlength hpiece hpath
    · exact .again hindex hlength hpiece hpath

/-- A path does not stray where a segment leads to nothing at all. -/
theorem not_strays_of_seek {v : Document .value} (hplace : v.place index segment behind = none)
    (h : seek index segment behind v = none) : ¬ Strays index (segment :: path) v behind := by
  have hbeyond {elements : Document .elements} {i : Nat} {piece : Piece} {rest : List Piece}
      (hindex : index segment = some i) (hlength : elements.toElements.length < i)
      (hpiece : behind.drop (i - elements.toElements.length - 1) = piece :: rest)
      (hend : piece ≠ .arrayEnd) : seek index segment behind (.array elements) ≠ none := by
    rw [seek_beyond hindex hlength, hpiece]
    cases piece with
    | arrayEnd => exact absurd rfl hend
    | _ => simp
  intro hstrays
  cases hstrays with
  | child hfound =>
      rw [hplace] at hfound
      cases hfound
  | token hindex hlength hpiece htoken =>
      refine hbeyond hindex hlength hpiece ?_ h
      obtain rfl | ⟨name, rfl⟩ := htoken <;> simp
  | value hindex hlength hpiece | again hindex hlength hpiece =>
      exact hbeyond hindex hlength hpiece (by simp) h

theorem follow_cons (v : Document .value) :
    v.follow index (segment :: path) =
      (v.child index segment).bind fun u => u.follow index path := rfl

/-- A value that the path leads to is found. By induction on the path. -/
theorem reach_of_follow {v u : Document .value} (h : v.follow index path = some u) :
    reach index path (.value v) behind = some (.value u) ∧ ¬ Strays index path v behind := by
  induction path generalizing v behind with
  | nil =>
      obtain rfl : v = u := Option.some.inj h
      exact ⟨rfl, nofun⟩
  | cons segment path ih =>
      rw [follow_cons, ← v.place_eq index segment behind] at h
      obtain ⟨w, hw, hfollow⟩ := Option.bind_eq_some_iff.mp h
      obtain ⟨⟨w', rest⟩, hplace, rfl⟩ := Option.map_eq_some_iff.mp hw
      rw [reach, seek_of_place hplace, strays_of_place hplace]
      exact ih hfollow

/-- A path that leads to no value finds something if it strays. By induction on the path. -/
theorem reach_of_follow_none {v : Document .value} (h : v.follow index path = none) :
    reach index path (.value v) behind ≠ none ↔ Strays index path v behind := by
  induction path generalizing v behind with
  | nil => cases h
  | cons segment path ih =>
      rw [follow_cons, ← v.place_eq index segment behind] at h
      rw [reach]
      cases hplace : v.place index segment behind with
      | some found =>
          obtain ⟨u, rest⟩ := found
          rw [hplace] at h
          rw [seek_of_place hplace, strays_of_place hplace]
          exact ih h
      | none =>
          obtain hseek | ⟨elements, i, rfl, hindex, hlength⟩ := seek_of_place_none hplace
          · rw [hseek]
            exact iff_of_false (by simp) (not_strays_of_seek hplace hseek)
          · rw [strays_beyond hindex hlength, seek_beyond hindex hlength]
            cases behind.drop (i - elements.toElements.length - 1) with
            | nil => simp
            | cons piece rest =>
                cases piece with
                | arrayEnd => simp
                | key name | objectEnd => cases path <;> simp [reach]
                | value u =>
                    rw [Option.bind_some]
                    cases hfollow : u.follow index path with
                    | some w => simp [(reach_of_follow hfollow).1, hfollow]
                    | none => simpa [hfollow] using ih hfollow

section Text
variable {r : JsonReader} {targetKey : List UInt8} {pieces : List Piece} {fuel depth : Nat}

theorem findKeyLoop_start (htoken : r.next.1 = .objectStart ∨ r.next.1 = .arrayStart) :
    findKeyLoop targetKey (fuel + 1) depth r = findKeyLoop targetKey fuel (depth + 1) r.next.2 := by
  rw [findKeyLoop]
  obtain htoken | htoken := htoken <;> simp [htoken]

theorem findKeyLoop_end (htoken : r.next.1 = .objectEnd ∨ r.next.1 = .arrayEnd) :
    findKeyLoop targetKey (fuel + 1) (depth + 1) r = findKeyLoop targetKey fuel depth r.next.2 := by
  rw [findKeyLoop]
  obtain htoken | htoken := htoken <;> simp [htoken]

theorem findKeyLoop_other (htoken : r.next.1 = .string ∨ r.next.1 = .number ∨
    r.next.1 = .boolean ∨ r.next.1 = .null ∨
    r.next.1 = .key ∧ ¬ (depth = 0 ∧ r.next.2.value = targetKey)) :
    findKeyLoop targetKey (fuel + 1) depth r = findKeyLoop targetKey fuel depth r.next.2 := by
  rw [findKeyLoop]
  obtain htoken | htoken | htoken | htoken | ⟨htoken, hkey⟩ := htoken
  · simp [htoken]
  · simp [htoken]
  · simp [htoken]
  · simp [htoken]
  · simp [htoken, hkey]

/-- The loop goes over a document that it does not look for a key in. By induction on the
document. -/
theorem findKeyLoop_document {n : Nonterminal} (doc : Document n)
    (hdepth : n = .members → 0 < depth) (h : Sees r (doc.pieces ++ pieces))
    (hfuel : Piece.size (doc.pieces ++ pieces) < fuel) :
    ∃ fuel' r', Piece.size pieces < fuel' ∧ Sees r' pieces ∧
      findKeyLoop targetKey fuel depth r = findKeyLoop targetKey fuel' depth r' := by
  have hscalar {r : JsonReader} {v : Document .value} {pieces : List Piece} {fuel depth : Nat}
      (h : Sees r (.value v :: pieces)) (hfuel : Piece.size (.value v :: pieces) < fuel)
      (hinside : inside (.value v) = [])
      (htoken : (firstReport v).1 = .string ∨ (firstReport v).1 = .number ∨
        (firstReport v).1 = .boolean ∨ (firstReport v).1 = .null) :
      ∃ fuel' r', Piece.size pieces < fuel' ∧ Sees r' pieces ∧
        findKeyLoop targetKey fuel depth r = findKeyLoop targetKey fuel' depth r' := by
    obtain ⟨fuel', rfl, hfuel'⟩ := exists_fuel hfuel
    have hnext := h.next.2
    rw [hinside, List.nil_append] at hfuel' hnext
    refine ⟨fuel', r.next.2, hfuel', hnext, findKeyLoop_other ?_⟩
    rw [h.token]
    obtain htoken | htoken | htoken | htoken := htoken
    · exact .inl htoken
    · exact .inr (.inl htoken)
    · exact .inr (.inr (.inl htoken))
    · exact .inr (.inr (.inr (.inl htoken)))
  have hcontainer {n : Nonterminal} {contents : Document n} {v : Document .value} {last : Piece}
      {r : JsonReader} {pieces : List Piece} {fuel depth : Nat}
      (h : Sees r (.value v :: pieces)) (hfuel : Piece.size (.value v :: pieces) < fuel)
      (hinside : inside (.value v) = contents.pieces ++ [last])
      (hstart : (firstReport v).1 = .objectStart ∨ (firstReport v).1 = .arrayStart)
      (hend : (pieceReport last).1 = .objectEnd ∨ (pieceReport last).1 = .arrayEnd)
      (hlast : inside last = [])
      (ih : ∀ {r : JsonReader} {fuel : Nat}, Sees r (contents.pieces ++ (last :: pieces)) →
        Piece.size (contents.pieces ++ (last :: pieces)) < fuel →
        ∃ fuel' r', Piece.size (last :: pieces) < fuel' ∧ Sees r' (last :: pieces) ∧
          findKeyLoop targetKey fuel (depth + 1) r =
            findKeyLoop targetKey fuel' (depth + 1) r') :
      ∃ fuel' r', Piece.size pieces < fuel' ∧ Sees r' pieces ∧
        findKeyLoop targetKey fuel depth r = findKeyLoop targetKey fuel' depth r' := by
    obtain ⟨fuel, rfl, hfuel'⟩ := exists_fuel hfuel
    have hnext := h.next.2
    rw [hinside, List.append_assoc, List.singleton_append] at hfuel' hnext
    obtain ⟨fuel', r', hfuel'', hsees, hloop⟩ := ih hnext hfuel'
    obtain ⟨fuel', rfl, hrest⟩ := exists_fuel hfuel''
    have hbehind := hsees.next.2
    rw [hlast, List.nil_append] at hrest hbehind
    refine ⟨fuel', r'.next.2, hrest, hbehind, ?_⟩
    rw [findKeyLoop_start (h.token.symm ▸ hstart), hloop,
      findKeyLoop_end (hsees.token.symm ▸ hend)]
  induction doc generalizing r pieces fuel depth with
  | string content => exact hscalar h hfuel rfl (.inl rfl)
  | number text => exact hscalar h hfuel rfl (.inr (.inl rfl))
  | bool value => exact hscalar h hfuel rfl (.inr (.inr (.inl rfl)))
  | null => exact hscalar h hfuel rfl (.inr (.inr (.inr rfl)))
  | object members ih =>
      exact hcontainer h hfuel rfl (.inl rfl) (.inl rfl) rfl fun hsees hfuel =>
        ih (fun _ => Nat.succ_pos _) hsees hfuel
  | array elements ih =>
      exact hcontainer h hfuel rfl (.inr rfl) (.inr rfl) rfl fun hsees hfuel =>
        ih (fun _ => Nat.succ_pos _) hsees hfuel
  | noMembers | noElements => exact ⟨fuel, r, hfuel, h, rfl⟩
  | member key value rest ih ih' =>
      have hkey : Sees r (.key key :: .value value :: (rest.pieces ++ pieces)) := h
      obtain ⟨fuel, rfl, hfuel'⟩ := @exists_fuel (.key key)
        (.value value :: (rest.pieces ++ pieces)) fuel hfuel
      have hdepth' : ¬ (depth = 0 ∧ r.next.2.value = targetKey) :=
        fun hzero => absurd hzero.1 (hdepth rfl).ne'
      rw [findKeyLoop_other (.inr (.inr (.inr (.inr ⟨hkey.token, hdepth'⟩))))]
      have hvalue : Sees r.next.2 (value.pieces ++ (rest.pieces ++ pieces)) := by
        rw [value.pieces_value]
        exact hkey.next.2
      have hsize : Piece.size (value.pieces ++ (rest.pieces ++ pieces)) < fuel := by
        rw [value.pieces_value]
        exact hfuel'
      obtain ⟨fuel', r', hfuel', hsees, hloop⟩ := ih (by simp) hvalue hsize
      obtain ⟨fuel'', r'', hfuel'', hsees', hloop'⟩ := ih' hdepth hsees hfuel'
      exact ⟨fuel'', r'', hfuel'', hsees', hloop.trans hloop'⟩
  | element value rest ih ih' =>
      have hvalue : Sees r (value.pieces ++ (rest.pieces ++ pieces)) := by
        rw [value.pieces_value]
        exact h
      have hsize : Piece.size (value.pieces ++ (rest.pieces ++ pieces)) < fuel := by
        rw [value.pieces_value]
        exact hfuel
      obtain ⟨fuel', r', hfuel', hsees, hloop⟩ := ih (by simp) hvalue hsize
      obtain ⟨fuel'', r'', hfuel'', hsees', hloop'⟩ := ih' (by simp) hsees hfuel'
      exact ⟨fuel'', r'', hfuel'', hsees', hloop.trans hloop'⟩

/-- In an object the first member of the name is found, and otherwise nothing. By recursion over
the members. -/
theorem findKeyLoop_members {r : JsonReader} {fuel : Nat} : (members : Document .members) →
    Sees r (members.pieces ++ .objectEnd :: pieces) →
    Piece.size (members.pieces ++ .objectEnd :: pieces) < fuel →
    (match members.lookup targetKey with
      | some (v, rest) => (findKeyLoop targetKey fuel 0 r).1 = true ∧
          Sees (findKeyLoop targetKey fuel 0 r).2
            (.value v :: (rest.pieces ++ .objectEnd :: pieces))
      | none => (findKeyLoop targetKey fuel 0 r).1 = false)
  | .noMembers, h, hfuel => by
      have hend : Sees r (.objectEnd :: pieces) := h
      obtain ⟨fuel, rfl, -⟩ := @exists_fuel .objectEnd pieces fuel hfuel
      rw [Document.lookup, findKeyLoop]
      simp [hend.token, pieceReport]
  | .member key value rest, h, hfuel => by
      have hkey : Sees r (.key key :: .value value :: (rest.pieces ++ .objectEnd :: pieces)) := h
      obtain ⟨fuel, rfl, hfuel'⟩ := @exists_fuel (.key key)
        (.value value :: (rest.pieces ++ .objectEnd :: pieces)) fuel hfuel
      have hname : r.next.2.value = key := hkey.value rfl
      rw [Document.lookup]
      by_cases heq : key = targetKey
      · rw [if_pos heq]
        have hloop : findKeyLoop targetKey (fuel + 1) 0 r = (true, r.next.2) := by
          rw [findKeyLoop]
          simp [hkey.token, pieceReport, hname, heq]
        rw [hloop]
        exact ⟨rfl, hkey.next.2⟩
      · have hother : r.next.1 = .key ∧ ¬ (0 = 0 ∧ r.next.2.value = targetKey) :=
          ⟨hkey.token, fun h => heq (hname.symm.trans h.2)⟩
        have hvalue : Sees r.next.2 (value.pieces ++ (rest.pieces ++ .objectEnd :: pieces)) := by
          rw [value.pieces_value]
          exact hkey.next.2
        have hsize : Piece.size (value.pieces ++ (rest.pieces ++ .objectEnd :: pieces)) < fuel := by
          rw [value.pieces_value]
          exact hfuel'
        obtain ⟨fuel', r', hfuel', hsees, hloop⟩ :=
          @findKeyLoop_document _ targetKey _ _ 0 _ value (by simp) hvalue hsize
        rw [if_neg heq, findKeyLoop_other (.inr (.inr (.inr (.inr hother)))), hloop]
        exact findKeyLoop_members rest hsees hfuel'

theorem findKey_members (members : Document .members)
    (h : Sees r (members.pieces ++ .objectEnd :: pieces)) :
    (match members.lookup targetKey with
      | some (v, rest) => (r.findKey targetKey).1 = true ∧
          Sees (r.findKey targetKey).2 (.value v :: (rest.pieces ++ .objectEnd :: pieces))
      | none => (r.findKey targetKey).1 = false) :=
  findKeyLoop_members members h (Nat.lt_succ_of_le h.size_le)

theorem skipValues_drop (n : Nat) (h : Sees r pieces) :
    Sees (r.skipValues n) (pieces.drop n) := by
  induction n generalizing r pieces with
  | zero => exact h
  | succ n ih =>
      cases pieces with
      | nil =>
          rw [List.drop_nil]
          exact List.drop_nil ▸ ih h.skipValue_nil
      | cons piece pieces => exact ih h.skipValue

/-- What the loop of `get` is to report. -/
def Reports (piece : Option Piece) (result : Token × JsonReader) : Prop :=
  match piece with
  | some piece => report result.1 result.2 = pieceReport piece
  | none => result.1 = .error

/-- The reader is in front of what a segment leads to. -/
theorem reports_arrival {piece : Piece} {rest : List Piece} (h : Sees r (piece :: rest))
    (ih : path ≠ [] → ∀ (v : Document .value), piece = .value v →
      Reports (reach parseIndex path piece rest) (getLoop r.next.1 path r.next.2)) :
    Reports (reach parseIndex path piece rest)
      (if path = [] then r.next
      else if r.next.1 ≠ .objectStart ∧ r.next.1 ≠ .arrayStart then (.error, r.next.2)
      else getLoop r.next.1 path r.next.2) := by
  cases path with
  | nil => exact h.next.1
  | cons segment path =>
      rw [if_neg (List.cons_ne_nil segment path)]
      have htoken := h.token
      cases piece with
      | value v =>
          cases v with
          | object members =>
              rw [if_neg (by simp [htoken, pieceReport, firstReport])]
              exact ih (List.cons_ne_nil _ _) _ rfl
          | array elements =>
              rw [if_neg (by simp [htoken, pieceReport, firstReport])]
              exact ih (List.cons_ne_nil _ _) _ rfl
          | _ =>
              rw [if_pos (by simp [htoken, pieceReport, firstReport])]
              rfl
      | _ =>
          rw [if_pos (by simp [htoken, pieceReport])]
          rfl

/-- The branch of objects. -/
theorem getLoop_object : getLoop .objectStart (segment :: path) r =
    if (r.findKey segment).1 = false then (.error, (r.findKey segment).2)
    else if (r.findKey segment).2.next.1 = .needMoreData then
      (.error, (r.findKey segment).2.next.2)
    else if path = [] then (r.findKey segment).2.next
    else if (r.findKey segment).2.next.1 ≠ .objectStart ∧
        (r.findKey segment).2.next.1 ≠ .arrayStart then (.error, (r.findKey segment).2.next.2)
    else getLoop (r.findKey segment).2.next.1 path (r.findKey segment).2.next.2 := by
  rw [getLoop, if_pos rfl]
  simp

/-- The branch of arrays. -/
theorem getLoop_array : getLoop .arrayStart (segment :: path) r =
    match parseIndex segment with
    | none => (.error, r)
    | some i =>
        if (r.skipValues i).next.1 = .arrayEnd ∨ (r.skipValues i).next.1 = .end ∨
            (r.skipValues i).next.1 = .error ∨ (r.skipValues i).next.1 = .needMoreData then
          (.error, (r.skipValues i).next.2)
        else if path = [] then (r.skipValues i).next
        else if (r.skipValues i).next.1 ≠ .objectStart ∧
            (r.skipValues i).next.1 ≠ .arrayStart then (.error, (r.skipValues i).next.2)
        else getLoop (r.skipValues i).next.1 path (r.skipValues i).next.2 := by
  refine (if_neg (by simp)).trans <| (if_pos rfl).trans ?_
  cases parseIndex segment <;> rfl

/-- Behind the start of a container the loop goes where the path leads. By induction on the
path. -/
theorem getLoop_reaches {v : Document .value} (h : Sees r (inside (.value v) ++ behind))
    (hpath : path ≠ []) :
    Reports (reach parseIndex path (.value v) behind) (getLoop (firstReport v).1 path r) := by
  induction path generalizing r v behind with
  | nil => exact absurd rfl hpath
  | cons segment path ih =>
      have harrival {r : JsonReader} {piece : Piece} {rest : List Piece}
          (h : Sees r (piece :: rest)) := @reports_arrival path _ _ _ h fun hne v hv => by
        subst hv
        rw [h.token]
        exact ih h.next.2 hne
      rw [reach]
      cases v with
      | object members =>
          rw [inside, List.append_assoc, List.singleton_append] at h
          have hfind := @findKey_members _ segment _ members h
          rw [firstReport, getLoop_object, seek, Document.place]
          · cases hlookup : members.lookup segment with
            | none =>
                rw [hlookup] at hfind
                rw [if_pos hfind]
                rfl
            | some found =>
                obtain ⟨u, rest⟩ := found
                rw [hlookup] at hfind
                have hdata : (r.findKey segment).2.next.1 ≠ .needMoreData := by
                  rw [hfind.2.token]
                  cases u <;> simp [pieceReport, firstReport]
                rw [if_neg (by simp [hfind.1]), if_neg hdata]
                exact harrival hfind.2
          · simp
      | array elements =>
          rw [inside, List.append_assoc, List.singleton_append] at h
          rw [firstReport, getLoop_array, seek]
          cases parseIndex segment with
          | none => rfl
          | some i =>
              have hskip := skipValues_drop i h
              rw [Option.bind_some]
              dsimp only
              cases hdrop : (elements.pieces ++ .arrayEnd :: behind).drop i with
              | nil =>
                  rw [hdrop] at hskip
                  rw [if_pos (.inr (.inl hskip.next_nil.1))]
                  rfl
              | cons piece rest =>
                  rw [hdrop] at hskip
                  have htoken := hskip.token
                  cases piece with
                  | arrayEnd =>
                      rw [if_pos (.inl htoken)]
                      rfl
                  | value u =>
                      have hproper : ¬ ((r.skipValues i).next.1 = .arrayEnd ∨
                          (r.skipValues i).next.1 = .end ∨ (r.skipValues i).next.1 = .error ∨
                          (r.skipValues i).next.1 = .needMoreData) := by
                        rw [htoken]
                        cases u <;> simp [pieceReport, firstReport]
                      rw [if_neg hproper]
                      exact harrival hskip
                  | key name | objectEnd =>
                      rw [if_neg (by simp [htoken, pieceReport])]
                      exact harrival hskip
      | _ => rfl

/-- `get` goes where the path leads. -/
theorem get_reaches (path : List UInt8) {json : List UInt8} {doc : Document .value}
    (h : IsText json doc) :
    Reports (reach parseIndex (segments path) (.value doc) []) (get json path) := by
  have hsees := h.sees
  have hget : get json path =
      if (ofText json).next.1 = .needMoreData then (.error, (ofText json).next.2)
      else if (ofText json).next.1 ≠ .objectStart ∧ (ofText json).next.1 ≠ .arrayStart then
        (.error, (ofText json).next.2)
      else getLoop (ofText json).next.1 (segments path) (ofText json).next.2 := rfl
  have hne : segments path ≠ [] := by
    cases path with
    | nil => simp [segments]
    | cons c path =>
        rw [segments]
        split
        · simp
        · split <;> simp
  have hloop := getLoop_reaches hsees.next.2 hne
  rw [hget, hsees.token]
  cases doc with
  | object members =>
      rw [if_neg (by simp [pieceReport, firstReport]), if_neg (by simp [pieceReport, firstReport])]
      exact hloop
  | array elements =>
      rw [if_neg (by simp [pieceReport, firstReport]), if_neg (by simp [pieceReport, firstReport])]
      exact hloop
  | _ =>
      rw [if_neg (by simp [pieceReport, firstReport]), if_pos (by simp [pieceReport, firstReport])]
      obtain ⟨segment, rest, hsegments⟩ := List.exists_cons_of_ne_nil hne
      rw [hsegments]
      rfl

end Text

/-- What a segment of decimal digits stands for. -/
def decimalIndex (segment : List UInt8) : Option Nat :=
  if segment ≠ [] ∧ segment.all isDigit then
    some (segment.foldl (fun value char => value * 10 + (char.toNat - 0x30)) 0)
  else none

theorem digitValue_of_isDigit {c : UInt8} (h : isDigit c = true) :
    Chars.digitValue c = some (c.toNat - 0x30) ∧ c.toNat - 0x30 < 10 := by
  rw [isDigit, Bool.and_eq_true, decide_eq_true_eq, decide_eq_true_eq] at h
  refine ⟨if_pos h, ?_⟩
  have hle : c.toNat ≤ 0x39 := UInt8.le_iff_toNat_le.mp h.2
  omega

theorem digitValue_of_not_isDigit {c : UInt8} (h : isDigit c = false) {digit : Nat}
    (hdigit : Chars.digitValue c = some digit) : ¬ digit < 10 := by
  rw [isDigit, Bool.and_eq_false_iff, decide_eq_false_iff_not, decide_eq_false_iff_not,
    ← not_and_or] at h
  rw [Chars.digitValue, if_neg h] at hdigit
  split at hdigit
  · cases hdigit
    omega
  · split at hdigit
    · cases hdigit
      omega
    · cases hdigit

/-- A segment is taken as a whole if it has digits only. -/
theorem spanDigits_eq (segment : List UInt8) :
    (segment.all isDigit = true ∧
      Chars.spanDigits 10 segment = (segment.map fun c => c.toNat - 0x30, [])) ∨
    (segment.all isDigit = false ∧ (Chars.spanDigits 10 segment).2 ≠ []) := by
  induction segment with
  | nil => exact .inl ⟨rfl, rfl⟩
  | cons c segment ih =>
      rw [Chars.spanDigits, List.all_cons]
      cases hc : isDigit c with
      | true =>
          obtain ⟨hvalue, hlt⟩ := digitValue_of_isDigit hc
          rw [hvalue]
          dsimp only
          rw [if_pos hlt]
          obtain ⟨hall, hspan⟩ | ⟨hall, hspan⟩ := ih
          · exact .inl ⟨hall, by rw [hspan]; rfl⟩
          · exact .inr ⟨hall, hspan⟩
      | false =>
          refine .inr ⟨rfl, ?_⟩
          cases hvalue : Chars.digitValue c with
          | none => simp
          | some digit => simp [digitValue_of_not_isDigit hc hvalue]

theorem foldl_digits (segment : List UInt8) (value : Nat) :
    (segment.map fun c => c.toNat - 0x30).foldl
      (fun (value : Int) (digit : Nat) => value * (10 : Nat) + digit) value =
        (segment.foldl (fun value char => value * 10 + (char.toNat - 0x30)) value : Nat) := by
  induction segment generalizing value with
  | nil => rfl
  | cons c segment ih => exact ih (value * 10 + (c.toNat - 0x30))

/-- The index of a segment, if a size can hold it. -/
theorem parseIndex_eq (segment : List UInt8) :
    parseIndex segment = (decimalIndex segment).filter (· < 2 ^ 64) := by
  have hfrom : Chars.fromChars .uint64 10 segment =
      if (Chars.spanDigits 10 segment).1.isEmpty then none
      else if IntType.uint64.Holds ((Chars.spanDigits 10 segment).1.foldl
          (fun (value : Int) (digit : Nat) => value * (10 : Nat) + digit) 0) then
        some ((Chars.spanDigits 10 segment).1.foldl
          (fun (value : Int) (digit : Nat) => value * (10 : Nat) + digit) 0,
          (Chars.spanDigits 10 segment).2)
      else none := rfl
  have hholds (value : Nat) : IntType.uint64.Holds (value : Int) ↔ value < 2 ^ 64 := by
    simp [IntType.Holds, IntType.uint64, IntType.min, IntType.max]
    omega
  obtain ⟨hall, hspan⟩ | ⟨hall, hspan⟩ := spanDigits_eq segment
  · cases segment with
    | nil => rfl
    | cons c segment =>
        have hdecimal : decimalIndex (c :: segment) = some ((c :: segment).foldl
            (fun value char => value * 10 + (char.toNat - 0x30)) 0) := if_pos ⟨by simp, hall⟩
        have hcast : (((c :: segment).map fun c => c.toNat - 0x30).foldl
            (fun (value : Int) (digit : Nat) => value * (10 : Nat) + digit) 0) =
              ((c :: segment).foldl (fun value char => value * 10 + (char.toNat - 0x30)) 0 : Nat) :=
          foldl_digits (c :: segment) 0
        rw [parseIndex, hfrom, hspan, hdecimal]
        dsimp only
        rw [hcast, if_neg (by simp)]
        generalize (c :: segment).foldl
          (fun value char => value * 10 + (char.toNat - 0x30)) 0 = value
        by_cases hlt : value < 2 ^ 64
        · rw [if_pos ((hholds value).mpr hlt)]
          exact (if_pos (decide_eq_true hlt)).symm
        · rw [if_neg (mt (hholds value).mp hlt)]
          exact (if_neg (mt of_decide_eq_true hlt)).symm
  · have hnone : decimalIndex segment = none := if_neg (by simp [hall])
    rw [parseIndex, hfrom, hnone, Option.filter_none]
    split
    · rename_i heq
      split at heq
      · cases heq
      · split at heq
        · exact absurd (congrArg Prod.snd (Option.some.inj heq)) hspan
        · cases heq
    · rfl

/-- `get` reports the first token of the value that the path leads to, and an error if it leads
to none. Names are compared as they stand in the text. -/
structure GetFollows (json path : List UInt8) (doc : Document .value) : Prop where
  value : ∀ v, doc.follow parseIndex (segments path) = some v →
    report (get json path).1 (get json path).2 = firstReport v
  error : (get json path).1 = .error ↔ doc.follow parseIndex (segments path) = none

theorem firstReport_ne_error (v : Document .value) : (firstReport v).1 ≠ .error := by
  cases v <;> simp [firstReport]

/-- `get` follows the paths that do not stray. -/
theorem getFollows_iff {json : List UInt8} {doc : Document .value} (path : List UInt8)
    (h : IsText json doc) :
    GetFollows json path doc ↔ ¬ Strays parseIndex (segments path) doc [] := by
  have hreaches := get_reaches path h
  cases hfollow : doc.follow parseIndex (segments path) with
  | some v =>
      obtain ⟨hreach, hstrays⟩ := @reach_of_follow _ _ [] _ _ hfollow
      rw [hreach] at hreaches
      refine iff_of_true ⟨?_, iff_of_false ?_ (by simp [hfollow])⟩ hstrays
      · intro u hu
        obtain rfl := Option.some.inj (hfollow.symm.trans hu)
        exact hreaches
      · intro herror
        exact firstReport_ne_error v ((congrArg Prod.fst hreaches).symm.trans herror)
  | none =>
      rw [← reach_of_follow_none hfollow]
      cases hreach : reach parseIndex (segments path) (.value doc) [] with
      | none =>
          rw [hreach] at hreaches
          refine iff_of_true ⟨fun u hu => ?_, iff_of_true hreaches hfollow⟩ (by simp)
          rw [hfollow] at hu
          cases hu
      | some piece =>
          rw [hreach] at hreaches
          refine iff_of_false (fun hfollows => ?_) (by simp)
          have herror := (congrArg Prod.fst hreaches).symm.trans (hfollows.error.mpr hfollow)
          cases piece with
          | value v => exact firstReport_ne_error v herror
          | _ => cases herror

/-- Arrays in an object, and members behind them. -/
def branches : Document .value :=
  .object <|
    .member [0x61] (.array <|
      .element (.object <| .member [0x62] (.string [0x78]) .noMembers) <|
      .element (.array <| .element (.bool true) <| .element (.number [0x37]) .noElements)
        .noElements) <|
    .member [0x63] .null .noMembers

def branchesText : List UInt8 :=
  Chars.ofString "\x7b\"a\":[\x7b\"b\":\"x\"\x7d,[true,7]],\"c\":null\x7d"

theorem isText_branches : IsText branchesText branches := by
  refine isText_of_lexemes (by decide +kernel) ?_
  simp only [branches, Document.lexemes, Document.isEmpty, if_true, Bool.false_eq_true, if_false,
    List.append_nil, List.nil_append, List.cons_append, List.forall_mem_cons]
  have hname {c : UInt8} (h : c = 0x61 ∨ c = 0x62 ∨ c = 0x63 ∨ c = 0x78) : StringContent [c] := by
    obtain rfl | rfl | rfl | rfl := h <;>
      exact .char (by decide) (by decide) (by decide) .nil
  exact ⟨trivial, hname (by decide), trivial, trivial, trivial, hname (by decide), trivial,
    hname (by decide), trivial, trivial, trivial, trivial, trivial, numberText_digit (by decide),
    trivial, trivial, trivial, hname (by decide), trivial, trivial, trivial,
    List.forall_mem_nil _⟩

/-- The paths `a.0.b` and `a.1.1` stay in the arrays, the path `a.3` leads to the key behind them. -/
theorem getFollows_iff_branches :
    IsText branchesText branches ∧
      (¬ Strays parseIndex (segments (Chars.ofString "a.0.b")) branches [] ∧
        GetFollows branchesText (Chars.ofString "a.0.b") branches) ∧
      (¬ Strays parseIndex (segments (Chars.ofString "a.1.1")) branches [] ∧
        GetFollows branchesText (Chars.ofString "a.1.1") branches) ∧
      Strays parseIndex (segments (Chars.ofString "a.3")) branches [] ∧
        ¬ GetFollows branchesText (Chars.ofString "a.3") branches := by
  have hstays {path : List UInt8} {v : Document .value}
      (h : branches.follow parseIndex (segments path) = some v) :
      ¬ Strays parseIndex (segments path) branches [] ∧ GetFollows branchesText path branches := by
    have hnot := (@reach_of_follow _ _ [] _ _ h).2
    exact ⟨hnot, (getFollows_iff path isText_branches).mpr hnot⟩
  have hb : segments (Chars.ofString "a.0.b") = [[0x61], [0x30], [0x62]] := by decide
  have hseven : segments (Chars.ofString "a.1.1") = [[0x61], [0x31], [0x31]] := by decide
  have hkey : segments (Chars.ofString "a.3") = [[0x61], [0x33]] := by decide
  have hindex : parseIndex [0x30] = some 0 ∧ parseIndex [0x31] = some 1 ∧
      parseIndex [0x33] = some 3 := by decide
  have hstrays : Strays parseIndex (segments (Chars.ofString "a.3")) branches [] := by
    rw [hkey]
    refine .child (by rw [branches, Document.place, Document.lookup, if_pos rfl]; rfl) ?_
    refine (strays_beyond hindex.2.2 (by simp [Document.toElements])).mpr
      ⟨.key [0x63], [.value .null, .objectEnd], ?_, .inl ⟨rfl, .inr ⟨_, rfl⟩⟩⟩
    simp only [Document.toElements, List.length_cons, List.length_nil]
    rfl
  refine ⟨isText_branches, hstays (v := .string [0x78]) ?_, hstays (v := .number [0x37]) ?_,
    hstrays, fun hfollows => (getFollows_iff _ isText_branches).mp hfollows hstrays⟩
  · simp [hb, hindex, branches, Document.follow, Document.child, Document.toMembers,
      Document.toElements]
  · simp [hseven, hindex, branches, Document.follow, Document.child, Document.toMembers,
      Document.toElements]

/-- With the path `a.2` the array of `{"a":[1]}` is left, and its object. -/
theorem not_getFollows :
    ¬ ∀ json path doc, IsText json doc → GetFollows json path doc := by
  intro h
  have htext : IsText [0x7b, 0x22, 0x61, 0x22, 0x3a, 0x5b, 0x31, 0x5d, 0x7d]
      (.object (.member [0x61] (.array (.element (.number [0x31]) .noElements)) .noMembers)) := by
    refine isText_of_lexemes rfl ?_
    simp only [Document.lexemes, Document.isEmpty, if_true, List.append_nil, List.nil_append,
      List.cons_append, List.forall_mem_cons]
    exact ⟨trivial, .char (by decide) (by decide) (by decide) .nil, trivial, trivial,
      numberText_digit (by decide), trivial, trivial, List.forall_mem_nil _⟩
  have hfollows := h _ [0x61, 0x2e, 0x32] _ htext
  have hget : (get [0x7b, 0x22, 0x61, 0x22, 0x3a, 0x5b, 0x31, 0x5d, 0x7d]
      [0x61, 0x2e, 0x32]).1 = .objectEnd := by decide
  cases hfollow : Document.follow parseIndex
      (.object (.member [0x61] (.array (.element (.number [0x31]) .noElements)) .noMembers))
      (segments [0x61, 0x2e, 0x32]) with
  | none =>
      have herror := hfollows.error.mpr hfollow
      rw [hget] at herror
      cases herror
  | some v =>
      have hreport := congrArg Prod.fst (hfollows.value v hfollow)
      rw [report, hget] at hreport
      cases v <;> cases hreport

end JsonReader

end Ebus
