import Ebus.App.PollText
import Ebus.Verification.Merging

/-!
# Loading a list of polls

What the elements of an array ask for, and what `mergeFromText` makes of them. The loop skips one
value behind a token that starts no object: the rest of an empty array, but the neighbour of a
scalar. A callback that cannot use a number has taken it all the same, and the loop over the
members then skips the next key. `Loadable` is a list in which nothing is lost in this way.
-/

namespace Ebus

open Json
open JsonReader
open Chars (ofString)
open RuntimeConfig (numberOf isScalar_of_numberOf asNumStrict_next)

namespace PollManager

/-- An item as it is to be registered. -/
structure Entry where
  priority : UInt8
  message : List UInt8
  interval : Int
  deriving DecidableEq, Repr

/-- The members of an object as far as they have been read. -/
structure Draft where
  priority : UInt8 := 5
  hex : List UInt8 := []
  intervalMs : UInt32 := 1000
  deriving DecidableEq, Repr

def priorityOf (v : Document .value) : Option UInt8 :=
  (numberOf .int32 v).bind fun n => if 0 ≤ n ∧ n < 2 ^ 8 then some (UInt8.ofInt n) else none

def hexOf : Document .value → Option (List UInt8)
  | .string s => some s
  | _ => none

def intervalOf (v : Document .value) : Option UInt32 := (numberOf .uint32 v).map UInt32.ofInt

/-- A member that cannot be used makes the object unusable. -/
def Draft.member (draft : Draft) (member : List UInt8 × Document .value) : Option Draft :=
  if member.1 = ofString "priority" then
    (priorityOf member.2).map fun priority => { draft with priority }
  else if member.1 = ofString "message" then
    (hexOf member.2).map fun hex => { draft with hex }
  else if member.1 = ofString "interval_ms" then
    (intervalOf member.2).map fun intervalMs => { draft with intervalMs }
  else some draft

def draftOf (members : List (List UInt8 × Document .value)) : Option Draft :=
  members.foldlM Draft.member {}

/-- The bytes of a text of hex digits. -/
def hexBytes : List Char → Option (List UInt8)
  | [] => some []
  | [_] => none
  | high :: low :: rest =>
      match hexDigit high, hexDigit low, hexBytes rest with
      | some h, some l, some bytes => some ((h * 16 + l) :: bytes)
      | _, _, _ => none

/-- One byte up to as many as the buffer has. -/
def messageOf (hex : List UInt8) : Option (List UInt8) :=
  (hexBytes (charsOf hex)).filter fun bytes => bytes ≠ [] ∧ bytes.length ≤ hexBuffer

/-- An interval of zero stands for the shortest one. -/
def intervalTime (intervalMs : UInt32) : Int :=
  (if intervalMs = 0 then 1 else intervalMs).toNat * millisecond

/-- What an element asks for, if it is a valid object that does not poll the own address. -/
def entryOf (slave : UInt8) : Document .value → Option Entry
  | .object members =>
      (draftOf members.toMembers).bind fun draft => (messageOf draft.hex).bind fun message =>
        if PollItem.polls message slave then none
        else some ⟨draft.priority, message, intervalTime draft.intervalMs⟩
  | _ => none

theorem toBytes_of_hexBytes {hex : List Char} {bytes : List UInt8} (h : hexBytes hex = some bytes) :
    toBytes hex = bytes := by
  fun_induction hexBytes hex generalizing bytes with
  | case1 => exact Option.some.inj h
  | case2 => cases h
  | case3 high low rest digit digit' tail hrest hlow hhigh ih =>
      rw [toBytes, hhigh, hlow, ih hrest]
      exact Option.some.inj h
  | case4 => cases h

theorem messageOf_eq_some {hex bytes : List UInt8} (h : messageOf hex = some bytes) :
    (toBytes (charsOf hex)).take hexBuffer = bytes ∧ charsOf hex ≠ [] := by
  obtain ⟨hbytes, hlength⟩ := Option.filter_eq_some_iff.mp h
  obtain ⟨hne, hlength⟩ := of_decide_eq_true hlength
  rw [toBytes_of_hexBytes hbytes]
  refine ⟨List.take_of_length_le hlength, fun hnil => hne ?_⟩
  rw [hnil] at hbytes
  exact (Option.some.inj hbytes).symm

/-- An unusable number in front of another scalar: the key of that one is skipped. -/
structure Unusable (member : List UInt8 × Document .value) : Prop where
  scalar : isScalar member.2 = true
  key : (member.1 = ofString "priority" ∧ numberOf .int32 member.2 = none) ∨
    (member.1 = ofString "interval_ms" ∧ numberOf .uint32 member.2 = none)

inductive Readable : List (List UInt8 × Document .value) → Prop
  | nil : Readable []
  | usable {member : List UInt8 × Document .value}
      {members : List (List UInt8 × Document .value)}
      (hmember : ∀ draft : Draft, (draft.member member).isSome = true)
      (h : Readable members) : Readable (member :: members)
  | unusable {member next : List UInt8 × Document .value}
      {members : List (List UInt8 × Document .value)} (hmember : Unusable member)
      (hnext : isScalar next.2 = true) (h : Readable members) :
      Readable (member :: next :: members)

/-- The message of a usable object is one, or empty. -/
def Sound (members : List (List UInt8 × Document .value)) : Prop :=
  ∀ draft, draftOf members = some draft →
    draft.hex = [] ∨ (messageOf draft.hex).isSome = true

inductive Loadable (slave : UInt8) : List (Document .value) → Prop
  | nil : Loadable slave []
  | object {members : Document .members} {elements : List (Document .value)}
      (hreadable : Readable members.toMembers) (hsound : Sound members.toMembers)
      (h : Loadable slave elements) : Loadable slave (.object members :: elements)
  | emptyArray {elements : List (Document .value)} (h : Loadable slave elements) :
      Loadable slave (.array .noElements :: elements)
  /-- The bracket behind it is skipped. -/
  | last {v : Document .value} (hv : isScalar v = true) : Loadable slave [v]
  /-- The neighbour is skipped, which asks for nothing. -/
  | scalar {v next : Document .value} {elements : List (Document .value)}
      (hv : isScalar v = true) (hnext : entryOf slave next = none)
      (h : Loadable slave elements) : Loadable slave (v :: next :: elements)

def entry (item : PollItem) : Entry := ⟨item.priority, item.message, item.interval⟩

/-- Items for the entries are added in order, one for each as far as there is room; `now` is the
clock at each registration. -/
structure Adds (now : Nat → Int) (m m' : PollManager) (entries : List Entry) : Prop where
  ownAddress : m'.ownAddress = m.ownAddress
  tickets : m.tickets ≤ m'.tickets
  items : ∃ added : List PollItem, m'.items.Perm (m.items ++ added) ∧
    added.map entry = entries.take (PollLimits.maxItems - m.items.length) ∧
    (added.map PollItem.ticket).Pairwise (· < ·) ∧
    ∀ item ∈ added, m.tickets ≤ item.ticket ∧ item.ticket < m'.tickets ∧
      item.nextDue = now item.ticket

namespace Adds

variable {now : Nat → Int} {m m' m'' : PollManager} {entries entries' : List Entry}

theorem refl (now : Nat → Int) (m : PollManager) : Adds now m m [] := by
  refine ⟨rfl, Nat.le_refl _, [], ?_, ?_, .nil, by simp⟩
  · rw [List.append_nil]
  · rw [List.map_nil, List.take_nil]

theorem trans (h : Adds now m m' entries) (h' : Adds now m' m'' entries') :
    Adds now m m'' (entries ++ entries') := by
  obtain ⟨added, hperm, hentries, hsorted, hadded⟩ := h.items
  obtain ⟨added', hperm', hentries', hsorted', hadded'⟩ := h'.items
  refine ⟨h'.ownAddress.trans h.ownAddress, h.tickets.trans h'.tickets, added ++ added', ?_, ?_, ?_,
    ?_⟩
  · rw [← List.append_assoc]
    exact hperm'.trans (hperm.append_right added')
  · have hlength := hperm.length_eq
    have hadded := congrArg List.length hentries
    rw [List.length_append] at hlength
    rw [List.length_map, List.length_take] at hadded
    have hroom : PollLimits.maxItems - m'.items.length =
        PollLimits.maxItems - m.items.length - entries.length := by omega
    rw [List.map_append, hentries, hentries', hroom, List.take_append]
  · rw [List.map_append, List.pairwise_append]
    refine ⟨hsorted, hsorted', fun a ha b hb => ?_⟩
    obtain ⟨item, hitem, rfl⟩ := List.mem_map.mp ha
    obtain ⟨item', hitem', rfl⟩ := List.mem_map.mp hb
    exact Nat.lt_of_lt_of_le (hadded item hitem).2.1 (hadded' item' hitem').1
  · intro item hitem
    obtain hitem | hitem := List.mem_append.mp hitem
    · obtain ⟨hle, hlt, hdue⟩ := hadded item hitem
      exact ⟨hle, Nat.lt_of_lt_of_le hlt h'.tickets, hdue⟩
    · obtain ⟨hle, hlt, hdue⟩ := hadded' item hitem
      exact ⟨h.tickets.trans hle, hlt, hdue⟩

end Adds

/-- A call of `addPollItem` adds its item, unless that polls the own address. -/
theorem addPollItem_adds (now : Nat → Int) (m : PollManager) (priority : UInt8)
    (message : List UInt8) (intervalMs : UInt32) :
    Adds now m (m.addPollItem priority message intervalMs (now m.tickets)).1
      (if PollItem.polls message (slaveOf m.ownAddress) then []
        else [⟨priority, message, intervalTime intervalMs⟩]) := by
  cases haccepts : m.accepts message with
  | true =>
      obtain ⟨hpolls, hroom⟩ := Bool.and_eq_true_iff.mp haccepts
      have hpolls : PollItem.polls message (slaveOf m.ownAddress) = false := by simpa using hpolls
      have hroom := of_decide_eq_true hroom
      obtain ⟨k, hk⟩ : ∃ k, PollLimits.maxItems - m.items.length = k + 1 :=
        Nat.exists_eq_add_one.mpr (Nat.sub_pos_of_lt hroom)
      let item : PollItem :=
        ⟨m.takeId.1, priority, message, intervalTime intervalMs, now m.tickets, m.tickets⟩
      have hadd : (m.addPollItem priority message intervalMs (now m.tickets)).1 =
          { m with items := Heap.pushHeap PollItem.NotAfter m.items item
                   nextPollId := m.takeId.2, tickets := m.tickets + 1 } := by
        rw [addPollItem, haccepts]
        rfl
      rw [hadd, hpolls]
      refine ⟨rfl, Nat.le_succ _, [item], ?_, ?_, List.pairwise_singleton _ _, ?_⟩
      · exact (Heap.pushHeap_perm _ _ _).trans (List.perm_append_singleton _ _).symm
      · rw [hk, if_neg Bool.false_ne_true, List.take_succ_cons, List.take_nil]
        rfl
      · intro added hadded
        rw [List.mem_singleton.mp hadded]
        exact ⟨Nat.le_refl _, Nat.lt_succ_self _, rfl⟩
  | false =>
      have hadd : (m.addPollItem priority message intervalMs (now m.tickets)).1 =
          { m with tickets := m.tickets + 1 } := by
        rw [addPollItem, haccepts]
        rfl
      rw [hadd]
      refine ⟨rfl, Nat.le_succ _, [], ?_, ?_, .nil, by simp⟩
      · rw [List.append_nil]
      · cases hpolls : PollItem.polls message (slaveOf m.ownAddress) with
        | true => simp
        | false =>
            rw [accepts, hpolls] at haccepts
            have hfull : PollLimits.maxItems ≤ m.items.length := by simpa using haccepts
            rw [Nat.sub_eq_zero_of_le hfull]
            rfl

/-- The item that a callback works on, for what has been read. -/
def Matches (item : JsonItem) : Option Draft → Prop
  | some draft => item = ⟨draft.priority, charsOf draft.hex, draft.intervalMs, true⟩
  | none => item.ok = false

/-- A member that is read. -/
def StepsItem (key : List UInt8) (v : Document .value) (item item' : JsonItem) : Prop :=
  ∀ draft, Matches item draft → Matches item' (draft.bind fun draft => draft.member (key, v))

section Objects
variable {key : List UInt8} {v : Document .value} {r : JsonReader} {rest : List Piece}
variable {n : Int}

section Members
variable (draft : Draft) (v)

theorem Draft.member_priority : draft.member (ofString "priority", v) =
    (priorityOf v).map fun priority => { draft with priority } := if_pos rfl

theorem Draft.member_message : draft.member (ofString "message", v) =
    (hexOf v).map fun hex => { draft with hex } := by
  have hpriority : ofString "message" ≠ ofString "priority" := by decide
  exact (if_neg hpriority).trans (if_pos rfl)

theorem Draft.member_interval : draft.member (ofString "interval_ms", v) =
    (intervalOf v).map fun intervalMs => { draft with intervalMs } := by
  have hpriority : ofString "interval_ms" ≠ ofString "priority" := by decide
  have hmessage : ofString "interval_ms" ≠ ofString "message" := by decide
  exact (if_neg hpriority).trans <| (if_neg hmessage).trans (if_pos rfl)

theorem Draft.member_other (hpriority : key ≠ ofString "priority")
    (hmessage : key ≠ ofString "message") (hinterval : key ≠ ofString "interval_ms") :
    draft.member (key, v) = some draft :=
  (if_neg hpriority).trans <| (if_neg hmessage).trans (if_neg hinterval)

end Members

theorem stepsItem {item item' : JsonItem} {update : Draft → Draft}
    (hmember : ∀ draft : Draft, draft.member (key, v) = some (update draft))
    (hok : item'.ok = item.ok)
    (hitem : ∀ draft, Matches item (some draft) → Matches item' (some (update draft))) :
    StepsItem key v item item' := by
  intro draft h
  cases draft with
  | none => exact hok.trans h
  | some draft =>
      rw [Option.bind_some, hmember]
      exact hitem draft h

/-- A member that can be used is taken, or is none of the item. -/
theorem stepsMember_usable (h : ∀ draft : Draft, (draft.member (key, v)).isSome = true) :
    StepsMember itemField StepsItem key v := by
  intro item r rest hsees
  have hsome := h {}
  by_cases hpriority : key = ofString "priority"
  · subst hpriority
    rw [Draft.member_priority, Option.isSome_map] at hsome
    obtain ⟨priority, hread⟩ := Option.isSome_iff_exists.mp hsome
    obtain ⟨n, hn, hrange⟩ := Option.bind_eq_some_iff.mp hread
    obtain ⟨hparse, hrest⟩ := asNumStrict_next .int32 hsees (isScalar_of_numberOf hn)
    have hpriority : UInt8.ofInt n = priority := by
      split at hrange
      · exact Option.some.inj hrange
      · cases hrange
    refine ⟨true, { item with priority }, r.next.2, ?_, ?_, hrest⟩
    · rw [itemField_priority item r rfl, hparse, hn, ← hpriority]
    · refine stepsItem (fun draft => by rw [Draft.member_priority, hread]; rfl) rfl ?_
      rintro draft rfl
      rfl
  by_cases hmessage : key = ofString "message"
  · subst hmessage
    rw [Draft.member_message, Option.isSome_map] at hsome
    obtain ⟨hex, hread⟩ := Option.isSome_iff_exists.mp hsome
    cases v with
    | string s =>
        obtain rfl : s = hex := Option.some.inj hread
        have hvalue : r.next.2.value = s := hsees.value rfl
        refine ⟨true, { item with message := charsOf s }, r.next.2, ?_, ?_, hsees.next.2⟩
        · rw [itemField_message item r rfl, hvalue]
        · refine stepsItem (fun draft => by rw [Draft.member_message, hread]; rfl) rfl ?_
          rintro draft rfl
          rfl
    | _ => cases hread
  by_cases hinterval : key = ofString "interval_ms"
  · subst hinterval
    rw [Draft.member_interval, Option.isSome_map] at hsome
    obtain ⟨intervalMs, hread⟩ := Option.isSome_iff_exists.mp hsome
    obtain ⟨n, hn, rfl⟩ := Option.map_eq_some_iff.mp hread
    obtain ⟨hparse, hrest⟩ := asNumStrict_next .uint32 hsees (isScalar_of_numberOf hn)
    refine ⟨true, { item with intervalMs := UInt32.ofInt n }, r.next.2, ?_, ?_, hrest⟩
    · rw [itemField_interval item r rfl, hparse, hn]
    · refine stepsItem (fun draft => by rw [Draft.member_interval, hread]; rfl) rfl ?_
      rintro draft rfl
      rfl
  · refine ⟨false, item, r, itemField_other item r hpriority hmessage hinterval, ?_, hsees⟩
    exact stepsItem (fun draft => draft.member_other v hpriority hmessage hinterval) rfl
      fun draft h => h

/-- A number that cannot be used is passed over, and the item is not to be added. -/
theorem itemField_unusable (h : Unusable (key, v)) (item : JsonItem)
    (hsees : Sees r (.value v :: rest)) :
    ∃ r', itemField key item r = (false, { item with ok := false }, r') ∧ Sees r' rest := by
  obtain ⟨hpriority, hn⟩ | ⟨hinterval, hn⟩ := h.key
  · obtain ⟨hparse, hrest⟩ := asNumStrict_next .int32 hsees h.scalar
    refine ⟨r.next.2, ?_, hrest⟩
    rw [itemField_priority item r hpriority, hparse, hn]
  · obtain ⟨hparse, hrest⟩ := asNumStrict_next .uint32 hsees h.scalar
    refine ⟨r.next.2, ?_, hrest⟩
    rw [itemField_interval item r hinterval, hparse, hn]

theorem member_unusable (h : Unusable (key, v)) (draft : Draft) : draft.member (key, v) = none := by
  obtain ⟨hpriority, hn⟩ | ⟨hinterval, hn⟩ := h.key
  · obtain rfl : key = ofString "priority" := hpriority
    have hread : priorityOf v = none := by
      rw [priorityOf, hn]
      rfl
    rw [Draft.member_priority, hread]
    rfl
  · obtain rfl : key = ofString "interval_ms" := hinterval
    have hread : intervalOf v = none := by
      rw [intervalOf, hn]
      rfl
    rw [Draft.member_interval, hread]
    rfl

/-- The pieces of some members. -/
def piecesOf (members : List (List UInt8 × Document .value)) : List Piece :=
  members.flatMap fun member => [.key member.1, .value member.2]

theorem pieces_members : (members : Document .members) →
    members.pieces = piecesOf members.toMembers
  | .noMembers => by simp [Document.pieces, Document.toMembers, piecesOf]
  | .member key value more => by
      rw [Document.pieces, pieces_members more, Document.toMembers]
      rfl

/-- A value is no key. -/
theorem fieldLoop_value {fuel : Nat} {item : JsonItem} (h : Sees r (.value v :: rest)) :
    fieldLoop itemField (fuel + 1) item r = fieldLoop itemField fuel item r.next.2 := by
  have htoken := h.token
  have hstop : ¬ (r.next.1 = .objectEnd ∨ r.next.1 = .end ∨ r.next.1 = .error ∨
      r.next.1 = .needMoreData) ∧ r.next.1 ≠ .key := by
    rw [htoken]
    cases v <;> simp [pieceReport, firstReport]
  exact (if_neg hstop.1).trans (if_neg hstop.2)

/-- By induction on the members. A key that is skipped does no harm, since nothing is added. -/
theorem fieldLoop_readable {members : List (List UInt8 × Document .value)} (h : Readable members)
    {fuel : Nat} {item : JsonItem} {draft : Option Draft} (hitem : Matches item draft)
    (hsees : Sees r (piecesOf members ++ .objectEnd :: rest))
    (hfuel : Piece.size (piecesOf members ++ .objectEnd :: rest) < fuel) :
    ∃ item' r', fieldLoop itemField fuel item r = (item', r') ∧ Sees r' rest ∧
      Matches item' (draft.bind fun draft => members.foldlM Draft.member draft) := by
  induction h generalizing fuel item draft r with
  | nil =>
      have hend : Sees r (.objectEnd :: rest) := hsees
      obtain ⟨fuel, rfl⟩ := Nat.exists_eq_add_one.mpr (Nat.zero_lt_of_lt hfuel)
      refine ⟨item, r.next.2, fieldLoop_end (.inl hend.token), hend.next.2, ?_⟩
      cases draft <;> exact hitem
  | @usable member members hmember _ ih =>
      have hkey : Sees r (.key member.1 :: .value member.2 ::
          (piecesOf members ++ .objectEnd :: rest)) := hsees
      obtain ⟨fuel, rfl, hfuel'⟩ := @exists_fuel (.key member.1)
        (.value member.2 :: (piecesOf members ++ .objectEnd :: rest)) fuel hfuel
      have hsize : Piece.size (piecesOf members ++ .objectEnd :: rest) < fuel :=
        Nat.lt_of_le_of_lt (Nat.le_add_left _ _) hfuel'
      obtain ⟨taken, item₁, r₁, hcall, hstep, hsees₁⟩ :=
        stepsMember_usable hmember item r.next.2 _ hkey.next.2
      have hbehind : Sees (if taken then r₁ else r₁.skipValue)
          (piecesOf members ++ .objectEnd :: rest) := by
        cases taken with
        | true => exact hsees₁
        | false => exact hsees₁.skipValue
      obtain ⟨item', r', hloop, hrest, hmatches⟩ := ih (hstep draft hitem) hbehind hsize
      have hvalue : r.next.2.value = member.1 := hkey.value rfl
      refine ⟨item', r', (fieldLoop_key hkey.token (hvalue.symm ▸ hcall)).trans hloop, hrest, ?_⟩
      rw [Option.bind_assoc] at hmatches
      exact hmatches
  | @unusable member next members hmember hnext _ ih =>
      have hkey : Sees r (.key member.1 :: .value member.2 :: .key next.1 :: .value next.2 ::
          (piecesOf members ++ .objectEnd :: rest)) := hsees
      obtain ⟨fuel, rfl, hfuel'⟩ := @exists_fuel (.key member.1) (.value member.2 ::
        .key next.1 :: .value next.2 :: (piecesOf members ++ .objectEnd :: rest)) fuel hfuel
      obtain ⟨r₁, hcall, hsees₁⟩ := itemField_unusable hmember item hkey.next.2
      have hskipped : Sees r₁.skipValue
          (.value next.2 :: (piecesOf members ++ .objectEnd :: rest)) := hsees₁.skipValue
      have hsize : Piece.size (.value next.2 :: (piecesOf members ++ .objectEnd :: rest)) < fuel :=
        Nat.lt_of_le_of_lt (Nat.le_add_left _ _) (Nat.lt_of_le_of_lt (Nat.le_add_left _ _) hfuel')
      obtain ⟨fuel, rfl, hsize'⟩ := exists_fuel hsize
      have hbehind := hskipped.next.2
      rw [inside_of_isScalar hnext, List.nil_append] at hbehind hsize'
      have hvalue : r.next.2.value = member.1 := hkey.value rfl
      obtain ⟨item', r', hloop, hrest, hmatches⟩ :=
        @ih _ fuel { item with ok := false } none rfl hbehind hsize'
      have hround : fieldLoop itemField (fuel + 1 + 1) item r =
          fieldLoop itemField fuel { item with ok := false } r₁.skipValue.next.2 :=
        (fieldLoop_key hkey.token (hvalue.symm ▸ hcall)).trans (fieldLoop_value hskipped)
      refine ⟨item', r', hround.trans hloop, hrest, ?_⟩
      cases draft with
      | none => exact hmatches
      | some draft =>
          rw [Option.bind_some, List.foldlM_cons, member_unusable hmember draft]
          exact hmatches

/-- An object as a whole. -/
theorem forEachField_readable {members : Document .members} (h : Readable members.toMembers)
    (hsees : Sees r (members.pieces ++ .objectEnd :: rest)) :
    Sees (r.forEachField itemField {}).2 rest ∧
      Matches (r.forEachField itemField {}).1 (draftOf members.toMembers) := by
  rw [pieces_members] at hsees
  have hstart : Matches {} (some {}) := rfl
  obtain ⟨item, r', hloop, hrest, hmatches⟩ :=
    fieldLoop_readable h hstart hsees (Nat.lt_succ_of_le hsees.size_le)
  rw [forEachField, hloop]
  exact ⟨hrest, hmatches⟩

end Objects

/-- What the text of an object asks for is registered. -/
theorem mergeItem_adds (now : Nat → Int) (m : PollManager) {members : Document .members}
    {item : JsonItem} (hitem : Matches item (draftOf members.toMembers))
    (hsound : Sound members.toMembers) :
    Adds now m (m.mergeItem item (now m.tickets))
      (entryOf (slaveOf m.ownAddress) (.object members)).toList := by
  rw [entryOf]
  cases hdraft : draftOf members.toMembers with
  | none =>
      rw [hdraft] at hitem
      have hok : item.ok = false := hitem
      rw [mergeItem, if_neg (by simp [hok])]
      exact .refl now m
  | some draft =>
      rw [hdraft] at hitem
      obtain rfl : item = ⟨draft.priority, charsOf draft.hex, draft.intervalMs, true⟩ := hitem
      rw [Option.bind_some]
      cases hmessage : messageOf draft.hex with
      | none =>
          have hempty : draft.hex = [] := by
            obtain hempty | hsome := hsound draft hdraft
            · exact hempty
            · rw [hmessage] at hsome
              cases hsome
          rw [mergeItem, if_neg (by simp [hempty, charsOf])]
          exact .refl now m
      | some message =>
          obtain ⟨hbytes, hne⟩ := messageOf_eq_some hmessage
          have hadds := addPollItem_adds now m draft.priority message draft.intervalMs
          rw [mergeItem, if_pos ⟨rfl, hne⟩, JsonItem.bytes, hbytes, Option.bind_some]
          split at hadds
          · rename_i hpolls
            rw [if_pos hpolls]
            exact hadds
          · rename_i hpolls
            rw [if_neg hpolls]
            exact hadds

section Array
variable {now : Nat → Int} {fuel : Nat} {m : PollManager} {r : JsonReader}

theorem mergeLoop_end (h : r.next.1 = .arrayEnd ∨ r.next.1 = .end) :
    mergeLoop now (fuel + 1) m r = (m, true) := if_pos h

theorem mergeLoop_object (h : r.next.1 = .objectStart) :
    mergeLoop now (fuel + 1) m r =
      mergeLoop now fuel
        (m.mergeItem (r.next.2.forEachField itemField {}).1 (now m.tickets))
        (r.next.2.forEachField itemField {}).2 := by
  have hend : ¬ (r.next.1 = .arrayEnd ∨ r.next.1 = .end) := by
    rw [h]
    simp
  have herror : r.next.1 ≠ .error := by
    rw [h]
    simp
  exact (if_neg hend).trans <| (if_neg herror).trans (if_pos h)

/-- Behind a token that starts no object one value is skipped. -/
theorem mergeLoop_skip {v : Document .value} {rest : List Piece} (h : Sees r (.value v :: rest))
    (hv : ∀ members, v ≠ .object members) :
    mergeLoop now (fuel + 1) m r = mergeLoop now fuel m r.next.2.skipValue := by
  have htoken := h.token
  have hother : ¬ (r.next.1 = .arrayEnd ∨ r.next.1 = .end) ∧ r.next.1 ≠ .error ∧
      r.next.1 ≠ .objectStart := by
    rw [htoken]
    cases v <;> first | exact absurd rfl (hv _) | simp [pieceReport, firstReport]
  exact (if_neg hother.1).trans <| (if_neg hother.2.1).trans (if_neg hother.2.2)

theorem entryOf_scalar (slave : UInt8) {v : Document .value} (hv : isScalar v = true) :
    entryOf slave v = none ∧ ∀ members, v ≠ .object members := by
  cases v <;> first | exact ⟨rfl, by simp⟩ | cases hv

theorem size_behind {front pieces : List Piece} (h : Piece.size (front ++ pieces) < fuel) :
    Piece.size pieces < fuel := by
  rw [Piece.size_append] at h
  exact Nat.lt_of_le_of_lt (Nat.le_add_left _ _) h

theorem filterMap_cons_toList {slave : UInt8} (v : Document .value)
    (elements : List (Document .value)) :
    (v :: elements).filterMap (entryOf slave) =
      (entryOf slave v).toList ++ elements.filterMap (entryOf slave) := by
  rw [List.filterMap_cons]
  cases entryOf slave v <;> rfl

/-- By induction on the elements: what an element asks for is registered, and the loop goes on in
front of an element, or ends. -/
theorem mergeLoop_adds {slave : UInt8} {elements : List (Document .value)}
    (h : Loadable slave elements) (hslave : slaveOf m.ownAddress = slave)
    (hsees : Sees r (elements.map .value ++ [.arrayEnd]))
    (hfuel : Piece.size (elements.map .value ++ [.arrayEnd]) < fuel) :
    ∃ m', mergeLoop now fuel m r = (m', true) ∧
      Adds now m m' (elements.filterMap (entryOf slave)) := by
  induction h generalizing fuel m r with
  | nil =>
      obtain ⟨fuel, rfl⟩ := Nat.exists_eq_add_one.mpr (Nat.zero_lt_of_lt hfuel)
      have hend : Sees r [.arrayEnd] := hsees
      exact ⟨m, mergeLoop_end (.inl hend.token), .refl now m⟩
  | @object members elements hreadable hsound _ ih =>
      have hobject : Sees r (.value (.object members) :: (elements.map .value ++ [.arrayEnd])) :=
        hsees
      obtain ⟨fuel, rfl, hfuel'⟩ := exists_fuel hfuel
      have hinside := hobject.next.2
      rw [inside, List.append_assoc, List.singleton_append] at hinside
      obtain ⟨hrest, hmatches⟩ := forEachField_readable hreadable hinside
      have hadds := mergeItem_adds now m hmatches hsound
      obtain ⟨m', hloop, hadds'⟩ := ih ((congrArg slaveOf hadds.ownAddress).trans hslave) hrest
        (size_behind hfuel')
      refine ⟨m', (mergeLoop_object hobject.token).trans hloop, ?_⟩
      rw [hslave] at hadds
      rw [filterMap_cons_toList]
      exact hadds.trans hadds'
  | @emptyArray elements _ ih =>
      have harray : Sees r (.value (.array .noElements) :: (elements.map .value ++ [.arrayEnd])) :=
        hsees
      obtain ⟨fuel, rfl, hfuel'⟩ := exists_fuel hfuel
      have hbracket : Sees r.next.2 (.arrayEnd :: (elements.map .value ++ [.arrayEnd])) :=
        harray.next.2
      obtain ⟨m', hloop, hadds⟩ := ih hslave hbracket.skipValue (size_behind hfuel')
      exact ⟨m', (mergeLoop_skip harray (by simp)).trans hloop, hadds⟩
  | @last v hv =>
      have hvalue : Sees r (.value v :: [.arrayEnd]) := hsees
      obtain ⟨hnone, hobject⟩ := entryOf_scalar slave hv
      obtain ⟨fuel, rfl, hfuel'⟩ := exists_fuel hfuel
      obtain ⟨fuel, rfl⟩ := Nat.exists_eq_add_one.mpr (Nat.zero_lt_of_lt hfuel')
      have hbracket := hvalue.next.2
      rw [inside_of_isScalar hv, List.nil_append] at hbracket
      have hend := hbracket.skipValue.next_nil
      refine ⟨m, (mergeLoop_skip hvalue hobject).trans (mergeLoop_end (.inr hend.1)), ?_⟩
      rw [filterMap_cons_toList, hnone]
      exact .refl now m
  | @scalar v next elements hv hnext _ ih =>
      have hvalue : Sees r (.value v :: .value next :: (elements.map .value ++ [.arrayEnd])) :=
        hsees
      obtain ⟨hnone, hobject⟩ := entryOf_scalar slave hv
      obtain ⟨fuel, rfl, hfuel'⟩ := exists_fuel hfuel
      have hneighbour := hvalue.next.2
      rw [inside_of_isScalar hv, List.nil_append] at hneighbour hfuel'
      obtain ⟨m', hloop, hadds⟩ := ih hslave hneighbour.skipValue
        (@size_behind fuel [.value next] _ hfuel')
      refine ⟨m', (mergeLoop_skip hvalue hobject).trans hloop, ?_⟩
      rw [filterMap_cons_toList, filterMap_cons_toList, hnone, hnext]
      exact hadds

end Array

/-- Each element adds the item that it asks for, and nothing else is added. -/
structure Loads (now : Nat → Int) (m : PollManager) (json : List UInt8)
    (elements : Document .elements) : Prop where
  accepted : (m.mergeFromText now json).2 = true
  adds : Adds now m (m.mergeFromText now json).1
    (elements.toElements.filterMap (entryOf (slaveOf m.ownAddress)))

theorem loads_of_loadable (now : Nat → Int) {m : PollManager} {json : List UInt8}
    {elements : Document .elements} (htext : IsText json (.array elements))
    (h : Loadable (slaveOf m.ownAddress) elements.toElements) : Loads now m json elements := by
  have hsees := htext.sees
  have hinside : Sees (ofText json).next.2 (elements.toElements.map .value ++ [.arrayEnd]) := by
    have hnext := hsees.next.2
    rwa [inside, List.append_nil, Document.pieces_elements] at hnext
  obtain ⟨m', hloop, hadds⟩ :=
    mergeLoop_adds h rfl hinside (Nat.lt_succ_of_le hinside.size_le)
  have hmerge : m.mergeFromText now json = (m', true) :=
    (if_pos hsees.token).trans hloop
  exact ⟨congrArg Prod.snd hmerge, hmerge ▸ hadds⟩

/-- Two items, an empty array, and a scalar in front of an object that asks for nothing. -/
def severalText : List UInt8 :=
  ofString "[\x7b\"message\":\"0304\",\"priority\":9\x7d,[],true," ++
    ofString "\x7b\"note\":[1,\x7b\"message\":\"zz\"\x7d]\x7d," ++
    ofString "\x7b\"interval_ms\":\"500\",\"message\":\"0506\"\x7d]"

def severalElements : Document .elements :=
  .element (.object <|
    .member (ofString "message") (.string (ofString "0304")) <|
    .member (ofString "priority") (.number (ofString "9")) .noMembers) <|
  .element (.array .noElements) <|
  .element (.bool true) <|
  .element (.object <|
    .member (ofString "note") (.array <|
      .element (.number (ofString "1")) <|
      .element (.object <|
        .member (ofString "message") (.string (ofString "zz")) .noMembers) .noElements)
      .noMembers) <|
  .element (.object <|
    .member (ofString "interval_ms") (.string (ofString "500")) <|
    .member (ofString "message") (.string (ofString "0506")) .noMembers) .noElements

theorem isText_several : IsText severalText (.array severalElements) := by
  refine isText_of_lexemes (by decide +kernel) ?_
  simp only [severalElements, Document.lexemes, Document.isEmpty, if_true, Bool.false_eq_true,
    if_false, List.append_nil, List.cons_append, List.nil_append, List.forall_mem_cons]
  have hmessage := stringContent_key ⟨ofString "message", by decide +kernel⟩
  have hone : NumberText (ofString "1") := Chars.numberText_toChars 1
  have hnine : NumberText (ofString "9") := Chars.numberText_toChars 9
  exact ⟨trivial, trivial, hmessage, trivial,
    stringContent_key ⟨ofString "0304", by decide +kernel⟩, trivial,
    stringContent_key ⟨ofString "priority", by decide +kernel⟩, trivial, hnine, trivial, trivial,
    trivial, trivial, trivial, trivial, trivial, trivial,
    stringContent_key ⟨ofString "note", by decide +kernel⟩, trivial, trivial, hone, trivial,
    trivial, hmessage, trivial, stringContent_key ⟨ofString "zz", by decide +kernel⟩, trivial,
    trivial, trivial, trivial, trivial,
    stringContent_key ⟨ofString "interval_ms", by decide +kernel⟩, trivial,
    stringContent_key ⟨ofString "500", by decide +kernel⟩, trivial, hmessage, trivial,
    stringContent_key ⟨ofString "0506", by decide +kernel⟩, trivial, trivial,
    List.forall_mem_nil _⟩

theorem loadable_several : Loadable (slaveOf 0xff) severalElements.toElements := by
  simp only [severalElements, Document.toElements]
  refine .object ?_ ?_ <| .emptyArray <| .scalar rfl ?_ <| .object ?_ ?_ .nil
  · simp only [Document.toMembers]
    refine .usable (fun draft => ?_) <| .usable (fun draft => ?_) .nil
    · rw [Draft.member_message]
      rfl
    · rw [Draft.member_priority]
      rfl
  · intro draft hdraft
    simp only [Document.toMembers] at hdraft
    obtain rfl := Option.some.inj hdraft
    exact .inr (by decide)
  · simp only [entryOf, Document.toMembers]
    decide
  · simp only [Document.toMembers]
    refine .usable (fun draft => ?_) <| .usable (fun draft => ?_) .nil
    · rw [Draft.member_interval]
      rfl
    · rw [Draft.member_message]
      rfl
  · intro draft hdraft
    simp only [Document.toMembers] at hdraft
    obtain rfl := Option.some.inj hdraft
    exact .inr (by decide)

theorem loads_of_loadable_several :
    IsText severalText (.array severalElements) ∧
      Loadable (slaveOf 0xff) severalElements.toElements ∧
      Loads (fun _ => 0) {} severalText severalElements :=
  ⟨isText_several, loadable_several, loads_of_loadable _ isText_several loadable_several⟩

/-- In `[1,{"message":"0304"}]` the number takes the object with it. -/
theorem not_loads :
    ¬ ∀ (now : Nat → Int) (m : PollManager) (json : List UInt8) (elements : Document .elements),
      IsText json (.array elements) → Loads now m json elements := by
  intro h
  have htext : IsText (ofString "[1,\x7b\"message\":\"0304\"\x7d]") (.array (.element
      (.number [0x31]) (.element (.object (.member (ofString "message")
        (.string (ofString "0304")) .noMembers)) .noElements))) := by
    refine isText_of_lexemes rfl ?_
    simp only [Document.lexemes, Document.isEmpty, if_true, Bool.false_eq_true, if_false,
      List.append_nil, List.cons_append, List.nil_append, List.forall_mem_cons]
    exact ⟨trivial, numberText_digit (by decide), trivial, trivial,
      stringContent_key ⟨ofString "message", by decide⟩, trivial,
      stringContent_key ⟨ofString "0304", by decide⟩, trivial, trivial,
      List.forall_mem_nil _⟩
  obtain ⟨added, hperm, hentries, -⟩ := (h (fun _ => 0) {} _ _ htext).adds.items
  have hitems : (mergeFromText {} (fun _ => 0)
      (ofString "[1,\x7b\"message\":\"0304\"\x7d]")).1.items = [] := by decide +kernel
  have hlength := congrArg List.length hentries
  rw [hitems] at hperm
  obtain ⟨-, rfl⟩ := List.append_eq_nil_iff.mp hperm.nil_eq.symm
  have hentry : entryOf (slaveOf 0xff) (.object (.member (ofString "message")
      (.string (ofString "0304")) .noMembers)) = some ⟨5, [0x03, 0x04], 1000000⟩ := by
    simp only [entryOf, Document.toMembers]
    decide
  rw [Document.toElements, Document.toElements, Document.toElements, filterMap_cons_toList,
    filterMap_cons_toList, hentry] at hlength
  cases hlength

end PollManager

end Ebus
