import Ebus.Verification.Accepting
import Ebus.Verification.Pieces
import Ebus.Verification.Streaming

/-!
# The scanners of the reader

`next` reads the strings of a text in units, where `\u` goes with the four characters behind it;
`validate` and `skipToClosing` let a backslash go with one character. On a text whose strings
they take in the same way, and whose numbers have no zero byte, a walk with `next` finds the
tokens of the document, and `skipValue` and `rawValue` go over a value as the walk does
(`agrees_of_readable`). The first lexeme that is not of that kind puts the walk out of step
(`readable_of_agrees`).
-/

namespace Ebus

open Json

namespace JsonReader

/-- The reader after some calls of `next`. -/
def walk : Nat → JsonReader → JsonReader
  | 0, r => r
  | n + 1, r => walk n r.next.2

/-- Every end closes the innermost start, and none is left open; `outer` are the starts so far. -/
def balanced (outer : List Token) : List Token → Bool
  | [] => outer = []
  | .objectStart :: ts => balanced (.objectStart :: outer) ts
  | .arrayStart :: ts => balanced (.arrayStart :: outer) ts
  | .objectEnd :: ts => outer.head? = some .objectStart && balanced outer.tail ts
  | .arrayEnd :: ts => outer.head? = some .arrayStart && balanced outer.tail ts
  | _ :: ts => balanced outer ts

/-- The walk over a text sees no error, ends where the text ends, and its tokens are balanced. -/
structure WalksThrough (json : List UInt8) : Prop where
  exists_reports : ∃ reports, batch json = reports ++ [(.end, [])] ∧
    (∀ report ∈ reports, report.1 ≠ .error ∧ report.1 ≠ .end) ∧
    balanced [] (reports.map Prod.fst) = true
  rest : (ofText json).drain.2.rest = []

/-- The reader is in front of a value, but for white space and a separator, and all ways over the
value lead to what is behind it. -/
structure CrossesAt (r : JsonReader) (v : Document .value) (source tail : List UInt8) : Prop where
  front : ∃ gap, (∀ c ∈ gap, isSpace c = true ∨ c = 0x3a ∨ c = 0x2c) ∧
    r.rest = gap ++ (source ++ tail)
  walk : (walk (tokens v.lexemes).length r).rest = tail
  skipValue : r.skipValue.rest = tail
  rawValue : r.rawValue.1 = source ∧ r.rawValue.2.rest = tail

/-- The scanners agree on a text: it is walked through, and at each of its values, behind the tokens
of what is before it, all ways lead behind the value. -/
structure ScannersAgree (json : List UInt8) : Prop where
  walks : WalksThrough json
  crosses : ∀ doc items trailing, Values json doc items trailing →
    ∀ (before inner after : List Spaced) (v : Document .value),
      items = before ++ (inner ++ after) → inner.map Spaced.lexeme = v.lexemes →
      isColon (after.map Spaced.lexeme) = false →
      CrossesAt (JsonReader.walk (tokens (before.map Spaced.lexeme)).length (ofText json)) v
        (source inner) (text after trailing)

/-- The strings of a text can be taken in units, and its numbers have no zero byte. -/
def InUnits (json : List UInt8) : Prop :=
  ∀ doc items trailing, Values json doc items trailing →
    (∀ content, .string content ∈ doc.lexemes → Units content) ∧
      ∀ digits, .number digits ∈ doc.lexemes → 0 ∉ digits

theorem readable_iff {l : Lexeme} (h : l.Loose validNumberChar) :
    Readable l ↔ (∀ content, l = .string content → Units content) ∧
      ∀ digits, l = .number digits → 0 ∉ digits := by
  cases l with
  | string content =>
      refine ⟨fun hl => ⟨?_, ?_⟩, fun hunits => ⟨h, hunits.1 _ rfl⟩⟩
      · rintro _ ⟨⟩
        exact hl.2
      · rintro _ ⟨⟩
  | number text =>
      obtain ⟨c, rest, rfl, hc, hrest⟩ := h
      constructor
      · rintro ⟨c', rest', heq, -, hrest'⟩
        obtain ⟨rfl, rfl⟩ := List.cons.inj heq
        refine ⟨by rintro _ ⟨⟩, ?_⟩
        rintro _ ⟨⟩ hzero
        obtain rfl | hmem := List.mem_cons.mp hzero
        · revert hc
          decide
        · have := hrest' 0 hmem
          revert this
          decide
      · rintro ⟨-, hzero⟩
        refine ⟨c, rest, rfl, hc, fun char hchar => ?_⟩
        have hne : char ≠ 0 := by
          rintro rfl
          exact hzero _ rfl (List.mem_cons_of_mem _ hchar)
        simpa [validNumberChar, hne] using hrest char hchar
  | _ =>
      refine ⟨fun _ => ⟨?_, ?_⟩, fun _ => trivial⟩
      · rintro _ ⟨⟩
      · rintro _ ⟨⟩

theorem inUnits_iff (json : List UInt8) :
    InUnits json ↔ ∀ doc items trailing, Values json doc items trailing →
      ∀ l ∈ doc.lexemes, Readable l := by
  constructor
  · intro h doc items trailing hvalues l hl
    obtain ⟨hstrings, hnumbers⟩ := h doc items trailing hvalues
    refine (readable_iff (hvalues.loose l hl)).mpr ⟨?_, ?_⟩
    · rintro content rfl
      exact hstrings content hl
    · rintro digits rfl
      exact hnumbers digits hl
  · intro h doc items trailing hvalues
    have hreadable := h doc items trailing hvalues
    refine ⟨fun content hmem => ?_, fun digits hmem => ?_⟩
    · exact ((readable_iff (hvalues.loose _ hmem)).mp (hreadable _ hmem)).1 content rfl
    · exact ((readable_iff (hvalues.loose _ hmem)).mp (hreadable _ hmem)).2 digits rfl

theorem Values.at {json : List UInt8} {doc : Document .elements} {items : List Spaced}
    {trailing : List UInt8} (h : Values json doc items trailing) :
    At (ofText json) items trailing := by
  rw [h.eq_text]
  exact at_ofText h.spacing (h.lexemes ▸ doc.adjacent) (h.lexemes ▸ h.loose)

section Walk
variable {r : JsonReader} {gap before rest : List Spaced} {trailing : List UInt8}

/-- Behind the tokens of some lexemes the reader is in front of what follows them. By induction on
the lexemes. -/
theorem At.walk (h : At r (gap ++ (before ++ rest)) trailing) (hgap : Gap gap)
    (hbefore : ∀ l ∈ before.map Spaced.lexeme, Readable l) :
    ∃ gap', Gap gap' ∧ At (JsonReader.walk (tokens (before.map Spaced.lexeme)).length r)
      (gap' ++ rest) trailing := by
  induction before generalizing r gap with
  | nil => exact ⟨gap, hgap, h⟩
  | cons item before ih =>
      obtain ⟨hl, hothers⟩ := List.forall_mem_cons.mp hbefore
      cases hsep : item.lexeme.isSeparator with
      | true =>
          rw [List.map_cons, tokens, if_pos hsep]
          obtain rfl | ⟨other, rfl, hother⟩ := hgap
          · exact @ih _ [item] h (.inr ⟨item, rfl, hsep⟩) hothers
          · have hfollows := h.adjacent.1.1 hother
            rw [hsep] at hfollows
            cases hfollows
      | false =>
          rw [List.map_cons, tokens, if_neg (by simp [hsep]), List.length_cons, JsonReader.walk,
            h.next hgap hl hsep]
          exact @ih _ [] (h.consumed hgap _) (.inl rfl) hothers

theorem walk_add (m n : Nat) (r : JsonReader) : walk (m + n) r = walk n (walk m r) := by
  induction m generalizing r with
  | zero => rw [Nat.zero_add, walk]
  | succ m ih => rw [Nat.succ_add, walk, ih, walk]

theorem length_tokens_append (ls ls' : List Lexeme) :
    (tokens (ls ++ ls')).length = (tokens ls).length + (tokens ls').length := by
  induction ls with
  | nil => exact (Nat.zero_add _).symm
  | cons l ls ih =>
      rw [List.cons_append, tokens, tokens]
      split
      · exact ih
      · rw [List.length_cons, List.length_cons, ih, Nat.succ_add]

/-- A value ends with a lexeme that is no separator. -/
theorem exists_lexemes_append (v : Document .value) :
    ∃ front l, v.lexemes = front ++ [l] ∧ l.isSeparator = false := by
  cases v with
  | object members => exact ⟨.openObject :: members.lexemes, .closeObject, rfl, rfl⟩
  | array elements => exact ⟨.openArray :: elements.lexemes, .closeArray, rfl, rfl⟩
  | _ => exact ⟨[], _, rfl, rfl⟩

/-- The tokens of a value lead exactly behind it. -/
theorem At.walk_value {inner after : List Spaced} (v : Document .value)
    (h : At r (gap ++ (inner ++ after)) trailing) (hgap : Gap gap)
    (hinner : inner.map Spaced.lexeme = v.lexemes) (hreadable : ∀ l ∈ v.lexemes, Readable l)
    (hafter : isColon (after.map Spaced.lexeme) = false) :
    (JsonReader.walk (tokens v.lexemes).length r).rest = text after trailing := by
  obtain ⟨front, l, hfront, hsep⟩ := exists_lexemes_append v
  obtain ⟨init, final, rfl, hinit, hfinal⟩ := List.map_eq_append_iff.mp (hinner.trans hfront)
  obtain ⟨last, nothing, rfl, rfl, hnothing⟩ := List.map_eq_cons_iff.mp hfinal
  obtain rfl := List.map_eq_nil_iff.mp hnothing
  rw [hfront] at hreadable ⊢
  rw [List.append_assoc] at h
  obtain ⟨gap', hgap', hat⟩ := h.walk hgap fun l hl =>
    hreadable l (List.mem_append_left _ (hinit ▸ hl))
  rw [List.singleton_append] at hat
  have hone : (tokens [last.lexeme]).length = 1 := by
    rw [tokens, if_neg (by simp [hsep])]
    rfl
  rw [length_tokens_append, hone, walk_add, ← hinit, JsonReader.walk, JsonReader.walk,
    hat.next hgap' (hreadable _ (by simp)) hsep]
  have hkey : tokenOf (colonAhead (text after trailing)) last.lexeme ≠ .key := by
    rw [hat.colonAhead_eq, hafter]
    cases last.lexeme <;> simp [tokenOf]
  exact if_neg hkey

end Walk

/-- In front of a value there is white space, and at most a separator. -/
theorem At.front {inner after : List Spaced} (v : Document .value)
    (h : At r (gap ++ (inner ++ after)) trailing) (hgap : Gap gap)
    (hinner : inner.map Spaced.lexeme = v.lexemes) :
    ∃ front, (∀ c ∈ front, isSpace c = true ∨ c = 0x3a ∨ c = 0x2c) ∧
      r.rest = front ++ (source inner ++ text after trailing) := by
  have hne : inner ≠ [] := by
    rintro rfl
    obtain ⟨l, more, hlexemes, -⟩ := Document.exists_lexemes_cons v.isEmpty_value
    rw [hlexemes] at hinner
    cases hinner
  have hloose : ∀ l ∈ inner.map Spaced.lexeme, l.Loose validNumberChar := by
    intro l hl
    refine h.loose l ?_
    rw [List.map_append, List.map_append]
    exact List.mem_append_right _ (List.mem_append_left _ hl)
  have hsource := @dropWhile_source inner after _ hne h.spacing.right hloose
  have hspaces (bytes : List UInt8) : ∀ c ∈ bytes.takeWhile isSpace, isSpace c = true :=
    fun c hc => List.mem_takeWhile_imp hc
  have hrest := (List.takeWhile_append_dropWhile (p := isSpace) (l := r.rest)).symm
  obtain rfl | ⟨other, rfl, hother⟩ := hgap
  · refine ⟨r.rest.takeWhile isSpace, fun c hc => .inl (hspaces _ c hc), ?_⟩
    rwa [h.rest, List.nil_append, hsource] at hrest
  · have hseparator : At r (other :: (inner ++ after)) trailing := h
    obtain ⟨d, hd, hchar⟩ := hseparator.exists_separator hother
    have htext := (List.takeWhile_append_dropWhile (p := isSpace)
      (l := text (inner ++ after) trailing)).symm
    rw [hsource] at htext
    refine ⟨r.rest.takeWhile isSpace ++ d :: (text (inner ++ after) trailing).takeWhile isSpace,
      ?_, ?_⟩
    · intro c hc
      obtain hc | hc := List.mem_append.mp hc
      · exact .inl (hspaces _ c hc)
      · obtain rfl | hc := List.mem_cons.mp hc
        · exact .inr hchar
        · exact .inl (hspaces _ c hc)
    · rw [List.append_assoc, List.cons_append, ← htext, ← hd]
      exact hrest

theorem exists_of_mem_tokens {ls : List Lexeme} {report : Token × List UInt8}
    (h : report ∈ tokens ls) :
    ∃ l colon, l.isSeparator = false ∧ tokenOf colon l = report.1 := by
  induction ls with
  | nil => cases h
  | cons l ls ih =>
      rw [tokens] at h
      split at h
      · exact ih h
      · rename_i hsep
        obtain rfl | h := List.mem_cons.mp h
        · exact ⟨l, isColon ls, Bool.not_eq_true _ ▸ hsep, rfl⟩
        · exact ih h

section Readable
variable {r : JsonReader} {ls : List Lexeme}

theorem Reads.drainLoop (h : Reads r ls) {fuel : Nat} (hfuel : ls.length < fuel) :
    (drainLoop fuel r).1 = tokens ls ++ [(.end, [])] ∧ (drainLoop fuel r).2.rest = [] := by
  induction ls generalizing r fuel with
  | nil =>
      obtain ⟨fuel, rfl⟩ := Nat.exists_eq_add_one.mpr hfuel
      have hnext := h.next_nil
      refine ⟨drainLoop_end fuel (by rw [hnext]), ?_⟩
      rw [JsonReader.drainLoop, hnext]
  | cons l ls ih =>
      rw [List.length_cons] at hfuel
      cases hsep : l.isSeparator with
      | true =>
          rw [tokens, if_pos hsep]
          exact ih (h.separator hsep) (by omega)
      | false =>
          obtain ⟨fuel, rfl⟩ := Nat.exists_eq_add_one.mpr (Nat.zero_lt_of_lt hfuel)
          obtain ⟨htoken, hreads⟩ := h.next hsep
          obtain ⟨hreports, hrest⟩ := ih hreads (Nat.lt_of_succ_lt_succ hfuel)
          rw [drainLoop_succ fuel (htoken ▸ Ahead.tokenOf_proper hsep _), h.report hsep, tokens,
            if_neg (by simp [hsep])]
          exact ⟨congrArg _ hreports, hrest⟩

/-- A document opens and closes its containers one in the other. -/
theorem balanced_document {n : Nonterminal} (doc : Document n) (outer : List Token)
    (tail : List Lexeme) :
    balanced outer ((tokens (doc.lexemes ++ tail)).map Prod.fst) =
      balanced outer ((tokens tail).map Prod.fst) := by
  have hbehind {n : Nonterminal} {rest : Document n} {outer : List Token} {tail : List Lexeme}
      (ih : balanced outer ((tokens (rest.lexemes ++ tail)).map Prod.fst) =
        balanced outer ((tokens tail).map Prod.fst)) :
      balanced outer ((tokens (rest.behind ++ tail)).map Prod.fst) =
        balanced outer ((tokens tail).map Prod.fst) := by
    rw [Document.behind]
    split
    · rfl
    · exact ih
  induction doc generalizing outer tail with
  | string content =>
      rw [Document.lexemes, List.singleton_append, tokens, if_neg (by simp [Lexeme.isSeparator])]
      cases hcolon : isColon tail <;> rfl
  | number text | bool value | null => rfl
  | object members ih =>
      have hinner := ih (.objectStart :: outer) (.closeObject :: tail)
      rw [Document.lexemes, List.cons_append, List.append_assoc, List.singleton_append]
      exact hinner.trans (Bool.true_and _)
  | array elements ih =>
      have hinner := ih (.arrayStart :: outer) (.closeArray :: tail)
      rw [Document.lexemes, List.cons_append, List.append_assoc, List.singleton_append]
      exact hinner.trans (Bool.true_and _)
  | noMembers | noElements => rfl
  | member key value rest ih ih' =>
      rw [Document.lexemes_member, List.cons_append, List.cons_append, List.append_assoc]
      exact (ih outer _).trans (hbehind (ih' outer tail))
  | element value rest ih ih' =>
      rw [Document.lexemes_element, List.append_assoc]
      exact (ih outer _).trans (hbehind (ih' outer tail))

end Readable

/-- On lexemes that are read as they stand the scanners agree. -/
theorem agrees_of_readable {json : List UInt8} (hvalid : validate json = true)
    (h : ∀ doc items trailing, Values json doc items trailing → ∀ l ∈ doc.lexemes, Readable l) :
    ScannersAgree json := by
  obtain ⟨doc, items, trailing, hvalues⟩ := (validate_eq_true_iff json).mp hvalid
  have hreadable := h doc items trailing hvalues
  have hreads : Reads (ofText json) doc.lexemes :=
    ⟨⟨[], items, trailing, .inl rfl, hvalues.lexemes, hvalues.at⟩, hreadable⟩
  obtain ⟨hreports, hrest⟩ := hreads.drainLoop (Nat.lt_succ_of_le hreads.length_le)
  refine ⟨⟨⟨tokens doc.lexemes, hreports, ?_, ?_⟩, hrest⟩, ?_⟩
  · intro report hreport
    obtain ⟨l, colon, hsep, htoken⟩ := exists_of_mem_tokens hreport
    have hproper := Ahead.tokenOf_proper hsep colon
    exact ⟨htoken ▸ hproper.2.1, htoken ▸ hproper.1⟩
  · have hbalanced := balanced_document doc [] []
    rw [List.append_nil] at hbalanced
    exact hbalanced
  · rintro doc' items' trailing' hvalues' before inner after v rfl hinner hafter
    have hall := h doc' _ trailing' hvalues'
    rw [← hvalues'.lexemes, List.map_append, List.map_append] at hall
    have hv : ∀ l ∈ v.lexemes, Readable l := fun l hl =>
      hall l (List.mem_append_right _ (List.mem_append_left _ (hinner ▸ hl)))
    obtain ⟨gap, hgap, hat⟩ := @At.walk _ [] _ _ _ hvalues'.at (.inl rfl) fun l hl =>
      hall l (List.mem_append_left _ hl)
    have hskips := hat.skips v hgap hinner hv hafter
    have hraw := hat.rawValue_value v hgap hinner hv hafter
    exact ⟨hat.front v hgap hinner, hat.walk_value v hgap hinner hv hafter, hskips.rest, hraw.1,
      hraw.2.1⟩

theorem isColon_append {n : Nonterminal} (doc : Document n) {tail : List Lexeme}
    (htail : isColon tail = false) : isColon (doc.lexemes ++ tail) = false := by
  cases hempty : doc.isEmpty with
  | true =>
      rw [Document.lexemes_eq_nil hempty]
      exact htail
  | false =>
      obtain ⟨l, more, hmore, hstarts⟩ := Document.exists_lexemes_cons hempty
      rw [hmore]
      cases l with
      | colon => cases hstarts.1
      | _ => rfl

/-- A colon stands between a key and its value. By induction on the document. -/
theorem exists_of_colon {n : Nonterminal} (doc : Document n) {front tail after : List Lexeme}
    {l : Lexeme} (htail : isColon tail = false)
    (h : doc.lexemes ++ tail = front ++ l :: .colon :: after) :
    (∃ key, l = .string key ∧ ∃ (v : Document .value) (rest : List Lexeme),
      after = v.lexemes ++ rest ∧ isColon rest = false) ∨
    ∃ front', tail = front' ++ l :: .colon :: after := by
  have hcons {a : Lexeme} {rest front : List Lexeme} (hrest : isColon rest = false)
      (h : a :: rest = front ++ l :: .colon :: after) :
      ∃ front', rest = front' ++ l :: .colon :: after := by
    cases front with
    | nil =>
        rw [(List.cons.inj h).2] at hrest
        cases hrest
    | cons b front => exact ⟨front, (List.cons.inj h).2⟩
  have hbehind {n : Nonterminal} (rest : Document n) {tail : List Lexeme}
      (htail : isColon tail = false) : isColon (rest.behind ++ tail) = false := by
    rw [Document.behind]
    split
    · exact htail
    · rfl
  induction doc generalizing front tail with
  | string content | number text | bool value | null => exact .inr (hcons htail h)
  | object members ih =>
      rw [Document.lexemes, List.cons_append, List.append_assoc, List.singleton_append] at h
      obtain ⟨front', hfront⟩ := hcons (isColon_append members rfl) h
      obtain hfound | ⟨front'', hfront'⟩ := ih rfl hfront
      · exact .inl hfound
      · exact .inr (hcons htail hfront')
  | array elements ih =>
      rw [Document.lexemes, List.cons_append, List.append_assoc, List.singleton_append] at h
      obtain ⟨front', hfront⟩ := hcons (isColon_append elements rfl) h
      obtain hfound | ⟨front'', hfront'⟩ := ih rfl hfront
      · exact .inl hfound
      · exact .inr (hcons htail hfront')
  | noMembers | noElements => exact .inr ⟨front, h⟩
  | member key value rest ih ih' =>
      have hrest := hbehind rest htail
      rw [Document.lexemes_member, List.cons_append, List.cons_append, List.append_assoc] at h
      cases front with
      | nil =>
          obtain ⟨rfl, hcolon⟩ := List.cons.inj h
          exact .inl ⟨key, rfl, value, _, (List.cons.inj hcolon).2.symm, hrest⟩
      | cons b front =>
          obtain ⟨front', hfront⟩ := hcons (isColon_append value hrest) (List.cons.inj h).2
          obtain hfound | ⟨front'', hfront'⟩ := ih hrest hfront
          · exact .inl hfound
          · rw [Document.behind] at hfront'
            split at hfront'
            · exact .inr ⟨front'', hfront'⟩
            · obtain ⟨front₁, hfront₁⟩ := hcons (isColon_append rest htail) hfront'
              exact ih' htail hfront₁
  | element value rest ih ih' =>
      have hrest := hbehind rest htail
      rw [Document.lexemes_element, List.append_assoc] at h
      obtain hfound | ⟨front', hfront⟩ := ih hrest h
      · exact .inl hfound
      · rw [Document.behind] at hfront
        split at hfront
        · exact .inr ⟨front', hfront⟩
        · obtain ⟨front'', hfront'⟩ := hcons (isColon_append rest htail) hfront
          exact ih' htail hfront'

/-- The last quote of a text is found again. -/
theorem eq_of_last_quote {front front' behind behind' : List UInt8}
    (hbehind : quote ∉ behind) (hbehind' : quote ∉ behind')
    (h : front ++ quote :: behind = front' ++ quote :: behind') : front = front' := by
  obtain ⟨more, rfl, hmore⟩ | ⟨more, rfl, hmore⟩ := List.append_eq_append_iff.mp h
  · cases more with
    | nil => exact (List.append_nil front).symm
    | cons c more => exact absurd (by simp [(List.cons.inj hmore).2]) hbehind
  · cases more with
    | nil => exact List.append_nil front'
    | cons c more => exact absurd (by simp [(List.cons.inj hmore).2]) hbehind'

theorem not_mem_quote {front : List UInt8}
    (h : ∀ c ∈ front, isSpace c = true ∨ c = 0x3a ∨ c = 0x2c) : quote ∉ front :=
  fun hmem => absurd (h quote hmem) (by decide)

section Step
variable {r : JsonReader} {gap : List Spaced} {item : Spaced} {items : List Spaced}
  {trailing : List UInt8}

/-- A number that is read to its end has no zero byte. -/
theorem At.readable_number {digits : List UInt8} (h : At r (gap ++ item :: items) trailing)
    (hgap : Gap gap) (hitem : item.lexeme = .number digits)
    (hrest : r.next.2.rest = text items trailing) : Readable item.lexeme := by
  have hl : (Lexeme.number digits).Loose validNumberChar := hitem ▸ h.loose item.lexeme (by simp)
  obtain ⟨c, rest, hbytes, hnext⟩ := h.next_eq hgap (by rw [hitem]; rfl)
  obtain ⟨d, more, rfl, hd, -⟩ := hl
  rw [hitem, Lexeme.bytes, List.cons_append] at hbytes
  obtain ⟨rfl, rfl⟩ := List.cons.inj hbytes
  rw [hnext, token_number hd, if_neg (by simp [h.whole.ended])] at hrest
  have hdrop : (more ++ text items trailing).dropWhile isNumberChar = text items trailing := hrest
  have hsplit := List.takeWhile_append_dropWhile (p := isNumberChar)
    (l := more ++ text items trailing)
  rw [hdrop] at hsplit
  have hmore := List.append_cancel_right hsplit
  rw [hitem]
  refine ⟨d, more, rfl, hd, fun char hchar => ?_⟩
  rw [← hmore] at hchar
  exact List.mem_takeWhile_imp hchar

/-- What a call of `next` leaves of a string: all of it, or what is behind its end, white space
aside. -/
theorem At.next_string {content : List UInt8} (h : At r (gap ++ item :: items) trailing)
    (hgap : Gap gap) (hitem : item.lexeme = .string content) :
    r.next.2.rest = quote :: (content ++ quote :: text items trailing) ∨
    ∃ s after, Units s ∧ content ++ quote :: text items trailing = s ++ quote :: after ∧
      (r.next.2.rest = after ∨
        colonAhead after = true ∧ r.next.2.rest = after.dropWhile isSpace) := by
  obtain ⟨c, rest, hbytes, hnext⟩ := h.next_eq hgap (by rw [hitem]; rfl)
  rw [hitem, Lexeme.bytes, List.cons_append, List.append_assoc, List.singleton_append] at hbytes
  obtain ⟨rfl, rfl⟩ := List.cons.inj hbytes
  rw [hnext]
  cases hread : readString (content ++ quote :: text items trailing) with
  | none =>
      refine .inl ?_
      rw [JsonReader.token, hread]
      exact congrArg (fun result : Token × JsonReader => result.2.rest) (if_pos h.whole.ended)
  | some found =>
      obtain ⟨s, after⟩ := found
      obtain ⟨hunits, htext⟩ := units_of_readString hread
      refine .inr ⟨s, after, hunits, htext, ?_⟩
      have htoken (r : JsonReader) : r.token quote (content ++ quote :: text items trailing) =
          if (after.dropWhile isSpace).head? = some 0x3a then
            (.key, { r with value := s, rest := after.dropWhile isSpace })
          else (.string, { r with value := s, rest := after }) := by
        rw [JsonReader.token, hread]
        rfl
      rw [htoken]
      by_cases hahead : (after.dropWhile isSpace).head? = some 0x3a
      · rw [if_pos hahead]
        exact .inr ⟨decide_eq_true hahead, rfl⟩
      · rw [if_neg hahead]
        exact .inl rfl

/-- A value that is a string is taken in units if the reader comes to its end. -/
theorem At.readable_string {content : List UInt8} (h : At r (gap ++ item :: items) trailing)
    (hgap : Gap gap) (hitem : item.lexeme = .string content)
    (hcolon : isColon (items.map Spaced.lexeme) = false)
    (hrest : r.next.2.rest = text items trailing) : Readable item.lexeme := by
  have hl : Paired content := by
    have hloose := h.loose item.lexeme (by simp)
    rwa [hitem] at hloose
  rw [hitem]
  obtain hall | ⟨s, after, hunits, htext, hafter | ⟨hahead, hafter⟩⟩ := h.next_string hgap hitem
  · have hlength := congrArg List.length (hall.symm.trans hrest)
    simp only [List.length_cons, List.length_append] at hlength
    omega
  · rw [← hafter, hrest] at htext
    rw [List.append_cancel_right htext]
    exact ⟨List.append_cancel_right htext ▸ hl, hunits⟩
  · have hcolon' := h.colonAhead_eq
    rw [hcolon, ← hrest, hafter, colonAhead, List.dropWhile_idempotent, ← colonAhead, hahead]
      at hcolon'
    cases hcolon'

/-- A key is taken in units if the reader comes to the value behind it. -/
theorem At.readable_key {key gap' front tail : List UInt8}
    (h : At r (gap ++ item :: items) trailing) (hgap : Gap gap)
    (hitem : item.lexeme = .string key)
    (htext : text items trailing = front ++ tail)
    (hfront : quote ∉ front) (hgap' : quote ∉ gap') (hrest : r.next.2.rest = gap' ++ tail) :
    Readable item.lexeme := by
  have hl : Paired key := by
    have hloose := h.loose item.lexeme (by simp)
    rwa [hitem] at hloose
  have hread {s after : List UInt8} (spaces : List UInt8) (hunits : Units s)
      (hsplit : key ++ quote :: text items trailing = s ++ quote :: after)
      (hspaces : ∀ c ∈ spaces, isSpace c = true) (hafter : after = spaces ++ (gap' ++ tail)) :
      Readable (.string key) := by
    have hquote : quote ∉ spaces ++ gap' := by
      intro hmem
      obtain hmem | hmem := List.mem_append.mp hmem
      · exact absurd (hspaces quote hmem) (by decide)
      · exact hgap' hmem
    rw [htext, hafter] at hsplit
    have hcancel : (key ++ quote :: front) ++ tail = (s ++ quote :: (spaces ++ gap')) ++ tail := by
      rw [List.append_assoc, List.cons_append, hsplit, List.append_assoc, List.cons_append,
        List.append_assoc]
    rw [eq_of_last_quote hfront hquote (List.append_cancel_right hcancel)] at hl ⊢
    exact ⟨hl, hunits⟩
  rw [hitem]
  obtain hall | ⟨s, after, hunits, hsplit, hafter | ⟨-, hafter⟩⟩ := h.next_string hgap hitem
  · rw [hrest, htext] at hall
    have hcancel : gap' ++ tail = (quote :: (key ++ quote :: front)) ++ tail := by
      rw [hall, List.cons_append, List.append_assoc, List.cons_append]
    exact absurd (by simp [List.append_cancel_right hcancel]) hgap'
  · exact hread [] hunits hsplit (by simp) (hafter.symm.trans hrest)
  · refine hread (after.takeWhile isSpace) hunits hsplit
      (fun c hc => List.mem_takeWhile_imp hc) ?_
    rw [← hrest, hafter]
    exact List.takeWhile_append_dropWhile.symm

end Step

/-- Where the scanners agree, each lexeme is read as it stands. By induction on the lexemes: all
before it are read so, and the walk has come to it. -/
theorem readable_of_agrees {json : List UInt8} (h : ScannersAgree json)
    {doc : Document .elements} {items : List Spaced} {trailing : List UInt8}
    (hvalues : Values json doc items trailing) : ∀ l ∈ doc.lexemes, Readable l := by
  suffices hall : ∀ (rest before : List Spaced), items = before ++ rest →
      (∀ l ∈ before.map Spaced.lexeme, Readable l) →
        ∀ l ∈ rest.map Spaced.lexeme, Readable l by
    rw [← hvalues.lexemes]
    exact hall items [] rfl nofun
  intro rest
  induction rest with
  | nil => exact fun _ _ _ => nofun
  | cons item rest ih =>
      rintro before rfl hbefore
      obtain ⟨gap, hgap, hat⟩ := @At.walk _ [] before _ _ hvalues.at (.inl rfl) hbefore
      have hcross := h.crosses doc _ trailing hvalues
      suffices hl : Readable item.lexeme by
        refine List.forall_mem_cons.mpr ⟨hl, ih (before ++ [item]) (by simp) ?_⟩
        rw [List.map_append]
        exact List.forall_mem_append.mpr ⟨hbefore, List.forall_mem_singleton.mpr hl⟩
      cases hcolon : isColon (rest.map Spaced.lexeme) with
      | false =>
          cases hitem : item.lexeme with
          | string content =>
              rw [← hitem]
              exact hat.readable_string hgap hitem hcolon
                (hcross before [item] rest (.string content) rfl (congrArg (· :: []) hitem)
                  hcolon).walk
          | number digits =>
              rw [← hitem]
              exact hat.readable_number hgap hitem
                (hcross before [item] rest (.number digits) rfl (congrArg (· :: []) hitem)
                  hcolon).walk
          | _ => trivial
      | true =>
          obtain ⟨colon, rest', rfl⟩ : ∃ colon rest', rest = colon :: rest' :=
            List.exists_cons_of_ne_nil (by rintro rfl; cases hcolon)
          have hlexeme : colon.lexeme = .colon := by simpa [isColon] using hcolon
          have hlexemes : doc.lexemes ++ [] = before.map Spaced.lexeme ++
              item.lexeme :: .colon :: rest'.map Spaced.lexeme := by
            rw [List.append_nil, ← hvalues.lexemes, List.map_append, List.map_cons, List.map_cons,
              hlexeme]
          obtain ⟨key, hkey, v, tail, htail, hcolon'⟩ | ⟨front, hfront⟩ :=
            exists_of_colon doc rfl hlexemes
          · obtain ⟨inner, after, rfl, hinner, rfl⟩ := List.map_eq_append_iff.mp htail
            have hsame : before ++ item :: colon :: (inner ++ after) =
                before ++ [item, colon] ++ (inner ++ after) := by simp
            obtain ⟨gap', hgap', hrest⟩ :=
              (hcross (before ++ [item, colon]) inner after v hsame hinner hcolon').front
            have hone : (tokens [item.lexeme, colon.lexeme]).length = 1 := by
              rw [hkey, hlexeme]
              rfl
            rw [List.map_append, length_tokens_append, walk_add, List.map_cons, List.map_cons,
              List.map_nil, hone] at hrest
            -- the colon and the value behind it
            have hvalue := hat.consumed hgap item.lexeme
            obtain ⟨front, hfront, htext⟩ := @At.front _ [colon] _ _ _ v
              (hvalue.congr
                (s := { ofText json with rest := text (colon :: (inner ++ after)) trailing })
                ⟨rfl, rfl, rfl⟩ hvalue.rest.symm) (.inr ⟨colon, rfl, hlexeme ▸ rfl⟩) hinner
            exact hat.readable_key hgap hkey htext (not_mem_quote hfront) (not_mem_quote hgap')
              hrest
          · simp at hfront

/-- Of the texts that the validator accepts the scanners agree on those in units. -/
theorem scannersAgree_iff (json : List UInt8) (hvalid : validate json = true) :
    ScannersAgree json ↔ InUnits json := by
  rw [inUnits_iff]
  exact ⟨fun h _ _ _ hvalues => readable_of_agrees h hvalues, agrees_of_readable hvalid⟩

/-- A text of the grammar is in units. -/
theorem inUnits_of_isText {json : List UInt8} {doc : Document .value} (h : IsText json doc) :
    InUnits json := by
  rw [inUnits_iff]
  intro elements items trailing hvalues l hl
  obtain ⟨items', trailing', hitems', hspacing, rfl⟩ := h.exists_items
  have hreadable : ∀ l ∈ doc.lexemes, Readable l := fun l hl => .of_wellFormed (h.wellFormed l hl)
  have hat : At (ofText (text items' trailing')) items' trailing' := by
    refine at_ofText hspacing ?_ fun l hl => (hreadable l (hitems' ▸ hl)).valid
    rw [hitems']
    exact doc.adjacent
  have hsame := hvalues.at.lexemes_unique hat
  rw [hvalues.lexemes, hitems'] at hsame
  exact hreadable l (hsame ▸ hl)

/-- Escapes of both kinds and nested containers. -/
def escapesText : List UInt8 :=
  Chars.ofString "\x7b\"\\u0061\":[1,[\"\\\"\",\x7b\x7d]],\"b\":\"\\\\u\"\x7d"

def escapes : Document .value :=
  .object <|
    .member (Chars.ofString "\\u0061") (.array <| .element (.number [0x31]) <|
      .element (.array <| .element (.string (Chars.ofString "\\\"")) <|
        .element (.object .noMembers) .noElements) .noElements) <|
    .member [0x62] (.string (Chars.ofString "\\\\u")) .noMembers

theorem isText_escapes : IsText escapesText escapes := by
  refine isText_of_lexemes (by decide +kernel) ?_
  simp only [escapes, Document.lexemes, Document.isEmpty, if_true, Bool.false_eq_true, if_false,
    List.append_nil, List.nil_append, List.cons_append, List.forall_mem_cons]
  have hunicode : StringContent (Chars.ofString "\\u0061") :=
    .unicode (by decide) (by decide) (by decide) (by decide) .nil
  have hquote : StringContent (Chars.ofString "\\\"") := .escape (by decide) .nil
  have hbackslash : StringContent (Chars.ofString "\\\\u") :=
    .escape (by decide) (.char (by decide) (by decide) (by decide) .nil)
  exact ⟨trivial, hunicode, trivial, trivial, numberText_digit (by decide), trivial, trivial,
    hquote, trivial, trivial, trivial, trivial, trivial, trivial,
    .char (by decide) (by decide) (by decide) .nil, trivial, hbackslash, trivial,
    List.forall_mem_nil _⟩

theorem scannersAgree_iff_escapes :
    validate escapesText = true ∧ InUnits escapesText ∧ ScannersAgree escapesText := by
  have hvalid : validate escapesText = true := by decide +kernel
  have hunits := inUnits_of_isText isText_escapes
  exact ⟨hvalid, hunits, (scannersAgree_iff escapesText hvalid).mpr hunits⟩

/-- `["\u"]` is accepted, and the walk ends with an error. -/
theorem not_scannersAgree : ¬ ∀ json, validate json = true → ScannersAgree json := by
  intro h
  have hvalid : validate [0x5b, 0x22, 0x5c, 0x75, 0x22, 0x5d] = true := by decide
  have hbatch : batch [0x5b, 0x22, 0x5c, 0x75, 0x22, 0x5d] = [(.arrayStart, []), (.error, [])] := by
    decide
  obtain ⟨reports, hreports, -⟩ := (h _ hvalid).walks.exists_reports
  have hlast := congrArg List.getLast? (hbatch.symm.trans hreports)
  simp at hlast

end JsonReader

end Ebus
