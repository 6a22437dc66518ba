import Ebus.Verification.Tokens

/-!
# What the validator accepts

`validate` is an automaton with a stack of the open brackets. `accepts` is the rest of its run
from one state on, and every lexeme of a document moves it from one `accepts` to the next, so
that a whole document moves it to where a comma or an end is expected
(`accepts_document`). Backwards, what is accepted is taken apart by induction on its length
(`begins_of_accepts`).

The automaton does not look at the stack where it finds a comma: outside of all containers it
goes on with the next value. `strchr` also finds the zero that ends its literal, and so a number
may go on with zero bytes.
-/

namespace Ebus

open Json

namespace JsonReader

/-- The rest of the run, from behind any white space. -/
def accepts (state : Expects) (stack rest : List UInt8) : Bool :=
  validateLoop ((skipWs rest).length + 1) ⟨state, stack, skipWs rest⟩

theorem length_skipWs_le (text : List UInt8) : (skipWs text).length ≤ text.length :=
  (List.dropWhile_suffix _).length_le

theorem length_closeString {text rest : List UInt8} (h : closeString text = some rest) :
    rest.length < text.length := by
  fun_induction closeString text with
  | case1 => cases h
  | case2 rest' => rw [Option.some.inj h]; exact Nat.lt_succ_self _
  | case3 => cases h
  | case4 d rest' hquote ih =>
      have hlt := ih h
      simp only [List.length_cons]
      omega
  | case5 c rest' hquote hescape ih => exact (ih h).trans (Nat.lt_succ_self _)

/-- A round does not give back what it has taken. -/
theorem length_validateStep {state : Expects} {stack : List UInt8} {c : UInt8}
    {rest : List UInt8} {v : Validator} (h : validateStep state stack c rest = some v) :
    v.rest.length ≤ rest.length := by
  have hclose {bracket : UInt8} (h : closeContainer stack rest bracket = some v) :
      v.rest.length ≤ rest.length := by
    cases stack with
    | nil => cases h
    | cons top stack =>
        rw [closeContainer] at h
        split at h
        · cases h
          exact Nat.le_refl _
        · cases h
  have hopen {bracket closing : UInt8} {next : Expects}
      (h : openContainer stack rest bracket closing next = some v) :
      v.rest.length ≤ rest.length := by
    rw [openContainer] at h
    split at h
    · cases h
    · cases h
      exact length_skipWs_le rest
  have hkeyword {word : List UInt8} (hword : 0 < word.length)
      (h : validKeyword stack word (c :: rest) = some v) : v.rest.length ≤ rest.length := by
    rw [validKeyword] at h
    split at h
    · cases h
      rw [List.length_drop, List.length_cons]
      omega
    · cases h
  have hstring {state : Expects}
      (h : (closeString rest).map (⟨state, stack, ·⟩) = some v) : v.rest.length ≤ rest.length := by
    obtain ⟨after, hafter, rfl⟩ := Option.map_eq_some_iff.mp h
    exact (length_closeString hafter).le
  cases state with
  | value =>
      rw [validateStep, validateValue] at h
      split at h
      · exact hopen h
      split at h
      · exact hopen h
      split at h
      · exact hstring h
      split at h
      · exact hkeyword (by decide) h
      split at h
      · exact hkeyword (by decide) h
      split at h
      · exact hkeyword (by decide) h
      split at h
      · cases h
        exact (List.dropWhile_suffix _).length_le
      · cases h
  | keyOrEnd =>
      rw [validateStep] at h
      split at h
      · exact hclose h
      split at h
      · exact hstring h
      · cases h
  | colon =>
      rw [validateStep] at h
      split at h
      · cases h
        exact Nat.le_refl _
      · cases h
  | commaOrEnd =>
      rw [validateStep, validateCommaOrEnd] at h
      split at h
      · cases hskip : skipWs rest with
        | nil => simp [hskip] at h
        | cons d rest' =>
            rw [hskip] at h
            dsimp only at h
            split at h
            · cases h
            · cases h
              exact hskip ▸ length_skipWs_le rest
      split at h
      · exact hclose h
      split at h
      · exact hclose h
      · cases h

theorem validateLoop_fuel {fuel fuel' : Nat} {v : Validator} (h : v.rest.length < fuel)
    (h' : v.rest.length < fuel') : validateLoop fuel v = validateLoop fuel' v := by
  induction fuel generalizing fuel' v with
  | zero => omega
  | succ fuel ih =>
      cases fuel' with
      | zero => omega
      | succ fuel' =>
          rw [validateLoop, validateLoop]
          cases hrest : v.rest with
          | nil => rfl
          | cons c rest =>
              rw [hrest, List.length_cons] at h h'
              dsimp only
              cases hstep : validateStep v.state v.stack c rest with
              | none => rfl
              | some next =>
                  have hle := length_validateStep hstep
                  have hskip := length_skipWs_le next.rest
                  exact ih (by simp only; omega) (by simp only; omega)

theorem accepts_nil {state : Expects} {stack rest : List UInt8} (h : skipWs rest = []) :
    accepts state stack rest = (stack = [] && state = .commaOrEnd) := by
  rw [accepts, h]
  rfl

theorem skipWs_skipWs (rest : List UInt8) : skipWs (skipWs rest) = skipWs rest :=
  List.dropWhile_idempotent _ _

theorem accepts_skipWs (state : Expects) (stack rest : List UInt8) :
    accepts state stack (skipWs rest) = accepts state stack rest := by
  rw [accepts, skipWs_skipWs, accepts]

/-- One round, and the run from there. -/
theorem accepts_cons {state : Expects} {stack rest : List UInt8} {c : UInt8}
    {tail : List UInt8} (h : skipWs rest = c :: tail) :
    accepts state stack rest =
      match validateStep state stack c tail with
      | none => false
      | some v => accepts v.state v.stack v.rest := by
  rw [accepts, h, validateLoop]
  dsimp only
  cases hstep : validateStep state stack c tail with
  | none => rfl
  | some v =>
      have hle := length_validateStep hstep
      have hskip := length_skipWs_le v.rest
      exact validateLoop_fuel (by simp only [List.length_cons]; omega) (Nat.lt_succ_self _)

theorem validate_eq (json : List UInt8) : validate json = accepts .value [] json := by
  cases h : skipWs json with
  | nil =>
      rw [accepts_nil h, validate, h]
      rfl
  | cons c rest =>
      rw [accepts, validate, h]
      rfl

section Steps
variable {stack rest tail : List UInt8} {c : UInt8}

theorem skipWs_append {spaces : List UInt8} (h : ∀ char ∈ spaces, isSpace char = true)
    (rest : List UInt8) : skipWs (spaces ++ rest) = skipWs rest :=
  List.dropWhile_append_of_pos h

theorem accepts_spaces (state : Expects) (stack : List UInt8) {spaces : List UInt8}
    (h : ∀ char ∈ spaces, isSpace char = true) (rest : List UInt8) :
    accepts state stack (spaces ++ rest) = accepts state stack rest := by
  rw [← accepts_skipWs, skipWs_append h, accepts_skipWs]

theorem skipWs_cons (h : isSpace c = false) (rest : List UInt8) :
    skipWs (c :: rest) = c :: rest := List.dropWhile_cons_of_neg (by simp [h])

theorem closeString_paired {content : List UInt8} (h : Paired content) (tail : List UInt8) :
    closeString (content ++ quote :: tail) = some tail := by
  induction h with
  | nil => rw [List.nil_append, closeString.eq_def]; rfl
  | char hquote hescape _ ih =>
      rw [List.cons_append, closeString.eq_def]
      simp only [if_neg hquote, if_neg hescape, ih]
  | pair c _ ih =>
      have hne : backslash ≠ quote := by decide
      rw [List.cons_append, List.cons_append, closeString.eq_def]
      simp only [if_neg hne, if_true, ih]

theorem accepts_string {content : List UInt8} (h : Paired content) :
    accepts .value stack (quote :: (content ++ quote :: tail)) =
      accepts .commaOrEnd stack tail := by
  rw [accepts_cons (skipWs_cons (by decide) _)]
  have hstep : validateStep .value stack quote (content ++ quote :: tail) =
      some ⟨.commaOrEnd, stack, tail⟩ := by
    rw [validateStep, validateValue, closeString_paired h]
    rfl
  rw [hstep]

theorem accepts_key {content : List UInt8} (h : Paired content) :
    accepts .keyOrEnd stack (quote :: (content ++ quote :: tail)) =
      accepts .colon stack tail := by
  rw [accepts_cons (skipWs_cons (by decide) _)]
  have hstep : validateStep .keyOrEnd stack quote (content ++ quote :: tail) =
      some ⟨.colon, stack, tail⟩ := by
    rw [validateStep, closeString_paired h]
    rfl
  rw [hstep]

theorem accepts_colon : accepts .colon stack (0x3a :: tail) = accepts .value stack tail := by
  rw [accepts_cons (skipWs_cons (by decide) _)]
  rfl

/-- The branch of numbers. -/
theorem validateValue_number (h : isDigit c = true ∨ c = 0x2d) (rest : List UInt8) :
    validateValue stack c rest = some ⟨.commaOrEnd, stack, rest.dropWhile validNumberChar⟩ := by
  have hne : ∀ d : UInt8, isDigit d = false → d ≠ 0x2d → c ≠ d := by
    rintro d hd hd' rfl
    simp [hd, hd'] at h
  rw [validateValue, if_neg (hne _ (by decide) (by decide)), if_neg (hne _ (by decide) (by decide)),
    if_neg (hne _ (by decide) (by decide)), if_neg (hne _ (by decide) (by decide)),
    if_neg (hne _ (by decide) (by decide)), if_neg (hne _ (by decide) (by decide)), if_pos h]

theorem accepts_number {digits : List UInt8} (h : isDigit c = true ∨ c = 0x2d)
    (hdigits : ∀ char ∈ digits, validNumberChar char = true)
    (hstop : ∀ char ∈ tail.head?, validNumberChar char = false) :
    accepts .value stack (c :: (digits ++ tail)) = accepts .commaOrEnd stack tail := by
  have hspace : isSpace c = false := by
    have hne : ∀ d : UInt8, isDigit d = false → d ≠ 0x2d → c ≠ d := by
      rintro d hd hd' rfl
      simp [hd, hd'] at h
    simp [isSpace, hne 0x20 (by decide) (by decide), hne 0x09 (by decide) (by decide),
      hne 0x0a (by decide) (by decide), hne 0x0d (by decide) (by decide)]
  have hdrop : (digits ++ tail).dropWhile validNumberChar = tail := by
    rw [List.dropWhile_append_of_pos hdigits]
    cases tail with
    | nil => rfl
    | cons d tail => exact List.dropWhile_cons_of_neg (by simp [hstop d rfl])
  rw [accepts_cons (skipWs_cons hspace _), validateStep, validateValue_number h, hdrop]

/-- A value that is one lexeme. -/
theorem accepts_scalar {l : Lexeme} (hloose : l.Loose validNumberChar)
    (hscalar : Document.Starts l) (hopen : l ≠ .openObject ∧ l ≠ .openArray)
    (hstop : ∀ char ∈ tail.head?, validNumberChar char = false) :
    accepts .value stack (l.bytes ++ tail) = accepts .commaOrEnd stack tail := by
  cases l with
  | string content =>
      rw [Lexeme.bytes, List.cons_append, List.append_assoc, List.singleton_append]
      exact accepts_string hloose
  | number text =>
      obtain ⟨c, digits, rfl, hc, hdigits⟩ := hloose
      exact accepts_number hc hdigits hstop
  | bool value =>
      cases value
      · exact accepts_cons (skipWs_cons (by decide) _)
      · exact accepts_cons (skipWs_cons (by decide) _)
  | null => exact accepts_cons (skipWs_cons (by decide) _)
  | openObject => exact absurd rfl hopen.1
  | openArray => exact absurd rfl hopen.2
  | closeObject => exact absurd rfl hscalar.2.1
  | closeArray => exact absurd rfl hscalar.2.2
  | colon | comma => cases hscalar.1

/-- Behind a bracket that opens a container comes its end or something else. -/
theorem accepts_open {bracket closing : UInt8} {next : Expects}
    (hspace : isSpace bracket = false)
    (hstep : ∀ rest, validateValue stack bracket rest =
      openContainer stack rest bracket closing next) :
    accepts .value stack (bracket :: tail) =
      (stack.length < JsonLimits.maxRecursionDepth &&
        accepts (if (skipWs tail).head? = some closing then .commaOrEnd else next)
          (bracket :: stack) tail) := by
  rw [accepts_cons (skipWs_cons hspace _), validateStep, hstep, openContainer]
  by_cases hdepth : JsonLimits.maxRecursionDepth ≤ stack.length
  · rw [if_pos hdepth, decide_eq_false (Nat.not_lt.mpr hdepth), Bool.false_and]
  · rw [if_neg hdepth, decide_eq_true (Nat.not_le.mp hdepth), Bool.true_and]
    exact accepts_skipWs _ _ _

theorem accepts_openObject :
    accepts .value stack (0x7b :: tail) =
      (stack.length < JsonLimits.maxRecursionDepth &&
        accepts (if (skipWs tail).head? = some 0x7d then .commaOrEnd else .keyOrEnd)
          (0x7b :: stack) tail) :=
  accepts_open (by decide) fun _ => rfl

theorem accepts_openArray :
    accepts .value stack (0x5b :: tail) =
      (stack.length < JsonLimits.maxRecursionDepth &&
        accepts (if (skipWs tail).head? = some 0x5d then .commaOrEnd else .value)
          (0x5b :: stack) tail) :=
  accepts_open (by decide) fun _ => rfl

theorem accepts_closeObject :
    accepts .commaOrEnd (0x7b :: stack) (0x7d :: tail) = accepts .commaOrEnd stack tail :=
  accepts_cons (skipWs_cons (by decide) _)

theorem accepts_closeArray :
    accepts .commaOrEnd (0x5b :: stack) (0x5d :: tail) = accepts .commaOrEnd stack tail :=
  accepts_cons (skipWs_cons (by decide) _)

/-- Behind a comma something begins that is no closing bracket. -/
theorem accepts_comma (h : skipWs tail = c :: rest) (hc : ¬ (c = 0x7d ∨ c = 0x5d)) :
    accepts .commaOrEnd stack (0x2c :: tail) =
      accepts (if stack.head? = some 0x7b then .keyOrEnd else .value) stack tail := by
  have hstep : validateStep .commaOrEnd stack 0x2c tail =
      some ⟨if stack.head? = some 0x7b then .keyOrEnd else .value, stack, c :: rest⟩ := by
    rw [validateStep, validateCommaOrEnd, if_pos rfl, h]
    exact if_neg hc
  rw [accepts_cons (skipWs_cons (by decide) _), hstep]
  dsimp only
  rw [← h, accepts_skipWs]

end Steps

/-- What is expected where a value, members or elements begin. -/
def Expects.at : Nonterminal → Expects
  | .members => .keyOrEnd
  | _ => .value

/-- The innermost container is an object for members and none for elements. -/
def InContainer : Nonterminal → List UInt8 → Prop
  | .value, _ => True
  | .members, stack => stack.head? = some 0x7b
  | .elements, stack => stack.head? ≠ some 0x7b

/-- The first character of a lexeme that may begin something. -/
theorem exists_start {l : Lexeme} (hloose : l.Loose validNumberChar) (h : Document.Starts l) :
    ∃ c rest, l.bytes = c :: rest ∧ isSpace c = false ∧ c ≠ 0x7d ∧ c ≠ 0x5d := by
  obtain ⟨c, rest, hbytes, hkind, hspace⟩ := hloose.exists_cons
  refine ⟨c, rest, hbytes, hspace, ?_, ?_⟩
  · rintro rfl
    cases l with
    | bool value => cases value <;> cases hkind
    | closeObject => exact h.2.1 rfl
    | _ => cases hkind
  · rintro rfl
    cases l with
    | bool value => cases value <;> cases hkind
    | closeArray => exact h.2.2 rfl
    | _ => cases hkind

/-- A number stops in front of an item that ends values. -/
theorem stops_item {item : Spaced} (hspaces : ∀ char ∈ item.spaces, isSpace char = true)
    (hends : item.lexeme.endsValue = true) (tail : List UInt8) :
    ∀ char ∈ (item.spaces ++ (item.lexeme.bytes ++ tail)).head?, validNumberChar char = false := by
  intro char hchar
  cases hitem : item.spaces with
  | nil =>
      obtain ⟨c, hbytes, hc⟩ := Lexeme.bytes_of_endsValue hends
      obtain rfl : c = char := by simpa [hitem, hbytes] using hchar
      exact stops_validNumberChar c (.inr hc)
  | cons c spaces =>
      obtain rfl : c = char := by simpa [hitem] using hchar
      exact stops_validNumberChar c (.inl (hspaces c (by simp [hitem])))

section Documents

variable {stack tail : List UInt8}

/-- Something begins in front of a document. -/
theorem exists_skipWs_text {n : Nonterminal} {doc : Document n} (hne : doc.isEmpty = false)
    {items : List Spaced} (hitems : items.map Spaced.lexeme = doc.lexemes)
    (hspacing : Spacing items []) (hloose : ∀ l ∈ doc.lexemes, l.Loose validNumberChar)
    (tail : List UInt8) : ∃ c rest, skipWs (text items tail) = c :: rest ∧ c ≠ 0x7d ∧ c ≠ 0x5d := by
  obtain ⟨a, more, hmore, hstarts⟩ := Document.exists_lexemes_cons hne
  obtain ⟨item, others, rfl, rfl, -⟩ := List.map_eq_cons_iff.mp (hitems.trans hmore)
  obtain ⟨c, rest, hbytes, hspace, hc⟩ :=
    exists_start (hloose item.lexeme (by simp [hmore])) hstarts
  refine ⟨c, rest ++ text others tail, ?_, hc⟩
  rw [text_cons, skipWs_append hspacing.head, hbytes]
  exact skipWs_cons hspace _

/-- What stands behind a member or an element. -/
theorem accepts_behind {n : Nonterminal} {rest : Document n} {items : List Spaced}
    (hn : n ≠ .value) (hstack : InContainer n stack)
    (hdepth : stack.length ≤ JsonLimits.maxRecursionDepth)
    (hitems : items.map Spaced.lexeme = rest.behind) (hspacing : Spacing items [])
    (hloose : ∀ l ∈ rest.lexemes, l.Loose validNumberChar)
    (ih : rest.isEmpty = false → ∀ items : List Spaced, items.map Spaced.lexeme = rest.lexemes →
      Spacing items [] → accepts (.at n) stack (text items tail) =
        (stack.length + rest.depth ≤ JsonLimits.maxRecursionDepth &&
          accepts .commaOrEnd stack tail)) :
    accepts .commaOrEnd stack (text items tail) =
      (stack.length + rest.depth ≤ JsonLimits.maxRecursionDepth &&
        accepts .commaOrEnd stack tail) := by
  unfold Document.behind at hitems
  split at hitems
  · rename_i hempty
    have hzero : rest.depth = 0 := by
      cases rest <;> first | rfl | cases hempty
    rw [List.map_eq_nil_iff.mp hitems, text_nil, hzero, Nat.add_zero, decide_eq_true hdepth,
      Bool.true_and]
  · rename_i hempty
    have hempty := Bool.not_eq_true _ ▸ hempty
    obtain ⟨item, others, rfl, hcomma, hothers⟩ := List.map_eq_cons_iff.mp hitems
    obtain ⟨c, more, hskip, hc⟩ :=
      exists_skipWs_text hempty hothers hspacing.tail hloose tail
    have hnext : (if stack.head? = some 0x7b then Expects.keyOrEnd else .value) = .at n := by
      cases n with
      | value => exact absurd rfl hn
      | members => exact if_pos hstack
      | elements => exact if_neg hstack
    rw [text_cons, accepts_spaces _ _ hspacing.head, hcomma, Lexeme.bytes, List.singleton_append,
      accepts_comma hskip (not_or.mpr hc), hnext]
    exact ih hempty others hothers hspacing.tail

theorem decide_max_and {k a b m : Nat} (x : Bool) :
    (decide (k + a ≤ m) && (decide (k + b ≤ m) && x)) = (decide (k + max a b ≤ m) && x) := by
  rw [← Bool.and_assoc, ← Bool.decide_and]
  congr 2
  rw [eq_iff_iff]
  omega

/-- The value of a member or an element, and what stands behind it. -/
theorem accepts_sequence {n : Nonterminal} {value : Document .value} {rest : Document n}
    {inner after : List Spaced} (hn : n ≠ .value) (hstack : InContainer n stack)
    (hdepth : stack.length ≤ JsonLimits.maxRecursionDepth)
    (hafter : after.map Spaced.lexeme = rest.behind) (hspacing : Spacing after [])
    (hloose : ∀ l ∈ rest.behind, l.Loose validNumberChar)
    (hstop : ∀ char ∈ tail.head?, validNumberChar char = false)
    (ih : ∀ tail : List UInt8, (∀ char ∈ tail.head?, validNumberChar char = false) →
      accepts .value stack (text inner tail) =
        (stack.length + value.depth ≤ JsonLimits.maxRecursionDepth &&
          accepts .commaOrEnd stack tail))
    (ih' : rest.isEmpty = false → (∀ l ∈ rest.lexemes, l.Loose validNumberChar) →
      ∀ items : List Spaced, items.map Spaced.lexeme = rest.lexemes → Spacing items [] →
        accepts (.at n) stack (text items tail) =
          (stack.length + rest.depth ≤ JsonLimits.maxRecursionDepth &&
            accepts .commaOrEnd stack tail)) :
    accepts .value stack (text inner (text after tail)) =
      (stack.length + max value.depth rest.depth ≤ JsonLimits.maxRecursionDepth &&
        accepts .commaOrEnd stack tail) := by
  have hrest : ∀ l ∈ rest.lexemes, l.Loose validNumberChar := by
    intro l hl
    refine hloose l ?_
    rw [Document.behind]
    split
    · rename_i hempty
      rw [Document.lexemes_eq_nil hempty] at hl
      cases hl
    · exact List.mem_cons_of_mem _ hl
  have hstop' : ∀ char ∈ (text after tail).head?, validNumberChar char = false := by
    cases after with
    | nil => exact hstop
    | cons item others =>
        rw [text_cons]
        refine stops_item hspacing.head ?_ _
        have hnil : ∀ l ∈ ([] : List Lexeme).head?, l.endsValue = true := by simp
        refine rest.endsValue_behind hnil item.lexeme ?_
        rw [List.append_nil, ← hafter]
        rfl
  rw [ih _ hstop', accepts_behind hn hstack hdepth hafter hspacing hrest
    (fun hempty => ih' hempty hrest), decide_max_and]

/-- A container, from bracket to bracket. -/
theorem accepts_container {n : Nonterminal} {inner : Document n} {bracket closing : UInt8}
    {opens closes : Lexeme} (hopens : opens.bytes = [bracket]) (hcloses : closes.bytes = [closing])
    (hends : closes.endsValue = true) (hspace : isSpace closing = false)
    (hclosing : closing = 0x7d ∨ closing = 0x5d)
    (hopen : ∀ tail, accepts .value stack (bracket :: tail) =
      (stack.length < JsonLimits.maxRecursionDepth &&
        accepts (if (skipWs tail).head? = some closing then .commaOrEnd else .at n)
          (bracket :: stack) tail))
    (hclose : accepts .commaOrEnd (bracket :: stack) (closing :: tail) =
      accepts .commaOrEnd stack tail)
    {items : List Spaced} (hitems : items.map Spaced.lexeme = opens :: (inner.lexemes ++ [closes]))
    (hspacing : Spacing items []) (hloose : ∀ l ∈ inner.lexemes, l.Loose validNumberChar)
    (ih : inner.isEmpty = false → stack.length < JsonLimits.maxRecursionDepth →
      ∀ (items : List Spaced) (tail : List UInt8), items.map Spaced.lexeme = inner.lexemes →
        Spacing items [] → (∀ char ∈ tail.head?, validNumberChar char = false) →
        accepts (.at n) (bracket :: stack) (text items tail) =
          ((bracket :: stack).length + inner.depth ≤ JsonLimits.maxRecursionDepth &&
            accepts .commaOrEnd (bracket :: stack) tail)) :
    accepts .value stack (text items tail) =
      (stack.length + (inner.depth + 1) ≤ JsonLimits.maxRecursionDepth &&
        accepts .commaOrEnd stack tail) := by
  obtain ⟨item, others, rfl, hitem, hothers⟩ := List.map_eq_cons_iff.mp hitems
  obtain ⟨between, last, rfl, hbetween, hlast⟩ := List.map_eq_append_iff.mp hothers
  obtain ⟨item', others', rfl, hitem', hnil⟩ := List.map_eq_cons_iff.mp hlast
  obtain rfl := List.map_eq_nil_iff.mp hnil
  have hspaces' : ∀ char ∈ item'.spaces, isSpace char = true := hspacing.items item' (by simp)
  have hinner : Spacing between [] := ⟨fun other hmem => hspacing.items other (by simp [hmem]),
    by simp⟩
  have hstop := stops_item hspaces' (hitem' ▸ hends) tail
  rw [hitem', hcloses, List.singleton_append] at hstop
  rw [text_cons, accepts_spaces _ _ hspacing.head, hitem, hopens, List.singleton_append,
    text_append, text_cons, text_nil, hitem', hcloses, List.singleton_append, hopen]
  by_cases hdepth : stack.length < JsonLimits.maxRecursionDepth
  · rw [decide_eq_true hdepth, Bool.true_and]
    cases hempty : inner.isEmpty with
    | true =>
        rw [Document.lexemes_eq_nil hempty] at hbetween
        have hhead : (skipWs (item'.spaces ++ closing :: tail)).head? = some closing := by
          rw [skipWs_append hspaces', skipWs_cons hspace]
          rfl
        have hzero : inner.depth = 0 := by
          cases inner <;> first | rfl | cases hempty
        rw [List.map_eq_nil_iff.mp hbetween, text_nil, if_pos hhead, accepts_spaces _ _ hspaces',
          hclose, hzero, decide_eq_true (by omega), Bool.true_and]
    | false =>
        obtain ⟨c, more, hskip, hc⟩ := exists_skipWs_text hempty hbetween hinner
          hloose (item'.spaces ++ closing :: tail)
        have hhead : (skipWs (text between (item'.spaces ++ closing :: tail))).head? ≠
            some closing := by
          rw [hskip]
          rintro ⟨⟩
          obtain rfl | rfl := hclosing
          · exact hc.1 rfl
          · exact hc.2 rfl
        rw [if_neg hhead, ih hempty hdepth _ _ hbetween hinner hstop, accepts_spaces _ _ hspaces',
          hclose, List.length_cons, Nat.add_right_comm, Nat.add_assoc]
  · rw [decide_eq_false hdepth, Bool.false_and, decide_eq_false (by omega), Bool.false_and]

/-- The lexemes of a document, white space in front of each, move the validator to where a comma
or an end is expected, if the containers do not get too deep. By induction on the document. -/
theorem accepts_document {n : Nonterminal} (doc : Document n) (hne : doc.isEmpty = false)
    (hstack : InContainer n stack) (hdepth : stack.length ≤ JsonLimits.maxRecursionDepth)
    {items : List Spaced} (hitems : items.map Spaced.lexeme = doc.lexemes)
    (hspacing : Spacing items []) (hloose : ∀ l ∈ doc.lexemes, l.Loose validNumberChar)
    (hstop : ∀ char ∈ tail.head?, validNumberChar char = false) :
    accepts (.at n) stack (text items tail) =
      (stack.length + doc.depth ≤ JsonLimits.maxRecursionDepth &&
        accepts .commaOrEnd stack tail) := by
  have hscalar {l : Lexeme} {items : List Spaced} {stack tail : List UInt8}
      (hdepth : stack.length ≤ JsonLimits.maxRecursionDepth)
      (hitems : items.map Spaced.lexeme = [l]) (hspacing : Spacing items [])
      (hloose : l.Loose validNumberChar) (hstarts : Document.Starts l)
      (hopen : l ≠ .openObject ∧ l ≠ .openArray)
      (hstop : ∀ char ∈ tail.head?, validNumberChar char = false) :
      accepts .value stack (text items tail) =
        (stack.length + 0 ≤ JsonLimits.maxRecursionDepth && accepts .commaOrEnd stack tail) := by
    obtain ⟨item, others, rfl, rfl, hothers⟩ := List.map_eq_cons_iff.mp hitems
    rw [List.map_eq_nil_iff.mp hothers, text_cons, text_nil, accepts_spaces _ _ hspacing.head,
      accepts_scalar hloose hstarts hopen hstop, Nat.add_zero, decide_eq_true hdepth,
      Bool.true_and]
  induction doc generalizing stack items tail with
  | string content =>
      exact hscalar hdepth hitems hspacing (hloose _ List.mem_cons_self) ⟨rfl, nofun, nofun⟩
        ⟨nofun, nofun⟩ hstop
  | number digits =>
      exact hscalar hdepth hitems hspacing (hloose _ List.mem_cons_self) ⟨rfl, nofun, nofun⟩
        ⟨nofun, nofun⟩ hstop
  | bool value =>
      exact hscalar hdepth hitems hspacing trivial ⟨rfl, nofun, nofun⟩ ⟨nofun, nofun⟩ hstop
  | null =>
      exact hscalar hdepth hitems hspacing trivial ⟨rfl, nofun, nofun⟩ ⟨nofun, nofun⟩ hstop
  | object members ih =>
      exact accepts_container rfl rfl rfl (by decide) (.inl rfl) (fun _ => accepts_openObject)
        accepts_closeObject hitems hspacing (fun l hl => hloose l (by simp [Document.lexemes, hl]))
        fun hempty hlt items tail hitems hspacing hstop =>
          ih hempty (List.head?_cons) hlt hitems hspacing
            (fun l hl => hloose l (by simp [Document.lexemes, hl])) hstop
  | array elements ih =>
      exact accepts_container rfl rfl rfl (by decide) (.inr rfl) (fun _ => accepts_openArray)
        accepts_closeArray hitems hspacing (fun l hl => hloose l (by simp [Document.lexemes, hl]))
        fun hempty hlt items tail hitems hspacing hstop =>
          ih hempty (show ((0x5b : UInt8) :: stack).head? ≠ some 0x7b by simp) hlt hitems hspacing
            (fun l hl => hloose l (by simp [Document.lexemes, hl])) hstop
  | noMembers | noElements => cases hne
  | member key value rest ih ih' =>
      rw [Document.lexemes_member] at hitems hloose
      obtain ⟨item, others, rfl, hkey, hothers⟩ := List.map_eq_cons_iff.mp hitems
      obtain ⟨item', others', rfl, hcolon, hothers'⟩ := List.map_eq_cons_iff.mp hothers
      obtain ⟨inner, after, rfl, hinner, hafter⟩ := List.map_eq_append_iff.mp hothers'
      have hpaired : Paired key := hloose _ List.mem_cons_self
      rw [text_cons, accepts_spaces _ _ hspacing.head, hkey, Lexeme.bytes, List.cons_append,
        List.append_assoc, List.singleton_append, Expects.at, accepts_key hpaired, text_cons,
        accepts_spaces _ _ hspacing.tail.head, hcolon, Lexeme.bytes, List.singleton_append,
        accepts_colon, text_append]
      have hafterSpacing : Spacing after [] :=
        ⟨fun other hmem => hspacing.tail.tail.items other (by simp [hmem]), by simp⟩
      have hinnerSpacing : Spacing inner [] :=
        ⟨fun other hmem => hspacing.tail.tail.items other (by simp [hmem]), by simp⟩
      exact accepts_sequence (by simp) hstack hdepth hafter hafterSpacing
        (fun l hl => hloose l (by simp [hl])) hstop
        (fun tail htail => ih value.isEmpty_value trivial hdepth hinner hinnerSpacing
          (fun l hl => hloose l (by simp [hl])) htail)
        (fun hempty hrest items hitems hspacing =>
          ih' hempty hstack hdepth hitems hspacing hrest hstop)
  | element value rest ih ih' =>
      rw [Document.lexemes_element] at hitems hloose
      obtain ⟨inner, after, rfl, hinner, hafter⟩ := List.map_eq_append_iff.mp hitems
      rw [text_append]
      have hafterSpacing : Spacing after [] :=
        ⟨fun other hmem => hspacing.items other (by simp [hmem]), by simp⟩
      have hinnerSpacing : Spacing inner [] :=
        ⟨fun other hmem => hspacing.items other (by simp [hmem]), by simp⟩
      exact accepts_sequence (by simp) hstack hdepth hafter hafterSpacing
        (fun l hl => hloose l (by simp [hl])) hstop
        (fun tail htail => ih value.isEmpty_value trivial hdepth hinner hinnerSpacing
          (fun l hl => hloose l (by simp [hl])) htail)
        (fun hempty hrest items hitems hspacing =>
          ih' hempty hstack hdepth hitems hspacing hrest hstop)

end Documents

/-- Something accepted that begins with a document, and what is accepted behind it. Members and
elements go on as long as there are commas. -/
def Begins (n : Nonterminal) (stack rest : List UInt8) : Prop :=
  ∃ (doc : Document n) (items : List Spaced) (tail : List UInt8),
    doc.isEmpty = false ∧ items.map Spaced.lexeme = doc.lexemes ∧ Spacing items [] ∧
      (∀ l ∈ doc.lexemes, l.Loose validNumberChar) ∧ rest = text items tail ∧
      accepts .commaOrEnd stack tail = true ∧
      (n ≠ .value → (skipWs tail).head? ≠ some 0x2c)

/-- White space in front of the first character. -/
theorem exists_spaces {rest tail : List UInt8} {c : UInt8} (h : skipWs rest = c :: tail) :
    ∃ spaces, (∀ char ∈ spaces, isSpace char = true) ∧ rest = spaces ++ c :: tail :=
  ⟨rest.takeWhile isSpace, fun _ hmem => List.mem_takeWhile_imp hmem, by
    rw [← h, skipWs, List.takeWhile_append_dropWhile]⟩

theorem closeString_eq_some {text tail : List UInt8} (h : closeString text = some tail) :
    ∃ content, Paired content ∧ text = content ++ quote :: tail := by
  fun_induction closeString text with
  | case1 => cases h
  | case2 rest =>
      cases h
      exact ⟨[], .nil, rfl⟩
  | case3 => cases h
  | case4 d rest hquote ih =>
      obtain ⟨content, hcontent, rfl⟩ := ih h
      exact ⟨backslash :: d :: content, .pair d hcontent, rfl⟩
  | case5 c rest hquote hescape ih =>
      obtain ⟨content, hcontent, rfl⟩ := ih h
      exact ⟨c :: content, .char hquote hescape hcontent, rfl⟩

/-- A lexeme takes a byte at least. -/
theorem length_text_lt {doc : Document .value} {items : List Spaced}
    (hitems : items.map Spaced.lexeme = doc.lexemes)
    (hloose : ∀ l ∈ doc.lexemes, l.Loose validNumberChar) (tail : List UInt8) :
    tail.length < (text items tail).length := by
  obtain ⟨a, more, hmore, -⟩ := Document.exists_lexemes_cons doc.isEmpty_value
  obtain ⟨item, others, rfl, rfl, -⟩ := List.map_eq_cons_iff.mp (hitems.trans hmore)
  obtain ⟨c, rest, hbytes, -⟩ := (hloose item.lexeme (by simp [hmore])).exists_cons
  have hothers : tail.length ≤ (text others tail).length := by
    rw [text, List.length_append]
    exact Nat.le_add_left _ _
  simp only [text_cons, hbytes, List.length_append, List.length_cons]
  omega

section Accepted
variable {stack rest : List UInt8}

/-- A value that is accepted is one lexeme or begins with a bracket. -/
theorem accepts_value_cases (h : accepts .value stack rest = true) :
    Begins .value stack rest ∨
    (∃ spaces tail, (∀ char ∈ spaces, isSpace char = true) ∧ rest = spaces ++ 0x7b :: tail ∧
      accepts (if (skipWs tail).head? = some 0x7d then .commaOrEnd else .keyOrEnd)
        (0x7b :: stack) tail = true) ∨
    (∃ spaces tail, (∀ char ∈ spaces, isSpace char = true) ∧ rest = spaces ++ 0x5b :: tail ∧
      accepts (if (skipWs tail).head? = some 0x5d then .commaOrEnd else .value)
        (0x5b :: stack) tail = true) := by
  have hlexeme {doc : Document .value} {l : Lexeme} {spaces tail : List UInt8}
      (hspaces : ∀ char ∈ spaces, isSpace char = true) (hdoc : doc.lexemes = [l])
      (hloose : l.Loose validNumberChar) (hrest : rest = spaces ++ (l.bytes ++ tail))
      (haccepts : accepts .commaOrEnd stack tail = true) : Begins .value stack rest := by
    refine ⟨doc, [⟨spaces, l⟩], tail, doc.isEmpty_value, hdoc.symm, ⟨?_, by simp⟩, ?_,
      by rw [hrest, text_cons, text_nil], haccepts, fun hn => absurd rfl hn⟩
    · rintro item hitem
      rw [List.mem_singleton.mp hitem]
      exact hspaces
    · rintro l' hl'
      rw [hdoc] at hl'
      rwa [List.mem_singleton.mp hl']
  cases hskip : skipWs rest with
  | nil =>
      rw [accepts_nil hskip] at h
      simp at h
  | cons c tail =>
      obtain ⟨spaces, hspaces, rfl⟩ := exists_spaces hskip
      by_cases hobject : c = 0x7b
      · subst hobject
        rw [accepts_spaces _ _ hspaces, accepts_openObject, Bool.and_eq_true] at h
        exact .inr (.inl ⟨spaces, tail, hspaces, rfl, h.2⟩)
      by_cases harray : c = 0x5b
      · subst harray
        rw [accepts_spaces _ _ hspaces, accepts_openArray, Bool.and_eq_true] at h
        exact .inr (.inr ⟨spaces, tail, hspaces, rfl, h.2⟩)
      refine .inl ?_
      rw [accepts_cons hskip, validateStep, validateValue, if_neg hobject, if_neg harray] at h
      have hkeyword {doc : Document .value} {l : Lexeme} (hdoc : doc.lexemes = [l])
          (hloose : l.Loose validNumberChar)
          (h : (match validKeyword stack l.bytes (c :: tail) with
            | none => false
            | some v => accepts v.state v.stack v.rest) = true) :
          Begins .value stack (spaces ++ c :: tail) := by
        rw [validKeyword] at h
        by_cases hprefix : l.bytes <+: c :: tail
        · obtain ⟨after, hafter⟩ := hprefix
          rw [if_pos ⟨after, hafter⟩, ← hafter, List.drop_left] at h
          exact hlexeme hspaces hdoc hloose (by rw [hafter]) h
        · rw [if_neg hprefix] at h
          cases h
      by_cases hquote : c = quote
      · subst hquote
        rw [if_pos rfl] at h
        cases hclose : closeString tail with
        | none =>
            rw [hclose] at h
            cases h
        | some after =>
            rw [hclose] at h
            obtain ⟨content, hcontent, rfl⟩ := closeString_eq_some hclose
            exact hlexeme hspaces (rfl : (Document.string content).lexemes = _) hcontent
              (by simp [Lexeme.bytes]) h
      rw [if_neg hquote] at h
      by_cases htrue : c = 0x74
      · rw [if_pos htrue] at h
        exact hkeyword (rfl : (Document.bool true).lexemes = _) trivial h
      rw [if_neg htrue] at h
      by_cases hnull : c = 0x6e
      · rw [if_pos hnull] at h
        exact hkeyword (rfl : Document.null.lexemes = _) trivial h
      rw [if_neg hnull] at h
      by_cases hfalse : c = 0x66
      · rw [if_pos hfalse] at h
        exact hkeyword (rfl : (Document.bool false).lexemes = _) trivial h
      rw [if_neg hfalse] at h
      by_cases hdigit : isDigit c = true ∨ c = 0x2d
      · rw [if_pos hdigit] at h
        refine hlexeme hspaces
          (rfl : (Document.number (c :: tail.takeWhile validNumberChar)).lexemes = _)
          ⟨c, _, rfl, hdigit, fun char hmem => List.mem_takeWhile_imp hmem⟩ ?_ h
        rw [Lexeme.bytes, List.cons_append, List.takeWhile_append_dropWhile]
      · rw [if_neg hdigit] at h
        cases h

/-- A member that is accepted begins with its key and a colon. -/
theorem accepts_key_cases (h : accepts .keyOrEnd stack rest = true)
    (hhead : (skipWs rest).head? ≠ some 0x7d) :
    ∃ key spaces spaces' tail, Paired key ∧ (∀ char ∈ spaces, isSpace char = true) ∧
      (∀ char ∈ spaces', isSpace char = true) ∧
      rest = spaces ++ quote :: (key ++ quote :: (spaces' ++ 0x3a :: tail)) ∧
      accepts .value stack tail = true := by
  cases hskip : skipWs rest with
  | nil =>
      rw [accepts_nil hskip] at h
      simp at h
  | cons c tail =>
      obtain ⟨spaces, hspaces, rfl⟩ := exists_spaces hskip
      have hc : c ≠ 0x7d := by
        rintro rfl
        exact hhead (by rw [hskip]; rfl)
      rw [accepts_cons hskip, validateStep, if_neg hc] at h
      by_cases hquote : c = quote
      · subst hquote
        rw [if_pos rfl] at h
        cases hclose : closeString tail with
        | none =>
            rw [hclose] at h
            cases h
        | some after =>
            rw [hclose] at h
            obtain ⟨key, hkey, rfl⟩ := closeString_eq_some hclose
            change accepts .colon stack after = true at h
            cases hskip' : skipWs after with
            | nil =>
                rw [accepts_nil hskip'] at h
                simp at h
            | cons c' tail' =>
                obtain ⟨spaces', hspaces', rfl⟩ := exists_spaces hskip'
                rw [accepts_cons hskip', validateStep] at h
                by_cases hcolon : c' = 0x3a
                · rw [if_pos hcolon] at h
                  exact ⟨key, spaces, spaces', tail', hkey, hspaces, hspaces', by rw [hcolon], h⟩
                · rw [if_neg hcolon] at h
                  cases h
      · rw [if_neg hquote] at h
        cases h

/-- Where a comma or an end is accepted there is the end of the text, a comma in front of something
else, or the bracket that closes the innermost container. -/
theorem accepts_commaOrEnd_cases (h : accepts .commaOrEnd stack rest = true) :
    (skipWs rest = [] ∧ stack = []) ∨
    (∃ spaces tail, (∀ char ∈ spaces, isSpace char = true) ∧ rest = spaces ++ 0x2c :: tail ∧
      (skipWs tail).head? ≠ some 0x7d ∧
      accepts (if stack.head? = some 0x7b then .keyOrEnd else .value) stack tail = true) ∨
    (∃ spaces tail outer, (∀ char ∈ spaces, isSpace char = true) ∧
      rest = spaces ++ 0x7d :: tail ∧ stack = 0x7b :: outer ∧
      accepts .commaOrEnd outer tail = true) ∨
    (∃ spaces tail outer, (∀ char ∈ spaces, isSpace char = true) ∧
      rest = spaces ++ 0x5d :: tail ∧ stack = 0x5b :: outer ∧
      accepts .commaOrEnd outer tail = true) := by
  cases hskip : skipWs rest with
  | nil =>
      rw [accepts_nil hskip, Bool.and_eq_true, decide_eq_true_eq] at h
      exact .inl ⟨rfl, h.1⟩
  | cons c tail =>
      obtain ⟨spaces, hspaces, rfl⟩ := exists_spaces hskip
      have hclose {bracket : UInt8} (h : (match closeContainer stack tail bracket with
          | none => false
          | some v => accepts v.state v.stack v.rest) = true) :
          ∃ outer, stack = bracket :: outer ∧ accepts .commaOrEnd outer tail = true := by
        cases stack with
        | nil => cases h
        | cons top outer =>
            rw [closeContainer] at h
            by_cases htop : top = bracket
            · rw [if_pos htop] at h
              exact ⟨outer, by rw [htop], h⟩
            · rw [if_neg htop] at h
              cases h
      rw [accepts_cons hskip, validateStep, validateCommaOrEnd] at h
      by_cases hcomma : c = 0x2c
      · subst hcomma
        rw [if_pos rfl] at h
        cases hnext : skipWs tail with
        | nil =>
            rw [hnext] at h
            cases h
        | cons d after =>
            rw [hnext] at h
            dsimp only at h
            by_cases hd : d = 0x7d ∨ d = 0x5d
            · rw [if_pos hd] at h
              cases h
            · rw [if_neg hd, ← hnext] at h
              dsimp only at h
              rw [accepts_skipWs] at h
              refine .inr (.inl ⟨spaces, tail, hspaces, rfl, ?_, h⟩)
              rw [hnext]
              rintro ⟨⟩
              exact hd (.inl rfl)
      rw [if_neg hcomma] at h
      by_cases hobject : c = 0x7d
      · subst hobject
        obtain ⟨outer, hstack, haccepts⟩ := hclose h
        exact .inr (.inr (.inl ⟨spaces, tail, outer, hspaces, rfl, hstack, haccepts⟩))
      rw [if_neg hobject] at h
      by_cases harray : c = 0x5d
      · subst harray
        obtain ⟨outer, hstack, haccepts⟩ := hclose h
        exact .inr (.inr (.inr ⟨spaces, tail, outer, hspaces, rfl, hstack, haccepts⟩))
      · rw [if_neg harray] at h
        cases h

/-- Behind a member or an element there are the others, as long as there are commas. -/
theorem exists_behind {n : Nonterminal} (hn : n ≠ .value) (hstack : InContainer n stack)
    (h : accepts .commaOrEnd stack rest = true)
    (ih : ∀ tail : List UInt8, tail.length < rest.length → accepts (.at n) stack tail = true →
      (skipWs tail).head? ≠ some 0x7d → Begins n stack tail) :
    ∃ (others : Document n) (items : List Spaced) (tail : List UInt8),
      items.map Spaced.lexeme = others.behind ∧ Spacing items [] ∧
        (∀ l ∈ others.behind, l.Loose validNumberChar) ∧ rest = text items tail ∧
        accepts .commaOrEnd stack tail = true ∧ (skipWs tail).head? ≠ some 0x2c := by
  have hend (hno : (skipWs rest).head? ≠ some 0x2c) :
      ∃ (others : Document n) (items : List Spaced) (tail : List UInt8),
        items.map Spaced.lexeme = others.behind ∧ Spacing items [] ∧
          (∀ l ∈ others.behind, l.Loose validNumberChar) ∧ rest = text items tail ∧
          accepts .commaOrEnd stack tail = true ∧ (skipWs tail).head? ≠ some 0x2c := by
    cases n with
    | value => exact absurd rfl hn
    | members => exact ⟨.noMembers, [], rest, rfl, ⟨by simp, by simp⟩, nofun, rfl, h, hno⟩
    | elements => exact ⟨.noElements, [], rest, rfl, ⟨by simp, by simp⟩, nofun, rfl, h, hno⟩
  obtain ⟨hskip, -⟩ | ⟨spaces, tail, hspaces, hrest, hhead, haccepts⟩ |
      ⟨spaces, tail, outer, hspaces, hrest, -⟩ | ⟨spaces, tail, outer, hspaces, hrest, -⟩ :=
    accepts_commaOrEnd_cases h
  · exact hend (by simp [hskip])
  · have hnext : (if stack.head? = some 0x7b then Expects.keyOrEnd else .value) = .at n := by
      cases n with
      | value => exact absurd rfl hn
      | members => exact if_pos hstack
      | elements => exact if_neg hstack
    rw [hnext] at haccepts
    have hlength : tail.length < rest.length := by
      rw [hrest, List.length_append, List.length_cons]
      omega
    obtain ⟨others, items, after, hempty, hitems, hspacing, hloose, rfl, haccepts', hno⟩ :=
      ih tail hlength haccepts hhead
    have hbehind : others.behind = .comma :: others.lexemes := by
      rw [Document.behind, if_neg (by simp [hempty])]
    refine ⟨others, ⟨spaces, .comma⟩ :: items, after, ?_, ⟨?_, by simp⟩, ?_, ?_, haccepts', hno hn⟩
    · rw [hbehind, List.map_cons, hitems]
    · exact List.forall_mem_cons.mpr ⟨hspaces, hspacing.items⟩
    · rw [hbehind]
      exact List.forall_mem_cons.mpr ⟨trivial, hloose⟩
    · rw [hrest, text_cons]
      rfl
  · refine hend ?_
    rw [hrest, skipWs_append hspaces, skipWs_cons (by decide)]
    simp
  · refine hend ?_
    rw [hrest, skipWs_append hspaces, skipWs_cons (by decide)]
    simp

/-- The bracket that closes a container stands behind what is in it. -/
theorem exists_close {n : Nonterminal} {inner : Document n} {bracket closing : UInt8}
    {opens closes : Lexeme} {doc : Document .value} (hopens : opens.bytes = [bracket])
    (hcloses : closes.bytes = [closing])
    (hdoc : doc.lexemes = opens :: (inner.lexemes ++ [closes]))
    (hfine : opens.Loose validNumberChar ∧ closes.Loose validNumberChar)
    {spaces tail : List UInt8} {items : List Spaced}
    (hspaces : ∀ char ∈ spaces, isSpace char = true)
    (hitems : items.map Spaced.lexeme = inner.lexemes) (hspacing : Spacing items [])
    (hloose : ∀ l ∈ inner.lexemes, l.Loose validNumberChar)
    (hclose : ∃ spaces after, (∀ char ∈ spaces, isSpace char = true) ∧
      tail = spaces ++ closing :: after ∧ accepts .commaOrEnd stack after = true) :
    Begins .value stack (spaces ++ bracket :: text items tail) := by
  obtain ⟨spaces', after, hspaces', rfl, haccepts⟩ := hclose
  refine ⟨doc, ⟨spaces, opens⟩ :: (items ++ [⟨spaces', closes⟩]), after, doc.isEmpty_value, ?_,
    ⟨?_, by simp⟩, ?_, ?_, haccepts, fun hn => absurd rfl hn⟩
  · rw [hdoc, List.map_cons, List.map_append, hitems]
    rfl
  · refine List.forall_mem_cons.mpr ⟨hspaces, List.forall_mem_append.mpr ⟨hspacing.items, ?_⟩⟩
    exact List.forall_mem_singleton.mpr hspaces'
  · rw [hdoc]
    refine List.forall_mem_cons.mpr ⟨hfine.1, List.forall_mem_append.mpr ⟨hloose, ?_⟩⟩
    exact List.forall_mem_singleton.mpr hfine.2
  · rw [text_cons, text_append, text_cons, text_nil, hopens, hcloses]
    rfl

/-- Without a comma there is the bracket that closes the innermost container. -/
theorem exists_closing {bracket closing : UInt8}
    (hpair : bracket = 0x7b ∧ closing = 0x7d ∨ bracket = 0x5b ∧ closing = 0x5d)
    (h : accepts .commaOrEnd (bracket :: stack) rest = true)
    (hno : (skipWs rest).head? ≠ some 0x2c) :
    ∃ spaces after, (∀ char ∈ spaces, isSpace char = true) ∧ rest = spaces ++ closing :: after ∧
      accepts .commaOrEnd stack after = true := by
  obtain ⟨-, hnil⟩ | ⟨spaces, tail, hspaces, rfl, -⟩ |
      ⟨spaces, tail, outer, hspaces, hrest, heq, h⟩ |
      ⟨spaces, tail, outer, hspaces, hrest, heq, h⟩ := accepts_commaOrEnd_cases h
  · cases hnil
  · rw [skipWs_append hspaces, skipWs_cons (by decide)] at hno
    exact absurd rfl hno
  · obtain ⟨rfl, rfl⟩ := List.cons.inj heq
    obtain ⟨-, rfl⟩ | ⟨hne, -⟩ := hpair
    · exact ⟨spaces, tail, hspaces, hrest, h⟩
    · exact absurd hne (by decide)
  · obtain ⟨rfl, rfl⟩ := List.cons.inj heq
    obtain ⟨hne, -⟩ | ⟨-, rfl⟩ := hpair
    · exact absurd hne (by decide)
    · exact ⟨spaces, tail, hspaces, hrest, h⟩

/-- By induction on the length: what is accepted begins with a document. -/
theorem begins_of_accepts (stack rest : List UInt8) :
    (accepts .value stack rest = true → Begins .value stack rest) ∧
    (accepts .value stack rest = true → stack.head? ≠ some 0x7b → Begins .elements stack rest) ∧
    (accepts .keyOrEnd stack rest = true → stack.head? = some 0x7b →
      (skipWs rest).head? ≠ some 0x7d → Begins .members stack rest) := by
  induction hlength : rest.length using Nat.strong_induction_on generalizing stack rest with
  | h k ih =>
      subst hlength
      have hvalue : accepts .value stack rest = true → Begins .value stack rest := by
        intro h
        obtain hbegins | ⟨spaces, tail, hspaces, rfl, haccepts⟩ |
          ⟨spaces, tail, hspaces, rfl, haccepts⟩ := accepts_value_cases h
        · exact hbegins
        · have hlength : tail.length < (spaces ++ 0x7b :: tail).length := by
            rw [List.length_append, List.length_cons]
            omega
          by_cases hhead : (skipWs tail).head? = some 0x7d
          · rw [if_pos hhead] at haccepts
            have hclose := exists_closing (.inl ⟨rfl, rfl⟩) haccepts (by rw [hhead]; decide)
            exact exists_close rfl rfl (rfl : (Document.object .noMembers).lexemes = _)
              ⟨trivial, trivial⟩ hspaces (List.map_nil : [].map Spaced.lexeme = _)
              ⟨by simp, by simp⟩ nofun hclose
          · rw [if_neg hhead] at haccepts
            obtain ⟨members, items, after, -, hitems, hspacing, hloose, rfl, haccepts', hno⟩ :=
              (ih _ hlength _ tail rfl).2.2 haccepts rfl hhead
            have hclose := exists_closing (.inl ⟨rfl, rfl⟩) haccepts' (hno (by simp))
            exact exists_close rfl rfl (rfl : (Document.object members).lexemes = _)
              ⟨trivial, trivial⟩ hspaces hitems hspacing hloose hclose
        · have hlength : tail.length < (spaces ++ 0x5b :: tail).length := by
            rw [List.length_append, List.length_cons]
            omega
          by_cases hhead : (skipWs tail).head? = some 0x5d
          · rw [if_pos hhead] at haccepts
            have hclose := exists_closing (.inr ⟨rfl, rfl⟩) haccepts (by rw [hhead]; decide)
            exact exists_close rfl rfl (rfl : (Document.array .noElements).lexemes = _)
              ⟨trivial, trivial⟩ hspaces (List.map_nil : [].map Spaced.lexeme = _)
              ⟨by simp, by simp⟩ nofun hclose
          · rw [if_neg hhead] at haccepts
            obtain ⟨elements, items, after, -, hitems, hspacing, hloose, rfl, haccepts', hno⟩ :=
              (ih _ hlength _ tail rfl).2.1 haccepts (by simp)
            have hclose := exists_closing (.inr ⟨rfl, rfl⟩) haccepts' (hno (by simp))
            exact exists_close rfl rfl (rfl : (Document.array elements).lexemes = _)
              ⟨trivial, trivial⟩ hspaces hitems hspacing hloose hclose
      refine ⟨hvalue, fun h hstack => ?_, fun h hstack hhead => ?_⟩
      · obtain ⟨value, items, tail, -, hitems, hspacing, hloose, rfl, haccepts, -⟩ := hvalue h
        have hlength := length_text_lt hitems hloose tail
        obtain ⟨others, items', after, hitems', hspacing', hloose', rfl, haccepts', hno⟩ :=
          exists_behind (n := .elements) (by simp) hstack haccepts fun tail' hlt hnext _ =>
            (ih _ (hlt.trans hlength) _ tail' rfl).2.1 hnext hstack
        refine ⟨.element value others, items ++ items', after, rfl, ?_, ⟨?_, by simp⟩, ?_, ?_,
          haccepts', fun _ => hno⟩
        · rw [List.map_append, hitems, hitems', Document.lexemes_element]
        · exact List.forall_mem_append.mpr ⟨hspacing.items, hspacing'.items⟩
        · rw [Document.lexemes_element]
          exact List.forall_mem_append.mpr ⟨hloose, hloose'⟩
        · rw [text_append]
      · obtain ⟨key, spaces, spaces', tail, hkey, hspaces, hspaces', rfl, hmember⟩ :=
          accepts_key_cases h hhead
        have hlength : tail.length <
            (spaces ++ quote :: (key ++ quote :: (spaces' ++ 0x3a :: tail))).length := by
          simp only [List.length_append, List.length_cons]
          omega
        obtain ⟨value, items, after, -, hitems, hspacing, hloose, rfl, haccepts, -⟩ :=
          (ih _ hlength _ tail rfl).1 hmember
        have hlength' := length_text_lt hitems hloose after
        obtain ⟨others, items', after', hitems', hspacing', hloose', rfl, haccepts', hno⟩ :=
          exists_behind (n := .members) (by simp) hstack haccepts fun tail' hlt hnext hhead =>
            (ih _ (hlt.trans (hlength'.trans hlength)) _ tail' rfl).2.2 hnext hstack hhead
        refine ⟨.member key value others,
          ⟨spaces, .string key⟩ :: ⟨spaces', .colon⟩ :: (items ++ items'), after', rfl, ?_,
          ⟨?_, by simp⟩, ?_, ?_, haccepts', fun _ => hno⟩
        · rw [List.map_cons, List.map_cons, List.map_append, hitems, hitems',
            Document.lexemes_member]
        · exact List.forall_mem_cons.mpr ⟨hspaces, List.forall_mem_cons.mpr ⟨hspaces',
            List.forall_mem_append.mpr ⟨hspacing.items, hspacing'.items⟩⟩⟩
        · rw [Document.lexemes_member]
          exact List.forall_mem_cons.mpr ⟨hkey, List.forall_mem_cons.mpr ⟨trivial,
            List.forall_mem_append.mpr ⟨hloose, hloose'⟩⟩⟩
        · rw [text_cons, text_cons, text_append]
          simp [Lexeme.bytes]

end Accepted

/-- The text is, white space aside, one value of the grammar. -/
def OneValue (json : List UInt8) : Prop :=
  ∃ (doc : Document .value) (items : List Spaced) (trailing : List UInt8),
    items.map Spaced.lexeme = doc.lexemes ∧ Spacing items trailing ∧ json = text items trailing ∧
      (∀ l ∈ doc.lexemes, l.Loose isNumberChar) ∧ doc.depth ≤ JsonLimits.maxRecursionDepth

/-- The values of a text, separated by commas. Their numbers may go on with zero bytes. -/
structure Values (json : List UInt8) (doc : Document .elements) (items : List Spaced)
    (trailing : List UInt8) : Prop where
  nonempty : doc.isEmpty = false
  lexemes : items.map Spaced.lexeme = doc.lexemes
  spacing : Spacing items trailing
  eq_text : json = text items trailing
  loose : ∀ l ∈ doc.lexemes, l.Loose validNumberChar
  depth_le : doc.depth ≤ JsonLimits.maxRecursionDepth

/-- There are two values or more, or there is a zero byte in a number. -/
def Stray (json : List UInt8) : Prop :=
  ∃ doc items trailing, Values json doc items trailing ∧
    (2 ≤ doc.toElements.length ∨ ∃ digits, .number digits ∈ doc.lexemes ∧ 0 ∈ digits)

theorem validate_eq_true_iff (json : List UInt8) :
    validate json = true ↔ ∃ doc items trailing, Values json doc items trailing := by
  have hhead {trailing : List UInt8} (hspaces : ∀ char ∈ trailing, isSpace char = true) :
      ∀ char ∈ trailing.head?, validNumberChar char = false := fun char hchar =>
    stops_validNumberChar char (.inl (hspaces char (List.mem_of_mem_head? hchar)))
  have hdocument {doc : Document .elements} {items : List Spaced} {trailing : List UInt8}
      (hempty : doc.isEmpty = false) (hitems : items.map Spaced.lexeme = doc.lexemes)
      (hspacing : Spacing items trailing) (hloose : ∀ l ∈ doc.lexemes, l.Loose validNumberChar) :
      accepts .value [] (text items trailing) =
        decide (doc.depth ≤ JsonLimits.maxRecursionDepth) := by
    have hend : accepts .commaOrEnd [] trailing = true := by
      rw [accepts_nil (List.dropWhile_eq_nil_iff.mpr hspacing.trailing)]
      rfl
    have heq := accepts_document doc hempty (show InContainer .elements [] by simp [InContainer])
      (Nat.zero_le _) hitems ⟨hspacing.items, by simp⟩ hloose (hhead hspacing.trailing)
    rw [hend, Bool.and_true, List.length_nil, Nat.zero_add] at heq
    exact heq
  rw [validate_eq]
  constructor
  · intro h
    obtain ⟨doc, items, tail, hempty, hitems, hspacing, hloose, rfl, haccepts, hno⟩ :=
      (begins_of_accepts [] json).2.1 h (by simp)
    obtain ⟨hskip, -⟩ | ⟨spaces, after, hspaces, rfl, -⟩ | ⟨_, _, _, _, _, hnil, -⟩ |
        ⟨_, _, _, _, _, hnil, -⟩ := accepts_commaOrEnd_cases haccepts
    · have hspacing' : Spacing items tail := ⟨hspacing.items, List.dropWhile_eq_nil_iff.mp hskip⟩
      rw [hdocument hempty hitems hspacing' hloose, decide_eq_true_eq] at h
      exact ⟨doc, items, tail, hempty, hitems, hspacing', rfl, hloose, h⟩
    · refine absurd ?_ (hno (by simp))
      rw [skipWs_append hspaces, skipWs_cons (by decide)]
      rfl
    · cases hnil
    · cases hnil
  · rintro ⟨doc, items, trailing, hempty, hitems, hspacing, rfl, hloose, hdepth⟩
    rw [hdocument hempty hitems hspacing hloose, decide_eq_true hdepth]

theorem OneValue.values {json : List UInt8} (h : OneValue json) :
    ∃ (doc : Document .value) (items : List Spaced) (trailing : List UInt8),
      Values json (.element doc .noElements) items trailing ∧
        ∀ l ∈ doc.lexemes, l.Loose isNumberChar := by
  obtain ⟨doc, items, trailing, hitems, hspacing, htext, hloose, hdepth⟩ := h
  have hlexemes : (Document.element doc .noElements).lexemes = doc.lexemes :=
    List.append_nil doc.lexemes
  refine ⟨doc, items, trailing, ⟨rfl, hitems.trans hlexemes.symm, hspacing, htext, ?_, ?_⟩, hloose⟩
  · intro l hl
    exact (hloose l (hlexemes ▸ hl)).mono fun _ => validNumberChar_of_isNumberChar
  · exact (Nat.max_zero _).trans_le hdepth

/-- The values of a text are found again. -/
theorem Values.unique {json : List UInt8} {doc doc' : Document .elements}
    {items items' : List Spaced} {trailing trailing' : List UInt8}
    (h : Values json doc items trailing) (h' : Values json doc' items' trailing') : doc = doc' := by
  refine Document.lexemes_injective ?_
  rw [← h.lexemes, ← h'.lexemes]
  refine text_injective stops_validNumberChar h.spacing h'.spacing ?_ ?_ ?_ ?_
    (h.eq_text.symm.trans h'.eq_text)
  · exact h.lexemes ▸ doc.adjacent
  · exact h'.lexemes ▸ doc'.adjacent
  · exact h.lexemes ▸ h.loose
  · exact h'.lexemes ▸ h'.loose

theorem not_stray_of_oneValue {json : List UInt8} (h : OneValue json) : ¬ Stray json := by
  obtain ⟨doc, items, trailing, hvalues, hloose⟩ := h.values
  rintro ⟨doc', items', trailing', hvalues', hstray⟩
  obtain rfl := hvalues'.unique hvalues
  obtain hlength | ⟨digits, hdigits, hzero⟩ := hstray
  · simp [Document.toElements] at hlength
  · rw [Document.lexemes_element] at hdigits
    obtain ⟨c, rest, rfl, hc, hrest⟩ := hloose _ (List.append_nil doc.lexemes ▸ hdigits)
    obtain rfl | hmem := List.mem_cons.mp hzero
    · revert hc
      decide
    · have := hrest 0 hmem
      revert this
      decide

theorem oneValue_of_not_stray {json : List UInt8} (h : validate json = true)
    (hstray : ¬ Stray json) : OneValue json := by
  obtain ⟨doc, items, trailing, hvalues⟩ := (validate_eq_true_iff json).mp h
  have hlength : ¬ 2 ≤ doc.toElements.length := fun hlength =>
    hstray ⟨doc, items, trailing, hvalues, .inl hlength⟩
  have hzero : ∀ digits, .number digits ∈ doc.lexemes → (0 : UInt8) ∉ digits :=
    fun digits hdigits hmem =>
      hstray ⟨doc, items, trailing, hvalues, .inr ⟨digits, hdigits, hmem⟩⟩
  cases doc with
  | noElements => exact absurd hvalues.nonempty nofun
  | element value rest =>
      cases rest with
      | element => simp [Document.toElements] at hlength
      | noElements =>
          have hlexemes : (Document.element value .noElements).lexemes = value.lexemes :=
            List.append_nil value.lexemes
          have hdepth : value.depth ≤ JsonLimits.maxRecursionDepth :=
            (Nat.le_max_left _ _).trans hvalues.depth_le
          refine ⟨value, items, trailing, hvalues.lexemes.trans hlexemes, hvalues.spacing,
            hvalues.eq_text, fun l hl => ?_, hdepth⟩
          have hl' : l ∈ (Document.element value .noElements).lexemes := hlexemes ▸ hl
          have hloose := hvalues.loose l hl'
          cases l with
          | number digits =>
              obtain ⟨c, rest, rfl, hc, hrest⟩ := hloose
              refine ⟨c, rest, rfl, hc, fun char hchar => ?_⟩
              have hne : char ≠ 0 := by
                rintro rfl
                exact hzero _ hl' (List.mem_cons_of_mem _ hchar)
              simpa [validNumberChar, hne] using hrest char hchar
          | _ => exact hloose

/-- The validator accepts the values of the grammar and nothing else, but for texts of several
values and for zero bytes in numbers. -/
theorem validate_iff (json : List UInt8) :
    (validate json = true ↔ OneValue json) ↔ ¬ Stray json := by
  constructor
  · rintro h hstray
    obtain ⟨doc, items, trailing, hvalues, -⟩ := id hstray
    exact not_stray_of_oneValue (h.mp ((validate_eq_true_iff json).mpr ⟨_, _, _, hvalues⟩)) hstray
  · intro hstray
    refine ⟨fun h => oneValue_of_not_stray h hstray, fun h => ?_⟩
    obtain ⟨doc, items, trailing, hvalues, -⟩ := h.values
    exact (validate_eq_true_iff json).mpr ⟨_, _, _, hvalues⟩

/-- `1,2` is accepted. -/
theorem not_validate_iff : ¬ ∀ json, validate json = true ↔ OneValue json := by
  intro h
  have hvalues : Values [0x31, 0x2c, 0x32]
      (.element (.number [0x31]) (.element (.number [0x32]) .noElements))
      [⟨[], .number [0x31]⟩, ⟨[], .comma⟩, ⟨[], .number [0x32]⟩] [] := by
    refine ⟨rfl, rfl, ⟨by simp, by simp⟩, rfl, ?_, by decide⟩
    simp only [Document.lexemes, Document.isEmpty, Bool.false_eq_true, if_false, if_true,
      List.append_nil, List.singleton_append, List.forall_mem_cons]
    exact ⟨⟨_, _, rfl, .inl (by decide), List.forall_mem_nil _⟩, trivial,
      ⟨_, _, rfl, .inl (by decide), List.forall_mem_nil _⟩, List.forall_mem_nil _⟩
  have hone := (h _).mp ((validate_eq_true_iff _).mpr ⟨_, _, _, hvalues⟩)
  exact not_stray_of_oneValue hone ⟨_, _, _, hvalues, .inl (by simp [Document.toElements])⟩

end JsonReader

end Ebus
