import Ebus.Utils.JsonWriter
import Ebus.Verification.Numerals
import Ebus.Verification.Streaming

/-!
# What the writer writes

A tree is written by calls of the writer; for a member there are several ways to do it, and
`Script` relates a tree to all of them. Whatever the calls and wherever the buffer is flushed in
between, the text is one of the tree's lexemes (`Script.run`), with a comma in front of what is
not the first. The reader gets its tokens back.
-/

namespace Ebus

open Json

/-- The text of a string between its quotes. -/
def escaped (s : List UInt8) : List UInt8 := s.flatMap fun c => (escapeOf c).getD [c]

/-- A key that needs no escaping. -/
structure Key where
  bytes : List UInt8
  plain : (bytes.all fun c => (escapeOf c).isNone) = true
  deriving DecidableEq, Repr

/-- A value, or what is left of the members of an object or of the elements of an array. -/
inductive Tree : Nonterminal → Type
  | scalar (value : Scalar) : Tree .value
  | object (members : Tree .members) : Tree .value
  | array (elements : Tree .elements) : Tree .value
  | noMembers : Tree .members
  | member (key : Key) (value : Tree .value) (rest : Tree .members) : Tree .members
  | noElements : Tree .elements
  | element (value : Tree .value) (rest : Tree .elements) : Tree .elements

namespace Scalar

def lexeme : Scalar → Lexeme
  | .null => .null
  | .boolean value => .bool value
  | .integer value => .number (Chars.toChars value.value)
  | .string value => .string (escaped value)

/-- The token of a scalar and its value; a string comes in its escaped form. -/
def token : Scalar → JsonReader.Token × List UInt8
  | .null => (.null, Lexeme.nullText)
  | .boolean true => (.boolean, Lexeme.trueText)
  | .boolean false => (.boolean, Lexeme.falseText)
  | .integer value => (.number, Chars.toChars value.value)
  | .string value => (.string, escaped value)

end Scalar

namespace Tree

/-- The tokens of a tree, in order. -/
def tokens : {n : Nonterminal} → Tree n → List (JsonReader.Token × List UInt8)
  | _, .scalar value => [value.token]
  | _, .object members => (.objectStart, []) :: (members.tokens ++ [(.objectEnd, [])])
  | _, .array elements => (.arrayStart, []) :: (elements.tokens ++ [(.arrayEnd, [])])
  | _, .noMembers => []
  | _, .member key value rest => (.key, key.bytes) :: (value.tokens ++ rest.tokens)
  | _, .noElements => []
  | _, .element value rest => value.tokens ++ rest.tokens

/-- The comma in front of what is not the first. -/
def comma (first : Bool) : List Lexeme := if first then [] else [.comma]

def lexemes : {n : Nonterminal} → Tree n → Bool → List Lexeme
  | _, .scalar value, first => comma first ++ [value.lexeme]
  | _, .object members, first =>
      comma first ++ (.openObject :: (members.lexemes true ++ [.closeObject]))
  | _, .array elements, first =>
      comma first ++ (.openArray :: (elements.lexemes true ++ [.closeArray]))
  | _, .noMembers, _ => []
  | _, .member key value rest, first =>
      comma first ++ (.string key.bytes :: .colon :: (value.lexemes true ++ rest.lexemes false))
  | _, .noElements, _ => []
  | _, .element value rest, first => value.lexemes first ++ rest.lexemes false

end Tree

open JsonWriter in
/-- The calls that write a tree. -/
inductive Script : {n : Nonterminal} → Tree n → List Call → Prop
  | scalar (value : Scalar) : Script (.scalar value) [.writeValue value]
  | object {members : Tree .members} {calls : List Call} (h : Script members calls) :
      Script (.object members) (.startObject :: (calls ++ [.endObject]))
  | array {elements : Tree .elements} {calls : List Call} (h : Script elements calls) :
      Script (.array elements) (.startArray :: (calls ++ [.endArray]))
  /-- a value with `toJson` -/
  | nested {value : Tree .value} {calls : List Call} (h : Script value calls) :
      Script value (.enterValue :: (calls ++ [.leave]))
  | noMembers : Script .noMembers []
  | field (key : Key) (value : Scalar) {rest : Tree .members} {calls : List Call}
      (hrest : Script rest calls) :
      Script (.member key (.scalar value) rest) (.writeField key.bytes value :: calls)
  | fieldVariant (key : Key) (value : Scalar) {rest : Tree .members} {calls : List Call}
      (hrest : Script rest calls) :
      Script (.member key (.scalar value) rest) (.writeFieldVariant key.bytes value :: calls)
  | fieldNested (key : Key) {value : Tree .value} {rest : Tree .members} {calls calls' : List Call}
      (hvalue : Script value calls) (hrest : Script rest calls') :
      Script (.member key value rest) (.enterField key.bytes :: (calls ++ .leave :: calls'))
  | member (key : Key) {value : Tree .value} {rest : Tree .members} {calls calls' : List Call}
      (hvalue : Script value calls) (hrest : Script rest calls') :
      Script (.member key value rest) (.appendKey key.bytes :: (calls ++ calls'))
  | noElements : Script .noElements []
  | element {value : Tree .value} {rest : Tree .elements} {calls calls' : List Call}
      (hvalue : Script value calls) (hrest : Script rest calls') :
      Script (.element value rest) (calls ++ calls')

theorem flatten_run (run : List UInt8) : (if run = [] then [] else [run]).flatten = run := by
  by_cases hrun : run = []
  · simp [hrun]
  · simp [hrun]

theorem flatten_writeEscapedLoop (run s : List UInt8) :
    (writeEscapedLoop run s).flatten = run ++ escaped s := by
  induction s generalizing run with
  | nil =>
      rw [writeEscapedLoop, flatten_run]
      exact (List.append_nil run).symm
  | cons c rest ih =>
      rw [writeEscapedLoop]
      cases hescape : escapeOf c with
      | none => simp [ih, escaped, hescape]
      | some text => simp [ih, escaped, hescape, flatten_run]

theorem flatten_writeEscapedJson (s : List UInt8) : (writeEscapedJson s).flatten = escaped s :=
  flatten_writeEscapedLoop [] s

/-- The two forms of an escape. -/
def isEscape : List UInt8 → Bool
  | [a, b] => a = backslash && isSimpleEscape b
  | [a, b, c, d, e, f] =>
      a = backslash && b = Json.unicode && isHexDigit c && isHexDigit d && isHexDigit e &&
        isHexDigit f
  | _ => false

theorem isEscape_escapeOf {c : UInt8} {text : List UInt8} (h : escapeOf c = some text) :
    isEscape text = true := by
  have hall : ∀ n : Fin 256, ∀ text ∈ escapeOf (UInt8.ofNat n), isEscape text = true := by
    decide +kernel
  exact hall ⟨c.toNat, c.toNat_lt⟩ text (by simpa using h)

theorem plain_of_escapeOf {c : UInt8} (h : escapeOf c = none) :
    c ≠ quote ∧ c ≠ backslash ∧ ¬ c < 0x20 := by
  refine ⟨?_, ?_, fun hlt => ?_⟩
  · rintro rfl
    cases h
  · rintro rfl
    cases h
  · simp only [escapeOf, hlt, if_true] at h
    repeat' split at h
    all_goals cases h

theorem stringContent_append {text rest : List UInt8} (h : isEscape text = true)
    (hrest : StringContent rest) : StringContent (text ++ rest) := by
  match text with
  | [a, b] =>
      simp only [isEscape, Bool.and_eq_true, decide_eq_true_eq] at h
      obtain ⟨rfl, hb⟩ := h
      exact .escape hb hrest
  | [a, b, c, d, e, f] =>
      simp only [isEscape, Bool.and_eq_true, decide_eq_true_eq] at h
      obtain ⟨⟨⟨⟨⟨rfl, rfl⟩, hc⟩, hd⟩, he⟩, hf⟩ := h
      exact .unicode hc hd he hf hrest
  | [] | [_] | [_, _, _] | [_, _, _, _] | [_, _, _, _, _] | _ :: _ :: _ :: _ :: _ :: _ :: _ :: _ =>
      cases h

theorem stringContent_escaped (s : List UInt8) : StringContent (escaped s) := by
  induction s with
  | nil => exact .nil
  | cons c rest ih =>
      have hcons : escaped (c :: rest) = (escapeOf c).getD [c] ++ escaped rest := rfl
      rw [hcons]
      cases hescape : escapeOf c with
      | none =>
          obtain ⟨hquote, hbackslash, hcontrol⟩ := plain_of_escapeOf hescape
          exact .char hquote hbackslash hcontrol ih
      | some text => exact stringContent_append (isEscape_escapeOf hescape) ih

theorem stringContent_key (key : Key) : StringContent key.bytes := by
  obtain ⟨bytes, hplain⟩ := key
  induction bytes with
  | nil => exact .nil
  | cons c rest ih =>
      rw [List.all_cons, Bool.and_eq_true, Option.isNone_iff_eq_none] at hplain
      obtain ⟨hquote, hbackslash, hcontrol⟩ := plain_of_escapeOf hplain.1
      exact .char hquote hbackslash hcontrol (ih hplain.2)

/-- The characters that have an escape: the controls, the quote and the backslash. -/
def special (n : Fin 34) : UInt8 :=
  if n = 32 then quote else if n = 33 then backslash else UInt8.ofNat n

theorem exists_special {c : UInt8} (h : escapeOf c ≠ none) : ∃ n, special n = c := by
  have hall : ∀ n : Fin 256, escapeOf (UInt8.ofNat n) ≠ none → ∃ m, special m = UInt8.ofNat n := by
    decide +kernel
  simpa using hall ⟨c.toNat, c.toNat_lt⟩ (by simpa using h)

/-- No escape begins with another one. -/
theorem eq_of_escapeOf {c d : UInt8} {a b : List UInt8} (ha : escapeOf c = some a)
    (hb : escapeOf d = some b) (h : a <+: b) : c = d := by
  have hall : ∀ m n : Fin 34, ∀ a ∈ escapeOf (special m), ∀ b ∈ escapeOf (special n),
      a <+: b → m = n := by
    decide +kernel
  obtain ⟨m, rfl⟩ := exists_special (by rw [ha]; simp : escapeOf c ≠ none)
  obtain ⟨n, rfl⟩ := exists_special (by rw [hb]; simp : escapeOf d ≠ none)
  rw [hall m n a ha b hb h]

theorem head_isEscape {text : List UInt8} (h : isEscape text = true) :
    ∃ rest, text = backslash :: rest := by
  match text with
  | [a, b] | [a, b, c, d, e, f] =>
      simp only [isEscape, Bool.and_eq_true, decide_eq_true_eq] at h
      simp [h]
  | [] | [_] | [_, _, _] | [_, _, _, _] | [_, _, _, _, _] | _ :: _ :: _ :: _ :: _ :: _ :: _ :: _ =>
      cases h

/-- The text of a character tells it from all others, whatever follows. -/
theorem eq_of_getD_append {c d : UInt8} {x y : List UInt8}
    (h : (escapeOf c).getD [c] ++ x = (escapeOf d).getD [d] ++ y) : c = d := by
  cases hc : escapeOf c with
  | none =>
      cases hd : escapeOf d with
      | none =>
          rw [hc, hd] at h
          exact (List.cons.inj h).1
      | some b =>
          obtain ⟨rest, rfl⟩ := head_isEscape (isEscape_escapeOf hd)
          rw [hc, hd] at h
          exact absurd (List.cons.inj h).1 (plain_of_escapeOf hc).2.1
  | some a =>
      cases hd : escapeOf d with
      | none =>
          obtain ⟨rest, rfl⟩ := head_isEscape (isEscape_escapeOf hc)
          rw [hc, hd] at h
          exact absurd (List.cons.inj h).1.symm (plain_of_escapeOf hd).2.1
      | some b =>
          rw [hc, hd] at h
          obtain ⟨rest, hb, -⟩ | ⟨rest, ha, -⟩ := List.append_eq_append_iff.mp h
          · exact eq_of_escapeOf hc hd ⟨rest, hb.symm⟩
          · exact (eq_of_escapeOf hd hc ⟨rest, ha.symm⟩).symm

theorem escaped_injective : Function.Injective escaped := by
  intro s t h
  have hcons (c : UInt8) (rest : List UInt8) :
      escaped (c :: rest) = (escapeOf c).getD [c] ++ escaped rest := rfl
  have hne (c : UInt8) (rest : List UInt8) : escaped (c :: rest) ≠ [] := by
    rw [hcons]
    cases hescape : escapeOf c with
    | none => simp
    | some text =>
        obtain ⟨more, rfl⟩ := head_isEscape (isEscape_escapeOf hescape)
        simp
  induction s generalizing t with
  | nil =>
      cases t with
      | nil => rfl
      | cons d rest => exact absurd h.symm (hne d rest)
  | cons c s ih =>
      cases t with
      | nil => exact absurd h (hne c s)
      | cons d t =>
          rw [hcons, hcons] at h
          obtain rfl := eq_of_getD_append h
          rw [ih (List.append_cancel_left h)]

namespace JsonWriter

/-- All that was written, on either side of the buffer. -/
def total (w : JsonWriter) : List UInt8 := w.chunks.flatten ++ w.buffer

/-- Between two states some lexemes were written. -/
def Emits (w w' : JsonWriter) (lexemes : List Lexeme) : Prop :=
  ∃ bytes, w'.total = w.total ++ bytes ∧ Renders bytes lexemes

variable {w w' w'' : JsonWriter} {lexemes lexemes' : List Lexeme}

theorem Emits.trans (h : Emits w w' lexemes) (h' : Emits w' w'' lexemes') :
    Emits w w'' (lexemes ++ lexemes') := by
  obtain ⟨bytes, htotal, hbytes⟩ := h
  obtain ⟨bytes', htotal', hbytes'⟩ := h'
  exact ⟨bytes ++ bytes', by rw [htotal', htotal, List.append_assoc], hbytes.append hbytes'⟩

theorem Emits.of_eq (h : w'.total = w.total) : Emits w w' [] :=
  ⟨[], by rw [h, List.append_nil], .nil⟩

@[simp] theorem total_flush (w : JsonWriter) : w.flush.total = w.total := by
  by_cases h : w.buffer = []
  · rw [flush, if_pos h]
  · rw [flush, if_neg h]
    simp [total]

theorem buffer_flush (w : JsonWriter) : w.flush.buffer = [] := by
  by_cases h : w.buffer = []
  · rw [flush, if_pos h, h]
  · rw [flush, if_neg h]

/-- Wherever the buffer is flushed, the text goes on with what is written. -/
@[simp] theorem total_write (w : JsonWriter) (s : List UInt8) :
    (w.write s).total = w.total ++ s := by
  have hflush := total_flush w
  rw [total, buffer_flush, List.append_nil] at hflush
  rw [write]
  split
  · split
    · rw [total, ← hflush]
      simp [buffer_flush]
    · rw [total, ← hflush]
  · rw [total, total, List.append_assoc]

theorem Emits.write (w : JsonWriter) (lexeme : Lexeme) : Emits w (w.write lexeme.bytes) [lexeme] :=
  ⟨lexeme.bytes, total_write w _, .single lexeme⟩

theorem Emits.flush (w : JsonWriter) : Emits w w.flush [] := .of_eq (total_flush w)

theorem total_writeSpaces (w : JsonWriter) (n : Nat) :
    (w.writeSpaces n).total = w.total ++ List.replicate n 0x20 := by
  induction n generalizing w with
  | zero => exact (List.append_nil _).symm
  | succ n ih => rw [writeSpaces, ih, total_write, List.append_assoc]; rfl

theorem renders_spaces (n : Nat) : Renders (List.replicate n 0x20) [] := by
  induction n with
  | zero => exact .nil
  | succ n ih => exact .space (by decide) ih

theorem Emits.writeIndent (w : JsonWriter) : Emits w w.writeIndent [] := by
  rw [JsonWriter.writeIndent]
  split
  · rw [Emits, total_writeSpaces, total_write, List.append_assoc]
    exact ⟨_, rfl, .space (by decide) (renders_spaces _)⟩
  · exact .of_eq rfl

/-- The comma in front of a value or a key. -/
theorem Emits.comma (w : JsonWriter) :
    Emits w (if w.first then w else w.write [0x2c]) (Tree.comma w.first) := by
  cases w.first with
  | true => exact .of_eq rfl
  | false => exact .write w .comma

theorem Emits.beforeValue (w : JsonWriter) : Emits w w.beforeValue (Tree.comma w.first) := by
  have hcomma := Emits.comma w
  have hindent (w : JsonWriter) (c : Prop) [Decidable c] :
      Emits w (if c then w.writeIndent else w) [] := by
    split
    · exact .writeIndent w
    · exact .of_eq rfl
  exact List.append_nil (Tree.comma w.first) ▸ hcomma.trans (hindent _ _)

theorem write_afterKey (w : JsonWriter) (s : List UInt8) : (w.write s).afterKey = w.afterKey := by
  have hflush : w.flush.afterKey = w.afterKey := by
    rw [flush]
    split <;> rfl
  rw [JsonWriter.write]
  split
  · split
    · exact hflush
    · exact hflush
  · rfl

theorem flush_first (w : JsonWriter) : w.flush.first = w.first := by
  rw [flush]
  split <;> rfl

theorem total_writeEscaped (w : JsonWriter) (s : List UInt8) :
    (w.writeEscaped s).total = w.total ++ escaped s := by
  have hfoldl (chunks : List (List UInt8)) (w : JsonWriter) :
      (chunks.foldl JsonWriter.write w).total = w.total ++ chunks.flatten := by
    induction chunks generalizing w with
    | nil => exact (List.append_nil _).symm
    | cons chunk chunks ih =>
        rw [List.foldl_cons, ih, total_write, List.append_assoc, List.flatten_cons]
  rw [writeEscaped, hfoldl, flatten_writeEscapedJson]

/-- An integer fits into the local buffer. -/
theorem length_integral (n : Integral) : (Chars.toChars n.value).length ≤ 24 := by
  have hlower := n.lower
  have hupper := n.upper
  have habs : n.value.natAbs < 10 ^ 20 := by
    simp only [IntType.min, IntType.max, IntType.int64, IntType.uint64] at hlower hupper
    norm_num at hlower hupper
    omega
  have hlength := Chars.length_toChars (by decide : 0 < 20) habs
  omega

theorem Emits.writeScalar (w : JsonWriter) (value : Scalar) :
    Emits w (w.writeScalar value) [value.lexeme] := by
  cases value with
  | null => exact .write w .null
  | boolean value =>
      cases value with
      | true => exact .write w (.bool true)
      | false => exact .write w (.bool false)
  | integer n =>
      rw [JsonWriter.writeScalar]
      exact if_pos (length_integral n) ▸ .write w (.number _)
  | string s =>
      refine ⟨_, ?_, .single _⟩
      rw [JsonWriter.writeScalar, total_write, total_writeEscaped, total_write]
      simp [Scalar.lexeme, Lexeme.bytes, quote]

theorem Emits.writeValue (w : JsonWriter) (value : Scalar) :
    Emits w (w.writeValue value) (Tree.comma w.first ++ [value.lexeme]) :=
  (Emits.beforeValue w).trans (.writeScalar _ value)

theorem Emits.startContainer (w : JsonWriter) {bracket : UInt8} (lexeme : Lexeme)
    (h : lexeme.bytes = [bracket]) :
    Emits w (w.startContainer bracket) (Tree.comma w.first ++ [lexeme]) := by
  have hbracket := Emits.write w.beforeValue lexeme
  rw [h] at hbracket
  exact (Emits.beforeValue w).trans hbracket

theorem Emits.endContainer (w : JsonWriter) {bracket : UInt8} (lexeme : Lexeme)
    (h : lexeme.bytes = [bracket]) : Emits w (w.endContainer bracket) [lexeme] := by
  have hclose (w : JsonWriter) : Emits w (w.write [bracket]).flush [lexeme] := by
    have hbracket := Emits.write w lexeme
    rw [h] at hbracket
    exact hbracket.trans (.flush _)
  have hindent : Emits w
      (if w.pretty then { w with indentLevel := w.indentLevel - 1 : JsonWriter }.writeIndent else w)
      [] := by
    split
    · exact (Emits.of_eq rfl : Emits w { w with indentLevel := w.indentLevel - 1 } []).trans
        (.writeIndent _)
    · exact .of_eq rfl
  exact hindent.trans (hclose _)

/-- The assertion of `appendKey` holds. -/
theorem appendKey_some {w : JsonWriter} (key : Key) (h : w.afterKey = false) :
    ∃ w', w.appendKey key.bytes = some w' ∧
      Emits w w' (Tree.comma w.first ++ [.string key.bytes, .colon]) ∧ w'.first = true := by
  have hindent (w : JsonWriter) : Emits w (if w.pretty then w.writeIndent else w) [] := by
    split
    · exact .writeIndent w
    · exact .of_eq rfl
  have hkey (w : JsonWriter) : Emits w (((w.write [0x22]).write key.bytes).write [0x22, 0x3a])
      [.string key.bytes, .colon] := by
    refine ⟨_, ?_, (Renders.single (.string key.bytes)).append (.single .colon)⟩
    simp [Lexeme.bytes, quote]
  have hspace (w : JsonWriter) : Emits w (if w.pretty then w.write [0x20] else w) [] := by
    split
    · exact ⟨[0x20], total_write w _, .space (by decide) .nil⟩
    · exact .of_eq rfl
  have hemits := (((Emits.comma w).trans (hindent _)).trans (hkey _)).trans (hspace _)
  rw [List.append_nil, List.append_nil] at hemits
  exact ⟨_, if_neg (by simp [h]), hemits, rfl⟩

theorem run_append (w : JsonWriter) (calls calls' : List Call) :
    w.run (calls ++ calls') = (w.run calls).bind fun w => w.run calls' := List.foldlM_append ..

theorem run_cons (w : JsonWriter) (c : Call) (calls : List Call) :
    w.run (c :: calls) = (w.call c).bind fun w => w.run calls := List.foldlM_cons ..

end JsonWriter

namespace Tree

/-- What is written behind something else is written behind a comma. -/
theorem derives {n : Nonterminal} (t : Tree n) :
    (n ≠ .value ∧ t.lexemes true = [] ∧ t.lexemes false = []) ∨
      (Derives n (t.lexemes true) ∧ t.lexemes false = .comma :: t.lexemes true) := by
  induction t with
  | scalar value =>
      refine .inr ⟨?_, rfl⟩
      cases value with
      | null => exact .null
      | boolean value => exact .bool value
      | integer n => exact .number (Chars.numberText_toChars n.value)
      | string s => exact .string (stringContent_escaped s)
  | object members ih =>
      refine .inr ⟨?_, rfl⟩
      obtain ⟨-, hempty, -⟩ | ⟨hmembers, -⟩ := ih
      · rw [lexemes, hempty]
        exact .emptyObject
      · exact .object hmembers
  | array elements ih =>
      refine .inr ⟨?_, rfl⟩
      obtain ⟨-, hempty, -⟩ | ⟨helements, -⟩ := ih
      · rw [lexemes, hempty]
        exact .emptyArray
      · exact .array helements
  | noMembers => exact .inl ⟨nofun, rfl, rfl⟩
  | member key value rest ihv ihr =>
      refine .inr ⟨?_, rfl⟩
      obtain ⟨hne, -⟩ | ⟨hvalue, -⟩ := ihv
      · exact absurd rfl hne
      · have hkey := stringContent_key key
        rw [lexemes]
        obtain ⟨-, -, hempty⟩ | ⟨hrest, hcomma⟩ := ihr
        · rw [hempty, List.append_nil]
          exact .member hkey hvalue
        · rw [hcomma]
          exact .members hkey hvalue hrest
  | noElements => exact .inl ⟨nofun, rfl, rfl⟩
  | element value rest ihv ihr =>
      obtain ⟨hne, -⟩ | ⟨hvalue, hfirst⟩ := ihv
      · exact absurd rfl hne
      · refine .inr ⟨?_, by rw [lexemes, lexemes, hfirst]; rfl⟩
        rw [lexemes]
        obtain ⟨-, -, hempty⟩ | ⟨hrest, hcomma⟩ := ihr
        · rw [hempty, List.append_nil]
          exact .element hvalue
        · rw [hcomma]
          exact .elements hvalue hrest

theorem lexemes_value (t : Tree .value) (first : Bool) :
    t.lexemes first = comma first ++ t.lexemes true := by
  obtain ⟨hne, -⟩ | ⟨-, hfirst⟩ := t.derives
  · exact absurd rfl hne
  · cases first with
    | true => rfl
    | false => exact hfirst

/-- No tree begins with a colon. -/
theorem isColon_lexemes {n : Nonterminal} (t : Tree n) (first : Bool) {tail : List Lexeme}
    (htail : JsonReader.isColon tail = false) :
    JsonReader.isColon (t.lexemes first ++ tail) = false := by
  induction t generalizing first tail with
  | scalar value => cases first <;> cases value <;> rfl
  | object | array | member => cases first <;> rfl
  | noMembers | noElements => exact htail
  | element value rest ihv ihr =>
      rw [lexemes, List.append_assoc]
      exact ihv first (ihr false htail)

theorem tokens_comma (first : Bool) (rest : List Lexeme) :
    JsonReader.tokens (comma first ++ rest) = JsonReader.tokens rest := by
  cases first <;> rfl

theorem tokens_scalar (value : Scalar) {tail : List Lexeme}
    (htail : JsonReader.isColon tail = false) :
    JsonReader.tokens (value.lexeme :: tail) = value.token :: JsonReader.tokens tail := by
  cases value with
  | boolean value => cases value <;> rfl
  | string s => simp [Scalar.lexeme, Scalar.token, JsonReader.tokens, Lexeme.isSeparator, htail,
      JsonReader.tokenOf, JsonReader.valueOf]
  | _ => rfl

/-- The reader's tokens of the lexemes are the tokens of the tree. -/
theorem tokens_lexemes {n : Nonterminal} (t : Tree n) (first : Bool) {tail : List Lexeme}
    (htail : JsonReader.isColon tail = false) :
    JsonReader.tokens (t.lexemes first ++ tail) = t.tokens ++ JsonReader.tokens tail := by
  induction t generalizing first tail with
  | scalar value =>
      rw [lexemes, List.append_assoc, tokens_comma]
      exact tokens_scalar value htail
  | object members ih =>
      have hmembers := ih true (show JsonReader.isColon (.closeObject :: tail) = false from rfl)
      rw [lexemes, List.append_assoc, tokens_comma, tokens]
      simp only [List.cons_append, List.append_assoc, List.nil_append]
      exact congrArg (List.cons _) hmembers
  | array elements ih =>
      have helements := ih true (show JsonReader.isColon (.closeArray :: tail) = false from rfl)
      rw [lexemes, List.append_assoc, tokens_comma, tokens]
      simp only [List.cons_append, List.append_assoc, List.nil_append]
      exact congrArg (List.cons _) helements
  | noMembers => rfl
  | member key value rest ihv ihr =>
      have hvalue := ihv true (rest.isColon_lexemes false htail)
      rw [ihr false htail] at hvalue
      rw [lexemes, List.append_assoc, tokens_comma, tokens]
      simp only [List.cons_append, List.append_assoc]
      exact congrArg (List.cons _) hvalue
  | noElements => rfl
  | element value rest ihv ihr =>
      rw [lexemes, List.append_assoc, ihv first (rest.isColon_lexemes false htail),
        ihr false htail, tokens, List.append_assoc]

end Tree

open JsonWriter in
/-- By induction on the script: the calls write the lexemes of the tree. -/
theorem Script.run {n : Nonterminal} {t : Tree n} {calls : List Call} (h : Script t calls)
    (w : JsonWriter) (hkey : n ≠ .value → w.afterKey = false) :
    ∃ w', w.run calls = some w' ∧ Emits w w' (t.lexemes w.first) ∧ w'.afterKey = false ∧
      (n = .value → w'.first = false) := by
  induction h generalizing w with
  | scalar value =>
      exact ⟨w.writeValue value, rfl, .writeValue w value, rfl, fun _ => rfl⟩
  | object _ ih =>
      obtain ⟨w', hrun, hemits, -, -⟩ := ih w.startObject fun _ => write_afterKey _ _
      have hall := ((Emits.startContainer w .openObject rfl).trans hemits).trans
        (.endContainer w' .closeObject rfl)
      rw [List.append_assoc, List.append_assoc] at hall
      refine ⟨w'.endObject, ?_, hall, rfl, fun _ => rfl⟩
      rw [run_cons, JsonWriter.call, Option.bind_some, run_append, hrun]
      rfl
  | array _ ih =>
      obtain ⟨w', hrun, hemits, -, -⟩ := ih w.startArray fun _ => write_afterKey _ _
      have hall := ((Emits.startContainer w .openArray rfl).trans hemits).trans
        (.endContainer w' .closeArray rfl)
      rw [List.append_assoc, List.append_assoc] at hall
      refine ⟨w'.endArray, ?_, hall, rfl, fun _ => rfl⟩
      rw [run_cons, JsonWriter.call, Option.bind_some, run_append, hrun]
      rfl
  | @nested value _ _ ih =>
      obtain ⟨w', hrun, hemits, -, -⟩ := ih w.enterValue (absurd rfl)
      have henter : Emits w w.enterValue (Tree.comma w.first) :=
        List.append_nil (Tree.comma w.first) ▸ (Emits.beforeValue w).trans (.of_eq (total_flush _))
      have hfirst : w.enterValue.first = true := flush_first _
      rw [hfirst] at hemits
      refine ⟨w'.afterValue, ?_, ?_, rfl, fun _ => rfl⟩
      · rw [run_cons, JsonWriter.call, Option.bind_some, run_append, hrun]
        rfl
      · rw [value.lexemes_value]
        exact henter.trans hemits
  | noMembers => exact ⟨w, rfl, .of_eq rfl, hkey nofun, nofun⟩
  | field key value _ ih =>
      obtain ⟨w', hsome, hemits, -⟩ := appendKey_some key (hkey nofun)
      obtain ⟨w'', hrun, hrest, hafter, -⟩ := ih (w'.writeScalar value).afterValue fun _ => rfl
      have hall := (hemits.trans (.writeScalar w' value)).trans hrest
      rw [List.append_assoc, List.append_assoc] at hall
      refine ⟨w'', ?_, hall, hafter, nofun⟩
      rw [run_cons, JsonWriter.call, JsonWriter.writeField, hsome]
      exact hrun
  | fieldVariant key value _ ih =>
      obtain ⟨w', hsome, hemits, hfirst⟩ := appendKey_some key (hkey nofun)
      obtain ⟨w'', hrun, hrest, hafter, -⟩ := ih (w'.writeValue value).afterValue fun _ => rfl
      have hvalue := Emits.writeValue w' value
      rw [hfirst] at hvalue
      have hall := (hemits.trans hvalue).trans hrest
      rw [List.append_assoc, List.append_assoc] at hall
      refine ⟨w'', ?_, hall, hafter, nofun⟩
      rw [run_cons, JsonWriter.call, JsonWriter.writeFieldVariant, hsome]
      exact hrun
  | fieldNested key _ _ ihv ihr =>
      obtain ⟨w', hsome, hemits, -⟩ := appendKey_some key (hkey nofun)
      obtain ⟨v, hrun, hvalue, -, -⟩ :=
        ihv { w' with first := true : JsonWriter }.flush (absurd rfl)
      obtain ⟨w'', hrun', hrest, hafter, -⟩ := ihr v.afterValue fun _ => rfl
      have henter : Emits w' { w' with first := true : JsonWriter }.flush [] :=
        .of_eq (total_flush _)
      have hfirst' : { w' with first := true : JsonWriter }.flush.first = true := flush_first _
      rw [hfirst'] at hvalue
      have hall := (hemits.trans (henter.trans hvalue)).trans hrest
      rw [List.append_assoc, List.append_assoc] at hall
      refine ⟨w'', ?_, hall, hafter, nofun⟩
      rw [run_cons, JsonWriter.call, JsonWriter.enterField, hsome, Option.map_some,
        Option.bind_some, run_append, hrun]
      exact hrun'
  | member key _ _ ihv ihr =>
      obtain ⟨w', hsome, hemits, hfirst⟩ := appendKey_some key (hkey nofun)
      obtain ⟨v, hrun, hvalue, hafter, hcomma⟩ := ihv w' (absurd rfl)
      obtain ⟨w'', hrun', hrest, hafter', -⟩ := ihr v fun _ => hafter
      rw [hfirst] at hvalue
      rw [hcomma rfl] at hrest
      have hall := (hemits.trans hvalue).trans hrest
      rw [List.append_assoc, List.append_assoc] at hall
      refine ⟨w'', ?_, hall, hafter', nofun⟩
      rw [run_cons, JsonWriter.call, hsome, Option.bind_some, run_append, hrun]
      exact hrun'
  | noElements => exact ⟨w, rfl, .of_eq rfl, hkey nofun, nofun⟩
  | element _ _ ihv ihr =>
      obtain ⟨v, hrun, hvalue, hafter, hcomma⟩ := ihv w (absurd rfl)
      obtain ⟨w'', hrun', hrest, hafter', -⟩ := ihr v fun _ => hafter
      rw [hcomma rfl] at hrest
      refine ⟨w'', ?_, hvalue.trans hrest, hafter', nofun⟩
      rw [run_append, hrun]
      exact hrun'

open JsonWriter in
theorem Script.exists_text {t : Tree .value} {calls : List Call} (h : Script t calls)
    (pretty : Bool) :
    ∃ w items trailing, JsonWriter.run { pretty } calls = some w ∧
      Derives .value (items.map Spaced.lexeme) ∧ Spacing items trailing ∧
      w.close.flatten = text items trailing ∧
      JsonReader.tokens (items.map Spaced.lexeme) = t.tokens := by
  obtain ⟨w, hrun, ⟨bytes, htotal, hbytes⟩, -, -⟩ := h.run { pretty } (absurd rfl)
  obtain ⟨items, trailing, hspacing, hlexemes, rfl⟩ := hbytes.exists_text
  refine ⟨w, items, trailing, hrun, ?_, hspacing, ?_, ?_⟩
  · obtain ⟨hne, -⟩ | ⟨hderives, -⟩ := t.derives
    · exact absurd rfl hne
    · exact hlexemes ▸ hderives
  · have hflush := total_flush w
    rw [total, buffer_flush, List.append_nil] at hflush
    exact hflush.trans htotal
  · have htokens := t.tokens_lexemes true (show JsonReader.isColon [] = false from rfl)
    rw [List.append_nil] at htokens
    rw [hlexemes]
    exact htokens.trans (List.append_nil _)

open JsonWriter in
/-- A tree is written, by any calls for it and in either mode, without a failing assertion; the
reader gets its tokens back, and different strings have different escaped forms. -/
theorem Script.batch_close {t : Tree .value} {calls : List Call} (h : Script t calls)
    (pretty : Bool) :
    (∃ w, JsonWriter.run { pretty } calls = some w ∧
      JsonReader.batch w.close.flatten = t.tokens ++ [(.end, [])]) ∧
    ∀ s s' : List UInt8, escaped s = escaped s' → s = s' := by
  obtain ⟨w, items, trailing, hrun, hderives, hspacing, htext, htokens⟩ := h.exists_text pretty
  refine ⟨⟨w, hrun, ?_⟩, fun s s' heq => escaped_injective heq⟩
  rw [htext, JsonReader.batch_text hderives.linear hspacing, htokens]

open JsonWriter in
/-- An object with nested containers, by all of the ways to write a member. -/
theorem batch_close_nested :
    (∃ w, JsonWriter.run { pretty := true } [.startObject, .appendKey [0x61],
        .writeValue (.string [0x22]), .writeField [0x62] (.boolean true), .enterField [0x63],
        .startArray, .writeValue .null, .startArray, .writeValue (.boolean false), .endArray,
        .enterValue, .startObject, .endObject, .leave, .endArray, .leave,
        .writeFieldVariant [0x64] (.string [0x64, 0x0a]), .endObject] = some w ∧
      JsonReader.batch w.close.flatten =
        [(.objectStart, []), (.key, [0x61]), (.string, [0x5c, 0x22]), (.key, [0x62]),
          (.boolean, [0x74, 0x72, 0x75, 0x65]), (.key, [0x63]), (.arrayStart, []),
          (.null, [0x6e, 0x75, 0x6c, 0x6c]), (.arrayStart, []),
          (.boolean, [0x66, 0x61, 0x6c, 0x73, 0x65]), (.arrayEnd, []), (.objectStart, []),
          (.objectEnd, []), (.arrayEnd, []), (.key, [0x64]), (.string, [0x64, 0x5c, 0x6e]),
          (.objectEnd, []), (.end, [])]) ∧
    ∀ s s' : List UInt8, escaped s = escaped s' → s = s' := by
  have hscript : Script
      (.object (.member ⟨[0x61], by decide⟩ (.scalar (.string [0x22]))
        (.member ⟨[0x62], by decide⟩ (.scalar (.boolean true))
        (.member ⟨[0x63], by decide⟩ (.array (.element (.scalar .null)
          (.element (.array (.element (.scalar (.boolean false)) .noElements))
          (.element (.object .noMembers) .noElements))))
        (.member ⟨[0x64], by decide⟩ (.scalar (.string [0x64, 0x0a])) .noMembers)))))
      [.startObject, .appendKey [0x61],
        .writeValue (.string [0x22]), .writeField [0x62] (.boolean true), .enterField [0x63],
        .startArray, .writeValue .null, .startArray, .writeValue (.boolean false), .endArray,
        .enterValue, .startObject, .endObject, .leave, .endArray, .leave,
        .writeFieldVariant [0x64] (.string [0x64, 0x0a]), .endObject] :=
    .object <| .member _ (.scalar _) <| .field _ _ <|
      .fieldNested _ (.array <| .element (.scalar _) <|
        .element (.array <| .element (.scalar _) .noElements) <|
        .element (.nested (.object .noMembers)) .noElements) <|
      .fieldVariant _ _ .noMembers
  exact hscript.batch_close true

end Ebus
