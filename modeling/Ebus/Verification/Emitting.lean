import Ebus.Models.DataJson
import Ebus.Verification.Accepting
import Ebus.Verification.Writing

/-!
# The JSON of a decoded value

The visitor of `decodeToJson` writes the value past the flags of the writer, which stay as
`appendKey` left them: the next key fails its assertion, and without assertions it comes without a
comma. `validate` then finds a quote where a comma or an end has to be.
-/

namespace Ebus

open Json
open Chars (ofString)

namespace JsonReader

/-- The lexemes that are values by themselves. -/
structure IsScalar (l : Lexeme) : Prop where
  wellFormed : l.WellFormed
  starts : Document.Starts l
  notOpen : l ≠ .openObject ∧ l ≠ .openArray

namespace IsScalar

theorem null : IsScalar .null := ⟨trivial, ⟨rfl, by simp, by simp⟩, by simp⟩

theorem number {text : List UInt8} (h : NumberText text) : IsScalar (.number text) :=
  ⟨h, ⟨rfl, by simp, by simp⟩, by simp⟩

theorem string {content : List UInt8} (h : StringContent content) : IsScalar (.string content) :=
  ⟨h, ⟨rfl, by simp, by simp⟩, by simp⟩

theorem accepts {l : Lexeme} {stack tail : List UInt8} (h : IsScalar l)
    (hstop : ∀ char ∈ tail.head?, validNumberChar char = false) :
    JsonReader.accepts .value stack (l.bytes ++ tail) = JsonReader.accepts .commaOrEnd stack tail :=
  accepts_scalar (Readable.of_wellFormed h.wellFormed).valid h.starts h.notOpen hstop

end IsScalar

section Members
variable {stack bytes tail key : List UInt8} {l : Lexeme}

theorem accepts_renders_key (h : Renders bytes [.string key, .colon]) (hkey : Paired key) :
    accepts .keyOrEnd stack (bytes ++ tail) = accepts .value stack tail := by
  obtain ⟨spaces, rest, hspaces, rfl, hrest⟩ := h.exists_cons
  obtain ⟨spaces', rest', hspaces', rfl, hrest'⟩ := hrest.exists_cons
  simp only [Lexeme.bytes, List.append_assoc, List.cons_append, List.nil_append]
  rw [accepts_spaces _ _ hspaces, accepts_key hkey, accepts_spaces _ _ hspaces', accepts_colon,
    accepts_spaces _ _ hrest'.spaces]

theorem accepts_renders_scalar (h : Renders bytes [l]) (hl : IsScalar l)
    (hstop : ∀ char ∈ tail.head?, validNumberChar char = false) :
    accepts .value stack (bytes ++ tail) = accepts .commaOrEnd stack tail := by
  obtain ⟨spaces, rest, hspaces, rfl, hrest⟩ := h.exists_cons
  have hstop' : ∀ char ∈ (rest ++ tail).head?, validNumberChar char = false := by
    cases rest with
    | nil => exact hstop
    | cons c rest =>
        rintro char ⟨⟩
        exact stops_validNumberChar c (.inl (hrest.spaces c List.mem_cons_self))
  rw [List.append_assoc, List.append_assoc, accepts_spaces _ _ hspaces, hl.accepts hstop',
    accepts_spaces _ _ hrest.spaces]

theorem accepts_renders_comma (h : Renders bytes [.comma, .string key, .colon])
    (hkey : Paired key) :
    accepts .commaOrEnd (0x7b :: stack) (bytes ++ tail) = accepts .value (0x7b :: stack) tail := by
  obtain ⟨spaces, rest, hspaces, rfl, hrest⟩ := h.exists_cons
  obtain ⟨spaces', rest', hspaces', rfl, -⟩ := id hrest.exists_cons
  have hskip : skipWs ((spaces' ++ ((Lexeme.string key).bytes ++ rest')) ++ tail) =
      quote :: (key ++ (quote :: (rest' ++ tail))) := by
    simp only [Lexeme.bytes, List.append_assoc, List.cons_append, List.nil_append]
    rw [skipWs_append hspaces', skipWs_cons (by decide)]
  rw [List.append_assoc, List.append_assoc, accepts_spaces _ _ hspaces, Lexeme.bytes,
    List.singleton_append, accepts_comma hskip (by decide), List.head?_cons, if_pos rfl,
    accepts_renders_key hrest hkey]

theorem stops_renders {lexemes : List Lexeme} {c : UInt8} {more : List UInt8}
    (h : Renders bytes (l :: lexemes)) (hl : l.bytes = c :: more)
    (hc : validNumberChar c = false) :
    ∀ char ∈ (bytes ++ tail).head?, validNumberChar char = false := by
  obtain ⟨spaces, rest, hspaces, rfl, -⟩ := h.exists_cons
  cases spaces with
  | nil =>
      rw [hl]
      rintro char ⟨⟩
      exact hc
  | cons d spaces =>
      rintro char ⟨⟩
      exact stops_validNumberChar d (.inl (hspaces d List.mem_cons_self))

/-- The first member of an object. -/
theorem accepts_first (h : Renders bytes ([.string key, .colon] ++ [l])) (hkey : Paired key)
    (hl : IsScalar l) (hstop : ∀ char ∈ tail.head?, validNumberChar char = false) :
    accepts .keyOrEnd stack (bytes ++ tail) = accepts .commaOrEnd stack tail := by
  obtain ⟨front, back, rfl, hfront, hback⟩ := h.exists_append
  rw [List.append_assoc, accepts_renders_key hfront hkey,
    accepts_renders_scalar hback hl hstop]

/-- A member behind another one. -/
theorem accepts_member (h : Renders bytes ([.comma, .string key, .colon] ++ [l]))
    (hkey : Paired key) (hl : IsScalar l)
    (hstop : ∀ char ∈ tail.head?, validNumberChar char = false) :
    accepts .commaOrEnd (0x7b :: stack) (bytes ++ tail) =
      accepts .commaOrEnd (0x7b :: stack) tail := by
  obtain ⟨front, back, rfl, hfront, hback⟩ := h.exists_append
  rw [List.append_assoc, accepts_renders_comma hfront hkey,
    accepts_renders_scalar hback hl hstop]

/-- A key without a comma in front of it. -/
theorem not_accepts_key {lexemes : List Lexeme} (h : Renders bytes (.string key :: lexemes)) :
    accepts .commaOrEnd stack (bytes ++ tail) = false := by
  obtain ⟨spaces, rest, hspaces, rfl, -⟩ := h.exists_cons
  rw [List.append_assoc, List.append_assoc, accepts_spaces _ _ hspaces]
  exact accepts_cons (skipWs_cons (by decide) _)

end Members

/-- What the visitor writes: a scalar, or an infinite number. -/
def ValueText (text : List UInt8) : Prop :=
  (∃ l, IsScalar l ∧ text = l.bytes) ∨ text = ofString "inf" ∨ text = ofString "-inf"

/-- Behind the text of a value the automaton expects a comma or an end, if it goes on at all. -/
theorem accepts_valueText {text stack tail : List UInt8} (h : ValueText text)
    (hstop : ∀ char ∈ tail.head?, validNumberChar char = false)
    (htail : accepts .commaOrEnd stack tail = false) :
    accepts .value stack (text ++ tail) = false := by
  obtain ⟨l, hl, rfl⟩ | rfl | rfl := h
  · rw [hl.accepts hstop, htail]
  · exact accepts_cons (skipWs_cons (by decide) _)
  · have hnumber : accepts .value stack (0x2d :: ([] ++ (ofString "inf" ++ tail))) =
        accepts .commaOrEnd stack (ofString "inf" ++ tail) := by
      refine accepts_number (.inr rfl) (by simp) ?_
      rintro char ⟨⟩
      decide
    exact hnumber.trans (accepts_cons (skipWs_cons (by decide) _))

theorem valueText_formatFloat {finite : Float32 → Nat → List UInt8}
    (hfinite : ∀ value precision, value.isNaN = false → value.isInf = false →
      NumberText (finite value precision)) (value : Float32) (precision : Nat) :
    ValueText (formatFloat finite value precision) := by
  rw [formatFloat]
  split
  · exact .inl ⟨_, .null, rfl⟩
  · rename_i hnan
    split
    · split
      · exact .inr (.inr rfl)
      · exact .inr (.inl rfl)
    · rename_i hinf
      exact .inl ⟨_, .number (hfinite value precision (by simpa using hnan) (by simpa using hinf)),
        rfl⟩

end JsonReader

namespace JsonWriter

open JsonReader (ValueText valueText_formatFloat)

/-- Some text was written, and the flags are as they were. -/
structure Writes (w w' : JsonWriter) (text : List UInt8) : Prop where
  total : w'.total = w.total ++ text
  first : w'.first = w.first
  afterKey : w'.afterKey = w.afterKey

namespace Writes

variable {w w' w'' : JsonWriter} {text text' : List UInt8}

theorem trans (h : Writes w w' text) (h' : Writes w' w'' text') : Writes w w'' (text ++ text') :=
  ⟨by rw [h'.total, h.total, List.append_assoc], h'.first.trans h.first,
    h'.afterKey.trans h.afterKey⟩

theorem write (w : JsonWriter) (s : List UInt8) : Writes w (w.write s) s := by
  refine ⟨total_write w s, ?_, write_afterKey w s⟩
  rw [JsonWriter.write]
  split
  · split
    · exact flush_first w
    · exact flush_first w
  · rfl

theorem writeEscaped (w : JsonWriter) (s : List UInt8) :
    Writes w (w.writeEscaped s) (escaped s) := by
  have hfoldl (chunks : List (List UInt8)) (w : JsonWriter) :
      Writes w (chunks.foldl JsonWriter.write w) chunks.flatten := by
    induction chunks generalizing w with
    | nil => exact ⟨(List.append_nil _).symm, rfl, rfl⟩
    | cons chunk chunks ih => exact (write w chunk).trans (ih _)
  rw [← flatten_writeEscapedJson]
  exact hfoldl _ w

theorem appendInt (w : JsonWriter) (val : Int) : ∃ text, ValueText text ∧
    Writes w (w.appendInt val) text := by
  rw [JsonWriter.appendInt]
  split
  · exact ⟨_, .inl ⟨_, .number (Chars.numberText_toChars val), rfl⟩, write w _⟩
  · exact ⟨_, .inl ⟨_, .null, rfl⟩, write w _⟩

/-- By cases on the alternative of the variant. -/
theorem visitValue {finite : Float32 → Nat → List UInt8}
    (hfinite : ∀ value precision, value.isNaN = false → value.isInf = false →
      NumberText (finite value precision)) (w : JsonWriter) (value : DataValue) :
    ∃ text, ValueText text ∧ Writes w (w.visitValue finite value) text := by
  cases value with
  | null => exact ⟨_, .inl ⟨_, .null, rfl⟩, write w _⟩
  | string s =>
      refine ⟨_, .inl ⟨_, .string (stringContent_escaped s), rfl⟩, ?_⟩
      exact ((write w [0x22]).trans (writeEscaped _ s)).trans (write _ [0x22])
  | int64 val => exact ⟨_, valueText_formatFloat hfinite _ _, write w _⟩
  | float val => exact ⟨_, valueText_formatFloat hfinite _ _, write w _⟩
  | _ => exact appendInt w _

theorem visitDecoded {finite : Float32 → Nat → List UInt8}
    (hfinite : ∀ value precision, value.isNaN = false → value.isInf = false →
      NumberText (finite value precision)) (w : JsonWriter) (decoded : Option DataValue) :
    ∃ text, ValueText text ∧ Writes w
      (match decoded with
        | some decoded => w.visitValue finite decoded
        | none => w.write Lexeme.nullText) text := by
  cases decoded with
  | some value => exact visitValue hfinite w value
  | none => exact ⟨_, .inl ⟨_, .null, rfl⟩, write w _⟩

end Writes

section Fields
variable {w : JsonWriter} {assertions : Bool}

theorem Emits.ready (w : JsonWriter) (assertions : Bool) : Emits w (w.ready assertions) [] := by
  cases assertions <;> exact .of_eq rfl

theorem ready_first (w : JsonWriter) (assertions : Bool) :
    (w.ready assertions).first = w.first := by
  cases assertions <;> rfl

theorem ready_afterKey (h : assertions = true → w.afterKey = false) :
    (w.ready assertions).afterKey = false := by
  cases assertions with
  | false => rfl
  | true => exact h rfl

/-- A key whose assertion holds. -/
theorem exists_appendKey (assertions : Bool) (key : Key)
    (h : assertions = true → w.afterKey = false) :
    ∃ w', (w.ready assertions).appendKey key.bytes = some w' ∧
      Emits w w' (Tree.comma w.first ++ [.string key.bytes, .colon]) ∧ w'.first = true ∧
      w'.afterKey = true := by
  obtain ⟨w', hsome, hemits, hfirst⟩ := appendKey_some key (ready_afterKey h)
  rw [ready_first] at hemits
  refine ⟨w', hsome, (Emits.ready w assertions).trans hemits, hfirst, ?_⟩
  rw [JsonWriter.appendKey, if_neg (by simp [ready_afterKey h])] at hsome
  rw [← Option.some.inj hsome]

theorem exists_writeField (assertions : Bool) (key : Key) (value : Scalar)
    (h : w.afterKey = false) :
    ∃ w', (w.ready assertions).writeField key.bytes value = some w' ∧
      Emits w w' ((Tree.comma w.first ++ [.string key.bytes, .colon]) ++ [value.lexeme]) ∧
      w'.first = false ∧ w'.afterKey = false := by
  obtain ⟨w', hsome, hemits, -⟩ := exists_appendKey assertions key fun _ => h
  refine ⟨(w'.writeScalar value).afterValue, ?_, hemits.trans (.writeScalar w' value), rfl, rfl⟩
  rw [JsonWriter.writeField, hsome]
  rfl

/-- The digits of the bytes. -/
def hexText (data : List UInt8) : List UInt8 :=
  data.flatMap fun b : UInt8 => [hex (b >>> 4), hex (b &&& 0x0f)]

theorem total_appendHexLoop (w : JsonWriter) (buf data : List UInt8) :
    (w.appendHexLoop buf data).total = w.total ++ (buf ++ hexText data) := by
  induction data generalizing w buf with
  | nil =>
      rw [appendHexLoop]
      split
      · rename_i hbuf
        simp [hbuf, hexText]
      · simp [hexText]
  | cons b data ih =>
      have hcons : hexText (b :: data) = [hex (b >>> 4), hex (b &&& 0x0f)] ++ hexText data := rfl
      rw [appendHexLoop]
      split
      · rw [ih, total_write, hcons, List.nil_append, List.append_assoc, List.append_assoc]
      · rw [ih, hcons, List.append_assoc]

theorem plain_hex (digit : UInt8) (h : digit < 16) :
    hex digit ≠ quote ∧ hex digit ≠ backslash ∧ ¬ hex digit < 0x20 := by
  have hall : ∀ n : Fin 16, hex (UInt8.ofNat n) ≠ quote ∧ hex (UInt8.ofNat n) ≠ backslash ∧
      ¬ hex (UInt8.ofNat n) < 0x20 := by decide
  simpa using hall ⟨digit.toNat, UInt8.lt_iff_toNat_lt.mp h⟩

theorem stringContent_hexText (data : List UInt8) : StringContent (hexText data) := by
  induction data with
  | nil => exact .nil
  | cons b data ih =>
      have hhigh : b >>> 4 < 16 := by
        rw [UInt8.lt_iff_toNat_lt, UInt8.toNat_shiftRight]
        have hlt := b.toNat_lt
        simp only [UInt8.reduceToNat, Nat.reduceMod, Nat.shiftRight_eq_div_pow]
        omega
      have hlow : b &&& 0x0f < 16 := by
        rw [UInt8.lt_iff_toNat_lt, UInt8.toNat_and]
        exact Nat.lt_succ_of_le Nat.and_le_right
      obtain ⟨hquote, hescape, hcontrol⟩ := plain_hex _ hhigh
      obtain ⟨hquote', hescape', hcontrol'⟩ := plain_hex _ hlow
      exact .char hquote hescape hcontrol (.char hquote' hescape' hcontrol' ih)

theorem exists_writeHexField (assertions : Bool) (key : Key) (data : List UInt8)
    (h : w.afterKey = false) :
    ∃ w', (w.ready assertions).writeHexField key.bytes data = some w' ∧
      Emits w w' ((Tree.comma w.first ++ [.string key.bytes, .colon]) ++
        [.string (hexText data)]) ∧ w'.first = false ∧ w'.afterKey = false := by
  obtain ⟨w', hsome, hemits, -⟩ := exists_appendKey assertions key fun _ => h
  refine ⟨(((w'.write [0x22]).appendHexLoop [] data).write [0x22]).afterValue, ?_,
    hemits.trans ⟨_, ?_, .single _⟩, rfl, rfl⟩
  · rw [JsonWriter.writeHexField, hsome]
    rfl
  · change (((w'.write [0x22]).appendHexLoop [] data).write [0x22]).total = _
    rw [total_write, total_appendHexLoop, total_write]
    simp [Lexeme.bytes, quote]

end Fields

end JsonWriter

theorem JsonWriter.flatten_close (w : JsonWriter) : w.close.flatten = w.total := by
  have hflush := total_flush w
  rw [total, buffer_flush, List.append_nil] at hflush
  exact hflush

open JsonReader (validate ofText forEachField accepts ValueText validNumberChar)

/-- The names of the members of an object, and the reader behind it. -/
def readKeys (json : List UInt8) : List (List UInt8) × JsonReader :=
  (ofText json).next.2.forEachField (fun key keys r => (false, keys ++ [key], r)) []

/-- A text that is valid and that the reader reads as an object with these members. -/
structure IsObject (json : List UInt8) (names : List (List UInt8)) : Prop where
  valid : validate json = true
  isStart : (ofText json).next.1 = .objectStart
  members : (readKeys json).1 = names
  ended : (readKeys json).2.next.1 = .end

def memberNames (dt : DataType) : List (List UInt8) :=
  if metaFor dt = none then [ofString "error"]
  else ["type", "name", "raw_hex", "value", "factor"].map ofString

/-- The chunks make up the object. -/
def EmitsObject (finite : Float32 → Nat → List UInt8) (assertions : Bool) (dt : DataType)
    (data : List UInt8) (pretty : Bool) : Prop :=
  ∃ chunks, decodeToJson finite assertions dt data pretty = some chunks ∧
    IsObject chunks.flatten (memberNames dt)

/-- An object that goes wrong behind its first key. -/
theorem not_validate_object {start bytes tail key : List UInt8} {lexemes : List Lexeme}
    (hstart : Renders start [.openObject]) (h : Renders bytes (.string key :: lexemes))
    (htail : accepts .keyOrEnd [0x7b] (bytes ++ tail) = false) :
    validate (start ++ (bytes ++ tail)) = false := by
  obtain ⟨spaces, rest, hspaces, rfl, hrest⟩ := hstart.exists_cons
  have hhead : (JsonReader.skipWs (bytes ++ tail)).head? ≠ some 0x7d := by
    obtain ⟨spaces', rest', hspaces', rfl, -⟩ := h.exists_cons
    rw [List.append_assoc, JsonReader.skipWs_append hspaces', Lexeme.bytes]
    simp only [List.cons_append]
    rw [JsonReader.skipWs_cons (by decide)]
    exact mt Option.some.inj (by decide)
  rw [JsonReader.validate_eq, List.append_assoc, List.append_assoc,
    JsonReader.accepts_spaces _ _ hspaces, Lexeme.bytes, List.singleton_append,
    JsonReader.accepts_openObject, JsonReader.skipWs_append hrest.spaces, if_neg hhead,
    JsonReader.accepts_spaces _ _ hrest.spaces, htail, Bool.and_false]

section Known
variable {finite : Float32 → Nat → List UInt8} {assertions : Bool} {dt : DataType} {m : Meta}
variable {data : List UInt8} {w : JsonWriter}

open JsonWriter in
/-- All calls but the last one, for a known type. The automaton has come to the value. -/
theorem exists_writeDecoded (assertions : Bool) (data : List UInt8)
    (hfinite : ∀ value precision, value.isNaN = false → value.isInf = false →
      NumberText (finite value precision)) (hm : metaFor dt = some m) (hw : w.first = true)
    (hkey : w.afterKey = false) :
    ∃ (w' : JsonWriter) (front text : List UInt8), writeDecoded finite assertions dt data w =
        (w'.ready assertions).writeFieldFloat (ofString "factor") (formatFloat finite m.factor 4) ∧
      w'.first = true ∧ w'.afterKey = true ∧ w'.total = w.total ++ (front ++ text) ∧
      ValueText text ∧
      ∀ start tail, Renders start [.openObject] → accepts .value [0x7b] tail = false →
        validate (start ++ (front ++ tail)) = false := by
  obtain ⟨w₁, hsome₁, ⟨bytes₁, htotal₁, hbytes₁⟩, hfirst₁, hkey₁⟩ :=
    exists_writeField assertions ⟨ofString "type", by decide⟩
      (.integer m.dt.integral) hkey
  obtain ⟨w₂, hsome₂, ⟨bytes₂, htotal₂, hbytes₂⟩, hfirst₂, hkey₂⟩ :=
    exists_writeField assertions ⟨ofString "name", by decide⟩
      (.string (ofString m.dt.name)) hkey₁
  obtain ⟨w₃, hsome₃, ⟨bytes₃, htotal₃, hbytes₃⟩, hfirst₃, hkey₃⟩ :=
    exists_writeHexField assertions ⟨ofString "raw_hex", by decide⟩ data hkey₂
  obtain ⟨w₄, hsome₄, ⟨bytes₄, htotal₄, hbytes₄⟩, hfirst₄, hkey₄⟩ :=
    exists_appendKey assertions ⟨ofString "value", by decide⟩ fun _ => hkey₃
  obtain ⟨text, htext, hwrites⟩ := Writes.visitDecoded hfinite w₄ (decode dt data .little)
  refine ⟨_, bytes₁ ++ (bytes₂ ++ (bytes₃ ++ bytes₄)), text, ?_, hwrites.first.trans hfirst₄,
    hwrites.afterKey.trans hkey₄, ?_, htext, fun start tail hstart htail => ?_⟩
  · rw [writeDecoded, hm]
    dsimp only
    rw [hsome₁, Option.bind_eq_bind, Option.bind_some, hsome₂, Option.bind_some, hsome₃,
      Option.bind_some, hsome₄]
    rfl
  · rw [hwrites.total, htotal₄, htotal₃, htotal₂, htotal₁]
    simp only [List.append_assoc]
  · rw [hw] at hbytes₁
    rw [hfirst₁] at hbytes₂
    rw [hfirst₂] at hbytes₃
    rw [hfirst₃] at hbytes₄
    have hpaired (key : Key) : Paired key.bytes := (stringContent_key key).paired
    have hstop {bytes tail : List UInt8} {lexemes : List Lexeme}
        (h : Renders bytes (.comma :: lexemes)) :
        ∀ char ∈ (bytes ++ tail).head?, validNumberChar char = false :=
      JsonReader.stops_renders h rfl (by decide)
    simp only [List.append_assoc]
    refine not_validate_object hstart hbytes₁ ?_
    rw [JsonReader.accepts_first hbytes₁ (hpaired _) (.number (Chars.numberText_toChars _))
        (hstop hbytes₂),
      JsonReader.accepts_member hbytes₂ (hpaired _) (.string (stringContent_escaped _))
        (hstop hbytes₃),
      JsonReader.accepts_member hbytes₃ (hpaired _) (.string (stringContent_hexText _))
        (hstop hbytes₄),
      JsonReader.accepts_renders_comma hbytes₄ (hpaired _), htail]

open JsonWriter in
/-- No text of a known type is valid. -/
theorem not_emitsObject
    (hfinite : ∀ value precision, value.isNaN = false → value.isInf = false →
      NumberText (finite value precision)) (hm : metaFor dt = some m) (pretty : Bool) :
    ¬ EmitsObject finite assertions dt data pretty := by
  rintro ⟨chunks, hchunks, hobject⟩
  obtain ⟨w', hsome, rfl⟩ := Option.map_eq_some_iff.mp hchunks
  have hkey : ({ pretty } : JsonWriter).startObject.afterKey = false := write_afterKey _ _
  obtain ⟨start, hstart, hopen⟩ : Emits { pretty } ({ pretty } : JsonWriter).startObject
      [.openObject] := Emits.startContainer { pretty } .openObject rfl
  have htotal₀ : ({ pretty } : JsonWriter).total = [] := rfl
  obtain ⟨w, front, text, hwrite, hfirst, hafter, htotal, htext, hinvalid⟩ :=
    exists_writeDecoded assertions data hfinite hm rfl hkey
  rw [hwrite] at hsome
  cases assertions with
  | true =>
      have hnone : (w.ready true).appendKey (ofString "factor") = none :=
        if_pos (by rw [ready, if_pos rfl, hafter])
      rw [writeFieldFloat, hnone] at hsome
      cases hsome
  | false =>
      obtain ⟨w'', hsome', ⟨bytes, htotal', hbytes⟩, -⟩ :=
        exists_appendKey false ⟨ofString "factor", by decide⟩ (w := w) nofun
      rw [writeFieldFloat, hsome'] at hsome
      obtain rfl := Option.some.inj hsome
      obtain ⟨last, hlast, -⟩ := Emits.endContainer
        (w''.write (formatFloat finite m.factor 4)).afterValue .closeObject rfl
      have hbefore : (w''.write (formatFloat finite m.factor 4)).afterValue.total =
          w''.total ++ formatFloat finite m.factor 4 := total_write _ _
      rw [hfirst] at hbytes
      have hvalid := hobject.valid
      rw [flatten_close, endObject, hlast, hbefore, htotal', htotal, hstart, htotal₀] at hvalid
      simp only [List.append_assoc, List.nil_append] at hvalid
      refine absurd hvalid (Bool.eq_false_iff.mp (hinvalid _ _ hopen ?_))
      exact JsonReader.accepts_valueText htext
        (JsonReader.stops_renders hbytes rfl (by decide)) (JsonReader.not_accepts_key hbytes)

end Known

/-- The text for an unknown type, in each of the modes. -/
theorem isObject_error (finite : Float32 → Nat → List UInt8) (assertions : Bool) {dt : DataType}
    (data : List UInt8) (pretty : Bool) (h : metaFor dt = none) :
    EmitsObject finite assertions dt data pretty := by
  have hwrite : decodeToJson finite assertions dt data pretty =
      ((({ pretty } : JsonWriter).startObject.ready assertions).writeField (ofString "error")
        (.string (ofString "Invalid DataType"))).map fun w => w.endObject.close := by
    rw [decodeToJson, writeDecoded, h]
  rw [EmitsObject, hwrite, memberNames, if_pos h]
  cases assertions <;> cases pretty <;>
    exact ⟨_, rfl, ⟨by decide +kernel, by decide +kernel, by decide +kernel, by decide +kernel⟩⟩

/-- An object comes out exactly if the type is unknown, with assertions and without. -/
theorem emitsObject_iff {finite : Float32 → Nat → List UInt8}
    (hfinite : ∀ value precision, value.isNaN = false → value.isInf = false →
      NumberText (finite value precision)) (assertions : Bool) (dt : DataType)
    (data : List UInt8) (pretty : Bool) :
    EmitsObject finite assertions dt data pretty ↔ metaFor dt = none := by
  constructor
  · intro h
    cases hm : metaFor dt with
    | none => rfl
    | some m => exact absurd h (not_emitsObject hfinite hm pretty)
  · exact isObject_error finite assertions data pretty

/-- The factor of a plain integer is written as `1`. -/
theorem emitsObject_iff_uint8 :
    (∀ (_ : Float32) (_ : Nat), NumberText [0x31]) ∧
      (EmitsObject (fun _ _ => [0x31]) false .uint8 [0x05] false ↔ metaFor .uint8 = none) := by
  have hnumber : NumberText [0x31] := numberText_digit (by decide)
  exact ⟨fun _ _ => hnumber, emitsObject_iff (fun _ _ _ _ => hnumber) _ _ _ _⟩

/-- The byte `05` as a plain integer. -/
theorem not_emitsObject_uint8 :
    ¬ ∀ (finite : Float32 → Nat → List UInt8) (assertions : Bool) (dt : DataType)
      (data : List UInt8) (pretty : Bool),
      (∀ value precision, value.isNaN = false → value.isInf = false →
        NumberText (finite value precision)) →
      EmitsObject finite assertions dt data pretty := by
  intro h
  have hnumber : NumberText [0x31] := numberText_digit (by decide)
  have hfinite : ∀ value : Float32, ∀ precision : Nat, value.isNaN = false → value.isInf = false →
      NumberText ((fun _ _ => [0x31] : Float32 → Nat → List UInt8) value precision) :=
    fun _ _ _ _ => hnumber
  obtain ⟨m, hm⟩ : ∃ m, metaFor .uint8 = some m := Option.isSome_iff_exists.mp (by decide)
  exact not_emitsObject hfinite hm false (h _ false .uint8 [0x05] false hfinite)

end Ebus
