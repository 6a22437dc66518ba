import Ebus.Verification.Lexing

/-!
# Streaming against batch reading

The caller's loop takes what the reader has as far as it goes: with the whole text at hand to
its end (`Ahead.drainLoop_ended`), and otherwise up to the lexeme that is not there as a whole
(`Ahead.drainLoop_open`). What it reports are the tokens of the lexemes unless the data ends
between a key and its colon: the reader looks for the colon in what it has, does not wait for
more, and reports the key as a string.
-/

namespace Ebus

open Json

namespace JsonReader

variable {r : JsonReader} {future : List UInt8} {items : List Spaced} {trailing : List UInt8}

/-- A call that found a token. -/
theorem drainLoop_succ (fuel : Nat)
    (h : r.next.1 ≠ .end ∧ r.next.1 ≠ .error ∧ r.next.1 ≠ .needMoreData) :
    drainLoop (fuel + 1) r =
      (report r.next.1 r.next.2 :: (drainLoop fuel r.next.2).1, (drainLoop fuel r.next.2).2) := by
  obtain ⟨hend, herror, hdata⟩ := h
  rw [drainLoop]
  cases hnext : r.next with
  | mk token r' =>
      rw [hnext] at hend herror hdata
      cases token with
      | «end» => exact absurd rfl hend
      | error => exact absurd rfl herror
      | needMoreData => exact absurd rfl hdata
      | _ => rfl

theorem drainLoop_end (fuel : Nat) (h : r.next.1 = .end) :
    (drainLoop (fuel + 1) r).1 = [(.end, [])] := by
  rw [drainLoop]
  cases hnext : r.next with
  | mk token r' =>
      rw [hnext] at h
      cases h
      rfl

theorem drainLoop_waits (fuel : Nat) (h : r.next.1 = .needMoreData) :
    drainLoop (fuel + 1) r = ([], r.next.2) := by
  rw [drainLoop]
  cases hnext : r.next with
  | mk token r' =>
      rw [hnext] at h
      cases h
      rfl

/-- At the end of the text no key is cut. -/
theorem not_keyAt_zero : ¬ KeyAt 0 trailing items := by
  cases items with
  | nil => exact id
  | cons item items =>
      rintro ⟨hcolon, hle, -⟩
      rw [text_cons, hcolon] at hle
      simp [Lexeme.bytes] at hle

/-- A key that is cut in what is still to come is cut here as well. -/
theorem KeyAt.mono {k m : Nat} (h : KeyAt k trailing items) (hle : k ≤ m)
    (hm : m ≤ (text items trailing).length) : KeyAt m trailing items := by
  cases items with
  | nil => exact h
  | cons item items => exact ⟨h.1, h.2.1.trans hle, hm⟩

/-- A call that reports a lexeme leaves a text of the others. -/
theorem Ahead.Reports.length_future {lexeme : Lexeme} {result : Token × JsonReader}
    (h : Ahead.Reports r future items trailing lexeme result) :
    future.length ≤ (Json.text items trailing).length := by
  obtain ⟨items', trailing', hahead, halike⟩ := h.ahead
  have hle := halike.shorter
  rw [← hahead.text, List.length_append] at hle
  omega

/-- The whole text is there: by induction on the fuel, a call takes a byte at least. -/
theorem Ahead.drainLoop_ended {fuel : Nat} (h : Ahead r future items trailing)
    (hended : r.ended = true) (hfuel : r.rest.length < fuel) :
    (drainLoop fuel r).1 = tokens (items.map Spaced.lexeme) ++ [(.end, [])] := by
  induction fuel generalizing r items trailing with
  | zero => omega
  | succ fuel ih =>
      cases h.next with
      | «end» hnil _ htoken =>
          rw [drainLoop_end fuel htoken, hnil]
          rfl
      | waits hopen =>
          rw [hopen] at hended
          cases hended
      | reports lexeme others trailing' hreports htokens hcuts =>
          obtain ⟨items', trailing'', hahead, halike⟩ := hreports.ahead
          have hshorter := hreports.shorter
          have hreport := hreports.report.mpr fun hat => by
            rw [h.ended hended] at hat
            exact not_keyAt_zero hat.2
          rw [drainLoop_succ fuel hreports.proper, hreport, htokens,
            ih hahead (hreports.ended.trans hended) (by omega), halike.lexemes]
          rfl

/-- What the loop leaves of the text, and what it reported: `expected`, unless a key is cut. -/
structure Drained (future : List UInt8) (items : List Spaced) (trailing : List UInt8)
    (result : List (Token × List UInt8) × JsonReader) (items' : List Spaced)
    (trailing' : List UInt8) (expected : List (Token × List UInt8)) : Prop where
  waits : result.2.ended = false
  ahead : Ahead result.2 future items' trailing'
  tokens : tokens (items.map Spaced.lexeme) = expected ++ tokens (items'.map Spaced.lexeme)
  length : result.1.length = expected.length
  reports : result.1 = expected ↔ ¬ KeyCut future.length trailing items
  cuts : ¬ KeyCut future.length trailing items → ∀ k ≤ future.length,
    (KeyCut k trailing' items' ↔ KeyCut k trailing items)

theorem Ahead.drainLoop_open {fuel : Nat} (h : Ahead r future items trailing)
    (hopen : r.ended = false) (hfuel : r.rest.length < fuel) :
    ∃ items' trailing' expected,
      Drained future items trailing (drainLoop fuel r) items' trailing' expected := by
  induction fuel generalizing r items trailing with
  | zero => omega
  | succ fuel ih =>
      cases h.next with
      | «end» _ hended =>
          rw [hopen] at hended
          cases hended
      | waits _ htoken hopen' items' trailing' hahead htokens hcuts hcut =>
          refine ⟨items', trailing', [], ?_⟩
          rw [drainLoop_waits fuel htoken]
          exact ⟨hopen', hahead, htokens.symm, rfl, ⟨fun _ => hcut, fun _ => rfl⟩,
            fun _ k _ => hcuts k⟩
      | reports lexeme others trailing₁ hreports htokens hcuts =>
          obtain ⟨items₁, trailing₂, hahead, halike⟩ := hreports.ahead
          have hshorter := hreports.shorter
          obtain ⟨items', trailing', expected, hrest⟩ :=
            ih hahead (hreports.ended.trans hopen) (by omega)
          refine ⟨items', trailing',
            (tokenOf (isColon (others.map Spaced.lexeme)) lexeme, valueOf lexeme) :: expected, ?_⟩
          rw [drainLoop_succ fuel hreports.proper]
          refine ⟨hrest.waits, hrest.ahead, ?_, ?_, ?_, ?_⟩
          · rw [htokens, ← halike.lexemes, hrest.tokens, halike.lexemes]
            rfl
          · exact congrArg Nat.succ hrest.length
          · rw [List.cons.injEq, hreports.report, hrest.reports, halike.cuts, hcuts, not_or]
          · intro hcut k hk
            rw [hcuts, not_or] at hcut
            have hat : ¬ ((∃ content, lexeme = .string content) ∧ KeyAt k trailing₁ others) :=
              fun hat => hcut.1 ⟨hat.1, hat.2.mono hk hreports.length_future⟩
            have hrest' := hrest.cuts (by rw [halike.cuts]; exact hcut.2) k hk
            rw [hrest', halike.cuts, hcuts, or_iff_right hat]

theorem batch_text (hlinear : Linear (items.map Spaced.lexeme))
    (hspacing : Spacing items trailing) :
    batch (text items trailing) = tokens (items.map Spaced.lexeme) ++ [(.end, [])] := by
  have h : Ahead { rest := text items trailing, ended := true } [] items trailing :=
    ⟨hlinear, hspacing, List.append_nil _, fun _ => rfl⟩
  obtain ⟨items', trailing', hahead, halike⟩ := h.skipWhitespace
  rw [← halike.lexemes]
  exact hahead.drainLoop_ended rfl (Nat.lt_succ_self _)

/-- The end of the first chunk, and the ends of the others in what is left of the text. -/
theorem Drained.cuts_iff {chunk : List UInt8} {chunks : List (List UInt8)} {items' : List Spaced}
    {trailing' : List UInt8} {expected : List (Token × List UInt8)}
    {result : List (Token × List UInt8) × JsonReader}
    (h : Drained chunks.flatten items trailing result items' trailing' expected) :
    (¬ KeyCut chunks.flatten.length trailing items ∧
        ∀ i < chunks.length, ¬ KeyCut (chunks.drop (i + 1)).flatten.length trailing' items') ↔
      ∀ i < (chunk :: chunks).length,
        ¬ KeyCut ((chunk :: chunks).drop (i + 1)).flatten.length trailing items := by
  have hle (i : Nat) : (chunks.drop (i + 1)).flatten.length ≤ chunks.flatten.length := by
    conv_rhs => rw [← List.take_append_drop (i + 1) chunks, List.flatten_append,
      List.length_append]
    exact Nat.le_add_left _ _
  constructor
  · rintro ⟨hcut, hcuts⟩ i hi
    cases i with
    | zero => exact hcut
    | succ i =>
        rw [List.drop_succ_cons, ← h.cuts hcut _ (hle i)]
        exact hcuts i (Nat.lt_of_succ_lt_succ hi)
  · intro hcuts
    have hcut : ¬ KeyCut chunks.flatten.length trailing items := hcuts 0 (Nat.succ_pos _)
    refine ⟨hcut, fun i hi => ?_⟩
    rw [h.cuts hcut _ (hle i)]
    exact hcuts (i + 1) (Nat.succ_lt_succ hi)

/-- By induction on the chunks: each takes its part of the tokens. -/
theorem Ahead.stream {chunks : List (List UInt8)} (h : Ahead r chunks.flatten items trailing)
    (hopen : r.ended = false) :
    JsonReader.stream r chunks = tokens (items.map Spaced.lexeme) ++ [(.end, [])] ↔
      ∀ i < chunks.length, ¬ KeyCut (chunks.drop (i + 1)).flatten.length trailing items := by
  induction chunks generalizing r items trailing with
  | nil =>
      have hended : Ahead r.endOfInput [] items trailing :=
        ⟨h.linear, h.spacing, h.text, fun _ => rfl⟩
      have hdrain := hended.drainLoop_ended rfl (Nat.lt_succ_self _)
      rw [JsonReader.stream, drain, hdrain]
      simp
  | cons chunk chunks ih =>
      have hfed : Ahead (r.feed chunk) chunks.flatten items trailing := by
        refine ⟨h.linear, h.spacing, ?_, fun hended => ?_⟩
        · rw [feed, List.append_assoc]
          exact h.text
        · exact absurd (hopen.symm.trans hended) nofun
      obtain ⟨items', trailing', expected, hdrained⟩ :=
        hfed.drainLoop_open hopen (Nat.lt_succ_self _)
      have hdrain : (r.feed chunk).drain =
          drainLoop ((r.feed chunk).rest.length + 1) (r.feed chunk) := rfl
      rw [← hdrain] at hdrained
      have hrest := ih hdrained.ahead hdrained.waits
      have happend : (r.feed chunk).drain.1 ++ JsonReader.stream (r.feed chunk).drain.2 chunks =
            expected ++ (tokens (items'.map Spaced.lexeme) ++ [(.end, [])]) ↔
          (r.feed chunk).drain.1 = expected ∧
            JsonReader.stream (r.feed chunk).drain.2 chunks =
              tokens (items'.map Spaced.lexeme) ++ [(.end, [])] :=
        ⟨fun heq => List.append_inj heq hdrained.length, fun ⟨ha, hb⟩ => by rw [ha, hb]⟩
      rw [← hdrained.cuts_iff, ← hrest, ← hdrained.reports, ← happend, hdrained.tokens,
        List.append_assoc]
      rfl

/-- The reader is fed with a text in chunks. It reports what it reports of the whole text exactly
if no chunk ends between a key and its colon. -/
theorem stream_eq_batch_iff {items : List Spaced} {trailing : List UInt8}
    {chunks : List (List UInt8)} (hvalue : Derives .value (items.map Spaced.lexeme))
    (hspacing : Spacing items trailing) (htext : chunks.flatten = text items trailing) :
    stream {} chunks = batch (text items trailing) ↔
      ∀ i < chunks.length, ¬ KeyCut (chunks.drop (i + 1)).flatten.length trailing items := by
  have hahead : Ahead {} chunks.flatten items trailing :=
    ⟨hvalue.linear, hspacing, htext, nofun⟩
  rw [batch_text hvalue.linear hspacing]
  exact hahead.stream rfl

/-- The lexemes of `{"a":1}`. -/
def exampleItems : List Spaced :=
  [⟨[], .openObject⟩, ⟨[], .string [0x61]⟩, ⟨[], .colon⟩, ⟨[], .number [0x31]⟩, ⟨[], .closeObject⟩]

theorem exampleItems_derives : Derives .value (exampleItems.map Spaced.lexeme) := by
  have hdigits : Digits [0x31] := ⟨by simp, by simp [isDigit]⟩
  have hnumber : NumberText [0x31] :=
    ⟨[], [0x31], [], [], rfl, .inl rfl, hdigits, .inr (by decide), .inl rfl, .inl rfl⟩
  have hkey : StringContent [0x61] := .char (by decide) (by decide) (by decide) .nil
  exact .object (.member hkey (.number hnumber))

theorem exampleItems_spacing : Spacing exampleItems [] := ⟨by simp [exampleItems], by simp⟩

theorem stream_eq_batch_iff_colon :
    stream {} [[0x7b, 0x22, 0x61, 0x22, 0x3a], [0x31, 0x7d]] = batch (text exampleItems []) := by
  refine (stream_eq_batch_iff exampleItems_derives exampleItems_spacing (by decide)).mpr ?_
  intro i hi
  have hi : i = 0 ∨ i = 1 := by
    simp only [List.length_cons, List.length_nil] at hi
    omega
  obtain rfl | rfl := hi <;> simp [exampleItems, KeyCut, KeyAt, Lexeme.bytes, quote]

/-- The chunk ends behind the closing quote of the key. -/
theorem not_stream_eq_batch :
    ¬ ∀ (items : List Spaced) (trailing : List UInt8) (chunks : List (List UInt8)),
      Derives .value (items.map Spaced.lexeme) → Spacing items trailing →
        chunks.flatten = text items trailing → stream {} chunks = batch (text items trailing) := by
  intro h
  have heq := h exampleItems [] [[0x7b, 0x22, 0x61, 0x22], [0x3a, 0x31, 0x7d]]
    exampleItems_derives exampleItems_spacing (by decide)
  revert heq
  decide

end JsonReader

end Ebus
