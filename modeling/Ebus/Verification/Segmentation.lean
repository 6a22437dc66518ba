import Ebus.App.Inbound
import Ebus.App.Segments
import Ebus.Verification.Orderly

/-!
# How the stream of a client is cut

The bytes that an enhanced client sends are decoded as one stream: an incomplete sequence
waits in the client for the next chunk. Two things are kept for less than the stream. A session
that starts drops the byte that waits; and a call answers once for all the requests of its
chunk, first those for a reset, and not at all if it ends with a sequence that is not valid.
-/

namespace Ebus

open Client Enhanced

namespace Client

/-- The first byte of a sequence waits, or nothing does. -/
def Waits (pending : List UInt8) : Prop :=
  pending = [] ∨ ∃ first, pending = [first] ∧ ¬ first < dataThreshold

/-- The loop has gone from `s` to `t` over these items. -/
structure Intake.Reads (s : Intake) (items : List Enhanced.Item) (pending : List UInt8)
    (t : Intake) : Prop where
  type : t.client.type = .enhanced
  inboundBuffer : t.client.inboundBuffer =
    s.client.inboundBuffer ++ items.flatMap Enhanced.Item.pushed
  reset : t.needResetResponse = (s.needResetResponse || items.any Enhanced.Item.asksReset)
  info : t.needInfoResponse = (s.needInfoResponse || items.any Enhanced.Item.asksInfo)
  failed : t.failed = true ↔ Enhanced.Item.broken ∈ items
  incomingBuf : t.client.incomingBuf = pending
  waits : Waits pending
  intact : Enhanced.Item.broken ∉ items →
    t.client.connected = s.client.connected ∧ t.client.outgoing = s.client.outgoing
  broken : Enhanced.Item.broken ∈ items → s.client.connected = true →
    t.client.connected = false ∧
      t.client.outgoing = s.client.outgoing ++ [[Response.errorHost.code, framing]]

theorem Intake.foldl_take_failed {s : Intake} (h : s.failed = true) (data : List UInt8) :
    data.foldl Intake.take s = s := by
  induction data with
  | nil => rfl
  | cons byte data ih =>
      have htake : s.take byte = s := by simp [Intake.take, h]
      rw [List.foldl_cons, htake, ih]

/-- An item and the items behind it. -/
theorem Intake.Reads.cons {s t u : Intake} {item : Enhanced.Item} {items : List Enhanced.Item}
    {pending : List UInt8} (hitem : item ≠ .broken)
    (hbuffer : t.client.inboundBuffer = s.client.inboundBuffer ++ item.pushed)
    (hreset : t.needResetResponse = (s.needResetResponse || item.asksReset))
    (hinfo : t.needInfoResponse = (s.needInfoResponse || item.asksInfo))
    (hconnected : t.client.connected = s.client.connected)
    (houtgoing : t.client.outgoing = s.client.outgoing)
    (h : t.Reads items pending u) : s.Reads (item :: items) pending u where
  type := h.type
  inboundBuffer := by
    rw [h.inboundBuffer, hbuffer, List.flatMap_cons, List.append_assoc]
  reset := by rw [h.reset, hreset, List.any_cons, Bool.or_assoc]
  info := by rw [h.info, hinfo, List.any_cons, Bool.or_assoc]
  failed := by
    rw [h.failed, List.mem_cons]
    exact (or_iff_right hitem.symm).symm
  incomingBuf := h.incomingBuf
  waits := h.waits
  intact := by
    intro hnot
    rw [← hconnected, ← houtgoing]
    exact h.intact fun hmem => hnot (List.mem_cons_of_mem _ hmem)
  broken := by
    intro hmem
    rw [← hconnected, ← houtgoing]
    exact h.broken ((List.mem_cons.mp hmem).resolve_left hitem.symm)

/-- A complete sequence does what its item says. -/
theorem Intake.command_eq (s : Intake) (first second : UInt8) (htype : s.client.type = .enhanced) :
    let item := Enhanced.Item.sequence (Enhanced.decode first second).1
      (Enhanced.decode first second).2
    (s.command first second).client.type = .enhanced ∧
    (s.command first second).client.inboundBuffer = s.client.inboundBuffer ++ item.pushed ∧
    (s.command first second).needResetResponse = (s.needResetResponse || item.asksReset) ∧
    (s.command first second).needInfoResponse = (s.needInfoResponse || item.asksInfo) ∧
    (s.command first second).failed = s.failed ∧
    (s.command first second).client.incomingBuf = s.client.incomingBuf ∧
    (s.command first second).client.connected = s.client.connected ∧
    (s.command first second).client.outgoing = s.client.outgoing := by
  have hwrite : s.client.isWriteCapable = true := by simp [isWriteCapable, htype]
  unfold Intake.command
  obtain ⟨command, value⟩ := Enhanced.decode first second
  simp only [hwrite, if_true]
  cases command with
  | none => simp [htype, Enhanced.Item.pushed, Enhanced.Item.asksReset, Enhanced.Item.asksInfo]
  | some command =>
      cases command with
      | init => simp [htype, Enhanced.Item.pushed, Enhanced.Item.asksReset, Enhanced.Item.asksInfo]
      | send => simp [htype, Enhanced.Item.pushed, Enhanced.Item.asksReset, Enhanced.Item.asksInfo]
      | start =>
          by_cases hsyn : value = Symbols.syn
          · simp [htype, hsyn, Enhanced.Item.pushed, Enhanced.Item.asksReset,
              Enhanced.Item.asksInfo]
          · simp [htype, hsyn, Enhanced.Item.pushed, Enhanced.Item.asksReset,
              Enhanced.Item.asksInfo]
      | info => simp [htype, Enhanced.Item.pushed, Enhanced.Item.asksReset, Enhanced.Item.asksInfo]

/-- The first byte of a sequence. -/
theorem Intake.Reads.wait {s t u : Intake} {items : List Enhanced.Item} {pending : List UInt8}
    (hbuf : t = { s with client := { s.client with incomingBuf := t.client.incomingBuf } })
    (h : t.Reads items pending u) : s.Reads items pending u where
  type := h.type
  inboundBuffer := by rw [h.inboundBuffer, hbuf]
  reset := by rw [h.reset, hbuf]
  info := by rw [h.info, hbuf]
  failed := h.failed
  incomingBuf := h.incomingBuf
  waits := h.waits
  intact := by
    rw [hbuf] at h
    exact h.intact
  broken := by
    rw [hbuf] at h
    exact h.broken

theorem Intake.reads_broken (s : Intake) (htype : s.client.type = .enhanced) :
    s.Reads [.broken] [] { s with
      client := (({ s.client with incomingBuf := [] } : Client).createEnhancedResponse
        .errorHost framing).stop, failed := true } := by
  refine ⟨?_, ?_, ?_, ?_, ?_, ?_, .inl rfl, ?_, ?_⟩
  · simp [stop, createEnhancedResponse, htype]
  · simp [stop, createEnhancedResponse, Enhanced.Item.pushed]
  · simp [Enhanced.Item.asksReset]
  · simp [Enhanced.Item.asksInfo]
  · simp
  · simp only [stop, createEnhancedResponse, enqueueOutgoingData]
    split <;> rfl
  · simp
  · intro _ hconnected
    simp [stop, createEnhancedResponse, enqueueOutgoingData, hconnected]

theorem Intake.reads_foldl_take (s : Intake) (data : List UInt8)
    (htype : s.client.type = .enhanced) (hok : s.failed = false)
    (hwaits : Waits s.client.incomingBuf) :
    s.Reads (scan s.client.incomingBuf data).1 (scan s.client.incomingBuf data).2
      (data.foldl Intake.take s) := by
  induction data generalizing s with
  | nil => exact ⟨htype, by simp [scan], by simp [scan], by simp [scan], by simp [scan, hok],
      by simp [scan], by simpa [scan] using hwaits, fun _ => ⟨rfl, rfl⟩, by simp [scan]⟩
  | cons byte data ih =>
      rw [List.foldl_cons]
      obtain hnone | ⟨first, hfirst, hlarge⟩ := hwaits
      · by_cases hshort : byte < dataThreshold
        · obtain ⟨t, ht⟩ : ∃ t, t = s.take byte := ⟨_, rfl⟩
          have htake : t = { s with client := { s.client with
              incomingBuf := [], inboundBuffer := s.client.inboundBuffer ++ [byte] } } := by
            simp [ht, Intake.take, hok, hnone, hshort, isWriteCapable, htype]
          have hrest := ih t (by rw [htake]; exact htype) (by rw [htake]; exact hok)
            (by rw [htake]; exact .inl rfl)
          have hbuf : t.client.incomingBuf = [] := by rw [htake]
          rw [hbuf] at hrest
          rw [← ht, hnone, scan, if_pos hshort]
          exact .cons (by simp) (by rw [htake]; rfl) (by simp [htake, Enhanced.Item.asksReset])
            (by simp [htake, Enhanced.Item.asksInfo]) (by rw [htake]) (by rw [htake]) hrest
        · obtain ⟨t, ht⟩ : ∃ t, t = s.take byte := ⟨_, rfl⟩
          have htake : t = { s with client := { s.client with incomingBuf := [byte] } } := by
            simp [ht, Intake.take, hok, hnone, hshort]
          have hrest := ih t (by rw [htake]; exact htype) (by rw [htake]; exact hok)
            (by rw [htake]; exact .inr ⟨byte, rfl, hshort⟩)
          have hbuf : t.client.incomingBuf = [byte] := by rw [htake]
          rw [hbuf] at hrest
          rw [← ht, hnone, scan, if_neg hshort]
          exact .wait (by rw [hbuf]; exact htake) hrest
      · by_cases hvalid : isValidSequence first byte = true
        · have htake : s.take byte = Intake.command
              { s with client := { s.client with incomingBuf := [] } } first byte := by
            simp [Intake.take, hok, hfirst, hlarge, hvalid]
          obtain ⟨htype', hbuffer, hreset, hinfo, hfailed, hbuf, hconnected, houtgoing⟩ :=
            Intake.command_eq { s with client := { s.client with incomingBuf := [] } } first byte
              htype
          rw [← htake] at htype' hbuffer hreset hinfo hfailed hbuf hconnected houtgoing
          have hrest := ih (s.take byte) htype' (hfailed.trans hok) (.inl hbuf)
          rw [hbuf] at hrest
          rw [hfirst, scan, if_pos hvalid]
          exact .cons (by simp) hbuffer hreset hinfo hconnected houtgoing hrest
        · have htake : s.take byte = { s with
              client := (({ s.client with incomingBuf := [] } : Client).createEnhancedResponse
                .errorHost framing).stop, failed := true } := by
            simp [Intake.take, hok, hfirst, hlarge, hvalid]
          have hfailed : (s.take byte).failed = true := by rw [htake]
          rw [Intake.foldl_take_failed hfailed, htake, hfirst, scan, if_neg hvalid]
          exact s.reads_broken htype

/-- The responses to the requests of one call. -/
def responses (items : List Enhanced.Item) : List (List UInt8) :=
  if .broken ∈ items then [[Response.errorHost.code, framing]]
  else (if items.any Enhanced.Item.asksReset then [[Response.resetted.code, 0x00]] else []) ++
    if items.any Enhanced.Item.asksInfo then
      infoResponse.map fun value => [Response.info.code, value]
    else []

theorem createEnhancedResponse_eq {c : Client} (h : c.connected = true) (response : Response)
    (value : UInt8) :
    c.createEnhancedResponse response value =
      { c with outgoing := c.outgoing ++ [[response.code, value]] } := by
  simp [createEnhancedResponse, enqueueOutgoingData, h]

theorem foldl_createEnhancedResponse {c : Client} (h : c.connected = true) (response : Response)
    (values : List UInt8) :
    values.foldl (fun c value => c.createEnhancedResponse response value) c =
      { c with outgoing := c.outgoing ++ values.map fun value => [response.code, value] } := by
  induction values generalizing c with
  | nil => simp
  | cons value values ih =>
      have hkept : ({ c with outgoing := c.outgoing ++ [[response.code, value]] } :
          Client).connected = true := h
      rw [List.foldl_cons, createEnhancedResponse_eq h, ih hkept, List.map_cons,
        List.append_assoc, List.singleton_append]

/-- The answers that follow the loop. -/
theorem answers_eq {c : Client} (h : c.connected = true) (reset info : Bool) :
    (let answered := if reset then c.createEnhancedResponse .resetted 0x00 else c
     if info then
       infoResponse.foldl (fun c value => c.createEnhancedResponse .info value) answered
     else answered) =
      { c with outgoing := c.outgoing ++
          ((if reset then [[Response.resetted.code, 0x00]] else []) ++
            if info then infoResponse.map fun value => [Response.info.code, value] else []) } := by
  have hreset : ({ c with outgoing := c.outgoing ++ [[Response.resetted.code, 0x00]] } :
      Client).connected = true := h
  cases reset with
  | false =>
      cases info with
      | false => simp
      | true => simp [foldl_createEnhancedResponse h]
  | true =>
      cases info with
      | false => simp [createEnhancedResponse_eq h]
      | true =>
          simp only [if_true, createEnhancedResponse_eq h, foldl_createEnhancedResponse hreset,
            List.append_assoc]

/-- What a chunk of a connected client does to it. -/
theorem handleIncomingStream_enhanced {c : Client} (htype : c.type = .enhanced)
    (hconnected : c.connected = true) (hwaits : Waits c.incomingBuf) (data : List UInt8) :
    let items := (scan c.incomingBuf data).1
    (c.handleIncomingStream data).1.type = .enhanced ∧
    (c.handleIncomingStream data).1.inboundBuffer =
      c.inboundBuffer ++ items.flatMap Enhanced.Item.pushed ∧
    (c.handleIncomingStream data).1.outgoing = c.outgoing ++ responses items ∧
    ((c.handleIncomingStream data).1.connected = true ↔ Enhanced.Item.broken ∉ items) ∧
    (c.handleIncomingStream data).1.incomingBuf = (scan c.incomingBuf data).2 ∧
    Waits (c.handleIncomingStream data).1.incomingBuf := by
  dsimp only
  have hreads := Intake.reads_foldl_take { client := c } data htype rfl hwaits
  cases data with
  | nil => simp [handleIncomingStream, htype, scan, hconnected, responses, hwaits]
  | cons byte data =>
      simp only [handleIncomingStream, htype, hconnected, Bool.not_true, List.isEmpty_cons,
        Bool.or_self, Bool.false_eq_true, if_false]
      change Intake.Reads { client := c } (scan c.incomingBuf (byte :: data)).1
        (scan c.incomingBuf (byte :: data)).2 _ at hreads
      generalize (scan c.incomingBuf (byte :: data)).1 = items at hreads ⊢
      generalize (scan c.incomingBuf (byte :: data)).2 = pending at hreads ⊢
      generalize List.foldl Intake.take { client := c } (byte :: data) = t at hreads ⊢
      obtain ⟨htype', hbuffer, hreset, hinfo, hfailed, hbuf, hwaits', hintact, hbroken⟩ := hreads
      simp only [Bool.false_or] at hreset hinfo
      by_cases hmem : Enhanced.Item.broken ∈ items
      · obtain ⟨hgone, houtgoing⟩ := hbroken hmem hconnected
        rw [if_pos (hfailed.mpr hmem)]
        simp [htype', hbuffer, hgone, houtgoing, hmem, hbuf, hwaits', responses]
      · obtain ⟨hkept, houtgoing⟩ := hintact hmem
        rw [hconnected] at hkept
        rw [if_neg (fun h => hmem (hfailed.mp h)), answers_eq hkept]
        simp [htype', hbuffer, hkept, houtgoing, hmem, hbuf, hwaits', responses, hreset, hinfo]

end Client

namespace Enhanced

theorem waits_scan {pending : List UInt8} (h : Waits pending) (data : List UInt8) :
    Waits (scan pending data).2 := by
  fun_induction scan pending data with
  | case1 pending => exact h
  | case2 byte rest hshort items pending hscan ih =>
      rw [hscan] at ih
      exact ih (.inl rfl)
  | case3 byte rest hlarge ih => exact ih (.inr ⟨byte, rfl, hlarge⟩)
  | case4 first more byte rest hvalid items pending hscan ih =>
      rw [hscan] at ih
      exact ih (.inl rfl)
  | case5 => exact .inl rfl

/-- The items of a stream are those of its front and, unless the front ends the connection,
those of the rest. -/
theorem scan_append (pending front rest : List UInt8) :
    (scan pending (front ++ rest)).1 = (scan pending front).1 ++
      if Item.broken ∈ (scan pending front).1 then []
      else (scan (scan pending front).2 rest).1 := by
  fun_induction scan pending front with
  | case1 pending => simp
  | case2 byte front hshort items pending hscan ih =>
      rw [List.cons_append, scan, if_pos hshort]
      simp only [hscan, List.mem_cons, reduceCtorEq, false_or, List.cons_append] at ih ⊢
      rw [ih]
  | case3 byte front hlarge ih => rw [List.cons_append, scan, if_neg hlarge, ih]
  | case4 first more byte front hvalid items pending hscan ih =>
      rw [List.cons_append, scan, if_pos hvalid]
      simp only [hscan, List.mem_cons, reduceCtorEq, false_or, List.cons_append] at ih ⊢
      rw [ih]
  | case5 first more byte front hinvalid =>
      rw [List.cons_append, scan, if_neg hinvalid]
      simp

theorem scan_append_pending {pending front : List UInt8}
    (h : Item.broken ∉ (scan pending front).1) (rest : List UInt8) :
    (scan pending (front ++ rest)).2 = (scan (scan pending front).2 rest).2 := by
  fun_induction scan pending front with
  | case1 pending => rfl
  | case2 byte front hshort items pending hscan ih =>
      rw [List.cons_append, scan, if_pos hshort]
      simp only [hscan, List.mem_cons, reduceCtorEq, false_or] at ih h ⊢
      exact ih h
  | case3 byte front hlarge ih =>
      rw [List.cons_append, scan, if_neg hlarge]
      exact ih h
  | case4 first more byte front hvalid items pending hscan ih =>
      rw [List.cons_append, scan, if_pos hvalid]
      simp only [hscan, List.mem_cons, reduceCtorEq, false_or] at ih h ⊢
      exact ih h
  | case5 => simp at h

theorem flatten_scanChunks (pending : List UInt8) (chunks : List (List UInt8)) :
    (scanChunks pending chunks).flatten = (scan pending chunks.flatten).1 := by
  induction chunks generalizing pending with
  | nil => rfl
  | cons chunk chunks ih =>
      rw [List.flatten_cons, scan_append, scanChunks]
      dsimp only
      split
      · simp [List.flatten_cons]
      · rw [List.flatten_cons, ih]

/-- Nothing comes behind the end of the connection. -/
theorem scanChunks_broken (pending : List UInt8) (chunks : List (List UInt8)) :
    (scanChunks pending chunks).Pairwise fun a b => Item.broken ∈ a → b = [] := by
  induction chunks generalizing pending with
  | nil => exact .nil
  | cons chunk chunks ih =>
      rw [scanChunks]
      dsimp only
      split
      · refine List.pairwise_cons.mpr ⟨fun b hb _ => ?_, ?_⟩
        · obtain ⟨_, -, rfl⟩ := List.mem_map.mp hb
          rfl
        · exact List.pairwise_map.mpr (List.pairwise_of_forall fun _ _ _ => rfl)
      · rename_i hmem
        exact List.pairwise_cons.mpr ⟨fun b _ h => absurd h hmem, ih _⟩

/-- The requests of an earlier chunk do not meet those of a later one: a reset is asked for, and
the connection ended, by the first chunk that asks for anything, and the version by the last. -/
def Apart (a b : List Item) : Prop :=
  (b.any Item.asksReset = true ∨ Item.broken ∈ b →
    a.any Item.asksReset = false ∧ a.any Item.asksInfo = false) ∧
  (b.any Item.asksInfo = true → a.any Item.asksInfo = false)

instance (a b : List Item) : Decidable (Apart a b) := inferInstanceAs (Decidable (_ ∧ _))

theorem forall_apart_iff {a : List Item} {chunks : List (List Item)} :
    (∀ b ∈ chunks, Apart a b) ↔
      (chunks.flatten.any Item.asksReset = true ∨ Item.broken ∈ chunks.flatten →
        a.any Item.asksReset = false ∧ a.any Item.asksInfo = false) ∧
      (chunks.flatten.any Item.asksInfo = true → a.any Item.asksInfo = false) := by
  simp only [List.any_flatten, List.any_eq_true (l := chunks), List.mem_flatten]
  constructor
  · intro h
    refine ⟨?_, ?_⟩
    · rintro (⟨b, hb, hreset⟩ | ⟨b, hb, hbroken⟩)
      · exact (h b hb).1 (.inl hreset)
      · exact (h b hb).1 (.inr hbroken)
    · rintro ⟨b, hb, hinfo⟩
      exact (h b hb).2 hinfo
  · rintro ⟨hreset, hinfo⟩ b hb
    refine ⟨?_, fun h => hinfo ⟨b, hb, h⟩⟩
    rintro (h | h)
    · exact hreset (.inl ⟨b, hb, h⟩)
    · exact hreset (.inr ⟨b, hb, h⟩)

theorem reset_mem_flatMap {chunks : List (List Item)} (hintact : Item.broken ∉ chunks.flatten)
    (h : chunks.flatten.any Item.asksReset = true) :
    [Response.resetted.code, 0x00] ∈ chunks.flatMap responses := by
  rw [List.any_flatten, List.any_eq_true] at h
  obtain ⟨b, hb, hreset⟩ := h
  refine List.mem_flatMap.mpr ⟨b, hb, ?_⟩
  have hnot : Item.broken ∉ b := fun hmem => hintact (List.mem_flatten.mpr ⟨b, hb, hmem⟩)
  simp [responses, hnot, hreset]

theorem flatMap_ne_nil {chunks : List (List Item)} (hintact : Item.broken ∉ chunks.flatten)
    (h : chunks.flatten.any Item.asksInfo = true) : chunks.flatMap responses ≠ [] := by
  rw [List.any_flatten, List.any_eq_true] at h
  obtain ⟨b, hb, hinfo⟩ := h
  have hnot : Item.broken ∉ b := fun hmem => hintact (List.mem_flatten.mpr ⟨b, hb, hmem⟩)
  rw [Ne, List.flatMap_eq_nil_iff, not_forall]
  exact ⟨b, fun hnil => by simpa [responses, hnot, hinfo, infoResponse] using hnil hb⟩

/-- A chunk that leaves the connection open, and the chunks behind it. -/
theorem responses_append_iff {a rest : List Item} {later : List (List UInt8)}
    (ha : Item.broken ∉ a)
    (hreset : Item.broken ∉ rest → rest.any Item.asksReset = true →
      [Response.resetted.code, 0x00] ∈ later)
    (hinfo : Item.broken ∉ rest → rest.any Item.asksInfo = true → later ≠ []) :
    responses (a ++ rest) = responses a ++ later ↔
      ((rest.any Item.asksReset = true ∨ Item.broken ∈ rest →
          a.any Item.asksReset = false ∧ a.any Item.asksInfo = false) ∧
        (rest.any Item.asksInfo = true → a.any Item.asksInfo = false)) ∧
      responses rest = later := by
  simp only [responses, List.mem_append, ha, false_or, if_false, List.any_append]
  generalize a.any Item.asksReset = r
  generalize a.any Item.asksInfo = i
  by_cases hend : Item.broken ∈ rest
  · -- of the whole stream only the error is left
    simp only [hend, if_true, or_true, true_implies]
    cases r <;> cases i <;> simp [infoResponse, Response.code]
  · have hreset := hreset hend
    have hinfo := hinfo hend
    simp only [hend, if_false, or_false]
    generalize rest.any Item.asksReset = r' at hreset ⊢
    generalize rest.any Item.asksInfo = i' at hinfo ⊢
    cases r with
    | false =>
        cases i with
        | false => simp
        | true =>
            cases r' with
            | true => simp [infoResponse, Response.code]
            | false =>
                cases i' with
                | false => simp
                | true => simp [hinfo rfl]
    | true =>
        cases i with
        | false =>
            cases r' with
            | false => simp
            | true =>
                have hne : (if i' then infoResponse.map fun value => [Response.info.code, value]
                    else []) ≠ later := by
                  rintro rfl
                  have hmem := hreset rfl
                  cases i' <;> simp [infoResponse, Response.code] at hmem
                simpa using hne
        | true =>
            cases r' with
            | true => simp [List.ne_nil_of_mem (hreset rfl)]
            | false =>
                cases i' with
                | false => simp
                | true => simp [hinfo rfl]

/-- The responses to the chunks one by one are those to the whole stream only if the requests
of any two chunks do not meet. -/
theorem responses_flatten_iff {chunks : List (List Item)}
    (hbroken : chunks.Pairwise fun a b => Item.broken ∈ a → b = []) :
    responses chunks.flatten = chunks.flatMap responses ↔ chunks.Pairwise Apart := by
  induction chunks with
  | nil => exact iff_of_true rfl .nil
  | cons a chunks ih =>
      obtain ⟨hlater, hbroken⟩ := List.pairwise_cons.mp hbroken
      rw [List.flatten_cons, List.flatMap_cons, List.pairwise_cons]
      by_cases ha : Item.broken ∈ a
      · -- nothing is read any more
        have hnil : ∀ b ∈ chunks, b = [] := fun b hb => hlater b hb ha
        have hflatten : chunks.flatten = [] := List.flatten_eq_nil_iff.mpr hnil
        have hflatMap : chunks.flatMap responses = [] :=
          List.flatMap_eq_nil_iff.mpr fun b hb => by simp [hnil b hb, responses]
        refine iff_of_true (by rw [hflatten, hflatMap, List.append_nil, List.append_nil])
          ⟨fun b hb => ?_, List.Pairwise.imp_of_mem (R := fun _ _ => True) ?_ ?_⟩
        · simp [hnil b hb, Apart]
        · intro b c hb hc _
          simp [hnil c hc, Apart]
        · exact List.pairwise_of_forall fun _ _ => trivial
      · rw [responses_append_iff ha reset_mem_flatMap flatMap_ne_nil, forall_apart_iff, ih hbroken]

end Enhanced

namespace Served

/-- The chunk ends inside a sequence, and a session starts with it. -/
def StartsInside (s : Served) (arrival : Arrival) : Prop :=
  arrival.idle = true ∧ s.client.connected = true ∧
    Enhanced.Item.broken ∉ (scan s.client.incomingBuf arrival.data).1 ∧
    (s.client.inboundBuffer ≠ [] ∨
      (scan s.client.incomingBuf arrival.data).1.flatMap Enhanced.Item.pushed ≠ []) ∧
    (scan s.client.incomingBuf arrival.data).2 ≠ []

instance (s : Served) (arrival : Arrival) : Decidable (s.StartsInside arrival) :=
  inferInstanceAs (Decidable (_ ∧ _ ∧ _ ∧ _ ∧ _))

/-- What the bytes that a session takes leave as it is. -/
structure Same (s t : Served) : Prop where
  type : t.client.type = s.client.type
  pushed : t.pushed = s.pushed
  outgoing : t.client.outgoing = s.client.outgoing
  connected : t.client.connected = s.client.connected
  incomingBuf : t.client.incomingBuf = s.client.incomingBuf

theorem Same.trans {s t u : Served} (h : s.Same t) (h' : t.Same u) : s.Same u :=
  ⟨h'.type.trans h.type, h'.pushed.trans h.pushed, h'.outgoing.trans h.outgoing,
    h'.connected.trans h.connected, h'.incomingBuf.trans h.incomingBuf⟩

/-- A byte is taken from the front of the queue, or none. -/
theorem popPendingIncomingData_cases (c : Client) :
    c.popPendingIncomingData = (c, none) ∨ ∃ byte rest, c.inboundBuffer = byte :: rest ∧
      c.popPendingIncomingData =
        ({ c with inboundBuffer := rest, lastSentByte := byte }, some byte) := by
  unfold popPendingIncomingData
  split
  · exact .inl rfl
  · exact .inl rfl
  · rename_i byte rest hbuffer htype
    exact .inr ⟨byte, rest, hbuffer, rfl⟩

theorem same_take (s : Served) : s.Same s.take := by
  obtain hnone | ⟨byte, rest, hbuffer, hsome⟩ := popPendingIncomingData_cases s.client
  · rw [take, hnone]
    exact ⟨rfl, rfl, rfl, rfl, rfl⟩
  · rw [take, hsome]
    exact ⟨rfl, by simp [pushed, hbuffer], rfl, rfl, rfl⟩

theorem same_takes (s : Served) (n : Nat) : s.Same (take^[n] s) := by
  induction n generalizing s with
  | zero => exact ⟨rfl, rfl, rfl, rfl, rfl⟩
  | succ n ih =>
      rw [Function.iterate_succ_apply]
      exact s.same_take.trans (ih s.take)

/-- A session that starts drops what waits, and nothing else. -/
theorem same_tryStartSession {s : Served}
    (h : (s.client.isConnected && s.client.isWriteCapable && s.client.hasPendingIncomingData) =
      true → s.client.incomingBuf = []) :
    s.Same { s with client := s.client.tryStartSession } := by
  unfold tryStartSession
  split
  · rename_i hready
    have hwaits := h hready
    unfold onSessionStart
    split
    · exact ⟨rfl, rfl, rfl, rfl, hwaits.symm⟩
    · exact ⟨rfl, rfl, rfl, rfl, rfl⟩
  · exact ⟨rfl, rfl, rfl, rfl, rfl⟩

section Receive
variable {s : Served}

/-- A client that has been disconnected is left alone. -/
theorem receive_disconnected (h : s.client.connected = false) (arrival : Arrival) :
    (s.receive arrival).outcome = s.outcome ∧ (s.receive arrival).client.connected = false := by
  have hhandle : (s.client.handleIncomingStream arrival.data).1 = s.client := by
    simp only [handleIncomingStream, h, Bool.not_false, Bool.true_or, if_true]
    split <;> rfl
  have hstart : s.client.tryStartSession = s.client := by
    simp [tryStartSession, isConnected, h]
  have hsame : s.Same (s.receive arrival) := by
    have hreceive : s.receive arrival = take^[arrival.takes] s := by
      simp only [receive, hhandle, hstart, ite_self]
    rw [hreceive]
    exact same_takes s _
  exact ⟨by rw [outcome, hsame.pushed, hsame.outgoing, hsame.connected]; rfl,
    hsame.connected.trans h⟩

/-- A chunk behind which no byte that waits is dropped. -/
theorem receive_connected (htype : s.client.type = .enhanced)
    (hconnected : s.client.connected = true) (hwaits : Waits s.client.incomingBuf)
    {arrival : Arrival} (hok : ¬ s.StartsInside arrival) :
    let items := (scan s.client.incomingBuf arrival.data).1
    (s.receive arrival).client.type = .enhanced ∧
    (s.receive arrival).pushed = s.pushed ++ items.flatMap Enhanced.Item.pushed ∧
    (s.receive arrival).client.outgoing = s.client.outgoing ++ responses items ∧
    ((s.receive arrival).client.connected = true ↔ Enhanced.Item.broken ∉ items) ∧
    (s.receive arrival).client.incomingBuf = (scan s.client.incomingBuf arrival.data).2 := by
  dsimp only
  obtain ⟨htype', hbuffer, houtgoing, hopen, hbuf, -⟩ :=
    handleIncomingStream_enhanced htype hconnected hwaits arrival.data
  have hsame : Same { s with client := (s.client.handleIncomingStream arrival.data).1 }
      (s.receive arrival) := by
    refine .trans ?_ (same_takes _ arrival.takes)
    split
    · rename_i hidle
      refine same_tryStartSession fun hready => ?_
      dsimp only at hready ⊢
      simp only [Bool.and_eq_true, isConnected, hopen] at hready
      obtain ⟨⟨hintact, -⟩, hpending⟩ := hready
      by_contra hinside
      rw [hbuf] at hinside
      refine hok ⟨hidle, hconnected, hintact, ?_, hinside⟩
      simp only [hasPendingIncomingData, htype', hbuffer, Bool.not_eq_true',
        List.isEmpty_eq_false_iff] at hpending
      exact not_and_or.mp (mt List.append_eq_nil_iff.mpr hpending)
    · exact ⟨rfl, rfl, rfl, rfl, rfl⟩
  refine ⟨hsame.type.trans htype', ?_, hsame.outgoing.trans houtgoing, ?_,
    hsame.incomingBuf.trans hbuf⟩
  · rw [hsame.pushed]
    simp [pushed, hbuffer]
  · rw [hsame.connected]
    exact hopen

end Receive

theorem outcome_run_disconnected {s : Served} (h : s.client.connected = false)
    (arrivals : List Arrival) : (Runs.run receive s arrivals).outcome = s.outcome := by
  induction arrivals generalizing s with
  | nil => rfl
  | cons arrival arrivals ih =>
      obtain ⟨hsame, hgone⟩ := receive_disconnected h arrival
      rw [Runs.run_cons, ih hgone, hsame]

/-- The end of a run in which no session drops a byte. -/
theorem outcome_run {s : Served} (htype : s.client.type = .enhanced)
    (hconnected : s.client.connected = true) (hwaits : Waits s.client.incomingBuf)
    {arrivals : List Arrival}
    (hok : Runs.Meets receive (fun s arrival => ¬ s.StartsInside arrival) s arrivals) :
    let chunks := scanChunks s.client.incomingBuf (arrivals.map Arrival.data)
    (Runs.run receive s arrivals).outcome =
      (s.pushed ++ chunks.flatten.flatMap Enhanced.Item.pushed,
        s.client.outgoing ++ chunks.flatMap responses,
        decide (Enhanced.Item.broken ∉ chunks.flatten)) := by
  induction arrivals generalizing s with
  | nil => simp [outcome, scanChunks, hconnected]
  | cons arrival arrivals ih =>
      obtain ⟨hfirst, hrest⟩ := hok
      obtain ⟨htype', hpushed, houtgoing, hopen, hbuf⟩ :=
        receive_connected htype hconnected hwaits hfirst
      rw [Runs.run_cons, List.map_cons, scanChunks]
      dsimp only
      by_cases hbroken : Enhanced.Item.broken ∈ (scan s.client.incomingBuf arrival.data).1
      · have hgone : (s.receive arrival).client.connected = false := by
          rw [← Bool.not_eq_true, hopen, not_not]
          exact hbroken
        rw [if_pos hbroken, outcome_run_disconnected hgone, outcome, hpushed, houtgoing, hgone]
        simp only [List.flatten_cons, List.flatMap_cons, List.flatMap_append, List.mem_append,
          hbroken, true_or, not_true_eq_false, decide_false, List.map_const']
        simp [responses]
      · have hwaits' : Waits (s.receive arrival).client.incomingBuf := by
          rw [hbuf]
          exact waits_scan hwaits _
        rw [if_neg hbroken, ih htype' (hopen.mpr hbroken) hwaits' hrest, hpushed, houtgoing, hbuf]
        simp [hbroken]

/-- The stream of a new client in one chunk. -/
def whole (arrivals : List Arrival) : Served :=
  fresh.receive { data := (arrivals.map Arrival.data).flatten }

theorem outcome_whole (arrivals : List Arrival) :
    let items := (scan [] (arrivals.map Arrival.data).flatten).1
    (whole arrivals).outcome =
      (items.flatMap Enhanced.Item.pushed, responses items,
        decide (Enhanced.Item.broken ∉ items)) := by
  have hok : ¬ fresh.StartsInside { data := (arrivals.map Arrival.data).flatten } := fun h => by
    cases h.1
  obtain ⟨-, hpushed, houtgoing, hopen, -⟩ :=
    receive_connected (s := fresh) rfl rfl (.inl rfl) hok
  dsimp only
  rw [outcome, whole, hpushed, houtgoing]
  refine Prod.ext rfl (Prod.ext rfl ?_)
  exact Bool.eq_iff_iff.mpr (hopen.trans decide_eq_true_iff.symm)

theorem pushed_receive_eq (s : Served) (arrival : Arrival) :
    (s.receive arrival).pushed =
      s.taken ++ (s.client.handleIncomingStream arrival.data).1.inboundBuffer := by
  have hstart (c : Client) : c.tryStartSession.inboundBuffer = c.inboundBuffer := by
    unfold tryStartSession onSessionStart
    repeat' split
    all_goals rfl
  rw [receive, (same_takes _ arrival.takes).pushed, pushed]
  dsimp only
  split
  · rw [hstart]
  · rfl

theorem pushed_receive (s : Served) (arrival : Arrival) :
    s.pushed <+: (s.receive arrival).pushed := by
  rw [pushed_receive_eq, pushed, List.prefix_append_right_inj]
  exact (s.client.extends_handleIncomingStream arrival.data).2

theorem pushed_run (s : Served) (arrivals : List Arrival) :
    s.pushed <+: (Runs.run receive s arrivals).pushed := by
  induction arrivals generalizing s with
  | nil => exact List.prefix_refl _
  | cons arrival arrivals ih => exact (s.pushed_receive arrival).trans (ih _)

/-- In a run in which no session drops a byte, the chunks and the whole stream come to the same
exactly if the requests of the chunks are apart. -/
theorem outcome_run_iff {arrivals : List Arrival}
    (hok : Runs.Meets receive (fun s arrival => ¬ s.StartsInside arrival) fresh arrivals) :
    (Runs.run receive fresh arrivals).outcome = (whole arrivals).outcome ↔
      (scanChunks [] (arrivals.map Arrival.data)).Pairwise Apart := by
  have hrun := outcome_run (s := fresh) rfl rfl (.inl rfl) hok
  have hwhole := outcome_whole arrivals
  dsimp only at hrun hwhole
  rw [← flatten_scanChunks] at hwhole
  rw [hrun, hwhole, ← responses_flatten_iff (scanChunks_broken _ _)]
  constructor
  · intro h
    exact (Prod.mk.inj (Prod.mk.inj h).2).1.symm
  · intro h
    rw [h]
    rfl

/-- A connected client at the end of such a run. -/
theorem run_connected {s : Served} (htype : s.client.type = .enhanced)
    (hconnected : s.client.connected = true) (hwaits : Waits s.client.incomingBuf)
    {arrivals : List Arrival}
    (hok : Runs.Meets receive (fun s arrival => ¬ s.StartsInside arrival) s arrivals)
    (hend : (Runs.run receive s arrivals).client.connected = true) :
    let stream := (arrivals.map Arrival.data).flatten
    (Runs.run receive s arrivals).client.type = .enhanced ∧
    Enhanced.Item.broken ∉ (scan s.client.incomingBuf stream).1 ∧
    (Runs.run receive s arrivals).client.incomingBuf = (scan s.client.incomingBuf stream).2 := by
  induction arrivals generalizing s with
  | nil => exact ⟨htype, by simp [scan], by simp [scan]⟩
  | cons arrival arrivals ih =>
      obtain ⟨hfirst, hrest⟩ := hok
      obtain ⟨htype', -, -, hopen, hbuf⟩ := receive_connected htype hconnected hwaits hfirst
      rw [Runs.run_cons] at hend ⊢
      dsimp only
      rw [List.map_cons, List.flatten_cons, scan_append]
      by_cases hbroken : Enhanced.Item.broken ∈ (scan s.client.incomingBuf arrival.data).1
      · have hgone : (s.receive arrival).client.connected = false := by
          rw [← Bool.not_eq_true, hopen, not_not]
          exact hbroken
        have hout := congrArg (fun o => o.2.2) (outcome_run_disconnected hgone arrivals)
        rw [outcome, outcome] at hout
        rw [hend, hgone] at hout
        cases hout
      · have hwaits' : Waits (s.receive arrival).client.incomingBuf := by
          rw [hbuf]
          exact waits_scan hwaits _
        obtain ⟨htype'', hintact, hbuf'⟩ := ih htype' (hopen.mpr hbroken) hwaits' hrest hend
        rw [hbuf] at hintact hbuf'
        rw [scan_append_pending hbroken, if_neg hbroken, List.mem_append, not_or]
        exact ⟨htype'', ⟨hbroken, hintact⟩, hbuf'⟩

/-- A byte below the threshold is no second byte of a sequence. -/
theorem not_isValidSequence {first byte : UInt8} (h : byte < dataThreshold) :
    ¬ isValidSequence first byte = true := by
  intro hvalid
  simp only [isValidSequence, Bool.and_eq_true, beq_iff_eq] at hvalid
  have hle : (byte &&& 0xc0).toNat ≤ byte.toNat := by
    rw [UInt8.toNat_and]
    exact Nat.and_le_left
  rw [hvalid.2] at hle
  exact absurd h (UInt8.not_lt.mpr (UInt8.le_iff_toNat_le.mpr hle))

/-- The session that starts inside a sequence. -/
theorem receive_startsInside {s : Served} (htype : s.client.type = .enhanced)
    (hwaits : Waits s.client.incomingBuf) {arrival : Arrival} (h : s.StartsInside arrival) :
    (s.receive arrival).client.type = .enhanced ∧
    (s.receive arrival).client.connected = true ∧
    (s.receive arrival).client.incomingBuf = [] ∧
    (s.receive arrival).pushed =
      s.pushed ++ (scan s.client.incomingBuf arrival.data).1.flatMap Enhanced.Item.pushed := by
  obtain ⟨hidle, hconnected, hintact, hpending, -⟩ := h
  obtain ⟨htype', hbuffer, -, hopen, -, -⟩ :=
    handleIncomingStream_enhanced htype hconnected hwaits arrival.data
  have hconnected' := hopen.mpr hintact
  have hpushed := s.pushed_receive_eq arrival
  have hsame := same_takes
    { s with client := (s.client.handleIncomingStream arrival.data).1.tryStartSession }
    arrival.takes
  have hreceive : s.receive arrival = take^[arrival.takes]
      { s with client := (s.client.handleIncomingStream arrival.data).1.tryStartSession } := by
    simp only [receive, hidle, if_true]
  rw [← hreceive] at hsame
  rw [hbuffer] at hpushed
  generalize (s.client.handleIncomingStream arrival.data).1 = c at *
  have hstart : c.tryStartSession = { c with incomingBuf := [] } := by
    have hready : c.inboundBuffer ≠ [] := by
      rw [hbuffer, Ne, List.append_eq_nil_iff, not_and_or]
      exact hpending
    simp [tryStartSession, isConnected, isWriteCapable, hasPendingIncomingData, onSessionStart,
      hconnected', htype', hready]
  rw [hstart] at hsame
  exact ⟨hsame.type.trans htype', hsame.connected.trans hconnected', hsame.incomingBuf,
    by rw [hpushed, pushed, List.append_assoc]⟩

/-- A session that drops the first byte of a sequence: a short form behind it goes to the bus,
where the whole stream ends in the middle of the sequence. -/
theorem outcome_run_ne {arrivals later : List Arrival} {arrival next : Arrival} {byte : UInt8}
    {rest : List UInt8}
    (hok : Runs.Meets receive (fun s arrival => ¬ s.StartsInside arrival) fresh arrivals)
    (hinside : (Runs.run receive fresh arrivals).StartsInside arrival)
    (hnext : next.data = byte :: rest) (hshort : byte < dataThreshold) :
    (Runs.run receive fresh (arrivals ++ arrival :: next :: later)).outcome ≠
      (whole (arrivals ++ arrival :: next :: later)).outcome := by
  have hrun := congrArg Prod.fst (outcome_run (s := fresh) rfl rfl (.inl rfl) hok)
  obtain ⟨htype, hintact, hbuf⟩ :=
    run_connected (s := fresh) rfl rfl (.inl rfl) hok hinside.2.1
  dsimp only [outcome] at hrun
  rw [flatten_scanChunks] at hrun
  have hwaits : Waits (Runs.run receive fresh arrivals).client.incomingBuf := by
    rw [hbuf]
    exact waits_scan (.inl rfl) _
  rw [Runs.run_append, Runs.run_cons, Runs.run_cons]
  generalize Runs.run receive fresh arrivals = s at *
  obtain ⟨htype', hconnected', hbuf', hpushed⟩ := receive_startsInside htype hwaits hinside
  have hnext' := (s.receive arrival).pushed_receive_eq next
  have hbuffer := (handleIncomingStream_enhanced htype' hconnected' (.inl hbuf') next.data).2.1
  rw [hbuf', hnext, scan, if_pos hshort] at hbuffer
  rw [hnext, hbuffer] at hnext'
  have hlonger : (s.receive arrival).pushed.length <
      ((s.receive arrival).receive next).pushed.length := by
    rw [hnext', pushed]
    simp only [List.flatMap_cons, Enhanced.Item.pushed, List.length_append, List.length_singleton]
    omega
  have hgrows := (pushed_run ((s.receive arrival).receive next) later).length_le
  -- the whole stream ends at the short form
  change Enhanced.Item.broken ∉ (scan [] (arrivals.map Arrival.data).flatten).1 at hintact
  change s.client.incomingBuf = (scan [] (arrivals.map Arrival.data).flatten).2 at hbuf
  change s.pushed =
    (scan [] (arrivals.map Arrival.data).flatten).1.flatMap Enhanced.Item.pushed at hrun
  have hwhole := congrArg Prod.fst (outcome_whole (arrivals ++ arrival :: next :: later))
  obtain ⟨-, -, hintact', -, hpending⟩ := hinside
  have hend : (scan (scan s.client.incomingBuf arrival.data).2
      (next.data ++ (later.map Arrival.data).flatten)).1 = [.broken] := by
    obtain ⟨first, more, hfirst⟩ := List.exists_cons_of_ne_nil hpending
    rw [hfirst, hnext, List.cons_append, scan, if_neg (not_isValidSequence hshort)]
  dsimp only at hwhole
  rw [List.map_append, List.map_cons, List.map_cons, List.flatten_append, List.flatten_cons,
    List.flatten_cons, scan_append, if_neg hintact, ← hbuf, scan_append, if_neg hintact', hend,
    List.flatMap_append, List.flatMap_append, ← hrun, ← List.append_assoc, ← hpushed] at hwhole
  intro h
  have hsame := (congrArg (fun outcome => outcome.1.length) h).trans
    (congrArg List.length hwhole)
  simp only [outcome, List.flatMap_cons, List.flatMap_nil, Enhanced.Item.pushed,
    List.append_nil] at hsame
  omega

/-- Where no session starts inside a sequence, the stream may be cut as long as the requests of
the chunks are apart. Where one does, a short form behind it makes the difference. -/
theorem segmentation (arrivals : List Arrival) :
    (Runs.Meets receive (fun s arrival => ¬ s.StartsInside arrival) fresh arrivals →
      ((Runs.run receive fresh arrivals).outcome = (whole arrivals).outcome ↔
        (scanChunks [] (arrivals.map Arrival.data)).Pairwise Apart)) ∧
    ∀ arrival next later byte rest,
      Runs.Meets receive (fun s arrival => ¬ s.StartsInside arrival) fresh arrivals →
      (Runs.run receive fresh arrivals).StartsInside arrival →
      next.data = byte :: rest → byte < dataThreshold →
      (Runs.run receive fresh (arrivals ++ arrival :: next :: later)).outcome ≠
        (whole (arrivals ++ arrival :: next :: later)).outcome :=
  ⟨fun hok => outcome_run_iff hok,
    fun _ _ _ _ _ hok hinside hnext hshort => outcome_run_ne hok hinside hnext hshort⟩

/-- A start command cut in two, the session that it opens, and a request for the version. -/
theorem segmentation_startInfo :
    let arrivals := [{ data := [0xC8] }, { data := [0xB1], idle := true, takes := 1 },
      { data := [0xCC, 0x80] }]
    (Runs.run receive fresh arrivals).outcome = (whole arrivals).outcome :=
  ((segmentation _).1 (by decide)).mpr (by decide)

/-- The address `0x31` and, cut in two, the byte `0xFE`: the session that the address opens drops
the first half. -/
theorem not_segmentation_session :
    ¬ ∀ arrivals, (Runs.run receive fresh arrivals).outcome = (whole arrivals).outcome := by
  intro h
  have hsame := h [{ data := [0xC8, 0xB1, 0xC7], idle := true }, { data := [0xBE] }]
  revert hsame
  decide

end Served

end Ebus
