import StreamParsing.Proofs.Encoding.Decoding
import StreamParsing.Proofs.Stream.Collecting
import StreamParsing.Stream.Options

/-!
Text read from a device. The device may hand out its bytes in pieces of any size and may interrupt any read: the
characters of the stream over it are those that one call of the decoder makes of all the bytes, and where that call
fails, so does the stream. A source of characters says that there are no more only when all bytes are used up.
-/

namespace StreamParsing

set_option autoImplicit false

universe u

namespace Reader

/-- The device hands out these bytes, in reads that may be interrupted any number of times, and then nothing. -/
inductive Gives : List Delivery → List UInt8 → Prop where
  | exhausted : Gives [] []
  | nothing (rest : List Delivery) : Gives (.bytes [] :: rest) []
  | interrupted {script : List Delivery} {bytes : List UInt8} : Gives script bytes → Gives (.interrupted :: script) bytes
  | bytes {script : List Delivery} {bytes data : List UInt8} : data ≠ [] → Gives script bytes →
      Gives (.bytes data :: script) (data ++ bytes)

variable {script : List Delivery} {bytes : List UInt8} {max : Nat}

/-- A read gives some of the bytes, or none when there are none left. -/
theorem Gives.readFrom (h : Gives script bytes) (hmax : 0 < max) (pulled calls : Nat) :
    ∃ script' calls' got rest, readFrom max pulled calls script = (⟨script', pulled + got.length, calls'⟩, .ok got) ∧
      bytes = got ++ rest ∧ (got = [] → rest = []) ∧ (got ≠ [] → Gives script' rest) := by
  induction h generalizing calls with
  | exhausted => exact ⟨[], calls + 1, [], [], rfl, rfl, fun _ => rfl, fun hne => absurd rfl hne⟩
  | nothing rest => exact ⟨rest, calls + 1, [], [], by simp [Reader.readFrom], rfl, fun _ => rfl, fun hne => absurd rfl hne⟩
  | interrupted _ ih => exact ih (calls + 1)
  | @bytes script bytes data hne hgives =>
    refine ⟨_, calls + 1, data.take max, data.drop max ++ bytes, rfl, ?_, ?_, fun _ => ?_⟩
    · rw [← List.append_assoc, List.take_append_drop]
    · intro hnil
      rcases List.take_eq_nil_iff.mp hnil with rfl | hdata
      · cases hmax
      · exact absurd hdata hne
    · -- What does not fit in one read is still ahead.
      split
      · rename_i hleft
        rwa [List.isEmpty_iff.mp hleft]
      · rename_i hleft
        exact .bytes (mt List.isEmpty_iff.mpr hleft) hgives

theorem Gives.read {r : Reader} (h : Gives r.script bytes) (hmax : 0 < max) :
    ∃ r' got rest, r.read max = (r', .ok got) ∧ bytes = got ++ rest ∧ r'.pulled = r.pulled + got.length ∧
      (got = [] → rest = []) ∧ (got ≠ [] → Gives r'.script rest) := by
  obtain ⟨script', calls', got, rest, hread, hbytes, hnil, hgives⟩ := h.readFrom hmax r.pulled r.calls
  exact ⟨_, got, rest, hread, hbytes, rfl, hnil, hgives⟩

end Reader

namespace Decoder

open Encoding (Divides)

variable {d d' : Decoder} {part written rest : List UInt8} {text : List Char} {out out' : Array Char} {e : ReadError}

/-- Characters read next, as they are handed out: the first of all without a mark in front. -/
def shown (d : Decoder) (text : List Char) : List Char := if d.started then text else d.encoding.unmarked text

theorem shown_append (d : Decoder) (text more : List Char) (pending : List UInt8) (offset : Nat) :
    d.shown (text ++ more) =
      d.shown text ++ shown ⟨d.encoding, pending, offset, d.started || !text.isEmpty⟩ more := by
  cases hs : d.started with
  | true => simp [shown, hs]
  | false =>
    cases text with
    | nil => simp [shown, hs, Encoding.unmarked_nil]
    | cons c text =>
      have hmark := Encoding.unmarked_append (e := d.encoding) (List.cons_ne_nil c text) more
      simpa [shown, hs] using hmark

theorem decode_of_incomplete (h : Divides d.encoding (d.pending ++ part) text written rest)
    (hrest : d.encoding.first rest = .incomplete) (out : Array Char) (last : Bool) :
    d.decode part out last =
      ⟨⟨d.encoding, rest, d.offset + written.length, d.started || !text.isEmpty⟩, out ++ (d.shown text).toArray,
        if last && !rest.isEmpty then .error (.malformed d.encoding.name (d.offset + written.length)) else .ok ()⟩ := by
  obtain ⟨text', written', rest', hdivides, hscan⟩ := d.encoding.exists_divides_scan (d.pending ++ part) out 0
  obtain ⟨rfl, rfl, rfl⟩ := h.unique hdivides
  have hfresh : decide (out.size < (out ++ text.toArray).size) = !text.isEmpty := by cases text <;> simp
  simp only [decode, hscan, hrest, decide_true, if_true, Nat.zero_add, hfresh, errorAt, Nat.add_zero]
  cases hs : d.started with
  | true => simp [shown, hs]
  | false =>
    cases text with
    | nil => simp [shown, hs, Encoding.unmarked_nil]
    | cons c text => simp [shown, hs, dropMark_append]

theorem result_decode_of_invalid (h : Divides d.encoding (d.pending ++ part) text written rest)
    (hrest : d.encoding.first rest ≠ .incomplete) (out : Array Char) (last : Bool) :
    (d.decode part out last).result = .error (.malformed d.encoding.name (d.offset + written.length)) := by
  obtain ⟨text', written', rest', hdivides, hscan⟩ := d.encoding.exists_divides_scan (d.pending ++ part) out 0
  obtain ⟨rfl, rfl, rfl⟩ := h.unique hdivides
  simp [decode, hscan, hrest, errorAt]

theorem outcome_decode_last (h : Divides d.encoding (d.pending ++ part) text written rest) (out : Array Char) :
    (d.decode part out true).outcome =
      if rest = [] then .ok (out ++ (d.shown text).toArray)
      else .error (.malformed d.encoding.name (d.offset + written.length)) := by
  by_cases hrest : d.encoding.first rest = .incomplete
  · rw [decode_of_incomplete h hrest]
    cases rest <;> rfl
  · have hne : rest ≠ [] := fun hnil => hrest (hnil ▸ d.encoding.first_nil)
    rw [Step.outcome, result_decode_of_invalid h hrest, if_neg hne]
    rfl

/-- What the decoder makes of the bytes if no more come after them. -/
def finish (d : Decoder) (bytes : List UInt8) : Except ReadError (Array Char) := (d.decode bytes #[] true).outcome

theorem outcome_decode_eq_map (d : Decoder) (bytes : List UInt8) (out : Array Char) :
    (d.decode bytes out true).outcome = (d.finish bytes).map (out ++ ·) := by
  obtain ⟨text, written, rest, h, -⟩ := d.encoding.exists_divides_scan (d.pending ++ bytes) out 0
  rw [finish, outcome_decode_last h, outcome_decode_last h]
  split <;> simp [Except.map]

/-- A call that fails does so whatever comes later. -/
theorem finish_append_of_error (h : (d.decode part out false).result = .error e) (more : List UInt8) :
    d.finish (part ++ more) = .error e := by
  obtain ⟨text, written, rest, hdivides, -⟩ := d.encoding.exists_divides_scan (d.pending ++ part) out 0
  by_cases hrest : d.encoding.first rest = .incomplete
  · rw [decode_of_incomplete hdivides hrest] at h
    cases h
  · have hall := hdivides.append hrest more
    rw [List.append_assoc] at hall
    have hne : rest ++ more ≠ [] := by
      intro hnil
      rw [List.append_eq_nil_iff] at hnil
      exact hrest (hnil.1 ▸ d.encoding.first_nil)
    rw [result_decode_of_invalid hdivides hrest] at h
    cases h
    rw [finish, outcome_decode_last hall, if_neg hne]

/-- What a call hands out is the beginning of what the decoder would make of everything; the rest is what it makes of
the bytes that come later. -/
theorem finish_append_of_ok (h : d.decode part out false = ⟨d', out', .ok ()⟩) :
    ∃ added, out' = out ++ added ∧ ∀ more, d.finish (part ++ more) = (d'.finish more).map (added ++ ·) := by
  obtain ⟨text, written, rest, hdivides, -⟩ := d.encoding.exists_divides_scan (d.pending ++ part) out 0
  by_cases hrest : d.encoding.first rest = .incomplete
  · rw [decode_of_incomplete hdivides hrest] at h
    cases h
    refine ⟨(d.shown text).toArray, rfl, fun more => ?_⟩
    obtain ⟨text', written', rest', hdivides', -⟩ := d.encoding.exists_divides_scan (rest ++ more) out 0
    have hall := Divides.next hdivides.encode hdivides'
    rw [← List.append_assoc, ← hdivides.bytes, List.append_assoc] at hall
    rw [finish, finish, outcome_decode_last hall, outcome_decode_last hdivides']
    split
    · rw [shown_append d text text' rest (d.offset + written.length)]
      simp [Except.map]
    · simp [Except.map, Nat.add_assoc]
  · have hresult := congrArg Step.result h
    rw [result_decode_of_invalid hdivides hrest] at hresult
    cases hresult

/-- Nothing is pending behind a last call that is accepted. -/
theorem pending_of_last (h : d.decode part out true = ⟨d', out', .ok ()⟩) : d'.pending = [] := by
  obtain ⟨text, written, rest, hdivides, -⟩ := d.encoding.exists_divides_scan (d.pending ++ part) out 0
  by_cases hrest : d.encoding.first rest = .incomplete
  · rw [decode_of_incomplete hdivides hrest] at h
    cases rest with
    | nil => exact (congrArg (fun step => step.decoder.pending) h).symm
    | cons b rest => cases congrArg Step.result h
  · have hresult := congrArg Step.result h
    rw [result_decode_of_invalid hdivides hrest] at hresult
    cases hresult

end Decoder

namespace TextFeed

variable {feed : TextFeed} {bytes : List UInt8} {max : Nat}

theorem next_of_done (h : feed.done = true) (buffer : Array Char) (start max : Nat) :
    feed.next buffer start max = ⟨feed, buffer, .ok (), #[]⟩ := by
  rw [next, if_neg (by simp [h])]

theorem next_of_grown {buffer : Array Char} {start : Nat} (h : buffer.size ≠ start) (feed : TextFeed) (max : Nat) :
    feed.next buffer start max = ⟨feed, buffer, .ok (), #[]⟩ := by
  rw [next, if_neg (by simp [h])]

theorem next_of_nothing {reader : Reader} (h : feed.done = false) (hread : feed.reader.read max = (reader, .ok []))
    (buffer : Array Char) :
    feed.next buffer buffer.size max =
      let step := feed.decoder.decode [] buffer true
      ⟨⟨reader, step.decoder, true⟩, step.out, step.result, #[]⟩ := by
  rw [next, if_pos ⟨rfl, h⟩]
  split
  · rename_i heq
    rw [hread] at heq
    cases heq
  · rename_i heq
    rw [hread] at heq
    cases heq
    rfl
  · rename_i heq
    rw [hread] at heq
    cases heq

theorem next_of_bytes {reader : Reader} {got : List UInt8} (h : feed.done = false)
    (hread : feed.reader.read max = (reader, .ok got)) (hgot : got ≠ []) (buffer : Array Char) :
    feed.next buffer buffer.size max =
      let step := feed.decoder.decode got buffer false
      match step.result with
      | .error e => ⟨⟨reader, step.decoder, false⟩, step.out, .error e, #[]⟩
      | .ok _ => next ⟨reader, step.decoder, false⟩ step.out buffer.size max := by
  rw [next, if_pos ⟨rfl, h⟩]
  split
  · rename_i heq
    rw [hread] at heq
    cases heq
  · rename_i heq
    rw [hread] at heq
    cases heq
    exact absurd rfl hgot
  · rename_i heq
    rw [hread] at heq
    cases heq
    rfl

/-- What asking for characters gives while `bytes` are still to come. -/
inductive Filling (feed : TextFeed) (bytes : List UInt8) (buffer : Array Char) : Fill TextFeed Char → Prop where
  | failed {feed' : TextFeed} {buffer' : Array Char} {e : ReadError} (h : feed.decoder.finish bytes = .error e) :
      Filling feed bytes buffer ⟨feed', buffer', .error e, #[]⟩
  | ended {feed' : TextFeed} {added : Array Char} (h : feed.decoder.finish bytes = .ok added) (hdone : feed'.done = true)
      (hpulled : feed'.reader.pulled = feed.reader.pulled + bytes.length) (hpending : feed'.decoder.pending = []) :
      Filling feed bytes buffer ⟨feed', buffer ++ added, .ok (), #[]⟩
  | more {feed' : TextFeed} {added : Array Char} {rest : List UInt8}
      (h : feed.decoder.finish bytes = (feed'.decoder.finish rest).map (added ++ ·)) (hne : added ≠ #[])
      (hdone : feed'.done = false) (hpulled : feed'.reader.pulled + rest.length = feed.reader.pulled + bytes.length)
      (hgives : Reader.Gives feed'.reader.script rest) (hlt : rest.length < bytes.length) :
      Filling feed bytes buffer ⟨feed', buffer ++ added, .ok (), #[]⟩

/-- A read that completes no character leaves what the source makes of all the bytes as it was. -/
theorem Filling.before {feed' : TextFeed} {rest : List UInt8} {buffer : Array Char} {fill : Fill TextFeed Char}
    (h : feed'.Filling rest buffer fill) (hfinish : feed.decoder.finish bytes = feed'.decoder.finish rest)
    (hpulled : feed'.reader.pulled + rest.length = feed.reader.pulled + bytes.length)
    (hle : rest.length ≤ bytes.length) : feed.Filling bytes buffer fill := by
  cases h with
  | failed h => exact .failed (hfinish.trans h)
  | ended h hdone hpulled' hpending => exact .ended (hfinish.trans h) hdone (hpulled'.trans hpulled) hpending
  | more h hne hdone hpulled' hgives hlt =>
    exact .more (hfinish.trans h) hne hdone (hpulled'.trans hpulled) hgives (Nat.lt_of_lt_of_le hlt hle)

/-- By induction on the bytes: each read that completes no character uses some of them up. -/
theorem filling_next (hdone : feed.done = false) (hgives : Reader.Gives feed.reader.script bytes) (hmax : 0 < max)
    (buffer : Array Char) : feed.Filling bytes buffer (feed.next buffer buffer.size max) := by
  generalize hn : bytes.length = n
  induction n using Nat.strongRecOn generalizing feed bytes with
  | ind n ih =>
    obtain ⟨reader, got, rest, hread, rfl, hpulled, hnil, hrest⟩ := hgives.read hmax
    by_cases hgot : got = []
    · obtain rfl := hgot
      obtain rfl := hnil rfl
      have houtcome := feed.decoder.outcome_decode_eq_map [] buffer
      rw [next_of_nothing hdone hread]
      rcases hstep : feed.decoder.decode [] buffer true with ⟨decoder, out, e | ok⟩
      all_goals
        rw [hstep] at houtcome
        rcases hfinish : feed.decoder.finish [] with e' | added
        all_goals
          rw [hfinish] at houtcome
          cases houtcome
      · exact .failed hfinish
      · exact .ended hfinish rfl hpulled (Decoder.pending_of_last hstep)
    · have hlength : 0 < got.length := List.length_pos_of_ne_nil hgot
      rw [List.length_append] at hn
      rw [next_of_bytes hdone hread hgot]
      rcases hstep : feed.decoder.decode got buffer false with ⟨decoder, out, e | ok⟩
      · exact .failed (Decoder.finish_append_of_error (congrArg Decoder.Step.result hstep) rest)
      · obtain ⟨added, rfl, hfinish⟩ := Decoder.finish_append_of_ok hstep
        have htotal : reader.pulled + rest.length = feed.reader.pulled + (got ++ rest).length := by
          rw [hpulled, List.length_append, Nat.add_assoc]
        have hlt : rest.length < (got ++ rest).length := by
          rw [List.length_append]
          omega
        by_cases hadded : added = #[]
        · obtain rfl := hadded
          have hsame : feed.decoder.finish (got ++ rest) = decoder.finish rest := by
            rw [hfinish rest]
            cases decoder.finish rest <;> simp [Except.map]
          rw [Array.append_empty]
          exact (ih rest.length (by omega) rfl (hrest hgot) rfl).before hsame htotal (Nat.le_of_lt hlt)
        · have hgrown : (buffer ++ added).size ≠ buffer.size := by simpa using hadded
          simp only [next_of_grown hgrown]
          exact .more (hfinish rest) hadded rfl htotal (hrest hgot) hlt

/-- By induction on the bytes: what is handed out first and what comes later is what the decoder makes of all bytes. -/
theorem exists_delivers {size : Nat} (hdone : feed.done = false) (hgives : Reader.Gives feed.reader.script bytes)
    (hsize : 0 < size) :
    ∃ tokens ending, Delivers size feed tokens ending ∧ TokenStream.answer tokens ending = feed.decoder.finish bytes := by
  generalize hn : bytes.length = n
  induction n using Nat.strongRecOn generalizing feed bytes with
  | ind n ih =>
    have hfilling := filling_next hdone hgives hsize #[]
    generalize hfill : feed.next #[] (#[] : Array Char).size size = fill at hfilling
    replace hfill : Source.fill 0 feed #[] size = some fill := congrArg some hfill
    cases hfilling with
    | failed h => exact ⟨[], _, .failed [] hfill, h.symm⟩
    | @ended feed' added h hdone' _ _ =>
      rw [Array.empty_append] at hfill
      have hend : Source.fill 0 feed' #[] size = some ⟨feed', #[], .ok (), #[]⟩ :=
        congrArg some (next_of_done hdone' #[] 0 size)
      by_cases hadded : added = #[]
      · obtain rfl := hadded
        exact ⟨[], none, .ended hfill, h.symm⟩
      · have hne : added.toList ≠ [] := by simpa using hadded
        exact ⟨added.toList ++ [], none, .more hfill hne (.ended hend), by simp [TokenStream.answer, h]⟩
    | @more feed' added rest h hne hdone' _ hgives' hlt =>
      rw [Array.empty_append] at hfill
      obtain ⟨tokens, ending, hd, hanswer⟩ := ih rest.length (by omega) hdone' hgives' rfl
      refine ⟨added.toList ++ tokens, ending, .more hfill (by simpa using hne) hd, ?_⟩
      rw [h, ← hanswer]
      cases ending <;> simp [TokenStream.answer, Except.map]

/-- The source is asked for characters again and again, for any number of them and with anything in the buffer, and is
dropped if it fails. -/
inductive Asked (first : TextFeed) : TextFeed → Prop where
  | start : Asked first first
  | again {feed : TextFeed} {buffer : Array Char} {max : Nat} (h : Asked first feed) (hmax : 0 < max)
      (hok : (feed.next buffer buffer.size max).result = .ok ()) :
      Asked first (feed.next buffer buffer.size max).source

/-- All bytes were pulled from the device, and the decoder holds none of them back. -/
structure UsedUp (first : TextFeed) (bytes : List UInt8) (feed : TextFeed) : Prop where
  pulled : feed.reader.pulled = first.reader.pulled + bytes.length
  pending : feed.decoder.pending = []

/-- How far a source is with the bytes. -/
inductive Left (first : TextFeed) (bytes : List UInt8) (feed : TextFeed) : Prop where
  | ahead (rest : List UInt8) (hdone : feed.done = false) (hgives : Reader.Gives feed.reader.script rest)
      (hpulled : feed.reader.pulled + rest.length = first.reader.pulled + bytes.length)
  | used (hdone : feed.done = true) (hused : UsedUp first bytes feed)

variable {first : TextFeed}

theorem Left.next (h : Left first bytes feed) (hmax : 0 < max) (buffer : Array Char)
    (hok : (feed.next buffer buffer.size max).result = .ok ()) :
    Left first bytes (feed.next buffer buffer.size max).source ∧
      ((feed.next buffer buffer.size max).buffer = buffer →
        UsedUp first bytes (feed.next buffer buffer.size max).source) := by
  cases h with
  | used hdone hused =>
    rw [next_of_done hdone]
    exact ⟨.used hdone hused, fun _ => hused⟩
  | ahead rest hdone hgives hpulled =>
    have hfilling := filling_next hdone hgives hmax buffer
    generalize feed.next buffer buffer.size max = fill at hok hfilling
    cases hfilling with
    | failed => cases hok
    | ended _ hdone' hpulled' hpending =>
      have hused := UsedUp.mk (hpulled'.trans hpulled) hpending
      exact ⟨.used hdone' hused, fun _ => hused⟩
    | more _ hne hdone' hpulled' hgives' _ =>
      refine ⟨.ahead _ hdone' hgives' (hpulled'.trans hpulled), fun hnone => ?_⟩
      exact absurd (by simpa using hnone) hne

theorem Asked.left (h : first.Asked feed) (hdone : first.done = false)
    (hgives : Reader.Gives first.reader.script bytes) : Left first bytes feed := by
  induction h with
  | start => exact .ahead bytes hdone hgives rfl
  | again _ hmax hok ih => exact (ih.next hmax _ hok).1

/-- Text read from a device is what the decoder makes of all its bytes at once, with the same error if there is one, for
any size of the chunks and of the pieces that the device hands out. Asking for characters adds none without an error
only when all bytes are used up. -/
theorem readAll_eq_decode (π : Type) [Position π Char] {reader : Reader} {bytes : List UInt8}
    (hgives : Reader.Gives reader.script bytes) (options : ReadOptions) :
    (∃ fuel, TokenStream.readAll π fuel (new reader options.encoding) options.chunkSize =
      some ((Decoder.new options.encoding).decode bytes #[] true).outcome) ∧
    (∀ fuel result, TokenStream.readAll π fuel (new reader options.encoding) options.chunkSize = some result →
      result = ((Decoder.new options.encoding).decode bytes #[] true).outcome) ∧
    ∀ feed, (new reader options.encoding).Asked feed → ∀ (buffer : Array Char) (max : Nat), 0 < max →
      (feed.next buffer buffer.size max).result = .ok () → (feed.next buffer buffer.size max).buffer = buffer →
      UsedUp (new reader options.encoding) bytes (feed.next buffer buffer.size max).source := by
  have hdone : (new reader options.encoding).done = false := rfl
  obtain ⟨tokens, ending, hd, hanswer⟩ :=
    exists_delivers hdone hgives (Nat.lt_of_lt_of_le Nat.one_pos (Nat.le_max_right options.chunkSize 1))
  replace hanswer : _ = ((Decoder.new options.encoding).decode bytes #[] true).outcome := hanswer
  rw [← hanswer]
  refine ⟨TokenStream.exists_readAll π hd, fun fuel result => TokenStream.readAll_eq_answer hd, ?_⟩
  intro feed hasked buffer max hmax hok hnone
  exact ((hasked.left hdone hgives).next hmax buffer hok).2 hnone

/-- A mark cut in two, a letter cut in two and interruptions; and a text that ends inside a letter. -/
theorem readAll_eq_decode_cut :
    (∃ fuel, TokenStream.readAll TextPosition fuel (new (.ofScript [.bytes [0xEF, 0xBB], .interrupted, .bytes [0xBF],
      .bytes [0xC3], .interrupted, .interrupted, .bytes [0xA9, 0x21]]) .utf8) 1 = some (.ok #['é', '!'])) ∧
    ∃ fuel, TokenStream.readAll TextPosition fuel (new (.ofScript [.bytes [0x41, 0xC3]]) .utf8) 0 =
      some (.error (.malformed "UTF-8" 1)) := by
  refine ⟨?_, ?_⟩
  · have hgives : Reader.Gives [.bytes [0xEF, 0xBB], .interrupted, .bytes [0xBF], .bytes [0xC3], .interrupted,
        .interrupted, .bytes [0xA9, 0x21]] [0xEF, 0xBB, 0xBF, 0xC3, 0xA9, 0x21] :=
      .bytes (by decide) (.interrupted (.bytes (by decide) (.bytes (by decide) (.interrupted (.interrupted
        (.bytes (by decide) .exhausted))))))
    have hdecode : ((Decoder.new .utf8).decode [0xEF, 0xBB, 0xBF, 0xC3, 0xA9, 0x21] #[] true).outcome =
        .ok #['é', '!'] :=
      Decoder.outcome_decode_eq_ok_iff.mpr ⟨['\uFEFF', 'é', '!'], by decide, by decide⟩
    rw [← hdecode]
    exact (readAll_eq_decode TextPosition hgives ⟨1, .utf8⟩).1
  · have hgives : Reader.Gives [.bytes [0x41, 0xC3]] [0x41, 0xC3] := .bytes (by decide) .exhausted
    have hdivides : Encoding.Divides .utf8 [0x41, 0xC3] ['A'] [0x41] [0xC3] :=
      ⟨by decide, rfl, nofun⟩
    have hdecode : ((Decoder.new .utf8).decode [0x41, 0xC3] #[] true).outcome = .error (.malformed "UTF-8" 1) :=
      Decoder.outcome_decode_of_divides #[] hdivides
    rw [← hdecode]
    exact (readAll_eq_decode TextPosition hgives ⟨0, .utf8⟩).1

end TextFeed

end StreamParsing
