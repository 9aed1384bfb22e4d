import StreamParsing.Proofs.Stream.History
import StreamParsing.Proofs.Stream.Order
import StreamParsing.Proofs.Tokens.Notices
import StreamParsing.Proofs.Tokens.Tokenizing

/-!
Towers: streams whose sources are lexers at work on streams below. Whatever is done with a stream of a tower, its source
and the sources below it come to their end once, from the uppermost on.
-/

namespace StreamParsing

set_option autoImplicit false

universe u

inductive Op where
  | advance
  | run
  | stage
  | parse
  | release

/-- The notices that an operation on the stream at level `k` can give: losses of sources at that level or below, and the
answer of a release. -/
def Op.Gives (k : Nat) (ns : List Notice) : Op → Prop
  | release => ∃ was, ns = [⟨k, .released was⟩]
  | parse => ∃ ms was, ns = ms ++ [⟨k, .released was⟩] ∧ ∀ n ∈ ms, n.ending.IsLoss ∧ k ≤ n.level
  | _ => ∀ n ∈ ns, n.ending.IsLoss ∧ k ≤ n.level

/-- Sources that may read from streams below. -/
class Tower (σ : Type u) (τ : outParam Type) [Source σ τ] where
  /-- The streams below were made and used in the ways that there are. -/
  Standing : σ → Prop
  Drains : σ → List Notice → σ → Prop
  Works : σ → Nat → Op → List Notice → σ → Prop
  cascade : ∀ {source : σ}, Standing source → Cascade (Source.below source)
  exists_drains : ∀ {fuel : Nat} {source : σ} {buffer : Array τ} {max : Nat} {fill : Fill σ τ},
    Source.fill fuel source buffer max = some fill → ∃ ns, Drains source ns fill.source
  told_of_drains : ∀ {source source' : σ} {ns : List Notice}, Cascade (Source.below source) →
    Drains source ns source' → Told (Source.below source) ns (Source.below source')
  loss_of_drains : ∀ {source source' : σ} {ns : List Notice}, Drains source ns source' → ∀ n ∈ ns, n.ending.IsLoss
  told_of_works : ∀ {source source' : σ} {k : Nat} {op : Op} {ns : List Notice}, Cascade (Source.below source) →
    Works source k op ns source' → Told (Source.below source) ns (Source.below source')
  gives_of_works : ∀ {source source' : σ} {k : Nat} {op : Op} {ns : List Notice},
    Works source k op ns source' → op.Gives k ns
  below_close : ∀ {source : σ}, Cascade (Source.below source) →
    Source.below (Source.close source).1 = (Source.below source).map fun _ => false

variable {σ : Type u} {τ π ρ α ω : Type} [Source σ τ]

/-- Sources with nothing below are the base of a tower. -/
@[reducible] def Tower.ofBase (hbelow : ∀ source : σ, Source.below source = []) : Tower σ τ where
  Standing _ := True
  Drains _ ns _ := ns = []
  Works _ _ _ _ _ := False
  cascade _ := by
    rw [hbelow]
    exact .nil
  exists_drains _ := ⟨[], rfl⟩
  told_of_drains _ hd := by
    rw [hd, hbelow, hbelow]
    exact .nil _
  loss_of_drains hd n hn := by
    rw [hd] at hn
    cases hn
  told_of_works _ hw := hw.elim
  gives_of_works hw := hw.elim
  below_close _ := by
    rw [hbelow, hbelow]
    rfl

instance {τ : Type} : Tower (NoSource τ) τ := .ofBase fun _ => rfl

instance {τ : Type} : Tower (Items τ) τ := .ofBase fun _ => rfl

instance {τ : Type} : Tower (Batches τ) τ := .ofBase fun _ => rfl

instance : Tower ByteFeed UInt8 := .ofBase fun _ => rfl

instance : Tower TextFeed Char := .ofBase fun _ => rfl

theorem Machine.becomes_of_run [Position π τ] {upkeep : Machine.Upkeep τ π ρ ω} {fuel : Nat} {store : Store σ τ π ρ}
    {control : Machine.Control τ π ρ ω} {finish : Machine.Finish σ τ π ρ ω}
    (h : Machine.run upkeep fuel store control = some finish) :
    store.stream.Becomes finish.store.stream := by
  obtain ⟨last, result⟩ := finish
  obtain ⟨n, hleaves⟩ : ∃ n, Leaves upkeep .nil n store control last result := leaves_of_run h
  clear h
  induction hleaves with
  | back => exact .refl
  | broken _ hb =>
    obtain ⟨fuel, hs⟩ := hb
    obtain ⟨events, ha⟩ := advance_of_broken hs
    exact TokenStream.Becomes.advancing .refl (TokenStream.advancing_of_advance ha)
  | step _ hm _ ih => exact (becomes_of_path (.cons hm (.refl _ _))).trans ih

namespace TokenStream

variable [Tower σ τ] {s s' u : TokenStream σ τ} {ns ms : List Notice} {k : Nat} {op : Op}

/-- What reading from a stream makes of it. -/
inductive Drains (s : TokenStream σ τ) : List Notice → TokenStream σ τ → Prop where
  | none : Drains s [] s
  | more {u : TokenStream σ τ} {ns ms : List Notice} {fuel : Nat} {source : σ} {buffer : Array τ}
      {events : Array Event} (h : Drains s ns u) (hl : u.live = true)
      (hf : Source.fill fuel u.source #[] u.chunkSize = some ⟨source, buffer, .ok (), events⟩)
      (hb : buffer.toList ≠ []) (hd : Tower.Drains u.source ms source) :
      Drains s (ns ++ ms.map .under) ⟨u.chunks.push buffer, source, true, u.chunkSize, u.chunksRead + 1⟩
  | ended {u : TokenStream σ τ} {ns ms : List Notice} {fuel : Nat} {source : σ} {events : Array Event}
      (h : Drains s ns u) (hl : u.live = true)
      (hf : Source.fill fuel u.source #[] u.chunkSize = some ⟨source, #[], .ok (), events⟩)
      (hd : Tower.Drains u.source ms source) :
      Drains s (ns ++ (ms.map .under ++ [⟨0, .exhausted⟩]))
        ⟨u.chunks.push #[], (Source.close source).1, false, u.chunkSize, u.chunksRead + 1⟩
  | failed {u : TokenStream σ τ} {ns ms : List Notice} {fuel : Nat} {source : σ} {buffer : Array τ} {e : ReadError}
      {events : Array Event} (h : Drains s ns u) (hl : u.live = true)
      (hf : Source.fill fuel u.source #[] u.chunkSize = some ⟨source, buffer, .error e, events⟩)
      (hd : Tower.Drains u.source ms source) :
      Drains s (ns ++ (ms.map .under ++ [⟨0, .failed e⟩]))
        ⟨u.chunks, (Source.close source).1, false, u.chunkSize, u.chunksRead⟩

theorem exists_drains_of_becomes (h : s.Becomes s') : ∃ ns, s.Drains ns s' := by
  induction h with
  | refl => exact ⟨[], .none⟩
  | tail _ hread ih =>
    obtain ⟨ns, hdrains⟩ := ih
    obtain ⟨access, hr, rfl⟩ := hread
    cases hr with
    | more hl hf hb =>
      obtain ⟨ms, hd⟩ := Tower.exists_drains hf
      exact ⟨_, .more hdrains hl hf hb hd⟩
    | ended hl hf =>
      obtain ⟨ms, hd⟩ := Tower.exists_drains hf
      exact ⟨_, .ended hdrains hl hf hd⟩
    | failed hl hf =>
      obtain ⟨ms, hd⟩ := Tower.exists_drains hf
      exact ⟨_, .failed hdrains hl hf hd⟩
    | released => exact ⟨ns, hdrains⟩

omit [Tower σ τ] in
theorem liveness_eq (s : TokenStream σ τ) : s.liveness = s.live :: Source.below s.source := rfl

theorem told_close {source : σ} (e : Ending) (he : e.IsLoss) (hc : Cascade (true :: Source.below source)) :
    Told (true :: Source.below source) [⟨0, e⟩] (false :: Source.below (Source.close source).1) := by
  have htold : Told (true :: Source.below source) [⟨0, e⟩] (fall (true :: Source.below source) 0) :=
    .single (by rw [he.final]; rfl)
  rwa [fall_zero, List.map_cons, ← Tower.below_close (List.pairwise_cons.mp hc).2] at htold

theorem Drains.told (h : s.Drains ns s') (hc : Cascade s.liveness) : Told s.liveness ns s'.liveness := by
  -- What is taken from the source below is told of the streams below, and only then the source itself may go.
  have drained {u : TokenStream σ τ} {ns ms : List Notice} {source : σ} (hl : u.live = true)
      (htold : Told s.liveness ns u.liveness) (hd : Tower.Drains u.source ms source) :
      Told s.liveness (ns ++ ms.map .under) (true :: Source.below source) := by
    have hcascade := htold.cascade hc
    rw [u.liveness_eq, hl] at hcascade htold
    exact htold.append ((Tower.told_of_drains (List.pairwise_cons.mp hcascade).2 hd).under true)
  induction h with
  | none => exact .nil _
  | more _ hl hf hb hd ih => exact drained hl ih hd
  | ended _ hl hf hd ih | failed _ hl hf hd ih =>
    have htold := drained hl ih hd
    rw [← List.append_assoc]
    exact htold.append (told_close _ trivial (htold.cascade hc))

theorem Drains.loss (h : s.Drains ns s') : ∀ n ∈ ns, n.ending.IsLoss := by
  have under {ms : List Notice} {source source' : σ} (hd : Tower.Drains source ms source') :
      ∀ n ∈ ms.map Notice.under, n.ending.IsLoss := by
    intro n hn
    obtain ⟨m, hm, rfl⟩ := List.mem_map.mp hn
    exact Tower.loss_of_drains hd m hm
  induction h with
  | none => exact nofun
  | more _ hl hf hb hd ih =>
    intro n hn
    rcases List.mem_append.mp hn with hn | hn
    · exact ih n hn
    · exact under hd n hn
  | ended _ hl hf hd ih | failed _ hl hf hd ih =>
    intro n hn
    rcases List.mem_append.mp hn with hn | hn
    · exact ih n hn
    · rcases List.mem_append.mp hn with hn | hn
      · exact under hd n hn
      · rw [List.mem_singleton.mp hn]
        trivial

omit [Tower σ τ] in
theorem answer_release (s : TokenStream σ τ) : s.release.2.1 = s.live := by
  unfold release
  cases s.live <;> rfl

theorem liveness_release (s : TokenStream σ τ) (hc : Cascade s.liveness) :
    s.release.1.liveness = s.liveness.map fun _ => false := by
  cases hl : s.live with
  | true =>
    rw [liveness_eq s, List.map_cons, ← Tower.below_close (List.pairwise_cons.mp hc).2]
    simp [release, hl, liveness]
  | false =>
    have hsame : s.release.1 = s := s.later_release.released hl
    rw [hsame, ← fall_zero, hc.fall_of_gone (by rw [liveness_eq, hl]; rfl)]

theorem told_release (s : TokenStream σ τ) (hc : Cascade s.liveness) :
    Told s.liveness [⟨0, .released s.release.2.1⟩] s.release.1.liveness := by
  rw [liveness_release s hc, ← fall_zero]
  apply Told.single
  rw [answer_release]
  rfl

/-- An operation on the stream itself, or on the one at level `k` below it. -/
inductive Operates (s : TokenStream σ τ) : Nat → Op → List Notice → TokenStream σ τ → Prop where
  | advance {π : Type} [Position π τ] {fuel : Nat} {c : Cursor τ π} {access : Access σ τ (Cursor τ π)}
      {ns : List Notice} (h : s.advance fuel c = some access) (hd : s.Drains ns access.stream) :
      Operates s 0 .advance ns access.stream
  | run {π ρ α : Type} [Position π τ] {fuel : Nat} {p : Parser τ π ρ α} {rules : Rules τ π ρ} {log : Array Event}
      {c : Cursor τ π} {finish : Machine.Finish σ τ π ρ α} {ns : List Notice}
      (h : p.run fuel ⟨s, rules, log⟩ c = some finish) (hd : s.Drains ns finish.store.stream) :
      Operates s 0 .run ns finish.store.stream
  | stage {π ρ α : Type} [Position π τ] {fuel : Nat} {p : Parser τ π ρ α} {rules : Rules τ π ρ} {log : Array Event}
      {c : Cursor τ π} {stage : Parser.Stage σ τ π ρ α} {ns : List Notice}
      (h : p.parseStage fuel ⟨s, rules, log⟩ c = some stage) (hd : s.Drains ns stage.store.stream) :
      Operates s 0 .stage ns stage.store.stream
  | parse {π ρ α : Type} [Position π τ] {fuel : Nat} {p : Parser τ π ρ α} {rules : Rules τ π ρ} {log : Array Event}
      {c : Cursor τ π} {mid finish : Machine.Finish σ τ π ρ α} {ns : List Notice}
      (h : p.parse fuel ⟨s, rules, log⟩ c = some finish) (hr : p.run fuel ⟨s, rules, log⟩ c = some mid)
      (hd : s.Drains ns mid.store.stream) :
      Operates s 0 .parse (ns ++ [⟨0, .released mid.store.stream.release.2.1⟩]) finish.store.stream
  | release : Operates s 0 .release [⟨0, .released s.release.2.1⟩] s.release.1
  | below {k : Nat} {op : Op} {ns : List Notice} {source : σ} (h : Tower.Works s.source k op ns source) :
      Operates s (k + 1) op (ns.map .under) { s with source }

omit [Tower σ τ] in
theorem stream_of_parse [Position π τ] {fuel : Nat} {p : Parser τ π ρ α} {store : Store σ τ π ρ} {c : Cursor τ π}
    {mid finish : Machine.Finish σ τ π ρ α} (h : p.parse fuel store c = some finish)
    (hr : p.run fuel store c = some mid) : finish.store.stream = mid.store.stream.release.1 := by
  simp only [Parser.parse, hr, Option.map_some, Option.some.injEq] at h
  rw [← h]
  rfl

theorem Operates.told (h : s.Operates k op ns s') (hc : Cascade s.liveness) : Told s.liveness ns s'.liveness := by
  cases h with
  | advance _ hd | run _ hd | stage _ hd => exact hd.told hc
  | parse h hr hd =>
    rw [stream_of_parse h hr]
    exact (hd.told hc).append (told_release _ ((hd.told hc).cascade hc))
  | release => exact told_release s hc
  | below h => exact (Tower.told_of_works (List.pairwise_cons.mp hc).2 h).under s.live

theorem Operates.gives (h : s.Operates k op ns s') : op.Gives k ns := by
  cases h with
  | advance _ hd | run _ hd | stage _ hd => exact fun n hn => ⟨hd.loss n hn, Nat.zero_le _⟩
  | parse h hr hd => exact ⟨_, _, rfl, fun n hn => ⟨hd.loss n hn, Nat.zero_le _⟩⟩
  | release => exact ⟨_, rfl⟩
  | below h =>
    have hgives := Tower.gives_of_works h
    have lowered {ms : List Notice} {k : Nat} (hms : ∀ n ∈ ms, n.ending.IsLoss ∧ k ≤ n.level) :
        ∀ n ∈ ms.map Notice.under, n.ending.IsLoss ∧ k + 1 ≤ n.level := by
      intro n hn
      obtain ⟨m, hm, rfl⟩ := List.mem_map.mp hn
      exact ⟨(hms m hm).1, Nat.succ_le_succ (hms m hm).2⟩
    cases op with
    | advance | run | stage => exact lowered hgives
    | parse =>
      obtain ⟨ms, was, rfl, hms⟩ := hgives
      exact ⟨ms.map .under, was, by rw [List.map_append]; rfl, lowered hms⟩
    | release =>
      obtain ⟨was, rfl⟩ := hgives
      exact ⟨was, rfl⟩

/-- Streams made and used in the ways that there are. -/
inductive Stands : TokenStream σ τ → Prop where
  | base {s : TokenStream σ τ} (h : Source.below s.source = []) : Stands s
  | opened {s : TokenStream σ τ} {fuel size : Nat} {source : σ} {events : Array Event} (hs : Tower.Standing source)
      (h : openSource fuel source size = some ⟨s, .ok (), events⟩) : Stands s
  | operated {s s' : TokenStream σ τ} {k : Nat} {op : Op} {ns : List Notice} (hs : Stands s)
      (h : s.Operates k op ns s') : Stands s'

theorem cascade_of_openSource {fuel size : Nat} {source : σ} {access : Access σ τ Unit} (hs : Tower.Standing source)
    (h : openSource fuel source size = some access) : Cascade access.stream.liveness := by
  have hunread : Cascade (unread source size : TokenStream σ τ).liveness :=
    .cons (fun _ _ _ => rfl) (Tower.cascade hs)
  obtain ⟨ns, hdrains⟩ := exists_drains_of_becomes (.single ⟨access, reading_of_readChunk h, rfl⟩)
  exact (hdrains.told hunread).cascade hunread

theorem Stands.cascade (h : s.Stands) : Cascade s.liveness := by
  induction h with
  | base h =>
    rw [liveness_eq, h]
    exact List.pairwise_singleton _ _
  | opened hs h => exact cascade_of_openSource hs h
  | operated _ h ih => exact (h.told ih).cascade ih

/-- Operations one after the other, and all that is told of them. -/
inductive Worked (s : TokenStream σ τ) : List Notice → TokenStream σ τ → Prop where
  | none : Worked s [] s
  | more {u s' : TokenStream σ τ} {ns ms : List Notice} {k : Nat} {op : Op} (h : Worked s ns u)
      (ho : u.Operates k op ms s') : Worked s (ns ++ ms) s'

theorem Worked.told (h : s.Worked ns s') (hs : s.Stands) : s'.Stands ∧ Told s.liveness ns s'.liveness := by
  induction h with
  | none => exact ⟨hs, .nil _⟩
  | more _ ho ih => exact ⟨.operated ih.1 ho, ih.2.append (ho.told ih.1.cascade)⟩

omit [Tower σ τ] in
theorem gone_of_cascade (hc : Cascade s.liveness) (hl : s.live = false) : ∀ live ∈ s.liveness, live = false := by
  rw [liveness_eq, hl] at hc ⊢
  intro live hmem
  rcases List.mem_cons.mp hmem with rfl | hmem
  · rfl
  · cases live with
    | false => rfl
    | true => exact absurd ((List.pairwise_cons.mp hc).1 true hmem rfl) nofun

theorem gone_of_parse (hs : s.Stands) (h : s.Operates 0 .parse ns s') : ∀ live ∈ s'.liveness, live = false := by
  apply gone_of_cascade ((h.told hs.cascade).cascade hs.cascade)
  cases h with
  | parse h hr hd =>
    rw [stream_of_parse h hr]
    exact live_release _

/-- Every operation on the stream itself is one whose notices are known. -/
structure Noticed (s : TokenStream σ τ) : Prop where
  advance : ∀ {π : Type} [Position π τ] {fuel : Nat} {c : Cursor τ π} {access : Access σ τ (Cursor τ π)},
    s.advance fuel c = some access → ∃ ns, s.Operates 0 .advance ns access.stream
  run : ∀ {π ρ α : Type} [Position π τ] {fuel : Nat} {p : Parser τ π ρ α} {rules : Rules τ π ρ} {log : Array Event}
    {c : Cursor τ π} {finish : Machine.Finish σ τ π ρ α}, p.run fuel ⟨s, rules, log⟩ c = some finish →
      ∃ ns, s.Operates 0 .run ns finish.store.stream
  stage : ∀ {π ρ α : Type} [Position π τ] {fuel : Nat} {p : Parser τ π ρ α} {rules : Rules τ π ρ} {log : Array Event}
    {c : Cursor τ π} {stage : Parser.Stage σ τ π ρ α}, p.parseStage fuel ⟨s, rules, log⟩ c = some stage →
      ∃ ns, s.Operates 0 .stage ns stage.store.stream
  parse : ∀ {π ρ α : Type} [Position π τ] {fuel : Nat} {p : Parser τ π ρ α} {rules : Rules τ π ρ} {log : Array Event}
    {c : Cursor τ π} {finish : Machine.Finish σ τ π ρ α}, p.parse fuel ⟨s, rules, log⟩ c = some finish →
      ∃ ns, s.Operates 0 .parse ns finish.store.stream

theorem exists_drains_of_run {π ρ α : Type} [Position π τ] {fuel : Nat} {p : Parser τ π ρ α} {rules : Rules τ π ρ}
    {log : Array Event} {c : Cursor τ π} {finish : Machine.Finish σ τ π ρ α}
    (h : p.run fuel ⟨s, rules, log⟩ c = some finish) : ∃ ns, s.Drains ns finish.store.stream :=
  exists_drains_of_becomes (Machine.becomes_of_run h)

theorem noticed (s : TokenStream σ τ) : s.Noticed where
  advance h := by
    obtain ⟨ns, hd⟩ := exists_drains_of_becomes (Becomes.advancing .refl (advancing_of_advance h))
    exact ⟨ns, .advance h hd⟩
  run h := by
    obtain ⟨ns, hd⟩ := exists_drains_of_run h
    exact ⟨ns, .run h hd⟩
  stage h := by
    obtain ⟨finish, hr, heq⟩ := Option.map_eq_some_iff.mp h
    obtain ⟨ns, hd⟩ := exists_drains_of_run hr
    rw [← heq] at h ⊢
    exact ⟨ns, .stage h hd⟩
  parse h := by
    obtain ⟨mid, hr, -⟩ := Option.map_eq_some_iff.mp h
    obtain ⟨ns, hd⟩ := exists_drains_of_run hr
    exact ⟨_, .parse h hr hd⟩

end TokenStream

section

variable [Position π τ] [Described τ] [Described π]

theorem Tokenizer.becomes_of_next {fuel count : Nat} {t : Tokenizer σ τ π ρ ω} {buffer : Array ω}
    {events : Array Event} {fill : Fill (Tokenizer σ τ π ρ ω) ω} (h : t.next fuel buffer events count = some fill) :
    t.stream.Becomes fill.source.stream := by
  have lexed {t : Tokenizer σ τ π ρ ω} {lexing : Tokenizer.Lexing σ τ π ρ ω} (hl : t.lex fuel = some lexing) :
      t.stream.Becomes lexing.tokenizer.stream := by
    obtain ⟨⟨⟨stream, rules, log⟩, result⟩, hr, heq⟩ := Option.map_eq_some_iff.mp hl
    have hbecomes : t.stream.Becomes stream := Machine.becomes_of_run hr
    rw [← heq]
    cases hv : Tokenizer.verdict t.cursor result with
    | error e | ok found => simpa only [hv] using hbecomes
  induction count generalizing t buffer events with
  | zero =>
    cases h
    exact .refl
  | succ count ih =>
    rw [next_succ] at h
    split at h
    · rcases hl : t.lex fuel with _ | ⟨t', e | value, more⟩
      · simp [hl] at h
      · simp only [hl] at h
        cases h
        exact lexed hl
      · simp only [hl] at h
        exact (lexed hl).trans (ih h)
    · cases h
      exact .refl

/-- A tokenizer puts one more level on the streams below. -/
instance [Tower σ τ] : Tower (Tokenizer σ τ π ρ ω) ω where
  Standing t := t.stream.Stands
  Drains t ns t' := t.stream.Drains ns t'.stream
  Works t k op ns t' := ∃ stream, t.stream.Operates k op ns stream ∧ t' = { t with stream }
  cascade hs := hs.cascade
  exists_drains h := TokenStream.exists_drains_of_becomes (Tokenizer.becomes_of_next h)
  told_of_drains hc hd := hd.told hc
  loss_of_drains hd := hd.loss
  told_of_works := by
    rintro t _ k op ns hc ⟨stream, ho, rfl⟩
    exact ho.told hc
  gives_of_works := by
    rintro t _ k op ns ⟨stream, ho, rfl⟩
    exact ho.gives
  below_close := by
    intro t hc
    exact t.stream.liveness_release hc

theorem TokenStream.stands_of_tokenize [Tower σ τ] {s : TokenStream σ τ} (hs : s.Stands) {lexer : Parser τ π ρ ω}
    {fuel size : Nat} {rules : Rules τ π ρ} {c : Cursor τ π} {access : Access (Tokenizer σ τ π ρ ω) ω Unit}
    (h : lexer.tokenize fuel s rules c size = some access) :
    (access.result = .ok () → access.stream.Stands) ∧
      ∀ e, access.result = .error e → ∀ live ∈ access.stream.liveness, live = false := by
  refine ⟨?_, ?_⟩
  · intro hok
    obtain ⟨tokens, result, events⟩ := access
    obtain rfl : result = .ok () := hok
    exact .opened hs h
  · intro e he
    apply gone_of_cascade (cascade_of_openSource hs h)
    obtain ⟨tokens, result, events⟩ := access
    obtain rfl : result = .error e := he
    have hopen : openSource fuel (⟨s, rules, c, lexer⟩ : Tokenizer σ τ π ρ ω) size =
      some ⟨tokens, .error e, events⟩ := h
    exact (reading_of_readChunk hopen).layout_of_error.2

/-- The token stream of a pipeline's run: it could not be made, or the grammar was run over it. -/
inductive Pipeline.Made {κ : Type} (p : Pipeline τ π ρ ω κ α) (fuel : Nat) (s : TokenStream σ τ) (c : Cursor τ π) :
    TokenStream (Tokenizer σ τ π ρ ω) ω → Prop where
  | failed {tokens : TokenStream (Tokenizer σ τ π ρ ω) ω} {e : ReadError} {events : Array Event}
      (h : p.lexer.tokenize fuel s p.lexerRules c p.chunkSize = some ⟨tokens, .error e, events⟩) : Made p fuel s c tokens
  | parsed {first : TokenStream (Tokenizer σ τ π ρ ω) ω} {events : Array Event}
      {finish : Machine.Finish (Tokenizer σ τ π ρ ω) ω LinearPosition κ α}
      (h : p.lexer.tokenize fuel s p.lexerRules c p.chunkSize = some ⟨first, .ok (), events⟩)
      (hp : p.grammar.parse fuel ⟨first, p.grammarRules, events⟩ first.start = some finish) :
      Made p fuel s c finish.store.stream

theorem Pipeline.exists_made {κ : Type} {p : Pipeline τ π ρ ω κ α} {fuel : Nat} {s : TokenStream σ τ} {c : Cursor τ π}
    {outcome : Pipeline.Outcome σ τ ω α} (h : p.run fuel s c = some outcome) :
    ∃ tokens, p.Made fuel s c tokens ∧ tokens.source.stream = outcome.stream := by
  rw [Pipeline.run] at h
  split at h
  · cases h
  · rename_i tokens e events ht
    cases h
    exact ⟨tokens, .failed ht, rfl⟩
  · rename_i first _ events ht
    cases hp : p.grammar.parse fuel ⟨first, p.grammarRules, events⟩ first.start with
    | none => simp [hp] at h
    | some finish =>
      simp only [hp] at h
      cases h
      exact ⟨_, .parsed ht hp, rfl⟩

theorem Pipeline.Made.gone [Tower σ τ] {κ : Type} {p : Pipeline τ π ρ ω κ α} {fuel : Nat} {s : TokenStream σ τ}
    {c : Cursor τ π} {tokens : TokenStream (Tokenizer σ τ π ρ ω) ω} (hs : s.Stands) (h : p.Made fuel s c tokens) :
    ∀ live ∈ tokens.liveness, live = false := by
  cases h with
  | failed h => exact (TokenStream.stands_of_tokenize hs h).2 _ rfl
  | parsed h hp =>
    have hfirst := (TokenStream.stands_of_tokenize hs h).1 rfl
    obtain ⟨ns, ho⟩ := (TokenStream.noticed _).parse hp
    exact TokenStream.gone_of_parse hfirst ho

/-- Sources are let go once and in cascade. In a tower made and used in whatever way, every source is gone for good once
it is gone, its end is told at most once, and with it go the sources below. A run ends no source but by the exhaustion
or the failure of that source or of one above; after a parse, and after a pipeline's run, all are gone. -/
theorem TokenStream.sources_released_once [Tower σ τ] {s : TokenStream σ τ} (hs : s.Stands) :
    (Cascade s.liveness ∧ s.Noticed) ∧
    (∀ ns s', s.Worked ns s' → s'.Stands ∧ s'.liveness.length = s.liveness.length ∧
      (∀ i, s.liveness[i]? = some false → s'.liveness[i]? = some false ∧
        ∀ n ∈ ns, n.level = i → n.ending.final = false) ∧
      ns.Pairwise fun n m => n.level = m.level → n.ending.final = true → m.ending.final = false) ∧
    (∀ k op ns s', s.Operates k op ns s' → op.Gives k ns ∧
      ∀ i, s.liveness[i]? = some true → s'.liveness[i]? = some false →
        ∃ n ∈ ns, n.level ≤ i ∧ n.ending.final = true) ∧
    (∀ ns s', s.Operates 0 .parse ns s' → ∀ live ∈ s'.liveness, live = false) ∧
    (∀ (lexer : Parser τ π ρ ω) fuel rules c size access, lexer.tokenize fuel s rules c size = some access →
      (access.result = .ok () → access.stream.Stands) ∧
        ∀ e, access.result = .error e → ∀ live ∈ access.stream.liveness, live = false) ∧
    ∀ (κ : Type) (p : Pipeline τ π ρ ω κ α) fuel c outcome, p.run fuel s c = some outcome →
      ∃ tokens, p.Made fuel s c tokens ∧ tokens.source.stream = outcome.stream ∧
        ∀ live ∈ tokens.liveness, live = false := by
  refine ⟨⟨hs.cascade, s.noticed⟩, ?_, ?_, fun ns s' h => gone_of_parse hs h, ?_, ?_⟩
  · intro ns s' h
    obtain ⟨hstands, htold⟩ := h.told hs
    exact ⟨hstands, htold.length_eq, fun i hi => ⟨htold.gone hi, fun n hn hl => htold.futile hi hn hl⟩, htold.once⟩
  · intro k op ns s' h
    exact ⟨h.gives, fun i hi hi' => (h.told hs.cascade).explained hs.cascade hi hi'⟩
  · intro lexer fuel rules c size access h
    exact stands_of_tokenize hs h
  · intro κ p fuel c outcome h
    obtain ⟨tokens, hmade, heq⟩ := Pipeline.exists_made h
    exact ⟨tokens, hmade, heq, hmade.gone hs⟩

end

/-- A lexer at work on items that come one by one: a parse that looks at the first sum lets both sources go. -/
theorem TokenStream.sources_released_once_sums :
    let t := Tokenizer.sums 1 [2, 3, 4]
    let first : Parser Int LinearPosition Unit Int := .any
    ∃ tokens events finish, t.lexer.tokenize 10 t.stream t.rules t.cursor 1 = some ⟨tokens, .ok (), events⟩ ∧
      tokens.liveness = [true, true] ∧ first.parse 20 ⟨tokens, .empty, #[]⟩ tokens.start = some finish ∧
      ∀ live ∈ finish.store.stream.liveness, live = false := by
  intro t first
  obtain ⟨tokens, events, finish, ht, hlive, hparse⟩ : ∃ tokens events finish,
      t.lexer.tokenize 10 t.stream t.rules t.cursor 1 = some ⟨tokens, .ok (), events⟩ ∧
        tokens.liveness = [true, true] ∧ first.parse 20 ⟨tokens, .empty, #[]⟩ tokens.start = some finish :=
    ⟨_, _, _, rfl, rfl, rfl⟩
  refine ⟨tokens, events, finish, ht, hlive, hparse, ?_⟩
  have hbase : t.stream.Stands := .base rfl
  have htokens : tokens.Stands := .opened hbase ht
  obtain ⟨⟨-, hnoticed⟩, -, -, hgone, -⟩ :=
    sources_released_once (π := LinearPosition) (ρ := Unit) (ω := Int) (α := Int) htokens
  obtain ⟨ns, ho⟩ := hnoticed.parse hparse
  exact hgone ns _ ho

end StreamParsing
