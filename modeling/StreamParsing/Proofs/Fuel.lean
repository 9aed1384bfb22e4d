import StreamParsing.Stream.Reader
import StreamParsing.Tokens

/-!
Fuel only bounds the work on a read or a run: an answer that some amount of fuel gives is also the answer of
every larger amount. Sources that keep this law are called lawful; all sources of this library are.
-/

namespace StreamParsing

set_option autoImplicit false

universe u

class LawfulSource (σ : Type u) (τ : outParam Type) [Source σ τ] : Prop where
  fill_of_le : ∀ {fuel fuel' : Nat} {source : σ} {buffer : Array τ} {max : Nat} {fill : Fill σ τ},
    fuel ≤ fuel' → Source.fill fuel source buffer max = some fill →
      Source.fill fuel' source buffer max = some fill

instance {τ : Type} : LawfulSource (NoSource τ) τ := ⟨fun _ h => h⟩

instance {τ : Type} : LawfulSource (Items τ) τ := ⟨fun _ h => h⟩

instance {τ : Type} : LawfulSource (Batches τ) τ := ⟨fun _ h => h⟩

instance : LawfulSource ByteFeed UInt8 := ⟨fun _ h => h⟩

instance : LawfulSource TextFeed Char := ⟨fun _ h => h⟩

namespace TokenStream

variable {σ : Type u} {τ π : Type} [Source σ τ] [LawfulSource σ τ] {fuel fuel' : Nat}
variable {s : TokenStream σ τ}

theorem readChunk_of_le {access : Access σ τ Unit} (h : fuel ≤ fuel')
    (hr : s.readChunk fuel = some access) : s.readChunk fuel' = some access := by
  obtain ⟨chunks, source, live, chunkSize, chunksRead⟩ := s
  cases live with
  | false => exact hr
  | true =>
    cases hf : Source.fill fuel source #[] chunkSize with
    | none => simp [readChunk, hf] at hr
    | some fill =>
      have hf' := LawfulSource.fill_of_le h hf
      simp only [readChunk, hf] at hr
      simp only [readChunk, hf']
      exact hr

theorem advance_of_le [Position π τ] {c : Cursor τ π} {access : Access σ τ (Cursor τ π)}
    (h : fuel ≤ fuel') (ha : s.advance fuel c = some access) : s.advance fuel' c = some access := by
  cases hr : s.readChunk fuel with
  | some read =>
    have hr' := readChunk_of_le h hr
    simp only [advance, hr] at ha
    simp only [advance, hr']
    exact ha
  | none =>
    -- Without a chunk only the moves inside the buffer are left, and those take no fuel.
    simp only [advance, hr] at ha
    unfold advance
    split at ha
    · exact ha
    · split at ha
      · exact ha
      · split at ha
        · rename_i hc
          simpa [hc] using ha
        · simp at ha

end TokenStream

theorem Store.access_of_le {σ : Type u} {τ π ρ : Type} [Source σ τ] [LawfulSource σ τ] [Position π τ]
    {fuel fuel' : Nat} {store : Store σ τ π ρ} {c : Cursor τ π}
    {found : Store σ τ π ρ × Except ReadError (Cursor τ π)} (h : fuel ≤ fuel')
    (ha : store.access (·.advance fuel c) = some found) :
    store.access (·.advance fuel' c) = some found := by
  simp only [access, Option.map_eq_some_iff] at ha ⊢
  obtain ⟨access, hac, rfl⟩ := ha
  exact ⟨access, TokenStream.advance_of_le h hac, rfl⟩

namespace Machine

section

variable {σ : Type u} {τ π ρ ω : Type} [Source σ τ] [Position π τ] {upkeep : Upkeep τ π ρ ω} {fuel : Nat}
variable {store store' : Store σ τ π ρ} {test : τ → Bool} {c : Cursor τ π} {k : Stack τ π ρ τ ω} {t : τ}

/-- A token that is missing or does not pass the test is refused without a read. -/
theorem step_satisfy_refused (hc : c.current.filter test = none) :
    step upkeep fuel store (.eval (.satisfy test) c k) =
      .next store (.back (.failure (.unexpected c)) k) := by
  cases hcur : c.current with
  | none => simp [step, evaluate, hcur]
  | some t =>
    have ht : test t = false := by simpa [hcur, Option.filter] using hc
    simp [step, evaluate, hcur, ht]

theorem step_satisfy_taken (hc : c.current.filter test = some t) :
    step upkeep fuel store (.eval (.satisfy test) c k) =
      match store.access (·.advance fuel c) with
      | none => .starved
      | some (store', .ok next) => .next store' (.back (.success t next) k)
      | some (store', .error e) => .broken store' e := by
  obtain ⟨hcur, ht⟩ := Option.filter_eq_some_iff.mp hc
  simp only [step, evaluate, hcur, ht, if_true, Store.access]
  rcases store.stream.advance fuel c with _ | ⟨stream, _ | next, events⟩ <;> rfl

end

variable {σ : Type u} {τ π ρ ω : Type} [Source σ τ] [LawfulSource σ τ] [Position π τ] {fuel fuel' : Nat}
variable {upkeep : Upkeep τ π ρ ω} {store : Store σ τ π ρ} {control : Control τ π ρ ω} {progress : Progress σ τ π ρ ω}

theorem step_of_le (h : fuel ≤ fuel') (hs : step upkeep fuel store control = progress)
    (hp : progress ≠ .starved) : step upkeep fuel' store control = progress := by
  cases control with
  | back reply k => cases k <;> exact hs
  | eval parser c k =>
    cases parser with
    | satisfy test =>
      cases hc : c.current.filter test with
      | none =>
        rw [step_satisfy_refused hc] at hs ⊢
        exact hs
      | some t =>
        rw [step_satisfy_taken hc] at hs ⊢
        cases ha : store.access (·.advance fuel c) with
        | none =>
          simp only [ha] at hs
          exact absurd hs.symm hp
        | some found =>
          simp only [ha] at hs
          simp only [Store.access_of_le h ha]
          exact hs
    | _ => exact hs

theorem run_of_le {finish : Finish σ τ π ρ ω} (h : fuel ≤ fuel')
    (hr : run upkeep fuel store control = some finish) : run upkeep fuel' store control = some finish := by
  induction fuel generalizing fuel' store control with
  | zero => simp [run] at hr
  | succ fuel ih =>
    obtain ⟨fuel', rfl⟩ : ∃ n, fuel' = n + 1 := ⟨fuel' - 1, by omega⟩
    have hle : fuel ≤ fuel' := by omega
    rw [run] at hr
    rw [run]
    cases hs : step upkeep fuel store control with
    | starved => simp [hs] at hr
    | next store' control' =>
      rw [step_of_le hle hs (by simp)]
      simp only [hs] at hr
      exact ih hle hr
    | done store' reply =>
      rw [step_of_le hle hs (by simp)]
      simpa [hs] using hr
    | broken store' error =>
      rw [step_of_le hle hs (by simp)]
      simpa [hs] using hr

theorem run_unique {finish finish' : Finish σ τ π ρ ω} (h : run upkeep fuel store control = some finish)
    (h' : run upkeep fuel' store control = some finish') : finish = finish' := by
  have hmax := run_of_le (Nat.le_max_left fuel fuel') h
  have hmax' := run_of_le (Nat.le_max_right fuel fuel') h'
  exact Option.some.inj (hmax.symm.trans hmax')

end Machine

namespace Tokenizer

variable {σ : Type u} {τ π ρ ω : Type}
variable [Source σ τ] [LawfulSource σ τ] [Position π τ] [Described τ] [Described π]

theorem next_of_le {fuel fuel' count : Nat} {t : Tokenizer σ τ π ρ ω} {buffer : Array ω}
    {events : Array Event} {fill : Fill (Tokenizer σ τ π ρ ω) ω} (h : fuel ≤ fuel')
    (hn : t.next fuel buffer events count = some fill) : t.next fuel' buffer events count = some fill := by
  induction count generalizing t buffer events with
  | zero => exact hn
  | succ count ih =>
    obtain ⟨stream, rules, cursor, lexer⟩ := t
    cases hc : cursor.hasToken with
    | false => simpa [next, hc] using hn
    | true =>
      cases hr : lexer.run fuel ⟨stream, rules, events⟩ cursor with
      | none => simp [next, hc, hr] at hn
      | some finish =>
        have hr' : lexer.run fuel' ⟨stream, rules, events⟩ cursor = some finish := Machine.run_of_le h hr
        simp only [next, hc, if_true, hr] at hn
        simp only [next, hc, if_true, hr']
        obtain ⟨⟨stream', rules', events'⟩, result⟩ := finish
        cases result with
        | error e => exact hn
        | ok reply =>
          cases reply with
          | failure fault => exact hn
          | abort fault => exact hn
          | success value after =>
            -- Only a run that made progress goes on to the next token.
            cases hp : after.same cursor with
            | true => simpa [hp] using hn
            | false =>
              simp only [hp] at hn ⊢
              exact ih hn

end Tokenizer

instance {σ : Type u} {τ π ρ ω : Type} [Source σ τ] [LawfulSource σ τ] [Position π τ] [Described τ]
    [Described π] : LawfulSource (Tokenizer σ τ π ρ ω) ω := ⟨fun h hn => Tokenizer.next_of_le h hn⟩

end StreamParsing
