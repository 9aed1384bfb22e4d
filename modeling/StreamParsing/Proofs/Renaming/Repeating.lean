import StreamParsing.Proofs.Machine.Again
import StreamParsing.Proofs.Machine.Growth
import StreamParsing.Proofs.Renaming.Simulation

/-!
A parser is a function of the place where it is run. Once it has replied there, it gives the same reply at that place
over all that stream and table become, if it does not depend on the numbers of rules; nor does it matter then which of
the retained rules are held besides.
-/

namespace StreamParsing

set_option autoImplicit false

universe u

variable {σ : Type u} {τ π ρ α : Type}

/-- Lists that hold the same rules, those aside that are retained in a uniform table. -/
structure Rules.HoldAlike (rules : Rules τ π ρ) (held held' : List Nat) : Prop where
  uniform : rules.Uniform
  mem_iff : ∀ n, rules.isRetained n = false → (n ∈ held ↔ n ∈ held')

namespace Rules.HoldAlike

variable {rules : Rules τ π ρ} {held held' : List Nat} {n : Nat}

theorem swap (h : rules.HoldAlike held held') : rules.HoldAlike held' held :=
  ⟨h.uniform, fun n hn => (h.mem_iff n hn).symm⟩

theorem lasts (held held' : List Nat) : Rules.Lasts fun rules : Rules τ π ρ => rules.HoldAlike held held' where
  force h hf := by
    refine ⟨h.uniform.force hf, fun n hn => h.mem_iff n ?_⟩
    rw [Bool.eq_false_iff] at hn ⊢
    exact fun hretained => hn (isRetained_force hretained hf)
  append new h := by
    refine ⟨h.uniform.append new, fun n hn => h.mem_iff n ?_⟩
    rw [Bool.eq_false_iff] at hn ⊢
    exact fun hretained => hn (isRetained_append hretained new false)

theorem own (h : rules.HoldAlike held held') (own : List Nat) : rules.HoldAlike (own ++ held) (own ++ held') := by
  refine ⟨h.uniform, fun n hn => ?_⟩
  rw [List.mem_append, List.mem_append, h.mem_iff n hn]

/-- What a retained rule holds is retained, so a rule that is not is held by one that is not. -/
theorem isHeld (h : rules.HoldAlike held held') (hn : rules.isRetained n = false) (hheld : rules.isHeld held n = true) :
    rules.isHeld held' n = true := by
  rw [isHeld_iff] at hheld ⊢
  obtain ⟨m, hm, hpath⟩ := hheld
  refine ⟨m, (h.mem_iff m ?_).mp hm, hpath⟩
  rw [Bool.eq_false_iff] at hn ⊢
  exact fun hretained => hn (h.uniform.isRetained_of_path hretained hpath)

theorem counted_eq (h : rules.HoldAlike held held') (n : Nat) :
    Liveness.counted rules held n = Liveness.counted rules held' n := by
  cases hn : rules.isRetained n with
  | true => simp only [Liveness.counted, hn, Bool.true_or]
  | false =>
    simp only [Liveness.counted, hn, Bool.false_or]
    rw [Bool.eq_iff_iff]
    exact ⟨h.isHeld hn, h.swap.isHeld hn⟩

end Rules.HoldAlike

theorem Parser.Twin.isRetained {rules : Rules τ π ρ} {p : Parser τ π ρ α} (h : Parser.Twin rules.pairing true p p) {n : Nat}
    (hn : n ∈ p.holds) : rules.isRetained n = true := by
  rcases h.holding.left n hn with ⟨_, hk⟩ | ⟨_, _, hl⟩
  · exact hk.2
  · exact hl.elim

variable [Source σ τ] [Position π τ]

theorem Evaluates.of_holdAlike {held held' : List Nat} {store store' : Store σ τ π ρ} {job : Job τ π ρ α}
    {result : Outcome τ π α} (h : Evaluates .counted held store job store' result)
    (hheld : store.rules.HoldAlike held held') : Evaluates .counted held' store job store' result :=
  h.of_held Rules.HoldAlike.lasts (fun own h => h.own own) Rules.HoldAlike.counted_eq hheld

theorem Evaluates.grows {alive : Liveness τ π ρ} {held : List Nat} {store store' : Store σ τ π ρ} {job : Job τ π ρ α}
    {result : Outcome τ π α} (h : Evaluates alive held store job store' result) : store.rules.Grows store'.rules :=
  h.lasts ⟨fun h hf => .built h hf, fun new h => .added new h⟩ .refl

/-- A store in which regular parsers may be run at the cursor, and the table is uniform. -/
structure Store.Regular (first : TokenStream σ τ) (store : Store σ τ π ρ) (c : Cursor τ π) : Prop where
  ready : store.Ready first c
  uniform : store.rules.Uniform

/-- The hooks of the parser go forward; it names retained rules only and does not depend on their numbers. -/
structure Parser.Regular (first : TokenStream σ τ) (rules : Rules τ π ρ) (p : Parser τ π ρ α) : Prop where
  hooked : p.Hooked (Hook.Forward first)
  twin : Parser.Twin rules.pairing true p p

namespace Parser.Regular

variable {first : TokenStream σ τ} {rules later : Rules τ π ρ} {p : Parser τ π ρ α}

theorem grows (h : p.Regular first rules) (hg : rules.Grows later) : p.Regular first later :=
  ⟨h.hooked, h.twin.mono (Rules.pairing_le fun _ hn => Rules.isRetained_grows hn hg)⟩

theorem isRetained (h : p.Regular first rules) {n : Nat} (hn : n ∈ p.holds) : rules.isRetained n = true :=
  h.twin.isRetained hn

end Parser.Regular

variable {first : TokenStream σ τ} {store store' : Store σ τ π ρ} {c : Cursor τ π} {p : Parser τ π ρ α}

theorem Evaluates.repeated {reply : Reply τ π α} (h : Evaluates .counted [] store (.run p c) store' (.ok reply))
    (hs : store.Regular first c) (hp : p.Regular first store.rules) {later : Store σ τ π ρ}
    (hstream : store'.stream.Later later.stream) (hrules : store.rules.Grows later.rules) :
    ∃ later', Evaluates .counted [] later (.run p c) later' (.ok reply) := by
  obtain ⟨log', hagain⟩ := h.again hs.ready hp.hooked hstream later.log
  obtain ⟨_, rules', -, -, heval⟩ := hagain.follows (.run c hp.twin) .nil (hs.uniform.between_grows .refl hrules)
  exact ⟨_, heval⟩

namespace Parser

variable [LawfulSource σ τ] {reply : Reply τ π α} {result result' : Outcome τ π α}

theorem ends_iff_held (hr : store.rules.Uniform) {held : List Nat} (hheld : ∀ n ∈ held, store.rules.isRetained n = true) :
    p.ends store c store' result ↔ Evaluates .counted held store (.run p c) store' result := by
  have halike : store.rules.HoldAlike [] held := by
    refine ⟨hr, fun n hn => ⟨nofun, fun hmem => ?_⟩⟩
    rw [hheld n hmem] at hn
    cases hn
  rw [ends_iff_counted]
  exact ⟨fun h => h.of_holdAlike halike, fun h => h.of_holdAlike halike.swap⟩

theorem ends_unique {store₁ store₂ : Store σ τ π ρ} (h : p.ends store c store₁ result) (h' : p.ends store c store₂ result') :
    store₁ = store₂ ∧ result = result' := by
  obtain ⟨fuel, h⟩ := h
  obtain ⟨fuel', h'⟩ := h'
  cases Machine.run_unique h h'
  exact ⟨rfl, rfl⟩

/-- Where a parser has replied once, it always gives that reply. -/
theorem reply_of_ends (h : p.ends store c store' (.ok reply)) (hs : store.Regular first c)
    (hp : p.Regular first store.rules) {later later' : Store σ τ π ρ} (hstream : store'.stream.Later later.stream)
    (hrules : store.rules.Grows later.rules) (h' : p.ends later c later' result) : result = .ok reply := by
  obtain ⟨_, hagain⟩ := (ends_iff_counted.mp h).repeated hs hp hstream hrules
  exact (ends_unique h' (ends_iff_counted.mpr hagain)).2

/-- What is left when the parser has replied: a store in which to go on, or to try something else. -/
theorem regular_of_ends (h : p.ends store c store' (.ok reply)) (hs : store.Regular first c)
    (hp : p.Regular first store.rules) : store'.Regular first c ∧ store'.Regular first reply.cursor ∧
      store.stream.Later store'.stream ∧ store.rules.Grows store'.rules := by
  have heval := ends_iff_counted.mp h
  have huniform := hs.uniform.grows heval.grows
  exact ⟨⟨heval.retried hs.ready hp.hooked, huniform⟩, ⟨heval.continued hs.ready hp.hooked, huniform⟩,
    (heval.forward hs.ready hp.hooked).later, heval.grows⟩

end Parser

end StreamParsing
