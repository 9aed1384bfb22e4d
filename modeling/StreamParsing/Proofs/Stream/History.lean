import StreamParsing.Proofs.Stream.Session

/-!
Histories: what becomes of a stream from its beginning on, by uses and by letting its source go at any moment. A parse
is a run followed by such a release. Letting the source go takes nothing away, so all cursors keep their places.
-/

namespace StreamParsing

set_option autoImplicit false

universe u

variable {σ : Type u} {τ π : Type} [Source σ τ]

namespace TokenStream

inductive Initial (first : TokenStream σ τ) : Prop where
  | opened {fuel size : Nat} {source : σ} {events : Array Event}
      (h : openSource fuel source size = some ⟨first, .ok (), events⟩)
  /-- The tokens are all there. -/
  | whole {tokens : Array τ} (hc : first.chunks = (ofArray tokens).chunks) (hl : first.live = false)

variable {s : TokenStream σ τ}

theorem chunks_release (s : TokenStream σ τ) : s.release.1.chunks = s.chunks := by
  unfold release
  split <;> rfl

theorem layout_release (s : TokenStream σ τ) : s.release.1.layout = s.layout := by
  rw [layout, chunks_release, layout]

theorem live_release (s : TokenStream σ τ) : s.release.1.live = false := by
  unfold release
  split
  · rfl
  · simpa using ‹¬ s.live = true›

theorem later_release (s : TokenStream σ τ) : s.Later s.release.1 := by
  refine ⟨s.layout_release ▸ List.prefix_rfl, ?_⟩
  intro hl
  simp [release, hl]

theorem Tidy.release (h : s.Tidy) : s.release.1.Tidy := by
  intro k hk
  rw [s.layout_release] at hk
  refine ⟨?_, s.live_release⟩
  rw [s.chunks_release]
  exact (h k hk).1

theorem layout_ofArray (tokens : Array τ) :
    (ofArray tokens).layout = if tokens.isEmpty then [[]] else [tokens.toList, []] := by
  unfold ofArray layout
  split <;> simp

theorem Initial.tidy {first : TokenStream σ τ} (h : first.Initial) : first.Tidy ∧ 0 < first.chunks.size := by
  cases h with
  | opened h =>
    obtain ⟨htidy, hsize⟩ := Session.tidy_of_openSource h
    exact ⟨htidy, by omega⟩
  | @whole tokens hc hl =>
    have hlayout : first.layout = (ofArray tokens).layout := by simp only [layout, hc]
    rw [layout_ofArray] at hlayout
    by_cases he : tokens.isEmpty
    · rw [if_pos he] at hlayout
      have hsize : first.chunks.size = 1 := by rw [← length_layout, hlayout]; rfl
      refine ⟨?_, by omega⟩
      intro k hk
      have hlt := (List.getElem?_eq_some_iff.mp hk).1
      rw [length_layout] at hlt
      exact ⟨by omega, hl⟩
    · rw [if_neg he] at hlayout
      have hsize : first.chunks.size = 2 := by rw [← length_layout, hlayout]; rfl
      refine ⟨?_, by omega⟩
      intro k hk
      rw [hlayout] at hk
      obtain _ | _ | k := k
      · simp_all
      · exact ⟨by omega, hl⟩
      · simp at hk

end TokenStream

namespace Session

variable [Position π τ]

inductive Deed : Session σ τ π → Session σ τ π → Prop where
  | use {a b : Session σ τ π} (h : Use a b) : Deed a b
  | release {s : TokenStream σ τ} {cs : List (Cursor τ π)} : Deed ⟨s, cs⟩ ⟨s.release.1, cs⟩

/-- The session is what some deeds make of a stream whose first cursor is its start. -/
def History (first : TokenStream σ τ) (a : Session σ τ π) : Prop :=
  Relation.ReflTransGen Deed ⟨first, [first.start]⟩ a

variable {a b : Session σ τ π} {first : TokenStream σ τ}

theorem Deed.later (h : Deed a b) : a.stream.Later b.stream := by
  cases h with
  | use h => exact later_of_moves (moves_of_use h)
  | release => exact TokenStream.later_release _

theorem later_of_deeds (h : Relation.ReflTransGen Deed a b) : a.stream.Later b.stream := by
  induction h with
  | refl => exact .refl _
  | tail _ hd ih => exact ih.trans hd.later

theorem Sound.deed (h : Sound a) (hd : Deed a b) : Sound b := by
  cases hd with
  | use hu => exact h.moves (moves_of_use hu)
  | @release s cs =>
    refine ⟨h.tidy.release, ?_⟩
    intro c hc
    exact (h.placed c hc).extend s.later_release.grows

theorem History.sound (hf : first.Initial) (h : History first a) : Sound a := by
  induction h with
  | refl => exact sound_start hf.tidy.1 hf.tidy.2
  | tail _ hd ih => exact ih.deed hd

end Session

end StreamParsing
