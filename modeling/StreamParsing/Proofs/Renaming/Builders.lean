import StreamParsing.Proofs.Renaming.Tables

/-!
Builders that make twins. What they add to the rules made before does not depend on how these are numbered, so two of
them may go on from different tables. Every way to build a rule keeps this, and the tables that come of it are uniform.
-/

namespace StreamParsing

set_option autoImplicit false

universe u v

variable {τ π ρ : Type}

namespace Builder

variable {α β : Type v} {w : Pairing τ π ρ}

/-- The value and the block of rules that were made on either side are related in every larger pairing in which the
two blocks, which begin at `a` and at `b`, are paired. -/
structure Made (related : Pairing τ π ρ → α → α → Prop) (w : Pairing τ π ρ) (a b : Nat) (value value' : α)
    (block block' : Array (Rule τ π ρ)) : Prop where
  size : block.size = block'.size
  value : ∀ {w' : Pairing τ π ρ}, w ≤ w' → w'.Blocks block.size a b → related w' value value'
  rules : ∀ {w' : Pairing τ π ρ} {i : Nat} {rule rule' : Rule τ π ρ}, w ≤ w' → w'.Blocks block.size a b →
    block[i]? = some rule → block'[i]? = some rule' → Rule.Twin w' rule rule'

/-- From any rules made before, the builders add blocks of the same size and make related values. -/
def Twin (related : Pairing τ π ρ → α → α → Prop) (w : Pairing τ π ρ) (b b' : Builder τ π ρ α) : Prop :=
  ∀ (first first' : Nat) (made made' : Array (Rule τ π ρ)), ∃ block block',
    (b first made).2 = made ++ block ∧ (b' first' made').2 = made' ++ block' ∧
      Made related w (first + made.size) (first' + made'.size) (b first made).1 (b' first' made').1 block block'

def Parses (w : Pairing τ π ρ) {α : Type} (b b' : Builder τ π ρ (Parser τ π ρ α)) : Prop :=
  Twin (fun w => Parser.Twin w true) w b b'

variable {related : Pairing τ π ρ → α → α → Prop}

/-- Of two blocks laid end to end each is paired, if both together are. -/
theorem blocks_append {m n a b : Nat} (h : w.Blocks (m + n) a b) : w.Blocks m a b ∧ w.Blocks n (a + m) (b + m) := by
  constructor
  · exact fun i hi => h i (by omega)
  · intro i hi
    have := h (m + i) (by omega)
    rwa [← Nat.add_assoc, ← Nat.add_assoc] at this

/-- Rules made one block after the other are twins if those of each block are. -/
theorem twin_append {block block' more more' : Array (Rule τ π ρ)} (hsize : block.size = block'.size)
    (h : ∀ {i : Nat} {rule rule' : Rule τ π ρ}, block[i]? = some rule → block'[i]? = some rule' → Rule.Twin w rule rule')
    (hmore : ∀ {i : Nat} {rule rule' : Rule τ π ρ}, more[i]? = some rule → more'[i]? = some rule' →
      Rule.Twin w rule rule') {i : Nat} {rule rule' : Rule τ π ρ} (hi : (block ++ more)[i]? = some rule)
    (hi' : (block' ++ more')[i]? = some rule') : Rule.Twin w rule rule' := by
  rcases Nat.lt_or_ge i block.size with hlt | hle
  · rw [Array.getElem?_append_left hlt] at hi
    rw [Array.getElem?_append_left (hsize ▸ hlt)] at hi'
    exact h hi hi'
  · rw [Array.getElem?_append_right hle] at hi
    rw [Array.getElem?_append_right (hsize ▸ hle), ← hsize] at hi'
    exact hmore hi hi'

theorem twin_singleton {rule rule' : Rule τ π ρ} (h : Rule.Twin w rule rule') {i : Nat} {r r' : Rule τ π ρ}
    (hi : #[rule][i]? = some r) (hi' : #[rule'][i]? = some r') : Rule.Twin w r r' := by
  obtain ⟨hlt, rfl⟩ := Array.getElem?_eq_some_iff.mp hi
  obtain ⟨hlt', rfl⟩ := Array.getElem?_eq_some_iff.mp hi'
  simpa using h

/-- Builders that make twins only where a block made before them is paired add the same blocks wherever it is. -/
theorem exists_made {c c' : Builder τ π ρ α} {n a b : Nat}
    (h : ∀ {w' : Pairing τ π ρ}, w ≤ w' → w'.Blocks n a b → Twin related w' c c') (first first' : Nat)
    (made made' : Array (Rule τ π ρ)) : ∃ block block', (c first made).2 = made ++ block ∧
      (c' first' made').2 = made' ++ block' ∧ ∀ {w' : Pairing τ π ρ}, w ≤ w' → w'.Blocks n a b →
        Made related w' (first + made.size) (first' + made'.size) (c first made).1 (c' first' made').1 block block' := by
  -- The blocks are found in one such pairing; a builder is a function, so in every other they are the same.
  have hblocks : (w.withKept n a b).Blocks n a b := Pairing.blocks_withKept.mono Pairing.settled_le
  obtain ⟨block, block', hb, hb', -⟩ := h Pairing.le_withKept hblocks first first' made made'
  refine ⟨block, block', hb, hb', fun hw hn => ?_⟩
  obtain ⟨more, more', hm, hm', hmade⟩ := h hw hn first first' made made'
  rw [hb] at hm
  rw [hb'] at hm'
  rwa [Array.append_right_inj made |>.mp hm, Array.append_right_inj made' |>.mp hm']

section Monad

variable {α β : Type 1} {related : Pairing τ π ρ → α → α → Prop} {related' : Pairing τ π ρ → β → β → Prop}

theorem Twin.pure {a a' : α} (h : ∀ {w' : Pairing τ π ρ}, w ≤ w' → related w' a a') :
    Twin related w (Builder.pure a) (Builder.pure a') := by
  intro first first' made made'
  exact ⟨#[], #[], by simp [Builder.pure], by simp [Builder.pure], rfl, fun hw _ => h hw, fun _ _ hi => by simp at hi⟩

theorem Twin.bind {b b' : Builder τ π ρ α} {f f' : α → Builder τ π ρ β} (h : Twin related w b b')
    (hf : ∀ {w' : Pairing τ π ρ}, w ≤ w' → ∀ {a a' : α}, related w' a a' → Twin related' w' (f a) (f' a')) :
    Twin related' w (b.bind f) (b'.bind f') := by
  intro first first' made made'
  obtain ⟨block, block', hb, hb', hmade⟩ := h first first' made made'
  obtain ⟨more, more', hm, hm', hmore⟩ :=
    exists_made (fun hw hn => hf hw (hmade.value hw hn)) first first' (b first made).2 (b' first' made').2
  have hsize : more.size = more'.size :=
    (hmore Pairing.le_withKept (Pairing.blocks_withKept.mono Pairing.settled_le)).size
  rw [hb, hb', Array.size_append, Array.size_append, ← hmade.size, ← Nat.add_assoc, ← Nat.add_assoc] at hmore
  have hlater {w' : Pairing τ π ρ} (hw : w ≤ w')
      (hn : w'.Blocks (block ++ more).size (first + made.size) (first' + made'.size)) :
      w'.Blocks block.size (first + made.size) (first' + made'.size) ∧
        w'.Blocks more.size (first + made.size + block.size) (first' + made'.size + block.size) :=
    blocks_append (Array.size_append ▸ hn)
  refine ⟨block ++ more, block' ++ more', ?_, ?_, ?_, fun hw hn => ?_, fun hw hn => ?_⟩
  · rw [← Array.append_assoc, ← hb]
    exact hm
  · rw [← Array.append_assoc, ← hb']
    exact hm'
  · rw [Array.size_append, Array.size_append, hmade.size, hsize]
  · obtain ⟨hblock, hrest⟩ := hlater hw hn
    have hvalue := (hmore hw hblock).value (le_refl _) hrest
    rwa [← hb, ← hb'] at hvalue
  · obtain ⟨hblock, hrest⟩ := hlater hw hn
    exact twin_append hmade.size (hmade.rules hw hblock) ((hmore hw hblock).rules (le_refl _) hrest)

end Monad

section Rules

/-- A recursive rule comes before the rules that its body makes. -/
theorem fix_rules {body : Parser τ π ρ ρ → Builder τ π ρ (Parser τ π ρ ρ)} {first : Nat} {made block : Array (Rule τ π ρ)}
    (h : (body (.handle (first + made.size)) first (made.push .dropped)).2 = made.push .dropped ++ block) :
    (fix body first made).2 =
      made ++ (#[.defined (body (.handle (first + made.size)) first (made.push .dropped)).1] ++ block) := by
  simp only [fix, h]
  rw [← Array.toList_inj]
  simp

/-- A body gets a handle to the rule it defines on either side. -/
theorem Parses.fix {body body' : Parser τ π ρ ρ → Builder τ π ρ (Parser τ π ρ ρ)}
    (h : ∀ {w' : Pairing τ π ρ}, w ≤ w' → ∀ {p q : Parser τ π ρ ρ}, Parser.Twin w' true p q →
      Parses w' (body p) (body' q)) : Parses w (fix body) (fix body') := by
  intro first first' made made'
  have hhandle {w' : Pairing τ π ρ} (hn : w'.Blocks 1 (first + made.size) (first' + made'.size)) :
      w'.Pairs (first + made.size) (first' + made'.size) := hn 0 Nat.one_pos
  obtain ⟨block, block', hb, hb', hmade⟩ := exists_made (fun hw hn => h hw (.handle (hhandle hn))) first first'
    (made.push .dropped) (made'.push .dropped)
  simp only [Array.size_push, ← Nat.add_assoc] at hmade
  have hsize : block.size = block'.size :=
    (hmade Pairing.le_withKept (Pairing.blocks_withKept.mono Pairing.settled_le)).size
  have hlater {w' : Pairing τ π ρ} (hn : w'.Blocks (1 + block.size) (first + made.size) (first' + made'.size)) :
      w'.Blocks 1 (first + made.size) (first' + made'.size) ∧
        w'.Blocks block.size (first + made.size + 1) (first' + made'.size + 1) := blocks_append hn
  refine ⟨_, _, fix_rules hb, fix_rules hb', ?_, fun hw hn => ?_, fun {w' i rule rule'} hw hn => ?_⟩
  · rw [Array.size_append, Array.size_append, hsize]
    rfl
  all_goals
    rw [Array.size_append] at hn
    obtain ⟨hself, hrest⟩ := hlater hn
  · exact .rule (hhandle hself)
  · have hbody := hmade hw hself
    exact twin_append (by rfl) (twin_singleton (.defined (hbody.value (le_refl _) hrest))) (hbody.rules (le_refl _) hrest)

variable {α : Type}

/-- What is built each time anew is built from no rules. -/
theorem Parses.builds {b b' : Builder τ π ρ (Parser τ π ρ α)} (h : Parses w b b') :
    Rule.Twin.Builds w (fun n => (b n #[]).1) (fun n => (b' n #[]).1) (fun n => (b n #[]).2.toList)
      (fun n => (b' n #[]).2.toList) := by
  refine ⟨fun m n => ?_, fun {w' m n} hw hn => ?_, fun {w' m n i rule rule'} hw hn hi hi' => ?_⟩
  all_goals
    obtain ⟨block, block', hb, hb', hmade⟩ := h m n #[] #[]
    simp only [Array.empty_append] at hb hb'
  · simp only [hb, hb', Array.length_toList]
    exact hmade.size
  · simp only [hb, Array.length_toList] at hn
    exact hmade.value hw hn
  · simp only [hb, Array.length_toList] at hn
    simp only [hb, hb', Array.getElem?_toList] at hi hi'
    exact hmade.rules hw hn hi hi'

/-- A rule is added. -/
theorem Parses.push {p p' : Nat → Parser τ π ρ ρ} {rule rule' : Rule τ π ρ} (h : Rule.Twin w rule rule')
    (hp : ∀ {w' : Pairing τ π ρ} {a b : Nat}, w'.Pairs a b → Parser.Twin w' true (p a) (p' b)) :
    Parses w (fun first made => (p (first + made.size), made.push rule))
      (fun first made => (p' (first + made.size), made.push rule')) := by
  intro first first' made made'
  refine ⟨#[rule], #[rule'], ?_, ?_, rfl, ?_, ?_⟩
  · rfl
  · rfl
  · exact fun _ hn => hp (hn 0 Nat.one_pos)
  · exact fun hw _ => twin_singleton (h.mono hw)

theorem Parses.orphan : Parses w (orphan : Builder τ π ρ (Parser τ π ρ ρ)) orphan :=
  .push ⟨rfl, .leaf trivial⟩ .handle

theorem Parses.delay {b b' : Builder τ π ρ (Parser τ π ρ ρ)} (h : Parses w b b') : Parses w (delay b) (delay b') :=
  .push ⟨rfl, h.builds.draft⟩ .rule

end Rules

theorem run_rules (b : Builder τ π ρ α) (r : Rules τ π ρ) :
    (b.run r).2 = r.append (b r.entries.size #[]).2.toList true := rfl

theorem run_size (b : Builder τ π ρ α) (r : Rules τ π ρ) :
    (b.run r).2.entries.size = r.entries.size + (b r.entries.size #[]).2.size := by
  simp [run_rules, Rules.append]

/-- Running a builder on a uniform table gives one, and a value that is related to itself. -/
theorem Twin.run {b : Builder τ π ρ α} {r : Rules τ π ρ} (hr : r.Uniform) (h : Twin related r.pairing b b) :
    (b.run r).2.Uniform ∧ related (b.run r).2.pairing (b.run r).1 (b.run r).1 := by
  obtain ⟨block, _, hb, hb', hmade⟩ := h r.entries.size r.entries.size #[] #[]
  obtain rfl := Array.append_right_inj #[] |>.mp (hb.symm.trans hb')
  simp only [Array.empty_append, Array.size_empty, Nat.add_zero] at hb hmade
  have hle : r.pairing ≤ (b.run r).2.pairing := Rules.pairing_le_append _ _
  have hrun : (b.run r).2 = r.append block.toList true := by rw [run_rules, hb]
  have hblock : (b.run r).2.pairing.Blocks block.size r.entries.size r.entries.size := by
    intro i hi
    refine .inl ⟨rfl, ?_⟩
    rw [hrun]
    apply Rules.isRetained_of_getElem?
    rw [Rules.getElem?_append_new, Array.getElem?_toList, Array.getElem?_eq_getElem hi]
    rfl
  refine ⟨fun n rule he => ?_, hmade.value hle hblock⟩
  rw [hrun] at he
  rcases Rules.getElem?_append_cases he with hold | ⟨i, _, -, hi, hrule⟩
  · exact (hr _ _ hold).mono hle
  · cases hrule
    rw [Array.getElem?_toList] at hi
    exact hmade.rules hle hblock hi hi

end Builder

theorem Parser.Twin.drafted {α : Type} {w : Pairing τ π ρ} {opened : Bool} {b b' : Builder τ π ρ (Parser τ π ρ α)}
    (h : Builder.Parses w b b') : Parser.Twin w opened (.drafted b) (.drafted b') := h.builds.draft

end StreamParsing
