import StreamParsing.Parser.Text
import StreamParsing.Proofs.Repetition.Agreement
import StreamParsing.Proofs.Stream.Session

/-!
Items with separators between them and possibly one behind. What a success consumed is an item, then separators and items
in turn, then at most one separator. Where no item matches nothing is in front of that last separator, and it is consumed
all the same.
-/

namespace StreamParsing

set_option autoImplicit false

universe u

variable {σ : Type u} {τ π ρ α β : Type}

section Reference

variable [Position π τ] (item : Runs σ τ π ρ α) (separator : Runs σ τ π ρ β)

/-- Items that match in turn from `c` on, a separator between one and the next: for `n` values `n` matches of the item
and `n - 1` of the separator. Then the place before the last separator, if there is one, and the store and the place
behind the last item. -/
inductive Separated (store : Store σ τ π ρ) (c : Cursor τ π) :
    List α → Option (Cursor τ π) → Store σ τ π ρ → Cursor τ π → Prop where
  | one {value : α} {store' : Store σ τ π ρ} {d : Cursor τ π} :
      item store c store' (.ok (.success value d)) → Separated store c [value] none store' d
  | more {values : List α} {value : α} {between : β} {before : Option (Cursor τ π)} {mid mid' store' : Store σ τ π ρ}
      {d e d' : Cursor τ π} :
      Separated store c values before mid d → (∀ b, before = some b → d.same b = false) →
        separator mid d mid' (.ok (.success between e)) → item mid' e store' (.ok (.success value d')) →
          Separated store c (values ++ [value]) (some d) store' d'

/-- No separator with an item behind it follows at `d`; or the last of them consumed nothing, and no further one is
tried. -/
inductive Separated.Ends (before : Option (Cursor τ π)) (store : Store σ τ π ρ) (d : Cursor τ π) :
    Store σ τ π ρ → Prop where
  | unmatched {store' : Store σ τ π ρ} {fault : Fault τ π} :
      (∀ b, before = some b → d.same b = false) →
        Runs.Then separator (fun _ => item) store d store' (.ok (.failure fault)) → Ends before store d store'
  | stalled {b : Cursor τ π} :
      before = some b → d.same b = true →
        Ends before store d { store with log := store.log.push (.stalled (Position.place τ d.position)) }

/-- All items from `c` on, if there are any, and the place behind the last. -/
inductive Listed (store : Store σ τ π ρ) (c : Cursor τ π) : List α → Store σ τ π ρ → Cursor τ π → Prop where
  | none {store' : Store σ τ π ρ} {fault : Fault τ π} :
      item store c store' (.ok (.failure fault)) → Listed store c [] store' c
  | some {values : List α} {before : Option (Cursor τ π)} {mid store' : Store σ τ π ρ} {d : Cursor τ π} :
      Separated item separator store c values before mid d → Separated.Ends item separator before mid d store' →
        Listed store c values store' d

/-- A match that may be missing, and the place behind it. -/
inductive Trailing (store : Store σ τ π ρ) (d : Cursor τ π) : Store σ τ π ρ → Cursor τ π → Prop where
  | matched {store' : Store σ τ π ρ} {value : β} {e : Cursor τ π} :
      separator store d store' (.ok (.success value e)) → Trailing store d store' e
  | missing {store' : Store σ τ π ρ} {fault : Fault τ π} :
      separator store d store' (.ok (.failure fault)) → Trailing store d store' d

end Reference

theorem not_cuts_iff {n count : Nat} {before : Option (Cursor τ π)} {d : Cursor τ π} :
    ¬ (Bounds.atLeast n).Cuts count before d ↔ n ≤ count → ∀ b, before = some b → d.same b = false := by
  constructor
  · intro huncut hle b hb
    by_contra hsame
    exact huncut (.inr ⟨rfl, hle, b, hb, by simpa using hsame⟩)
  · rintro hmoved (⟨⟨⟩⟩ | ⟨-, hle, b, hb, hsame⟩)
    rw [hmoved hle b hb] at hsame
    cases hsame

section Series

variable {item : Runs σ τ π ρ α} {separator : Runs σ τ π ρ β} {store store' mid : Store σ τ π ρ}
variable {c d e : Cursor τ π} {values rest : List α} {value : α} {before : Option (Cursor τ π)}

theorem separated_of_series (hfirst : item store c mid (.ok (.success value e)))
    (h : Series (Runs.Then separator fun _ => item) (.atLeast 0) mid e rest before store' d) :
    Separated item separator store c (value :: rest) before store' d := by
  induction h with
  | none => exact .one hfirst
  | more _ huncut hlink ih =>
    obtain ⟨between, mid, e', hseparator, hitem⟩ := Runs.success_of_then hlink
    exact .more ih (not_cuts_iff.mp huncut (Nat.zero_le _)) hseparator hitem

theorem Separated.exists_series (h : Separated item separator store c values before store' d) :
    ∃ value rest mid e, values = value :: rest ∧ item store c mid (.ok (.success value e)) ∧
      Series (Runs.Then separator fun _ => item) (.atLeast 0) mid e rest before store' d := by
  induction h with
  | one hitem => exact ⟨_, [], _, _, rfl, hitem, .none⟩
  | more _ hmoved hseparator hitem ih =>
    obtain ⟨value, rest, mid, e, rfl, hfirst, hseries⟩ := ih
    exact ⟨value, _, mid, e, rfl, hfirst,
      hseries.more (not_cuts_iff.mpr fun _ => hmoved) (.next hseparator hitem)⟩

variable [Position π τ]

/-- A loop without bounds that succeeds ends where the next match is missing or where the last one moved nothing. -/
theorem counted_success_iff {γ : Type} {gather : List α → γ} {gathered : γ} :
    Counted (Runs.Then separator fun _ => item) (.atLeast 0) gather mid e store' (.ok (.success gathered d)) ↔
      ∃ rest before mid', Series (Runs.Then separator fun _ => item) (.atLeast 0) mid e rest before mid' d ∧
        Separated.Ends item separator before mid' d store' ∧ gathered = gather rest := by
  have henough (n : Nat) : ¬ n < (Bounds.atLeast 0).min := Nat.not_lt_zero n
  constructor
  · intro h
    generalize hr : (Except.ok (.success gathered d) : Outcome τ π γ) = result at h
    cases h with
    | full _ hfull => cases hfull
    | stalled hseries hstalled =>
      cases hr
      obtain ⟨-, -, b, hb, hsame⟩ := hstalled
      exact ⟨_, _, _, hseries, .stalled hb hsame, rfl⟩
    | missed hseries huncut hrun =>
      rw [if_neg (henough _)] at hr
      cases hr
      exact ⟨_, _, _, hseries, .unmatched (not_cuts_iff.mp huncut (Nat.zero_le _)) hrun, rfl⟩
    | stopped _ _ _ _ pass =>
      subst hr
      cases pass
  · rintro ⟨rest, before, mid', hseries, hends, rfl⟩
    cases hends with
    | unmatched hmoved hrun =>
      have h : Counted (Runs.Then separator fun _ => item) (.atLeast 0) gather mid e store' _ :=
        .missed hseries (not_cuts_iff.mpr fun _ => hmoved) hrun
      rwa [if_neg (henough _)] at h
    | stalled hb hsame => exact .stalled hseries ⟨rfl, Nat.zero_le _, _, hb, hsame⟩

end Series

section Refined

variable {good : Store σ τ π ρ → Prop} {item item' : Runs σ τ π ρ α} {separator separator' : Runs σ τ π ρ β}
variable {store store' mid : Store σ τ π ρ} {c d : Cursor τ π} {values : List α} {before : Option (Cursor τ π)}
variable (hitem : Runs.Refines good item item') (hseparator : Runs.Refines good separator separator')
include hitem hseparator

theorem Separated.refine (hgood : good store) (h : Separated item separator store c values before mid d) :
    Separated item' separator' store c values before mid d ∧ good mid := by
  induction h with
  | one hrun => exact ⟨.one (hitem.imp hgood hrun), hitem.keep hgood hrun⟩
  | more _ hmoved hbetween hrun ih =>
    have hmid := hseparator.keep ih.2 hbetween
    exact ⟨.more ih.1 hmoved (hseparator.imp ih.2 hbetween) (hitem.imp hmid hrun), hitem.keep hmid hrun⟩

variable [Position π τ] (hlog : ∀ store log, good store → good { store with log := log })
include hlog

theorem Separated.Ends.refine (hgood : good store) (h : Separated.Ends item separator before store d store') :
    Separated.Ends item' separator' before store d store' ∧ good store' := by
  cases h with
  | unmatched hmoved hrun =>
    have hlink := hseparator.andThen fun _ => hitem
    exact ⟨.unmatched hmoved (hlink.imp hgood hrun), hlink.keep hgood hrun⟩
  | stalled hb hsame => exact ⟨.stalled hb hsame, hlog _ _ hgood⟩

theorem Listed.refine (hgood : good store) (h : Listed item separator store c values store' d) :
    Listed item' separator' store c values store' d ∧ good store' := by
  cases h with
  | none hrun => exact ⟨.none (hitem.imp hgood hrun), hitem.keep hgood hrun⟩
  | some hseparated hends =>
    obtain ⟨hseparated, hmid⟩ := hseparated.refine hitem hseparator hgood
    obtain ⟨hends, hgood'⟩ := hends.refine hitem hseparator hlog hmid
    exact ⟨.some hseparated hends, hgood'⟩

end Refined

theorem Trailing.refine {good : Store σ τ π ρ → Prop} {separator separator' : Runs σ τ π ρ β}
    {store store' : Store σ τ π ρ} {d e : Cursor τ π} (hseparator : Runs.Refines good separator separator')
    (hgood : good store) (h : Trailing separator store d store' e) : Trailing separator' store d store' e := by
  cases h with
  | matched hrun => exact .matched (hseparator.imp hgood hrun)
  | missing hrun => exact .missing (hseparator.imp hgood hrun)

namespace Parser

section Outcomes

variable [Source σ τ] [Position π τ] {held : List Nat} {p : Parser τ π ρ α} {s : Parser τ π ρ β}
variable {store store' : Store σ τ π ρ} {c u : Cursor τ π} {values : Array α}

/-- While a list is read, all that it holds stays held. -/
theorem outcomes_sepBy1_eq : ((p.sepBy1 s).outcomes .counted held : Runs σ τ π ρ (Array α)) =
    Runs.Then (p.outcomes .counted ((p.holds ++ s.holds) ++ held)) fun a =>
      Counted (Runs.Then (s.outcomes .counted ((p.holds ++ s.holds) ++ held)) fun _ =>
        p.outcomes .counted ((p.holds ++ s.holds) ++ held)) (.atLeast 0) fun rest => #[a] ++ rest.toArray := by
  have hlist (n : Nat) : n ∈ (s.keepRight p).holds ++ held ↔ n ∈ (p.holds ++ s.holds) ++ held := by
    simp only [keepRight, holds, List.mem_append]
    tauto
  have hitem (n : Nat) : n ∈ p.holds ++ ((s.keepRight p).holds ++ held) ↔ n ∈ (p.holds ++ s.holds) ++ held := by
    rw [List.mem_append, hlist]
    simp only [List.mem_append]
    tauto
  have hmany : (s.keepRight p).many.holds ++ held = (s.keepRight p).holds ++ held := rfl
  rw [outcomes_sepBy1, outcomes_zipWith, hmany, many, outcomes_collect, outcomes_keepRight, outcomes_congr hlist,
    outcomes_congr hitem]
  simp only [Runs.mapped_counted]
  rfl

theorem sepBy1_success_iff : (p.sepBy1 s).outcomes .counted held store c store' (.ok (.success values u)) ↔
    ∃ before mid, Separated (p.outcomes .counted ((p.holds ++ s.holds) ++ held))
        (s.outcomes .counted ((p.holds ++ s.holds) ++ held)) store c values.toList before mid u ∧
      Separated.Ends (p.outcomes .counted ((p.holds ++ s.holds) ++ held))
        (s.outcomes .counted ((p.holds ++ s.holds) ++ held)) before mid u store' := by
  rw [outcomes_sepBy1_eq]
  constructor
  · intro h
    obtain ⟨a, mid, e, hfirst, hrest⟩ := Runs.success_of_then h
    obtain ⟨rest, before, mid', hseries, hends, rfl⟩ := counted_success_iff.mp hrest
    have hseparated := separated_of_series hfirst hseries
    exact ⟨before, mid', by simpa using hseparated, hends⟩
  · rintro ⟨before, mid', hseparated, hends⟩
    obtain ⟨a, rest, mid, e, hvalues, hfirst, hseries⟩ := hseparated.exists_series
    have harray : values = #[a] ++ rest.toArray := by
      apply Array.ext'
      simpa using hvalues
    subst harray
    exact .next hfirst (counted_success_iff.mpr ⟨rest, before, mid', hseries, hends, rfl⟩)

/-- Once there is an item, a list cannot fail. -/
theorem sepBy1_failure_iff {fault : Fault τ π} :
    (p.sepBy1 s).outcomes .counted held store c store' (.ok (.failure fault)) ↔
      p.outcomes .counted ((p.holds ++ s.holds) ++ held) store c store' (.ok (.failure fault)) := by
  rw [outcomes_sepBy1_eq]
  constructor
  · intro h
    generalize hr : (Except.ok (.failure fault) : Outcome τ π (Array α)) = result at h
    cases h with
    | next _ hrest =>
      subst hr
      exact hrest.not_failure.elim
    | stopped hfirst pass =>
      subst hr
      cases pass
      exact hfirst
  · exact fun h => .stopped h (.failure fault)

theorem sepBy_success_iff : (p.sepBy s).outcomes .counted held store c store' (.ok (.success values u)) ↔
    Listed (p.outcomes .counted ((p.holds ++ s.holds) ++ held)) (s.outcomes .counted ((p.holds ++ s.holds) ++ held))
      store c values.toList store' u := by
  have hheld : (pure #[] : Parser τ π ρ (Array α)).holds ++ held = held := rfl
  rw [sepBy, outcomes_orElse, hheld]
  constructor
  · intro h
    cases h with
    | first h firm =>
      obtain ⟨before, mid, hseparated, hends⟩ := sepBy1_success_iff.mp h
      exact .some hseparated hends
    | second h hpure =>
      obtain ⟨rfl, hr⟩ := outcomes_pure_iff.mp hpure
      cases hr
      exact .none (sepBy1_failure_iff.mp h)
  · intro h
    generalize hlist : values.toList = list at h
    cases h with
    | none h =>
      rw [Array.toList_eq_nil_iff] at hlist
      subst hlist
      exact .second (sepBy1_failure_iff.mpr h) .pure
    | some hseparated hends =>
      subst hlist
      exact .first (sepBy1_success_iff.mpr ⟨_, _, hseparated, hends⟩) (by simp [Firm])

theorem optional_success_iff {value : Option β} :
    s.optional.outcomes .counted held store c store' (.ok (.success value u)) ↔
      (∃ a, s.outcomes .counted held store c store' (.ok (.success a u)) ∧ value = some a) ∨
        u = c ∧ value = none ∧ ∃ fault, s.outcomes .counted held store c store' (.ok (.failure fault)) := by
  have hheld : (pure none : Parser τ π ρ (Option β)).holds ++ held = held := rfl
  rw [optional, outcomes_orElse, hheld, outcomes_map]
  constructor
  · intro h
    cases h with
    | first h firm => exact .inl (Runs.success_of_mapped h)
    | second h hpure =>
      obtain ⟨rfl, hr⟩ := outcomes_pure_iff.mp hpure
      cases hr
      exact .inr ⟨rfl, rfl, _, Runs.failure_of_mapped.mp h⟩
  · rintro (⟨a, h, rfl⟩ | ⟨rfl, rfl, fault, h⟩)
    · exact .first ⟨_, h, rfl⟩ (by simp [Firm])
    · exact .second (Runs.failure_of_mapped.mpr h) .pure

theorem sepEndBy_success_iff : (p.sepEndBy s).outcomes .counted held store c store' (.ok (.success values u)) ↔
    ∃ mid d, Listed (p.outcomes .counted ((p.holds ++ s.holds) ++ held))
        (s.outcomes .counted ((p.holds ++ s.holds) ++ held)) store c values.toList mid d ∧
      Trailing (s.outcomes .counted held) mid d store' u := by
  have hlist (n : Nat) : n ∈ s.optional.holds ++ held ↔ n ∈ s.holds ++ held := by
    simp only [optional, map, holds, List.append_nil]
  have hall (n : Nat) : n ∈ (p.holds ++ s.holds) ++ (s.holds ++ held) ↔ n ∈ (p.holds ++ s.holds) ++ held := by
    simp only [List.mem_append]
    tauto
  rw [sepEndBy, keepLeft, outcomes_zipWith, outcomes_congr hlist]
  constructor
  · intro h
    obtain ⟨a, mid, d, hlisted, htrailing⟩ := Runs.success_of_then h
    obtain ⟨value, hvalue, rfl⟩ := Runs.success_of_mapped htrailing
    rw [sepBy_success_iff, outcomes_congr hall, outcomes_congr hall] at hlisted
    refine ⟨mid, d, hlisted, ?_⟩
    rcases optional_success_iff.mp hvalue with ⟨b, hmatched, -⟩ | ⟨rfl, -, fault, hmissing⟩
    · exact .matched hmatched
    · exact .missing hmissing
  · rintro ⟨mid, d, hlisted, htrailing⟩
    have hfirst : (p.sepBy s).outcomes .counted (s.holds ++ held) store c mid (.ok (.success values d)) := by
      rw [sepBy_success_iff, outcomes_congr hall, outcomes_congr hall]
      exact hlisted
    cases htrailing with
    | matched hmatched => exact .next hfirst ⟨_, optional_success_iff.mpr (.inl ⟨_, hmatched, rfl⟩), rfl⟩
    | missing hmissing => exact .next hfirst ⟨_, optional_success_iff.mpr (.inr ⟨rfl, rfl, _, hmissing⟩), rfl⟩

end Outcomes

variable [Source σ τ] [LawfulSource σ τ] [Position π τ]

/-- A success of an ended list is a list and behind it a separator or none, also where the list is empty: over any pending
work; and by itself, with plain runs of item and separator, where the caller holds all rules. -/
theorem sepEndBy_lists (p : Parser τ π ρ α) (s : Parser τ π ρ β) :
    (∀ {ω : Type} (k : Stack τ π ρ (Array α) ω) (store store' : Store σ τ π ρ) (c u : Cursor τ π) (values : Array α),
      Machine.Finishes .counted k store (.eval (p.sepEndBy s) c k) store' (.ok (.success values u)) ↔
        ∃ mid d, Listed (p.outcomes .counted ((p.holds ++ s.holds) ++ k.holds))
            (s.outcomes .counted ((p.holds ++ s.holds) ++ k.holds)) store c values.toList mid d ∧
          Trailing (s.outcomes .counted k.holds) mid d store' u) ∧
    (p.Steady → s.Steady → ∀ (store store' : Store σ τ π ρ) (c u : Cursor τ π) (values : Array α), store.rules.Kept →
      ((∃ fuel, (p.sepEndBy s).run fuel store c = some ⟨store', .ok (.success values u)⟩) ↔
        ∃ mid d, Listed p.ends s.ends store c values.toList mid d ∧ Trailing s.ends mid d store' u)) := by
  have pending {ω : Type} (k : Stack τ π ρ (Array α) ω) (store store' : Store σ τ π ρ) (c u : Cursor τ π)
      (values : Array α) : Machine.Finishes .counted k store (.eval (p.sepEndBy s) c k) store' (.ok (.success values u)) ↔
        ∃ mid d, Listed (p.outcomes .counted ((p.holds ++ s.holds) ++ k.holds))
            (s.outcomes .counted ((p.holds ++ s.holds) ++ k.holds)) store c values.toList mid d ∧
          Trailing (s.outcomes .counted k.holds) mid d store' u :=
    (Machine.finishes_iff_counted (.run (p.sepEndBy s) c)).trans sepEndBy_success_iff
  refine ⟨pending, ?_⟩
  intro hp hs store store' c u values hrules
  refine ends_iff_finishes.trans ((pending .nil store store' c u values).trans ?_)
  -- What a list holds, as pending work.
  let k : (γ : Type) → Stack τ π ρ γ γ := fun γ => .cons (.zipLeft (fun a _ => a) (p.both s)) .nil
  have hk (γ : Type) : (k γ).Steady := ⟨.zipWith _ hp hs, trivial⟩
  have hnil : (Stack.nil : Stack τ π ρ β β).Steady := trivial
  have hlog (store : Store σ τ π ρ) (log : Array Event) (h : store.rules.Kept) : store.rules.Kept := h
  constructor
  · rintro ⟨mid, d, hlisted, htrailing⟩
    obtain ⟨hlisted, hmid⟩ :=
      hlisted.refine (outcomes_refines_ends hp (hk α)) (outcomes_refines_ends hs (hk β)) hlog hrules
    exact ⟨mid, d, hlisted, htrailing.refine (outcomes_refines_ends hs hnil) hmid⟩
  · rintro ⟨mid, d, hlisted, htrailing⟩
    obtain ⟨hlisted, hmid⟩ :=
      hlisted.refine (ends_refines_outcomes hp (hk α)) (ends_refines_outcomes hs (hk β)) hlog hrules
    exact ⟨mid, d, hlisted, htrailing.refine (ends_refines_outcomes hs hnil) hmid⟩

/-- A list of two digits, with a separator behind the last. -/
theorem sepEndBy_lists_digits :
    let p : Parser Char TextPosition Empty Char := digit
    let s : Parser Char TextPosition Empty Char := character ','
    let store : Store (NoSource Char) Char TextPosition Empty := .ofStream (.ofText "4,2,") .empty
    let c : Cursor Char TextPosition := store.stream.start
    p.Steady ∧ s.Steady ∧ store.rules.Kept ∧
      ∃ mid d, Listed p.ends s.ends store c ['4', '2'] mid d ∧
        Trailing s.ends mid d store ⟨1, 0, ⟨1, 5, 4⟩, none⟩ := by
  intro p s store c
  have hp : p.Steady := .satisfy _
  have hs : s.Steady := .satisfy _
  have hrules : store.rules.Kept := by
    intro entry hmem
    cases Array.not_mem_empty entry hmem
  have hlists := (sepEndBy_lists (σ := NoSource Char) p s).2 hp hs store store c ⟨1, 0, ⟨1, 5, 4⟩, none⟩ #['4', '2'] hrules
  exact ⟨hp, hs, hrules, hlists.mp ⟨40, rfl⟩⟩

def Consumes (σ : Type u) [Source σ τ] (p : Parser τ π ρ α) : Prop :=
  ∀ (store store' : Store σ τ π ρ) (c d : Cursor τ π) (value : α),
    p.ends store c store' (.ok (.success value d)) → d.same c = false

theorem consumes_satisfy (test : τ → Bool) : (satisfy test : Parser τ π ρ τ).Consumes σ := by
  intro store store' c d value h
  have heval := ends_iff_counted.mp h
  generalize hr : (Except.ok (.success value d) : Outcome τ π τ) = result at heval
  cases heval with
  | refused | unread => cases hr
  | taken hc ha =>
    cases hr
    obtain ⟨events, hadvance⟩ := Machine.Store.advance_of_access ha
    have hadvancing := TokenStream.advancing_of_advance hadvance
    generalize store'.stream = after at hadvancing
    cases hadvancing with
    | still hnone =>
      rw [hnone] at hc
      cases hc
    | inside | across | read => simp [Cursor.same]

/-- A separator in front of any item is consumed, and no value is there for it. -/
theorem sepEndBy_leading_separator :
    let item : Parser Char TextPosition Empty Char := digit
    let separator : Parser Char TextPosition Empty Char := character ','
    let store : Store (NoSource Char) Char TextPosition Empty := .ofStream (.ofText ",") .empty
    let c : Cursor Char TextPosition := store.stream.start
    let u : Cursor Char TextPosition := ⟨1, 0, ⟨1, 2, 1⟩, none⟩
    item.Consumes (NoSource Char) ∧ separator.Consumes (NoSource Char) ∧
      (item.sepEndBy separator).run 30 store c = some ⟨store, .ok (.success #[] u)⟩ ∧ u.same c = false :=
  ⟨consumes_satisfy _, consumes_satisfy _, rfl, rfl⟩

end Parser

end StreamParsing
