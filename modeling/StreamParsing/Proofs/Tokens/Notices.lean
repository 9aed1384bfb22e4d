import StreamParsing.ReadError

/-!
How the sources of streams that stand on one another come to their end. A list says which of them are there, the one
of the uppermost stream first, and notices say which came to its end, and why. With a source go those of all streams
below; so a source that is gone stays gone, and no second notice of its end can follow.
-/

namespace StreamParsing

set_option autoImplicit false

/-- Why a source is let go, or what a release answers. -/
inductive Ending where
  | exhausted
  | failed (e : ReadError)
  | released (was : Bool)

namespace Ending

/-- A source that was there is not any more. -/
def final : Ending → Bool
  | released was => was
  | _ => true

def IsLoss : Ending → Prop
  | released _ => False
  | _ => True

theorem IsLoss.final {ending : Ending} (h : ending.IsLoss) : ending.final = true := by
  cases ending with
  | released was => exact h.elim
  | exhausted | failed e => rfl

end Ending

/-- Something about the source of the stream at a level, counted from the uppermost stream. -/
structure Notice where
  level : Nat
  ending : Ending

def Notice.under (n : Notice) : Notice := ⟨n.level + 1, n.ending⟩

/-- Where a source is gone, all sources below it are. -/
def Cascade (lives : List Bool) : Prop := lives.Pairwise fun upper lower => lower = true → upper = true

/-- The source at level `k` goes, and those below it. -/
def fall (lives : List Bool) (k : Nat) : List Bool := lives.mapIdx fun i live => live && decide (i < k)

variable {lives lives' lives'' : List Bool} {n : Notice} {ns ms : List Notice} {k : Nat}

theorem getElem?_fall (lives : List Bool) (k i : Nat) :
    (fall lives k)[i]? = lives[i]?.map fun live => live && decide (i < k) := by
  simp [fall]

@[simp] theorem length_fall (lives : List Bool) (k : Nat) : (fall lives k).length = lives.length := by
  simp [fall]

theorem fall_zero (lives : List Bool) : fall lives 0 = lives.map fun _ => false := by
  apply List.ext_getElem?
  intro i
  simp only [getElem?_fall, List.getElem?_map, Nat.not_lt_zero, decide_false, Bool.and_false]

theorem fall_cons_succ (live : Bool) (lives : List Bool) (k : Nat) :
    fall (live :: lives) (k + 1) = live :: fall lives k := by
  simp [fall]

theorem Cascade.gone_below (h : Cascade lives) {i j : Nat} (hij : i ≤ j) (hi : lives[i]? = some false)
    (hj : lives[j]? = some true) : False := by
  rcases Nat.eq_or_lt_of_le hij with rfl | hlt
  · rw [hi] at hj
    cases hj
  · obtain ⟨hi', hi⟩ := List.getElem?_eq_some_iff.mp hi
    obtain ⟨hj', hj⟩ := List.getElem?_eq_some_iff.mp hj
    have hlive := List.pairwise_iff_getElem.mp h i j hi' hj' hlt hj
    rw [hi] at hlive
    cases hlive

theorem Cascade.fall (h : Cascade lives) (k : Nat) : Cascade (fall lives k) := by
  apply List.pairwise_iff_getElem.mpr
  intro i j hi hj hlt hlive
  simp only [StreamParsing.fall, List.getElem_mapIdx, Bool.and_eq_true, decide_eq_true_eq] at hlive ⊢
  simp only [length_fall] at hi hj
  exact ⟨List.pairwise_iff_getElem.mp h i j hi hj hlt hlive.1, by omega⟩

theorem Cascade.fall_of_gone (h : Cascade lives) (hk : lives[k]? = some false) : StreamParsing.fall lives k = lives := by
  apply List.ext_getElem?
  intro i
  rw [getElem?_fall]
  by_cases hi : i < k
  · simp [hi]
  · rcases hlive : lives[i]? with _ | _ | _
    · rfl
    · rfl
    · exact (h.gone_below (by omega) hk hlive).elim

/-- The notices tell how one list becomes the other: each of them is right about the source it is about. -/
inductive Told : List Bool → List Notice → List Bool → Prop where
  | nil (lives : List Bool) : Told lives [] lives
  | cons {lives lives' : List Bool} {n : Notice} {ns : List Notice} (hn : lives[n.level]? = some n.ending.final)
      (h : Told (fall lives n.level) ns lives') : Told lives (n :: ns) lives'

namespace Told

theorem single (hn : lives[n.level]? = some n.ending.final) : Told lives [n] (fall lives n.level) := .cons hn (.nil _)

theorem append (h : Told lives ns lives') (h' : Told lives' ms lives'') : Told lives (ns ++ ms) lives'' := by
  induction h with
  | nil => exact h'
  | cons hn _ ih => exact .cons hn (ih h')

theorem under (live : Bool) (h : Told lives ns lives') :
    Told (live :: lives) (ns.map Notice.under) (live :: lives') := by
  induction h with
  | nil => exact .nil _
  | @cons lives lives' n ns hn _ ih =>
    refine .cons hn ?_
    rw [Notice.under, fall_cons_succ]
    exact ih

theorem length_eq (h : Told lives ns lives') : lives'.length = lives.length := by
  induction h with
  | nil => rfl
  | cons _ _ ih => rw [ih, length_fall]

theorem cascade (h : Told lives ns lives') (hc : Cascade lives) : Cascade lives' := by
  induction h with
  | nil => exact hc
  | cons _ _ ih => exact ih (hc.fall _)

theorem gone (h : Told lives ns lives') {i : Nat} (hi : lives[i]? = some false) : lives'[i]? = some false := by
  induction h with
  | nil => exact hi
  | cons _ _ ih =>
    apply ih
    rw [getElem?_fall, hi]
    rfl

/-- Of a source that is gone, nothing but futile releases are told. -/
theorem futile (h : Told lives ns lives') {i : Nat} (hi : lives[i]? = some false) {n : Notice} (hn : n ∈ ns)
    (hl : n.level = i) : n.ending.final = false := by
  induction h with
  | nil => cases hn
  | @cons lives lives' m ns hm _ ih =>
    rcases List.mem_cons.mp hn with rfl | hn
    · rw [hl, hi] at hm
      exact (Option.some.inj hm).symm
    · apply ih _ hn
      rw [getElem?_fall, hi]
      rfl

/-- Of each source the end is told at most once. -/
theorem once (h : Told lives ns lives') :
    ns.Pairwise fun n m => n.level = m.level → n.ending.final = true → m.ending.final = false := by
  induction h with
  | nil => exact .nil
  | @cons lives lives' n ns hn h ih =>
    refine .cons ?_ ih
    intro m hm hlevel _
    refine h.futile ?_ hm hlevel.symm
    rw [getElem?_fall, hn]
    simp

/-- What ends a source is told: it is its own end, or that of a source above. -/
theorem explained (h : Told lives ns lives') (hc : Cascade lives) {i : Nat} (hi : lives[i]? = some true)
    (hi' : lives'[i]? = some false) : ∃ n ∈ ns, n.level ≤ i ∧ n.ending.final = true := by
  induction h with
  | nil =>
    rw [hi] at hi'
    cases hi'
  | @cons lives lives' n ns hn _ ih =>
    by_cases hle : n.level ≤ i
    · refine ⟨n, List.mem_cons_self .., hle, ?_⟩
      cases hfinal : n.ending.final with
      | true => rfl
      | false =>
        rw [hfinal] at hn
        exact (hc.gone_below hle hn hi).elim
    · have hstill : (fall lives n.level)[i]? = some true := by
        rw [getElem?_fall, hi]
        simp
        omega
      obtain ⟨m, hm, hlevel, hfinal⟩ := ih (hc.fall _) hstill hi'
      exact ⟨m, List.mem_cons_of_mem n hm, hlevel, hfinal⟩

end Told

end StreamParsing
