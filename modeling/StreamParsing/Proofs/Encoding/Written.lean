import StreamParsing.Encoding.Basic

/-!
The bytes that an encoding writes for a text. What is read from the front of a byte sequence is exactly the character
whose bytes stand there; so no character's bytes begin another's, and more bytes do not change what was read.
-/

namespace StreamParsing

set_option autoImplicit false

namespace Sequence

theorem ofCode_eq_char_iff {n more k : Nat} {c : Char} : ofCode n more = .char c k ↔ c.toNat = n ∧ more = k := by
  unfold ofCode
  split
  · rename_i hn
    have hcode : (Char.ofNat n).toNat = n := by
      rw [Char.ofNat, dif_pos hn]
      rfl
    constructor
    · rintro ⟨⟩
      exact ⟨hcode, rfl⟩
    · rintro ⟨rfl, rfl⟩
      rw [Char.ofNat_toNat]
  · rename_i hn
    constructor
    · nofun
    · rintro ⟨rfl, -⟩
      exact absurd c.valid hn

/-- More bytes do not change what a reading of the front has found out. -/
def Settles (read : List UInt8 → Sequence) : Prop :=
  ∀ bytes more, read bytes ≠ .incomplete → read (bytes ++ more) = read bytes

theorem Settles.const (found : Sequence) : Settles fun _ => found := fun _ _ _ => rfl

theorem Settles.ite {p : Prop} [Decidable p] {read read' : List UInt8 → Sequence} (h : Settles read)
    (h' : Settles read') : Settles fun bytes => if p then read bytes else read' bytes := by
  by_cases hp : p
  · simpa only [if_pos hp] using h
  · simpa only [if_neg hp] using h'

end Sequence

namespace Utf8

/-- The form of a character's bytes, by the size of its code. -/
inductive Bytes (c : Char) : List UInt8 → Prop where
  | one {a : UInt8} : c.toNat < 0x80 → a.toNat = c.toNat → Bytes c [a]
  | two {a b : UInt8} : 0x80 ≤ c.toNat → c.toNat < 0x800 → a.toNat = 0xC0 + c.toNat / 64 →
      b.toNat = 0x80 + c.toNat % 64 → Bytes c [a, b]
  | three {a b d : UInt8} : 0x800 ≤ c.toNat → c.toNat < 0x10000 → a.toNat = 0xE0 + c.toNat / 4096 →
      b.toNat = 0x80 + c.toNat / 64 % 64 → d.toNat = 0x80 + c.toNat % 64 → Bytes c [a, b, d]
  | four {a b d e : UInt8} : 0x10000 ≤ c.toNat → a.toNat = 0xF0 + c.toNat / 262144 →
      b.toNat = 0x80 + c.toNat / 4096 % 64 → d.toNat = 0x80 + c.toNat / 64 % 64 → e.toNat = 0x80 + c.toNat % 64 →
      Bytes c [a, b, d, e]

variable {c : Char} {code more k : Nat} {low high : UInt8} {bytes : List UInt8}

theorem bytes_encodeChar (c : Char) : Bytes c (String.utf8EncodeChar c) := by
  have hvalid : c.toNat.isValidChar := c.valid
  simp only [Nat.isValidChar] at hvalid
  simp only [String.utf8EncodeChar, Char.toNat_val]
  split
  · refine .one (by omega) ?_
    rw [UInt8.toNat_ofNat']
    omega
  split
  · refine .two (by omega) (by omega) ?_ ?_ <;> rw [UInt8.toNat_ofNat'] <;> omega
  split
  · refine .three (by omega) (by omega) ?_ ?_ ?_ <;> rw [UInt8.toNat_ofNat'] <;> omega
  · refine .four (by omega) ?_ ?_ ?_ ?_ <;> rw [UInt8.toNat_ofNat'] <;> omega

theorem Bytes.unique {bytes' : List UInt8} (h : Bytes c bytes) (h' : Bytes c bytes') : bytes = bytes' := by
  have eq_of_code {a a' : UInt8} {n : Nat} (ha : a.toNat = n) (ha' : a'.toNat = n) : a = a' :=
    UInt8.toNat_inj.mp (ha.trans ha'.symm)
  -- The size of the code settles which form both have.
  cases h with
  | one _ ha =>
    cases h' with
    | one _ ha' => rw [eq_of_code ha ha']
    | _ => omega
  | two _ _ ha hb =>
    cases h' with
    | two _ _ ha' hb' => rw [eq_of_code ha ha', eq_of_code hb hb']
    | _ => omega
  | three _ _ ha hb hd =>
    cases h' with
    | three _ _ ha' hb' hd' => rw [eq_of_code ha ha', eq_of_code hb hb', eq_of_code hd hd']
    | _ => omega
  | four _ ha hb hd he =>
    cases h' with
    | four _ ha' hb' hd' he' => rw [eq_of_code ha ha', eq_of_code hb hb', eq_of_code hd hd', eq_of_code he he']
    | _ => omega

theorem tail?_eq_some_iff {b : UInt8} {bits : Nat} :
    tail? b = some bits ↔ 0x80 ≤ b.toNat ∧ b.toNat ≤ 0xBF ∧ b.toNat % 64 = bits := by
  unfold tail?
  simp only [UInt8.le_iff_toNat_le, UInt8.toNat_ofNat]
  split
  · simp only [Option.some.injEq]
    omega
  · simp only [reduceCtorEq, false_iff]
    omega

theorem one_eq_char_iff : one code more bytes = .char c k ↔
    more = k ∧ ∃ b rest, bytes = b :: rest ∧ 0x80 ≤ b.toNat ∧ b.toNat ≤ 0xBF ∧ c.toNat = code * 64 + b.toNat % 64 := by
  cases bytes with
  | nil => simp [one]
  | cons b rest =>
    simp only [one, List.cons.injEq]
    cases h : tail? b with
    | some bits =>
      obtain ⟨hlow, hhigh, rfl⟩ := tail?_eq_some_iff.mp h
      rw [Sequence.ofCode_eq_char_iff]
      constructor
      · rintro ⟨hc, rfl⟩
        exact ⟨rfl, b, rest, ⟨rfl, rfl⟩, hlow, hhigh, hc⟩
      · rintro ⟨rfl, _, _, ⟨rfl, rfl⟩, -, -, hc⟩
        exact ⟨hc, rfl⟩
    | none =>
      simp only [reduceCtorEq, false_iff]
      rintro ⟨-, _, _, ⟨rfl, rfl⟩, hlow, hhigh, -⟩
      rw [tail?_eq_some_iff.mpr ⟨hlow, hhigh, rfl⟩] at h
      cases h

theorem two_eq_char_iff : two code more bytes = .char c k ↔ ∃ b rest, bytes = b :: rest ∧ 0x80 ≤ b.toNat ∧
    b.toNat ≤ 0xBF ∧ one (code * 64 + b.toNat % 64) more rest = .char c k := by
  cases bytes with
  | nil => simp [two]
  | cons b rest =>
    simp only [two, List.cons.injEq]
    cases h : tail? b with
    | some bits =>
      obtain ⟨hlow, hhigh, rfl⟩ := tail?_eq_some_iff.mp h
      constructor
      · intro hc
        exact ⟨b, rest, ⟨rfl, rfl⟩, hlow, hhigh, hc⟩
      · rintro ⟨_, _, ⟨rfl, rfl⟩, -, -, hc⟩
        exact hc
    | none =>
      simp only [reduceCtorEq, false_iff]
      rintro ⟨_, _, ⟨rfl, rfl⟩, hlow, hhigh, -⟩
      rw [tail?_eq_some_iff.mpr ⟨hlow, hhigh, rfl⟩] at h
      cases h

theorem window_eq_char_iff {next : Nat → List UInt8 → Sequence} : window low high code next bytes = .char c k ↔
    ∃ b rest, bytes = b :: rest ∧ low.toNat ≤ b.toNat ∧ b.toNat ≤ high.toNat ∧
      next (code * 64 + b.toNat % 64) rest = .char c k := by
  cases bytes with
  | nil => simp [window]
  | cons b rest =>
    simp only [window, List.cons.injEq, UInt8.le_iff_toNat_le]
    split
    · rename_i hb
      constructor
      · intro hc
        exact ⟨b, rest, ⟨rfl, rfl⟩, hb.1, hb.2, hc⟩
      · rintro ⟨_, _, ⟨rfl, rfl⟩, -, -, hc⟩
        exact hc
    · rename_i hb
      simp only [reduceCtorEq, false_iff]
      rintro ⟨_, _, ⟨rfl, rfl⟩, hlow, hhigh, -⟩
      exact hb ⟨hlow, hhigh⟩

theorem windowOne_eq_char_iff : window low high code (fun code => one code 2) bytes = .char c k ↔
    2 = k ∧ ∃ b d rest, bytes = b :: d :: rest ∧ low.toNat ≤ b.toNat ∧ b.toNat ≤ high.toNat ∧ 0x80 ≤ d.toNat ∧
      d.toNat ≤ 0xBF ∧ c.toNat = (code * 64 + b.toNat % 64) * 64 + d.toNat % 64 := by
  simp only [window_eq_char_iff, one_eq_char_iff]
  constructor
  · rintro ⟨b, _, rfl, hlow, hhigh, hk, d, rest, rfl, hd⟩
    exact ⟨hk, b, d, rest, rfl, hlow, hhigh, hd⟩
  · rintro ⟨hk, b, d, rest, rfl, hlow, hhigh, hd⟩
    exact ⟨b, _, rfl, hlow, hhigh, hk, d, rest, rfl, hd⟩

theorem windowTwo_eq_char_iff : window low high code (fun code => two code 3) bytes = .char c k ↔
    3 = k ∧ ∃ b d e rest, bytes = b :: d :: e :: rest ∧ low.toNat ≤ b.toNat ∧ b.toNat ≤ high.toNat ∧
      0x80 ≤ d.toNat ∧ d.toNat ≤ 0xBF ∧ 0x80 ≤ e.toNat ∧ e.toNat ≤ 0xBF ∧
      c.toNat = ((code * 64 + b.toNat % 64) * 64 + d.toNat % 64) * 64 + e.toNat % 64 := by
  simp only [window_eq_char_iff, two_eq_char_iff, one_eq_char_iff]
  constructor
  · rintro ⟨b, _, rfl, hlow, hhigh, d, _, rfl, hd, hd', hk, e, rest, rfl, he⟩
    exact ⟨hk, b, d, e, rest, rfl, hlow, hhigh, hd, hd', he⟩
  · rintro ⟨hk, b, d, e, rest, rfl, hlow, hhigh, hd, hd', he⟩
    exact ⟨b, _, rfl, hlow, hhigh, d, _, rfl, hd, hd', hk, e, rest, rfl, he⟩

/-- Three bytes of which the second lies in a window that leaves out shorter codes. -/
theorem bytes_of_windowOne {a : UInt8} (ha : 0xE0 ≤ a.toNat) (ha' : a.toNat < 0xF0) (hlow : 0x80 ≤ low.toNat)
    (hhigh : high.toNat ≤ 0xBF) (hshort : a.toNat = 0xE0 → 0xA0 ≤ low.toNat)
    (h : window low high (a.toNat % 16) (fun code => one code 2) bytes = .char c k) :
    ∃ written rest, a :: bytes = written ++ rest ∧ Bytes c written ∧ written.length = k + 1 := by
  obtain ⟨rfl, b, d, rest, rfl, hb, hb', hd, hd', hc⟩ := windowOne_eq_char_iff.mp h
  refine ⟨[a, b, d], rest, rfl, .three ?_ ?_ ?_ ?_ ?_, rfl⟩ <;> omega

/-- Four bytes of which the second lies in a window that leaves out shorter codes. -/
theorem bytes_of_windowTwo {a : UInt8} (ha : 0xF0 ≤ a.toNat) (ha' : a.toNat < 0xF8) (hlow : 0x80 ≤ low.toNat)
    (hhigh : high.toNat ≤ 0xBF) (hshort : a.toNat = 0xF0 → 0x90 ≤ low.toNat)
    (h : window low high (a.toNat % 8) (fun code => two code 3) bytes = .char c k) :
    ∃ written rest, a :: bytes = written ++ rest ∧ Bytes c written ∧ written.length = k + 1 := by
  obtain ⟨rfl, b, d, e, rest, rfl, hb, hb', hd, hd', he, he', hc⟩ := windowTwo_eq_char_iff.mp h
  refine ⟨[a, b, d, e], rest, rfl, .four ?_ ?_ ?_ ?_ ?_, rfl⟩ <;> omega

theorem bytes_of_first (h : first bytes = .char c k) :
    ∃ written rest, bytes = written ++ rest ∧ Bytes c written ∧ written.length = k + 1 := by
  cases bytes with
  | nil => cases h
  | cons a bytes =>
    simp only [first] at h
    split at h
    · obtain ⟨hc, rfl⟩ := Sequence.ofCode_eq_char_iff.mp h
      exact ⟨[a], bytes, rfl, .one (by omega) hc.symm, rfl⟩
    split at h
    · cases h
    split at h
    · obtain ⟨rfl, b, rest, rfl, hb, hb', hc⟩ := one_eq_char_iff.mp h
      refine ⟨[a, b], rest, rfl, .two ?_ ?_ ?_ ?_, rfl⟩ <;> omega
    split at h
    · exact bytes_of_windowOne (by omega) (by omega) (by decide) (by decide) (fun _ => by decide) h
    split at h
    · exact bytes_of_windowOne (by omega) (by omega) (by decide) (by decide) (by omega) h
    split at h
    · exact bytes_of_windowOne (by omega) (by omega) (by decide) (by decide) (by omega) h
    split at h
    · exact bytes_of_windowTwo (by omega) (by omega) (by decide) (by decide) (fun _ => by decide) h
    split at h
    · exact bytes_of_windowTwo (by omega) (by omega) (by decide) (by decide) (by omega) h
    split at h
    · exact bytes_of_windowTwo (by omega) (by omega) (by decide) (by decide) (by omega) h
    · cases h

theorem first_append_of_bytes {written : List UInt8} (h : Bytes c written) (rest : List UInt8) :
    first (written ++ rest) = .char c (written.length - 1) := by
  have hvalid : c.toNat.isValidChar := c.valid
  simp only [Nat.isValidChar] at hvalid
  cases h with
  | @one a hc ha =>
    simp only [List.singleton_append, first]
    rw [if_pos (by omega), Sequence.ofCode_eq_char_iff]
    exact ⟨ha.symm, rfl⟩
  | @two a b hc hc' ha hb =>
    simp only [List.cons_append, first]
    rw [if_neg (by omega), if_neg (by omega), if_pos (by omega), one_eq_char_iff]
    refine ⟨rfl, b, rest, rfl, ?_⟩
    omega
  | @three a b d hc hc' ha hb hd =>
    have hwindow {low high : UInt8} (hlow : low.toNat ≤ b.toNat) (hhigh : b.toNat ≤ high.toNat) :
        window low high (a.toNat % 16) (fun code => one code 2) (b :: d :: rest) = .char c 2 := by
      refine windowOne_eq_char_iff.mpr ⟨rfl, b, d, rest, rfl, hlow, hhigh, ?_⟩
      omega
    simp only [List.cons_append, first]
    rw [if_neg (by omega), if_neg (by omega), if_neg (by omega)]
    split
    · exact hwindow (by simp only [UInt8.reduceToNat]; omega) (by simp only [UInt8.reduceToNat]; omega)
    split
    · exact hwindow (by simp only [UInt8.reduceToNat]; omega) (by simp only [UInt8.reduceToNat]; omega)
    rw [if_pos (by omega)]
    exact hwindow (by simp only [UInt8.reduceToNat]; omega) (by simp only [UInt8.reduceToNat]; omega)
  | @four a b d e hc ha hb hd he =>
    have hwindow {low high : UInt8} (hlow : low.toNat ≤ b.toNat) (hhigh : b.toNat ≤ high.toNat) :
        window low high (a.toNat % 8) (fun code => two code 3) (b :: d :: e :: rest) = .char c 3 := by
      refine windowTwo_eq_char_iff.mpr ⟨rfl, b, d, e, rest, rfl, hlow, hhigh, ?_⟩
      omega
    simp only [List.cons_append, first]
    rw [if_neg (by omega), if_neg (by omega), if_neg (by omega), if_neg (by omega), if_neg (by omega),
      if_neg (by omega)]
    split
    · exact hwindow (by simp only [UInt8.reduceToNat]; omega) (by simp only [UInt8.reduceToNat]; omega)
    split
    · exact hwindow (by simp only [UInt8.reduceToNat]; omega) (by simp only [UInt8.reduceToNat]; omega)
    rw [if_pos (by omega)]
    exact hwindow (by simp only [UInt8.reduceToNat]; omega) (by simp only [UInt8.reduceToNat]; omega)

theorem settles_one (code more : Nat) : Sequence.Settles (one code more) := by
  intro bytes rest h
  cases bytes with
  | nil => exact absurd rfl h
  | cons b bytes => rfl

theorem settles_two (code more : Nat) : Sequence.Settles (two code more) := by
  intro bytes rest h
  cases bytes with
  | nil => exact absurd rfl h
  | cons b bytes =>
    cases hb : tail? b with
    | none => simp only [List.cons_append, two, hb]
    | some bits =>
      simp only [two, hb] at h
      simpa only [List.cons_append, two, hb] using settles_one _ _ _ _ h

theorem settles_window {next : Nat → List UInt8 → Sequence} (hnext : ∀ code, Sequence.Settles (next code)) :
    Sequence.Settles (window low high code next) := by
  intro bytes rest h
  cases bytes with
  | nil => exact absurd rfl h
  | cons b bytes => exact Sequence.Settles.ite (hnext _) (.const _) bytes rest h

theorem settles_first : Sequence.Settles first := by
  intro bytes rest h
  cases bytes with
  | nil => exact absurd rfl h
  | cons a bytes =>
    have three {low high : UInt8} {code : Nat} : Sequence.Settles (window low high code fun code => one code 2) :=
      settles_window fun code => settles_one code 2
    have four {low high : UInt8} {code : Nat} : Sequence.Settles (window low high code fun code => two code 3) :=
      settles_window fun code => settles_two code 3
    have hlead : Sequence.Settles fun bytes => first (a :: bytes) :=
      .ite (.const _) (.ite (.const _) (.ite (settles_one _ _) (.ite three (.ite three (.ite three
        (.ite four (.ite four (.ite four (.const _)))))))))
    exact hlead bytes rest h

end Utf8

namespace Utf16

def ByteOrder.bytes (order : ByteOrder) (unit : Nat) : List UInt8 :=
  match order with
  | .little => [UInt8.ofNat (unit % 256), UInt8.ofNat (unit / 256)]
  | .big => [UInt8.ofNat (unit / 256), UInt8.ofNat (unit % 256)]

/-- A code of 16 bits is a unit; a larger one is written as a high and a low surrogate. -/
def encodeChar (order : ByteOrder) (c : Char) : List UInt8 :=
  if c.toNat < 0x10000 then order.bytes c.toNat
  else order.bytes (0xD800 + (c.toNat - 0x10000) / 1024) ++ order.bytes (0xDC00 + (c.toNat - 0x10000) % 1024)

variable {order : ByteOrder} {c : Char} {k : Nat} {bytes : List UInt8}

theorem unit_lt (order : ByteOrder) (a b : UInt8) : order.unit a b < 0x10000 := by
  have ha := a.toNat_lt
  have hb := b.toNat_lt
  cases order <;> simp only [ByteOrder.unit] <;> omega

theorem bytes_unit (order : ByteOrder) (a b : UInt8) : order.bytes (order.unit a b) = [a, b] := by
  have hlow {x y : UInt8} : UInt8.ofNat ((x.toNat * 256 + y.toNat) % 256) = y := by
    have hy := y.toNat_lt
    rw [show (x.toNat * 256 + y.toNat) % 256 = y.toNat by omega, UInt8.ofNat_toNat]
  have hhigh {x y : UInt8} : UInt8.ofNat ((x.toNat * 256 + y.toNat) / 256) = x := by
    have hy := y.toNat_lt
    rw [show (x.toNat * 256 + y.toNat) / 256 = x.toNat by omega, UInt8.ofNat_toNat]
  cases order <;> simp only [ByteOrder.unit, ByteOrder.bytes, hlow, hhigh]

theorem exists_bytes (order : ByteOrder) {unit : Nat} (h : unit < 0x10000) :
    ∃ a b, order.bytes unit = [a, b] ∧ order.unit a b = unit := by
  cases order with
  | little =>
    refine ⟨_, _, rfl, ?_⟩
    simp only [ByteOrder.unit, UInt8.toNat_ofNat']
    omega
  | big =>
    refine ⟨_, _, rfl, ?_⟩
    simp only [ByteOrder.unit, UInt8.toNat_ofNat']
    omega

theorem bytes_of_first (h : first order bytes = .char c k) :
    ∃ rest, bytes = encodeChar order c ++ rest ∧ (encodeChar order c).length = k + 1 := by
  match bytes with
  | [] | [_] => cases h
  | a :: b :: rest =>
    have hunit := unit_lt order a b
    simp only [first] at h
    split at h
    · match rest with
      | [] | [_] => cases h
      | x :: y :: rest =>
        simp only at h
        split at h
        · obtain ⟨hc, rfl⟩ := Sequence.ofCode_eq_char_iff.mp h
          have hhigh : 0xD800 + (c.toNat - 0x10000) / 1024 = order.unit a b := by omega
          have hlow : 0xDC00 + (c.toNat - 0x10000) % 1024 = order.unit x y := by omega
          rw [encodeChar, if_neg (by omega), hhigh, hlow, bytes_unit, bytes_unit]
          exact ⟨rest, rfl, rfl⟩
        · cases h
    · obtain ⟨hc, rfl⟩ := Sequence.ofCode_eq_char_iff.mp h
      rw [encodeChar, if_pos (by omega), hc, bytes_unit]
      exact ⟨rest, rfl, rfl⟩

theorem first_encodeChar_append (order : ByteOrder) (c : Char) (rest : List UInt8) :
    first order (encodeChar order c ++ rest) = .char c ((encodeChar order c).length - 1) := by
  have hvalid : c.toNat.isValidChar := c.valid
  simp only [Nat.isValidChar] at hvalid
  unfold encodeChar
  split
  · rename_i hcode
    obtain ⟨a, b, hbytes, hunit⟩ := exists_bytes order hcode
    rw [hbytes]
    simp only [List.cons_append, first, hunit]
    rw [if_neg (by omega), Sequence.ofCode_eq_char_iff]
    exact ⟨rfl, rfl⟩
  · have hhigh : 0xD800 + (c.toNat - 0x10000) / 1024 < 0x10000 := by omega
    have hlow : 0xDC00 + (c.toNat - 0x10000) % 1024 < 0x10000 := by omega
    obtain ⟨a, b, hbytes, hunit⟩ := exists_bytes order hhigh
    obtain ⟨x, y, hbytes', hunit'⟩ := exists_bytes order hlow
    rw [hbytes, hbytes']
    simp only [List.cons_append, List.nil_append, first, hunit, hunit']
    rw [if_pos (by omega), if_pos (by omega), Sequence.ofCode_eq_char_iff]
    refine ⟨?_, rfl⟩
    omega

theorem settles_first (order : ByteOrder) : Sequence.Settles (first order) := by
  intro bytes rest h
  match bytes with
  | [] | [_] => exact absurd rfl h
  | a :: b :: bytes =>
    have hpair : Sequence.Settles fun bytes => first order (a :: b :: bytes) := by
      refine Sequence.Settles.ite ?_ (.const _)
      intro bytes rest h
      match bytes with
      | [] | [_] => exact absurd rfl h
      | x :: y :: bytes => rfl
    exact hpair bytes rest h

end Utf16

namespace Encoding

/-- The bytes of a character, if the encoding has it. -/
def encodeChar? : Encoding → Char → Option (List UInt8)
  | utf8, c => some (String.utf8EncodeChar c)
  | utf16le, c => some (Utf16.encodeChar .little c)
  | utf16be, c => some (Utf16.encodeChar .big c)
  | latin1, c => if c.toNat < 256 then some [UInt8.ofNat c.toNat] else none
  | ascii, c => if c.toNat < 128 then some [UInt8.ofNat c.toNat] else none

/-- The bytes of a text, if the encoding has all its characters. -/
def encode? (e : Encoding) : List Char → Option (List UInt8)
  | [] => some []
  | c :: text => (e.encodeChar? c).bind fun bytes => (e.encode? text).map (bytes ++ ·)

variable {e : Encoding} {c : Char} {k : Nat} {bytes : List UInt8}

@[simp] theorem first_nil (e : Encoding) : e.first [] = .incomplete := by
  cases e <;> rfl

/-- Of the encodings with one byte for each character, the one with the codes below `limit`. -/
theorem byte_eq_char_iff {limit : Nat} (hlimit : limit ≤ 256) (b : UInt8) (rest : List UInt8) :
    (if b.toNat < limit then Sequence.ofCode b.toNat 0 else .invalid) = .char c k ↔ ∃ written rest',
      (if c.toNat < limit then some [UInt8.ofNat c.toNat] else none) = some written ∧
        b :: rest = written ++ rest' ∧ written.length = k + 1 := by
  constructor
  · intro h
    split at h
    · obtain ⟨hc, rfl⟩ := Sequence.ofCode_eq_char_iff.mp h
      refine ⟨[b], rest, ?_, rfl, rfl⟩
      rw [if_pos (by omega), hc, UInt8.ofNat_toNat]
    · cases h
  · rintro ⟨written, rest', hwritten, hbytes, hk⟩
    split at hwritten
    · cases hwritten
      obtain ⟨rfl, -⟩ := List.cons.inj hbytes
      rw [List.length_singleton] at hk
      rw [UInt8.toNat_ofNat', if_pos (by omega), Sequence.ofCode_eq_char_iff]
      omega
    · cases hwritten

/-- What stands at the front is the character whose bytes stand there. -/
theorem first_eq_char_iff : e.first bytes = .char c k ↔
    ∃ written rest, e.encodeChar? c = some written ∧ bytes = written ++ rest ∧ written.length = k + 1 := by
  cases bytes with
  | nil =>
    simp only [first_nil, reduceCtorEq, false_iff]
    rintro ⟨written, rest, -, hbytes, hk⟩
    obtain ⟨rfl, -⟩ := List.nil_eq_append_iff.mp hbytes
    cases hk
  | cons b bytes =>
    have hutf8 : Utf8.first (b :: bytes) = .char c k ↔
        ∃ written rest, some (String.utf8EncodeChar c) = some written ∧ b :: bytes = written ++ rest ∧
          written.length = k + 1 := by
      constructor
      · intro h
        obtain ⟨written, rest, hbytes, hwritten, hk⟩ := Utf8.bytes_of_first h
        exact ⟨written, rest, congrArg some ((Utf8.bytes_encodeChar c).unique hwritten), hbytes, hk⟩
      · rintro ⟨_, rest, ⟨⟩, hbytes, hk⟩
        simp only [hbytes, Utf8.first_append_of_bytes (Utf8.bytes_encodeChar c), hk, Nat.add_sub_cancel]
    have hutf16 (order : Utf16.ByteOrder) : Utf16.first order (b :: bytes) = .char c k ↔
        ∃ written rest, some (Utf16.encodeChar order c) = some written ∧ b :: bytes = written ++ rest ∧
          written.length = k + 1 := by
      constructor
      · intro h
        obtain ⟨rest, hbytes, hk⟩ := Utf16.bytes_of_first h
        exact ⟨_, rest, rfl, hbytes, hk⟩
      · rintro ⟨_, rest, ⟨⟩, hbytes, hk⟩
        simp only [hbytes, Utf16.first_encodeChar_append, hk, Nat.add_sub_cancel]
    cases e with
    | utf8 => exact hutf8
    | utf16le => exact hutf16 .little
    | utf16be => exact hutf16 .big
    | latin1 =>
      have hbyte := byte_eq_char_iff (c := c) (k := k) (Nat.le_refl 256) b bytes
      rwa [if_pos b.toNat_lt] at hbyte
    | ascii =>
      simp only [first, UInt8.lt_iff_toNat_lt, UInt8.reduceToNat]
      exact byte_eq_char_iff (by omega) b bytes

theorem settles_first (e : Encoding) : Sequence.Settles e.first := by
  cases e with
  | utf8 => exact Utf8.settles_first
  | utf16le => exact Utf16.settles_first .little
  | utf16be => exact Utf16.settles_first .big
  | latin1 | ascii =>
    intro bytes rest h
    cases bytes with
    | nil => exact absurd rfl h
    | cons b bytes => rfl

end Encoding

end StreamParsing
