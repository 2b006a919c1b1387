import Mathlib.Data.Nat.Digits.Defs
import TagWire.Text.Decimal

/-! The texts of a whole number. An integer is read from the numerals that spell it, with leading
zeros and a sign or without, and from no other text; the one that is printed is among them. -/
namespace TagWire.Text

/-- Digits that spell `n`, from the highest place down. -/
structure Numeral (cs : List Char) (n : Nat) : Prop where
  ne_nil : cs ≠ []
  digits : ∀ c ∈ cs, c.isDigit = true
  worth_eq : Nat.ofDigits 10 (cs.reverse.map digitValue) = n

inductive SignedNumeral : List Char → Int → Prop
  | bare {cs : List Char} {n : Nat} (h : Numeral cs n) : SignedNumeral cs n
  | plus {cs : List Char} {n : Nat} (h : Numeral cs n) : SignedNumeral ('+' :: cs) n
  | minus {cs : List Char} {n : Nat} (h : Numeral cs n) : SignedNumeral ('-' :: cs) (-n)

theorem foldl_digitValue (cs : List Char) :
    cs.foldl (fun n c => 10 * n + digitValue c) 0 =
      Nat.ofDigits 10 (cs.reverse.map digitValue) := by
  rw [Nat.ofDigits_eq_foldr, List.foldr_map, List.foldr_reverse]
  simp only [Nat.cast_id, Nat.add_comm]

theorem digits?_eq_some_iff {cs : List Char} {n : Nat} : digits? cs = some n ↔ Numeral cs n := by
  unfold digits?
  rw [foldl_digitValue]
  constructor
  · intro h
    split at h
    · next hcs =>
      simp only [Bool.and_eq_true, Bool.not_eq_true', List.isEmpty_eq_false_iff,
        List.all_eq_true] at hcs
      exact ⟨hcs.1, hcs.2, Option.some.inj h⟩
    · cases h
  · rintro ⟨hne, hd, rfl⟩
    simp [hne, List.all_eq_true.2 hd]

theorem integer?_minus (cs : List Char) :
    integer? ('-' :: cs) = (digits? cs).map fun n : Nat => -(n : Int) := by
  simp only [integer?]
  cases digits? cs <;> rfl

theorem integer?_plus (cs : List Char) : integer? ('+' :: cs) = (digits? cs).map Int.ofNat := rfl

theorem integer?_bare {cs : List Char} (hplus : ∀ rest, cs ≠ '+' :: rest)
    (hminus : ∀ rest, cs ≠ '-' :: rest) : integer? cs = (digits? cs).map Int.ofNat := by
  unfold integer?
  split
  · exact absurd rfl (hminus _)
  · exact absurd rfl (hplus _)
  · rfl

theorem Numeral.ne_cons {c : Char} {cs : List Char} {n : Nat} (h : Numeral cs n)
    (hc : c.isDigit = false) (rest : List Char) : cs ≠ c :: rest := by
  rintro rfl
  simp [h.digits c List.mem_cons_self] at hc

def Unsigned (cs : List Char) (n : Nat) : Prop :=
  Numeral cs n ∨ ∃ digits, cs = '+' :: digits ∧ Numeral digits n

theorem natural?_eq_some_iff {cs : List Char} {n : Nat} : natural? cs = some n ↔ Unsigned cs n := by
  unfold natural? Unsigned
  split
  · next digits =>
    rw [digits?_eq_some_iff]
    constructor
    · exact fun h => .inr ⟨digits, rfl, h⟩
    · rintro (h | ⟨_, heq, h⟩)
      · exact absurd rfl (h.ne_cons (by decide) digits)
      · cases heq
        exact h
  · next hplus =>
    rw [digits?_eq_some_iff]
    constructor
    · exact .inl
    · rintro (h | ⟨digits, rfl, -⟩)
      · exact h
      · exact absurd rfl (hplus digits)

theorem signedNumeral_of_integer? {cs : List Char} {z : Int} (h : integer? cs = some z) :
    SignedNumeral cs z := by
  by_cases hminus : ∃ rest, cs = '-' :: rest
  · obtain ⟨rest, rfl⟩ := hminus
    obtain ⟨n, hn, rfl⟩ := Option.map_eq_some_iff.1 (integer?_minus rest ▸ h)
    exact .minus (digits?_eq_some_iff.1 hn)
  · by_cases hplus : ∃ rest, cs = '+' :: rest
    · obtain ⟨rest, rfl⟩ := hplus
      obtain ⟨n, hn, rfl⟩ := Option.map_eq_some_iff.1 (integer?_plus rest ▸ h)
      exact .plus (digits?_eq_some_iff.1 hn)
    · rw [integer?_bare (not_exists.1 hplus) (not_exists.1 hminus)] at h
      obtain ⟨n, hn, rfl⟩ := Option.map_eq_some_iff.1 h
      exact .bare (digits?_eq_some_iff.1 hn)

theorem integer?_eq_some_iff {cs : List Char} {z : Int} :
    integer? cs = some z ↔ SignedNumeral cs z := by
  constructor
  · exact signedNumeral_of_integer?
  · intro h
    cases h with
    | bare h =>
      rw [integer?_bare (h.ne_cons (by decide)) (h.ne_cons (by decide)),
        digits?_eq_some_iff.2 h]
      rfl
    | plus h =>
      rw [integer?_plus, digits?_eq_some_iff.2 h]
      rfl
    | minus h =>
      rw [integer?_minus, digits?_eq_some_iff.2 h]
      rfl

theorem numeral_toDigits (n : Nat) : Numeral (Nat.toDigits 10 n) n where
  ne_nil := Nat.toDigits_ne_nil
  digits _ := Nat.isDigit_of_mem_toDigits (by decide) (by decide)
  worth_eq := (foldl_digitValue _).symm.trans Nat.ofDigitChars_ten_toDigits

theorem signedNumeral_toString (z : Int) : SignedNumeral (toString z).toList z := by
  cases z with
  | ofNat n =>
    have htext : (toString (Int.ofNat n)).toList = Nat.toDigits 10 n := Nat.toList_repr
    rw [htext]
    exact .bare (numeral_toDigits n)
  | negSucc n =>
    have htext : (toString (Int.negSucc n)).toList = '-' :: Nat.toDigits 10 (n + 1) := by
      rw [Int.toString_eq_repr, Int.repr, String.toList_append, Nat.toList_repr]
      rfl
    rw [htext]
    exact .minus (numeral_toDigits (n + 1))

theorem SignedNumeral.ne_nil {cs : List Char} {z : Int} (h : SignedNumeral cs z) : cs ≠ [] := by
  cases h with
  | bare h => exact h.ne_nil
  | plus h => exact List.cons_ne_nil _ _
  | minus h => exact List.cons_ne_nil _ _

theorem SignedNumeral.mem {cs : List Char} {z : Int} (h : SignedNumeral cs z) {c : Char}
    (hc : c ∈ cs) : c = '+' ∨ c = '-' ∨ c.isDigit = true := by
  cases h with
  | bare h => exact .inr (.inr (h.digits c hc))
  | plus h =>
    rcases List.mem_cons.1 hc with rfl | hc
    · exact .inl rfl
    · exact .inr (.inr (h.digits c hc))
  | minus h =>
    rcases List.mem_cons.1 hc with rfl | hc
    · exact .inr (.inl rfl)
    · exact .inr (.inr (h.digits c hc))

end TagWire.Text
