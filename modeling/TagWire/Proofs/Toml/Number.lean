import Mathlib.Data.List.Basic
import TagWire.Proofs.Text.Decimal
import TagWire.Proofs.Toml.Scan
import TagWire.Toml.Value

/-! Integers are read back. The text of an integer is no date and no float, as neither a colon nor a
point nor anything else that these need comes after its digits. -/
namespace TagWire.Toml

open Scan

variable {cs ds text rest : List Char} {c : Char}

/-- Nothing that could go on with a number. -/
def Closes (rest : List Char) : Prop :=
  ∀ c ∈ rest.head?, isBareChar c = false ∧ c ≠ '.' ∧ c ≠ ':'

theorem Closes.isDigit (h : Closes rest) : ∀ c ∈ rest.head?, c.isDigit = false := by
  intro c hc
  have := (h c hc).1
  simp only [isBareChar, Char.isAlphanum, Bool.or_eq_false_iff] at this
  exact this.1.1.2

theorem Closes.satisfy {p : Char → Bool} (h : Closes rest)
    (hp : ∀ c, p c = true → isBareChar c = true) : satisfy p rest = none := by
  cases rest with
  | nil => rfl
  | cons c rest =>
    refine satisfy_of_neg (Bool.eq_false_iff.2 fun hc => ?_) rest
    exact absurd (hp c hc) (by simp [(h c rfl).1])

/-! ### Digits -/

theorem head_toDigits {n : Nat} (hn : 0 < n) :
    ∃ d more, Nat.toDigits 10 n = d :: more ∧ d ≠ '0' := by
  induction n using Nat.strongRecOn with
  | ind n ih =>
    by_cases hlt : n < 10
    · have hall : ∀ n : Fin 10, 0 < n.val → Nat.digitChar n.val ≠ '0' := by decide
      exact ⟨n.digitChar, [], Nat.toDigits_of_lt_base hlt, hall ⟨n, hlt⟩ hn⟩
    · obtain ⟨d, more, hmore, hd⟩ := ih (n / 10) (by omega) (by omega)
      refine ⟨d, more ++ [(n % 10).digitChar], ?_, hd⟩
      rw [Nat.toDigits_of_base_le (by decide) (by omega), hmore, List.cons_append]

/-- Digits as they are written: none but a single zero starts with one. -/
structure Written (ds : List Char) (n : Nat) : Prop extends Text.Numeral ds n where
  head : ds = ['0'] ∨ ∃ d more, ds = d :: more ∧ d ≠ '0'

theorem written_toDigits (n : Nat) : Written (Nat.toDigits 10 n) n where
  toNumeral := Text.numeral_toDigits n
  head := (Nat.eq_zero_or_pos n).imp (by rintro rfl; rfl) head_toDigits

theorem ofDigits_of_written {n : Nat} (h : Written ds n) : ofDigits 10 ds = n := by
  have hdigit : ∀ m, ∀ c ∈ ds, 10 * m + digitOf c = 10 * m + Text.digitValue c := by
    intro m c hc
    rw [digitOf, if_pos (h.digits c hc)]
    rfl
  rw [ofDigits, List.foldl_ext _ _ 0 hdigit, Text.foldl_digitValue, h.worth_eq]

theorem Written.exists_cons {n : Nat} (h : Written ds n) :
    ∃ d more, ds = d :: more ∧ d.isDigit = true ∧ ∀ c ∈ more, c.isDigit = true := by
  match ds, h.ne_nil with
  | d :: more, _ =>
    have := h.digits
    exact ⟨d, more, rfl, this d List.mem_cons_self, fun c hc => this c (List.mem_cons_of_mem _ hc)⟩

def nextDigit : Scan Char := satisfy Char.isDigit <|> do
  exactly "_"
  satisfy Char.isDigit

theorem Closes.exactly {s : String} {first : Char} {more : List Char} (h : Closes rest)
    (hs : s.toList = first :: more)
    (hfirst : isBareChar first = true ∨ first = '.' ∨ first = ':') : exactly s rest = none := by
  refine exactly_of_head? hs fun hhead => ?_
  have := h first hhead
  simp_all

theorem repeats_nextDigit (hrest : Closes rest) (h : ∀ c ∈ ds, c.isDigit = true) :
    Repeats nextDigit rest (ds ++ rest) ds := by
  induction ds with
  | nil =>
    have hdigit : satisfy Char.isDigit rest = none :=
      hrest.satisfy fun c hc => by simp [isBareChar, Char.isAlphanum, hc]
    have hunderscore : exactly "_" rest = none := hrest.exactly rfl (by decide)
    exact .stop ((orElse_of_none hdigit).trans (bind_of_none hunderscore))
  | cons c ds ih =>
    have ih := ih fun c hc => h c (List.mem_cons_of_mem _ hc)
    have hfirst (rest : List Char) : nextDigit ([c] ++ rest) = some (c, rest) :=
      orElse_of_some (satisfy_of_pos (h c List.mem_cons_self) rest)
    have hall : Repeats nextDigit rest ([c] ++ (ds ++ rest)) (c :: ds) :=
      ih.cons (hfirst _) (List.cons_ne_nil _ _)
    exact hall

def wholeDigits : Scan (List Char) :=
  (do
    let first ← satisfy fun c => c.isDigit && c != '0'
    let more ← many nextDigit
    return first :: more) <|> (do return [← satisfy Char.isDigit])

theorem wholeDigits_append {n : Nat} (h : Written ds n) (hrest : Closes rest) :
    wholeDigits (ds ++ rest) = some (ds, rest) := by
  rcases h.head with rfl | ⟨d, more, rfl, hd⟩
  · rfl
  · have hfirst : satisfy (fun c => c.isDigit && c != '0') (d :: (more ++ rest)) =
        some (d, more ++ rest) := by
      apply satisfy_of_pos
      simpa [hd] using h.digits d List.mem_cons_self
    have hmore := many_of_repeats
      (repeats_nextDigit hrest fun c hc => h.digits c (List.mem_cons_of_mem _ hc))
    apply orElse_of_some
    rw [List.cons_append, bind_of_some hfirst, bind_of_some hmore]
    rfl

def sign : Scan Bool :=
  (do exactly "-"; return true) <|> (do exactly "+"; return false) <|> pure false

theorem decimal_eq : decimal = do
    let negative ← sign
    let digits ← wholeDigits
    return (negative, digits) := rfl

def signed (negative : Bool) (ds : List Char) : List Char := if negative then '-' :: ds else ds

theorem exactly_of_digit {s : String} {first : Char} {more : List Char}
    (hs : s.toList = first :: more) (hfirst : first.isDigit = false) (hc : c.isDigit = true)
    (rest : List Char) : exactly s (c :: rest) = none := by
  apply exactly_cons_of_ne hs
  rintro rfl
  rw [hc] at hfirst
  cases hfirst

theorem sign_signed {negative : Bool} (hc : c.isDigit = true) (rest : List Char) :
    sign (signed negative (c :: rest)) = some (negative, c :: rest) := by
  cases negative with
  | true => rfl
  | false =>
    have hminus : exactly "-" (c :: rest) = none := exactly_of_digit rfl (by decide) hc rest
    have hplus : exactly "+" (c :: rest) = none := exactly_of_digit rfl (by decide) hc rest
    exact (orElse_of_none (bind_of_none hminus)).trans (orElse_of_none (bind_of_none hplus))

theorem decimal_signed {n : Nat} {negative : Bool} (h : Written ds n) (hrest : Closes rest) :
    decimal (signed negative (ds ++ rest)) = some ((negative, ds), rest) := by
  have hsign : sign (signed negative (ds ++ rest)) = some (negative, ds ++ rest) := by
    obtain ⟨d, more, rfl, hd, -⟩ := h.exists_cons
    exact sign_signed hd _
  rw [decimal_eq, bind_of_some hsign, bind_of_some (wholeDigits_append h hrest)]
  rfl

/-! ### Neither a date nor a float -/

theorem mapM_satisfy {p : Char → Bool} (k : List Nat) {taken left : List Char}
    (h : (k.mapM fun _ => satisfy p) text = some (taken, left)) :
    text = taken ++ left ∧ ∀ c ∈ taken, p c = true := by
  induction k generalizing text taken with
  | nil =>
    cases h
    exact ⟨rfl, by simp⟩
  | cons _ k ih =>
    rw [List.mapM_cons] at h
    obtain ⟨c, _, hc, h⟩ := exists_of_bind h
    obtain ⟨more, _, hmore, h⟩ := exists_of_bind h
    cases h
    obtain ⟨rfl, hall⟩ := ih hmore
    obtain ⟨rfl, hfirst⟩ := eq_cons_of_satisfy hc
    exact ⟨rfl, by simpa [hfirst] using hall⟩

/-- What is left behind a field is some of the digits and the rest. -/
theorem exactly_of_field {k least greatest n : Nat} {left : List Char} {s : String} {first : Char}
    {more : List Char} (hs : s.toList = first :: more) (hfirst : first = '-' ∨ first = ':')
    (hds : ∀ c ∈ ds, c.isDigit = true) (hrest : Closes rest)
    (h : field k least greatest (ds ++ rest) = some (n, left)) : exactly s left = none := by
  obtain ⟨taken, _, htaken, h⟩ := exists_of_bind h
  obtain ⟨happ, hall⟩ := mapM_satisfy _ htaken
  dsimp only at h
  split at h
  case isFalse => cases h
  cases h
  have hclosed : exactly s rest = none :=
    hrest.exactly hs (hfirst.imp (by rintro rfl; rfl) .inr)
  rcases List.append_eq_append_iff.1 happ with ⟨excess, rfl, hrest'⟩ | ⟨digits, rfl, rfl⟩
  · cases excess with
    | nil =>
      rwa [← List.nil_append left, ← hrest']
    | cons d excess =>
      have hd : d.isDigit = true := hall d (by simp)
      exact absurd (hrest.isDigit d (by simp [hrest'])) (by simp [hd])
  · cases digits with
    | nil => exact hclosed
    | cons d digits =>
      refine exactly_of_digit hs ?_ (hds d (by simp)) _
      rcases hfirst with rfl | rfl <;> rfl

theorem field_bind_append {β : Type} {k least greatest : Nat} {s : String} {first : Char}
    {more : List Char} (hs : s.toList = first :: more) (hfirst : first = '-' ∨ first = ':')
    (hds : ∀ c ∈ ds, c.isDigit = true) (hrest : Closes rest) (f : Nat → Unit → Scan β) :
    (field k least greatest >>= fun n => exactly s >>= f n) (ds ++ rest) = none := by
  cases hfield : field k least greatest (ds ++ rest) with
  | none => exact bind_of_none hfield
  | some r =>
    obtain ⟨n, left⟩ := r
    exact (bind_of_some hfield).trans
      (bind_of_none (exactly_of_field hs hfirst hds hrest hfield))

theorem clock_append (hds : ∀ c ∈ ds, c.isDigit = true) (hrest : Closes rest) :
    clock (ds ++ rest) = none :=
  field_bind_append rfl (.inr rfl) hds hrest _

theorem day_append (hds : ∀ c ∈ ds, c.isDigit = true) (hrest : Closes rest) :
    day (ds ++ rest) = none :=
  field_bind_append rfl (.inl rfl) hds hrest _

theorem date_signed {negative : Bool} (hds : ∀ c ∈ ds, c.isDigit = true) (hrest : Closes rest) :
    date (signed negative (ds ++ rest)) = none := by
  cases negative with
  | false =>
    exact (orElse_of_none (clock_append hds hrest)).trans (bind_of_none (day_append hds hrest))
  | true =>
    have hclock : field 2 0 23 ('-' :: (ds ++ rest)) = none := rfl
    have hday : field 4 0 9999 ('-' :: (ds ++ rest)) = none := rfl
    exact (orElse_of_none (bind_of_none hclock)).trans (bind_of_none (bind_of_none hday))

theorem special_signed {negative : Bool} (hc : c.isDigit = true) (rest : List Char) :
    special (signed negative (c :: rest)) = none := by
  have hsign : optionally (exactly "+" <|> exactly "-") (signed negative (c :: rest)) =
      some ((), c :: rest) := by
    cases negative with
    | true => rfl
    | false =>
      have hplus : exactly "+" (c :: rest) = none := exactly_of_digit rfl (by decide) hc rest
      have hminus : exactly "-" (c :: rest) = none := exactly_of_digit rfl (by decide) hc rest
      exact optionally_of_none ((orElse_of_none hplus).trans hminus)
  have hinf : exactly "inf" (c :: rest) = none := exactly_of_digit rfl (by decide) hc rest
  have hnan : exactly "nan" (c :: rest) = none := exactly_of_digit rfl (by decide) hc rest
  rw [special, bind_of_some hsign]
  exact (orElse_of_none hinf).trans hnan

theorem float_signed {n : Nat} {negative : Bool} (h : Written ds n) (hrest : Closes rest) :
    float (signed negative (ds ++ rest)) = none := by
  have hletter : satisfy (fun c => c = 'e' || c = 'E') rest = none := by
    refine hrest.satisfy fun c hc => ?_
    rcases (Bool.or_eq_true _ _).mp hc with h | h
    all_goals
      rw [of_decide_eq_true h]
      rfl
  have hpoint : exactly "." rest = none := hrest.exactly rfl (.inr (.inl rfl))
  have hfinite : finite (signed negative (ds ++ rest)) = none := by
    rw [finite, bind_of_some (decimal_signed h hrest)]
    exact bind_of_none ((orElse_of_none (bind_of_none (bind_of_none hletter))).trans
      (bind_of_none hpoint))
  obtain ⟨d, more, rfl, hd, -⟩ := h.exists_cons
  exact (orElse_of_none hfinite).trans (special_signed hd _)

/-! ### The integer -/

theorem toList_toString (z : Int) :
    (toString z).toList = signed (decide (z < 0)) (Nat.toDigits 10 z.natAbs) := by
  cases z with
  | ofNat n => exact Nat.toList_repr
  | negSucc n =>
    rw [Int.toString_eq_repr, Int.repr, String.toList_append, Nat.toList_repr,
      decide_eq_true (Int.negSucc_lt_zero n)]
    rfl

theorem exactly_base {n : Nat} {negative : Bool} {s : String} {letter : Char}
    (hs : s.toList = ['0', letter]) (hletter : letter.isDigit = false)
    (hbare : isBareChar letter = true) (h : Written ds n) (hrest : Closes rest) :
    exactly s (signed negative (ds ++ rest)) = none := by
  rw [exactly_eq_none_iff, hs]
  cases negative with
  | true => exact fun hprefix => absurd (List.cons_prefix_cons.1 hprefix).1 (by decide)
  | false =>
    intro hprefix
    obtain ⟨d, more, rfl, -, hmore⟩ := h.exists_cons
    have htail := (List.cons_prefix_cons.1 hprefix).2
    cases more with
    | nil =>
      obtain ⟨left, hleft⟩ := htail
      obtain rfl : letter :: left = rest := hleft
      rw [(hrest letter rfl).1] at hbare
      cases hbare
    | cons d more =>
      rw [(List.cons_prefix_cons.1 htail).1, hmore d List.mem_cons_self] at hletter
      cases hletter

theorem toList_toString_append (z : Int) (rest : List Char) :
    (toString z).toList ++ rest =
      signed (decide (z < 0)) (Nat.toDigits 10 z.natAbs ++ rest) := by
  rw [toList_toString]
  cases decide (z < 0) <;> rfl

theorem integer_toString {z : Int} (hz : IntKind.i64.Fits z) (hrest : Closes rest) :
    integer ((toString z).toList ++ rest) = some (z, rest) := by
  have hds := written_toDigits z.natAbs
  rw [toList_toString_append]
  have hbase (s : String) (letter : Char) (hs : s.toList = ['0', letter])
      (hletter : letter.isDigit = false) (hbare : isBareChar letter = true) :
      exactly s (signed (decide (z < 0)) (Nat.toDigits 10 z.natAbs ++ rest)) = none :=
    exactly_base hs hletter hbare hds hrest
  have hvalue : (if decide (z < 0) = true then -(ofDigits 10 (Nat.toDigits 10 z.natAbs) : Int)
      else ofDigits 10 (Nat.toDigits 10 z.natAbs)) = z := by
    simp only [ofDigits_of_written hds, decide_eq_true_eq]
    split <;> omega
  have hdecimal : decimal (signed (decide (z < 0)) (Nat.toDigits 10 z.natAbs ++ rest)) =
      some ((decide (z < 0), Nat.toDigits 10 z.natAbs), rest) := decimal_signed hds hrest
  refine (bind_of_some (show _ = some (z, rest) from ?_)).trans ?_
  · apply (orElse_of_none (bind_of_none (hbase "0x" 'x' rfl rfl rfl))).trans
    apply (orElse_of_none (bind_of_none (hbase "0o" 'o' rfl rfl rfl))).trans
    apply (orElse_of_none (bind_of_none (hbase "0b" 'b' rfl rfl rfl))).trans
    apply (bind_of_some hdecimal).trans
    exact congrArg (fun z => some (z, rest)) hvalue
  · rw [if_pos hz]
    rfl

end TagWire.Toml
