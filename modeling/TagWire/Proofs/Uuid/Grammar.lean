import TagWire.Proofs.Uuid

/-! The texts of a UUID. Sixteen bytes are spelled by thirty-two hex digits of either case, alone or
in groups between hyphens, in braces, or after the name of the space; these texts are parsed and no
others, and each as what its digits spell. -/
namespace TagWire

namespace Text

def IsHexDigit (c : Char) : Prop :=
  '0' ≤ c ∧ c ≤ '9' ∨ 'a' ≤ c ∧ c ≤ 'f' ∨ 'A' ≤ c ∧ c ≤ 'F'

instance (c : Char) : Decidable (IsHexDigit c) := inferInstanceAs (Decidable (_ ∨ _))

end Text

open Text (IsHexDigit hexDigits)

namespace Octets

/-! ### Digits -/

theorem toNat_lt_of_nibble? {c : Char} {x : UInt8} (h : nibble? c = some x) : c.toNat < 128 := by
  unfold nibble? at h
  have hle (d : Char) (hd : d.toNat < 128) (hc : c ≤ d) : c.toNat < 128 :=
    Nat.lt_of_le_of_lt (Char.le_def.1 hc) hd
  split at h
  · next hc => exact hle '9' (by decide) hc.2
  · split at h
    · next hc => exact hle 'f' (by decide) hc.2
    · split at h
      · next hc => exact hle 'F' (by decide) hc.2
      · cases h

theorem nibble?_toLower (c : Char) : nibble? c.toLower = nibble? c := by
  by_cases hc : c.toNat < 128
  · have hall : ∀ n : Fin 128, nibble? (Char.ofNat n).toLower = nibble? (Char.ofNat n) := by
      decide +kernel
    have := hall ⟨c.toNat, hc⟩
    rwa [Char.ofNat_toNat] at this
  · have hsame : c.toLower = c := by
      unfold Char.toLower
      rw [dif_neg]
      rintro ⟨-, h⟩
      exact hc (Nat.lt_of_le_of_lt (UInt32.le_iff_toNat_le.1 h) (by decide))
    rw [hsame]

theorem nibble?_eq_some_iff {c : Char} {x : UInt8} :
    nibble? c = some x ↔ ∃ n < 16, x = UInt8.ofNat n ∧ c.toLower = n.digitChar := by
  constructor
  · intro h
    have hall : ∀ n : Fin 128, ∀ x ∈ nibble? (Char.ofNat n),
        ∃ m < 16, x = UInt8.ofNat m ∧ (Char.ofNat n).toLower = m.digitChar := by decide +kernel
    have := hall ⟨c.toNat, toNat_lt_of_nibble? h⟩ x
    rw [Char.ofNat_toNat] at this
    exact this h
  · rintro ⟨n, hn, rfl, hc⟩
    rw [← nibble?_toLower, hc, nibble?_digitChar hn]

theorem isHexDigit_iff {c : Char} : IsHexDigit c ↔ ∃ x, nibble? c = some x := by
  rw [← Option.isSome_iff_exists, nibble?]
  unfold IsHexDigit
  repeat' split
  all_goals simp [*]

theorem nibbles_eq_iff {high low : Char} {b : UInt8} :
    (∃ h l, nibble? high = some h ∧ nibble? low = some l ∧ 16 * h + l = b) ↔
      [high.toLower, low.toLower] = hexDigits b := by
  have hsum {n m : Nat} (hn : n < 16) (hm : m < 16) :
      (16 * UInt8.ofNat n + UInt8.ofNat m).toNat = 16 * n + m := by
    simp only [UInt8.toNat_add, UInt8.toNat_mul, UInt8.toNat_ofNat']
    show (16 * (n % 256) % 256 + m % 256) % 256 = 16 * n + m
    omega
  unfold hexDigits
  rw [List.cons.injEq, List.cons.injEq]
  constructor
  · rintro ⟨h, l, hh, hl, rfl⟩
    obtain ⟨n, hn, rfl, hhigh⟩ := nibble?_eq_some_iff.1 hh
    obtain ⟨m, hm, rfl, hlow⟩ := nibble?_eq_some_iff.1 hl
    rw [hsum hn hm, hhigh, hlow]
    refine ⟨congrArg _ (by omega), congrArg _ (by omega), rfl⟩
  · rintro ⟨hhigh, hlow, -⟩
    have hb := b.toNat_lt
    have hn : b.toNat / 16 < 16 := by omega
    have hm : b.toNat % 16 < 16 := by omega
    refine ⟨_, _, nibble?_eq_some_iff.2 ⟨_, hn, rfl, hhigh⟩,
      nibble?_eq_some_iff.2 ⟨_, hm, rfl, hlow⟩, ?_⟩
    apply UInt8.toNat_inj.1
    rw [hsum hn hm]
    omega

theorem bytesOfHex?_eq_some_iff {cs : List Char} {bytes : List UInt8} :
    bytesOfHex? cs = some bytes ↔ cs.map Char.toLower = bytes.flatMap hexDigits := by
  fun_induction bytesOfHex? cs generalizing bytes with
  | case1 => cases bytes <;> simp [hexDigits]
  | case2 high low rest ih =>
    cases bytes with
    | nil => simp [Option.bind_eq_some_iff]
    | cons b bytes =>
      have hright : (high :: low :: rest).map Char.toLower = (b :: bytes).flatMap hexDigits ↔
          [high.toLower, low.toLower] = hexDigits b ∧
            rest.map Char.toLower = bytes.flatMap hexDigits := by
        simp [hexDigits, and_assoc]
      rw [hright, ← nibbles_eq_iff, ← ih]
      simp only [Option.bind_eq_bind, Option.bind_eq_some_iff, Option.pure_def,
        Option.some.injEq, List.cons.injEq]
      constructor
      · rintro ⟨h, hh, l, hl, bs, hbs, hb, rfl⟩
        exact ⟨⟨h, l, hh, hl, hb⟩, hbs⟩
      · rintro ⟨⟨h, l, hh, hl, hb⟩, hbs⟩
        exact ⟨h, hh, l, hl, bytes, hbs, hb, rfl⟩
  | case3 c => cases bytes <;> simp [hexDigits]

def IsDigits (digits : List Char) : Prop := digits.length = 32 ∧ ∀ c ∈ digits, IsHexDigit c

-- Of the characters in the list only: an instance found by search may run through all there are.
instance (digits : List Char) : Decidable (IsDigits digits) :=
  @instDecidableAnd _ _ _ (List.decidableBAll IsHexDigit digits)

/-- The digits spell these bytes, two digits a byte: in lower case they are those of the bytes. -/
def SpelledBy (o : Octets) (digits : List Char) : Prop :=
  digits.map Char.toLower = o.bytes.flatMap hexDigits

theorem plain?_eq_some_iff {digits : List Char} {o : Octets} :
    plain? digits = some o ↔ o.SpelledBy digits := by
  rw [SpelledBy, ← bytesOfHex?_eq_some_iff, plain?]
  simp only [Option.bind_eq_bind, Option.bind_eq_some_iff, ofList?]
  constructor
  · rintro ⟨bytes, hbytes, ho⟩
    split at ho <;> cases ho
    exact hbytes
  · intro h
    exact ⟨o.bytes, h, dif_pos o.length_eq⟩

theorem exists_bytesOfHex? {n : Nat} {cs : List Char} (hlen : cs.length = 2 * n)
    (h : ∀ c ∈ cs, IsHexDigit c) : ∃ bytes, bytesOfHex? cs = some bytes ∧ bytes.length = n := by
  fun_induction bytesOfHex? cs generalizing n with
  | case1 =>
    rw [List.length_nil] at hlen
    exact ⟨[], rfl, by rw [List.length_nil]; omega⟩
  | case2 high low rest ih =>
    rw [List.length_cons, List.length_cons] at hlen
    obtain ⟨x, hx⟩ := isHexDigit_iff.1 (h high (by simp))
    obtain ⟨y, hy⟩ := isHexDigit_iff.1 (h low (by simp))
    have hrest : ∀ c ∈ rest, IsHexDigit c := fun c hc => h c (by simp [hc])
    obtain ⟨bytes, hbytes, hl⟩ := ih (show rest.length = 2 * (n - 1) by omega) hrest
    refine ⟨(16 * x + y) :: bytes, by simp [hx, hy, hbytes], ?_⟩
    rw [List.length_cons, hl]
    omega
  | case3 c =>
    rw [List.length_singleton] at hlen
    omega

theorem length_flatMap_hexDigits (bytes : List UInt8) :
    (bytes.flatMap hexDigits).length = 2 * bytes.length := by
  have hd : (fun b => (hexDigits b).length) = fun _ => 2 := rfl
  rw [List.length_flatMap, hd, List.map_const', List.sum_replicate_nat, Nat.mul_comm]

theorem SpelledBy.isDigits {o : Octets} {digits : List Char} (h : o.SpelledBy digits) :
    IsDigits digits := by
  constructor
  · rw [← List.length_map Char.toLower, h, length_flatMap_hexDigits, o.length_eq]
  · intro c hc
    have hlow : c.toLower ∈ o.bytes.flatMap hexDigits := h ▸ List.mem_map_of_mem hc
    obtain ⟨b, -, hb⟩ := List.mem_flatMap.1 hlow
    have hlt := b.toNat_lt
    rw [hexDigits, List.mem_cons, List.mem_singleton] at hb
    rcases hb with hb | hb
    · exact isHexDigit_iff.2 ⟨_, nibble?_eq_some_iff.2 ⟨_, by omega, rfl, hb⟩⟩
    · exact isHexDigit_iff.2 ⟨_, nibble?_eq_some_iff.2 ⟨_, by omega, rfl, hb⟩⟩

theorem exists_spelledBy {digits : List Char} (h : IsDigits digits) :
    ∃ o : Octets, o.SpelledBy digits := by
  obtain ⟨bytes, hbytes, hl⟩ := exists_bytesOfHex? (n := 16) h.1 h.2
  exact ⟨⟨bytes, hl⟩, bytesOfHex?_eq_some_iff.1 hbytes⟩

/-! ### Groups -/

def hyphenate (digits : List Char) : List Char :=
  joined (digits.take 8) ((digits.drop 8).take 4) ((digits.drop 12).take 4)
    ((digits.drop 16).take 4) (digits.drop 20)

theorem hyphenate_append {a b c d e : List Char} (ha : a.length = 8) (hb : b.length = 4)
    (hc : c.length = 4) (hd : d.length = 4) :
    hyphenate (a ++ b ++ c ++ d ++ e) = joined a b c d e := by
  unfold hyphenate
  simp (disch := omega) [ha, hb, hc, List.drop_append, List.drop_eq_nil_of_le]

theorem length_hyphenate {digits : List Char} (h : digits.length = 32) :
    (hyphenate digits).length = 36 := by
  simp [hyphenate, joined, h]

theorem hyphenated?_hyphenate {digits : List Char} (h : digits.length = 32) :
    hyphenated? (hyphenate digits) = plain? digits := by
  have hall : digits.take 8 ++ (digits.drop 8).take 4 ++ (digits.drop 12).take 4 ++
      (digits.drop 16).take 4 ++ digits.drop 20 = digits := by
    have h12 : digits.take 8 ++ (digits.drop 8).take 4 = digits.take 12 := List.take_add.symm
    have h16 : digits.take 12 ++ (digits.drop 12).take 4 = digits.take 16 := List.take_add.symm
    have h20 : digits.take 16 ++ (digits.drop 16).take 4 = digits.take 20 := List.take_add.symm
    rw [h12, h16, h20, List.take_append_drop]
  unfold hyphenate
  rw [hyphenated?_joined, hall] <;> simp [h]

theorem eq_take_cons_drop {cs : List Char} {n : Nat} {c : Char} (h : cs[n]? = some c) :
    cs = cs.take n ++ c :: cs.drop (n + 1) := by
  obtain ⟨hn, rfl⟩ := List.getElem?_eq_some_iff.1 h
  rw [← List.drop_eq_getElem_cons, List.take_append_drop]

theorem drop_eq_take_hyphen_drop {cs : List Char} {m n : Nat} (h : cs[m + n]? = some '-') :
    cs.drop m = (cs.drop m).take n ++ '-' :: cs.drop (m + n + 1) := by
  rw [← List.getElem?_drop] at h
  have hsplit := eq_take_cons_drop h
  rwa [List.drop_drop] at hsplit

theorem exists_hyphenate_of_hyphenated? {cs : List Char} {o : Octets}
    (h : hyphenated? cs = some o) :
    ∃ digits, o.SpelledBy digits ∧ cs = hyphenate digits := by
  unfold hyphenated? at h
  split at h
  · next hcs =>
    obtain ⟨hlen, h8, h13, h18, h23⟩ := hcs
    refine ⟨_, plain?_eq_some_iff.1 h, ?_⟩
    have hgroup (m : Nat) (hm : m + 4 ≤ 36) : ((cs.drop m).take 4).length = 4 := by
      rw [List.length_take, List.length_drop]
      omega
    rw [hyphenate_append (by simp [hlen]) (hgroup 9 (by decide)) (hgroup 14 (by decide))
      (hgroup 19 (by decide)), joined]
    have e9 := drop_eq_take_hyphen_drop (m := 9) (n := 4) h13
    have e14 := drop_eq_take_hyphen_drop (m := 14) (n := 4) h18
    have e19 := drop_eq_take_hyphen_drop (m := 19) (n := 4) h23
    rw [← e19, ← e14, ← e9, ← eq_take_cons_drop h8]
  · cases h

/-! ### Texts -/

/-- The texts of thirty-two digits, with the names that may stand before the groups. -/
inductive Spelling (urn : List Char → Prop) (digits : List Char) : List Char → Prop
  | plain : Spelling urn digits digits
  | grouped : Spelling urn digits (hyphenate digits)
  | braced : Spelling urn digits ('\x7b' :: (hyphenate digits ++ ['\x7d']))
  | named (name : List Char) (h : urn name) : Spelling urn digits (name ++ hyphenate digits)

def IsUrn (name : List Char) : Prop := name.map Char.toLower = "urn:uuid:".toList

theorem IsUrn.length_eq {name : List Char} (h : IsUrn name) : name.length = 9 := by
  rw [← List.length_map Char.toLower, h]
  rfl

theorem parse?_of_spelling {s : String} {digits : List Char} (hlen : digits.length = 32)
    (h : Spelling IsUrn digits s.toList) : parse? s = plain? digits := by
  have hgroups := length_hyphenate hlen
  unfold parse?
  generalize s.toList = cs at h
  cases h with
  | plain => exact if_pos hlen
  | grouped =>
    dsimp only
    rw [if_neg (by omega), if_neg (by omega), if_neg (by omega), hyphenated?_hyphenate hlen]
  | braced =>
    have hinner : (('\x7b' :: (hyphenate digits ++ ['\x7d'])).drop 1).take 36 =
        hyphenate digits := by
      rw [List.drop_succ_cons, List.drop_zero, ← hgroups, List.take_left]
    have hlength : ('\x7b' :: (hyphenate digits ++ ['\x7d'])).length = 38 := by simp [hgroups]
    have hlast : ('\x7b' :: (hyphenate digits ++ ['\x7d'])).getLast? = some '\x7d' :=
      List.getLast?_concat (l := '\x7b' :: hyphenate digits)
    dsimp only
    rw [hlength, if_neg (by decide), if_pos ⟨rfl, rfl, hlast⟩, hinner, hyphenated?_hyphenate hlen]
  | named name hname =>
    have h9 := hname.length_eq
    have hlength : (name ++ hyphenate digits).length = 45 := by simp [h9, hgroups]
    have hfirst : (name ++ hyphenate digits).take 9 = name := by rw [← h9, List.take_left]
    have hrest : (name ++ hyphenate digits).drop 9 = hyphenate digits := by
      rw [← h9, List.drop_left]
    dsimp only
    rw [hlength, hfirst, hrest, if_neg (by decide), if_neg (by simp), if_pos ⟨rfl, hname⟩,
      hyphenated?_hyphenate hlen]

theorem exists_spelling_of_parse? {s : String} {o : Octets} (h : parse? s = some o) :
    ∃ digits, o.SpelledBy digits ∧ Spelling IsUrn digits s.toList := by
  unfold parse? at h
  generalize s.toList = cs at h ⊢
  dsimp only at h
  split at h
  · exact ⟨cs, plain?_eq_some_iff.1 h, .plain⟩
  · split at h
    · next hbraces =>
      obtain ⟨digits, hspell, hcs⟩ := exists_hyphenate_of_hyphenated? h
      refine ⟨digits, hspell, ?_⟩
      obtain ⟨hlen, hhead, hlast⟩ := hbraces
      cases cs with
      | nil => cases hhead
      | cons c rest =>
        cases hhead
        have hne : rest ≠ [] := by
          rintro rfl
          cases hlen
        rw [List.getLast?_cons_of_ne_nil hne] at hlast
        obtain ⟨inner, rfl⟩ := List.getLast?_eq_some_iff.1 hlast
        have hinner : inner.length = 36 := by
          rw [List.length_cons, List.length_append, List.length_singleton] at hlen
          omega
        rw [List.drop_succ_cons, List.drop_zero, ← hinner, List.take_left] at hcs
        rw [hcs]
        exact .braced
    · split at h
      · next hname =>
        obtain ⟨digits, hspell, hcs⟩ := exists_hyphenate_of_hyphenated? h
        refine ⟨digits, hspell, ?_⟩
        rw [← List.take_append_drop 9 cs, hcs]
        exact .named _ hname.2
      · obtain ⟨digits, hspell, rfl⟩ := exists_hyphenate_of_hyphenated? h
        exact ⟨digits, hspell, .grouped⟩

/-- A text is parsed where it is one of thirty-two digits, as the bytes that these spell. -/
theorem parse?_eq_some_iff {s : String} {o : Octets} :
    parse? s = some o ↔ ∃ digits, o.SpelledBy digits ∧ Spelling IsUrn digits s.toList := by
  constructor
  · exact exists_spelling_of_parse?
  · rintro ⟨digits, hspell, hs⟩
    rw [parse?_of_spelling hspell.isDigits.1 hs]
    exact plain?_eq_some_iff.2 hspell

theorem SpelledBy.toList_hyphenated {o : Octets} {digits : List Char} (h : o.SpelledBy digits) :
    o.hyphenated.toList = hyphenate (digits.map Char.toLower) := by
  have hall : o.bytes.flatMap hexDigits =
      o.group 0 4 ++ o.group 4 2 ++ o.group 6 2 ++ o.group 8 2 ++ o.group 10 6 := by
    have hbytes : (o.bytes.drop 0).take 16 = o.bytes :=
      List.take_of_length_le (Nat.le_of_eq o.length_eq)
    rw [group_append, group_append, group_append, group_append, group, hbytes]
  rw [h, hall, hyphenate_append (o.length_group 0 4 (by decide)) (o.length_group 4 2 (by decide))
    (o.length_group 6 2 (by decide)) (o.length_group 8 2 (by decide)), Octets.toList_hyphenated]

end Octets

end TagWire
