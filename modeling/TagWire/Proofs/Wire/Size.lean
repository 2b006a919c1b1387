import TagWire.Proofs.Stream.Guarded
import TagWire.Proofs.Stream.Writing
import TagWire.Wire.Size

/-! Sizes and nullable sizes: what is written is read back, no form that is read is shorter than the
one that is written, and a reader judges only groups that it has consumed. -/
namespace TagWire

variable {L : Limits}

theorem toNat_ofNat_of_lt {n : Nat} (h : n < 256) : (UInt8.ofNat n).toNat = n := by
  rw [UInt8.toNat_ofNat', Nat.mod_eq_of_lt h]

theorem lt_128_iff (b : UInt8) : b < 128 ↔ b.toNat < 128 := UInt8.lt_iff_toNat_lt

theorem lt_64_iff (b : UInt8) : b < 64 ↔ b.toNat < 64 := UInt8.lt_iff_toNat_lt

namespace Size

theorem encode_of_lt {n : Nat} (h : n < 128) : encode n = [UInt8.ofNat n] := by
  rw [encode, if_pos h]

theorem encode_of_le {n : Nat} (h : 128 ≤ n) :
    encode n = UInt8.ofNat (n % 128 + 128) :: encode (n / 128) := by
  rw [encode, if_neg (by omega)]

def count : Nat → Nat
  | 0 => 1
  | groups + 1 => 128 * count groups

theorem count_zero : count 0 = 1 := rfl

theorem count_succ (k : Nat) : count (k + 1) = 128 * count k := rfl

theorem length_encode_le {k n : Nat} (h : n < count (k + 1)) : (encode n).length ≤ k + 1 := by
  induction k generalizing n with
  | zero =>
    rw [encode_of_lt h]
    simp
  | succ k ih =>
    by_cases hn : n < 128
    · rw [encode_of_lt hn]
      simp
    · rw [encode_of_le (by omega), List.length_cons]
      have := ih (n := n / 128) (by rw [count_succ] at h; omega)
      omega

/-- What a row of groups is worth: the first counts units of `weight`, and each of the others units
128 times as large as those of the one before it. -/
def worth (weight : Nat) (bs : List UInt8) : Nat :=
  (bs.mapIdx fun i b => b.toNat % 128 * (weight * count i)).foldr (· + ·) 0

@[simp] theorem worth_nil (weight : Nat) : worth weight [] = 0 := rfl

@[simp] theorem worth_cons (weight : Nat) (b : UInt8) (bs : List UInt8) :
    worth weight (b :: bs) = b.toNat % 128 * weight + worth (weight * 128) bs := by
  simp only [worth, List.mapIdx_cons, List.foldr_cons, count_zero, Nat.mul_one, count_succ,
    Nat.mul_assoc]

theorem worth_eq_mul (weight : Nat) (bs : List UInt8) : worth weight bs = worth 1 bs * weight := by
  induction bs generalizing weight with
  | nil => simp
  | cons b bs ih =>
    rw [worth_cons, worth_cons, ih (weight * 128), ih (1 * 128)]
    grind

/-- Every byte but the last says that another one follows, and the last does not. -/
structure Chained (bs : List UInt8) : Prop where
  more : ∀ b ∈ bs.dropLast, 128 ≤ b
  last : ∃ b ∈ bs.getLast?, b < 128

theorem not_chained_nil : ¬ Chained [] := fun ⟨_, _, hb, _⟩ => nomatch hb

theorem chained_singleton {b : UInt8} : Chained [b] ↔ b < 128 :=
  ⟨fun ⟨_, c, hc, h⟩ => by cases hc; exact h, fun h => ⟨by simp, b, rfl, h⟩⟩

theorem chained_cons {b : UInt8} {bs : List UInt8} (h : bs ≠ []) :
    Chained (b :: bs) ↔ 128 ≤ b ∧ Chained bs := by
  obtain ⟨c, cs, rfl⟩ := List.exists_cons_of_ne_nil h
  constructor
  · rintro ⟨more, last⟩
    rw [List.dropLast_cons_cons, List.forall_mem_cons] at more
    rw [List.getLast?_cons_cons] at last
    exact ⟨more.1, more.2, last⟩
  · rintro ⟨hb, more, last⟩
    refine ⟨?_, by rwa [List.getLast?_cons_cons]⟩
    rw [List.dropLast_cons_cons, List.forall_mem_cons]
    exact ⟨hb, more⟩

theorem Chained.ne_nil {bs : List UInt8} (h : Chained bs) : bs ≠ [] := by
  rintro rfl
  exact not_chained_nil h

theorem chained_encode (n : Nat) : Chained (encode n) := by
  fun_induction encode n with
  | case1 n h => exact chained_singleton.2 (by rwa [lt_128_iff, toNat_ofNat_of_lt (by omega)])
  | case2 n h ih =>
    refine (chained_cons ih.ne_nil).2 ⟨?_, ih⟩
    rw [← UInt8.not_lt, lt_128_iff, toNat_ofNat_of_lt (by omega)]
    omega

theorem length_encode_pos (n : Nat) : 0 < (encode n).length :=
  List.length_pos_iff.2 (chained_encode n).ne_nil

theorem worth_encode (n : Nat) : worth 1 (encode n) = n := by
  fun_induction encode n with
  | case1 n h =>
    rw [worth_cons, toNat_ofNat_of_lt (by omega), Nat.mod_eq_of_lt h]
    simp
  | case2 n h ih =>
    rw [worth_cons, worth_eq_mul, ih, toNat_ofNat_of_lt (by omega)]
    omega

end Size

namespace NullableSize

theorem encode_of_lt {n : Nat} (h : n < 64) : encode n = [UInt8.ofNat n] := by
  rw [encode, if_pos h]

theorem encode_of_le {n : Nat} (h : 64 ≤ n) :
    encode n = UInt8.ofNat (n % 64 + 64) :: Size.encode (n / 64) := by
  rw [encode, if_neg (by omega)]

end NullableSize

namespace Writer

theorem emits_size (n : Nat) : Emits (size n) (Size.encode n).length (Size.encode n) :=
  emits_bytes _ _

theorem emits_nullableSize (n : Nat) :
    Emits (nullableSize n) (NullableSize.encode n).length (NullableSize.encode n) :=
  emits_bytes _ _

end Writer

namespace Reader

theorem takes_byte (op : String) (b : UInt8) : Takes L (byte op) [b] b :=
  (takes_bytes op [b]).map _

theorem guarded_byte (op : String) : Guarded (byte op) := (Guarded.bytes op 1).map _

theorem yields_byte (op : String) : Yields L (byte op) fun _ n => n = 1 :=
  Yields.map ((yields_bytes op 1).mono fun _ _ h => h.2)

theorem takes_groups (op : String) (start : Nat) {groups weight sum : Nat} {bs : List UInt8}
    (hc : Size.Chained bs) (hl : bs.length ≤ groups)
    (hs : sum + Size.worth weight bs < sizeBound) :
    Takes L (sizeGroups op start groups weight sum) bs (sum + Size.worth weight bs) := by
  induction groups generalizing weight sum bs with
  | zero => exact absurd (List.length_eq_zero_iff.1 (Nat.le_zero.1 hl)) hc.ne_nil
  | succ groups ih =>
    cases bs with
    | nil => exact absurd rfl hc.ne_nil
    | cons b bs =>
      rw [Size.worth_cons, ← Nat.add_assoc] at hs ⊢
      rw [sizeGroups]
      refine (takes_byte op b).bind_cons ?_
      rw [if_neg (by omega)]
      by_cases hb : bs = []
      · subst hb
        rw [if_pos (Size.chained_singleton.1 hc)]
        exact Takes.pure _
      · obtain ⟨hmore, hrest⟩ := (Size.chained_cons hb).1 hc
        rw [if_neg (UInt8.not_lt.2 hmore)]
        exact ih hrest (Nat.le_of_succ_le_succ hl) hs

theorem takes_sizeGroups (op : String) (start : Nat) {groups n weight sum : Nat}
    (hn : n < Size.count (groups + 1)) (hs : sum + n * weight < sizeBound) :
    Takes L (sizeGroups op start (groups + 1) weight sum) (Size.encode n) (sum + n * weight) := by
  have hw : Size.worth weight (Size.encode n) = n * weight := by
    rw [Size.worth_eq_mul, Size.worth_encode]
  rw [← hw] at hs ⊢
  exact takes_groups op start (Size.chained_encode n) (Size.length_encode_le hn) hs

theorem size_eq_groups : size = position >>= fun start => sizeGroups "size" start 10 1 0 := by
  refine bind_congr fun start => ?_
  rw [sizeGroups]
  refine bind_congr fun b => ?_
  have hb : 0 + b.toNat % 128 * 1 = b.toNat % 128 := by omega
  have hfits : ¬ sizeBound ≤ b.toNat % 128 := by
    unfold sizeBound
    omega
  rw [hb, if_neg hfits]
  split
  · next hlast => rw [Nat.mod_eq_of_lt ((lt_128_iff b).1 hlast)]
  · rfl

theorem takes_size {n : Nat} (hn : n < sizeBound) : Takes L size (Size.encode n) n := by
  rw [size_eq_groups]
  refine Takes.position fun start => ?_
  have hcount : n < Size.count 10 := by
    unfold sizeBound at hn
    exact Nat.lt_trans hn (by decide)
  have h : Takes L (sizeGroups "size" start 10 1 0) (Size.encode n) (0 + n * 1) :=
    takes_sizeGroups "size" start hcount (by omega)
  rwa [Nat.zero_add, Nat.mul_one] at h

theorem takes_nullable {n : Nat} (hn : n < sizeBound) :
    Takes L nullable (NullableSize.encode n) (some n) := by
  refine Takes.position fun start => ?_
  by_cases hl : n < 64
  · have hb := toNat_ofNat_of_lt (show n < 256 by omega)
    rw [NullableSize.encode_of_lt hl]
    refine (takes_byte _ _).bind_nil ?_
    rw [if_pos (by rwa [lt_64_iff, hb]), hb]
    exact Takes.pure _
  · have hb := toNat_ofNat_of_lt (show n % 64 + 64 < 256 by omega)
    have hsum : n % 64 + n / 64 * 64 = n := Nat.mod_add_div' n 64
    rw [NullableSize.encode_of_le (by omega)]
    refine (takes_byte _ _).bind_cons ?_
    rw [if_neg (by rw [lt_64_iff, hb]; omega), if_pos (by rw [lt_128_iff, hb]; omega), hb,
      Nat.add_mod_right, Nat.mod_mod]
    have h : Takes L (sizeGroups "nullable-size" start 10 64 (n % 64)) (Size.encode (n / 64))
        (n % 64 + n / 64 * 64) :=
      takes_sizeGroups "nullable-size" start
        (show n / 64 < 1180591620717411303424 by unfold sizeBound at hn; omega) (by omega)
    rw [hsum] at h
    exact h.map some

theorem takes_nullableSize {n : Nat} (hn : n < sizeBound) :
    Takes L nullableSize (NullableSize.encode n) n := (takes_nullable hn).map _

theorem takes_itemCount {n : Nat} (hn : n < sizeBound) (hl : n ≤ L.maxItems) :
    Takes L itemCount (Size.encode n) n := by
  refine Takes.position fun start => ?_
  rw [← List.append_nil (Size.encode n)]
  refine (takes_size hn).bind (Takes.limits (·.maxItems) ?_)
  rw [if_pos hl]
  exact Takes.pure n

theorem guarded_sizeGroups (op : String) (start groups weight sum : Nat) :
    Guarded (sizeGroups op start groups weight sum) := by
  induction groups generalizing weight sum with
  | zero => exact Guarded.fail _
  | succ groups ih =>
    rw [sizeGroups]
    refine (guarded_byte op).bind fun b => ?_
    dsimp only
    split
    · exact Guarded.fail _
    · split
      · exact Guarded.pure _
      · exact ih _ _

theorem guarded_size : Guarded size := by
  refine Guarded.position.bind fun start => (guarded_byte _).bind fun b => ?_
  split
  · exact Guarded.pure _
  · exact guarded_sizeGroups _ _ _ _ _

theorem guarded_nullable : Guarded nullable := by
  refine Guarded.position.bind fun start => (guarded_byte _).bind fun b => ?_
  split
  · exact Guarded.pure _
  · split
    · exact (guarded_sizeGroups _ _ _ _ _).map _
    · split
      · exact Guarded.pure _
      · exact Guarded.fail _

theorem guarded_nullableSize : Guarded nullableSize := guarded_nullable.map _

theorem guarded_itemCount : Guarded itemCount :=
  Guarded.position.bind fun start => guarded_size.bind fun n =>
    .gauged .items start n (Guarded.pure n)

theorem yields_sizeGroups (op : String) (start groups weight sum : Nat) :
    Yields L (sizeGroups op start groups weight sum) fun v k =>
      v < sizeBound ∧ 0 < k ∧ ∃ n, v = sum + n * weight ∧ n < Size.count k := by
  induction groups generalizing weight sum with
  | zero => exact Yields.fail _
  | succ groups ih =>
    rw [sizeGroups]
    refine (yields_byte op).bind fun b _ hk => ?_
    subst hk
    dsimp only
    split
    · exact Yields.fail _
    · next hs =>
      split
      · exact Yields.pure ⟨by omega, by omega, b.toNat % 128, rfl, Nat.mod_lt _ (by decide)⟩
      · refine (ih _ _).mono ?_
        rintro v k ⟨hv, hk, n, rfl, hn⟩
        refine ⟨hv, by omega, b.toNat % 128 + 128 * n, by grind, ?_⟩
        rw [Nat.add_comm 1 k, Size.count_succ]
        omega

theorem yields_size :
    Yields L size fun v k => v < sizeBound ∧ (Size.encode v).length ≤ k := by
  refine Yields.view fun r _ => (yields_byte _).bind fun b _ hk => ?_
  subst hk
  split
  · next hb =>
    rw [lt_128_iff] at hb
    refine Yields.pure ⟨by unfold sizeBound; omega, ?_⟩
    simp [Size.encode_of_lt hb]
  · refine (yields_sizeGroups _ _ _ _ _).mono ?_
    rintro v k ⟨hv, hk, n, rfl, hn⟩
    have h := Size.length_encode_le (k := k) (n := b.toNat % 128 + n * 128) (by
      rw [Size.count_succ]
      omega)
    exact ⟨hv, by omega⟩

/-- No form of a nullable size is shorter than the written one, the null being read as zero. -/
theorem yields_nullable : Yields L nullable fun v k =>
    v.getD 0 < sizeBound ∧ (NullableSize.encode (v.getD 0)).length ≤ k := by
  refine Yields.view fun r _ => (yields_byte _).bind fun b _ hk => ?_
  subst hk
  split
  · next hb =>
    rw [lt_64_iff] at hb
    refine Yields.pure ⟨show b.toNat < _ by unfold sizeBound; omega, ?_⟩
    simp [NullableSize.encode_of_lt hb]
  · split
    · refine Yields.map ((yields_sizeGroups _ _ _ _ _).mono ?_)
      rintro v k ⟨hv, hk, n, rfl, hn⟩
      refine ⟨hv, ?_⟩
      rw [Option.getD_some]
      by_cases hl : b.toNat % 64 + n * 64 < 64
      · rw [NullableSize.encode_of_lt hl, List.length_singleton]
        omega
      · obtain ⟨k, rfl⟩ := Nat.exists_eq_add_of_lt hk
        rw [NullableSize.encode_of_le (by omega), List.length_cons]
        have h := Size.length_encode_le (k := 0 + k) (n := (b.toNat % 64 + n * 64) / 64) (by omega)
        omega
    · split
      · exact Yields.pure ⟨by decide, by simp [NullableSize.encode_of_lt]⟩
      · exact Yields.fail _

theorem yields_nullableSize : Yields L nullableSize fun v k =>
    v < sizeBound ∧ (NullableSize.encode v).length ≤ k := Yields.map yields_nullable

theorem yields_itemCount : Yields L itemCount fun v k =>
    v < sizeBound ∧ v ≤ L.maxItems ∧ (Size.encode v).length ≤ k := by
  refine Yields.view fun r _ => yields_size.bind fun n k h => Yields.view fun r hl => ?_
  split
  · next hn => exact Yields.pure ⟨h.1, hl ▸ hn, h.2⟩
  · exact Yields.fail _

end Reader

end TagWire
