import TagWire.Proofs.Codec.Direct

/-! The ends of the range of ticks. Milliseconds are written where both the ticks and their multiple
of ten fit a signed long, and ticks are read whatever they are; so the earliest ticks are read as
milliseconds that are refused again. -/
namespace TagWire

variable {S : Schema} {L : Limits}

namespace Ticks

/-- The first millisecond whose multiple of ten fits a signed long. -/
def earliest : Int := -922337203685477580

/-- The last ticks that are read as a millisecond before the first one that is written. -/
def unwritable : Int := -9222750680886775810

/-- The multiple of ten does not fit at the late end either, but there the ticks are too many. -/
theorem ofMillis_eq (m : Int) : ofMillis m =
    if earliest ≤ m ∧ IntKind.i64.Fits (m * 10 + epoch) then some (m * 10 + epoch) else none := by
  have hiff : IntKind.i64.Fits (m * 10) ∧ IntKind.i64.Fits (m * 10 + epoch) ↔
      earliest ≤ m ∧ IntKind.i64.Fits (m * 10 + epoch) := by
    simp only [IntKind.fits_i64_iff, epoch, earliest]
    omega
  unfold ofMillis
  simp only [hiff]

/-- The ticks that are dropped, at most nine, lie on the far side of 1970. -/
theorem toMillis_cases (t : Int) :
    (epoch ≤ t ∧ toMillis t * 10 + epoch ≤ t ∧ t ≤ toMillis t * 10 + epoch + 9) ∨
      (t < epoch ∧ t ≤ toMillis t * 10 + epoch ∧ toMillis t * 10 + epoch ≤ t + 9 ∧
        toMillis t * 10 ≤ 0) := by
  unfold toMillis
  rcases Int.lt_or_le t epoch with hneg | hpos
  · have hflip := Int.neg_tdiv (epoch - t) 10
    have hdiv := Int.tdiv_eq_ediv_of_nonneg (b := 10) (show 0 ≤ epoch - t by omega)
    rw [Int.neg_sub] at hflip
    refine .inr ⟨hneg, ?_⟩
    omega
  · have hdiv := Int.tdiv_eq_ediv_of_nonneg (b := 10) (show 0 ≤ t - epoch by omega)
    refine .inl ⟨hpos, ?_⟩
    omega

theorem toMillis_mul_add (m : Int) : toMillis (m * 10 + epoch) = m := by
  rw [toMillis, Int.add_sub_cancel, Int.mul_tdiv_cancel _ (by decide)]

theorem fits_toMillis {t : Int} (h : IntKind.i64.Fits t) : IntKind.i64.Fits (toMillis t) := by
  have hcases := toMillis_cases t
  simp only [IntKind.fits_i64_iff, epoch] at h hcases ⊢
  omega

theorem earliest_le_toMillis_iff (t : Int) : earliest ≤ toMillis t ↔ unwritable < t := by
  have hcases := toMillis_cases t
  simp only [epoch, earliest, unwritable] at hcases ⊢
  omega

theorem near_toMillis {t : Int} (h : IntKind.i64.Fits t) :
    IntKind.i64.Fits (toMillis t * 10 + epoch) ∧
      t - 9 ≤ toMillis t * 10 + epoch ∧ toMillis t * 10 + epoch ≤ t + 9 := by
  have hcases := toMillis_cases t
  simp only [IntKind.fits_i64_iff, epoch] at h hcases ⊢
  omega

/-- What becomes of ticks on their way to milliseconds and back: `read` takes them for `m`, and
`write` brings ticks at most nine away that are taken for `m` again, or refuses. -/
structure Returns {α : Type} (L : Limits) (read : Reading α) (write : α → Writing Nat)
    (t : Num .i64) (m : α) : Prop where
  taken : Takes L read (Writer.ticksForm t.val) m
  late : unwritable < t.val → ∃ t' : Num .i64, Emits (write m) 8 (Writer.ticksForm t'.val) ∧
    t.val - 9 ≤ t'.val ∧ t'.val ≤ t.val + 9 ∧ Takes L read (Writer.ticksForm t'.val) m
  early : t.val ≤ unwritable → ∀ w,
    write m w = (.error (.valueOutOfRange "time" (toMillis t.val)), w)

end Ticks

namespace Writer

theorem millis_of_none {m : Int} (h : Ticks.ofMillis m = none) (w : Writer) :
    millis m w = (.error (.valueOutOfRange "time" m), w) := by
  unfold millis
  rw [h]
  rfl

end Writer

theorem Ticks.returns {α : Type} {read : Reading α} {write : α → Writing Nat} (put : Int → α)
    (hread : ∀ t : Num .i64, Takes L read (Writer.ticksForm t.val) (put (toMillis t.val)))
    (hwrite : ∀ m, IntKind.i64.Fits m → write (put m) = Writer.millis m) (t : Num .i64) :
    Returns L read write t (put (toMillis t.val)) := by
  obtain ⟨hfits, hlow, hhigh⟩ := near_toMillis t.fits
  have hmillis := hwrite _ (fits_toMillis t.fits)
  refine ⟨hread t, fun h => ⟨⟨_, hfits⟩, ?_, hlow, hhigh, ?_⟩, fun h => ?_⟩
  · rw [hmillis]
    refine Writer.emits_millis ?_
    rw [ofMillis_eq, if_pos ⟨(earliest_le_toMillis_iff _).2 h, hfits⟩]
  · have hsame := hread ⟨_, hfits⟩
    rwa [toMillis_mul_add] at hsame
  · have hnone : ofMillis (toMillis t.val) = none := by
      rw [ofMillis_eq, if_neg]
      exact fun hm => absurd ((earliest_le_toMillis_iff _).1 hm.1) (Int.not_lt.2 h)
    rw [hmillis]
    exact Writer.millis_of_none hnone

namespace Codec

/-- Milliseconds are counted in ticks from the first one whose multiple of ten fits, as long as the
ticks fit. All ticks are read as milliseconds, plain or in a field, and all but the earliest of them
can be written again. -/
theorem time_of_millis (S : Schema) (L : Limits) :
    (∀ m : Num .i64,
      if Ticks.earliest ≤ m.val ∧ IntKind.i64.Fits (m.val * 10 + Ticks.epoch) then
        Ticks.ofMillis m.val = some (m.val * 10 + Ticks.epoch) ∧
          Emits (Writer.millis m.val) 8 (Writer.ticksForm (m.val * 10 + Ticks.epoch))
      else
        Ticks.ofMillis m.val = none ∧
          ∀ w, Writer.millis m.val w = (.error (.valueOutOfRange "time" m.val), w)) ∧
    ∀ t : Num .i64,
      Ticks.Returns L Reader.millis Writer.millis t (Ticks.toMillis t.val) ∧
      Ticks.Returns L ((time : Codec S).fresh (.scalar (.int .i64))) time.encode t
        (.scalar (IntKind.i64.wrap (Ticks.toMillis t.val))) := by
  refine ⟨fun m => ?_, fun t => ⟨?_, ?_⟩⟩
  · have heq := Ticks.ofMillis_eq m.val
    split
    · next h =>
      rw [if_pos h] at heq
      exact ⟨heq, Writer.emits_millis heq⟩
    · next h =>
      rw [if_neg h] at heq
      exact ⟨heq, Writer.millis_of_none heq⟩
  · exact Ticks.returns id (fun t => (Reader.takes_ticks t.fits).map _) (fun m _ => rfl) t
  · rw [fresh_time]
    refine Ticks.returns (fun m => Datum.scalar (S := S) (s := .int .i64) (IntKind.i64.wrap m))
      (fun t => ?_) (fun m hm => ?_) t
    · exact ((Reader.takes_ticks t.fits).map Ticks.toMillis).map _
    · show Writer.millis (IntKind.i64.wrap m).val = _
      rw [IntKind.wrap_val_of_fits hm]

/-- The millisecond before the first that is written has ticks, and is what they are read as. -/
theorem time_refuses_ticks :
    IntKind.i64.Fits (-922337203685477581) ∧ -922337203685477581 * 10 + Ticks.epoch =
      Ticks.unwritable ∧ IntKind.i64.Fits Ticks.unwritable ∧
      Ticks.ofMillis (-922337203685477581) = none ∧
      (Reader.millis { source := { unread := Writer.ticksForm Ticks.unwritable } }).1 =
        .ok (-922337203685477581) ∧
      (Writer.millis (-922337203685477581) {}).1 =
        .error (.valueOutOfRange "time" (-922337203685477581)) :=
  ⟨by decide, by decide, by decide, by decide, rfl, rfl⟩

end Codec

end TagWire
