import TagWire.Proofs.Codec.Ticks

/-! Instants as ticks. An instant is written as the ticks of its millisecond, before 1970 as after
it; ticks are read as the millisecond they reach on their way from 1970. All ticks that are not a
multiple of ten away from 1970 thus come back as ticks nearer to it, and what they are read as lies
in their order. -/
namespace TagWire

variable {L : Limits}

namespace Instant

def sinceEpoch (t : Instant) : Int := t.seconds * 1000000000 + t.nanos

def firstMillis : Int := -8334601228800000

def lastMillis : Int := 8210266876799999

theorem millis_eq_div (t : Instant) : t.millis = t.sinceEpoch / 1000000 := by
  unfold millis sinceEpoch
  omega

theorem sinceEpoch_floor (t : Instant) :
    t.floor.sinceEpoch = t.sinceEpoch / 1000000 * 1000000 := by
  unfold floor sinceEpoch
  dsimp only
  omega

theorem ofMillis?_isSome_iff (m : Int) :
    (ofMillis? m).isSome ↔ firstMillis ≤ m ∧ m ≤ lastMillis := by
  unfold ofMillis? firstMillis lastMillis
  split
  · next h => exact iff_of_true rfl (by omega)
  · next h => exact iff_of_false (by simp) (by omega)

theorem sinceEpoch_of_ofMillis? {m : Int} {t : Instant} (h : ofMillis? m = some t) :
    t.sinceEpoch = m * 1000000 := by
  have hfloor := congrArg sinceEpoch (floor_of_ofMillis? h)
  rw [sinceEpoch_floor, ← millis_eq_div, millis_ofMillis? h] at hfloor
  exact hfloor.symm

end Instant

namespace Ticks

theorem toMillis_mono {t₁ t₂ : Int} (h : t₁ ≤ t₂) : toMillis t₁ ≤ toMillis t₂ := by
  have h₁ := toMillis_cases t₁
  have h₂ := toMillis_cases t₂
  omega

/-- The nearest ticks toward 1970 that stand for a whole millisecond. -/
structure Whole (t t' : Int) : Prop where
  after : min t epoch ≤ t'
  before : t' ≤ max t epoch
  near : (t - t').natAbs ≤ 9
  whole : t' % 10 = epoch % 10

theorem whole_toMillis (t : Int) : Whole t (toMillis t * 10 + epoch) := by
  have hcases := toMillis_cases t
  have hmod : (toMillis t * 10 + epoch) % 10 = epoch % 10 := Int.mul_add_emod_self_right ..
  exact ⟨by omega, by omega, by omega, hmod⟩

end Ticks

namespace Reader

theorem settles_instant (start : Nat) (t : Num .i64) :
    Settles L start instant (Writer.ticksForm t.val)
      (match Instant.ofMillis? (Ticks.toMillis t.val) with
        | some date => .ok date
        | none => .error (.timeOutOfRange t.val)) := by
  rw [← List.append_nil (Writer.ticksForm _)]
  refine (takes_ticks t.fits start).bind (Settles.of_apply fun r _ _ => ⟨r, ?_, rfl⟩)
  cases Instant.ofMillis? (Ticks.toMillis t.val) with
  | some date => rfl
  | none => rfl

theorem takes_instant_iff (t : Num .i64) (date : Instant) :
    Takes L instant (Writer.ticksForm t.val) date ↔
      Instant.ofMillis? (Ticks.toMillis t.val) = some date := by
  constructor
  · intro h
    have heq := settles_unique (settles_instant 0 t) (h 0)
    split at heq
    · next hd =>
      cases heq
      exact hd
    · cases heq
  · intro h start
    have hset := settles_instant (L := L) start t
    rwa [h] at hset

/-- Every instant is written, and read back as its last whole millisecond. Ticks are read as an
instant where the calendar reaches their millisecond, and else refused; that instant is written as
the ticks of a whole millisecond next to them on the way to 1970, which are read as the same. Later
ticks are never read as an earlier instant. -/
theorem instant_ticks (L : Limits) :
    (∀ date : Instant, ∃ form whole, form.length = 8 ∧ Emits (Writer.instant date) 8 form ∧
      Takes L instant form whole ∧
      whole.sinceEpoch = date.sinceEpoch / 1000000 * 1000000) ∧
    (∀ t : Num .i64,
      if Instant.firstMillis ≤ (t.val - Ticks.epoch).tdiv 10 ∧
          (t.val - Ticks.epoch).tdiv 10 ≤ Instant.lastMillis then
        ∃ (date : Instant) (t' : Num .i64), Takes L instant (Writer.ticksForm t.val) date ∧
          Emits (Writer.instant date) 8 (Writer.ticksForm t'.val) ∧ Ticks.Whole t.val t'.val ∧
          Takes L instant (Writer.ticksForm t'.val) date
      else ∀ start, Settles L start instant (Writer.ticksForm t.val)
        (.error (.timeOutOfRange t.val))) ∧
    ∀ (t₁ t₂ : Num .i64) (date₁ date₂ : Instant), t₁.val ≤ t₂.val →
      Takes L instant (Writer.ticksForm t₁.val) date₁ →
      Takes L instant (Writer.ticksForm t₂.val) date₂ → date₁.sinceEpoch ≤ date₂.sinceEpoch := by
  refine ⟨fun date => ?_, fun t => ?_, fun t₁ t₂ date₁ date₂ h h₁ h₂ => ?_⟩
  · exact ⟨_, date.floor, Writer.length_ticksForm _, Writer.emits_instant date,
      takes_instant date, date.sinceEpoch_floor⟩
  · split
    · next hrange =>
      obtain ⟨date, hdate⟩ := Option.isSome_iff_exists.1
        ((Instant.ofMillis?_isSome_iff (Ticks.toMillis t.val)).2 hrange)
      have hback : date.millis = Ticks.toMillis t.val := Instant.millis_ofMillis? hdate
      obtain ⟨hfits, -⟩ := Ticks.near_toMillis t.fits
      refine ⟨date, ⟨_, hfits⟩, (takes_instant_iff t date).2 hdate, ?_,
        Ticks.whole_toMillis t.val, (takes_instant_iff ⟨_, hfits⟩ date).2 ?_⟩
      · have hform := Writer.emits_instant date
        rw [hback] at hform
        exact hform
      · rw [Ticks.toMillis_mul_add]
        exact hdate
    · next hrange =>
      intro start
      have hset := settles_instant (L := L) start t
      rwa [Option.not_isSome_iff_eq_none.1
        (mt (Instant.ofMillis?_isSome_iff (Ticks.toMillis t.val)).1 hrange)] at hset
  · rw [takes_instant_iff] at h₁ h₂
    have hmono := Ticks.toMillis_mono h
    rw [Instant.sinceEpoch_of_ofMillis? h₁, Instant.sinceEpoch_of_ofMillis? h₂]
    omega

/-- Half a millisecond before 1970 and one and a half after it. -/
theorem instant_ticks_around_epoch :
    Takes {} instant (Writer.ticksForm (Ticks.epoch - 5)) Instant.epoch ∧
      ∃ date, Takes {} instant (Writer.ticksForm (Ticks.epoch + 15)) date ∧
        Instant.epoch.sinceEpoch ≤ date.sinceEpoch := by
  let before : Num .i64 := ⟨Ticks.epoch - 5, by decide⟩
  let after : Num .i64 := ⟨Ticks.epoch + 15, by decide⟩
  have hbefore := (takes_instant_iff (L := {}) before Instant.epoch).2 (by decide)
  have hafter := (takes_instant_iff (L := {}) after
    ⟨0, 1000000, by decide, by decide, by decide⟩).2 (by decide)
  exact ⟨hbefore, _, hafter, (instant_ticks {}).2.2 before after _ _ (by decide) hbefore hafter⟩

end Reader

end TagWire
