import TagWire.Proofs.Wire.Fixed
import TagWire.Wire.Time

/-! Instants on the wire: they are read back cut to the millisecond, and every instant that is read
can be written. -/
namespace TagWire

variable {L : Limits}

namespace Instant

def floor (t : Instant) : Instant :=
  { t with
    nanos := t.nanos / 1000000 * 1000000
    nanos_lt := by have := t.nanos_lt; omega }

theorem ofMillis?_millis (t : Instant) : ofMillis? t.millis = some t.floor := by
  have h := t.nanos_lt
  have hl := t.least_le
  have hg := t.le_greatest
  have hs : t.millis / 1000 = t.seconds := by
    unfold millis
    omega
  have hn : (t.millis % 1000).toNat = t.nanos / 1000000 := by
    unfold millis
    omega
  unfold ofMillis?
  rw [dif_pos (by omega)]
  simp only [hs, hn, floor]

theorem floor_of_ofMillis? {m : Int} {t : Instant} (h : ofMillis? m = some t) : t.floor = t := by
  have hm := ofMillis?_millis t
  rw [millis_ofMillis? h, h] at hm
  exact (Option.some.inj hm).symm

end Instant

namespace Ticks

/-- The calendar lies well within the ticks. -/
theorem ofMillis_millis (t : Instant) :
    ofMillis t.millis = some (t.millis * 10 + epoch) := by
  have h := t.nanos_lt
  have hl := t.least_le
  have hg := t.le_greatest
  have hm : -8334601228800000 ≤ t.millis ∧ t.millis ≤ 8210266876799999 := by
    unfold Instant.millis
    omega
  unfold ofMillis
  rw [if_pos]
  simp only [IntKind.fits_i64_iff, epoch]
  omega

theorem ofMillis_toMillis {t : Int} (ht : IntKind.i64.Fits t) (h : 0 ≤ toMillis t) :
    ofMillis (toMillis t) = some (toMillis t * 10 + epoch) := by
  rw [IntKind.fits_i64_iff] at ht
  have hb : toMillis t * 10 ≤ max 0 (t - epoch) := by
    unfold toMillis
    rcases Int.le_total 0 (t - epoch) with hp | hp
    · rw [Int.tdiv_eq_ediv_of_nonneg hp]
      omega
    · have hneg := Int.neg_tdiv (-(t - epoch)) 10
      have hpos := Int.tdiv_eq_ediv_of_nonneg (b := 10) (show 0 ≤ -(t - epoch) by omega)
      rw [Int.neg_neg] at hneg
      omega
  unfold ofMillis
  rw [if_pos]
  simp only [IntKind.fits_i64_iff, epoch] at hb ⊢
  omega

theorem toMillis_of_ofMillis {m t : Int} (h : ofMillis m = some t) :
    IntKind.i64.Fits t ∧ toMillis t = m := by
  unfold ofMillis at h
  split at h
  · next hf =>
    cases h
    refine ⟨hf.2, ?_⟩
    rw [toMillis, Int.add_sub_cancel, Int.mul_tdiv_cancel _ (by decide)]
  · cases h

theorem fits_of_ofMillis {m t : Int} (h : ofMillis m = some t) : IntKind.i64.Fits m := by
  unfold ofMillis at h
  split at h
  · next hf =>
    simp only [IntKind.fits_i64_iff] at hf ⊢
    omega
  · cases h

end Ticks

namespace Writer

def ticksForm (t : Int) : List UInt8 := numberForm (IntKind.i64.wrap t)

theorem length_ticksForm (t : Int) : (ticksForm t).length = 8 := length_numberForm _

theorem emits_millis {m t : Int} (h : Ticks.ofMillis m = some t) :
    Emits (millis m) (ticksForm t).length (ticksForm t) := by
  unfold millis
  rw [h]
  exact emits_numberAs "time" (IntKind.i64.wrap t).fits

theorem appends_millis (m : Int) :
    Appends (millis m) fun _ bs => ∃ t, Ticks.ofMillis m = some t ∧ bs = ticksForm t := by
  cases h : Ticks.ofMillis m with
  | none =>
    unfold millis
    rw [h]
    exact Appends.fail _
  | some t => exact (emits_millis h).appends ⟨t, rfl, rfl⟩

theorem constant_millis (m : Int) : Constant (millis m) := by
  unfold millis
  split
  · exact constant_numberAs _ _
  · exact Constant.fail _

theorem emits_instant (t : Instant) : Emits (instant t)
    (ticksForm (t.millis * 10 + Ticks.epoch)).length (ticksForm (t.millis * 10 + Ticks.epoch)) :=
  emits_millis (Ticks.ofMillis_millis t)

end Writer

namespace Reader

theorem takes_ticks {t : Int} (h : IntKind.i64.Fits t) : Takes L ticks (Writer.ticksForm t) t := by
  have hn := (takes_numberAs (L := L) "time" (n := IntKind.i64.wrap t)
    (IntKind.i64.wrap t).fits).map (·.val)
  rwa [IntKind.wrap_val_of_fits h] at hn

theorem takes_millis {m t : Int} (h : Ticks.ofMillis m = some t) :
    Takes L millis (Writer.ticksForm t) m := by
  obtain ⟨hf, hm⟩ := Ticks.toMillis_of_ofMillis h
  have ht := (takes_ticks (L := L) hf).map Ticks.toMillis
  rwa [hm] at ht

theorem takes_instant (t : Instant) :
    Takes L instant (Writer.ticksForm (t.millis * 10 + Ticks.epoch)) t.floor := by
  obtain ⟨hf, hm⟩ := Ticks.toMillis_of_ofMillis (Ticks.ofMillis_millis t)
  rw [← List.append_nil (Writer.ticksForm _)]
  refine (takes_ticks hf).bind ?_
  rw [hm, Instant.ofMillis?_millis]
  exact Takes.pure _

theorem guarded_ticks : Guarded ticks := (guarded_numberAs _ _).map _

theorem guarded_millis : Guarded millis := guarded_ticks.map _

theorem guarded_instant : Guarded instant := by
  refine guarded_ticks.bind fun t => ?_
  split
  · exact Guarded.pure _
  · exact Guarded.fail _

theorem yields_ticks : Yields L ticks fun t n => IntKind.i64.Fits t ∧ n = 8 :=
  Yields.map ((yields_numberAs "time" .i64).mono fun _ _ h => h)

theorem yields_millis :
    Yields L millis fun m n => ∃ t, IntKind.i64.Fits t ∧ m = Ticks.toMillis t ∧ n = 8 :=
  Yields.map (yields_ticks.mono fun t _ h => ⟨t, h.1, rfl, h.2⟩)

theorem yields_instant : Yields L instant fun date n => date.floor = date ∧ n = 8 := by
  refine yields_ticks.bind fun t n h => ?_
  split
  · next date hd => exact Yields.pure ⟨Instant.floor_of_ofMillis? hd, h.2⟩
  · exact Yields.fail _

end Reader

end TagWire
