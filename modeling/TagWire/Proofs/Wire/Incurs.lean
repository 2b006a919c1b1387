import TagWire.Proofs.Wire.Script
import TagWire.Schema.Scalar

/-! What can go wrong on an input that only ends. A typed read reports that the input is too short
or that its bytes are no value of the type, and nothing else; a text may ask for more memory than
there is. -/
namespace TagWire

open HasReader (reader)

/-- The errors that bad bytes alone bring about. -/
def Error.blamesInput : Error → Bool
  | io _ _ .ended | nullExpected .. | invalidBool .. | unknownMarker .. | invalidUtf8 _
  | sizeOverflow .. | lengthLimit .. | timeOutOfRange _ | depthExceeded _ => true
  | _ => false

/-- A text is announced that is within its limit, and for which no buffer can be had. -/
def Limits.Overruns (L : Limits) (e : Error) : Prop :=
  ∃ n, Reader.capacity < n ∧ n ≤ L.maxText ∧ e = .unallocatable n

structure Reader.EndsUnder (L : Limits) (r : Reader) : Prop where
  ends : r.Ends
  limits : r.limits = L

variable {σ α β : Type} [HasReader σ] {L : Limits} {P : Error → Prop}

/-- On an input that only ends, the step leaves one that only ends or fails with an error of `P`. -/
structure Incurs (L : Limits) (P : Error → Prop) (x : Attempt Error σ α) : Prop where
  error : ∀ {s s' : σ} {e : Error}, (reader s).EndsUnder L → x s = (.error e, s') → P e
  ends : ∀ {s s' : σ} {a : α}, (reader s).EndsUnder L → x s = (.ok a, s') →
    (reader s').EndsUnder L

namespace Incurs

variable {x : Attempt Error σ α} {f : α → Attempt Error σ β}

theorem of_apply (a : α) (h : ∀ s, ∃ s', x s = (.ok a, s') ∧ reader s' = reader s) :
    Incurs L P x := by
  constructor
  · intro s s' e _ hx
    obtain ⟨s₁, h₁, -⟩ := h s
    rw [hx] at h₁
    cases h₁
  · intro s s' b hs hx
    obtain ⟨s₁, h₁, hr⟩ := h s
    rw [hx] at h₁
    cases h₁
    rwa [hr]

theorem pure (a : α) : Incurs L P (pure a : Attempt Error σ α) := of_apply a fun s => ⟨s, rfl, rfl⟩

theorem fail {e : Error} (h : P e) : Incurs L P (.fail e : Attempt Error σ α) := by
  constructor
  · rintro _ _ _ _ ⟨⟩
    exact h
  · rintro _ _ _ _ ⟨⟩

theorem view_bind {g : σ → β} {f : β → Attempt Error σ α}
    (hf : ∀ s, (reader s).EndsUnder L → Incurs L P (f (g s))) :
    Incurs L P (Attempt.view g >>= f) := by
  constructor
  · intro s s' e hs h
    exact (hf s hs).error hs h
  · intro s s' a hs h
    exact (hf s hs).ends hs h

theorem view (g : σ → α) : Incurs L P (Attempt.view g) := by
  constructor
  · rintro _ _ _ _ ⟨⟩
  · rintro _ _ _ hs ⟨⟩
    exact hs

theorem bind (hx : Incurs L P x) (hf : ∀ a, Incurs L P (f a)) : Incurs L P (x >>= f) := by
  constructor
  · intro s s₂ e hs h
    rcases h₁ : x s with ⟨e' | a, s₁⟩
    · rw [Attempt.bind_error h₁] at h
      cases h
      exact hx.error hs h₁
    · rw [Attempt.bind_ok h₁] at h
      exact (hf a).error (hx.ends hs h₁) h
  · intro s s₂ b hs h
    rcases h₁ : x s with ⟨e' | a, s₁⟩
    · rw [Attempt.bind_error h₁] at h
      cases h
    · rw [Attempt.bind_ok h₁] at h
      exact (hf a).ends (hx.ends hs h₁) h

theorem map (g : α → β) (hx : Incurs L P x) : Incurs L P (g <$> x) := hx.bind fun a => pure (g a)

theorem collect (hx : Incurs L P x) (count : Nat) (done : Array α) :
    Incurs L P (Attempt.collect x count done : Attempt Error σ (Array α)) := by
  induction count generalizing done with
  | zero => exact pure done
  | succ count ih =>
    rw [Attempt.collect_succ]
    exact hx.bind fun a => ih (done.push a)

end Incurs

namespace Reader

variable (hP : ∀ e : Error, e.blamesInput = true → P e)

include hP

theorem incurs_bytes (op : String) (n : Nat) : Incurs L P (bytes op n) := by
  constructor
  · intro r r' e he h
    simp only [HasReader.reader_self] at he
    rw [bytes_eq he.ends.pieces] at h
    split at h
    · cases h
    · cases h
      exact hP _ (by rw [he.ends.ended]; rfl)
  · intro r r' bs he h
    simp only [HasReader.reader_self] at he ⊢
    rw [bytes_eq he.ends.pieces] at h
    split at h
    · next hn =>
      cases h
      exact ⟨he.ends.advance hn, he.limits⟩
    · cases h

theorem incurs_byte (op : String) : Incurs L P (byte op) := (incurs_bytes hP op 1).map _

theorem incurs_bool : Incurs L P bool := by
  refine (Incurs.view _).bind fun start => (incurs_byte hP _).bind fun b => ?_
  split
  · exact Incurs.pure _
  · split
    · exact Incurs.pure _
    · exact Incurs.fail (hP _ rfl)

theorem incurs_numberAs (op : String) (k : IntKind) : Incurs L P (numberAs op k) :=
  (incurs_bytes hP op _).bind fun _ => Incurs.pure _

theorem incurs_sizeGroups (op : String) (start groups weight sum : Nat) :
    Incurs L P (sizeGroups op start groups weight sum) := by
  induction groups generalizing weight sum with
  | zero => exact Incurs.fail (hP _ rfl)
  | succ groups ih =>
    rw [sizeGroups]
    refine (incurs_byte hP op).bind fun b => ?_
    dsimp only
    split
    · exact Incurs.fail (hP _ rfl)
    · split
      · exact Incurs.pure _
      · exact ih _ _

theorem incurs_size : Incurs L P size := by
  refine (Incurs.view _).bind fun start => (incurs_byte hP _).bind fun b => ?_
  split
  · exact Incurs.pure _
  · exact incurs_sizeGroups hP _ _ _ _ _

theorem incurs_nullable : Incurs L P nullable := by
  refine (Incurs.view _).bind fun start => (incurs_byte hP _).bind fun b => ?_
  split
  · exact Incurs.pure _
  · split
    · exact (incurs_sizeGroups hP _ _ _ _ _).map _
    · split
      · exact Incurs.pure _
      · exact Incurs.fail (hP _ rfl)

theorem incurs_nullableSize : Incurs L P nullableSize := (incurs_nullable hP).map _

theorem incurs_itemCount : Incurs L P itemCount := by
  refine (Incurs.view _).bind fun start => (incurs_size hP).bind fun n => ?_
  refine (Incurs.view _).bind fun limit => ?_
  split
  · exact Incurs.pure _
  · exact Incurs.fail (hP _ rfl)

theorem incurs_float32 : Incurs L P float32 := (incurs_bytes hP _ _).map _

theorem incurs_float64 : Incurs L P float64 := (incurs_bytes hP _ _).map _

theorem incurs_octets : Incurs L P octets := (incurs_bytes hP _ _).map _

theorem incurs_ticks : Incurs L P ticks := (incurs_numberAs hP _ _).map _

theorem incurs_millis : Incurs L P millis := (incurs_ticks hP).map _

theorem incurs_instant : Incurs L P instant := by
  refine (incurs_ticks hP).bind fun t => ?_
  split
  · exact Incurs.pure _
  · exact Incurs.fail (hP _ rfl)

section Texts

variable (hover : ∀ e, L.Overruns e → P e)

include hover

/-- The length has passed its limit when the buffer is made. -/
theorem incurs_textBytes : Incurs L P textBytes := by
  refine (Incurs.view _).bind fun start => (incurs_nullableSize hP).bind fun n => ?_
  refine Incurs.view_bind fun r hr => ?_
  rw [HasReader.reader_self] at hr
  split
  · exact Incurs.pure _
  · split
    · next hle =>
      by_cases hn : n ≤ capacity
      · rw [buffer_of_le hn]
        exact incurs_bytes hP _ _
      · rw [buffer_of_lt (Nat.not_le.1 hn)]
        exact Incurs.fail (hover _ ⟨n, Nat.not_le.1 hn, hr.limits ▸ hle, rfl⟩)
    · exact Incurs.fail (hP _ rfl)

theorem incurs_text : Incurs L P text := by
  refine (Incurs.view _).bind fun start => (incurs_textBytes hP hover).bind fun bs => ?_
  split
  · exact Incurs.pure _
  · exact Incurs.fail (hP _ rfl)

theorem incurs_variant : Incurs L P variant := by
  refine (Incurs.view _).bind fun start => (incurs_byte hP _).bind fun b => ?_
  split
  · next m _ =>
    cases m with
    | bool => exact (incurs_bool hP).map _
    | byte | short | int | long | type => exact (incurs_numberAs hP _ _).map _
    | float => exact (incurs_float32 hP).map _
    | double => exact (incurs_float64 hP).map _
    | uuid => exact (incurs_octets hP).map _
    | size => exact (incurs_size hP).map _
    | nullableSize | endpoint => exact (incurs_nullableSize hP).map _
    | text => exact (incurs_text hP hover).map _
  · exact Incurs.fail (hP _ rfl)

end Texts

end Reader

theorem Scalar.incurs_read (s : Scalar) (hP : ∀ e : Error, e.blamesInput = true → P e)
    (hover : ∀ e, L.Overruns e → P e) : Incurs L P s.read := by
  cases s with
  | bool => exact Reader.incurs_bool hP
  | int k => exact Reader.incurs_numberAs hP _ k
  | float32 => exact Reader.incurs_float32 hP
  | float64 => exact Reader.incurs_float64 hP
  | text => exact Reader.incurs_text hP hover
  | uuid | octets => exact Reader.incurs_octets hP
  | time => exact Reader.incurs_instant hP
  | variant => exact Reader.incurs_variant hP hover

end TagWire
