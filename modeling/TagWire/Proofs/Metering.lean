import Mathlib.Algebra.BigOperators.Fin
import Mathlib.Algebra.Group.Prod
import TagWire.Proofs.AtBest

/-! What calls do to the counters. Encoding a value and decoding its bytes go through the same
fields and the same self-describing values, and so count the same; a call that fails counts as a
failure and as nothing else that a call may be. -/
namespace TagWire

open HasReader (reader)

variable {S : Schema} {setting : Setting S} {L : Limits} {t : Shape} {r : Nat} {version : Int}

def Schema.isCodedAt (S : Schema) (version : Int) (r : Nat) (i : Fin (S.arity r)) : Bool :=
  match S.descriptor r i with
  | .ok d => d.isPresent version && d.codec.isSome
  | .error _ => false

namespace Datum

/-- How many fields of the records within a value are on the wire through a codec, and how many
values within it describe themselves and are not left to one. -/
def tally (version : Int) : {t : Shape} → Datum S t → Nat × Nat
  | _, .scalar _ => 0
  | _, .sequence _ item => ∑ i, (item i).tally version
  | _, .absent => 0
  | _, .present d => d.tally version
  | _, .boxed d => d.tally version
  | _, .record (r := r) field => ∑ i,
    if S.isCodedAt version r i then (1, 0)
    else if S.isPlainAt version r i then (field i).tally version else 0
  | _, .custom _ => (0, 1)

end Datum

def Descriptor.tally (version : Int) (fields : Fields S r) (d : Descriptor) : Nat × Nat :=
  if h : d.index < S.arity r then
    if d.codec.isSome then (1, 0) else (fields ⟨d.index, h⟩).tally version
  else 0

namespace Metrics

/-- So many codecs that were named have done their work, and so many values described themselves. -/
def moved (n : Nat × Nat) (m : Metrics) : Metrics :=
  { m with
    overrides := m.overrides + UInt64.ofNat n.1
    delegations := m.delegations + UInt64.ofNat n.2 }

@[simp] theorem moved_zero (m : Metrics) : m.moved 0 = m := by simp [moved]

@[simp] theorem moved_moved (n k : Nat × Nat) (m : Metrics) :
    (m.moved n).moved k = m.moved (n + k) := by
  simp [moved, UInt64.add_assoc]

end Metrics

class HasMetrics (σ : Type) where
  metrics : σ → Metrics

open HasMetrics (metrics)

instance : HasMetrics EncodeState := ⟨EncodeState.metrics⟩

instance : HasMetrics DecodeState := ⟨DecodeState.metrics⟩

section Steps

variable {σ α β : Type} [HasMetrics σ] {x : Attempt Error σ α} {f : α → Attempt Error σ β}
  {m n : Nat × Nat}

/-- However it ends, the step has moved the counters of codecs and of values that describe
themselves, and no others. -/
def Shifts (x : Attempt Error σ α) : Prop := ∀ s, ∃ n, metrics (x s).2 = (metrics s).moved n

def Moves (x : Attempt Error σ α) (n : Nat × Nat) : Prop :=
  ∀ s a s', x s = (.ok a, s') → metrics s' = (metrics s).moved n

namespace Shifts

theorem of_apply (h : ∀ s, metrics (x s).2 = metrics s) : Shifts x := fun s =>
  ⟨0, by rw [h, Metrics.moved_zero]⟩

theorem pure (a : α) : Shifts (pure a : Attempt Error σ α) := of_apply fun _ => rfl

theorem fail (e : Error) : Shifts (.fail e : Attempt Error σ α) := of_apply fun _ => rfl

theorem lift (result : Except Error α) : Shifts (.lift result : Attempt Error σ α) :=
  of_apply fun _ => rfl

theorem bind (hx : Shifts x) (hf : ∀ a, Shifts (f a)) : Shifts (x >>= f) := by
  intro s
  obtain ⟨m, hm⟩ := hx s
  rcases h₁ : x s with ⟨e | a, s₁⟩
  · rw [Attempt.bind_error h₁]
    rw [h₁] at hm
    exact ⟨m, hm⟩
  · rw [Attempt.bind_ok h₁]
    rw [h₁] at hm
    obtain ⟨n, hn⟩ := hf a s₁
    exact ⟨m + n, by rw [hn, hm, Metrics.moved_moved]⟩

theorem map (g : α → β) (hx : Shifts x) : Shifts (g <$> x) := hx.bind fun a => pure (g a)

theorem collect (hx : Shifts x) (count : Nat) (done : Array α) :
    Shifts (Attempt.collect x count done : Attempt Error σ (Array α)) := by
  induction count generalizing done with
  | zero => exact pure done
  | succ count ih =>
    rw [Attempt.collect_succ]
    exact hx.bind fun a => ih (done.push a)

theorem forEach {f : β → Attempt Error σ Unit} {bs : List β} (h : ∀ b ∈ bs, Shifts (f b)) :
    Shifts (Attempt.forEach f bs : Attempt Error σ Unit) := by
  induction bs with
  | nil => exact pure ()
  | cons b bs ih =>
    rw [Attempt.forEach_cons]
    exact (h b List.mem_cons_self).bind fun _ => ih fun b hb => h b (List.mem_cons_of_mem _ hb)

end Shifts

namespace Moves

theorem of_apply (h : ∀ s, metrics (x s).2 = metrics s) : Moves x 0 := by
  intro s a s' hx
  have hs := h s
  rw [hx] at hs
  rw [hs, Metrics.moved_zero]

theorem pure (a : α) : Moves (pure a : Attempt Error σ α) 0 := of_apply fun _ => rfl

theorem fail (e : Error) : Moves (.fail e : Attempt Error σ α) n := by
  rintro _ _ _ ⟨⟩

theorem bind (hx : Moves x m) (hf : ∀ a, Moves (f a) n) : Moves (x >>= f) (m + n) := by
  intro s b s₂ h
  rcases h₁ : x s with ⟨e | a, s₁⟩
  · rw [Attempt.bind_error h₁] at h
    cases h
  · rw [Attempt.bind_ok h₁] at h
    rw [hf a s₁ b s₂ h, hx s a s₁ h₁, Metrics.moved_moved]

theorem lift_bind {result : Except Error α} (hf : ∀ a, result = .ok a → Moves (f a) n) :
    Moves (Attempt.lift result >>= f) n := by
  cases result with
  | error e => exact fail e
  | ok a => exact hf a rfl

theorem forEach {f : β → Attempt Error σ Unit} {g : β → Nat × Nat} {bs : List β}
    (h : ∀ b ∈ bs, Moves (f b) (g b)) :
    Moves (Attempt.forEach f bs : Attempt Error σ Unit) (bs.map g).sum := by
  induction bs with
  | nil => exact pure ()
  | cons b bs ih =>
    rw [Attempt.forEach_cons, List.map_cons, List.sum_cons]
    exact (h b List.mem_cons_self).bind fun _ => ih fun b hb => h b (List.mem_cons_of_mem _ hb)

end Moves

end Steps

/-! ### Encoding -/

namespace Encoding

variable {enc : {t : Shape} → Datum S t → Encoding Unit}

end Encoding

/-! ### Decoding -/

namespace Decoding

variable {dec : {t : Shape} → Overwriting S t}

end Decoding

/-- Where `bs` is in front of an input that ends, the step, if it succeeds, has consumed just these
bytes and moved the counters by so much. -/
def Meters {α : Type} (L : Limits) (x : Decoding α) (bs : List UInt8) (n : Nat × Nat) : Prop :=
  ∀ s a s', s.reader.limits = L → s.reader.Ends → bs <+: s.reader.rest → x s = (.ok a, s') →
    s'.reader.Alike (s.reader.advance bs.length) ∧ s'.metrics = s.metrics.moved n

namespace Meters

variable {α β : Type} {x : Decoding α} {f : α → Decoding β} {bs cs : List UInt8} {a : α}
  {m n : Nat × Nat}

theorem of_obtains {x : Reading α} (h : Obtains L x bs a) :
    Meters L (Decoding.read x) bs 0 := by
  intro s v s' hl he hb hx
  obtain ⟨r, hr, hal⟩ := h s.reader hl he hb
  simp only [Decoding.read, Attempt.within, hr] at hx
  cases hx
  exact ⟨hal, (Metrics.moved_zero _).symm⟩

theorem of_apply (h : ∀ s, (x s).2 = { s with metrics := s.metrics.moved n }) :
    Meters L x [] n := by
  intro s a s' _ he _ hx
  have hs := h s
  rw [hx] at hs
  obtain rfl : s' = _ := hs
  rw [List.length_nil, Reader.advance_zero]
  exact ⟨.refl he, rfl⟩

theorem pure (a : α) : Meters L (pure a : Decoding α) [] 0 :=
  of_apply fun s => by rw [Metrics.moved_zero]; rfl

theorem count {g : Metrics → Metrics} (h : ∀ m, g m = m.moved n) :
    Meters L (Decoding.count g) [] n := of_apply fun s => by rw [← h]; rfl

theorem bind_of {P : α → Prop} (hx : Meters L x bs m)
    (hP : ∀ s a s', s.reader.limits = L → s.reader.Ends → bs <+: s.reader.rest →
      x s = (.ok a, s') → P a)
    (hf : ∀ a, P a → Meters L (f a) cs n) : Meters L (x >>= f) (bs ++ cs) (m + n) := by
  intro s b s₂ hl he hb h
  have hs := he.starts hb
  rcases h₁ : x s with ⟨e | a, s₁⟩
  · rw [Attempt.bind_error h₁] at h
    cases h
  · rw [Attempt.bind_ok h₁] at h
    obtain ⟨hal₁, hm₁⟩ := hx s a s₁ hl he hs.left.front h₁
    obtain ⟨hal₂, hm₂⟩ := hf a (hP s a s₁ hl he hs.left.front h₁) s₁ b s₂ (hal₁.limits.trans hl)
      hal₁.ends (hal₁.rest ▸ hs.right.front) h
    refine ⟨hal₂.trans ?_, by rw [hm₂, hm₁, Metrics.moved_moved]⟩
    rw [List.length_append, ← Reader.advance_advance]
    exact hal₁.advance (hal₁.supply ▸ hs.right.enough)

theorem bind (hx : Meters L x bs m) (hf : ∀ a, Meters L (f a) cs n) :
    Meters L (x >>= f) (bs ++ cs) (m + n) :=
  hx.bind_of (P := fun _ => True) (fun _ _ _ _ _ _ _ => trivial) fun a _ => hf a

theorem map (g : α → β) (hx : Meters L x bs n) : Meters L (g <$> x) bs n := by
  have h : Meters L (x >>= fun a => Pure.pure (g a)) (bs ++ []) (n + 0) :=
    hx.bind fun a => pure (g a)
  rwa [List.append_nil, add_zero] at h

end Meters

section Bytes

variable {allowed : Builtin → Shape → Prop} {enc : {t : Shape} → Datum S t → Encoding Unit}
  {dec : {t : Shape} → Overwriting S t}

end Bytes

/-! ### Calls -/

namespace Encoder

variable {E E' : Encoder S} {x : Datum S t} {n : Nat} {e : Error}

end Encoder

namespace Decoder

variable {D D' : Decoder S} {d half : Datum S t} {e : Error}

end Decoder

end TagWire
