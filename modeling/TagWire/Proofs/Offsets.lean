import TagWire.Proofs.Sequential
import TagWire.Proofs.Wire.Located

/-! What the position in an error means. It is where a read started that could not be finished: all
before it was consumed, and an input that ends there is reported as truncated there. -/
namespace TagWire

open HasReader (reader)

variable {S : Schema} {setting : Setting S} {t : Shape}

section Steps

variable {σ α β : Type} [HasReader σ] {x : Attempt Error σ α} {f : α → Attempt Error σ β}
  {own : Option Nat} {e : Error} {o : Nat} {s s' : σ}

theorem Stepwise.offset_le (h : Stepwise x) (s : σ) :
    (reader s).offset ≤ (reader (x s).2).offset := by
  induction h generalizing s with
  | idle g h =>
    obtain ⟨s', hx, hr⟩ := h s
    exact Nat.le_of_eq (by rw [hx, hr])
  | bytes op n h =>
    obtain ⟨s', hx, hr⟩ := h s
    rw [hx, hr]
    unfold Reader.bytes
    dsimp only
    split
    · exact Nat.le_add_right _ _
    · exact Nat.le_refl _
  | @bind _ _ x f _ _ hx hf =>
    rcases h₁ : x s with ⟨e | a, s₁⟩
    · have := hx s
      rw [h₁] at this
      rw [Attempt.bind_error h₁]
      exact this
    · have := hx s
      rw [h₁] at this
      rw [Attempt.bind_ok h₁]
      exact Nat.le_trans this (hf a s₁)

/-- The position `o` that a failed step reports is that of a read. It lies within what was consumed,
at its end just when the source has stopped; and from an input that is cut there the step reports
the end at `o`. -/
structure PointsAt (x : Attempt Error σ α) (s s' : σ) (e : Error) (o : Nat) : Prop where
  offset_le : (reader s).offset ≤ o
  le_rest : o ≤ (reader s).offset + (reader s).rest.length
  le_offset : o ≤ (reader s').offset
  eq_offset_iff : o = (reader s').offset ↔ e.kind = .io
  cut : ∀ s₂, (reader s₂).limits = (reader s).limits → (reader s₂).offset = (reader s).offset →
    (reader s₂).Ends → (reader s₂).rest = (reader s).rest.take (o - (reader s).offset) →
    ∃ op s₂', x s₂ = (.error (.io op o .ended), s₂')

namespace PointsAt

theorem bind_error (h : PointsAt x s s' e o) : PointsAt (x >>= f) s s' e o where
  offset_le := h.offset_le
  le_rest := h.le_rest
  le_offset := h.le_offset
  eq_offset_iff := h.eq_offset_iff
  cut s₂ hl ho he hr := by
    obtain ⟨op, s₂', hx⟩ := h.cut s₂ hl ho he hr
    exact ⟨op, s₂', Attempt.bind_error hx⟩

theorem bind_ok {bs : List UInt8} {a : α} {s₁ : σ} (hb : (reader s).Starts bs)
    (hr₁ : reader s₁ = (reader s).advance bs.length)
    (hx : Settles (reader s).limits (reader s).offset x bs (.ok a))
    (h : PointsAt (f a) s₁ s' e o) : PointsAt (x >>= f) s s' e o := by
  have ho₁ : (reader s₁).offset = (reader s).offset + bs.length := congrArg Reader.offset hr₁
  have hrest₁ : (reader s₁).rest = (reader s).rest.drop bs.length := by
    rw [hr₁, Reader.rest_advance]
  have hle := hb.front.length_le
  have hafter := h.offset_le
  have hwithin := h.le_rest
  rw [hrest₁, List.length_drop] at hwithin
  refine ⟨by omega, by omega, h.le_offset, h.eq_offset_iff, fun s₂ hl ho he hr => ?_⟩
  have hprefix : bs <+: (reader s₂).rest := by
    rw [hr, ← hb.take]
    exact List.take_prefix_take_left (by omega)
  obtain ⟨s₃, h₃, hr₃⟩ := hx s₂ hl ho (he.starts hprefix)
  obtain ⟨op, s₄, h₄⟩ := h.cut s₃ (by rw [hr₃, hr₁]; exact hl)
    (by rw [hr₃, hr₁]; exact congrArg (· + bs.length) ho)
    (hr₃ ▸ he.advance (he.starts hprefix).enough)
    (by rw [hr₃, Reader.rest_advance, hr, hrest₁, ho₁, List.drop_take, Nat.sub_sub])
  exact ⟨op, s₄, (Attempt.bind_ok h₃).trans h₄⟩

end PointsAt

/-- On an input that only ends, every position that an error of the step reports points at a read,
or is `own`. -/
def Pinpoints (own : Option Nat) (x : Attempt Error σ α) : Prop :=
  ∀ s, (reader s).Ends → ∀ e s', x s = (.error e, s') → ∀ o, e.offset? = some o →
    own = some o ∧ e.kind ≠ .io ∨ PointsAt x s s' e o

namespace Pinpoints

theorem of_unplaced (h : ∀ s e s', x s = (.error e, s') → e.offset? = none) : Pinpoints own x := by
  intro s _ e s' hx o ho
  rw [h s e s' hx] at ho
  cases ho

theorem bind (hs : Stepwise x) (hx : Pinpoints own x) (hf : ∀ a, Pinpoints own (f a)) :
    Pinpoints own (x >>= f) := by
  intro s hends e s' h o ho
  rcases h₁ : x s with ⟨e₁ | a, s₁⟩
  · rw [Attempt.bind_error h₁] at h
    cases h
    exact (hx s hends _ _ h₁ o ho).imp_right PointsAt.bind_error
  · rw [Attempt.bind_ok h₁] at h
    obtain ⟨bs, hb, hr₁, hset⟩ := hs.of_ok hends.pieces h₁
    have hends₁ : (reader s₁).Ends := hr₁ ▸ hends.advance hb.enough
    exact (hf a s₁ hends₁ e s' h o ho).imp_right (PointsAt.bind_ok hb hr₁ hset)

theorem of_runs {y : Reading α} (h : Runs y x) (hy : Pinpoints own y) : Pinpoints own x := by
  intro s hends e s' hx o ho
  obtain ⟨s₁, hx₁, hr₁⟩ := h s
  rw [hx] at hx₁
  simp only [Prod.mk.injEq] at hx₁
  obtain ⟨hres, rfl⟩ := hx₁
  refine (hy (reader s) hends e (reader s') (Prod.ext hres.symm hr₁.symm) o ho).imp_right ?_
  intro hp
  refine ⟨hp.offset_le, hp.le_rest, hp.le_offset, hp.eq_offset_iff, fun s₂ hl ho' he hr => ?_⟩
  obtain ⟨op, r, hcut⟩ := hp.cut (reader s₂) hl ho' he hr
  obtain ⟨s₃, h₃, -⟩ := h s₂
  rw [hcut] at h₃
  exact ⟨op, s₃, h₃⟩

theorem bytes (op : String) (n : Nat) : Pinpoints own (Reader.bytes op n) := by
  intro r hends e r' hx o ho
  simp only [HasReader.reader_self] at hends
  have hb := Reader.bytes_eq hends.pieces op n
  rw [hx] at hb
  by_cases hn : n ≤ r.supply
  · rw [if_pos hn] at hb
    cases hb
  · rw [if_neg hn] at hb
    cases hb
    cases ho
    refine .inr ⟨Nat.le_refl _, Nat.le_add_right _ _, Nat.le_refl _, iff_of_true rfl rfl, ?_⟩
    intro r₂ hl ho he hr
    simp only [HasReader.reader_self, Nat.sub_self, List.take_zero] at hl ho he hr ⊢
    have hb₂ := Reader.bytes_eq he.pieces op n
    have hs₂ := he.supply
    rw [hr, List.length_nil] at hs₂
    rw [if_neg (by omega), ho, he.ended] at hb₂
    exact ⟨op, _, hb₂⟩

end Pinpoints

end Steps

theorem Hungry.length_pos {α : Type} {x : Reading α} (h : Hungry x) {L : Limits} {start : Nat}
    {bs : List UInt8} {a : α} (hx : Settles L start x bs (.ok a)) : 0 < bs.length := by
  apply Nat.pos_of_ne_zero
  intro hz
  obtain rfl := List.length_eq_zero_iff.1 hz
  have hends : Reader.Ends ⟨⟨[], none, none⟩, L, [], start⟩ := ⟨nofun, rfl⟩
  obtain ⟨r, hok, -⟩ := hx _ rfl rfl (hends.starts List.nil_prefix)
  obtain ⟨op, r', herror⟩ := h _ hends rfl
  cases hok.symm.trans herror

theorem Pinpoints.anchored {α β : Type} {own : Option Nat} {x : Reading α} {f : Nat → α → Reading β}
    (hs : Stepwise x) (hf : ∀ start a, Stepwise (f start a)) (hungry : Hungry x)
    (hx : Pinpoints none x) (hp : ∀ start a, Pinpoints (some start) (f start a)) :
    Pinpoints own (Reader.position >>= fun start => x >>= f start) := by
  intro r hends e r' h o ho
  simp only [HasReader.reader_self] at hends
  have hstart : (x >>= f r.offset) r = (.error e, r') := h
  have hpoints (hp : PointsAt (x >>= f r.offset) r r' e o) :
      PointsAt (Reader.position >>= fun start => x >>= f start) r r' e o := by
    refine ⟨hp.offset_le, hp.le_rest, hp.le_offset, hp.eq_offset_iff, fun r₂ hl ho' he hr => ?_⟩
    obtain ⟨op, r₃, hcut⟩ := hp.cut r₂ hl ho' he hr
    simp only [HasReader.reader_self] at ho'
    refine ⟨op, r₃, ?_⟩
    change (x >>= f r₂.offset) r₂ = _
    rw [ho', hcut]
  refine .inr (hpoints ?_)
  rcases h₁ : x r with ⟨e₁ | a, r₁⟩
  · rw [Attempt.bind_error h₁] at hstart
    cases hstart
    exact ((hx r hends _ _ h₁ o ho).resolve_left nofun).bind_error
  · rw [Attempt.bind_ok h₁] at hstart
    obtain ⟨bs, hb, hr₁, hset⟩ := hs.of_ok hends.pieces h₁
    simp only [HasReader.reader_self] at hb hr₁ hset
    have hends₁ : r₁.Ends := hr₁ ▸ hends.advance hb.enough
    rcases hp r.offset a r₁ hends₁ e r' hstart o ho with ⟨hown, hkind⟩ | hlater
    · cases hown
      have hlt : r.offset < r'.offset := by
        have hmoved := (hf r.offset a).offset_le r₁
        rw [hstart] at hmoved
        have hpos := hungry.length_pos hset
        have ho₁ : r₁.offset = r.offset + bs.length := congrArg Reader.offset hr₁
        simp only [HasReader.reader_self] at hmoved
        omega
      refine ⟨Nat.le_refl _, Nat.le_add_right _ _, Nat.le_of_lt hlt, ?_, ?_⟩
      · exact iff_of_false (Nat.ne_of_lt hlt) hkind
      · intro r₂ _ ho' he hr
        simp only [HasReader.reader_self, Nat.sub_self, List.take_zero] at ho' he hr ⊢
        obtain ⟨op, r₃, hcut⟩ := hungry r₂ he hr
        exact ⟨op, r₃, ho' ▸ Attempt.bind_error hcut⟩
    · exact hlater.bind_ok hb hr₁ hset

theorem Located.pinpoints {own : Option Nat} {α : Type} {x : Reading α} (h : Located own x) :
    Pinpoints own x := by
  induction h with
  | idle g h placed =>
    intro r _ e r' hx o ho
    rw [h r] at hx
    simp only [Prod.mk.injEq] at hx
    obtain ⟨hkind, hnone | hown⟩ := placed _ _ e hx.1
    · cases hnone.symm.trans ho
    · exact .inl ⟨hown.symm.trans ho, hkind⟩
  | bytes op n => exact .bytes op n
  | bind hx _ ihx ihf => exact ihx.bind hx.stepwise ihf
  | anchored hx hungry hf ihx ihf =>
    exact .anchored hx.stepwise (fun start a => (hf start a).stepwise) hungry ihx ihf

theorem Typed.pinpoints {α : Type} {x : Reading α} (h : Typed (·.offset? = none) x) :
    Pinpoints none x := by
  induction h with
  | lift result h =>
    apply Pinpoints.of_unplaced
    intro r e r' hx
    exact h e (congrArg Prod.fst hx)
  | read h => exact h.located.pinpoints
  | bind hx _ ihx ihf => exact ihx.bind hx.stepwise ihf

theorem readClosed_pinpoints :
    ReadClosed (·.offset? = none) fun _ x => Stepwise x ∧ Pinpoints none x where
  unplaced _ h := h
  read h := ⟨Decoding.stepwise_read h.stepwise, .of_runs (Decoding.runs_read _) h.pinpoints⟩
  quiet _ result h := by
    refine ⟨.idle (fun _ _ => result) fun _ => ⟨_, rfl, rfl⟩, .of_unplaced fun s e s' hx => ?_⟩
    exact h e (congrArg Prod.fst hx)
  bind hx hf := ⟨hx.1.bind fun a => (hf a).1, hx.2.bind hx.1 fun a => (hf a).2⟩

/-- A call on inputs in memory whose errors point at a read: up to the position that one reports
everything was consumed, more than that just when the source did not stop it, and the input cut
there is reported as truncated there. -/
def Setting.Locating (setting : Setting S) {α : Type}
    (call : Decoder S → Except Error α × Decoder S) : Prop :=
  ∀ b e D o, call (.ofSource { unread := b } setting) = (.error e, D) → e.offset? = some o →
    o ≤ b.length ∧ o ≤ D.reader.offset ∧ (o = D.reader.offset ↔ e.kind = .io) ∧
    ∃ op D', call (.ofSource { unread := b.take o } setting) = (.error (.io op o .ended), D')

theorem Setting.locating_of_pinpoints {α β : Type} {x : Decoding α} (hx : Pinpoints none x)
    {call : Decoder S → Except Error β × Decoder S} (hcall : setting.Calls x call) :
    setting.Locating call := by
  obtain ⟨g, hcall⟩ := hcall
  intro b e D o hd ho
  rcases hs : x (.start setting b) with ⟨e₁ | a, s⟩
  · obtain ⟨metrics, hc⟩ := hcall { unread := b } _ s hs
    rw [hd] at hc
    cases hc
    obtain hp := (hx (.start setting b) (Decoder.ends_ofSource setting b) _ s hs o ho).resolve_left
      nofun
    have hstart : (DecodeState.start setting b).reader.offset = 0 := rfl
    have hwithin : o ≤ 0 + b.length := hp.le_rest
    rw [Nat.zero_add] at hwithin
    refine ⟨hwithin, hp.le_offset, hp.eq_offset_iff, ?_⟩
    obtain ⟨op, s', hcut⟩ := hp.cut (.start setting (b.take o)) rfl rfl
      (Decoder.ends_ofSource setting (b.take o)) rfl
    obtain ⟨metrics', hc'⟩ := hcall { unread := b.take o } _ s' hcut
    exact ⟨op, _, hc'⟩
  · obtain ⟨metrics, hc⟩ := hcall { unread := b } _ s hs
    rw [hd] at hc
    cases hc

/-- The positions in the errors of decoding, afresh or in place, point at reads, for any type of the
engine that reads by typed reads and puts no positions into errors of its own. -/
theorem Setting.locating_decode (h : setting.Reads (·.offset? = none) t) :
    setting.Locating (Decoder.decode t) ∧
      ∀ old : Datum S t, setting.Locating (Decoder.overwrite old) := by
  have hx := fun d : Datum S t =>
    (readClosed_pinpoints.value_of_reads setting.options.maxDepth h d).2
  exact ⟨locating_of_pinpoints (hx (.initial t)) calls_decode,
    fun old => locating_of_pinpoints (hx old) (calls_overwrite old)⟩

/-- The last byte is no truth value. -/
theorem Setting.locating_decode_probe : ∃ e D,
    Sample.readProbe (Sample.probeBytes.take 7 ++ [9]) = (.error e, D) ∧ e.offset? = some 7 ∧
      e.kind ≠ .io ∧ D.reader.offset = 8 ∧
      ∃ op D', Sample.readProbe (Sample.probeBytes.take 7) = (.error (.io op 7 .ended), D') := by
  have hk : (Sample.readProbe (Sample.probeBytes.take 7 ++ [9])).2.reader.offset = 8 := by
    decide +kernel
  have he : (match (Sample.readProbe (Sample.probeBytes.take 7 ++ [9])).1 with
      | .error e => e.offset?
      | .ok _ => none) = some 7 := by
    decide +kernel
  rcases hd : Sample.readProbe (Sample.probeBytes.take 7 ++ [9]) with ⟨e | v, D⟩
  · rw [hd] at hk he
    obtain ⟨-, -, hio, op, D', hcut⟩ :=
      (locating_decode (Sample.reads_probe fun _ h => h)).1 _ e D 7 hd he
    have hkind : e.kind ≠ .io := by
      intro h
      cases (hio.2 h).trans hk
    exact ⟨e, D, rfl, he, hkind, hk, op, D', hcut⟩
  · rw [hd] at he
    cases he

end TagWire
