import TagWire.Proofs.WholeBuffer
import TagWire.Proofs.Sequential
import TagWire.Proofs.Wire.Located

/-! How a source delivers its bytes. In what pieces they come makes no difference at all; a source
that breaks acts like one that ends there, but for the cause that a read of bytes reports. -/
namespace TagWire

open HasReader (reader)

variable {S : Schema} {setting : Setting S} {t : Shape}

/-! ### Pieces -/

def Source.inPieces (s : Source) (chunk : Option Nat) : Source := { s with chunk }

def Reader.inPieces (r : Reader) (chunk : Option Nat) : Reader :=
  { r with source := r.source.inPieces chunk }

def DecodeState.inPieces (s : DecodeState) (chunk : Option Nat) : DecodeState :=
  { s with reader := s.reader.inPieces chunk }

/-- The same decoder with a source that hands out at most so many bytes per call. -/
def Decoder.inPieces (D : Decoder S) (chunk : Option Nat) : Decoder S :=
  { D with reader := D.reader.inPieces chunk }

section Commutes

variable {ε σ α β : Type} {ok : σ → Prop} {h : σ → σ} {x : Attempt ε σ α} {f : α → Attempt ε σ β}

/-- It makes no difference whether the state is changed before the step or after it. -/
def Commutes (ok : σ → Prop) (h : σ → σ) (x : Attempt ε σ α) : Prop :=
  ∀ s, ok s → ok (x s).2 ∧ x (h s) = Prod.map id h (x s)

theorem Commutes.bind (hx : Commutes ok h x) (hf : ∀ a, Commutes ok h (f a)) :
    Commutes ok h (x >>= f) := by
  intro s hs
  obtain ⟨hs₁, heq⟩ := hx s hs
  rcases h₁ : x s with ⟨e | a, s₁⟩
  · rw [h₁] at heq hs₁
    rw [Attempt.bind_error h₁, Attempt.bind_error heq]
    exact ⟨hs₁, rfl⟩
  · rw [h₁] at heq hs₁
    rw [Attempt.bind_ok h₁, Attempt.bind_ok heq]
    exact hf a s₁ hs₁

end Commutes

abbrev Seamless {σ α : Type} [HasReader σ] (inPieces : σ → Option Nat → σ)
    (x : Attempt Error σ α) : Prop :=
  ∀ chunk ≠ some 0,
    Commutes (fun s => (reader s).source.chunk ≠ some 0) (inPieces · chunk) x

namespace Reader

variable {α : Type}

theorem seamless_bytes (op : String) (n : Nat) : Seamless inPieces (bytes op n) := by
  intro chunk hc r hk
  simp only [HasReader.reader_self] at hk ⊢
  have hc' : (r.inPieces chunk).source.chunk ≠ some 0 := hc
  rw [bytes_eq hk, bytes_eq hc']
  by_cases hn : n ≤ r.supply
  · have hn' : n ≤ (r.inPieces chunk).supply := hn
    rw [if_pos hn, if_pos hn']
    exact ⟨hk, rfl⟩
  · have hn' : ¬ n ≤ (r.inPieces chunk).supply := hn
    rw [if_neg hn, if_neg hn']
    exact ⟨hk, rfl⟩

theorem seamless_remaining (op : String) (consume : List UInt8 → α → Except Error Nat × α)
    (a : α) : Seamless inPieces (InPlace.produce (remaining op consume) a) := by
  intro chunk hc r hk
  simp only [HasReader.reader_self] at hk ⊢
  have hdrain := Source.drain_eq hk
  have hdrain' : (r.inPieces chunk).source.drain =
      (if r.source.stop = .ended then .ok r.source.unread else .error r.source.stop,
        (r.source.advance r.source.supply).inPieces chunk) := Source.drain_eq hc
  unfold InPlace.produce remaining
  rw [hdrain, hdrain']
  by_cases he : r.source.stop = .ended
  · simp only [if_pos he]
    have hbuffer : (r.inPieces chunk).pushback = r.pushback := rfl
    rw [hbuffer]
    rcases consume (r.pushback ++ r.source.unread) a with ⟨e | used, a'⟩
    · exact ⟨hk, rfl⟩
    · by_cases hu : (r.pushback ++ r.source.unread).length < used
      · simp only [if_pos hu]
        exact ⟨hk, rfl⟩
      · simp only [if_neg hu]
        exact ⟨hk, rfl⟩
  · simp only [if_neg he]
    exact ⟨hk, rfl⟩

end Reader

theorem Stepwise.seamless {α : Type} {x : Reading α} (h : Stepwise x) :
    Seamless Reader.inPieces x := by
  induction h with
  | idle g h =>
    intro chunk _ r hk
    obtain ⟨r₁, h₁, hr₁⟩ := h r
    obtain ⟨r₂, h₂, hr₂⟩ := h (r.inPieces chunk)
    simp only [HasReader.reader_self] at h₁ h₂ hr₁ hr₂ hk ⊢
    subst hr₁ hr₂
    rw [h₁, h₂]
    exact ⟨hk, rfl⟩
  | @bytes x op n h =>
    have hx : x = Reader.bytes op n := by
      funext r
      obtain ⟨r', hx, hr⟩ := h r
      rw [hx]
      exact Prod.ext rfl hr
    rw [hx]
    exact Reader.seamless_bytes op n
  | bind _ _ hx hf => exact fun chunk hc => (hx chunk hc).bind fun a => hf a chunk hc

namespace Decoding

theorem seamless_read {α : Type} {x : Reading α} (h : Seamless Reader.inPieces x) :
    Seamless DecodeState.inPieces (read x) := by
  intro chunk hc s hk
  obtain ⟨hk', heq⟩ := h chunk hc s.reader hk
  refine ⟨hk', ?_⟩
  have hreader : (s.inPieces chunk).reader = s.reader.inPieces chunk := rfl
  simp only [read, Attempt.within, hreader, heq]
  rfl

theorem readClosed_seamless :
    ReadClosed (fun _ => True) fun _ x => Seamless DecodeState.inPieces x where
  unplaced _ _ := trivial
  read h := seamless_read h.stepwise.seamless
  quiet _ _ _ _ _ _ hk := ⟨hk, rfl⟩
  bind hx hf chunk hc := (hx chunk hc).bind fun a => hf a chunk hc

theorem seamless_value (levels : Nat) (hs : S.Orderly t)
    (hc : ∀ c, setting.Employs t c → c.Typed fun _ => True) (d : Datum S t) :
    Seamless DecodeState.inPieces (InPlace.produce (value setting levels) d) := by
  refine readClosed_seamless.value levels hc (fun k hk dec d => ?_) d
  cases d with
  | custom x =>
    rcases hs k hk with ⟨take, hu⟩ | ⟨step, hu, hscript⟩
    · rw [produce_body_whole hu]
      exact readClosed_seamless.map _ (seamless_read (Reader.seamless_remaining _ _ x))
    · rw [produce_body_custom hu]
      exact seamless_read (((hscript _).stepwise x).map _).seamless

end Decoding

/-- What a call gives and leaves behind is the same, but for the source that goes on as it is,
whether the source hands out a few bytes per call or all that it has. -/
def Setting.Seamless (setting : Setting S) {α : Type}
    (call : Decoder S → Except Error α × Decoder S) : Prop :=
  ∀ (D : Decoder S) (k : Nat), D.setting = setting → 0 < k →
    call (D.inPieces (some k)) = Prod.map id (·.inPieces (some k)) (call (D.inPieces none))

namespace Decoder

theorem produce_inPieces {D : Decoder S} (hs : S.Orderly t)
    (hc : ∀ c, D.setting.Employs t c → c.Typed fun _ => True) (old : Datum S t) {k : Nat}
    (hk : 0 < k) {result : Except Error (Datum S t)} {s : DecodeState}
    (h : D.produce old ⟨D.reader.inPieces none, D.metrics⟩ = (result, s)) :
    D.produce old ⟨D.reader.inPieces (some k), D.metrics⟩ = (result, s.inPieces (some k)) := by
  have hchunk : some k ≠ some 0 := by
    rintro ⟨⟩
    exact Nat.lt_irrefl 0 hk
  have heq := (Decoding.seamless_value D.setting.options.maxDepth hs hc old (some k) hchunk
    ⟨D.reader.inPieces none, D.metrics⟩ nofun).2
  exact heq.trans (congrArg (Prod.map id (·.inPieces (some k))) h)

theorem decode_inPieces {D : Decoder S} (hs : S.Orderly t)
    (hc : ∀ c, D.setting.Employs t c → c.Typed fun _ => True) {k : Nat} (hk : 0 < k) :
    (D.inPieces (some k)).decode t =
      Prod.map id (·.inPieces (some k)) ((D.inPieces none).decode t) := by
  rcases hx : D.produce (.initial t) ⟨D.reader.inPieces none, D.metrics⟩ with ⟨e | v, s⟩
  · have hx' := produce_inPieces hs hc _ hk hx
    rw [decode_of_error (D := D.inPieces none) hx, decode_of_error (D := D.inPieces (some k)) hx']
    rfl
  · have hx' := produce_inPieces hs hc _ hk hx
    rw [decode_of_ok (D := D.inPieces none) hx, decode_of_ok (D := D.inPieces (some k)) hx']
    rfl

theorem overwrite_inPieces {D : Decoder S} (hs : S.Orderly t)
    (hc : ∀ c, D.setting.Employs t c → c.Typed fun _ => True) (old : Datum S t) {k : Nat}
    (hk : 0 < k) : (D.inPieces (some k)).overwrite old =
      Prod.map id (·.inPieces (some k)) ((D.inPieces none).overwrite old) := by
  unfold overwrite
  rcases hx : D.produce old ⟨D.reader.inPieces none, D.metrics⟩ with ⟨e | v, s⟩
  · have hx' := produce_inPieces hs hc _ hk hx
    obtain ⟨half, h⟩ := decodeInto_of_error (D := D.inPieces none) hx
    obtain ⟨half', h'⟩ := decodeInto_of_error (D := D.inPieces (some k)) hx'
    rw [h, h']
    rfl
  · have hx' := produce_inPieces hs hc _ hk hx
    rw [decodeInto_of_ok (D := D.inPieces none) hx,
      decodeInto_of_ok (D := D.inPieces (some k)) hx']
    rfl

end Decoder

/-! ### Breaks -/

/-- What the end of the input is reported as where the source breaks instead. -/
def Error.snapped : Error → Error
  | .io op offset .ended => .io op offset .broke
  | e => e

theorem Error.snapped_of_kind {e : Error} (h : e.kind ≠ .io) : e.snapped = e := by
  cases e with
  | io => exact absurd rfl h
  | _ => rfl

theorem Error.eq_ended_of_isTruncated {e : Error} (h : e.isTruncated = true) :
    ∃ op o, e = .io op o .ended := by
  cases e with
  | io op o cause =>
    cases cause with
    | ended => exact ⟨op, o, rfl⟩
    | _ => cases h
  | _ => cases h

theorem Error.snapped_of_isTruncated {e : Error} (h : e.isTruncated = false) : e.snapped = e := by
  cases e with
  | io op offset cause =>
    cases cause with
    | ended => cases h
    | _ => rfl
  | _ => rfl

theorem Error.kind_ne_of_unplaced (e : Error) (h : e.offset? = none) : e.kind ≠ .io := by
  cases e with
  | io => cases h
  | _ => exact nofun

structure Reader.Snapped (r r' : Reader) : Prop where
  limits : r.limits = r'.limits
  offset : r.offset = r'.offset
  pieces : r.source.chunk ≠ some 0
  broke : r.source.stop = .broke
  ends : r'.Ends
  rest : r'.rest = r.rest.take r.supply

theorem Reader.Snapped.supply {r r' : Reader} (h : r.Snapped r') : r'.supply = r.supply := by
  rw [h.ends.supply, h.rest, List.length_take]
  exact Nat.min_eq_left r.supply_le

theorem Reader.Snapped.advance {r r' : Reader} (h : r.Snapped r') {n : Nat} (hn : n ≤ r.supply) :
    (r.advance n).Snapped (r'.advance n) where
  limits := h.limits
  offset := congrArg (· + n) h.offset
  pieces := h.pieces
  broke := (stop_advance hn).trans h.broke
  ends := h.ends.advance (h.supply ▸ hn)
  rest := by rw [rest_advance, rest_advance, supply_advance hn, h.rest, List.drop_take]

section Snaps

variable {σ α β : Type} [HasReader σ] {x : Attempt Error σ α} {f : α → Attempt Error σ β}

/-- Where the source breaks the step ends as where it ends, but for the cause of the stop. -/
def Snaps (x : Attempt Error σ α) : Prop :=
  ∀ s s', (reader s).Snapped (reader s') →
    (x s).1 = (x s').1.mapError Error.snapped ∧
    (reader (x s).2).offset = (reader (x s').2).offset ∧
    ∀ a, (x s').1 = .ok a → (reader (x s).2).Snapped (reader (x s').2)

namespace Snaps

theorem of_apply (g : Limits → Nat → Except Error α)
    (hg : ∀ L start e, g L start = .error e → e.kind ≠ .io) (h : ∀ s, ∃ s',
      x s = (g (reader s).limits (reader s).offset, s') ∧ reader s' = reader s) : Snaps x := by
  intro s s' hsnap
  obtain ⟨s₁, h₁, hr₁⟩ := h s
  obtain ⟨s₂, h₂, hr₂⟩ := h s'
  rw [h₁, h₂, hr₁, hr₂, hsnap.limits, hsnap.offset]
  refine ⟨?_, rfl, fun _ _ => hsnap⟩
  cases he : g (reader s').limits (reader s').offset with
  | ok a => rfl
  | error e => exact congrArg Except.error (Error.snapped_of_kind (hg _ _ e he)).symm

theorem bind (hx : Snaps x) (hf : ∀ a, Snaps (f a)) : Snaps (x >>= f) := by
  intro s s' h
  obtain ⟨heq, hoffset, hsnap⟩ := hx s s' h
  rcases h₂ : x s' with ⟨e | a, s₂⟩
  · rcases h₁ : x s with ⟨e' | a', s₁⟩
    · rw [h₁, h₂] at heq hoffset
      rw [Attempt.bind_error h₁, Attempt.bind_error h₂]
      exact ⟨congrArg Except.error (Except.error.inj heq), hoffset, nofun⟩
    · rw [h₁, h₂] at heq
      cases heq
  · rcases h₁ : x s with ⟨e' | a', s₁⟩
    · rw [h₁, h₂] at heq
      cases heq
    · rw [h₁, h₂] at heq hsnap
      cases heq
      rw [Attempt.bind_ok h₁, Attempt.bind_ok h₂]
      exact hf a s₁ s₂ (hsnap a rfl)

theorem of_runs {y : Reading α} (h : Runs y x) (hy : Snaps y) : Snaps x := by
  intro s s' hsnap
  obtain ⟨s₁, h₁, hr₁⟩ := h s
  obtain ⟨s₂, h₂, hr₂⟩ := h s'
  rw [h₁, h₂, hr₁, hr₂]
  exact hy (reader s) (reader s') hsnap

theorem bytes (op : String) (n : Nat) : Snaps (Reader.bytes op n) := by
  intro r r' h
  simp only [HasReader.reader_self] at h ⊢
  rw [Reader.bytes_eq h.pieces, Reader.bytes_eq h.ends.pieces, h.supply]
  by_cases hn : n ≤ r.supply
  · rw [if_pos hn, if_pos hn, h.rest, List.take_take, Nat.min_eq_left hn]
    exact ⟨rfl, congrArg (· + n) h.offset, fun _ _ => h.advance hn⟩
  · rw [if_neg hn, if_neg hn, h.broke, h.ends.ended, h.offset]
    exact ⟨rfl, rfl, nofun⟩

end Snaps

end Snaps

theorem Located.snaps {own : Option Nat} {α : Type} {x : Reading α} (h : Located own x) :
    Snaps x := by
  induction h with
  | idle g h placed =>
    exact .of_apply g (fun L start e he => (placed L start e he).1) fun r => ⟨r, h r, rfl⟩
  | bytes op n => exact .bytes op n
  | bind _ _ hx hf => exact hx.bind hf
  | anchored _ _ _ hx hf =>
    refine Snaps.bind ?_ fun start => hx.bind (hf start)
    apply Snaps.of_apply (fun _ start => .ok start) _ fun r => ⟨r, rfl, rfl⟩
    rintro _ _ _ ⟨⟩

theorem Typed.snaps {α : Type} {x : Reading α} (h : Typed (·.kind ≠ .io) x) : Snaps x := by
  induction h with
  | lift result h => exact .of_apply (fun _ _ => result) (fun _ _ => h) fun r => ⟨r, rfl, rfl⟩
  | read h =>
    have hl : Located none _ := h.located
    exact hl.snaps
  | bind _ _ hx hf => exact hx.bind hf

theorem readClosed_snaps : ReadClosed (·.kind ≠ .io) fun _ x => Snaps x where
  unplaced := Error.kind_ne_of_unplaced
  read h := .of_runs (Decoding.runs_read _) h.snaps
  quiet _ result h := .of_apply (fun _ _ => result) (fun _ _ => h) fun _ => ⟨_, rfl, rfl⟩
  bind := Snaps.bind

/-- A call that takes a source that breaks for one that ends. If the first bytes alone do not end
too early, nor do they with a break after them, and the outcome is the same; otherwise the break
is reported by the operation and at the position at which the end would be. -/
def Setting.Snapping (setting : Setting S) {α : Type}
    (call : Decoder S → Except Error α × Decoder S) : Prop :=
  ∀ (b : List UInt8) (n : Nat) (chunk : Option Nat), n ≤ b.length → chunk ≠ some 0 →
    let cut := call (.ofSource { unread := b.take n } setting)
    let broken := call (.ofSource { unread := b, chunk, lifetime := some n } setting)
    ((∀ e, cut.1 = .error e → e.isTruncated = false) → broken.1 = cut.1) ∧
    (∀ op o, cut.1 = .error (.io op o .ended) → broken.1 = .error (.io op o .broke)) ∧
    broken.2.reader.offset = cut.2.reader.offset

theorem Reader.snapped_ofSource {b : List UInt8} {n : Nat} (hn : n ≤ b.length)
    {chunk : Option Nat} (hc : chunk ≠ some 0) :
    (Decoder.ofSource { unread := b, chunk, lifetime := some n } setting).reader.Snapped
      (Decoder.ofSource { unread := b.take n } setting).reader where
  limits := rfl
  offset := rfl
  pieces := hc
  broke := if_pos hn
  ends := Decoder.ends_ofSource setting _
  rest := by
    simp [rest, Reader.supply, Source.supply, Decoder.ofSource, hn]

theorem Setting.snapping_of_snaps {α β : Type} {x : Decoding α} (hx : Snaps x)
    {call : Decoder S → Except Error β × Decoder S} (hcall : setting.Calls x call) :
    setting.Snapping call := by
  obtain ⟨g, hcall⟩ := hcall
  intro b n chunk hn hchunk
  dsimp only
  let broken : Source := { unread := b, chunk, lifetime := some n }
  let cut : Source := { unread := b.take n }
  obtain ⟨heq, hoffset, -⟩ := hx ⟨(Decoder.ofSource broken setting).reader, {}⟩
    ⟨(Decoder.ofSource cut setting).reader, {}⟩ (Reader.snapped_ofSource hn hchunk)
  rcases h₁ : x ⟨(Decoder.ofSource broken setting).reader, {}⟩ with ⟨result, s₁⟩
  rcases h₂ : x ⟨(Decoder.ofSource cut setting).reader, {}⟩ with ⟨result', s₂⟩
  obtain ⟨m₁, hbroken⟩ := hcall _ _ _ h₁
  obtain ⟨m₂, hcut⟩ := hcall _ _ _ h₂
  rw [h₁, h₂] at heq hoffset
  obtain rfl : result = result'.mapError Error.snapped := heq
  have ho : s₁.reader.offset = s₂.reader.offset := hoffset
  rw [hbroken, hcut, ho]
  cases result' with
  | ok v => exact ⟨fun _ => rfl, nofun, rfl⟩
  | error e =>
    refine ⟨fun h => ?_, ?_, rfl⟩
    · exact congrArg Except.error (Error.snapped_of_isTruncated (h e rfl))
    · rintro op o ⟨⟩
      rfl

/-- How its input is delivered makes no difference to decoding, afresh or in place: for any type of
the engine that reads in order not the pieces, and for one that reads by typed reads alone not
whether the source breaks or ends, but for the cause. -/
theorem Setting.decode_delivered (hs : S.Orderly t)
    (hc : ∀ c, setting.Employs t c → c.Typed fun _ => True) :
    (setting.Seamless (Decoder.decode t) ∧
      ∀ old : Datum S t, setting.Seamless (Decoder.overwrite old)) ∧
    (setting.Reads (·.kind ≠ .io) t → setting.Snapping (Decoder.decode t) ∧
      ∀ old : Datum S t, setting.Snapping (Decoder.overwrite old)) := by
  refine ⟨⟨?_, fun old => ?_⟩, fun h => ?_⟩
  · rintro D k rfl hk
    exact Decoder.decode_inPieces hs hc hk
  · rintro D k rfl hk
    exact Decoder.overwrite_inPieces hs hc old hk
  · have hx (d : Datum S t) :
        Snaps (InPlace.produce (Decoding.value setting setting.options.maxDepth) d) :=
      readClosed_snaps.value_of_reads _ h d
    exact ⟨snapping_of_snaps (hx (.initial t)) calls_decode,
      fun old => snapping_of_snaps (hx old) (calls_overwrite old)⟩

/-- The fourth byte of the label is the first that the source does not give. -/
theorem Setting.decode_delivered_probe :
    (Sample.readProbe Sample.probeBytes).1.isOk = true ∧
    (∀ k, 0 < k → Decoder.decode (.record Sample.spare)
        (.ofSource { unread := Sample.probeBytes, chunk := some k } Sample.probeSetting) =
      Prod.map id (·.inPieces (some k)) (Sample.readProbe Sample.probeBytes)) ∧
    ∃ op, (Sample.readProbe (Sample.probeBytes.take 4)).1 = .error (.io op 3 .ended) ∧
      (Decoder.decode (.record Sample.spare) (.ofSource
          { unread := Sample.probeBytes, chunk := some 3, lifetime := some 4 }
        Sample.probeSetting)).1 = .error (.io op 3 .broke) := by
  have hs : Sample.probeSchema.Orderly (.record Sample.spare) := by
    intro k hk
    obtain rfl := Sample.customs_probe hk
    exact .inr ⟨_, rfl, Sample.Endpoint.scripted_unmarshal⟩
  have hc : ∀ c, Sample.probeSetting.Employs (.record Sample.spare) c → c.Typed fun _ => True :=
    (Sample.reads_probe fun _ _ => trivial).codecs
  obtain ⟨⟨hpieces, -⟩, hbreaks⟩ := decode_delivered hs hc
  obtain ⟨-, hbroke, -⟩ := (hbreaks (Sample.reads_probe Error.kind_ne_of_unplaced)).1
    Sample.probeBytes 4 (some 3) (by decide) nofun
  refine ⟨by decide +kernel, fun k hk => ?_, ?_⟩
  · exact hpieces (.ofSource { unread := Sample.probeBytes } _) k rfl hk
  · have hcut : (match (Sample.readProbe (Sample.probeBytes.take 4)).1 with
        | .error e => e.isTruncated && e.offset? == some 3
        | .ok _ => false) = true := by
      decide +kernel
    rcases hd : (Sample.readProbe (Sample.probeBytes.take 4)).1 with e | v
    · rw [hd] at hcut
      obtain ⟨htruncated, hoffset⟩ := Bool.and_eq_true_iff.1 hcut
      obtain ⟨op, o, rfl⟩ := Error.eq_ended_of_isTruncated htruncated
      cases eq_of_beq hoffset
      exact ⟨op, rfl, hbroke op 3 hd⟩
    · rw [hd] at hcut
      cases hcut

end TagWire
