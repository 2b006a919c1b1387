import TagWire.Proofs.Session
import TagWire.Proofs.Steps
import TagWire.Proofs.Wire.Script
import TagWire.Sample.Schema

/-! Decoding without looking ahead. Every step of a decoder judges what it has consumed and nothing
else, so a whole call does; an input that is cut short within these bytes is seen to be cut. -/
namespace TagWire

variable {S : Schema} {setting : Setting S} {t : Shape}

/-- All self-describing types within the shape read by scripts. -/
def Schema.Scripted (S : Schema) (t : Shape) : Prop :=
  ∀ k, S.Contains t (.custom k) → ∃ step, (S.custom k).unmarshal = .stream step ∧
    ∀ version, TagWire.Scripted (step version)

theorem stepwise_value {allowed : Builtin → Shape → Prop} (levels : Nat) (hs : S.Scripted t)
    (ho : setting.Overrides allowed t) (d : Datum S t) :
    Stepwise (InPlace.produce (Decoding.value setting levels) d) := by
  have hP : StepClosed fun _ x => Stepwise x := ⟨id, Stepwise.bind⟩
  refine hP.value levels ho (fun k hk dec d => ?_) d
  obtain ⟨step, hstep, hscript⟩ := hs k hk
  cases d with
  | custom x =>
    rw [Decoding.produce_body_custom hstep]
    exact Decoding.stepwise_read (((hscript _).stepwise x).map _)

theorem streaming_value {allowed : Builtin → Shape → Prop} (levels : Nat) (hs : S.Scripted t)
    (ho : setting.Overrides allowed t) (d : Datum S t) :
    Streaming (InPlace.produce (Decoding.value setting levels) d) :=
  (stepwise_value levels hs ho d).streaming

theorem Error.kind_of_isTruncated {e : Error} (h : e.isTruncated = true) : e.kind = .io := by
  cases e with
  | io => rfl
  | _ => cases h

def DecodeState.start (setting : Setting S) (bytes : List UInt8) : DecodeState where
  reader := (Decoder.ofSource { unread := bytes } setting).reader
  metrics := {}

/-- A step that did not end for want of input was settled by what it consumed. -/
theorem Streaming.settled {α : Type} {x : Decoding α} (h : Streaming x) {bytes : List UInt8}
    {result : Except Error α} {s : DecodeState} (hx : x (.start setting bytes) = (result, s))
    (hio : ∀ e, result = .error e → e.kind ≠ .io) : ∃ bs, bs <+: bytes ∧
      s.reader.offset = bs.length ∧
      (∀ other, bs <+: other → ∃ s', x (.start setting other) = (result, s') ∧
        s'.reader.offset = bs.length) ∧
      ∀ short, short <+: bs → short.length < bs.length →
        ∃ e s', x (.start setting short) = (.error e, s') ∧ e.isTruncated = true := by
  rcases h (.start setting bytes) (Decoder.ends_ofSource setting bytes) with
    ⟨e, s₁, h₁, he⟩ | ⟨bs, end₁, hb, hset, hmiss⟩
  · rw [h₁] at hx
    cases hx
    exact absurd (Error.kind_of_isTruncated he) (hio e rfl)
  · have hall : ∀ other, bs <+: other → ∃ s', x (.start setting other) = (end₁, s') ∧
        s'.reader.offset = bs.length := by
      intro other ho
      obtain ⟨s', hs', hr⟩ := hset (.start setting other) rfl rfl
        ((Decoder.ends_ofSource setting other).starts ho)
      exact ⟨s', hs', (congrArg Reader.offset hr).trans (Nat.zero_add _)⟩
    -- The input itself is one that the front settles, which tells what the outcome is.
    obtain ⟨s', hs', ho⟩ := hall bytes hb.front
    rw [hx] at hs'
    cases hs'
    refine ⟨bs, hb.front, ho, hall, fun short hp hl => ?_⟩
    have hends := Decoder.ends_ofSource setting short
    exact hmiss (.start setting short) rfl rfl ⟨hends.pieces, hends.ended, hp, hl⟩

/-- A call that runs a step, on whatever source, and hands on what this gives, perhaps with the
position at the end. -/
def Setting.Calls (setting : Setting S) {α β : Type} (x : Decoding α)
    (call : Decoder S → Except Error β × Decoder S) : Prop :=
  ∃ g : Nat → α → β, ∀ source result s,
    x ⟨(Decoder.ofSource source setting).reader, {}⟩ = (result, s) →
      ∃ metrics, call (.ofSource source setting) =
        (result.map (g s.reader.offset), ⟨setting, s.reader, metrics⟩)

theorem Setting.calls_decode : setting.Calls
    (InPlace.produce (Decoding.value setting setting.options.maxDepth) (.initial t))
    (Decoder.decode t) := by
  refine ⟨fun _ d => d, fun source result s h => ?_⟩
  cases result with
  | error e => exact ⟨_, Decoder.decode_of_error (D := .ofSource source setting) h⟩
  | ok d => exact ⟨_, Decoder.decode_of_ok (D := .ofSource source setting) h⟩

/-- A call that decodes in place, as far as a caller can count on it: the number of bytes and the
new value, or the error. -/
def Decoder.overwrite (old : Datum S t) (D : Decoder S) :
    Except Error (Nat × Datum S t) × Decoder S :=
  match D.decodeInto old with
  | ((result, d), D') => (result.map (·, d), D')

theorem Setting.calls_overwrite (old : Datum S t) : setting.Calls
    (InPlace.produce (Decoding.value setting setting.options.maxDepth) old)
    (Decoder.overwrite old) := by
  refine ⟨fun n d => (n, d), fun source result s h => ?_⟩
  unfold Decoder.overwrite
  cases result with
  | error e =>
    obtain ⟨half, hi⟩ := Decoder.decodeInto_of_error (D := .ofSource source setting) h
    rw [hi]
    exact ⟨_, rfl⟩
  | ok d =>
    rw [Decoder.decodeInto_of_ok (D := .ofSource source setting) h]
    exact ⟨_, rfl⟩

/-- A call on inputs in memory that does not look ahead. Unless it fails on the input as such, what
it gives hangs on the bytes it has consumed: every input with these bytes gives the same and is
consumed as far, and every shorter part of them is reported as truncated. -/
def Setting.Sequential (setting : Setting S) {α : Type}
    (call : Decoder S → Except Error α × Decoder S) : Prop :=
  ∀ b result D, call (.ofSource { unread := b } setting) = (result, D) →
    (∀ e, result = .error e → e.kind ≠ .io) →
    D.reader.offset ≤ b.length ∧
    (∀ b' : List UInt8, b'.take D.reader.offset = b.take D.reader.offset →
      ∃ D', call (.ofSource { unread := b' } setting) = (result, D') ∧
        D'.reader.offset = D.reader.offset) ∧
    ∀ j < D.reader.offset, ∃ e D',
      call (.ofSource { unread := b.take j } setting) = (.error e, D') ∧ e.kind = .io ∧
        e.isTruncated = true

theorem Setting.sequential_of_streaming {α β : Type} {x : Decoding α} (hx : Streaming x)
    {call : Decoder S → Except Error β × Decoder S} (hcall : setting.Calls x call) :
    setting.Sequential call := by
  obtain ⟨g, hcall⟩ := hcall
  intro b outcome D hd hio
  cases hs : x (.start setting b) with
  | mk result s =>
    obtain ⟨metrics, hc⟩ := hcall { unread := b } result s hs
    rw [hd] at hc
    cases hc
    obtain ⟨bs, hb, ho, hsame, hcut⟩ := hx.settled hs fun e he => hio e (by rw [he]; rfl)
    have htake : b.take bs.length = bs := List.prefix_iff_eq_take.1 hb ▸ rfl
    dsimp only
    rw [ho, htake]
    refine ⟨hb.length_le, fun b' hb' => ?_, fun j hj => ?_⟩
    · obtain ⟨s', hs', ho'⟩ := hsame b' (hb' ▸ List.take_prefix _ b')
      obtain ⟨metrics', hc'⟩ := hcall { unread := b' } result s' hs'
      rw [ho'] at hc'
      exact ⟨_, hc', ho'⟩
    · have hp : b.take j <+: bs := htake ▸ List.take_prefix_take_left (Nat.le_of_lt hj)
      obtain ⟨e, s', hs', he⟩ := hcut _ hp (Nat.lt_of_le_of_lt (List.length_take_le j b) hj)
      obtain ⟨metrics', hc'⟩ := hcall { unread := b.take j } (.error e) s' hs'
      exact ⟨e, _, hc', Error.kind_of_isTruncated he, he⟩

/-- Neither decoding afresh nor decoding in place looks ahead, for any type of the engine whose
overrides are built in and whose self-describing parts read by scripts. -/
theorem Setting.sequential_decode (hs : S.Scripted t)
    (ho : setting.Overrides (fun _ _ => True) t) :
    setting.Sequential (Decoder.decode t) ∧
      ∀ old : Datum S t, setting.Sequential (Decoder.overwrite old) := by
  have hx := streaming_value setting.options.maxDepth hs ho
  exact ⟨sequential_of_streaming (hx (.initial t)) calls_decode,
    fun old => sequential_of_streaming (hx old) (calls_overwrite old)⟩

namespace Sample

namespace Endpoint

def finish (start : Nat) (e : Endpoint) : Run Endpoint :=
  .read Reader.position (fun _ => e) fun stop => .done (.ok (stop - start)) e

def run (version : Int) (e : Endpoint) : Run Endpoint :=
  .read Reader.position (fun _ => e) fun start =>
    .read (Reader.number .u16) (fun _ => e) fun id =>
      if version < labelVersion then finish start { e with id }
      else .read Reader.text (fun _ => { e with id }) fun label => finish start { id, label }

theorem unmarshal_eq_run (version : Int) : unmarshal version = run version := by
  funext e r
  simp only [unmarshal, run, Run.read, Reader.position, Attempt.view]
  rcases Reader.number .u16 r with ⟨_ | id, r⟩
  · rfl
  · by_cases hv : version < labelVersion
    · simp only [if_pos hv]
      rfl
    · simp only [if_neg hv, Run.read]
      rcases Reader.text r with ⟨_ | _, _⟩ <;> rfl

theorem candid_unmarshal {own : Error → Prop} (version : Int) (e : Endpoint) :
    Candid own (unmarshal version e) := by
  have hfinish (start : Nat) (e : Endpoint) : Candid own (finish start e) := by
    refine .read .position _ fun stop => .done _ e ?_
    rintro _ ⟨⟩
  rw [unmarshal_eq_run]
  refine .read .position _ fun start => .read (.number _ _) _ fun id => ?_
  by_cases hv : version < labelVersion
  · rw [if_pos hv]
    exact hfinish start _
  · rw [if_neg hv]
    exact .read .text _ fun label => hfinish start _

theorem scripted_unmarshal (version : Int) : Scripted (unmarshal version) :=
  fun e =>
    have h : Candid (fun _ => True) (unmarshal version e) := candid_unmarshal version e
    h.script

end Endpoint

def probe : RecordType := recordType "Probe" [
  ⟨"target", .optional endpoint, ",1"⟩, ⟨"port", int .u32, "short,2"⟩, ⟨"seen", bool, ",3"⟩]

def probeSchema : TagWire.Schema := schemaWith probe (by decide)

def probeSetting : Setting probeSchema := ⟨.atVersion 5, .builtins⟩

def probeShapes : List Shape := [.record spare, .optional endpoint, endpoint, int .u32, bool]

def probeBytes : List UInt8 := [0, 7, 2, 97, 98, 0, 80, 1]

def readProbe (bytes : List UInt8) :
    Except Error (Datum probeSchema (.record spare)) × Decoder probeSchema :=
  (Decoder.ofSource { unread := bytes } probeSetting).decode (.record spare)

theorem customs_probe {k : Nat} (hk : probeSchema.Contains (.record spare) (.custom k)) :
    k = 0 := by
  have hc : probeSchema.Closed probeShapes := by decide +kernel
  simpa [probeShapes, endpoint] using hk.mem_of_closed hc (by decide)

theorem reads_probe {own : Error → Prop} (hown : ∀ e : Error, e.offset? = none → own e) :
    probeSetting.Reads own (.record spare) where
  codecs c h := h.typed hown rfl
  customs k hk := by
    obtain rfl := customs_probe hk
    exact ⟨_, rfl, Endpoint.candid_unmarshal⟩

end Sample

theorem Setting.sequential_decode_probe :
    (Sample.readProbe Sample.probeBytes).1.isOk = true ∧
      (∃ D, Sample.readProbe (Sample.probeBytes ++ [255]) =
        ((Sample.readProbe Sample.probeBytes).1, D) ∧ D.reader.offset = 8) ∧
      ∀ j < 8, ∃ e D, Sample.readProbe (Sample.probeBytes.take j) = (.error e, D) ∧
        e.kind = .io ∧ e.isTruncated = true := by
  have hc : Sample.probeSchema.Closed Sample.probeShapes := by decide +kernel
  have ht : .record Sample.spare ∈ Sample.probeShapes := by decide
  have hs : Sample.probeSchema.Scripted (.record Sample.spare) := by
    intro k hk
    obtain rfl := Sample.customs_probe hk
    exact ⟨_, rfl, Sample.Endpoint.scripted_unmarshal⟩
  have ho : Sample.probeSetting.Overrides (fun _ _ => True) (.record Sample.spare) :=
    .of_closed rfl hc ht (by decide +kernel)
  have hok : (Sample.readProbe Sample.probeBytes).1.isOk = true := by decide +kernel
  have hk : (Sample.readProbe Sample.probeBytes).2.reader.offset = 8 := by decide +kernel
  cases hd : Sample.readProbe Sample.probeBytes with
  | mk result D =>
    rw [hd] at hok hk
    obtain ⟨-, hsame, hcut⟩ := (sequential_decode hs ho).1 Sample.probeBytes result D hd <| by
      rintro e rfl
      cases hok
    rw [hk] at hsame hcut
    exact ⟨hok, hsame _ rfl, hcut⟩

end TagWire
