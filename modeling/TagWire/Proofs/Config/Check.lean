import TagWire.Config.Basic
import TagWire.Proofs.Sound

/-! What a configuration that passes its check can be relied on for. Its limits let in no text that
is longer than a buffer can be, so that a decoder only ever blames what it read, and a log that is
to go to a file has a path. -/
namespace TagWire

structure EngineSettings.Sensible (s : EngineSettings) : Prop where
  version : 0 ≤ s.version
  maxDepth : 1 ≤ s.maxDepth ∧ s.maxDepth ≤ 1024
  maxItems : 1 ≤ s.maxItems
  maxText : 1 ≤ s.maxText ∧ s.maxText ≤ 268435456

theorem complaint_eq_nil_iff {p : Prop} [Decidable p] {complaint : String} {others : List String} :
    (if p then [complaint] else others) = [] ↔ ¬ p ∧ others = [] := by
  split <;> simp [*]

theorem EngineSettings.complaints_eq_nil_iff (s : EngineSettings) :
    s.complaints = [] ↔ s.Sensible := by
  unfold complaints
  simp only [List.append_eq_nil_iff, complaint_eq_nil_iff, and_true]
  constructor
  · rintro ⟨⟨⟨hversion, hdepth⟩, hitems⟩, htext⟩
    exact ⟨by omega, by omega, by omega, by omega⟩
  · rintro ⟨hversion, hdepth, hitems, htext⟩
    omega

theorem LogSettings.complaints_eq_nil_iff (s : LogSettings) :
    s.complaints = [] ↔ (s.toFile = true → ∃ path, s.path = some path) := by
  rw [complaints, complaint_eq_nil_iff, ← Option.isSome_iff_exists]
  cases s.path <;> simp

namespace Config

variable {c : Config}

theorem check_eq_ok_iff_sensible : c.check = .ok () ↔
    c.engine.Sensible ∧ (c.log.toFile = true → ∃ path, c.log.path = some path) := by
  rw [check_eq_ok_iff, complaints, List.append_eq_nil_iff, EngineSettings.complaints_eq_nil_iff,
    LogSettings.complaints_eq_nil_iff]

theorem check_default : check {} = .ok () := rfl

/-- A log whose settings pass the check is started, or its file cannot be opened. -/
theorem refusal?_of_check (h : c.check = .ok ()) (opening : String → Option PathFault) :
    c.log.refusal? opening = none ∨
      ∃ path why, c.log.path = some path ∧ opening path = some why ∧
        c.log.refusal? opening = some (.config (.cannotOpenLog path why)) := by
  have hpath := (check_eq_ok_iff_sensible.1 h).2
  cases hfile : c.log.toFile with
  | false => exact .inl (by simp only [LogSettings.refusal?, hfile])
  | true =>
    obtain ⟨path, hsome⟩ := hpath hfile
    simp only [LogSettings.refusal?, hfile, hsome]
    cases hwhy : opening path with
    | none => exact .inl rfl
    | some why => exact .inr ⟨path, why, rfl, hwhy, rfl⟩

variable {S : Schema} {t : Shape}

theorem not_overruns_of_check (h : c.check = .ok ()) (e : Error) :
    ¬ c.options.limits.Overruns e := by
  rintro ⟨n, hlow, hhigh, -⟩
  have htext : n ≤ 268435456 := Nat.le_trans hhigh (check_eq_ok_iff_sensible.1 h).1.maxText.2
  exact absurd (Nat.lt_of_lt_of_le hlow htext) (by decide)

/-- With the limits of a checked configuration no announced length ends the run of a decoder. -/
theorem blames_of_check (h : c.check = .ok ()) {D : Decoder S}
    (hlimits : D.reader.limits = c.options.limits) (hsound : D.setting.Sound t)
    (hends : D.reader.Ends) {old half : Datum S t} {e : Error}
    {D' : Decoder S} (he : D.decodeInto old = ((.error e, half), D')) : D.setting.Blames t e :=
  Decoder.error_of_sound hsound hends (fun _ => id)
    (fun e hover => absurd (hlimits ▸ hover) (not_overruns_of_check h e)) he

end Config

end TagWire
