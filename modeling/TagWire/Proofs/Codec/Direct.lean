import TagWire.Proofs.Codec.Views
import TagWire.Proofs.Uuid

/-! Codecs that look at the shape of a field first: text and raw bytes, the four spellings of a
UUID, and instants next to milliseconds. -/
namespace TagWire

variable {S : Schema} {t : Shape} {L : Limits}

namespace Datum

@[simp] theorem ofBytes_toBytes (d : Datum S byteSequence) : ofBytes d.toBytes = d := by
  conv => rhs; rw [← ofArray_items d]
  unfold ofBytes toBytes
  rw [List.map_map]
  conv => rhs; rw [← List.map_id d.items]
  refine congrArg (fun l => ofArray (List.toArray l)) (List.map_congr_left fun x _ => ?_)
  cases x with
  | scalar n =>
    show Datum.scalar (IntKind.u8.wrap (UInt8.ofNat n.pattern).toNat) = .scalar n
    rw [toNat_ofNat_of_lt n.pattern_lt, n.wrap_pattern]

@[simp] theorem toBytes_ofBytes (bs : List UInt8) :
    (ofBytes bs : Datum S byteSequence).toBytes = bs := by
  unfold toBytes ofBytes
  rw [items_ofArray, List.map_map]
  conv => rhs; rw [← List.map_id bs]
  refine List.map_congr_left fun b _ => ?_
  simp only [Function.comp]
  rw [Num.pattern_wrap b.toNat_lt, UInt8.ofNat_toNat]
  rfl

end Datum

namespace Codec

/-! ### Text -/

def readString : (t : Shape) → Reading (Datum S t)
  | .scalar .text => .scalar <$> Reader.text
  | .sequence (.scalar (.int .u8)) => .ofBytes <$> Reader.textBytes
  | t => .fail (unsupported "string" S t)

theorem decode_string (d : Datum S t) : string.decode d = counted (readString t) d := by
  unfold string
  dsimp only
  split
  · rfl
  · rfl
  · next h₁ h₂ =>
    rw [readString]
    · rintro rfl
      exact h₁ d rfl HEq.rfl
    · rintro rfl
      exact h₂ d rfl HEq.rfl

theorem produce_string (d : Datum S t) : InPlace.produce string.decode d = readString t := by
  rw [funext decode_string]
  exact produce_counted (fun _ => readString t) d

theorem steady_string : (string : Codec S).Steady := fun d =>
  (produce_string d).trans (produce_string _).symm

theorem fresh_string (t : Shape) : (string : Codec S).fresh t = readString t := produce_string _

theorem guarded_string (t : Shape) : Guarded ((string : Codec S).fresh t) := by
  rw [fresh_string, readString.eq_def]
  split
  · exact Reader.guarded_text.map _
  · exact Reader.guarded_textBytes.map _
  · exact Guarded.fail _

theorem carries_string {d : Datum S t} (h : Builtin.string.Within L d) :
    string.Carries L d (Builtin.string.convert d) := by
  rw [Carries, fresh_string]
  unfold string
  dsimp only
  split
  · next s =>
    refine (Writer.emits_text s).appends ((Reader.takes_text h).map _)
  · next d =>
    have ht := (Reader.takes_textBytes h).map (Datum.ofBytes (S := S))
    rw [Datum.ofBytes_toBytes] at ht
    exact (Writer.emits_textBytes _).appends ht
  · exact Appends.fail _

theorem restores_string (t : Shape) :
    Yields L (string.fresh t) fun d _ => Builtin.string.Restores L (string : Codec S) d := by
  rw [fresh_string, readString.eq_def]
  split
  · refine Yields.map (Reader.yields_text.mono fun s n h => ⟨⟨_, _, Writer.emits_text s⟩, h.1, ?_⟩)
    rfl
  · refine Yields.map (Reader.yields_textBytes.mono fun bs n h => ?_)
    refine ⟨⟨_, _, Writer.emits_textBytes _⟩, ?_, rfl⟩
    show L.AdmitsText (Datum.ofBytes bs).toBytes.length
    rw [Datum.toBytes_ofBytes]
    exact h.1
  · exact Yields.fail _

/-! ### UUIDs -/

theorem putUuid_congr (o : Octets) (d d' : Datum S t) : putUuid o d = putUuid o d' := by
  cases t with
  | scalar s =>
    cases d
    cases d'
    cases s <;> rfl
  | sequence t =>
    cases t with
    | scalar s =>
      cases s with
      | int k => cases k <;> rfl
      | _ => rfl
    | _ => rfl
  | _ => rfl

theorem putUuid_uuidOf {d d₀ : Datum S t} {o : Octets} (h : uuidOf d = .ok o) :
    putUuid o d₀ = .ok (Builtin.uuid.convert d) := by
  rw [putUuid_congr o d₀ d]
  unfold uuidOf at h
  split at h
  · cases h
    rfl
  · cases h
    rfl
  · next d =>
    split at h
    · next o' ho =>
      cases h
      unfold Octets.ofList? at ho
      split at ho
      · cases ho
        exact congrArg Except.ok (Datum.ofBytes_toBytes d)
      · cases ho
    · cases h
  · next s =>
    split at h
    · next o' ho =>
      cases h
      simp [putUuid, Builtin.convert, Builtin.convertScalar, ho]
    · cases h
  · cases h

theorem uuidOf_putUuid {d d₀ : Datum S t} {o : Octets} (h : putUuid o d₀ = .ok d) :
    uuidOf d = .ok o := by
  unfold putUuid at h
  split at h
  · cases h
    rfl
  · cases h
    rfl
  · cases h
    have ho : Octets.ofList? o.bytes = some o := dif_pos o.length_eq
    simp [uuidOf, ho]
  · cases h
    simp [uuidOf, Octets.parse?_hyphenated]
  · cases h

def readUuid (d : Datum S t) : Reading (Datum S t) := do .lift (putUuid (← Reader.octets) d)

theorem produce_uuid (d : Datum S t) : InPlace.produce uuid.decode d = readUuid d :=
  produce_counted readUuid d

theorem steady_uuid : (uuid : Codec S).Steady := by
  intro t d
  rw [fresh, produce_uuid, produce_uuid]
  refine bind_congr fun o => ?_
  rw [putUuid_congr o d (.initial t)]

theorem guarded_uuid (t : Shape) : Guarded ((uuid : Codec S).fresh t) := by
  rw [fresh, produce_uuid]
  exact Reader.guarded_octets.bind fun o => Guarded.lift _

theorem carries_uuid (d : Datum S t) : uuid.Carries L d (Builtin.uuid.convert d) := by
  rw [Carries, fresh, produce_uuid]
  refine Appends.lift_bind fun o ho => (Writer.emits_octets o).appends ?_
  rw [← List.append_nil o.bytes]
  refine (Reader.takes_octets o).bind ?_
  rw [putUuid_uuidOf ho]
  exact Takes.pure _

theorem restores_uuid (t : Shape) :
    Yields L (uuid.fresh t) fun d _ => Builtin.uuid.Restores L (uuid : Codec S) d := by
  rw [fresh, produce_uuid]
  refine Yields.bind Reader.yields_octets fun o n _ => Yields.lift fun d hd => ?_
  have ho := uuidOf_putUuid hd
  have hc := (putUuid_uuidOf ho).symm.trans hd
  have he : Emits (uuid.encode d) o.bytes.length o.bytes := by
    have hl : Emits (Attempt.lift (uuidOf d) : Writing Octets) o [] := by
      rw [ho]
      exact Emits.lift o
    exact hl.bind (Writer.emits_octets o)
  exact ⟨⟨_, _, he⟩, trivial, Except.ok.inj hc⟩

/-! ### Times -/

def readTime : (t : Shape) → Reading (Datum S t)
  | .scalar .time => .scalar <$> Reader.instant
  | .scalar (.int .i64) => (.scalar ∘ IntKind.i64.wrap) <$> Reader.millis
  | .scalar (.int .u64) => do
    let m ← Reader.millis
    if 0 ≤ m then return .scalar (IntKind.u64.wrap m)
    else .fail (.valueOutOfRange "time" m)
  | t => .fail (unsupported "time" S t)

theorem decode_time (d : Datum S t) : time.decode d = counted (readTime t) d := by
  unfold time
  dsimp only
  split
  · rfl
  · rfl
  · rfl
  · next h₁ h₂ h₃ =>
    rw [readTime]
    · rintro rfl
      exact h₁ d rfl HEq.rfl
    · rintro rfl
      exact h₂ d rfl HEq.rfl
    · rintro rfl
      exact h₃ d rfl HEq.rfl

theorem produce_time (d : Datum S t) : InPlace.produce time.decode d = readTime t := by
  rw [funext decode_time]
  exact produce_counted (fun _ => readTime t) d

theorem steady_time : (time : Codec S).Steady := fun d =>
  (produce_time d).trans (produce_time _).symm

theorem fresh_time (t : Shape) : (time : Codec S).fresh t = readTime t := produce_time _

theorem guarded_time (t : Shape) : Guarded ((time : Codec S).fresh t) := by
  rw [fresh_time, readTime.eq_def]
  split
  · exact Reader.guarded_instant.map _
  · exact Reader.guarded_millis.map _
  · refine Reader.guarded_millis.bind fun m => ?_
    split
    · exact Guarded.pure _
    · exact Guarded.fail _
  · exact Guarded.fail _

theorem carries_time (d : Datum S t) : time.Carries L d (Builtin.time.convert d) := by
  rw [Carries, fresh_time]
  unfold time
  dsimp only
  split
  · next date => exact (Writer.emits_instant date).appends ((Reader.takes_instant date).map _)
  · next m =>
    refine (Writer.appends_millis m.val).mono ?_
    rintro n bs ⟨ticks, ht, rfl⟩
    have hr := (Reader.takes_millis (L := L) ht).map fun m =>
      Datum.scalar (S := S) (s := .int .i64) (IntKind.i64.wrap m)
    rwa [IntKind.wrap_val] at hr
  · next m =>
    split
    · refine (Writer.appends_millis m.val).mono ?_
      rintro n bs ⟨ticks, ht, rfl⟩
      rw [← List.append_nil (Writer.ticksForm ticks)]
      refine (Reader.takes_millis ht).bind ?_
      rw [if_pos (m.val_eq_pattern ▸ Int.natCast_nonneg _), IntKind.wrap_val]
      exact Takes.pure _
    · exact Appends.fail _
  · exact Appends.fail _

theorem emits_time_u64 {n : Num .u64} {ticks : Int} (h : Ticks.ofMillis n.val = some ticks) :
    Emits (time.encode (S := S) (.scalar (s := .int .u64) n)) (Writer.ticksForm ticks).length
      (Writer.ticksForm ticks) := by
  show Emits (if IntKind.i64.Fits n.val then Writer.millis n.val else _) _ _
  rw [if_pos (Ticks.fits_of_ofMillis h)]
  exact Writer.emits_millis h

/-- Milliseconds in a signed long are left out: the earliest that are read have no ticks. -/
theorem restores_time (h : t ≠ .scalar (.int .i64)) :
    Yields L (time.fresh t) fun d _ => Builtin.time.Restores L (time : Codec S) d := by
  rw [fresh_time, readTime.eq_def]
  split
  · refine Yields.map (Reader.yields_instant.mono fun date n hd => ?_)
    exact ⟨⟨_, _, Writer.emits_instant date⟩, trivial, congrArg Datum.scalar hd.1⟩
  · exact absurd rfl h
  · refine Reader.yields_millis.bind fun m n hm => ?_
    split
    · next h0 =>
      obtain ⟨ticks, ht, rfl, _⟩ := hm
      have ho := Ticks.ofMillis_toMillis ht h0
      have hf := Ticks.fits_of_ofMillis ho
      have hv : (IntKind.u64.wrap (Ticks.toMillis ticks)).val = Ticks.toMillis ticks := by
        refine IntKind.wrap_val_of_fits (IntKind.fits_u64_iff.2 ⟨h0, ?_⟩)
        have := (IntKind.fits_i64_iff.1 hf).2
        omega
      rw [← hv] at ho
      exact Yields.pure ⟨⟨_, _, emits_time_u64 ho⟩, trivial, rfl⟩
    · exact Yields.fail _
  · exact Yields.fail _

end Codec

end TagWire
