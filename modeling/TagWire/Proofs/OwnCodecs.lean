import TagWire.Proofs.Twins
import TagWire.Sample.Schema

/-! Fields with and without their own codec. Whether the tag of a field names the codec that is
built in for its type, in any case, or leaves it out, the record has the same bytes and is read
alike. What may differ is where the depth limit cuts, and the operation that a broken stream
names. -/
namespace TagWire

variable {S : Schema} {tag : Nat → Nat → String} {t : Shape} {r : Nat}

section Calls

variable {S' : Schema} {u : Shape} {e : Error}

theorem Encoder.encode_eq_value (E : Encoder S) (x : Datum S t) :
    let step := Encoding.value E.setting E.setting.options.maxDepth x ⟨E.writer, E.metrics⟩
    (E.encode x).1 = step.1.map (fun _ => step.2.writer.offset - E.writer.offset) ∧
      (E.encode x).2.writer = step.2.writer := by
  cases hstep : Encoding.value E.setting E.setting.options.maxDepth x ⟨E.writer, E.metrics⟩ with
  | mk result s =>
    cases result with
    | error e =>
      rw [encode_of_error hstep]
      exact ⟨rfl, rfl⟩
    | ok u =>
      rw [encode_of_ok hstep]
      exact ⟨rfl, rfl⟩

theorem Decoder.decodeInto_eq_produce (D : Decoder S) (d : Datum S t) :
    let step := D.produce d ⟨D.reader, D.metrics⟩
    (D.decodeInto d).1.1 = step.1.map (fun _ => step.2.reader.offset - D.reader.offset) ∧
      (∀ v, step.1 = .ok v → (D.decodeInto d).1.2 = v) ∧
      (D.decodeInto d).2.reader = step.2.reader := by
  cases hstep : D.produce d ⟨D.reader, D.metrics⟩ with
  | mk result s =>
    cases result with
    | error e =>
      obtain ⟨half, hd⟩ := decodeInto_of_error hstep
      rw [hd]
      exact ⟨rfl, nofun, rfl⟩
    | ok v =>
      rw [decodeInto_of_ok hstep]
      exact ⟨rfl, fun _ h => Except.ok.inj h, rfl⟩

theorem Decoder.decode_eq_produce (D : Decoder S) (t : Shape) :
    let step := D.produce (.initial t) ⟨D.reader, D.metrics⟩
    (D.decode t).1 = step.1 ∧ (D.decode t).2.reader = step.2.reader := by
  cases hstep : D.produce (.initial t) ⟨D.reader, D.metrics⟩ with
  | mk result s =>
    cases result with
    | error e =>
      rw [decode_of_error hstep]
      exact ⟨rfl, rfl⟩
    | ok v =>
      rw [decode_of_ok hstep]
      exact ⟨rfl, rfl⟩

end Calls

/-- Two runs of which neither ends in the one error that they are excused for. -/
theorem Lockstep.accord {σ τ α β : Type} {T : Terms σ τ} {e : Error} {R : α → β → Prop}
    {x : Attempt Error σ α} {y : Attempt Error σ β} (h : Lockstep T {e} {e} R x y) {s u : σ}
    (hs : T.view s = T.view u) (hx : (x s).1 ≠ .error e) (hy : (y u).1 ≠ .error e) :
    Accord (T.broken (T.view (x s).2)) R (x s).1 (y u).1 ∧ T.view (y u).2 = T.view (x s).2 := by
  rcases h s u hs with ⟨_, rfl, hx'⟩ | ⟨_, rfl, hy'⟩ | ⟨ha, hv⟩
  · exact absurd hx' hx
  · exact absurd hy' hy
  · exact ⟨ha, hv.symm⟩

namespace Schema

/-- A tag that names the own codec of its field, in any case, does what one does that names none:
where neither run meets the depth limit, both write the same bytes or fail alike, and both read the
same value of any input with the same count or fail alike. -/
theorem Interchanges.runs_agree (h : S.Interchanges tag) {setting : Setting S}
    {setting' : Setting (S.retag tag)} (htwins : setting.Twins setting') :
    (∀ {t : Shape} (x : Datum S t) (w : Writer) (m m' : Metrics),
      let run := Encoder.encode x ⟨setting, w, m⟩
      let run' := Encoder.encode (x.retag tag) ⟨setting', w, m'⟩
      run.1 ≠ .error setting.tooDeep → run'.1 ≠ .error setting.tooDeep →
        Accord run.2.writer.Full Eq run.1 run'.1 ∧ run'.2.writer = run.2.writer) ∧
    (∀ {t : Shape} (old : Datum S t) (r : Reader) (m m' : Metrics),
      let run := Decoder.decodeInto old ⟨setting, r, m⟩
      let run' := Decoder.decodeInto (old.retag tag) ⟨setting', r, m'⟩
      run.1.1 ≠ .error setting.tooDeep → run'.1.1 ≠ .error setting.tooDeep →
        Accord True Eq run.1.1 run'.1.1 ∧ (∀ n, run.1.1 = .ok n → run'.1.2 = run.1.2.retag tag) ∧
          run'.2.reader = run.2.reader) ∧
    ∀ (t : Shape) (r : Reader) (m m' : Metrics),
      let run := Decoder.decode t ⟨setting, r, m⟩
      let run' := Decoder.decode t ⟨setting', r, m'⟩
      run.1 ≠ .error setting.tooDeep → run'.1 ≠ .error setting.tooDeep →
        Accord True (fun v v' => v' = v.retag tag) run.1 run'.1 ∧
          run'.2.reader = run.2.reader := by
  have hdepth : setting'.options.maxDepth = setting.options.maxDepth := by rw [htwins.options]
  have hproduce {t : Shape} (old : Datum S t) (r : Reader) (m m' : Metrics) :
      Lockstep .reading {setting.tooDeep} {setting.tooDeep} (Decoding.Retagged tag)
        (Decoder.produce ⟨setting, r, m⟩ old)
        (Decoder.produce ⟨setting', r, m'⟩ (old.retag tag)) := by
    unfold Decoder.produce
    rw [hdepth]
    exact Decoding.lockstep_value htwins h _ old
  refine ⟨fun {t} x w m m' => ?_, fun {t} old r m m' => ?_, fun t r m m' => ?_⟩
  · obtain ⟨hx, hw⟩ := Encoder.encode_eq_value ⟨setting, w, m⟩ x
    obtain ⟨hx', hw'⟩ := Encoder.encode_eq_value ⟨setting', w, m'⟩ (x.retag tag)
    rw [hdepth] at hx' hw'
    have hrun := Encoding.lockstep_value htwins h setting.options.maxDepth x
    intro run run' hne hne'
    obtain ⟨ha, hv⟩ := hrun.accord (s := ⟨w, m⟩) (u := ⟨w, m'⟩) rfl
      (fun hs => hne (by rw [hx, hs]; rfl)) (fun hs => hne' (by rw [hx', hs]; rfl))
    simp only [Terms.writing] at ha hv
    simp only [run, run', hx, hx', hw, hw', hv]
    exact ⟨ha.map fun _ _ _ => rfl, trivial⟩
  · obtain ⟨hn, hvalue, hr⟩ := Decoder.decodeInto_eq_produce ⟨setting, r, m⟩ old
    obtain ⟨hn', hvalue', hr'⟩ := Decoder.decodeInto_eq_produce ⟨setting', r, m'⟩ (old.retag tag)
    intro run run' hne hne'
    obtain ⟨ha, hv⟩ := (hproduce old r m m').accord (s := ⟨r, m⟩) (u := ⟨r, m'⟩) rfl
      (fun hs => hne (by rw [hn, hs]; rfl)) (fun hs => hne' (by rw [hn', hs]; rfl))
    simp only [Terms.reading] at ha hv
    simp only [run, run', hn, hn', hr, hr', hv]
    refine ⟨ha.map fun _ _ _ => rfl, fun n hok => ?_, trivial⟩
    cases hv : (Decoder.produce ⟨setting, r, m⟩ old ⟨r, m⟩).1 with
    | error e =>
      rw [hv] at hok
      cases hok
    | ok v =>
      rw [hv] at ha
      obtain ⟨v', hv', hvv⟩ := ha.of_ok
      rw [hvalue v hv, hvalue' v' hv']
      exact hvv
  · obtain ⟨hd, hr⟩ := Decoder.decode_eq_produce ⟨setting, r, m⟩ t
    obtain ⟨hd', hr'⟩ := Decoder.decode_eq_produce ⟨setting', r, m'⟩ t
    have hrun := hproduce (.initial t) r m m'
    rw [Datum.retag_initial] at hrun
    intro run run' hne hne'
    obtain ⟨ha, hv⟩ := hrun.accord (s := ⟨r, m⟩) (u := ⟨r, m'⟩) rfl
      (fun hs => hne (hd.trans hs)) (fun hs => hne' (hd'.trans hs))
    simp only [Terms.reading] at ha hv
    simp only [run, run', hd, hd', hr, hr', hv]
    exact ⟨ha, trivial⟩

def withTags (S : Schema) (r : Nat) (tags : List String) : Nat → Nat → String := fun r' i =>
  if r' = r then tags.getD i "" else (S.record r').tags.getD i ""

theorem interchanges_withTags {tags : List String}
    (h : ∀ i : Fin (S.arity r), tags.getD i "" = ((S.record r).fields.get i).tag ∨
      ∃ d d', S.descriptor r i = .ok d ∧
        Descriptor.ofTag (S.record r).name i (tags.getD i "") = .ok d' ∧
        Descriptor.Interchanged (S.fieldShape r i) d d') :
    S.Interchanges (S.withTags r tags) := by
  intro r' i
  unfold withTags
  by_cases hr : r' = r
  · subst hr
    rw [if_pos rfl]
    exact h i
  · rw [if_neg hr]
    refine .inl ?_
    rw [List.getD_eq_getElem?_getD, getElem?_tags]
    rfl

end Schema

theorem Registry.hasOwn_builtins : (Registry.builtins : Registry S).HasOwn := by
  intro s key b name ho hkey
  have hfind : Builtin.all.find? (key ∈ ·.names) = some b := by
    cases s with
    | int k => cases k <;> cases ho <;> decide +kernel
    | float32 | variant => cases ho
    | bool | float64 | text | uuid | octets | time =>
      cases ho
      decide +kernel
  rw [lookup_builtins_eq, hkey, hfind]

theorem Setting.twins_builtins (options : Options) :
    (⟨options, .builtins⟩ : Setting S).Twins (⟨options, .builtins⟩ : Setting (S.retag tag)) where
  options := rfl
  codecs := Registry.mirrors_builtins
  own := Registry.hasOwn_builtins
  own' := Registry.hasOwn_builtins

namespace Sample

def station : RecordType := recordType "Station" [
  ⟨"level", .optional (.boxed (int .i8)), ",1"⟩, ⟨"port", int .u16, "uint16,2"⟩,
  ⟨"below", .sequence (.record spare), ",3"⟩]

def stationSchema : TagWire.Schema := schemaWith station (by decide)

def stationTags : Nat → Nat → String := stationSchema.withTags spare [" Byte ,1", ",2", ",3"]

def stationOf (level : Int) (port : Int) (count : Nat)
    (below : Fin count → Datum stationSchema (.record spare)) :
    Datum stationSchema (.record spare) := .record fun
  | ⟨0, _⟩ => .present (.boxed (.scalar (IntKind.i8.wrap level)))
  | ⟨1, _⟩ => .scalar (IntKind.u16.wrap port)
  | ⟨2, _⟩ => .sequence count below

def stations : Datum stationSchema (.record spare) :=
  stationOf (-1) 258 1 fun _ => stationOf 5 65535 0 Fin.elim0

def stationBytes : List UInt8 := [255, 1, 2, 1, 5, 255, 255, 0]

def stationReader : Reader := { source := { unread := stationBytes } }

def stationSetting (S : TagWire.Schema) : Setting S := ⟨.atVersion 1, .builtins⟩

end Sample

theorem Sample.interchanges_station :
    Sample.stationSchema.Interchanges Sample.stationTags := by
  refine Schema.interchanges_withTags fun i => ?_
  match i with
  | ⟨0, _⟩ =>
    refine .inr ⟨⟨1, false, 0, none, 0⟩, ⟨1, false, 0, some "Byte", 0⟩,
      eq_ok_of_toOption (by decide +kernel +revert), eq_ok_of_toOption (by decide +kernel +revert),
      rfl, nofun, ?_⟩
    rintro _ ⟨⟩
    exact ⟨.byte, .int .i8, "byte", rfl, rfl, by decide +kernel⟩
  | ⟨1, _⟩ =>
    refine .inr ⟨⟨2, false, 0, some "uint16", 1⟩, ⟨2, false, 0, none, 1⟩,
      eq_ok_of_toOption (by decide +kernel +revert), eq_ok_of_toOption (by decide +kernel +revert),
      rfl, ?_, nofun⟩
    rintro _ ⟨⟩
    exact ⟨.short, .int .u16, "uint16", rfl, rfl, by decide +kernel⟩
  | ⟨2, _⟩ => exact .inl rfl

theorem Schema.Interchanges.runs_agree_station :
    let run := Encoder.encode Sample.stations ⟨Sample.stationSetting _, {}, {}⟩
    let run' := Encoder.encode (Sample.stations.retag Sample.stationTags)
      ⟨Sample.stationSetting _, {}, {}⟩
    run.1 = .ok 8 ∧ run.2.writer.sink.taken = Sample.stationBytes ∧
      Accord run.2.writer.Full Eq run.1 run'.1 ∧ run'.2.writer = run.2.writer ∧
      Accord True (fun v v' => v' = v.retag Sample.stationTags)
        (Decoder.decode (.record Sample.spare)
          ⟨Sample.stationSetting Sample.stationSchema, Sample.stationReader, {}⟩).1
        (Decoder.decode (.record Sample.spare)
          ⟨Sample.stationSetting _, Sample.stationReader, {}⟩).1 := by
  have htwins : (Sample.stationSetting Sample.stationSchema).Twins
      (Sample.stationSetting (Sample.stationSchema.retag Sample.stationTags)) :=
    Setting.twins_builtins (.atVersion 1)
  obtain ⟨hencode, -, hdecode⟩ := runs_agree Sample.interchanges_station htwins
  have hok {α : Type} {x : Except Error α} (h : x.isOk = true) (e : Error) : x ≠ .error e := by
    rintro rfl
    cases h
  obtain ⟨haccord, hwriter⟩ := hencode Sample.stations {} {} {} (hok (by decide +kernel) _)
    (hok (by decide +kernel) _)
  obtain ⟨hread, -⟩ := hdecode (.record Sample.spare) Sample.stationReader {} {}
    (hok (by decide +kernel) _) (hok (by decide +kernel) _)
  exact ⟨eq_ok_of_toOption (by decide +kernel), by decide +kernel, haccord, hwriter, hread⟩

end TagWire
