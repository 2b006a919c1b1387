import TagWire.Config.Environment
import TagWire.Proofs.Text.Blank
import TagWire.Proofs.Text.Decimal

/-! The configuration that an environment spells. Each setting has a variable of its own: one that
is not set leaves the default, one that is set says the setting, and a refusal names one that is
set. -/
namespace TagWire.Config

variable {env : String → Option String} {name : String} {α β : Type}
  {spells : String → α → Prop} {default a : α} {c : Config} {e : Error}

theorem bind_eq_ok_iff {x : Except Error α} {f : α → Except Error β} {b : β} :
    (x >>= f) = .ok b ↔ ∃ a, x = .ok a ∧ f a = .ok b := by
  cases x with
  | error e => exact ⟨nofun, nofun⟩
  | ok a => exact ⟨fun h => ⟨a, rfl, h⟩, fun ⟨_, ha, h⟩ => Except.ok.inj ha ▸ h⟩

theorem bind_eq_error {x : Except Error α} {f : α → Except Error β} (h : (x >>= f) = .error e) :
    x = .error e ∨ ∃ a, f a = .error e := by
  cases x with
  | error e' =>
    cases h
    exact .inl rfl
  | ok a => exact .inr ⟨a, h⟩

/-- A variable that is not set leaves the default, and one that is set spells the setting. -/
inductive Settles (env : String → Option String) (name : String) (spells : String → α → Prop)
    (default : α) : α → Prop
  | unset (h : env name = none) : Settles env name spells default default
  | spelt {text : String} {a : α} (h : env name = some text) (ha : spells text a) :
    Settles env name spells default a

def SpellsInteger (text : String) (n : Int) : Prop :=
  Text.SignedNumeral (Text.trim text.toList) n ∧ IntKind.i64.Fits n

def SpellsSize (text : String) (n : Nat) : Prop :=
  Text.Unsigned (Text.trim text.toList) n ∧ IntKind.usize.Fits n

def SpellsLevel (text : String) (level : Level) : Prop := Level.parse? text = some level

/-- What reading a variable comes to: nothing where it is not set, what its text spells, or a
refusal of a text that spells nothing. -/
inductive Reads (env : String → Option String) (name : String) (spells : String → α → Prop) :
    Except Error (Option α) → Prop
  | unset (h : env name = none) : Reads env name spells (.ok none)
  | spelt {text : String} {a : α} (h : env name = some text) (ha : ∀ b, spells text b ↔ b = a) :
    Reads env name spells (.ok (some a))
  | refused {text : String} (h : env name = some text) (hno : ∀ a, ¬ spells text a) :
    Reads env name spells (.error (.config (.badVariable name text)))

variable {x : Except Error (Option α)}

theorem Reads.settles_iff (h : Reads env name spells x) :
    Settles env name spells default a ↔ ∃ v, x = .ok v ∧ a = v.getD default := by
  cases h with
  | unset hname =>
    constructor
    · rintro (- | ⟨hset, -⟩)
      · exact ⟨none, rfl, rfl⟩
      · cases hname.symm.trans hset
    · rintro ⟨v, hv, rfl⟩
      cases hv
      exact .unset hname
  | @spelt text b hname hb =>
    constructor
    · rintro (hunset | ⟨hset, ha⟩)
      · cases hname.symm.trans hunset
      · cases hname.symm.trans hset
        exact ⟨some b, rfl, (hb a).1 ha⟩
    · rintro ⟨v, hv, rfl⟩
      cases hv
      exact .spelt hname ((hb b).2 rfl)
  | refused hname hno =>
    constructor
    · rintro (hunset | ⟨hset, ha⟩)
      · cases hname.symm.trans hunset
      · cases hname.symm.trans hset
        exact absurd ha (hno a)
    · rintro ⟨v, hv, -⟩
      cases hv

theorem Reads.error (h : Reads env name spells (.error e)) :
    ∃ text, env name = some text ∧ (∀ a, ¬ spells text a) ∧
      e = .config (.badVariable name text) := by
  cases h with
  | refused hname hno => exact ⟨_, hname, hno, rfl⟩

theorem reads_integerVariable {k : IntKind} {parse : List Char → Option Int} :
    Reads env name (fun text n => parse (Text.trim text.toList) = some n ∧ k.Fits n)
      (integerVariable env name k parse) := by
  unfold integerVariable
  split
  · next hname => exact .unset hname
  · next text hname =>
    split
    · next n hn =>
      split
      · next hfits =>
        refine .spelt hname fun m => ⟨fun h => Option.some.inj (h.1.symm.trans hn), ?_⟩
        rintro rfl
        exact ⟨hn, hfits⟩
      · next hfits =>
        refine .refused hname fun m h => hfits ?_
        cases hn.symm.trans h.1
        exact h.2
    · next hn =>
      refine .refused hname fun m h => ?_
      cases hn.symm.trans h.1

theorem Reads.map {spells' : String → β → Prop} (h : Reads env name spells x) (g : α → β)
    (hspells : ∀ text b, spells' text b ↔ ∃ a, spells text a ∧ b = g a) :
    Reads env name spells' ((·.map g) <$> x) := by
  cases h with
  | unset hname => exact .unset hname
  | @spelt text a hname ha =>
    refine .spelt hname fun b => ?_
    rw [hspells]
    constructor
    · rintro ⟨a', ha', rfl⟩
      rw [(ha a').1 ha']
    · rintro rfl
      exact ⟨a, (ha a).2 rfl, rfl⟩
  | refused hname hno =>
    refine .refused hname fun b hb => ?_
    obtain ⟨a, ha, -⟩ := (hspells _ _).1 hb
    exact hno a ha

theorem reads_version (env : String → Option String) (name : String) :
    Reads env name SpellsInteger (integerVariable env name .i64 Text.integer?) := by
  have h : Reads env name _ (integerVariable env name .i64 Text.integer?) := reads_integerVariable
  simp only [Text.integer?_eq_some_iff] at h
  exact h

theorem reads_size (env : String → Option String) (name : String) :
    Reads env name SpellsSize (sizeVariable env name) := by
  refine Reads.map reads_integerVariable Int.toNat fun text n => ?_
  rw [SpellsSize, ← Text.natural?_eq_some_iff]
  constructor
  · rintro ⟨hn, hfits⟩
    exact ⟨n, ⟨by rw [hn]; rfl, hfits⟩, rfl⟩
  · rintro ⟨z, ⟨hz, hfits⟩, rfl⟩
    obtain ⟨m, hm, rfl⟩ := Option.map_eq_some_iff.1 hz
    exact ⟨hm, hfits⟩

theorem reads_level (env : String → Option String) (name : String) :
    Reads env name SpellsLevel (levelVariable env name) := by
  unfold levelVariable
  split
  · next hname => exact .unset hname
  · next text hname =>
    split
    · next level hlevel =>
      refine .spelt hname fun b => ⟨fun h => Option.some.inj (h.symm.trans hlevel), ?_⟩
      rintro rfl
      exact hlevel
    · next hlevel =>
      refine .refused hname fun b h => ?_
      cases hlevel.symm.trans h

/-- Every setting that has a variable, and no other, comes from the environment. -/
structure SpeltBy (env : String → Option String) (c : Config) : Prop where
  version : Settles env (variableNamed "PROTOCOL_VERSION") SpellsInteger
    ({} : EngineSettings).version c.engine.version
  maxDepth : Settles env (variableNamed "MAX_DEPTH") SpellsSize ({} : EngineSettings).maxDepth
    c.engine.maxDepth
  maxItems : Settles env (variableNamed "MAX_COLLECTION_LEN") SpellsSize
    ({} : EngineSettings).maxItems c.engine.maxItems
  maxText : Settles env (variableNamed "MAX_STRING_LEN") SpellsSize ({} : EngineSettings).maxText
    c.engine.maxText
  level : Settles env (variableNamed "LOG_LEVEL") SpellsLevel ({} : LogSettings).level
    c.log.level
  log : c.log = { level := c.log.level }

/-- An environment gives the configuration that it spells, and none where a variable that is set
spells nothing. -/
theorem ofEnvironment_eq_ok_iff : ofEnvironment env = .ok c ↔ SpeltBy env c := by
  constructor
  · intro h
    obtain ⟨version, hversion, h⟩ := bind_eq_ok_iff.1 h
    obtain ⟨depth, hdepth, h⟩ := bind_eq_ok_iff.1 h
    obtain ⟨items, hitems, h⟩ := bind_eq_ok_iff.1 h
    obtain ⟨length, hlength, h⟩ := bind_eq_ok_iff.1 h
    obtain ⟨level, hlevel, h⟩ := bind_eq_ok_iff.1 h
    cases h
    exact {
      version := (reads_version _ _).settles_iff.2 ⟨version, hversion, rfl⟩
      maxDepth := (reads_size _ _).settles_iff.2 ⟨depth, hdepth, rfl⟩
      maxItems := (reads_size _ _).settles_iff.2 ⟨items, hitems, rfl⟩
      maxText := (reads_size _ _).settles_iff.2 ⟨length, hlength, rfl⟩
      level := (reads_level _ _).settles_iff.2 ⟨level, hlevel, rfl⟩
      log := rfl }
  · intro h
    obtain ⟨version, hversion, hengineVersion⟩ := (reads_version _ _).settles_iff.1 h.version
    obtain ⟨depth, hdepth, hmaxDepth⟩ := (reads_size _ _).settles_iff.1 h.maxDepth
    obtain ⟨items, hitems, hmaxItems⟩ := (reads_size _ _).settles_iff.1 h.maxItems
    obtain ⟨length, hlength, hmaxText⟩ := (reads_size _ _).settles_iff.1 h.maxText
    obtain ⟨level, hlevel, hlogLevel⟩ := (reads_level _ _).settles_iff.1 h.level
    have hlog := h.log
    obtain ⟨⟨_, _, _, _⟩, log⟩ := c
    dsimp only at hengineVersion hmaxDepth hmaxItems hmaxText hlogLevel hlog
    rw [ofEnvironment, hversion, hdepth, hitems, hlength, hlevel, hlog, hlogLevel, hengineVersion,
      hmaxDepth, hmaxItems, hmaxText]
    rfl

def settings : List String :=
  ["PROTOCOL_VERSION", "MAX_DEPTH", "MAX_COLLECTION_LEN", "MAX_STRING_LEN", "LOG_LEVEL"]

theorem ofEnvironment_unset (h : ∀ setting ∈ settings, env (variableNamed setting) = none) :
    ofEnvironment env = .ok {} :=
  ofEnvironment_eq_ok_iff.2 {
    version := .unset (h _ (by decide))
    maxDepth := .unset (h _ (by decide))
    maxItems := .unset (h _ (by decide))
    maxText := .unset (h _ (by decide))
    level := .unset (h _ (by decide))
    log := rfl }

def NamesVariable (env : String → Option String) (e : Error) : Prop :=
  ∃ setting ∈ settings, ∃ text, env (variableNamed setting) = some text ∧
    e = .config (.badVariable (variableNamed setting) text)

theorem Reads.namesVariable {setting : String} (h : Reads env (variableNamed setting) spells x)
    (hsetting : setting ∈ settings) (he : x = .error e) : NamesVariable env e := by
  subst he
  obtain ⟨text, hset, -, he⟩ := h.error
  exact ⟨setting, hsetting, text, hset, he⟩

theorem namesVariable_of_ofEnvironment (h : ofEnvironment env = .error e) :
    NamesVariable env e := by
  rcases bind_eq_error h with h | ⟨version, h⟩
  · exact (reads_version _ _).namesVariable (by decide) h
  rcases bind_eq_error h with h | ⟨depth, h⟩
  · exact (reads_size _ _).namesVariable (by decide) h
  rcases bind_eq_error h with h | ⟨items, h⟩
  · exact (reads_size _ _).namesVariable (by decide) h
  rcases bind_eq_error h with h | ⟨length, h⟩
  · exact (reads_size _ _).namesVariable (by decide) h
  rcases bind_eq_error h with h | ⟨level, h⟩
  · exact (reads_level _ _).namesVariable (by decide) h
  · cases h

theorem trim_signedNumeral {cs : List Char} {z : Int} (h : Text.SignedNumeral cs z) :
    Text.trim cs = cs := by
  have htight : Text.Tight cs := by
    refine Text.tight_of_any (List.any_eq_false.2 fun c hc => Bool.not_eq_true _ ▸ ?_)
    rcases h.mem hc with rfl | rfl | hdigit
    · rfl
    · rfl
    · exact Text.isBlank_of_isDigit hdigit
  have h := Text.trim_around ⟨[], [], nofun, nofun⟩ htight
  simpa [Text.Padding.around] using h

theorem spellsInteger_toString {z : Int} (hz : IntKind.i64.Fits z) :
    SpellsInteger (toString z) z := by
  have h := Text.signedNumeral_toString z
  exact ⟨(trim_signedNumeral h).symm ▸ h, hz⟩

theorem spellsSize_toString {n : Nat} (hn : IntKind.usize.Fits n) : SpellsSize (toString n) n := by
  have h := Text.numeral_toDigits n
  have htext : (toString n).toList = Nat.toDigits 10 n := Nat.toList_repr
  refine ⟨.inl ?_, hn⟩
  rw [htext, trim_signedNumeral (.bare h)]
  exact h

theorem ofEnvironment_written {s : EngineSettings} {level : Level}
    (hversion : IntKind.i64.Fits s.version) (hdepth : IntKind.usize.Fits s.maxDepth)
    (hitems : IntKind.usize.Fits s.maxItems) (htext : IntKind.usize.Fits s.maxText)
    (henv : settings.map (fun setting => env (variableNamed setting)) =
      [toString s.version, toString s.maxDepth, toString s.maxItems, toString s.maxText,
        level.name].map some) :
    ofEnvironment env = .ok { engine := s, log := { level } } := by
  simp only [settings, List.map_cons, List.cons.injEq] at henv
  obtain ⟨h₁, h₂, h₃, h₄, h₅, -⟩ := henv
  exact ofEnvironment_eq_ok_iff.2 {
    version := .spelt h₁ (spellsInteger_toString hversion)
    maxDepth := .spelt h₂ (spellsSize_toString hdepth)
    maxItems := .spelt h₃ (spellsSize_toString hitems)
    maxText := .spelt h₄ (spellsSize_toString htext)
    level := .spelt h₅ (Level.parse?_name level)
    log := rfl }

end TagWire.Config
