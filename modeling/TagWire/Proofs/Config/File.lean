import TagWire.Config.File
import TagWire.Proofs.Toml.Document
import TagWire.Proofs.Toml.Range
import TagWire.Proofs.Toml.Value
import TagWire.Proofs.Wire.Text

/-! A configuration that is saved is loaded as it was, and one that is loaded can be saved. Its file
has two tables, and each of their lines says one setting. -/
namespace TagWire

structure EngineSettings.Fits (s : EngineSettings) : Prop where
  version : IntKind.i64.Fits s.version
  maxDepth : IntKind.i64.Fits s.maxDepth
  maxItems : IntKind.i64.Fits s.maxItems
  maxText : IntKind.i64.Fits s.maxText

theorem EngineSettings.fits_default : EngineSettings.Fits {} where
  version := by decide
  maxDepth := by decide
  maxItems := by decide
  maxText := by decide

namespace Config

open Toml

variable {c : Config} {text : String}

def engineEntries (s : EngineSettings) : Entries :=
  [("protocol_version", .integer s.version), ("max_depth", .integer s.maxDepth),
    ("max_collection_len", .integer s.maxItems), ("max_string_len", .integer s.maxText)]

def logEntries (s : LogSettings) : Entries :=
  [("app_name", .string s.appName), ("log_level", .string s.level.name),
    ("log_to_file", .boolean s.toFile)] ++
  (match s.path with
  | some path => [("log_file_path", .string path)]
  | none => []) ++
  [("json_format", .boolean s.json)]

def fileEntries (c : Config) : Entries :=
  [("codec", .table .header (engineEntries c.engine)),
    ("logging", .table .header (logEntries c.log))]

/-! ### From the entries -/

theorem sizeOf?_integer (n : Nat) : sizeOf? (.integer n) = some n := by
  rw [sizeOf?, if_pos (Int.natCast_nonneg n), Int.toNat_natCast]

theorem levelOf?_name (level : Level) : levelOf? (.string level.name) = some level :=
  Level.parse?_name level

theorem engineOf?_engineEntries (s : EngineSettings) :
    engineOf? (.table .header (engineEntries s)) = some s := by
  have hversion : (engineEntries s).lookup "protocol_version" = some (.integer s.version) := rfl
  have hdepth : (engineEntries s).lookup "max_depth" = some (.integer s.maxDepth) := rfl
  have hitems : (engineEntries s).lookup "max_collection_len" = some (.integer s.maxItems) := rfl
  have htext : (engineEntries s).lookup "max_string_len" = some (.integer s.maxText) := rfl
  simp [engineOf?, setting?, hversion, hdepth, hitems, htext, integerOf?, sizeOf?_integer]

theorem logOf?_logEntries (s : LogSettings) :
    logOf? (.table .header (logEntries s)) = some s := by
  obtain ⟨appName, level, toFile, path, json⟩ := s
  cases path
  all_goals
    simp [logOf?, setting?, logEntries, List.lookup_cons, levelOf?_name, stringOf?, booleanOf?]

theorem ofEntries?_fileEntries (c : Config) : ofEntries? (fileEntries c) = some c := by
  have hengine := engineOf?_engineEntries c.engine
  have hlog := logOf?_logEntries c.log
  simp [ofEntries?, fileEntries, List.lookup_cons, hengine, hlog]

/-! ### From the text -/

/-- The text of a value on a line of its own. -/
structure Stands (text : String) (v : Value) : Prop where
  value_eq : ∀ rest, value nestingBound (text.toList ++ '\n' :: rest) = some (v, '\n' :: rest)
  head : ∀ c ∈ text.toList.head?, isGap c = false

theorem isGap_of_isDigit {c : Char} (hc : c.isDigit = true) : isGap c = false :=
  isGap_of_isBareChar (by simp [isBareChar, Char.isAlphanum, hc])

theorem stands_integer {z : Int} (hz : IntKind.i64.Fits z) : Stands (toString z) (.integer z) where
  value_eq rest := value_integer hz (by simp [Closes, isBareChar])
  head := by
    obtain ⟨d, more, hdigits, hd, -⟩ := (written_toDigits z.natAbs).exists_cons
    rw [toList_toString, hdigits]
    cases decide (z < 0) with
    | true => simp [signed, isGap]
    | false => simpa [signed] using isGap_of_isDigit hd

theorem stands_size {n : Nat} (hn : IntKind.i64.Fits n) : Stands (toString n) (.integer n) :=
  stands_integer hn

theorem stands_string (s : String) : Stands (Toml.render s) (.string s) where
  value_eq rest := value_string s (by simp) (by simp)
  head := by rcases head?_render s with h | h <;> simp [h, isGap]

theorem stands_boolean (b : Bool) : Stands (renderBoolean b) (.boolean b) where
  value_eq rest := value_boolean b
  head := by cases b <;> simp [renderBoolean, isGap]

theorem says_header {name text : String} (hname : Bare name)
    (htext : text.toList = '[' :: (name.toList ++ [']', '\n'])) :
    Says text.toList (.header ⟨[], name⟩) :=
  htext ▸ .header hname

theorem says_line {name text : String} {v : Value} (hname : Bare name) (h : Stands text v) :
    Says (line name text).toList (.entry ⟨[], name⟩ v) := by
  have hentry := Says.entry hname h.value_eq h.head
  rw [line, String.toList_append, String.toList_append, String.toList_append, List.append_assoc,
    List.append_assoc]
  exact hentry

def fileLines (c : Config) : List Line :=
  Document.tableLines "codec" (engineEntries c.engine) ++
    .blank :: Document.tableLines "logging" (logEntries c.log)

theorem lines_of_render (hfits : c.engine.Fits) (h : c.render = .ok text) :
    Lines text.toList (fileLines c) := by
  rw [render, if_pos ⟨hfits.maxDepth, hfits.maxItems, hfits.maxText⟩] at h
  cases h
  have hsplit : "\n[logging]\n".toList = ['\n'] ++ "[logging]\n".toList := rfl
  rw [String.toList_join]
  simp only [List.flatMap_cons, List.flatMap_nil, hsplit, List.append_assoc]
  refine .cons (says_header (by decide) rfl) ?_
  refine .cons (says_line (by decide) (stands_integer hfits.version)) ?_
  refine .cons (says_line (by decide) (stands_size hfits.maxDepth)) ?_
  refine .cons (says_line (by decide) (stands_size hfits.maxItems)) ?_
  refine .cons (says_line (by decide) (stands_size hfits.maxText)) ?_
  refine .cons .blank ?_
  refine .cons (says_header (by decide) rfl) ?_
  refine .cons (says_line (by decide) (stands_string _)) ?_
  refine .cons (says_line (by decide) (stands_string _)) ?_
  refine .cons (says_line (by decide) (stands_boolean _)) ?_
  have hjson : Lines ((line "json_format" (renderBoolean c.log.json)).toList ++ [])
      [.entry ⟨[], "json_format"⟩ (.boolean c.log.json)] :=
    .cons (says_line (by decide) (stands_boolean _)) .nil
  cases c.log.path with
  | none => exact hjson
  | some path => exact .cons (says_line (by decide) (stands_string path)) hjson

theorem foldlM_fileLines (c : Config) :
    (fileLines c).foldlM Document.extend {} =
      some { root := fileEntries c, current := ["logging"] } := by
  have hkeys : ((logEntries c.log).map Prod.fst).Nodup := by
    unfold logEntries
    cases c.log.path <;> simp
  have hcodec : (Document.tableLines "codec" (engineEntries c.engine)).foldlM Document.extend {} =
      some { root := [("codec", .table .header (engineEntries c.engine))], current := ["codec"] } :=
    Document.foldlM_tableLines rfl (by simp [engineEntries]) []
  have hlogging : (Document.tableLines "logging" (logEntries c.log)).foldlM Document.extend
      { root := [("codec", .table .header (engineEntries c.engine))], current := ["codec"] } =
        some { root := fileEntries c, current := ["logging"] } :=
    Document.foldlM_tableLines rfl hkeys ["codec"]
  -- the blank line between the two leaves the document as it is
  rw [fileLines, List.foldlM_append, hcodec]
  exact hlogging

theorem ofText_of_render (hfits : c.engine.Fits) (h : c.render = .ok text) :
    ofText text = .ok c := by
  have hparse : Document.parse? text = some (fileEntries c) := by
    rw [Document.parse?, Document.scan_of_lines (lines_of_render hfits h)]
    exact Option.bind_eq_some_iff.2 ⟨_, rfl,
      Option.bind_eq_some_iff.2 ⟨_, foldlM_fileLines c, rfl⟩⟩
  have hfile : (Document.parse? text >>= ofEntries?) = some c := by
    rw [hparse]
    exact ofEntries?_fileEntries c
  rw [ofText, hfile]

/-- A configuration whose numbers fit can be saved, and the file that is written loads as the same
configuration. -/
theorem exists_save (hfits : c.engine.Fits) :
    ∃ text, c.save none = .ok text ∧ ofFound (.file (Text.utf8 text)) = .ok c := by
  obtain ⟨text, hrender⟩ : ∃ text, c.render = .ok text :=
    ⟨_, if_pos ⟨hfits.maxDepth, hfits.maxItems, hfits.maxText⟩⟩
  refine ⟨text, ?_, ?_⟩
  · rw [save, hrender]
    rfl
  · rw [ofFound, Text.ofUtf8?_utf8]
    exact ofText_of_render hfits hrender

theorem ofText_example : ∃ text, example? = .ok text ∧ ofText text = .ok {} := by
  obtain ⟨text, hrender⟩ : ∃ text, render {} = .ok text := ⟨_, if_pos (by decide)⟩
  exact ⟨text, hrender, ofText_of_render EngineSettings.fits_default hrender⟩

/-! ### What was loaded -/

variable {v : Value} {s : EngineSettings}

theorem fits_integerOf? {n : Int} (h : v.Fits) (hn : integerOf? v = some n) :
    IntKind.i64.Fits n := by
  unfold integerOf? at hn
  split at hn
  · cases hn
    cases h with
    | integer h => exact h
  · cases hn

theorem fits_sizeOf? {n : Nat} (h : v.Fits) (hn : sizeOf? v = some n) : IntKind.i64.Fits n := by
  unfold sizeOf? at hn
  split at hn
  · split at hn
    · next hpos =>
      cases hn
      rw [Int.toNat_of_nonneg hpos]
      cases h with
      | integer h => exact h
    · cases hn
  · cases hn

theorem fits_setting? {name : String} {place : Nat} {w : Option Value} (h : v.Fits)
    (hw : setting? v name place = some w) : ∀ u ∈ w, u.Fits := by
  unfold setting? at hw
  split at hw
  · next entries =>
    cases hw
    cases h with
    | table h => exact fun u hu => Entries.Fits.lookup h hu
  · next items =>
    obtain ⟨u, hu, rfl⟩ := Option.map_eq_some_iff.1 hw
    cases h with
    | array h => exact fun _ hv => Option.some.inj hv ▸ h u (List.mem_of_getElem? hu)
  · cases hw

theorem fits_engineOf? (h : v.Fits) (hs : engineOf? v = some s) : s.Fits := by
  simp only [engineOf?, Option.bind_eq_bind, Option.bind_eq_some_iff] at hs
  obtain ⟨_, h₁, _, rfl, _, hversion, _, h₂, _, rfl, _, hdepth, _, h₃, _, rfl, _, hitems, _, h₄, _,
    rfl, _, htext, hs⟩ := hs
  cases hs
  exact {
    version := fits_integerOf? (fits_setting? h h₁ _ rfl) hversion
    maxDepth := fits_sizeOf? (fits_setting? h h₂ _ rfl) hdepth
    maxItems := fits_sizeOf? (fits_setting? h h₃ _ rfl) hitems
    maxText := fits_sizeOf? (fits_setting? h h₄ _ rfl) htext }

theorem engine_of_ofEntries? {entries : Entries} (h : ofEntries? entries = some c) :
    (∃ v, entries.lookup "codec" = some v ∧ engineOf? v = some c.engine) ∨ c.engine = {} := by
  -- the table of the log leaves the engine as it is
  have hlog {engine : EngineSettings} {x : Option LogSettings}
      (h : (x >>= fun log => some { engine, log }) = some c) : c.engine = engine := by
    obtain ⟨log, -, hc⟩ := Option.bind_eq_some_iff.1 h
    cases hc
    rfl
  unfold ofEntries? at h
  dsimp only at h
  cases hcodec : entries.lookup "codec" with
  | some v =>
    rw [hcodec] at h
    obtain ⟨engine, hengine, h⟩ := Option.bind_eq_some_iff.1 h
    refine .inl ⟨v, rfl, ?_⟩
    split at h
    all_goals rwa [hlog h]
  | none =>
    rw [hcodec] at h
    obtain ⟨engine, hengine, h⟩ := Option.bind_eq_some_iff.1 h
    cases hengine
    refine .inr ?_
    split at h
    all_goals exact hlog h

theorem fits_of_ofText (h : ofText text = .ok c) : c.engine.Fits := by
  unfold ofText at h
  split at h
  · next hfile =>
    cases h
    obtain ⟨entries, hparse, hentries⟩ := Option.bind_eq_some_iff.1 hfile
    have hfits := Document.fits_of_parse? hparse
    rcases engine_of_ofEntries? hentries with ⟨v, hlookup, hengine⟩ | hengine
    · exact fits_engineOf? (hfits.lookup hlookup) hengine
    · rw [hengine]
      exact EngineSettings.fits_default
  · cases h

/-- Whatever text a configuration was loaded from, it can be saved, and loads the same again. -/
theorem exists_save_of_ofText (h : ofText text = .ok c) :
    ∃ saved, c.save none = .ok saved ∧ ofFound (.file (Text.utf8 saved)) = .ok c :=
  exists_save (fits_of_ofText h)

end Config

end TagWire
