import Mathlib.Data.List.Induction
import Mathlib.Data.List.Nodup
import Mathlib.Data.String.Basic
import TagWire.Proofs.Codec.Builtin
import TagWire.Proofs.Text.Case

/-! Which codec a name finds after any run of registrations: that of the last one that names it, or
else the built-in one. Every name of a registry is in lower case, so a name is found as it stands or
in lower case with the same outcome. -/
namespace TagWire

variable {S : Schema}

namespace Builtin

def names : Builtin → List String
  | bool => ["bool"]
  | byte => ["byte"]
  | type => ["type"]
  | short => ["short", "char", "int16", "uint16"]
  | int => ["int", "int32", "uint32"]
  | long => ["long", "int64", "uint64"]
  | float => ["float", "float32"]
  | double => ["double", "float64"]
  | string => ["string"]
  | nullSize => ["null-size", "nullable-size"]
  | size => ["size"]
  | uuid => ["uuid"]
  | time => ["time"]

theorem map_names_all : (Codec.builtins (S := S)).map (·.1) = all.map names := rfl

theorem lowercase_of_mem_names {e : List String × Codec S} (he : e ∈ Codec.builtins)
    {key : String} (hkey : key ∈ e.1) : Text.lowercase key = key := by
  have hall : ∀ keys ∈ all.map names, ∀ key ∈ keys, Text.lowercase key = key := by decide +kernel
  apply hall e.1 _ key hkey
  rw [← map_names_all (S := S)]
  exact List.mem_map_of_mem he

theorem pairwise_disjoint_names :
    (Codec.builtins (S := S)).Pairwise fun a b => a.1.Disjoint b.1 := by
  have hall : (all.map names).flatten.Nodup := by decide +kernel
  rw [List.nodup_flatten, ← map_names_all (S := S)] at hall
  exact List.pairwise_map.1 hall.2

end Builtin

/-- A request to register a codec under a list of names. -/
structure Registration (S : Schema) where
  names : String
  codec : Codec S

namespace Registration

def keys (call : Registration S) : List String := Registry.keysOf call.names

def stored (call : Registration S) : Codec S :=
  { call.codec with name := call.keys.headD "" }

/-- What the last call that names the key registers. -/
def latest? (calls : List (Registration S)) (key : String) : Option (Codec S) :=
  (calls.filter (key ∈ ·.keys)).getLast?.map stored

end Registration

namespace Registry

def trimmed (name : String) : String := String.ofList (Text.trim name.toList)

def keyOf (name : String) : String := Text.lowercase (trimmed name)

/-- The registry after a call; one that is refused changes nothing. -/
def after (R : Registry S) (call : Registration S) : Registry S :=
  match R.register call.names call.codec with
  | .ok R' => R'
  | .error _ => R

def afterAll (R : Registry S) (calls : List (Registration S)) : Registry S := calls.foldl after R

/-- What a registry holds before the first call. -/
inductive Start
  | bare | stocked

def Start.registry : Start → Registry S
  | bare => empty
  | stocked => builtins

def Start.codec? : Start → String → Option (Codec S)
  | bare, _ => none
  | stocked, key => (Codec.builtins.find? (key ∈ ·.1)).map (·.2)

/-- Names in order, each of them in lower case. -/
structure Tidy (R : Registry S) : Prop where
  ascending : R.names.Pairwise (· < ·)
  lower : ∀ key ∈ R.names, Text.lowercase key = key

theorem isSome_find?_iff {R : Registry S} {key : String} :
    (R.find? key).isSome ↔ key ∈ R.names := by
  unfold find? names
  induction R.entries with
  | nil => simp
  | cons e es ih =>
    rw [lookup_cons_eq]
    by_cases h : key = e.1
    · simp [h]
    · simp [h, ih]

theorem mem_insertEntry_iff {key k : String} {c : Codec S} {es : List (String × Codec S)} :
    k ∈ (insertEntry key c es).map (·.1) ↔ k = key ∨ k ∈ es.map (·.1) := by
  induction es with
  | nil => simp [insertEntry]
  | cons e es ih =>
    unfold insertEntry
    split
    · next h => simp [h]
    · split
      · simp
      · rw [List.map_cons, List.mem_cons, ih, List.map_cons, List.mem_cons]
        tauto

theorem pairwise_insertEntry {key : String} {c : Codec S} {es : List (String × Codec S)}
    (h : (es.map (·.1)).Pairwise (· < ·)) :
    ((insertEntry key c es).map (·.1)).Pairwise (· < ·) := by
  induction es with
  | nil => simp [insertEntry]
  | cons e es ih =>
    obtain ⟨hfirst, hrest⟩ := List.pairwise_cons.1 h
    unfold insertEntry
    split
    · next heq => simpa [heq] using h
    · next hne =>
      split
      · next hlt =>
        apply List.pairwise_cons.2 ⟨?_, h⟩
        intro k hk
        rcases List.mem_cons.1 hk with rfl | hk
        · exact hlt
        · exact hlt.trans (hfirst k hk)
      · next hnot =>
        apply List.pairwise_cons.2 ⟨?_, ih hrest⟩
        intro k hk
        rcases mem_insertEntry_iff.1 hk with rfl | hk
        · exact lt_of_le_of_ne (not_lt.1 hnot) (Ne.symm hne)
        · exact hfirst k hk

theorem Tidy.insert {R : Registry S} (h : R.Tidy) {key : String} (hkey : Text.lowercase key = key)
    (c : Codec S) : (R.insert key c).Tidy where
  ascending := pairwise_insertEntry h.ascending
  lower k hk := by
    rcases mem_insertEntry_iff.1 hk with rfl | hk
    · exact hkey
    · exact h.lower k hk

theorem Tidy.insertAll {R : Registry S} (h : R.Tidy) {keys : List String}
    (hkeys : ∀ key ∈ keys, Text.lowercase key = key) (c : Codec S) : (R.insertAll keys c).Tidy := by
  induction keys generalizing R with
  | nil => exact h
  | cons key keys ih =>
    apply ih (h.insert (hkeys key List.mem_cons_self) c)
    exact fun k hk => hkeys k (List.mem_cons_of_mem _ hk)

theorem find?_insertAll (R : Registry S) (keys : List String) (c : Codec S) (key : String) :
    (R.insertAll keys c).find? key = if key ∈ keys then some c else R.find? key := by
  induction keys generalizing R with
  | nil => simp [insertAll]
  | cons k keys ih =>
    have hstep : R.insertAll (k :: keys) c = (R.insert k c).insertAll keys c := rfl
    rw [hstep, ih, find?_insert]
    by_cases hk : key = k <;> simp [hk]

theorem find?_foldl {β : Type} (keys : β → List String) (codec : β → Codec S) (bs : List β)
    (R : Registry S) (key : String) :
    (bs.foldl (fun R b => R.insertAll (keys b) (codec b)) R).find? key =
      (((bs.filter (key ∈ keys ·)).getLast?.map codec).or (R.find? key)) := by
  induction bs using List.reverseRecOn with
  | nil => simp
  | append_singleton bs b ih =>
    rw [List.foldl_append, List.foldl_cons, List.foldl_nil, find?_insertAll, ih, List.filter_append]
    by_cases hb : key ∈ keys b <;> simp [hb]

theorem Tidy.foldl {β : Type} {keys : β → List String} {codec : β → Codec S} {bs : List β}
    (hbs : ∀ b ∈ bs, ∀ key ∈ keys b, Text.lowercase key = key) {R : Registry S} (h : R.Tidy) :
    (bs.foldl (fun R b => R.insertAll (keys b) (codec b)) R).Tidy := by
  induction bs generalizing R with
  | nil => exact h
  | cons b bs ih =>
    apply ih fun b' hb' => hbs b' (List.mem_cons_of_mem _ hb')
    exact h.insertAll (hbs b List.mem_cons_self) _

theorem register_of_nil {R : Registry S} {call : Registration S} (h : call.keys = []) :
    R.register call.names call.codec = .error .noCodecName := by
  unfold register
  rw [show keysOf call.names = [] from h]

theorem after_eq (R : Registry S) (call : Registration S) :
    R.after call = R.insertAll call.keys call.stored := by
  cases h : call.keys with
  | nil =>
    unfold after
    rw [register_of_nil h]
    rfl
  | cons first more =>
    have hok : R.register call.names call.codec =
        .ok (R.insertAll (first :: more) { call.codec with name := first }) := by
      unfold register
      rw [show keysOf call.names = first :: more from h]
    unfold after Registration.stored
    rw [hok, h]
    rfl

theorem lowercase_of_mem_keys {call : Registration S} {key : String} (h : key ∈ call.keys) :
    Text.lowercase key = key := by
  obtain ⟨word, -, rfl⟩ := List.mem_map.1 h
  exact Text.lowercase_lowercase _

theorem find?_after (R : Registry S) (call : Registration S) (key : String) :
    (R.after call).find? key = if key ∈ call.keys then some call.stored else R.find? key := by
  rw [after_eq, find?_insertAll]

theorem Tidy.after {R : Registry S} (h : R.Tidy) (call : Registration S) : (R.after call).Tidy := by
  rw [after_eq]
  exact h.insertAll (fun _ => lowercase_of_mem_keys) _

theorem Tidy.afterAll {R : Registry S} (h : R.Tidy) (calls : List (Registration S)) :
    (R.afterAll calls).Tidy := by
  induction calls generalizing R with
  | nil => exact h
  | cons call calls ih => exact ih (h.after call)

theorem find?_afterAll (R : Registry S) (calls : List (Registration S)) (key : String) :
    (R.afterAll calls).find? key = (Registration.latest? calls key).or (R.find? key) := by
  unfold afterAll
  rw [funext₂ after_eq]
  exact find?_foldl Registration.keys Registration.stored calls R key

theorem Start.tidy (start : Start) : (start.registry (S := S)).Tidy := by
  have hbare : (empty (S := S)).Tidy := ⟨.nil, fun _ h => nomatch h⟩
  cases start with
  | bare => exact hbare
  | stocked =>
    unfold registry builtins
    exact hbare.foldl fun _ he _ hkey => Builtin.lowercase_of_mem_names he hkey

theorem getLast?_filter_of_pairwise {β : Type} {p : β → Bool} {bs : List β}
    (h : bs.Pairwise fun a b => p a = true → p b = false) :
    (bs.filter p).getLast? = bs.find? p := by
  induction bs with
  | nil => rfl
  | cons b bs ih =>
    obtain ⟨hfirst, hrest⟩ := List.pairwise_cons.1 h
    by_cases hb : p b = true
    · have hnone : bs.filter p = [] := List.filter_eq_nil_iff.2 fun a ha => by
        simp [hfirst a ha hb]
      simp [hb, hnone]
    · simpa [hb] using ih hrest

theorem Start.find?_registry (start : Start) (key : String) :
    (start.registry (S := S)).find? key = start.codec? key := by
  cases start with
  | bare => rfl
  | stocked =>
    have hpair : (Codec.builtins (S := S)).Pairwise fun a b =>
        decide (key ∈ a.1) = true → decide (key ∈ b.1) = false := by
      apply Builtin.pairwise_disjoint_names.imp
      intro a b hab ha
      exact decide_eq_false fun hb => hab (of_decide_eq_true ha) hb
    unfold registry builtins codec?
    rw [find?_foldl, getLast?_filter_of_pairwise hpair]
    exact Option.or_none

theorem Tidy.find?_keyOf {R : Registry S} (h : R.Tidy) {name : String} {c : Codec S}
    (hc : R.find? (trimmed name) = some c) : R.find? (keyOf name) = some c := by
  unfold keyOf
  rw [h.lower _ (isSome_find?_iff.1 (by rw [hc]; rfl)), hc]

theorem Tidy.lookup_eq {R : Registry S} (h : R.Tidy) (name : String) :
    R.lookup name = match R.find? (keyOf name) with
      | some c => .ok c
      | none => .error (.unknownCodec name) := by
  have hkey : (R.find? (trimmed name) <|> R.find? (Text.lowercase (trimmed name))) =
      R.find? (keyOf name) := by
    cases hc : R.find? (trimmed name) with
    | none => rfl
    | some c => exact (h.find?_keyOf hc).symm
  unfold lookup
  rw [← hkey]
  rfl

theorem builtins_eq : (Codec.builtins (S := S)) =
    Builtin.all.map fun b => (b.names, b.codec) := rfl

theorem lookup_builtins_eq (name : String) : (builtins : Registry S).lookup name =
    match Builtin.all.find? (keyOf name ∈ ·.names) with
    | some b => .ok b.codec
    | none => .error (.unknownCodec name) := by
  have hfind : builtins.find? (keyOf name) =
      (Builtin.all.find? (keyOf name ∈ ·.names)).map (Builtin.codec (S := S)) := by
    have hstart := Start.stocked.find?_registry (S := S) (keyOf name)
    rw [Start.registry, Start.codec?, builtins_eq, List.find?_map, Option.map_map] at hstart
    exact hstart
  have htidy : (builtins : Registry S).Tidy := Start.stocked.tidy
  rw [htidy.lookup_eq, hfind]
  cases Builtin.all.find? (keyOf name ∈ ·.names) <;> rfl

theorem lookup_of_mem_names {b : Builtin} {name : String} (h : keyOf name ∈ b.names) :
    (builtins : Registry S).lookup name = .ok b.codec := by
  have hall : ∀ b ∈ Builtin.all, ∀ key ∈ b.names,
      Builtin.all.find? (key ∈ ·.names) = some b := by decide +kernel
  have hfind := hall b (by cases b <;> decide) _ h
  rw [lookup_builtins_eq, hfind]

/-- A name finds what the last call that named it registered, or else the codec that was there at
the start. -/
theorem lookup_afterAll (start : Start) (calls : List (Registration S)) :
    let R := start.registry.afterAll calls
    let codec? := fun key => (Registration.latest? calls key).or (start.codec? key)
    (∀ name, R.lookup name = match codec? (keyOf name) with
      | some c => .ok c
      | none => .error (.unknownCodec name)) ∧
    (∀ name c, R.find? (trimmed name) = some c → R.find? (keyOf name) = some c) ∧
    (∀ name name', keyOf name = keyOf name' →
      (R.lookup name).toOption = (R.lookup name').toOption) ∧
    (∀ call name, keyOf name ∉ call.keys → (R.after call).lookup name = R.lookup name) ∧
    (∀ earlier again name, keyOf name ∈ earlier.keys → keyOf name ∉ again.keys →
      ((R.after earlier).after again).lookup name = .ok earlier.stored) ∧
    (∀ call, call.keys = [] →
      R.register call.names call.codec = .error .noCodecName ∧ R.after call = R) ∧
    R.names.Pairwise (· < ·) ∧
    ∀ key, (key ∈ R.names ↔ (R.find? key).isSome) ∧ R.find? key = codec? key := by
  intro R codec?
  have hR : R.Tidy := start.tidy.afterAll calls
  have hfind (key : String) : R.find? key = codec? key := by
    rw [find?_afterAll, start.find?_registry]
  refine ⟨fun name => ?_, fun name c => hR.find?_keyOf, fun name name' h => ?_,
    fun call name h => ?_, fun earlier again name hin hout => ?_, fun call h => ?_, hR.ascending,
    fun key => ⟨isSome_find?_iff.symm, hfind key⟩⟩
  · rw [hR.lookup_eq, hfind]
  · rw [hR.lookup_eq, hR.lookup_eq, h]
    split <;> rfl
  · rw [(hR.after call).lookup_eq, find?_after, if_neg h, hR.lookup_eq]
  · rw [((hR.after earlier).after again).lookup_eq, find?_after, if_neg hout, find?_after,
      if_pos hin]
  · refine ⟨register_of_nil h, ?_⟩
    rw [after_eq, h]
    rfl

end Registry

end TagWire
