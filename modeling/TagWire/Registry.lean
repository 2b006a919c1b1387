import TagWire.Codec.Builtin
import TagWire.Text.Blank
import TagWire.Text.Case

/-! Registries: codecs by name. Names are kept in lower case and in order; registering a name again
replaces its codec and leaves the other names of the former codec alone. -/
namespace TagWire

structure Registry (S : Schema) where
  entries : List (String × Codec S)

namespace Registry

variable {S : Schema}

def empty : Registry S := ⟨[]⟩

def insertEntry (key : String) (c : Codec S) : List (String × Codec S) → List (String × Codec S)
  | [] => [(key, c)]
  | (k, e) :: rest =>
    if key = k then (key, c) :: rest
    else if key < k then (key, c) :: (k, e) :: rest
    else (k, e) :: insertEntry key c rest

def insert (R : Registry S) (key : String) (c : Codec S) : Registry S :=
  ⟨insertEntry key c R.entries⟩

def insertAll (R : Registry S) (keys : List String) (c : Codec S) : Registry S :=
  keys.foldl (·.insert · c) R

def builtins : Registry S :=
  Codec.builtins.foldl (fun R (keys, c) => R.insertAll keys c) empty

def keysOf (names : String) : List String :=
  (Text.words names.toList).map fun w => Text.lowercase (String.ofList w)

/-- Registers a codec under every name of a list; the first becomes its own name. -/
def register (R : Registry S) (names : String) (c : Codec S) : Except Error (Registry S) :=
  match keysOf names with
  | [] => .error .noCodecName
  | first :: more => .ok (R.insertAll (first :: more) { c with name := first })

def find? (R : Registry S) (key : String) : Option (Codec S) := R.entries.lookup key

/-- The codec of a name, blanks around it ignored, in any case. -/
def lookup (R : Registry S) (name : String) : Except Error (Codec S) :=
  let key := String.ofList (Text.trim name.toList)
  match R.find? key <|> R.find? (Text.lowercase key) with
  | some c => .ok c
  | none => .error (.unknownCodec name)

def contains (R : Registry S) (name : String) : Bool := (R.lookup name).isOk

def names (R : Registry S) : List String := R.entries.map (·.1)

theorem lookup_cons_eq (k j : String) (e : Codec S) (rest : List (String × Codec S)) :
    ((j, e) :: rest).lookup k = if k = j then some e else rest.lookup k := by
  rw [List.lookup_cons]
  by_cases h : k = j
  · simp [h]
  · rw [beq_eq_false_iff_ne.2 h, if_neg h]

theorem lookup_insertEntry (key k : String) (c : Codec S) (es : List (String × Codec S)) :
    (insertEntry key c es).lookup k = if k = key then some c else es.lookup k := by
  induction es with
  | nil => simp [insertEntry, lookup_cons_eq]
  | cons e rest ih =>
    obtain ⟨j, e⟩ := e
    unfold insertEntry
    split
    · next h =>
      subst h
      by_cases h : k = key <;> simp [lookup_cons_eq, h]
    · next h =>
      split
      · simp [lookup_cons_eq]
      · by_cases h' : k = j
        · simp [h', Ne.symm h]
        · simp [lookup_cons_eq, h', ih]

theorem eq_unknownCodec_of_lookup {R : Registry S} {name : String} {e : Error}
    (h : R.lookup name = .error e) : e = .unknownCodec name := by
  unfold lookup at h
  dsimp only at h
  split at h
  · cases h
  · cases h
    rfl

theorem find?_insert (R : Registry S) (key k : String) (c : Codec S) :
    (R.insert key c).find? k = if k = key then some c else R.find? k :=
  lookup_insertEntry key k c R.entries

end Registry

end TagWire
