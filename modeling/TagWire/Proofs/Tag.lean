import Mathlib.Data.String.Basic
import TagWire.Proofs.Text.Blank
import TagWire.Proofs.Text.Decimal
import TagWire.Proofs.WireOrder

/-! The grammar of tags. A tag is read exactly if it has at most three parts and the integers among
them are in decimal and in range, else the first part at fault is reported; what a tag can say is
read back from its text. The tags of a record stand or fall together, in the order of declaration,
and their fields come out in the order of the wire. -/
namespace TagWire.Descriptor

def partsOf (tag : String) : List (List Char) := (tag.toList.splitOn ',').map Text.trim

/-- What a part means as an integer of the kind: a number in decimal, or zero if it is empty. -/
inductive Means (k : IntKind) : List Char → Int → Prop
  | nothing : Means k [] 0
  | number {part : List Char} {n : Int} (h : Text.SignedNumeral part n) (fits : k.Fits n) :
    Means k part n

/-- The parts say this of the field with this index. A part left out is as good as an empty one. -/
structure SaidBy (d : Descriptor) (parts : List (List Char)) (index : Nat) : Prop where
  length_le : parts.length ≤ 3
  number : Means .i32 (parts.getD 1 []) d.number
  minVersion : Means .i64 (parts.getD 2 []) d.minVersion
  ignored_iff : d.ignored = true ↔ parts.getD 0 [] = ['-']
  codec_iff : ∀ name, d.codec = some name ↔
    name.toList = parts.getD 0 [] ∧ name ≠ "" ∧ name ≠ "-"
  index_eq : d.index = index

inductive Offends (parts : List (List Char)) : Nat → TagFault → Prop
  | number (h : ∀ n, ¬ Means .i32 (parts.getD 1 []) n) : Offends parts 1 .number
  | version (h : ∀ n, ¬ Means .i64 (parts.getD 2 []) n) : Offends parts 2 .version
  | parts {place : Nat} (h : 3 ≤ place) (hp : place < parts.length) : Offends parts place .parts

/-- The fault of the leftmost part that has one. -/
def FirstFault (parts : List (List Char)) (fault : TagFault) : Prop :=
  ∃ place, Offends parts place fault ∧ ∀ earlier < place, ∀ f, ¬ Offends parts earlier f

/-! ### Reading the parts -/

section Parts

variable {k : IntKind} {fault fault' : TagFault} {part : List Char} {n m : Int}

theorem Means.fits (h : Means k part n) : k.Fits n := by
  cases h with
  | nothing => exact k.fits_zero
  | number _ fits => exact fits

theorem integerPart_of_means (h : Means k part n) : integerPart k fault part = .ok n := by
  unfold integerPart
  cases h with
  | nothing => rfl
  | number h fits =>
    rw [if_neg (by simp [h.ne_nil]), Text.integer?_eq_some_iff.2 h]
    exact if_pos fits

theorem integerPart_of_not_means (h : ∀ n, ¬ Means k part n) :
    integerPart k fault part = .error fault := by
  unfold integerPart
  split
  · next hp =>
    obtain rfl := List.isEmpty_iff.1 hp
    exact absurd .nothing (h 0)
  · split
    · next m hm => exact if_neg fun fits => h m (.number (Text.integer?_eq_some_iff.1 hm) fits)
    · rfl

theorem Means.unique (hn : Means k part n) (hm : Means k part m) : n = m := by
  have h : integerPart k .number part = .ok m := integerPart_of_means hm
  rw [integerPart_of_means hn] at h
  exact Except.ok.inj h

variable {parts : List (List Char)} {index : Nat} {d d' : Descriptor}

theorem SaidBy.unique (h : d.SaidBy parts index) (h' : d'.SaidBy parts index) : d = d' := by
  obtain ⟨number, ignored, minVersion, codec, i⟩ := d
  obtain ⟨number', ignored', minVersion', codec', i'⟩ := d'
  obtain rfl : number = number' := h.number.unique h'.number
  obtain rfl : minVersion = minVersion' := h.minVersion.unique h'.minVersion
  obtain rfl : ignored = ignored' := Bool.eq_iff_iff.2 (h.ignored_iff.trans h'.ignored_iff.symm)
  obtain rfl : codec = codec' := by
    ext name
    exact (h.codec_iff name).trans (h'.codec_iff name).symm
  obtain rfl : i = index := h.index_eq
  obtain rfl : i' = i := h'.index_eq
  rfl

theorem SaidBy.not_offends (h : d.SaidBy parts index) (place : Nat) (fault : TagFault) :
    ¬ Offends parts place fault := by
  rintro (hoff | hoff | ⟨hle, hlt⟩)
  · exact hoff d.number h.number
  · exact hoff d.minVersion h.minVersion
  · have := h.length_le
    omega

theorem Offends.unique {place : Nat} (h : Offends parts place fault)
    (h' : Offends parts place fault') : fault = fault' := by
  cases h with
  | number =>
    cases h' with
    | number => rfl
    | parts hle => omega
  | version =>
    cases h' with
    | version => rfl
    | parts hle => omega
  | parts hle =>
    cases h' with
    | number => omega
    | version => omega
    | parts => rfl

theorem FirstFault.unique (h : FirstFault parts fault) (h' : FirstFault parts fault') :
    fault = fault' := by
  obtain ⟨place, hoff, hbefore⟩ := h
  obtain ⟨place', hoff', hbefore'⟩ := h'
  rcases Nat.lt_trichotomy place place' with hlt | rfl | hlt
  · exact absurd hoff (hbefore' place hlt fault)
  · exact hoff.unique hoff'
  · exact absurd hoff' (hbefore place' hlt fault')

theorem exists_ofParts (index : Nat) (hlen : parts.length ≤ 3)
    (hn : Means .i32 (parts.getD 1 []) n) (hm : Means .i64 (parts.getD 2 []) m) :
    ∃ d : Descriptor, d.SaidBy parts index ∧ ofParts index parts = .ok d := by
  let name := String.ofList (parts.getD 0 [])
  refine ⟨⟨n, name = "-", m, if name = "-" ∨ name = "" then none else some name, index⟩,
    ⟨hlen, hn, hm, ?_, fun text => ?_, rfl⟩, ?_⟩
  · rw [decide_eq_true_iff, String.ofList_eq]
    rfl
  · dsimp only
    rw [eq_comm (a := text.toList), ← String.ofList_eq]
    split
    · next h =>
      constructor
      · intro h'
        cases h'
      · rintro ⟨rfl, hne, hne'⟩
        exact absurd h (not_or.2 ⟨hne', hne⟩)
    · next h =>
      rw [Option.some_inj]
      constructor
      · rintro rfl
        exact ⟨rfl, (not_or.1 h).2, (not_or.1 h).1⟩
      · rintro ⟨h', -, -⟩
        exact h'
  · unfold ofParts
    rw [integerPart_of_means hn, integerPart_of_means hm]
    exact if_neg (Nat.not_lt.2 hlen)

theorem ofParts_cases (index : Nat) (parts : List (List Char)) :
    (∃ d : Descriptor, d.SaidBy parts index ∧ ofParts index parts = .ok d) ∨
      ∃ fault, FirstFault parts fault ∧ ofParts index parts = .error fault := by
  -- From left to right: where a part is found at fault, those before it are known to be sound.
  by_cases hn : ∃ n, Means .i32 (parts.getD 1 []) n
  · obtain ⟨n, hn⟩ := hn
    by_cases hm : ∃ m, Means .i64 (parts.getD 2 []) m
    · obtain ⟨m, hm⟩ := hm
      by_cases hlen : parts.length ≤ 3
      · exact .inl (exists_ofParts index hlen hn hm)
      · have hlong := Nat.not_le.1 hlen
        refine .inr ⟨.parts, ⟨3, .parts (Nat.le_refl 3) hlong, ?_⟩, ?_⟩
        · rintro place hlt f (hoff | hoff | ⟨hle, _⟩)
          · exact hoff n hn
          · exact hoff m hm
          · omega
        · unfold ofParts
          rw [integerPart_of_means hn, integerPart_of_means hm]
          exact if_pos hlong
    · have hm := not_exists.1 hm
      refine .inr ⟨.version, ⟨2, .version hm, ?_⟩, ?_⟩
      · rintro place hlt f (hoff | hoff | ⟨hle, _⟩)
        · exact hoff n hn
        · omega
        · omega
      · unfold ofParts
        rw [integerPart_of_means hn, integerPart_of_not_means hm]
        rfl
  · have hn := not_exists.1 hn
    refine .inr ⟨.number, ⟨1, .number hn, ?_⟩, ?_⟩
    · rintro place hlt f (hoff | hoff | ⟨hle, _⟩) <;> omega
    · unfold ofParts
      rw [integerPart_of_not_means hn]
      rfl

theorem ofParts_ok_iff : ofParts index parts = .ok d ↔ d.SaidBy parts index := by
  rcases ofParts_cases index parts with ⟨d', hsaid, h⟩ | ⟨fault, ⟨place, hoff, _⟩, h⟩
  · rw [h, Except.ok.injEq]
    constructor
    · rintro rfl
      exact hsaid
    · exact hsaid.unique
  · rw [h]
    constructor
    · intro h'
      cases h'
    · intro hsaid
      exact absurd hoff (hsaid.not_offends place fault)

theorem ofParts_error_iff : ofParts index parts = .error fault ↔ FirstFault parts fault := by
  rcases ofParts_cases index parts with ⟨d, hsaid, h⟩ | ⟨fault', hfirst, h⟩
  · rw [h]
    constructor
    · intro h'
      cases h'
    · rintro ⟨place, hoff, _⟩
      exact absurd hoff (hsaid.not_offends place fault)
  · rw [h, Except.error.injEq]
    constructor
    · rintro rfl
      exact hfirst
    · exact hfirst.unique

end Parts

/-! ### Reading a tag -/

section Tag

variable {record tag : String} {index : Nat} {d : Descriptor} {e : Error}

theorem ofTag_eq (record : String) (index : Nat) (tag : String) :
    ofTag record index tag =
      (ofParts index (partsOf tag)).mapError (.invalidTag record index tag) := by
  rw [ofTag, Text.partsAt_eq_splitOn]
  rfl

theorem ofTag_ok_iff : ofTag record index tag = .ok d ↔ d.SaidBy (partsOf tag) index := by
  rw [ofTag_eq, ← ofParts_ok_iff]
  cases ofParts index (partsOf tag) with
  | error fault => simp [Except.mapError]
  | ok d' => simp [Except.mapError]

theorem ofTag_error_iff : ofTag record index tag = .error e ↔
    ∃ fault, FirstFault (partsOf tag) fault ∧ e = .invalidTag record index tag fault := by
  have hfault (fault : TagFault) :
      ofParts index (partsOf tag) = .error fault ↔ FirstFault (partsOf tag) fault :=
    ofParts_error_iff
  simp only [ofTag_eq, ← hfault]
  cases ofParts index (partsOf tag) with
  | error fault => simp [Except.mapError, eq_comm]
  | ok d => simp [Except.mapError]

example : ofTag "Info" 2 "-,one,2,3" = .error (.invalidTag "Info" 2 "-,one,2,3" .number) := rfl

theorem exists_ofTag_iff : (∃ d, ofTag record index tag = .ok d) ↔
    (partsOf tag).length ≤ 3 ∧ (∃ n, Means .i32 ((partsOf tag).getD 1 []) n) ∧
      ∃ n, Means .i64 ((partsOf tag).getD 2 []) n := by
  constructor
  · rintro ⟨d, h⟩
    have hsaid := ofTag_ok_iff.1 h
    exact ⟨hsaid.length_le, ⟨_, hsaid.number⟩, ⟨_, hsaid.minVersion⟩⟩
  · rintro ⟨hlen, ⟨n, hn⟩, ⟨m, hm⟩⟩
    obtain ⟨d, hsaid, -⟩ := exists_ofParts index hlen hn hm
    exact ⟨d, ofTag_ok_iff.2 hsaid⟩

end Tag

/-! ### What a tag can say -/

section Printing

structure IsPart (cs : List Char) : Prop where
  no_comma : ',' ∉ cs
  tight : Text.Tight cs

/-- A tag can say it: the numbers are in range, and the field is ignored, or generic, or has a codec
whose name can stand in the first part and means nothing else there. -/
structure Sayable (d : Descriptor) : Prop where
  number : IntKind.i32.Fits d.number
  minVersion : IntKind.i64.Fits d.minVersion
  codec : ∀ name, d.codec = some name →
    d.ignored = false ∧ IsPart name.toList ∧ name ≠ "" ∧ name ≠ "-"

def codecPart (d : Descriptor) : List Char :=
  if d.ignored then ['-'] else (d.codec.getD "").toList

def toTag (d : Descriptor) (p q r : Text.Padding) : String :=
  String.ofList ([','].intercalate [p.around d.codecPart, q.around (toString d.number).toList,
    r.around (toString d.minVersion).toList])

variable {d : Descriptor} {record tag : String} {index : Nat}

theorem partsOf_ne_nil (tag : String) : partsOf tag ≠ [] := by simp [partsOf]

theorem isPart_of_mem_partsOf {part : List Char} (h : part ∈ partsOf tag) : IsPart part := by
  obtain ⟨cs, hcs, rfl⟩ := List.mem_map.1 h
  exact ⟨fun hmem => Text.not_mem_of_mem_splitOn hcs (Text.mem_of_mem_trim hmem),
    Text.tight_trim cs⟩

theorem partsOf_padded (padded : List (Text.Padding × List Char)) (hne : padded ≠ [])
    (h : ∀ x ∈ padded, IsPart x.2) :
    partsOf (String.ofList ([','].intercalate (padded.map fun x => x.1.around x.2))) =
      padded.map (·.2) := by
  have hcomma : ∀ cs ∈ padded.map fun x => x.1.around x.2, ',' ∉ cs := by
    intro cs hcs hmem
    obtain ⟨x, hx, rfl⟩ := List.mem_map.1 hcs
    rcases Text.Padding.isBlank_or_mem hmem with hblank | hmem
    · exact absurd hblank (by decide)
    · exact (h x hx).no_comma hmem
  rw [partsOf, String.toList_ofList, List.splitOn_intercalate _ hcomma (by simpa), List.map_map]
  apply List.map_congr_left
  intro x hx
  exact Text.trim_eq_iff.2 ⟨(h x hx).tight, x.1, rfl⟩

theorem isPart_toString (z : Int) : IsPart (toString z).toList := by
  have hmem {c : Char} (hc : c ∈ (toString z).toList) :=
    (Text.signedNumeral_toString z).mem hc
  constructor
  · intro hcomma
    rcases hmem hcomma with h | h | h <;> revert h <;> decide
  · apply Text.tight_of_any
    rw [List.any_eq_false]
    intro c hc
    rcases hmem hc with rfl | rfl | h
    · decide
    · decide
    · simp [Text.isBlank_of_isDigit h]

theorem Sayable.isPart_codecPart (h : d.Sayable) : IsPart d.codecPart := by
  unfold codecPart
  split
  · exact ⟨by decide, Text.tight_of_any (by decide)⟩
  · cases hc : d.codec with
    | none => exact ⟨by decide, Text.tight_of_any (by decide)⟩
    | some name => exact (h.codec name hc).2.1

theorem Sayable.partsOf_toTag (h : d.Sayable) (p q r : Text.Padding) : partsOf (d.toTag p q r) =
    [d.codecPart, (toString d.number).toList, (toString d.minVersion).toList] := by
  apply partsOf_padded [(p, _), (q, _), (r, _)] (List.cons_ne_nil _ _)
  simp only [List.mem_cons, List.not_mem_nil, or_false, forall_eq_or_imp, forall_eq]
  exact ⟨h.isPart_codecPart, isPart_toString _, isPart_toString _⟩

theorem Sayable.ignored_iff (h : d.Sayable) : d.ignored = true ↔ d.codecPart = ['-'] := by
  unfold codecPart
  constructor
  · intro hi
    exact if_pos hi
  · intro hp
    by_contra hi
    rw [if_neg hi] at hp
    cases hc : d.codec with
    | none => simp [hc] at hp
    | some name =>
      rw [hc, Option.getD_some] at hp
      exact (h.codec name hc).2.2.2 (String.toList_inj.1 hp)

theorem Sayable.codec_iff (h : d.Sayable) (name : String) :
    d.codec = some name ↔ name.toList = d.codecPart ∧ name ≠ "" ∧ name ≠ "-" := by
  unfold codecPart
  constructor
  · intro hc
    obtain ⟨hi, -, hne⟩ := h.codec name hc
    simp [hi, hc, hne]
  · rintro ⟨hname, hne, hne'⟩
    split at hname
    · exact absurd (String.toList_inj.1 hname) hne'
    · cases hc : d.codec with
      | none =>
        rw [hc] at hname
        exact absurd (String.toList_inj.1 hname) hne
      | some text =>
        rw [hc] at hname
        exact congrArg some (String.toList_inj.1 hname).symm

theorem Sayable.ofTag_toTag (h : d.Sayable) (record : String) (p q r : Text.Padding) :
    ofTag record d.index (d.toTag p q r) = .ok d := by
  rw [ofTag_ok_iff, h.partsOf_toTag]
  exact ⟨Nat.le_refl 3, .number (Text.signedNumeral_toString _) h.number,
    .number (Text.signedNumeral_toString _) h.minVersion, h.ignored_iff, h.codec_iff, rfl⟩

theorem sayable_of_ofTag (h : ofTag record index tag = .ok d) : d.Sayable := by
  have hsaid := ofTag_ok_iff.1 h
  refine ⟨hsaid.number.fits, hsaid.minVersion.fits, fun name hname => ?_⟩
  obtain ⟨hfirst, hne, hne'⟩ := (hsaid.codec_iff name).1 hname
  have hmem : name.toList ∈ partsOf tag := by
    obtain ⟨first, rest, hparts⟩ := List.exists_cons_of_ne_nil (partsOf_ne_nil tag)
    rw [hfirst, hparts]
    exact List.mem_cons_self
  refine ⟨?_, isPart_of_mem_partsOf hmem, hne, hne'⟩
  rw [← Bool.not_eq_true, hsaid.ignored_iff, ← hfirst]
  exact fun h => hne' (String.toList_inj.1 h)

theorem sayable_iff (record : String) (d : Descriptor) :
    d.Sayable ↔ ∃ tag, ofTag record d.index tag = .ok d := by
  constructor
  · intro h
    let bare : Text.Padding := ⟨[], [], nofun, nofun⟩
    exact ⟨_, h.ofTag_toTag record bare bare bare⟩
  · rintro ⟨tag, h⟩
    exact sayable_of_ofTag h

end Printing

/-! ### All tags of a record -/

section Tags

/-- The error of the first tag that has one. -/
def FirstError (record : String) (tags : List String) (e : Error) : Prop :=
  ∃ index tag, tags[index]? = some tag ∧ ofTag record index tag = .error e ∧
    ∀ i < index, ∀ t, tags[i]? = some t → ∃ d, ofTag record i t = .ok d

/-- What the tags say, of every field once, in the order of the wire. -/
structure Arranged (record : String) (tags : List String) (ds : List Descriptor) : Prop where
  once : (ds.map index).Perm (List.range tags.length)
  said : ∀ d ∈ ds, ∃ tag, tags[d.index]? = some tag ∧ ofTag record d.index tag = .ok d
  sorted : ds.Pairwise Before

variable {record : String} {tags : List String} {ds ds' : List Descriptor} {e : Error}

theorem ofTags_error_iff : ofTags record tags = .error e ↔ FirstError record tags e := by
  have hentry {i j : Nat} {tag : String} :
      tags.zipIdx[i]? = some (tag, j) ↔ tags[i]? = some tag ∧ i = j := by
    simp [List.getElem?_zipIdx]
  rw [ofTags, map_error_iff]
  constructor
  · intro h
    obtain ⟨i, ⟨tag, index⟩, hi, he, hbefore⟩ := first_error_of_mapM h
    obtain ⟨htag, rfl⟩ := hentry.1 hi
    exact ⟨i, tag, htag, he, fun j hj t ht => hbefore j hj (t, j) (hentry.2 ⟨ht, rfl⟩)⟩
  · rintro ⟨index, tag, htag, he, hbefore⟩
    apply mapM_of_first_error (hentry.2 ⟨htag, rfl⟩) he
    rintro j hj ⟨t, _⟩ hj'
    obtain ⟨ht, rfl⟩ := hentry.1 hj'
    exact hbefore j hj t ht

theorem arranged_of_ofTags (h : ofTags record tags = .ok ds) : Arranged record tags ds where
  once := perm_index_of_ofTags h
  said d hd := (mem_of_ofTags h d).1 hd
  sorted := by
    obtain ⟨es, rfl, hes⟩ := ofTags_ok h
    have hdeclared : (es.map index).Pairwise (· < ·) := by
      rw [map_index_eq_range hes]
      exact List.pairwise_lt_range
    exact pairwise_before_inWireOrder (List.pairwise_map.1 hdeclared)

theorem Arranged.exists_mem (h : Arranged record tags ds) {i : Nat} {tag : String}
    (ht : tags[i]? = some tag) : ∃ d ∈ ds, ofTag record i tag = .ok d := by
  have hi : i ∈ ds.map index := by
    rw [h.once.mem_iff, List.mem_range]
    exact (List.getElem?_eq_some_iff.1 ht).1
  obtain ⟨d, hd, rfl⟩ := List.mem_map.1 hi
  obtain ⟨tag', ht', hsaid⟩ := h.said d hd
  obtain rfl := Option.some.inj (ht.symm.trans ht')
  exact ⟨d, hd, hsaid⟩

theorem Arranged.subset (h : Arranged record tags ds) (h' : Arranged record tags ds') :
    ds ⊆ ds' := by
  intro d hd
  obtain ⟨tag, ht, hsaid⟩ := h.said d hd
  obtain ⟨d', hd', hsaid'⟩ := h'.exists_mem ht
  obtain rfl := Except.ok.inj (hsaid.symm.trans hsaid')
  exact hd'

theorem Arranged.nodup (h : Arranged record tags ds) : ds.Nodup := by
  refine h.sorted.imp fun hab e => ?_
  subst e
  unfold Before at hab
  omega

theorem Arranged.unique (h : Arranged record tags ds) (h' : Arranged record tags ds') :
    ds = ds' := by
  -- The tags decide which descriptors there are, and the order leaves no choice of their places.
  have hp : ds.Perm ds' := by
    rw [List.perm_ext_iff_of_nodup h.nodup h'.nodup]
    exact fun d => ⟨fun hd => h.subset h' hd, fun hd => h'.subset h hd⟩
  refine List.Perm.eq_of_pairwise (fun a b _ _ hab hba => ?_) h.sorted h'.sorted hp
  unfold Before at hab hba
  omega

theorem ofTags_ok_iff : ofTags record tags = .ok ds ↔ Arranged record tags ds := by
  constructor
  · exact arranged_of_ofTags
  · intro h
    cases hds : ofTags record tags with
    | ok ds' => rw [h.unique (arranged_of_ofTags hds)]
    | error e =>
      obtain ⟨index, tag, ht, he, -⟩ := ofTags_error_iff.1 hds
      obtain ⟨d, -, hsaid⟩ := h.exists_mem ht
      cases he.symm.trans hsaid

example : (ofTags "Info" [",3", ",1", "string,2", ",1,4"]).map (·.map index) = .ok [1, 3, 2, 0] :=
  rfl

end Tags

/-- A tag is read exactly if it has three parts at most and the second and third are empty or
integers in range, as what these parts say; else the leftmost part at fault is reported. Descriptors
that a tag can say are read back from it, whatever blanks it has. The tags of a record fail as the
first bad one does, or give every field once, in the order of the wire. -/
theorem tag_grammar (record : String) :
    (∀ index tag,
      ((∃ d, ofTag record index tag = .ok d) ↔ (partsOf tag).length ≤ 3 ∧
        (∃ n, Means .i32 ((partsOf tag).getD 1 []) n) ∧
        ∃ n, Means .i64 ((partsOf tag).getD 2 []) n) ∧
      (∀ d, ofTag record index tag = .ok d ↔ d.SaidBy (partsOf tag) index) ∧
      ∀ e, ofTag record index tag = .error e ↔
        ∃ fault, FirstFault (partsOf tag) fault ∧ e = .invalidTag record index tag fault) ∧
    (∀ d : Descriptor, (d.Sayable ↔ ∃ tag, ofTag record d.index tag = .ok d) ∧
      (d.Sayable → ∀ p q r, ofTag record d.index (d.toTag p q r) = .ok d)) ∧
    ∀ tags, (∀ e, ofTags record tags = .error e ↔ FirstError record tags e) ∧
      ∀ ds, ofTags record tags = .ok ds ↔ Arranged record tags ds :=
  ⟨fun _ _ => ⟨exists_ofTag_iff, fun _ => ofTag_ok_iff, fun _ => ofTag_error_iff⟩,
    fun d => ⟨sayable_iff record d, fun h => h.ofTag_toTag record⟩,
    fun _ => ⟨fun _ => ofTags_error_iff, fun _ => ofTags_ok_iff⟩⟩

def versionedUuid : Descriptor := ⟨-7, false, 10, some "uuid", 3⟩

def tabbed : Text.Padding :=
  ⟨['\t'], [' ', '\n'], List.all_eq_true.1 (by decide), List.all_eq_true.1 (by decide)⟩

theorem tag_grammar_versioned : versionedUuid.Sayable ∧
    ofTag "Info" 3 "\tuuid \n,\t-7 \n,\t10 \n" = .ok versionedUuid := by
  have hname : IsPart "uuid".toList := ⟨by decide, Text.tight_of_any (by decide)⟩
  have hd : versionedUuid.Sayable := by
    refine ⟨by decide, by decide, fun name h => ?_⟩
    cases h
    exact ⟨rfl, hname, by decide, by decide⟩
  exact ⟨hd, ((tag_grammar "Info").2.1 versionedUuid).2 hd tabbed tabbed tabbed⟩

end TagWire.Descriptor
