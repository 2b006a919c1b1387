import TagWire.Toml.Document

/-! The integers of a document fit signed 64-bit integers, however deep they stand. -/
namespace TagWire.Toml

inductive Value.Fits : Value → Prop
  | string (s : String) : Fits (.string s)
  | integer {n : Int} (h : IntKind.i64.Fits n) : Fits (.integer n)
  | boolean (b : Bool) : Fits (.boolean b)
  | other : Fits .other
  | array {items : List Value} (h : ∀ v ∈ items, Fits v) : Fits (.array items)
  | table {origin : Origin} {entries : List (String × Value)} (h : ∀ e ∈ entries, Fits e.2) :
    Fits (.table origin entries)
  | tables {elements : List (List (String × Value))}
    (h : ∀ entries ∈ elements, ∀ e ∈ entries, Fits e.2) : Fits (.tables elements)

def Entries.Fits (entries : Entries) : Prop := ∀ e ∈ entries, e.2.Fits

namespace Scan

variable {α β : Type} {P : α → Prop} {Q : β → Prop} {x y : Scan α} {f : α → Scan β}

/-- What the scanner gives has the property, in front of any text. -/
def Gives (x : Scan α) (P : α → Prop) : Prop := ∀ cs rest a, x cs = some (a, rest) → P a

theorem Gives.any (x : Scan α) : Gives x fun _ => True := fun _ _ _ _ => trivial

theorem Gives.pure {a : α} (h : P a) : Gives (pure a) P := by
  intro cs rest a hx
  cases hx
  exact h

theorem Gives.failure : Gives (failure : Scan α) P := nofun

theorem Gives.bind (hx : Gives x P) (hf : ∀ a, P a → Gives (f a) Q) : Gives (x >>= f) Q := by
  intro cs rest b h
  obtain ⟨⟨a, ds⟩, hx', hf'⟩ := Option.bind_eq_some_iff.1 h
  exact hf a (hx _ _ _ hx') _ _ _ hf'

theorem Gives.next (hf : ∀ a, Gives (f a) Q) : Gives (x >>= f) Q :=
  (Gives.any x).bind fun a _ => hf a

theorem Gives.map (g : α → β) (hx : Gives x P) (hg : ∀ a, P a → Q (g a)) :
    Gives (g <$> x) Q := by
  intro cs rest b h
  obtain ⟨⟨a, ds⟩, hx', hb⟩ := Option.bind_eq_some_iff.1 h
  cases hb
  exact hg a (hx _ _ _ hx')

theorem Gives.orElse (hx : Gives x P) (hy : Gives y P) : Gives (x <|> y) P := by
  intro cs rest a h
  change (x cs <|> y cs) = _ at h
  cases hxs : x cs with
  | some r =>
    rw [hxs] at h
    cases h
    exact hx _ _ _ hxs
  | none =>
    rw [hxs] at h
    exact hy _ _ _ h

theorem Gives.upTo (hx : Gives x P) (limit : Nat) :
    Gives (upTo x limit) fun as => ∀ a ∈ as, P a := by
  induction limit with
  | zero => exact .pure (by simp)
  | succ limit ih =>
    refine .orElse (hx.bind fun a ha => ih.bind fun as has => .pure ?_) (.pure (by simp))
    simpa using ⟨ha, has⟩

theorem Gives.many (hx : Gives x P) : Gives (many x) fun as => ∀ a ∈ as, P a :=
  fun cs => hx.upTo cs.length cs

theorem Gives.separated {separator : Scan Unit} (hx : Gives x P) :
    Gives (separated separator x) fun as => ∀ a ∈ as, P a := by
  refine hx.bind fun a ha => (Gives.many (.next fun _ => hx)).bind fun as has => .pure ?_
  simpa using ⟨ha, has⟩

end Scan

/-! ### Tables -/

namespace Entries

variable {entries entries' : Entries} {key : String} {v : Value}

theorem fits_nil : Fits [] := fun _ he => absurd he List.not_mem_nil

theorem Fits.put (h : entries.Fits) (key : String) (hv : v.Fits) : Fits (entries.put key v) := by
  induction entries with
  | nil =>
    intro e he
    rw [List.mem_singleton.1 he]
    exact hv
  | cons e entries ih =>
    obtain ⟨k, w⟩ := e
    have hw : w.Fits := h _ List.mem_cons_self
    have htail : Fits entries := fun e he => h e (List.mem_cons_of_mem _ he)
    unfold Entries.put
    split
    · exact List.forall_mem_cons.2 ⟨hv, htail⟩
    · exact List.forall_mem_cons.2 ⟨hw, ih htail⟩

theorem Fits.lookup (h : entries.Fits) (hv : entries.lookup key = some v) : v.Fits := by
  obtain ⟨before, after, hsplit, -⟩ := List.lookup_eq_some_iff.1 hv
  exact h (key, v) (by simp [hsplit])

theorem Fits.add (h : entries.Fits) (hv : v.Fits) (hadd : entries.add key v = some entries') :
    entries'.Fits := by
  unfold Entries.add at hadd
  split at hadd
  · cases hadd
    exact h.put key hv
  · cases hadd

theorem Fits.descend {viaDots : Bool} {change : Origin → Entries → Option Entries}
    (hchange : ∀ {origin before after}, Fits before → change origin before = some after →
      after.Fits)
    {path : List String} {origin : Origin} (h : entries.Fits)
    (hresult : descend viaDots change path origin entries = some entries') : entries'.Fits := by
  induction path generalizing origin entries entries' with
  | nil => exact hchange h hresult
  | cons key path ih =>
    rw [Entries.descend] at hresult
    split at hresult
    · obtain ⟨inner, hinner, hput⟩ := Option.bind_eq_some_iff.1 hresult
      cases hput
      exact h.put key (.table (ih fits_nil hinner))
    · next origin inner hlookup =>
      split at hresult
      · cases hresult
      · obtain ⟨after, hafter, hput⟩ := Option.bind_eq_some_iff.1 hresult
        cases hput
        have hinner : Fits inner := by
          cases h.lookup hlookup with
          | table hinner => exact hinner
        exact h.put key (.table (ih hinner hafter))
    · next elements hlookup =>
      have helements : ∀ entries ∈ elements, Fits entries := by
        cases h.lookup hlookup with
        | tables helements => exact helements
      split at hresult
      · next last before hreverse =>
        obtain ⟨after, hafter, hput⟩ := Option.bind_eq_some_iff.1 hresult
        cases hput
        have helements : ∀ entries ∈ before.reverse ++ [last], Fits entries := by
          rwa [← List.reverse_cons, ← hreverse, List.reverse_reverse]
        rw [List.forall_mem_append, List.forall_mem_singleton] at helements
        refine h.put key (.tables ?_)
        exact List.forall_mem_append.2 ⟨helements.1,
          List.forall_mem_singleton.2 (ih helements.2 hafter)⟩
      · cases hresult
    · cases hresult

theorem Fits.addDotted {path : List String} (h : entries.Fits) (hv : v.Fits)
    (hresult : addDotted path key v entries = some entries') : entries'.Fits := by
  refine Fits.descend (fun {origin before after} hbefore hchange => ?_) h hresult
  split at hchange
  · cases hchange
  · exact hbefore.add hv hchange

theorem Fits.openTable (h : entries.Fits) (hresult : openTable key entries = some entries') :
    entries'.Fits := by
  unfold Entries.openTable at hresult
  split at hresult
  · cases hresult
    exact h.put key (.table fits_nil)
  · next inner hlookup =>
    cases hresult
    cases h.lookup hlookup with
    | table hinner => exact h.put key (.table hinner)
  · cases hresult

theorem Fits.openElement (h : entries.Fits) (hresult : openElement key entries = some entries') :
    entries'.Fits := by
  unfold Entries.openElement at hresult
  split at hresult
  · cases hresult
    exact h.put key (.tables (List.forall_mem_singleton.2 fits_nil))
  · next elements hlookup =>
    cases hresult
    cases h.lookup hlookup with
    | tables helements =>
      refine h.put key (.tables ?_)
      exact List.forall_mem_append.2 ⟨helements, List.forall_mem_singleton.2 fits_nil⟩
  · cases hresult

end Entries

/-! ### Values -/

open Scan

theorem gives_integer : Gives integer IntKind.i64.Fits := by
  refine .next fun n => ?_
  split
  · next h => exact .pure h
  · exact .failure

theorem gives_array {item : Scan Value} (h : Gives item Value.Fits) :
    Gives (array item) Value.Fits := by
  have hspaced : Gives (do spacing; let v ← item; spacing; return v) Value.Fits :=
    .next fun _ => h.bind fun v hv => .next fun _ => .pure hv
  have hitems : Gives (separated (exactly ",") _) fun items => ∀ v ∈ items, Value.Fits v :=
    hspaced.separated
  refine .next fun _ => .bind (.orElse (hitems.bind fun items h => .next fun _ => .pure h)
    (.pure (by simp))) fun items h => ?_
  exact .next fun _ => .next fun _ => .pure (.array h)

theorem Entries.Fits.foldlM_addDotted {entries after : Entries} {pairs : List (Key × Value)}
    (h : entries.Fits) (hpairs : ∀ p ∈ pairs, p.2.Fits)
    (hresult : pairs.foldlM (fun entries p => Entries.addDotted p.1.path p.1.last p.2 entries)
      entries = some after) : after.Fits := by
  induction pairs generalizing entries with
  | nil =>
    cases hresult
    exact h
  | cons p pairs ih =>
    rw [List.forall_mem_cons] at hpairs
    obtain ⟨middle, hmiddle, hafter⟩ := Option.bind_eq_some_iff.1 hresult
    exact ih (h.addDotted hpairs.1 hmiddle) hpairs.2 hafter

theorem gives_inlineTable {item : Scan Value} (h : Gives item Value.Fits) :
    Gives (inlineTable item) Value.Fits := by
  have hentry : Gives (do
      let k ← key
      exactly "="
      gap
      let v ← item
      gap
      return (k, v)) fun p => p.2.Fits :=
    .next fun _ => .next fun _ => .next fun _ => h.bind fun v hv => .next fun _ => .pure hv
  have hpairs : Gives (separated (exactly ",") _) fun (pairs : List (Key × Value)) =>
      ∀ p ∈ pairs, p.2.Fits :=
    hentry.separated
  refine .next fun _ => .bind (.orElse hpairs (.pure (by simp))) fun pairs h => ?_
  refine .next fun _ => .next fun _ => ?_
  split
  · next entries hentries => exact .pure (.table (Entries.fits_nil.foldlM_addDotted h hentries))
  · exact .failure

theorem gives_value (levels : Nat) : Gives (value levels) Value.Fits := by
  induction levels with
  | zero => exact .failure
  | succ levels ih =>
    have hnested : Gives (if levels = 0 then failure else
        array (value levels) <|> inlineTable (value levels)) Value.Fits := by
      split
      · exact .failure
      · exact .orElse (gives_array ih) (gives_inlineTable ih)
    refine .orElse (.map _ (.any _) fun s _ => .string s) ?_
    refine .orElse (.next fun _ => .pure (.boolean true)) ?_
    refine .orElse (.next fun _ => .pure (.boolean false)) ?_
    refine .orElse hnested ?_
    refine .orElse (.next fun _ => .pure .other) ?_
    refine .orElse (.next fun _ => .pure .other) ?_
    exact .map _ gives_integer fun n hn => .integer hn

/-! ### Documents -/

def Line.Fits : Line → Prop
  | .entry _ v => v.Fits
  | _ => True

theorem Line.gives_scan : Gives Line.scan Line.Fits := by
  have hentry : Gives (do
      let k ← key
      exactly "="
      gap
      let v ← value nestingBound
      lineRest
      return Line.entry k v) Line.Fits :=
    .next fun _ => .next fun _ => .next fun _ => (gives_value _).bind fun v hv =>
      .next fun _ => .pure hv
  refine .bind ?_ fun line h => .next fun _ => .pure h
  refine .orElse (.next fun _ => .pure trivial) ?_
  refine .orElse (.next fun _ => .next fun _ => .next fun _ => .pure trivial) ?_
  refine .orElse (.next fun _ => .next fun _ => .next fun _ => .next fun _ => .pure trivial) ?_
  refine .orElse (.next fun _ => .next fun _ => .next fun _ => .next fun _ => .pure trivial) ?_
  exact hentry

theorem Document.fits_extend {doc doc' : Document} {line : Line} (h : doc.root.Fits)
    (hline : line.Fits) (hresult : doc.extend line = some doc') : doc'.root.Fits := by
  cases line with
  | blank =>
    cases hresult
    exact h
  | header k =>
    obtain ⟨root, hroot, hdoc⟩ := Option.bind_eq_some_iff.1 hresult
    cases hdoc
    exact h.descend (fun hbefore hchange => hbefore.openTable hchange) hroot
  | element k =>
    obtain ⟨root, hroot, hdoc⟩ := Option.bind_eq_some_iff.1 hresult
    cases hdoc
    exact h.descend (fun hbefore hchange => hbefore.openElement hchange) hroot
  | entry k v =>
    obtain ⟨root, hroot, hdoc⟩ := Option.bind_eq_some_iff.1 hresult
    cases hdoc
    exact h.descend (fun hbefore hchange => hbefore.addDotted hline hchange) hroot

theorem Document.fits_foldlM {lines : List Line} {doc doc' : Document} (h : doc.root.Fits)
    (hlines : ∀ line ∈ lines, line.Fits) (hresult : lines.foldlM extend doc = some doc') :
    doc'.root.Fits := by
  induction lines generalizing doc with
  | nil =>
    cases hresult
    exact h
  | cons line lines ih =>
    rw [List.forall_mem_cons] at hlines
    obtain ⟨middle, hmiddle, hafter⟩ := Option.bind_eq_some_iff.1 hresult
    exact ih (fits_extend h hlines.1 hmiddle) hlines.2 hafter

theorem Document.fits_of_parse? {text : String} {entries : Entries}
    (h : parse? text = some entries) : entries.Fits := by
  obtain ⟨⟨lines, rest⟩, hscan, hresult⟩ := Option.bind_eq_some_iff.1 h
  obtain ⟨doc, hfold, hroot⟩ := Option.bind_eq_some_iff.1 hresult
  cases hroot
  have hlines : Gives Document.scan fun lines => ∀ line ∈ lines, line.Fits :=
    .next fun _ => .next fun _ => Line.gives_scan.many.bind fun lines h => .next fun _ => .pure h
  exact fits_foldlM Entries.fits_nil (hlines _ _ _ hscan) hfold

end TagWire.Toml
