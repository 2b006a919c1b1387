import TagWire.Proofs.Toml.Scan
import TagWire.Toml.Document

/-! Documents are read back line by line. What the lines of a table add, with keys that differ,
stands in it as written. -/
namespace TagWire.Toml

open Scan

variable {cs text rest : List Char} {c : Char} {name : String} {v : Value}

/-! ### Lines -/

/-- A key that needs no quotation marks. -/
structure Bare (name : String) : Prop where
  ne_nil : name.toList ≠ []
  chars : ∀ c ∈ name.toList, isBareChar c = true

instance (name : String) : Decidable (Bare name) :=
  decidable_of_iff (name.toList ≠ [] ∧ name.toList.all isBareChar = true)
    ⟨fun h => ⟨h.1, List.all_eq_true.1 h.2⟩, fun h => ⟨h.1, List.all_eq_true.2 h.2⟩⟩

theorem gap_append {blanks : List Char} (h : ∀ c ∈ blanks, isGap c = true)
    (hrest : ∀ c ∈ rest.head?, isGap c = false) : gap (blanks ++ rest) = some ((), rest) :=
  bind_of_some (span_append h hrest)

theorem gap_of_head? (hrest : ∀ c ∈ rest.head?, isGap c = false) : gap rest = some ((), rest) := by
  have hblanks : ∀ c ∈ ([] : List Char), isGap c = true := by simp
  exact gap_append hblanks hrest

theorem isGap_of_isBareChar (hc : isBareChar c = true) : isGap c = false := by
  unfold isGap
  rw [Bool.or_eq_false_iff]
  constructor
  all_goals
    apply decide_eq_false
    rintro rfl
    simp [isBareChar] at hc

theorem Bare.exists_cons (h : Bare name) :
    ∃ c more, name.toList = c :: more ∧ isBareChar c = true := by
  match hname : name.toList, h.ne_nil with
  | c :: more, _ => exact ⟨c, more, rfl, h.chars c (by simp [hname])⟩

theorem Bare.exactly (h : Bare name) {s : String} {first : Char} {more : List Char}
    (hs : s.toList = first :: more) (hfirst : isBareChar first = false) (rest : List Char) :
    exactly s (name.toList ++ rest) = none := by
  obtain ⟨c, more, hname, hc⟩ := h.exists_cons
  rw [hname]
  apply exactly_cons_of_ne hs
  rintro rfl
  rw [hc] at hfirst
  cases hfirst

theorem keyPart_bare (h : Bare name) (hrest : ∀ c ∈ rest.head?, isBareChar c = false) :
    keyPart (name.toList ++ rest) = some (name, rest) := by
  have hbasic : basic (name.toList ++ rest) = none := bind_of_none (h.exactly rfl rfl _)
  have hliteral : literal (name.toList ++ rest) = none := bind_of_none (h.exactly rfl rfl _)
  apply (orElse_of_none hbasic).trans
  apply (orElse_of_none hliteral).trans
  obtain ⟨c, more, hname, hc⟩ := h.exists_cons
  have hmore : span isBareChar (more ++ rest) = some (more, rest) :=
    span_append (fun c hc => h.chars c (by simp [hname, hc])) hrest
  have hofList : String.ofList (c :: more) = name := by rw [← hname, String.ofList_toList]
  rw [hname]
  apply (bind_of_some (satisfy_of_pos hc _)).trans
  exact (bind_of_some hmore).trans (congrArg (fun name => some (name, rest)) hofList)

theorem key_bare (h : Bare name) {blanks : List Char} (hblanks : ∀ c ∈ blanks, isGap c = true)
    (hbare : isBareChar c = false) (hgap : isGap c = false) (hdot : c ≠ '.') (rest : List Char) :
    key (name.toList ++ (blanks ++ c :: rest)) = some (⟨[], name⟩, c :: rest) := by
  have hstart : gap (name.toList ++ (blanks ++ c :: rest)) =
      some ((), name.toList ++ (blanks ++ c :: rest)) := by
    obtain ⟨first, more, hname, hfirst⟩ := h.exists_cons
    apply gap_of_head?
    simpa [hname] using isGap_of_isBareChar hfirst
  have hpart : keyPart (name.toList ++ (blanks ++ c :: rest)) =
      some (name, blanks ++ c :: rest) := by
    apply keyPart_bare h
    cases blanks with
    | nil => simpa using hbare
    | cons b blanks =>
      have hb := hblanks b List.mem_cons_self
      simp only [List.cons_append, List.head?_cons, Option.mem_some_iff, forall_eq']
      refine Bool.eq_false_iff.2 fun hbare => ?_
      rw [isGap_of_isBareChar hbare] at hb
      cases hb
  have hend : gap (blanks ++ c :: rest) = some ((), c :: rest) :=
    gap_append hblanks (by simpa using hgap)
  have hdots : exactly "." (c :: rest) = none := exactly_cons_of_ne rfl hdot rest
  have hone : (do gap; let part ← keyPart; gap; return part)
      (name.toList ++ (blanks ++ c :: rest)) = some (name, c :: rest) :=
    (bind_of_some hstart).trans ((bind_of_some hpart).trans (bind_of_some hend))
  exact (bind_of_some (separated_of_none hone hdots)).trans rfl

namespace Line

/-- What a line says, before the blanks that the next one starts with. -/
def content : Scan Line :=
  (do newline; return .blank)
  <|> (do
    exactly "#"
    let _ ← span isCommentChar
    newline <|> done
    return .blank)
  <|> (do
    exactly "[["
    let k ← key
    exactly "]]"
    lineRest
    return .element k)
  <|> (do
    exactly "["
    let k ← key
    exactly "]"
    lineRest
    return .header k)
  <|> (do
    let k ← key
    exactly "="
    gap
    let v ← value nestingBound
    lineRest
    return .entry k v)

theorem scan_of_content {line : Line} (h : content cs = some (line, rest))
    (hrest : ∀ c ∈ rest.head?, isGap c = false) : scan cs = some (line, rest) := by
  refine (bind_of_some (show content cs = some (line, rest) from h)).trans ?_
  exact (bind_of_some (gap_of_head? hrest)).trans rfl

theorem scan_nil : scan [] = none := rfl

theorem lineRest_newline (rest : List Char) : lineRest ('\n' :: rest) = some ((), rest) := by
  have hgap : gap ('\n' :: rest) = some ((), '\n' :: rest) := rfl
  have hcomment : optionally comment ('\n' :: rest) = some ((), '\n' :: rest) := rfl
  have hnewline : (newline <|> done) ('\n' :: rest) = some ((), rest) := rfl
  exact (bind_of_some hgap).trans ((bind_of_some hcomment).trans hnewline)

theorem content_blank (rest : List Char) : content ('\n' :: rest) = some (.blank, rest) := rfl

theorem content_header (h : Bare name) (rest : List Char) :
    content ('[' :: (name.toList ++ ']' :: '\n' :: rest)) = some (.header ⟨[], name⟩, rest) := by
  have hnewline : newline ('[' :: (name.toList ++ ']' :: '\n' :: rest)) = none := rfl
  have hcomment : exactly "#" ('[' :: (name.toList ++ ']' :: '\n' :: rest)) = none := rfl
  have hopen (cs : List Char) : exactly "[" ('[' :: cs) = some ((), cs) := rfl
  have hclose (cs : List Char) : exactly "]" (']' :: cs) = some ((), cs) := rfl
  have helement : exactly "[[" ('[' :: (name.toList ++ ']' :: '\n' :: rest)) = none := by
    have hone := h.exactly (s := "[") rfl rfl (']' :: '\n' :: rest)
    rw [exactly_eq_none_iff] at hone ⊢
    exact fun hprefix => hone (List.cons_prefix_cons.1 hprefix).2
  have hkey : key (name.toList ++ ([] ++ ']' :: '\n' :: rest)) =
      some (⟨[], name⟩, ']' :: '\n' :: rest) :=
    key_bare h (by simp) rfl rfl (by decide) _
  apply (orElse_of_none (bind_of_none hnewline)).trans
  apply (orElse_of_none (bind_of_none hcomment)).trans
  apply (orElse_of_none (bind_of_none helement)).trans
  apply orElse_of_some
  apply (bind_of_some (hopen _)).trans
  apply (bind_of_some hkey).trans
  apply (bind_of_some (hclose _)).trans
  exact (bind_of_some (lineRest_newline rest)).trans rfl

theorem content_entry (h : Bare name)
    (hvalue : value nestingBound (text ++ '\n' :: rest) = some (v, '\n' :: rest))
    (htext : ∀ c ∈ text.head?, isGap c = false) :
    content (name.toList ++ (" = ".toList ++ (text ++ '\n' :: rest))) =
      some (.entry ⟨[], name⟩ v, rest) := by
  have hfeed := h.exactly (s := "\n") rfl rfl (" = ".toList ++ (text ++ '\n' :: rest))
  have hreturn := h.exactly (s := "\r\n") rfl rfl (" = ".toList ++ (text ++ '\n' :: rest))
  have hkey : key (name.toList ++ ([' '] ++ '=' :: (" ".toList ++ (text ++ '\n' :: rest)))) =
      some (⟨[], name⟩, '=' :: (" ".toList ++ (text ++ '\n' :: rest))) :=
    key_bare h (by simp [isGap]) rfl rfl (by decide) _
  have hequals (cs : List Char) : exactly "=" ('=' :: cs) = some ((), cs) := rfl
  have hgap : gap (" ".toList ++ (text ++ '\n' :: rest)) = some ((), text ++ '\n' :: rest) := by
    apply gap_append (by simp [isGap])
    cases text with
    | nil => simp [isGap]
    | cons c text => simpa using htext
  apply (orElse_of_none (bind_of_none ((orElse_of_none hfeed).trans hreturn))).trans
  apply (orElse_of_none (bind_of_none (h.exactly rfl rfl _))).trans
  apply (orElse_of_none (bind_of_none (h.exactly rfl rfl _))).trans
  apply (orElse_of_none (bind_of_none (h.exactly rfl rfl _))).trans
  apply (bind_of_some hkey).trans
  apply (bind_of_some (hequals _)).trans
  apply (bind_of_some hgap).trans
  apply (bind_of_some hvalue).trans
  exact (bind_of_some (lineRest_newline rest)).trans rfl

end Line

/-! ### Texts -/

inductive Says : List Char → Line → Prop
  | blank : Says ['\n'] .blank
  | header {name : String} (h : Bare name) :
    Says ('[' :: (name.toList ++ [']', '\n'])) (.header ⟨[], name⟩)
  | entry {name : String} {text : List Char} {v : Value} (h : Bare name)
    (hvalue : ∀ rest, value nestingBound (text ++ '\n' :: rest) = some (v, '\n' :: rest))
    (htext : ∀ c ∈ text.head?, isGap c = false) :
    Says (name.toList ++ (" = ".toList ++ (text ++ ['\n']))) (.entry ⟨[], name⟩ v)

theorem Says.scan {line : Line} (h : Says cs line) (hrest : ∀ c ∈ rest.head?, isGap c = false) :
    Line.scan (cs ++ rest) = some (line, rest) := by
  refine Line.scan_of_content ?_ hrest
  cases h with
  | blank => exact Line.content_blank rest
  | header h => simpa using Line.content_header h rest
  | entry h hvalue htext => simpa using Line.content_entry h (hvalue rest) htext

theorem Says.exists_cons {line : Line} (h : Says cs line) :
    ∃ c more, cs = c :: more ∧ isGap c = false ∧ c ≠ '\ufeff' := by
  have hbare {name : String} (h : Bare name) (rest : List Char) :
      ∃ c more, name.toList ++ rest = c :: more ∧ isGap c = false ∧ c ≠ '\ufeff' := by
    obtain ⟨c, more, hname, hc⟩ := h.exists_cons
    refine ⟨c, more ++ rest, by rw [hname, List.cons_append], isGap_of_isBareChar hc, ?_⟩
    rintro rfl
    cases hc
  cases h with
  | blank => exact ⟨'\n', [], rfl, rfl, by decide⟩
  | header => exact ⟨'[', _, rfl, rfl, by decide⟩
  | entry h => exact hbare h _

inductive Lines : List Char → List Line → Prop
  | nil : Lines [] []
  | cons {cs text : List Char} {line : Line} {lines : List Line} (h : Says cs line)
    (tail : Lines text lines) : Lines (cs ++ text) (line :: lines)

theorem Lines.head? {lines : List Line} (h : Lines text lines) :
    ∀ c ∈ text.head?, isGap c = false ∧ c ≠ '\ufeff' := by
  cases h with
  | nil => simp
  | cons h =>
    obtain ⟨c, more, rfl, hc⟩ := h.exists_cons
    simpa using hc

theorem Lines.repeats {lines : List Line} (h : Lines text lines) :
    Repeats Line.scan [] text lines := by
  induction h with
  | nil => exact .stop Line.scan_nil
  | cons h tail ih =>
    obtain ⟨c, more, hcs, -⟩ := h.exists_cons
    exact ih.cons (h.scan fun c hc => (tail.head? c hc).1) (by simp [hcs])

theorem Document.scan_of_lines {lines : List Line} (h : Lines text lines) :
    Document.scan text = some (lines, []) := by
  have hmark : optionally (exactly "\ufeff") text = some ((), text) :=
    optionally_of_none (exactly_of_head? rfl fun hhead => (h.head? _ hhead).2 rfl)
  have hgap : gap text = some ((), text) := gap_of_head? fun c hc => (h.head? c hc).1
  rw [Document.scan, bind_of_some hmark, bind_of_some hgap,
    bind_of_some (many_of_repeats h.repeats)]
  rfl

/-! ### Tables -/

namespace Entries

theorem put_of_lookup {key : String} {entries : Entries} (h : entries.lookup key = none)
    (v : Value) : entries.put key v = entries ++ [(key, v)] := by
  induction entries with
  | nil => rfl
  | cons e entries ih =>
    obtain ⟨k, w⟩ := e
    rw [List.lookup_cons] at h
    split at h
    · cases h
    · next hk =>
      have hne : k ≠ key := by
        rintro rfl
        simp at hk
      rw [put, if_neg hne, ih h, List.cons_append]

theorem put_append {key : String} {entries : Entries} (h : entries.lookup key = none)
    (v w : Value) : put key w (entries ++ [(key, v)]) = entries ++ [(key, w)] := by
  induction entries with
  | nil => exact if_pos rfl
  | cons e entries ih =>
    obtain ⟨k, u⟩ := e
    rw [List.lookup_cons] at h
    split at h
    · cases h
    · next hk =>
      have hne : k ≠ key := by
        rintro rfl
        simp at hk
      rw [List.cons_append, put, if_neg hne, ih h, List.cons_append]

theorem lookup_append_self {key : String} {entries : Entries} (h : entries.lookup key = none)
    (v : Value) : (entries ++ [(key, v)]).lookup key = some v := by
  rw [List.lookup_append, h]
  simp

theorem lookup_eq_none {key : String} {entries : Entries} (h : key ∉ entries.map Prod.fst) :
    entries.lookup key = none := by
  rw [List.lookup_eq_none_iff]
  intro e he
  refine bne_iff_ne.2 ?_
  rintro rfl
  exact h (List.mem_map_of_mem he)

end Entries

namespace Document

def tableLines (name : String) (entries : Entries) : List Line :=
  .header ⟨[], name⟩ :: entries.map fun e => .entry ⟨[], e.1⟩ e.2

variable {root done entries : Entries} {key : String}

/-- Some tables, and one after them that is still being filled. -/
def within (root : Entries) (name : String) (done : Entries) : Document where
  root := root ++ [(name, .table .header done)]
  current := [name]

theorem extend_header (h : root.lookup name = none) (current : List String) :
    extend { root, current } (.header ⟨[], name⟩) = some (within root name []) := by
  have hopen : Entries.openTable name root = some (root ++ [(name, .table .header [])]) := by
    rw [Entries.openTable, h, Entries.put_of_lookup h]
  exact Option.bind_eq_some_iff.2 ⟨_, hopen, rfl⟩

theorem extend_entry (hname : root.lookup name = none) (hkey : done.lookup key = none)
    (v : Value) : extend (within root name done) (.entry ⟨[], key⟩ v) =
      some (within root name (done ++ [(key, v)])) := by
  have hadd : Entries.addDotted [] key v done = some (done ++ [(key, v)]) := by
    show Entries.add key v done = _
    rw [Entries.add, hkey, Entries.put_of_lookup hkey]
  have hput : Entries.descend false (fun _ => Entries.addDotted [] key v) [name] .header
      (root ++ [(name, .table .header done)]) =
        some (root ++ [(name, .table .header (done ++ [(key, v)]))]) := by
    rw [Entries.descend, Entries.lookup_append_self hname]
    refine Option.bind_eq_some_iff.2 ⟨_, hadd, ?_⟩
    exact congrArg some (Entries.put_append hname _ _)
  exact Option.bind_eq_some_iff.2 ⟨_, hput, rfl⟩

theorem foldlM_entries (hname : root.lookup name = none)
    (hkeys : (done.map Prod.fst ++ entries.map Prod.fst).Nodup) :
    (entries.map fun e => Line.entry ⟨[], e.1⟩ e.2).foldlM extend (within root name done) =
      some (within root name (done ++ entries)) := by
  induction entries generalizing done with
  | nil => simp
  | cons e entries ih =>
    have hkey : done.lookup e.1 = none := by
      refine Entries.lookup_eq_none fun hmem => ?_
      exact (List.nodup_append.1 hkeys).2.2 _ hmem _ List.mem_cons_self rfl
    rw [List.map_cons, List.foldlM_cons, extend_entry hname hkey]
    have hmore : ((done ++ [e]).map Prod.fst ++ entries.map Prod.fst).Nodup := by simpa using hkeys
    simpa using ih hmore

/-- A table is as its lines have it, after those that there were. -/
theorem foldlM_tableLines (hname : root.lookup name = none)
    (hkeys : (entries.map Prod.fst).Nodup) (current : List String) :
    (tableLines name entries).foldlM extend { root, current } =
      some (within root name entries) := by
  rw [tableLines, List.foldlM_cons, extend_header hname]
  exact foldlM_entries hname (by simpa using hkeys)

end Document

end TagWire.Toml
