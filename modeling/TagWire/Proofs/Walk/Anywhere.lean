import TagWire.Proofs.Codec.Anywhere
import TagWire.Proofs.Walk.Decoding
import TagWire.Proofs.Walk.Encoding

/-! Values at any place in a stream. What the engine writes and reads of them is the same in all
places, so long as this is so for the codecs and the self-describing types that it is given. -/
namespace TagWire

variable {S : Schema} {setting : Setting S} {t : Shape}

namespace Setting

/-- What is written within the shape by codecs that are not built in and by self-describing values
is the same in all places. -/
structure WritesAnywhere (setting : Setting S) (t : Shape) : Prop where
  codecs : ∀ c, setting.Employs t c → (∃ b : Builtin, c = b.codec) ∨ c.WritesAnywhere
  customs : ∀ k, S.Contains t (.custom k) → ∀ x : (S.custom k).Carrier,
    Writer.Anywhere ((S.custom k).marshal x setting.options.version)

/-- No self-describing type within the shape takes its bytes from all that is left, and these types
and the codecs that are not built in read the same in all places. -/
structure ReadsAnywhere (setting : Setting S) (t : Shape) : Prop where
  codecs : ∀ c, setting.Employs t c → (∃ b : Builtin, c = b.codec) ∨ c.ReadsAnywhere
  customs : ∀ k, S.Contains t (.custom k) → ∃ step, (S.custom k).unmarshal = .stream step ∧
    Reader.AnywhereInPlace (step setting.options.version)

theorem WritesAnywhere.codec (h : setting.WritesAnywhere t) {c : Codec S}
    (hc : setting.Employs t c) : c.WritesAnywhere := by
  rcases h.codecs c hc with ⟨b, rfl⟩ | hc
  · exact b.writesAnywhere_codec
  · exact hc

theorem ReadsAnywhere.codec (h : setting.ReadsAnywhere t) {c : Codec S}
    (hc : setting.Employs t c) : c.ReadsAnywhere := by
  rcases h.codecs c hc with ⟨b, rfl⟩ | hc
  · exact b.readsAnywhere_codec
  · exact hc

end Setting

def EncodeState.Beyond (base : Writer) (s u : EncodeState) : Prop := base.Beyond s.writer u.writer

def DecodeState.Ahead (L : Limits) (n : Nat) (s u : DecodeState) : Prop :=
  Reader.Ahead L n s.reader u.reader

namespace Encoding

variable {base : Writer}

theorem follows_write {α : Type} {x : Writing α} (h : Writer.Anywhere x) :
    Follows (EncodeState.Beyond base) (Except.mapError (.onward base.offset)) (write x) (write x) :=
  fun s u hs => h.follows base s.writer u.writer hs

theorem ownSteps_beyond (h : setting.WritesAnywhere t) :
    OwnSteps (EncodeState.Beyond base) (.onward base.offset) setting t where
  unplaced _ he := Error.onward_of_unplaced _ he
  count _ := .update fun _ _ hs => hs
  scalar s x := follows_write (s.anywhere_write x)
  size n := follows_write (.of_emits (Writer.emits_size n))
  codecs _ hc _ d := follows_write ((h.codec hc).writeField d)
  customs k hk x := follows_write (h.customs k hk x)

end Encoding

namespace Decoding

variable {L : Limits} {n : Nat} {α : Type}

theorem follows_read {x : Reading α} (h : Reader.Anywhere x) :
    Follows (DecodeState.Ahead L n) (Except.mapError (.onward n)) (read x) (read x) :=
  fun s u hs => h L n s.reader u.reader hs

theorem follows_readInPlace {x : InPlace Error Reader Nat α} (h : Reader.AnywhereInPlace x)
    (a : α) : Follows (DecodeState.Ahead L n) (InPlace.onError (.onward n)) (readInPlace x a)
      (readInPlace x a) := by
  intro s u hs
  obtain ⟨r, hy, hr⟩ := (h a L n).run hs
  unfold readInPlace
  rw [hy]
  rcases hx : x a s.reader with ⟨⟨_ | _, _⟩, _⟩ <;> rw [hx] at hr <;> exact ⟨rfl, hr⟩

theorem follows_codedInPlace {c : Codec S} (hc : c.ReadsAnywhere) (v : Datum S t) :
    Follows (DecodeState.Ahead L n) (InPlace.onError (.onward n)) (codedInPlace c v)
      (codedInPlace c v) := by
  intro s u hs
  obtain ⟨u', hy, hr⟩ := (follows_readInPlace (hc.readField t) v).run hs
  unfold codedInPlace
  rw [hy]
  rcases hx : readInPlace c.readField v s with ⟨⟨_ | _, _⟩, _⟩ <;> rw [hx] at hr <;> exact ⟨rfl, hr⟩

theorem ownSteps_ahead (h : setting.ReadsAnywhere t) :
    OwnSteps (DecodeState.Ahead L n) (.onward n) setting t where
  unplaced _ he := Error.onward_of_unplaced _ he
  announce t _ _ hs := by cases t <;> exact hs
  scalar s := follows_read (s.anywhere_read.map _)
  itemCount := follows_read Reader.anywhere_itemCount
  codecs _ hc _ v := follows_codedInPlace (h.codec hc) v
  customs k hk x := by
    obtain ⟨step, hstep, hany⟩ := h.customs k hk
    unfold described
    rw [hstep]
    exact follows_readInPlace hany x

end Decoding

end TagWire
