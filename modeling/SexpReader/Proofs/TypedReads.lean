import SexpReader.Proofs.Encoding
import SexpReader.Proofs.Sessions
import SexpReader.Proofs.TwosComplement

/-!
# Values that are written and read again

An `Item` is something that can be written into a buffer: a whole number in the range of a kind,
raw bytes, or a character. If items are written one after the other and each is taken in its turn,
the same values come back, and nothing is left. One item is read back whatever comes after it, and
this carries over to all of them by induction.

The other way round, a whole number that is read wherever a cursor stands is in the range of its
kind, and the bytes it is read from are its bytes.
-/

namespace SexpReader

namespace Kind

/-- Whether a kind of whole numbers has a sign. -/
def signed? : Kind → Option Bool
  | char | float32 | float64 => none
  | byte | uint8 | uint16 | uint32 | uint64 => some false
  | int8 | int16 | int32 | int64 => some true

/-- A whole number is in the range of a kind. -/
def Holds (k : Kind) (n : Int) : Prop :=
  ∃ signed, k.signed? = some signed ∧ Endian.Fits k.width n signed

/-- The bytes of a whole number of a kind. -/
def encode (k : Kind) (n : Int) : Bytes := Endian.writeSigned k.width n

variable {k : Kind} {signed : Bool}

theorem width_pos (k : Kind) : 0 < k.width := by
  cases k <;> decide

@[simp] theorem length_encode (k : Kind) (n : Int) : (k.encode n).length = k.width :=
  Endian.length_writeSigned k.width n

theorem ne_char_of_signed? (h : k.signed? = some signed) : k ≠ .char := by
  rintro rfl
  cases h

theorem decode_of_signed? (h : k.signed? = some signed) (bs : Bytes) :
    k.decode bs = .int (Endian.readWhole bs signed) := by
  cases k <;> cases h <;> rfl

theorem decode_encode {n : Int} (h : k.Holds n) : k.decode (k.encode n) = .int n := by
  obtain ⟨signed, hsigned, hfits⟩ := h
  rw [decode_of_signed? hsigned, encode, Endian.readWhole_writeSigned k.width_pos hfits]

end Kind

/-- What is wanted is a value of the kind, which may be given by its name. -/
def Want.Names (w : Want) (k : Kind) : Prop := w = .kind k ∨ w = .named k.name

/-- Something that can be written into a buffer. -/
inductive Item where
  | whole (k : Kind) (n : Int) (holds : k.Holds n)
  | raw (bs : Bytes)
  | char (x : CodePoint) (scalar : x.isSurrogate = false)

namespace Item

/-- The bytes of an item. -/
def bytes : Item → Bytes
  | whole k n _ => k.encode n
  | raw bs => bs
  | char x _ => Utf8.encode x

/-- The value that an item is. -/
def value : Item → Value
  | whole _ n _ => .int n
  | raw bs => .bytes bs
  | char x _ => .text [x]

/-- A character is one column, everything else is as many as it has bytes. -/
def columns : Item → Nat
  | char _ _ => 1
  | item => item.bytes.length

/-- This is wanted to read the item. -/
def Matches : Item → Want → Prop
  | whole k _ _, w => w.Names k
  | raw bs, w => w = .bytes bs.length
  | char _ _, w => w.Names .char

end Item

namespace Cursor

variable {c : Cursor} {w : Want} {k : Kind} {more : Bytes}

theorem look_of_names (h : w.Names k) (c : Cursor) : c.look w = c.lookKind k := by
  rcases h with rfl | rfl
  · rfl
  · rw [look, Kind.ofName?_name]

theorem moved_zero (c : Cursor) : c.moved 0 0 = c := by
  unfold moved Mark.advance
  rw [Nat.add_zero, Int.add_zero]

theorem moved_moved (c : Cursor) (a b : Nat) (x y : Int) :
    (c.moved a x).moved b y = c.moved (a + b) (x + y) := by
  unfold moved Mark.advance
  rw [Nat.add_assoc, Int.add_assoc]

theorem rest_moved (c : Cursor) (count : Nat) (columns : Int) :
    (c.moved count columns).rest = c.rest.drop count := by
  rw [rest, rest, List.drop_drop]
  rfl

theorem lookKind_of_le (hk : k ≠ .char) (hle : c.mark.position + k.width ≤ c.size) :
    c.lookKind k = .ok ⟨k.decode (c.rest.take k.width), k.width, k.width⟩ := by
  rw [lookKind_of_ne_char c hk, need_of_le hle]
  rfl

/-- An item that lies ahead is found, whatever comes after it. -/
theorem look_item {item : Item} (hc : c.mark.position ≤ c.size)
    (hrest : c.rest = item.bytes ++ more) (hw : item.Matches w) :
    c.look w = .ok ⟨item.value, item.bytes.length, item.columns⟩ := by
  have hle := position_add_le_of_rest hc hrest
  cases item with
  | whole k n holds =>
      have hk : k ≠ .char := by
        obtain ⟨signed, hsigned, -⟩ := holds
        exact Kind.ne_char_of_signed? hsigned
      have hlen : (k.encode n).length = k.width := k.length_encode n
      have htake : c.rest.take k.width = k.encode n := by
        rw [hrest, ← hlen]
        exact List.take_left
      change c.mark.position + (k.encode n).length ≤ c.size at hle
      rw [hlen] at hle
      rw [look_of_names hw, lookKind_of_le hk hle, htake, Kind.decode_encode holds]
      change _ = Except.ok (Found.mk _ (k.encode n).length (k.encode n).length)
      rw [hlen]
      rfl
  | raw bs =>
      cases hw
      change c.mark.position + bs.length ≤ c.size at hle
      have htake : c.rest.take bs.length = bs := by
        rw [hrest]
        exact List.take_left
      rw [look, lookBytes, if_neg (Int.not_lt.2 (Int.natCast_nonneg _)), Int.toNat_natCast,
        need_of_le hle, htake]
      rfl
  | char x scalar =>
      -- The glyph ends with the form of the character, whatever the next byte is.
      have hfaces : c.Faces (⟨x, Utf8.encode x⟩ :: Utf8.glyphs more) := by
        refine ⟨hc, ?_⟩
        rw [hrest]
        exact Utf8.glyphs_encode_append scalar more
      rw [look_of_names hw]
      exact hfaces.look

/-- Items that lie ahead are taken one after the other. -/
theorem session_take_items {items : List Item} {wants : List Want}
    (hwants : List.Forall₂ Item.Matches items wants) (hc : c.mark.position ≤ c.size)
    (hrest : c.rest = items.flatMap Item.bytes ++ more) :
    (c.session (wants.map .take)).map Prod.fst =
        items.map (fun item => .ok (.value item.value)) ∧
      c.reached (wants.map .take) =
        c.moved (items.flatMap Item.bytes).length (items.map Item.columns).sum := by
  induction hwants generalizing c with
  | nil => exact ⟨rfl, (moved_zero c).symm⟩
  | @cons item w items wants hw _ ih =>
      rw [List.flatMap_cons, List.append_assoc] at hrest
      have htake : c.perform (.take w) =
          (.ok (.value item.value), c.moved item.bytes.length item.columns) := by
        rw [perform, take_eq_map, look_item hc hrest hw]
        rfl
      have hthere : (c.moved item.bytes.length item.columns).mark.position ≤
          (c.moved item.bytes.length item.columns).size := position_add_le_of_rest hc hrest
      have hmore : (c.moved item.bytes.length item.columns).rest =
          items.flatMap Item.bytes ++ more := by
        rw [rest_moved, hrest, List.drop_left]
      obtain ⟨hanswers, hreached⟩ := ih hthere hmore
      rw [List.map_cons, session_cons, reached_cons, htake, List.map_cons, List.map_cons,
        List.map_cons, List.flatMap_cons, List.length_append, List.sum_cons, hanswers, hreached,
        moved_moved, Int.natCast_add]
      exact ⟨rfl, rfl⟩

theorem length_take_rest {n : Nat} (hle : n ≤ c.remaining) : (c.rest.take n).length = n := by
  rw [List.length_take, rest, List.length_drop]
  exact Nat.min_eq_left hle

/-- A whole number that is read is in the range of its kind, and its bytes are those it is read
from. -/
theorem take_whole {signed : Bool} (hk : k.signed? = some signed) (hw : w.Names k)
    (hle : k.width ≤ c.remaining) :
    ∃ n, n = Endian.readWhole (c.rest.take k.width) signed ∧ c.get w = .ok (.int n) ∧
      c.take w = .ok (.int n, c.moved k.width k.width) ∧ k.Holds n ∧
      k.encode n = c.rest.take k.width := by
  have hpos := k.width_pos
  have hlen := length_take_rest hle
  have hne : c.rest.take k.width ≠ [] := List.ne_nil_of_length_pos (by omega)
  have hlook := lookKind_of_le (c := c) (Kind.ne_char_of_signed? hk) (by
    unfold remaining at hle
    omega)
  have hfits := Endian.fits_readWhole hne signed
  have hwrite := Endian.writeSigned_readWhole (c.rest.take k.width) signed
  rw [hlen] at hfits hwrite
  rw [Kind.decode_of_signed? hk, ← look_of_names hw] at hlook
  refine ⟨_, rfl, ?_, ?_, ⟨signed, hk, hfits⟩, hwrite⟩
  · rw [get_eq_map, hlook]
    rfl
  · rw [take_eq_map, hlook]
    rfl

end Cursor

end SexpReader
