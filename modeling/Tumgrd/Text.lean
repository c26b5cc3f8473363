import Mathlib.Algebra.GroupWithZero.Nat
import Mathlib.Data.Char
import Mathlib.Data.List.DropRight
import Mathlib.Data.List.Infix
import Mathlib.Data.List.Lex

/-! C strings: the bytes in front of the terminating NUL, one `Char` for each
byte. A `char[n]` field is a string with room for its NUL, so no over-long text
can be stored in one. -/
namespace Tumgrd

abbrev Str := List Char

/-- The text in a `char[n]`. -/
structure Buf (n : Nat) where
  text : Str
  fits : text.length < n
  deriving DecidableEq

namespace Buf

variable {n : Nat}

/-- `snprintf(dst, sizeof(dst), "%s", src)`, which is also `copy_string`. -/
def copy [NeZero n] (src : Str) : Buf n :=
  ⟨src.take (n - 1), by
    have := Nat.pos_of_neZero n
    simp only [List.length_take]
    omega⟩

/-- What `memset` leaves in the field. -/
def empty [NeZero n] : Buf n := ⟨[], Nat.pos_of_neZero n⟩

@[simp] theorem text_empty [NeZero n] : (empty : Buf n).text = [] := rfl

theorem text_copy [NeZero n] (src : Str) : (copy src : Buf n).text = src.take (n - 1) := rfl

@[ext] theorem ext {a b : Buf n} (h : a.text = b.text) : a = b := by
  cases a
  cases b
  cases h
  rfl

theorem text_inj {a b : Buf n} : a.text = b.text ↔ a = b :=
  ⟨ext, fun h => h ▸ rfl⟩

theorem text_copy_of_fits [NeZero n] {src : Str} (h : src.length < n) :
    (copy src : Buf n).text = src := by
  rw [text_copy, List.take_of_length_le (by omega)]

@[simp] theorem copy_text [NeZero n] (b : Buf n) : copy b.text = b :=
  ext (text_copy_of_fits b.fits)

theorem text_eq_nil_iff [NeZero n] {b : Buf n} : b.text = [] ↔ b = empty :=
  ⟨fun h => ext h, fun h => by rw [h]; rfl⟩

end Buf

/-! The buffer sizes of the source. -/

instance neZero16 : NeZero 16 := ⟨by decide⟩
instance neZero32 : NeZero 32 := ⟨by decide⟩
instance neZero64 : NeZero 64 := ⟨by decide⟩
instance neZero128 : NeZero 128 := ⟨by decide⟩
instance neZero129 : NeZero 129 := ⟨by decide⟩
instance neZero140 : NeZero 140 := ⟨by decide⟩
instance neZero256 : NeZero 256 := ⟨by decide⟩
instance neZero280 : NeZero 280 := ⟨by decide⟩

/-- `isspace` in the C locale. -/
def isSpace (c : Char) : Bool :=
  c = ' ' || ('\t' ≤ c && c ≤ '\r')

/-- `trim_inplace`. -/
def trim (s : Str) : Str := (s.dropWhile isSpace).rdropWhile isSpace

/-- `streqcase`, on `strcasecmp` in the C locale. -/
def streqcase (a b : Str) : Bool := a.map Char.toLower = b.map Char.toLower

theorem streqcase_refl (a : Str) : streqcase a a = true := by simp [streqcase]

/-- `%d` of an `int`. -/
def decimal (i : Int) : Str :=
  if i < 0 then '-' :: Nat.toDigits 10 i.natAbs else Nat.toDigits 10 i.natAbs

theorem decimal_injective : Function.Injective decimal := by
  have digits : Function.Injective (Nat.toDigits 10) :=
    Function.LeftInverse.injective (g := fun l => Nat.ofDigitChars 10 l 0)
      fun _ => Nat.ofDigitChars_ten_toDigits
  have unsigned : ∀ m n, '-' :: Nat.toDigits 10 m ≠ Nat.toDigits 10 n := by
    intro m n h
    have digit := Nat.isDigit_of_mem_toDigits (by decide) (by decide) (h ▸ List.mem_cons_self)
    contradiction
  intro i j h
  unfold decimal at h
  split at h <;> split at h
  · have := digits (List.cons.inj h).2
    omega
  · exact absurd h (unsigned _ _)
  · exact absurd h.symm (unsigned _ _)
  · have := digits h
    omega

/-- `nonempty_or_default`. -/
def nonemptyOr (input fallback : Str) : Str := if input = [] then fallback else input

/-- `is_safe_id`: no control character, no blank, not empty. -/
def isSafeId (s : Str) : Bool :=
  s ≠ [] && s.all fun c => ¬(c.toNat < 0x20 || c.toNat = 0x7f || c = ' ')

/-- The result of `generate_random_hex_key` with 64 key bytes. -/
structure HexKey where
  text : Str
  digits : text.length = 128
  hex : text.all fun c => c.isDigit || ('a' ≤ c && c ≤ 'f')

def HexKey.buf (key : HexKey) : Buf 129 := ⟨key.text, by rw [key.digits]; decide⟩

theorem HexKey.buf_ne_empty (key : HexKey) : key.buf ≠ Buf.empty := by
  intro h
  have hlen : key.text.length = 0 := congrArg (fun b => b.text.length) h
  rw [key.digits] at hlen
  contradiction

theorem HexKey.text_buf_ne_nil (key : HexKey) : key.buf.text ≠ [] :=
  fun h => key.buf_ne_empty (Buf.text_eq_nil_iff.mp h)

end Tumgrd
