import StyleSlots.Digest.Sha256
import StyleSlots.Text.Numeral

/-! # Short hashes

    - **Numeral**: the digest of a text as one number, in base 36.
    - **Length**: zeros on the left make up missing digits, and what is
      beyond the wanted length is cut off on the right.

    Base 36 uses every digit and lowercase letter, which is what a class
    name may hold without escapes on a page that ignores case. -/

namespace StyleSlots

/-- The digest of a text as a numeral in base 36. -/
def digestNumeral (t : Text) : Text := numeral 36 (Sha256.digest t).toNat

/-- A text cut to its first `length` characters. A negative length gives
    the number of characters to drop at the end. -/
def Text.cut (t : Text) : Int → Text
  | .ofNat n => t.take n
  | .negSucc n => t.take (t.length - (n + 1))

/-- The leading digits of the digest of a text. -/
def shortHash (t : Text) (length : Int) : Text :=
  (Text.padLeft '0' length.toNat (digestNumeral t)).cut length

end StyleSlots
