/-!
# Breadboard — words and widths

Every net carries a signed 16-bit `Word`. A pin has a `Width`, and what is written to it is a
32-bit `Value` that is cut down to the pin's width:

* `fit` keeps the low bits of a value, so a write never fails. A net of fewer than 16 bits holds
  the unsigned residue; a net of 16 bits reads the low half-word as two's complement.
* `fits` says whether a value survives that cut. A 16-bit net takes both notations of a
  half-word, the signed and the unsigned one.

A width is any byte: both functions are total on all 256 of them and treat everything from 16 on
as 16. Only the widths `1` to `16` are those of a pin (`Width.isValid`).
-/

namespace Breadboard

/-- What a net carries: a signed 16-bit word. -/
abbrev Word := Int16

/-- What a caller may ask to be stored in a net. -/
abbrev Value := Int32

/-- A number of bits. -/
abbrev Width := UInt8

/-- The widest pin there is. -/
def Width.widest : Width := 16

/-- The widths that a pin may have. -/
def Width.isValid (w : Width) : Bool :=
  1 ≤ w && w ≤ Width.widest

/-- The low `w` bits, all set. The shift stays below 32 and the difference above zero for every
width up to the widest one, which is all that `fit` and `fits` ask for. -/
def Width.mask (w : Width) : UInt32 :=
  (1 <<< w.toUInt32) - 1

/-- **The write policy of a net**: the low bits of the value, read as a word. -/
def fit (v : Value) (w : Width) : Word :=
  (v.toUInt32 &&& Width.mask (min w Width.widest)).toUInt16.toInt16

/-- Whether `v` can be stored in `w` bits without losing anything. -/
def fits (v : Value) (w : Width) : Bool :=
  if Width.widest ≤ w then
    -32768 ≤ v && v ≤ 65535
  else
    0 ≤ v && v ≤ (Width.mask w).toInt32

end Breadboard
