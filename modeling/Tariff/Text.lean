/-!
This module contains texts without the white space at their ends, and cuts of a text at byte offsets
of its encoding.
-/

namespace Tariff.Text

def isBlank (c : Char) : Bool :=
  let n := c.toNat
  (0x09 ≤ n && n ≤ 0x0D) || n == 0x20 || n == 0x85 || n == 0xA0 || n == 0x1680
    || (0x2000 ≤ n && n ≤ 0x200A) || n == 0x2028 || n == 0x2029 || n == 0x202F || n == 0x205F
    || n == 0x3000

def trim (text : String) : String :=
  .ofList ((text.toList.dropWhile isBlank).reverse.dropWhile isBlank).reverse

def byteLength (cs : List Char) : Nat :=
  cs.foldr (fun c length => c.utf8Size + length) 0

def dropBytes : (count : Nat) → List Char → List Char
  | 0, cs => cs
  | _, [] => []
  | count, c :: cs => dropBytes (count - c.utf8Size) cs

def takeBytes : (count : Nat) → List Char → List Char
  | 0, _ => []
  | _, [] => []
  | count, c :: cs => c :: takeBytes (count - c.utf8Size) cs

/--
The text between two byte offsets. Of a character that an offset cuts apart, `dropBytes` drops all
and `takeBytes` takes all.
-/
def slice (cs : List Char) (start stop : Nat) : List Char :=
  takeBytes (stop - start) (dropBytes start cs)

end Tariff.Text
