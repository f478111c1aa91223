/-!
# Blank characters

`isBlank` is the Unicode property White_Space. Names are trimmed of it, lists are cut at it and the
tokens of a script may be surrounded by it.
-/

namespace TraitCatalog.Text

/-- The characters of the Unicode property White_Space. -/
def isBlank (c : Char) : Bool :=
  let n := c.toNat
  (0x09 ≤ n && n ≤ 0x0D) || n == 0x20 || n == 0x85 || n == 0xA0 || n == 0x1680 ||
    (0x2000 ≤ n && n ≤ 0x200A) || n == 0x2028 || n == 0x2029 || n == 0x202F || n == 0x205F ||
    n == 0x3000

def skipBlanks (text : List Char) : List Char :=
  text.dropWhile isBlank

theorem length_skipBlanks_le (text : List Char) : (skipBlanks text).length ≤ text.length :=
  (List.dropWhile_sublist isBlank).length_le

def trimChars (text : List Char) : List Char :=
  (skipBlanks (skipBlanks text).reverse).reverse

def trim (text : String) : String :=
  String.ofList (trimChars text.toList)

def byteLength : List Char → Nat
  | [] => 0
  | c :: rest => c.utf8Size + byteLength rest

/-- How many bytes of `whole` stand before its ending `rest`. -/
def position (whole rest : List Char) : Nat :=
  byteLength whole - byteLength rest

end TraitCatalog.Text
