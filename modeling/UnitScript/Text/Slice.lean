/-!
# Byte offsets into a text

A text is a list of characters; its size is the number of bytes of its UTF-8
form.  An offset counts bytes from the front and is only usable when it falls
between two characters.

* `byteLength` is the size of a text.
* `dropBytes?` and `takeBytes?` cut at an offset and fail inside a character
  or past the end.
* `slice?` cuts out the part between two offsets.
* `trimEnd` removes a run of characters at the end.
-/

namespace UnitScript.Text

/-- The number of bytes that `text` takes in UTF-8. -/
def byteLength (text : List Char) : Nat :=
  text.foldl (fun count c => count + c.utf8Size) 0

/-- What follows the first `count` bytes.  Fails when the cut would fall
inside a character or past the end. -/
def dropBytes? : Nat → List Char → Option (List Char)
  | 0, text => some text
  | _ + 1, [] => none
  | count + 1, c :: rest =>
      if c.utf8Size ≤ count + 1 then dropBytes? (count + 1 - c.utf8Size) rest else none

/-- The first `count` bytes.  Fails when the cut would fall inside a character
or past the end. -/
def takeBytes? : Nat → List Char → Option (List Char)
  | 0, _ => some []
  | _ + 1, [] => none
  | count + 1, c :: rest =>
      if c.utf8Size ≤ count + 1 then
        (takeBytes? (count + 1 - c.utf8Size) rest).map (c :: ·)
      else
        none

/-- The part of `text` from offset `start` up to offset `stop`.  Both offsets
must be character boundaries in ascending order. -/
def slice? (text : List Char) (start stop : Nat) : Option (List Char) :=
  if start ≤ stop then (dropBytes? start text).bind (takeBytes? (stop - start)) else none

/-- `text` without the longest run of characters at its end that satisfy
`unwanted`. -/
def trimEnd (unwanted : Char → Bool) (text : List Char) : List Char :=
  (text.reverse.dropWhile unwanted).reverse

end UnitScript.Text
