namespace LispFront
namespace Text

/-!
# The first bytes of a text

What is seen of a text of which only so many bytes have arrived: the characters that have arrived
whole, and a replacement character for one that has arrived in part.
-/

/-- The number of bytes that characters take in UTF-8. -/
def byteCount : List Char → Nat
  | [] => 0
  | c :: rest => c.utf8Size + byteCount rest

/-- The characters that are seen in the first `limit` bytes. -/
def seenWithin : (limit : Nat) → List Char → List Char
  | _, [] => []
  | limit, c :: rest =>
    if limit = 0 then []
    else if c.utf8Size ≤ limit then c :: seenWithin (limit - c.utf8Size) rest
    else ['\ufffd']

/-- What is seen of a text in its first `limit` bytes. -/
def firstBytes (limit : Nat) (text : String) : String :=
  String.ofList (seenWithin limit text.toList)

/-- A text is seen whole when all of its bytes have arrived. -/
theorem seenWithin_of_le {limit : Nat} {chars : List Char} (h : byteCount chars ≤ limit) :
    seenWithin limit chars = chars := by
  induction chars generalizing limit with
  | nil => simp [seenWithin]
  | cons c rest ih =>
    have hpos : 0 < c.utf8Size := Char.utf8Size_pos c
    rw [byteCount] at h
    have hrest : byteCount rest ≤ limit - c.utf8Size := by omega
    have hne : limit ≠ 0 := by omega
    have hfits : c.utf8Size ≤ limit := by omega
    simp [seenWithin, hne, hfits, ih hrest]

end Text
end LispFront
