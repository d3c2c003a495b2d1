/-! The length of a text in the bytes of its UTF-8 form. -/
namespace RequestEngine.Text

def byteCount : List Char → Nat
  | [] => 0
  | c :: cs => c.utf8Size + byteCount cs

@[simp] theorem byteCount_append (as bs : List Char) :
    byteCount (as ++ bs) = byteCount as + byteCount bs := by
  induction as with
  | nil => simp [byteCount]
  | cons c as ih => simp [byteCount, ih, Nat.add_assoc]

end RequestEngine.Text
