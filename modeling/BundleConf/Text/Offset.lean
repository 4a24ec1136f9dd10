/-!
# Byte offsets

Positions in a text count the bytes of its UTF-8 encoding, while the text itself is a list of characters.  An
offset cuts a text in two: `within n` is the longest leading part of at most `n` bytes, `beyond n` the rest.  The
cut is clean, `isBoundary`, when the offset does not lie inside a character; an offset past the end counts as the
end.  Cutting at the length of a leading part gives back that part and what follows it (`within_append`,
`beyond_append`).
-/

namespace BundleConf.Text

/-- The number of bytes of the UTF-8 encoding. -/
def byteLength : List Char → Nat
  | [] => 0
  | c :: cs => c.utf8Size + byteLength cs

/-- The longest leading part of at most `n` bytes. -/
def within : Nat → List Char → List Char
  | _, [] => []
  | n, c :: cs => if c.utf8Size ≤ n then c :: within (n - c.utf8Size) cs else []

/-- What follows the longest leading part of at most `n` bytes. -/
def beyond : Nat → List Char → List Char
  | _, [] => []
  | n, c :: cs => if c.utf8Size ≤ n then beyond (n - c.utf8Size) cs else c :: cs

/-- Whether the offset, or the end of the text if that comes first, lies between two characters. -/
def isBoundary (n : Nat) (cs : List Char) : Bool :=
  byteLength (within n cs) == min n (byteLength cs)

@[simp] theorem byteLength_nil : byteLength [] = 0 := rfl

@[simp] theorem byteLength_cons (c : Char) (cs : List Char) :
    byteLength (c :: cs) = c.utf8Size + byteLength cs := rfl

@[simp] theorem byteLength_append (cs ds : List Char) : byteLength (cs ++ ds) = byteLength cs + byteLength ds := by
  induction cs with
  | nil => simp
  | cons c cs ih => simp [ih, Nat.add_assoc]

theorem length_le_byteLength (cs : List Char) : cs.length ≤ byteLength cs := by
  induction cs with
  | nil => simp
  | cons c cs ih =>
    have := c.utf8Size_pos
    simp only [List.length_cons, byteLength_cons]
    omega

theorem byteLength_eq_zero {cs : List Char} : byteLength cs = 0 ↔ cs = [] := by
  cases cs with
  | nil => simp
  | cons c cs =>
    have := c.utf8Size_pos
    simp only [byteLength_cons, reduceCtorEq, iff_false]
    omega

/-! ### Cutting at an offset -/

theorem within_append_beyond (n : Nat) (cs : List Char) : within n cs ++ beyond n cs = cs := by
  induction cs generalizing n with
  | nil => rfl
  | cons c cs ih =>
    rw [within, beyond]
    split
    · simp [ih]
    · rfl

theorem beyond_eq_nil {n : Nat} {cs : List Char} (h : byteLength cs ≤ n) : beyond n cs = [] := by
  induction cs generalizing n with
  | nil => rfl
  | cons c cs ih =>
    simp only [byteLength_cons] at h
    rw [beyond, if_pos (by omega), ih (by omega)]

theorem within_eq_self {n : Nat} {cs : List Char} (h : byteLength cs ≤ n) : within n cs = cs := by
  have := within_append_beyond n cs
  rwa [beyond_eq_nil h, List.append_nil] at this

theorem beyond_append (cs ds : List Char) : beyond (byteLength cs) (cs ++ ds) = ds := by
  induction cs with
  | nil =>
    cases ds with
    | nil => rfl
    | cons d ds =>
      have := d.utf8Size_pos
      rw [byteLength_nil, List.nil_append, beyond, if_neg (by omega)]
  | cons c cs ih => simp [beyond, ih]

theorem within_append (cs ds : List Char) : within (byteLength cs) (cs ++ ds) = cs := by
  have h := within_append_beyond (byteLength cs) (cs ++ ds)
  rw [beyond_append] at h
  exact List.append_cancel_right h

/-- The boundaries of a text are the byte lengths of its leading parts, and every offset past its end. -/
theorem isBoundary_iff {n : Nat} {cs : List Char} :
    isBoundary n cs ↔ ∃ front back, front ++ back = cs ∧ byteLength front = min n (byteLength cs) := by
  refine ⟨fun h => ⟨within n cs, beyond n cs, within_append_beyond n cs, by simpa [isBoundary] using h⟩, ?_⟩
  rintro ⟨front, back, rfl, h⟩
  rw [isBoundary, beq_iff_eq]
  by_cases hn : n ≤ byteLength (front ++ back)
  · rw [Nat.min_eq_left hn] at h ⊢
    rw [← h, within_append]
  · rw [within_eq_self (by omega), Nat.min_eq_right (by omega)]

end BundleConf.Text
