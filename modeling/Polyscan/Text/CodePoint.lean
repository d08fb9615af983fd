/-!
Texts as rows of code points. Data in notation can hold a code point of the surrogate range alone, which is
no character. A `String` has no room for it; a `WideString` has, and whatever is read and written as data is
read and written for both.
-/
namespace Polyscan

/-- A code point, of the surrogate range or a character. -/
structure CodePoint where
  value : Nat
  valid : value < 0x110000
  deriving DecidableEq, Repr

namespace CodePoint

/-- The code point with a number; the replacement character where there is none. -/
def ofNat (n : Nat) : CodePoint := if h : n < 0x110000 then ⟨n, h⟩ else ⟨0xfffd, by decide⟩

def ofChar (c : Char) : CodePoint := ofNat c.toNat

/-- Whether a code point is the first half of a surrogate pair. -/
def isHigh (p : CodePoint) : Bool := 0xd800 ≤ p.value && p.value ≤ 0xdbff

/-- Whether a code point is the second half of a surrogate pair. -/
def isLow (p : CodePoint) : Bool := 0xdc00 ≤ p.value && p.value ≤ 0xdfff

/-- The character that a code point is; the replacement character for a surrogate. -/
def toChar (p : CodePoint) : Char :=
  if p.isHigh || p.isLow then '\ufffd' else Char.ofNat p.value

/-- Whether no first half stands directly before a second half, with which it would make one character in
notation. Halves may stand alone. -/
def isPairless : List CodePoint → Bool
  | p :: q :: rest => !(p.isHigh && q.isLow) && isPairless (q :: rest)
  | _ => true

end CodePoint

/-- A text that can hold any row of code points. -/
structure WideString where
  points : List CodePoint
  deriving DecidableEq, Repr, Inhabited

/-- A kind of text, by the code points that a text is made of. -/
class IsText (τ : Type) where
  points : τ → List CodePoint
  ofPoints : List CodePoint → τ
  ofString : String → τ
  ofPoints_points : ∀ t, ofPoints (points t) = t
  points_ofString : ∀ s, points (ofString s) = s.toList.map CodePoint.ofChar

namespace CodePoint

theorem toNat_lt (c : Char) : c.toNat < 0x110000 := by
  have hvalid : c.toNat < 0xd800 ∨ 0xdfff < c.toNat ∧ c.toNat < 0x110000 := c.valid
  omega

/-- No character is a surrogate. -/
theorem toNat_not_surrogate (c : Char) : ¬ (0xd800 ≤ c.toNat ∧ c.toNat ≤ 0xdfff) := by
  have hvalid : c.toNat < 0xd800 ∨ 0xdfff < c.toNat ∧ c.toNat < 0x110000 := c.valid
  omega

@[simp] theorem ofNat_value (p : CodePoint) : ofNat p.value = p := by
  simp [ofNat, p.valid]

@[simp] theorem value_ofChar (c : Char) : (ofChar c).value = c.toNat := by
  simp [ofChar, ofNat, toNat_lt c]

theorem isSurrogate_ofChar (c : Char) : ((ofChar c).isHigh || (ofChar c).isLow) = false := by
  have hnot := toNat_not_surrogate c
  simp only [isHigh, isLow, value_ofChar, ← Bool.not_eq_true, Bool.or_eq_true, Bool.and_eq_true,
    decide_eq_true_eq]
  omega

@[simp] theorem toChar_ofChar (c : Char) : (ofChar c).toChar = c := by
  simp [toChar, isSurrogate_ofChar]

theorem ofChar_toChar {p : CodePoint} (hp : (p.isHigh || p.isLow) = false) : ofChar p.toChar = p := by
  have hvalid : p.value.isValidChar := by
    have hlt := p.valid
    simp [isHigh, isLow] at hp
    simp only [Nat.isValidChar]
    omega
  have hvalue : (Char.ofNat p.value).toNat = p.value := by
    rw [Char.ofNat, dif_pos hvalid]
    rfl
  simp [toChar, hp, ofChar, hvalue]

end CodePoint

instance : IsText String where
  points s := s.toList.map CodePoint.ofChar
  ofPoints ps := String.ofList (ps.map CodePoint.toChar)
  ofString s := s
  ofPoints_points s := by
    have hid : CodePoint.toChar ∘ CodePoint.ofChar = id := funext CodePoint.toChar_ofChar
    simp [hid]
  points_ofString _ := rfl

instance : IsText WideString where
  points t := t.points
  ofPoints ps := ⟨ps⟩
  ofString s := ⟨s.toList.map CodePoint.ofChar⟩
  ofPoints_points _ := rfl
  points_ofString _ := rfl

end Polyscan
