import Polyscan.Text.Class

/-!
Cutting and joining text. Everything is said on lists of characters; `String` is their packed form.
-/
namespace Polyscan.Text

/-- The pieces of a list between the occurrences of a separator; always at least one. -/
def pieces {α : Type} [DecidableEq α] (sep : α) : List α → List (List α)
  | [] => [[]]
  | c :: rest =>
    if c = sep then [] :: pieces sep rest
    else
      match pieces sep rest with
      | [] => [[c]]
      | first :: more => (c :: first) :: more

/-- The pieces of a text between the occurrences of a separator; always at least one. -/
def split (sep : Char) (s : String) : List String := (pieces sep s.toList).map String.ofList

/-- Writes the pieces one after another with a separator between them. -/
def joinChars (sep : List Char) : List (List Char) → List Char
  | [] => []
  | [p] => p
  | p :: rest => p ++ sep ++ joinChars sep rest

/-- Writes the pieces one after another with a separator between them. -/
def join (sep : String) (parts : List String) : String :=
  String.ofList (joinChars sep.toList (parts.map String.toList))

/-- Drops the last elements that satisfy `p`. -/
def dropEnd {α : Type} (p : α → Bool) (l : List α) : List α := (l.reverse.dropWhile p).reverse

/-- Removes the characters that satisfy `p` at both ends. -/
def trimChars (p : Char → Bool) (l : List Char) : List Char := dropEnd p (l.dropWhile p)

/-- Removes white space at both ends. -/
def trim (s : String) : String := String.ofList (trimChars (fun c => isBlank c.toNat) s.toList)

def startsWith (s lead : String) : Bool := lead.toList.isPrefixOf s.toList

def endsWith (s tail : String) : Bool := tail.toList.isSuffixOf s.toList

/-- Order by code points. -/
def lt (s t : String) : Bool := decide (s < t)

theorem pieces_ne_nil {α : Type} [DecidableEq α] (sep : α) (l : List α) : pieces sep l ≠ [] := by
  cases l with
  | nil => simp [pieces]
  | cons c rest =>
    simp only [pieces]
    split
    · simp
    · split <;> simp

/-- Cutting at a separator that stands between two texts cuts each of them. -/
theorem pieces_append_cons {α : Type} [DecidableEq α] (sep : α) (l r : List α) :
    pieces sep (l ++ sep :: r) = pieces sep l ++ pieces sep r := by
  induction l with
  | nil => simp [pieces]
  | cons c rest ih =>
    simp only [List.cons_append, pieces]
    split
    · simp [ih]
    · rw [ih]
      cases h : pieces sep rest with
      | nil => exact absurd h (pieces_ne_nil sep rest)
      | cons first more => simp

/-- Joining what was cut gives the text back. -/
theorem joinChars_pieces (sep : Char) (l : List Char) : joinChars [sep] (pieces sep l) = l := by
  induction l with
  | nil => rfl
  | cons c rest ih =>
    simp only [pieces]
    split
    · next h =>
      subst h
      cases hp : pieces c rest with
      | nil => exact absurd hp (pieces_ne_nil c rest)
      | cons first more => simp [joinChars, ← hp, ih]
    · cases hp : pieces sep rest with
      | nil => exact absurd hp (pieces_ne_nil sep rest)
      | cons first more =>
        rw [hp] at ih
        cases more with
        | nil => simpa [joinChars] using ih
        | cons second others => simpa [joinChars] using ih

theorem dropWhile_append_of_all {α : Type} (p : α → Bool) (t l : List α)
    (h : ∀ x ∈ t, p x = true) : (t ++ l).dropWhile p = l.dropWhile p := by
  induction t with
  | nil => rfl
  | cons a rest ih =>
    rw [List.cons_append, List.dropWhile_cons_of_pos (h a (by simp))]
    exact ih fun x hx => h x (by simp [hx])

theorem dropEnd_append_of_all {α : Type} (p : α → Bool) (l t : List α) (h : ∀ x ∈ t, p x = true) :
    dropEnd p (l ++ t) = dropEnd p l := by
  simp only [dropEnd, List.reverse_append]
  rw [dropWhile_append_of_all p t.reverse l.reverse fun x hx => h x (List.mem_reverse.mp hx)]

end Polyscan.Text
