import CallPlan.Text.Blank
/-!
# Splitting text at commas, parentheses and marks

The few ways in which type and function texts are cut: at the commas outside parentheses (`pieces`), at the parenthesis
that closes an open one (`closing?`), at the last or first occurrence of a character (`splitLast?`, `splitFirst?`) and
after the first occurrence of a word (`after?`).  Each cut is no longer than what it was cut from, which is what the
readers recurse on.
-/
namespace CallPlan
namespace Text

/-- The number of open parentheses after a character.  A closing one too many leaves it at zero. -/
def depthAfter (d : Nat) (c : Char) : Nat := if c = '(' then d + 1 else if c = ')' then d - 1 else d

/-- A character put in front of the first piece. -/
def consHead (c : Char) : List (List Char) → List (List Char)
  | []      => [[c]]
  | p :: ps => (c :: p) :: ps

/-- The pieces between the commas that stand at depth zero, starting with `d` parentheses open. -/
def piecesAt (d : Nat) : List Char → List (List Char)
  | []     => [[]]
  | c :: s => if c = ',' ∧ d = 0 then [] :: piecesAt d s else consHead c (piecesAt (depthAfter d c) s)

/-- The pieces between the commas outside parentheses.  A blank text has none. -/
def pieces (s : List Char) : List (List Char) := if s.all isBlank then [] else piecesAt 0 s

/-- The text inside an open parenthesis and the text behind the one that closes it, with `d` more open in between. -/
def closing? (d : Nat) : List Char → Option (List Char × List Char)
  | []     => none
  | c :: s =>
    if c = ')' ∧ d = 0 then some ([], s) else (closing? (depthAfter d c) s).map fun (a, b) => (c :: a, b)

/-- The text before a final character. -/
def stripEnd? (c : Char) (s : List Char) : Option (List Char) := if s.getLast? = some c then some s.dropLast else none

/-- The texts before and behind the last occurrence of a character. -/
def splitLast? (c : Char) : List Char → Option (List Char × List Char)
  | []     => none
  | x :: s =>
    match splitLast? c s with
    | some (a, b) => some (x :: a, b)
    | none        => if x = c then some ([], s) else none

/-- The texts before and behind the first occurrence of a character. -/
def splitFirst? (c : Char) : List Char → Option (List Char × List Char)
  | []     => none
  | x :: s => if x = c then some ([], s) else (splitFirst? c s).map fun (a, b) => (x :: a, b)

/-- The text behind a word that it starts with. -/
def dropWord? : List Char → List Char → Option (List Char)
  | [],     s      => some s
  | _ :: _, []     => none
  | x :: w, c :: s => if x = c then dropWord? w s else none

/-- The text behind the first occurrence of a word. -/
def after? (w : List Char) : List Char → Option (List Char)
  | []     => dropWord? w []
  | c :: s =>
    match dropWord? w (c :: s) with
    | some r => some r
    | none   => after? w s

/-- The texts joined with a separator between neighbours. -/
def joinWith (sep : List Char) : List (List Char) → List Char
  | []          => []
  | [s]         => s
  | s :: t :: r => s ++ sep ++ joinWith sep (t :: r)

/-! ## A cut is no longer than the text -/

theorem length_le_of_mem_consHead {c : Char} {ps : List (List Char)} {n : Nat} (h : ∀ p ∈ ps, p.length ≤ n) :
    ∀ p ∈ consHead c ps, p.length ≤ n + 1 := by
  cases ps with
  | nil => simp [consHead]
  | cons q qs =>
    intro p hp
    rcases List.mem_cons.1 hp with rfl | hp
    · simpa using h q (by simp)
    · exact Nat.le_succ_of_le (h p (by simp [hp]))

theorem length_le_of_mem_piecesAt (s : List Char) : ∀ (d : Nat), ∀ p ∈ piecesAt d s, p.length ≤ s.length := by
  induction s with
  | nil => intro d p hp; simp_all [piecesAt]
  | cons c s ih =>
    intro d p hp
    rw [piecesAt] at hp
    split at hp
    · rcases List.mem_cons.1 hp with rfl | hp
      · simp
      · exact Nat.le_succ_of_le (ih d p hp)
    · exact length_le_of_mem_consHead (ih _) p hp

theorem length_le_of_mem_pieces {p s : List Char} (h : p ∈ pieces s) : p.length ≤ s.length := by
  unfold pieces at h
  split at h
  · cases h
  · exact length_le_of_mem_piecesAt s 0 p h

theorem length_of_stripEnd? {c : Char} {s r : List Char} (h : stripEnd? c s = some r) : r.length + 1 = s.length := by
  unfold stripEnd? at h
  split at h <;> cases h
  rename_i hl
  have : s ≠ [] := by rintro rfl; cases hl
  have := List.length_pos_iff.2 this
  simp only [List.length_dropLast]
  omega

theorem length_of_closing? (s : List Char) :
    ∀ (d : Nat) (a b : List Char), closing? d s = some (a, b) → a.length + b.length + 1 = s.length := by
  induction s with
  | nil => intro d a b h; cases h
  | cons c s ih =>
    intro d a b h
    rw [closing?] at h
    split at h
    · cases h; simp
    · obtain ⟨⟨a', b'⟩, h', he⟩ := Option.map_eq_some_iff.1 h
      cases he
      have := ih _ _ _ h'
      simp only [List.length_cons]
      omega

/-- **A text starts with a word exactly when it is the word and the rest.** -/
theorem dropWord?_eq_some_iff (w : List Char) : ∀ (s r : List Char), dropWord? w s = some r ↔ s = w ++ r := by
  induction w with
  | nil => intro s r; simp [dropWord?]
  | cons x w ih =>
    intro s r
    cases s with
    | nil => simp [dropWord?]
    | cons c s =>
      by_cases h : x = c
      · simp [dropWord?, h, ih]
      · simp [dropWord?, h, Ne.symm h]

theorem eq_of_splitLast? {c : Char} (s : List Char) :
    ∀ (a b : List Char), splitLast? c s = some (a, b) → s = a ++ c :: b := by
  induction s with
  | nil => intro a b h; cases h
  | cons x s ih =>
    intro a b h
    unfold splitLast? at h
    split at h
    · rename_i a' b' h'; cases h; simp [ih _ _ h']
    · split at h
      · rename_i hx; cases h; simp [hx]
      · cases h

end Text
end CallPlan
