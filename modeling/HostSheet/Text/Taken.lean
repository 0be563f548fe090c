/-!
# What is read off a text

Results of reading carry the rest of the text with the fact that it is shorter, so that reading can
be repeated until nothing is left. Results are put together by reading on where the one before
ended.
-/

namespace HostSheet

/-- Something read off the front of a text. -/
structure Taken (α : Type) (s : List Char) where
  value : α
  rest : List Char
  shorter : rest.length < s.length

structure Skipped (α : Type) (s : List Char) where
  value : α
  rest : List Char
  noLonger : rest.length ≤ s.length

variable {α β : Type} {s : List Char}

namespace Taken

def head (value : α) (c : Char) (s : List Char) : Taken α (c :: s) :=
  ⟨value, s, Nat.lt_succ_self s.length⟩

def map (f : α → β) (taken : Taken α s) : Taken β s :=
  ⟨f taken.value, taken.rest, taken.shorter⟩

def behind (c : Char) (taken : Taken α s) : Taken α (c :: s) :=
  ⟨taken.value, taken.rest, Nat.lt_succ_of_lt taken.shorter⟩

def toSkipped (taken : Taken α s) : Skipped α s :=
  ⟨taken.value, taken.rest, Nat.le_of_lt taken.shorter⟩

def andTake (taken : Taken α s) (more : Taken β taken.rest) : Taken β s :=
  ⟨more.value, more.rest, Nat.lt_trans more.shorter taken.shorter⟩

def andSkip (taken : Taken α s) (more : Skipped β taken.rest) : Taken β s :=
  ⟨more.value, more.rest, Nat.lt_of_le_of_lt more.noLonger taken.shorter⟩

end Taken

namespace Skipped

def nothing (value : α) (s : List Char) : Skipped α s :=
  ⟨value, s, Nat.le_refl s.length⟩

def map (f : α → β) (skipped : Skipped α s) : Skipped β s :=
  ⟨f skipped.value, skipped.rest, skipped.noLonger⟩

def behind (c : Char) (skipped : Skipped α s) : Taken α (c :: s) :=
  ⟨skipped.value, skipped.rest, Nat.lt_succ_of_le skipped.noLonger⟩

def andTake (skipped : Skipped α s) (more : Taken β skipped.rest) : Taken β s :=
  ⟨more.value, more.rest, Nat.lt_of_lt_of_le more.shorter skipped.noLonger⟩

def andSkip (skipped : Skipped α s) (more : Skipped β skipped.rest) : Skipped β s :=
  ⟨more.value, more.rest, Nat.le_trans more.noLonger skipped.noLonger⟩

theorem length_dropWhile_le (p : Char → Bool) (s : List Char) :
    (s.dropWhile p).length ≤ s.length :=
  (List.dropWhile_sublist p).length_le

def dropWhile (p : Char → Bool) (s : List Char) : Skipped (List Char) s :=
  ⟨s.takeWhile p, s.dropWhile p, length_dropWhile_le p s⟩

end Skipped

def takeChar? (c : Char) : (s : List Char) → Option (Taken Unit s)
  | [] => none
  | d :: s => if d = c then some (.head () d s) else none

end HostSheet
