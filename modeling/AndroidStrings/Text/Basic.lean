/-!
# Text and byte spans

A text is a list of characters.  Places in a text are counted in bytes of its UTF-8 form, so a
span `[start, stop)` of an editor or of a file means the same here.  The laws of this module say
that cutting at a byte offset loses nothing, and what a cut at a known boundary gives.
-/

namespace AndroidStrings

abbrev Text := List Char

structure Span where
  start : Nat
  stop : Nat
  deriving DecidableEq, Repr

namespace Text

def size : Text → Nat
  | [] => 0
  | c :: t => c.utf8Size + size t

/-- The longest part at the front that has at most this many bytes. -/
def takeBytes : Nat → Text → Text
  | _, [] => []
  | n, c :: t => if c.utf8Size ≤ n then c :: takeBytes (n - c.utf8Size) t else []

/-- What `takeBytes` leaves over. -/
def dropBytes : Nat → Text → Text
  | _, [] => []
  | n, c :: t => if c.utf8Size ≤ n then dropBytes (n - c.utf8Size) t else c :: t

def slice (t : Text) (span : Span) : Text :=
  takeBytes (span.stop - span.start) (dropBytes span.start t)

def splice (t : Text) (span : Span) (replacement : Text) : Text :=
  takeBytes span.start t ++ replacement ++ dropBytes span.stop t

/-!
## Laws of cutting

A cut at the size of a known front part falls between that part and the rest.
-/

@[simp] theorem size_nil : size [] = 0 := rfl

@[simp] theorem size_cons (c : Char) (t : Text) : size (c :: t) = c.utf8Size + size t := rfl

@[simp] theorem size_append (s t : Text) : size (s ++ t) = size s + size t := by
  induction s with
  | nil => simp
  | cons c s ih => simp [ih, Nat.add_assoc]

theorem takeBytes_append_dropBytes (n : Nat) (t : Text) :
    takeBytes n t ++ dropBytes n t = t := by
  induction t generalizing n with
  | nil => rfl
  | cons c t ih =>
      by_cases h : c.utf8Size ≤ n
      · simp [takeBytes, dropBytes, h, ih]
      · simp [takeBytes, dropBytes, h]

@[simp] theorem takeBytes_zero (t : Text) : takeBytes 0 t = [] := by
  cases t with
  | nil => rfl
  | cons c t =>
      have h := c.utf8Size_pos
      simp [takeBytes]
      omega

@[simp] theorem dropBytes_zero (t : Text) : dropBytes 0 t = t := by
  cases t with
  | nil => rfl
  | cons c t =>
      have h := c.utf8Size_pos
      simp [dropBytes]
      omega

theorem takeBytes_size_add (s t : Text) (n : Nat) :
    takeBytes (size s + n) (s ++ t) = s ++ takeBytes n t := by
  induction s with
  | nil => simp
  | cons c s ih => simp [takeBytes, Nat.add_assoc, ih]

theorem dropBytes_size_add (s t : Text) (n : Nat) :
    dropBytes (size s + n) (s ++ t) = dropBytes n t := by
  induction s with
  | nil => simp
  | cons c s ih => simp [dropBytes, Nat.add_assoc, ih]

theorem slice_append (front middle back : Text) :
    slice (front ++ middle ++ back) ⟨size front, size front + size middle⟩ = middle := by
  have hdrop := dropBytes_size_add front (middle ++ back) 0
  have htake := takeBytes_size_add middle back 0
  simp only [Nat.add_zero, dropBytes_zero, takeBytes_zero, List.append_nil] at hdrop htake
  show takeBytes (size front + size middle - size front)
    (dropBytes (size front) (front ++ middle ++ back)) = middle
  rw [Nat.add_sub_cancel_left, List.append_assoc, hdrop, htake]

theorem splice_append (front middle back replacement : Text) :
    splice (front ++ middle ++ back) ⟨size front, size front + size middle⟩ replacement =
      front ++ replacement ++ back := by
  have htake := takeBytes_size_add front (middle ++ back) 0
  have hdrop := dropBytes_size_add (front ++ middle) back 0
  simp only [Nat.add_zero, dropBytes_zero, takeBytes_zero, List.append_nil, size_append]
    at hdrop htake
  simp only [splice, hdrop]
  simp [List.append_assoc] at htake ⊢
  simp [htake]

end Text
end AndroidStrings
