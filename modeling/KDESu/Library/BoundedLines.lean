/- KDESu/Library/BoundedLines
   digest: Reading a stream line by line into a buffer that long lines do not fit into. -/

import Mathlib.Data.List.Basic

set_option autoImplicit false
set_option relaxedAutoImplicit false

namespace KDESu.Library.BoundedLines

variable {α : Type} [DecidableEq α] {sep : α} {limit : Nat}

/-- The next line of a stream with the separator at its end, or the first `limit` elements of a
line that is longer; and what remains of the stream. -/
def nextLine (sep : α) : Nat → List α → List α × List α
  | 0, stream => ([], stream)
  | _ + 1, [] => ([], [])
  | limit + 1, c :: stream =>
      if c = sep then ([c], stream)
      else
        let (taken, left) := nextLine sep limit stream
        (c :: taken, left)

theorem nextLine_of_fits {line : List α} (free : sep ∉ line) (fits : line.length < limit)
    (later : List α) : nextLine sep limit (line ++ sep :: later) = (line ++ [sep], later) := by
  induction line generalizing limit with
  | nil =>
    obtain ⟨limit, rfl⟩ := Nat.exists_eq_succ_of_ne_zero (Nat.ne_of_gt fits)
    exact if_pos rfl
  | cons c line ih =>
    obtain ⟨limit, rfl⟩ := Nat.exists_eq_succ_of_ne_zero (Nat.ne_of_gt (Nat.zero_lt_of_lt fits))
    have other : c ≠ sep := by
      rintro rfl
      exact free List.mem_cons_self
    rw [List.cons_append, nextLine, if_neg other,
      ih (fun member => free (List.mem_cons_of_mem c member)) (Nat.lt_of_succ_lt_succ fits)]
    rfl

theorem nextLine_of_long {line : List α} (free : sep ∉ line) (long : limit ≤ line.length)
    (later : List α) :
    nextLine sep limit (line ++ later) = (line.take limit, line.drop limit ++ later) := by
  induction limit generalizing line with
  | zero => rfl
  | succ limit ih =>
    cases line with
    | nil => cases long
    | cons c line =>
      have other : c ≠ sep := by
        rintro rfl
        exact free List.mem_cons_self
      rw [List.cons_append, nextLine, if_neg other,
        ih (fun member => free (List.mem_cons_of_mem c member)) (Nat.le_of_succ_le_succ long)]
      rfl

theorem free_of_nextLine {stream : List α} :
    sep ∉ (nextLine sep limit stream).1.dropLast := by
  induction limit generalizing stream with
  | zero => simp [nextLine]
  | succ limit ih =>
    cases stream with
    | nil => simp [nextLine]
    | cons c stream =>
      rw [nextLine]
      split_ifs with here
      · simp
      · intro member
        cases read : (nextLine sep limit stream).1 with
        | nil => simp [read] at member
        | cons d taken =>
          have later : sep ∉ (nextLine sep limit stream).1.dropLast := ih
          simp only [read, List.dropLast_cons_cons, List.mem_cons] at member
          rcases member with rfl | member
          · exact here rfl
          · exact later (read ▸ member)

theorem nextLine_append (sep : α) (limit : Nat) (stream : List α) :
    (nextLine sep limit stream).1 ++ (nextLine sep limit stream).2 = stream := by
  induction limit generalizing stream with
  | zero => rfl
  | succ limit ih =>
    cases stream with
    | nil => rfl
    | cons c stream =>
      rw [nextLine]
      split_ifs
      · rfl
      · exact congrArg (c :: ·) (ih stream)

theorem nextLine_length_le (stream : List α) : (nextLine sep limit stream).1.length ≤ limit := by
  induction limit generalizing stream with
  | zero => exact Nat.le_refl 0
  | succ limit ih =>
    cases stream with
    | nil => exact Nat.zero_le _
    | cons c stream =>
      rw [nextLine]
      split_ifs
      · exact Nat.succ_le_succ (Nat.zero_le limit)
      · exact Nat.succ_le_succ (ih stream)

theorem nextLine_ne_nil (sep : α) (room : 0 < limit) {stream : List α} (more : stream ≠ []) :
    (nextLine sep limit stream).1 ≠ [] := by
  obtain ⟨limit, rfl⟩ := Nat.exists_eq_succ_of_ne_zero (Nat.ne_of_gt room)
  obtain ⟨c, stream, rfl⟩ := List.exists_cons_of_ne_nil more
  rw [nextLine]
  split_ifs <;> exact List.cons_ne_nil _ _

theorem nextLine_left_lt (sep : α) (room : 0 < limit) {stream : List α} (more : stream ≠ []) :
    (nextLine sep limit stream).2.length < stream.length := by
  have first := List.length_pos_of_ne_nil (nextLine_ne_nil sep room more)
  have whole := congrArg List.length (nextLine_append sep limit stream)
  rw [List.length_append] at whole
  omega

def linesFrom (sep : α) (limit : Nat) : Nat → List α → List (List α)
  | 0, _ => []
  | fuel + 1, stream =>
      if stream = [] then []
      else (nextLine sep limit stream).1 :: linesFrom sep limit fuel (nextLine sep limit stream).2

/-- The lines up to the end of the stream; each takes one element at least. -/
def lines (sep : α) (limit : Nat) (stream : List α) : List (List α) :=
  linesFrom sep limit stream.length stream

@[simp] theorem lines_nil : lines sep limit [] = [] := rfl

private theorem linesFrom_enough (room : 0 < limit) {fuel fuel' : Nat} {stream : List α}
    (enough : stream.length ≤ fuel) (enough' : stream.length ≤ fuel') :
    linesFrom sep limit fuel stream = linesFrom sep limit fuel' stream := by
  induction fuel generalizing fuel' stream with
  | zero =>
    obtain rfl := List.eq_nil_of_length_eq_zero (Nat.le_zero.mp enough)
    cases fuel' <;> rfl
  | succ fuel ih =>
    by_cases done : stream = []
    · subst done
      cases fuel' <;> rfl
    · have shorter := nextLine_left_lt sep room done
      obtain ⟨fuel', rfl⟩ : ∃ n, fuel' = n + 1 := ⟨fuel' - 1, by omega⟩
      simp only [linesFrom, if_neg done]
      exact congrArg _ (ih (by omega) (by omega))

theorem lines_of_ne_nil (room : 0 < limit) {stream : List α} (more : stream ≠ []) :
    lines sep limit stream =
      (nextLine sep limit stream).1 :: lines sep limit (nextLine sep limit stream).2 := by
  have shorter := nextLine_left_lt sep room more
  have unfolded : lines sep limit stream = linesFrom sep limit (stream.length + 1) stream :=
    linesFrom_enough room (Nat.le_refl _) (Nat.le_succ _)
  rw [unfolded, linesFrom, if_neg more]
  exact congrArg _ (linesFrom_enough room (by omega) (Nat.le_refl _))

end KDESu.Library.BoundedLines
