import Dialogue.Script.Comment
import Mathlib.Data.List.Infix

/-!
# Where the comment of a line begins

The code of a line is what stands in front of its first comment, and it is the only text that does
(`code_eq_iff`). So two slashes on the code are those of a literal (`not_commentAt_code`), the code
has no comment to lose (`code_code`), and what follows it is a comment (`exists_comment`).
-/

namespace Dialogue.Script

theorem commentMarker_ne_nil : commentMarker ≠ [] := by decide

/-- A comment begins at an offset of a line that is read from inside of a literal or outside: two
slashes stand there, and no literal is open. -/
def CommentAt (inside : Bool) (line : Text) (p : Nat) : Prop :=
  commentMarker <+: line.drop p ∧ opensLiteral (line.take p) = inside

instance (inside : Bool) (line : Text) (p : Nat) : Decidable (CommentAt inside line p) :=
  inferInstanceAs (Decidable (_ ∧ _))

/-- A line is cut off in front of its first comment, or not at all. -/
structure UpToComment (inside : Bool) (line text : Text) : Prop where
  start : text <+: line
  uncut : ∀ p < text.length, ¬ CommentAt inside line p
  cut : text.length < line.length → CommentAt inside line text.length

section Reading

variable {inside : Bool} {line text : Text} {p : Nat}

theorem commentAt_zero : CommentAt inside line 0 ↔ inside = false ∧ commentMarker <+: line := by
  rw [CommentAt, List.drop_zero, List.take_zero, and_comm, eq_comm]
  rfl

theorem commentAt_succ {c : Char} : CommentAt inside (c :: line) (p + 1)
    ↔ CommentAt (if c = quote then !inside else inside) line p := by
  rw [CommentAt, CommentAt, List.drop_succ_cons, List.take_succ_cons, opensLiteral_cons]
  split
  · rw [Bool.not_eq_eq_eq_not]
  · rfl

theorem CommentAt.lt (h : CommentAt inside line p) : p < line.length := by
  by_contra hge
  have hmarker := h.1
  rw [List.drop_eq_nil_of_le (Nat.le_of_not_lt hge)] at hmarker
  exact commentMarker_ne_nil (List.prefix_nil.1 hmarker)

/-- Where no comment begins, two slashes stand in a literal. -/
theorem not_commentAt_iff : ¬ CommentAt false line p
    ↔ (commentMarker <+: line.drop p → opensLiteral (line.take p) = true) := by
  rw [CommentAt, not_and, Bool.not_eq_false]

/-- What is written behind a text moves none of its comments. -/
theorem CommentAt.of_isPrefix (h : CommentAt inside text p) (hline : text <+: line) :
    CommentAt inside line p := by
  obtain ⟨more, rfl⟩ := hline
  have hp := Nat.le_of_lt h.lt
  rw [CommentAt, List.drop_append_of_le_length hp, List.take_append_of_le_length hp]
  exact ⟨h.1.trans (List.prefix_append _ _), h.2⟩

theorem UpToComment.cons {c : Char}
    (h : UpToComment (if c = quote then !inside else inside) line text)
    (hc : ¬ CommentAt inside (c :: line) 0) : UpToComment inside (c :: line) (c :: text) where
  start := (List.prefix_cons_inj c).2 h.start
  uncut := by
    rintro (_ | p) hp
    · exact hc
    · rw [commentAt_succ]
      exact h.uncut p (Nat.lt_of_succ_lt_succ hp)
  cut hlt := commentAt_succ.2 (h.cut (Nat.lt_of_succ_lt_succ hlt))

theorem upToComment_nil (h : line ≠ [] → CommentAt inside line 0) : UpToComment inside line [] where
  start := List.nil_prefix
  uncut _ hp := absurd hp (Nat.not_lt_zero _)
  cut hlt := h (List.length_pos_iff.1 hlt)

theorem upToComment_codeFrom : ∀ (inside : Bool) (line : Text),
    UpToComment inside line (codeFrom inside line)
  | _, [] => upToComment_nil fun h => absurd rfl h
  | inside, c :: rest => by
    unfold codeFrom
    split_ifs with hquote hmarker
    · refine .cons ?_ fun h => ?_
      · rw [if_pos hquote]
        exact upToComment_codeFrom (!inside) rest
      · -- a quote is no slash
        obtain ⟨more, hmore⟩ := (commentAt_zero.1 h).2
        rw [hquote] at hmore
        exact absurd (List.cons.inj hmore).1 (by decide)
    · rw [Bool.and_eq_true, Bool.not_eq_true', List.isPrefixOf_iff_prefix] at hmarker
      exact upToComment_nil fun _ => commentAt_zero.2 hmarker
    · refine .cons ?_ fun h => ?_
      · rw [if_neg hquote]
        exact upToComment_codeFrom inside rest
      · rw [Bool.and_eq_true, Bool.not_eq_true', List.isPrefixOf_iff_prefix] at hmarker
        exact hmarker (commentAt_zero.1 h)

theorem UpToComment.length_le {other : Text} (h : UpToComment inside line text)
    (hother : UpToComment inside line other) : text.length ≤ other.length := by
  by_contra hlt
  have hlt : other.length < text.length := Nat.lt_of_not_le hlt
  exact h.uncut other.length hlt (hother.cut (hlt.trans_le h.start.length_le))

theorem UpToComment.unique {other : Text} (h : UpToComment inside line text)
    (hother : UpToComment inside line other) : text = other := by
  have hprefix := List.prefix_of_prefix_length_le h.start hother.start (h.length_le hother)
  exact hprefix.eq_of_length_le (hother.length_le h)

end Reading

section Code

variable {line : Text} {p : Nat}

theorem upToComment_code (line : Text) : UpToComment false line (code line) :=
  upToComment_codeFrom false line

theorem code_eq_iff {text : Text} : code line = text ↔ UpToComment false line text :=
  ⟨fun h => h ▸ upToComment_code line, (upToComment_code line).unique⟩

example : CommentAt false "a'//'///b" 5 ∧ code "a'//'///b" = "a'//'" := by decide

theorem prefix_code (line : Text) : code line <+: line := (upToComment_code line).start

/-- What is left of a line behind its code is empty or a comment. -/
theorem exists_comment (line : Text) :
    ∃ comment, line = code line ++ comment ∧ (comment = [] ∨ commentMarker <+: comment) := by
  have hline := List.prefix_iff_eq_append.1 (prefix_code line)
  refine ⟨line.drop (code line).length, hline.symm, ?_⟩
  rcases (prefix_code line).length_le.eq_or_lt with hwhole | hcut
  · rw [hwhole, List.drop_length]
    exact .inl rfl
  · exact .inr ((upToComment_code line).cut hcut).1

theorem take_code (h : p < (code line).length) : (code line).take p = line.take p := by
  obtain ⟨comment, hline⟩ := prefix_code line
  conv_rhs => rw [← hline]
  exact (List.take_append_of_le_length (Nat.le_of_lt h)).symm

/-- Two slashes in front of the comment of a line stand inside a literal. -/
theorem opensLiteral_of_slashes (hmarker : commentMarker <+: line.drop p)
    (hp : p < (code line).length) : opensLiteral (line.take p) = true :=
  not_commentAt_iff.1 ((upToComment_code line).uncut p hp) hmarker

theorem opensLiteral_of_cut (h : (code line).length < line.length) :
    opensLiteral (code line) = false := by
  have houtside := ((upToComment_code line).cut h).2
  rwa [← List.prefix_iff_eq_take.1 (prefix_code line)] at houtside

theorem not_commentAt_code (line : Text) (p : Nat) : ¬ CommentAt false (code line) p :=
  fun h => (upToComment_code line).uncut p h.lt (h.of_isPrefix (prefix_code line))

theorem code_eq_self (h : ∀ p, ¬ CommentAt false line p) : code line = line :=
  code_eq_iff.2 ⟨List.prefix_rfl, fun p _ => h p, fun hlt => absurd hlt (lt_irrefl _)⟩

@[simp] theorem code_code (line : Text) : code (code line) = code line :=
  code_eq_self (not_commentAt_code line)

/-- A line without two slashes is code as a whole, whatever its literals are. -/
theorem code_of_not_infix (h : ¬ commentMarker <:+: line) : code line = line :=
  code_eq_self fun p hp => h (hp.1.isInfix.trans (List.drop_suffix p line).isInfix)

end Code

end Dialogue.Script
