import Dialogue.Script.Invocation
import Mathlib.Tactic.SplitIfs

/-!
# The argument at a position

Looking up the call at a position counts the commas up to there, and reading its arguments cuts the
list at the commas, up to the end of it. Both read the same list from the same parenthesis: up to a
position at which the list is open, the parts are those that the commas close and the one that is
begun (`readsTo_of_openArgument?`), so the position falls in the argument that the lookup says
(`argument_of_enclosing`).
-/

namespace Dialogue.Script

open Text

/-- A text in front of the first part. -/
def prependFirst (text : Text) : List Text → List Text
  | [] => [text]
  | part :: rest => (text ++ part) :: rest

theorem prependFirst_eq_cons (text : Text) (parts : List Text) :
    ∃ rest after, prependFirst text parts = (text ++ rest) :: after := by
  rcases parts with _ | ⟨part, after⟩
  · exact ⟨[], [], by simp [prependFirst]⟩
  · exact ⟨part, after, rfl⟩

theorem consFirst_prependFirst (c : Char) (text : Text) (parts : List Text) :
    consFirst c (prependFirst text parts) = prependFirst (c :: text) parts := by
  cases parts <;> rfl

theorem prependFirst_nil {parts : List Text} (h : parts ≠ []) : prependFirst [] parts = parts := by
  obtain ⟨part, rest, rfl⟩ := List.exists_cons_of_ne_nil h
  rfl

theorem join_cons (separator first : Text) {parts : List Text} (h : parts ≠ []) :
    join separator (first :: parts) = first ++ separator ++ join separator parts := by
  obtain ⟨second, rest, rfl⟩ := List.exists_cons_of_ne_nil h
  rfl

/-! ## A list that is open -/

/-- The parts of a list up to a place where it is open: those that a comma has closed, and the one
that is begun. -/
structure Begun where
  closed : List Text := []
  part : Text := []

namespace Begun

/-- The parts when those of the rest follow. -/
def andThen (begun : Begun) (parts : List Text) : List Text :=
  begun.closed ++ prependFirst begun.part parts

/-- The text of the parts with their commas. -/
def text (begun : Begun) : Text := join [','] (begun.closed ++ [begun.part])

/-- One more character in front. -/
def consChar (c : Char) : Begun → Begun
  | ⟨[], part⟩ => ⟨[], c :: part⟩
  | ⟨first :: closed, part⟩ => ⟨(c :: first) :: closed, part⟩

def consPart (begun : Begun) : Begun := { begun with closed := [] :: begun.closed }

theorem andThen_consChar (c : Char) : ∀ (begun : Begun) (parts : List Text),
    (begun.consChar c).andThen parts = consFirst c (begun.andThen parts)
  | ⟨[], part⟩, parts => (consFirst_prependFirst c part parts).symm
  | ⟨_ :: _, _⟩, _ => rfl

theorem text_consChar (c : Char) : ∀ begun : Begun, (begun.consChar c).text = c :: begun.text
  | ⟨[], _⟩ => rfl
  | ⟨first :: closed, part⟩ => by
    have hne : closed ++ [part] ≠ [] := by simp
    simp only [text, consChar, List.cons_append, join_cons [','] _ hne]

theorem length_consChar (c : Char) : ∀ begun : Begun,
    (begun.consChar c).closed.length = begun.closed.length
  | ⟨[], _⟩ => rfl
  | ⟨_ :: _, _⟩ => rfl

theorem text_consPart (begun : Begun) : begun.consPart.text = ',' :: begun.text := by
  have hne : begun.closed ++ [begun.part] ≠ [] := by simp
  exact join_cons [','] [] hne

end Begun

section Characters

variable (inside : Bool) (depth : Nat) (rest : Text)

theorem argumentParts_quote : argumentParts inside depth (quote :: rest)
    = consFirst quote (argumentParts (!inside) depth rest) := by
  simp [argumentParts]

theorem argumentParts_literal {c : Char} (hquote : c ≠ quote) :
    argumentParts true depth (c :: rest) = consFirst c (argumentParts true depth rest) := by
  simp [argumentParts, hquote]

theorem argumentParts_open : argumentParts false depth ('(' :: rest)
    = consFirst '(' (argumentParts false (depth + 1) rest) :=
  rfl

theorem argumentParts_close : argumentParts false (depth + 1) (')' :: rest)
    = consFirst ')' (argumentParts false depth rest) :=
  rfl

theorem argumentParts_comma : argumentParts false 0 (',' :: rest)
    = [] :: argumentParts false 0 rest :=
  rfl

/-- A comma that parts no arguments, or any other character outside of literals. -/
theorem argumentParts_other {c : Char} (hquote : c ≠ quote) (hopen : c ≠ '(') (hclose : c ≠ ')')
    (hcomma : ¬ (c = ',' ∧ depth = 0)) :
    argumentParts false depth (c :: rest) = consFirst c (argumentParts false depth rest) := by
  simp [argumentParts, hquote, hopen, hclose, hcomma]

end Characters

theorem argumentParts_ne_nil (inside : Bool) (depth : Nat) (text : Text) :
    argumentParts inside depth text ≠ [] := by
  have hfirst : ∀ (c : Char) (parts : List Text), consFirst c parts ≠ [] := by
    intro c parts
    cases parts <;> simp [consFirst]
  cases text with
  | nil => simp [argumentParts]
  | cons c rest =>
    unfold argumentParts
    split_ifs
    · exact hfirst c _
    · exact hfirst c _
    · exact hfirst c _
    · cases depth with
      | zero => simp
      | succ depth => exact hfirst c _
    · simp
    · exact hfirst c _

/-- Reading the text takes the reader of a list from one state to another, and what it has begun by
then are the first parts, however the list goes on. -/
structure ReadsTo (inside : Bool) (depth : Nat) (text : Text) (begun : Begun) (inside' : Bool)
    (depth' : Nat) : Prop where
  text_eq : begun.text = text
  parts_eq : ∀ tail, argumentParts inside depth (text ++ tail)
    = begun.andThen (argumentParts inside' depth' tail)

namespace ReadsTo

variable {inside inside₁ inside' : Bool} {depth depth₁ depth' : Nat} {text : Text} {begun : Begun}

theorem nil (inside : Bool) (depth : Nat) : ReadsTo inside depth [] {} inside depth := by
  exact ⟨rfl, fun tail => (prependFirst_nil (argumentParts_ne_nil inside depth tail)).symm⟩

/-- A character that belongs to the part in front of which it stands. -/
theorem char {c : Char} (h : ReadsTo inside₁ depth₁ text begun inside' depth')
    (hstep : ∀ rest, argumentParts inside depth (c :: rest)
      = consFirst c (argumentParts inside₁ depth₁ rest)) :
    ReadsTo inside depth (c :: text) (begun.consChar c) inside' depth' := by
  refine ⟨?_, fun tail => ?_⟩
  · rw [Begun.text_consChar, h.text_eq]
  · rw [List.cons_append, hstep, h.parts_eq, Begun.andThen_consChar]

theorem comma (h : ReadsTo false 0 text begun inside' depth') :
    ReadsTo false 0 (',' :: text) begun.consPart inside' depth' := by
  refine ⟨?_, fun tail => ?_⟩
  · rw [Begun.text_consPart, h.text_eq]
  · rw [List.cons_append, argumentParts_comma, h.parts_eq]
    rfl

/-- The list up to there, cut at its commas. -/
theorem parts_of_end (h : ReadsTo inside depth text begun inside' depth') :
    argumentParts inside depth text = begun.closed ++ [begun.part] := by
  have hparts := h.parts_eq []
  rw [List.append_nil] at hparts
  rw [hparts]
  simp [argumentParts, Begun.andThen, prependFirst]

end ReadsTo

/-- Where the lookup finds a list open, it has counted the parts that are closed. -/
theorem readsTo_of_openArgument? : ∀ {text : Text} {inside : Bool} {depth argument found : Nat},
    openArgument? inside depth argument text = some found →
    ∃ begun inside' depth', ReadsTo inside depth text begun inside' depth'
      ∧ argument + begun.closed.length = found
  | [], inside, depth, argument, found, h => by
    refine ⟨{}, inside, depth, .nil inside depth, ?_⟩
    simpa [openArgument?] using h
  | c :: rest, inside, depth, argument, found, h => by
    -- the lookup and the reader tell the same characters apart, so its cases are the reader's steps
    unfold openArgument? at h
    split_ifs at h with hquote hinside hopen hclose hcomma
    · subst hquote
      obtain ⟨begun, inside', depth', hreads, hcount⟩ := readsTo_of_openArgument? h
      exact ⟨_, inside', depth', hreads.char (argumentParts_quote _ _),
        by rwa [Begun.length_consChar]⟩
    · subst hinside
      obtain ⟨begun, inside', depth', hreads, hcount⟩ := readsTo_of_openArgument? h
      exact ⟨_, inside', depth', hreads.char (argumentParts_literal _ · hquote),
        by rwa [Begun.length_consChar]⟩
    all_goals
      obtain rfl : inside = false := by simpa using hinside
    · subst hopen
      obtain ⟨begun, inside', depth', hreads, hcount⟩ := readsTo_of_openArgument? h
      exact ⟨_, inside', depth', hreads.char (argumentParts_open _), by rwa [Begun.length_consChar]⟩
    · subst hclose
      cases depth with
      | zero => cases h
      | succ depth =>
        obtain ⟨begun, inside', depth', hreads, hcount⟩ := readsTo_of_openArgument? h
        exact ⟨_, inside', depth', hreads.char (argumentParts_close _),
          by rwa [Begun.length_consChar]⟩
    · obtain ⟨rfl, rfl⟩ := hcomma
      obtain ⟨begun, inside', depth', hreads, hcount⟩ := readsTo_of_openArgument? h
      refine ⟨_, inside', depth', hreads.comma, ?_⟩
      rw [Begun.consPart, List.length_cons]
      omega
    · obtain ⟨begun, inside', depth', hreads, hcount⟩ := readsTo_of_openArgument? h
      exact ⟨_, inside', depth',
        hreads.char (argumentParts_other _ · hquote hopen hclose hcomma),
        by rwa [Begun.length_consChar]⟩

/-! ## The call at a position -/

/-- The text, which a list begins with, ends in the argument of this number: in front of that one
stand the arguments before it, each with its comma, and of itself a part. -/
def EndsIn (text list : Text) (argument : Nat) : Prop :=
  ∃ closed part rest after, argumentParts false 0 list = closed ++ (part ++ rest) :: after
    ∧ closed.length = argument ∧ text = join [','] (closed ++ [part])

/-- The arguments are the trimmed parts, but for a list that has one blank part. -/
theorem arguments_cases (text : Text) :
    arguments text = (argumentParts false 0 text).map trim
      ∨ arguments text = [] ∧ (argumentParts false 0 text).length = 1 := by
  simp only [arguments]
  split_ifs with h
  · right
    have hlength := congrArg List.length (eq_of_beq h)
    exact ⟨rfl, by simpa using hlength⟩
  · exact .inl rfl

/-- The arguments of a list and those of a beginning of it: the same ones up to the argument that
the beginning ends in. -/
theorem arguments_of_begun {list text : Text} {closed after : List Text} {part last : Text}
    (hlist : argumentParts false 0 list = closed ++ last :: after)
    (htext : argumentParts false 0 text = closed ++ [part]) :
    (arguments list = [] ∧ closed.length = 0 ∨ closed.length < (arguments list).length)
      ∧ (arguments text).take closed.length = (arguments list).take closed.length
      ∧ (arguments text).length ≤ closed.length + 1 := by
  have hcut : ∀ rest : List Text,
      ((closed ++ rest).map trim).take closed.length = closed.map trim := by simp
  -- a list of one blank part has no arguments, and the beginning of a list can be such a one
  rcases arguments_cases list with hall | ⟨hnone, hone⟩ <;>
    rcases arguments_cases text with hall' | ⟨hnone', hone'⟩
  · rw [hall, hall', hlist, htext, hcut, hcut]
    refine ⟨.inr ?_, rfl, ?_⟩ <;> simp
  · have hclosed : closed = [] := by simpa [htext] using hone'
    subst hclosed
    rw [hall, hlist, hnone']
    simp
  · have hclosed : closed = [] := by
      rw [hlist] at hone
      simp only [List.length_append, List.length_cons] at hone
      exact List.length_eq_zero_iff.1 (by omega)
    subst hclosed
    rw [hnone, hall', htext]
    simp
  · have hclosed : closed = [] := by simpa [htext] using hone'
    subst hclosed
    rw [hnone, hnone']
    simp

/-- The call that a position is looked up to be in is one of the line, with the arguments that are
read from its parenthesis. The position falls in the argument that the lookup says: the arguments in
front of it are those of the line up to the position, which has no more than one behind them. -/
theorem argument_of_enclosing {line : Text} {position : Int} {found : Enclosing}
    (h : enclosing? line position = some found) :
    ⟨found.name, argumentsAt line found.start⟩ ∈ invocations line
      ∧ (argumentsAt line found.start = [] ∧ found.argument = 0
        ∨ found.argument < (argumentsAt line found.start).length)
      ∧ (argumentsAt (line.take position.toNat) found.start).take found.argument
        = (argumentsAt line found.start).take found.argument
      ∧ (argumentsAt (line.take position.toNat) found.start).length ≤ found.argument + 1
      ∧ EndsIn ((line.take position.toNat).drop found.start) (line.drop found.start)
        found.argument := by
  cases position with
  | negSucc n => cases h
  | ofNat n =>
    obtain ⟨o, hmem, ho⟩ := List.mem_filterMap.1 (List.mem_of_getLast? h)
    unfold Opening.enclosing? at ho
    split_ifs at ho with hstart
    obtain ⟨argument, hopen, rfl⟩ := Option.map_eq_some_iff.1 ho
    obtain ⟨begun, inside, depth, hreads, hcount⟩ := readsTo_of_openArgument? hopen
    obtain ⟨rest, after, hrest⟩ := prependFirst_eq_cons begun.part
      (argumentParts inside depth ((line.drop o.start).drop (n - o.start)))
    have htext : argumentParts false 0 ((line.take n).drop o.start) = begun.closed ++ [begun.part] :=
      hreads.parts_of_end
    have hlist : argumentParts false 0 (line.drop o.start)
        = begun.closed ++ (begun.part ++ rest) :: after := by
      rw [← hrest, ← Begun.andThen, ← hreads.parts_eq, List.drop_take, List.take_append_drop]
    obtain rfl : begun.closed.length = argument := by omega
    obtain ⟨hin, hfirst, hlast⟩ := arguments_of_begun hlist htext
    exact ⟨List.mem_map.2 ⟨o, hmem, rfl⟩, hin, hfirst, hlast,
      begun.closed, begun.part, rest, after, hlist, rfl, hreads.text_eq.symm⟩

/-- A position in the third argument, behind a literal with a comma and an inner call. -/
theorem argument_of_enclosing_third :
    enclosing? "F('a,(', G(1, 2), b , c)" (19 : Nat) = some ⟨"F", 2, 2⟩
      ∧ (argumentsAt (("F('a,(', G(1, 2), b , c)").toList.take 19) (2 : Nat)).take 2
        = ["'a,('".toList, "G(1, 2)".toList]
      ∧ 2 < (argumentsAt "F('a,(', G(1, 2), b , c)" (2 : Nat)).length := by
  have hfound : enclosing? "F('a,(', G(1, 2), b , c)" (19 : Nat) = some ⟨"F", 2, 2⟩ := by
    decide +kernel
  obtain ⟨-, hin, hfirst, -⟩ := argument_of_enclosing hfound
  refine ⟨hfound, ?_, ?_⟩
  · exact hfirst.trans (by decide +kernel)
  · exact hin.resolve_left (by simp)

end Dialogue.Script
