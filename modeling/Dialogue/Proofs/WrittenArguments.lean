import Dialogue.Proofs.ArgumentLists
import Dialogue.Proofs.Blanks
import Mathlib.Data.List.Forall2
import Mathlib.Data.List.Infix

/-!
# Arguments that are written as a list

A text can stand as an argument if its literals are closed, its parentheses balance and no comma
parts it (`IsArgument`). Such a text is read as a whole, whatever follows it
(`Completes.argumentParts_append`), so arguments that are joined by commas are read back
(`argumentsAt_written`).
-/

namespace Dialogue.Script

open Text

/-- The characters outside of literals, the quotes left out. -/
def bareFrom (inside : Bool) : Text → Text
  | [] => []
  | c :: rest =>
    if c = quote then bareFrom (!inside) rest
    else if inside then bareFrom inside rest
    else c :: bareFrom inside rest

/-- The rest of an argument, behind so many parentheses that are open, and inside of a literal or
outside: it closes them, none before it was opened, and no comma stands outside of all. -/
structure Completes (inside : Bool) (depth : Nat) (text : Text) : Prop where
  paired : opensLiteral text = inside
  balanced : (bareFrom inside text).count ')' = depth + (bareFrom inside text).count '('
  nested : ∀ front, front <+: bareFrom inside text → front.count ')' ≤ depth + front.count '('
  single : ∀ front, front ++ [','] <+: bareFrom inside text →
    front.count ')' < depth + front.count '('

/-- A text that can stand as one argument of a list. -/
structure IsArgument (text : Text) : Prop where
  trimmed : trim text = text
  completes : Completes false 0 text

instance (inside : Bool) (depth : Nat) (text : Text) : Decidable (Completes inside depth text) :=
  decidable_of_iff (opensLiteral text = inside
      ∧ (bareFrom inside text).count ')' = depth + (bareFrom inside text).count '('
      ∧ (∀ front ∈ (bareFrom inside text).inits, front.count ')' ≤ depth + front.count '(')
      ∧ ∀ front ∈ (bareFrom inside text).inits, front ++ [','] <+: bareFrom inside text →
        front.count ')' < depth + front.count '(') <| by
    simp only [List.mem_inits]
    exact ⟨fun ⟨hpaired, hbalanced, hnested, hsingle⟩ => ⟨hpaired, hbalanced, hnested,
        fun front h => hsingle front ((List.prefix_append front [',']).trans h) h⟩,
      fun h => ⟨h.paired, h.balanced, h.nested, fun front _ => h.single front⟩⟩

instance (text : Text) : Decidable (IsArgument text) :=
  decidable_of_iff (trim text = text ∧ Completes false 0 text)
    ⟨fun ⟨htrim, hcompletes⟩ => ⟨htrim, hcompletes⟩, fun h => ⟨h.trimmed, h.completes⟩⟩

theorem prependFirst_append (first second : Text) (parts : List Text) :
    prependFirst first (prependFirst second parts) = prependFirst (first ++ second) parts := by
  cases parts <;> simp [prependFirst]

namespace Completes

variable {inside : Bool} {depth : Nat} {c : Char} {rest : Text}

theorem quoted (h : Completes inside depth (quote :: rest)) : Completes (!inside) depth rest := by
  obtain ⟨hpaired, hbalanced, hnested, hsingle⟩ := h
  simp only [bareFrom, if_true] at hbalanced hnested hsingle
  rw [opensLiteral_cons, if_pos rfl] at hpaired
  exact ⟨by rw [← hpaired, Bool.not_not], hbalanced, hnested, hsingle⟩

theorem literal (hc : c ≠ quote) (h : Completes true depth (c :: rest)) :
    Completes true depth rest := by
  obtain ⟨hpaired, hbalanced, hnested, hsingle⟩ := h
  simp only [bareFrom, if_neg hc, if_true] at hbalanced hnested hsingle
  rw [opensLiteral_cons, if_neg hc] at hpaired
  exact ⟨hpaired, hbalanced, hnested, hsingle⟩

/-- A character outside of literals leaves a rest in a depth at which the parentheses count as they
do with it. -/
theorem tail {depth' : Nat} (hc : c ≠ quote) (h : Completes false depth (c :: rest))
    (hdepth : depth + [c].count '(' = depth' + [c].count ')') : Completes false depth' rest := by
  obtain ⟨hpaired, hbalanced, hnested, hsingle⟩ := h
  simp only [bareFrom, if_neg hc, Bool.false_eq_true, if_false] at hbalanced hnested hsingle
  rw [opensLiteral_cons, if_neg hc] at hpaired
  have hcount : ∀ (d : Char) (front : Text), (c :: front).count d = [c].count d + front.count d := by
    intro d front
    rw [← List.count_append, List.singleton_append]
  refine ⟨hpaired, ?_, fun front hfront => ?_, fun front hfront => ?_⟩
  · rw [hcount ')', hcount '('] at hbalanced
    omega
  · have hle := hnested (c :: front) ((List.prefix_cons_inj c).2 hfront)
    rw [hcount ')', hcount '('] at hle
    omega
  · have hlt := hsingle (c :: front) ((List.prefix_cons_inj c).2 hfront)
    rw [hcount ')', hcount '('] at hlt
    omega

theorem depth_pos_of_close (h : Completes false depth (')' :: rest)) : 0 < depth := by
  have hle := h.nested [')'] ⟨bareFrom false rest, rfl⟩
  have hcounts : [')'].count ')' = 1 ∧ [')'].count '(' = 0 := by decide
  omega

theorem depth_pos_of_comma (h : Completes false depth (',' :: rest)) : 0 < depth := by
  simpa using h.single [] ⟨bareFrom false rest, rfl⟩

/-- What completes an argument is read as a whole, whatever follows it. -/
theorem argumentParts_append : ∀ {text : Text} {inside : Bool} {depth : Nat},
    Completes inside depth text → ∀ tail, argumentParts inside depth (text ++ tail)
      = prependFirst text (argumentParts false 0 tail)
  | [], inside, depth, h, tail => by
    obtain rfl : false = inside := h.paired
    obtain rfl : depth = 0 := by simpa [bareFrom] using h.balanced.symm
    exact (prependFirst_nil (argumentParts_ne_nil false 0 tail)).symm
  | c :: rest, inside, depth, h, tail => by
    -- one case for each character that the reader tells apart; `Completes` rules out the two that
    -- would end the argument
    rw [List.cons_append, ← consFirst_prependFirst]
    by_cases hquote : c = quote
    · subst hquote
      rw [argumentParts_quote, argumentParts_append h.quoted]
    cases inside with
    | true => rw [argumentParts_literal _ _ hquote, argumentParts_append (h.literal hquote)]
    | false =>
      by_cases hopen : c = '('
      · subst hopen
        have hrest : Completes false (depth + 1) rest := h.tail hquote rfl
        rw [argumentParts_open, argumentParts_append hrest]
      by_cases hclose : c = ')'
      · subst hclose
        obtain ⟨depth, rfl⟩ := Nat.exists_eq_add_one.2 h.depth_pos_of_close
        have hrest : Completes false depth rest := h.tail hquote rfl
        rw [argumentParts_close, argumentParts_append hrest]
      have hcomma : ¬ (c = ',' ∧ depth = 0) := by
        rintro ⟨rfl, rfl⟩
        exact absurd h.depth_pos_of_comma (Nat.lt_irrefl 0)
      have hrest : Completes false depth rest := h.tail hquote (by simp [hopen, hclose])
      rw [argumentParts_other _ _ hquote hopen hclose hcomma, argumentParts_append hrest]

end Completes

/-! ## The list -/

/-- An argument as it is written, with blanks around it. -/
def Padded (argument written : Text) : Prop :=
  ∃ front back, Blank front ∧ Blank back ∧ written = front ++ argument ++ back

theorem argumentParts_blank : ∀ {text : Text}, Blank text → ∀ tail,
    argumentParts false 0 (text ++ tail) = prependFirst text (argumentParts false 0 tail)
  | [], _, tail => (prependFirst_nil (argumentParts_ne_nil false 0 tail)).symm
  | c :: rest, h, tail => by
    obtain ⟨hc, hrest⟩ := List.forall_mem_cons.1 h
    have hne : ∀ d, isBlank d = false → c ≠ d := by
      rintro d hd rfl
      rw [hd] at hc
      cases hc
    have hcomma : ¬ (c = ',' ∧ 0 = 0) := fun hboth => hne ',' (by decide) hboth.1
    rw [List.cons_append, argumentParts_other _ _ (hne quote (by decide)) (hne '(' (by decide))
      (hne ')' (by decide)) hcomma, argumentParts_blank hrest, consFirst_prependFirst]

namespace Padded

variable {argument written : Text}

theorem argumentParts_append (h : Padded argument written) (hargument : IsArgument argument)
    (tail : Text) : argumentParts false 0 (written ++ tail)
      = prependFirst written (argumentParts false 0 tail) := by
  obtain ⟨front, back, hfront, hback, rfl⟩ := h
  rw [List.append_assoc, List.append_assoc, argumentParts_blank hfront,
    hargument.completes.argumentParts_append, argumentParts_blank hback, prependFirst_append,
    prependFirst_append]

theorem trim_eq (h : Padded argument written) (hargument : IsArgument argument) :
    trim written = argument := by
  obtain ⟨front, back, hfront, hback, rfl⟩ := h
  rw [trim_append_blank _ hback, trim_append hfront, hargument.trimmed]

end Padded

/-- Joined by commas, arguments are the parts of a list up to where the list ends. -/
theorem argumentParts_join {tail : Text} (hend : argumentParts false 0 tail = [[]])
    {arguments written : List Text} (hwritten : List.Forall₂ Padded arguments written)
    (harguments : ∀ argument ∈ arguments, IsArgument argument) (hne : arguments ≠ []) :
    argumentParts false 0 (join [','] written ++ tail) = written := by
  induction hwritten with
  | nil => exact absurd rfl hne
  | @cons argument first arguments rest h hrest ih =>
    obtain ⟨hargument, hothers⟩ := List.forall_mem_cons.1 harguments
    cases hrest with
    | nil =>
      rw [join, h.argumentParts_append hargument, hend]
      simp [prependFirst]
    | @cons next second arguments rest hnext hrest =>
      have hcomma : join [','] (first :: second :: rest) ++ tail
          = first ++ ',' :: (join [','] (second :: rest) ++ tail) := by
        rw [join_cons [','] first (by simp)]
        simp
      rw [hcomma, h.argumentParts_append hargument, argumentParts_comma, ih hothers (by simp)]
      simp [prependFirst]

theorem map_trim_of_padded : ∀ {arguments written : List Text},
    List.Forall₂ Padded arguments written → (∀ argument ∈ arguments, IsArgument argument) →
      written.map trim = arguments
  | [], [], .nil, _ => rfl
  | argument :: arguments, written :: rest, .cons h hrest, harguments => by
    obtain ⟨hargument, hothers⟩ := List.forall_mem_cons.1 harguments
    rw [List.map_cons, h.trim_eq hargument, map_trim_of_padded hrest hothers]

theorem arguments_join {tail : Text} (hend : argumentParts false 0 tail = [[]])
    {args written : List Text} (hwritten : List.Forall₂ Padded args written)
    (hargs : ∀ argument ∈ args, IsArgument argument) (hne : args ≠ [[]]) :
    arguments (join [','] written ++ tail) = args := by
  rcases args with _ | ⟨first, rest⟩
  · cases hwritten
    simp only [join, List.nil_append, arguments, hend]
    rfl
  · rw [arguments, argumentParts_join hend hwritten hargs (by simp),
      map_trim_of_padded hwritten hargs]
    simpa using hne

/-- Arguments that are joined by commas, with blanks around them, are read back from their call,
whether its list is closed or runs to the end of the line. -/
theorem argumentsAt_written {args written : List Text}
    (hargs : ∀ argument ∈ args, IsArgument argument) (hne : args ≠ [[]])
    (hwritten : List.Forall₂ Padded args written) (before after : Text) :
    argumentsAt (before ++ '(' :: (join [','] written ++ ')' :: after)) (before.length + 1) = args
      ∧ argumentsAt (before ++ '(' :: join [','] written) (before.length + 1) = args := by
  have hdrop : ∀ list : Text,
      argumentsAt (before ++ '(' :: list) (before.length + 1) = arguments list := by
    intro list
    change arguments ((before ++ '(' :: list).drop (before.length + 1)) = arguments list
    rw [List.drop_length_add_append]
    rfl
  rw [hdrop, hdrop]
  refine ⟨arguments_join rfl hwritten hargs hne, ?_⟩
  have hopen : arguments (join [','] written ++ []) = args :=
    arguments_join rfl hwritten hargs hne
  rwa [List.append_nil] at hopen

/-- A quoted comma, an inner call, and an empty argument at the end. -/
def someArguments : List Text := ["'x, (y'", "FOO(1, 2)", ""]

theorem argumentsAt_written_some :
    (∀ argument ∈ someArguments, IsArgument argument) ∧ someArguments ≠ [[]]
      ∧ argumentsAt "CMD( 'x, (y' ,FOO(1, 2), ) // a, b" (4 : Nat) = someArguments
      ∧ argumentsAt "CMD( 'x, (y' ,FOO(1, 2), " (4 : Nat) = someArguments := by
  have hargs : ∀ argument ∈ someArguments, IsArgument argument := by decide +kernel
  have hwritten : List.Forall₂ Padded someArguments [" 'x, (y' ", "FOO(1, 2)", " "] :=
    .cons ⟨" ", " ", by decide, by decide, rfl⟩ (.cons ⟨[], [], by decide, by decide, rfl⟩
      (.cons ⟨" ", [], by decide, by decide, rfl⟩ .nil))
  exact ⟨hargs, by decide, argumentsAt_written hargs (by decide) hwritten "CMD" " // a, b"⟩

end Dialogue.Script
