import Dialogue.Text.Blank
import Dialogue.Text.Lines

/-!
# Lines and the text they are joined to

No line holds a line end (`OneLine`, `oneLine_of_mem_lines`). Lines that are each followed by a line
feed are read back as they were (`lines_terminated`); joined with a line feed between two of them
they are read back up to an empty last line (`lines_unlines`).
-/

namespace Dialogue.Text

def OneLine (text : Text) : Prop := ∀ c ∈ text, isLineEnd c = false

instance (text : Text) : Decidable (OneLine text) :=
  List.decidableBAll (fun c => isLineEnd c = false) text

theorem oneLine_append {first second : Text} :
    OneLine (first ++ second) ↔ OneLine first ∧ OneLine second := by
  simp only [OneLine, List.mem_append, or_imp, forall_and]

/-- Every line end is a blank. -/
theorem oneLine_of_not_blank {text : Text} (h : ∀ c ∈ text, isBlank c = false) : OneLine text := by
  intro c hc
  have hblank := h c hc
  simp only [isBlank, isLineEnd, Bool.or_eq_false_iff, Bool.and_eq_false_iff,
    decide_eq_false_iff_not, beq_eq_false_iff_ne] at hblank ⊢
  omega

theorem isLineEnd_newline : isLineEnd '\n' = true := by decide

theorem lines_cons {c : Char} (rest : Text) (h : isLineEnd c = false) :
    lines (c :: rest) = consFirst c (lines rest) := by
  have hc : c ≠ '\r' := by
    rintro rfl
    exact absurd h (by decide)
  rw [lines.eq_3 c rest fun _ hr => absurd hr hc, h]
  rfl

theorem lines_newline (rest : Text) : lines ('\n' :: rest) = [] :: lines rest := by
  rw [lines.eq_3 '\n' rest fun _ hr => absurd hr (by decide), if_pos isLineEnd_newline]

theorem lines_append_newline : ∀ {line : Text} (rest : Text), OneLine line →
    lines (line ++ '\n' :: rest) = line :: lines rest
  | [], rest, _ => lines_newline rest
  | c :: line, rest, h => by
    have hc : isLineEnd c = false := h c (by simp)
    have hline : OneLine line := fun d hd => h d (by simp [hd])
    rw [List.cons_append, lines_cons _ hc, lines_append_newline rest hline]
    rfl

/-- A text without a line end is one line, unless it is empty. -/
theorem lines_of_oneLine {c : Char} {line : Text} (h : OneLine (c :: line)) :
    lines (c :: line) = [c :: line] := by
  induction line generalizing c with
  | nil =>
    rw [lines_cons [] (h c (by simp))]
    rfl
  | cons d line ih =>
    have hline : OneLine (d :: line) := fun e he => h e (List.mem_cons_of_mem _ he)
    rw [lines_cons _ (h c (by simp)), ih hline]
    rfl

theorem oneLine_of_mem_consFirst {c : Char} (hc : isLineEnd c = false) {parts : List Text}
    (h : ∀ part ∈ parts, OneLine part) : ∀ part ∈ consFirst c parts, OneLine part := by
  intro part hpart
  rcases parts with _ | ⟨first, parts⟩
  · simp only [consFirst, List.mem_singleton] at hpart
    subst hpart
    simpa [OneLine] using hc
  · simp only [consFirst, List.mem_cons] at hpart
    rcases hpart with rfl | hpart
    · intro d hd
      rcases List.mem_cons.1 hd with rfl | hd
      · exact hc
      · exact h first (by simp) d hd
    · exact h part (by simp [hpart])

theorem oneLine_of_mem_lines (text : Text) : ∀ line ∈ lines text, OneLine line := by
  fun_induction lines text with
  | case1 => simp
  | case2 rest ih =>
    intro line hline
    rcases List.mem_cons.1 hline with rfl | hline
    · simp [OneLine]
    · exact ih line hline
  | case3 c rest _ _ ih =>
    intro line hline
    rcases List.mem_cons.1 hline with rfl | hline
    · simp [OneLine]
    · exact ih line hline
  | case4 c rest _ hc ih =>
    exact oneLine_of_mem_consFirst (by simpa using hc) ih

/-- One more character in front keeps parts where they stand in a text, the first one at its
start. -/
theorem infix_consFirst (c : Char) {rest : Text} : ∀ {parts : List Text},
    (∀ part ∈ parts.head?, part <+: rest) → (∀ part ∈ parts, part <:+: rest) →
      (∀ part ∈ (consFirst c parts).head?, part <+: c :: rest)
        ∧ ∀ part ∈ consFirst c parts, part <:+: c :: rest
  | [], _, _ => by simpa [consFirst] using (List.prefix_append [c] rest).isInfix
  | first :: parts, hhead, hmem => by
    have hfirst : c :: first <+: c :: rest := (List.prefix_cons_inj c).2 (hhead first rfl)
    refine ⟨by simpa [consFirst] using hfirst,
      List.forall_mem_cons.2 ⟨hfirst.isInfix, fun part hpart => ?_⟩⟩
    exact (hmem part (by simp [hpart])).trans (List.suffix_cons c rest).isInfix

/-- The lines stand in the text, the first one at its start. -/
theorem infix_of_lines (text : Text) : (∀ line ∈ (lines text).head?, line <+: text)
    ∧ ∀ line ∈ lines text, line <:+: text := by
  -- behind the part in front of it the rest of a text is read alike
  have hskip : ∀ (front : Text) {rest : Text}, (∀ line ∈ lines rest, line <:+: rest) →
      (∀ line ∈ ([] :: lines rest).head?, line <+: front ++ rest)
        ∧ ∀ line ∈ [] :: lines rest, line <:+: front ++ rest := by
    intro front rest ih
    refine ⟨by simp, List.forall_mem_cons.2 ⟨List.nil_infix, fun line hline => ?_⟩⟩
    exact (ih line hline).trans (List.suffix_append front rest).isInfix
  fun_induction lines text with
  | case1 => simp
  | case2 rest ih => exact hskip ['\r', '\n'] ih.2
  | case3 c rest _ _ ih => exact hskip [c] ih.2
  | case4 c rest _ hc ih => exact infix_consFirst c ih.1 ih.2

def terminated (lines : List Text) : Text := lines.flatMap (· ++ newline)

theorem terminated_cons (line : Text) (ls : List Text) :
    terminated (line :: ls) = line ++ '\n' :: terminated ls := by
  simp [terminated, newline]

theorem lines_terminated : ∀ {ls : List Text}, (∀ line ∈ ls, OneLine line) →
    lines (terminated ls) = ls
  | [], _ => rfl
  | line :: ls, h => by
    have hrest : ∀ other ∈ ls, OneLine other := fun other hmem => h other (by simp [hmem])
    rw [terminated_cons, lines_append_newline _ (h line (by simp)), lines_terminated hrest]

/-- Joined lines are read back, but for an empty line at the end. -/
theorem lines_unlines : ∀ {ls : List Text}, (∀ line ∈ ls, OneLine line) →
    ls = lines (unlines ls) ∨ ls = lines (unlines ls) ++ [[]]
  | [], _ => .inl rfl
  | [[]], _ => .inr rfl
  | [c :: line], h => .inl (lines_of_oneLine (h _ (by simp))).symm
  | line :: next :: ls, h => by
    have hrest : ∀ other ∈ next :: ls, OneLine other := fun other hmem =>
      h other (List.mem_cons_of_mem _ hmem)
    have hcons : unlines (line :: next :: ls) = line ++ '\n' :: unlines (next :: ls) := by
      simp [unlines, join, newline]
    rw [hcons, lines_append_newline _ (h line (by simp))]
    rcases lines_unlines hrest with heq | heq
    · exact .inl (congrArg (line :: ·) heq)
    · exact .inr (congrArg (line :: ·) heq)

/-- A line end as the one that lines are joined with. -/
def toNewline (c : Char) : Char := if isLineEnd c then '\n' else c

theorem map_toNewline_of_oneLine {text : Text} (h : OneLine text) : text.map toNewline = text := by
  rw [List.map_congr_left (g := id) fun c hc => by simp [toNewline, h c hc], List.map_id]

theorem unlines_cons (first : Text) {parts : List Text} (h : parts ≠ []) :
    unlines (first :: parts) = first ++ '\n' :: unlines parts := by
  obtain ⟨second, rest, rfl⟩ := List.exists_cons_of_ne_nil h
  simp [unlines, join, newline]

/-- A text that is cut into lines and joined again has line feeds for its line ends, unless two of
them are one or one is at its end. -/
theorem unlines_lines : ∀ {text : Text}, '\r' ∉ text →
    (∀ c ∈ text.getLast?, isLineEnd c = false) → unlines (lines text) = text.map toNewline
  | [], _, _ => rfl
  | [c], _, hlast => by
    have hc : isLineEnd c = false := hlast c (by simp)
    have hone : OneLine [c] := by simpa [OneLine] using hc
    rw [lines_of_oneLine hone, map_toNewline_of_oneLine hone]
    rfl
  | c :: d :: rest, hreturn, hlast => by
    have ih : unlines (lines (d :: rest)) = (d :: rest).map toNewline :=
      unlines_lines (fun h => hreturn (List.mem_cons_of_mem _ h))
        fun e he => hlast e (by simpa using he)
    have hne : lines (d :: rest) ≠ [] := by
      intro hnil
      rw [hnil] at ih
      cases ih
    rw [List.map_cons, ← ih]
    by_cases hc : isLineEnd c = true
    · have hcut : lines (c :: d :: rest) = [] :: lines (d :: rest) := by
        rw [lines.eq_3 c (d :: rest) fun _ hr => absurd (hr ▸ List.mem_cons_self) hreturn, if_pos hc]
      rw [hcut, unlines_cons [] hne, toNewline, if_pos hc]
      rfl
    · have hkept : isLineEnd c = false := by simpa using hc
      obtain ⟨first, parts, hparts⟩ := List.exists_cons_of_ne_nil hne
      rw [lines_cons _ hkept, hparts, toNewline, if_neg hc]
      cases parts <;> simp [consFirst, unlines, join]

theorem occursIn_of_isInfix {needle : Text} : ∀ {text : Text}, needle <:+: text →
    occursIn needle text = true
  | [], h => by
    rw [List.infix_nil.1 h]
    rfl
  | c :: rest, h => by
    rw [occursIn, find?]
    by_cases hp : needle.isPrefixOf (c :: rest) = true
    · rw [if_pos hp]
      rfl
    · rcases List.infix_cons_iff.1 h with hpre | hinf
      · exact absurd (List.isPrefixOf_iff_prefix.2 hpre) hp
      · rw [if_neg hp, Option.isSome_map]
        exact occursIn_of_isInfix hinf

theorem occursIn_iff {needle text : Text} : occursIn needle text = true ↔ needle <:+: text := by
  refine ⟨fun h => ?_, occursIn_of_isInfix⟩
  induction text with
  | nil =>
    simp only [occursIn, find?] at h
    split at h
    · rename_i hempty
      exact List.isEmpty_iff.1 hempty ▸ List.infix_rfl
    · cases h
  | cons c text ih =>
    simp only [occursIn, find?] at h
    split at h
    · rename_i hbegins
      exact (List.isPrefixOf_iff_prefix.1 hbegins).isInfix
    · rw [Option.isSome_map] at h
      exact (ih h).trans (List.suffix_cons c text).isInfix

end Dialogue.Text
