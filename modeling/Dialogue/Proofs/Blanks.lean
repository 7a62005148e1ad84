import Dialogue.Text.Blank
import Mathlib.Data.List.DropRight

/-!
# Trimming

Blanks in front of a text are trimmed away, and a character that is none holds what stands before it
(`trimEnd_append`), so a trimmed text keeps its first words and a text can be trimmed in parts
(`trim_trimEnd`).
-/

namespace Dialogue.Text

def Blank (text : Text) : Prop := ∀ c ∈ text, isBlank c = true

instance (text : Text) : Decidable (Blank text) :=
  List.decidableBAll (fun c => isBlank c = true) text

theorem trimStart_append {indent : Text} (h : Blank indent) (text : Text) :
    trimStart (indent ++ text) = trimStart text :=
  List.dropWhile_append_of_pos h

theorem trim_append {indent : Text} (h : Blank indent) (text : Text) :
    trim (indent ++ text) = trim text := by
  rw [trim, trimStart_append h, trim]

theorem trimStart_cons {c : Char} (h : isBlank c = false) (text : Text) :
    trimStart (c :: text) = c :: text :=
  List.dropWhile_cons_of_neg (by simp [h])

theorem trimStart_of_forall {text : Text} (h : ∀ c ∈ text, isBlank c = false) :
    trimStart text = text := by
  rcases text with _ | ⟨c, rest⟩
  · rfl
  · exact trimStart_cons (h c (by simp)) rest

theorem trim_of_forall {text : Text} (h : ∀ c ∈ text, isBlank c = false) : trim text = text := by
  have hr : trimStart text.reverse = text.reverse :=
    trimStart_of_forall fun c hc => h c (List.mem_reverse.1 hc)
  have hend : trimEnd text = (trimStart text.reverse).reverse := rfl
  rw [trim, trimStart_of_forall h, hend, hr, List.reverse_reverse]

theorem trimEnd_append (text : Text) {c : Char} (h : isBlank c = false) (rest : Text) :
    trimEnd (text ++ c :: rest) = text ++ c :: trimEnd rest := by
  have hc : (c :: text.reverse).dropWhile isBlank = c :: text.reverse := trimStart_cons h _
  simp only [trimEnd, List.reverse_append, List.reverse_cons, List.append_assoc,
    List.singleton_append]
  rw [List.dropWhile_append]
  split
  · rename_i hr
    rw [List.isEmpty_iff] at hr
    rw [hc, hr]
    simp
  · simp

theorem trimEnd_snoc (text : Text) {c : Char} (h : isBlank c = false) :
    trimEnd (text ++ [c]) = text ++ [c] :=
  trimEnd_append text h []

theorem trimEnd_snoc_blank (text : Text) {c : Char} (h : isBlank c = true) :
    trimEnd (text ++ [c]) = trimEnd text := by
  simp [trimEnd, h]

theorem trimEnd_of_blank {text : Text} (h : Blank text) : trimEnd text = [] := by
  have hr : text.reverse.dropWhile isBlank = [] :=
    List.dropWhile_eq_nil_iff.2 fun c hc => h c (List.mem_reverse.1 hc)
  rw [trimEnd, hr, List.reverse_nil]

theorem trimEnd_trimEnd (text : Text) : trimEnd (trimEnd text) = trimEnd text := by
  simp only [trimEnd, List.reverse_reverse, List.dropWhile_idempotent]

theorem blank_or_exists (text : Text) : Blank text ∨
    ∃ indent c rest, text = indent ++ c :: rest ∧ Blank indent ∧ isBlank c = false := by
  induction text with
  | nil => exact .inl (by simp [Blank])
  | cons c text ih =>
    rcases hc : isBlank c with _ | _
    · exact .inr ⟨[], c, text, rfl, by simp [Blank], hc⟩
    · have hcons : ∀ {t : Text}, Blank t → Blank (c :: t) := by
        intro t ht d hd
        rcases List.mem_cons.1 hd with rfl | hd
        · exact hc
        · exact ht d hd
      rcases ih with h | ⟨indent, d, rest, rfl, hindent, hd⟩
      · exact .inl (hcons h)
      · exact .inr ⟨c :: indent, d, rest, rfl, hcons hindent, hd⟩

theorem trim_of_blank {text : Text} (h : Blank text) : trim text = [] := by
  have hs : trimStart text = [] := List.dropWhile_eq_nil_iff.2 h
  rw [trim, hs]
  rfl

theorem trim_trimEnd (text : Text) : trim (trimEnd text) = trim text := by
  rcases blank_or_exists text with h | ⟨indent, c, rest, rfl, hindent, hc⟩
  · rw [trimEnd_of_blank h, trim_of_blank h]
    rfl
  · have hend : ∀ tail : Text, trimEnd (c :: tail) = c :: trimEnd tail := trimEnd_append [] hc
    rw [trimEnd_append indent hc, trim_append hindent, trim_append hindent]
    simp only [trim, trimStart_cons hc, hend, trimEnd_trimEnd]

theorem trimEnd_append_blank (text : Text) {back : Text} (h : Blank back) :
    trimEnd (text ++ back) = trimEnd text := by
  rw [trimEnd, List.reverse_append,
    List.dropWhile_append_of_pos fun c hc => h c (List.mem_reverse.1 hc), trimEnd]

theorem trim_append_blank (text : Text) {back : Text} (h : Blank back) :
    trim (text ++ back) = trim text := by
  rw [← trim_trimEnd, trimEnd_append_blank text h, trim_trimEnd]

theorem exists_append_trimStart (text : Text) :
    ∃ front, Blank front ∧ text = front ++ trimStart text :=
  ⟨_, fun _ hc => List.mem_takeWhile_imp hc, List.takeWhile_append_dropWhile.symm⟩

theorem exists_trimEnd_append (text : Text) : ∃ back, Blank back ∧ text = trimEnd text ++ back := by
  obtain ⟨front, hfront, htext⟩ := exists_append_trimStart text.reverse
  refine ⟨front.reverse, fun c hc => hfront c (List.mem_reverse.1 hc), ?_⟩
  rw [trimEnd, ← List.reverse_append, ← trimStart, ← htext, List.reverse_reverse]

/-- A text is what trimming leaves of it between blanks. -/
theorem exists_append_trim (text : Text) :
    ∃ front back, Blank front ∧ Blank back ∧ text = front ++ trim text ++ back := by
  obtain ⟨front, hfront, hstart⟩ := exists_append_trimStart text
  obtain ⟨back, hback, hend⟩ := exists_trimEnd_append (trimStart text)
  refine ⟨front, back, hfront, hback, ?_⟩
  rw [trim, List.append_assoc, ← hend, ← hstart]

theorem trim_isInfix (text : Text) : trim text <:+: text := by
  obtain ⟨front, back, -, -, htext⟩ := exists_append_trim text
  exact ⟨front, back, htext.symm⟩

/-- The code points of the blanks. -/
def blankPoints : List Nat :=
  List.range' 9 5 ++ List.range' 0x1C 5 ++ [0x85, 0xA0, 0x1680] ++ List.range' 0x2000 11
    ++ [0x2028, 0x2029, 0x202F, 0x205F, 0x3000]

theorem mem_blankPoints {c : Char} (h : isBlank c = true) : c.toNat ∈ blankPoints := by
  simp only [isBlank, Bool.or_eq_true, Bool.and_eq_true, decide_eq_true_eq, beq_iff_eq] at h
  simp only [blankPoints, List.mem_append, List.mem_range'_1, List.mem_cons, List.not_mem_nil,
    or_false]
  omega

end Dialogue.Text
