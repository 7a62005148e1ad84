import Dialogue.Message.Token
import Mathlib.Data.List.TakeWhile

/-!
# How tokens are spelled

A token is found at the start of a text exactly where the text starts with a spelling of it
(`take?_eq_some`, `Spelled.take?`). A spelling has a brace at each end and none between them
(`Spelled.braces`), so none reaches from one token into another.
-/

namespace Dialogue

open Text

/-- A number as it is written: some decimal digits of any script. -/
def IsNumeral (digits : Text) : Prop := digits ≠ [] ∧ ∀ c ∈ digits, isDecimal c = true

theorem IsNumeral.not_mem {digits : Text} (h : IsNumeral digits) {c : Char}
    (hc : isDecimal c = false) : c ∉ digits := by
  intro hmem
  rw [h.2 c hmem] at hc
  cases hc

theorem isDecimal_letter (mark : Flow) : isDecimal mark.letter = false := by
  cases mark <;> decide

theorem ofLetter?_eq_some_iff {c : Char} {mark : Flow} :
    Flow.ofLetter? c = some mark ↔ c = mark.letter := by
  constructor
  · intro h
    unfold Flow.ofLetter? at h
    split at h <;> cases h <;> rfl
  · rintro rfl
    cases mark <;> rfl

theorem takeWhile_numeral {digits : Text} {c : Char} (h : IsNumeral digits)
    (hc : isDecimal c = false) (rest : Text) :
    (digits ++ c :: rest).takeWhile isDecimal = digits
      ∧ (digits ++ c :: rest).dropWhile isDecimal = c :: rest := by
  rw [List.takeWhile_append_of_pos h.2, List.dropWhile_append_of_pos h.2]
  simp [hc]

/-- Where digits end at some character, the text starts with a numeral that is written before it. -/
theorem numeral_of_dropWhile {text rest : Text} (hne : (text.takeWhile isDecimal).isEmpty = false)
    (hdrop : text.dropWhile isDecimal = rest) :
    IsNumeral (text.takeWhile isDecimal) ∧ text = text.takeWhile isDecimal ++ rest := by
  refine ⟨⟨by simpa using hne, fun c hc => List.mem_takeWhile_imp hc⟩, ?_⟩
  rw [← hdrop, List.takeWhile_append_dropWhile]

namespace Token

/-- The text is a spelling of the token: `{n}`, `{r}`, `{f}`, `{tag}` or `{tag:group}`. -/
inductive Spelled : Text → Token → Prop
  | flow (mark : Flow) : Spelled mark.token (.flow mark)
  | short {tag : Text} (htag : IsNumeral tag) :
      Spelled ('\x7b' :: (tag ++ ['\x7d'])) (.reference tag none)
  | long {tag group : Text} (htag : IsNumeral tag) (hgroup : IsNumeral group) :
      Spelled ('\x7b' :: (tag ++ ':' :: (group ++ ['\x7d']))) (.reference tag (some group))

theorem takeReference?_eq_some {text rest : Text} {token : Token}
    (h : takeReference? text = some (token, rest)) :
    ∃ slice, Spelled ('\x7b' :: slice) token ∧ text = slice ++ rest := by
  unfold takeReference? at h
  simp only at h
  split at h
  · cases h
  rename_i htag
  rw [Bool.not_eq_true] at htag
  split at h
  · rename_i hr
    cases h
    obtain ⟨hnumeral, htext⟩ := numeral_of_dropWhile htag hr
    refine ⟨_, .short hnumeral, ?_⟩
    rw [List.append_assoc]
    exact htext
  · rename_i more hm
    obtain ⟨hnumeral, htext⟩ := numeral_of_dropWhile htag hm
    split at h
    · cases h
    rename_i hgroup
    rw [Bool.not_eq_true] at hgroup
    split at h
    · rename_i hr
      cases h
      obtain ⟨hnumeral', hmore⟩ := numeral_of_dropWhile hgroup hr
      refine ⟨_, .long hnumeral hnumeral', ?_⟩
      rw [List.append_assoc, List.cons_append, List.append_assoc]
      exact htext.trans (congrArg (fun m => _ ++ ':' :: m) hmore)
    · cases h
  · cases h

theorem take?_eq_some {text rest : Text} {token : Token} (h : take? text = some (token, rest)) :
    ∃ slice, Spelled slice token ∧ text = slice ++ rest := by
  unfold take? at h
  split at h
  · rename_i letter tail
    split at h
    · rename_i mark hmark
      cases h
      rw [ofLetter?_eq_some_iff.1 hmark]
      exact ⟨mark.token, .flow mark, rfl⟩
    · obtain ⟨slice, hslice, htext⟩ := takeReference?_eq_some h
      exact ⟨_, hslice, congrArg _ htext⟩
  · obtain ⟨slice, hslice, htext⟩ := takeReference?_eq_some h
    exact ⟨_, hslice, congrArg _ htext⟩
  · cases h

theorem takeReference?_short {tag : Text} (htag : IsNumeral tag) (rest : Text) :
    takeReference? (tag ++ '\x7d' :: rest) = some (.reference tag none, rest) := by
  obtain ⟨htake, hdrop⟩ := takeWhile_numeral htag (c := '\x7d') (by decide) rest
  unfold takeReference?
  simp only [htake, hdrop]
  simp [htag.1]

theorem takeReference?_long {tag group : Text} (htag : IsNumeral tag) (hgroup : IsNumeral group)
    (rest : Text) :
    takeReference? (tag ++ ':' :: (group ++ '\x7d' :: rest))
      = some (.reference tag (some group), rest) := by
  obtain ⟨htake, hdrop⟩ :=
    takeWhile_numeral htag (c := ':') (by decide) (group ++ '\x7d' :: rest)
  obtain ⟨htake', hdrop'⟩ := takeWhile_numeral hgroup (c := '\x7d') (by decide) rest
  unfold takeReference?
  simp only [htake, hdrop, htake', hdrop']
  simp [htag.1, hgroup.1]

/-- A brace before digits starts a reference or no token. -/
theorem take?_of_numeral {tag rest : Text} (htag : IsNumeral tag) :
    take? ('\x7b' :: (tag ++ rest)) = takeReference? (tag ++ rest) := by
  obtain ⟨c, digits, rfl⟩ := List.exists_cons_of_ne_nil htag.1
  have hc : isDecimal c = true := htag.2 c (by simp)
  have hletter : Flow.ofLetter? c = none := by
    rw [Option.eq_none_iff_forall_ne_some]
    intro mark hmark
    rw [ofLetter?_eq_some_iff.1 hmark, isDecimal_letter] at hc
    cases hc
  unfold take?
  split
  · rename_i heq
    rw [List.cons_append, List.cons.injEq, List.cons.injEq] at heq
    obtain ⟨-, rfl, htail⟩ := heq
    rw [hletter, List.cons_append, htail]
  · rename_i heq
    rw [List.cons.injEq] at heq
    rw [heq.2]
  · rename_i hne
    exact absurd rfl (hne _)

theorem Spelled.take? {slice : Text} {token : Token} (h : Spelled slice token) (rest : Text) :
    take? (slice ++ rest) = some (token, rest) := by
  cases h with
  | flow mark => cases mark <;> rfl
  | short htag =>
    rw [List.cons_append, List.append_assoc, take?_of_numeral htag]
    exact takeReference?_short htag rest
  | long htag hgroup =>
    rw [List.cons_append, List.append_assoc, take?_of_numeral htag, List.cons_append,
      List.append_assoc]
    exact takeReference?_long htag hgroup rest

/-- A spelling has a brace at each end, and neither brace nor backslash between them. -/
theorem Spelled.braces {slice : Text} {token : Token} (h : Spelled slice token) :
    ∃ body, slice = '\x7b' :: (body ++ ['\x7d']) ∧ '\x7b' ∉ body ∧ '\\' ∉ body := by
  cases h with
  | flow mark => exact ⟨[mark.letter], rfl, by cases mark <;> decide, by cases mark <;> decide⟩
  | @short tag htag =>
    exact ⟨tag, rfl, htag.not_mem (by decide), htag.not_mem (by decide)⟩
  | @long tag group htag hgroup =>
    refine ⟨tag ++ ':' :: group, by simp, ?_, ?_⟩
    · simp [htag.not_mem (c := '\x7b') (by decide), hgroup.not_mem (c := '\x7b') (by decide)]
    · simp [htag.not_mem (c := '\\') (by decide), hgroup.not_mem (c := '\\') (by decide)]

end Token

end Dialogue
