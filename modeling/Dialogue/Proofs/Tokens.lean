import Dialogue.Proofs.Digits
import Dialogue.Proofs.Spelling

/-!
# Texts that can be cut into segments

Escapes are turned into marks, which hold no digit, so the runs of digits stay as they were
(`shortRuns_unescape`). The numbers of a token are runs of the text, so a text with short runs is a
message (`Message.ofText_of_shortRuns`).
-/

namespace Dialogue

open Text

namespace Token

/-- What a token means, however long its numbers are. -/
def meaning : Token → Segment
  | .flow mark => .flow mark
  | .reference tag none => .placeholder ⟨digitsValue tag, defaultGroup⟩
  | .reference tag (some group) => .placeholder ⟨digitsValue tag, digitsValue group⟩

/-- The numbers of a token can be read if the runs of its spelling are short. -/
theorem Spelled.segment_eq {slice : Text} {token : Token} (h : Spelled slice token)
    (hshort : ShortRuns slice) : token.segment = .ok token.meaning := by
  cases h with
  | flow mark => rfl
  | @short tag htag =>
    have hinfix : tag <:+: '\x7b' :: (tag ++ ['\x7d']) := ⟨['\x7b'], ['\x7d'], by simp⟩
    simp only [segment, readDigits_of_shortRuns htag.2 (hshort.of_isInfix hinfix)]
    rfl
  | @long tag group htag hgroup =>
    have hinfix : tag <:+: '\x7b' :: (tag ++ ':' :: (group ++ ['\x7d'])) :=
      ⟨['\x7b'], ':' :: (group ++ ['\x7d']), by simp⟩
    have hinfix' : group <:+: '\x7b' :: (tag ++ ':' :: (group ++ ['\x7d'])) :=
      ⟨'\x7b' :: (tag ++ [':']), ['\x7d'], by simp⟩
    simp only [segment, readDigits_of_shortRuns htag.2 (hshort.of_isInfix hinfix),
      readDigits_of_shortRuns hgroup.2 (hshort.of_isInfix hinfix')]
    rfl

end Token

theorem Piece.segments_of_shortRuns (text : Text) (h : ShortRuns text) :
    ∃ segments, Piece.segments (Piece.ofText text) = .ok segments := by
  fun_induction Piece.ofText text with
  | case1 => exact ⟨[], rfl⟩
  | case2 c rest token tail ht _ ih =>
    obtain ⟨slice, hslice, htext⟩ := Token.take?_eq_some ht
    rw [htext] at h
    have hs := hslice.segment_eq (h.of_isInfix (List.prefix_append _ _).isInfix)
    obtain ⟨segments, hsegments⟩ := ih (h.of_isInfix (List.suffix_append _ _).isInfix)
    refine ⟨token.meaning :: segments, ?_⟩
    simp only [Piece.segments, hs, hsegments]
    rfl
  | case3 c rest ht ih =>
    obtain ⟨segments, hsegments⟩ := ih (h.of_isInfix (List.suffix_cons _ _).isInfix)
    exact ⟨Piece.consChar c segments, by simp only [Piece.segments, hsegments, Except.map]⟩

namespace Message

theorem takeWhile_unescape (mark : Flow) (text : Text) :
    (unescape mark text).takeWhile isDecimal = text.takeWhile isDecimal := by
  fun_induction unescape mark text with
  | case1 rest ih =>
    rw [List.takeWhile_cons_of_neg (by decide)]
    exact List.takeWhile_cons_of_neg (by decide)
  | case2 c rest hc ih =>
    rw [List.takeWhile_cons_of_neg (by decide), List.takeWhile_cons_of_neg (by decide)]
  | case3 c rest hc ih => rw [List.takeWhile_cons, List.takeWhile_cons, ih]
  | case4 => rfl

theorem shortRuns_unescape {mark : Flow} {text : Text} (h : ShortRuns text) :
    ShortRuns (unescape mark text) := by
  fun_induction unescape mark text with
  | case1 rest ih =>
    have hrest := (shortRuns_cons.1 (shortRuns_cons.1 h).2).2
    exact (shortRuns_cons_of_not (by decide)).2
      ((shortRuns_cons_of_not (isDecimal_letter mark)).2
        ((shortRuns_cons_of_not (by decide)).2 (ih hrest)))
  | case2 c rest hc ih =>
    exact (shortRuns_cons_of_not (by decide)).2 (ih (shortRuns_cons.1 h).2)
  | case3 c rest hc ih =>
    obtain ⟨hstart, hrest⟩ := shortRuns_cons.1 h
    rw [shortRuns_cons, List.takeWhile_cons, takeWhile_unescape, ← List.takeWhile_cons]
    exact ⟨hstart, ih hrest⟩
  | case4 => exact h

theorem ofText_of_shortRuns {text : Text} (h : ShortRuns text) :
    ∃ message, ofText text = .ok message ∧ message.text = text := by
  have hnorm : ShortRuns (normalize text) :=
    shortRuns_unescape (shortRuns_unescape (shortRuns_unescape h))
  obtain ⟨segments, hs⟩ := Piece.segments_of_shortRuns (normalize text) hnorm
  exact ⟨⟨text, segments⟩, by simp only [ofText, tokenize, hs, Except.map], rfl⟩

theorem ofText_of_length {text : Text} (h : text.length ≤ maxDigits) :
    ∃ message, ofText text = .ok message := by
  obtain ⟨message, hof, -⟩ := ofText_of_shortRuns (shortRuns_of_length h)
  exact ⟨message, hof⟩

end Message

end Dialogue
