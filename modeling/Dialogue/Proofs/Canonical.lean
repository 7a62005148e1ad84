import Dialogue.Proofs.Tokens
import Mathlib.Data.List.Chain

/-!
# Segments that are read back as they are written

Segments are canonical if a text could have been cut into them: no literal holds a token or an
escape, and no two of them stand side by side (`Canonical`). Turning an escape into a mark makes no
other escape (`unescaped_unescape`), so a text is cut into canonical segments, each of which is a
slice of it (`cut_of_segments`). What canonical segments are written as holds no escape, and no
token but theirs, since no token has a brace inside; so they are read back (`segments_joinRaw`).
-/

namespace Dialogue

open Text

namespace Segment

def isText : Segment → Bool
  | .text _ => true
  | _ => false

/-- A literal that nothing else than itself can be read from. -/
structure Plain (literal : Text) : Prop where
  ne_nil : literal ≠ []
  no_token : ∀ slice token, Token.Spelled slice token → ¬ slice <:+: literal
  no_escape : ∀ mark : Flow, ¬ ['\\', mark.letter] <:+: literal

structure Canonical (segments : List Segment) : Prop where
  plain : ∀ literal, .text literal ∈ segments → Plain literal
  apart : segments.IsChain fun a b => ¬ (a.isText = true ∧ b.isText = true)
  short : ∀ p, .placeholder p ∈ segments →
    (ofNat p.tag).length ≤ maxDigits ∧ (ofNat p.group).length ≤ maxDigits

/-- A slice of a text that is read as the segment. -/
inductive Slice : Text → Segment → Prop
  | text (literal : Text) : Slice literal (.text literal)
  | flow (mark : Flow) : Slice mark.token (.flow mark)
  | short {tag : Text} (htag : IsNumeral tag) :
      Slice ('\x7b' :: (tag ++ ['\x7d'])) (.placeholder ⟨digitsValue tag, defaultGroup⟩)
  | long {tag group : Text} (htag : IsNumeral tag) (hgroup : IsNumeral group) :
      Slice ('\x7b' :: (tag ++ ':' :: (group ++ ['\x7d'])))
        (.placeholder ⟨digitsValue tag, digitsValue group⟩)

end Segment

theorem Token.Spelled.slice {slice : Text} {token : Token} (h : Token.Spelled slice token) :
    Segment.Slice slice token.meaning := by
  cases h with
  | flow mark => exact .flow mark
  | short htag => exact .short htag
  | long htag hgroup => exact .long htag hgroup

namespace Message

/-! ## Escapes -/

/-- No escape of the mark is in the text. -/
def Unescaped (mark : Flow) (text : Text) : Prop :=
  text.IsChain fun a b => ¬ (a = '\\' ∧ b = mark.letter)

theorem unescaped_iff {mark : Flow} {text : Text} :
    Unescaped mark text ↔ ¬ ['\\', mark.letter] <:+: text := by
  rw [Unescaped, List.isChain_iff_forall_rel_of_append_cons_cons]
  constructor
  · rintro h ⟨front, back, rfl⟩
    have heq : front ++ ['\\', mark.letter] ++ back = front ++ '\\' :: mark.letter :: back := by
      simp
    exact h heq ⟨rfl, rfl⟩
  · rintro h a b front back rfl ⟨rfl, rfl⟩
    exact h ⟨front, back, by simp⟩

theorem unescaped_cons_of_ne {mark : Flow} {c : Char} {text : Text} (hc : c ≠ '\\') :
    Unescaped mark (c :: text) ↔ Unescaped mark text := by
  rw [Unescaped, List.isChain_cons]
  exact ⟨fun h => h.2, fun h => ⟨fun _ _ hb => hc hb.1, h⟩⟩

theorem letter_ne_backslash (mark : Flow) : mark.letter ≠ '\\' := by cases mark <;> decide

/-- A text still starts as it did, or with a mark. -/
theorem head?_unescape (mark : Flow) (text : Text) :
    (unescape mark text).head? = text.head? ∨ (unescape mark text).head? = some '\x7b' := by
  fun_cases unescape mark text with
  | case1 => exact .inr rfl
  | case2 => exact .inl rfl
  | case3 => exact .inl rfl
  | case4 => exact .inl rfl

/-- Turning the escapes of a mark into it leaves none of them, and makes none of another mark. -/
theorem unescaped_unescape {mark other : Flow} {text : Text}
    (h : other = mark ∨ Unescaped other text) : Unescaped other (unescape mark text) := by
  fun_induction unescape mark text with
  | case1 rest ih =>
    have hrest : other = mark ∨ Unescaped other rest :=
      h.imp_right fun hu => List.IsChain.of_cons (List.IsChain.of_cons hu)
    have htail := ih hrest
    rw [Flow.token, List.cons_append, List.cons_append, List.cons_append, List.nil_append,
      unescaped_cons_of_ne (by decide), unescaped_cons_of_ne (letter_ne_backslash mark),
      unescaped_cons_of_ne (by decide)]
    exact htail
  | case2 c rest hc ih =>
    rw [Unescaped, List.isChain_cons]
    refine ⟨fun next hnext hb => ?_, ih (h.imp_right List.IsChain.of_cons)⟩
    have hletter : c ≠ other.letter := by
      rcases h with rfl | hu
      · exact hc
      · exact fun heq => (List.isChain_cons_cons.1 hu).1 ⟨rfl, heq⟩
    rcases head?_unescape mark (c :: rest) with hhead | hhead
    · rw [hhead] at hnext
      cases hnext
      exact hletter hb.2
    · rw [hhead] at hnext
      cases hnext
      cases other <;> exact absurd hb.2 (by decide)
  | case3 c rest hc ih =>
    rw [Unescaped, List.isChain_cons]
    refine ⟨fun next hnext hb => ?_, ih (h.imp_right List.IsChain.of_cons)⟩
    cases rest with
    | nil => cases hnext
    | cons d rest => exact hc d rest hb.1 rfl
  | case4 => exact List.IsChain.nil

theorem unescaped_normalize (text : Text) (mark : Flow) : Unescaped mark (normalize text) := by
  unfold normalize
  cases mark with
  | softBreak =>
    exact unescaped_unescape (.inr (unescaped_unescape (.inr (unescaped_unescape (.inl rfl)))))
  | pageReset => exact unescaped_unescape (.inr (unescaped_unescape (.inl rfl)))
  | pageRepeat => exact unescaped_unescape (.inl rfl)

theorem unescape_of_unescaped {mark : Flow} {text : Text} (h : Unescaped mark text) :
    unescape mark text = text := by
  fun_induction unescape mark text with
  | case1 rest ih => exact absurd ⟨rfl, rfl⟩ (List.isChain_cons_cons.1 h).1
  | case2 c rest hc ih => rw [ih (List.IsChain.of_cons h)]
  | case3 c rest hc ih => rw [ih (List.IsChain.of_cons h)]
  | case4 => rfl

theorem normalize_of_unescaped {text : Text} (h : ∀ mark, Unescaped mark text) :
    normalize text = text := by
  rw [normalize, unescape_of_unescaped (h .softBreak), unescape_of_unescaped (h .pageReset),
    unescape_of_unescaped (h .pageRepeat)]

end Message

/-! ## Reading what was written -/

namespace Token

/-- No token starts in a literal that holds none, if it is followed by a brace or by nothing. -/
theorem take?_of_literal {c : Char} {literal rest : Text}
    (hplain : ∀ slice token, Spelled slice token → ¬ slice <:+: c :: literal)
    (hrest : ∀ d ∈ rest.head?, d = '\x7b') : take? (c :: literal ++ rest) = none := by
  rw [Option.eq_none_iff_forall_ne_some]
  rintro ⟨token, tail⟩ ht
  obtain ⟨slice, hslice, htext⟩ := take?_eq_some ht
  rcases List.append_eq_append_iff.1 htext with ⟨more, hmore, hsplit⟩ | ⟨more, hmore, -⟩
  · cases more with
    | nil => exact hplain slice token hslice (by simp [hmore])
    | cons d more =>
      -- the spelling would go on with the brace that follows the literal
      obtain rfl : d = '\x7b' := hrest d (by simp [hsplit])
      obtain ⟨body, hbody, hbrace, -⟩ := hslice.braces
      rw [hmore, List.cons_append, List.cons.injEq] at hbody
      have hmem : '\x7b' ∈ body ++ ['\x7d'] := hbody.2 ▸ by simp
      simp [hbrace] at hmem
  · exact hplain slice token hslice ⟨[], more, by simp [hmore]⟩

end Token

namespace Piece

theorem ofText_literal : ∀ {literal rest : Text},
    (∀ slice token, Token.Spelled slice token → ¬ slice <:+: literal) →
      (∀ d ∈ rest.head?, d = '\x7b') →
        ofText (literal ++ rest) = literal.map .char ++ ofText rest
  | [], _, _, _ => rfl
  | c :: literal, rest, hplain, hrest => by
    have hnone := Token.take?_of_literal hplain hrest
    have htail : ∀ slice token, Token.Spelled slice token → ¬ slice <:+: literal :=
      fun slice token hs hi => hplain slice token hs (hi.trans (List.suffix_cons _ _).isInfix)
    have ih := ofText_literal htail hrest
    rw [List.cons_append, ofText]
    split
    · rename_i heq
      rw [← List.cons_append, hnone] at heq
      cases heq
    · rw [ih]
      rfl

theorem ofText_token {slice : Text} {token : Token} (h : Token.Spelled slice token) (rest : Text) :
    ofText (slice ++ rest) = .token token :: ofText rest := by
  have ht := h.take? rest
  obtain ⟨body, rfl, -⟩ := h.braces
  rw [List.cons_append] at ht ⊢
  rw [ofText]
  split
  · rename_i heq
    obtain ⟨rfl, rfl⟩ := Prod.mk.inj (Option.some.inj (ht.symm.trans heq))
    rfl
  · rename_i heq
    rw [ht] at heq
    cases heq

theorem segments_literal : ∀ (literal : Text) (pieces : List Piece),
    segments (literal.map .char ++ pieces) = (segments pieces).map (literal.foldr consChar)
  | [], pieces => by
    cases h : segments pieces <;> simp [Except.map, h]
  | c :: literal, pieces => by
    rw [List.map_cons, List.cons_append, segments, segments_literal literal pieces]
    cases segments pieces <;> rfl

/-- Characters in front of segments: they join a literal, or are one of their own. -/
theorem consChar_cases (c : Char) (segments : List Segment) :
    (∃ literal rest, segments = .text literal :: rest
        ∧ consChar c segments = .text (c :: literal) :: rest)
      ∨ ((∀ first ∈ segments.head?, first.isText = false)
        ∧ consChar c segments = .text [c] :: segments) := by
  cases segments with
  | nil => exact .inr ⟨by simp, rfl⟩
  | cons first rest =>
    cases first with
    | text literal => exact .inl ⟨literal, rest, rfl, rfl⟩
    | flow mark => exact .inr ⟨by simp [Segment.isText], rfl⟩
    | placeholder p => exact .inr ⟨by simp [Segment.isText], rfl⟩

theorem foldr_consChar : ∀ {literal : Text} {segments : List Segment}, literal ≠ [] →
    (∀ first ∈ segments.head?, first.isText = false) →
      literal.foldr consChar segments = .text literal :: segments
  | [], _, h, _ => absurd rfl h
  | [c], segments, _, hfirst => by
    rcases consChar_cases c segments with ⟨literal, rest, rfl, -⟩ | ⟨-, heq⟩
    · simp [Segment.isText] at hfirst
    · exact heq
  | c :: d :: literal, segments, _, hfirst => by
    rw [List.foldr_cons, foldr_consChar (List.cons_ne_nil d literal) hfirst, consChar]

end Piece

namespace Segment

/-- Segments other than literals are written as tokens, which mean them. -/
theorem spelled_raw {segment : Segment} (htext : segment.isText = false)
    (hshort : ∀ p, segment = .placeholder p →
      (ofNat p.tag).length ≤ maxDigits ∧ (ofNat p.group).length ≤ maxDigits) :
    ∃ token, Token.Spelled segment.raw token ∧ token.segment = .ok segment := by
  cases segment with
  | text literal => cases htext
  | flow mark => exact ⟨.flow mark, .flow mark, rfl⟩
  | placeholder p =>
    obtain ⟨htag, hgroup⟩ := hshort p rfl
    have hnumeral : ∀ n, IsNumeral (ofNat n) := fun n =>
      ⟨Nat.toDigits_ne_nil, fun c hc => isDecimal_of_mem_ofNat hc⟩
    have hread : ∀ n, (ofNat n).length ≤ maxDigits → readDigits (ofNat n) = .ok n := by
      intro n hn
      rw [readDigits, if_pos hn, digitsValue_ofNat]
    refine ⟨.reference (ofNat p.tag) (some (ofNat p.group)), ?_, ?_⟩
    · have hspelled := Token.Spelled.long (hnumeral p.tag) (hnumeral p.group)
      simpa [raw, Placeholder.token] using hspelled
    · simp only [Token.segment, hread _ htag, hread _ hgroup]
      rfl

theorem Canonical.tail {segment : Segment} {rest : List Segment} (h : Canonical (segment :: rest)) :
    Canonical rest :=
  ⟨fun literal hmem => h.plain literal (List.mem_cons_of_mem _ hmem), List.IsChain.of_cons h.apart,
    fun p hmem => h.short p (List.mem_cons_of_mem _ hmem)⟩

theorem Canonical.spelled_head {segment : Segment} {rest : List Segment}
    (h : Canonical (segment :: rest)) (htext : segment.isText = false) :
    ∃ token, Token.Spelled segment.raw token ∧ token.segment = .ok segment :=
  spelled_raw htext fun p hp => h.short p (by simp [hp])

/-- What follows a literal is nothing or starts with a brace. -/
theorem Canonical.head?_joinRaw {rest : List Segment} (h : Canonical rest)
    (hfirst : ∀ first ∈ rest.head?, first.isText = false) :
    ∀ d ∈ (joinRaw rest).head?, d = '\x7b' := by
  cases rest with
  | nil => simp [joinRaw]
  | cons first rest =>
    obtain ⟨token, hspelled, -⟩ := h.spelled_head (hfirst first rfl)
    obtain ⟨body, hbody, -⟩ := hspelled.braces
    simp [joinRaw, hbody]

theorem Canonical.not_isText_of_text {literal : Text} {rest : List Segment}
    (h : Canonical (.text literal :: rest)) : ∀ first ∈ rest.head?, first.isText = false := by
  intro first hfirst
  have hne := (List.isChain_cons.1 h.apart).1 first hfirst
  simpa [isText] using hne

theorem Canonical.segments_joinRaw : ∀ {segments : List Segment}, Canonical segments →
    Piece.segments (Piece.ofText (joinRaw segments)) = .ok segments
  | [], _ => by simp [joinRaw, Piece.ofText, Piece.segments]
  | segment :: rest, h => by
    have ih := h.tail.segments_joinRaw
    have hjoin : joinRaw (segment :: rest) = segment.raw ++ joinRaw rest := rfl
    by_cases htext : segment.isText = true
    · cases segment with
      | text literal =>
        have hplain := h.plain literal (by simp)
        have hfirst := h.not_isText_of_text
        rw [hjoin, raw, Piece.ofText_literal hplain.no_token (h.tail.head?_joinRaw hfirst),
          Piece.segments_literal, ih, Except.map, Piece.foldr_consChar hplain.ne_nil hfirst]
      | flow mark => cases htext
      | placeholder p => cases htext
    · obtain ⟨token, hspelled, hsegment⟩ := h.spelled_head (by simpa using htext)
      rw [hjoin, Piece.ofText_token hspelled, Piece.segments, hsegment, ih]
      rfl

/-- No escape stands across the end of a segment, so there is none in what they are written as. -/
theorem Canonical.unescaped_joinRaw (mark : Flow) : ∀ {segments : List Segment},
    Canonical segments → Message.Unescaped mark (joinRaw segments)
  | [], _ => List.IsChain.nil
  | segment :: rest, h => by
    have ih := h.tail.unescaped_joinRaw mark
    have hjoin : joinRaw (segment :: rest) = segment.raw ++ joinRaw rest := rfl
    rw [hjoin, Message.Unescaped, List.isChain_append]
    by_cases htext : segment.isText = true
    · cases segment with
      | text literal =>
        refine ⟨Message.unescaped_iff.2 ((h.plain literal (by simp)).no_escape mark), ih, ?_⟩
        rintro a - b hb ⟨-, hletter⟩
        rw [h.tail.head?_joinRaw h.not_isText_of_text b hb] at hletter
        cases mark <;> exact absurd hletter (by decide)
      | flow mark => cases htext
      | placeholder p => cases htext
    · obtain ⟨token, hspelled, -⟩ := h.spelled_head (by simpa using htext)
      obtain ⟨body, hbody, -, hbackslash⟩ := hspelled.braces
      rw [hbody]
      refine ⟨?_, ih, ?_⟩
      · refine List.isChain_iff_forall_rel_of_append_cons_cons.2 fun a b front back heq hab => ?_
        have hmem : '\\' ∈ '\x7b' :: (body ++ ['\x7d']) := by simp [heq, hab.1]
        simp [hbackslash] at hmem
      · rintro a ha b - ⟨rfl, -⟩
        rw [← List.cons_append, List.getLast?_concat] at ha
        exact absurd (Option.some.inj ha) (by decide)

/-! ## What a text is cut into -/

/-- Segments that a text was cut into. -/
structure Cut (text : Text) (segments : List Segment) : Prop where
  slices : ∃ slices, slices.flatten = text ∧ List.Forall₂ Slice slices segments
  literals : ∀ literal, .text literal ∈ segments →
    literal ≠ [] ∧ ∀ slice token, Token.Spelled slice token → ¬ slice <:+: literal
  apart : segments.IsChain fun a b => ¬ (a.isText = true ∧ b.isText = true)
  short : ∀ p, .placeholder p ∈ segments →
    (ofNat p.tag).length ≤ maxDigits ∧ (ofNat p.group).length ≤ maxDigits

theorem Cut.nil : Cut [] [] :=
  ⟨⟨[], rfl, .nil⟩, by simp, List.IsChain.nil, by simp⟩

end Segment

namespace Token

theorem readDigits_eq_ok {digits : Text} {n : Nat} (hne : digits ≠ [])
    (h : readDigits digits = .ok n) : digitsValue digits = n ∧ (ofNat n).length ≤ maxDigits := by
  unfold readDigits at h
  split at h
  · rename_i hle
    cases h
    exact ⟨rfl, (length_ofNat_digitsValue hne).trans hle⟩
  · cases h

/-- A token whose numbers were read is what it means, and its numbers are short. -/
theorem Spelled.meaning_eq {slice : Text} {token : Token} {segment : Segment}
    (h : Spelled slice token) (hs : token.segment = .ok segment) :
    token.meaning = segment ∧ segment.isText = false ∧ ∀ p, segment = .placeholder p →
      (ofNat p.tag).length ≤ maxDigits ∧ (ofNat p.group).length ≤ maxDigits := by
  cases h with
  | flow mark =>
    cases hs
    exact ⟨rfl, rfl, fun p hp => by cases hp⟩
  | @short tag htag =>
    unfold Token.segment at hs
    rcases hr : readDigits tag with e | n
    · simp [hr, bind, Except.bind] at hs
    · obtain ⟨hvalue, hlength⟩ := readDigits_eq_ok htag.1 hr
      simp only [hr, bind, Except.bind, Except.ok.injEq] at hs
      subst hs
      refine ⟨by rw [meaning, hvalue], rfl, fun p hp => ?_⟩
      cases hp
      exact ⟨hlength, (by decide : (ofNat defaultGroup).length ≤ maxDigits)⟩
  | @long tag group htag hgroup =>
    unfold Token.segment at hs
    rcases hr : readDigits tag with e | n
    · simp [hr, bind, Except.bind] at hs
    rcases hr' : readDigits group with e | m
    · simp [hr, hr', bind, Except.bind] at hs
    · obtain ⟨hvalue, hlength⟩ := readDigits_eq_ok htag.1 hr
      obtain ⟨hvalue', hlength'⟩ := readDigits_eq_ok hgroup.1 hr'
      simp only [hr, hr', bind, Except.bind, Except.ok.injEq] at hs
      subst hs
      refine ⟨by rw [meaning, hvalue, hvalue'], rfl, fun p hp => ?_⟩
      cases hp
      exact ⟨hlength, hlength'⟩

end Token

namespace Segment

theorem Cut.token {slice rest : Text} {token : Token} {segment : Segment} {segments : List Segment}
    (h : Cut rest segments) (hspelled : Token.Spelled slice token)
    (hs : token.segment = .ok segment) : Cut (slice ++ rest) (segment :: segments) := by
  obtain ⟨hmeaning, htext, hshort⟩ := hspelled.meaning_eq hs
  obtain ⟨slices, hflat, hslices⟩ := h.slices
  have hslice : Slice slice segment := hmeaning ▸ hspelled.slice
  refine ⟨⟨slice :: slices, by simp [hflat], .cons hslice hslices⟩, ?_, ?_, ?_⟩
  · intro literal hmem
    rcases List.mem_cons.1 hmem with rfl | hmem
    · cases htext
    · exact h.literals literal hmem
  · exact List.isChain_cons.2 ⟨fun _ _ hboth => by simp [htext] at hboth, h.apart⟩
  · intro p hmem
    rcases List.mem_cons.1 hmem with hp | hmem
    · exact hshort p hp.symm
    · exact h.short p hmem

/-- No token is in a literal where none starts, if none is behind its first character. -/
theorem not_infix_of_take? {c : Char} {literal rest : Text}
    (hnone : Token.take? (c :: (literal ++ rest)) = none)
    (hliteral : ∀ slice token, Token.Spelled slice token → ¬ slice <:+: literal) :
    ∀ slice token, Token.Spelled slice token → ¬ slice <:+: c :: literal := by
  intro slice token hspelled hinfix
  rcases List.infix_cons_iff.1 hinfix with ⟨more, hmore⟩ | hinfix
  · have ht := hspelled.take? (more ++ rest)
    rw [← List.append_assoc, hmore, List.cons_append, hnone] at ht
    cases ht
  · exact hliteral slice token hspelled hinfix

theorem Cut.char {c : Char} {rest : Text} {segments : List Segment} (h : Cut rest segments)
    (hnone : Token.take? (c :: rest) = none) : Cut (c :: rest) (Piece.consChar c segments) := by
  obtain ⟨slices, hflat, hslices⟩ := h.slices
  rcases Piece.consChar_cases c segments with ⟨literal, more, rfl, heq⟩ | ⟨hfirst, heq⟩
  · -- the first slice is the literal, and the character joins it
    cases hslices with
    | @cons slice _ others _ hslice hothers =>
      cases hslice with
      | text =>
        rw [heq]
        rw [List.flatten_cons] at hflat
        have hliteral := (h.literals literal (by simp)).2
        refine ⟨⟨(c :: literal) :: others, by simp [hflat], .cons (.text _) hothers⟩, ?_, ?_, ?_⟩
        · intro other hmem
          rcases List.mem_cons.1 hmem with hother | hmem
          · cases hother
            exact ⟨List.cons_ne_nil _ _, not_infix_of_take? (hflat ▸ hnone) hliteral⟩
          · exact h.literals other (List.mem_cons_of_mem _ hmem)
        · exact List.isChain_cons.2 (List.isChain_cons.1 h.apart)
        · exact fun p hmem => h.short p (by simpa using hmem)
  · rw [heq]
    refine ⟨⟨[c] :: slices, by simp [hflat], .cons (.text _) hslices⟩, ?_, ?_, ?_⟩
    · intro other hmem
      rcases List.mem_cons.1 hmem with hother | hmem
      · cases hother
        have hempty : ∀ slice token, Token.Spelled slice token → ¬ slice <:+: [] := by
          intro slice token hspelled hinfix
          obtain ⟨body, rfl, -⟩ := hspelled.braces
          simp at hinfix
        exact ⟨List.cons_ne_nil _ _, not_infix_of_take? hnone hempty⟩
      · exact h.literals other hmem
    · refine List.isChain_cons.2 ⟨fun first hmem hboth => ?_, h.apart⟩
      rw [hfirst first hmem] at hboth
      cases hboth.2
    · exact fun p hmem => h.short p (by simpa using hmem)

theorem cut_of_segments {text : Text} {segments : List Segment}
    (h : Piece.segments (Piece.ofText text) = .ok segments) : Cut text segments := by
  fun_induction Piece.ofText text generalizing segments with
  | case1 =>
    cases h
    exact .nil
  | case2 c rest token tail ht _ ih =>
    obtain ⟨slice, hspelled, htext⟩ := Token.take?_eq_some ht
    rcases hs : token.segment with e | segment
    · simp [Piece.segments, hs, bind, Except.bind] at h
    rcases hr : Piece.segments (Piece.ofText tail) with e | others
    · simp [Piece.segments, hs, hr, bind, Except.bind] at h
    · simp only [Piece.segments, hs, hr, bind, Except.bind, Except.ok.injEq] at h
      rw [htext, ← h]
      exact (ih hr).token hspelled hs
  | case3 c rest ht ih =>
    rcases hr : Piece.segments (Piece.ofText rest) with e | others
    · simp [Piece.segments, hr, Except.map] at h
    · simp only [Piece.segments, hr, Except.map, Except.ok.injEq] at h
      rw [← h]
      exact (ih hr).char ht

theorem mem_slices_of_text : ∀ {slices : List Text} {segments : List Segment} {literal : Text},
    List.Forall₂ Slice slices segments → .text literal ∈ segments → literal ∈ slices
  | _, _, _, .nil, h => by simp at h
  | _, _, literal, .cons hslice hrest, h => by
    rcases List.mem_cons.1 h with rfl | h
    · cases hslice
      exact List.mem_cons_self
    · exact List.mem_cons_of_mem _ (mem_slices_of_text hrest h)

/-- Segments that a text without escapes was cut into are canonical. -/
theorem Cut.canonical {text : Text} {segments : List Segment} (h : Cut text segments)
    (hu : ∀ mark, Message.Unescaped mark text) : Canonical segments := by
  refine ⟨fun literal hmem => ?_, h.apart, h.short⟩
  obtain ⟨hne, htoken⟩ := h.literals literal hmem
  obtain ⟨slices, rfl, hslices⟩ := h.slices
  have hinfix := List.infix_of_mem_flatten (mem_slices_of_text hslices hmem)
  exact ⟨hne, htoken, fun mark hescape =>
    Message.unescaped_iff.1 (hu mark) (hescape.trans hinfix)⟩

end Segment

namespace Message

theorem tokenize_of_canonical {segments : List Segment} (h : Segment.Canonical segments) :
    tokenize (Segment.joinRaw segments) = .ok segments := by
  rw [tokenize, normalize_of_unescaped h.unescaped_joinRaw]
  exact h.segments_joinRaw

/-- A text is cut into canonical segments, which are its slices once its escapes are turned into
marks; and canonical segments are what their text is cut into. -/
theorem tokenize_joinRaw :
    (∀ text, ShortRuns text → ∃ segments, tokenize text = .ok segments
        ∧ Segment.Canonical segments
        ∧ (∃ slices : List Text, slices.flatten = normalize text
          ∧ List.Forall₂ Segment.Slice slices segments)
        ∧ tokenize (Segment.joinRaw segments) = .ok segments)
      ∧ ∀ segments, Segment.Canonical segments →
        tokenize (Segment.joinRaw segments) = .ok segments := by
  refine ⟨fun text h => ?_, fun segments => tokenize_of_canonical⟩
  have hnorm : ShortRuns (normalize text) :=
    shortRuns_unescape (shortRuns_unescape (shortRuns_unescape h))
  obtain ⟨segments, hs⟩ := Piece.segments_of_shortRuns (normalize text) hnorm
  have hcut := Segment.cut_of_segments hs
  have hcanonical := hcut.canonical (unescaped_normalize text)
  exact ⟨segments, hs, hcanonical, hcut.slices, tokenize_of_canonical hcanonical⟩

/-- An escape, a placeholder of each form, and a brace that opens neither. -/
def mixed : Text := "a\\n\x7b1\x7d\x7b02:3\x7d\x7bx"

def mixedSegments : List Segment :=
  [.text "a", .flow .softBreak, .placeholder ⟨1, 1⟩, .placeholder ⟨2, 3⟩, .text "\x7bx"]

theorem tokenize_joinRaw_mixed :
    ShortRuns mixed ∧ tokenize mixed = .ok mixedSegments ∧ Segment.Canonical mixedSegments
      ∧ (∃ slices : List Text, slices.flatten = normalize mixed
        ∧ List.Forall₂ Segment.Slice slices mixedSegments)
      ∧ tokenize (Segment.joinRaw mixedSegments) = .ok mixedSegments := by
  have hshort : ShortRuns mixed := shortRuns_of_length (by decide)
  have htokenize : tokenize mixed = .ok mixedSegments := by decide +kernel
  obtain ⟨segments, hs, hcanonical, hslices, -⟩ := tokenize_joinRaw.1 mixed hshort
  obtain rfl := Except.ok.inj (htokenize.symm.trans hs)
  exact ⟨hshort, htokenize, hcanonical, hslices, tokenize_joinRaw.2 mixedSegments hcanonical⟩

end Message

end Dialogue
