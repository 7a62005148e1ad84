import Dialogue.Message.Basic

/-!
# Cutting a text into segments

Tokens are `{n}`, `{r}`, `{f}`, `{tag}` and `{tag:group}`, where tag and group are runs of decimal
digits of any script. A backslash before `n`, `r` or `f` is another way to write a flow mark. Every
token is taken where it starts leftmost, and whatever is no token is literal text.
-/

namespace Dialogue

/-- A token as it stands in the text, its numbers not yet read. -/
inductive Token
  | flow (mark : Flow)
  | reference (tag : Text) (group : Option Text)
deriving DecidableEq, Repr

namespace Token

/-- The rest of a reference after its opening brace. -/
def takeReference? (text : Text) : Option (Token × Text) :=
  let tag := text.takeWhile Text.isDecimal
  if tag.isEmpty then none
  else
    match text.dropWhile Text.isDecimal with
    | '\x7d' :: rest => some (.reference tag none, rest)
    | ':' :: more =>
      let group := more.takeWhile Text.isDecimal
      if group.isEmpty then none
      else
        match more.dropWhile Text.isDecimal with
        | '\x7d' :: rest => some (.reference tag (some group), rest)
        | _ => none
    | _ => none

/-- The token at the start of the text, and the rest. -/
def take? : Text → Option (Token × Text)
  | '\x7b' :: letter :: '\x7d' :: rest =>
    match Flow.ofLetter? letter with
    | some mark => some (.flow mark, rest)
    | none => takeReference? (letter :: '\x7d' :: rest)
  | '\x7b' :: rest => takeReference? rest
  | _ => none

/-- The segment of a token, if its numbers can be read. -/
def segment : Token → Except OverlongInteger Segment
  | .flow mark => .ok (.flow mark)
  | .reference tag group => do
    let tag ← Text.readDigits tag
    match group with
    | none => .ok (.placeholder ⟨tag, defaultGroup⟩)
    | some group => do
      let group ← Text.readDigits group
      .ok (.placeholder ⟨tag, group⟩)

theorem takeReference?_length {text rest : Text} {token : Token}
    (h : takeReference? text = some (token, rest)) : rest.length < text.length := by
  have hd := fun t : Text => (List.dropWhile_suffix (l := t) Text.isDecimal).length_le
  unfold takeReference? at h
  simp only at h
  split at h
  · simp at h
  · split at h
    · rename_i hr
      have := hd text
      simp only [Option.some.injEq, Prod.mk.injEq] at h
      obtain ⟨-, rfl⟩ := h
      rw [hr] at this
      simp only [List.length_cons] at this
      omega
    · rename_i more hm
      split at h
      · simp at h
      · split at h
        · rename_i hr
          have h1 := hd text
          have h2 := hd more
          simp only [Option.some.injEq, Prod.mk.injEq] at h
          obtain ⟨-, rfl⟩ := h
          rw [hm] at h1
          rw [hr] at h2
          simp only [List.length_cons] at h1 h2
          omega
        · simp at h
    · simp at h

theorem take?_length {text rest : Text} {token : Token} (h : take? text = some (token, rest)) :
    rest.length < text.length := by
  unfold take? at h
  split at h
  · split at h
    · simp only [Option.some.injEq, Prod.mk.injEq] at h
      obtain ⟨-, rfl⟩ := h
      simp only [List.length_cons]
      omega
    · have := takeReference?_length h
      simp only [List.length_cons] at this ⊢
      omega
  · have := takeReference?_length h
    simp only [List.length_cons]
    omega
  · simp at h

end Token

/-- A character that is in no token, or a token. -/
inductive Piece
  | char (c : Char)
  | token (t : Token)
deriving DecidableEq, Repr

namespace Piece

/-- The text cut into tokens and the characters between them. -/
def ofText : Text → List Piece
  | [] => []
  | c :: rest =>
    match h : Token.take? (c :: rest) with
    | some (t, tail) =>
      have := Token.take?_length h
      .token t :: ofText tail
    | none => .char c :: ofText rest
termination_by text => text.length
decreasing_by all_goals simp_all

/-- One more character in front of the segments. -/
def consChar (c : Char) : List Segment → List Segment
  | .text literal :: rest => .text (c :: literal) :: rest
  | segments => .text [c] :: segments

/-- The segments of pieces: neighbouring characters are one literal. -/
def segments : List Piece → Except OverlongInteger (List Segment)
  | [] => .ok []
  | .char c :: rest => (segments rest).map (consChar c)
  | .token t :: rest => do
    let segment ← t.segment
    let tail ← segments rest
    .ok (segment :: tail)

end Piece

namespace Message

/-- The text with one escape, a backslash and the mark's letter, turned into the mark. -/
def unescape (mark : Flow) : Text → Text
  | '\\' :: c :: rest =>
    if c = mark.letter then mark.token ++ unescape mark rest
    else '\\' :: unescape mark (c :: rest)
  | c :: rest => c :: unescape mark rest
  | [] => []

/-- The text with its escapes turned into flow marks, those of one letter after the other. -/
def normalize (text : Text) : Text :=
  unescape .pageRepeat (unescape .pageReset (unescape .softBreak text))

def tokenize (text : Text) : Except OverlongInteger (List Segment) :=
  Piece.segments (Piece.ofText (normalize text))

def ofText (text : Text) : Except OverlongInteger Message :=
  (tokenize text).map fun segments => ⟨text, segments⟩

end Message

end Dialogue
