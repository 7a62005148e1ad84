import Dialogue.FileTree.Basic
import Dialogue.Proofs.Utf16
import Mathlib.Data.List.Basic

/-!
# Files of unknown encoding

The first byte of a mark of UTF-16 begins no character in UTF-8, so a marked file is left to the
decoder of its mark, and a text is read from each form in which its encoding can be told
(`readText_of_form`). Without a mark UTF-16 is tried all the same: bytes in Windows-1252 are read as
such only if they are not also the bytes of another text in UTF-16, which takes no more than an even
number of them (`readText_of_windows1252`, `not_readText_of_even`).
-/

namespace Dialogue

namespace Encoding

theorem decode?_utf8_of_lead {b : UInt8} (h : Utf8.lead? b.toNat = none) (rest : Bytes) :
    Utf8.decode? (b :: rest) = none := by
  refine Option.eq_none_iff_forall_ne_some.2 fun text htext => ?_
  rw [Utf8.decode?, mapM_eq_some_iff, List.map_id, Utf8.units, Utf8.next, h] at htext
  cases text <;> cases htext

theorem dropMark_of_head? {text : Text} (h : text.head? ≠ some '\uFEFF') :
    dropMark text = text := by
  unfold dropMark
  split
  · exact absurd rfl h
  · rfl

section Winner

variable {bytes : Bytes} {text : Text}

theorem read_of_utf16 (hutf8 : Utf8.decode? bytes = none) (h : Utf16.decode? bytes = some text) :
    read bytes = dropMark text := by
  simp only [read, readWith?, fallback, List.findSome?_cons, decode?, hutf8, h, Option.map_some,
    Option.getD_some]

theorem read_of_windows1252 (hutf8 : Utf8.decode? bytes = none)
    (hutf16 : Utf16.decode? bytes = none) (h : Windows1252.decode? bytes = some text) :
    read bytes = dropMark text := by
  simp only [read, readWith?, fallback, List.findSome?_cons, decode?, hutf8, hutf16, h,
    Option.map_some, Option.getD_some]

end Winner

section Marked

/-- The ways in which a file can tell its encoding: UTF-8 with its mark or without one, and UTF-16
in two orders with theirs. -/
inductive Form
  | plain
  | marked
  | little
  | big
deriving DecidableEq, Repr

/-- The bytes of a file with a text in one of the forms. -/
def Form.write : Form → Text → Bytes
  | .plain, text => Utf8.encode text
  | .marked, text => 0xEF :: 0xBB :: 0xBF :: Utf8.encode text
  | .little, text => 0xFF :: 0xFE :: Utf16.encode false text
  | .big, text => 0xFE :: 0xFF :: Utf16.encode true text

/-- The mark of UTF-8 is a character in front of the text, which the decoder leaves there. -/
theorem encode_mark (text : Text) :
    0xEF :: 0xBB :: 0xBF :: Utf8.encode text = Utf8.encode ('\uFEFF' :: text) := by
  have hmark : Utf8.encodeChar '\uFEFF' = [0xEF, 0xBB, 0xBF] := by decide
  rw [Utf8.encode, Utf8.encode, List.flatMap_cons, hmark]
  rfl

/-- One mark is dropped, by the decoder or behind it, and one more after UTF-16 with its mark. -/
theorem read_write (form : Form) (text : Text) :
    read (form.write text) = if form = .marked then text else dropMark text := by
  cases form with
  | plain => exact read_encode text
  | marked => rw [Form.write, encode_mark, read_encode, dropMark, if_pos rfl]
  | little =>
    exact read_of_utf16 (decode?_utf8_of_lead (by decide) _) (Utf16.read_eq_some_iff.2 rfl)
  | big =>
    exact read_of_utf16 (decode?_utf8_of_lead (by decide) _) (Utf16.read_eq_some_iff.2 rfl)

/-- A text that does not start with a mark is read from a file in each of the forms. -/
theorem readText_of_form (form : Form) {tree : FileTree} {path text : Text}
    (hfile : tree.readBytes path = .ok (form.write text)) (hstart : text.head? ≠ some '\uFEFF') :
    tree.readText path = .ok text := by
  rw [FileTree.readText, hfile, Except.map, read_write, dropMark_of_head? hstart, ite_self]

/-- A file in UTF-16 with a character beyond the basic plane. -/
def littleTree : FileTree :=
  ⟨[], .ofList [([['a']], .file [0xFF, 0xFE, 0x3D, 0xD8, 0x00, 0xDE, 0x21, 0x00])]⟩

theorem readText_of_form_little :
    littleTree.readBytes ['a'] = .ok (Form.little.write "😀!".toList)
      ∧ "😀!".toList.head? ≠ some '\uFEFF' ∧ littleTree.readText ['a'] = .ok "😀!".toList := by
  have hfile : littleTree.readBytes ['a'] = .ok (Form.little.write "😀!".toList) := by decide
  have hstart : "😀!".toList.head? ≠ some '\uFEFF' := by decide
  exact ⟨hfile, hstart, readText_of_form .little hfile hstart⟩

end Marked

section Unmarked

variable {bytes : Bytes} {text : Text}

/-- The bytes start with a mark of UTF-16. -/
def IsMarked16 (bytes : Bytes) : Prop := [0xFF, 0xFE] <+: bytes ∨ [0xFE, 0xFF] <+: bytes

instance (bytes : Bytes) : Decidable (IsMarked16 bytes) := instDecidableOr

theorem decode?_utf16_of_unmarked (h : ¬ IsMarked16 bytes) :
    Utf16.decode? bytes = some text ↔ bytes = Utf16.encode false text := by
  rw [← Utf16.read_eq_some_iff]
  unfold Utf16.decode?
  split
  · exact absurd (.inl ⟨_, rfl⟩) h
  · exact absurd (.inr ⟨_, rfl⟩) h
  · rfl

/-- Unmarked bytes are not those of a text that starts with a mark. -/
theorem head?_of_unmarked (h : ¬ IsMarked16 (Utf16.encode false text)) :
    text.head? ≠ some '\uFEFF' := by
  intro hstart
  obtain ⟨rest, rfl⟩ := List.head?_eq_some_iff.1 hstart
  have hmark : (Utf16.charUnits '\uFEFF').flatMap (Utf16.unitBytes false) = [0xFF, 0xFE] := by
    decide
  refine h (.inl ⟨Utf16.encode false rest, ?_⟩)
  rw [Utf16.encode, Utf16.encode, List.flatMap_cons, List.flatMap_append, hmark]

theorem head?_of_windows1252 (h : Windows1252.decode? bytes = some text) :
    text.head? ≠ some '\uFEFF' := by
  have hchar : ∀ n < 256, Windows1252.char? (.ofNat n) ≠ some '\uFEFF' := by
    decide +kernel
  rw [Windows1252.decode?, mapM_eq_some_iff] at h
  intro hstart
  obtain ⟨rest, rfl⟩ := List.head?_eq_some_iff.1 hstart
  rcases bytes with _ | ⟨b, bytes⟩
  · cases h
  · have hfirst := (List.cons.inj h).1
    rw [← UInt8.ofNat_toNat (x := b)] at hfirst
    exact hchar b.toNat b.toNat_lt hfirst

theorem length_of_windows1252 (h : Windows1252.decode? bytes = some text) :
    text.length = bytes.length := by
  rw [Windows1252.decode?, mapM_eq_some_iff] at h
  simpa using (congrArg List.length h).symm

/-- Both encodings have one text only where there are no bytes, and these are UTF-8. -/
theorem ne_of_windows1252 (hdefined : Windows1252.decode? bytes = some text)
    (hutf8 : ∀ other, bytes ≠ Utf8.encode other) : bytes ≠ Utf16.encode false text := by
  intro heq
  have hlength := length_of_windows1252 hdefined
  have hunits := Utf16.length_le_units text
  have hbytes := congrArg List.length heq
  rw [Utf16.length_encode] at hbytes
  have hnil : bytes = [] := List.length_eq_zero_iff.1 (by omega)
  exact hutf8 [] hnil

/-- Unmarked bytes in Windows-1252 that are no UTF-8 are read as such exactly if they are not those
of a text in UTF-16, which has an even number of them; else that other text is read. -/
theorem readText_of_windows1252 {tree : FileTree} {path : Text}
    (hfile : tree.readBytes path = .ok bytes) (hdefined : Windows1252.decode? bytes = some text)
    (hutf8 : ∀ other, bytes ≠ Utf8.encode other) (hmark : ¬ IsMarked16 bytes) :
    (tree.readText path = .ok text ↔ ∀ other, bytes ≠ Utf16.encode false other)
      ∧ (∀ other, bytes = Utf16.encode false other → tree.readText path = .ok other)
      ∧ (¬ 2 ∣ bytes.length → tree.readText path = .ok text) := by
  have hnone := Utf8.decode?_eq_none_iff.2 hutf8
  have hread : tree.readText path = .ok (read bytes) := by rw [FileTree.readText, hfile]; rfl
  have hother : ∀ other, bytes = Utf16.encode false other → tree.readText path = .ok other := by
    intro other heq
    rw [hread, read_of_utf16 hnone ((decode?_utf16_of_unmarked hmark).2 heq),
      dropMark_of_head? (head?_of_unmarked (heq ▸ hmark))]
  have hown : (∀ other, bytes ≠ Utf16.encode false other) → tree.readText path = .ok text := by
    intro hutf16
    have hrefused : Utf16.decode? bytes = none := Option.eq_none_iff_forall_ne_some.2
      fun other h => hutf16 other ((decode?_utf16_of_unmarked hmark).1 h)
    rw [hread, read_of_windows1252 hnone hrefused hdefined,
      dropMark_of_head? (head?_of_windows1252 hdefined)]
  refine ⟨⟨fun htext other heq => ?_, hown⟩, hother, fun hodd => hown fun other heq => ?_⟩
  · obtain rfl : other = text := Except.ok.inj ((hother other heq).symm.trans htext)
    exact ne_of_windows1252 hdefined hutf8 heq
  · exact hodd ⟨_, (congrArg List.length heq).trans (Utf16.length_encode false other)⟩

/-- The bytes of a text of three characters, and of one of two. -/
def accentTree : FileTree :=
  ⟨[], .ofList [([['a']], .file [0xE9, 0x21, 0x21]), ([['b']], .file [0xE9, 0x21])]⟩

theorem readText_of_windows1252_odd :
    accentTree.readBytes ['a'] = .ok [0xE9, 0x21, 0x21]
      ∧ Windows1252.decode? [0xE9, 0x21, 0x21] = some "é!!".toList
      ∧ (∀ other, [0xE9, 0x21, 0x21] ≠ Utf8.encode other)
      ∧ ¬ IsMarked16 [0xE9, 0x21, 0x21] ∧ accentTree.readText ['a'] = .ok "é!!".toList := by
  have hfile : accentTree.readBytes ['a'] = .ok [0xE9, 0x21, 0x21] := by decide
  have hdefined : Windows1252.decode? [0xE9, 0x21, 0x21] = some "é!!".toList := by decide
  have hutf8 : ∀ other, [0xE9, 0x21, 0x21] ≠ Utf8.encode other :=
    Utf8.decode?_eq_none_iff.1 (by decide +kernel)
  have hmark : ¬ IsMarked16 [0xE9, 0x21, 0x21] := by decide
  have hread := readText_of_windows1252 hfile hdefined hutf8 hmark
  exact ⟨hfile, hdefined, hutf8, hmark, hread.2.2 (by decide)⟩

/-- Bytes that are defined in Windows-1252 and are no UTF-8 need not be read as Windows-1252. -/
theorem not_readText_of_even :
    ¬ ∀ (tree : FileTree) (path : Text) (bytes : Bytes) (text : Text),
      tree.readBytes path = .ok bytes → Windows1252.decode? bytes = some text →
      (∀ other, bytes ≠ Utf8.encode other) → ¬ IsMarked16 bytes →
      tree.readText path = .ok text := by
  intro h
  have hread := h accentTree ['b'] [0xE9, 0x21] "é!".toList (by decide) (by decide)
    (Utf8.decode?_eq_none_iff.1 (by decide +kernel)) (by decide)
  have hother : accentTree.readText ['b'] = .ok "⇩".toList := by
    decide +kernel
  rw [hread] at hother
  exact absurd (Except.ok.inj hother) (by decide)

end Unmarked

end Encoding

end Dialogue
