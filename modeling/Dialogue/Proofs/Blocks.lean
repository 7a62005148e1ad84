import Dialogue.Proofs.Lines
import Dialogue.Proofs.Reading
import Mathlib.Data.List.SplitBy

/-!
# A dump is decoded label by label

A label list is cut into blocks, a new one at each label's name. Nothing that a block leaves open
is seen by the next one, so a dump decodes to its blocks' messages laid over each other from left to
right (`decode_eq_overlay`).
-/

namespace Dialogue.Dump

def startsLabel (line : Text) : Bool := (Line.ofText line).hasKey labelNameKey

/-- The lines of the label list of a dump: a whole table has none without the key that opens it. -/
def listLines : Layout → List Text → List Text
  | .labelList, lines => lines
  | .table, lines => (lines.dropWhile fun line => !(Line.ofText line).hasKey labelArrayKey).tail

/-- The lines cut into blocks, a new one at each label's name. -/
def blocks (lines : List Text) : List (List Text) :=
  lines.splitBy fun _ next => !startsLabel next

/-- The messages of a block that is decoded by itself. -/
def decodeBlock (block : List Text) : Except Error Messages :=
  decode .labelList (Text.unlines block)

/-- What holds of every right neighbour holds of all but the first. -/
theorem forall_mem_tail_of_isChain {α : Type} {p : α → Prop} :
    ∀ {l : List α}, l.IsChain (fun _ b => p b) → ∀ b ∈ l.tail, p b
  | [], _, b, hb => absurd hb (by simp)
  | [_], _, b, hb => absurd hb (by simp)
  | _ :: c :: l, h, b, hb => by
    rw [List.isChain_cons_cons] at h
    rcases List.mem_cons.1 hb with rfl | hb
    · exact h.1
    · exact forall_mem_tail_of_isChain h.2 b hb

theorem startsLabel_of_mem_tail {lines block : List Text} (h : block ∈ blocks lines) :
    ∀ line ∈ block.tail, startsLabel line = false := by
  intro line hline
  have hchain : block.IsChain fun _ next => (!startsLabel next) = true :=
    List.isChain_of_mem_splitBy h
  simpa using forall_mem_tail_of_isChain hchain line hline

theorem startsLabel_head {lines block : List Text} (h : block ∈ (blocks lines).tail) :
    ∃ line tail, block = line :: tail ∧ startsLabel line = true := by
  have hchain := (List.isChain_getLast_head_splitBy (fun _ next => !startsLabel next) lines).imp
    (S := fun _ b => ∃ hb, startsLabel (b.head hb) = true)
    fun _ _ ⟨_, hb, hhead⟩ => ⟨hb, by simpa using hhead⟩
  obtain ⟨hb, hhead⟩ := forall_mem_tail_of_isChain hchain block h
  exact ⟨block.head hb, block.tail, (List.cons_head_tail hb).symm, hhead⟩

/-- The messages of lines that are decoded by themselves. -/
def readBlock (block : List Text) : Except OverlongInteger Messages :=
  readLines .labels {} (block.map Line.ofText)

theorem feed_blank {state : State} (draft : Draft) (h : state ≠ .outside) :
    feed state draft [Line.ofText []] = .ok (state, draft) := by
  cases state with
  | outside => exact absurd rfl h
  | labels => rfl
  | tags => rfl
  | words => rfl

theorem readBlock_append_blank (block : List Text) :
    readBlock (block ++ [[]]) = readBlock block := by
  simp only [readBlock, List.map_append, List.map_cons, List.map_nil, readLines_append]
  rw [readLines_eq]
  rcases hfeed : feed .labels {} (block.map Line.ofText) with e | ⟨state, draft⟩
  · rfl
  · have hs : state ≠ .outside := feed_ne_outside (by decide) hfeed
    simp only [Except.bind, readLines_eq, feed_blank draft hs]

theorem decodeBlock_eq {block : List Text} (h : ∀ line ∈ block, Text.OneLine line) :
    decodeBlock block = (readBlock block).mapError .overlong := by
  have hread : decodeBlock block
      = (readBlock (Text.lines (Text.unlines block))).mapError .overlong := rfl
  rw [hread]
  rcases Text.lines_unlines h with heq | heq
  · rw [← heq]
  · conv_rhs => rw [heq]
    rw [readBlock_append_blank]

/-- Up to the key that opens the label list nothing is read. -/
theorem readLines_outside : ∀ lines : List Text,
    readLines .outside {} (lines.map Line.ofText) = readBlock (listLines .table lines)
  | [] => rfl
  | line :: lines => by
    have ih := readLines_outside lines
    rcases hkey : (Line.ofText line).hasKey labelArrayKey with _ | _
    · simpa [listLines, readLines, readLine, maxReadings, State.handle, outsideLine, hkey] using ih
    · simp [listLines, readLines, readLine, maxReadings, State.handle, outsideLine, hkey, readBlock]

/-- The rest of a dump from a block on: the open label is closed, and what each block gives alone
is laid over it. -/
theorem readLines_blocks : ∀ (rest : List (List Text)) {state : State} (draft : Draft),
    state ≠ .outside →
    (∀ block ∈ rest, ∃ line tail, block = line :: tail ∧ startsLabel line = true
      ∧ ∀ other ∈ tail, startsLabel other = false) →
    readLines state draft (rest.flatten.map Line.ofText)
      = draft.close.bind fun messages => rest.foldlM (fun messages block =>
        (readBlock block).map messages.overlay) messages
  | [], state, draft, _, _ => by
    simp only [List.flatten_nil, List.map_nil, readLines_eq, feed, List.foldlM_nil]
    change draft.close = _
    rcases draft.close with e | messages <;> rfl
  | block :: rest, state, draft, hs, h => by
    obtain ⟨line, tail, rfl, hstart, htail⟩ := h block (by simp)
    have hrest := fun other hmem => h other (List.mem_cons_of_mem _ hmem)
    rcases hname : (Line.ofText line).value? labelNameKey with _ | name
    · rw [Line.value?_eq_none, ← Bool.not_eq_true] at hname
      exact absurd hstart hname
    have hlines : ∀ other ∈ tail.map Line.ofText, other.hasKey labelNameKey = false := by
      intro other hother
      obtain ⟨text, htext, rfl⟩ := List.mem_map.1 hother
      exact htail text htext
    have hblock : readBlock (line :: tail)
        = (feed .labels { label := name } (tail.map Line.ofText)).bind fun fed =>
          fed.2.close := by
      rw [readBlock, List.map_cons, readLines_eq, feed_name (by decide) hname]
      rfl
    simp only [List.flatten_cons, List.map_append, List.map_cons, List.cons_append,
      List.foldlM_cons]
    rw [← List.cons_append, readLines_append, feed_name hs hname, hblock]
    rcases draft.close with e | messages
    · rfl
    simp only [Except.bind, feed_under messages name .labels _ hlines]
    rcases hfeed : feed .labels { label := name } (tail.map Line.ofText) with e | ⟨state', draft'⟩
    · rfl
    have hs' : state' ≠ .outside := feed_ne_outside (by decide) hfeed
    obtain ⟨hempty, hlabel⟩ := kept_of_feed hlines hfeed
    simp only [Except.map, readLines_blocks rest _ hs' hrest, Draft.close_under hlabel,
      Draft.close_of_empty hempty]
    rcases draft'.stored with e | added <;> rfl

/-- The draft that lines without a label's name leave of an empty one. -/
theorem readBlock_of_unnamed {block : List Text} (h : ∀ line ∈ block, startsLabel line = false) :
    (∃ e, feed .labels {} (block.map Line.ofText) = .error e ∧ readBlock block = .error e)
      ∨ ∃ state draft, feed .labels {} (block.map Line.ofText) = .ok (state, draft)
        ∧ state ≠ .outside ∧ draft.close = .ok ∅ ∧ readBlock block = .ok ∅ := by
  have hlines : ∀ line ∈ block.map Line.ofText, line.hasKey labelNameKey = false := by
    intro line hline
    obtain ⟨text, htext, rfl⟩ := List.mem_map.1 hline
    exact h text htext
  rw [readBlock, readLines_eq]
  rcases hfeed : feed .labels {} (block.map Line.ofText) with e | ⟨state, draft⟩
  · exact .inl ⟨e, rfl, rfl⟩
  · obtain ⟨hempty, hlabel⟩ := kept_of_feed hlines hfeed
    have hclose : draft.close = .ok ∅ := by
      rw [Draft.close_of_empty hempty, Draft.stored, if_pos (.inl hlabel)]
    exact .inr ⟨state, draft, rfl, feed_ne_outside (by decide) hfeed, hclose, hclose⟩

/-- The blocks are laid over each other from the first one on. -/
theorem readBlock_eq_overlay (lines : List Text) :
    readBlock lines = (blocks lines).foldlM (fun messages block =>
      (readBlock block).map messages.overlay) ∅ := by
  have hflat : (blocks lines).flatten = lines := List.flatten_splitBy _ lines
  have hnamed : ∀ block ∈ (blocks lines).tail, ∃ line tail, block = line :: tail
      ∧ startsLabel line = true ∧ ∀ other ∈ tail, startsLabel other = false := by
    intro block hmem
    obtain ⟨line, tail, rfl, hline⟩ := startsLabel_head hmem
    exact ⟨line, tail, rfl, hline, startsLabel_of_mem_tail (List.mem_of_mem_tail hmem)⟩
  rcases hblocks : blocks lines with _ | ⟨first, rest⟩
  · rw [hblocks] at hflat
    subst hflat
    rfl
  rw [hblocks] at hflat hnamed
  have hmem : first ∈ blocks lines := by simp [hblocks]
  have htail := startsLabel_of_mem_tail hmem
  by_cases hfirst : ∃ line tail, first = line :: tail ∧ startsLabel line = true
  · obtain ⟨line, tail, rfl, hline⟩ := hfirst
    have hall : ∀ block ∈ (line :: tail) :: rest, ∃ line tail, block = line :: tail
        ∧ startsLabel line = true ∧ ∀ other ∈ tail, startsLabel other = false := by
      intro block hmem
      rcases List.mem_cons.1 hmem with rfl | hmem
      · exact ⟨line, tail, rfl, hline, htail⟩
      · exact hnamed block hmem
    conv_lhs => rw [← hflat, readBlock, readLines_blocks _ {} (by decide) hall]
    rfl
  · have hunnamed : ∀ line ∈ first, startsLabel line = false := by
      intro line hmem
      rcases first with _ | ⟨head, tail⟩
      · simp at hmem
      rcases List.mem_cons.1 hmem with rfl | hmem
      · exact Bool.not_eq_true _ ▸ fun h => hfirst ⟨_, _, rfl, h⟩
      · exact htail line hmem
    conv_lhs => rw [← hflat, readBlock, List.flatten_cons, List.map_append, readLines_append]
    rw [List.foldlM_cons]
    rcases readBlock_of_unnamed hunnamed with ⟨e, hfeed, hread⟩ |
      ⟨state, draft, hfeed, hs, hclose, hread⟩
    · rw [hfeed, hread]
      rfl
    · simp only [hfeed, hread, Except.bind, readLines_blocks rest draft hs hnamed, hclose]
      rfl

theorem foldlM_mapError {blocks : List (List Text)}
    (h : ∀ block ∈ blocks, decodeBlock block = (readBlock block).mapError .overlong) :
    ∀ messages : Messages,
      (blocks.foldlM (fun messages block => (readBlock block).map messages.overlay)
          messages).mapError .overlong
        = blocks.foldlM (fun messages block => (decodeBlock block).map messages.overlay)
          messages := by
  induction blocks with
  | nil => exact fun _ => rfl
  | cons block blocks ih =>
    intro messages
    have hrest := ih fun other hmem => h other (by simp [hmem])
    rw [List.foldlM_cons, List.foldlM_cons, h block (by simp)]
    rcases readBlock block with e | added
    · rfl
    · exact hrest (messages.overlay added)

/-- Where a block cannot be decoded and all before it can, the whole cannot for the same cause. -/
theorem foldlM_error {before after : List (List Text)} {block : List Text} {e : Error}
    (hbefore : ∀ other ∈ before, ∃ messages, decodeBlock other = .ok messages)
    (hblock : decodeBlock block = .error e) :
    ∀ messages : Messages, (before ++ block :: after).foldlM (fun messages block =>
      (decodeBlock block).map messages.overlay) messages = .error e := by
  induction before with
  | nil =>
    intro messages
    rw [List.nil_append, List.foldlM_cons, hblock]
    rfl
  | cons other before ih =>
    intro messages
    obtain ⟨added, hadded⟩ := hbefore other (by simp)
    rw [List.cons_append, List.foldlM_cons, hadded]
    exact ih (fun block hmem => hbefore block (by simp [hmem])) (messages.overlay added)

theorem mem_listLines {layout : Layout} {lines : List Text} {line : Text}
    (h : line ∈ listLines layout lines) : line ∈ lines := by
  cases layout with
  | labelList => exact h
  | table => exact (List.dropWhile_suffix _).subset (List.mem_of_mem_tail h)

/-- A dump, of a whole table that names its label list or of a label list, decodes to its blocks'
messages laid over each other from left to right. The first block that cannot be decoded gives the
error, and lines in front of the first name add nothing. -/
theorem decode_eq_overlay (layout : Layout) (text : Text)
    (h : layout = .table → Text.occursIn labelArrayKey text = true) :
    decode layout text
        = (blocks (listLines layout (Text.lines text))).foldlM (fun messages block =>
          (decodeBlock block).map messages.overlay) ∅
      ∧ (∀ before block after e,
        blocks (listLines layout (Text.lines text)) = before ++ block :: after →
          (∀ other ∈ before, ∃ messages, decodeBlock other = .ok messages) →
            decodeBlock block = .error e → decode layout text = .error e)
      ∧ ∀ block ∈ blocks (listLines layout (Text.lines text)),
        (∀ line ∈ block, startsLabel line = false) →
          ∀ messages, decodeBlock block = .ok messages → messages = ∅ := by
  have hone : ∀ block ∈ blocks (listLines layout (Text.lines text)), ∀ line ∈ block,
      Text.OneLine line := by
    intro block hblock line hline
    have hmem : line ∈ listLines layout (Text.lines text) := by
      rw [← List.flatten_splitBy (fun _ next => !startsLabel next) (listLines layout _)]
      exact List.mem_flatten.2 ⟨block, hblock, hline⟩
    exact Text.oneLine_of_mem_lines text line (mem_listLines hmem)
  have hread : decode layout text
      = (readBlock (listLines layout (Text.lines text))).mapError .overlong := by
    cases layout with
    | labelList => rfl
    | table =>
      rw [← readLines_outside, decode, if_neg (by simp [h rfl])]
      rfl
  have heq : decode layout text
      = (blocks (listLines layout (Text.lines text))).foldlM (fun messages block =>
        (decodeBlock block).map messages.overlay) ∅ := by
    rw [hread, readBlock_eq_overlay, foldlM_mapError fun block hmem =>
      decodeBlock_eq (hone block hmem)]
  refine ⟨heq, fun before block after e hsplit hbefore hblock => ?_,
    fun block hmem hunnamed messages hdecode => ?_⟩
  · rw [heq, hsplit]
    exact foldlM_error hbefore hblock ∅
  · rw [decodeBlock_eq (hone block hmem)] at hdecode
    rcases readBlock_of_unnamed hunnamed with ⟨e, -, hblock⟩ | ⟨_, _, -, -, -, hblock⟩
    · rw [hblock] at hdecode
      cases hdecode
    · rw [hblock] at hdecode
      cases hdecode
      rfl

/-- A dump with a stray line and a label that is written twice, the first time with a tag. -/
def repeatedDump : Text :=
  Text.terminated (["labelDataArray:", "stray: 1", "labelName: A", "tagDataArray:",
    "- tagIndex: 7", "wordDataArray:", "- str: x", "labelName: B", "wordDataArray:", "- str: z",
    "labelName: a", "wordDataArray:", "- tagIndex: 0"].map String.toList)

theorem decode_eq_overlay_repeated :
    Text.occursIn labelArrayKey repeatedDump = true
      ∧ (blocks (listLines .table (Text.lines repeatedDump))).length = 4
      ∧ ((decode .table repeatedDump).toOption.map fun messages =>
          messages.entries.map fun entry => (entry.1, entry.2.text))
        = some [("a".toList, "\x7b0:1\x7d".toList), ("b".toList, "z\x7bn\x7d".toList)]
      ∧ decode .table repeatedDump
        = (blocks (listLines .table (Text.lines repeatedDump))).foldlM (fun messages block =>
          (decodeBlock block).map messages.overlay) ∅ :=
  ⟨by decide +kernel, by decide +kernel, by decide +kernel,
    (decode_eq_overlay .table repeatedDump fun _ => by decide +kernel).1⟩

end Dialogue.Dump
