import Dialogue.Trace.Search

/-!
# The region above a place

A place's region is the lines above it up to the nearest one that declares a label, that line
included. A scan reads a region from below: it stops at the first line with a writer
(`scan_of_writer`), and otherwise no line of the region has one and the scan tells the label that
the region ends at (`scan_of_label`, `scan_of_top`).
-/

namespace Dialogue.Trace

/-- The lines above a place are those of the file that stand in front of it, wherever it lies. -/
theorem mem_linesAbove {lines : List Text} {line : Int} {p : Text × Nat} :
    p ∈ linesAbove lines line ↔ lines[p.2]? = some p.1 ∧ (p.2 : Int) < line := by
  obtain ⟨text, n⟩ := p
  rw [linesAbove, List.mem_reverse, List.mk_mem_zipIdx_iff_getElem?]
  by_cases hn : n < line.toNat
  · rw [List.getElem?_take_of_lt hn]
    exact ⟨fun h => ⟨h, by omega⟩, fun h => h.1⟩
  · rw [List.getElem?_take_eq_none (by omega)]
    exact ⟨fun h => by simp at h, fun h => absurd h.2 (by simp only []; omega)⟩

theorem linesAbove_pairwise (lines : List Text) (line : Int) :
    (linesAbove lines line).Pairwise fun a b => b.2 < a.2 := by
  rw [linesAbove, List.pairwise_reverse]
  have h : (((lines.take line.toNat).zipIdx).map (·.2)).Pairwise (· < ·) := by
    rw [List.zipIdx_map_snd]
    exact List.pairwise_lt_range'
  exact List.pairwise_map.1 h

/-- Line `n` is in the region above `line`, and `text` stands there: no line between the two
declares a label. -/
structure InRegion (lines : List Text) (line : Int) (n : Nat) (text : Text) : Prop where
  text_eq : lines[n]? = some text
  above : (n : Int) < line
  unlabelled : ∀ k other, n < k → (k : Int) < line → lines[k]? = some other →
    Script.label? other = none

instance {lines : List Text} {line : Int} {n : Nat} {text : Text} :
    Decidable (InRegion lines line n text) :=
  decidable_of_iff (lines[n]? = some text ∧ (n : Int) < line
      ∧ ∀ k (h : k < lines.length), n < k → (k : Int) < line → Script.label? lines[k] = none)
    ⟨fun ⟨htext, habove, hlabel⟩ => ⟨htext, habove, fun k other hk hline hother => by
      obtain ⟨hlt, rfl⟩ := List.getElem?_eq_some_iff.1 hother
      exact hlabel k hlt hk hline⟩,
    fun h => ⟨h.text_eq, h.above, fun k hlt hk hline =>
      h.unlabelled k _ hk hline (List.getElem?_eq_getElem hlt)⟩⟩

/-- The region above `line` ends at a line that declares the label. -/
def EndsAt (lines : List Text) (line : Int) (label : Text) : Prop :=
  ∃ n text, InRegion lines line n text ∧ Script.label? text = some label

theorem EndsAt.unique {lines : List Text} {line : Int} {a b : Text} (ha : EndsAt lines line a)
    (hb : EndsAt lines line b) : a = b := by
  obtain ⟨n, text, hn, hlabel⟩ := ha
  obtain ⟨k, other, hk, hother⟩ := hb
  rcases Nat.lt_trichotomy n k with h | rfl | h
  · rw [hn.unlabelled k other h hk.above hk.text_eq] at hother
    cases hother
  · have htext : text = other := Option.some.inj (hn.text_eq.symm.trans hk.text_eq)
    subst htext
    exact Option.some.inj (hlabel.symm.trans hother)
  · rw [hk.unlabelled n text h hn.above hn.text_eq] at hlabel
    cases hlabel

namespace Query

variable (query : Query)

/-- The command on a line that writes what the query asks for. -/
def writerOf (text : Text) : Except Error (Option Text) :=
  writer? query.schema query.tag query.slot text

/-- A scan goes on above the line. -/
def Passes (text : Text) : Prop :=
  query.writerOf text = .ok none ∧ Script.label? text = none

/-- What a scan has in front of it where it stops. -/
def StopsBefore : Stop → List (Text × Nat) → Prop
  | .writer command n, rest =>
    ∃ text tail, rest = (text, n) :: tail ∧ query.writerOf text = .ok (some command)
  | .label name, rest =>
    ∃ text n tail, rest = (text, n) :: tail ∧ query.writerOf text = .ok none
      ∧ Script.label? text = some name
  | .top, rest => rest = []

/-- A scan passes some lines and stops before the others. -/
theorem scan_split : ∀ {above : List (Text × Nat)} {stop : Stop}, query.scan above = .ok stop →
    ∃ passed rest, above = passed ++ rest ∧ (∀ p ∈ passed, query.Passes p.1)
      ∧ query.StopsBefore stop rest
  | [], stop, h => by
    simp only [scan, Except.ok.injEq] at h
    subst h
    exact ⟨[], [], rfl, by simp, rfl⟩
  | (text, n) :: above, stop, h => by
    simp only [scan] at h
    split at h
    · cases h
    · rename_i command hw
      simp only [Except.ok.injEq] at h
      subst h
      exact ⟨[], _, rfl, by simp, text, above, rfl, hw⟩
    · rename_i hw
      split at h
      · rename_i name hl
        simp only [Except.ok.injEq] at h
        subst h
        exact ⟨[], _, rfl, by simp, text, n, above, rfl, hw, hl⟩
      · rename_i hl
        obtain ⟨passed, rest, rfl, hp, hs⟩ := scan_split h
        refine ⟨(text, n) :: passed, rest, rfl, fun p hmem => ?_, hs⟩
        rcases List.mem_cons.1 hmem with rfl | hmem
        · exact ⟨hw, hl⟩
        · exact hp p hmem

variable {query} {lines : List Text} {line : Int}

/-- The lines read before line `n` are the ones between it and the place. -/
theorem mem_passed {passed tail : List (Text × Nat)} {text other : Text} {n k : Nat}
    (h : linesAbove lines line = passed ++ (text, n) :: tail) (hk : n < k)
    (hline : (k : Int) < line) (hother : lines[k]? = some other) : (other, k) ∈ passed := by
  have hmem : (other, k) ∈ linesAbove lines line := mem_linesAbove.2 ⟨hother, hline⟩
  have hdown := linesAbove_pairwise lines line
  rw [h] at hmem hdown
  rcases List.mem_append.1 hmem with hmem | hmem
  · exact hmem
  rcases List.mem_cons.1 hmem with heq | hmem
  · cases heq
    omega
  · have hlt := (List.pairwise_cons.1 (List.pairwise_append.1 hdown).2.1).1 _ hmem
    simp only [] at hlt
    omega

/-- The line that a scan has in front of it after lines without a label is in the region. -/
theorem inRegion_of_passed {passed tail : List (Text × Nat)} {text : Text} {n : Nat}
    (h : linesAbove lines line = passed ++ (text, n) :: tail)
    (hp : ∀ p ∈ passed, query.Passes p.1) : InRegion lines line n text := by
  have hmem : (text, n) ∈ linesAbove lines line := by
    rw [h]
    simp
  obtain ⟨htext, habove⟩ := mem_linesAbove.1 hmem
  exact ⟨htext, habove, fun k other hk hline hother =>
    (hp _ (mem_passed h hk hline hother)).2⟩

/-- A scan that stops at a writer stops at the region's nearest one. -/
theorem scan_of_writer {command : Text} {n : Nat}
    (h : query.scan (linesAbove lines line) = .ok (.writer command n)) :
    ∃ text, InRegion lines line n text ∧ query.writerOf text = .ok (some command)
      ∧ ∀ k other, InRegion lines line k other → n < k → query.writerOf other = .ok none := by
  obtain ⟨passed, rest, hsplit, hp, text, tail, rfl, hw⟩ := query.scan_split h
  refine ⟨text, inRegion_of_passed hsplit hp, hw, fun k other hk hnk => ?_⟩
  exact (hp _ (mem_passed hsplit hnk hk.above hk.text_eq)).1

/-- A scan that stops at a label stops where the region ends, and no line of it has a writer. -/
theorem scan_of_label {name : Text}
    (h : query.scan (linesAbove lines line) = .ok (.label name)) :
    EndsAt lines line name
      ∧ ∀ n text, InRegion lines line n text → query.writerOf text = .ok none := by
  obtain ⟨passed, rest, hsplit, hp, text, n, tail, rfl, hw, hl⟩ := query.scan_split h
  have hend := inRegion_of_passed hsplit hp
  refine ⟨⟨n, text, hend, hl⟩, fun k other hk => ?_⟩
  rcases Nat.lt_trichotomy n k with hnk | rfl | hnk
  · exact (hp _ (mem_passed hsplit hnk hk.above hk.text_eq)).1
  · have htext : text = other := Option.some.inj (hend.text_eq.symm.trans hk.text_eq)
    exact htext ▸ hw
  · rw [hk.unlabelled n text hnk hend.above hend.text_eq] at hl
    cases hl

/-- A scan that reaches the top of the file has met no label and no writer. -/
theorem scan_of_top (h : query.scan (linesAbove lines line) = .ok .top) :
    (∀ name, ¬ EndsAt lines line name)
      ∧ ∀ n text, InRegion lines line n text → query.writerOf text = .ok none := by
  obtain ⟨passed, rest, hsplit, hp, rfl⟩ := query.scan_split h
  rw [List.append_nil] at hsplit
  have hpass : ∀ n text, InRegion lines line n text → query.Passes text := fun n text hn =>
    hp (text, n) (hsplit ▸ mem_linesAbove.2 ⟨hn.text_eq, hn.above⟩)
  refine ⟨fun name ⟨n, text, hn, hl⟩ => ?_, fun n text hn => (hpass n text hn).1⟩
  rw [(hpass n text hn).2] at hl
  cases hl

end Query

end Dialogue.Trace
