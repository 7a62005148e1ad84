import Dialogue.Dump.Kind
import Dialogue.Proofs.Lines

/-!
# What the name of a dump says

The keys of a message file are its stem in lower case and what is left of that without prefixes
(`mem_aliases_iff`). A dump that is a name table by its stem is one by its whole name, so its
category is one of the markers (`category_mem_of_nameTable`): lowering a longer text can only change
the form of a sigma in the part before (`map_unfinal_lowerAfter`).
-/

namespace Dialogue

namespace Text

/-- A final sigma as any other sigma. -/
def unfinal (c : Char) : Char := if c = 'ς' then 'σ' else c

theorem eq_of_unfinal {c d : Char} (h : unfinal c = d) (hd : d ≠ 'σ') : c = d := by
  unfold unfinal at h
  split at h
  · exact absurd h.symm hd
  · exact h

/-- The lower case of a text does not change with what follows, but for its final sigmas. -/
theorem map_unfinal_lowerAfter (rest : Text) : ∀ (cased : Bool) (text : Text),
    (lowerAfter cased text).map unfinal <+: (lowerAfter cased (text ++ rest)).map unfinal
  | _, [] => List.nil_prefix
  | cased, c :: text => by
    have ih := map_unfinal_lowerAfter rest (if isCaseIgnorable c then cased else isCased c) text
    simp only [List.cons_append, lowerAfter]
    split
    · have hsigma : ∀ final : Bool, unfinal (if final then 'ς' else 'σ') = 'σ' := by decide
      simp only [List.map_cons, hsigma]
      exact List.prefix_cons_inj _ |>.2 ih
    · split
      · simpa using ih
      · simpa using ih

/-- What occurs in the lower case of a text also does in that of a longer one, if it holds no
sigma. -/
theorem occursIn_lower_of_prefix {needle first text : Text} (hbegins : first <+: text)
    (hneedle : ∀ c ∈ needle, unfinal c = c ∧ c ≠ 'σ') (h : occursIn needle (lower first) = true) :
    occursIn needle (lower text) = true := by
  obtain ⟨rest, rfl⟩ := hbegins
  obtain ⟨before, after, hsplit⟩ := occursIn_iff.1 h
  have hmap : needle.map unfinal = needle :=
    (List.map_congr_left fun c hc => (hneedle c hc).1).trans (List.map_id needle)
  have hinfix : needle <:+: (lower (first ++ rest)).map unfinal := by
    refine List.IsInfix.trans ?_ (map_unfinal_lowerAfter rest false first).isInfix
    change needle <:+: (lower first).map unfinal
    rw [← hsplit, List.map_append, List.map_append, hmap]
    exact ⟨_, _, rfl⟩
  obtain ⟨start, last, heq⟩ := hinfix
  obtain ⟨front, back, hlower, hfront, -⟩ := List.map_eq_append_iff.1 heq.symm
  obtain ⟨start', found, rfl, -, hfound⟩ := List.map_eq_append_iff.1 hfront
  have hsame : found.map unfinal = found.map id := by
    refine List.map_congr_left fun c hc => ?_
    have hmem : unfinal c ∈ needle := hfound ▸ List.mem_map_of_mem hc
    exact (eq_of_unfinal rfl (hneedle _ hmem).2).symm
  rw [hfound, List.map_id] at hsame
  rw [occursIn_iff, hlower, ← hsame]
  exact ⟨start', back, rfl⟩

end Text

theorem Path.stem_prefix_base (path : Text) : Path.stem path <+: Path.base path := by
  unfold Path.stem Path.splitExtension
  simp only []
  split
  · exact List.take_prefix _ _
  · exact List.prefix_rfl

namespace Dump

theorem mem_aliases_iff {path key : Text} : key ∈ aliases path
    ↔ key = lowerStem path ∨ key ≠ [] ∧ shortStem (lowerStem path) = key := by
  unfold aliases
  simp only [Bool.or_eq_true, beq_iff_eq, List.isEmpty_iff]
  split
  · rename_i h
    rw [List.mem_singleton]
    refine ⟨.inl, fun hkey => hkey.elim id fun ⟨hne, hshort⟩ => ?_⟩
    rcases h with h | h
    · exact hshort.symm.trans h
    · exact absurd (hshort.symm.trans h) hne
  · rename_i h
    obtain ⟨-, hne⟩ := not_or.1 h
    rw [List.mem_cons, List.mem_singleton]
    exact or_congr_right ⟨fun hkey => ⟨hkey ▸ hne, hkey.symm⟩, fun hkey => hkey.2.symm⟩

theorem category_mem_of_nameTable {path : Text} (h : Kind.ofPath? path = some .nameTable) :
    category path ∈ nameMarkers := by
  have hstem : nameMarkers.any (Text.occursIn · (lowerStem path)) = true := by
    unfold Kind.ofPath? at h
    simp only [] at h
    split at h
    · cases h
    split at h
    · assumption
    · repeat' split at h
      all_goals cases h
  obtain ⟨marker, hmarker, hoccurs⟩ := List.any_eq_true.1 hstem
  have hall : ∀ marker ∈ nameMarkers,
      (marker.all fun c => Text.unfinal c == c && c != 'σ') = true := by decide
  have hplain : ∀ c ∈ marker, Text.unfinal c = c ∧ c ≠ 'σ' := fun c hc => by
    simpa using List.all_eq_true.1 (hall marker hmarker) c hc
  have hname : Text.occursIn marker (Text.lower (Path.base path)) = true :=
    Text.occursIn_lower_of_prefix (Path.stem_prefix_base path) hplain hoccurs
  rcases hfind : nameMarkers.find? (Text.occursIn · (Text.lower (Path.base path))) with _ | found
  · exact absurd hname (List.find?_eq_none.1 hfind marker hmarker)
  · rw [category, hfind]
    exact List.mem_of_find?_eq_some hfind

end Dump

end Dialogue
