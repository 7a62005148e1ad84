import Dialogue.Dump.Kind
import Dialogue.Proofs.Reading
import Dialogue.Proofs.Tables

/-!
# Tables laid over each other

Tables that are laid over each other from left to right give every key the value of the last one
that has it, and keep the keys in the order in which they first appear (`IsOverlay`). This holds of
tables in which no key is repeated. Every table that a dump decodes to is such a table, and the keys
of its messages are labels in lower case (`keyed_of_decode`, `distinct_of_decodeNames`).
-/

namespace Dialogue

namespace Table

variable {κ ν : Type} [BEq κ]

/-- The table is what the others give when they are laid over each other from left to right. -/
structure IsOverlay (tables : List (Table κ ν)) (table : Table κ ν) : Prop where
  get?_eq : ∀ key, table.get? key = tables.reverse.findSome? fun other => other.get? key
  keys_eq : table.keys = (tables.flatMap keys).eraseDups

theorem IsOverlay.nil : IsOverlay ([] : List (Table κ ν)) ∅ := ⟨fun _ => rfl, rfl⟩

theorem mem_keys_of_get? [LawfulBEq κ] {table : Table κ ν} {key : κ} {value : ν}
    (h : table.get? key = some value) : key ∈ table.keys :=
  List.mem_map_of_mem (mem_of_get? h)

variable [LawfulBEq κ] [DecidableEq κ]

/-- Among pairs without a repeated key the order in which they are put in does not matter. -/
theorem get?_insertAll : ∀ {pairs : List (κ × ν)} (table : Table κ ν) (key : κ), Distinct pairs →
    (table.insertAll pairs).get? key = ((⟨pairs⟩ : Table κ ν).get? key).or (table.get? key)
  | [], _, _, _ => rfl
  | (k, v) :: pairs, table, key, h => by
    obtain ⟨hnew, hpairs⟩ := List.pairwise_cons.1 h
    have hrest : (table.insertAll ((k, v) :: pairs)).get? key
        = ((⟨pairs⟩ : Table κ ν).get? key).or (if key = k then some v else table.get? key) := by
      rw [← get?_insert]
      exact get?_insertAll (table.insert k v) key hpairs
    rw [hrest]
    by_cases hkey : key = k
    · have hnone : pairs.find? (fun pair => pair.1 == key) = none := by
        refine List.find?_eq_none.2 fun pair hpair heq => ?_
        have hne := hnew pair hpair
        rw [eq_of_beq heq, hkey] at hne
        simp at hne
      simp [get?, ← hkey, hnone]
    · have hne : (k == key) = false := beq_false_of_ne (Ne.symm hkey)
      simp [get?, hkey, hne]

theorem keys_insertAll : ∀ {pairs : List (κ × ν)} {table : Table κ ν} {earlier : List κ},
    table.keys = earlier.eraseDups →
      (table.insertAll pairs).keys = (earlier ++ pairs.map (·.1)).eraseDups
  | [], _, _, h => by simpa [insertAll] using h
  | (k, v) :: pairs, table, earlier, h => by
    have hkeys : (table.insert k v).keys = (earlier ++ [k]).eraseDups := by
      rw [keys_insert, h, eraseDups_snoc]
      simp only [List.mem_eraseDups]
    have hrest : ((table.insert k v).insertAll pairs).keys
        = (earlier ++ [k] ++ pairs.map (·.1)).eraseDups := keys_insertAll hkeys
    rw [List.append_assoc] at hrest
    exact hrest

theorem IsOverlay.overlay {tables : List (Table κ ν)} {table other : Table κ ν}
    (h : IsOverlay tables table) (hother : Distinct other.entries) :
    IsOverlay (tables ++ [other]) (table.overlay other) := by
  constructor
  · intro key
    rw [Table.overlay, get?_insertAll table key hother, h.get?_eq, List.reverse_append,
      List.reverse_singleton, List.singleton_append, List.findSome?_cons]
    rcases other.get? key with _ | value <;> rfl
  · rw [Table.overlay, keys_insertAll h.keys_eq, List.flatMap_append, List.flatMap_singleton]
    rfl

end Table

namespace Dump

/-- No label is repeated, and each is the lower case of one. -/
structure Keyed (messages : Messages) : Prop where
  distinct : Table.Distinct messages.entries
  lowered : ∀ key ∈ messages.keys, ∃ label, Text.lower label = key

namespace Keyed

theorem empty : Keyed ∅ := ⟨List.Pairwise.nil, fun _ hkey => nomatch hkey⟩

theorem insert {messages : Messages} (h : Keyed messages) (label : Text) (message : Message) :
    Keyed (messages.insert (Text.lower label) message) := by
  refine ⟨Table.distinct_insertInto h.distinct _ _, fun key hkey => ?_⟩
  rw [Table.keys_insert] at hkey
  split at hkey
  · exact h.lowered key hkey
  · rcases List.mem_append.1 hkey with hkey | hkey
    · exact h.lowered key hkey
    · exact ⟨label, (List.mem_singleton.1 hkey).symm⟩

theorem finish {draft : Draft} (h : Keyed draft.messages) : Keyed draft.finish.1.messages := by
  unfold Draft.finish Draft.flushLabel
  by_cases hempty : (draft.commitWord.label.isEmpty || draft.commitWord.parts.flatten.isEmpty)
  · simp only [if_pos hempty]
    exact h
  · simp only [if_neg hempty]
    rcases Message.ofText draft.commitWord.parts.flatten with e | message
    · exact h
    · exact h.insert _ _

/-- Only a label's name stores a message. -/
theorem handle {draft : Draft} (h : Keyed draft.messages) (state : State) (line : Line) :
    Keyed (state.handle draft line).1.messages := by
  cases state with
  | outside => exact h
  | labels =>
    simp only [State.handle, labelLine]
    split
    · have hfinish := h.finish
      split <;> simp_all [Draft.startLabel]
    · repeat' split
      all_goals exact h
  | tags =>
    simp only [State.handle, tagLine, tagField]
    repeat' split
    all_goals exact h
  | words =>
    simp only [State.handle, wordLine, wordField]
    repeat' split
    all_goals exact h

theorem readLine : ∀ (readings : Nat) {draft : Draft}, Keyed draft.messages →
    ∀ (state : State) (line : Line), Keyed (Dump.readLine readings state draft line).1.messages
  | 0, _, h, _, _ => h
  | readings + 1, draft, h, state, line => by
    have hhandle := h.handle state line
    simp only [Dump.readLine]
    rcases hstep : state.handle draft line with ⟨next, e | transition⟩ <;> rw [hstep] at hhandle
    · exact hhandle
    · simp only []
      split
      · exact hhandle
      · exact readLine readings hhandle _ line

theorem readLines : ∀ {lines : List Line} {state : State} {draft : Draft} {messages : Messages},
    Keyed draft.messages → Dump.readLines state draft lines = .ok messages → Keyed messages
  | [], _, draft, messages, h, hread => by
    have hfinish := h.finish
    simp only [Dump.readLines] at hread
    rcases hend : draft.finish with ⟨next, e | _⟩ <;> rw [hend] at hread hfinish
    · cases hread
    · cases hread
      exact hfinish
  | line :: lines, state, draft, messages, h, hread => by
    have hline := h.readLine maxReadings state line
    simp only [Dump.readLines] at hread
    rcases hstep : Dump.readLine maxReadings state draft line with ⟨next, e | state'⟩ <;>
      rw [hstep] at hread hline
    · cases hread
    · exact readLines hline hread

end Keyed

theorem keyed_of_decode {layout : Layout} {text : Text} {messages : Messages}
    (h : decode layout text = .ok messages) : Keyed messages := by
  unfold decode at h
  split at h
  · cases h
  · rcases hread : readLines layout.start {} ((Text.lines text).map Line.ofText) with e | found <;>
      rw [hread] at h
    · cases h
    · cases h
      exact Keyed.empty.readLines hread

theorem distinct_of_namesOf : ∀ {entries : List (List Text × Text)} {names found : Names},
    Table.Distinct names.entries → namesOf names entries = .ok found → Table.Distinct found.entries
  | [], _, _, h, hread => by
    cases hread
    exact h
  | (digits, name) :: entries, names, found, h, hread => by
    rw [namesOf] at hread
    rcases hkey : readKey digits with e | key <;> rw [hkey] at hread
    · cases hread
    · exact distinct_of_namesOf (Table.distinct_insertInto h key name) hread

theorem distinct_of_decodeNames {heading : Heading} {text : Text} {names : Names}
    (h : decodeNames heading text = .ok names) : Table.Distinct names.entries :=
  distinct_of_namesOf List.Pairwise.nil h

end Dump

end Dialogue
