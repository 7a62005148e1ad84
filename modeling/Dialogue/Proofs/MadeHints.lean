import Dialogue.Proofs.Definitions
import Dialogue.Proofs.Tables

/-!
# Hints of commands that were made

A command that no file defines is written as a hint with all that it says. Each of its parameters is
read back as it was (`hintParam?_toHint`), and they are put in the order of their indexes, those of
one index as they stood (`stablySorted_mergeSort`). So what is read is the command with its
parameters in this order, and it is written and read alike from then on (`ofHint?_toHint`).
-/

namespace Dialogue

section Sorting

variable {α : Type} {key : α → Int} {list : List α}

/-- A list in the order of a key; elements of one key stand in the order in which they stood. -/
structure StablySorted (key : α → Int) (list sorted : List α) : Prop where
  perm : sorted.Perm list
  ordered : sorted.Pairwise fun a b => key a ≤ key b
  stable : ∀ n, sorted.filter (key · == n) = list.filter (key · == n)

theorem mergeSort_of_ordered (h : list.Pairwise fun a b => key a ≤ key b) :
    list.mergeSort (fun a b => decide (key a ≤ key b)) = list :=
  List.mergeSort_of_pairwise (h.imp fun hle => decide_eq_true hle)

theorem stablySorted_mergeSort (key : α → Int) (list : List α) :
    StablySorted key list (list.mergeSort fun a b => decide (key a ≤ key b)) := by
  have htrans : ∀ a b c : α, decide (key a ≤ key b) = true → decide (key b ≤ key c) = true →
      decide (key a ≤ key c) = true := by
    simp only [decide_eq_true_eq]
    omega
  have htotal : ∀ a b : α, (decide (key a ≤ key b) || decide (key b ≤ key a)) = true := by
    simp only [Bool.or_eq_true, decide_eq_true_eq]
    omega
  have hperm := List.mergeSort_perm list fun a b => decide (key a ≤ key b)
  refine ⟨hperm, (List.pairwise_mergeSort htrans htotal list).imp of_decide_eq_true, fun n => ?_⟩
  -- the elements of one key are a sorted part of the list, so they are a part of the sorted list
  have hkeys : (list.filter (key · == n)).Pairwise fun a b => decide (key a ≤ key b) = true := by
    refine List.pairwise_of_forall_mem_list fun a ha b hb => ?_
    have hkey : key a = n := by simpa using (List.mem_filter.1 ha).2
    have hkey' : key b = n := by simpa using (List.mem_filter.1 hb).2
    exact decide_eq_true (hkey.trans hkey'.symm).le
  have hpart := (List.sublist_mergeSort htrans htotal hkeys List.filter_sublist).filter (key · == n)
  simp only [List.filter_filter, Bool.and_self] at hpart
  exact (hpart.eq_of_length (hperm.filter _).length_eq.symm).symm

end Sorting

namespace Command

section Writing

variable {param : Param} {command : Command}

theorem eraseDups_of_nodup {list : List Text} (h : list.Nodup) : list.eraseDups = list := by
  induction list using List.reverseRecOn with
  | nil => rfl
  | append_singleton list a ih =>
    have hnew : a ∉ list := fun hmem =>
      (List.nodup_append.1 h).2.2 a hmem a (List.mem_singleton_self a) rfl
    rw [Table.eraseDups_snoc, if_neg hnew, ih (List.nodup_append.1 h).1]

/-- A parameter that was made: its types are a set, and its other words are texts. -/
structure Param.Made (param : Param) : Prop where
  sorted : param.types.Pairwise fun s t => Text.le s t = true
  nodup : param.types.Nodup
  ref : ∃ s, param.ref = .string s
  description : ∃ s, param.description = .string s

/-- A command that was made: it has a name, and its words are texts. -/
structure Made (command : Command) : Prop where
  named : command.name.truthy = true
  params : ∀ param ∈ command.params, param.Made
  description : ∃ s, command.description = .string s

theorem typesOf_map_string (hsorted : param.types.Pairwise fun s t => Text.le s t = true)
    (hnodup : param.types.Nodup) : typesOf (.array (param.types.map .string)) = .ok param.types := by
  have hshown : (param.types.map Json.string).map Json.shown = param.types := by
    simp [Json.shown, Function.comp_def]
  simp only [typesOf, elements, Except.map, hshown, typeSet, Text.sort,
    eraseDups_of_nodup hnodup, List.mergeSort_of_pairwise hsorted]

theorem ofJson?_toJson (index : Ordinal) : Ordinal.ofJson? index.toJson = some index := by
  cases index <;> rfl

theorem textField_of_text {v : Json} (h : ∃ s, v = .string s) : textField v = v := by
  obtain ⟨s, rfl⟩ := h
  rcases s with _ | ⟨c, s⟩ <;> rfl

/-- A text that is left out where it is empty is read all the same. -/
theorem textField_fieldIf {name : Text} {v : Json} (h : ∃ s, v = .string s)
    (fields : List (Text × Json)) (habsent : ∀ field ∈ fields, field.1 ≠ name) :
    textField ((Json.object (fields ++ fieldIf name v)).field name) = v := by
  have hskip : fields.find? (fun field => field.1 == name) = none := by
    simpa [List.find?_eq_none] using habsent
  have hfield : (Json.object (fields ++ fieldIf name v)).field name
      = (Json.object (fieldIf name v)).field name := by
    simp only [Json.field, List.find?_append, hskip, Option.none_or]
  obtain ⟨text, rfl⟩ := h
  rw [hfield, fieldIf]
  split_ifs with htruthy
  · have hfound : (Json.object [(name, Json.string text)]).field name = .string text := by
      simp [Json.field]
    rw [hfound, textField, if_pos htruthy]
  · have hempty : text = [] := by simpa [Json.truthy] using htruthy
    rw [hempty]
    rfl

/-- A parameter that was made is read back from its hint. -/
theorem hintParam?_toHint (h : param.Made) : hintParam? param.toHint = .ok (some param) := by
  obtain ⟨index, types, dependsOn, ref, description⟩ := param
  generalize hhint : Param.toHint ⟨index, types, dependsOn, ref, description⟩ = hint
  have hindex : hint.field "Index" = index.toJson := by
    subst hhint
    rfl
  have href : hint.field "Ref" = ref := by
    subst hhint
    rfl
  have htypes : hint.field "Type" = .array (types.map .string) := by
    subst hhint
    rfl
  have hdepends : Ordinal.ofJson? (hint.field "DependsOn") = dependsOn := by
    subst hhint
    rcases dependsOn with _ | n
    · have hnone : (Param.toHint ⟨index, types, none, ref, description⟩).field "DependsOn" = .null := by
        rw [Param.toHint, fieldIf]
        split <;> rfl
      rw [hnone]
      rfl
    · exact ofJson?_toJson n
  have hdescription : textField (hint.field "Description") = description := by
    subst hhint
    refine textField_fieldIf h.description _ ?_
    cases dependsOn <;> simp
  simp only [hintParam?, hindex, ofJson?_toJson, htypes, typesOf_map_string h.sorted h.nodup, href,
    textField_of_text h.ref, hdepends, hdescription, Except.map]

theorem listField_array (items : List Json) : listField (.array items) = .ok items := by
  rcases items with _ | ⟨item, items⟩ <;> rfl

/-- The parameters of a command in the order of their indexes. -/
def inOrder (params : List Param) : List Param :=
  params.mergeSort fun a b => decide (a.index.value ≤ b.index.value)

theorem hintParams_toHint {params : List Param} (h : ∀ param ∈ params, param.Made) :
    hintParams (params.map Param.toHint) = .ok (inOrder params) := by
  have hread : (params.map Param.toHint).mapM hintParam? = .ok (params.map some) := by
    rw [mapM_eq_ok_iff, List.forall₂_map_left_iff, List.forall₂_map_right_iff, List.forall₂_same]
    exact fun param hmem => hintParam?_toHint (h param hmem)
  rw [hintParams, hread]
  simp [bind, Except.bind, List.filterMap_map, inOrder]

/-- The hint of a command that was made is read as the command, with its parameters in order. -/
theorem ofHint?_eq_inOrder (h : command.Made) : ofHint? command.toHint = .ok (some
    { command with params := inOrder command.params, source := command.toHint }) := by
  have hname : (Json.object command.toHint).field "Cmd" = command.name := rfl
  have hparams : (Json.object command.toHint).field "Params"
      = .array (command.params.map Param.toHint) := rfl
  have hdescription : textField ((Json.object command.toHint).field "Description")
      = command.description := textField_fieldIf h.description _ (by simp)
  simp only [ofHint?, hname, h.named, hparams, listField_array, hdescription, bind, Except.bind,
    hintParams_toHint h.params, Bool.not_true, Bool.false_eq_true, if_false]

end Writing

section Twice

variable {command : Command}

/-- Two commands that say the same, whatever they were read from. -/
structure Same (command other : Command) : Prop where
  name : command.name = other.name
  params : command.params = other.params
  description : command.description = other.description

/-- A command that was made is written as a hint that is read as the command with its parameters put
in the order of their indexes, which is the command itself where they stood in this order. To write
and read it once more changes nothing. -/
theorem ofHint?_toHint (h : command.Made) : ∃ once, ofHint? command.toHint = .ok (some once)
    ∧ once.name = command.name ∧ once.description = command.description
    ∧ StablySorted (·.index.value) command.params once.params
    ∧ ((command.params.Pairwise fun a b => a.index.value ≤ b.index.value) → once.Same command)
    ∧ ∃ twice, ofHint? once.toHint = .ok (some twice) ∧ twice.Same once := by
  have hsorted := stablySorted_mergeSort (·.index.value) command.params
  have hmade : ({ command with params := inOrder command.params, source := command.toHint } :
      Command).Made := by
    refine ⟨h.named, fun param hmem => h.params param ?_, h.description⟩
    exact hsorted.perm.subset hmem
  refine ⟨_, ofHint?_eq_inOrder h, rfl, rfl, hsorted, fun hordered => ⟨rfl, ?_, rfl⟩,
    _, ofHint?_eq_inOrder hmade, rfl, ?_, rfl⟩
  · exact mergeSort_of_ordered hordered
  · exact mergeSort_of_ordered hsorted.ordered

/-- A command with indexes out of order, two equal ones and a negative one, and without words. -/
def scrambled : Command where
  name := .string "SET_PAIR"
  params := [{ index := .int 2, types := ["TagIndex", "Value"], dependsOn := some (.int 0) },
    { index := .flag true, ref := .string "Slot" }, { index := .int (-1), types := [[]] },
    { index := .int 1, description := .string "again" }]

theorem ofHint?_toHint_scrambled : scrambled.Made
    ∧ ∃ once, ofHint? scrambled.toHint = .ok (some once)
      ∧ once.params.map (·.index) = [.int (-1), .flag true, .int 1, .int 2]
      ∧ ∃ twice, ofHint? once.toHint = .ok (some twice) ∧ twice.Same once := by
  have hmade : scrambled.Made := by
    refine ⟨rfl, ?_, [], rfl⟩
    simp only [scrambled, List.forall_mem_cons]
    exact ⟨⟨by decide, by decide, ⟨_, rfl⟩, ⟨_, rfl⟩⟩, ⟨by decide, by decide, ⟨_, rfl⟩, ⟨_, rfl⟩⟩,
      ⟨by decide, by decide, ⟨_, rfl⟩, ⟨_, rfl⟩⟩, ⟨by decide, by decide, ⟨_, rfl⟩, ⟨_, rfl⟩⟩, by simp⟩
  have horder : (inOrder scrambled.params).map (·.index)
      = [.int (-1), .flag true, .int 1, .int 2] := by
    simp [inOrder, scrambled, List.mergeSort, List.MergeSort.Internal.splitInTwo, Ordinal.value]
  obtain ⟨once, hread, -, -, -, -, htwice⟩ := ofHint?_toHint hmade
  obtain rfl := Option.some.inj (Except.ok.inj (hread.symm.trans (ofHint?_eq_inOrder hmade)))
  exact ⟨hmade, _, hread, horder, htwice⟩

end Twice

end Command

end Dialogue
