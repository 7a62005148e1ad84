import Dialogue.Proofs.Reading

/-!
# Lines that are handed back

A handler that hands a line back has not touched the draft, and it hands the line to the label
state, which hands none back (`handedBack`). So a line is read twice at most, and the limit on
readings ends no reading before a handler is done with the line (`exists_lastCall`,
`readLine_of_calls`). In a dump that is decoded a handler was done with every line
(`settles_within_two`).
-/

namespace Dialogue.Dump

section OneLine

variable {state last next : State} {draft before after : Draft} {line : Line} {n : Nat}

/-- The handler calls on a line that is read without a limit: the number of the call, and the state
and the draft in it. -/
inductive Calls (state : State) (draft : Draft) (line : Line) : Nat → State → Draft → Prop
  | first : Calls state draft line 1 state draft
  | again {n : Nat} {last next : State} {before after : Draft}
      (earlier : Calls state draft line n last before)
      (back : last.handle before line = (after, .ok ⟨next, false⟩)) :
      Calls state draft line (n + 1) next after

/-- The `n`-th call is done with the line. -/
def Settles (state : State) (draft : Draft) (line : Line) (n : Nat) (next : State)
    (after : Draft) : Prop :=
  ∃ last before, Calls state draft line n last before
    ∧ last.handle before line = (after, .ok ⟨next, true⟩)

/-- Some call on the line fails. -/
def Fails (state : State) (draft : Draft) (line : Line) : Prop :=
  ∃ n last before after e, Calls state draft line n last before
    ∧ last.handle before line = (after, .error e)

theorem tagField_consumed {next : Transition} (h : (tagField draft line).2 = .ok next) :
    next.consumed = true := by
  unfold tagField at h
  repeat' split at h
  all_goals cases h
  all_goals rfl

theorem wordField_consumed {next : Transition} (h : (wordField draft line).2 = .ok next) :
    next.consumed = true := by
  unfold wordField at h
  repeat' split at h
  all_goals cases h
  all_goals rfl

/-- The list states hand a line on to the label state before they change the draft. -/
theorem handedBack (h : state.handle draft line = (after, .ok ⟨next, false⟩)) :
    (state = .tags ∨ state = .words) ∧ next = .labels ∧ after = draft := by
  cases state with
  | outside => cases h
  | labels =>
    simp only [State.handle, labelLine] at h
    repeat' split at h
    all_goals cases h
  | tags =>
    rw [State.handle, tagLine] at h
    split at h
    · cases h
    split at h
    · cases h
      exact ⟨.inl rfl, rfl, rfl⟩
    · exact Bool.noConfusion (tagField_consumed (congrArg Prod.snd h))
  | words =>
    rw [State.handle, wordLine] at h
    split at h
    · cases h
      exact ⟨.inr rfl, rfl, rfl⟩
    · exact Bool.noConfusion (wordField_consumed (congrArg Prod.snd h))

/-- Each call but the last one uses up a reading. -/
theorem readLine_of_calls (h : Calls state draft line n last before) (more : Nat) :
    readLine (n + more) state draft line = readLine (more + 1) last before line := by
  induction h generalizing more with
  | first => rw [Nat.add_comm]
  | again _ back ih =>
    rw [Nat.add_assoc, Nat.add_comm 1, ih, readLine, back]
    rfl

/-- The second call at the latest does not hand the line back. -/
theorem exists_lastCall (state : State) (draft : Draft) (line : Line) :
    ∃ n ≤ 2, ∃ last before, Calls state draft line n last before
      ∧ ∀ after next, last.handle before line ≠ (after, .ok ⟨next, false⟩) := by
  by_cases hfirst : ∃ after next, state.handle draft line = (after, .ok ⟨next, false⟩)
  · obtain ⟨after, next, hback⟩ := hfirst
    obtain ⟨-, rfl, -⟩ := handedBack hback
    refine ⟨2, Nat.le_refl 2, .labels, after, .again .first hback, fun _ _ hagain => ?_⟩
    simpa using (handedBack hagain).1
  · refine ⟨1, Nat.le_succ 1, state, draft, .first, fun after next hback => ?_⟩
    exact hfirst ⟨after, next, hback⟩

/-- A reading ends with its last call, in the way the call ends, whatever the limit beyond it. -/
theorem settles_or_fails (state : State) (draft : Draft) (line : Line) :
    (∃ n ≤ 2, ∃ next after, Settles state draft line n next after
        ∧ ∀ readings, n ≤ readings → readLine readings state draft line = (after, .ok next))
      ∨ ∃ n ≤ 2, ∃ after e, Fails state draft line
        ∧ ∀ readings, n ≤ readings → readLine readings state draft line = (after, .error e) := by
  obtain ⟨n, hn, last, before, hcalls, hlast⟩ := exists_lastCall state draft line
  have hread : ∀ readings, n ≤ readings → ∃ more,
      readLine readings state draft line = readLine (more + 1) last before line := by
    intro readings hle
    obtain ⟨more, rfl⟩ := Nat.exists_eq_add_of_le hle
    exact ⟨more, readLine_of_calls hcalls more⟩
  rcases hcall : last.handle before line with ⟨after, e | ⟨next, consumed⟩⟩
  · refine .inr ⟨n, hn, after, e, ⟨n, last, before, after, e, hcalls, hcall⟩, fun readings hle => ?_⟩
    obtain ⟨more, heq⟩ := hread readings hle
    rw [heq, readLine, hcall]
  · cases consumed with
    | false => exact absurd hcall (hlast after next)
    | true =>
      refine .inl ⟨n, hn, next, after, ⟨last, before, hcalls, hcall⟩, fun readings hle => ?_⟩
      obtain ⟨more, heq⟩ := hread readings hle
      rw [heq, readLine, hcall]
      rfl

end OneLine

section Dump

/-- Lines that are read one after the other, each until a handler is done with it. -/
inductive ReadThrough : State → Draft → List Line → State → Draft → Prop
  | nil {state : State} {draft : Draft} : ReadThrough state draft [] state draft
  | cons {state next last : State} {draft after final : Draft} {line : Line} {rest : List Line}
      {n : Nat} (settles : Settles state draft line n next after)
      (more : ReadThrough next after rest last final) :
      ReadThrough state draft (line :: rest) last final

theorem readThrough_of_feed : ∀ {lines : List Line} {state last : State} {draft final : Draft},
    feed state draft lines = .ok (last, final) → ReadThrough state draft lines last final
  | [], _, _, _, _, h => by
    cases h
    exact .nil
  | line :: rest, state, last, draft, final, h => by
    have hlimit : ∀ {n}, n ≤ 2 → n ≤ maxReadings := fun hn => Nat.le_trans hn (by decide)
    rw [feed] at h
    rcases settles_or_fails state draft line with ⟨n, hn, next, after, hsettles, hread⟩ |
      ⟨n, hn, after, e, -, hread⟩
    · rw [hread maxReadings (hlimit hn)] at h
      exact .cons hsettles (readThrough_of_feed h)
    · rw [hread maxReadings (hlimit hn)] at h
      cases h

/-- A line on which no call fails is settled by the second call at the latest, and so with any limit
that allows this call; a call that hands a line back leaves the draft as it was; and of a dump that
is decoded every line was settled. -/
theorem settles_within_two :
    (∀ state draft line, ¬ Fails state draft line →
      ∃ n ≤ 2, ∃ next after, Settles state draft line n next after
        ∧ ∀ readings, n ≤ readings → readLine readings state draft line = (after, .ok next))
    ∧ (∀ state draft line next after, State.handle state draft line = (after, .ok ⟨next, false⟩) →
      (state = .tags ∨ state = .words) ∧ next = .labels ∧ after = draft)
    ∧ ∀ layout text messages, decode layout text = .ok messages →
      ∃ last final, ReadThrough layout.start {} ((Text.lines text).map Line.ofText) last final
        ∧ final.close = .ok messages := by
  refine ⟨fun state draft line hfails => ?_, fun _ _ _ _ _ => handedBack, ?_⟩
  · rcases settles_or_fails state draft line with hsettles | ⟨-, -, -, -, h, -⟩
    · exact hsettles
    · exact absurd h hfails
  · intro layout text messages h
    unfold decode at h
    split at h
    · cases h
    rw [readLines_eq] at h
    rcases hfeed : feed layout.start {} ((Text.lines text).map Line.ofText) with e | ⟨last, final⟩
    · rw [hfeed] at h
      cases h
    · rw [hfeed] at h
      refine ⟨last, final, readThrough_of_feed hfeed, ?_⟩
      rcases hclose : final.close with e | closed
      · simp only [Except.bind, hclose] at h
        cases h
      · simp only [Except.bind, hclose] at h
        cases h
        rfl

/-- A label with an open word, before the name of the next label. -/
def openDraft : Draft := { label := "Ann", word := { literal := some "Hi" } }

def nameLine : Line := .ofText "  labelName: Bob"

def namesText : Text := "labelName: Ann\nwordDataArray:\n- str: Hi\n\n- labelName: Bob"

theorem not_fails_nameLine : ¬ Fails .words openDraft nameLine := by
  have hback : State.words.handle openDraft nameLine = (openDraft, .ok ⟨.labels, false⟩) := by rfl
  have hdone : (State.labels.handle openDraft nameLine).2.toOption.isSome = true := by
    decide +kernel
  rintro ⟨n, last, before, after, e, hcalls, hfail⟩
  cases hcalls with
  | first => cases hback.symm.trans hfail
  | again earlier back =>
    cases earlier with
    | first =>
      cases hback.symm.trans back
      rw [hfail] at hdone
      cases hdone
    | again _ back' =>
      obtain ⟨-, rfl, -⟩ := handedBack back'
      simpa using (handedBack back).1

theorem settles_within_two_named :
    (∃ n ≤ 2, ∃ next after, Settles .words openDraft nameLine n next after)
      ∧ (∃ after, State.words.handle openDraft nameLine = (after, .ok ⟨.labels, false⟩)
        ∧ after = openDraft)
      ∧ ∃ messages, decode .labelList namesText = .ok messages
        ∧ ∃ last final, ReadThrough .labels {} ((Text.lines namesText).map Line.ofText) last final
          ∧ final.close = .ok messages := by
  have hback : State.words.handle openDraft nameLine = (openDraft, .ok ⟨.labels, false⟩) := by rfl
  have hdecodes : (decode .labelList namesText).toOption.isSome = true := by decide +kernel
  obtain ⟨hsettles, hhanded, hdump⟩ := settles_within_two
  obtain ⟨n, hn, next, after, hline, -⟩ := hsettles .words openDraft nameLine not_fails_nameLine
  refine ⟨⟨n, hn, next, after, hline⟩, ⟨openDraft, hback, (hhanded _ _ _ _ _ hback).2.2⟩, ?_⟩
  rcases hdecode : decode .labelList namesText with e | messages
  · rw [hdecode] at hdecodes
    cases hdecodes
  · exact ⟨messages, rfl, hdump .labelList namesText messages hdecode⟩

end Dump

end Dialogue.Dump
