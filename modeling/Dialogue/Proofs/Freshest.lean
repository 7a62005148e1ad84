import Dialogue.Dispatch.Schedule
import Mathlib.Algebra.Order.Group.Multiset
import Mathlib.Tactic.Abel

/-!
# The freshest answer wins

Requests are made, answered and fail in any order, with any number of them running (`Runs`). Each
step keeps what is known of the publisher (`Freshest`): the published answers are those with a
higher number than every answer before them, and the one that is shown has the highest number of
all. So the order of the answers does not matter in the end (`shows_eq_of_runs`). A session of a
schedule is the run in which each job that answers or fails does so under its own number, whatever
its jobs do (`Schedule.runs_of_session`).
-/

namespace Dialogue.Dispatch

variable {ρ σ : Type}

/-- What happens while requests are answered: one is made, or one that runs is answered or fails. -/
inductive Happening (ρ : Type)
  | asked (sequence : Nat)
  | answered (sequence : Nat) (answer : ρ)
  | failed (sequence : Nat)
deriving DecidableEq, Repr

namespace Happening

def asked? : Happening ρ → Option Nat
  | .asked sequence => some sequence
  | _ => none

def answered? : Happening ρ → Option (Nat × ρ)
  | .answered sequence answer => some (sequence, answer)
  | _ => none

def failed? : Happening ρ → Option Nat
  | .failed sequence => some sequence
  | _ => none

end Happening

def Event.applied? : Event ρ → Option Nat
  | .applied sequence _ => some sequence
  | .discarded _ => none

def askedIn (past : List (Happening ρ)) : List Nat := past.filterMap Happening.asked?

def answersIn (past : List (Happening ρ)) : List (Nat × ρ) := past.filterMap Happening.answered?

def failedIn (past : List (Happening ρ)) : List Nat := past.filterMap Happening.failed?

def appliedIn (events : List (Event ρ)) : List Nat := events.filterMap Event.applied?

/-- What may happen to a publisher, what it has made known, and the requests that are running. -/
inductive Runs : List (Happening ρ) → List (Event ρ) → Publisher ρ → Multiset Nat → Prop
  | start : Runs [] [] {} 0
  | ask {past : List (Happening ρ)} {events : List (Event ρ)} {publisher : Publisher ρ}
      {running : Multiset Nat} (before : Runs past events publisher running) :
      Runs (past ++ [.asked publisher.request.sequence]) events publisher.request
        (publisher.request.sequence ::ₘ running)
  | answer {past : List (Happening ρ)} {events : List (Event ρ)} {publisher : Publisher ρ}
      {running : Multiset Nat} {sequence : Nat}
      (before : Runs past events publisher (sequence ::ₘ running)) (answer : ρ) :
      Runs (past ++ [.answered sequence answer])
        (events ++ [(publisher.complete sequence answer).2])
        (publisher.complete sequence answer).1 running
  | fail {past : List (Happening ρ)} {events : List (Event ρ)} {publisher : Publisher ρ}
      {running : Multiset Nat} {sequence : Nat}
      (before : Runs past events publisher (sequence ::ₘ running)) :
      Runs (past ++ [.failed sequence]) events publisher running

/-- An answer after others is published if its number is higher than theirs. -/
def verdict (earlier : List (Nat × ρ)) (sequence : Nat) (answer : ρ) : Event ρ :=
  if ∀ other ∈ earlier, other.1 < sequence then .applied sequence answer else .discarded sequence

/-- What is shown after some answers: the one with the highest number, and nothing before any. -/
def Shows (answers : List (Nat × ρ)) (publisher : Publisher ρ) : Prop :=
  (answers = [] ∧ publisher.applied = 0 ∧ publisher.latest = none)
    ∨ ∃ answer, (publisher.applied, answer) ∈ answers ∧ publisher.latest = some answer
      ∧ ∀ other ∈ answers, other.1 ≤ publisher.applied

theorem Shows.le {answers : List (Nat × ρ)} {publisher : Publisher ρ}
    (h : Shows answers publisher) : ∀ other ∈ answers, other.1 ≤ publisher.applied := by
  rcases h with ⟨rfl, -⟩ | ⟨_, -, -, hle⟩
  · simp
  · exact hle

/-- A number is above those of all answers where it is above the one that is shown. -/
theorem Shows.lt_iff {answers : List (Nat × ρ)} {publisher : Publisher ρ}
    (h : Shows answers publisher) {sequence : Nat} (hpos : 0 < sequence) :
    (∀ other ∈ answers, other.1 < sequence) ↔ publisher.applied < sequence := by
  refine ⟨fun hall => ?_, fun hlt other hmem => Nat.lt_of_le_of_lt (h.le other hmem) hlt⟩
  rcases h with ⟨-, hzero, -⟩ | ⟨_, hmem, -⟩
  · omega
  · exact hall _ hmem

theorem Shows.complete {answers : List (Nat × ρ)} {publisher : Publisher ρ}
    (h : Shows answers publisher) {sequence : Nat} (hpos : 0 < sequence) (answer : ρ) :
    Shows (answers ++ [(sequence, answer)]) (publisher.complete sequence answer).1 := by
  have hle := h.le
  unfold Publisher.complete
  split
  · rename_i hs
    rcases h with ⟨-, hzero, -⟩ | ⟨shown, hmem, hlatest, -⟩
    · omega
    · refine .inr ⟨shown, List.mem_append_left _ hmem, hlatest, fun other hother => ?_⟩
      rcases List.mem_append.1 hother with hother | hother
      · exact hle other hother
      · exact List.mem_singleton.1 hother ▸ hs
  · refine .inr ⟨answer, by simp, rfl, fun other hother => ?_⟩
    rcases List.mem_append.1 hother with hother | hother
    · have := hle other hother
      simp only []
      omega
    · exact (List.mem_singleton.1 hother ▸ le_rfl)

theorem Shows.event_eq {answers : List (Nat × ρ)} {publisher : Publisher ρ}
    (h : Shows answers publisher) {sequence : Nat} (hpos : 0 < sequence) (answer : ρ) :
    (publisher.complete sequence answer).2 = verdict answers sequence answer := by
  unfold Publisher.complete verdict
  rw [if_congr (h.lt_iff hpos) rfl rfl]
  by_cases hs : sequence ≤ publisher.applied
  · rw [if_pos hs, if_neg (by omega)]
  · rw [if_neg hs, if_pos (by omega)]

/-- Each answer is judged once, and by the answers before it. -/
def Judged (answers : List (Nat × ρ)) (events : List (Event ρ)) : Prop :=
  events.length = answers.length
    ∧ ∀ i sequence answer, answers[i]? = some (sequence, answer) →
      events[i]? = some (verdict (answers.take i) sequence answer)

theorem Judged.append {answers : List (Nat × ρ)} {events : List (Event ρ)}
    (h : Judged answers events) (sequence : Nat) (answer : ρ) :
    Judged (answers ++ [(sequence, answer)]) (events ++ [verdict answers sequence answer]) := by
  obtain ⟨hlength, hat⟩ := h
  refine ⟨by simp [hlength], fun i other given hi => ?_⟩
  have hbound := (List.getElem?_eq_some_iff.1 hi).1
  rw [List.length_append, List.length_singleton] at hbound
  by_cases hlt : i < answers.length
  · rw [List.getElem?_append_left hlt] at hi
    rw [List.getElem?_append_left (hlength ▸ hlt),
      List.take_append_of_le_length (Nat.le_of_lt hlt)]
    exact hat i other given hi
  · obtain rfl : i = answers.length := by omega
    obtain ⟨rfl, rfl⟩ : sequence = other ∧ answer = given := by simpa using hi
    rw [List.take_left, ← hlength]
    simp

/-- The published numbers rise to the last one. -/
def Rising (events : List (Event ρ)) (publisher : Publisher ρ) : Prop :=
  (appliedIn events).Pairwise (· < ·) ∧ ∀ sequence ∈ appliedIn events, sequence ≤ publisher.applied

theorem Rising.complete {events : List (Event ρ)} {publisher : Publisher ρ}
    (h : Rising events publisher) (sequence : Nat) (answer : ρ) :
    Rising (events ++ [(publisher.complete sequence answer).2])
      (publisher.complete sequence answer).1 := by
  obtain ⟨hrising, hle⟩ := h
  unfold Publisher.complete
  split
  · have heq : appliedIn (events ++ [.discarded sequence]) = appliedIn events := by
      simp [appliedIn, Event.applied?]
    exact ⟨heq ▸ hrising, heq ▸ hle⟩
  · rename_i hs
    have heq : appliedIn (events ++ [.applied sequence answer])
        = appliedIn events ++ [sequence] := by simp [appliedIn, Event.applied?]
    unfold Rising
    rw [heq, List.pairwise_append]
    refine ⟨⟨hrising, List.pairwise_singleton _ _, fun a ha b hb => ?_⟩, fun other hother => ?_⟩
    · have := hle a ha
      rw [List.mem_singleton] at hb
      omega
    · rcases List.mem_append.1 hother with hother | hother
      · have := hle other hother
        simp only []
        omega
      · exact (List.mem_singleton.1 hother).le

/-- What is known of a publisher after a run. -/
structure Freshest (past : List (Happening ρ)) (events : List (Event ρ)) (publisher : Publisher ρ)
    (running : Multiset Nat) : Prop where
  asked_eq : askedIn past = List.range' 1 publisher.sequence
  /-- Every request runs, was answered or failed, once. -/
  accounted : (askedIn past : Multiset Nat)
    = ((answersIn past).map (·.1) : List Nat) + failedIn past + running
  judged : Judged (answersIn past) events
  rising : Rising events publisher
  shows : Shows (answersIn past) publisher

namespace Freshest

variable {past : List (Happening ρ)} {events : List (Event ρ)} {publisher : Publisher ρ}
  {running : Multiset Nat}

theorem start : Freshest [] [] ({} : Publisher ρ) 0 where
  asked_eq := rfl
  accounted := rfl
  judged := ⟨rfl, by simp [answersIn]⟩
  rising := ⟨List.Pairwise.nil, by simp [appliedIn]⟩
  shows := .inl ⟨rfl, rfl, rfl⟩

theorem ask (h : Freshest past events publisher running) :
    Freshest (past ++ [.asked publisher.request.sequence]) events publisher.request
      (publisher.request.sequence ::ₘ running) := by
  have hasked : askedIn (past ++ [.asked publisher.request.sequence])
      = askedIn past ++ [publisher.request.sequence] := by simp [askedIn, Happening.asked?]
  have hanswers : answersIn (past ++ [.asked publisher.request.sequence]) = answersIn past := by
    simp [answersIn, Happening.answered?]
  have hfailed : failedIn (past ++ [.asked publisher.request.sequence]) = failedIn past := by
    simp [failedIn, Happening.failed?]
  refine ⟨?_, ?_, hanswers ▸ h.judged, h.rising, hanswers ▸ h.shows⟩
  · rw [hasked, h.asked_eq, Publisher.request, List.range'_1_concat, Nat.add_comm]
  · rw [hasked, hanswers, hfailed, ← Multiset.coe_add, h.accounted]
    simp only [Multiset.coe_singleton, ← Multiset.singleton_add]
    abel

/-- Requests are numbered from one on. -/
theorem pos (h : Freshest past events publisher running) {sequence : Nat}
    (hmem : sequence ∈ running) : 0 < sequence := by
  have hasked : sequence ∈ (askedIn past : Multiset Nat) := by
    rw [h.accounted]
    exact Multiset.mem_add.2 (.inr hmem)
  rw [Multiset.mem_coe, h.asked_eq, List.mem_range'_1] at hasked
  omega

theorem answer {sequence : Nat} (h : Freshest past events publisher (sequence ::ₘ running))
    (answer : ρ) :
    Freshest (past ++ [.answered sequence answer])
      (events ++ [(publisher.complete sequence answer).2])
      (publisher.complete sequence answer).1 running := by
  have hpos : 0 < sequence := h.pos (Multiset.mem_cons_self _ _)
  have hasked : askedIn (past ++ [.answered sequence answer]) = askedIn past := by
    simp [askedIn, Happening.asked?]
  have hanswers : answersIn (past ++ [.answered sequence answer])
      = answersIn past ++ [(sequence, answer)] := by simp [answersIn, Happening.answered?]
  have hfailed : failedIn (past ++ [.answered sequence answer]) = failedIn past := by
    simp [failedIn, Happening.failed?]
  have hsequence : (publisher.complete sequence answer).1.sequence = publisher.sequence := by
    unfold Publisher.complete
    split <;> rfl
  refine ⟨?_, ?_, ?_, h.rising.complete sequence answer, ?_⟩
  · rw [hasked, hsequence, h.asked_eq]
  · rw [hasked, hanswers, hfailed, h.accounted, List.map_append, ← Multiset.coe_add]
    simp only [List.map_cons, List.map_nil, Multiset.coe_singleton, ← Multiset.singleton_add]
    abel
  · rw [hanswers, h.shows.event_eq hpos]
    exact h.judged.append sequence answer
  · rw [hanswers]
    exact h.shows.complete hpos answer

theorem fail {sequence : Nat} (h : Freshest past events publisher (sequence ::ₘ running)) :
    Freshest (past ++ [.failed sequence]) events publisher running := by
  have hasked : askedIn (past ++ [.failed sequence]) = askedIn past := by
    simp [askedIn, Happening.asked?]
  have hanswers : answersIn (past ++ [.failed sequence]) = answersIn past := by
    simp [answersIn, Happening.answered?]
  have hfailed : failedIn (past ++ [.failed sequence]) = failedIn past ++ [sequence] := by
    simp [failedIn, Happening.failed?]
  refine ⟨hasked ▸ h.asked_eq, ?_, hanswers ▸ h.judged, h.rising, hanswers ▸ h.shows⟩
  rw [hasked, hanswers, hfailed, h.accounted, ← Multiset.coe_add]
  simp only [Multiset.coe_singleton, ← Multiset.singleton_add]
  abel

theorem of_runs (h : Runs past events publisher running) :
    Freshest past events publisher running := by
  induction h with
  | start => exact start
  | ask _ ih => exact ih.ask
  | answer _ given ih => exact ih.answer given
  | fail _ ih => exact ih.fail

/-- No request is answered twice. -/
theorem nodup (h : Freshest past events publisher running) :
    ((answersIn past).map (·.1)).Nodup := by
  have hall : (askedIn past : Multiset Nat).Nodup := by
    rw [Multiset.coe_nodup, h.asked_eq]
    exact List.nodup_range'
  rw [h.accounted, add_assoc] at hall
  exact Multiset.coe_nodup.1 (Multiset.nodup_of_le (Multiset.le_add_right _ _) hall)

end Freshest

/-- Runs with the same answers show the same one in the end, in whatever order they came. -/
theorem shows_eq_of_runs {past other : List (Happening ρ)} {events more : List (Event ρ)}
    {publisher last : Publisher ρ} {running left : Multiset Nat}
    (h : Runs past events publisher running) (h' : Runs other more last left)
    (hsame : ∀ given, given ∈ answersIn past ↔ given ∈ answersIn other) :
    publisher.latest = last.latest ∧ publisher.applied = last.applied := by
  have hf := Freshest.of_runs h
  have hf' := Freshest.of_runs h'
  rcases hf.shows with ⟨hnone, happlied, hlatest⟩ | ⟨answer, hmem, hlatest, hle⟩
  · rcases hf'.shows with ⟨-, happlied', hlatest'⟩ | ⟨answer, hmem, -⟩
    · exact ⟨hlatest.trans hlatest'.symm, happlied.trans happlied'.symm⟩
    · have hin := (hsame _).2 hmem
      simp [hnone] at hin
  · rcases hf'.shows with ⟨hnone, -⟩ | ⟨answer', hmem', hlatest', hle'⟩
    · have hin := (hsame _).1 hmem
      simp [hnone] at hin
    · have happlied : publisher.applied = last.applied :=
        Nat.le_antisymm (hle' _ ((hsame _).1 hmem)) (hle _ ((hsame _).2 hmem'))
      have hmem'' := (hsame _).2 hmem'
      rw [← happlied] at hmem''
      have heq := List.inj_on_of_nodup_map hf.nodup hmem hmem'' rfl
      exact ⟨by rw [hlatest, hlatest', (Prod.mk.inj heq).2], happlied⟩

/-! ## Schedules -/

namespace Schedule

/-- The numbers of the requests whose jobs have not ended. -/
def numbers (schedule : Schedule σ ρ) : Multiset Nat :=
  (schedule.ready.map (·.1) : List Nat) + (schedule.waiting.map (·.2.1) : List Nat)

/-- What happens to a request when its job has run up to where it waits next. -/
def ending? (sequence : Nat) : Progress σ ρ → Option (Happening ρ)
  | .yields _ | .waits _ _ => none
  | .answers answer => some (.answered sequence answer)
  | .fails => some (.failed sequence)

/-- What happens in a turn: each job that answers or fails there does so, in the jobs' order. -/
def endings (step : List Int → σ → Progress σ ρ) (opened : List Int) (jobs : List (Nat × σ)) :
    List (Happening ρ) :=
  jobs.filterMap fun job => ending? job.1 (step opened job.2)

/-- What a schedule has done, with what happened to the requests and what was made known: requests
were made, gates opened and turns taken. -/
inductive Session (step : List Int → σ → Progress σ ρ) :
    List (Happening ρ) → Schedule σ ρ → List (Event ρ) → Prop
  | start : Session step [] {} []
  | dispatch {past : List (Happening ρ)} {schedule : Schedule σ ρ} {events : List (Event ρ)}
      (before : Session step past schedule events) (state : σ) :
      Session step (past ++ [.asked (schedule.dispatch state).publisher.sequence])
        (schedule.dispatch state) events
  | release {past : List (Happening ρ)} {schedule : Schedule σ ρ} {events : List (Event ρ)}
      (before : Session step past schedule events) (gate : Int) :
      Session step past (schedule.release gate) events
  | turn {past : List (Happening ρ)} {schedule : Schedule σ ρ} {events : List (Event ρ)}
      (before : Session step past schedule events) :
      Session step (past ++ endings step schedule.opened schedule.ready) (schedule.turn step).1
        (events ++ (schedule.turn step).2)

theorem coe_map_concat {α : Type} (f : α → Nat) (items : List α) (a : α) :
    ((items ++ [a]).map f : Multiset Nat) = f a ::ₘ (items.map f : List Nat) := by
  rw [List.map_append, ← Multiset.coe_add, add_comm]
  rfl

theorem numbers_dispatch (schedule : Schedule σ ρ) (state : σ) :
    (schedule.dispatch state).numbers
      = schedule.publisher.request.sequence ::ₘ schedule.numbers := by
  simp only [numbers, dispatch, coe_map_concat, Multiset.cons_add]

theorem numbers_release (schedule : Schedule σ ρ) (gate : Int) :
    (schedule.release gate).numbers = schedule.numbers := by
  have hparts : ((schedule.waiting.filter fun w => w.1 == gate).map (·.2.1) : Multiset Nat)
      + ((schedule.waiting.filter fun w => w.1 != gate).map (·.2.1) : List Nat)
      = (schedule.waiting.map (·.2.1) : List Nat) := by
    rw [Multiset.coe_add, ← List.map_append, Multiset.coe_eq_coe]
    exact (List.filter_append_perm _ _).map _
  simp only [numbers, release, List.map_append, ← Multiset.coe_add, List.map_map] at hparts ⊢
  rw [add_assoc]
  exact congrArg _ hparts

@[simp] theorem settle_opened (schedule : Schedule σ ρ) (sequence : Nat) (progress : Progress σ ρ) :
    (schedule.settle sequence progress).1.opened = schedule.opened := by
  cases progress <;> rfl

/-- What becomes of one job is what happens to its request. -/
theorem runs_settle {past : List (Happening ρ)} {events : List (Event ρ)}
    {schedule : Schedule σ ρ} {sequence : Nat} {rest : Multiset Nat}
    (h : Runs past events schedule.publisher (sequence ::ₘ (schedule.numbers + rest)))
    (progress : Progress σ ρ) :
    Runs (past ++ (ending? sequence progress).toList)
      (events ++ (schedule.settle sequence progress).2)
      (schedule.settle sequence progress).1.publisher
      ((schedule.settle sequence progress).1.numbers + rest) := by
  cases progress with
  | yields state =>
    have hnumbers : (schedule.settle sequence (.yields state)).1.numbers + rest
        = sequence ::ₘ (schedule.numbers + rest) := by
      simp only [numbers, settle, coe_map_concat, Multiset.cons_add]
    rw [hnumbers]
    simpa [settle, ending?] using h
  | waits gate state =>
    have hnumbers : (schedule.settle sequence (.waits gate state)).1.numbers + rest
        = sequence ::ₘ (schedule.numbers + rest) := by
      simp only [numbers, settle, coe_map_concat, Multiset.cons_add, Multiset.add_cons]
    rw [hnumbers]
    simpa [settle, ending?] using h
  | answers answer => exact h.answer answer
  | fails =>
    rw [show (schedule.settle sequence .fails).2 = [] from rfl, List.append_nil]
    exact h.fail

theorem endings_cons (step : List Int → σ → Progress σ ρ) (opened : List Int) (sequence : Nat)
    (state : σ) (rest : List (Nat × σ)) :
    endings step opened ((sequence, state) :: rest)
      = (ending? sequence (step opened state)).toList ++ endings step opened rest := by
  simp only [endings, List.filterMap_cons]
  cases ending? sequence (step opened state) <;> rfl

theorem runs_runJobs (step : List Int → σ → Progress σ ρ) :
    ∀ (jobs : List (Nat × σ)) (schedule : Schedule σ ρ) {past : List (Happening ρ)}
      {events : List (Event ρ)},
      Runs past events schedule.publisher (schedule.numbers + (jobs.map (·.1) : List Nat)) →
        Runs (past ++ endings step schedule.opened jobs)
          (events ++ (runJobs step schedule jobs).2)
          (runJobs step schedule jobs).1.publisher (runJobs step schedule jobs).1.numbers
  | [], schedule, past, events, h => by simpa [runJobs, endings] using h
  | (sequence, state) :: rest, schedule, past, events, h => by
    have hfirst : schedule.numbers + (((sequence, state) :: rest).map (·.1) : List Nat)
        = sequence ::ₘ (schedule.numbers + (rest.map (·.1) : List Nat)) := by
      rw [List.map_cons, ← Multiset.cons_coe, Multiset.add_cons]
    rw [hfirst] at h
    have hrest := runs_runJobs step rest _ (runs_settle h (step schedule.opened state))
    rw [settle_opened, List.append_assoc, List.append_assoc, ← endings_cons] at hrest
    exact hrest

/-- Whatever the jobs do, a session of a schedule is a run, in which the requests are those that
were dispatched and the answers those that the jobs gave. -/
theorem runs_of_session {step : List Int → σ → Progress σ ρ} {past : List (Happening ρ)}
    {schedule : Schedule σ ρ} {events : List (Event ρ)} (h : Session step past schedule events) :
    Runs past events schedule.publisher schedule.numbers := by
  induction h with
  | start => exact .start
  | @dispatch past schedule events _ state hruns =>
    rw [numbers_dispatch]
    exact hruns.ask
  | @release past schedule events _ gate hruns =>
    rw [numbers_release]
    exact hruns
  | @turn past schedule events _ hruns =>
    have hnumbers : ({ schedule with ready := [], ended := 0 } : Schedule σ ρ).numbers
        + (schedule.ready.map (·.1) : List Nat) = schedule.numbers := by
      simp only [numbers, List.map_nil, Multiset.coe_nil, zero_add]
      exact add_comm _ _
    rw [← hnumbers] at hruns
    exact runs_runJobs step schedule.ready { schedule with ready := [], ended := 0 } hruns

end Schedule

/-- The freshest answer wins in every run, in whatever order the answers come, and every session
of a schedule is the run of its own requests and answers. -/
theorem freshest_of_any_order (ρ σ : Type) :
    (∀ {past : List (Happening ρ)} {events : List (Event ρ)} {publisher : Publisher ρ}
        {running : Multiset Nat}, Runs past events publisher running →
          Freshest past events publisher running)
      ∧ (∀ {past other : List (Happening ρ)} {events more : List (Event ρ)}
          {publisher last : Publisher ρ} {running left : Multiset Nat},
          Runs past events publisher running → Runs other more last left →
            (∀ given, given ∈ answersIn past ↔ given ∈ answersIn other) →
              publisher.latest = last.latest ∧ publisher.applied = last.applied)
      ∧ ∀ {step : List Int → σ → Progress σ ρ} {past : List (Happening ρ)}
          {schedule : Schedule σ ρ} {events : List (Event ρ)},
          Schedule.Session step past schedule events →
            Runs past events schedule.publisher schedule.numbers :=
  ⟨Freshest.of_runs, shows_eq_of_runs, Schedule.runs_of_session⟩

/-- Three requests, of which the second is answered before the first and the third one fails. -/
def overtaken : List (Happening Char) :=
  [.asked 1, .asked 2, .asked 3, .answered 2 'b', .failed 3, .answered 1 'a']

/-- The same answers in the order of the requests. -/
def inOrder : List (Happening Char) :=
  [.asked 1, .answered 1 'a', .asked 2, .answered 2 'b']

/-- Two jobs that wait at gates, of which the second one's is opened first: a turn answers it, and
the next one answers the other. -/
def overtaking : Schedule (Gated Char) Char :=
  let asked := (({} : Schedule (Gated Char) Char).dispatch ⟨1, 'a'⟩).dispatch ⟨2, 'b'⟩
  let second := ((asked.release 2).turn Gated.step).1
  ((second.release 1).turn Gated.step).1

theorem session_overtaking :
    Schedule.Session Gated.step
      [.asked 1, .asked 2, .answered 2 'b', .answered 1 'a'] overtaking
      [.applied 2 'b', .discarded 1] := by
  have hasked : Schedule.Session Gated.step [.asked 1, .asked 2]
      ((({} : Schedule (Gated Char) Char).dispatch ⟨1, 'a'⟩).dispatch ⟨2, 'b'⟩) [] :=
    (Schedule.Session.start.dispatch _).dispatch _
  exact ((hasked.release 2).turn.release 1).turn

theorem freshest_of_any_order_overtaken :
    Freshest overtaken [.applied 2 'b', .discarded 1] ⟨3, 2, some 'b'⟩ 0
      ∧ ((⟨3, 2, some 'b'⟩ : Publisher Char).latest = (⟨2, 2, some 'b'⟩ : Publisher Char).latest
        ∧ (⟨3, 2, some 'b'⟩ : Publisher Char).applied = (⟨2, 2, some 'b'⟩ : Publisher Char).applied)
      ∧ Runs [.asked 1, .asked 2, .answered 2 'b', .answered 1 'a'] [.applied 2 'b', .discarded 1]
        overtaking.publisher overtaking.numbers := by
  have hovertaken : Runs overtaken [.applied 2 'b', .discarded 1] ⟨3, 2, some 'b'⟩ 0 := by
    have hasked : Runs [.asked 1, .asked 2, .asked 3] [] (⟨3, 0, none⟩ : Publisher Char)
        (3 ::ₘ 2 ::ₘ 1 ::ₘ 0) := Runs.start.ask.ask.ask
    have hsecond : (3 ::ₘ 2 ::ₘ 1 ::ₘ 0 : Multiset Nat) = 2 ::ₘ 3 ::ₘ 1 ::ₘ 0 := by decide
    exact ((hsecond ▸ hasked).answer 'b').fail.answer 'a'
  have hinOrder : Runs inOrder [.applied 1 'a', .applied 2 'b'] ⟨2, 2, some 'b'⟩ 0 :=
    (Runs.start.ask.answer 'a').ask.answer 'b'
  obtain ⟨hfreshest, hsame, hsession⟩ := freshest_of_any_order Char (Gated Char)
  exact ⟨hfreshest hovertaken, hsame hovertaken hinOrder fun _ => List.Perm.mem_iff (by decide),
    hsession session_overtaking⟩

end Dialogue.Dispatch
