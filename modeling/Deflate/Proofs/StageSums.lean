/-
The times of the stages are exact sums.

* `StageTimes.addAll`, `StageTimes.spent` and `StageTimes.spentInAll`: times added to stages
  one after the other, and what they come to, for each stage and in all;
* `StageTimes.SumsUp`: the times recorded are what was added; `SumsUp.add_cases` and
  `SumsUp.addAll_cases`: one time more, and any number of them;
* `StageTimes.addAll_perm`: the order in which times are added does not matter;
* `StageTimes.SumsUp.isExact_sum`: the sum over the stages recorded, in any order of them;
* `Snapshot.isSane_eq_ok_true_iff` and `Snapshot.isSane_eq_error_iff`: the check of a record
  by its sums;
* `StageTimes.addAll_exact`: all of this for every list of times.
-/
import Mathlib.Algebra.BigOperators.Group.List.Basic
import Mathlib.Tactic
import Deflate.Telemetry.Snapshot
import Deflate.Proofs.Durations

namespace Deflate

namespace Stage

lemma mem_all (stage : Stage) : stage ∈ all := by
  cases stage <;> decide

end Stage

namespace StageTimes

variable {times times' : StageTimes} {stage other : Stage} {d : Duration} {e : Overflow}
  {calls calls' before : List (Stage × Duration)}

/-! ### Records by their stages -/

lemma eq_of_get? (h : ∀ stage, times.get? stage = times'.get? stage) : times = times' := by
  have hread := h .read
  have hdecompress := h .decompress
  have hwrite := h .write
  cases times
  cases times'
  simp_all [get?]

lemma get_set (times : StageTimes) (stage other : Stage) (d : Duration) :
    (times.set stage d).get other = if other = stage then d else times.get other := by
  rw [get, get?_set]
  split <;> rfl

/-! ### Times added one after the other -/

/-- Adds times to stages, in their order. -/
def addAll (times : StageTimes) (calls : List (Stage × Duration)) : Except Overflow StageTimes :=
  calls.foldlM (fun times call => times.add call.1 call.2) times

/-- What was added to a stage, in nanoseconds. -/
def spent (calls : List (Stage × Duration)) (stage : Stage) : ℕ :=
  ((calls.filter (·.1 = stage)).map (·.2.toNanos)).sum

/-- What was added to all stages together, in nanoseconds. -/
def spentInAll (calls : List (Stage × Duration)) : ℕ :=
  (calls.map (·.2.toNanos)).sum

lemma spent_append (calls calls' : List (Stage × Duration)) (stage : Stage) :
    spent (calls ++ calls') stage = spent calls stage + spent calls' stage := by
  simp [spent]

lemma spent_singleton (stage other : Stage) (d : Duration) :
    spent [(stage, d)] other = if other = stage then d.toNanos else 0 := by
  by_cases h : other = stage
  · simp [spent, h]
  · simp [spent, h, Ne.symm h]

lemma spent_perm (h : calls.Perm calls') (stage : Stage) :
    spent calls stage = spent calls' stage :=
  ((h.filter _).map _).sum_eq

lemma sum_all_ite (stage : Stage) (n : ℕ) :
    (Stage.all.map fun other => if other = stage then n else 0).sum = n := by
  cases stage <;> simp [Stage.all]

/-- What was added in all was added to one of the stages. -/
lemma sum_spent (calls : List (Stage × Duration)) :
    (Stage.all.map (spent calls)).sum = spentInAll calls := by
  induction calls with
  | nil => rfl
  | cons call calls ih =>
      obtain ⟨stage, d⟩ := call
      have hcons : ∀ other ∈ Stage.all, spent ((stage, d) :: calls) other =
          (if other = stage then d.toNanos else 0) + spent calls other := fun other _ => by
        rw [← spent_singleton, ← spent_append, List.singleton_append]
      rw [List.map_congr_left hcons, List.sum_map_add, sum_all_ite, ih, spentInAll, spentInAll,
        List.map_cons, List.sum_cons]

/-! ### What one call and what a run records -/

/-- The times recorded are what was added: a stage is recorded if something was added to it,
and its time is the sum. -/
structure SumsUp (calls : List (Stage × Duration)) (times : StageTimes) : Prop where
  isSome_get? : ∀ stage, (times.get? stage).isSome ↔ ∃ d, (stage, d) ∈ calls
  toNanos_get : ∀ stage, (times.get stage).toNanos = spent calls stage

lemma sumsUp_empty : SumsUp [] empty where
  isSome_get? stage := by cases stage <;> simp [empty, get?]
  toNanos_get stage := by cases stage <;> rfl

namespace SumsUp

lemma spent_lt (h : SumsUp calls times) (stage : Stage) : spent calls stage < Duration.limit :=
  h.toNanos_get stage ▸ Duration.toNanos_lt _

lemma perm (h : SumsUp calls times) (hp : calls.Perm calls') : SumsUp calls' times where
  isSome_get? stage := by simp only [h.isSome_get? stage, hp.mem_iff]
  toNanos_get stage := by rw [h.toNanos_get stage, spent_perm hp]

/-- The calls determine what is recorded. -/
lemma unique (h : SumsUp calls times) (h' : SumsUp calls times') : times = times' := by
  refine eq_of_get? fun stage => ?_
  have hsome := (h.isSome_get? stage).trans (h'.isSome_get? stage).symm
  have hget := Duration.toNanos_inj.mp ((h.toNanos_get stage).trans (h'.toNanos_get stage).symm)
  rw [get, get] at hget
  cases hd : times.get? stage with
  | none =>
      cases hd' : times'.get? stage with
      | none => rfl
      | some d' => simp [hd, hd'] at hsome
  | some d =>
      cases hd' : times'.get? stage with
      | none => simp [hd, hd'] at hsome
      | some d' =>
          rw [hd, hd'] at hget
          exact congrArg some hget

/-- One time more is added to the sum of its stage, or it is too much. -/
lemma add_cases (h : SumsUp before times) (stage : Stage) (d : Duration) :
    (∃ times', times.add stage d = .ok times' ∧ SumsUp (before ++ [(stage, d)]) times') ∨
      times.add stage d = .error .adding ∧
        Duration.limit ≤ spent (before ++ [(stage, d)]) stage := by
  have hspent : spent (before ++ [(stage, d)]) stage = (times.get stage).toNanos + d.toNanos := by
    rw [spent_append, spent_singleton, if_pos rfl, h.toNanos_get]
  rw [hspent, add]
  have hexact := Duration.isExact_add (times.get stage) d
  cases hsum : (times.get stage).add d with
  | error e =>
      obtain ⟨rfl, hle⟩ := hexact.eq_error_iff.mp hsum
      exact .inr ⟨rfl, hle⟩
  | ok sum =>
      refine .inl ⟨times.set stage sum, rfl, fun other => ?_, fun other => ?_⟩
      · rw [get?_set]
        split
        · rename_i ho
          subst ho
          simp
        · rename_i ho
          simp [h.isSome_get?, ho]
      · rw [get_set, spent_append, spent_singleton, ← h.toNanos_get]
        split
        · rename_i ho
          rw [hexact.eq_ok_iff.mp hsum, ho]
        · rw [Nat.add_zero]

/-- Times that are added one after the other are summed up, or one of the sums is too much. -/
lemma addAll_cases (h : SumsUp before times) (calls : List (Stage × Duration)) :
    (∃ times', times.addAll calls = .ok times' ∧ SumsUp (before ++ calls) times') ∨
      times.addAll calls = .error .adding ∧
        ∃ stage, Duration.limit ≤ spent (before ++ calls) stage := by
  induction calls generalizing before times with
  | nil => exact .inl ⟨times, rfl, (List.append_nil before).symm ▸ h⟩
  | cons call calls ih =>
      obtain ⟨stage, d⟩ := call
      rw [List.append_cons, addAll, List.foldlM_cons]
      rcases h.add_cases stage d with ⟨times', hadd, h'⟩ | ⟨hadd, hle⟩
      · rw [hadd]
        exact ih h'
      · rw [hadd]
        refine .inr ⟨rfl, stage, hle.trans ?_⟩
        rw [spent_append _ calls]
        exact Nat.le_add_right _ _

end SumsUp

lemma addAll_eq_ok_iff : empty.addAll calls = .ok times ↔ SumsUp calls times := by
  have hcases := sumsUp_empty.addAll_cases calls
  rw [List.nil_append] at hcases
  rcases hcases with ⟨times', hadd, h'⟩ | ⟨hadd, stage, hle⟩
  · rw [hadd, Except.ok.injEq]
    exact ⟨fun ht => ht ▸ h', h'.unique⟩
  · rw [hadd]
    exact ⟨nofun, fun h => absurd (h.spent_lt stage) (by omega)⟩

lemma addAll_eq_error_iff :
    empty.addAll calls = .error e ↔ e = .adding ∧ ∃ stage, Duration.limit ≤ spent calls stage := by
  have hcases := sumsUp_empty.addAll_cases calls
  rw [List.nil_append] at hcases
  rcases hcases with ⟨times', hadd, h'⟩ | ⟨hadd, hle⟩
  · rw [hadd]
    exact ⟨nofun, fun ⟨_, stage, hle⟩ => absurd (h'.spent_lt stage) (by omega)⟩
  · rw [hadd, Except.error.injEq, eq_comm, and_iff_left hle]

/-- In any order the same times come to the same record, or are too much. -/
lemma addAll_perm (h : calls.Perm calls') : empty.addAll calls = empty.addAll calls' := by
  cases hadd : empty.addAll calls' with
  | ok times => exact addAll_eq_ok_iff.mpr ((addAll_eq_ok_iff.mp hadd).perm h.symm)
  | error e =>
      obtain ⟨he, stage, hle⟩ := addAll_eq_error_iff.mp hadd
      exact addAll_eq_error_iff.mpr ⟨he, stage, (spent_perm h stage).symm ▸ hle⟩

/-! ### All stages together -/

/-- A stage that is not recorded adds nothing to a sum over the stages. -/
lemma sum_recorded (times : StageTimes) :
    ((times.recorded.map (·.2)).map Duration.toNanos).sum =
      (Stage.all.map fun stage => (times.get stage).toNanos).sum := by
  rw [recorded]
  generalize Stage.all = stages
  induction stages with
  | nil => rfl
  | cons stage stages ih =>
      rw [List.map_cons, List.sum_cons, ← ih, get]
      cases h : times.get? stage with
      | none =>
          rw [List.filterMap_cons_none (by rw [h]; rfl), Option.getD_none,
            Duration.toNanos_zero, Nat.zero_add]
      | some d =>
          rw [List.filterMap_cons_some (by rw [h]; rfl), Option.getD_some, List.map_cons,
            List.map_cons, List.sum_cons]

namespace SumsUp

lemma hasAll_iff (h : SumsUp calls times) (expected : List Stage) :
    times.hasAll expected = true ↔ ∀ stage ∈ expected, ∃ d, (stage, d) ∈ calls := by
  simp only [hasAll, List.all_eq_true, h.isSome_get?]

/-- In any order the times recorded add up to all that was added. -/
lemma isExact_sum {entries : List (Stage × Duration)} (h : SumsUp calls times)
    (hp : entries.Perm times.recorded) :
    Duration.IsExact .summing (spentInAll calls) (Duration.sum (entries.map (·.2))) := by
  have htotal : ((times.recorded.map (·.2)).map Duration.toNanos).sum = spentInAll calls := by
    rw [sum_recorded, List.map_congr_left fun stage _ => h.toNanos_get stage, sum_spent]
  rw [Duration.sum_perm (hp.map _), ← htotal]
  exact Duration.isExact_sum _

lemma isExact_total (h : SumsUp calls times) :
    Duration.IsExact .summing (spentInAll calls) times.total :=
  h.isExact_sum (.refl _)

end SumsUp

end StageTimes

/-! ### The check of a record -/

namespace Snapshot

open StageTimes

variable {s : Snapshot} {calls : List (Stage × Duration)} {e : Overflow}

lemma isSane_of_hasAll (h : s.stages.hasAll Stage.all = true) :
    s.isSane = s.stages.total.map fun total => decide (total ≤ s.elapsed) := by
  rw [isSane, if_pos h, totalStageTime]
  cases s.stages.total <;> rfl

lemma isSane_of_not_hasAll (h : ¬s.stages.hasAll Stage.all = true) : s.isSane = .ok false := by
  rw [isSane, if_neg h]
  rfl

lemma hasAll_all_iff (h : SumsUp calls s.stages) :
    s.stages.hasAll Stage.all = true ↔ ∀ stage, ∃ d, (stage, d) ∈ calls := by
  simp only [h.hasAll_iff, Stage.mem_all, forall_const]

/-- A record is sane if something was added to every stage, and all of it is no more than the
time of the run. -/
lemma isSane_eq_ok_true_iff (h : SumsUp calls s.stages) :
    s.isSane = .ok true ↔
      (∀ stage, ∃ d, (stage, d) ∈ calls) ∧ spentInAll calls ≤ s.elapsed.toNanos := by
  rw [← hasAll_all_iff h]
  by_cases hall : s.stages.hasAll Stage.all = true
  · rw [isSane_of_hasAll hall, and_iff_right hall]
    cases hsum : s.stages.total with
    | ok total =>
        rw [← h.isExact_total.eq_ok_iff.mp hsum, Except.map, Except.ok.injEq, decide_eq_true_iff,
          Duration.le_def]
    | error e =>
        have hle := (h.isExact_total.eq_error_iff.mp hsum).2
        have helapsed := s.elapsed.toNanos_lt
        exact ⟨nofun, fun hin => absurd hle (by omega)⟩
  · rw [isSane_of_not_hasAll hall, Except.ok.injEq]
    exact ⟨nofun, fun hin => absurd hin.1 hall⟩

/-- The check of a record fails only if something was added to every stage, and all of it is too
much. -/
lemma isSane_eq_error_iff (h : SumsUp calls s.stages) :
    s.isSane = .error e ↔
      e = .summing ∧ (∀ stage, ∃ d, (stage, d) ∈ calls) ∧ Duration.limit ≤ spentInAll calls := by
  rw [← hasAll_all_iff h]
  by_cases hall : s.stages.hasAll Stage.all = true
  · rw [isSane_of_hasAll hall, and_iff_right hall, ← h.isExact_total.eq_error_iff]
    cases s.stages.total <;> simp [Except.map]
  · rw [isSane_of_not_hasAll hall]
    exact ⟨nofun, fun hin => absurd hin.2.1 hall⟩

end Snapshot

/-! ### Every list of times -/

namespace StageTimes

/-- **The times of the stages are exact sums.** Adding times one after the other fails exactly if
what is added to one stage reaches the limit, and gives the same in any order. Otherwise each
stage has the exact sum of its times, those stages are recorded to which something was added,
and the time of all stages together is the exact sum of all times, in whatever order the stages
are taken. A record with these times is sane if something was added to every stage and all of
it is no more than the time of the run. -/
theorem addAll_exact (calls : List (Stage × Duration)) :
    (∀ e, empty.addAll calls = .error e ↔
      e = .adding ∧ ∃ stage, Duration.limit ≤ spent calls stage) ∧
    (∀ calls' : List (Stage × Duration), calls'.Perm calls →
      empty.addAll calls' = empty.addAll calls) ∧
    ∀ times, empty.addAll calls = .ok times →
      (∀ stage, (times.get stage).secs = spent calls stage / nanosPerSecond ∧
        (times.get stage).nanos = spent calls stage % nanosPerSecond) ∧
      (∀ expected, times.hasAll expected = true ↔ ∀ stage ∈ expected, ∃ d, (stage, d) ∈ calls) ∧
      Duration.IsExact .summing (spentInAll calls) times.total ∧
      (∀ entries : List (Stage × Duration), entries.Perm times.recorded →
        Duration.sum (entries.map (·.2)) = times.total) ∧
      ∀ s : Snapshot, s.stages = times →
        (s.isSane = .ok true ↔
          (∀ stage, ∃ d, (stage, d) ∈ calls) ∧ spentInAll calls ≤ s.elapsed.toNanos) ∧
        ∀ e, s.isSane = .error e ↔ e = .summing ∧ (∀ stage, ∃ d, (stage, d) ∈ calls) ∧
          Duration.limit ≤ spentInAll calls := by
  refine ⟨fun e => addAll_eq_error_iff, fun calls' hp => addAll_perm hp, fun times hadd => ?_⟩
  have h : SumsUp calls times := addAll_eq_ok_iff.mp hadd
  refine ⟨fun stage => ?_, h.hasAll_iff, h.isExact_total, fun entries hp => ?_, ?_⟩
  · rw [← h.toNanos_get]
    exact ⟨Duration.secs_eq _, Duration.nanos_eq _⟩
  · exact Duration.sum_perm (hp.map _)
  · rintro s rfl
    exact ⟨Snapshot.isSane_eq_ok_true_iff h, fun e => Snapshot.isSane_eq_error_iff h⟩

/-- Times of which two carry a second, just below the limit. -/
def carrying : List (Stage × Duration) :=
  [(.write, .zero),
    (.read, ⟨18446744073709551613, 600000000, by decide, by decide⟩),
    (.decompress, .zero),
    (.read, ⟨1, 700000000, by decide, by decide⟩)]

theorem addAll_exact_carrying :
    ∃ times, empty.addAll carrying = .ok times ∧
      (times.get .read).secs = 18446744073709551615 ∧ (times.get .read).nanos = 300000000 ∧
      times.hasAll Stage.all = true ∧
      Duration.sum (times.recorded.reverse.map (·.2)) = times.total ∧
      Duration.IsExact .summing 18446744073709551615300000000 times.total := by
  obtain ⟨hfails, -, hexact⟩ := addAll_exact carrying
  cases hadd : empty.addAll carrying with
  | error e =>
      obtain ⟨-, stage, hle⟩ := (hfails e).mp hadd
      exact absurd hle (by cases stage <;> decide)
  | ok times =>
      obtain ⟨hget, hall, htotal, hentries, -⟩ := hexact times hadd
      refine ⟨times, rfl, (hget .read).1, (hget .read).2, (hall _).mpr ?_,
        hentries _ (List.reverse_perm _), htotal⟩
      intro stage _
      cases stage
      · exact ⟨_, .tail _ (.head _)⟩
      · exact ⟨_, .tail _ (.tail _ (.head _))⟩
      · exact ⟨_, .head _⟩

end StageTimes

end Deflate
