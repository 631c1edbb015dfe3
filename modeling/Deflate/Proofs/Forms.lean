/-
The form of a record says all that the record does.

* `Json.fields?_object`: the named fields of a record are the values it was written with;
* `Duration.ofJson?_toJson` and `Stage.ofName?_name`: durations and stages from their forms;
* `StageTimes.setAll` and `StageTimes.setAll_of_perm`: times recorded one after the other, and
  the record that has its own times in any order;
* `StageTimes.ofJson?_entriesToJson` and `Snapshot.ofJson?_toJsonWith`: records from their forms,
  and so `Snapshot.ofJson?_toJson`;
* `Snapshot.Agrees` and `Snapshot.form_lossless`: what is read from a form, and what two
  records with the same form have in common.
-/
import Mathlib.Tactic
import Deflate.Telemetry.Form
import Deflate.Proofs.Durations
import Deflate.Proofs.StageSums

namespace Deflate

/-! ### Fields by their names -/

namespace Json

variable {fields : List (String × Json)} {names : List String} {name : String} {value : Json}
  {closed : Bool}

lemma sole?_of_mem (hn : (fields.map (·.1)).Nodup) (h : (name, value) ∈ fields) :
    sole? (fields.map fun (key, value) => (some key, value)) name = some value := by
  suffices hfilter : (fields.map fun (key, value) => (some key, value)).filter
      (·.1 == some name) = [(some name, value)] by rw [sole?, hfilter]
  induction fields with
  | nil => cases h
  | cons field fields ih =>
      obtain ⟨hfresh, hn⟩ := List.nodup_cons.mp hn
      rcases List.mem_cons.mp h with rfl | h
      · -- no other field has the name
        have hother : ∀ other ∈ fields, other.1 ≠ name := fun other hother heq =>
          hfresh (List.mem_map.mpr ⟨other, hother, heq⟩)
        rw [List.map_cons, List.filter_cons_of_pos (by simp), List.filter_eq_nil_iff.mpr]
        intro written hwritten
        obtain ⟨other, hmem, rfl⟩ := List.mem_map.mp hwritten
        simpa using hother other hmem
      · have hne : field.1 ≠ name := fun heq => hfresh (List.mem_map.mpr ⟨_, h, heq.symm⟩)
        rw [List.map_cons, List.filter_cons_of_neg (by simpa using hne)]
        exact ih hn h

/-- The named fields of a record are the values it was written with. -/
lemma fields?_object (h : fields.map (·.1) = names) (hn : names.Nodup) :
    (object fields).fields? names closed = some (fields.map (·.2)) := by
  subst h
  rw [object, fields?, if_pos]
  · suffices hpart : ∀ part ⊆ fields,
        (part.map (·.1)).mapM (sole? (fields.map fun (key, value) => (some key, value))) =
          some (part.map (·.2)) from hpart fields (List.Subset.refl _)
    intro part hpart
    induction part with
    | nil => rfl
    | cons field part ih =>
        obtain ⟨hfield, hpart⟩ := List.cons_subset.mp hpart
        rw [List.map_cons, List.mapM_cons, sole?_of_mem hn hfield, ih hpart]
        rfl
  · -- all keys are among the names
    simp only [List.all_map, List.all_eq_true]
    intro field hfield
    simpa using .inr ⟨field.2, hfield⟩

end Json

/-! ### Durations and stages -/

namespace Duration

lemma carried?_self (d : Duration) : carried? d.secs d.nanos = some d := by
  rcases Tally.duration?_cases ⟨d.secs, d.nanos⟩ with ⟨d', hd', hnanos⟩ | ⟨_, hle⟩
  · obtain rfl : d' = d := toNanos_inj.mp hnanos
    exact hd'
  · exact absurd hle (Nat.not_le_of_lt d.toNanos_lt)

/-- A duration is read as it is written. -/
lemma ofJson?_toJson (d : Duration) : ofJson? d.toJson = some d := by
  have hfields : d.toJson.fields? fieldNames true = some [.natural d.secs, .natural d.nanos] :=
    Json.fields?_object rfl (by decide)
  have hnanos : d.nanos < nanosReadLimit := d.nanos_lt.trans (by decide)
  rw [ofJson?, hfields]
  exact (if_pos hnanos).trans d.carried?_self

end Duration

/-- A stage is known by its name. -/
lemma Stage.ofName?_name (stage : Stage) : Stage.ofName? stage.name = some stage := by
  cases stage <;> decide

namespace StageTimes

variable {times : StageTimes} {stage : Stage} {d : Duration} {entries : List (Stage × Duration)}

/-! ### Times recorded one after the other -/

/-- Records times one after the other. -/
def setAll (times : StageTimes) (entries : List (Stage × Duration)) : StageTimes :=
  entries.foldl (fun times entry => times.set entry.1 entry.2) times

lemma get?_setAll_of_not_mem (h : ∀ d, (stage, d) ∉ entries) :
    (times.setAll entries).get? stage = times.get? stage := by
  induction entries generalizing times with
  | nil => rfl
  | cons entry entries ih =>
      have hne : stage ≠ entry.1 := fun heq => h entry.2 (heq ▸ .head _)
      rw [setAll, List.foldl_cons, ← setAll, ih fun d hd => h d (.tail _ hd), get?_set, if_neg hne]

lemma get?_setAll_of_mem (hn : (entries.map (·.1)).Nodup) (h : (stage, d) ∈ entries) :
    (times.setAll entries).get? stage = some d := by
  induction entries generalizing times with
  | nil => cases h
  | cons entry entries ih =>
      obtain ⟨hfresh, hn⟩ := List.nodup_cons.mp hn
      rw [setAll, List.foldl_cons, ← setAll]
      rcases List.mem_cons.mp h with rfl | h
      · have hother : ∀ d', (stage, d') ∉ entries := fun d' hd' =>
          hfresh (List.mem_map.mpr ⟨_, hd', rfl⟩)
        rw [get?_setAll_of_not_mem hother, get?_set, if_pos rfl]
      · exact ih hn h

lemma mem_recorded : (stage, d) ∈ times.recorded ↔ times.get? stage = some d := by
  simp [recorded, Stage.mem_all]

lemma nodup_recorded (times : StageTimes) : (times.recorded.map (·.1)).Nodup := by
  have hstages : times.recorded.map (·.1) =
      Stage.all.filter fun stage => (times.get? stage).isSome := by
    rw [recorded, List.map_filterMap, ← List.filterMap_eq_filter]
    refine congrArg (List.filterMap · Stage.all) (funext fun stage => ?_)
    cases h : times.get? stage <;> simp [Option.guard, h]
  rw [hstages]
  exact .filter _ (by decide)

/-- A record has its own times, in whatever order they are recorded. -/
lemma setAll_of_perm (h : entries.Perm times.recorded) : empty.setAll entries = times := by
  refine eq_of_get? fun stage => ?_
  cases hd : times.get? stage with
  | none =>
      have hnot : ∀ d, (stage, d) ∉ entries := fun d hmem => by
        have hsome := mem_recorded.mp (h.mem_iff.mp hmem)
        cases hd.symm.trans hsome
      rw [get?_setAll_of_not_mem hnot]
      cases stage <;> rfl
  | some d =>
      have hn : (entries.map (·.1)).Nodup := (h.map _).nodup_iff.mpr times.nodup_recorded
      exact get?_setAll_of_mem hn (h.mem_iff.mpr (mem_recorded.mpr hd))

/-! ### Records from their forms -/

lemma readEntry_written (times : StageTimes) (stage : Stage) (d : Duration) :
    times.readEntry (some stage.name, d.toJson) = some (times.set stage d) := by
  simp [readEntry, Stage.ofName?_name, Duration.ofJson?_toJson]

lemma foldlM_readEntry (times : StageTimes) (entries : List (Stage × Duration)) :
    (entries.map fun (stage, d) => (some stage.name, d.toJson)).foldlM readEntry times =
      some (times.setAll entries) := by
  induction entries generalizing times with
  | nil => rfl
  | cons entry entries ih =>
      rw [List.map_cons, List.foldlM_cons, readEntry_written]
      exact ih (times.set entry.1 entry.2)

/-- The times of the stages are recorded one after the other as they are written. -/
lemma ofJson?_entriesToJson (entries : List (Stage × Duration)) :
    ofJson? (entriesToJson entries) = some (empty.setAll entries) := by
  have hfields : (entriesToJson entries).fields? fieldNames false =
      some [.object (entries.map fun (stage, d) => (stage.name, d.toJson))] :=
    Json.fields?_object rfl (by decide)
  rw [ofJson?, hfields]
  refine Eq.trans ?_ (foldlM_readEntry empty entries)
  rw [Option.bind_eq_bind, Option.bind_some, Json.object, List.map_map]
  rfl

end StageTimes

namespace Snapshot

variable {s t : Snapshot} {entries : List (Stage × Duration)}

/-- A record is read as it is written, in whatever order the times of the stages are. -/
lemma ofJson?_toJsonWith (h : entries.Perm s.stages.recorded) :
    ofJson? (s.toJsonWith entries) = some s := by
  have hfields : (s.toJsonWith entries).fields? fieldNames false =
      some [.natural s.bytesIn, .natural s.bytesOut, .natural s.bytesTrailing,
        .float s.expansionRatio, .float s.throughput, s.elapsed.toJson,
        StageTimes.entriesToJson entries] :=
    Json.fields?_object rfl (by decide)
  rw [ofJson?, hfields]
  simp only [Option.bind_eq_bind, Option.bind_some, Json.natural?, Json.float?,
    Duration.ofJson?_toJson, StageTimes.ofJson?_entriesToJson, StageTimes.setAll_of_perm h,
    Option.pure_def]

/-- So it is in the order in which the command writes the times down. -/
lemma ofJson?_toJsonWith_recordedIn (s : Snapshot) (order : StageOrder) :
    ofJson? (s.toJsonWith (s.stages.recordedIn order)) = some s :=
  ofJson?_toJsonWith (s.stages.recordedIn_perm order)

/-- A record is read as it is written. -/
theorem ofJson?_toJson (s : Snapshot) : ofJson? s.toJson = some s :=
  s.ofJson?_toJsonWith_recordedIn .usual

/-- Two records agree on the counts, on the time of the run and on the times of its stages. -/
structure Agrees (s t : Snapshot) : Prop where
  bytesIn : s.bytesIn = t.bytesIn
  bytesOut : s.bytesOut = t.bytesOut
  bytesTrailing : s.bytesTrailing = t.bytesTrailing
  elapsed : s.elapsed = t.elapsed
  stages : s.stages = t.stages

namespace Agrees

lemma refl (s : Snapshot) : Agrees s s :=
  ⟨rfl, rfl, rfl, rfl, rfl⟩

lemma isSane_eq (h : Agrees s t) : s.isSane = t.isSane := by
  rw [isSane, isSane, totalStageTime, totalStageTime, h.stages, h.elapsed]

end Agrees

/-- **The form of a record loses nothing.** In whatever order the times of its stages are
written, a record is read that agrees with it, in which the same stages have no time, and whose
check comes out the same. Two records with the same form agree. -/
theorem form_lossless (s : Snapshot) (entries : List (Stage × Duration))
    (h : entries.Perm s.stages.recorded) :
    (∃ t, ofJson? (s.toJsonWith entries) = some t ∧ Agrees s t ∧
      (∀ stage, t.stages.get? stage = none ↔ s.stages.get? stage = none) ∧
      (∀ expected, t.stages.hasAll expected = s.stages.hasAll expected) ∧
      t.isSane = s.isSane) ∧
    ∀ (s' : Snapshot) (entries' : List (Stage × Duration)), entries'.Perm s'.stages.recorded →
      s'.toJsonWith entries' = s.toJsonWith entries → Agrees s s' := by
  have hread : ofJson? (s.toJsonWith entries) = some s := ofJson?_toJsonWith h
  obtain ⟨t, ht, hagrees⟩ : ∃ t, ofJson? (s.toJsonWith entries) = some t ∧ Agrees s t :=
    ⟨s, hread, .refl s⟩
  refine ⟨⟨t, ht, hagrees, fun stage => ?_, fun expected => ?_, hagrees.isSane_eq.symm⟩,
    fun s' entries' h' hform => ?_⟩
  · rw [hagrees.stages]
  · rw [hagrees.stages]
  · have hread' : ofJson? (s'.toJsonWith entries') = some s' := ofJson?_toJsonWith h'
    obtain rfl : s = s' := Option.some.inj (hread.symm.trans (hform ▸ hread'))
    exact .refl s

/-- A record with the largest counts and times, in which nothing was written. -/
def unwritten : Snapshot where
  bytesIn := 18446744073709551615
  bytesOut := 18446744073709551615
  bytesTrailing := 18446744073709551615
  expansionRatio := 1
  throughput := 1
  elapsed := ⟨18446744073709551615, 999999999, by decide, by decide⟩
  stages :=
    { read := some ⟨18446744073709551615, 999999999, by decide, by decide⟩
      decompress := some .zero
      write := none }

theorem form_lossless_unwritten :
    unwritten.stages.recorded.reverse.Perm unwritten.stages.recorded ∧
      ∃ t, ofJson? (unwritten.toJsonWith unwritten.stages.recorded.reverse) = some t ∧
        Agrees unwritten t ∧ t.stages.get? .write = none ∧ t.isSane = .ok false := by
  have hperm := List.reverse_perm unwritten.stages.recorded
  obtain ⟨⟨t, hread, hagrees, hnone, -, hsane⟩, -⟩ := form_lossless unwritten _ hperm
  exact ⟨hperm, t, hread, hagrees, (hnone .write).mpr rfl, hsane.trans rfl⟩

end Snapshot

end Deflate
