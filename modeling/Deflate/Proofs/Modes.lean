/-
A run is the same by waiting and by giving way.

* `Sink.writeAll_modes` and `Sink.deliver_modes`: without interrupted writes both modes make
  the same calls, and they differ only in how they call the fault of a sink that accepts
  nothing;
* `Snapshot.AgreesWith`: two records that tell the same but for the times;
* `inflateStream_modes`: the run in both modes.
-/
import Mathlib.Tactic
import Deflate.Proofs.Gathering
import Deflate.Proofs.Stages

namespace Deflate

/-! ### The sink -/

namespace Sink

variable {sink : Sink}

/-- Without interrupted writes the modes differ only if an answer used up accepts nothing. -/
lemma writeAll_modes (rest : ByteArray)
    (h : ∀ fault, WriteReply.fail fault ∈ sink.writes → ¬fault.IsInterruption) :
    ∃ used, sink.writes = used ++ (sink.writeAll .cooperative rest).1.writes ∧
      (.take 0 ∉ used → sink.writeAll .blocking rest = sink.writeAll .cooperative rest) ∧
      (.take 0 ∈ used → ∃ called,
        ∀ mode, sink.writeAll mode rest = (called, .error (acceptsNothing mode))) := by
  -- the cooperative calls never go back, so the induction is on them
  induction sink, rest using writeAll_induction .cooperative with
  | empty sink rest hz =>
      rw [writeAll_of_empty hz]
      exact ⟨[], rfl, fun _ => writeAll_of_empty hz, fun hm => absurd hm List.not_mem_nil⟩
  | nothing sink rest called hz hw =>
      obtain ⟨used, hused, hzero⟩ := used_of_ok hw hz
      rw [writeAll_of_nothing hz hw]
      exact ⟨used, hused, fun hm => absurd (hzero.mpr rfl) hm,
        fun _ => ⟨called, fun mode => writeAll_of_nothing hz hw⟩⟩
  | some sink rest called n hz hw hn ih =>
      obtain ⟨used, hused, hzero⟩ := used_of_ok hw hz
      rw [writeAll_of_some hz hw hn]
      have hcalled : ∀ fault, WriteReply.fail fault ∈ called.writes → ¬fault.IsInterruption :=
        fun fault hm => h fault (hused ▸ List.mem_append_right used hm)
      obtain ⟨used', hused', hsame, hnothing⟩ := ih hcalled
      have hmem : .take 0 ∈ used ++ used' ↔ .take 0 ∈ used' := by
        rw [List.mem_append, or_iff_right (mt hzero.mp hn)]
      refine ⟨used ++ used', by rw [hused, hused', List.append_assoc], ?_, ?_⟩
      · intro hm
        rw [writeAll_of_some hz hw hn, hsame (mt hmem.mpr hm)]
      · intro hm
        obtain ⟨called', hc⟩ := hnothing (hmem.mp hm)
        exact ⟨called', fun mode => (writeAll_of_some hz hw hn).trans (hc mode)⟩
  | retried sink rest called fault hz hw hr ih => exact absurd hr Mode.not_retries_cooperative
  | fault sink rest called fault hz hw hr =>
      obtain ⟨used, hused, hfault, hzero⟩ := used_of_error hw
      rw [writeAll_of_fault hz hw hr]
      have hr' : ¬Mode.blocking.Retries fault := fun hr' =>
        h fault (hused ▸ List.mem_append_left called.writes hfault) hr'.2
      exact ⟨used, hused, fun _ => writeAll_of_fault hz hw hr', fun hm => absurd hm hzero⟩

/-- The flush is the same in both modes, so the same holds for a whole output. -/
lemma deliver_modes (output : ByteArray)
    (h : ∀ fault, WriteReply.fail fault ∈ sink.writes → ¬fault.IsInterruption) :
    ∃ used, sink.writes = used ++ (sink.deliver .cooperative output).1.writes ∧
      (.take 0 ∉ used → sink.deliver .blocking output = sink.deliver .cooperative output) ∧
      (.take 0 ∈ used → ∃ called,
        ∀ mode, sink.deliver mode output = (called, .error (acceptsNothing mode))) := by
  obtain ⟨used, hused, hsame, hnothing⟩ := writeAll_modes output h
  refine ⟨used, ?_, ?_, ?_⟩
  · rw [hused, deliver]
    rcases sink.writeAll .cooperative output with ⟨written, _ | _⟩
    · rfl
    · exact congrArg (used ++ ·) written.flush_writes.symm
  · intro hm
    rw [deliver, deliver, hsame hm]
  · intro hm
    obtain ⟨called, hc⟩ := hnothing hm
    exact ⟨called, fun mode => by rw [deliver, hc mode]⟩

end Sink

/-! ### The run -/

/-- Two records tell the same but for the times. -/
structure Snapshot.AgreesWith (s t : Snapshot) : Prop where
  bytesIn_eq : s.bytesIn = t.bytesIn
  bytesOut_eq : s.bytesOut = t.bytesOut
  bytesTrailing_eq : s.bytesTrailing = t.bytesTrailing
  expansionRatio_eq : s.expansionRatio = t.expansionRatio
  /-- The same stages are recorded. -/
  isSome_eq : ∀ stage, (s.stages.get? stage).isSome = (t.stages.get? stage).isSome

lemma isSome_snapshotOf (clock : Clock) (length : ℕ) (outcome : Outcome) (stage : Stage) :
    ((snapshotOf clock length outcome).stages.get? stage).isSome = true := by
  cases stage <;> rfl

/-- Of the clock a record has only the times. -/
lemma snapshotOf_agreesWith (clock clock' : Clock) (length : ℕ) (outcome : Outcome) :
    (snapshotOf clock length outcome).AgreesWith (snapshotOf clock' length outcome) where
  bytesIn_eq := rfl
  bytesOut_eq := rfl
  bytesTrailing_eq := rfl
  expansionRatio_eq := rfl
  isSome_eq _ := (isSome_snapshotOf ..).trans (isSome_snapshotOf ..).symm

/-- Two results of runs: both are records that agree, or both are the same failure. -/
def ResultsAgree : Except Failure Snapshot → Except Failure Snapshot → Prop
  | .ok s, .ok t => s.AgreesWith t
  | .error failure, .error failure' => failure = failure'
  | _, _ => False

/-- **A run is the same by waiting and by giving way**, if neither a read nor a write is
interrupted. Whatever room the calls offer, the same input or the same failure is collected
and the same items are left. The sink is called alike and accepts the same, and the same is
reported. The runs are recorded alike or fail alike; only if an answer used up accepts
nothing, the text of the fault is another one. -/
theorem inflateStream_modes (clock clock' : Clock) (source : List Delivery) (sink : Sink)
    (hreads : ∀ fault, Delivery.fail fault ∈ source → ¬fault.IsInterruption)
    (hwrites : ∀ fault, WriteReply.fail fault ∈ sink.writes → ¬fault.IsInterruption) :
    let run := inflateStream clock .blocking source sink
    let run' := inflateStream clock' .cooperative source sink
    (∀ rooms rooms', collectFrom .blocking rooms 0 .empty source =
      collectFrom .cooperative rooms' 0 .empty source) ∧
    run.source = run'.source ∧ run.sink = run'.sink ∧ run.events = run'.events ∧
    ∃ used, sink.writes = used ++ run.sink.writes ∧
      (.take 0 ∉ used → ResultsAgree run.result run'.result) ∧
      (.take 0 ∈ used →
        run.result = .error (.write (.told .writeZero "failed to write whole buffer")) ∧
        run'.result = .error (.write (.plain .writeZero))) := by
  intro run run'
  have hcollect : ∀ rooms rooms', collectFrom .blocking rooms 0 .empty source =
      collectFrom .cooperative rooms' 0 .empty source := fun rooms rooms' => by
    rw [collectFrom_eq_gather, collectFrom_eq_gather,
      gather_congr_mode .blocking .cooperative hreads]
  refine ⟨hcollect, ?_⟩
  have hmodes : collect .blocking source = collect .cooperative source := hcollect .even .even
  rcases hc : collect .cooperative source with ⟨_ | input, left⟩
  · -- nothing is decoded, and no answer of the sink is used up
    have hrun : run = _ := inflateStream_of_unread (hmodes.trans hc)
    have hrun' : run' = _ := inflateStream_of_unread hc
    rw [hrun, hrun']
    exact ⟨rfl, rfl, rfl, [], rfl, fun _ => rfl, fun hm => absurd hm List.not_mem_nil⟩
  · rcases hd : decode input with _ | ⟨outcome, output⟩
    · have hrun : run = _ := inflateStream_of_undecoded (hmodes.trans hc) hd
      have hrun' : run' = _ := inflateStream_of_undecoded hc hd
      rw [hrun, hrun']
      exact ⟨rfl, rfl, rfl, [], rfl, fun _ => rfl, fun hm => absurd hm List.not_mem_nil⟩
    · have hrun : run = _ := inflateStream_of_decoded (hmodes.trans hc) hd
      have hrun' : run' = _ := inflateStream_of_decoded hc hd
      obtain ⟨used, hused, hsame, hnothing⟩ := Sink.deliver_modes output hwrites
      rw [hrun, hrun']
      by_cases hm : .take 0 ∈ used
      · obtain ⟨called, hs⟩ := hnothing hm
        rw [hs] at hused
        rw [hs, hs]
        exact ⟨rfl, rfl, rfl, used, hused, fun hm' => absurd hm hm', fun _ => ⟨rfl, rfl⟩⟩
      · rw [hsame hm]
        rcases hs : sink.deliver .cooperative output with ⟨called, _ | _⟩
        · rw [hs] at hused
          exact ⟨rfl, rfl, rfl, used, hused, fun _ => rfl, fun hm' => absurd hm' hm⟩
        · rw [hs] at hused
          -- the records are not equal, so the runs must not be compared as a whole
          dsimp only
          exact ⟨rfl, rfl, rfl, used, hused, fun _ => snapshotOf_agreesWith .., fun hm' =>
            absurd hm' hm⟩

/-- A source that has to be waited for. -/
def slowSource : List Delivery :=
  [.pending, .bytes mixedBytes]

/-- A sink that accepts a hundred bytes and then nothing, and whose flush is interrupted. -/
def stalledSink : Sink :=
  .ofReplies [.take 100, .pending, .take 0] [.fail (.plain .interrupted)]

lemma collect_slowSource (mode : Mode) : collect mode slowSource = (.ok mixedBytes, []) := by
  rw [collect_eq_gather, slowSource, gather, gather_bytes (by decide), ByteArray.empty_append]
  rfl

lemma deliver_stalledSink (mode : Mode) {output : ByteArray} (h : 100 < output.size) :
    ∃ called, stalledSink.deliver mode output = (called, .error (Sink.acceptsNothing mode)) ∧
      called.writes = [] := by
  have hz : output.size ≠ 0 := by omega
  have hmin : min 100 output.size = 100 := Nat.min_eq_left h.le
  obtain ⟨second, hw, hwrites⟩ : ∃ second, stalledSink.write output = (second, .ok 100) ∧
      second.writes = [.pending, .take 0] := ⟨_, Prod.ext rfl (congrArg Except.ok hmin), rfl⟩
  have hleft : (output.extract 100 output.size).size ≠ 0 := by
    rw [ByteArray.size_extract]
    omega
  obtain ⟨called, hw', hc⟩ : ∃ called,
      second.write (output.extract 100 output.size) = (called, .ok 0) ∧ called.writes = [] := by
    rw [Sink.write, hwrites]
    exact ⟨_, Prod.ext rfl (congrArg Except.ok (Nat.zero_min _)), rfl⟩
  refine ⟨called, ?_, hc⟩
  rw [Sink.deliver, Sink.writeAll_of_some hz hw (by decide), Sink.writeAll_of_nothing hleft hw']

/-- The sink is interrupted only by its flush, so the two runs call it alike, and the faults
differ in their texts. -/
theorem inflateStream_modes_stalledSink :
    (inflateStream .still .blocking slowSource stalledSink).sink =
        (inflateStream .still .cooperative slowSource stalledSink).sink ∧
      (inflateStream .still .blocking slowSource stalledSink).result =
        .error (.write (.told .writeZero "failed to write whole buffer")) ∧
      (inflateStream .still .cooperative slowSource stalledSink).result =
        .error (.write (.plain .writeZero)) := by
  obtain ⟨-, -, hsink, -, used, hused, -, hzero⟩ := inflateStream_modes .still .still slowSource
    stalledSink (by simp [slowSource]) (by simp [stalledSink, Sink.ofReplies])
  have hsize : 100 < (⟨mixedStream.output.toArray⟩ : ByteArray).size :=
    (by decide : 100 < 265).trans_eq length_mixedStream_output.symm
  obtain ⟨called, hs, hc⟩ := deliver_stalledSink .blocking hsize
  have hrun : (inflateStream .still .blocking slowSource stalledSink).sink.writes = [] := by
    rw [inflateStream_of_decoded (collect_slowSource .blocking) decode_mixedBytes, hs]
    exact hc
  -- all answers are used up, the last of which accepts nothing
  rw [hrun, List.append_nil] at hused
  have hmem : .take 0 ∈ used := by
    rw [← hused]
    decide
  exact ⟨hsink, hzero hmem⟩

end Deflate
