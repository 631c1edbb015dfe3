/-
What is said between a delivery and its sink.

* `Exchange` and `taken`: one write with its answer, and the bytes that exchanges accept;
* `Sink.write_eq`: one write, by the next answer that does not wait;
* `Transcript`: each write offers what has not been accepted before it, and only the last
  one may end the writing;
* `Sink.exists_transcribes`: the writes of a delivery are such exchanges;
* `Sink.Alike`: two sinks that differ only in when they have to be waited for;
* `Sink.deliver_transcript`: a whole delivery.
-/
import Mathlib.Tactic
import Deflate.Failure
import Deflate.Proofs.Writing

namespace Deflate

/-! ### Answers -/

/-- What the answer says once there is no more waiting. -/
def WriteReply.answer? : WriteReply → Option (Except Fault ℕ)
  | take n => some (.ok n)
  | fail fault => some (.error fault)
  | pending => none

/-- The answers to writes without the waiting. -/
def answers (writes : List WriteReply) : List (Except Fault ℕ) :=
  writes.filterMap WriteReply.answer?

/-- The answer to a flush after the waiting. -/
def flushAnswer : List FlushReply → Except Fault Unit
  | [] => .ok ()
  | .pending :: flushes => flushAnswer flushes
  | .fail fault :: _ => .error fault

/-- What is answered when bytes are offered: a sink without further answers accepts them. -/
def answerTo (offered : ByteArray) : Option (Except Fault ℕ) → Except Fault ℕ
  | none => .ok offered.size
  | some (.ok n) => .ok (min n offered.size)
  | some (.error fault) => .error fault

namespace Sink

/-- The next answer to a write is the first one that is not to wait. -/
lemma nextWrite_fst (writes : List WriteReply) :
    (nextWrite writes).1 = (answers writes).head? := by
  induction writes with
  | nil => rfl
  | cons reply writes ih =>
      cases reply with
      | pending => exact ih
      | fail fault => rfl
      | take n => rfl

/-- The answers left after the next one. -/
lemma answers_nextWrite (writes : List WriteReply) :
    answers (nextWrite writes).2 = (answers writes).tail := by
  induction writes with
  | nil => rfl
  | cons reply writes ih =>
      cases reply with
      | pending => exact ih
      | fail fault => rfl
      | take n => rfl

end Sink

/-- To accept nothing is a fault of its own kind. -/
lemma Sink.kind_acceptsNothing (mode : Mode) : (acceptsNothing mode).kind = .writeZero := by
  cases mode <;> rfl

/-! ### Exchanges -/

/-- One write and its answer. -/
structure Exchange where
  /-- The bytes offered. -/
  offered : ByteArray
  /-- How many of them are accepted, or why the write fails. -/
  answer : Except Fault ℕ

namespace Exchange

/-- The bytes accepted. -/
def accepted (e : Exchange) : ByteArray :=
  match e.answer with
  | .ok n => e.offered.extract 0 n
  | .error _ => .empty

@[simp] lemma accepted_ok (offered : ByteArray) (n : ℕ) :
    (Exchange.mk offered (.ok n)).accepted = offered.extract 0 n := rfl

@[simp] lemma accepted_error (offered : ByteArray) (fault : Fault) :
    (Exchange.mk offered (.error fault)).accepted = .empty := rfl

/-- The fault that ends the writing: nothing is accepted, or the write fails and is not made
again. -/
def fault? (mode : Mode) (e : Exchange) : Option Fault :=
  match e.answer with
  | .ok n => if n = 0 then some (Sink.acceptsNothing mode) else none
  | .error fault => if mode.Retries fault then none else some fault

lemma fault?_ok (mode : Mode) (offered : ByteArray) (n : ℕ) :
    (Exchange.mk offered (.ok n)).fault? mode =
      if n = 0 then some (Sink.acceptsNothing mode) else none := rfl

lemma fault?_error (mode : Mode) (offered : ByteArray) (fault : Fault) :
    (Exchange.mk offered (.error fault)).fault? mode =
      if mode.Retries fault then none else some fault := rfl

/-- The writing ends when nothing is accepted, or when a write fails and is not made again. -/
lemma fault?_eq_some {mode : Mode} {e : Exchange} {fault : Fault}
    (h : e.fault? mode = some fault) :
    e.answer = .ok 0 ∧ fault.kind = .writeZero ∨
      e.answer = .error fault ∧ ¬mode.Retries fault := by
  obtain ⟨offered, answer⟩ := e
  cases answer with
  | error _ =>
      rw [fault?_error] at h
      split at h
      · cases h
      · rename_i hretries
        cases h
        exact .inr ⟨rfl, hretries⟩
  | ok n =>
      rw [fault?_ok] at h
      split at h
      · rename_i hn
        cases h
        exact .inl ⟨congrArg Except.ok hn, Sink.kind_acceptsNothing mode⟩
      · cases h

/-- A write that ends the writing accepts nothing. -/
lemma accepted_of_fault? {mode : Mode} {e : Exchange} {fault : Fault}
    (h : e.fault? mode = some fault) : e.accepted = .empty := by
  obtain ⟨offered, answer⟩ := e
  cases answer with
  | error _ => rfl
  | ok n =>
      rw [fault?_ok] at h
      split at h
      · rename_i hn
        rw [accepted_ok, hn, ByteArray.extract_same]
      · cases h

end Exchange

/-- The bytes that exchanges accept, one after the other. -/
def taken : List Exchange → ByteArray
  | [] => .empty
  | e :: es => e.accepted ++ taken es

lemma taken_append (es es' : List Exchange) : taken (es ++ es') = taken es ++ taken es' := by
  induction es with
  | nil => exact ByteArray.empty_append.symm
  | cons e es ih => rw [List.cons_append, taken, taken, ih, ByteArray.append_assoc]

/-- Exchanges that offer bytes to a sink with these answers. -/
structure Transcript (mode : Mode) (output : ByteArray) (replies : List (Except Fault ℕ))
    (exchanges : List Exchange) : Prop where
  /-- A write offers what has not been accepted before it. -/
  taken_append_offered : ∀ before e after, exchanges = before ++ e :: after →
    taken before ++ e.offered = output
  /-- Every write offers something. -/
  offered_ne : ∀ e ∈ exchanges, e.offered ≠ .empty
  /-- The answers are used in their order. -/
  answer_eq : ∀ before e after, exchanges = before ++ e :: after →
    e.answer = answerTo e.offered replies[before.length]?
  /-- After a write that ends the writing there is none. -/
  fault?_eq_none : ∀ before e after, exchanges = before ++ e :: after → after ≠ [] →
    e.fault? mode = none

namespace Transcript

variable {mode : Mode} {output rest : ByteArray} {replies : List (Except Fault ℕ)}
  {e : Exchange} {exchanges : List Exchange}

lemma nil : Transcript mode output replies [] where
  taken_append_offered before e after h := by simp at h
  offered_ne e h := absurd h List.not_mem_nil
  answer_eq before e after h := by simp at h
  fault?_eq_none before e after h := by simp at h

/-- One write more before the others. -/
lemma cons (hoffered : e.accepted ++ rest = e.offered) (hne : e.offered ≠ .empty)
    (hanswer : e.answer = answerTo e.offered replies.head?)
    (hlast : exchanges ≠ [] → e.fault? mode = none)
    (h : Transcript mode rest replies.tail exchanges) :
    Transcript mode e.offered replies (e :: exchanges) where
  taken_append_offered before e' after heq := by
    rcases List.cons_eq_append_iff.mp heq with ⟨rfl, hcons⟩ | ⟨before, rfl, hexchanges⟩
    · cases hcons
      exact ByteArray.empty_append
    · rw [taken, ByteArray.append_assoc, h.taken_append_offered before e' after hexchanges,
        hoffered]
  offered_ne := List.forall_mem_cons.mpr ⟨hne, h.offered_ne⟩
  answer_eq before e' after heq := by
    rcases List.cons_eq_append_iff.mp heq with ⟨rfl, hcons⟩ | ⟨before, rfl, hexchanges⟩
    · cases hcons
      rw [hanswer, List.head?_eq_getElem?, List.length_nil]
    · rw [h.answer_eq before e' after hexchanges, List.length_cons, List.getElem?_tail]
  fault?_eq_none before e' after heq hafter := by
    rcases List.cons_eq_append_iff.mp heq with ⟨rfl, hcons⟩ | ⟨before, rfl, hexchanges⟩
    · cases hcons
      exact hlast hafter
    · exact h.fault?_eq_none before e' after hexchanges hafter

/-- If the last write ends the writing, some bytes are not accepted. -/
lemma exists_left {before : List Exchange} {fault : Fault}
    (h : Transcript mode output replies (before ++ [e])) (hfault : e.fault? mode = some fault) :
    e.offered ≠ .empty ∧ taken (before ++ [e]) ++ e.offered = output := by
  refine ⟨h.offered_ne e (List.mem_append_right _ List.mem_cons_self), ?_⟩
  rw [taken_append, taken, taken, Exchange.accepted_of_fault? hfault, ByteArray.append_empty,
    ByteArray.append_empty]
  exact h.taken_append_offered before e [] rfl

/-- What has been accepted at any moment is a front part of what is offered, if it is so in
the end. -/
lemma exists_rest (h : Transcript mode output replies exchanges)
    (hend : ∃ rest, taken exchanges ++ rest = output) {before after : List Exchange}
    (heq : exchanges = before ++ after) : ∃ rest, taken before ++ rest = output := by
  cases after with
  | nil =>
      rw [List.append_nil] at heq
      exact heq ▸ hend
  | cons e after => exact ⟨e.offered, h.taken_append_offered before e after heq⟩

end Transcript

/-! ### The writes of a delivery -/

namespace Sink

variable {mode : Mode} {sink called : Sink} {offered rest output : ByteArray}
  {answer : Except Fault ℕ}

/-- One write: the next answer that does not wait says what is accepted. -/
lemma write_eq (sink : Sink) (offered : ByteArray) :
    sink.write offered =
      ({ sink with
          writes := (nextWrite sink.writes).2
          calls := sink.calls.push (.write offered)
          accepted := sink.accepted ++
            (Exchange.mk offered (answerTo offered (answers sink.writes).head?)).accepted },
        answerTo offered (answers sink.writes).head?) := by
  rw [write, ← nextWrite_fst]
  rcases nextWrite sink.writes with ⟨_ | _ | n, left⟩
  · rw [answerTo, Exchange.accepted_ok, ByteArray.extract_zero_size]
  · rw [answerTo, Exchange.accepted_error, ByteArray.append_empty]
  · rfl

/-- One flush. -/
lemma flush_eq (sink : Sink) :
    sink.flush =
      ({ sink with
          flushes := (nextFlush sink.flushes).2
          calls := sink.calls.push .flush },
        flushAnswer sink.flushes) := by
  have hanswer : flushAnswer sink.flushes =
      (nextFlush sink.flushes).1.elim (.ok ()) .error := by
    induction sink.flushes with
    | nil => rfl
    | cons reply flushes ih =>
        cases reply with
        | pending => exact ih
        | fail fault => rfl
  rw [flush, hanswer]
  rcases nextFlush sink.flushes with ⟨_ | fault, left⟩ <;> rfl

/-- What one write leaves. -/
lemma write_leaves (h : sink.write offered = (called, answer)) :
    answer = answerTo offered (answers sink.writes).head? ∧
      called.accepted = sink.accepted ++ (Exchange.mk offered answer).accepted ∧
      called.calls = sink.calls.push (.write offered) ∧ called.flushes = sink.flushes ∧
      answers called.writes = (answers sink.writes).tail := by
  rw [write_eq] at h
  obtain ⟨rfl, rfl⟩ := Prod.mk.inj h
  exact ⟨rfl, rfl, rfl, rfl, answers_nextWrite sink.writes⟩

/-- The exchanges of a sink that offering bytes to it comes to, with the result. -/
structure Transcribes (mode : Mode) (sink : Sink) (rest : ByteArray)
    (run : Sink × Except Fault Unit) (exchanges : List Exchange) : Prop where
  transcript : Transcript mode rest (answers sink.writes) exchanges
  accepted_eq : run.1.accepted = sink.accepted ++ taken exchanges
  calls_eq : run.1.calls.toList = sink.calls.toList ++ exchanges.map (SinkCall.write ·.offered)
  flushes_eq : run.1.flushes = sink.flushes
  /-- All is accepted, or the last write ends the writing. -/
  ending : run.2 = .ok () ∧ taken exchanges = rest ∨
    ∃ before e fault, exchanges = before ++ [e] ∧ e.fault? mode = some fault ∧
      run.2 = .error fault

/-- A write that ends the writing. -/
lemma transcribes_last {fault : Fault} (hz : rest.size ≠ 0)
    (h : sink.write rest = (called, answer))
    (hfault : (Exchange.mk rest answer).fault? mode = some fault) :
    Transcribes mode sink rest (called, .error fault) [⟨rest, answer⟩] := by
  obtain ⟨hanswer, haccepted, hcalls, hflushes, -⟩ := write_leaves h
  have hleft : (Exchange.mk rest answer).accepted ++ rest = rest := by
    rw [Exchange.accepted_of_fault? hfault, ByteArray.empty_append]
  refine ⟨?_, ?_, ?_, hflushes, .inr ⟨[], _, fault, rfl, hfault, rfl⟩⟩
  · exact .cons hleft (fun he => hz (congrArg ByteArray.size he)) hanswer
      (fun hne => absurd rfl hne) .nil
  · rw [haccepted, taken, taken, ByteArray.append_empty]
  · rw [hcalls, Array.toList_push]
    rfl

/-- A write after which the writing goes on. -/
lemma Transcribes.cons {left : ByteArray} {run : Sink × Except Fault Unit}
    {exchanges : List Exchange} (hz : rest.size ≠ 0) (h : sink.write rest = (called, answer))
    (hfault : (Exchange.mk rest answer).fault? mode = none)
    (hleft : (Exchange.mk rest answer).accepted ++ left = rest)
    (hrun : Transcribes mode called left run exchanges) :
    Transcribes mode sink rest run (⟨rest, answer⟩ :: exchanges) := by
  obtain ⟨hanswer, haccepted, hcalls, hflushes, hanswers⟩ := write_leaves h
  refine ⟨?_, ?_, ?_, hrun.flushes_eq.trans hflushes, ?_⟩
  · exact .cons hleft (fun he => hz (congrArg ByteArray.size he)) hanswer (fun _ => hfault)
      (hanswers ▸ hrun.transcript)
  · rw [hrun.accepted_eq, haccepted, taken, ByteArray.append_assoc]
  · rw [hrun.calls_eq, hcalls, Array.toList_push, List.append_assoc]
    rfl
  · rcases hrun.ending with ⟨hok, htaken⟩ | ⟨before, e, fault, rfl, he, herror⟩
    · exact .inl ⟨hok, by rw [taken, htaken, hleft]⟩
    · exact .inr ⟨_ :: before, e, fault, rfl, he, herror⟩

/-- The writes that offer `rest` are exchanges, and the last of them says how they end. -/
lemma exists_transcribes (mode : Mode) (sink : Sink) (rest : ByteArray) :
    ∃ exchanges, Transcribes mode sink rest (sink.writeAll mode rest) exchanges := by
  induction sink, rest using writeAll_induction mode with
  | empty sink rest hz =>
      obtain rfl := ByteArray.size_eq_zero_iff.mp hz
      rw [writeAll_of_empty hz]
      exact ⟨[], .nil, ByteArray.append_empty.symm, (List.append_nil _).symm, rfl,
        .inl ⟨rfl, rfl⟩⟩
  | nothing sink rest called hz h =>
      rw [writeAll_of_nothing hz h]
      exact ⟨_, transcribes_last hz h (by rw [Exchange.fault?_ok, if_pos rfl])⟩
  | some sink rest called n hz h hn ih =>
      rw [writeAll_of_some hz h hn]
      obtain ⟨exchanges, hrun⟩ := ih
      obtain ⟨hle, -⟩ := accepted_of_ok h
      refine ⟨_, hrun.cons hz h (by rw [Exchange.fault?_ok, if_neg hn]) ?_⟩
      rw [Exchange.accepted_ok,
        ← ByteArray.extract_eq_extract_append_extract n (Nat.zero_le n) hle,
        ByteArray.extract_zero_size]
  | retried sink rest called fault hz h hr ih =>
      rw [writeAll_of_retried hz h hr]
      obtain ⟨exchanges, hrun⟩ := ih
      exact ⟨_, hrun.cons hz h (by rw [Exchange.fault?_error, if_pos hr])
        ByteArray.empty_append⟩
  | fault sink rest called fault hz h hr =>
      rw [writeAll_of_fault hz h hr]
      exact ⟨_, transcribes_last hz h (by rw [Exchange.fault?_error, if_neg hr])⟩

/-! ### Waiting -/

/-- Two sinks that differ only in when they have to be waited for. -/
structure Alike (sink sink' : Sink) : Prop where
  answers_eq : answers sink'.writes = answers sink.writes
  flushAnswer_eq : flushAnswer sink'.flushes = flushAnswer sink.flushes
  calls_eq : sink'.calls = sink.calls
  accepted_eq : sink'.accepted = sink.accepted

/-- One write leaves them alike. -/
lemma Alike.write {sink' : Sink} (hs : Alike sink sink')
    (h : sink.write offered = (called, answer)) :
    ∃ called', sink'.write offered = (called', answer) ∧ Alike called called' := by
  rw [write_eq] at h
  obtain ⟨rfl, rfl⟩ := Prod.mk.inj h
  rw [write_eq, hs.answers_eq]
  refine ⟨_, rfl, ?_, hs.flushAnswer_eq, ?_, ?_⟩
  · rw [answers_nextWrite, answers_nextWrite, hs.answers_eq]
  · rw [hs.calls_eq]
  · rw [hs.accepted_eq]

/-- Offering bytes to them gives the same result and leaves them alike. -/
lemma Alike.writeAll {sink' : Sink} (hs : Alike sink sink') (rest : ByteArray) :
    (sink'.writeAll mode rest).2 = (sink.writeAll mode rest).2 ∧
      Alike (sink.writeAll mode rest).1 (sink'.writeAll mode rest).1 := by
  induction sink, rest using writeAll_induction mode generalizing sink' with
  | empty sink rest hz =>
      rw [writeAll_of_empty hz, writeAll_of_empty hz]
      exact ⟨rfl, hs⟩
  | nothing sink rest called hz h =>
      obtain ⟨called', h', hc⟩ := hs.write h
      rw [writeAll_of_nothing hz h, writeAll_of_nothing hz h']
      exact ⟨rfl, hc⟩
  | some sink rest called n hz h hn ih =>
      obtain ⟨called', h', hc⟩ := hs.write h
      rw [writeAll_of_some hz h hn, writeAll_of_some hz h' hn]
      exact ih hc
  | retried sink rest called fault hz h hr ih =>
      obtain ⟨called', h', hc⟩ := hs.write h
      rw [writeAll_of_retried hz h hr, writeAll_of_retried hz h' hr]
      exact ih hc
  | fault sink rest called fault hz h hr =>
      obtain ⟨called', h', hc⟩ := hs.write h
      rw [writeAll_of_fault hz h hr, writeAll_of_fault hz h' hr]
      exact ⟨rfl, hc⟩

/-- A whole delivery to them makes the same calls and gives the same result. -/
lemma Alike.deliver {sink' : Sink} (hs : Alike sink sink') (output : ByteArray) :
    (sink'.deliver mode output).1.calls = (sink.deliver mode output).1.calls ∧
      (sink'.deliver mode output).1.accepted = (sink.deliver mode output).1.accepted ∧
      (sink'.deliver mode output).2 = (sink.deliver mode output).2 := by
  obtain ⟨hresult, hw⟩ : (sink'.writeAll mode output).2 = (sink.writeAll mode output).2 ∧ _ :=
    hs.writeAll output
  rw [Sink.deliver, Sink.deliver]
  revert hresult hw
  rcases sink.writeAll mode output with ⟨written, result⟩
  rcases sink'.writeAll mode output with ⟨written', result'⟩
  rintro (rfl : result' = result) hw
  cases result' with
  | error fault => exact ⟨hw.calls_eq, hw.accepted_eq, rfl⟩
  | ok =>
      dsimp only
      rw [flush_eq, flush_eq, hw.flushAnswer_eq, hw.calls_eq]
      exact ⟨rfl, hw.accepted_eq, rfl⟩

/-! ### A whole delivery -/

lemma mapError_eq_ok_iff {answer : Except Fault Unit} :
    answer.mapError Failure.write = .ok () ↔ answer = .ok () := by
  cases answer with
  | error fault => exact ⟨nofun, nofun⟩
  | ok => exact ⟨fun _ => rfl, fun _ => rfl⟩

lemma ne_of_append {front : ByteArray} (h : front ++ rest = output) (hrest : rest ≠ .empty) :
    front ≠ output := by
  rintro rfl
  have hsize := congrArg ByteArray.size h
  rw [ByteArray.size_append] at hsize
  exact hrest (ByteArray.size_eq_zero_iff.mp (by omega))

/-- The exchanges of a delivery say how it ends: after the last of them there is a flush, or
it ends the writing. -/
lemma deliver_cases_of_transcribes {exchanges : List Exchange}
    (hrun : Transcribes mode sink output (sink.writeAll mode output) exchanges) :
    (sink.deliver mode output).1.accepted = sink.accepted ++ taken exchanges ∧
    ((taken exchanges = output ∧
        (sink.deliver mode output).1.calls.toList =
          sink.calls.toList ++ exchanges.map (SinkCall.write ·.offered) ++ [.flush] ∧
        (sink.deliver mode output).2 = flushAnswer sink.flushes) ∨
      ∃ (before : List Exchange) (e : Exchange) (fault : Fault),
        exchanges = before ++ [e] ∧ e.fault? mode = some fault ∧
        (sink.deliver mode output).1.calls.toList =
          sink.calls.toList ++ exchanges.map (SinkCall.write ·.offered) ∧
        (sink.deliver mode output).2 = .error fault) := by
  have haccepted := hrun.accepted_eq
  have hcalls := hrun.calls_eq
  have hflushes := hrun.flushes_eq
  have hending := hrun.ending
  rw [deliver]
  revert haccepted hcalls hflushes hending
  rcases sink.writeAll mode output with ⟨written, fault | -⟩
  · rintro haccepted hcalls - (⟨hok, -⟩ | ⟨before, e, fault', hexchanges, he, herror⟩)
    · cases hok
    · exact ⟨haccepted, .inr ⟨before, e, fault', hexchanges, he, hcalls, herror⟩⟩
  · rintro haccepted hcalls hflushes (⟨-, htaken⟩ | ⟨_, _, _, _, _, herror⟩)
    · dsimp only at haccepted hcalls hflushes ⊢
      rw [flush_eq, hflushes]
      refine ⟨haccepted, .inl ⟨htaken, ?_, rfl⟩⟩
      rw [Array.toList_push, hcalls]
    · cases herror

/-- **Nothing is lost, repeated or put in another order by a delivery.** Its writes are
exchanges with the sink: each one offers what the writes before it have not accepted, and
that is never nothing; so at every moment a front part of the output has been accepted. The
delivery succeeds exactly if the whole output is accepted and then the flush succeeds. There
is one flush, after the last write, if the whole output is accepted, and its fault is the
failure. Otherwise the last write accepts nothing, or it fails and is not made again; then
its fault is the failure, some of the output is not accepted, and there is no flush. How
long the sink has to be waited for changes none of this. -/
theorem deliver_transcript (mode : Mode) (writes : List WriteReply) (flushes : List FlushReply)
    (output : ByteArray) :
    let run := (ofReplies writes flushes).deliver mode output
    let result := run.2.mapError Failure.write
    (∃ exchanges, Transcript mode output (answers writes) exchanges ∧
      run.1.accepted = taken exchanges ∧
      (∀ before after : List Exchange, exchanges = before ++ after →
        ∃ rest, taken before ++ rest = output) ∧
      ((run.1.accepted = output ∧
          run.1.calls.toList = exchanges.map (SinkCall.write ·.offered) ++ [.flush] ∧
          result = (flushAnswer flushes).mapError Failure.write) ∨
        ∃ (before : List Exchange) (e : Exchange) (fault : Fault) (rest : ByteArray),
          exchanges = before ++ [e] ∧
          (e.answer = .ok 0 ∧ fault.kind = .writeZero ∨
            e.answer = .error fault ∧ ¬mode.Retries fault) ∧
          rest ≠ .empty ∧ run.1.accepted ++ rest = output ∧
          run.1.calls.toList = exchanges.map (SinkCall.write ·.offered) ∧
          result = .error (.write fault))) ∧
    (result = .ok () ↔ run.1.accepted = output ∧ flushAnswer flushes = .ok ()) ∧
    ∀ writes' flushes', answers writes' = answers writes →
      flushAnswer flushes' = flushAnswer flushes →
      let run' := (ofReplies writes' flushes').deliver mode output
      run'.1.calls = run.1.calls ∧ run'.1.accepted = run.1.accepted ∧ run'.2 = run.2 := by
  intro run result
  obtain ⟨exchanges, hrun⟩ := exists_transcribes mode (ofReplies writes flushes) output
  obtain ⟨haccepted, hending⟩ := deliver_cases_of_transcribes hrun
  replace haccepted : run.1.accepted = taken exchanges :=
    haccepted.trans ByteArray.empty_append
  have hwait : ∀ writes' flushes', answers writes' = answers writes →
      flushAnswer flushes' = flushAnswer flushes →
      let run' := (ofReplies writes' flushes').deliver mode output
      run'.1.calls = run.1.calls ∧ run'.1.accepted = run.1.accepted ∧ run'.2 = run.2 := by
    intro writes' flushes' hwrites hflushes run'
    have hs : Alike (ofReplies writes flushes) (ofReplies writes' flushes') :=
      ⟨hwrites, hflushes, rfl, rfl⟩
    exact hs.deliver output
  rcases hending with ⟨htaken, hcalls, hflush⟩ | ⟨before, e, fault, rfl, he, hcalls, herror⟩
  · -- everything is accepted, and the flush decides
    have hall : run.1.accepted = output := haccepted.trans htaken
    have hresult : result = (flushAnswer flushes).mapError Failure.write :=
      congrArg (Except.mapError Failure.write) hflush
    refine ⟨⟨exchanges, hrun.transcript, haccepted, ?_, .inl ⟨hall, hcalls, hresult⟩⟩, ?_, hwait⟩
    · exact fun before after => hrun.transcript.exists_rest
        ⟨.empty, ByteArray.append_empty.trans htaken⟩
    · rw [hresult, mapError_eq_ok_iff]
      exact ⟨fun hok => ⟨hall, hok⟩, And.right⟩
  · -- the last write ends the writing, and what it offers is not accepted
    obtain ⟨hne, hleft⟩ := hrun.transcript.exists_left he
    have hresult : result = .error (.write fault) := congrArg (Except.mapError Failure.write) herror
    replace hleft : run.1.accepted ++ e.offered = output := haccepted ▸ hleft
    refine ⟨⟨_, hrun.transcript, haccepted, ?_, .inr ⟨before, e, fault, e.offered, rfl,
      Exchange.fault?_eq_some he, hne, hleft, hcalls, hresult⟩⟩, ?_, hwait⟩
    · exact fun before after => hrun.transcript.exists_rest ⟨e.offered, haccepted ▸ hleft⟩
    · refine iff_of_false (fun hok => ?_) fun hall => ne_of_append hleft hne hall.1
      cases hresult.symm.trans hok

end Sink

end Deflate
