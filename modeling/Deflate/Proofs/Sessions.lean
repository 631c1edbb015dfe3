/-
Sessions: an inflater and targets that are used again and again.

* `Session.run` and `Session.results`: many actions one after the other;
* `Session.run_congr`: what comes of actions does not depend on the inflater;
* `Independent`: a decode into a target of which nothing but the input and the target
  itself decide;
* `Session.act_independent`: after any actions every decode is of this kind.
-/
import Mathlib.Tactic
import Deflate.Proofs.PrefixStability

namespace Deflate

namespace Session

variable {n : ℕ}

/-- The session after actions one after the other. -/
def run (s : Session n) : List (Action n) → Session n
  | [] => s
  | a :: actions => (s.act a).1.run actions

/-- What actions one after the other give. -/
def results (s : Session n) : List (Action n) → List (Option (Except DecodeError Outcome))
  | [] => []
  | a :: actions => (s.act a).2 :: (s.act a).1.results actions

/-! ### The inflater does not count -/

section Congr

variable {s t : Session n} (input : ByteArray) (k : Fin n)

lemma targets_inflate (s : Session n) :
    (s.inflate input k).1.targets =
      s.targets.set k (match decode input with
        | .ok (_, decoded) => s.targets.get k ++ decoded
        | .error _ => s.targets.get k) k.isLt := by
  have h : (s.inflate input k).1.targets =
      s.targets.set k (s.inflater.inflate input (s.targets.get k)).2.1 k.isLt := rfl
  rw [h, Inflater.inflate_eq]
  cases decode input <;> rfl

lemma result_inflate (s : Session n) : (s.inflate input k).2 = (decode input).map Prod.fst := by
  have h : (s.inflate input k).2 = (s.inflater.inflate input (s.targets.get k)).2.2 := rfl
  rw [h, Inflater.inflate_eq]
  cases decode input <;> rfl

lemma inflate_congr (h : s.targets = t.targets) :
    (s.inflate input k).1.targets = (t.inflate input k).1.targets ∧
      (s.inflate input k).2 = (t.inflate input k).2 := by
  rw [targets_inflate, targets_inflate, result_inflate, result_inflate, h]
  exact ⟨rfl, rfl⟩

/-- An action does the same to the same targets, whatever the inflater did before. -/
lemma act_congr (h : s.targets = t.targets) (a : Action n) :
    (s.act a).1.targets = (t.act a).1.targets ∧ (s.act a).2 = (t.act a).2 := by
  cases a with
  | renew => exact ⟨h, rfl⟩
  | push k bytes => exact ⟨by simp only [act, h], rfl⟩
  | clear k => exact ⟨by simp only [act, h], rfl⟩
  | inflate input k =>
      obtain ⟨htargets, hresult⟩ := inflate_congr input k h
      exact ⟨htargets, congrArg some hresult⟩
  | chain source k =>
      obtain ⟨htargets, hresult⟩ := inflate_congr (s.targets.get source) k h
      simp only [act, ← h]
      exact ⟨htargets, congrArg some hresult⟩

/-- So do actions one after the other. -/
theorem run_congr (h : s.targets = t.targets) (actions : List (Action n)) :
    (s.run actions).targets = (t.run actions).targets ∧ s.results actions = t.results actions := by
  induction actions generalizing s t with
  | nil => exact ⟨h, rfl⟩
  | cons a actions ih =>
      obtain ⟨htargets, hresult⟩ := act_congr h a
      obtain ⟨hrun, hresults⟩ := ih htargets
      refine ⟨hrun, ?_⟩
      rw [results, results, hresult, hresults]

end Congr

/-! ### Every decode is independent -/

/-- The decode of `input` into target `k` turns `before` into `after` and gives `result`,
and nothing but the input and the target decide of it. -/
structure Independent (before : Vector ByteArray n) (input : ByteArray) (k : Fin n)
    (after : Vector ByteArray n) (result : Except DecodeError Outcome) : Prop where
  /-- The result is that of a fresh inflater with an empty target. -/
  result_eq : result = (Inflater.fresh.inflate input .empty).2.2
  /-- After a success the target ends in what the input gives by itself, and the counts
  are those of this decode. -/
  of_ok : ∀ outcome, result = .ok outcome → ∃ output, inflateAlone input = .ok output ∧
    after.get k = before.get k ++ output ∧ outcome.produced = output.size ∧
    outcome.consumed + outcome.trailing = input.size
  /-- After an error, which is the one that the input gives by itself, all targets are as
  they were. -/
  of_error : ∀ e, result = .error e → inflateAlone input = .error e ∧ after = before
  /-- The other targets are as they were. -/
  of_ne : ∀ j, j ≠ k → after.get j = before.get j

/-- A failed decode leaves the targets as they were. -/
lemma targets_inflate_of_error {input : ByteArray} {e : DecodeError} (h : decode input = .error e)
    (s : Session n) (k : Fin n) : (s.act (.inflate input k)).1.targets = s.targets := by
  have ht := targets_inflate input k s
  rw [h] at ht
  exact ht.trans (Vector.set_getElem_self _)

/-- So do many of them. -/
lemma targets_run_of_errors {inputs : List ByteArray}
    (h : ∀ input ∈ inputs, ∃ e, decode input = .error e) (s : Session n) (k : Fin n) :
    (s.run (inputs.map (.inflate · k))).targets = s.targets := by
  induction inputs generalizing s with
  | nil => rfl
  | cons input inputs ih =>
      obtain ⟨e, he⟩ := h input List.mem_cons_self
      rw [List.map_cons, run, ih fun x hx => h x (List.mem_cons_of_mem _ hx)]
      exact targets_inflate_of_error he s k

/-- A decode in a session is independent of all that was done before. -/
lemma inflate_independent (s : Session n) (input : ByteArray) (k : Fin n) :
    Independent s.targets input k (s.inflate input k).1.targets (s.inflate input k).2 := by
  have hfresh : (Inflater.fresh.inflate input .empty).2.2 = (decode input).map Prod.fst := by
    rw [Inflater.inflate_eq]
    cases decode input <;> rfl
  rw [targets_inflate, result_inflate]
  refine ⟨hfresh.symm, ?_, ?_, ?_⟩
  · intro outcome ho
    cases hd : decode input with
    | ok r =>
        obtain ⟨o, decoded⟩ := r
        rw [hd] at ho
        cases ho
        exact ⟨decoded, inflateAlone_eq_ok_iff.mpr ⟨_, hd⟩, Vector.getElem_set_self _,
          produced_eq_size hd, consumed_add_trailing hd⟩
    | error e =>
        rw [hd] at ho
        cases ho
  · intro e he
    cases hd : decode input with
    | ok r =>
        rw [hd] at he
        cases he
    | error e' =>
        rw [hd] at he
        cases he
        exact ⟨inflateAlone_eq_error_iff.mpr hd, Vector.set_getElem_self _⟩
  · intro j hj
    exact Vector.getElem_set_ne _ _ fun h => hj (Fin.ext h.symm)

/-- **No decode knows of another**: after any actions, decodes that failed among them,
every decode of an input or of a target's content gives what a fresh inflater gives, and
does to its target only what this decode by itself says. The inflater can be replaced by
any other without changing the targets and results of whatever is done later. -/
theorem act_independent (start : Session n) (history : List (Action n)) :
    let s := start.run history
    (∀ input k, ∃ result, (s.act (.inflate input k)).2 = some result ∧
      Independent s.targets input k (s.act (.inflate input k)).1.targets result) ∧
    (∀ source k, ∃ result, (s.act (.chain source k)).2 = some result ∧
      Independent s.targets (s.targets.get source) k (s.act (.chain source k)).1.targets result) ∧
    ∀ (inflater : Inflater) (future : List (Action n)),
      (({ s with inflater } : Session n).run future).targets = (s.run future).targets ∧
        ({ s with inflater } : Session n).results future = s.results future := by
  intro s
  refine ⟨fun input k => ?_, fun source k => ?_, fun inflater future => ?_⟩
  · exact ⟨_, rfl, inflate_independent s input k⟩
  · exact ⟨_, rfl, inflate_independent s (s.targets.get source) k⟩
  · have h : ({ s with inflater } : Session n).targets = s.targets := rfl
    exact run_congr h future

lemma targets_push (s : Session n) (k : Fin n) (bytes : ByteArray) :
    (s.act (.push k bytes)).1.targets.get k = s.targets.get k ++ bytes :=
  Vector.getElem_set_self _

lemma targets_start (k : Fin n) : (start n).targets.get k = .empty :=
  Vector.getElem_replicate _

/-- A stream in the first target, and a corrupt and a truncated decode into it. -/
def failedDecodes : List (Action 2) :=
  [.push 0 mixedBytes, .inflate fourthKind 0, .inflate .empty 0]

lemma targets_failedDecodes : ((start 2).run failedDecodes).targets.get 0 = mixedBytes := by
  have hcorrupt := (Inflater.inflate_eq_error_iff.mp inflate_fourthKind).1
  have htruncated := (Inflater.inflate_eq_error_iff.mp inflate_empty).1
  have herror : ∀ input ∈ [fourthKind, .empty], ∃ e, decode input = .error e := by
    simp [hcorrupt, htruncated]
  have h (s : Session 2) :
      (s.run [.inflate fourthKind 0, .inflate .empty 0]).targets = s.targets :=
    targets_run_of_errors herror s 0
  rw [failedDecodes, run, h, targets_push, targets_start, ByteArray.empty_append]

/-- After these the first target is decoded into itself. -/
theorem act_independent_failedDecodes :
    (((start 2).run failedDecodes).act (.chain 0 0)).2 =
        some (.ok ⟨26, 265, mixedBytes.size - 26⟩) ∧
      (((start 2).run failedDecodes).act (.chain 0 0)).1.targets.get 0 =
        mixedBytes ++ ⟨mixedStream.output.toArray⟩ := by
  obtain ⟨-, hchain, -⟩ := act_independent (start 2) failedDecodes
  obtain ⟨result, hr, h⟩ := hchain 0 0
  rw [targets_failedDecodes] at h
  have hresult : result = .ok ⟨26, 265, mixedBytes.size - 26⟩ := by
    rw [h.result_eq, inflate_mixedBytes]
  obtain ⟨output, ho, ht, -⟩ := h.of_ok _ hresult
  have hout : output = ⟨mixedStream.output.toArray⟩ := by
    rw [inflateAlone, inflate_mixedBytes, ByteArray.empty_append] at ho
    exact (Except.ok.inj ho).symm
  refine ⟨hr.trans (congrArg some hresult), ?_⟩
  rw [ht, hout, targets_failedDecodes]

end Session

end Deflate
