/-
Reads that are interrupted.

* `Interrupted`: a source with interrupted reads put in, any number of them anywhere;
* `Interrupted.gather_blocking`: by waiting, they cannot be seen in what is collected;
* `EndsInterrupted`: an interruption comes before anything else that ends the collecting;
* `Interrupted.gather_cooperative`: by giving way, only such an interruption can be seen;
* `collectFrom_interrupted`: what is collected of a source with interruptions in either mode;
* `collect_cooperative_interrupted`: by giving way, an interruption can be what is collected.
-/
import Mathlib.Tactic
import Deflate.Proofs.Chunking

namespace Deflate

/-- Interrupted reads are put into a source, any number of them anywhere. -/
inductive Interrupted : List Delivery → List Delivery → Prop where
  | nil : Interrupted [] []
  /-- An item of the source stays where it is. -/
  | keep (item : Delivery) {source source' : List Delivery} : Interrupted source source' →
      Interrupted (item :: source) (item :: source')
  /-- A read is interrupted. -/
  | interrupt {fault : Fault} {source source' : List Delivery} : fault.IsInterruption →
      Interrupted source source' → Interrupted source (.fail fault :: source')

variable {mode : Mode} {received : ByteArray} {source source' : List Delivery}

/-! ### By waiting -/

/-- By waiting, interrupted reads cannot be seen. -/
lemma Interrupted.gather_blocking (h : Interrupted source source') :
    (gather .blocking received source').1 = (gather .blocking received source).1 := by
  induction h generalizing received with
  | nil => rfl
  | keep item _ ih => exact gather_append_congr (fun received => ih) [item]
  | interrupt hfault _ ih =>
      rw [gather, if_pos ⟨rfl, hfault⟩]
      exact ih

/-- What a collecting fails with is not retried. -/
lemma not_retries_of_gather {e : ReadError} (h : (gather mode received source).1 = .error e) :
    ¬mode.Retries e.source := by
  induction source generalizing received with
  | nil => cases h
  | cons item rest ih =>
      cases item with
      | pending => exact ih h
      | fail fault =>
          rw [gather] at h
          split at h
          · exact ih h
          · rename_i hretries
            obtain rfl := Except.error.inj h
            exact hretries
      | bytes chunk =>
          rw [gather] at h
          split at h
          · cases h
          · exact ih h

/-! ### By giving way -/

/-- The first item that ends the collecting is an interruption. -/
def EndsInterrupted (source : List Delivery) : Prop :=
  ∃ fault rest, ending source = .fail fault :: rest ∧ fault.IsInterruption

lemma ending_cons_of_flows {item : Delivery} (h : item.flows = true) :
    ending (item :: source) = ending source :=
  List.dropWhile_cons_of_pos h

lemma ending_cons_of_not_flows {item : Delivery} (h : ¬item.flows = true) :
    ending (item :: source) = item :: source :=
  List.dropWhile_cons_of_neg h

/-- By giving way nothing is retried, so the items up to the first one that ends the
collecting say what is collected. -/
lemma gather_cooperative (received : ByteArray) (source : List Delivery) :
    gather .cooperative received source = conclude (received ++ delivered (front source))
      (ending source) :=
  gather_eq_conclude fun _ _ _ hretries => nomatch hretries.1

/-- By giving way, interrupted reads cannot be seen if none of them ends the collecting. -/
lemma Interrupted.gather_cooperative (h : Interrupted source source')
    (hends : ¬EndsInterrupted source') :
    (gather .cooperative received source').1 = (gather .cooperative received source).1 := by
  induction h generalizing received with
  | nil => rfl
  | @keep item source source' _ ih =>
      by_cases hflows : item.flows = true
      · rw [EndsInterrupted, ending_cons_of_flows hflows] at hends
        exact gather_append_congr (fun received => ih hends) [item]
      · rw [Deflate.gather_cooperative, Deflate.gather_cooperative, front, front,
          ending_cons_of_not_flows hflows, ending_cons_of_not_flows hflows,
          List.takeWhile_cons_of_neg hflows, List.takeWhile_cons_of_neg hflows]
        cases item <;> rfl
  | @interrupt fault _ source' hfault _ _ =>
      exact absurd ⟨fault, source', rfl, hfault⟩ hends

/-! ### In either mode -/

/-- **Interrupted reads are made again by waiting, and by giving way they are faults.** Let
interrupted reads be put into a source, any number of them anywhere, and let the calls offer
any room. By waiting, what is collected is the same as without them, and it is never an
interruption. By giving way the same holds if an empty chunk, another fault or the end of the
source comes before all interruptions; otherwise the first one is what the collecting fails
with, and it tells the number of the bytes before it. -/
theorem collectFrom_interrupted (rooms rooms' : Rooms) (h : Interrupted source source') :
    ((collectFrom .blocking rooms' 0 .empty source').1 =
        (collectFrom .blocking rooms 0 .empty source).1 ∧
      ∀ e, (collectFrom .blocking rooms' 0 .empty source').1 = .error e →
        ¬e.source.IsInterruption) ∧
    (¬EndsInterrupted source' →
      (collectFrom .cooperative rooms' 0 .empty source').1 =
          (collectFrom .cooperative rooms 0 .empty source).1 ∧
        ∀ e, (collectFrom .cooperative rooms' 0 .empty source').1 = .error e →
          ¬e.source.IsInterruption) ∧
    ∀ fault rest, ending source' = .fail fault :: rest → fault.IsInterruption →
      collectFrom .cooperative rooms' 0 .empty source' =
        (.error ⟨(delivered (front source')).size, fault⟩, rest) := by
  simp only [collectFrom_eq_gather]
  refine ⟨⟨h.gather_blocking, ?_⟩, ?_, ?_⟩
  · exact fun e he hint => not_retries_of_gather he ⟨rfl, hint⟩
  · intro hends
    refine ⟨h.gather_cooperative hends, fun e he hint => ?_⟩
    rw [gather_cooperative] at he
    cases hending : ending source' with
    | nil =>
        rw [hending] at he
        cases he
    | cons item rest =>
        rw [hending] at he
        cases item with
        | pending => cases he
        | bytes chunk => cases he
        | fail fault =>
            obtain rfl := Except.error.inj he
            exact hends ⟨fault, rest, hending, hint⟩
  · intro fault rest hending _
    rw [gather_cooperative, hending, ByteArray.empty_append]
    rfl

/-- The source that fails after four bytes, with interruptions of each form put in. -/
def interruptedSource : List Delivery :=
  [.pending, .bytes ⟨#[1, 2, 3]⟩, .fail (.told .interrupted "again"), .fail (.system 4),
    .bytes ⟨#[4]⟩, .fail (.plain .connectionReset), .fail (.plain .interrupted), .bytes ⟨#[5]⟩]

lemma interrupted_interruptedSource : Interrupted failingSource interruptedSource :=
  .keep _ (.keep _ (.interrupt rfl (.interrupt rfl (.keep _ (.keep _ (.interrupt rfl
    (.keep _ .nil)))))))

/-- By waiting, the four bytes before the fault are counted; by giving way, the three bytes
before the first interruption are, and what follows it is left. -/
theorem collectFrom_interrupted_failingSource :
    Interrupted failingSource interruptedSource ∧
      (collect .blocking interruptedSource).1 = .error ⟨4, .plain .connectionReset⟩ ∧
      collect .cooperative interruptedSource =
        (.error ⟨3, .told .interrupted "again"⟩, interruptedSource.drop 3) := by
  obtain ⟨⟨hblocking, -⟩, -, hcooperative⟩ :=
    collectFrom_interrupted .even .even interrupted_interruptedSource
  have hfault : (collect .blocking failingSource).1 = .error ⟨4, .plain .connectionReset⟩ := by
    rw [collect_eq_gather]
    rfl
  exact ⟨interrupted_interruptedSource, hblocking.trans hfault, hcooperative _ _ rfl rfl⟩

/-- By giving way, an interruption before three bytes is what the collecting fails with,
though without it the three bytes are collected. -/
theorem collect_cooperative_interrupted :
    Interrupted [.bytes ⟨#[97, 98, 99]⟩] [.fail (.plain .interrupted), .bytes ⟨#[97, 98, 99]⟩] ∧
      (collect .cooperative [.bytes ⟨#[97, 98, 99]⟩]).1 = .ok ⟨#[97, 98, 99]⟩ ∧
      (collect .cooperative [.fail (.plain .interrupted), .bytes ⟨#[97, 98, 99]⟩]).1 =
        .error ⟨0, .plain .interrupted⟩ := by
  rw [collect_eq_gather, collect_eq_gather]
  exact ⟨.interrupt rfl (.keep _ .nil), rfl, rfl⟩

end Deflate
