/-
Faults of the source of the input and of the sink of the output.

* `Fault`: a fault of a kind, with its own text or not, or one that the
  operating system numbers;
* `Mode`: how the two ends are driven, by waiting or by giving way.
-/
import Deflate.Transfer.SystemFault

namespace Deflate

/-- A fault. -/
inductive Fault where
  /-- A fault with the text of its kind. -/
  | plain (kind : FaultKind)
  /-- A fault with a text of its own. -/
  | told (kind : FaultKind) (text : String)
  /-- A fault that the operating system numbers. -/
  | system (number : Nat)
  deriving Repr, DecidableEq

namespace Fault

/-- What is known of a fault number. -/
def lookup? (number : Nat) : Option SystemFault :=
  systemFaults.find? (·.number = number)

def kind : Fault → FaultKind
  | plain kind => kind
  | told kind _ => kind
  | system number => ((lookup? number).map (·.kind)).getD .uncategorized

def text : Fault → String
  | plain kind => kind.text
  | told _ text => text
  | system number =>
      let text := ((lookup? number).map (·.text)).getD s!"Unknown error {number}"
      s!"{text} (os error {number})"

/-- The call was interrupted before it did anything. -/
def IsInterruption (f : Fault) : Prop :=
  f.kind = .interrupted

instance (f : Fault) : Decidable f.IsInterruption :=
  inferInstanceAs (Decidable (_ = _))

end Fault

/-- How the source and the sink are driven. -/
inductive Mode where
  /-- Every call waits; an interrupted read or write is made again. -/
  | blocking
  /-- A call that has to wait gives way to others; an interruption is a fault
  like any other. -/
  | cooperative
  deriving Repr, DecidableEq

/-- The fault makes the call be made again. -/
def Mode.Retries (mode : Mode) (f : Fault) : Prop :=
  mode = .blocking ∧ f.IsInterruption

instance (mode : Mode) (f : Fault) : Decidable (mode.Retries f) :=
  inferInstanceAs (Decidable (_ ∧ _))

/-- By waiting every interruption is got over. -/
@[simp] theorem Mode.retries_blocking {f : Fault} : Mode.blocking.Retries f ↔ f.IsInterruption :=
  ⟨And.right, fun h => ⟨rfl, h⟩⟩

/-- By giving way nothing is. -/
theorem Mode.not_retries_cooperative {f : Fault} : ¬Mode.cooperative.Retries f := by
  rintro ⟨⟨⟩, -⟩

end Deflate
