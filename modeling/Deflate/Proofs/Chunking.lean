/-
How a source cuts and suspends what it delivers.

* `Delivery.flows`: the items after which collecting goes on;
* `front`, `ending` and `delivered`: the items that flow before the first other one, that
  one with what follows it, and the bytes that items deliver;
* `gather_eq_conclude` and `gather_front`: what is collected, and what the source has left,
  in these terms;
* `Recut` and `Rechunked`: calls that have to wait put in, and chunks cut into pieces; many
  such changes, forth and back;
* `Rechunked.gather_eq` and `collectFrom_rechunked`: no such change can be seen in what is
  collected.
-/
import Mathlib.Data.List.TakeWhile
import Mathlib.Tactic
import Deflate.Proofs.Gathering

namespace Deflate

variable {mode : Mode} {received : ByteArray} {source source' : List Delivery}

/-! ### Up to the first item that ends the collecting -/

/-- After the item collecting goes on: it is no fault and not the end of the input. -/
def Delivery.flows : Delivery → Bool
  | .bytes chunk => !chunk.isEmpty
  | .fail _ => false
  | .pending => true

/-- The items before the first one that ends the collecting. -/
def front (source : List Delivery) : List Delivery :=
  source.takeWhile Delivery.flows

/-- The first item that ends the collecting, and those after it. -/
def ending (source : List Delivery) : List Delivery :=
  source.dropWhile Delivery.flows

lemma front_append_ending (source : List Delivery) : front source ++ ending source = source :=
  List.takeWhile_append_dropWhile

lemma flows_of_mem_front {item : Delivery} (h : item ∈ front source) : item.flows = true :=
  List.mem_takeWhile_imp h

lemma flows_eq_false_of_ending {item : Delivery} {rest : List Delivery}
    (h : ending source = item :: rest) : item.flows = false := by
  have hhead := List.head?_dropWhile_not Delivery.flows source
  rw [← ending, h] at hhead
  simpa using hhead

/-- The bytes that items deliver, one after the other. -/
def delivered : List Delivery → ByteArray
  | [] => .empty
  | .bytes chunk :: rest => chunk ++ delivered rest
  | .fail _ :: rest => delivered rest
  | .pending :: rest => delivered rest

/-- Items that flow add the bytes they deliver. -/
lemma gather_flowing {items : List Delivery} (h : ∀ item ∈ items, item.flows = true)
    (rest : List Delivery) :
    gather mode received (items ++ rest) = gather mode (received ++ delivered items) rest := by
  induction items generalizing received with
  | nil => rw [delivered, ByteArray.append_empty, List.nil_append]
  | cons item items ih =>
      obtain ⟨hitem, hitems⟩ := List.forall_mem_cons.mp h
      rw [List.cons_append]
      cases item with
      | pending => exact ih hitems
      | fail fault => cases hitem
      | bytes chunk =>
          have hchunk : chunk.isEmpty = false := by simpa [Delivery.flows] using hitem
          rw [gather_bytes (isEmpty_eq_false_iff.mp hchunk), ih hitems, delivered,
            ByteArray.append_assoc]

/-- What the bytes before it come to with the item that ends the collecting, and what the
source has left: a fault tells their number, and at the end of the input they are all. -/
def conclude (received : ByteArray) :
    List Delivery → Except ReadError ByteArray × List Delivery
  | [] => (.ok received, [])
  | .fail fault :: rest => (.error ⟨received.size, fault⟩, rest)
  | _ :: rest => (.ok received, rest)

/-- Unless the item that ends the collecting is retried, the items before it are collected,
and those after it are left. -/
lemma gather_eq_conclude
    (h : ∀ fault rest, ending source = .fail fault :: rest → ¬mode.Retries fault) :
    gather mode received source = conclude (received ++ delivered (front source))
      (ending source) := by
  calc gather mode received source
      = gather mode received (front source ++ ending source) := by rw [front_append_ending]
    _ = gather mode (received ++ delivered (front source)) (ending source) :=
        gather_flowing (fun item hitem => flows_of_mem_front hitem) _
    _ = conclude (received ++ delivered (front source)) (ending source) := ?_
  cases hending : ending source with
  | nil => rfl
  | cons item rest =>
      have hflows := flows_eq_false_of_ending hending
      cases item with
      | pending => cases hflows
      | bytes chunk =>
          rw [gather, if_pos (by simpa [Delivery.flows] using hflows)]
          rfl
      | fail fault =>
          rw [gather, if_neg (h fault rest hending)]
          rfl

/-- Without interruptions this is so in either mode. -/
lemma gather_front (h : ∀ fault, Delivery.fail fault ∈ source → ¬fault.IsInterruption) :
    gather mode received source = conclude (received ++ delivered (front source))
      (ending source) := by
  refine gather_eq_conclude fun fault rest hending hretries => ?_
  have hmem : Delivery.fail fault ∈ source := by
    rw [← front_append_ending source, hending]
    exact List.mem_append_right _ List.mem_cons_self
  exact h fault hmem hretries.2

/-! ### Changes that cannot be seen -/

/-- One change in how a source cuts and suspends what it delivers. -/
inductive Recut : List Delivery → List Delivery → Prop where
  /-- A call has to wait. -/
  | suspend (before after : List Delivery) : Recut (before ++ after) (before ++ .pending :: after)
  /-- A chunk comes in pieces, none of which is empty. -/
  | cut (before after : List Delivery) (pieces : List ByteArray) : pieces ≠ [] →
      (∀ piece ∈ pieces, 0 < piece.size) →
      Recut (before ++ .bytes (delivered (pieces.map .bytes)) :: after)
        (before ++ (pieces.map .bytes ++ after))

/-- Many such changes, each made or undone: calls wait or no longer wait, and chunks come in
pieces or pieces in one chunk. -/
abbrev Rechunked : List Delivery → List Delivery → Prop :=
  Relation.EqvGen Recut

/-- What comes before a change does not matter. -/
lemma gather_append_congr {after after' : List Delivery}
    (h : ∀ received, (gather mode received after).1 = (gather mode received after').1)
    (before : List Delivery) :
    (gather mode received (before ++ after)).1 = (gather mode received (before ++ after')).1 := by
  induction before generalizing received with
  | nil => exact h received
  | cons item before ih =>
      rw [List.cons_append, List.cons_append]
      cases item with
      | pending => exact ih
      | fail fault =>
          rw [gather, gather]
          split
          · exact ih
          · rfl
      | bytes chunk =>
          rw [gather, gather]
          split
          · rfl
          · exact ih

/-- Pieces deliver at least one byte if none of them is empty. -/
lemma size_delivered_pos {pieces : List ByteArray} (hne : pieces ≠ [])
    (h : ∀ piece ∈ pieces, 0 < piece.size) : 0 < (delivered (pieces.map .bytes)).size := by
  obtain ⟨piece, pieces, rfl⟩ := List.exists_cons_of_ne_nil hne
  rw [List.map_cons, delivered, ByteArray.size_append]
  exact Nat.add_pos_left (h piece List.mem_cons_self) _

lemma Recut.gather_eq (h : Recut source source') :
    (gather mode received source).1 = (gather mode received source').1 := by
  cases h with
  | suspend before after =>
      refine gather_append_congr (fun received => ?_) before
      rw [gather]
  | cut before after pieces hne hpos =>
      refine gather_append_congr (fun received => ?_) before
      have hflows : ∀ item ∈ pieces.map Delivery.bytes, item.flows = true := by
        intro item hitem
        obtain ⟨piece, hpiece, rfl⟩ := List.mem_map.mp hitem
        rw [Delivery.flows, isEmpty_eq_false_iff.mpr (hpos piece hpiece), Bool.not_false]
      rw [gather_bytes (size_delivered_pos hne hpos), gather_flowing hflows]

/-- However a source cuts and suspends what it delivers, the same is collected. -/
theorem Rechunked.gather_eq (h : Rechunked source source') :
    (gather mode received source).1 = (gather mode received source').1 := by
  induction h with
  | rel _ _ hr => exact hr.gather_eq
  | refl _ => rfl
  | symm _ _ _ ih => exact ih.symm
  | trans _ _ _ _ _ ih ih' => exact ih.trans ih'

/-- **How a source cuts and suspends what it delivers cannot be seen**, if no read is
interrupted. In either mode, and whatever room the calls offer, the items are used in order
up to the first empty chunk or fault, and those after it are left. What is collected is all
the bytes delivered up to there, one after the other, or the fault with their number. So it
is still the same in the other mode, with other rooms, and with calls made to wait or not
and chunks cut or joined anywhere. In particular this holds of `collect`, whose rooms are
even. -/
theorem collectFrom_rechunked (mode : Mode) (rooms : Rooms)
    (hsource : ∀ fault, Delivery.fail fault ∈ source → ¬fault.IsInterruption) :
    collectFrom mode rooms 0 .empty source =
      conclude (delivered (front source)) (ending source) ∧
    ∀ (mode' : Mode) (rooms' : Rooms) (source' : List Delivery), Rechunked source source' →
      (collectFrom mode' rooms' 0 .empty source').1 =
        (collectFrom mode rooms 0 .empty source).1 := by
  constructor
  · rw [collectFrom_eq_gather, gather_front hsource, ByteArray.empty_append]
  · intro mode' rooms' source' h
    rw [collectFrom_eq_gather, collectFrom_eq_gather, ← h.gather_eq,
      gather_congr_mode mode' mode hsource]

/-- A source that has to be waited for, gives four bytes in two chunks and then fails. -/
def failingSource : List Delivery :=
  [.pending, .bytes ⟨#[1, 2, 3]⟩, .bytes ⟨#[4]⟩, .fail (.plain .connectionReset), .bytes ⟨#[5]⟩]

/-- The source that gives the four bytes in one chunk and has to be waited for before it
fails. -/
def joinedSource : List Delivery :=
  [.bytes ⟨#[1, 2, 3, 4]⟩, .pending, .fail (.plain .connectionReset), .bytes ⟨#[5]⟩]

lemma rechunked_failingSource : Rechunked failingSource joinedSource := by
  have hsuspend := Recut.suspend [] (failingSource.drop 1)
  have hcut : Recut (joinedSource.eraseIdx 1) (failingSource.drop 1) :=
    .cut [] (joinedSource.drop 2) [⟨#[1, 2, 3]⟩, ⟨#[4]⟩] (by decide) (by decide)
  have hsuspend' := Recut.suspend [.bytes ⟨#[1, 2, 3, 4]⟩] (joinedSource.drop 2)
  calc Rechunked failingSource (failingSource.drop 1) := .symm _ _ (.rel _ _ hsuspend)
    Rechunked _ (joinedSource.eraseIdx 1) := .symm _ _ (.rel _ _ hcut)
    Rechunked _ joinedSource := .rel _ _ hsuspend'

/-- Read with room for one byte, two bytes and so on or in one call, the four bytes are
counted, and the byte after the fault is left. -/
theorem collectFrom_rechunked_failingSource :
    (∀ fault, Delivery.fail fault ∈ failingSource → ¬fault.IsInterruption) ∧
      collectFrom .cooperative ⟨fun n => n + 1, Nat.succ_pos⟩ 0 .empty failingSource =
        (.error ⟨4, .plain .connectionReset⟩, [.bytes ⟨#[5]⟩]) ∧
      (collect .blocking joinedSource).1 = .error ⟨4, .plain .connectionReset⟩ := by
  have hsource : ∀ fault, Delivery.fail fault ∈ failingSource → ¬fault.IsInterruption := by
    simp [failingSource, Fault.IsInterruption, Fault.kind]
  obtain ⟨hcollect, hsame⟩ :=
    collectFrom_rechunked .cooperative ⟨fun n => n + 1, Nat.succ_pos⟩ hsource
  have hends : conclude (delivered (front failingSource)) (ending failingSource) =
      (.error ⟨4, .plain .connectionReset⟩, [.bytes ⟨#[5]⟩]) := rfl
  rw [hends] at hcollect
  have hjoined := hsame .blocking .even joinedSource rechunked_failingSource
  rw [hcollect] at hjoined
  exact ⟨hsource, hcollect, hjoined⟩

end Deflate
