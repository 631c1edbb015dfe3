/-
How far back the output counts.

* `exists_result_of_window`: behind stored blocks, the last `windowSize` bytes that they
  stand for decide how the rest of an input is decoded;
* `Inflater.inflate_window`: so the decodes behind two rows of such blocks that end in
  the same bytes differ by what stands before these bytes only.
-/
import Mathlib.Data.List.DropRight
import Mathlib.Tactic
import Deflate.Proofs.StoredPrefix

namespace Deflate

open Chunk

/-- Of the bytes that chunks stand for, `windowSize` bytes at the end decide how the
input behind them is decoded. -/
theorem exists_result_of_window (input : ByteArray) {window : List UInt8}
    (hw : windowSize ≤ window.length) :
    ∃ c v, ∀ chunks, window <:+ contents chunks →
      decode (encodeAll chunks ++ input) =
        resultBehind (encodeAll chunks).size (contents chunks)
          (Configuration.report input c v) := by
  obtain ⟨d, v, hr, he⟩ := exists_ends input (Configuration.start.behind window)
  obtain ⟨out, hout⟩ := Reaches.output_prefix hr
  rw [Configuration.behind, Configuration.start, List.append_nil] at hout
  have hd : d = Configuration.behind window ⟨out, d.machine⟩ := by
    rw [Configuration.behind, hout]
  have hlen : windowSize ≤ d.output.length := by
    rw [← hout, List.length_append]
    exact Nat.le_add_right_of_le hw
  refine ⟨⟨out, d.machine⟩, v, ?_⟩
  rintro chunks ⟨history, hc⟩
  -- the decode from the window on, with the history in front of it
  have hr' := Reaches.behind hr trivial history
  have he' := he.behind_window hlen history
  rw [hd, ← behind_append, hc] at he'
  rw [hd, ← behind_append, ← behind_append, hc] at hr'
  exact decode_chunks_of_ends hr' he'

/-- **Only the last `windowSize` bytes count**: behind chunks that end in the same bytes
an input is decoded alike, whatever stands before these bytes. Both decodes succeed with
the same bytes, both are truncated after as many bytes, or both find the input corrupt
at the same place. -/
theorem Inflater.inflate_window (i j : Inflater) (input s t : ByteArray)
    {chunks chunks' : List Chunk} (h : windowSize ≤ (contents chunks).length)
    (hw : (contents chunks).rtake windowSize = (contents chunks').rtake windowSize) :
    (∃ (out : List UInt8) (consumed trailing : ℕ),
      (i.inflate (encodeAll chunks ++ input) s).2 =
          (s ++ ⟨(contents chunks ++ out).toArray⟩,
            .ok ⟨(encodeAll chunks).size + consumed, (contents chunks).length + out.length,
              trailing⟩) ∧
        (j.inflate (encodeAll chunks' ++ input) t).2 =
          (t ++ ⟨(contents chunks' ++ out).toArray⟩,
            .ok ⟨(encodeAll chunks').size + consumed, (contents chunks').length + out.length,
              trailing⟩)) ∨
    (∃ produced,
      (i.inflate (encodeAll chunks ++ input) s).2 =
          (s, .error (.truncated ((encodeAll chunks).size + input.size)
            ((contents chunks).length + produced))) ∧
        (j.inflate (encodeAll chunks' ++ input) t).2 =
          (t, .error (.truncated ((encodeAll chunks').size + input.size)
            ((contents chunks').length + produced)))) ∨
    ∃ offset detail,
      (i.inflate (encodeAll chunks ++ input) s).2 =
          (s, .error (.corrupt ((encodeAll chunks).size + offset) detail)) ∧
        (j.inflate (encodeAll chunks' ++ input) t).2 =
          (t, .error (.corrupt ((encodeAll chunks').size + offset) detail)) := by
  have hlen : windowSize ≤ ((contents chunks).rtake windowSize).length := by
    rw [List.rtake, List.length_drop]
    omega
  have hs : (contents chunks).rtake windowSize <:+ contents chunks := List.drop_suffix _ _
  have hs' : (contents chunks).rtake windowSize <:+ contents chunks' := by
    rw [hw]
    exact List.drop_suffix _ _
  obtain ⟨c, v, hresult⟩ := exists_result_of_window input hlen
  have hd := hresult chunks hs
  have hd' := hresult chunks' hs'
  cases v with
  | complete =>
      left
      refine ⟨c.output, bytesBefore c.machine.position, input.size - bytesBefore c.machine.position,
        Inflater.inflate_eq_ok_iff.mpr ⟨_, hd, ?_⟩, Inflater.inflate_eq_ok_iff.mpr ⟨_, hd', ?_⟩⟩
      · rw [toArray_append]
      · rw [toArray_append]
  | starved =>
      right
      left
      exact ⟨c.output.length, Inflater.inflate_eq_error_iff.mpr ⟨hd, rfl⟩,
        Inflater.inflate_eq_error_iff.mpr ⟨hd', rfl⟩⟩
  | corrupt stop =>
      right
      right
      exact ⟨bytesBefore stop, _, Inflater.inflate_eq_error_iff.mpr ⟨hd, rfl⟩,
        Inflater.inflate_eq_error_iff.mpr ⟨hd', rfl⟩⟩

lemma zero_mod_eight : (0 : UInt8).toNat % 8 = 0 := rfl

/-- Chunks that end in `windowSize` zero bytes, after the bytes given. -/
def windowChunks (before : List UInt8) (h : before.length ≤ 65535) : List Chunk :=
  [⟨0, before, zero_mod_eight, h⟩,
    ⟨0, List.replicate windowSize 0, zero_mod_eight, by rw [List.length_replicate]; decide⟩]

lemma contents_windowChunks (before : List UInt8) (h : before.length ≤ 65535) :
    contents (windowChunks before h) = before ++ List.replicate windowSize 0 := by
  simp [contents, windowChunks]

lemma rtake_windowChunks (before : List UInt8) (h : before.length ≤ 65535) :
    (contents (windowChunks before h)).rtake windowSize = List.replicate windowSize 0 := by
  rw [contents_windowChunks, List.rtake, List.length_append, List.length_replicate,
    Nat.add_sub_cancel, List.drop_left]

/-- A stream is decoded alike behind zero bytes only and behind others with as many zero
bytes after them. -/
theorem inflate_window_mixedBytes :
    windowSize ≤ (contents (windowChunks [] (by decide))).length ∧
      (contents (windowChunks [] (by decide))).rtake windowSize =
        (contents (windowChunks [1, 2, 3] (by decide))).rtake windowSize ∧
      ∃ (out : List UInt8) (consumed trailing : ℕ),
        (Inflater.fresh.inflate (encodeAll (windowChunks [] (by decide)) ++ mixedBytes) .empty).2 =
            (.empty ++ ⟨(contents (windowChunks [] (by decide)) ++ out).toArray⟩,
              .ok ⟨(encodeAll (windowChunks [] (by decide))).size + consumed,
                (contents (windowChunks [] (by decide))).length + out.length, trailing⟩) ∧
          (Inflater.fresh.inflate (encodeAll (windowChunks [1, 2, 3] (by decide)) ++ mixedBytes)
              ⟨#[1]⟩).2 =
            (⟨#[1]⟩ ++ ⟨(contents (windowChunks [1, 2, 3] (by decide)) ++ out).toArray⟩,
              .ok ⟨(encodeAll (windowChunks [1, 2, 3] (by decide))).size + consumed,
                (contents (windowChunks [1, 2, 3] (by decide))).length + out.length,
                trailing⟩) := by
  have hlen : windowSize ≤ (contents (windowChunks [] (by decide))).length := by
    rw [contents_windowChunks, List.nil_append, List.length_replicate]
  have hw : (contents (windowChunks [] (by decide))).rtake windowSize =
      (contents (windowChunks [1, 2, 3] (by decide))).rtake windowSize := by
    rw [rtake_windowChunks, rtake_windowChunks]
  refine ⟨hlen, hw, ?_⟩
  -- the stream is decoded alone, so it is not refused behind the chunks
  obtain ⟨_, hd, -⟩ := Inflater.inflate_eq_ok_iff.mp inflate_mixedBytes
  have hb := decode_chunks_append (windowChunks [] (by decide)) hd (by simp)
  rcases Inflater.inflate_window .fresh .fresh mixedBytes .empty ⟨#[1]⟩ hlen hw with
    h | ⟨produced, h, -⟩ | ⟨offset, detail, h, -⟩
  · exact h
  · cases hb.symm.trans (Inflater.inflate_eq_error_iff.mp h).1
  · cases hb.symm.trans (Inflater.inflate_eq_error_iff.mp h).1

end Deflate
