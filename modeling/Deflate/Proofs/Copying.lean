/-
Copies of output that is still being written.

* `repeatBack`: the last bytes of the output over and over again; `copyBack_eq` says that
  a copy appends them byte by byte, also where it reads what it has written itself, and
  `copyBack_add` that it can be made in two parts;
* `LeadsTo` and `Refuses`: what a decode does in a buffer, whatever its size and growth;
  `Reaches.leadsTo` and `Ends.refuses` say it of moves;
* `Reaches.output_eq_of_copy` and `Rounds.contents_of_copy`: while a decode copies, all
  bytes of the copy are there but those that it still owes;
* `runGrowing_copy`: a copy repeats the bytes before it, however often it is interrupted
  for more room, and one that starts before the output is refused.
-/
import Mathlib.Data.List.GetD
import Mathlib.Tactic
import Deflate.Proofs.Expansion

namespace Deflate

/-! ### The bytes of a copy -/

/-- The last `distance` bytes of `out` over and over again, `length` bytes in all: the
byte `k` of them is the byte `k % distance` of the last ones. -/
def repeatBack (out : List UInt8) (distance length : ℕ) : List UInt8 :=
  (List.range length).map fun k => out.getD (out.length - distance + k % distance) 0

section RepeatBack

variable {out : List UInt8} {distance : ℕ}

lemma repeatBack_zero (out : List UInt8) (distance : ℕ) : repeatBack out distance 0 = [] := rfl

lemma repeatBack_succ (out : List UInt8) (distance k : ℕ) :
    repeatBack out distance (k + 1) =
      repeatBack out distance k ++ [out.getD (out.length - distance + k % distance) 0] := by
  rw [repeatBack, List.range_succ, List.map_append]
  rfl

@[simp] lemma length_repeatBack (out : List UInt8) (distance length : ℕ) :
    (repeatBack out distance length).length = length := by
  simp [repeatBack]

/-- Each of the bytes is a byte of the output. -/
lemma getElem?_repeatBack (h1 : 1 ≤ distance) (hd : distance ≤ out.length) {k length : ℕ}
    (hk : k < length) :
    (repeatBack out distance length)[k]? = out[out.length - distance + k % distance]? := by
  have hmod : k % distance < distance := Nat.mod_lt k h1
  have hlt : out.length - distance + k % distance < out.length := by omega
  rw [repeatBack, List.getElem?_map, List.getElem?_range hk, Option.map_some,
    List.getD_eq_getElem _ _ hlt, List.getElem?_eq_getElem hlt]

/-- The byte `distance` back after `k` bytes of a copy: it is a byte of the output before
the copy, or one that the copy has written itself. -/
lemma getD_append_repeatBack (h1 : 1 ≤ distance) (hd : distance ≤ out.length) (k : ℕ) :
    (out ++ repeatBack out distance k).getD
        ((out ++ repeatBack out distance k).length - distance) 0 =
      out.getD (out.length - distance + k % distance) 0 := by
  rw [List.length_append, length_repeatBack]
  rcases Nat.lt_or_ge k distance with hk | hk
  · have hlt : out.length + k - distance < out.length := by omega
    have heq : out.length + k - distance = out.length - distance + k := by omega
    rw [List.getD_append _ _ _ _ hlt, Nat.mod_eq_of_lt hk, heq]
  · -- one round of the copy before
    have hge : out.length ≤ out.length + k - distance := by omega
    have heq : out.length + k - distance - out.length = k - distance := by omega
    have hlt : k - distance < k := by omega
    rw [List.getD_append_right _ _ _ _ hge, heq, List.getD_eq_getElem?_getD,
      getElem?_repeatBack h1 hd hlt, ← Nat.mod_eq_sub_mod hk, List.getD_eq_getElem?_getD]

/-- One more byte of a copy. -/
lemma append_repeatBack_succ (h1 : 1 ≤ distance) (hd : distance ≤ out.length) (k : ℕ) :
    out ++ repeatBack out distance (k + 1) =
      out ++ repeatBack out distance k ++
        [(out ++ repeatBack out distance k).getD
          ((out ++ repeatBack out distance k).length - distance) 0] := by
  rw [getD_append_repeatBack h1 hd, repeatBack_succ, List.append_assoc]

lemma copyBack_append_repeatBack (h1 : 1 ≤ distance) (hd : distance ≤ out.length)
    (k left : ℕ) :
    copyBack (out ++ repeatBack out distance k) distance left =
      out ++ repeatBack out distance (k + left) := by
  induction left generalizing k with
  | zero => rfl
  | succ left ih =>
      rw [copyBack, ← append_repeatBack_succ h1 hd, ih, Nat.add_right_comm, Nat.add_assoc]

/-- A copy appends the last `distance` bytes over and over again, whether it is longer
than `distance` or not. -/
theorem copyBack_eq (h1 : 1 ≤ distance) (hd : distance ≤ out.length) (length : ℕ) :
    copyBack out distance length = out ++ repeatBack out distance length := by
  have h := copyBack_append_repeatBack h1 hd 0 length
  rwa [repeatBack_zero, List.append_nil, Nat.zero_add] at h

example : copyBack [7, 8, 9] 2 5 = [7, 8, 9, 8, 9, 8, 9, 8] := rfl

/-- A copy can be made in two parts. -/
theorem copyBack_add (out : List UInt8) (distance first second : ℕ) :
    copyBack out distance (first + second) =
      copyBack (copyBack out distance first) distance second := by
  induction first generalizing out with
  | zero => rw [Nat.zero_add, copyBack]
  | succ first ih => rw [Nat.succ_add, copyBack, copyBack, ih]

/-- Two copies from the same distance repeat the same bytes as one. -/
lemma append_repeatBack_add (h1 : 1 ≤ distance) (hd : distance ≤ out.length)
    (first second : ℕ) :
    out ++ repeatBack out distance (first + second) =
      out ++ repeatBack out distance first ++
        repeatBack (out ++ repeatBack out distance first) distance second := by
  have hd' : distance ≤ (out ++ repeatBack out distance first).length := by
    rw [List.length_append]
    exact Nat.le_add_right_of_le hd
  calc out ++ repeatBack out distance (first + second)
      = copyBack out distance (first + second) := (copyBack_eq h1 hd _).symm
    _ = copyBack (copyBack out distance first) distance second := copyBack_add ..
    _ = copyBack (out ++ repeatBack out distance first) distance second := by
        rw [copyBack_eq h1 hd]
    _ = _ := copyBack_eq h1 hd' _

end RepeatBack

/-! ### Whatever the buffer -/

variable {input : ByteArray}

/-- In every buffer with the output of `c`, whatever its size and growth, a decode goes on
as it does in a buffer with the output of `d`. -/
def LeadsTo (input : ByteArray) (c d : Configuration) : Prop :=
  ∀ (growth : Growth) (b : Buffer), b.contents = ⟨c.output.toArray⟩ →
    ∃ b' : Buffer, b'.contents = ⟨d.output.toArray⟩ ∧
      runGrowing growth input b c.machine = runGrowing growth input b' d.machine

/-- In every buffer with the output of `c`, whatever its size and growth, a decode finds the
input corrupt at once and leaves the buffer as it is. -/
def Refuses (input : ByteArray) (c : Configuration) (stop : ℕ) : Prop :=
  ∀ (growth : Growth) (b : Buffer), b.contents = ⟨c.output.toArray⟩ →
    runGrowing growth input b c.machine = (b, c.machine, .corrupt stop)

section Buffers

variable {b : Buffer} {c d e : Configuration}

lemma Buffer.configuration_eq_iff {m : Machine} :
    b.configuration m = c ↔ b.contents = ⟨c.output.toArray⟩ ∧ m = c.machine := by
  obtain ⟨out, n⟩ := c
  rw [configuration, Configuration.mk.injEq, ByteArray.ext_iff]
  exact and_congr_left fun _ => ⟨fun h => by rw [← h], fun h => by rw [h]⟩

/-- The buffer is filled with the output. -/
lemma Buffer.filled_eq (hb : b.contents = ⟨c.output.toArray⟩) : b.filled = c.output.length := by
  rw [← b.size_contents, hb]
  exact List.size_toArray

lemma LeadsTo.trans (h : LeadsTo input c d) (h' : LeadsTo input d e) : LeadsTo input c e := by
  intro growth b hb
  obtain ⟨b', hb', heq⟩ := h growth b hb
  obtain ⟨b'', hb'', heq'⟩ := h' growth b' hb'
  exact ⟨b'', hb'', heq.trans heq'⟩

/-- A byte that has room is put after the output. -/
lemma leadsTo_emit_of_room {source : Source} {n : Machine}
    (hs : c.machine.step input c.output.length = .emit source n) (hc : c.InReach)
    (growth : Growth) (hb : b.contents = ⟨c.output.toArray⟩) (room : b.HasRoom) :
    ∃ b' : Buffer, b'.contents = ⟨(c.output ++ [source.byteAfter c.output]).toArray⟩ ∧
      runGrowing growth input b c.machine = runGrowing growth input b' n := by
  have hconf : b.configuration c.machine = c := Buffer.configuration_eq_iff.mpr ⟨hb, rfl⟩
  rw [← Buffer.filled_eq hb] at hs
  have hbyte : b.resolve source = source.byteAfter c.output := by
    rw [Buffer.resolve_eq hs (hconf.symm ▸ hc), hconf]
  refine ⟨b.put (b.resolve source) room, ?_, runGrowing_congr growth (run_of_emit hs room)⟩
  have hput := b.configuration_put (m := c.machine) (n := n) (b.resolve source) room
  rw [hconf, hbyte] at hput
  rw [hbyte]
  exact (Buffer.configuration_eq_iff.mp hput).1

/-- A move leads on in every buffer: if its byte has no room, the decode is interrupted, the
buffer is enlarged, and the same step is taken again. -/
lemma Moves.leadsTo (h : Moves input c d) (hc : c.InReach) : LeadsTo input c d := by
  intro growth b hb
  have hlen := Buffer.filled_eq hb
  rw [← next?_eq_some_iff, Configuration.next?] at h
  cases hs : c.machine.step input c.output.length with
  | move n =>
      rw [hs] at h
      cases h
      exact ⟨b, hb, runGrowing_congr growth (run_of_move (hlen.symm ▸ hs))⟩
  | emit source n =>
      rw [hs] at h
      cases h
      by_cases room : b.HasRoom
      · exact leadsTo_emit_of_room hs hc growth hb room
      · have hpause := runGrowing_of_paused growth (run_of_full (hlen.symm ▸ hs) room)
        rw [hpause]
        exact leadsTo_emit_of_room hs hc growth ((b.contents_enlarge _).trans hb)
          (b.hasRoom_enlarge (growth.lt_next _))
  | halt v =>
      rw [hs] at h
      cases h

/-- So do many moves. -/
theorem Reaches.leadsTo (h : Reaches input c d) (hc : c.InReach) : LeadsTo input c d := by
  induction h with
  | refl => exact fun growth b hb => ⟨b, hb, rfl⟩
  | tail hr hm ih => exact ih.trans (hm.leadsTo (Reaches.inReach hr hc))

lemma Ends.refuses {stop : ℕ} (h : Ends input c (.corrupt stop)) : Refuses input c stop := by
  intro growth b hb
  rw [Ends, ← Buffer.filled_eq hb] at h
  exact runGrowing_of_verdict growth (run_of_halt h)

/-- What has been decoded somewhere stands at the front of what the whole decode gives. -/
lemma Reaches.exists_append_of_decode {outcome : Outcome} {decoded : ByteArray}
    (h : Reaches input .start c) (hd : decode input = .ok (outcome, decoded)) :
    ∃ more, decoded = ⟨(c.output ++ more).toArray⟩ := by
  obtain ⟨hr, -⟩ := runFreely_reaches input c
  obtain ⟨more, hmore⟩ := Reaches.output_prefix hr
  rw [decode_eq_runFreely, runFreely_of_reaches h] at hd
  cases hv : (runFreely input c).2 with
  | complete =>
      rw [hv] at hd
      cases hd
      exact ⟨more, by rw [hmore]⟩
  | starved =>
      rw [hv] at hd
      cases hd
  | corrupt stop =>
      rw [hv] at hd
      cases hd

end Buffers

/-! ### Copies -/

section Copy

variable {codes : BlockCodes} {final : Bool} {out : List UInt8} {c : Configuration}
  {pos length distance next : ℕ}

/-- A copy that starts at a byte of the output is made. -/
lemma reaches_repeatBack (h : codes.token input pos = .done (.copy length distance) next)
    (hd : distance ≤ out.length) :
    Reaches input ⟨out, ⟨pos, .coded final codes⟩⟩
      ⟨out ++ repeatBack out distance length, ⟨next, .coded final codes⟩⟩ := by
  rw [← copyBack_eq (BlockCodes.token_eq_copy h).2.2.1 hd]
  exact .head (.copy h hd) (reaches_copy _ _)

/-- So are two copies, one after the other. -/
lemma reaches_twoCopies {first second mid : ℕ}
    (hfirst : codes.token input pos = .done (.copy first distance) mid)
    (hsecond : codes.token input mid = .done (.copy second distance) next)
    (hd : distance ≤ out.length) :
    Reaches input ⟨out, ⟨pos, .coded final codes⟩⟩
      ⟨out ++ repeatBack out distance (first + second), ⟨next, .coded final codes⟩⟩ := by
  have hd' : distance ≤ (out ++ repeatBack out distance first).length := by
    rw [List.length_append]
    exact Nat.le_add_right_of_le hd
  rw [append_repeatBack_add (BlockCodes.token_eq_copy hfirst).2.2.1 hd]
  exact (reaches_repeatBack hfirst hd).trans (reaches_repeatBack hsecond hd')

/-- A copy that starts before the output is refused. -/
lemma ends_far (h : codes.token input pos = .done (.copy length distance) next)
    (hd : out.length < distance) :
    Ends input ⟨out, ⟨pos, .coded final codes⟩⟩ (.corrupt next) :=
  ends_coded_iff.mpr (.inr ⟨length, distance, h, hd⟩)

/-- A decode that has begun a copy has made some bytes of it, or it has come to its end. -/
lemma Reaches.copying_or_coded (h1 : 1 ≤ distance) (hd : distance ≤ out.length)
    (h : Reaches input ⟨out, ⟨next, .copying final codes distance length⟩⟩ c) :
    (∃ left ≤ length, c = ⟨out ++ repeatBack out distance (length - left),
        ⟨next, .copying final codes distance left⟩⟩) ∨
      Reaches input ⟨out ++ repeatBack out distance length, ⟨next, .coded final codes⟩⟩ c := by
  induction h with
  | refl =>
      refine .inl ⟨length, Nat.le_refl _, ?_⟩
      rw [Nat.sub_self, repeatBack_zero, List.append_nil]
  | tail _ hm ih =>
      rcases ih with ⟨left, hle, rfl⟩ | hr
      · cases hm with
        | @copyByte _ _ _ left =>
            have hsub : length - left = length - (left + 1) + 1 := by omega
            refine .inl ⟨left, Nat.le_of_succ_le hle, ?_⟩
            rw [hsub, append_repeatBack_succ h1 hd]
        | copyEnd => exact .inr .refl
      · exact .inr (hr.tail hm)

/-- A decode that goes on from a token reads at least one bit. -/
lemma Reaches.eq_or_position_lt (h : Reaches input ⟨out, ⟨pos, .coded final codes⟩⟩ c) :
    c = ⟨out, ⟨pos, .coded final codes⟩⟩ ∨ pos < c.machine.position := by
  rcases h.cases_head with rfl | ⟨d, hm, hr⟩
  · exact .inl rfl
  · have hlt : pos < d.machine.position := by
      cases hm with
      | literal ht => exact (BlockCodes.steps_token _ ht).1
      | copy ht _ => exact (BlockCodes.steps_token _ ht).1
      | codedEnd ht => exact (BlockCodes.steps_token _ ht).1
    exact .inr (hlt.trans_le (Reaches.position_le hr))

/-- As long as a decode stands behind the bits of a copy, all bytes of the copy are there but
those that it still owes. -/
lemma Reaches.output_eq_of_copy (h : codes.token input pos = .done (.copy length distance) next)
    (hd : distance ≤ out.length) (hr : Reaches input ⟨out, ⟨pos, .coded final codes⟩⟩ c)
    (hc : c.machine.position = next) :
    c.machine.phase.owed ≤ length ∧
      c.output = out ++ repeatBack out distance (length - c.machine.phase.owed) := by
  have h1 : 1 ≤ distance := (BlockCodes.token_eq_copy h).2.2.1
  have hlt : pos < next := (BlockCodes.steps_token _ h).1
  rcases hr.cases_head with rfl | ⟨d, hm, hr⟩
  · exact absurd hc hlt.ne
  · obtain rfl := moves_rightUnique hm (.copy h hd)
    rcases Reaches.copying_or_coded h1 hd hr with ⟨left, hle, rfl⟩ | hr
    · exact ⟨hle, rfl⟩
    · rcases Reaches.eq_or_position_lt hr with rfl | hgt
      · exact ⟨Nat.zero_le _, rfl⟩
      · exact absurd hc hgt.ne'

/-- So it is in a buffer, however often it has been enlarged. -/
lemma Rounds.contents_of_copy {growth : Growth} {b : Buffer} {x : Buffer × Machine}
    (h : codes.token input pos = .done (.copy length distance) next) (hd : distance ≤ out.length)
    (hb : b.contents = ⟨out.toArray⟩)
    (hx : Rounds growth input (b, ⟨pos, .coded final codes⟩) x) (hnext : x.2.position = next) :
    x.2.phase.owed ≤ length ∧
      x.1.contents = ⟨(out ++ repeatBack out distance (length - x.2.phase.owed)).toArray⟩ := by
  have hconf : b.configuration ⟨pos, .coded final codes⟩ = ⟨out, ⟨pos, .coded final codes⟩⟩ :=
    Buffer.configuration_eq_iff.mpr ⟨hb, rfl⟩
  obtain ⟨hr, -⟩ := Rounds.reaches hx trivial
  rw [hconf] at hr
  obtain ⟨hle, hout⟩ := hr.output_eq_of_copy h hd hnext
  have hcontents := (Buffer.configuration_eq_iff (b := x.1) (m := x.2).mp rfl).1
  rw [hout] at hcontents
  exact ⟨hle, hcontents⟩

/-- **A copy repeats the bytes before it**: where a copy is read after the output `out`, and
it starts at a byte of `out`, the last `distance` bytes of `out` are appended over and over
again, `length` bytes in all, and `out` itself is unchanged. So it is in every buffer,
whatever its size and growth: wherever the decode is interrupted for more room, the bytes of
the copy are there that it does not owe any more, and it goes on to the whole copy. A copy
that starts before `out` is refused, and nothing is appended. Two copies from the same
distance do the same as one that is as long as both. -/
theorem runGrowing_copy (h : codes.token input pos = .done (.copy length distance) next)
    (final : Bool) (out : List UInt8) :
    let before : Configuration := ⟨out, ⟨pos, .coded final codes⟩⟩
    let copied := out ++ repeatBack out distance length
    1 ≤ distance ∧
    (distance ≤ out.length →
      copyBack out distance length = copied ∧
      (∀ k < length, copied[out.length + k]? = out[out.length - distance + k % distance]?) ∧
      LeadsTo input before ⟨copied, ⟨next, .coded final codes⟩⟩ ∧
      (∀ (growth : Growth) (b : Buffer) (x : Buffer × Machine), b.contents = ⟨out.toArray⟩ →
        Rounds growth input (b, before.machine) x → x.2.position = next →
        x.2.phase.owed ≤ length ∧
          x.1.contents =
            ⟨(out ++ repeatBack out distance (length - x.2.phase.owed)).toArray⟩) ∧
      (Reaches input .start before →
        ∀ (inflater : Inflater) (target result : ByteArray) (outcome : Outcome),
          (inflater.inflate input target).2 = (result, .ok outcome) →
          ∃ more, result = target ++ ⟨(copied ++ more).toArray⟩)) ∧
    (out.length < distance →
      Refuses input before next ∧
      (Reaches input .start before → ∀ (inflater : Inflater) (target : ByteArray),
        (inflater.inflate input target).2 =
          (target, .error (.corrupt (bytesBefore next) DecodeError.badItem)))) ∧
    ∀ (input' : ByteArray) (codes' : BlockCodes) (final' : Bool)
      (pos' mid' next' first second : ℕ), first + second = length →
      codes'.token input' pos' = .done (.copy first distance) mid' →
      codes'.token input' mid' = .done (.copy second distance) next' →
      (distance ≤ out.length →
        LeadsTo input' ⟨out, ⟨pos', .coded final' codes'⟩⟩
          ⟨copied, ⟨next', .coded final' codes'⟩⟩) ∧
      (out.length < distance → Refuses input' ⟨out, ⟨pos', .coded final' codes'⟩⟩ mid') := by
  intro before copied
  have h1 : 1 ≤ distance := (BlockCodes.token_eq_copy h).2.2.1
  refine ⟨h1, fun hd => ⟨copyBack_eq h1 hd length, fun k hk => ?_,
    (reaches_repeatBack h hd).leadsTo trivial,
    fun growth b x hb hx hnext => Rounds.contents_of_copy h hd hb hx hnext, ?_⟩,
    fun hd => ⟨(ends_far h hd).refuses, ?_⟩, ?_⟩
  · rw [List.getElem?_append_right (Nat.le_add_right _ _), Nat.add_sub_cancel_left]
    exact getElem?_repeatBack h1 hd hk
  · intro hr inflater target result outcome hok
    obtain ⟨decoded, hdecode, rfl⟩ := Inflater.inflate_eq_ok_iff.mp hok
    have hcopied : Reaches input .start _ := hr.trans (reaches_repeatBack h hd)
    obtain ⟨more, rfl⟩ := hcopied.exists_append_of_decode hdecode
    exact ⟨more, rfl⟩
  · intro hr inflater target
    exact Inflater.inflate_eq_error_iff.mpr ⟨decode_eq_of_reaches hr (ends_far h hd), rfl⟩
  · rintro input' codes' final' pos' mid' next' first second rfl hfirst hsecond
    exact ⟨fun hd => (reaches_twoCopies hfirst hsecond hd).leadsTo trivial,
      fun hd => (ends_far hfirst hd).refuses⟩

end Copy

/-- Two stored bytes and a literal byte, of the stream with blocks of all kinds. -/
def threeOfMixed : Progress where
  earlier := [.stored [true, false, true, true, true] [104, 105]]
  current := .coded false .fixed [.literal (.regular 200)]

/-- The same three bytes, and two copies from the same distance. -/
def twoCopies : Stream where
  earlier := [.stored [true, false, true, true, true] [104, 105]]
  last := .coded .fixed [.literal (.regular 200), .copy (.regular 284) 28 (.regular 1) 0,
    .copy (.regular 257) 0 (.regular 1) 0]

/-- The stream with two copies in 14 bytes. -/
def twoCopiesBytes : ByteArray :=
  pack (twoCopies.bits ++ List.replicate 7 false)

/-- A buffer of five bytes with three bytes of output. -/
def fiveBytes : Buffer where
  bytes := ⟨#[104, 105, 200, 0, 0]⟩
  filled := 3
  filled_le := by decide

lemma token_mixedBytes : BlockCodes.fixed.token mixedBytes 68 = .done (.copy 258 2) 86 := by
  decide +kernel

lemma token_threeBytesAndCopy :
    BlockCodes.fixed.token threeBytesAndCopy 67 = .done (.copy 3 4) 79 := by
  decide +kernel

lemma token_twoCopiesBytes :
    BlockCodes.fixed.token twoCopiesBytes 68 = .done (.copy 255 2) 86 ∧
      BlockCodes.fixed.token twoCopiesBytes 86 = .done (.copy 3 2) 98 := by
  decide +kernel

/-- The front of a stream in the codes that every decoder knows is read where it is held. -/
lemma Progress.reaches_fixed {input : ByteArray} {p : Progress} {final : Bool}
    {phrases : List Phrase} (hl : p.Legal) (hp : p.current = .coded final .fixed phrases)
    (hh : Holds input 0 p.bits) :
    Reaches input .start ⟨p.output, ⟨p.bits.length, .coded final .fixed⟩⟩ := by
  have hr := reaches_progress ⟨hl, ⟨hh, rfl⟩, rfl⟩
  rw [hp, Current.phase, Coding.codes_fixed, Nat.zero_add] at hr
  exact hr

lemma reaches_threeOfMixed :
    Reaches mixedBytes .start ⟨[104, 105, 200], ⟨68, .coded false .fixed⟩⟩ := by
  have hfront : threeOfMixed.bits <+: mixedStream.bits := by decide +kernel
  have hlen : threeOfMixed.bits.length = 68 := by decide +kernel
  have hr := Progress.reaches_fixed (p := threeOfMixed) (by decide +kernel) rfl
    (hfront.trans holds_mixedBytes)
  rw [hlen] at hr
  exact hr

lemma reaches_beforeFarCopy :
    Reaches threeBytesAndCopy .start ⟨threeBytes.output, ⟨67, .coded true .fixed⟩⟩ := by
  have hlen : threeBytes.bits.length = 67 := by decide +kernel
  have hr := Progress.reaches_fixed (p := threeBytes) (by decide +kernel) rfl
    (Holds.append_iff.mp holds_threeBytesAndCopy).1
  rw [hlen] at hr
  exact hr

/-- The buffer has room for two bytes of the copy. -/
lemma run_fiveBytes :
    ∃ b, run mixedBytes fiveBytes ⟨68, .coded false .fixed⟩ =
      ⟨b, ⟨86, .copying false .fixed 2 256⟩, none⟩ := by
  have hs : Machine.step mixedBytes fiveBytes.filled ⟨68, .coded false .fixed⟩ =
      .move ⟨86, .copying false .fixed 2 258⟩ := by
    simp only [Machine.step, Machine.tokenStep, token_mixedBytes]
    rfl
  have hfirst : fiveBytes.HasRoom := by decide
  have hsecond : (fiveBytes.put (fiveBytes.resolve (.back 2)) hfirst).HasRoom :=
    Buffer.hasRoom_put.mpr (by decide)
  have hfull : ∀ byte, ¬(Buffer.put _ byte hsecond).HasRoom := by
    intro byte
    rw [Buffer.hasRoom_put, Buffer.size_put]
    exact Nat.lt_irrefl 5
  rw [run_of_move hs, run_of_emit rfl hfirst, run_of_emit rfl hsecond, run_of_full rfl (hfull _)]
  exact ⟨_, rfl⟩

/-- In a buffer with room for two bytes of a copy the decode is interrupted after them and
goes on to all of the copy; a copy from four bytes before is refused after three bytes of
output; and two copies do what one does. -/
theorem runGrowing_copy_fiveBytes :
    BlockCodes.fixed.token mixedBytes 68 = .done (.copy 258 2) 86 ∧
      LeadsTo mixedBytes ⟨[104, 105, 200], ⟨68, .coded false .fixed⟩⟩
        ⟨[104, 105, 200] ++ repeatBack [104, 105, 200] 2 258, ⟨86, .coded false .fixed⟩⟩ ∧
      (∃ x, Rounds .byOne mixedBytes (fiveBytes, ⟨68, .coded false .fixed⟩) x ∧
        x.2.phase.owed = 256 ∧ x.1.contents = ⟨#[104, 105, 200, 105, 200]⟩) ∧
      (∃ more : List UInt8, .empty ++ ⟨mixedStream.output.toArray⟩ =
        ByteArray.empty ++
          ⟨([104, 105, 200] ++ repeatBack [104, 105, 200] 2 258 ++ more).toArray⟩) ∧
      BlockCodes.fixed.token threeBytesAndCopy 67 = .done (.copy 3 4) 79 ∧
      Refuses threeBytesAndCopy ⟨threeBytes.output, ⟨67, .coded true .fixed⟩⟩ 79 ∧
      (Inflater.fresh.inflate threeBytesAndCopy ⟨#[1]⟩).2 =
        (⟨#[1]⟩, .error (.corrupt 10 DecodeError.badItem)) ∧
      BlockCodes.fixed.token twoCopiesBytes 68 = .done (.copy 255 2) 86 ∧
      BlockCodes.fixed.token twoCopiesBytes 86 = .done (.copy 3 2) 98 ∧
      LeadsTo twoCopiesBytes ⟨[104, 105, 200], ⟨68, .coded true .fixed⟩⟩
        ⟨[104, 105, 200] ++ repeatBack [104, 105, 200] 2 258, ⟨98, .coded true .fixed⟩⟩ := by
  obtain ⟨-, hnear, -, htwo⟩ := runGrowing_copy token_mixedBytes false [104, 105, 200]
  obtain ⟨-, -, hleads, hinterrupted, hresult⟩ := hnear (by decide)
  obtain ⟨-, -, hfar, -⟩ := runGrowing_copy token_threeBytesAndCopy true threeBytes.output
  obtain ⟨hrefuses, hcorrupt⟩ := hfar (by decide +kernel)
  obtain ⟨hfirst, hsecond⟩ := token_twoCopiesBytes
  obtain ⟨b, hb⟩ := run_fiveBytes
  refine ⟨token_mixedBytes, hleads, ?_, ?_, token_threeBytesAndCopy, hrefuses, ?_, hfirst,
    hsecond, (htwo _ _ true _ _ _ 255 3 rfl hfirst hsecond).1 (by decide)⟩
  · have hround : Rounds .byOne mixedBytes (fiveBytes, _) _ := .single (.intro hb)
    exact ⟨_, hround, rfl, (hinterrupted .byOne fiveBytes _ rfl hround rfl).2⟩
  · exact hresult reaches_threeOfMixed _ _ _ _ inflate_mixedBytes
  · exact hcorrupt reaches_beforeFarCopy .fresh ⟨#[1]⟩

end Deflate
