import Cheviot.Ext2.Ops
import Cheviot.Ext2.Write

/-!
# Reading from a file: `read_file`

`read_file` sends the client a file in chunks that lie in one block each. A chunk
is cut at the end of its block, at the end of the file and at the number of bytes
of the request, not at the number of bytes that are still to be sent.

* `readChunk_eq` — a chunk within a block has the bytes of the file, zeros in a
  hole.
* `ReadEnd` — how many bytes the loop still sends from a position on, and
  `ReadEnd.chunk`, one chunk of them.
* `readFile_content_iff` — the client gets the part of the file it asked for and
  nothing past it if and only if the request lies in one block, reaches the end
  of the file or ends at the end of a block.
-/

namespace Cheviot.Ext2

open Cheviot.Bytes

variable {v : Volume} {s : Fs} {n i nbytes room : Nat}

/-- A chunk that lies in one block has the bytes of the file. -/
theorem readChunk_eq (v : Volume) (s : Fs) (i : Nat) {position chunk : Nat} (msgOff room : Nat)
    (hbs : 0 < v.blockSize) (hpos : position + chunk ≤ 2 ^ 32)
    (hfit : position % v.blockSize + chunk ≤ v.blockSize) :
    readChunk v s i position (position % v.blockSize) chunk msgOff room =
      if room < msgOff + chunk then .error .eio
      else .ok (getBytes (byteAt v s.blk (s.slot i).odi) position chunk) := by
  have hbytes : (if readMapEntry v s.blk (s.slot i).odi position = noBlock
        then List.replicate chunk 0
        else getBytes (s.blk (readMapEntry v s.blk (s.slot i).odi position))
          (position % v.blockSize) chunk) =
      getBytes (byteAt v s.blk (s.slot i).odi) position chunk := by
    unfold getBytes
    -- every position of the chunk has the block of the first one
    have hbyte : ∀ k ∈ List.range chunk, byteAt v s.blk (s.slot i).odi (position + k) =
        if readMapEntry v s.blk (s.slot i).odi position = noBlock then 0
        else s.blk (readMapEntry v s.blk (s.slot i).odi position)
          (position % v.blockSize + k) := by
      intro k hk
      have hk := List.mem_range.mp hk
      have hdecomp : position + k =
          position % v.blockSize + k + v.blockSize * (position / v.blockSize) := by
        have := Nat.div_add_mod position v.blockSize
        omega
      have hdiv : (position + k) / v.blockSize = position / v.blockSize := by
        rw [hdecomp, Nat.add_mul_div_left _ _ hbs, Nat.div_eq_of_lt (by omega), Nat.zero_add]
      have hmod : (position + k) % v.blockSize = position % v.blockSize + k := by
        rw [hdecomp, Nat.add_mul_mod_self_left, Nat.mod_eq_of_lt (by omega)]
      have hcalc := calc_congr (v := v) (by omega) (by omega) hdiv
      have hread : readMapEntry v s.blk (s.slot i).odi (position + k) =
          readMapEntry v s.blk (s.slot i).odi position := by
        rw [readMapEntry, readMapEntry, hcalc]
      rw [byteAt, hread, hmod]
    rw [List.map_congr_left hbyte]
    split
    · rw [List.map_const', List.length_range]
    · rfl
  unfold readChunk
  simp only [hbytes]

/-! ## How far the loop goes -/

/-- The bytes still to be sent are cut at the right place: in the block of the
first chunk, at the end of the file or at the end of a block. -/
def CutRight (bs size nbytes position t : Nat) : Prop :=
  t = 0 ∧ position % bs + nbytes ≤ bs ∨ t = nbytes ∨ size ≤ position + (nbytes - t) ∨
    (position + (nbytes - t)) % bs = 0

/-- From `position` on, with `t` bytes sent, the loop sends `total` bytes. -/
structure ReadEnd (bs size nbytes position t total : Nat) : Prop where
  inside : total = 0 ∨ position + total ≤ size
  done : nbytes ≤ t + total ∨ size ≤ position + total
  cut_iff : t = 0 ∨ nbytes ≤ t ∨ position % bs = 0 ∨ size ≤ position →
    (t + total ≤ nbytes ↔ t ≤ nbytes ∧ CutRight bs size nbytes position t)

/-- Nothing is left to send. -/
theorem ReadEnd.stop {bs size nbytes position t : Nat} (hend : nbytes ≤ t ∨ size ≤ position) :
    ReadEnd bs size nbytes position t 0 := by
  refine ⟨.inl rfl, by omega, fun _ => ?_⟩
  unfold CutRight
  omega

/-- A chunk that is not too long leaves the end of the request where it was. -/
theorem cutRight_chunk {bs size nbytes position t c : Nat} (hover : t + c ≤ nbytes)
    (hends : c = bs - position % bs ∨ position + c = size ∨ c = nbytes)
    (hblock : c = bs - position % bs → (position + c) % bs = 0) (hpos : 0 < c)
    (hfit : position % bs + c ≤ bs) :
    CutRight bs size nbytes (position + c) (t + c) ↔ CutRight bs size nbytes position t := by
  unfold CutRight
  rw [show position + c + (nbytes - (t + c)) = position + (nbytes - t) by omega]
  by_cases hlast : t + c = nbytes
  · refine iff_of_true (.inr (.inl hlast)) ?_
    rw [show position + (nbytes - t) = position + c by omega]
    rcases hends with hcb | hcs | hcn
    · exact .inr (.inr (.inr (hblock hcb)))
    · exact .inr (.inr (.inl (Nat.le_of_eq hcs.symm)))
    · exact .inl ⟨by omega, by omega⟩
  · have hnot : ¬ (t + c = 0 ∧ (position + c) % bs + nbytes ≤ bs) := by omega
    have hnot' : t ≠ nbytes := by omega
    rw [or_iff_right hnot, or_iff_right hlast]
    by_cases hone : t = 0 ∧ position % bs + nbytes ≤ bs
    · exact iff_of_true (.inl (by omega)) (.inl hone)
    · rw [or_iff_right hone, or_iff_right hnot']

/-- A chunk, and what is left after it. -/
theorem ReadEnd.chunk {bs size nbytes position t c total : Nat} (hbs : 0 < bs)
    (ht : t < nbytes) (hpos : position < size)
    (hc : c = min (min (bs - position % bs) nbytes) (size - position))
    (h : ReadEnd bs size nbytes (position + c) (t + c) total) :
    ReadEnd bs size nbytes position t (c + total) := by
  have hoff := Nat.mod_lt position hbs
  have hdecomp := Nat.div_add_mod position bs
  have hbounds : 0 < c ∧ c ≤ nbytes ∧ position + c ≤ size ∧ c ≤ bs - position % bs := by omega
  -- a chunk ends with its block, with the file or with the request
  have hends : c = bs - position % bs ∨ position + c = size ∨ c = nbytes := by omega
  clear hc
  obtain ⟨hpos0, hle, hfile, hfit⟩ := hbounds
  have hblock : c = bs - position % bs → (position + c) % bs = 0 := by
    intro he
    rw [show position + c = bs * (position / bs + 1) by rw [Nat.mul_succ]; omega,
      Nat.mul_mod_right]
  have hnext : t + c = 0 ∨ nbytes ≤ t + c ∨ (position + c) % bs = 0 ∨ size ≤ position + c := by
    rcases hends with hcb | hcs | hcn
    · exact .inr (.inr (.inl (hblock hcb)))
    · exact .inr (.inr (.inr (Nat.le_of_eq hcs.symm)))
    · exact .inr (.inl (by omega))
  have hinside := h.inside
  have hdone := h.done
  have hcut := h.cut_iff hnext
  refine ⟨by omega, by omega, fun hstart => ?_⟩
  rw [← Nat.add_assoc, hcut]
  clear hcut hinside hdone
  by_cases hover : t + c ≤ nbytes
  · exact and_congr (iff_of_true hover (Nat.le_of_lt ht))
      (cutRight_chunk hover hends hblock (by omega) (by omega))
  · -- a later chunk that is too long begins with its block
    have hmod : position % bs = 0 := by omega
    have hpast : (position + (nbytes - t)) % bs = nbytes - t := by
      rw [Nat.add_mod, hmod, Nat.zero_add, Nat.mod_mod, Nat.mod_eq_of_lt (by omega)]
    refine iff_of_false (fun hc => hover hc.1) fun ⟨_, hc⟩ => ?_
    unfold CutRight at hc
    rw [hpast] at hc
    omega

/-- The loop of `read_file` sends the bytes of the file from its position on, unless
the client has no room for them. -/
theorem readLoop_spec (hbs : 0 < v.blockSize) (fuel : Nat) :
    ∀ position sent, nbytes - sent.length < fuel →
      readLoop v s i nbytes room fuel position sent = .ok (.error .eio) ∨
      ∃ total, readLoop v s i nbytes room fuel position sent =
          .ok (.ok (sent ++ getBytes (byteAt v s.blk (s.slot i).odi) position total)) ∧
        ReadEnd v.blockSize (s.slot i).odi.size.toNat nbytes position sent.length total := by
  induction fuel with
  | zero => exact fun _ _ h => absurd h (Nat.not_lt_zero _)
  | succ fuel ih =>
    intro position sent hfuel
    -- where it stops, nothing is added to what has been sent
    have hstop : ∀ r : Except Fault (Except Errno (List UInt8)), r = .ok (.ok sent) →
        (nbytes ≤ sent.length ∨ (s.slot i).odi.size.toNat ≤ position) →
        ∃ total, r =
          .ok (.ok (sent ++ getBytes (byteAt v s.blk (s.slot i).odi) position total)) ∧
          ReadEnd v.blockSize (s.slot i).odi.size.toNat nbytes position sent.length total := by
      intro r hr hend
      refine ⟨0, ?_, .stop hend⟩
      rw [hr, show getBytes (byteAt v s.blk (s.slot i).odi) position 0 = [] from rfl,
        List.append_nil]
    unfold readLoop
    by_cases hmore : sent.length < nbytes
    · rw [if_pos hmore]
      simp only
      by_cases hpast : (s.slot i).odi.size.toNat ≤ position
      · rw [if_pos hpast]
        exact .inr (hstop _ rfl (.inr hpast))
      · rw [if_neg hpast]
        have hsize := (s.slot i).odi.size.toNat_lt
        have hoff := Nat.mod_lt position hbs
        -- one chunk: not over the end of a block, of the request, or of the file
        generalize hc : min (min (v.blockSize - position % v.blockSize) nbytes)
          ((s.slot i).odi.size.toNat - position) = c
        rw [readChunk_eq v s i sent.length room hbs (by omega) (by omega)]
        by_cases hroom : room < sent.length + c
        · rw [if_pos hroom]
          exact .inl rfl
        · rw [if_neg hroom]
          simp only
          have hlen : (sent ++ getBytes (byteAt v s.blk (s.slot i).odi) position c).length =
              sent.length + c := by
            rw [List.length_append, getBytes_length]
          rcases ih (position + c)
            (sent ++ getBytes (byteAt v s.blk (s.slot i).odi) position c) (by omega) with
            herr | ⟨total, hrun, hend⟩
          · exact .inl herr
          · refine .inr ⟨c + total, ?_, ?_⟩
            · rw [hrun, List.append_assoc, getBytes_append]
            · rw [hlen] at hend
              exact .chunk hbs hmore (by omega) hc.symm hend
    · rw [if_neg hmore]
      exact .inr (hstop _ rfl (.inl (by omega)))

/-! ## `read_file` -/

/-- `read_file` sends the part of the file that was asked for, up to the end of the
file, and nothing else. -/
def ReadsFile (v : Volume) (s : Fs) (n i nbytes position room : Nat) : Prop :=
  ∃ s', readFile v s n nbytes position room = .ok (s', .ok
    (getBytes (byteAt v s.blk (s.slot i).odi) position
      (min nbytes ((s.slot i).odi.size.toNat - position))))

/-- With all its messages sent, `read_file` sends the part of the file it is asked
for if and only if that is in one block, or reaches the end of the file, or ends at
the end of a block. -/
theorem readFile_content_iff (hbs : 0 < v.blockSize) (hfind : findInode s n = .ok (some i))
    {position : Nat}
    (hsent : ∀ s' e, readFile v s n nbytes position room ≠ .ok (s', .error e)) :
    ReadsFile v s n i nbytes position room ↔
      position % v.blockSize + nbytes ≤ v.blockSize ∨
      (s.slot i).odi.size.toNat ≤ position + nbytes ∨
      (position + nbytes) % v.blockSize = 0 := by
  unfold ReadsFile
  rcases readLoop_spec hbs (nbytes + 1) position [] (Nat.lt_succ_self _) with
    herr | ⟨total, hloop, hend⟩
  · refine absurd ?_ (hsent s .eio)
    unfold readFile
    rw [bind_of_ok hfind]
    dsimp only
    rw [bind_of_ok herr]
    rfl
  · have hcut := hend.cut_iff (.inl rfl)
    have hinside := hend.inside
    have hdone := hend.done
    unfold CutRight at hcut
    simp only [List.length_nil, List.nil_append, Nat.zero_add, Nat.sub_zero, Nat.zero_le, true_and]
      at hcut hdone hloop
    have hres : readFile v s n nbytes position room =
        .ok (markAtime s i, .ok (getBytes (byteAt v s.blk (s.slot i).odi) position total)) := by
      unfold readFile
      rw [bind_of_ok hfind]
      dsimp only
      rw [bind_of_ok hloop]
      rfl
    -- a list of bytes of the right length is the right one
    have hlen : (∃ s', readFile v s n nbytes position room = .ok (s', .ok
        (getBytes (byteAt v s.blk (s.slot i).odi) position
          (min nbytes ((s.slot i).odi.size.toNat - position))))) ↔
        total = min nbytes ((s.slot i).odi.size.toNat - position) := by
      rw [hres]
      constructor
      · intro h
        obtain ⟨s', h⟩ := h
        injection h with h
        injection h with _ h
        injection h with h
        have := congrArg List.length h
        rwa [getBytes_length, getBytes_length] at this
      · intro h
        exact ⟨markAtime s i, by rw [← h]⟩
    rw [hlen]
    have hoff := Nat.mod_lt position hbs
    omega

/-- The new file with 1030 bytes, none of which has been written. -/
def sampleSparseFs : Fs :=
  sampleFileFs.modOdi 0 fun odi => { odi with size := 1030 }

/-- `readFile_content_iff` at two bytes in front of the end of the first block. -/
theorem readFile_content_iff_sample : ReadsFile sampleVolume sampleSparseFs 12 0 2 1022 2 := by
  have hreply : (readFile sampleVolume sampleSparseFs 12 2 1022 2).toOption.map
      (fun r => r.2.toOption) = some (some [0, 0]) := by decide
  refine (readFile_content_iff (by decide) (by decide) fun s' e he => ?_).mpr (by decide)
  rw [he] at hreply
  cases hreply

/-- Two bytes over the end of the first block: three are sent. -/
theorem readFile_overrun : ¬ ReadsFile sampleVolume sampleSparseFs 12 0 2 1023 4 := by
  intro ⟨s', h⟩
  have hreply : (readFile sampleVolume sampleSparseFs 12 2 1023 4).toOption.map
      (fun r => r.2.toOption.map List.length) = some (some 3) := by decide
  rw [h] at hreply
  have hlen := Option.some.inj (Option.some.inj hreply)
  rw [getBytes_length] at hlen
  exact absurd hlen (by decide)

end Cheviot.Ext2
