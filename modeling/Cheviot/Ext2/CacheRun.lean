import Cheviot.Ext2.Trace

/-!
# The inode cache between requests

A request is a sequence of calls from no reference to no reference (`Trace`), and each kind of
call keeps the lists in order. The induction is on the requests of the run.

* `Reached.lists` — whatever a run of requests has done, the lists of the cache
  are in order and no reference is left.
* `inodeCache_settled` — so every slot is on the unused list and in its bucket
  where it should be, and the handlers never need what `get_inode` does without a
  slot to recycle, or `put_inode` without a reference.
-/

namespace Cheviot.Ext2

open Cheviot.Run

/-- Every slot is free: it is once on the unused list, once in the bucket of its
inode number if it has one, and in no other; no two have the same number. -/
structure CacheSettled (s : Fs) : Prop where
  count : ∀ i, i < nrInodes → (s.slot i).count = 0
  unused : ∀ i, i < nrInodes → s.unused.count i = 1
  hash : ∀ i, i < nrInodes → ∀ h, (s.hash h).count i =
    if (s.slot i).ino ≠ noEntry ∧ h = (s.slot i).ino % inodeHashSize then 1 else 0
  ino_inj : ∀ i j, i < nrInodes → j < nrInodes → (s.slot i).ino = (s.slot j).ino →
    (s.slot i).ino ≠ noEntry → i = j

/-- An inode number that a message may carry. -/
def OnDevice (v : Volume) (n : Nat) : Prop := 1 ≤ n ∧ n ≤ v.inodesCount

/-- All numbers in the message are those of inodes. -/
def NamesInodes (v : Volume) (_ : Fs) (_ : Env) (req : Request) : Prop :=
  ∀ n ∈ req.inos, OnDevice v n

variable {v : Volume} {s s₀ : Fs}

/-- A message may name any inode number of the volume, and any name. -/
def deviceArgs (v : Volume) : Args := ⟨OnDevice v, fun _ _ => True⟩

theorem deviceArgs_ok (hcount : v.inodesCount < 2 ^ 31) : ArgsOk (deviceArgs v) := by
  rintro n ⟨hlo, hhi⟩
  exact ⟨Nat.pos_iff_ne_zero.mp hlo, by omega⟩

theorem inodeCalls_agrees (v : Volume) (env : Env) : (inodeCalls v env).Agrees v env :=
  ⟨fun _ _ _ _ h => h, fun _ _ _ => rfl⟩

/-- No request leaves a reference behind. -/
theorem Reached.lists (hcount : v.inodesCount < 2 ^ 31) (hl : ListsOk s₀ [])
    (h : Reached v (NamesInodes v) s₀ s) : ListsOk s [] := by
  induction h with
  | start => exact hl
  | @step s s' env req reply _ hok hrun ih =>
    have harg := deviceArgs_ok hcount
    have hcalls := (inodeCalls_agrees v env).from (fun n hn => (harg n hn).1) ih
    exact (handle_follows ih hcalls harg hok (fun _ _ => trivial) _ hrun).2.1

theorem ListsOk.settled (hl : ListsOk s []) : CacheSettled s where
  count i hi := hl.count_eq i hi
  unused i hi := by
    have hmem : i ∈ s.unused := (hl.unused_mem i).mpr ⟨hi, hl.count_eq i hi⟩
    exact List.count_eq_one_of_mem hl.unused_nodup hmem
  hash i hi h := by
    split
    next hin =>
      have hmem : i ∈ s.hash h := (hl.hash_mem h i).mpr ⟨hi, hin.1, hin.2.symm⟩
      exact List.count_eq_one_of_mem (hl.hash_nodup h) hmem
    next hout =>
      refine List.count_eq_zero.mpr fun hmem => hout ?_
      have hin := (hl.hash_mem h i).mp hmem
      exact ⟨hin.2.1, hin.2.2.symm⟩
  ino_inj := hl.ino_inj

/-- After any run of requests the cache is settled, and the next request is handled
the same by any calls that agree with `get_inode` and `put_inode` except where
these have no slot or no reference left. -/
theorem inodeCache_settled (hcount : v.inodesCount < 2 ^ 31)
    (h : Reached v (NamesInodes v) (initInodeCache s₀) s) :
    CacheSettled s ∧
      ∀ env req, NamesInodes v s env req → ∀ r, handle (inodeCalls v env) v env s req = .ok r →
        CacheSettled r.1 ∧ ∀ c : InodeCalls, c.Agrees v env → handle c v env s req = .ok r := by
  have hl := h.lists hcount (initInodeCache_lists s₀)
  refine ⟨hl.settled, fun env req hok r hrun => ⟨?_, fun c hc => ?_⟩⟩
  · exact ((h.step hok hrun).lists hcount (initInodeCache_lists s₀)).settled
  · have harg := deviceArgs_ok hcount
    have hcalls := hc.from (fun n hn => (harg n hn).1) hl
    exact (handle_follows hl hcalls harg hok (fun _ _ => trivial) r hrun).1

/-- Making a node on the small volume, and what holds after it. -/
theorem inodeCache_settled_sample :
    ∃ s reply, handle (inodeCalls sampleVolume sampleEnv) sampleVolume sampleEnv
        (initInodeCache sampleFs) (.mknod rootIno [0x61] 0x81A4 0 0) = .ok (s, reply) ∧
      CacheSettled s := by
  have hok : (handle (inodeCalls sampleVolume sampleEnv) sampleVolume sampleEnv
      (initInodeCache sampleFs) (.mknod rootIno [0x61] 0x81A4 0 0)).isOk = true := by decide
  generalize hrun : handle (inodeCalls sampleVolume sampleEnv) sampleVolume sampleEnv
    (initInodeCache sampleFs) (.mknod rootIno [0x61] 0x81A4 0 0) = r at hok
  match r with
  | .error e => cases hok
  | .ok (s, reply) =>
    have hnames : NamesInodes sampleVolume (initInodeCache sampleFs) sampleEnv
        (.mknod rootIno [0x61] 0x81A4 0 0) := by
      intro n hn
      rw [List.mem_singleton.mp hn]
      exact ⟨by decide, by decide⟩
    exact ⟨s, reply, rfl, (inodeCache_settled (by decide) (.step .start hnames hrun)).1⟩

end Cheviot.Ext2
