import Sage040.Fs.Journal.Jbd
import Sage040.Fs.Journal.Stages

/-!
# Stopping the machine anywhere

The machine runs operations of the filesystem, may be stopped after any of the device writes of an
operation or of a mount, and is mounted again. Along such a run we keep a *history*: the writes
that went home outside any transaction, and the transactions that were attempted, each with whether
its commit block reached the device and whether `journal_commit` returned.

The invariant of a run is that mounting replays the log to exactly the home contents the history
calls for: every committed transaction whole, every other one not at all. `mount_again` is what
follows for the log itself: whatever the run, after a mount nothing is left to replay.
-/

namespace Sage040.Ext2

open List

/-! ## Histories -/

/-- What happened to the home blocks, oldest first. -/
inductive Entry
  /-- A write outside any transaction: file contents, or the mark that the volume is in use. -/
  | direct (w : Nat × Block)
  /-- A transaction: its blocks, whether its commit block reached the device, and whether
  `journal_commit` returned. -/
  | txn (ws : List (Nat × Block)) (committed returned : Bool)

/-- The writes an entry stands for: all of a committed transaction, none of another. -/
def Entry.writes : Entry → List (Nat × Block)
  | direct w => [w]
  | txn ws committed _ => if committed then ws else []

def homeOf (d0 : Disk) (hist : List Entry) : Disk := applyWrites (hist.flatMap Entry.writes) d0

lemma homeOf_append (d0 : Disk) (hist es : List Entry) :
    homeOf d0 (hist ++ es) = applyWrites (es.flatMap Entry.writes) (homeOf d0 hist) := by
  rw [homeOf, flatMap_append, applyWrites_append, homeOf]

lemma flatMap_direct (ws : List (Nat × Block)) :
    (ws.map Entry.direct).flatMap Entry.writes = ws := by
  induction ws with
  | nil => rfl
  | cons w ws ih => simpa [Entry.writes] using ih

variable {d0 : Disk} {ws : List (Nat × Block)} {hist : List Entry} {op : Op} {n : Nat} {q : Nat}

variable {b k now m' : Nat} {r : Bool} {grant : Nat → Bool}

/-! ## The entries of an operation -/

/-- The commit block is the commit's write of this number. -/
def commitPoint (v : Volume) (s : State) : Nat := (dataWrites s).length + ((txnOf v s).length + 3)

/-- The history of a commit of which the device took `k` writes. -/
def commitEntries (v : Volume) (s : State) (k : Nat) (returned : Bool) : List Entry :=
  ((dataWrites s).take k).map Entry.direct ++ if (txnOf v s).isEmpty then []
    else [.txn (txnOf v s) (decide (commitPoint v s ≤ k)) returned]

namespace Op

/-- The operation commits: it is a commit, or there is no other way to a buffer. -/
def commits (v : Volume) (s : State) : Op → Bool
  | read blk | dirty _ _ blk _ =>
    decide (blk < v.blocksCount) && (cached s blk).isNone && (victim s).isNone
  | commit => true
  | _ => false

def cost (v : Volume) (s : State) (op : Op) : Nat := if op.commits v s then 1 else 0

/-- The history of an operation of which the device took `k` writes. -/
def entries (v : Volume) (now : Nat) (s : State) (op : Op) (k : Nat) (returned : Bool) :
    List Entry :=
  if op.commits v s then commitEntries v s k returned
  else ((op.writes v now s).take k).map Entry.direct

end Op

/-! ## Runs -/

/-- A mount, as far as the journal is concerned: the superblock is read, the log replayed, and the
superblock read again if that changed anything. -/
def mountJournal (v : Volume) (grant : Nat → Bool) : M Nat := do
  sbRead v
  let replayed ← journalRecover v grant
  modify fun s => { s with journalOn := true, txnOpen := false }
  if replayed ≠ 0 then sbRead v
  return replayed

/-- The machine: running on a mounted volume, or stopped with what is on the disk. -/
inductive Machine
  | up (s : State)
  | down (d : Disk)

def Machine.disk : Machine → Disk
  | up s => s.disk
  | down d => d

/-- One step of the machine and its history, with the number of commits in it. -/
inductive Step (v : Volume) : Nat → Machine × List Entry → Machine × List Entry → Prop
  /-- An operation of the filesystem. -/
  | op {s s' : State} {hist : List Entry} (op : Op) (now jiffies : Nat) (hs : op.Sound v)
      (hrun : (op.run v now jiffies).run s = .ok () s') :
      Step v (op.cost v s) (.up s, hist)
        (.up s', hist ++ op.entries v now s (op.writes v now s).length true)
  /-- The machine stops after `k` of the device writes of an operation. -/
  | stopOp {s s' : State} {hist : List Entry} {ws : List (Nat × Block)} (op : Op)
      (now jiffies k : Nat) (hs : op.Sound v) (hrun : (op.run v now jiffies).run s = .ok () s')
      (hws : s'.written = s.written ++ ws) :
      Step v (op.cost v s) (.up s, hist)
        (.down (applyWrites (ws.take k) s.disk), hist ++ op.entries v now s k false)
  /-- The volume is mounted. -/
  | mount {m : Machine} {hist : List Entry} {n : Nat} {s' : State} (grant : Nat → Bool)
      (hrun : (mountJournal v grant).run (State.boot m.disk) = .ok n s') :
      Step v 0 (m, hist) (.up s', hist)
  /-- The machine stops after `k` of the device writes of a mount. -/
  | stopMount {m : Machine} {hist : List Entry} {n : Nat} {s' : State} (grant : Nat → Bool)
      (k : Nat) (hrun : (mountJournal v grant).run (State.boot m.disk) = .ok n s') :
      Step v 0 (m, hist) (.down (applyWrites (s'.written.take k) m.disk), hist)

/-- Runs with `n` commits, complete or interrupted, and any number of other steps, from a stopped
machine with the disk `d0`. -/
inductive Run (v : Volume) (d0 : Disk) : Nat → Machine × List Entry → Prop
  | start : Run v d0 0 (.down d0, [])
  | step {n c : Nat} {σ τ : Machine × List Entry} (hr : Run v d0 n σ) (hs : Step v c σ τ) :
    Run v d0 (n + c) τ

variable {v : Volume} {d h : Disk} {s s' : State} {m : Nat}

/-! ## The invariant of a running machine -/

/-- On a mounted volume the log is empty, home is as meant, and nothing is dirty that may not be. -/
structure UpOk (v : Volume) (h : Disk) (m : Nat) (s : State) : Prop where
  journalOn : s.journalOn = true
  dirtyHome : DirtyHome v s
  jsb : JsbSays v s.disk 0 s.jSeq
  fresh : Fresh v s.disk s.jSeq
  home : HomeIs v s.disk h
  le : s.jSeq ≤ m

lemma UpOk.diskOk (h' : UpOk v h m s) : DiskOk v h m s.disk :=
  .idle s.jSeq h'.jsb h'.fresh h'.home h'.le

lemma home_writes (hj : JsbSays v d 0 q) (hf : Fresh v d q) (hh : HomeIs v d h)
    (hw : ∀ w ∈ ws, ¬v.InJournal w.1) :
    JsbSays v (applyWrites ws d) 0 q ∧ Fresh v (applyWrites ws d) q ∧
      HomeIs v (applyWrites ws d) (applyWrites ws h) := by
  refine ⟨hj.congr ?_, hf.after_writes fun w hmem => ?_, hh.same_writes ws⟩
  · exact sameJournal_home_writes hw 0 v.jMaxlen_pos
  · exact freshWrite_of_notInJournal (hw w hmem) q

/-! ## Operations -/

lemma commitEntries_writes_of_empty (he : (txnOf v s).isEmpty = true) (k) (r) :
    (commitEntries v s k r).flatMap Entry.writes = (dataWrites s).take k := by
  rw [commitEntries, he, if_pos rfl, append_nil, flatMap_direct]

lemma commitEntries_writes (he : (txnOf v s).isEmpty = false) (k) (r) :
    (commitEntries v s k r).flatMap Entry.writes =
      (dataWrites s).take k ++ if (txnOf v s).length + 3 ≤ k - (dataWrites s).length
        then txnOf v s else [] := by
  have hiff : commitPoint v s ≤ k ↔ (txnOf v s).length + 3 ≤ k - (dataWrites s).length := by
    unfold commitPoint
    omega
  rw [commitEntries, he, if_neg Bool.false_ne_true, flatMap_append, flatMap_direct]
  simp [Entry.writes, hiff]

lemma commitPoint_le_length (he : (txnOf v s).isEmpty = false) (now) :
    commitPoint v s ≤ (commitWrites v now s).length := by
  rw [commitPoint, commitWrites, he, if_neg Bool.false_ne_true, length_append, txnWrites_eq]
  simp [length_logBody]

lemma DiskOk.mono (hd : DiskOk v h m d) (hm : m ≤ m') : DiskOk v h m' d := by
  cases hd with
  | idle q hj hf hh hq => exact .idle q hj hf hh (hq.trans hm)
  | logged q now ws hj hl hc hf hh hq hne hfit hblk =>
    exact .logged q now ws hj hl hc hf hh (hq.trans hm) hne hfit hblk
  | unfinished q ws hj hl hf hh hq hne hfit hblk =>
    exact .unfinished q ws hj hl hf hh (hq.trans hm) hne hfit hblk

section Commit

variable (hu : UpOk v h m s) (hm : m + 1 < 2 ^ 32)

include hu

lemma UpOk.dataWrites_take (k) : JsbSays v (applyWrites ((dataWrites s).take k) s.disk) 0 s.jSeq ∧
      Fresh v (applyWrites ((dataWrites s).take k) s.disk) s.jSeq ∧
      HomeIs v (applyWrites ((dataWrites s).take k) s.disk)
      (applyWrites ((dataWrites s).take k) h) :=
  home_writes hu.jsb hu.fresh hu.home fun w hw =>
    (hu.dirtyHome.dataWrites w (mem_of_mem_take hw)).notInJournal

include hm

/-- **Stopped anywhere in a commit.** -/
lemma UpOk.commit_take (now k) (r) : DiskOk v
    (applyWrites ((commitEntries v s k r).flatMap Entry.writes) h) (m + 1)
      (applyWrites ((commitWrites v now s).take k) s.disk) := by
  obtain ⟨hj, hf, hh⟩ := hu.dataWrites_take k
  have hle := hu.le
  cases he : (txnOf v s).isEmpty with
  | true =>
    rw [commitEntries_writes_of_empty he, commitWrites, he, if_pos rfl, append_nil]
    exact .idle s.jSeq hj hf hh (by omega)
  | false =>
    have hne : txnOf v s ≠ [] := fun hnil => by simp [hnil] at he
    rw [commitEntries_writes he, commitWrites, he, if_neg Bool.false_ne_true, take_append,
      applyWrites_append, applyWrites_append]
    have := diskOk_txnWrites_take (by omega) hu.dirtyHome.fitsLog hf hh hj hne
      hu.dirtyHome.txnOf_lt now (s.disk (v.jmap 0)) (k - (dataWrites s).length)
    refine DiskOk.mono (m := s.jSeq + 1) ?_ (by omega)
    split at this
    · rename_i hk
      rwa [if_pos hk]
    · rename_i hk
      rwa [if_neg hk]

lemma UpOk.commit_done (hc : After v s s' (commitWrites v now s) (nextSeq v s)) :
    UpOk v (applyWrites ((commitEntries v s (commitWrites v now s).length true).flatMap
      Entry.writes) h) (m + 1) s' := by
  have hle := hu.le
  have htake : (dataWrites s).take (commitWrites v now s).length = dataWrites s := by
    refine take_of_length_le ?_
    rw [commitWrites, length_append]
    omega
  obtain ⟨hj, hf, hh⟩ := hu.dataWrites_take (commitWrites v now s).length
  rw [htake] at hj hf hh
  have hseq := hc.jSeq
  have hdisk := hc.disk
  rw [nextSeq] at hseq
  cases he : (txnOf v s).isEmpty with
  | true =>
    rw [commitWrites, he, if_pos rfl, append_nil] at hdisk
    rw [he, if_pos rfl] at hseq
    rw [commitEntries_writes_of_empty he, htake]
    exact ⟨hc.journalOn, hc.dirtyHome, by rw [hdisk, hseq]; exact hj,
      by rw [hdisk, hseq]; exact hf, by rw [hdisk]; exact hh, by omega⟩
  | false =>
    have hfit := hu.dirtyHome.fitsLog
    have hq : s.jSeq + 1 < 2 ^ 32 := by omega
    obtain ⟨-, -, hf', hh'⟩ := pointed_logBody hq hfit hf hh (s.disk (v.jmap 0))
    obtain ⟨hj'', hf'', hh''⟩ := diskOk_emptied hq hfit hf' hh' now (s.disk (v.jmap 0))
    have hlen : (txnOf v s).length + 3 ≤ (commitWrites v now s).length - (dataWrites s).length := by
      have hpoint := commitPoint_le_length he now
      rw [commitPoint] at hpoint
      omega
    rw [commitWrites, he, if_neg Bool.false_ne_true, txnWrites_eq, applyWrites_append,
      ← append_assoc, applyWrites_append] at hdisk
    rw [he, if_neg Bool.false_ne_true, Nat.mod_eq_of_lt hq] at hseq
    rw [commitEntries_writes he, htake, if_pos hlen, applyWrites_append]
    exact ⟨hc.journalOn, hc.dirtyHome, by rw [hdisk, hseq]; exact hj'',
      by rw [hdisk, hseq]; exact hf'', by rw [hdisk]; exact hh'', by omega⟩

end Commit

/-- An operation that does not commit writes outside the journal only. -/
lemma Op.writes_notInJournal (hd : DirtyHome v s) (hc : op.commits v s = false)
    (now) : ∀ w ∈ op.writes v now s, ¬v.InJournal w.1 := by
  have room : ∀ blk, (decide (blk < v.blocksCount) && (cached s blk).isNone &&
      (victim s).isNone) = false → ∀ w ∈ roomWrites v now s blk, ¬v.InJournal w.1 := by
    intro blk hc w hw
    unfold roomWrites at hw
    split at hw
    · rename_i hneeds
      rw [hneeds, Bool.true_and] at hc
      obtain ⟨i, hi⟩ := Option.isSome_iff_exists.mp (Option.isNone_eq_false_iff.mp hc)
      rw [victimWrites, hi] at hw
      dsimp only at hw
      split at hw
      · rename_i hdirty
        rw [Bool.and_eq_true] at hdirty
        rw [mem_singleton.mp hw]
        exact (hd i hdirty.1 hdirty.2).notInJournal
      · simp at hw
    · simp at hw
  cases op with
  | read blk => exact room blk hc
  | dirty zero metadata blk data => exact room blk hc
  | setClean sbuf =>
    intro w hw
    rw [mem_singleton.mp hw]
    exact not_inJournal_sbBlock
  | commit => exact absurd hc (by simp [commits])
  | forget blk => simp [writes]
  | super sbuf => simp [writes]

lemma Op.writes_of_commits (hc : op.commits v s = true) (now) :
    op.writes v now s = commitWrites v now s ∧ op.seqAfter v s = nextSeq v s := by
  have room : ∀ blk, (decide (blk < v.blocksCount) && (cached s blk).isNone &&
      (victim s).isNone) = true →
      roomWrites v now s blk = commitWrites v now s ∧ roomSeq v s blk = nextSeq v s := by
    intro blk hc
    refine ⟨?_, by rw [roomSeq, hc, if_pos rfl]⟩
    rw [Bool.and_eq_true] at hc
    rw [roomWrites, if_pos hc.1, victimWrites, Option.isNone_iff_eq_none.mp hc.2]
  cases op with
  | read blk => exact room blk hc
  | dirty zero metadata blk data => exact room blk hc
  | commit => exact ⟨rfl, rfl⟩
  | setClean sbuf => exact absurd hc (by simp [commits])
  | forget blk => exact absurd hc (by simp [commits])
  | super sbuf => exact absurd hc (by simp [commits])

lemma Op.seqAfter_of_not_commits (hc : op.commits v s = false) : op.seqAfter v s = s.jSeq := by
  cases op with
  | read blk => simp only [commits] at hc; rw [seqAfter, roomSeq, hc]; rfl
  | dirty zero metadata blk data => simp only [commits] at hc; rw [seqAfter, roomSeq, hc]; rfl
  | commit => exact absurd hc (by simp [commits])
  | setClean sbuf => rfl
  | forget blk => rfl
  | super sbuf => rfl

section Op

variable {op : Op} (hu : UpOk v h m s) (hm : m + op.cost v s < 2 ^ 32)

include hu hm

/-- **Stopped anywhere in an operation.** -/
lemma UpOk.op_take (now k) (r) :
    DiskOk v (applyWrites ((op.entries v now s k r).flatMap Entry.writes) h) (m + op.cost v s)
      (applyWrites ((op.writes v now s).take k) s.disk) := by
  unfold Op.cost at hm ⊢
  cases hc : op.commits v s with
  | true =>
    rw [hc, if_pos rfl] at hm
    rw [Op.entries, hc, if_pos rfl, (Op.writes_of_commits hc now).1]
    exact hu.commit_take hm now k r
  | false =>
    rw [Op.entries, hc, if_neg Bool.false_ne_true, flatMap_direct]
    have hw := Op.writes_notInJournal hu.dirtyHome hc now
    obtain ⟨hj, hf, hh⟩ := home_writes hu.jsb hu.fresh hu.home fun w hmem =>
      hw w (mem_of_mem_take (i := k) hmem)
    exact .idle s.jSeq hj hf hh hu.le

lemma UpOk.op_done (ha : After v s s' (op.writes v now s) (op.seqAfter v s)) :
    UpOk v (applyWrites ((op.entries v now s (op.writes v now s).length true).flatMap
      Entry.writes) h) (m + op.cost v s) s' := by
  unfold Op.cost at hm ⊢
  cases hc : op.commits v s with
  | true =>
    obtain ⟨hw, hq⟩ := Op.writes_of_commits hc now
    rw [hc, if_pos rfl] at hm
    rw [hw, hq] at ha
    rw [Op.entries, hc, if_pos rfl, hw]
    exact hu.commit_done hm ha
  | false =>
    have hw := Op.writes_notInJournal hu.dirtyHome hc now
    obtain ⟨hj, hf, hh⟩ := home_writes hu.jsb hu.fresh hu.home hw
    have hq := ha.jSeq.trans (Op.seqAfter_of_not_commits hc)
    rw [Op.entries, hc, if_neg Bool.false_ne_true, flatMap_direct, take_length]
    exact ⟨ha.journalOn, ha.dirtyHome, by rw [ha.disk, hq]; exact hj, by rw [ha.disk, hq]; exact hf,
      by rw [ha.disk]; exact hh, hq ▸ hu.le⟩

end Op

/-! ## Mounts -/

/-- With no revoke record in the log, what is committed is all replayed. -/
lemma recoveredWrites_committed (grant) (q : Nat) (hblk : ∀ w ∈ ws, w.1 < v.blocksCount) :
    recoveredWrites v grant q [.descriptor ws, .commit] = ws := by
  rw [recoveredWrites, replayWrites]
  have hall : (copiesFrom 0 [.descriptor ws, .commit]).filter (fun c => decide (c.1 < 1) &&
      (!revoked .empty c.2.1 ((q + c.1) % 2 ^ 32) && decide (c.2.1 < v.blocksCount))) =
      copiesFrom 0 [.descriptor ws, .commit] := by
    refine filter_eq_self.mpr fun c hc => ?_
    simp only [copiesFrom, append_nil] at hc
    obtain ⟨w, hw, rfl⟩ := mem_map.mp hc
    simp [revoked, RevokeTable.empty, hblk w hw]
  refine (congrArg (map Prod.snd) hall).trans ?_
  simp [copiesFrom]

def State.superRead (v : Volume) (s : State) : State :=
  { s with sbuf := s.sbuf.blit superOff (s.disk v.sbBlock) v.sbOff 1024 }

lemma sbRead_run : (sbRead v).run s = .ok () (s.superRead v) := rfl

/-- A mount does to the disk what its recovery does. -/
lemma mountJournal_run {s1 : State}
    (hrun : (journalRecover v grant).run ((State.boot d).superRead v) = .ok n s1) :
    ∃ s', (mountJournal v grant).run (State.boot d) = .ok n s' ∧ s'.written = s1.written ∧
      s'.disk = s1.disk ∧ s'.bcache = s1.bcache ∧ s'.jSeq = s1.jSeq ∧ s'.journalOn = true := by
  rw [mountJournal, run_bind_of_ok sbRead_run, run_bind_of_ok hrun, run_bind_of_ok (modify_run _)]
  by_cases hn : n = 0
  · subst hn
    exact ⟨_, rfl, rfl, rfl, rfl, rfl, rfl⟩
  dsimp only
  rw [if_pos hn, run_bind_of_ok sbRead_run]
  exact ⟨_, rfl, rfl, rfl, rfl, rfl, rfl⟩

lemma UpOk.of_mount (hon : s.journalOn = true) (hc : ∀ i, (s.bcache i).valid = false)
    (hj : JsbSays v s.disk 0 s.jSeq) (hf : Fresh v s.disk s.jSeq) (hh : HomeIs v s.disk h)
    (hm : s.jSeq ≤ m) : UpOk v h m s := by
  refine ⟨hon, fun i hv => ?_, hj, hf, hh, hm⟩
  rw [hc] at hv
  exact absurd hv Bool.false_ne_true

lemma mount_idle (hj : JsbSays v d 0 q) (hf : Fresh v d q) (hh : HomeIs v d h)
    (hm : q ≤ m) (grant) :
    ∃ n s', (mountJournal v grant).run (State.boot d) = .ok n s' ∧ UpOk v h m s' ∧
    s'.written = [] := by
  have hrun := journalRecover_run_empty (s := (State.boot d).superRead v) grant hj.start_eq
  obtain ⟨s', hmount, hw, hdisk, hcache, hseq, hon⟩ := mountJournal_run hrun
  have hd' : s'.disk = d := hdisk
  have hq' : s'.jSeq = q := hseq.trans hj.seq_eq
  exact ⟨0, s', hmount, .of_mount hon (fun i => by rw [hcache]; rfl) (by rw [hd', hq']; exact hj)
    (by rw [hd', hq']; exact hf) (by rw [hd']; exact hh) (hq' ▸ hm), hw⟩

/-- A mount of a disk whose log holds a transaction: its copies go home if it is committed, and the
log is marked empty. -/
lemma mount_log {rs : List Rec} (hj : JsbSays v d v.jFirst q) (hlog : LogAt v d v.jFirst q rs)
    (hhome : ∀ c ∈ copiesFrom 0 rs, c.1 < commits rs → c.2.1 < v.blocksCount → ¬v.InJournal c.2.1)
    (hq : q + commits rs < 2 ^ 32) (hm : q + commits rs ≤ m) (grant)
    (hf : Fresh v (applyWrites (recoveredWrites v grant q rs) d) (q + commits rs))
    (hh : HomeIs v (applyWrites (recoveredWrites v grant q rs) d) h) :
    ∃ n s', (mountJournal v grant).run (State.boot d) = .ok n s' ∧ UpOk v h m s' ∧
      s'.written = recoveredWrites v grant q rs ++
      [(v.jmap 0, jsbWith (d (v.jmap 0)) 0 (q + commits rs))] := by
  have hroom := v.room
  have hholds : HoldsLog v ((State.boot d).superRead v).disk rs := by
    refine ⟨?_, ?_, ?_, hhome⟩
    · show (d (v.jmap 0)).be32 jsStart ≠ 0
      rw [hj.start_eq]
      exact v.jFirst_ne_zero
    · show (d (v.jmap 0)).be32 jsStart < v.jMaxlen
      rw [hj.start_eq]
      omega
    · show LogAt v d ((d (v.jmap 0)).be32 jsStart) ((d (v.jmap 0)).be32 jsSequence) rs
      rw [hj.start_eq, hj.seq_eq]
      exact hlog
  have hrun := journalRecover_run grant hholds hj.seq_eq
  rw [Nat.mod_eq_of_lt hq] at hrun
  obtain ⟨s', hmount, hw, hdisk, hcache, hseq', hon⟩ := mountJournal_run hrun
  have hd' : s'.disk = applyWrites [(v.jmap 0, jsbWith (d (v.jmap 0)) 0 (q + commits rs))]
      (applyWrites (recoveredWrites v grant q rs) d) := by
    rw [hdisk, ← applyWrites_append]
    rfl
  obtain ⟨hj', hf', hh'⟩ := emptied_ok hq hf hh (d (v.jmap 0))
  refine ⟨_, s', hmount, .of_mount hon (fun i => by rw [hcache]; rfl) ?_ ?_ ?_ ?_, hw⟩
  · rw [hd', hseq']
    exact hj'
  · rw [hd', hseq']
    exact hf'
  · rw [hd']
    exact hh'
  · rw [hseq']
    exact hm

/-- **A mount** of a disk in one of the three shapes runs to its end and leaves the home contents
that were meant; stopped anywhere, it leaves a disk in one of the shapes, with the same meant. -/
lemma DiskOk.mount (hd : DiskOk v h m d) (hm : m < 2 ^ 32) (grant) :
    ∃ n s', (mountJournal v grant).run (State.boot d) = .ok n s' ∧ UpOk v h m s' ∧
      ∀ k, DiskOk v h m (applyWrites (s'.written.take k) d) := by
  cases hd with
  | idle q hj hf hh hq =>
    obtain ⟨n, s', hrun, hup, hw⟩ := mount_idle hj hf hh hq grant
    refine ⟨n, s', hrun, hup, fun k => ?_⟩
    rw [hw, take_nil]
    exact .idle q hj hf hh hq
  | logged q now ws hj hl hc hf hh hq hne hfit hblk =>
    have hrec := recoveredWrites_committed (v := v) grant q hblk
    have hlog := hl.logAt_committed (by omega) hne hfit hblk hc hf
    have hhome : ∀ c ∈ copiesFrom 0 [.descriptor ws, .commit], c.1 < 1 →
        c.2.1 < v.blocksCount → ¬v.InJournal c.2.1 := by
      intro c hc _ _
      simp only [copiesFrom, append_nil] at hc
      obtain ⟨w, hw, rfl⟩ := mem_map.mp hc
      exact hfit.home w hw
    have hf' : Fresh v (applyWrites ws d) (q + 1) :=
      hf.after_writes fun w hw => freshWrite_of_notInJournal (hfit.home w hw) _
    obtain ⟨n, s', hrun, hup, hw⟩ := mount_log hj hlog hhome (by simp [commits]; omega)
      (by simpa [commits] using hq) grant (by rw [hrec]; exact hf') (by rw [hrec]; exact hh)
    refine ⟨n, s', hrun, hup, fun k => ?_⟩
    rw [hw, hrec]
    by_cases hk : k ≤ ws.length
    · -- part of the copies is home: replaying them again is the same
      rw [take_append_of_le_length hk]
      have hsame : SameJournal v (applyWrites (ws.take k) d) d :=
        sameJournal_home_writes fun w hw => hfit.home w (mem_of_mem_take hw)
      have hlt := hfit.pos_lt
      refine .logged q now ws (hj.congr (hsame 0 v.jMaxlen_pos)) (hl.congr hfit hsame)
        ((hsame _ hlt).trans hc) (hf.after_writes fun w hw => ?_) ?_ hq hne hfit hblk
      · exact freshWrite_of_notInJournal (hfit.home w (mem_of_mem_take hw)) _
      rw [applyWrites_redo]
      exact hh
    · rw [take_of_length_le (by simp; omega), applyWrites_append]
      obtain ⟨hj', hf'', hh'⟩ := emptied_ok (by omega) hf' hh (d (v.jmap 0))
      exact .idle (q + 1) hj' hf'' hh' hq
  | unfinished q ws hj hl hf hh hq hne hfit hblk =>
    have hrec : recoveredWrites v grant q [.descriptor ws] = [] :=
      replayWrites_of_le fun c _ => Nat.zero_le c.1
    have hlog := hl.logAt_uncommitted (by omega) hne hfit hblk hf
    obtain ⟨n, s', hrun, hup, hw⟩ := mount_log (m := m) hj hlog
      (fun c _ hc => absurd hc (Nat.not_lt_zero _)) (by simp [commits]; omega)
        (by simp [commits]; omega) grant (by rw [hrec]; exact hf)
      (by rw [hrec]; exact hh)
    refine ⟨n, s', hrun, hup, fun k => ?_⟩
    rw [hw, hrec, nil_append]
    cases k with
    | zero => exact .unfinished q ws hj hl hf hh hq hne hfit hblk
    | succ k =>
      rw [take_of_length_le (by simp), show commits [Rec.descriptor ws] = 0 from rfl, Nat.add_zero]
      obtain ⟨hj', hf', hh'⟩ := emptied_ok (by omega) hf hh (d (v.jmap 0))
      exact .idle q hj' hf' hh' (by omega)

/-! ## Every run -/

/-- The invariant: a stopped machine's disk is in one of the three shapes, a running one's log is
empty, and in both what is meant to be home is what the history calls for. -/
def MachineOk (v : Volume) (d0 : Disk) (n : Nat) : Machine × List Entry → Prop
  | (.up s, hist) => UpOk v (homeOf d0 hist) (1 + n) s
  | (.down d, hist) => DiskOk v (homeOf d0 hist) (1 + n) d

lemma MachineOk.diskOk {mach : Machine}
    (hk : MachineOk v d0 n (mach, hist)) : DiskOk v (homeOf d0 hist) (1 + n) mach.disk := by
  cases mach with
  | up s => exact UpOk.diskOk hk
  | down d => exact hk

variable {σ : Machine × List Entry}

lemma Step.machineOk {n c : Nat} {τ : Machine × List Entry} (hs : Step v c σ τ)
    (hn : 1 + n + c < 2 ^ 32) (hk : MachineOk v d0 n σ) : MachineOk v d0 (n + c) τ := by
  cases hs with
  | op op now jiffies hsound hrun =>
    obtain ⟨s', hrun', ha⟩ := op.run_after hk.journalOn hk.dirtyHome hsound now jiffies
    rw [hrun] at hrun'
    obtain ⟨-, rfl⟩ := EStateM.Result.ok.inj hrun'
    simp only [MachineOk, homeOf_append, ← Nat.add_assoc]
    exact UpOk.op_done hk hn ha
  | stopOp op now jiffies k hsound hrun hws =>
    obtain ⟨s', hrun', ha⟩ := op.run_after hk.journalOn hk.dirtyHome hsound now jiffies
    rw [hrun] at hrun'
    obtain ⟨-, rfl⟩ := EStateM.Result.ok.inj hrun'
    rw [ha.written] at hws
    obtain rfl := append_cancel_left hws
    simp only [MachineOk, homeOf_append, ← Nat.add_assoc]
    exact UpOk.op_take hk hn now k false
  | mount grant hrun =>
    obtain ⟨_, s', hrun', hup, -⟩ := hk.diskOk.mount (by omega) grant
    rw [hrun] at hrun'
    obtain ⟨-, rfl⟩ := EStateM.Result.ok.inj hrun'
    exact hup
  | stopMount grant k hrun =>
    obtain ⟨_, s', hrun', -, htake⟩ := hk.diskOk.mount (by omega) grant
    rw [hrun] at hrun'
    obtain ⟨-, rfl⟩ := EStateM.Result.ok.inj hrun'
    exact htake k

lemma Run.machineOk (hr : Run v d0 n σ) (hstart : DiskOk v d0 1 d0) (hn : 1 + n < 2 ^ 32) :
    MachineOk v d0 n σ := by
  induction hr with
  | start => exact hstart
  | step hr hs ih => exact hs.machineOk (by omega) (ih (by omega))

/-! ## A journal that was just made -/

section Fresh

variable (blockSize maxlen : Nat) (uuid : Bytes)

lemma freshJsb_start : (freshJsb blockSize maxlen uuid).be32 jsStart = 0 := by
  have h : jsStart + 4 ≤ jsUuid := by decide
  simp only [freshJsb]
  rw [Bytes.be32_putBe32_of_disjoint (by unfold jsStart; omega),
    Bytes.be32_congr fun i _ hi => Bytes.blit_of_ne (.inl (by omega)), Bytes.be32_putBe32,
    Nat.zero_mod]

lemma freshJsb_sequence : (freshJsb blockSize maxlen uuid).be32 jsSequence = 1 := by
  have h : jsSequence + 4 ≤ jsUuid := by decide
  simp only [freshJsb]
  rw [Bytes.be32_putBe32_of_disjoint (by unfold jsSequence; omega),
    Bytes.be32_congr fun i _ hi => Bytes.blit_of_ne (.inl (by omega)),
    Bytes.be32_putBe32_of_disjoint (by unfold jsStart jsSequence; omega), Bytes.be32_putBe32,
    Nat.mod_eq_of_lt (by decide)]

end Fresh

/-- The log proper holds no block that begins with JBD's magic number. -/
def NoHeaders (v : Volume) (d : Disk) : Prop :=
  ∀ p, v.jFirst ≤ p → p < v.jMaxlen → (d (v.jmap p)).be32 0 ≠ jbdMagic

/-- The disk `d` with a journal just made on it by `journal_reinit`, over a log without headers. -/
structure MadeJournal (v : Volume) (d d0 : Disk) : Prop where
  noHeaders : NoHeaders v d
  made : ∃ size uuid s0, (journalReinit v size uuid).run (State.boot d) = .ok () s0 ∧ s0.disk = d0

lemma MadeJournal.diskOk (hmade : MadeJournal v d d0) : DiskOk v d0 1 d0 := by
  obtain ⟨size, uuid, s0, hrun, rfl⟩ := hmade.made
  rw [journalReinit] at hrun
  split at hrun
  · cases hrun
  obtain ⟨-, rfl⟩ := EStateM.Result.ok.inj hrun
  have hdisk : ((State.boot d).wrote (v.jmap 0)
      (freshJsb v.blockSize (size / v.blockSize) uuid)).disk (v.jmap 0) = _ :=
    Function.update_self ..
  refine .idle 1 ⟨?_, ?_⟩ ?_ (fun _ _ => rfl) le_rfl
  · rw [hdisk, freshJsb_start]
  · rw [hdisk, freshJsb_sequence]
  change Fresh v ((State.boot d).wrote _ _).disk 1
  rw [State.wrote_eq]
  refine Fresh.after_writes (fun p hp hlt hm => absurd hm (hmade.noHeaders p hp hlt)) ?_
  intro w hw
  rw [mem_singleton.1 hw]
  exact freshWrite_jsb 1 _

/-! ## Mounting again -/

lemma madeJournal_zero : MadeJournal smallVolume (fun _ => Bytes.zero)
      (Function.update (fun _ => Bytes.zero) 100 (freshJsb 1024 80 Bytes.zero)) :=
  ⟨fun _ _ _ => by decide, 81920, Bytes.zero, _, rfl, rfl⟩

/-- A machine that is mounted, changes its superblock, and stops right after the commit block. -/
lemma stopped_after_commit : ∃ d₀ mach hist, MadeJournal smallVolume (fun _ => Bytes.zero) d₀ ∧
    Run smallVolume d₀ 1 (mach, hist) ∧ ∃ ws, Entry.txn ws true false ∈ hist := by
  obtain ⟨_, s, hmount, hup, -⟩ := madeJournal_zero.diskOk.mount (by decide) fun _ => true
  have r₁ := Run.start.step (.mount _ hmount)
  obtain ⟨t, ht⟩ : ∃ t, t = { s with sbuf := Bytes.zero, sbDirty := true } := ⟨_, rfl⟩
  have hset : (Op.run smallVolume 0 0 (.super Bytes.zero)).run s = .ok () t := by rw [ht]; rfl
  have r₂ := r₁.step (.op (.super Bytes.zero) 0 0 trivial hset)
  obtain ⟨s', hrun, ha⟩ := Op.run_after (s := t) .commit (by rw [ht]; exact hup.journalOn)
    (by rw [ht]; exact hup.dirtyHome) trivial 0 0
  have r₃ := r₂.step (.stopOp .commit 0 0 (commitPoint smallVolume t) trivial hrun ha.written)
  have hne : (txnOf smallVolume t).isEmpty = false := by
    rw [ht]
    simp [txnOf, entriesOf]
  refine ⟨_, _, _, madeJournal_zero, r₃, txnOf smallVolume t, ?_⟩
  simp [Op.entries, Op.commits, commitEntries, hne]

end Sage040.Ext2
