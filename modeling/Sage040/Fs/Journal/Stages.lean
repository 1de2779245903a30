import Sage040.Fs.Journal.Ops
import Sage040.Fs.Journal.Recover

/-!
# What a disk can look like when the machine stops

However far a commit or a recovery got, the disk is in one of three shapes (`DiskOk`): the log is
empty; or it holds one committed transaction, some of whose blocks may be home already; or it
holds a transaction without its commit block. In each of them the contents the home blocks are
*meant* to have are determined: what is there, or what is there with the whole transaction laid
over it.

What keeps an old log from being taken for a new one is `Fresh`: every header in the log proper is
of an earlier transaction, except for a descriptor of the very next one at `j_first`.
-/

namespace Sage040.Ext2

open Function List

variable {v : Volume} {d e : Disk}

/-! ## Stale headers -/

/-- Every header in the log proper is older than transaction `q`, but perhaps for the one at
`j_first`, which may be of `q` itself. -/
def Fresh (v : Volume) (d : Disk) (q : Nat) : Prop :=
  ∀ p, v.jFirst ≤ p → p < v.jMaxlen → (d (v.jmap p)).be32 0 = jbdMagic →
    (d (v.jmap p)).be32 8 < q ∨ (p = v.jFirst ∧ (d (v.jmap p)).be32 8 = q)

def FreshWrite (v : Volume) (q : Nat) (w : Nat × Block) : Prop :=
  ∀ p, v.jFirst ≤ p → p < v.jMaxlen → w.1 = v.jmap p → w.2.be32 0 = jbdMagic →
    w.2.be32 8 < q ∨ (p = v.jFirst ∧ w.2.be32 8 = q)

variable {ws : List (Nat × Block)} {q : Nat} {h : Disk}

lemma Fresh.after_writes (h : Fresh v d q) (hw : ∀ w ∈ ws, FreshWrite v q w) :
    Fresh v (applyWrites ws d) q := by
  intro p hp hlt hm
  rcases applyWrites_eq_or_mem ws d (v.jmap p) with he | hmem
  · rw [he] at hm ⊢
    exact h p hp hlt hm
  · exact hw _ hmem p hp hlt rfl hm

lemma Fresh.succ (h : Fresh v d q) : Fresh v d (q + 1) := by
  intro p hp hlt hm
  rcases h p hp hlt hm with h | ⟨-, h⟩
  · exact .inl (by omega)
  · exact .inl (by omega)

variable {seq pos start : Nat} {w : Nat × Block}

/-- A block past `j_first` is no header of transaction `q` or a later one. -/
lemma Fresh.not_headerAt {q p type : Nat} (h : Fresh v d q) (hseq : q ≤ seq)
    (hp : v.jFirst < p) (hlt : p < v.jMaxlen) : ¬HeaderAt v d p seq type := by
  intro hh
  rcases h p hp.le hlt hh.magic with h | ⟨h, -⟩
  · rw [hh.seq] at h
    omega
  · omega

lemma freshWrite_of_notInJournal (h : ¬v.InJournal w.1) (q) :
    FreshWrite v q w := fun p _ hlt he _ => absurd ⟨p, hlt, he.symm⟩ h

lemma freshWrite_jsb (q) (b : Block) : FreshWrite v q (v.jmap 0, b) := by
  intro p hp hlt he _
  have h0 := v.jFirst_ne_zero
  exact absurd he (jmap_ne v.jMaxlen_pos hlt (by omega))

lemma freshWrite_copy {q} (hw : w ∈ copyWrites v pos ws) : FreshWrite v q w := by
  intro p _ _ _ hm
  obtain ⟨_, data, _, _, rfl⟩ := mem_copyWrites hw
  exact absurd hm (escaped_be32_ne data)

lemma freshWrite_descriptor (q) (hq : q < 2 ^ 32) (ws) :
    FreshWrite v q (v.jmap v.jFirst, descriptorOf v q ws) := by
  intro p hp hlt he _
  have hroom := v.room
  refine .inr ⟨(v.jmap_inj _ (by omega) p hlt he).symm, ?_⟩
  rw [descriptorOf_be32_seq, Nat.mod_eq_of_lt hq]

lemma commitBlock_be32 {now o : Nat} (h : o + 4 ≤ 52) :
    (commitBlock seq now).be32 o = (jheader jbdCommit seq).be32 o :=
  Bytes.be32_putBe32_of_disjoint (.inl h)

lemma freshWrite_commit (hq : q < 2 ^ 32) (now p : Nat) : FreshWrite v (q + 1)
    (v.jmap p, commitBlock q now) := by
  intro _ _ _ _ _
  left
  rw [commitBlock_be32 (by omega), jheader_be32_seq, Nat.mod_eq_of_lt hq]
  exact Nat.lt_succ_self q

/-! ## The journal superblock -/

section Jsb

variable (b : Block) (start seq : Nat)

lemma jsbWith_start : (jsbWith b start seq).be32 jsStart = start % 2 ^ 32 := by
  rw [jsbWith, Bytes.be32_putBe32_of_disjoint (by unfold jsStart jsSequence; omega),
    Bytes.be32_putBe32]

lemma jsbWith_sequence : (jsbWith b start seq).be32 jsSequence = seq % 2 ^ 32 := by
  rw [jsbWith, Bytes.be32_putBe32]

end Jsb

/-- The journal superblock on the disk says so. -/
structure JsbSays (v : Volume) (d : Disk) (start seq : Nat) : Prop where
  start_eq : (d (v.jmap 0)).be32 jsStart = start
  seq_eq : (d (v.jmap 0)).be32 jsSequence = seq

lemma JsbSays.congr (h : JsbSays v d start seq) (he : e (v.jmap 0) = d (v.jmap 0)) :
    JsbSays v e start seq :=
  ⟨by rw [he]; exact h.start_eq, by rw [he]; exact h.seq_eq⟩

lemma jsbSays_jsbWith {b} (hs : start < 2 ^ 32) (hq : seq < 2 ^ 32)
    (hd : d (v.jmap 0) = jsbWith b start seq) : JsbSays v d start seq := by
  refine ⟨?_, ?_⟩
  · rw [hd, jsbWith_start, Nat.mod_eq_of_lt hs]
  · rw [hd, jsbWith_sequence, Nat.mod_eq_of_lt hq]

lemma Volume.jFirst_lt (v : Volume) : v.jFirst < 2 ^ 32 := by
  have h1 := v.room
  have h2 := v.jMaxlen_lt
  omega

/-! ## A log of one transaction -/

/-- The blocks on the disk after the log of a transaction is written, the commit block perhaps
excepted. -/
structure LogOn (v : Volume) (d : Disk) (q : Nat) (ws : List (Nat × Block)) : Prop where
  descriptor : d (v.jmap v.jFirst) = descriptorOf v q ws
  copies : CopiesOn v d (v.jFirst + 1) ws

lemma copiesOn_congr (h : CopiesOn v d pos ws)
    (he : ∀ p, pos ≤ p → p < pos + ws.length → e (v.jmap p) = d (v.jmap p)) :
    CopiesOn v e pos ws := by
  induction ws generalizing pos with
  | nil => trivial
  | cons w ws ih =>
    rw [length_cons] at he
    exact ⟨(he pos le_rfl (by omega)).trans h.1, ih h.2 fun p h1 h2 => he p (by omega) (by omega)⟩

lemma copiesOn_copyWrites (hlt : pos + ws.length ≤ v.jMaxlen) (d) :
    CopiesOn v (applyWrites (copyWrites v pos ws) d) pos ws := by
  induction ws generalizing pos d with
  | nil => trivial
  | cons w ws ih =>
    rw [length_cons] at hlt
    rw [copyWrites, applyWrites_cons]
    refine ⟨?_, ih (by omega) _⟩
    -- the later copies are elsewhere
    rw [applyWrites_of_notMem, update_self]
    intro x hx
    obtain ⟨p, data, h1, h2, rfl⟩ := mem_copyWrites hx
    exact jmap_ne (by omega) (by omega) (by omega)

lemma LogOn.congr (h : LogOn v d q ws) (hfit : FitsLog v ws) (he : SameJournal v e d) :
    LogOn v e q ws := by
  have hlt := hfit.pos_lt
  refine ⟨(he _ (by omega)).trans h.descriptor, ?_⟩
  exact copiesOn_congr h.copies fun p h1 h2 => he p (by omega)

section Logged

variable {q : Nat} {ws : List (Nat × Block)} (hq : q + 1 < 2 ^ 32) (hne : ws ≠ [])
  (hfit : FitsLog v ws) (hblk : ∀ w ∈ ws, w.1 < v.blocksCount)

include hq hne hfit hblk

/-- The records of the log from the descriptor on, given those after its copies. -/
lemma LogOn.logAt (h : LogOn v d q ws) {rs : List Rec}
    (hrs : LogAt v d (v.jFirst + 1 + ws.length) q rs) :
    LogAt v d v.jFirst q (.descriptor ws :: rs) := by
  have hlt := hfit.pos_lt
  have hcopies : CopiesAt v d (descriptorOf v q ws) jbdHeader (v.jFirst + 1) ws _ :=
    copiesAt_descriptorOf hne hfit.length_le
      (fun w hw => (hblk w hw).trans_le v.blocksCount_le) h.copies hlt
  refine .descriptor ⟨?_, ?_, ?_⟩ ?_ hrs
  · rw [h.descriptor, descriptorOf_be32_magic]
  · rw [h.descriptor, descriptorOf_be32_seq, Nat.mod_eq_of_lt (by omega)]
  · rw [h.descriptor, descriptorOf_be32_type]
  · rw [h.descriptor, Volume.jnext_of_lt (by omega)]
    exact hcopies

/-- Without its commit block the transaction is the log's uncommitted tail. -/
lemma LogOn.logAt_uncommitted (h : LogOn v d q ws) (hf : Fresh v d q) :
    LogAt v d v.jFirst q [.descriptor ws] := by
  have hlt := hfit.pos_lt
  refine h.logAt hq hne hfit hblk (.stop ?_ ?_ ?_) <;>
    exact hf.not_headerAt le_rfl (by omega) hlt

/-- With it, it is the one committed transaction. -/
lemma LogOn.logAt_committed (h : LogOn v d q ws) {now : Nat}
    (hc : d (v.jmap (v.jFirst + 1 + ws.length)) = commitBlock q now) (hf : Fresh v d (q + 1)) :
    LogAt v d v.jFirst q [.descriptor ws, .commit] := by
  have hlt := hfit.pos_lt
  have hroom := v.room
  have hlen := hfit.length_le
  have hnext : v.jnext (v.jFirst + 1 + ws.length) = v.jFirst + 1 + ws.length + 1 :=
    Volume.jnext_of_lt (by omega)
  have hstop : ∀ type, ¬HeaderAt v d (v.jFirst + 1 + ws.length + 1) ((q + 1) % 2 ^ 32) type :=
    fun type => hf.not_headerAt (by omega) (by omega) (by omega)
  refine h.logAt hq hne hfit hblk (.commit ⟨?_, ?_, ?_⟩ ?_)
  · rw [hc, commitBlock_be32 (by omega), jheader_be32_magic]
  · rw [hc, commitBlock_be32 (by omega), jheader_be32_seq, Nat.mod_eq_of_lt (by omega)]
  · rw [hc, commitBlock_be32 (by omega), jheader_be32_type]
    rfl
  · rw [hnext]
    exact .stop (hstop _) (hstop _) (hstop _)

end Logged

/-! ## The three shapes -/

/-- The blocks outside the journal are as in `h`. -/
def HomeIs (v : Volume) (d h : Disk) : Prop := ∀ b, ¬v.InJournal b → d b = h b

/-- The shapes of a disk whose home blocks are meant to be as in `h`, with sequence numbers up to
`m`. -/
inductive DiskOk (v : Volume) (h : Disk) (m : Nat) (d : Disk) : Prop
  /-- The log is empty. -/
  | idle (q : Nat) (hj : JsbSays v d 0 q) (hf : Fresh v d q) (hh : HomeIs v d h) (hm : q ≤ m)
  /-- The log holds a committed transaction, and home is as meant once it is replayed. -/
  | logged (q now : Nat) (ws : List (Nat × Block)) (hj : JsbSays v d v.jFirst q)
      (hl : LogOn v d q ws) (hc : d (v.jmap (v.jFirst + 1 + ws.length)) = commitBlock q now)
      (hf : Fresh v d (q + 1)) (hh : HomeIs v (applyWrites ws d) h) (hm : q + 1 ≤ m)
      (hne : ws ≠ []) (hfit : FitsLog v ws) (hblk : ∀ w ∈ ws, w.1 < v.blocksCount)
  /-- The log holds a transaction that is not committed. -/
  | unfinished (q : Nat) (ws : List (Nat × Block)) (hj : JsbSays v d v.jFirst q)
      (hl : LogOn v d q ws) (hf : Fresh v d q) (hh : HomeIs v d h) (hm : q + 1 ≤ m)
      (hne : ws ≠ []) (hfit : FitsLog v ws) (hblk : ∀ w ∈ ws, w.1 < v.blocksCount)

lemma HomeIs.journal_writes (hh : HomeIs v d h) (hw : ∀ w ∈ ws, v.InJournal w.1) :
    HomeIs v (applyWrites ws d) h := by
  intro b hb
  rw [← hh b hb]
  refine applyWrites_of_notMem (fun w hmem he => ?_) d
  exact hb (he ▸ hw w hmem)

lemma HomeIs.same_writes (hh : HomeIs v d h) (ws) : HomeIs v (applyWrites ws d)
    (applyWrites ws h) :=
  fun b hb => applyWrites_congr fun _ => hh b hb

lemma sameJournal_home_writes (hw : ∀ w ∈ ws, ¬v.InJournal w.1) :
    SameJournal v (applyWrites ws d) d := by
  intro i hi
  exact applyWrites_of_notMem (fun w hmem he => hw w hmem ⟨i, hi, he.symm⟩) d

lemma emptied_ok (hq : q < 2 ^ 32) (hf : Fresh v d q) (hh : HomeIs v d h) (b) :
    JsbSays v (applyWrites [(v.jmap 0, jsbWith b 0 q)] d) 0 q ∧
    Fresh v (applyWrites [(v.jmap 0, jsbWith b 0 q)] d) q ∧
      HomeIs v (applyWrites [(v.jmap 0, jsbWith b 0 q)] d) h := by
  refine ⟨?_, hf.after_writes fun w hw => ?_, hh.journal_writes fun w hw => ?_⟩
  · refine jsbSays_jsbWith (by omega) hq (b := b) ?_
    rw [applyWrites_singleton, update_self]
  · rw [mem_singleton.mp hw]
    exact freshWrite_jsb _ _
  · rw [mem_singleton.mp hw]
    exact v.inJournal_jmap v.jMaxlen_pos

/-! ## How far a commit got -/

/-- The copies and the descriptor: all of the log before the journal superblock points at it. -/
def logBody (v : Volume) (q : Nat) (ws : List (Nat × Block)) : List (Nat × Block) :=
  copyWrites v (v.jFirst + 1) ws ++ [(v.jmap v.jFirst, descriptorOf v q ws)]

section CommitPrefix

variable {h : Disk} {q now : Nat} {ws : List (Nat × Block)}

lemma length_copyWrites (pos ws) : (copyWrites v pos ws).length = ws.length := by
  induction ws generalizing pos with
  | nil => rfl
  | cons w ws ih => rw [copyWrites, length_cons, ih, length_cons]

lemma length_logBody : (logBody v q ws).length = ws.length + 1 := by
  rw [logBody, length_append, length_copyWrites, length_singleton]

lemma txnWrites_eq (jsb : Block) : txnWrites v now q jsb ws = logBody v q ws ++
    ([(v.jmap 0, jsbWith jsb v.jFirst q)] ++
      ([(v.jmap (v.jFirst + 1 + ws.length), commitBlock q now)] ++
      (ws ++ [(v.jmap 0, emptiedJsb v q jsb)]))) := by
  simp [txnWrites, logWrites, logBody]

lemma logBody_inJournal (hfit : FitsLog v ws) : ∀ w ∈ logBody v q ws, v.InJournal w.1 ∧
    w.1 ≠ v.jmap 0 := by
  intro w hw
  have hlt := hfit.pos_lt
  rcases mem_append.mp hw with hw | hw
  · refine ⟨?_, copyWrites_ne_jsb hfit w hw⟩
    obtain ⟨p, data, h1, h2, rfl⟩ := mem_copyWrites hw
    exact v.inJournal_jmap (by omega)
  · rw [mem_singleton.mp hw]
    exact ⟨v.inJournal_jmap (by omega), jmap_ne (by omega) v.jMaxlen_pos v.jFirst_ne_zero⟩

lemma freshWrite_logBody (hq : q < 2 ^ 32) : ∀ w ∈ logBody v q ws, FreshWrite v q w := by
  intro w hw
  rcases mem_append.mp hw with hw | hw
  · exact freshWrite_copy hw
  rw [mem_singleton.mp hw]
  exact freshWrite_descriptor q hq ws

/-- After the copies and the descriptor the log is on the disk. -/
lemma logOn_logBody (hfit : FitsLog v ws) (d) : LogOn v (applyWrites (logBody v q ws) d) q ws := by
  have hlt := hfit.pos_lt
  rw [logBody, applyWrites_append, applyWrites_singleton]
  refine ⟨update_self _ _ _, ?_⟩
  refine copiesOn_congr (copiesOn_copyWrites (by omega) d) fun p h1 h2 => ?_
  exact update_of_ne (jmap_ne (by omega) (by omega) (by omega)) _ _

variable (hq : q + 1 < 2 ^ 32) (hfit : FitsLog v ws) (hf : Fresh v d q) (hh : HomeIs v d h)

include hq hfit hf hh

/-- Stopped before the journal superblock points at the log: it is still empty. -/
lemma diskOk_logBody_take (hj : JsbSays v d 0 q) (k : Nat) :
    DiskOk v h (q + 1) (applyWrites ((logBody v q ws).take k) d) := by
  have hmem : ∀ w ∈ (logBody v q ws).take k, w ∈ logBody v q ws := fun w => mem_of_mem_take
  refine .idle q (hj.congr ?_) (hf.after_writes fun w hw => ?_) (hh.journal_writes fun w hw => ?_)
    (Nat.le_succ q)
  · exact applyWrites_of_notMem (fun w hw => (logBody_inJournal hfit w (hmem w hw)).2) d
  · exact freshWrite_logBody (by omega) w (hmem w hw)
  · exact (logBody_inJournal hfit w (hmem w hw)).1

/-- What the disk holds once the journal superblock points at the log. -/
lemma pointed_logBody (jsb : Block) :
    JsbSays v (applyWrites (logBody v q ws ++ [(v.jmap 0, jsbWith jsb v.jFirst q)]) d) v.jFirst q ∧
    LogOn v (applyWrites (logBody v q ws ++ [(v.jmap 0, jsbWith jsb v.jFirst q)]) d) q ws ∧
    Fresh v (applyWrites (logBody v q ws ++ [(v.jmap 0, jsbWith jsb v.jFirst q)]) d) q ∧
    HomeIs v (applyWrites (logBody v q ws ++ [(v.jmap 0, jsbWith jsb v.jFirst q)]) d) h := by
  have hlt := hfit.pos_lt
  have hdisk : applyWrites (logBody v q ws ++ [(v.jmap 0, jsbWith jsb v.jFirst q)]) d =
      update (applyWrites (logBody v q ws) d) (v.jmap 0) (jsbWith jsb v.jFirst q) := by
    rw [applyWrites_append, applyWrites_singleton]
  refine ⟨?_, ?_, hf.after_writes fun w hw => ?_, hh.journal_writes fun w hw => ?_⟩
  · exact jsbSays_jsbWith v.jFirst_lt (by omega) (by rw [hdisk, update_self])
  · have hlog := logOn_logBody (q := q) hfit d
    have hne0 : ∀ p, v.jFirst ≤ p → p < v.jMaxlen → v.jmap p ≠ v.jmap 0 := fun p h1 h2 =>
      jmap_ne h2 v.jMaxlen_pos (by have := v.jFirst_ne_zero; omega)
    rw [hdisk]
    refine ⟨?_, copiesOn_congr hlog.copies fun p h1 h2 => ?_⟩
    · rw [update_of_ne (hne0 _ le_rfl (by omega))]
      exact hlog.descriptor
    · exact update_of_ne (hne0 p (by omega) (by omega)) _ _
  · rcases mem_append.mp hw with hw | hw
    · exact freshWrite_logBody (by omega) w hw
    rw [mem_singleton.mp hw]
    exact freshWrite_jsb q _
  · rcases mem_append.mp hw with hw | hw
    · exact (logBody_inJournal hfit w hw).1
    rw [mem_singleton.mp hw]
    exact v.inJournal_jmap v.jMaxlen_pos

/-- Stopped in the checkpoint: the transaction is committed, and replaying it over the blocks that
are home already gives all of it. -/
lemma diskOk_checkpoint_take (hj : JsbSays v d v.jFirst q) (hl : LogOn v d q ws) (hne : ws ≠ [])
    (hblk : ∀ w ∈ ws, w.1 < v.blocksCount) (now j : Nat) : DiskOk v (applyWrites ws h)
    (q + 1) (applyWrites
      ([(v.jmap (v.jFirst + 1 + ws.length), commitBlock q now)] ++ ws.take j) d) := by
  have hlt := hfit.pos_lt
  have hpos : ∀ p, p < v.jMaxlen → p ≠ v.jFirst + 1 + ws.length →
      v.jmap p ≠ v.jmap (v.jFirst + 1 + ws.length) := fun p h1 h2 => jmap_ne h1 hlt h2
  have hhome : ∀ w ∈ ws.take j, ¬v.InJournal w.1 := fun w hw => hfit.home w (mem_of_mem_take hw)
  rw [applyWrites_append, applyWrites_singleton]
  -- the journal is as the commit block leaves it
  have hsame := sameJournal_home_writes (d := update d
    (v.jmap (v.jFirst + 1 + ws.length)) (commitBlock q now)) hhome
  have hjsb := hsame 0 v.jMaxlen_pos
  rw [update_of_ne (hpos 0 v.jMaxlen_pos (by omega))] at hjsb
  refine .logged q now ws (hj.congr hjsb) (LogOn.congr ⟨?_, ?_⟩ hfit hsame) ?_ ?_ ?_ le_rfl hne
    hfit hblk
  · rw [update_of_ne (hpos _ (by omega) (by omega))]
    exact hl.descriptor
  · refine copiesOn_congr hl.copies fun p h1 h2 => ?_
    exact update_of_ne (hpos p (by omega) (by omega)) _ _
  · rw [hsame _ hlt, update_self]
  · rw [← applyWrites_singleton]
    refine Fresh.after_writes (Fresh.after_writes hf.succ fun w hw => ?_) fun w hw => ?_
    · rw [mem_singleton.mp hw]
      exact freshWrite_commit (by omega) now _
    · exact freshWrite_of_notInJournal (hhome w hw) _
  · rw [applyWrites_redo, ← applyWrites_singleton]
    refine HomeIs.same_writes (hh.journal_writes fun w hw => ?_) ws
    rw [mem_singleton.mp hw]
    exact v.inJournal_jmap hlt

/-- The commit is complete: the log is empty and the transaction is home. -/
lemma diskOk_emptied (now) (jsb : Block) :
    let d' := applyWrites ([(v.jmap (v.jFirst + 1 + ws.length), commitBlock q now)] ++
      (ws ++ [(v.jmap 0, emptiedJsb v q jsb)])) d
    JsbSays v d' 0 (q + 1) ∧ Fresh v d' (q + 1) ∧ HomeIs v d' (applyWrites ws h) := by
  intro d'
  have hlt := hfit.pos_lt
  have hd' : d' = applyWrites [(v.jmap 0, jsbWith (jsbWith jsb v.jFirst q) 0 (q + 1))]
      (applyWrites ws (applyWrites [(v.jmap (v.jFirst + 1 + ws.length), commitBlock q now)] d)) :=
          by
    simp only [d', applyWrites_append, emptiedJsb, Nat.mod_eq_of_lt hq]
  rw [hd']
  refine emptied_ok hq (Fresh.after_writes (Fresh.after_writes hf.succ fun w hw => ?_)
    fun w hw => ?_)
    (HomeIs.same_writes (hh.journal_writes fun w hw => ?_) ws) _
  · rw [mem_singleton.mp hw]
    exact freshWrite_commit (by omega) now _
  · exact freshWrite_of_notInJournal (hfit.home w hw) _
  · rw [mem_singleton.mp hw]
    exact v.inJournal_jmap hlt

/-- **Stopped anywhere in the log, the checkpoint or after**: the transaction is meant to be home if
the commit block was written — the write number `|ws| + 3` — and not otherwise. -/
lemma diskOk_txnWrites_take (hj : JsbSays v d 0 q) (hne : ws ≠ [])
    (hblk : ∀ w ∈ ws, w.1 < v.blocksCount) (now) (jsb : Block) (k : Nat) :
    DiskOk v (if ws.length + 3 ≤ k then applyWrites ws h else h) (q + 1)
      (applyWrites ((txnWrites v now q jsb ws).take k) d) := by
  have hpoint := pointed_logBody hq hfit hf hh jsb
  obtain ⟨hj', hl', hf', hh'⟩ := hpoint
  rw [txnWrites_eq]
  by_cases h1 : k ≤ ws.length + 1
  · rw [if_neg (by omega), take_append_of_le_length (by rw [length_logBody]; omega)]
    exact diskOk_logBody_take hq hfit hf hh hj k
  by_cases h2 : k = ws.length + 2
  · rw [if_neg (by omega), take_append, length_logBody, take_of_length_le
      (by rw [length_logBody]; omega), show k - (ws.length + 1) = 1 by omega]
    exact .unfinished q ws hj' hl' hf' hh' le_rfl hne hfit hblk
  -- from here on the commit block is on the disk
  have htake : (logBody v q ws ++ ([(v.jmap 0, jsbWith jsb v.jFirst q)] ++
      ([(v.jmap (v.jFirst + 1 + ws.length), commitBlock q now)] ++
        (ws ++ [(v.jmap 0, emptiedJsb v q jsb)])))).take k =
      (logBody v q ws ++ [(v.jmap 0, jsbWith jsb v.jFirst q)]) ++
        ([(v.jmap (v.jFirst + 1 + ws.length), commitBlock q now)] ++
          (ws ++ [(v.jmap 0, emptiedJsb v q jsb)]).take (k - (ws.length + 3))) := by
    rw [← append_assoc, ← append_assoc, take_append, take_of_length_le
      (by simp [length_logBody]; omega)]
    simp only [length_append, length_logBody, length_singleton, append_assoc]
  rw [if_pos (by omega), htake, applyWrites_append]
  by_cases h3 : k - (ws.length + 3) ≤ ws.length
  · rw [take_append_of_le_length h3]
    exact diskOk_checkpoint_take hq hfit hf' hh' hj' hl' hne hblk now _
  rw [take_of_length_le (by simp; omega)]
  obtain ⟨hj'', hf'', hh''⟩ := diskOk_emptied hq hfit hf' hh' now jsb
  exact .idle (q + 1) hj'' hf'' hh'' le_rfl

end CommitPrefix

end Sage040.Ext2
