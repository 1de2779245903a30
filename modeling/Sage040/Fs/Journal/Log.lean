import Sage040.Fs.Journal.Replay

/-!
# What a log says

A log is a sequence of records — descriptors with their copies, revoke records, commits — laid in
consecutive blocks of the circular log, every header carrying the sequence number of the
transaction it belongs to, up to the first block that is not the next expected header. `LogAt`
is that layout, and `jbdCopy` is what JBD makes of the records: the copy that is to go home to a
block is that of the last committed transaction that logs the block, unless a revoke record of the
same or of a later *committed* transaction names it.

The results of this file are about the layout alone: a position and a sequence number determine
the records (`LogAt.unique`), and no header is met twice, so there are at most `j_maxlen` of them
(`LogAt.length_le`) and the pass's own limit is never what stops it.
-/

namespace Sage040.Ext2

open List

/-! ## Records -/

inductive Rec
  /-- A descriptor: the home blocks it names, each with the contents that belong there. -/
  | descriptor (copies : List (Nat × Block))
  | revoke (blks : List Nat)
  | commit

/-- A copy in the log: its transaction (counted from the first in the log), its home block and its
contents. -/
abbrev LogCopy := Nat × Nat × Block

/-- The copies of the records, oldest first, when the first record belongs to transaction `k`. -/
def copiesFrom : Nat → List Rec → List LogCopy
  | _, [] => []
  | k, .descriptor cs :: rs => cs.map (fun c => (k, c)) ++ copiesFrom k rs
  | k, .revoke _ :: rs => copiesFrom k rs
  | k, .commit :: rs => copiesFrom (k + 1) rs

/-- The revoke records, as transaction and block, oldest first. -/
def revokesFrom : Nat → List Rec → List (Nat × Nat)
  | _, [] => []
  | k, .descriptor _ :: rs => revokesFrom k rs
  | k, .revoke bs :: rs => bs.map (fun b => (k, b)) ++ revokesFrom k rs
  | k, .commit :: rs => revokesFrom (k + 1) rs

/-- How many transactions of the log are committed; the rest of the records are the tail of one
that is not. -/
def commits : List Rec → Nat
  | [] => 0
  | .commit :: rs => commits rs + 1
  | _ :: rs => commits rs

/-- `b` is revoked by a committed transaction that is not before `k`. -/
def RevokedSince (rs : List Rec) (b k : Nat) : Prop :=
  ∃ r ∈ revokesFrom 0 rs, r.2 = b ∧ k ≤ r.1 ∧ r.1 < commits rs

instance (rs : List Rec) (b k : Nat) : Decidable (RevokedSince rs b k) :=
  inferInstanceAs (Decidable (∃ r ∈ revokesFrom 0 rs, r.2 = b ∧ k ≤ r.1 ∧ r.1 < commits rs))

/-- What replay owes to the home block `b`: the last copy of a committed transaction that no
committed transaction from then on revokes. -/
def jbdCopy (rs : List Rec) (b : Nat) : Option Block :=
  lastWrite (((copiesFrom 0 rs).filter fun c =>
    c.1 < commits rs ∧ ¬RevokedSince rs c.2.1 c.1).map Prod.snd) b

/-! ## The layout -/

/-- Tags of the descriptor `jbuf` from offset `t` with their copies from journal block `pos` on: the
last tag has `LAST_TAG`, or there is no room for another. The copies end before `pos'`. -/
inductive CopiesAt (v : Volume) (d : Disk) (jbuf : Block) : (t pos : Nat) → List (Nat × Block) →
    (pos' : Nat) → Prop
  | full {t pos : Nat} (h : v.blockSize < t + jbdTagBytes) : CopiesAt v d jbuf t pos [] pos
  | last {t pos : Nat} (h : ¬v.blockSize < t + jbdTagBytes)
      (hl : tagFlags jbuf t &&& jbdFlagLastTag ≠ 0) :
      CopiesAt v d jbuf t pos [(tagBlk jbuf t, unescaped (tagFlags jbuf t) (d (v.jmap pos)))]
        (v.jnext pos)
  | more {t pos pos' : Nat} {cs : List (Nat × Block)} (h : ¬v.blockSize < t + jbdTagBytes)
      (hl : tagFlags jbuf t &&& jbdFlagLastTag = 0)
      (hs : CopiesAt v d jbuf (tagNext jbuf t) (v.jnext pos) cs pos') :
      CopiesAt v d jbuf t pos
        ((tagBlk jbuf t, unescaped (tagFlags jbuf t) (d (v.jmap pos))) :: cs) pos'

/-- The header transaction `seq` expects, of the given type. -/
structure HeaderAt (v : Volume) (d : Disk) (pos seq type : Nat) : Prop where
  magic : (d (v.jmap pos)).be32 0 = jbdMagic
  seq : (d (v.jmap pos)).be32 8 = seq
  type : (d (v.jmap pos)).be32 4 = type

/-- The log from journal block `pos` on, whose first record belongs to transaction `seq`. -/
inductive LogAt (v : Volume) (d : Disk) : (pos seq : Nat) → List Rec → Prop
  | stop {pos seq : Nat} (hd : ¬HeaderAt v d pos seq jbdDescriptor)
      (hc : ¬HeaderAt v d pos seq jbdCommit) (hr : ¬HeaderAt v d pos seq jbdRevoke) :
      LogAt v d pos seq []
  | descriptor {pos seq pos' : Nat} {cs : List (Nat × Block)} {rs : List Rec}
      (h : HeaderAt v d pos seq jbdDescriptor)
      (hs : CopiesAt v d (d (v.jmap pos)) jbdHeader (v.jnext pos) cs pos')
      (hrs : LogAt v d pos' seq rs) : LogAt v d pos seq (.descriptor cs :: rs)
  | commit {pos seq : Nat} {rs : List Rec} (h : HeaderAt v d pos seq jbdCommit)
      (hrs : LogAt v d (v.jnext pos) ((seq + 1) % 2 ^ 32) rs) : LogAt v d pos seq (.commit :: rs)
  | revoke {pos seq : Nat} {rs : List Rec} (h : HeaderAt v d pos seq jbdRevoke)
      (hrs : LogAt v d (v.jnext pos) seq rs) :
      LogAt v d pos seq (.revoke (revokeRecords (d (v.jmap pos)) v.blockSize) :: rs)

variable {v : Volume} {d : Disk}

variable {seq' type type' t k : Nat} {jbuf : Block}

lemma HeaderAt.type_unique {pos seq : Nat} (h : HeaderAt v d pos seq type)
    (h' : HeaderAt v d pos seq' type') : type = type' := h.type.symm.trans h'.type

lemma HeaderAt.seq_unique {pos seq : Nat} (h : HeaderAt v d pos seq type)
    (h' : HeaderAt v d pos seq' type') : seq = seq' := h.seq.symm.trans h'.seq

lemma CopiesAt.pos_lt {pos pos' : Nat} {cs : List (Nat × Block)}
    (h : CopiesAt v d jbuf t pos cs pos') (hp : pos < v.jMaxlen) : pos' < v.jMaxlen := by
  induction h with
  | full => exact hp
  | last => exact v.jnext_lt _
  | more _ _ _ ih => exact ih (v.jnext_lt _)

lemma CopiesAt.unique {pos p1 p2 : Nat} {cs1 cs2 : List (Nat × Block)}
    (h1 : CopiesAt v d jbuf t pos cs1 p1) (h2 : CopiesAt v d jbuf t pos cs2 p2) : cs1 = cs2 ∧
    p1 = p2 := by
  induction h1 generalizing cs2 p2 with
  | full h =>
    cases h2 with
    | full => exact ⟨rfl, rfl⟩
    | last h' => exact absurd h h'
    | more h' => exact absurd h h'
  | last h hl =>
    cases h2 with
    | full h' => exact absurd h' h
    | last => exact ⟨rfl, rfl⟩
    | more _ hl' => exact absurd hl' hl
  | more h hl _ ih =>
    cases h2 with
    | full h' => exact absurd h' h
    | last _ hl' => exact absurd hl hl'
    | more _ _ hs' =>
      obtain ⟨rfl, rfl⟩ := ih hs'
      exact ⟨rfl, rfl⟩

variable {rs : List Rec} {pos seq : Nat}

/-- A record's header: some type, at the record's position and sequence number. -/
lemma LogAt.header (h : LogAt v d pos seq rs) (hne : rs ≠ []) : ∃ type,
    HeaderAt v d pos seq type := by
  cases h with
  | stop => exact absurd rfl hne
  | descriptor h => exact ⟨_, h⟩
  | commit h => exact ⟨_, h⟩
  | revoke h => exact ⟨_, h⟩

lemma LogAt.unique {rs1 rs2 : List Rec} (h1 : LogAt v d pos seq rs1) (h2 : LogAt v d pos seq rs2) :
    rs1 = rs2 := by
  induction h1 generalizing rs2 with
  | stop hd hc hr =>
    cases h2 with
    | stop => rfl
    | descriptor h => exact absurd h hd
    | commit h => exact absurd h hc
    | revoke h => exact absurd h hr
  | descriptor h hs _ ih =>
    cases h2 with
    | stop hd => exact absurd h hd
    | descriptor _ hs' hrs' =>
      obtain ⟨rfl, rfl⟩ := hs.unique hs'
      rw [ih hrs']
    | commit h' => exact absurd (h.type_unique h') (by decide)
    | revoke h' => exact absurd (h.type_unique h') (by decide)
  | commit h _ ih =>
    cases h2 with
    | stop _ hc => exact absurd h hc
    | descriptor h' => exact absurd (h.type_unique h') (by decide)
    | commit _ hrs' => rw [ih hrs']
    | revoke h' => exact absurd (h.type_unique h') (by decide)
  | revoke h _ ih =>
    cases h2 with
    | stop _ _ hr => exact absurd h hr
    | descriptor h' => exact absurd (h.type_unique h') (by decide)
    | commit h' => exact absurd (h.type_unique h') (by decide)
    | revoke _ hrs' => rw [ih hrs']

/-! ## A log does not meet a header twice -/

/-- `ps` are different journal blocks, `n` of them, and from each of them at most `n` records
follow. -/
structure Headers (v : Volume) (d : Disk) (n : Nat) (ps : List Nat) : Prop where
  length_eq : ps.length = n
  nodup : ps.Nodup
  log : ∀ p ∈ ps, p < v.jMaxlen ∧ ∃ seq rs, LogAt v d p seq rs ∧ rs ≠ [] ∧ rs.length ≤ n

/-- A header met again would carry the same sequence number, so the records from it on would be the
same again, and there would be no end to them. -/
lemma Headers.cons {r : Rec} {ps : List Nat}
    (h : LogAt v d pos seq (r :: rs)) (hp : pos < v.jMaxlen) (hps : Headers v d rs.length ps) :
    Headers v d (r :: rs).length (pos :: ps) := by
  refine ⟨by simp [hps.length_eq], nodup_cons.mpr ⟨?_, hps.nodup⟩, ?_⟩
  · intro hmem
    obtain ⟨-, seq', rs', h', hne, hle⟩ := hps.log pos hmem
    obtain ⟨_, hh⟩ := h.header (by simp)
    obtain ⟨_, hh'⟩ := h'.header hne
    obtain rfl := hh.seq_unique hh'
    rw [h'.unique h, length_cons] at hle
    omega
  · intro p hmem
    rcases mem_cons.mp hmem with rfl | hmem
    · exact ⟨hp, seq, _, h, by simp, le_rfl⟩
    obtain ⟨hlt, seq', rs', h', hne, hle⟩ := hps.log p hmem
    exact ⟨hlt, seq', rs', h', hne, hle.trans (by simp)⟩

lemma LogAt.headers (h : LogAt v d pos seq rs) (hp : pos < v.jMaxlen) : ∃ ps,
    Headers v d rs.length ps := by
  induction h with
  | stop => exact ⟨[], rfl, nodup_nil, by simp⟩
  | descriptor hh hs hrs ih =>
    obtain ⟨ps, hps⟩ := ih (hs.pos_lt (v.jnext_lt _))
    exact ⟨_, Headers.cons (.descriptor hh hs hrs) hp hps⟩
  | commit hh hrs ih =>
    obtain ⟨ps, hps⟩ := ih (v.jnext_lt _)
    exact ⟨_, Headers.cons (.commit hh hrs) hp hps⟩
  | revoke hh hrs ih =>
    obtain ⟨ps, hps⟩ := ih (v.jnext_lt _)
    exact ⟨_, Headers.cons (.revoke hh hrs) hp hps⟩

/-- **A log has at most `j_maxlen` records.** -/
lemma LogAt.length_le (h : LogAt v d pos seq rs) (hp : pos < v.jMaxlen) :
    rs.length ≤ v.jMaxlen := by
  obtain ⟨ps, hps⟩ := h.headers hp
  have hsub : ps.toFinset ⊆ Finset.range v.jMaxlen := by
    intro p hmem
    exact Finset.mem_range.mpr (hps.log p (mem_toFinset.mp hmem)).1
  have hcard := Finset.card_le_card hsub
  rwa [toFinset_card_of_nodup hps.nodup, hps.length_eq, Finset.card_range] at hcard

lemma commits_le_length (rs) : commits rs ≤ rs.length := by
  induction rs with
  | nil => simp [commits]
  | cons r rs ih => cases r <;> simp only [commits, length_cons] <;> omega

/-- There are too few transactions in a log for their numbers to wrap. -/
lemma LogAt.commits_lt (h : LogAt v d pos seq rs) (hp : pos < v.jMaxlen) : commits rs < 2 ^ 31 := by
  have h1 := h.length_le hp
  have h2 := commits_le_length rs
  have h3 := v.jMaxlen_lt
  omega

/-! ## Transactions are numbered in order -/

/-- `F k rs` has what each record of `rs` gives, with the transaction it is in; the first is `k`. -/
structure Numbered (part : Rec → List β) (F : Nat → List Rec → List (Nat × β)) : Prop where
  nil : ∀ k, F k [] = []
  cons : ∀ k r rs, F k (r :: rs) = (part r).map (fun c => (k, c)) ++ F (k + commits [r]) rs

variable {part : Rec → List β} {F : Nat → List Rec → List (Nat × β)}

lemma copiesFrom_numbered : Numbered (fun | .descriptor cs => cs | _ => []) copiesFrom :=
  ⟨fun _ => rfl, by rintro k (_ | _ | _) rs <;> rfl⟩

lemma revokesFrom_numbered : Numbered (fun | .revoke bs => bs | _ => []) revokesFrom :=
  ⟨fun _ => rfl, by rintro k (_ | _ | _) rs <;> rfl⟩

lemma Numbered.bounds (h : Numbered part F) {c} (hc : c ∈ F k rs) : k ≤ c.1 ∧
    c.1 ≤ k + commits rs := by
  induction rs generalizing k with
  | nil => simp [h.nil] at hc
  | cons r rs ih =>
    have hcommits : commits (r :: rs) = commits [r] + commits rs := by
      cases r <;> simp [commits, Nat.add_comm]
    rw [h.cons] at hc
    rcases mem_append.mp hc with hc | hc
    · obtain ⟨x, -, rfl⟩ := mem_map.mp hc
      exact ⟨le_rfl, Nat.le_add_right _ _⟩
    · have := ih hc
      omega

/-- In the order of the log the transactions never go back. -/
lemma Numbered.sorted (h : Numbered part F) (k rs) : (F k rs).Pairwise fun a b => a.1 ≤ b.1 := by
  induction rs generalizing k with
  | nil => simp [h.nil]
  | cons r rs ih =>
    rw [h.cons]
    refine pairwise_append.mpr ⟨?_, ih _, ?_⟩
    · rw [pairwise_map]
      exact pairwise_of_forall fun _ _ => le_rfl
    intro a ha b hb
    obtain ⟨x, -, rfl⟩ := mem_map.mp ha
    exact (Nat.le_add_right _ _).trans (h.bounds hb).1

end Sage040.Ext2
