import Sage040.Fs.Journal.Commit
import Sage040.Fs.Journal.Log

/-!
# The descriptor a commit writes

`journal_commit` builds the descriptor tag by tag while it copies the blocks into the log.
`descriptorOf` is the descriptor it ends with, `copyWrites` the copies, and `copiesAt_descriptorOf`
says that the two together are a descriptor of exactly those blocks in the sense of the log's
layout: reading the tags back gives the blocks and, escapes undone, their contents.
-/

namespace Sage040.Ext2

open Bytes

/-! ## The tags -/

/-- The flags of a tag: every tag but the first shares the UUID, an escaped copy says so, and the
last tag is marked. -/
def tagFlagsOf (i : Nat) (data : Block) (last : Bool) : Nat :=
  let flags := if i = 0 then 0 else jbdFlagSameUuid
  let flags := if data.be32 0 = jbdMagic then flags ||| jbdFlagEscape else flags
  if last then flags ||| jbdFlagLastTag else flags

/-- `jbuf` with tags for the blocks, the first of them the `i`-th tag, at offset `tag`. -/
def descriptorFrom (v : Volume) : List (Nat × Block) → (i tag : Nat) → Block → Block
  | [], _, _, jbuf => jbuf
  | w :: ws, i, tag, jbuf =>
    descriptorFrom v ws (i + 1) (tagAfter i tag)
      (putTag v jbuf i tag w.1 (tagFlagsOf i w.2 ws.isEmpty))

/-- The descriptor of transaction `seq` for these blocks. -/
def descriptorOf (v : Volume) (seq : Nat) (ws : List (Nat × Block)) : Block :=
  descriptorFrom v ws 0 jbdHeader (jheader jbdDescriptor seq)

/-- The copies, from journal block `pos` on. -/
def copyWrites (v : Volume) : (pos : Nat) → List (Nat × Block) → List (Nat × Block)
  | _, [] => []
  | pos, w :: ws => (v.jmap pos, escaped w.2) :: copyWrites v (pos + 1) ws

variable {v : Volume} {d : Disk}

section Flags

variable (i : Nat) (data : Block) (last : Bool)

lemma tagFlagsOf_lt : tagFlagsOf i data last < 2 ^ 16 := by
  unfold tagFlagsOf
  split <;> split <;> split <;> decide

lemma tagFlagsOf_flags : (tagFlagsOf i data last &&& jbdFlagSameUuid = 0 ↔ i = 0) ∧
    (tagFlagsOf i data last &&& jbdFlagEscape ≠ 0 ↔ data.be32 0 = jbdMagic) ∧
    (tagFlagsOf i data last &&& jbdFlagLastTag ≠ 0 ↔ last = true) := by
  unfold tagFlagsOf
  by_cases hi : i = 0 <;> by_cases hm : data.be32 0 = jbdMagic <;> cases last <;>
    simp only [hi, hm, if_true, if_false] <;> decide

end Flags

/-- **Escaping is undone**: whatever the block, what replay takes from the log is the block. -/
lemma unescaped_escaped (i data last) : unescaped (tagFlagsOf i data last)
    (escaped data) = data := by
  unfold unescaped escaped
  by_cases hm : data.be32 0 = jbdMagic
  · rw [if_pos ((tagFlagsOf_flags i data last).2.1.mpr hm), if_pos hm, putBe32_putBe32, ← hm,
      putBe32_be32_self]
  · rw [if_neg (fun h => hm ((tagFlagsOf_flags i data last).2.1.mp h)), if_neg hm]

/-- A copy in the log never begins with the magic number. -/
lemma escaped_be32_ne (data) : (escaped data).be32 0 ≠ jbdMagic := by
  unfold escaped
  split
  · rw [be32_putBe32]
    decide
  · assumption

/-! ## Reading the tags back -/

lemma tagAfter_ge (i tag : Nat) : tag + 8 ≤ tagAfter i tag := by
  unfold tagAfter jbdTagBytes
  split <;> omega

variable {jbuf a b : Block} {i tag o t pos : Nat} {ws : List (Nat × Block)}

lemma putTag_of_lt {blk flags : Nat} (h : o < tag) : putTag v jbuf i tag blk flags o = jbuf o := by
  unfold putTag jbdTagBytes
  split
  · rw [blit_of_ne (by omega), putBe16_of_ne (by omega), putBe16_of_ne (by omega),
      putBe32_of_ne (by omega)]
  · rw [putBe16_of_ne (by omega), putBe16_of_ne (by omega), putBe32_of_ne (by omega)]

lemma tagBlk_putTag (jbuf) (i tag blk flags : Nat) :
    tagBlk (putTag v jbuf i tag blk flags) tag = blk % 2 ^ 32 := by
  have h : (((jbuf.putBe32 tag blk).putBe16 (tag + 4) 0).putBe16 (tag + 6) flags).be32 tag =
      blk % 2 ^ 32 := by
    rw [be32_putBe16_of_disjoint (by omega), be32_putBe16_of_disjoint (by omega), be32_putBe32]
  unfold tagBlk putTag jbdTagBytes
  split
  · rw [← h]
    exact be32_congr fun o _ _ => blit_of_ne (by omega)
  · exact h

lemma tagFlags_putTag (jbuf) (i tag blk flags : Nat) :
    tagFlags (putTag v jbuf i tag blk flags) tag = flags % 2 ^ 16 := by
  unfold tagFlags putTag jbdTagBytes
  split
  · rw [← be16_putBe16 _ (tag + 6) flags]
    exact be16_congr fun o _ _ => blit_of_ne (by omega)
  · exact be16_putBe16 _ _ _

lemma descriptorFrom_of_lt (ws) (h : o < tag) : descriptorFrom v ws i tag jbuf o = jbuf o := by
  induction ws generalizing i tag jbuf with
  | nil => rfl
  | cons w ws ih =>
    have := tagAfter_ge i tag
    rw [descriptorFrom, ih (by omega), putTag_of_lt h]

lemma tagBlk_congr (h : ∀ o < t + 8, a o = b o) : tagBlk a t = tagBlk b t :=
    be32_congr fun o _ ho => h o (by omega)

lemma tagFlags_congr (h : ∀ o < t + 8, a o = b o) :
    tagFlags a t = tagFlags b t := be16_congr fun o _ ho => h o (by omega)

/-- The copies are on the disk, from journal block `pos` on. -/
def CopiesOn (v : Volume) (d : Disk) : (pos : Nat) → List (Nat × Block) → Prop
  | _, [] => True
  | pos, w :: ws => d (v.jmap pos) = escaped w.2 ∧ CopiesOn v d (pos + 1) ws

lemma Volume.jnext_of_lt (h : pos + 1 < v.jMaxlen) : v.jnext pos = pos + 1 := by
  rw [Volume.jnext, if_neg (by omega)]

/-- Room in the descriptor for `n` tags from offset `tag`, the first of them the `i`-th. -/
def TagRoom (v : Volume) (i tag n : Nat) : Prop :=
  tag + 8 * n + (if i = 0 then 16 else 0) ≤ v.blockSize

/-- The tag at the front, as it reads in the finished descriptor. -/
lemma tag_descriptorFrom (w : Nat × Block) (ws i tag jbuf)
    (hw : w.1 < 2 ^ 32) : tagBlk (descriptorFrom v (w :: ws) i tag jbuf) tag = w.1 ∧
      tagFlags (descriptorFrom v (w :: ws) i tag jbuf) tag = tagFlagsOf i w.2 ws.isEmpty := by
  have hbelow : ∀ o < tag + 8, descriptorFrom v (w :: ws) i tag jbuf o =
      putTag v jbuf i tag w.1 (tagFlagsOf i w.2 ws.isEmpty) o := by
    intro o ho
    have := tagAfter_ge i tag
    exact descriptorFrom_of_lt ws (by omega)
  rw [tagBlk_congr hbelow, tagFlags_congr hbelow, tagBlk_putTag, tagFlags_putTag]
  exact ⟨Nat.mod_eq_of_lt hw, Nat.mod_eq_of_lt (tagFlagsOf_lt _ _ _)⟩

/-- **The descriptor reads back**: its tags are those of the blocks, in order, and the copies behind
it are the blocks' contents. -/
lemma copiesAt_descriptorFrom (jbuf) (hne : ws ≠ []) (hroom : TagRoom v i tag ws.length)
    (hblk : ∀ w ∈ ws, w.1 < 2 ^ 32)
    (hcopy : CopiesOn v d pos ws) (hpos : pos + ws.length < v.jMaxlen) :
    CopiesAt v d (descriptorFrom v ws i tag jbuf) tag pos ws (pos + ws.length) := by
  induction ws generalizing i tag pos jbuf with
  | nil => exact absurd rfl hne
  | cons w ws ih =>
    obtain ⟨hb, hf⟩ := tag_descriptorFrom (v := v) w ws i tag jbuf (hblk w List.mem_cons_self)
    obtain ⟨hd, hcopy⟩ := hcopy
    rw [TagRoom, List.length_cons] at hroom
    rw [List.length_cons] at hpos ⊢
    have hfit : ¬v.blockSize < tag + jbdTagBytes := by
      unfold jbdTagBytes
      omega
    have hnext : v.jnext pos = pos + 1 := Volume.jnext_of_lt (by omega)
    -- the entry this tag stands for is `w` itself
    have hw : (tagBlk (descriptorFrom v (w :: ws) i tag jbuf) tag,
        unescaped (tagFlags (descriptorFrom v (w :: ws) i tag jbuf) tag) (d (v.jmap pos))) = w := by
      rw [hb, hf, hd, unescaped_escaped]
    cases ws with
    | nil =>
      have hlast : CopiesAt v d (descriptorFrom v [w] i tag jbuf) tag pos [(_, _)] (v.jnext pos) :=
        .last hfit (by rw [hf]; exact (tagFlagsOf_flags i w.2 true).2.2.mpr rfl)
      rwa [hw, hnext] at hlast
    | cons w' ws =>
      have hlt : tagFlags (descriptorFrom v (w :: w' :: ws) i tag jbuf) tag &&&
          jbdFlagLastTag = 0 := by
        rw [hf]
        exact not_not.mp fun h => absurd ((tagFlagsOf_flags i w.2 false).2.2.mp h) (by simp)
      have htag : tagNext (descriptorFrom v (w :: w' :: ws) i tag jbuf) tag = tagAfter i tag := by
        unfold tagNext tagAfter
        rw [hf]
        simp only [(tagFlagsOf_flags _ _ _).1]
      have hroom' : TagRoom v (i + 1) (tagAfter i tag) (w' :: ws).length := by
        rw [TagRoom, if_neg (Nat.succ_ne_zero i)]
        unfold tagAfter jbdTagBytes
        split at hroom <;> simp_all <;> omega
      have hrest := ih (putTag v jbuf i tag w.1 (tagFlagsOf i w.2 (w' :: ws).isEmpty)) (by simp)
        hroom' (fun x hx => hblk x (List.mem_cons_of_mem _ hx)) hcopy (by omega)
      have hmore : CopiesAt v d (descriptorFrom v (w :: w' :: ws) i tag jbuf) tag pos
          ((_, _) :: w' :: ws) (pos + 1 + (w' :: ws).length) :=
        .more hfit hlt (by rw [htag, hnext]; exact hrest)
      rw [hw] at hmore
      rwa [Nat.add_right_comm, Nat.add_assoc] at hmore

section Header

variable (v : Volume) (seq : Nat) (ws : List (Nat × Block))

lemma descriptorOf_of_lt {o} (h : o < jbdHeader) :
    descriptorOf v seq ws o = jheader jbdDescriptor seq o := descriptorFrom_of_lt ws h

lemma descriptorOf_be32_magic : (descriptorOf v seq ws).be32 0 = jbdMagic := by
  rw [← jheader_be32_magic jbdDescriptor seq]
  exact be32_congr fun o _ ho => descriptorOf_of_lt v seq ws (by unfold jbdHeader; omega)

lemma descriptorOf_be32_type : (descriptorOf v seq ws).be32 4 = jbdDescriptor := by
  rw [show jbdDescriptor = jbdDescriptor % 2 ^ 32 from rfl, ← jheader_be32_type jbdDescriptor seq]
  exact be32_congr fun o _ ho => descriptorOf_of_lt v seq ws (by unfold jbdHeader; omega)

lemma descriptorOf_be32_seq : (descriptorOf v seq ws).be32 8 = seq % 2 ^ 32 := by
  rw [← jheader_be32_seq jbdDescriptor seq]
  exact be32_congr fun o _ ho => descriptorOf_of_lt v seq ws (by unfold jbdHeader; omega)

end Header

lemma copiesAt_descriptorOf {seq} (hne : ws ≠ [])
    (hlen : ws.length ≤ nbuf + 1) (hblk : ∀ w ∈ ws, w.1 < 2 ^ 32) (hcopy : CopiesOn v d pos ws)
    (hpos : pos + ws.length < v.jMaxlen) : CopiesAt v d (descriptorOf v seq ws) jbdHeader pos ws
    (pos + ws.length) := by
  refine copiesAt_descriptorFrom _ hne ?_ hblk hcopy hpos
  have := v.blockSize_ge
  unfold TagRoom jbdHeader
  unfold nbuf at hlen
  simp only [if_true]
  omega

end Sage040.Ext2
