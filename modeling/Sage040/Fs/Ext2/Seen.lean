import Sage040.Fs.Ext2.Calls

/-!
# What is only looked at

`Seen g v w`: from `v` to `w` buffers were fetched and nothing else. It is what reading comes to:
looking names up, walking paths, reading links. What is read depends on the image alone, and not on
which buffers are in the cache: from two volumes that were only looked at it is the same. Each lemma
goes by the function's own recursion.
-/

namespace Sage040.Fs

open Function Exits Vol

namespace Vol

variable {g : Geometry} {v w w' : Vol} {ei : Einode} {k : Nat}

/-! ## Looking -/

structure Seen (g : Geometry) (v w : Vol) : Prop where
  image : w.toImage = v.toImage
  noted : Noted g v → Noted g w

lemma Seen.refl (g v) : Seen g v v := ⟨rfl, id⟩

variable (h : Seen g v w)

include h

lemma Seen.touch : Seen g v w.touch :=
  ⟨(touch_toImage w).trans h.image, fun hn => (h.noted hn).touch⟩

lemma Seen.inode : w.inode = v.inode := by rw [h.image]

variable (h' : Seen g v w')

include h'

lemma Seen.data : w.data = w'.data := by rw [h.image, h'.image]

lemma Seen.descend (p : List Nat) (b : Nat) : Seen g v (w.descend g false p b ei).1 ∧
    (w.descend g false p b ei).2 = (w'.descend g false p b ei).2 := by
  induction p generalizing w w' b with
  | nil => exact ⟨h, rfl⟩
  | cons i p ih =>
    rw [descend, descend]
    split
    · exact ⟨h, rfl⟩
    dsimp only
    rw [h.touch.data h'.touch]
    split
    · exact ih h.touch h'.touch _
    · exact ⟨h.touch, rfl⟩

lemma Seen.bmap (ei k) : Seen g v (w.bmap g ei k false).1 ∧
    (w.bmap g ei k false).2 = (w'.bmap g ei k false).2 := by
  rw [Vol.bmap, Vol.bmap]
  split
  · exact ⟨h, rfl⟩
  split
  · exact h.descend h' _ _
  · exact ⟨h, rfl⟩

lemma Seen.eachBlock {α σ : Type} (ei) (skip : Bool) (visit : Nat → Bytes → σ → α ⊕ σ)
    (ks : List Nat) (s : σ) : Seen g v (w.eachBlock g ei skip visit ks s).1 ∧
      (w.eachBlock g ei skip visit ks s).2 = (w'.eachBlock g ei skip visit ks s).2 := by
  induction ks generalizing w w' s with
  | nil => exact ⟨h, rfl⟩
  | cons k ks ih =>
    obtain ⟨hb, hsame⟩ := h.bmap h' ei k
    have hb' := (h'.bmap h ei k).1
    rw [eachBlock, eachBlock]
    generalize w.bmap g ei k false = r at hb hsame ⊢
    generalize w'.bmap g ei k false = r' at hb' hsame ⊢
    obtain ⟨w1, ei1, r⟩ := r
    obtain ⟨w2, ei2, r'⟩ := r'
    obtain ⟨rfl, rfl⟩ := Prod.mk.inj hsame
    rcases r with e | b
    · dsimp only
      split
      · exact ih hb hb' _
      · exact ⟨hb, rfl⟩
    dsimp only at hb hb' ⊢
    rw [hb.touch.data hb'.touch]
    split
    · exact ih hb hb' _
    split
    · exact ⟨hb, rfl⟩
    split
    · exact ⟨hb.touch, rfl⟩
    · exact ih hb.touch hb'.touch _

lemma Seen.dirNth (dino index : Nat) : Seen g v (w.dirNth g dino index).1 ∧
    (w.dirNth g dino index).2 = (w'.dirNth g dino index).2 := by
  rw [Vol.dirNth, Vol.dirNth, Vol.iread, Vol.iread, h.inode, h'.inode]
  split
  · exact ⟨h, rfl⟩
  split
  · exact ⟨h.touch, rfl⟩
  obtain ⟨hseen, hsame⟩ := h.touch.eachBlock h'.touch _ _ _ _ _
  exact ⟨hseen, by dsimp only; rw [hsame]⟩

lemma Seen.readLoop (ei) (fuel pos len : Nat) (got : List UInt8) :
    Seen g v (w.readLoop g ei fuel pos len got).1 ∧
      (w.readLoop g ei fuel pos len got).2 = (w'.readLoop g ei fuel pos len got).2 := by
  induction fuel generalizing w w' pos len got with
  | zero => exact ⟨h, rfl⟩
  | succ fuel ih =>
    obtain ⟨hb, hsame⟩ := h.bmap h' ei (pos / g.blockSize)
    have hb' := (h'.bmap h ei (pos / g.blockSize)).1
    rw [readLoop, readLoop]
    split
    · exact ⟨h, rfl⟩
    generalize w.bmap g ei (pos / g.blockSize) false = r at hb hsame ⊢
    generalize w'.bmap g ei (pos / g.blockSize) false = r' at hb' hsame ⊢
    obtain ⟨w1, ei1, r⟩ := r
    obtain ⟨w2, ei2, r'⟩ := r'
    obtain ⟨rfl, rfl⟩ := Prod.mk.inj hsame
    rcases r with e | b
    · exact ⟨hb, rfl⟩
    dsimp only at hb hb' ⊢
    rw [hb.data hb']
    split
    · exact ⟨hb, rfl⟩
    · exact ih hb.touch hb'.touch _ _ _

lemma Seen.inodeRead (pos len : Nat) : Seen g v (w.inodeRead g ei pos len).1 ∧
    (w.inodeRead g ei pos len).2 = (w'.inodeRead g ei pos len).2 := by
  rw [Vol.inodeRead, Vol.inodeRead]
  split
  · exact ⟨h, rfl⟩
  obtain ⟨hseen, hsame⟩ := h.readLoop h' ei len pos (min len (ei.size - pos)) []
  exact ⟨hseen, by dsimp only; rw [hsame]⟩

omit h'

lemma Seen.dirLookup {dino : Nat} {name : Name} : Seen g v (w.dirLookup g dino name).1 := by
  rw [Vol.dirLookup]
  split
  · exact h
  split
  · exact h.touch
  · exact (h.touch.eachBlock h.touch _ _ _ _ _).1

end Vol

/-! ## Looking, by statements -/

namespace Ext2

open Vol

variable (g : Geometry) (v : Vol)

lemma steady_iread (ino : Nat) : Steady (Seen g v) (iread g ino) := by
  have hread : ∀ w, Seen g v w → w.iread g ino = v.iread g ino :=
    fun w hw => by rw [Vol.iread, Vol.iread, hw.inode]
  refine .lift (fun w hw => ?_) fun w w' hw hw' => ?_
  · split
    · exact hw
    · exact hw.touch
  · rw [hread w hw, hread w' hw']
    rcases v.iread g ino with e | ei <;> rfl

lemma steady_readLink (size ino : Nat) : Steady (Seen g v) (readLink g size ino) := by
  have hc := composes_steady (ε := Errno) (Seen g v)
  refine (steady_iread g v ino).bind fun ei => hc.ite (.throw _)
    (hc.ite (.throw _) (hc.ite (.pure _) ?_))
  refine Steady.bind (.lift (fun w hw => (hw.inodeRead hw _ _).1) fun w w' hw hw' => ?_) fun r => ?_
  · rw [(hw.inodeRead hw' _ _).2]
  split
  · exact .throw _
  · exact hc.ite (.throw _) (.pure _)

lemma steady_nameIn (parent child : Nat) : Steady (Seen g v) (nameIn g parent child) := by
  have hloop : ∀ fuel i, Steady (Seen g v) (nameInLoop g parent child fuel i) := by
    intro fuel
    induction fuel with
    | zero => exact fun _ => .throw _
    | succ fuel ih =>
      intro i
      rw [nameInLoop]
      refine Steady.bind (.attempt (.lift (fun w hw => (hw.dirNth hw _ _).1)
        fun w w' hw hw' => (hw.dirNth hw' _ _).2)) fun r => ?_
      split
      · exact .throw _
      · exact (composes_steady _).ite (.pure _) (ih _)
  refine ⟨Keeps.bind (fun _ h => h) fun w => (hloop _ _).keeps, fun {w w'} hw hw' => ?_⟩
  have hsame := (hloop (dirBlocks g (w.inode parent) * g.blockSize + 1) 0).same hw hw'
  have hnode : w'.inode = w.inode := hw'.inode.trans hw.inode.symm
  exact hsame.trans (by rw [← hnode]; rfl)

lemma keeps_walker : (walker g).Keeps (Seen g v) where
  lookup _ _ := .lift fun _ hw => hw.dirLookup
  kind ino := (steady_iread g v ino).keeps.bind fun _ => .pure _
  readLink ino := (steady_readLink g v pathMax ino).keeps
  nameIn parent child := (steady_nameIn g v parent child).keeps

end Ext2

end Sage040.Fs
