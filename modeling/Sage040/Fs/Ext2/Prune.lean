import Sage040.Fs.Ext2.Owned

/-!
# Giving back the tail of a file

What `free_branch` and `inode_truncate_blocks` do to a volume whose blocks are owned. While a branch
is being freed the pointers to what is gone already still stand in its tables, so the invariant is
restored only when the last of them is cleared. `Pruned` therefore says what happens to one branch
alone: nothing that does not hang from it changes, and what is left of it are its file blocks before
the cut. `Loop` is the same in the middle of a table.

`truncateBlocks_cut` puts the branches together: the file's blocks before the cut are as they were,
the others are holes, and no other file is affected.
-/

namespace Sage040.Fs

open Function Forest List

namespace Vol

variable {g : Geometry} {v v' w : Vol} {root root' : Roots} {b c i j first l : Nat} {gone : Bool}

variable (g) in
/-- What is left of the branch at `b`, `l` tables deep, when its file blocks from `first` on have
been given back. -/
structure Pruned (v v' : Vol) (b l first : Nat) (gone : Bool) : Prop where
  frame : ∀ c, ¬ Below (ptrs v.data) g.addrs l b c → v'.data c = v.data c ∧ v'.bit c = v.bit c
  /-- A branch that is gone altogether had nothing before the cut. -/
  none_ : gone = true → ∀ p, Fits g.addrs l p → p.length = l → index g.addrs p < first →
    walk (ptrs v.data) b p = 0
  sub : gone = false → ∀ p, Fits g.addrs l p → walk (ptrs v'.data) b p ≠ 0 →
    walk (ptrs v'.data) b p = walk (ptrs v.data) b p ∧
      v'.bit (walk (ptrs v.data) b p) = v.bit (walk (ptrs v.data) b p)
  leaf : gone = false → ∀ p, Fits g.addrs l p → p.length = l →
    walk (ptrs v'.data) b p = (if index g.addrs p < first then walk (ptrs v.data) b p else 0) ∧
      (walk (ptrs v'.data) b p ≠ 0 → v'.data (walk (ptrs v.data) b p) =
        v.data (walk (ptrs v.data) b p))
  beside : Beside v v'
  dry : v'.dry = v.dry

variable (g) in
/-- The same for the table in block `b`, whose entries before `j` have been dealt with; `l` tables
hang below it. -/
structure Loop (v v' : Vol) (b l first j : Nat) (gone : Bool) : Prop where
  frame : ∀ c, ¬ Below (ptrs v.data) g.addrs (l + 1) b c → v'.data c = v.data c ∧ v'.bit c = v.bit c
  self : v'.bit b = v.bit b
  rest : ∀ i, j ≤ i → i < g.addrs → ptrs v'.data b i = ptrs v.data b i ∧
    ∀ c, Below (ptrs v.data) g.addrs l (ptrs v.data b i) c → v'.data c = v.data c ∧
      v'.bit c = v.bit c
  sub : ∀ i < j, ∀ p, Fits g.addrs l p → walk (ptrs v'.data) (ptrs v'.data b i) p ≠ 0 →
    walk (ptrs v'.data) (ptrs v'.data b i) p = walk (ptrs v.data) (ptrs v.data b i) p ∧
      v'.bit (walk (ptrs v.data) (ptrs v.data b i) p) =
        v.bit (walk (ptrs v.data) (ptrs v.data b i) p)
  leaf : ∀ i < j, ∀ p, Fits g.addrs l p → p.length = l → walk (ptrs v'.data) (ptrs v'.data b i) p =
      (if i * g.addrs ^ l + index g.addrs p < first then walk (ptrs v.data) (ptrs v.data b i) p
        else 0) ∧
      (walk (ptrs v'.data) (ptrs v'.data b i) p ≠ 0 →
        v'.data (walk (ptrs v.data) (ptrs v.data b i) p) =
          v.data (walk (ptrs v.data) (ptrs v.data b i) p))
  none_ : gone = true → ∀ i < j, ptrs v'.data b i = 0
  beside : Beside v v'
  dry : v'.dry = v.dry

lemma Loop.of_image (h : Loop g v v' b l first j gone) (hw : w.toImage = v'.toImage) :
    Loop g v w b l first j gone := by
  have hd : w.data = v'.data := by rw [hw]
  have hb : w.bit = v'.bit := by rw [hw]
  refine ⟨?_, ?_, ?_, ?_, ?_, ?_, h.beside.trans (.of_image hw), by rw [hw]; exact h.dry⟩ <;>
    simp only [hd, hb]
  · exact h.frame
  · exact h.self
  · exact h.rest
  · exact h.sub
  · exact h.leaf
  · exact h.none_

lemma loop_zero (v b l first) : Loop g v v b l first 0 true :=
  ⟨fun _ _ => ⟨rfl, rfl⟩, rfl, fun _ _ _ => ⟨rfl, fun _ _ => ⟨rfl, rfl⟩⟩, nofun, nofun, nofun,
    .of_image rfl, rfl⟩

section

variable (h : Loop g v v' b l first j gone)
include h

lemma Loop.empty (hj : j < g.addrs)
    (h0 : ptrs v'.data b j = 0) : Loop g v v' b l first (j + 1) gone := by
  have hv : ptrs v.data b j = 0 := (h.rest j (Nat.le_refl j) hj).1.symm.trans h0
  refine ⟨h.frame, h.self, fun i hi => h.rest i (by omega), fun i hi p hp hne => ?_,
    fun i hi p hp hlen => ?_, fun hg i hi => ?_, h.beside, h.dry⟩
  · rcases Nat.lt_succ_iff_lt_or_eq.1 hi with hi | rfl
    · exact h.sub i hi p hp hne
    rw [h0, walk_zero] at hne
    exact absurd rfl hne
  · rcases Nat.lt_succ_iff_lt_or_eq.1 hi with hi | rfl
    · exact h.leaf i hi p hp hlen
    rw [h0, hv, walk_zero, walk_zero]
    exact ⟨by split <;> rfl, fun hne => absurd rfl hne⟩
  · rcases Nat.lt_succ_iff_lt_or_eq.1 hi with hi | rfl
    · exact h.none_ hg i hi
    · exact h0

/-- What hangs from an entry not dealt with yet is as it was. -/
lemma Loop.walk_rest (hj : j < g.addrs) {p : List Nat} (hp : Fits g.addrs l p) :
    walk (ptrs v'.data) (ptrs v'.data b j) p = walk (ptrs v.data) (ptrs v.data b j) p := by
  obtain ⟨he, hsame⟩ := h.rest j (Nat.le_refl j) hj
  rw [he]
  refine walk_congr_below (fun c hc => ?_) hp
  funext k
  rw [ptrs, (hsame c hc).1]
  rfl

lemma Loop.before (hj : j < g.addrs)
    (hcut : (j + 1) * g.addrs ^ l ≤ first) : Loop g v v' b l first (j + 1) false := by
  have hbelow : ∀ p, Fits g.addrs l p → walk (ptrs v.data) (ptrs v.data b j) p ≠ 0 →
      v'.data (walk (ptrs v.data) (ptrs v.data b j) p) =
        v.data (walk (ptrs v.data) (ptrs v.data b j) p) ∧
      v'.bit (walk (ptrs v.data) (ptrs v.data b j) p) =
          v.bit (walk (ptrs v.data) (ptrs v.data b j) p) :=
    fun p hp hne => (h.rest j (Nat.le_refl j) hj).2 _ (below_walk hp hne)
  refine ⟨h.frame, h.self, fun i hi => h.rest i (by omega), fun i hi p hp hne => ?_,
    fun i hi p hp hlen => ?_, nofun, h.beside, h.dry⟩
  · rcases Nat.lt_succ_iff_lt_or_eq.1 hi with hi | rfl
    · exact h.sub i hi p hp hne
    rw [h.walk_rest hj hp] at hne ⊢
    exact ⟨rfl, (hbelow p hp hne).2⟩
  rcases Nat.lt_succ_iff_lt_or_eq.1 hi with hi | rfl
  · exact h.leaf i hi p hp hlen
  have hlt : i * g.addrs ^ l + index g.addrs p < first := by
    have := index_lt hp.2
    rw [hlen] at this
    rw [Nat.add_mul, Nat.one_mul] at hcut
    omega
  rw [h.walk_rest hj hp, if_pos hlt]
  exact ⟨rfl, fun hne => (hbelow p hp hne).1⟩

end

/-- An entry at or across the cut, after what hangs from it was given back: the pointer goes if all
of it did. -/
lemma Loop.branch (w') {sgone : Bool} (h : Loop g v v' b l first j gone) (hj : j < g.addrs)
    (ht : Tree (ptrs v.data) g.addrs (l + 1) b) (hb : b ≠ 0)
    (hP : Pruned g v' w (ptrs v'.data b j) l (first - j * g.addrs ^ l) sgone)
    (hdata : ∀ c, c ≠ b → w'.data c = w.data c)
    (hentry : ∀ i, ptrs w'.data b i = if i = j ∧ sgone = true then 0 else ptrs v'.data b i)
    (hbit : w'.bit = w.bit) (hbeside : Beside w w') (hdry : w'.dry = w.dry) :
    Loop g v w' b l first (j + 1) (gone && sgone) := by
  obtain ⟨he, hsame⟩ := h.rest j (Nat.le_refl j) hj
  have hcong : ∀ c, Below (ptrs v.data) g.addrs l (ptrs v.data b j) c →
      ptrs v'.data c = ptrs v.data c := fun c hc => by
    funext k
    rw [ptrs, (hsame c hc).1]
    rfl
  rw [he] at hP
  have hnot : ∀ c, ¬ Below (ptrs v.data) g.addrs l (ptrs v.data b j) c →
      ¬ Below (ptrs v'.data) g.addrs l (ptrs v.data b j) c :=
        fun c hc => mt (below_congr hcong).1 hc
  have hself : ¬ Below (ptrs v.data) g.addrs l (ptrs v.data b j) b := ht.irrefl hb hj
  have hne_self : ∀ c, Below (ptrs v.data) g.addrs l (ptrs v.data b j) c → c ≠ b := by
    rintro c hc rfl
    exact hself hc
  have far : ∀ c, ¬ Below (ptrs v.data) g.addrs l (ptrs v.data b j) c → c ≠ b →
      w'.data c = v'.data c ∧ w'.bit c = v'.bit c := fun c hc hcb => by
    rw [hdata c hcb, hbit]
    exact hP.frame c (hnot c hc)
  -- what hangs from the other entries does not hang from this one
  have other : ∀ i < g.addrs, i ≠ j → ∀ c, Below (ptrs v.data) g.addrs l (ptrs v.data b i) c →
      w'.data c = v'.data c ∧ w'.bit c = v'.bit c := fun i hi hij c hc =>
    far c (ht.disjoint hb hi hj hij hc) fun heq => ht.irrefl hb hi (heq ▸ hc)
  have walk_other : ∀ i < j, ∀ p, Fits g.addrs l p →
      walk (ptrs w'.data) (ptrs w'.data b i) p = walk (ptrs v'.data) (ptrs v'.data b i) p := by
    intro i hi p hp
    rw [hentry i, if_neg fun hc => Nat.ne_of_lt hi hc.1]
    refine walk_congr fun q k t hq hne => ?_
    have hq' : Fits g.addrs l q := (hq ▸ hp).of_append
    obtain ⟨heq, -⟩ := h.sub i hi q hq' hne
    rw [heq] at hne ⊢
    rw [ptrs, (other i (by omega) (by omega) _ (below_walk hq' hne)).1]
    rfl
  have walk_this : sgone = false → ∀ p, Fits g.addrs l p →
      walk (ptrs w'.data) (ptrs w'.data b j) p = walk (ptrs w.data) (ptrs v.data b j) p := by
    intro hs p hp
    rw [hentry j, if_neg fun hc => by simp [hs] at hc, he]
    refine walk_congr fun q k t hq hne => ?_
    have hq' : Fits g.addrs l q := (hq ▸ hp).of_append
    obtain ⟨heq, -⟩ := hP.sub hs q hq' hne
    rw [heq, walk_congr_below hcong hq'] at hne
    rw [heq, walk_congr_below hcong hq', ptrs, hdata _ (hne_self _ (below_walk hq' hne))]
    rfl
  refine ⟨fun c hc => ?_, ?_, fun i hi hin => ⟨?_, fun c hc => ?_⟩, fun i hi p hp hne => ?_,
    fun i hi p hp hlen => ?_, fun hg i hi => ?_, h.beside.trans (hP.beside.trans hbeside),
    hdry.trans (hP.dry.trans h.dry)⟩
  · have hcb : c ≠ b := by
      rintro rfl
      exact hc (below_self hb)
    have hcj : ¬ Below (ptrs v.data) g.addrs l (ptrs v.data b j) c := fun hcj =>
      hc (below_succ.2 ⟨hb, .inr ⟨j, hj, hcj⟩⟩)
    rw [(far c hcj hcb).1, (far c hcj hcb).2]
    exact h.frame c hc
  · rw [hbit, (hP.frame b (hnot b hself)).2, h.self]
  · rw [hentry i, if_neg fun hc => by omega]
    exact (h.rest i (by omega) hin).1
  · rw [(other i hin (by omega) c hc).1, (other i hin (by omega) c hc).2]
    exact (h.rest i (by omega) hin).2 c hc
  · rcases Nat.lt_succ_iff_lt_or_eq.1 hi with hi | rfl
    · rw [walk_other i hi p hp] at hne ⊢
      obtain ⟨heq, hbits⟩ := h.sub i hi p hp hne
      rw [heq] at hne
      exact ⟨heq, by rw [(other i (by omega) (by omega) _ (below_walk hp hne)).2, hbits]⟩
    cases hs : sgone with
    | true =>
      rw [hentry i, if_pos ⟨rfl, hs⟩, walk_zero] at hne
      exact absurd rfl hne
    | false =>
      rw [walk_this hs p hp] at hne ⊢
      obtain ⟨heq, hbits⟩ := hP.sub hs p hp hne
      rw [walk_congr_below hcong hp] at heq hbits
      rw [heq] at hne ⊢
      exact ⟨rfl, by rw [hbit, hbits, (hsame _ (below_walk hp hne)).2]⟩
  · rcases Nat.lt_succ_iff_lt_or_eq.1 hi with hi | rfl
    · obtain ⟨heq, hd⟩ := h.leaf i hi p hp hlen
      rw [walk_other i hi p hp]
      refine ⟨heq, fun hne => ?_⟩
      have hsub := (h.sub i hi p hp hne).1
      rw [(other i (by omega) (by omega) _ (below_walk hp (hsub ▸ hne))).1, hd hne]
    have hlt : index g.addrs p < first - i * g.addrs ^ l ↔
      i * g.addrs ^ l + index g.addrs p < first := by omega
    cases hs : sgone with
    | true =>
      rw [hentry i, if_pos ⟨rfl, hs⟩, walk_zero]
      refine ⟨?_, fun hne => absurd rfl hne⟩
      split
      · rename_i hlt'
        rw [← walk_congr_below hcong hp, hP.none_ hs p hp hlen (hlt.2 hlt')]
      · rfl
    | false =>
      obtain ⟨heq, hd⟩ := hP.leaf hs p hp hlen
      rw [walk_congr_below hcong hp] at heq hd
      rw [walk_this hs p hp]
      refine ⟨by rw [heq]; simp only [hlt], fun hne => ?_⟩
      have hsub := (hP.sub hs p hp hne).1
      rw [walk_congr_below hcong hp] at hsub
      have hbelow := below_walk hp (hsub ▸ hne)
      rw [hdata _ (hne_self _ hbelow), hd hne, (hsame _ hbelow).1]
  · rw [Bool.and_eq_true] at hg
    rcases Nat.lt_succ_iff_lt_or_eq.1 hi with hi | rfl
    · rw [hentry i, if_neg fun hc => by omega]
      exact h.none_ hg.1 i hi
    · rw [hentry i, if_pos ⟨rfl, hg.2⟩]

variable {blocks ino : Nat} {keep keep' : Nat → Nat → Bool}

lemma freeOne_pruned (hb : b ≠ 0) (hin : g.Inside b) :
    Pruned g v (freeOne g v blocks b).v b 0 0 true := by
  have h : Gave v (v.blockFree g b) b := blockFree_gave hin
  refine ⟨fun c hc => ?_, fun _ _ _ _ hlt => absurd hlt (Nat.not_lt_zero _), nofun, nofun,
    h.beside, h.dry⟩
  have hcb : c ≠ b := by
    rintro rfl
    exact hc (below_self hb)
  exact ⟨h.data c hcb, by rw [freeOne, h.bit, update_of_ne hcb]⟩

lemma freeEntries_loop (branch : Nat → Nat → Vol → Nat → Freeing) (first blocks) (hb : b ≠ 0)
    (ht : Tree (ptrs v.data) g.addrs (l + 1) b) (hin : ∀ c,
    Below (ptrs v.data) g.addrs (l + 1) b c → g.Inside c)
    (hbranch : ∀ (w : Vol) (e first blocks : Nat), e ≠ 0 → (l = 0 → first = 0) →
      Tree (ptrs w.data) g.addrs l e → (∀ c, Below (ptrs w.data) g.addrs l e c → g.Inside c) →
      Pruned g w (branch e first w blocks).v e l first (branch e first w blocks).gone) {j} (hj :
      j ≤ g.addrs) :
    Loop g v ((List.range j).foldl (freeEntry branch (g.addrs ^ l) first b) ⟨v, blocks, true⟩).v b l
    first j
      ((List.range j).foldl (freeEntry branch (g.addrs ^ l) first b) ⟨v, blocks, true⟩).gone := by
  induction j with
  | zero => exact loop_zero v b l first
  | succ j ih =>
    rw [range_succ, foldl_concat]
    generalize (range j).foldl (freeEntry branch (g.addrs ^ l) first b) ⟨v, blocks, true⟩ = r at ih
    have h : Loop g v r.v.touch b l first j r.gone := (ih (by omega)).of_image (touch_toImage _)
    obtain ⟨he, hsame⟩ := h.rest j (Nat.le_refl j) hj
    have hcong : ∀ c, Below (ptrs v.data) g.addrs l (ptrs v.data b j) c →
        ptrs r.v.touch.data c = ptrs v.data c := fun c hc => by
      funext k
      rw [ptrs, (hsame c hc).1]
      rfl
    simp only [freeEntry]
    split
    · rename_i h0
      exact h.empty hj h0
    rename_i hne
    split
    · rename_i hcut
      exact h.before hj hcut
    rename_i hcut
    have hP := hbranch r.v.touch (ptrs r.v.touch.data b j) (first - j * g.addrs ^ l) r.blocks hne
      (fun hl => by subst hl; simp at hcut ⊢; omega)
      (by rw [he]; exact (ht.child hb hj).congr hcong)
      (by
        rw [he]
        exact fun c hc => hin c (below_succ.2 ⟨hb, .inr ⟨j, hj, (below_congr hcong).1 hc⟩⟩))
    have hself : ¬ Below (ptrs r.v.touch.data) g.addrs l (ptrs r.v.touch.data b j) b := by
      rw [he, below_congr hcong]
      exact ht.irrefl hb hj
    have hptrs := congrArg (fun (c : Bytes) i => c.le32 (4 * i)) (hP.frame b hself).1
    change Loop g v (if _ then _ else _ : Freeing).v b l first (j + 1) _
    rw [show (r.v.touch.data b).le32 (4 * j) = ptrs r.v.touch.data b j from rfl]
    generalize branch (ptrs r.v.touch.data b j) (first - j * g.addrs ^ l) r.v.touch r.blocks =
      s at *
    split
    · rename_i hs
      have hw : ((s.v.touch.setData b ((s.v.touch.data b).putLe32 (4 * j) 0)).dirty).data =
          update s.v.data b ((s.v.data b).putLe32 (4 * j) 0) := by
        simp [setData]
      have hloop := h.branch (s.v.touch.setData b ((s.v.touch.data b).putLe32 (4 * j) 0)).dirty
        hj ht hb hP
        (fun c hc => by rw [hw, update_of_ne hc])
        (fun i => by
          rw [hw, ptrs_putLe32 _ (by decide), setPtr]
          simp only [hs, true_and, and_true]
          rw [← show ptrs s.v.data b i = ptrs r.v.touch.data b i from congrFun hptrs i])
        (by simp [setData]) (by constructor <;> simp [setData]) (by simp [setData])
      rwa [hs, Bool.and_true] at hloop
    · rename_i hs
      rw [Bool.not_eq_true] at hs
      have hloop := h.branch s.v hj ht hb hP (fun _ _ => rfl)
        (fun i => by rw [if_neg (by simp [hs])]; exact congrFun hptrs i) rfl (.of_image rfl) rfl
      rwa [hs, Bool.and_false] at hloop

/-- **What `free_branch` does to a branch.** -/
lemma freeBranch_pruned (hb : b ≠ 0) (hl : l = 0 → first = 0) (ht : Tree (ptrs v.data) g.addrs l b)
    (hin : ∀ c, Below (ptrs v.data) g.addrs l b c → g.Inside c) :
    Pruned g v (freeBranch g l b first v blocks).v b l first
    (freeBranch g l b first v blocks).gone := by
  induction l generalizing v b first blocks with
  | zero =>
    rw [freeBranch, if_neg hb, hl rfl]
    exact freeOne_pruned hb (hin b (below_self hb))
  | succ l ih =>
    have hlt : ¬ g.blocksCount ≤ b := Nat.not_le.2 (hin b (below_self hb)).2
    have h := freeEntries_loop (freeBranch g l) first blocks hb ht hin
      (fun w e first blocks he hl ht hin => ih he hl ht hin) (Nat.le_refl _)
    simp only [freeBranch, if_neg hb, if_neg hlt]
    generalize (range g.addrs).foldl
      (freeEntry (freeBranch g l) (g.addrs ^ l) first b) ⟨v, blocks, true⟩ = r at h ⊢
    split
    · rename_i hgone
      have hfree : Gave r.v (r.v.blockFree g b) b := blockFree_gave (hin b (below_self hb))
      refine ⟨fun c hc => ?_, fun _ p hp hlen hlt => ?_,
        by rintro ⟨⟩, by rintro ⟨⟩, h.beside.trans hfree.beside,
        hfree.dry.trans h.dry⟩
      · have hcb : c ≠ b := by
          rintro rfl
          exact hc (below_self hb)
        rw [freeOne, hfree.data c hcb, hfree.bit, update_of_ne hcb]
        exact h.frame c hc
      cases p with
      | nil => cases hlen
      | cons i p =>
        obtain ⟨hi, hp⟩ := fits_cons.1 hp
        have hlen : p.length = l := Nat.succ.inj hlen
        have hleaf := (h.leaf i hi p hp hlen).1
        rw [h.none_ hgone i hi, walk_zero] at hleaf
        rw [index, hlen] at hlt
        rw [if_pos hlt] at hleaf
        rw [walk_cons hb, ← hleaf]
    · rename_i hgone
      rw [Bool.not_eq_true] at hgone
      rw [hgone]
      refine ⟨h.frame, by rintro ⟨⟩, fun _ p hp hne => ?_, fun _ p hp hlen => ?_, h.beside, h.dry⟩
      · cases p with
        | nil => exact ⟨rfl, h.self⟩
        | cons i p =>
          obtain ⟨hi, hp⟩ := fits_cons.1 hp
          rw [walk_cons hb, walk_cons hb] at *
          exact h.sub i hi p hp hne
      cases p with
      | nil => cases hlen
      | cons i p =>
        obtain ⟨hi, hp⟩ := fits_cons.1 hp
        have hlen : p.length = l := Nat.succ.inj hlen
        rw [walk_cons hb, walk_cons hb, index, hlen]
        exact h.leaf i hi p hp hlen

/-! ## The whole map of a file -/

variable (g) in
/-- What is left when blocks of inode `ino` have been given back: of its file blocks those that
`keep` names by entry and index, and everybody else's. -/
structure Cut (v : Vol) (root : Roots) (v' : Vol) (root' : Roots) (ino : Nat)
    (keep : Nat → Nat → Bool) : Prop where
  owned : Owned g v' root'
  roots : ∀ r, root' r = root r ∨ (r.1 = ino ∧ root' r = 0)
  leaf : ∀ r p, Path lvl g.addrs r p → p.length = lvl r → node (ptrs v'.data) root' r p =
      (if r.1 = ino ∧ keep r.2 (index g.addrs p) = false then 0 else node (ptrs v.data) root r p) ∧
    (node (ptrs v'.data) root' r p ≠ 0 → v'.data (node (ptrs v.data) root r p) =
      v.data (node (ptrs v.data) root r p))
  beside : Beside v v'
  dry : v'.dry = v.dry

lemma Owned.cut_refl (h : Owned g v root) (ino) : Cut g v root v root ino fun _ _ => true :=
  ⟨h, fun _ => .inl rfl, fun _ _ _ _ => ⟨by simp, fun _ => rfl⟩, .of_image rfl, rfl⟩

lemma Cut.trans {root''} (h : Cut g v root v' root' ino keep)
    (h' : Cut g v' root' w root'' ino keep') :
    Cut g v root w root'' ino fun s i => keep s i && keep' s i := by
  refine ⟨h'.owned, fun r => ?_, fun r p hp hlen => ?_, h.beside.trans h'.beside,
    h'.dry.trans h.dry⟩
  · rcases h'.roots r with h1 | h1
    · rcases h.roots r with h2 | h2
      · exact .inl (h1.trans h2)
      · exact .inr ⟨h2.1, h1.trans h2.2⟩
    · exact .inr h1
  obtain ⟨h1, d1⟩ := h.leaf r p hp hlen
  obtain ⟨h2, d2⟩ := h'.leaf r p hp hlen
  have heq : node (ptrs w.data) root'' r p =
      if r.1 = ino ∧ (keep r.2 (index g.addrs p) && keep' r.2 (index g.addrs p)) = false then 0
      else node (ptrs v.data) root r p := by
    rw [h2, h1]
    by_cases hr : r.1 = ino <;> cases keep r.2 (index g.addrs p) <;>
      cases keep' r.2 (index g.addrs p) <;> simp [hr]
  refine ⟨heq, fun hne => ?_⟩
  -- a block that is left at the end was left by the first
  have hne1 : node (ptrs v'.data) root' r p ≠ 0 := by
    intro h0
    rw [h2, h0] at hne
    split at hne <;> exact hne rfl
  have hold : node (ptrs v'.data) root' r p = node (ptrs v.data) root r p := by
    rw [h1] at hne1 ⊢
    split at hne1
    · exact absurd rfl hne1
    rename_i hk
    rw [if_neg hk]
  rw [← hold, d2 hne, hold, d1 hne1]

lemma Owned.cut_pruned (ino s : Nat) (h : Owned g v root)
    (hP : Pruned g v v' (root (ino, s)) (lvl (ino, s)) first gone) :
    Cut g v root v' (if gone then update root (ino, s) 0 else root) ino fun s' i => s' != s ||
    decide (i < first) := by
  have hother : ∀ r, r ≠ (ino, s) → ∀ c, Below (ptrs v.data) g.addrs (lvl r) (root r) c →
      v'.data c = v.data c ∧ v'.bit c = v.bit c := fun r hr c hc =>
    hP.frame c (h.owns.disjoint hr hc)
  have hroot : ∀ r, r ≠ (ino, s) → (if gone then update root (ino, s) 0 else root) r = root r := by
    intro r hr
    split
    · exact update_of_ne hr _ _
    · rfl
  have hnode : ∀ r p, r ≠ (ino, s) → Path lvl g.addrs r p →
      node (ptrs v'.data) (if gone then update root (ino, s) 0 else root) r p =
        node (ptrs v.data) root r p := by
    intro r p hr hp
    rw [node, hroot r hr]
    refine walk_congr_below (fun c hc => ?_) hp
    funext k
    rw [ptrs, (hother r hr c hc).1]
    rfl
  have hzero : gone = true → ∀ p,
      node (ptrs v'.data) (if gone then update root (ino, s) 0 else root) (ino, s) p = 0 := by
    intro hg p
    rw [node, if_pos hg, update_self, walk_zero]
  -- what is left is where it was, with its mark
  have hleft : ∀ r p, Path lvl g.addrs r p →
      node (ptrs v'.data) (if gone then update root (ino, s) 0 else root) r p ≠ 0 →
      node (ptrs v'.data) (if gone then update root (ino, s) 0 else root) r p =
        node (ptrs v.data) root r p ∧
      v'.bit (node (ptrs v.data) root r p) = v.bit (node (ptrs v.data) root r p) := by
    intro r p hp hne
    by_cases hr : r = (ino, s)
    · subst hr
      cases hg : gone with
      | true => exact absurd (hzero hg p) hne
      | false =>
        rw [hg] at hne
        exact hP.sub hg p hp hne
    · rw [hnode r p hr hp] at hne ⊢
      exact ⟨rfl, (hother r hr _ (below_walk hp hne)).2⟩
  refine ⟨⟨h.owns.sub (fun r p hp hne => (hleft r p hp hne).1) fun r p hp hne => ?_,
    fun b hb => ?_⟩,
    fun r => ?_, fun r p hp hlen => ?_, hP.beside, hP.dry⟩
  · obtain ⟨heq, hbit⟩ := hleft r p hp hne
    rw [heq] at hne ⊢
    obtain ⟨hg, hin⟩ := h.owns.held r p hp hne
    exact ⟨by rw [hbit, hg], hin⟩
  · by_cases hbelow : Below (ptrs v.data) g.addrs (lvl (ino, s)) (root (ino, s)) b
    · obtain ⟨hne, p, hp, rfl⟩ := hbelow
      exact absurd hb (h.owns.held (ino, s) p hp hne).2.2
    · rw [(hP.frame b hbelow).2]
      exact h.metaTaken b hb
  · by_cases hr : r = (ino, s)
    · subst hr
      cases gone with
      | true => exact .inr ⟨rfl, update_self ..⟩
      | false => exact .inl rfl
    · exact .inl (hroot r hr)
  by_cases hr : r = (ino, s)
  · subst hr
    cases hg : gone with
    | true =>
      have := hzero hg p
      rw [hg] at this
      rw [this]
      refine ⟨?_, fun hne => absurd rfl hne⟩
      split
      · rfl
      rename_i hk
      refine (hP.none_ hg p hp hlen ?_).symm
      simpa using hk
    | false =>
      obtain ⟨heq, hd⟩ := hP.leaf hg p hp hlen
      refine ⟨?_, hd⟩
      refine heq.trans ?_
      by_cases hlt : index g.addrs p < first <;> simp [hlt, node]
  · rw [hnode r p hr hp]
    refine ⟨?_, fun hne => (hother r hr _ (below_walk hp hne)).1⟩
    rw [if_neg]
    rintro ⟨hino, hk⟩
    have : r.2 ≠ s := fun hs => hr (Prod.ext hino hs)
    simp [this] at hk

/-- Which of the blocks that are there are kept is all that matters. -/
lemma Cut.congr (h : Cut g v root v' root' ino keep)
    (hk : ∀ s p, Path lvl g.addrs (ino, s) p → p.length = lvl (ino, s) →
      node (ptrs v.data) root (ino, s) p ≠ 0 → keep s (index g.addrs p) =
      keep' s (index g.addrs p)) :
    Cut g v root v' root' ino keep' := by
  refine ⟨h.owned, h.roots, fun r p hp hlen => ⟨?_, (h.leaf r p hp hlen).2⟩, h.beside, h.dry⟩
  rw [(h.leaf r p hp hlen).1]
  by_cases hr : r.1 = ino
  · obtain ⟨r1, s⟩ := r
    subst hr
    by_cases h0 : node (ptrs v.data) root (r1, s) p = 0
    · rw [h0]
      simp
    · simp only [hk s p hp hlen h0]
  · simp [hr]

section Truncate

variable {ino s : Nat} {ei : Einode}

/-- Which leaves stay when entry `s` is cut at `first`. -/
def keepTo (s first : Nat) : Nat → Nat → Bool := fun s' i => s' != s || decide (i < first)

/-- An entry of `i_block` that leads nowhere. -/
lemma cut_none (first) (h : Owned g v (setRoots root ino ei.block)) (hs : s < 15)
    (hb : ei.block s = 0) :
    Cut g v (setRoots root ino ei.block) v (setRoots root ino ei.block) ino (keepTo s first) := by
  refine (h.cut_refl ino).congr fun s' p hp hlen hne => ?_
  have hne' : s' ≠ s := by
    rintro rfl
    exact hne (by rw [node, setRoots_self hs, hb, walk_zero])
  simp [keepTo, hne']

variable (h : Owned g v (setRoots root ino ei.block))

include h

/-- An entry of `i_block` after what hung from it was given back. -/
lemma cut_word (hs : s < 15) (hP : Pruned g v v' (ei.block s) (lvl (ino, s)) first gone) :
    Cut g v (setRoots root ino ei.block) v'
      (setRoots root ino (if gone then ei.setBlock s 0 else ei).block) ino (keepTo s first) := by
  have hroots : setRoots root ino (if gone then ei.setBlock s 0 else ei).block =
      if gone then update (setRoots root ino ei.block) (ino, s) 0
      else setRoots root ino ei.block := by
    cases gone with
    | true => exact setRoots_update hs
    | false => rfl
  have hcut := h.cut_pruned ino s (by rw [setRoots_self hs]; exact hP)
  rw [hroots]
  exact hcut

/-- What hangs from an entry of `i_block` is a branch. -/
lemma branch_of_word (hs : s < 15) : Tree (ptrs v.data) g.addrs (lvl (ino, s)) (ei.block s) ∧
      ∀ c, Below (ptrs v.data) g.addrs (lvl (ino, s)) (ei.block s) c → g.Inside c := by
  have hword : setRoots root ino ei.block (ino, s) = ei.block s := setRoots_self hs
  rw [← hword]
  refine ⟨h.owns.tree (ino, s), ?_⟩
  rintro c ⟨hne, p, hp, rfl⟩
  exact (h.owns.held (ino, s) p hp hne).2.1

lemma truncDirect_cut (hs : s < 12) : Cut g v (setRoots root ino ei.block)
    (truncDirect g (v, ei) s).1
      (setRoots root ino (truncDirect g (v, ei) s).2.block) ino (keepTo s 0) := by
  have hs' : s < 15 := Nat.lt_trans hs (by decide)
  have hlvl : lvl (ino, s) = 0 := by
    rw [lvl]
    exact Nat.sub_eq_zero_of_le (by omega)
  rw [truncDirect]
  split
  · rename_i hb
    exact cut_none 0 h hs' hb
  rename_i hb
  have hin := (branch_of_word h hs').2 (ei.block s) (below_self hb)
  have hP : Pruned g v (freeOne g v ei.blocks (ei.block s)).v (ei.block s) (lvl (ino, s)) 0 true :=
      by
    rw [hlvl]
    exact freeOne_pruned hb hin
  exact cut_word h hs' hP

lemma truncBranch_cut {level : Nat} (hs : s < 15) (hlvl : lvl (ino, s) = level + 1) :
    Cut g v (setRoots root ino ei.block) (truncBranch g s (level + 1) first (v, ei)).1
      (setRoots root ino (truncBranch g s (level + 1) first (v, ei)).2.block) ino
      (keepTo s first) := by
  obtain ⟨ht, hin⟩ := branch_of_word h hs
  by_cases hb : ei.block s = 0
  · have hgone : freeBranch g (level + 1) (ei.block s) first v ei.blocks = ⟨v, ei.blocks, true⟩ :=
      by
      rw [freeBranch, if_pos hb]
    have hsame : update ei.block s 0 = ei.block := by rw [← hb, update_eq_self]
    simp only [truncBranch, hgone, if_true, Einode.setBlock, hsame]
    exact cut_none first h hs hb
  rw [hlvl] at ht hin
  have hP : Pruned g v (freeBranch g (level + 1) (ei.block s) first v ei.blocks).v (ei.block s)
      (level + 1) first (freeBranch g (level + 1) (ei.block s) first v ei.blocks).gone :=
    freeBranch_pruned hb nofun ht hin
  rw [← hlvl] at hP
  have hcut := cut_word h hs hP
  rw [hlvl] at hcut
  simp only [truncBranch]
  cases hg : (freeBranch g (level + 1) (ei.block s) first v ei.blocks).gone <;>
    rw [hg] at hcut <;> exact hcut

lemma truncDirects_cut {l : List Nat} (hl : ∀ s ∈ l, s < 12) :
    Cut g v (setRoots root ino ei.block) (l.foldl (truncDirect g) (v, ei)).1
      (setRoots root ino (l.foldl (truncDirect g) (v, ei)).2.block) ino
      (fun s _ => decide (s ∉ l)) := by
  induction l generalizing v ei with
  | nil => exact (h.cut_refl ino).congr fun _ _ _ _ _ => by simp
  | cons s l ih =>
    have h1 := truncDirect_cut h (hl s mem_cons_self)
    have h2 := ih h1.owned fun s' hs' => hl s' (mem_cons_of_mem s hs')
    exact (h1.trans h2).congr fun s' _ _ _ _ => by
      rw [Bool.eq_iff_iff]
      simp [keepTo]

omit h

/-- An indirect entry, looked at only if the cut is in it or before it. -/
lemma truncBranch_cut_of_lt (level first many : Nat) {r r' : Vol × Einode}
    (h : Owned g r.1 (setRoots root ino r.2.block)) (hs : s < 15)
    (hlvl : lvl (ino, s) = level + 1) (hmany : many = g.addrs ^ (level + 1))
    (hr : (if first < many then truncBranch g s (level + 1) first r else r) = r') :
    Cut g r.1 (setRoots root ino r.2.block) r'.1 (setRoots root ino r'.2.block) ino
    (keepTo s first) := by
  subst hr hmany
  split
  · exact truncBranch_cut h hs hlvl
  refine (h.cut_refl ino).congr fun s' p hp hlen _ => ?_
  have hlt := index_lt hp.2
  rw [hlen] at hlt
  by_cases hs' : s' = s
  · subst hs'
    rw [hlvl] at hlt
    have : index g.addrs p < first := by omega
    simp [keepTo, this]
  · simp [keepTo, hs']

/-- Copies of an inode that differ in their maps only. -/
def Alike (ei ei' : Einode) : Prop := ei' = { ei with block := ei'.block, blocks := ei'.blocks }

lemma Alike.trans {ei ei' ei''} (h : Alike ei ei') (h' : Alike ei' ei'') : Alike ei ei'' := by
  rw [Alike, h', h]

lemma truncDirects_alike (l : List Nat) (r : Vol × Einode) :
    Alike r.2 (l.foldl (truncDirect g) r).2 := by
  induction l generalizing r with
  | nil => rfl
  | cons s l ih =>
    refine Alike.trans ?_ (ih (truncDirect g r s))
    rw [truncDirect]
    split <;> rfl

lemma truncBranch_alike (s level first : Nat) (r : Vol × Einode) :
    Alike r.2 (truncBranch g s level first r).2 := by
  simp only [truncBranch]
  split <;> rfl

lemma truncateBlocks_alike (v ei) (start : Nat) : Alike ei (truncateBlocks g v ei start).2 := by
  refine Alike.trans ?_ (truncBranch_alike _ _ _ _)
  have hif : ∀ (c : Prop) [Decidable c] (s level first : Nat) (r : Vol × Einode), Alike ei r.2 →
      Alike ei (if c then truncBranch g s level first r else r).2 := by
    intro c _ s level first r hr
    split
    · exact hr.trans (truncBranch_alike _ _ _ _)
    · exact hr
  exact hif _ _ _ _ _ (hif _ _ _ _ _ (truncDirects_alike _ (v, ei)))

/-- **What `inode_truncate_blocks` leaves**: the file's blocks before `start`. -/
lemma truncateBlocks_cut (h : Owned g v (setRoots root ino ei.block)) (start : Nat) :
    Cut g v (setRoots root ino ei.block) (truncateBlocks g v ei start).1
      (setRoots root ino (truncateBlocks g v ei start).2.block) ino
      (fun s i => decide (firstOf g.addrs s + i < start)) := by
  simp only [truncateBlocks]
  have h0 := truncDirects_cut (l := range' start (12 - start)) h fun s hs => by
    rw [mem_range'_1] at hs
    omega
  generalize (range' start (12 - start)).foldl (truncDirect g) (v, ei) = r0 at h0 ⊢
  generalize hr1 : (if start - 12 < g.addrs then truncBranch g 12 1 (start - 12) r0 else r0) = r1
  have h1 := truncBranch_cut_of_lt 0 (start - 12) g.addrs h0.owned (by decide) rfl
    (Nat.pow_one _).symm hr1
  generalize hr2 : (if start - 12 - g.addrs < g.addrs * g.addrs then
    truncBranch g 13 2 (start - 12 - g.addrs) r1 else r1) = r2
  have h2 := truncBranch_cut_of_lt 1 (start - 12 - g.addrs) (g.addrs * g.addrs) h1.owned (by decide)
    rfl (Nat.pow_two _).symm hr2
  have h3 : Cut g r2.1 _ _ _ ino (keepTo 14 (start - 12 - g.addrs - g.addrs * g.addrs)) :=
    truncBranch_cut h2.owned (by decide) rfl
  refine (((h0.trans h1).trans h2).trans h3).congr fun s p hp hlen hne => ?_
  have hs : s < 15 := by
    by_contra hge
    exact hne (by rw [node, setRoots, if_pos rfl, if_neg hge, walk_zero])
  rw [Bool.eq_iff_iff]
  simp only [Bool.and_eq_true, decide_eq_true_eq, keepTo, Bool.or_eq_true, bne_iff_ne, mem_range'_1]
  by_cases hdir : s < 12
  · -- one block, at index `0`
    have hp0 : p = [] := length_eq_zero_iff.1 (hlen.trans (Nat.sub_eq_zero_of_le (by omega)))
    rw [hp0, index, firstOf, if_pos (by omega)]
    omega
  · have hcases : s = 12 ∨ s = 13 ∨ s = 14 := by omega
    rcases hcases with rfl | rfl | rfl <;> simp [firstOf] <;> omega

end Truncate

end Vol

end Sage040.Fs
