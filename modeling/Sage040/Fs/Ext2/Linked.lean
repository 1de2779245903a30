import Sage040.Fs.Ext2.Chroot
import Sage040.Fs.Trail

/-!
# The symbolic links of a volume

A volume whose directories are a tree shows a walk that tree and the targets of its links, whatever
it has been asked before (`follows`).
-/

namespace Sage040.Fs

open Exits

namespace Vol

variable (g : Geometry)

/-- The directories of a volume and its symbolic links. -/
def linked (v : Vol) : Linked where
  toTree := v.tree g
  target ino := (finish (Ext2.readLink g pathMax ino) v).2

/-- What an entry calls a directory is one. -/
def Typed (v : Vol) : Prop := ∀ d, IsDir g v d → ∀ e ∈ dirEntries g v d, e.type = ftDir →
    IsDir g v e.ino

end Vol

namespace Ext2

open Vol

variable {g : Geometry} {v : Vol} {rank : Nat → Nat}

variable (hv : Hierarchy g v rank)

include hv

/-- **A volume shows its tree and its links to a walk.** -/
lemma follows : (walker g).Follows (Seen g v) (v.linked g) where
  toShows := shows hv
  target _ hw ino := (steady_readLink g v pathMax ino).ends (Seen.refl g v) hw
  name := steady_nameIn g v

lemma truthful (ht : Typed g v) : (v.linked g).Truthful where
  dir h := by
    obtain ⟨e, he, rfl, heq⟩ := entry_of_look hv h
    obtain ⟨rfl, htype⟩ := Prod.mk.inj heq
    exact tree_kind.2 (ht _ (isDir_of_look h) e he htype)
  link {x path} h := by
    by_contra hkind
    have hread : Ends (iread g x) v fun _ r => r = v.iread g x := by
      rw [iread, ends_lift]
      rcases v.iread g x with e | ei <;> rfl
    have hend : Ends (readLink g pathMax x) v fun _ r => ∃ e, r = .error e := by
      refine hread.bind (fun w ei hei => .ite (fun _ => ⟨_, rfl⟩) fun hlnk => absurd ?_ hkind) fun _
        e _ => ⟨e, rfl⟩
      simp only [linked, tree, ← hei]
      exact congrArg Except.ok (not_not.1 hlnk)
    obtain ⟨e, he⟩ := hend
    have herr : Except.error e = Except.ok path := he.symm.trans h
    contradiction

end Ext2

end Sage040.Fs
