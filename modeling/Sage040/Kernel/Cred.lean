import Sage040.Basic

/-!
# Credentials

Every task has a real, an effective and a saved id, once for the user and once for the group, and
a list of supplementary groups. `kernel/syslinux.c` has six calls that change the ids; they come
in three shapes, each once for uids and once for gids. What a call does to a thread is computed
from the ids of the caller: `CredCall.permitted` is the test, `CredCall.update` what is stored.

`Cred.Within` is the order the calls respect: without privilege, nobody ends up with an id or a
group that was not there before.
-/

namespace Sage040

/-- Real, effective and saved. -/
structure Ids where
  real : Nat
  effective : Nat
  saved : Nat
  deriving DecidableEq

/-- `id` is one of the three. -/
def Ids.Has (ids : Ids) (id : Nat) : Prop := id = ids.real ∨ id = ids.effective ∨ id = ids.saved

/-- Which of the two triples a call is about. -/
inductive Which
  | user
  | group
  deriving DecidableEq

/-- The ids of a task. -/
structure Cred where
  user : Ids
  group : Ids
  /-- The supplementary groups, `groups[0 .. ngroups - 1]`. -/
  groups : List Nat
  deriving DecidableEq

/-- A task with no parent is root. -/
def Cred.root : Cred := ⟨⟨0, 0, 0⟩, ⟨0, 0, 0⟩, []⟩

namespace Cred

/-- The effective uid, which privilege goes by. -/
def euid (c : Cred) : Nat := c.user.effective

/-- The triple of that kind. -/
def ids (c : Cred) : Which → Ids
  | .user => c.user
  | .group => c.group

/-- The ids with the triple of that kind replaced. -/
def setIds (c : Cred) : Which → Ids → Cred
  | .user, ids => { c with user := ids }
  | .group, ids => { c with group := ids }

end Cred

/-! ## The calls -/

/-- The calls that change ids, by their shape. -/
inductive CredCall
  | set (which : Which) (want : Nat)
  | setRe (which : Which) (r e : Nat)
  | setRes (which : Which) (r e s : Nat)

variable {cur t c bound : Cred} {id : Nat} {w : Which}

namespace CredCall

/-- `setuid`. -/
def setuid (want : Nat) : CredCall := set .user want
/-- `setgid`. -/
def setgid (want : Nat) : CredCall := set .group want
/-- `setreuid`. -/
def setreuid (r e : Nat) : CredCall := setRe .user r e
/-- `setregid`. -/
def setregid (r e : Nat) : CredCall := setRe .group r e
/-- `setresuid`. -/
def setresuid (r e s : Nat) : CredCall := setRes .user r e s
/-- `setresgid`. -/
def setresgid (r e s : Nat) : CredCall := setRes .group r e s

/-- An argument of -1, as a `u32`, leaves the id as it is. -/
def keep : Nat := 2 ^ 32 - 1

/-- An argument of -1 keeps the id. -/
def new (arg cur : Nat) : Nat := if arg = keep then cur else arg

/-- The id is one of the three. -/
def holds (ids : Ids) (id : Nat) : Bool :=
  id == ids.real || id == ids.effective || id == ids.saved

/-- The test, on the caller's credentials: root may do anything, anybody else may only move between
the ids they hold. -/
def permitted (cur : Cred) : CredCall → Bool
  | set w want => cur.euid == 0 || want == (cur.ids w).real || want == (cur.ids w).saved
  | setRe w r e =>
    let ids := cur.ids w
    cur.euid == 0 ||
      ((r == keep || new r ids.real == ids.real || new r ids.real == ids.effective) &&
        (e == keep || holds ids (new e ids.effective)))
  | setRes w r e s =>
    let ids := cur.ids w
    cur.euid == 0 || (holds ids (new r ids.real) && holds ids (new e ids.effective) &&
      holds ids (new s ids.saved))

/-- What the call stores in a thread `t` of the caller's process. -/
def update (cur t : Cred) : CredCall → Cred
  | set w want =>
    t.setIds w (if cur.euid = 0 then ⟨want, want, want⟩ else { t.ids w with effective := want })
  | setRe w r e =>
    let newR := new r (cur.ids w).real
    let newE := new e (cur.ids w).effective
    t.setIds w ⟨newR, newE, if r ≠ keep ∨ newE ≠ newR then newE else (t.ids w).saved⟩
  | setRes w r e s =>
    t.setIds w ⟨new r (cur.ids w).real, new e (cur.ids w).effective, new s (cur.ids w).saved⟩

/-- The effective uid the call leaves its caller with. -/
def newEuid (cur : Cred) : CredCall → Nat
  | set .user want => want
  | setRe .user _ e | setRes .user _ e _ => new e cur.euid
  | _ => cur.euid

lemma update_euid (h : t.euid = cur.euid) (call : CredCall) :
    (call.update cur t).euid = call.newEuid cur := by
  cases call with
  | set w want =>
    cases w with
    | user =>
      rw [update]
      split <;> rfl
    | group => exact h
  | setRe w r e =>
    cases w with
    | user => rfl
    | group => exact h
  | setRes w r e s =>
    cases w with
    | user => rfl
    | group => exact h

end CredCall

/-! ## No more than before -/

/-- Every one of the three ids is one of the others. -/
structure Ids.Within (ids bound : Ids) : Prop where
  real : bound.Has ids.real
  effective : bound.Has ids.effective
  saved : bound.Has ids.saved

/-- Every id and every group is one the other credentials have. -/
structure Cred.Within (c bound : Cred) : Prop where
  user : c.user.Within bound.user
  group : c.group.Within bound.group
  groups : ∀ g ∈ c.groups, g ∈ bound.groups

/-- None of the three uids is root's. -/
def Cred.Unprivileged (c : Cred) : Prop := ¬c.user.Has 0

lemma Ids.Within.refl (ids : Ids) : ids.Within ids := ⟨.inl rfl, .inr (.inl rfl), .inr (.inr rfl)⟩

lemma Cred.Within.refl (c : Cred) : c.Within c := ⟨.refl _, .refl _, fun _ h => h⟩

/-- An id among those held is an id among those of the bound. -/
lemma Ids.Within.has {ids bound : Ids} (h : ids.Within bound) (hid : ids.Has id) :
    bound.Has id := by
  rcases hid with rfl | rfl | rfl
  · exact h.real
  · exact h.effective
  · exact h.saved

lemma Cred.Within.euid_ne_zero (h : c.Within bound) (hb : bound.Unprivileged) :
    c.euid ≠ 0 := fun h0 => hb (h0 ▸ h.user.effective)

lemma Cred.Within.ids (h : c.Within bound) (w) : (c.ids w).Within (bound.ids w) := by
  cases w with
  | user => exact h.user
  | group => exact h.group

lemma Cred.Within.setIds (h : c.Within bound) {ids : Ids}
    (hids : ids.Within (bound.ids w)) : (c.setIds w ids).Within bound := by
  cases w with
  | user => exact ⟨hids, h.group, h.groups⟩
  | group => exact ⟨h.user, hids, h.groups⟩

namespace CredCall

lemma holds_iff {ids : Ids} : holds ids id = true ↔ ids.Has id := by
  simp [holds, Ids.Has, or_assoc]

lemma new_has {ids : Ids} {arg cur : Nat} (hcur : ids.Has cur)
    (h : arg = keep ∨ ids.Has (new arg cur)) : ids.Has (new arg cur) := by
  rcases h with rfl | h
  · rw [new, if_pos rfl]
    exact hcur
  · exact h

/-- **Without privilege a permitted call adds nothing**: for a caller and a thread within the same
bounds, what the call stores is within them too. -/
lemma update_within (hb : bound.Unprivileged) (hcur : cur.Within bound)
    (ht : t.Within bound) {call : CredCall} (hp : call.permitted cur = true) :
    (call.update cur t).Within bound := by
  have hroot : cur.euid ≠ 0 := hcur.euid_ne_zero hb
  have hroot' : (cur.euid == 0) = false := beq_eq_false_iff_ne.2 hroot
  cases call with
  | set w want =>
    rw [permitted, hroot', Bool.false_or, Bool.or_eq_true, beq_iff_eq, beq_iff_eq] at hp
    rw [update, if_neg hroot]
    have hwant : (bound.ids w).Has want := by
      rcases hp with rfl | rfl
      · exact (hcur.ids w).real
      · exact (hcur.ids w).saved
    exact ht.setIds ⟨(ht.ids w).real, hwant, (ht.ids w).saved⟩
  | setRe w r e =>
    simp only [permitted, hroot', Bool.false_or, Bool.and_eq_true, Bool.or_eq_true, beq_iff_eq,
      holds_iff] at hp
    obtain ⟨hr, he⟩ := hp
    have hr' : (cur.ids w).Has (new r (cur.ids w).real) := by
      refine new_has (.inl rfl) ?_
      rcases hr with (h | h) | h
      · exact .inl h
      · exact .inr (.inl h)
      · exact .inr (.inr (.inl h))
    have he' := new_has (.inr (.inl rfl)) he
    refine ht.setIds ⟨(hcur.ids w).has hr', (hcur.ids w).has he', ?_⟩
    split
    · exact (hcur.ids w).has he'
    · exact (ht.ids w).saved
  | setRes w r e s =>
    simp only [permitted, hroot', Bool.false_or, Bool.and_eq_true, holds_iff] at hp
    obtain ⟨⟨hr, he⟩, hs⟩ := hp
    exact ht.setIds ⟨(hcur.ids w).has hr, (hcur.ids w).has he, (hcur.ids w).has hs⟩

end CredCall

end Sage040
