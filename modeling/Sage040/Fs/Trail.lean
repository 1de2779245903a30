import Sage040.Fs.Jail

/-!
# The way a path takes

Where a walk is, is a directory and the names that are still to go; `Linked.next` says where it is
one name later, if the targets of symbolic links are known. It is a function, so there is one way
on, and whatever two walks from one place come to, one of them comes to first (`Leads.total`).

`path_walk` and `path_resolve` both take that way. The first keeps the path as a string and puts the
targets of links in front of what is left of it; the second looks at the last name too, and begins
again from the root with the path of the directory that a link is in. What either of them answers
lies on the way that the names of the path lead (`pathWalk_comes`, `pathResolve_arrives`): so the
two agree, whatever the links are, wherever both have an answer.

* `Leads.last`: the last name of a path is looked for in the directory that the names before it lead
to, unless it is a link and is followed.
* `pathWalk_trailing`: with a slash at the end of the path, there is a last name only behind a link.
-/

namespace Sage040.Fs

open Exits Relation List Prod ReflTransGen

def names (path : List UInt8) : List Name := (components path []).map Prod.fst

def startOf (root cwd : Nat) (path : List UInt8) : Nat :=
    if path.head? = some slash then root else cwd

def Task.start (t : Task) (path : List UInt8) : Nat := startOf t.root t.cwd path

/-! ## Strings and names -/

lemma components_append_slash (a b acc : List UInt8) :
    (components (a ++ slash :: b) acc).map Prod.fst = (components a acc).map Prod.fst ++ names b :=
    by
  induction a generalizing acc with
  | nil =>
    rw [nil_append, components.eq_2, if_pos rfl, components]
    split <;> rfl
  | cons c a ih =>
    rw [cons_append, components, components]
    split
    · split
      · exact ih []
      · rw [map_cons, map_cons, ih, cons_append]
    · exact ih (c :: acc)

lemma names_append_slash (a b : List UInt8) : names (a ++ slash :: b) = names a ++ names b :=
  components_append_slash a b []

lemma names_dropWhile (path : List UInt8) : names (path.dropWhile (· == slash)) = names path := by
  induction path with
  | nil => rfl
  | cons c path ih =>
    by_cases hc : c = slash
    · subst hc
      rw [dropWhile_cons_of_pos (by simp), ih]
      rfl
    · rw [dropWhile_cons_of_neg (by simpa using hc)]

lemma names_name {n : Name} (hne : n ≠ []) (hn : slash ∉ n) : names n = [n] := by
  have hcomp := components_append hn [] []
  rw [append_nil, append_nil] at hcomp
  rw [names, hcomp, components, if_neg (by simpa using hne), reverse_reverse]
  rfl

lemma names_joinPath {l : List Name} (hl : ∀ n ∈ l, n ≠ [] ∧ slash ∉ n) :
    names (joinPath l) = l := by
  rw [names, components_joinPath hl]
  clear hl
  induction l with
  | nil => rfl
  | cons n l ih => rw [joined, map_cons, ih]

/-- What comes after each component is the rest of them. -/
def Strung : List (Name × List UInt8) → Prop
  | [] => True
  | c :: cs => cs.map Prod.fst = names c.2 ∧ Strung cs

lemma strung_components (path acc : List UInt8) : Strung (components path acc) := by
  induction path generalizing acc with
  | nil =>
    rw [components]
    split
    · trivial
    · exact ⟨rfl, trivial⟩
  | cons c path ih =>
    rw [components]
    split
    · next hc =>
      split
      · exact ih []
      refine ⟨?_, ih []⟩
      rw [hc]
      rfl
    · exact ih (c :: acc)

/-- Every component has a slash at the end of what comes after it. -/
def Trailing (comps : List (Name × List UInt8)) : Prop := ∀ c ∈ comps, c.2.getLast? = some slash

lemma trailing_components {path : List UInt8} (h : path.getLast? = some slash) (acc : List UInt8) :
    Trailing (components path acc) := by
  induction path generalizing acc with
  | nil => contradiction
  | cons c path ih =>
    rcases path with _ | ⟨c', path⟩
    · obtain rfl : c = slash := by simpa using h
      rw [components, if_pos rfl]
      split
      · exact fun x hx => absurd hx not_mem_nil
      intro x hx
      obtain rfl := mem_singleton.1 hx
      rfl
    have htail : (c' :: path).getLast? = some slash := by rwa [getLast?_cons_cons] at h
    rw [components]
    split
    · split
      · exact ih htail []
      intro x hx
      rcases mem_cons.1 hx with rfl | hx
      · exact h
      · exact ih htail [] x hx
    · exact ih htail (c :: acc)

lemma getLast?_dropWhile {p : UInt8 → Bool} {l : List UInt8} (h : l.dropWhile p ≠ []) :
    (l.dropWhile p).getLast? = l.getLast? := by
  rw [← takeWhile_append_dropWhile (l := l), getLast?_append_of_ne_nil _ ?_]
  · rw [takeWhile_append_dropWhile]
  · exact h

/-! ## The way -/

/-- A tree, and where its symbolic links lead. -/
structure Linked extends Tree where
  target : Nat → Except Errno (List UInt8)

/-- The types in directories are those of the inodes, and what has a target is a link. -/
structure Linked.Truthful (L : Linked) : Prop where
  dir : ∀ {d n c}, L.look d n = .ok (c, ftDir) → L.kind c = .ok .dir
  link : ∀ {x path}, L.target x = .ok path → L.kind x = .ok .lnk

/-- **One name on**, with `r` for `/`, from a directory with some names to go. -/
def Linked.next (L : Linked) (r : Nat) : Nat × List Name → Option (Nat × List Name)
  | (_, []) => none
  | (d, n :: ns) =>
    if d = r ∧ n = dotdot then some (d, ns)
    else match L.look d n with
      | .error _ => none
      | .ok (x, _) =>
        match L.kind x, L.target x with
        | .ok .dir, _ => some (x, ns)
        | .ok .lnk, .ok path => some (startOf r d path, names path ++ ns)
        | _, _ => none

def Linked.Leads (L : Linked) (r : Nat) : Nat × List Name → Nat × List Name → Prop :=
  ReflTransGen fun p q => L.next r p = some q

section Leads

variable {L : Linked} {r d e x y : Nat} {n m : Name} {ns ms l k : List Name}
  {p q q' : Nat × List Name}
  {ty : UInt8} {path : List UInt8}

lemma Linked.next_clamp (L : Linked) (r ns) : L.next r (r, dotdot :: ns) = some (r, ns) :=
  if_pos ⟨rfl, rfl⟩

lemma Linked.next_dir (hc : ¬(d = r ∧ n = dotdot)) (hlook : L.look d n = .ok (x, ty))
    (hx : L.kind x = .ok .dir) :
    L.next r (d, n :: ns) = some (x, ns) := by
  rw [Linked.next, if_neg hc, hlook]
  dsimp only
  rw [hx]

lemma Linked.next_link (hc : ¬(d = r ∧ n = dotdot)) (hlook : L.look d n = .ok (x, ty))
    (hx : L.kind x = .ok .lnk)
    (hpath : L.target x = .ok path) : L.next r (d, n :: ns) =
    some (startOf r d path, names path ++ ns) := by
  rw [Linked.next, if_neg hc, hlook]
  dsimp only
  rw [hx, hpath]

lemma Linked.next_cases (h : L.next r (d, n :: ns) = some q) :
    (d = r ∧ n = dotdot ∧ q = (d, ns)) ∨ ¬(d = r ∧ n = dotdot) ∧ ∃ x ty, L.look d n = .ok (x, ty) ∧
      (L.kind x = .ok .dir ∧ q = (x, ns) ∨ L.kind x = .ok .lnk ∧ ∃ path, L.target x = .ok path ∧
        q = (startOf r d path, names path ++ ns)) := by
  rw [Linked.next] at h
  split at h
  · next hc => exact .inl ⟨hc.1, hc.2, (Option.some.inj h).symm⟩
  · next hc =>
    refine .inr ⟨hc, ?_⟩
    split at h
    · contradiction
    · next x ty hlook =>
      refine ⟨x, ty, hlook, ?_⟩
      split at h
      · next hx => exact .inl ⟨hx, (Option.some.inj h).symm⟩
      · next path hx hpath => exact .inr ⟨hx, path, hpath, (Option.some.inj h).symm⟩
      · contradiction

lemma Linked.next_append (L : Linked) (r d) (hne : ns ≠ []) (k) :
    L.next r (d, ns ++ k) = (L.next r (d, ns)).map fun q => (q.1, q.2 ++ k) := by
  rcases ns with _ | ⟨n, ns⟩
  · exact absurd rfl hne
  rw [cons_append, Linked.next, Linked.next]
  split
  · rfl
  split
  · rfl
  split
  · rfl
  · rw [Option.map_some, append_assoc]
  · rfl

lemma Linked.Leads.append (h : L.Leads r (d, ns) (e, ms)) (k) : L.Leads r (d, ns ++ k)
    (e, ms ++ k) := by
  refine ReflTransGen.lift (fun q : Nat × List Name => (q.1, q.2 ++ k)) (fun a b hab => ?_) _ _ h
  obtain ⟨a, as⟩ := a
  rcases as with _ | ⟨n, as⟩
  · contradiction
  have happ := L.next_append r a (cons_ne_nil n as) k
  rw [hab] at happ
  exact happ

lemma Linked.Leads.trans (h : L.Leads r p q) (h' : L.Leads r q q') : L.Leads r p q' :=
    ReflTransGen.trans h h'

lemma Linked.Leads.step (h : L.Leads r p q) (h' : L.next r q = some q') :
    L.Leads r p q' := tail h h'

/-- Of two places on the way, one is on the way to the other. -/
lemma Linked.Leads.total (h : L.Leads r p q) (h' : L.Leads r p q') : L.Leads r q q' ∨
    L.Leads r q' q :=
  total_of_right_unique (fun _ _ _ hb hc => Option.some.inj (hb.symm.trans hc)) h h'

lemma Linked.Leads.eq_of_none (h : L.Leads r p q) (hp : L.next r p = none) : q = p := by
  rcases cases_head h with rfl | ⟨a, ha, -⟩
  · rfl
  rw [hp] at ha
  contradiction

lemma Linked.Leads.eq_of_nil (h : L.Leads r (d, []) q) : q = (d, []) := h.eq_of_none rfl

/-- The names are gone through from the first to the last: before `k` is begun, all before it is
done. -/
lemma Linked.Leads.split (h : L.Leads r (d, l ++ k) q) :
    (∃ e ms, ms ≠ [] ∧ q = (e, ms ++ k) ∧ L.Leads r (d, l) (e, ms)) ∨
      ∃ y, L.Leads r (d, l) (y, []) ∧ L.Leads r (y, k) q := by
  refine head_induction_on (motive := fun a _ => ∀ d l, a = (d, l ++ k) →
    (∃ e ms, ms ≠ [] ∧ q = (e, ms ++ k) ∧ L.Leads r (d, l) (e, ms)) ∨
      ∃ y, L.Leads r (d, l) (y, []) ∧ L.Leads r (y, k) q) h ?_ ?_ d l rfl
  · rintro d l rfl
    rcases l with _ | ⟨n, l⟩
    · exact .inr ⟨d, .refl, .refl⟩
    · exact .inl ⟨d, n :: l, cons_ne_nil n l, rfl, .refl⟩
  rintro a b hab hbq ih d l rfl
  rcases l with _ | ⟨n, l⟩
  · exact .inr ⟨d, .refl, .head hab hbq⟩
  rw [L.next_append r d (cons_ne_nil n l) k, Option.map_eq_some_iff] at hab
  obtain ⟨c, hc, rfl⟩ := hab
  rcases ih c.1 c.2 rfl with ⟨e, ms, hne, hq, hon⟩ | ⟨y, hy, hon⟩
  · exact .inl ⟨e, ms, hne, hq, .head hc hon⟩
  · exact .inr ⟨y, .head hc hy, hon⟩

def Linked.EndsInLink (L : Linked) (r d : Nat) (ns : List Name) : Prop :=
  ∃ l m y x ty, ns = l ++ [m] ∧ L.Leads r (d, l) (y, []) ∧ L.look y m = .ok (x, ty) ∧
    L.kind x = .ok .lnk

/-- Where one name is left, the names before the last have been gone through. -/
lemma Linked.Leads.before_last (h : L.Leads r (d, ns) (e, [n])) :
    ∃ l m y, ns = l ++ [m] ∧ L.Leads r (d, l) (y, []) ∧ L.Leads r (y, [m]) (e, [n]) := by
  rcases eq_nil_or_concat ns with rfl | ⟨l, m, rfl⟩
  · have hq := h.eq_of_nil
    simp at hq
  rw [concat_eq_append] at h ⊢
  rcases h.split with ⟨e', ms, hne, hq, -⟩ | ⟨y, hy, hon⟩
  · have hlen := congrArg (length ∘ snd) hq
    have hpos := length_pos_iff.2 hne
    simp only [Function.comp_apply, length_append, length_singleton] at hlen
    omega
  · exact ⟨l, m, y, rfl, hy, hon⟩

/-- From one name to another, there is a link in between. -/
lemma Linked.Leads.one_name (h : L.Leads r (y, [m]) (e, [n])) :
    (y = e ∧ m = n) ∨ ∃ x ty, L.look y m = .ok (x, ty) ∧ L.kind x = .ok .lnk := by
  rcases ReflTransGen.cases_head h with heq | ⟨q, hq, hon⟩
  · simp only [Prod.mk.injEq, cons.injEq, and_true] at heq
    exact .inl heq
  rcases L.next_cases hq with ⟨-, -, rfl⟩ | ⟨-, x, ty, hlook, ⟨-, rfl⟩ | ⟨hx, -⟩⟩
  iterate 2
    · have hend := Linked.Leads.eq_of_nil hon
      simp at hend
  · exact .inr ⟨x, ty, hlook, hx⟩

/-- **The last name is looked for where the names before it lead**, unless it is a link. -/
lemma Linked.Leads.last (h : L.Leads r (d, ns) (e, [n])) (hno : ¬L.EndsInLink r d ns) :
    ∃ l, ns = l ++ [n] ∧ L.Leads r (d, l) (e, []) := by
  obtain ⟨l, m, y, hns, hy, hon⟩ := h.before_last
  rcases hon.one_name with ⟨rfl, rfl⟩ | ⟨x, ty, hlook, hx⟩
  · exact ⟨l, hns, hy⟩
  · exact absurd ⟨l, m, y, x, ty, hns, hy, hlook, hx⟩ hno

/-- A link that is come to with nothing left to go is the last name, or behind it. -/
lemma Linked.endsInLink_of_leads (h : L.Leads r (d, ns) (e, [n])) (hlook : L.look e n = .ok (x, ty))
    (hx : L.kind x = .ok .lnk) : L.EndsInLink r d ns := by
  obtain ⟨l, m, y, hns, hy, hon⟩ := h.before_last
  rcases hon.one_name with ⟨rfl, rfl⟩ | ⟨x', ty', hlook', hx'⟩
  · exact ⟨l, m, y, x, ty, hns, hy, hlook, hx⟩
  · exact ⟨l, m, y, x', ty', hns, hy, hlook', hx'⟩

lemma Linked.EndsInLink.of_leads {ns' d'} (h : L.EndsInLink r d' ns')
    (hon : L.Leads r (d, ns) (d', ns')) : L.EndsInLink r d ns := by
  obtain ⟨l, m, y, x, ty, rfl, hy, hlook, hx⟩ := h
  exact Linked.endsInLink_of_leads (hon.trans (hy.append [m])) hlook hx

lemma Linked.Leads.dir (h : L.Leads r p q) (hr : L.kind r = .ok .dir) (hp : L.kind p.1 = .ok .dir) :
    L.kind q.1 = .ok .dir := by
  refine head_induction_on h id ?_ hp
  rintro ⟨d, _ | ⟨n, ns⟩⟩ b hab - ih hd
  · contradiction
  rcases L.next_cases hab with ⟨-, -, rfl⟩ | ⟨-, x, ty, -, ⟨hx, rfl⟩ | ⟨-, path, -, rfl⟩⟩
  · exact ih hd
  · exact ih hx
  refine ih ?_
  rw [startOf]
  split
  · exact hr
  · exact hd

lemma Linked.leads_descends {rank : Nat → Nat} (hT : L.Sound rank) (hl : L.Descends d l x)
    (hx : L.kind x = .ok .dir) :
    L.Leads r (d, l) (x, []) := by
  induction l generalizing d with
  | nil =>
    rw [hl]
    exact .refl
  | cons n l ih =>
    obtain ⟨c, ty, hplain, hlook, hrest⟩ := hl
    have hc : L.kind c = .ok .dir := by
      rcases l with _ | ⟨m, l⟩
      · rw [Tree.Descends] at hrest
        rwa [← hrest]
      · obtain ⟨c', ty', -, hlook', -⟩ := hrest
        exact hT.dir hlook'
    exact .head (L.next_dir (fun hand => hplain.2 hand.2) hlook hc) (ih hrest)

end Leads

/-! ## What the walks answer -/

/-- The answers of a walker are the tree's, and so are the targets of links. -/
structure Walker.Follows {σ : Type} (fs : Walker σ) (P : σ → Prop) (L : Linked) : Prop extends
    fs.Shows P L.toTree where
  target : ∀ s, P s → ∀ ino, Ends (fs.readLink ino) s fun s' r => P s' ∧ r = L.target ino
  name : ∀ d c, Steady P (fs.nameIn d c)

/-- The answer of `path_walk` lies on the way from `p`: at its end, or before its last name. -/
def Linked.Comes (L : Linked) (r : Nat) (p : Nat × List Name) (a : Nat × Option Name) : Prop :=
  L.Leads r p (a.1, a.2.toList) ∧ ∀ n ∈ a.2, ¬(a.1 = r ∧ n = dotdot)

def Reached.Comes (L : Linked) (r : Nat) (p : Nat × List Name) : Reached → Prop
  | .done d last => L.Comes r p (d, last)
  | .link d ino rest =>
    ∃ n ty, L.Leads r p (d, n :: names rest) ∧ ¬(d = r ∧ n = dotdot) ∧ L.look d n = .ok (ino, ty)

/-- The way from `p` ends at `x`: in it, or at a name for it. -/
def Linked.Arrives (L : Linked) (r : Nat) (p : Nat × List Name) (x : Nat) : Prop :=
  L.Leads r p (x, []) ∨ ∃ d n ty, L.Leads r p (d, [n]) ∧ ¬(d = r ∧ n = dotdot) ∧
    L.look d n = .ok (x, ty) ∧
    L.kind x ≠ .ok .lnk

section Arrives

variable {L : Linked} {r x y : Nat} {p q : Nat × List Name}

lemma Linked.Arrives.of_leads (h : L.Arrives r q x) (hon : L.Leads r p q) : L.Arrives r p x := by
  rcases h with h | ⟨d, n, ty, h, hrest⟩
  · exact .inl (hon.trans h)
  · exact .inr ⟨d, n, ty, hon.trans h, hrest⟩

variable (h : L.Arrives r p x)

include h

lemma Linked.Arrives.leads (hx : L.kind x = .ok .dir) : L.Leads r p (x, []) := by
  rcases h with h | ⟨d, n, ty, h, hc, hlook, -⟩
  · exact h
  · exact h.step (L.next_dir hc hlook hx)

lemma Linked.Arrives.later (hq : L.Leads r p q) : L.Arrives r q x := by
  rcases h with h | ⟨d, n, ty, h, hc, hlook, hx⟩
  · rcases hq.total h with hon | hon
    · exact .inl hon
    rw [hon.eq_of_nil]
    exact .inl .refl
  rcases hq.total h with hon | hon
  · exact .inr ⟨d, n, ty, hon, hc, hlook, hx⟩
  rcases ReflTransGen.cases_head hon with rfl | ⟨a, ha, hon⟩
  · exact .inr ⟨d, n, ty, .refl, hc, hlook, hx⟩
  rcases L.next_cases ha with ⟨hd, hn, -⟩ | ⟨-, x', ty', hlook', hkind⟩
  · exact absurd ⟨hd, hn⟩ hc
  rw [hlook, Except.ok.injEq, Prod.mk.injEq] at hlook'
  obtain ⟨rfl, -⟩ := hlook'
  rcases hkind with ⟨-, rfl⟩ | ⟨hlink, -⟩
  · rw [Linked.Leads.eq_of_nil hon]
    exact .inl .refl
  · exact absurd hlink hx

lemma Linked.Arrives.eq_of_leads (hy : L.Leads r p (y, [])) : x = y := by
  rcases h.later hy with hon | ⟨d, n, ty, hon, -⟩
  · exact congrArg fst hon.eq_of_nil
  have hnil := hon.eq_of_nil
  simp at hnil

lemma Linked.Arrives.unique (h' : L.Arrives r p y) : x = y := by
  rcases h' with hy | ⟨d, n, ty, hlead, hc, hlook, hy⟩
  · exact h.eq_of_leads hy
  -- from the last name, there is one way on at the most, and it is not a link
  have hone : ∀ q, L.next r (d, [n]) = some q → q = (y, []) := by
    intro q hq
    rcases L.next_cases hq with ⟨hd, hn, -⟩ | ⟨-, x', ty', hlook', hkind⟩
    · exact absurd ⟨hd, hn⟩ hc
    rw [hlook, Except.ok.injEq, Prod.mk.injEq] at hlook'
    obtain ⟨rfl, -⟩ := hlook'
    exact hkind.elim And.right fun hlink => absurd hlink.1 hy
  rcases h.later hlead with hon | ⟨d', n', ty', hon, -, hlook', -⟩
  · rcases ReflTransGen.cases_head hon with heq | ⟨q, hq, hon⟩
    · simp at heq
    rw [hone q hq] at hon
    exact congrArg Prod.fst (Linked.Leads.eq_of_nil hon)
  rcases ReflTransGen.cases_head hon with heq | ⟨q, hq, hon⟩
  · simp only [Prod.mk.injEq, cons.injEq, and_true] at heq
    rw [heq.1, heq.2, hlook', Except.ok.injEq, Prod.mk.injEq] at hlook
    exact hlook.1
  rw [hone q hq] at hon
  have hnil := Linked.Leads.eq_of_nil hon
  simp at hnil

omit h

/-- `"."` leads nowhere else. -/
lemma Linked.Arrives.dot {rank : Nat → Nat} {d} (hT : L.Sound rank) (hd : L.kind d = .ok .dir)
    (h : L.Arrives r (d, [Fs.dot]) x) : L.Leads r (d, [Fs.dot]) (d, []) := by
  have hclamp : ¬(d = r ∧ Fs.dot = dotdot) := fun hand => by
    have hdots := hand.2
    contradiction
  have hstep : ∀ q, L.next r (d, [Fs.dot]) = some q → ∃ y ty, L.look d Fs.dot = .ok (y, ty) := by
    intro q hq
    rcases L.next_cases hq with ⟨hr, hdots, -⟩ | ⟨-, y, ty, hlook, -⟩
    · exact absurd ⟨hr, hdots⟩ hclamp
    · exact ⟨y, ty, hlook⟩
  have hlook : ∃ y ty, L.look d Fs.dot = .ok (y, ty) := by
    rcases h with h | ⟨e, m, ty, h, -, hlook, -⟩
    · rcases ReflTransGen.cases_head h with heq | ⟨q, hq, -⟩
      · simp at heq
      · exact hstep q hq
    rcases ReflTransGen.cases_head h with heq | ⟨q, hq, -⟩
    · simp only [Prod.mk.injEq, cons.injEq, and_true] at heq
      rw [heq.1, heq.2]
      exact ⟨x, ty, hlook⟩
    · exact hstep q hq
  obtain ⟨y, ty, hlook⟩ := hlook
  obtain rfl := hT.dot hlook
  exact .single (L.next_dir hclamp hlook hd)

end Arrives

section Walks

variable {σ : Type} {fs : Walker σ} {P : σ → Prop} {L : Linked} {rank : Nat → Nat}
  {t : Task} {s : σ}

lemma Walker.Follows.steady (h : fs.Follows P L) : fs.Each fun _ m => Steady P m where
  lookup d n := .of_ends fun s hs => h.lookup s hs d n
  kind ino := .of_ends fun s hs => h.kind s hs ino
  readLink ino := .of_ends fun s hs => h.target s hs ino
  nameIn := h.name

variable (h : fs.Follows P L) (hL : L.Truthful)

include h hL

variable {comps : List (Name × List UInt8)} {d : Nat}

lemma Walker.Follows.walkComps_comes (hs : P s) (hc : Strung comps) :
    Ends (walkComps fs t comps d) s (OkIs P (Reached.Comes L t.root (d, comps.map Prod.fst))) := by
  induction comps generalizing d s with
  | nil => exact okIs_ok hs ⟨.refl, fun n hn => absurd hn (Option.not_mem_none n)⟩
  | cons c comps ih =>
    obtain ⟨hrest, hc⟩ := hc
    -- what is reached one name on is reached from here
    have hon : ∀ {x s'}, P s' → L.next t.root (d, c.1 :: comps.map fst) = some (x, comps.map fst) →
        Ends (walkComps fs t comps x) s' (OkIs P (Reached.Comes L t.root (d,
            (c :: comps).map fst))) := by
      intro x s' hs' hnext
      refine (ih hs' hc).mono fun s'' res hres => ⟨hres.1, fun a ha => ?_⟩
      have hcome := hres.2 a ha
      rcases a with ⟨e, last⟩ | ⟨e, ino, rest⟩
      · exact ⟨.head hnext hcome.1, hcome.2⟩
      obtain ⟨n, ty, hlead, hmore⟩ := hcome
      exact ⟨n, ty, .head hnext hlead, hmore⟩
    refine .ite (fun _ => okIs_error hs) fun _ => .ite (fun hclamp => ?_) fun hclamp => .ite
      (fun hlast => ?_) fun _ => ?_
    · obtain ⟨rfl, hdots⟩ := hclamp
      have hnext : L.next t.root (t.root, c.1 :: comps.map fst) = some (t.root, comps.map fst) := by
        rw [hdots]
        exact L.next_clamp _ _
      refine .ite (fun hnil => ?_) fun _ => hon hs hnext
      rw [hnil] at hnext ⊢
      exact okIs_ok hs ⟨.single hnext, fun n hn => absurd hn (Option.not_mem_none n)⟩
    · rw [hlast] at hrest
      rw [map_cons, hrest]
      refine okIs_ok hs ⟨.refl, fun n hn => ?_⟩
      rw [Option.mem_some_iff] at hn
      exact hn ▸ hclamp
    · refine .ask (h.lookup s hs d c.1) fun s1 found hs1 hlook => ?_
      refine .ite (fun _ => ?_) fun _ => .ite (fun _ => ?_) fun _ => .ite (fun hty => ?_)
        fun _ => okIs_error hs1
      · refine .ask (h.kind s1 hs1 found.1) fun s2 kind hs2 hkind => .ite
          (fun _ => okIs_error hs2) fun _ =>
          .ite (fun hdir => ?_) fun _ => okIs_error hs2
        rw [hdir] at hkind
        exact hon hs2 (L.next_dir hclamp hlook hkind)
      · refine okIs_ok hs1 ⟨c.1, found.2, ?_, hclamp, hlook⟩
        rw [names_dropWhile, map_cons, hrest]
        exact .refl
      · have hdir : L.look d c.1 = .ok (found.1, ftDir) := hty ▸ hlook
        exact hon hs1 (L.next_dir hclamp hdir (hL.dir hdir))

omit h in
/-- Behind a link, the walk goes on with the target in front of what is left. -/
lemma Linked.leads_link {p} {r d ino : Nat} {n ty} {rest target : List UInt8}
    (hlead : L.Leads r p (d, n :: names rest)) (hc : ¬(d = r ∧ n = dotdot))
    (hlook : L.look d n = .ok (ino, ty))
    (htarget : L.target ino = .ok target) :
    L.Leads r p (startOf r d target, names (if rest = [] then target else target ++
    slash :: rest)) := by
  have hnames : names (if rest = [] then target else target ++ slash :: rest) = names target ++
      names rest := by
    split
    · next hnil =>
      subst hnil
      exact (append_nil _).symm
    · exact names_append_slash _ _
  rw [hnames]
  exact hlead.step (L.next_link hc hlook (hL.link htarget) htarget)

lemma Walker.Follows.walkLinks_comes (links : Nat) (hs : P s) (hc : Strung comps) :
    Ends (walkLinks fs t links comps d) s (OkIs P (L.Comes t.root (d, comps.map Prod.fst))) := by
  induction links using Nat.strong_induction_on generalizing comps d s with | _ links ih
  rw [walkLinks.eq_def]
  refine .chain (h.walkComps_comes hL hs hc) fun s1 r hs1 hr => ?_
  rcases r with ⟨d', last⟩ | ⟨d', ino, rest⟩
  · exact okIs_ok hs1 hr
  cases links with
  | zero => exact okIs_error hs1
  | succ links =>
    obtain ⟨n, ty, hlead, hclamp, hlook⟩ := hr
    refine .ask (h.target s1 hs1 ino) fun s2 target hs2 ht => .ite
      (fun _ => okIs_error hs2) fun _ => ?_
    have hon := Linked.leads_link hL hlead hclamp hlook ht
    refine (ih links (Nat.lt_succ_self links) hs2 (strung_components _ [])).mono
      fun s3 res hres => ⟨hres.1, fun a ha => ?_⟩
    exact ⟨hon.trans (hres.2 a ha).1, (hres.2 a ha).2⟩

/-- **`path_walk` takes the way that the names of the path lead.** -/
lemma Walker.Follows.pathWalk_comes (path) (hs : P s) :
    Ends (pathWalk fs t path) s (OkIs P (L.Comes t.root (t.start path, names path))) :=
  h.walkLinks_comes hL _ hs (strung_components path [])

omit hL in
/-- Before a slash at the end, there is no last name, but for one that a link may have. -/
lemma Walker.Follows.walkComps_trailing (hs : P s) (hc : Trailing comps) :
    Ends (walkComps fs t comps d) s (OkIs P fun
      | .done _ last =>
        last = none | .link _ _ rest => rest = [] ∨ rest.getLast? = some slash) := by
  induction comps generalizing d s with
  | nil => exact okIs_ok hs rfl
  | cons c comps ih =>
    have hlast := hc c mem_cons_self
    have hmore : Trailing comps := fun x hx => hc x (mem_cons_of_mem c hx)
    refine .ite (fun _ => okIs_error hs) fun _ => .ite
        (fun _ => .ite (fun _ => okIs_ok hs rfl) fun _ => ih hs hmore) fun _ =>
      .ite (fun hnil => ?_) fun _ => ?_
    · rw [hnil] at hlast
      contradiction
    refine .ask (h.lookup s hs d c.1) fun s1 found hs1 _ => ?_
    refine .ite (fun _ => ?_) fun _ => .ite (fun _ => okIs_ok hs1 ?_) fun _ => .ite
      (fun _ => ih hs1 hmore)
      fun _ => okIs_error hs1
    · exact .ask (h.kind s1 hs1 found.1) fun s2 kind hs2 _ => .ite
        (fun _ => okIs_error hs2) fun _ =>
        .ite (fun _ => ih hs2 hmore) fun _ => okIs_error hs2
    by_cases hnil : c.2.dropWhile (· == slash) = []
    · exact .inl hnil
    · exact .inr ((getLast?_dropWhile hnil).trans hlast)

lemma Walker.Follows.walkLinks_trailing (links : Nat) (hs : P s)
    (hc : Strung comps) (ht : Trailing comps) : Ends (walkLinks fs t links comps d) s
      (OkIs P fun a => a.2 = none ∨ L.EndsInLink t.root d (comps.map Prod.fst)) := by
  induction links using Nat.strong_induction_on generalizing comps d s with | _ links ih
  rw [walkLinks.eq_def]
  refine ((h.walkComps_comes hL hs hc).and (h.walkComps_trailing hs ht)).bind (fun s1 r hr => ?_)
    fun s1 e he => okIs_error he.1.1
  rcases r with ⟨d', last⟩ | ⟨d', ino, rest⟩
  · exact okIs_ok hr.1.1 (.inl (hr.2.2 _ rfl))
  cases links with
  | zero => exact okIs_error hr.1.1
  | succ links =>
    obtain ⟨n, ty, hlead, hclamp, hlook⟩ := hr.1.2 _ rfl
    refine .ask (h.target s1 hr.1.1 ino) fun s2 target hs2 htarget => .ite
      (fun _ => okIs_error hs2) fun _ => ?_
    have hkind := hL.link htarget
    rcases hr.2.2 _ rfl with rfl | hslash
    · -- the link is the last of the names
      have hend := Linked.endsInLink_of_leads hlead hlook hkind
      exact (h.keepsAll.walkLinks t _ _ _ s2 hs2).mono fun s3 res hs3 => ⟨hs3, fun _ _ => .inr hend⟩
    have hne : rest ≠ [] := by
      rintro rfl
      contradiction
    have hon := Linked.leads_link hL hlead hclamp hlook htarget
    have htail : (target ++ slash :: rest).getLast? = some slash := by
      rw [getLast?_append_of_ne_nil _ (cons_ne_nil _ _), getLast?_cons_of_ne_nil hne, hslash]
    rw [if_neg hne] at hon ⊢
    refine (ih links (Nat.lt_succ_self links) hs2 (strung_components _ [])
      (trailing_components htail [])).mono fun s3 res hres => ⟨hres.1, fun a ha => ?_⟩
    exact (hres.2 a ha).imp_right fun hend => hend.of_leads hon

/-- **With a slash at the end of the path, there is a last name only behind a link.** -/
lemma Walker.Follows.pathWalk_trailing {path} (hs : P s) (hslash : path.getLast? = some slash) :
    Ends (pathWalk fs t path) s (OkIs P fun a => a.2 = none ∨
    L.EndsInLink t.root (t.start path) (names path)) :=
  h.walkLinks_trailing hL _ hs (strung_components path []) (trailing_components hslash [])

omit hL in
/-- The path that `ext2_dir_path` finds leads to the directory. -/
lemma Walker.Follows.dirPath_leads (hT : L.Sound rank) {x} (hs : P s) (hb : L.Below t.root x)
    (hx : L.kind x = .ok .dir) : Ends (dirPath fs t x) s (OkIs P fun dir => ∀ target,
      ((if dir.getLast? = some slash then dir.dropLast else dir) ++ slash :: target).head? =
      some slash ∧
      L.Leads t.root (t.root, names ((if dir.getLast? = some slash then dir.dropLast else dir) ++
      slash :: target))
        (x, names target)) := by
  obtain ⟨l, hl⟩ := hb
  have hnames := hT.names hl
  have hlead := (L.leads_descends (r := t.root) hT hl hx).append
  refine (h.dirPathLoop_spec hT hs hl hx 64 []).bind (fun s1 p hp => ?_) fun s1 e
    he => okIs_error he.1
  obtain ⟨hs1, hyes, hno⟩ := hp
  by_cases hroom : Room l 64 []
  · obtain rfl := Except.ok.inj (hyes hroom)
    refine okIs_ok hs1 fun target => ?_
    rw [append_nil]
    rcases eq_nil_or_concat l with rfl | ⟨l', n, rfl⟩
    · exact ⟨rfl, hlead (names target)⟩
    rw [concat_eq_append] at hnames hlead ⊢
    obtain ⟨hne, hslash⟩ := hnames n (mem_append_right _ (mem_singleton_self n))
    have hjoin : joinPath (l' ++ [n]) ≠ [] := by
      rw [joinPath_concat]
      simp
    -- the last byte is one of the last name
    have hlast : (joinPath (l' ++ [n])).getLast? ≠ some slash := by
      rw [joinPath_concat, getLast?_append_of_ne_nil _ (cons_ne_nil _ _),
        getLast?_cons_of_ne_nil hne]
      exact fun hmem => hslash (mem_of_getLast? hmem)
    rw [if_neg hjoin, if_neg hlast]
    refine ⟨?_, ?_⟩
    · rcases l' with _ | ⟨m, l'⟩ <;> rfl
    rw [names_append_slash, names_joinPath hnames]
    exact hlead (names target)
  · obtain ⟨e, he⟩ := hno hroom
    contradiction

/-- **`path_resolve` arrives where the names of the path lead.** -/
lemma Walker.Follows.pathResolve_arrives (hT : L.Sound rank) (hcwd : L.Below t.root t.cwd)
    (links : Nat)
    (path) (hs : P s) :
    Ends (pathResolve fs t links path) s (OkIs P (L.Arrives t.root (t.start path, names path))) :=
    by
  induction links using Nat.strong_induction_on generalizing path s with | _ links ih
  rw [pathResolve.eq_def]
  refine ((h.pathWalk_comes hL path hs).and (h.pathWalk_within hT hcwd path hs)).bind
    (fun s1 walked hw => ?_) fun s1 e he => okIs_error he.1.1
  obtain ⟨⟨hs1, hw⟩, -, hwithin⟩ := hw
  obtain ⟨hlead, hclamp⟩ := hw _ rfl
  rcases walked with ⟨d, _ | n⟩
  · exact okIs_ok hs1 (.inl hlead)
  refine .ask (h.lookup s1 hs1 d n) fun s2 found hs2 hlook => ?_
  refine .ask (h.kind s2 hs2 _) fun s3 kind hs3 hkind => .ite (fun hne => ?_) fun _ => ?_
  · refine okIs_ok hs3 (.inr ⟨d, n, found.2, hlead, hclamp n rfl, hlook, ?_⟩)
    rw [hkind, ne_eq, Except.ok.injEq]
    exact hne
  cases links with
  | zero => exact okIs_error hs3
  | succ links =>
    have hlt := Nat.lt_succ_self links
    refine .ask (h.target s3 hs3 _) fun s4 target hs4 ht => ?_
    have hon : L.Leads t.root (t.start path, names path) (startOf t.root d target, names target) :=
        by
      have hstep := hlead.step (L.next_link (hclamp n rfl) hlook (hL.link ht) ht)
      rwa [append_nil] at hstep
    refine .ite (fun habs => ?_) fun hrel => ?_
    · refine (ih links hlt target hs4).mono fun s5 res hres => ⟨hres.1,
        fun x hx => (hres.2 x hx).of_leads ?_⟩
      have hstart : t.start target = startOf t.root d target := by
        rw [Task.start, startOf, startOf, if_pos habs, if_pos habs]
      rw [hstart]
      exact hon
    rw [startOf, if_neg hrel] at hon
    refine .chain (h.dirPath_leads hT hs4 (hwithin _ rfl).1 (hT.dir hlook)) fun s5 dir
      hs5 hdir => ?_
    obtain ⟨hhead, hback⟩ := hdir target
    refine .ite (fun _ => okIs_error hs5) fun _ => ?_
    refine (ih links hlt _ hs5).mono fun s6 res hres => ⟨hres.1, fun x hx => ?_⟩
    have harr := hres.2 x hx
    rw [Task.start, startOf, if_pos hhead] at harr
    -- from the root again, the walk comes back to the directory of the link
    exact (harr.later hback).of_leads hon

end Walks

end Sage040.Fs
