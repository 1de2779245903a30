import Sage040.Fs.Path

/-!
# What a walk can reach

A `Tree` is what the directories say: where each name leads, and what is there. Whoever keeps the
directories `Shows` a tree when its answers are the tree's, whatever it does to its own state; about
the targets of symbolic links nothing is said at all.

* `Shows.resolve_within`: from a root and a working directory below it, a walk does not leave what
is below the root, because `".."` of a directory is the one it was come to from and is not looked up
  at the root itself.
* `Shows.dirPath_named`: the path that `ext2_dir_path` puts together leads back to the directory, if
it is no more than 64 names and 1023 bytes; beyond that there is none.
-/

namespace Sage040.Fs

open Exits List Except

structure Tree where
  look : Nat → Name → Except Errno (Nat × UInt8)
  kind : Nat → Except Errno Kind

/-- Neither `"."` nor `".."`. -/
def Plain (n : Name) : Prop := n ≠ dot ∧ n ≠ dotdot

/-- Below `d`, the names `l` lead to `x`. -/
def Tree.Descends (T : Tree) : Nat → List Name → Nat → Prop
  | d, [], x => x = d
  | d, n :: l, x => ∃ c ty, Plain n ∧ T.look d n = .ok (c, ty) ∧ T.Descends c l x

/-- What can be reached from `r` by descending. -/
def Tree.Below (T : Tree) (r x : Nat) : Prop := ∃ l, T.Descends r l x

/-- **The directories are a tree**: each has one name, in its parent, and `".."` is the parent. -/
structure Tree.Sound (T : Tree) (rank : Nat → Nat) : Prop where
  dir : ∀ {d n x}, T.look d n = .ok x → T.kind d = .ok .dir
  dot : ∀ {d c ty}, T.look d dot = .ok (c, ty) → c = d
  up : ∀ {d n c ty}, Plain n → T.look d n = .ok (c, ty) → T.kind c = .ok .dir → ∃ ty',
    T.look c dotdot = .ok (d, ty')
  only : ∀ {d n n' c ty ty'}, Plain n → Plain n' → T.look d n = .ok (c, ty) →
    T.look d n' = .ok (c, ty') →
    T.kind c = .ok .dir → n = n'
  rank : ∀ {d n c ty}, Plain n → T.look d n = .ok (c, ty) → T.kind c = .ok .dir →
    rank c = rank d + 1
  name : ∀ {d n x}, T.look d n = .ok x → n ≠ [] ∧ slash ∉ n ∧ n.length ≤ nameMax
  type : ∀ {d n c ty}, Plain n → T.look d n = .ok (c, ty) → T.kind c = .ok .dir → ty = ftDir ∨
    ty = ftUnknown

/-- The answers of a walker, in the states that satisfy `P`, are the tree's. -/
structure Walker.Shows {σ : Type} (fs : Walker σ) (P : σ → Prop) (T : Tree) : Prop where
  lookup : ∀ s, P s → ∀ d n, Ends (fs.lookup d n) s fun s' r => P s' ∧ r = T.look d n
  kind : ∀ s, P s → ∀ ino, Ends (fs.kind ino) s fun s' r => P s' ∧ r = T.kind ino
  readLink : ∀ ino, Exits.Keeps P (fs.readLink ino)
  nameIn : ∀ s, P s → ∀ d n c ty, Plain n → T.look d n = .ok (c, ty) →
    Ends (fs.nameIn d c) s fun s' r => P s' ∧ ∃ n' ty', r = .ok n' ∧ Plain n' ∧
      T.look d n' = .ok (c, ty')
  keeps : ∀ d c, Exits.Keeps P (fs.nameIn d c)

/-! ## Descending -/

section Tree

variable {T : Tree} {rank : Nat → Nat} {r d x : Nat} {l : List Name} {n : Name} {ty : UInt8}

lemma Tree.descends_concat : T.Descends d (l ++ [n]) x ↔
    ∃ y ty, T.Descends d l y ∧ Plain n ∧ T.look y n = .ok (x, ty) := by
  induction l generalizing d with
  | nil =>
    constructor
    · rintro ⟨c, ty, hn, hlook, rfl⟩
      exact ⟨d, ty, rfl, hn, hlook⟩
    · rintro ⟨y, ty, rfl, hn, hlook⟩
      exact ⟨x, ty, hn, hlook, rfl⟩
  | cons m l ih =>
    constructor
    · rintro ⟨c, ty, hm, hlook, hrest⟩
      obtain ⟨y, ty', hy, hn, hlook'⟩ := ih.1 hrest
      exact ⟨y, ty', ⟨c, ty, hm, hlook, hy⟩, hn, hlook'⟩
    · rintro ⟨y, ty', ⟨c, ty, hm, hlook, hy⟩, hn, hlook'⟩
      exact ⟨c, ty, hm, hlook, ih.2 ⟨y, ty', hy, hn, hlook'⟩⟩

lemma Tree.Below.refl (T : Tree) (r) : T.Below r r := ⟨[], rfl⟩

lemma Tree.Below.step (h : T.Below r d) (hn : Plain n) (hlook : T.look d n = .ok (x, ty)) :
    T.Below r x := by
  obtain ⟨l, hl⟩ := h
  exact ⟨l ++ [n], Tree.descends_concat.2 ⟨d, ty, hl, hn, hlook⟩⟩

/-- **One name at a time, a walk stays below the root**, if it does not look `".."` up there. -/
lemma Tree.Sound.below_look (h : T.Sound rank) (hd : T.Below r d) (hclamp : ¬(d = r ∧ n = dotdot))
    (hlook : T.look d n = .ok (x, ty)) : T.Below r x := by
  by_cases hdot : n = Fs.dot
  · subst hdot
    rw [h.dot hlook]
    exact hd
  by_cases hup : n = dotdot
  · subst hup
    obtain ⟨l, hl⟩ := hd
    rcases eq_nil_or_concat l with rfl | ⟨l', m, rfl⟩
    · exact absurd ⟨hl, rfl⟩ hclamp
    rw [concat_eq_append] at hl
    obtain ⟨y, ty', hy, hm, hlook'⟩ := Tree.descends_concat.1 hl
    -- the directory it was come to from is the one that ".." names
    obtain ⟨ty'', hparent⟩ := h.up hm hlook' (h.dir hlook)
    rw [hlook, ok.injEq, Prod.mk.injEq] at hparent
    rw [hparent.1]
    exact ⟨l', hy⟩
  · exact hd.step ⟨hdot, hup⟩ hlook

lemma Tree.Sound.rank_descends (h : T.Sound rank) (hl : T.Descends r l x)
    (hx : T.kind x = .ok .dir) :
    rank x = rank r + l.length := by
  induction l using reverseRecOn generalizing x with
  | nil =>
    rw [hl]
    rfl
  | append_singleton l n ih =>
    obtain ⟨y, ty, hy, hn, hlook⟩ := Tree.descends_concat.1 hl
    have hstep := h.rank hn hlook hx
    have hrank := ih hy (h.dir hlook)
    rw [length_append, length_singleton]
    omega

/-- There is one way down to a directory. -/
lemma Tree.Sound.descends_unique (h : T.Sound rank) {l'} (hl : T.Descends r l x)
    (hl' : T.Descends r l' x)
    (hx : T.kind x = .ok .dir) : l = l' := by
  have hlen : l.length = l'.length := by
    have h1 := h.rank_descends hl hx
    have h2 := h.rank_descends hl' hx
    omega
  induction l using reverseRecOn generalizing x l' with
  | nil => exact (length_eq_zero_iff.1 hlen.symm).symm
  | append_singleton l n ih =>
    rcases eq_nil_or_concat l' with rfl | ⟨l1, m, rfl⟩
    · simp at hlen
    rw [concat_eq_append] at hl' hlen ⊢
    obtain ⟨y, ty, hy, hn, hlook⟩ := Tree.descends_concat.1 hl
    obtain ⟨z, ty', hz, hm, hlook'⟩ := Tree.descends_concat.1 hl'
    obtain ⟨u, hu⟩ := h.up hn hlook hx
    obtain ⟨u', hu'⟩ := h.up hm hlook' hx
    rw [hu, ok.injEq, Prod.mk.injEq] at hu'
    obtain ⟨rfl, -⟩ := hu'
    have hnm := h.only hn hm hlook hlook' hx
    have hll := ih hy hz (h.dir hlook) (by simpa using hlen)
    rw [hnm, hll]

end Tree

/-! ## The jail -/

variable {comps : List (Name × List UInt8)} {links : Nat}

section Jail

variable {σ : Type} {fs : Walker σ} {P : σ → Prop} {T : Tree} {rank : Nat → Nat} {t : Task} {s : σ}

/-- A walk has stayed below the root, and has not left `".."` at the root to look up. -/
def Within (T : Tree) (r : Nat) (x : Nat × Option Name) : Prop :=
  T.Below r x.1 ∧ ∀ n ∈ x.2, ¬(x.1 = r ∧ n = dotdot)

def Reached.Within (T : Tree) (r : Nat) : Reached → Prop
  | .done d last => Fs.Within T r (d, last)
  | .link d _ _ => T.Below r d

/-- Ending in an answer that satisfies `Q`, or in an error. -/
def OkIs {α : Type} (P : σ → Prop) (Q : α → Prop) (s : σ) (r : Except Errno α) : Prop := P s ∧ ∀ x,
    r = .ok x → Q x

lemma okIs_error {α : Type} {Q : α → Prop} {e : Errno} (hs : P s) : OkIs P Q s (.error e) :=
  ⟨hs, fun _ hx => by contradiction⟩

lemma okIs_ok {α : Type} {Q : α → Prop} {a : α} (hs : P s) (ha : Q a) : OkIs P Q s (.ok a) :=
  ⟨hs, fun _ hx => ok.inj hx ▸ ha⟩

section Bind

variable {α β : Type} {m : EStateM Errno σ α} {k : α → EStateM Errno σ β} {Q : α → Prop}
  {R : β → Prop} {x : Except Errno α}
  {a : α}

lemma OkIs.chain (h : Ends m s (OkIs P Q)) (hk : ∀ s' a, P s' → Q a → Ends (k a) s' (OkIs P R)) :
    Ends (m >>= k) s (OkIs P R) :=
  Ends.bind h (fun s' a ha => hk s' a ha.1 (ha.2 a rfl)) fun _ _ he => okIs_error he.1

lemma OkIs.ask (h : Ends m s fun s' r => P s' ∧ r = x)
    (hk : ∀ s' a, P s' → x = .ok a → Ends (k a) s' (OkIs P R)) :
    Ends (m >>= k) s (OkIs P R) :=
  Ends.bind h (fun s' a ha => hk s' a ha.1 ha.2.symm) fun _ _ he => okIs_error he.1

lemma ends_answer {Q : σ → Except Errno β → Prop} (h : Ends m s fun s' r => P s' ∧ r = x)
    (hx : x = .ok a)
    (hk : ∀ s', P s' → Ends (k a) s' Q) : Ends (m >>= k) s Q := by
  refine Ends.bind h (fun s' b hb => ?_) fun s' e he => ?_
  · obtain rfl := ok.inj (hb.2.trans hx)
    exact hk s' hb.1
  · exact absurd (he.2.trans hx) nofun

end Bind

variable (h : fs.Shows P T) (hT : T.Sound rank)

include h hT

lemma Walker.Shows.walkComps_within (comps) {d} (hs : P s) (hd : T.Below t.root d) :
    Ends (walkComps fs t comps d) s (OkIs P (Reached.Within T t.root)) := by
  induction comps generalizing d s with
  | nil => exact okIs_ok hs ⟨hd, fun n hn => absurd hn (Option.not_mem_none n)⟩
  | cons c comps ih =>
    refine .ite (fun _ => okIs_error hs) fun _ => .ite
        (fun _ => .ite (fun _ => ?_) fun _ => ih hs hd) fun hclamp =>
      .ite (fun _ => ?_) fun _ => ?_
    · exact okIs_ok hs ⟨hd, fun n hn => absurd hn (Option.not_mem_none n)⟩
    · refine okIs_ok hs ⟨hd, fun n hn => ?_⟩
      rw [Option.mem_some_iff] at hn
      exact hn ▸ hclamp
    refine .ask (h.lookup s hs d c.1) fun s1 found hs1 hfound => ?_
    have hbelow := hT.below_look hd hclamp hfound
    refine .ite (fun _ => ?_) fun _ => .ite (fun _ => okIs_ok hs1 hd) fun _ => .ite
      (fun _ => ih hs1 hbelow)
      fun _ => okIs_error hs1
    exact .ask (h.kind s1 hs1 found.1) fun s2 kind hs2 _ => .ite (fun _ => okIs_error hs2) fun _ =>
      .ite (fun _ => ih hs2 hbelow) fun _ => okIs_error hs2

lemma Walker.Shows.walkLinks_within (links) (comps) {d} (hs : P s)
    (hd : T.Below t.root d) : Ends (walkLinks fs t links comps d) s (OkIs P (Within T t.root)) := by
  induction links using Nat.strong_induction_on generalizing comps d s with | _ links ih
  rw [walkLinks.eq_def]
  refine .chain (h.walkComps_within hT comps hs hd) fun s1 r hs1 hr => ?_
  rcases r with ⟨d', last⟩ | ⟨d', ino, rest⟩
  · exact okIs_ok hs1 hr
  cases links with
  | zero => exact okIs_error hs1
  | succ links =>
    refine (h.readLink ino s1 hs1).bind (fun s2 target hs2 => .ite
      (fun _ => okIs_error hs2) fun _ => ?_)
      fun s2 e hs2 => okIs_error hs2
    refine ih links (Nat.lt_succ_self links) _ hs2 ?_
    split
    · exact .refl T t.root
    · exact hr

lemma Walker.Shows.pathWalk_within (hcwd : T.Below t.root t.cwd) (path : List UInt8) (hs : P s) :
    Ends (pathWalk fs t path) s (OkIs P (Within T t.root)) := by
  refine h.walkLinks_within hT _ _ hs ?_
  split
  · exact .refl T t.root
  · exact hcwd

lemma Walker.Shows.resolveNofollow_within (hcwd : T.Below t.root t.cwd)
    (path : List UInt8) (hs : P s) :
    Ends (pathResolveNofollow fs t path) s (OkIs P (T.Below t.root)) := by
  refine .chain (h.pathWalk_within hT hcwd path hs) fun s1 walked hs1 hw => ?_
  obtain ⟨hd, hlast⟩ := hw
  rcases walked with ⟨d, _ | n⟩
  · exact okIs_ok hs1 hd
  · exact .ask (h.lookup s1 hs1 d n) fun s2 found hs2 hfound => okIs_ok hs2
      (hT.below_look hd (hlast n rfl) hfound)

omit hT in
lemma Walker.Shows.keepsAll : fs.Keeps P where
  lookup d n s hs := (h.lookup s hs d n).mono fun _ _ hr => hr.1
  kind ino s hs := (h.kind s hs ino).mono fun _ _ hr => hr.1
  readLink := h.readLink
  nameIn := h.keeps

/-- **The jail**: what a path leads to is below the root. -/
lemma Walker.Shows.resolve_within (hcwd : T.Below t.root t.cwd) (links)
    (path : List UInt8) (hs : P s) :
    Ends (pathResolve fs t links path) s (OkIs P (T.Below t.root)) := by
  induction links using Nat.strong_induction_on generalizing path s with | _ links ih
  rw [pathResolve.eq_def]
  refine .chain (h.pathWalk_within hT hcwd path hs) fun s1 walked hs1 hw => ?_
  obtain ⟨hd, hlast⟩ := hw
  rcases walked with ⟨d, _ | n⟩
  · exact okIs_ok hs1 hd
  refine .ask (h.lookup s1 hs1 d n) fun s2 found hs2 hfound => ?_
  refine .ask (h.kind s2 hs2 _) fun s3 kind hs3 _ => .ite (fun _ => ?_) fun _ => ?_
  · exact okIs_ok hs3 (hT.below_look hd (hlast n rfl) hfound)
  cases links with
  | zero => exact okIs_error hs3
  | succ links =>
    have hlt := Nat.lt_succ_self links
    refine (h.readLink _ s3 hs3).bind (fun s4 target hs4 => .ite (fun _ => ih links hlt _
      hs4) fun _ => ?_)
      fun s4 e hs4 => okIs_error hs4
    exact (h.keepsAll.dirPath t _ s4 hs4).bind (fun s5 dir hs5 => .ite (fun _ => okIs_error hs5)
      fun _ => ih links hlt _ hs5)
      fun s5 e hs5 => okIs_error hs5

end Jail

/-! ## The path of a directory -/

/-- `"/a/b/c"`. -/
def joinPath (l : List Name) : List UInt8 := l.flatMap fun n => slash :: n

def joined : List Name → List (Name × List UInt8)
  | [] => []
  | n :: l => (n, joinPath l) :: joined l

lemma components_append {n} (hn : slash ∉ n) (q acc : List UInt8) :
    components (n ++ q) acc = components q (n.reverse ++ acc) := by
  induction n generalizing acc with
  | nil => rfl
  | cons c n ih =>
    have hc : c ≠ slash := fun hc => hn (hc ▸ mem_cons_self)
    rw [cons_append, components, if_neg hc, ih (fun hmem => hn (mem_cons_of_mem c hmem)),
      reverse_cons, append_assoc, singleton_append]

lemma components_joinPath {l} (hl : ∀ n ∈ l, n ≠ [] ∧ slash ∉ n) : components (joinPath l)
    [] = joined l := by
  induction l with
  | nil => rfl
  | cons n l ih =>
    obtain ⟨hne, hslash⟩ := hl n (.head _)
    have hrest := ih fun m hm => hl m (.tail _ hm)
    have hjoin : joinPath (n :: l) = slash :: (n ++ joinPath l) := rfl
    rw [hjoin, components, if_pos rfl, if_pos rfl, components_append hslash, append_nil, joined]
    rcases l with _ | ⟨m, l⟩
    · have hrev : n.reverse ≠ [] := by simpa using hne
      rw [joinPath, flatMap_nil, components, if_neg hrev, reverse_reverse]
      rfl
    have hjoin' : joinPath (m :: l) = slash :: (m ++ joinPath l) := rfl
    have hrev : n.reverse ≠ [] := by simpa using hne
    rw [hjoin', components, if_pos rfl, if_pos rfl] at hrest
    rw [hjoin', components, if_pos rfl, if_neg hrev, reverse_reverse, hrest]

/-- There are steps for the names `l`, and room before `q`. -/
def Room (l : List Name) (depth : Nat) (q : List UInt8) : Prop :=
  l.length ≤ depth ∧ (l = [] ∨ (joinPath l).length + q.length ≤ pathMax - 1)

lemma joinPath_concat (l n) : joinPath (l ++ [n]) = joinPath l ++ slash :: n := by
  simp [joinPath]

section Named

variable {σ : Type} {fs : Walker σ} {P : σ → Prop} {T : Tree} {rank : Nat → Nat} {t : Task} {s : σ}
  {l : List Name} {x : Nat}

lemma Tree.Sound.names (hT : T.Sound rank) {d} (hl : T.Descends d l x) : ∀ n ∈ l, n ≠ [] ∧
    slash ∉ n := by
  induction l generalizing d with
  | nil => exact fun n hn => absurd hn not_mem_nil
  | cons m l ih =>
    obtain ⟨c, ty, -, hlook, hrest⟩ := hl
    intro n hn
    rcases mem_cons.1 hn with rfl | hn
    · exact ⟨(hT.name hlook).1, (hT.name hlook).2.1⟩
    · exact ih hrest n hn

/-- `"/"` leads to the root. -/
lemma resolve_slash (hs : P s) (links) : Ends (pathResolve fs t links [slash]) s fun s' r => P s' ∧
    r = .ok t.root := by
  have hwalk : Ends (pathWalk fs t [slash]) s fun s' r => P s' ∧ r = .ok (t.root, none) := by
    rw [pathWalk, symlinkMaxDepth, walkLinks]
    exact ⟨hs, rfl⟩
  rw [pathResolve.eq_def]
  exact ends_answer hwalk rfl fun _ hs1 => ⟨hs1, rfl⟩

variable (h : fs.Shows P T) (hT : T.Sound rank)

include h hT

/-- A walk along the names that lead to a directory comes to the last of them. -/
lemma Walker.Shows.walkComps_joined {d} (hs : P s) (hne : l ≠ []) (hl : T.Descends d l x) :
    Ends (walkComps fs t (joined l) d) s fun s' r => P s' ∧
      ∃ d' n ty, r = .ok (.done d' (some n)) ∧ T.look d' n = .ok (x, ty) := by
  induction l generalizing d s with
  | nil => exact absurd rfl hne
  | cons n l ih =>
    obtain ⟨c, ty, hplain, hlook, hrest⟩ := hl
    have hlen : ¬nameMax < n.length := by
      have hname := (hT.name hlook).2.2
      omega
    rw [joined, walkComps, if_neg hlen, if_neg (fun hand => hplain.2 hand.2)]
    rcases l with _ | ⟨m, l⟩
    · rw [Tree.Descends] at hrest
      subst hrest
      exact ⟨hs, d, n, ty, rfl, hlook⟩
    have hc : T.kind c = .ok .dir := by
      obtain ⟨c', ty', -, hlook', -⟩ := hrest
      exact hT.dir hlook'
    refine .ite (fun hnil => by simp [joinPath] at hnil) fun _ => ?_
    refine ends_answer (h.lookup s hs d n) hlook fun s1 hs1 => ?_
    have hgo := fun {s} hs => ih (s := s) hs (cons_ne_nil m l) hrest
    rcases hT.type hplain hlook hc with rfl | rfl
    · exact hgo hs1
    · exact ends_answer (h.kind s1 hs1 c) hc fun s2 hs2 => hgo hs2

lemma Walker.Shows.resolve_joinPath (hs : P s) (hne : l ≠ []) (hl : T.Descends t.root l x)
    (hx : T.kind x = .ok .dir) (links) : Ends (pathResolve fs t links (joinPath l)) s fun s' r => P
    s' ∧ r = .ok x := by
  have hhead : (joinPath l).head? = some slash := by
    rcases l with _ | ⟨n, l⟩
    · exact absurd rfl hne
    · rfl
  have hwalk : Ends (pathWalk fs t (joinPath l)) s fun s' r => P s' ∧
      ∃ d' n ty, r = .ok (d', some n) ∧ T.look d' n = .ok (x, ty) := by
    rw [pathWalk, if_pos hhead, components_joinPath (hT.names hl), symlinkMaxDepth, walkLinks]
    refine (h.walkComps_joined hT hs hne hl).bind (fun s1 r hr => ?_) fun s1 e he => ?_
    · obtain ⟨hs1, d', n, ty, hr, hlook⟩ := hr
      obtain rfl := ok.inj hr
      exact ⟨hs1, d', n, ty, rfl, hlook⟩
    · obtain ⟨-, d', n, ty, hr, -⟩ := he
      contradiction
  rw [pathResolve]
  refine hwalk.bind (fun s1 walked hw => ?_) fun s1 e he => ?_
  · obtain ⟨hs1, d', n, ty, hw, hlook⟩ := hw
    obtain rfl := ok.inj hw
    refine ends_answer (h.lookup s1 hs1 d' n) hlook fun s2 hs2 => ?_
    exact ends_answer (h.kind s2 hs2 x) hx fun s3 hs3 => ⟨hs3, rfl⟩
  · obtain ⟨-, d', n, ty, hr, -⟩ := he
    contradiction

/-- `ext2_dir_path` climbs from a directory to the root, if there are steps and room enough. -/
lemma Walker.Shows.dirPathLoop_spec (hs : P s) (hl : T.Descends t.root l x)
    (hx : T.kind x = .ok .dir)
    (depth : Nat) (q : List UInt8) :
    Ends (dirPathLoop fs t depth x q) s fun s' r => P s' ∧
    (Room l depth q → r = .ok (joinPath l ++ q)) ∧
      (¬Room l depth q → ∃ e, r = .error e) := by
  induction l using reverseRecOn generalizing x depth q s with
  | nil =>
    rw [Tree.Descends] at hl
    have hstop : dirPathLoop fs t depth x q = pure q := by
      rcases depth with _ | depth <;> rw [dirPathLoop, if_pos hl]
    rw [hstop]
    exact ⟨hs, fun _ => rfl, fun hno => absurd ⟨Nat.zero_le _, .inl rfl⟩ hno⟩
  | append_singleton l n ih =>
    obtain ⟨y, ty, hy, hplain, hlook⟩ := Tree.descends_concat.1 hl
    have hrank := hT.rank_descends hl hx
    have hranky := hT.rank hplain hlook hx
    have hlen : (joinPath (l ++ [n])).length = (joinPath l).length + n.length + 1 := by
      rw [joinPath_concat, length_append, length_cons]
      omega
    have hlist : (l ++ [n]).length = l.length + 1 := by rw [length_append, length_singleton]
    have hnil : l ++ [n] ≠ [] := by simp
    have hroot : x ≠ t.root := by
      rintro rfl
      omega
    obtain ⟨ty', hup⟩ := hT.up hplain hlook hx
    rcases depth with _ | depth
    · rw [dirPathLoop, if_neg hroot]
      refine ⟨hs, fun hroom => ?_, fun _ => ⟨_, rfl⟩⟩
      have hsteps := hroom.1
      omega
    rw [dirPathLoop, if_neg hroot]
    refine ends_answer (h.lookup s hs x dotdot) hup fun s1 hs1 => ?_
    refine .ite (fun heq => ?_) fun _ => ?_
    · dsimp only at heq
      rw [heq] at hranky
      omega
    refine (h.nameIn s1 hs1 y n x ty hplain hlook).bind (fun s2 name hname => ?_) fun s2 e he => ?_
    · obtain ⟨hs2, n', ty'', hn', hplain', hlook'⟩ := hname
      obtain rfl := ok.inj hn'
      obtain rfl := hT.only hplain hplain' hlook hlook' hx
      refine .ite (fun hfull => ?_) fun hroom => ?_
      · refine ⟨hs2, ?_, fun _ => ⟨_, rfl⟩⟩
        rintro ⟨-, hempty | hle⟩
        · exact absurd hempty hnil
        · omega
      have hiff : Room l depth (slash :: (n ++ q)) ↔ Room (l ++ [n]) (depth + 1) q := by
        have hempty : (joinPath ([] : List Name)).length = 0 := rfl
        rw [Room, Room, hlen, hlist, length_cons, length_append]
        constructor
        · rintro ⟨hd, rfl | hle⟩
          iterate 2 · exact ⟨by omega, .inr (by omega)⟩
        rintro ⟨hd, hempty | hle⟩
        · exact absurd hempty hnil
        · exact ⟨by omega, .inr (by omega)⟩
      have hjoin : joinPath (l ++ [n]) ++ q = joinPath l ++ slash :: (n ++ q) := by
        rw [joinPath_concat, append_assoc, cons_append]
      rw [← hiff, hjoin]
      exact ih hs2 hy (hT.dir hlook) depth (slash :: (n ++ q))
    · obtain ⟨-, n', ty'', hn', -⟩ := he
      contradiction

/-- **A directory's path leads back to it, if there is room for it**, and otherwise there is none.
-/
lemma Walker.Shows.dirPath_named (hs : P s) (hl : T.Descends t.root l x)
    (hx : T.kind x = .ok .dir) :
    Ends (dirPath fs t x) s fun s' r => P s' ∧ (l.length ≤ 64 ∧ (joinPath l).length ≤ 1023 →
    ∃ p, r = .ok p ∧
        ∀ s1, P s1 → ∀ links, Ends (pathResolve fs t links p) s1 fun s2 r' => P s2 ∧ r' = .ok x) ∧
      (¬(l.length ≤ 64 ∧ (joinPath l).length ≤ 1023) → ∃ e, r = .error e) := by
  have hroom : Room l 64 [] ↔ l.length ≤ 64 ∧ (joinPath l).length ≤ 1023 := by
    have hempty : (joinPath ([] : List Name)).length = 0 := rfl
    rw [Room, pathMax, length_nil]
    constructor
    · rintro ⟨hd, rfl | hle⟩
      iterate 2 · exact ⟨hd, by omega⟩
    · rintro ⟨hd, hle⟩
      exact ⟨hd, .inr (by omega)⟩
  refine (h.dirPathLoop_spec hT hs hl hx 64 []).bind (fun s1 path hpath => ?_) fun s1 e he => ?_
  · obtain ⟨hs1, hyes, hno⟩ := hpath
    refine ⟨hs1, fun hfits => ⟨_, rfl, fun s2 hs2 links => ?_⟩, fun hfits => ?_⟩
    · obtain rfl := ok.inj (hyes (hroom.2 hfits))
      rw [append_nil]
      by_cases hnil : l = []
      · subst hnil
        rw [Tree.Descends] at hl
        subst hl
        exact resolve_slash hs2 links
      have hjoin : joinPath l ≠ [] := by
        rcases l with _ | ⟨n, l⟩
        · exact absurd rfl hnil
        · simp [joinPath]
      rw [if_neg hjoin]
      exact h.resolve_joinPath hT hs2 hnil hl hx links
    · obtain ⟨e, he⟩ := hno fun hr => hfits (hroom.1 hr)
      contradiction
  · obtain ⟨hs1, hyes, -⟩ := he
    refine ⟨hs1, fun hfits => ?_, fun _ => ⟨e, rfl⟩⟩
    have herr := hyes (hroom.2 hfits)
    contradiction

end Named

end Sage040.Fs
